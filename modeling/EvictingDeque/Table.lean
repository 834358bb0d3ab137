set_option autoImplicit false

/-!
# Tables

A finite map as a list of pairs. Writing to a key that is present keeps its place, a new key goes to the
end, and reading after writing needs no invariant.
-/
namespace EvictingDeque

structure Table (κ β : Type) where
  entries : List (κ × β)

namespace Table

variable {κ β : Type} [DecidableEq κ]

def empty : Table κ β := ⟨[]⟩

def getEntries? (key : κ) : List (κ × β) → Option β
  | [] => none
  | (k, b) :: rest => if k = key then some b else getEntries? key rest

def putEntries (key : κ) (value : β) : List (κ × β) → List (κ × β)
  | [] => [(key, value)]
  | (k, b) :: rest => if k = key then (k, value) :: rest else (k, b) :: putEntries key value rest

def get? (table : Table κ β) (key : κ) : Option β := getEntries? key table.entries

def put (table : Table κ β) (key : κ) (value : β) : Table κ β := ⟨putEntries key value table.entries⟩

def erase (table : Table κ β) (key : κ) : Table κ β :=
  ⟨table.entries.filter fun entry => decide (entry.1 ≠ key)⟩

def values (table : Table κ β) : List β := table.entries.map (·.2)

@[simp]
theorem get?_empty (key : κ) : (empty : Table κ β).get? key = none := rfl

theorem getEntries?_putEntries (key other : κ) (value : β) (entries : List (κ × β)) :
    getEntries? other (putEntries key value entries) =
      if key = other then some value else getEntries? other entries := by
  induction entries with
  | nil => rfl
  | cons entry rest ih =>
    obtain ⟨k, b⟩ := entry
    by_cases hk : k = key
    · subst hk
      by_cases ho : k = other <;> simp [putEntries, getEntries?, ho]
    · by_cases ho : k = other
      · subst ho
        have hne : ¬ key = k := fun h => hk h.symm
        simp [putEntries, getEntries?, hk, hne]
      · simp [putEntries, getEntries?, hk, ho, ih]

theorem get?_put (table : Table κ β) (key other : κ) (value : β) :
    (table.put key value).get? other = if key = other then some value else table.get? other :=
  getEntries?_putEntries key other value table.entries

@[simp]
theorem get?_put_self (table : Table κ β) (key : κ) (value : β) :
    (table.put key value).get? key = some value := by
  simp [get?_put]

theorem get?_put_of_ne (table : Table κ β) {key other : κ} (h : key ≠ other) (value : β) :
    (table.put key value).get? other = table.get? other := by
  simp [get?_put, h]

theorem mem_of_getEntries? {key : κ} {value : β} {entries : List (κ × β)} (h : getEntries? key entries = some value) :
    (key, value) ∈ entries := by
  induction entries with
  | nil => cases h
  | cons entry rest ih =>
    obtain ⟨k, b⟩ := entry
    rw [getEntries?] at h
    split at h
    · rename_i hk
      cases h
      exact hk ▸ List.mem_cons_self
    · exact List.mem_cons_of_mem _ (ih h)

/-- A value that is written over another one shows in that place and nowhere else. -/
theorem map_putEntries {γ : Type} (f : κ × β → γ) {key : κ} {value old : β} {entries : List (κ × β)}
    (h : getEntries? key entries = some old) (hf : f (key, value) = f (key, old)) :
    (putEntries key value entries).map f = entries.map f := by
  induction entries with
  | nil => cases h
  | cons entry rest ih =>
    obtain ⟨k, b⟩ := entry
    rw [getEntries?] at h
    by_cases hk : k = key
    · subst hk
      rw [if_pos rfl] at h
      cases h
      simp [putEntries, hf]
    · rw [if_neg hk] at h
      simp [putEntries, hk, ih h]

theorem putEntries_putEntries (key : κ) (value later : β) (entries : List (κ × β)) :
    putEntries key later (putEntries key value entries) = putEntries key later entries := by
  induction entries with
  | nil => simp [putEntries]
  | cons entry rest ih =>
    by_cases hk : entry.1 = key <;> simp [putEntries, hk, ih]

theorem put_put (table : Table κ β) (key : κ) (value later : β) :
    (table.put key value).put key later = table.put key later :=
  congrArg Table.mk (putEntries_putEntries key value later table.entries)

theorem put_of_get? {table : Table κ β} {key : κ} {value : β} (h : table.get? key = some value) :
    table.put key value = table := by
  have hentries := map_putEntries id h rfl
  rw [List.map_id, List.map_id] at hentries
  exact congrArg Table.mk hentries

theorem ne_of_get?_none {table : Table κ β} {key : κ} (h : table.get? key = none) :
    ∀ entry ∈ table.entries, entry.1 ≠ key := by
  obtain ⟨entries⟩ := table
  change getEntries? key entries = none at h
  induction entries with
  | nil => exact nofun
  | cons first rest ih =>
    rw [getEntries?] at h
    split at h
    · cases h
    · rename_i hk
      intro entry he
      rcases List.mem_cons.1 he with rfl | he
      · exact hk
      · exact ih h entry he

/-- A new key goes to the end. -/
theorem entries_put_of_new {table : Table κ β} {key : κ} (h : table.get? key = none) (value : β) :
    (table.put key value).entries = table.entries ++ [(key, value)] := by
  obtain ⟨entries⟩ := table
  change putEntries key value entries = entries ++ [(key, value)]
  change getEntries? key entries = none at h
  induction entries with
  | nil => rfl
  | cons entry rest ih =>
    obtain ⟨k, b⟩ := entry
    rw [getEntries?] at h
    split at h
    · cases h
    · rename_i hk
      simp [putEntries, hk, ih h]

theorem getEntries?_map {γ : Type} (f : β → γ) (key : κ) (entries : List (κ × β)) :
    getEntries? key (entries.map fun entry => (entry.1, f entry.2)) = (getEntries? key entries).map f := by
  induction entries with
  | nil => rfl
  | cons entry rest ih => by_cases hk : entry.1 = key <;> simp [getEntries?, hk, ih]

theorem getEntries?_filter (key other : κ) (entries : List (κ × β)) :
    getEntries? other (entries.filter fun entry => decide (entry.1 ≠ key)) =
      if key = other then none else getEntries? other entries := by
  induction entries with
  | nil => simp [getEntries?]
  | cons entry rest ih =>
    obtain ⟨k, b⟩ := entry
    by_cases hk : k = key
    · subst hk
      by_cases ho : k = other <;> simp_all [getEntries?]
    · rw [List.filter_cons_of_pos (by simpa using hk)]
      by_cases ho : k = other
      · subst ho
        have hne : ¬ key = k := fun h => hk h.symm
        simp [getEntries?, hne]
      · simp only [getEntries?, ho, if_false, ih]

theorem get?_erase (table : Table κ β) (key other : κ) :
    (table.erase key).get? other = if key = other then none else table.get? other :=
  getEntries?_filter key other table.entries

theorem get?_of_get?_erase {table : Table κ β} {key other : κ} {value : β}
    (h : (table.erase key).get? other = some value) : table.get? other = some value := by
  rw [get?_erase] at h
  split at h
  · cases h
  · exact h

end Table

end EvictingDeque
