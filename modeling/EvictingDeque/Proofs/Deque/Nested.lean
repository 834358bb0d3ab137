import EvictingDeque.Deque.Bounds
import EvictingDeque.Value.Basic

set_option autoImplicit false

/-!
# Deques inside values

A nested deque is built by the same bounded construction as any other, whether it comes from a literal or from a
document, so the deques inside a value fit their bounds at every depth. Nothing reaches into a stored value, so they
keep fitting.
-/
namespace EvictingDeque.Value

variable {ρ σ : Type}

mutual
/-- The deques in a value, at every depth. -/
def deques : Value ρ → List (Deque (Value ρ))
  | .nested ⟨items, bound⟩ => ⟨items, bound⟩ :: dequesOfList items
  | _ => []
termination_by structural value => value

def dequesOfList : List (Value ρ) → List (Deque (Value ρ))
  | [] => []
  | value :: values => deques value ++ dequesOfList values
termination_by structural values => values
end

theorem deques_nested (d : Deque (Value ρ)) : (nested d).deques = d :: dequesOfList d.items := rfl

theorem mem_dequesOfList {values : List (Value ρ)} {d : Deque (Value ρ)} :
    d ∈ dequesOfList values ↔ ∃ value ∈ values, d ∈ value.deques := by
  induction values with
  | nil => simp [dequesOfList]
  | cons value values ih => simp [dequesOfList, ih]

/-- A deque of values that all fit inside fits inside itself if its elements fit its bound. -/
theorem fits_nested {d : Deque (Value ρ)} (hd : d.Fits) (hv : ∀ value ∈ d.items, ∀ e ∈ value.deques, e.Fits) :
    ∀ e ∈ (nested d).deques, e.Fits := by
  intro e he
  rcases List.mem_cons.1 (deques_nested d ▸ he) with rfl | he
  · exact hd
  · obtain ⟨value, hvalue, he⟩ := mem_dequesOfList.1 he
    exact hv value hvalue e he

mutual
/-- Whatever bounds were asked for, the deques in a replaced value fit theirs. -/
theorem fits_of_replace? (f : ρ → Option σ) (value : Value ρ) {replaced : Value σ}
    (h : value.replace? f = some replaced) : ∀ d ∈ replaced.deques, d.Fits := by
  match value, h with
  | .int _, h => cases h; simp [deques]
  | .text _, h => cases h; simp [deques]
  | .real _, h => cases h; simp [deques]
  | .keyed _ _, h => cases h; simp [deques]
  | .nested ⟨items, bound⟩, h =>
    obtain ⟨found, hf, hr⟩ := Option.map_eq_some_iff.1 h
    subst hr
    have hkept {value : Value σ} (hv : value ∈ (Deque.ofList found bound).items) : value ∈ found :=
      List.mem_of_mem_drop hv
    have hall := fits_of_replaceAll? f items hf
    exact fits_nested (Deque.fits_ofList found bound) fun value hv => hall value (hkept hv)
  | .link source, h =>
    obtain ⟨found, _, hr⟩ := Option.map_eq_some_iff.1 h
    subst hr
    simp [deques]
termination_by structural value

theorem fits_of_replaceAll? (f : ρ → Option σ) (values : List (Value ρ)) {replaced : List (Value σ)}
    (h : replaceAll? f values = some replaced) : ∀ value ∈ replaced, ∀ d ∈ value.deques, d.Fits := by
  match values, h with
  | [], h => cases h; simp
  | value :: values, h =>
    obtain ⟨first, hfirst, h⟩ := Option.bind_eq_some_iff.1 h
    obtain ⟨rest, hrest, h⟩ := Option.bind_eq_some_iff.1 h
    cases h
    intro found hm
    rcases List.mem_cons.1 hm with rfl | hm
    · exact fits_of_replace? f value hfirst
    · exact fits_of_replaceAll? f values hrest found hm
termination_by structural values
end

theorem deques_addInteger (summand : Int) (value : Value ρ) : (addInteger summand value).deques = value.deques := by
  cases value <;> simp [addInteger, deques]

end EvictingDeque.Value
