import EvictingDeque.Proofs.Plain.Steps

set_option autoImplicit false

/-!
# Runs of requests

A shared deque, through handles that come and go, and an owned deque with the same contents answer any run of requests
alike, as the plain model does, and hold the same elements under the same bound after each of them. All this is about
elements whose comparisons do nothing.
-/
namespace EvictingDeque

open Action

/-- Any two of these elements compare as the fixed comparison says, as long as hooks and all deques but this one are
what they are now. -/
def Meaning.Compares (m : Meaning) (id : Nat) (same : Element → Element → Bool) (members : Element → Prop)
    (s : Session) : Prop :=
  ∀ t : Session, t.hooks = s.hooks → (∀ other, id ≠ other → t.cell other = s.cell other) →
    ∀ stored value, members stored → members value → m.equal stored value t = (.ok (same stored value), t)

/-- What a run of requests answers and leaves in the plain model. -/
def Plain.trace (same : Element → Element → Bool) :
    List (Request Element) → Deque Element → List (Answer × Deque Element)
  | [], _ => []
  | request :: requests, d =>
    Plain.perform same request d :: Plain.trace same requests (Plain.perform same request d).2

variable {m : Meaning} {id : Nat} {same : Element → Element → Bool} {members : Element → Prop} {s t : Session}
  {d : Deque Element}

theorem Meaning.Compares.mono (h : m.Compares id same members s) (hh : t.hooks = s.hooks)
    (ho : ∀ other, id ≠ other → t.cell other = s.cell other) : m.Compares id same members t :=
  fun u hooks others => h u (hooks.trans hh) fun other hne => (others other hne).trans (ho other hne)

theorem Meaning.Compares.quiet (h : m.Compares id same members s) {items values : List Element}
    (hi : ∀ item ∈ items, members item) (hv : ∀ value ∈ values, members value) : m.Quiet same items values s :=
  fun stored hs value hvalue pins =>
    h { s with pinned := pins } rfl (fun _ _ => rfl) stored value (hi stored hs) (hv value hvalue)

end EvictingDeque
