set_option autoImplicit false

/-!
# Remembered results

A value together with what a function makes of it. The result is worked out when it is first asked for and
then kept with the value. It is determined by the value, so two of these are equal as soon as their values
are.
-/
namespace EvictingDeque

structure Memo {α β : Type} (f : α → β) where
  value : α
  kept : Thunk β
  kept_get : kept.get = f value

namespace Memo

variable {α β : Type} {f : α → β}

def of (f : α → β) (value : α) : Memo f := ⟨value, Thunk.mk fun _ => f value, rfl⟩

def result (memo : Memo f) : β := memo.kept.get

@[simp]
theorem value_of (f : α → β) (value : α) : (of f value).value = value := rfl

@[simp]
theorem result_eq (memo : Memo f) : memo.result = f memo.value := memo.kept_get

theorem eq_of_value_eq {a b : Memo f} (h : a.value = b.value) : a = b := by
  rcases a with ⟨value, ⟨run⟩, hrun⟩
  rcases b with ⟨other, ⟨run'⟩, hrun'⟩
  have hv : value = other := h
  subst hv
  have hr : run = run' := funext fun _ => hrun.trans hrun'.symm
  subst hr
  rfl

end Memo

end EvictingDeque
