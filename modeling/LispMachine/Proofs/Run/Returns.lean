import LispMachine.Run
/-!
# What runs return

How the first of two steps decides what both do, and a property of the value of a run, in case it ends with one.
-/
namespace LispMachine.Run

variable {α β : Type}

/-! ## The first of two steps -/

theorem bind_value {x : Run α} {k : α → Run β} {a : α} {w w' : World} (h : x w = (.value a, w')) : (x >>= k) w = k a w' := by
  simp only [Bind.bind, Run.bind, h]

theorem bind_thrown {x : Run α} {k : α → Run β} {t : Value} {w w' : World} (h : x w = (.thrown t, w')) :
    (x >>= k) w = (.thrown t, w') := by
  simp only [Bind.bind, Run.bind, h]

theorem bind_cut {x : Run α} {k : α → Run β} {w w' : World} (h : x w = (.cut, w')) : (x >>= k) w = (.cut, w') := by
  simp only [Bind.bind, Run.bind, h]

theorem ofExcept_ok (a : α) : ofExcept (.ok a) = (Pure.pure a : Run α) := rfl

/-! ## Properties of values -/

/-- The value of the run, if it ends with one, has the property. -/
def Returns (x : Run α) (Q : α → Prop) : Prop := ∀ (w : World) (a : α) (w' : World), x w = (.value a, w') → Q a

variable {P Q : α → Prop}

theorem returns_pure {a : α} (h : Q a) : Returns (Pure.pure a) Q := by
  intro w a' w' he
  cases he
  exact h

theorem returns_any (x : Run α) : Returns x fun _ => True := fun _ _ _ _ => trivial

theorem returns_bind {x : Run α} {f : α → Run β} {Q : β → Prop} (hx : Returns x P) (hf : ∀ a, P a → Returns (f a) Q) :
    Returns (x >>= f) Q := by
  intro w b w' he
  simp only [Bind.bind, Run.bind] at he
  rcases h : x w with ⟨a | t | _, w₁⟩ <;> rw [h] at he
  · exact hf a (hx w a w₁ h) w₁ b w' he
  · cases he
  · cases he

/-- Whatever comes before the end does not matter. -/
theorem returns_then (x : Run α) {f : α → Run β} {Q : β → Prop} (hf : ∀ a, Returns (f a) Q) : Returns (x >>= f) Q :=
  returns_bind (returns_any x) fun a _ => hf a

theorem returns_raise (f : Failure) : Returns (raise f) Q := fun _ _ _ he => by cases he

theorem returns_ofExcept {x : Except Failure α} (h : ∀ a, x = .ok a → Q a) : Returns (ofExcept x) Q := by
  cases x with
  | error e => exact returns_raise e
  | ok a => exact returns_pure (h a rfl)

end LispMachine.Run
