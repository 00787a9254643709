import LispMachine.Run
/-!
# Invariants of runs

A run preserves a property of worlds if the world it leaves has the property whenever the world it finds has
it, however the run ends.
-/
namespace LispMachine.Run

variable {α β : Type} {I : World → Prop}

/-- The run keeps the property, whether it ends with a value, by throwing or not at all. -/
def Preserves (I : World → Prop) (x : Run α) : Prop := ∀ w, I w → I (x w).2

theorem preserves_pure (a : α) : Preserves I (Pure.pure a : Run α) := fun _ hw => hw

theorem preserves_bind {x : Run α} {f : α → Run β} (hx : Preserves I x) (hf : ∀ a, Preserves I (f a)) : Preserves I (x >>= f) := by
  intro w hw
  have hx := hx w hw
  simp only [Bind.bind, Run.bind]
  rcases h : x w with ⟨a | t | _, w'⟩ <;> rw [h] at hx
  · exact hf a w' hx
  · exact hx
  · exact hx

theorem preserves_world : Preserves I world := fun _ hw => hw

theorem preserves_modify {f : World → World} (h : ∀ w, I w → I (f w)) : Preserves I (modify f) := h

theorem preserves_change {f : World → α × World} (h : ∀ w, I w → I (f w).2) : Preserves I (change f) := h

theorem preserves_raise (h : ∀ (w : World) (n : Nat), I w → I { w with nextId := n }) (f : Failure) : Preserves I (raise f : Run α) :=
  fun w hw => h w _ hw

theorem preserves_ofExcept (h : ∀ (w : World) (n : Nat), I w → I { w with nextId := n }) (x : Except Failure α) :
    Preserves I (ofExcept x) := by
  cases x with
  | ok a => exact preserves_pure a
  | error f => exact preserves_raise h f

end LispMachine.Run
