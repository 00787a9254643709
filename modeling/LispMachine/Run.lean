import LispMachine.World.Basic
/-!
# Running

A run takes the world it finds and leaves the world it has changed, whether it ends with a value or
by throwing.  A run may also be cut short, because its allowance is spent or because the machine gives up
(`World.aborted`); that is neither a value nor an exception, and no program can notice it.
-/
namespace LispMachine

inductive Outcome (α : Type) where
  | value (a : α)
  | thrown (v : Value)
  | cut
  deriving Inhabited

def Run (α : Type) := World → Outcome α × World

namespace Run

@[inline] def pure {α : Type} (a : α) : Run α := fun w => (.value a, w)

@[inline] def bind {α β : Type} (x : Run α) (f : α → Run β) : Run β := fun w =>
  match x w with
  | (.value a, w) => f a w
  | (.thrown v, w) => (.thrown v, w)
  | (.cut, w) => (.cut, w)

@[inline] instance : Monad Run where
  pure := Run.pure
  bind := Run.bind

instance : LawfulMonad Run := LawfulMonad.mk' Run
  (by
    intro α x
    funext w
    show (match x w with
      | (.value a, w) => (Outcome.value a, w)
      | (.thrown v, w) => (.thrown v, w)
      | (.cut, w) => (.cut, w)) = x w
    rcases x w with ⟨_ | _ | _, _⟩ <;> rfl)
  (fun _ _ => rfl)
  (by
    intro α β γ x f g
    funext w
    simp only [Bind.bind, Run.bind]
    rcases x w with ⟨_ | _ | _, _⟩ <;> rfl)

instance {α : Type} : Inhabited (Run α) := ⟨fun w => (.cut, w)⟩

@[inline] def throw {α : Type} (v : Value) : Run α := fun w => (.thrown v, w)

def exceptionOf (id : Nat) (f : Failure) : Value := .exception id f.type (some f.message) .nil none

@[inline] def raise {α : Type} (f : Failure) : Run α := fun w =>
  (.thrown (exceptionOf w.nextId f), { w with nextId := w.nextId + 1 })

/-- Gives up.  There is no exception that could be caught, and nothing comes after it. -/
def abort {α : Type} : Run α := fun w => (.cut, { w with aborted := true })

@[inline] def ofExcept {α : Type} : Except Failure α → Run α
  | .ok a => Run.pure a
  | .error f => raise f

@[inline] def world : Run World := fun w => (.value w, w)

@[inline] def read {α : Type} (f : World → α) : Run α := fun w => (.value (f w), w)

@[inline] def modify (f : World → World) : Run PUnit := fun w => (.value ⟨⟩, f w)

/-- A change of the world that also gives a result. -/
@[inline] def change {α : Type} (f : World → α × World) : Run α := fun w =>
  let (a, w) := f w
  (.value a, w)

/-- The first of so many new identities. -/
@[inline] def alloc (n : Nat) : Run Nat := fun w =>
  (.value w.nextId, { w with nextId := w.nextId + n })

/-! ## New collections -/

def newList (items : List Value) : Run Value := do return .list (← alloc 1) items

def newVector (items : List Value) : Run Value := do return .vector (← alloc 1) items

/-- A map whose entries are put in one after the other. -/
def newMap (pairs : List (Value × Value)) : Run Value := do
  return .map (← alloc 1) (Value.Entries.ofList pairs)

def newSet (items : List Value) : Run Value := do return .set (← alloc 1) (Value.Members.ofList items)

/-- The elements of a value, or a failure if it has none to speak of. -/
def itemsOf (v : Value) : Run (List Value) := do
  let id ← alloc v.entryCount
  match v.items? id with
  | some items => return items
  | none => raise (.classCast v "ISeq")

def forList {α β : Type} (f : α → Run β) : List α → Run (List β)
  | [] => return []
  | x :: xs => do
    let y ← f x
    return y :: (← forList f xs)

def foldList {α β : Type} (f : β → α → Run β) : β → List α → Run β
  | acc, [] => return acc
  | acc, x :: xs => do foldList f (← f acc x) xs

end Run

end LispMachine
