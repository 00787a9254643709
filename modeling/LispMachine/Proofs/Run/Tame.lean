import LispMachine.Run
/-!
# What a run leaves alone

A run may change almost everything in the world, but not the code: the loaded units keep their
instructions, constants and children, and their call sites keep what they are for; only the caches in
them change.  The classes stay as well.  `World.code` is that part of the world.

A run that is `Tame` keeps the code and never throws one of the failures with which the machine
reports that its code is broken (`Fault`); a run that `Keeps` the code may throw these as well.  What is
thrown is an exception in any case.  Both kinds of run compose, so a proof about a run follows its text.
-/
namespace LispMachine

/-- A unit without the caches of its call sites. -/
structure LinkedCode where
  unit : CompiledUnit
  constants : Array Value
  hosts : Array (Option HostMember)
  children : Array Nat
  keywords : Array Keyword
  protocols : Array (Nat × String)

/-- What loading has fixed about a unit. -/
def LoadedUnit.linked (u : LoadedUnit) : LinkedCode :=
  { unit := u.unit, constants := u.constants, hosts := u.hosts, children := u.children
    keywords := u.keywordSites.map (·.keyword)
    protocols := u.protocolSites.map fun s => (s.protocol, s.method) }

/-- The part of the world that no run changes. -/
def World.code (w : World) : Array LinkedCode × ClassTable := (w.units.map LoadedUnit.linked, w.classes)

namespace Machine

/-- The ways in which the machine reports that the code it runs is broken. -/
inductive Fault where
  | stackUnderflow
  | localOutOfRange
  | unboundLabel
  | constantOutOfRange
  | unitOutOfRange
  | keywordSiteOutOfRange
  | protocolSiteOutOfRange
  | fellOffEnd
  deriving DecidableEq, Repr

/-- The failure that stands for a fault. -/
def Fault.failure : Fault → Failure
  | .stackUnderflow => .internal "stack underflow"
  | .localOutOfRange => .internal "local out of range"
  | .unboundLabel => .internal "unbound label"
  | .constantOutOfRange => .internal "constant out of range"
  | .unitOutOfRange => .internal "unit out of range"
  | .keywordSiteOutOfRange => .internal "keyword site out of range"
  | .protocolSiteOutOfRange => .internal "protocol site out of range"
  | .fellOffEnd => .internal "control fell off the end"

end Machine

/-- A failure with which the machine does not blame the code. -/
def Failure.Harmless (f : Failure) : Prop := ∀ fault : Machine.Fault, f ≠ fault.failure

namespace Failure

theorem harmless_of_type {f : Failure} (h : f.type ≠ ClassId.illegalState) : f.Harmless := by
  intro fault he
  rw [he] at h
  cases fault <;> exact h rfl

/-- The texts of all faults start with the same letter. -/
theorem Harmless.of_head {f : Failure} (h : f.message.toList.head? ≠ some 'i') : f.Harmless := by
  intro fault he
  rw [he] at h
  cases fault <;> exact h (by decide)

@[simp] theorem harmless_illegalArgument (m : String) : (illegalArgument m).Harmless :=
  harmless_of_type (by decide : ClassId.illegalArgument ≠ ClassId.illegalState)

@[simp] theorem harmless_arithmetic (m : String) : (arithmetic m).Harmless :=
  harmless_of_type (by decide : ClassId.arithmetic ≠ ClassId.illegalState)

@[simp] theorem harmless_unsupported (m : String) : (unsupported m).Harmless :=
  harmless_of_type (by decide : ClassId.unsupported ≠ ClassId.illegalState)

@[simp] theorem harmless_nullPointer (m : String) : (nullPointer m).Harmless :=
  harmless_of_type (by decide : ClassId.nullPointer ≠ ClassId.illegalState)

@[simp] theorem harmless_outOfBounds (i : Int) : (outOfBounds i).Harmless :=
  harmless_of_type (by decide : ClassId.indexOutOfBounds ≠ ClassId.illegalState)

@[simp] theorem harmless_classCast (v : Value) (t : String) : (classCast v t).Harmless :=
  harmless_of_type (by decide : ClassId.classCast ≠ ClassId.illegalState)

@[simp] theorem harmless_arity (n : Nat) (t : String) : (arity n t).Harmless :=
  harmless_of_type (by decide : ClassId.arity ≠ ClassId.illegalState)

end Failure

def Value.IsException : Value → Prop
  | .exception .. => True
  | _ => False

namespace Run

/-- In this world the run keeps the code and does not blame it. -/
structure TameAt {α : Type} (x : Run α) (w : World) : Prop where
  code : (x w).2.code = w.code
  faultless : ∀ (id : Nat) (fault : Machine.Fault), (x w).1 ≠ .thrown (exceptionOf id fault.failure)
  exceptions : ∀ t, (x w).1 = .thrown t → t.IsException

/-- The run keeps the code and does not blame it. -/
def Tame {α : Type} (x : Run α) : Prop := ∀ w, x.TameAt w

variable {α β : Type}

theorem Tame.at {x : Run α} (h : Tame x) (w : World) : x.TameAt w := h w

/-- A run that changes the world, but not the code, and gives a value. -/
theorem tameAt_of_value {x : Run α} {a : α} {w w' : World} (hx : x w = (.value a, w')) (hc : w'.code = w.code) : x.TameAt w := by
  refine ⟨by rw [hx]; exact hc, fun id fault h => ?_, fun t h => ?_⟩ <;> rw [hx] at h <;> cases h

theorem tame_pure (a : α) : Tame (Pure.pure a : Run α) := fun _ => tameAt_of_value rfl rfl

theorem tame_abort : Tame (abort : Run α) := by
  refine fun w => ⟨rfl, fun id fault h => ?_, fun t h => ?_⟩ <;> cases h

theorem tameAt_bind {x : Run α} {f : α → Run β} {w : World} (hx : x.TameAt w)
    (hf : ∀ a w', x w = (.value a, w') → (f a).TameAt w') : (x >>= f).TameAt w := by
  obtain ⟨hc, ht, he⟩ := hx
  rcases hxw : x w with ⟨a | t | _, w'⟩ <;> rw [hxw] at hc ht he
  · have hbind : (x >>= f) w = f a w' := by simp only [Bind.bind, Run.bind, hxw]
    have hfa := hf a w' hxw
    exact ⟨by rw [hbind]; exact hfa.code.trans hc, by rw [hbind]; exact hfa.faultless, by rw [hbind]; exact hfa.exceptions⟩
  · have hbind : (x >>= f) w = (.thrown t, w') := by simp only [Bind.bind, Run.bind, hxw]
    refine ⟨by rw [hbind]; exact hc, fun id fault h => ?_, fun t' h => ?_⟩ <;> rw [hbind] at h <;> cases h
    · exact ht id fault rfl
    · exact he t rfl
  · have hbind : (x >>= f) w = (.cut, w') := by simp only [Bind.bind, Run.bind, hxw]
    refine ⟨by rw [hbind]; exact hc, fun id fault h => ?_, fun t' h => ?_⟩ <;> rw [hbind] at h <;> cases h

theorem tame_bind {x : Run α} {f : α → Run β} (hx : Tame x) (hf : ∀ a, Tame (f a)) :
    Tame (x >>= f) := fun w => tameAt_bind (hx w) fun a w' _ => hf a w'

theorem tame_raise {f : Failure} (h : f.Harmless) : Tame (raise f : Run α) := by
  refine fun w => ⟨rfl, fun id fault he => h fault ?_, fun t he => by cases he; trivial⟩
  simp only [raise, exceptionOf, Outcome.thrown.injEq, Value.exception.injEq, Option.some.injEq] at he
  obtain ⟨type, message⟩ := f
  obtain ⟨_, ht, hm, _⟩ := he
  simp only at ht hm
  rw [ht, hm]

/-- Every failure of the computation is harmless. -/
def Spared (x : Except Failure α) : Prop := ∀ f, x = .error f → f.Harmless

theorem spared_ok (a : α) : Spared (.ok a) := fun _ h => by cases h

theorem spared_pure (a : α) : Spared (Pure.pure a : Except Failure α) := spared_ok a

theorem spared_error {f : Failure} (h : f.Harmless) : Spared (.error f : Except Failure α) :=
  fun _ he => by cases he; exact h

theorem spared_bind {x : Except Failure α} {f : α → Except Failure β} (hx : Spared x)
    (hf : ∀ a, Spared (f a)) : Spared (x >>= f) := by
  cases x with
  | ok a => exact hf a
  | error e => exact spared_error (hx e rfl)

theorem spared_map {x : Except Failure α} {f : α → β} (hx : Spared x) : Spared (x.map f) := by
  cases x with
  | ok a => exact spared_ok _
  | error e => exact spared_error (hx e rfl)

theorem spared_foldlM {f : β → α → Except Failure β} (hf : ∀ b a, Spared (f b a)) :
    ∀ (as : List α) (b : β), Spared (as.foldlM f b)
  | [], b => spared_ok b
  | a :: as, b => by
    rw [List.foldlM_cons]
    exact spared_bind (hf b a) fun b' => spared_foldlM hf as b'

theorem spared_mapM {f : α → Except Failure β} (hf : ∀ a, Spared (f a)) :
    ∀ as : List α, Spared (as.mapM f)
  | [] => spared_ok _
  | a :: as => by
    rw [List.mapM_cons]
    exact spared_bind (hf a) fun _ => spared_bind (spared_mapM hf as) fun _ => spared_ok _

theorem tame_ofExcept {x : Except Failure α} (h : Spared x) : Tame (ofExcept x) := by
  cases x with
  | ok a => exact tame_pure a
  | error f => exact tame_raise (h f rfl)

theorem tame_world : Tame world := fun _ => tameAt_of_value rfl rfl

theorem world_bind (f : World → Run α) (w : World) : (world >>= f) w = f w w := rfl

theorem tameAt_world_bind {f : World → Run α} {w : World} (h : (f w).TameAt w) : (world >>= f).TameAt w :=
  ⟨h.code, h.faultless, h.exceptions⟩

theorem tame_modify {f : World → World} (h : ∀ w, (f w).code = w.code) : Tame (modify f) :=
  fun w => tameAt_of_value rfl (h w)

theorem tame_change {f : World → α × World} (h : ∀ w, (f w).2.code = w.code) : Tame (change f) :=
  fun w => tameAt_of_value rfl (h w)

theorem tame_forList {f : α → Run β} (hf : ∀ a, Tame (f a)) : ∀ as : List α, Tame (forList f as)
  | [] => tame_pure _
  | a :: as => tame_bind (hf a) fun _ => tame_bind (tame_forList hf as) fun _ => tame_pure _

theorem tame_foldList {f : β → α → Run β} (hf : ∀ b a, Tame (f b a)) :
    ∀ (b : β) (as : List α), Tame (foldList f b as)
  | b, [] => tame_pure b
  | b, a :: as => tame_bind (hf b a) fun b' => tame_foldList hf b' as

theorem tame_alloc (n : Nat) : Tame (alloc n) := fun _ => tameAt_of_value rfl rfl

theorem tame_newList (items : List Value) : Tame (newList items) :=
  tame_bind (tame_alloc 1) fun _ => tame_pure _

theorem tame_newVector (items : List Value) : Tame (newVector items) :=
  tame_bind (tame_alloc 1) fun _ => tame_pure _

theorem tame_newMap (pairs : List (Value × Value)) : Tame (newMap pairs) :=
  tame_bind (tame_alloc 1) fun _ => tame_pure _

theorem tame_newSet (items : List Value) : Tame (newSet items) :=
  tame_bind (tame_alloc 1) fun _ => tame_pure _

theorem tame_itemsOf (v : Value) : Tame (itemsOf v) := by
  refine tame_bind (tame_alloc _) fun id => ?_
  split
  · exact tame_pure _
  · exact tame_raise (by simp)

/-! ## Runs that keep the code -/

/-- What a run leads to from this world: the code is kept, and what is thrown is an exception. -/
structure Kept (w : World) (r : Outcome α × World) : Prop where
  code : r.2.code = w.code
  exceptions : ∀ t, r.1 = .thrown t → t.IsException

theorem Kept.after {w w' : World} {r : Outcome α × World} (h : Kept w' r) (hc : w'.code = w.code) : Kept w r :=
  ⟨h.code.trans hc, h.exceptions⟩

/-- The run keeps the code. -/
def Keeps (x : Run α) : Prop := ∀ w, Kept w (x w)

theorem Tame.keeps {x : Run α} (h : Tame x) : Keeps x := fun w => ⟨(h w).code, (h w).exceptions⟩

theorem keeps_pure (a : α) : Keeps (Pure.pure a : Run α) := (tame_pure a).keeps

theorem keeps_bind {x : Run α} {f : α → Run β} (hx : Keeps x) (hf : ∀ a, Keeps (f a)) :
    Keeps (x >>= f) := by
  intro w
  have hc := hx w
  simp only [Bind.bind, Run.bind]
  split <;> rename_i he <;> rw [he] at hc
  · exact (hf _ _).after hc.code
  · exact ⟨hc.code, fun t h => hc.exceptions t (by cases h; rfl)⟩
  · exact ⟨hc.code, fun t h => by cases h⟩

theorem keeps_raise (f : Failure) : Keeps (raise f : Run α) := fun _ => ⟨rfl, fun _ h => by cases h; trivial⟩

theorem keeps_throw {v : Value} (h : v.IsException) : Keeps (throw v : Run α) := fun _ => ⟨rfl, fun _ he => by cases he; exact h⟩

theorem keeps_ofExcept (x : Except Failure α) : Keeps (ofExcept x) := by
  cases x with
  | ok a => exact keeps_pure a
  | error f => exact keeps_raise f

end Run

end LispMachine
