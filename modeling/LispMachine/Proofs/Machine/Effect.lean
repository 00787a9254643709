import LispMachine.Proofs.Code.Depths
import LispMachine.Proofs.Machine.Activation
/-!
# What an instruction does to the stack

`step` does to the operand stack what the effect of the instruction says, on the way to the next
instruction and on every jump, and it never blames the code if the instruction finds what it pops and
names only what exists.

A computation on frames is followed by its `Shift`: what it pops and pushes in all.
-/
namespace LispMachine

namespace Run

variable {α β : Type}

/-- The failures of the computation are harmless, and its result has the property. -/
def Gives (x : Except Failure α) (Q : α → Prop) : Prop := Spared x ∧ ∀ a, x = .ok a → Q a

theorem gives_ok {a : α} {Q : α → Prop} (h : Q a) : Gives (.ok a) Q :=
  ⟨spared_ok a, fun _ he => by cases he; exact h⟩

theorem gives_error {f : Failure} {Q : α → Prop} (h : f.Harmless) : Gives (.error f) Q :=
  ⟨spared_error h, fun _ he => by cases he⟩

theorem gives_of_spared {x : Except Failure α} (h : Spared x) : Gives x fun _ => True := ⟨h, fun _ _ => trivial⟩

theorem gives_bind {x : Except Failure α} {k : α → Except Failure β} {P : α → Prop} {Q : β → Prop}
    (hx : Gives x P) (hk : ∀ a, P a → Gives (k a) Q) : Gives (x >>= k) Q := by
  cases x with
  | ok a => exact hk a (hx.2 a rfl)
  | error e => exact gives_error (hx.1 e rfl)

/-- In this world the run is tame, and its result has the property. -/
def Yields (x : Run α) (w : World) (Q : α → Prop) : Prop := x.TameAt w ∧ ∀ a w', x w = (.value a, w') → Q a

theorem yields_pure {a : α} {w : World} {Q : α → Prop} (h : Q a) : Yields (Pure.pure a) w Q :=
  ⟨tame_pure a w, fun _ _ he => by cases he; exact h⟩

theorem yields_raise {f : Failure} {w : World} {Q : α → Prop} (h : f.Harmless) : Yields (raise f : Run α) w Q :=
  ⟨tame_raise h w, fun _ _ he => by cases he⟩

theorem yields_of_tame {x : Run α} (h : Tame x) (w : World) : Yields x w fun _ => True := ⟨h w, fun _ _ _ => trivial⟩

theorem yields_bind {x : Run α} {k : α → Run β} {w : World} {P : α → Prop} {Q : β → Prop} (hx : Yields x w P)
    (hk : ∀ a w', P a → Yields (k a) w' Q) : Yields (x >>= k) w Q := by
  refine ⟨tameAt_bind hx.1 fun a w' he => (hk a w' (hx.2 a w' he)).1, fun b w'' he => ?_⟩
  simp only [Bind.bind, Run.bind] at he
  split at he
  · rename_i a w' ha
    exact (hk a w' (hx.2 a w' ha)).2 b w'' he
  · cases he
  · cases he

theorem yields_tame_bind {x : Run α} {k : α → Run β} {w : World} {Q : β → Prop} (hx : Tame x)
    (hk : ∀ a w', Yields (k a) w' Q) : Yields (x >>= k) w Q :=
  yields_bind (yields_of_tame hx w) fun a w' _ => hk a w'

theorem yields_world_bind {k : World → Run α} {w : World} {Q : α → Prop} (h : Yields (k w) w Q) :
    Yields (world >>= k) w Q := ⟨tameAt_world_bind h.1, h.2⟩

theorem yields_ofExcept_bind {x : Except Failure α} {k : α → Run β} {w : World} {P : α → Prop} {Q : β → Prop}
    (hx : Gives x P) (hk : ∀ a, P a → Yields (k a) w Q) : Yields (ofExcept x >>= k) w Q := by
  cases x with
  | ok a => exact hk a (hx.2 a rfl)
  | error e => exact yields_raise (hx.1 e rfl)

end Run

open Run

namespace Frame

/-! ## Shifts -/

/-- The second frame is the first after so many slots are popped and so many pushed. -/
structure Shift (f g : Frame) (pops pushes : Nat) : Prop where
  unit : g.unit = f.unit
  method : g.method = f.method
  this : g.this = f.this
  pc : g.pc = f.pc
  locals : g.locals = f.locals
  height : g.stack.length + pops = f.stack.length + pushes

variable {f g h : Frame} {a b c d : Nat}

theorem Shift.refl (f : Frame) : Shift f f 0 0 := ⟨rfl, rfl, rfl, rfl, rfl, rfl⟩

theorem Shift.trans (hfg : Shift f g a b) (hgh : Shift g h c d) : Shift f h (a + c) (b + d) :=
  ⟨hgh.unit.trans hfg.unit, hgh.method.trans hfg.method, hgh.this.trans hfg.this, hgh.pc.trans hfg.pc,
    hgh.locals.trans hfg.locals, by have := hfg.height; have := hgh.height; omega⟩

theorem shift_push (f : Frame) (s : Slot) : Shift f (f.push s) 0 1 := ⟨rfl, rfl, rfl, rfl, rfl, rfl⟩

theorem Shift.push (hfg : Shift f g a b) (s : Slot) : Shift f (g.push s) a (b + 1) :=
  hfg.trans (shift_push g s)

theorem gives_pop (hs : 0 < f.stack.length) : Gives f.pop fun r => Shift f r.2 1 0 := by
  unfold Frame.pop
  split
  · rename_i s rest he
    exact gives_ok ⟨rfl, rfl, rfl, rfl, rfl, by rw [he]; rfl⟩
  · rename_i he
    rw [he] at hs
    exact absurd hs (Nat.lt_irrefl 0)

theorem gives_popValue (hs : 0 < f.stack.length) : Gives f.popValue fun r => Shift f r.2 1 0 :=
  gives_bind (gives_pop hs) fun _ h => gives_ok h

theorem gives_popMany {n : Nat} (hs : n ≤ f.stack.length) : Gives (f.popMany n) fun r => Shift f r.2 n 0 := by
  unfold Frame.popMany
  rw [if_neg (Nat.not_lt.2 hs)]
  exact gives_ok ⟨rfl, rfl, rfl, rfl, rfl, by simp only [List.length_drop]; omega⟩

theorem gives_popValues {n : Nat} (hs : n ≤ f.stack.length) : Gives (f.popValues n) fun r => Shift f r.2 n 0 :=
  gives_bind (gives_popMany hs) fun _ h => gives_ok h

theorem gives_getLocal {slot : Nat} (hs : slot < f.locals.size) : Gives (f.getLocal slot) fun _ => True := by
  unfold Frame.getLocal
  rw [Array.getElem?_eq_getElem hs]
  exact gives_ok trivial

/-- The frame with a new value in a slot. -/
def withLocal (f : Frame) (slot : Nat) (s : Slot) : Frame := { f with locals := f.locals.modify slot fun _ => s }

theorem setLocal_eq {slot : Nat} (s : Slot) (hs : slot < f.locals.size) : f.setLocal slot s = .ok (f.withLocal slot s) := if_pos hs

theorem gives_fieldsPlace (f : Frame) : Gives f.fieldsPlace fun _ => True := by
  unfold Frame.fieldsPlace
  split
  · exact gives_ok trivial
  · exact gives_ok trivial
  · exact gives_error fun fault => by cases fault <;> decide

/-! ## Tables -/

/-- The frame has the slots, and its unit the tables, that the limits promise. -/
structure Fits (f : Frame) (w : World) (limits : Verify.Limits) : Prop where
  room : f.method.maxLocals ≤ f.locals.size
  constants : limits.constants ≤ (f.loaded w).constants.size
  keywordSites : limits.keywordSites ≤ (f.loaded w).keywordSites.size
  protocolSites : limits.protocolSites ≤ (f.loaded w).protocolSites.size
  children : limits.children.length ≤ (f.loaded w).children.size

theorem spared_constant {w : World} {i : Nat} (hi : i < (f.loaded w).constants.size) : Spared (f.constant w i) := by
  unfold Frame.constant
  rw [Array.getElem?_eq_getElem hi]
  exact spared_ok _

theorem spared_varAt {w : World} {i : Nat} (hi : i < (f.loaded w).constants.size) : Spared (f.varAt w i) := by
  refine spared_bind (spared_constant hi) fun v => ?_
  split
  · exact spared_ok _
  · exact spared_error fun fault => by cases fault <;> decide

theorem spared_classAt {w : World} {i : Nat} (hi : i < (f.loaded w).constants.size) : Spared (f.classAt w i) := by
  refine spared_bind (spared_constant hi) fun v => ?_
  split
  · exact spared_ok _
  · exact spared_error fun fault => by cases fault <;> decide

theorem spared_nameAt {w : World} {i : Nat} (hi : i < (f.loaded w).constants.size) : Spared (f.nameAt w i) := by
  refine spared_bind (spared_constant hi) fun v => ?_
  split
  · exact spared_ok _
  · exact spared_error fun fault => by cases fault <;> decide

theorem spared_memberAt (f : Frame) (w : World) (i : Nat) : Spared (f.memberAt w i) := by
  unfold Frame.memberAt
  split
  · exact spared_ok _
  · exact spared_error fun fault => by cases fault <;> decide

/-! ## The flow of control -/

/-- The second frame is one that an instruction at `pc` hands the first on to. -/
structure Follows (f : Frame) (pc : Nat) (i : Instr) (g : Frame) : Prop where
  unit : g.unit = f.unit
  method : g.method = f.method
  this : g.this = f.this
  room : g.locals.size = f.locals.size
  kept : ∀ slot, i.written? ≠ some slot → g.locals[slot]? = f.locals[slot]?
  successor : (g.pc, g.stack.length) ∈ Verify.successors f.method pc f.stack.length i

variable {i : Instr} {pc : Nat}

/-- An instruction that goes on to the next one. -/
theorem Shift.follows (hs : Shift f g i.effect.1 i.effect.2) (hp : i.effect.1 ≤ f.stack.length) (hpc : f.pc = pc + 1)
    (ht : i.isTerminal = false) : Follows f pc i g := by
  refine ⟨hs.unit, hs.method, hs.this, by rw [hs.locals], fun _ _ => by rw [hs.locals], ?_⟩
  have hh := hs.height
  have hd : g.stack.length = f.stack.length - i.effect.1 + i.effect.2 := by omega
  simp only [Verify.successors, ht, List.mem_reverse, Bool.false_eq_true, if_false, List.mem_append,
    List.mem_singleton, Prod.mk.injEq]
  exact .inr ⟨hs.pc.trans hpc, hd⟩

/-- An instruction that also writes a slot. -/
theorem Shift.follows_withLocal (hs : Shift f g i.effect.1 i.effect.2) (hp : i.effect.1 ≤ f.stack.length) (hpc : f.pc = pc + 1)
    (ht : i.isTerminal = false) {slot : Nat} (hw : i.written? = some slot) (s : Slot) : Follows f pc i (g.withLocal slot s) := by
  have hf := hs.follows hp hpc ht
  refine ⟨hf.unit, hf.method, hf.this, ?_, fun slot' hne => ?_, hf.successor⟩
  · rw [withLocal, Array.size_modify, hs.locals]
  · have hne' : slot ≠ slot' := fun he => hne (he ▸ hw)
    rw [withLocal, Array.getElem?_modify, if_neg hne', hs.locals]

/-- An instruction that jumps to one of its targets. -/
theorem Shift.gives_goto (hs : Shift f g i.effect.1 i.effect.2) (hp : i.effect.1 ≤ f.stack.length) {l : Label}
    (hl : l ∈ i.targets) (hb : (f.method.labelPc? l).isSome) : Gives (g.goto l) (Follows f pc i) := by
  obtain ⟨target, ht⟩ := Option.isSome_iff_exists.1 hb
  unfold Frame.goto
  rw [hs.method, ht]
  refine gives_ok ⟨hs.unit, rfl, hs.this, by rw [hs.locals], fun _ _ => by rw [hs.locals], ?_⟩
  have hh := hs.height
  have hd : g.stack.length = f.stack.length - i.effect.1 + i.effect.2 := by omega
  have hj : (target, g.stack.length) ∈ (i.targets.filterMap f.method.labelPc?).map
      fun pc => (pc, f.stack.length - i.effect.1 + i.effect.2) := by
    rw [List.mem_map]
    exact ⟨target, List.mem_filterMap.2 ⟨l, hl, ht⟩, by rw [hd]⟩
  simp only [Verify.successors, List.mem_reverse]
  split
  · exact hj
  · exact List.mem_append_left _ hj

end Frame

namespace Machine

open LispMachine.Frame

variable {f : Frame} {i : Instr} {pc : Nat} {limits : Verify.Limits} {w : World}

theorem tableTarget_mem (low : Int32) (targets : List Label) (otherwise : Label) (k : Int32) :
    tableTarget low targets otherwise k ∈ targets ++ [otherwise] := by
  unfold tableTarget
  dsimp only
  split
  · simp
  · cases h : targets[(k.toInt - low.toInt).toNat]? with
    | none => simp
    | some l => simpa using .inl (List.mem_of_getElem? h)

theorem lookupTarget_mem (keys : List Int32) (targets : List Label) (otherwise : Label) (k : Int32) :
    lookupTarget keys targets otherwise k ∈ targets ++ [otherwise] := by
  unfold lookupTarget
  split
  · rename_i j _
    cases h : targets[j]? with
    | none => simp
    | some l => simpa using .inl (List.mem_of_getElem? h)
  · simp

theorem gives_switchKey (s : Slot) {what : String} (h : (Failure.internal what).Harmless) :
    Gives (switchKey s what) fun _ => True := by
  unfold switchKey
  split
  · exact gives_ok trivial
  · exact gives_error h

/-- The instructions of `stepLocal`. -/
def movesSlots : Instr → Bool
  | .nil | .pushBool _ | .pushLong _ | .pushDouble _ | .pushInt _ | .pop | .dup | .box _ | .unbox _ | .convert ..
  | .load _ | .loadClear _ | .store _ | .clear _ | .loadThis | .jump _ | .jumpIfFalsy _ | .jumpIfFalse _
  | .jumpIfNotEquiv _ | .jumpIfNotIdentical _ | .hash | .shiftMask .. | .tableSwitch .. | .lookupSwitch .. => true
  | _ => false

theorem gives_stepLocal (hm : movesSlots i = true) (hroom : f.method.maxLocals ≤ f.locals.size)
    (hr : i.InRange limits f.method) (hp : i.effect.1 ≤ f.stack.length) (hpc : f.pc = pc + 1) :
    Gives (stepLocal f i) (Follows f pc i) := by
  have next : ∀ {i : Instr} {g : Frame}, i.effect.1 ≤ f.stack.length → i.isTerminal = false →
      Shift f g i.effect.1 i.effect.2 → Gives (.ok g) (Follows f pc i) :=
    fun hp ht hs => gives_ok (hs.follows hp hpc ht)
  cases i with
  | nil => exact next hp rfl (shift_push f _)
  | pushBool b => exact next hp rfl (shift_push f _)
  | pushLong n => exact next hp rfl (shift_push f _)
  | pushDouble d => exact next hp rfl (shift_push f _)
  | pushInt n => exact next hp rfl (shift_push f _)
  | pop => exact gives_bind (gives_pop hp) fun _ h => next hp rfl h
  | dup => exact gives_bind (gives_pop hp) fun _ h => next hp rfl ((h.push _).push _)
  | box p => exact gives_bind (gives_popValue hp) fun _ h => next hp rfl (h.push _)
  | unbox p =>
    exact gives_bind (gives_popValue hp) fun _ h =>
      gives_bind (gives_of_spared (Slot.spared_unbox _ _)) fun _ _ => next hp rfl (h.push _)
  | convert source target =>
    exact gives_bind (gives_pop hp) fun _ h =>
      gives_bind (gives_of_spared (Slot.spared_convert _ _)) fun _ _ => next hp rfl (h.push _)
  | load slot =>
    have hslot := Nat.lt_of_lt_of_le (hr.slot slot rfl) hroom
    exact gives_bind (gives_getLocal hslot) fun _ _ => next hp rfl (shift_push f _)
  | loadClear slot =>
    have hslot := Nat.lt_of_lt_of_le (hr.slot slot rfl) hroom
    refine gives_bind (gives_getLocal hslot) fun s _ => ?_
    rw [setLocal_eq _ hslot]
    have h : Follows f pc (.loadClear slot) ((f.push s).withLocal slot Slot.empty) :=
      (shift_push f s).follows_withLocal hp hpc rfl rfl _
    exact gives_ok h
  | store slot =>
    have hslot := Nat.lt_of_lt_of_le (hr.slot slot rfl) hroom
    refine gives_bind (gives_pop hp) fun r h => ?_
    dsimp only
    rw [setLocal_eq _ (by rw [h.locals]; exact hslot)]
    exact gives_ok (h.follows_withLocal hp hpc rfl rfl _)
  | clear slot =>
    have hslot := Nat.lt_of_lt_of_le (hr.slot slot rfl) hroom
    change Gives (f.setLocal slot Slot.empty) _
    rw [setLocal_eq _ hslot]
    exact gives_ok ((Shift.refl f).follows_withLocal hp hpc rfl rfl _)
  | loadThis => exact next hp rfl (shift_push f _)
  | jump l => exact (Shift.refl f).gives_goto hp (List.mem_singleton_self l) (hr.jumps l (List.mem_singleton_self l))
  | jumpIfFalsy l =>
    refine gives_bind (gives_popValue hp) fun r h => ?_
    dsimp only
    split
    · exact next hp rfl h
    · exact h.gives_goto hp (List.mem_singleton_self l) (hr.jumps l (List.mem_singleton_self l))
  | jumpIfFalse l =>
    refine gives_bind (gives_pop hp) fun r h => ?_
    dsimp only
    split
    · exact next hp rfl h
    · exact h.gives_goto hp (List.mem_singleton_self l) (hr.jumps l (List.mem_singleton_self l))
    · exact gives_error (by simp)
  | jumpIfNotEquiv l =>
    refine gives_bind (gives_popValue (Nat.lt_of_lt_of_le Nat.zero_lt_two hp)) fun r h => ?_
    refine gives_bind (gives_popValue (by have := h.height; have : 2 ≤ f.stack.length := hp; omega)) fun r h' => ?_
    dsimp only
    split
    · exact next hp rfl (h.trans h')
    · exact (h.trans h').gives_goto hp (List.mem_singleton_self l) (hr.jumps l (List.mem_singleton_self l))
  | jumpIfNotIdentical l =>
    refine gives_bind (gives_popValue (Nat.lt_of_lt_of_le Nat.zero_lt_two hp)) fun r h => ?_
    refine gives_bind (gives_popValue (by have := h.height; have : 2 ≤ f.stack.length := hp; omega)) fun r h' => ?_
    dsimp only
    split
    · exact next hp rfl (h.trans h')
    · exact (h.trans h').gives_goto hp (List.mem_singleton_self l) (hr.jumps l (List.mem_singleton_self l))
  | hash => exact gives_bind (gives_popValue hp) fun _ h => next hp rfl (h.push _)
  | shiftMask shift mask =>
    exact gives_bind (gives_pop hp) fun _ h =>
      gives_bind (gives_switchKey _ fun fault => by cases fault <;> decide) fun _ _ => next hp rfl (h.push _)
  | tableSwitch low targets otherwise =>
    refine gives_bind (gives_pop hp) fun r h =>
      gives_bind (gives_switchKey _ fun fault => by cases fault <;> decide) fun k _ => ?_
    have hl := tableTarget_mem low targets otherwise k
    exact h.gives_goto hp hl (hr.jumps _ hl)
  | lookupSwitch keys targets otherwise =>
    refine gives_bind (gives_pop hp) fun r h =>
      gives_bind (gives_switchKey _ fun fault => by cases fault <;> decide) fun k _ => ?_
    have hl := lookupTarget_mem keys targets otherwise k
    exact h.gives_goto hp hl (hr.jumps _ hl)
  | _ => cases hm

/-- What an instruction may lead to: a frame that follows, if need be with the value of a call. -/
def Action.FollowedBy (f : Frame) (pc : Nat) (i : Instr) : Action → Prop
  | .next g => Follows f pc i g
  | .done _ => True
  | .call g _ => ∀ v, Follows f pc i (g.pushValue v)

/-- A constant that the instruction names is there. -/
theorem constant_lt (hf : f.Fits w limits) (hr : i.InRange limits f.method) {j : Nat}
    (hj : ("constant", j, limits.constants) ∈ Verify.references limits i) : j < (f.loaded w).constants.size :=
  Nat.lt_of_lt_of_le (hr.tables _ hj) hf.constants

/-- The instructions of `stepData`. -/
def usesData : Instr → Bool
  | .const _ | .loadField _ | .loadFieldClear _ | .storeField _ | .initField _ | .varGet _ | .varSet _ | .varDef ..
  | .getStatic _ | .getField .. | .newFn .. | .keywordInvoke _ | .instanceOf _ | .makeVector _ | .makeMap _
  | .makeSet _ => true
  | _ => false

/-- The root value of a definition, if it has one, and then the var. -/
theorem yields_setRoot {var : Nat} {init : Bool} {info : Option Nat} (id : Nat) (w₀ w' : World)
    (hp : (Instr.varDef var init info).effect.1 ≤ f.stack.length) (hpc : f.pc = pc + 1) :
    Yields (if init then do
        let (v, f) ← Run.ofExcept f.popValue
        Run.modify fun w => w.modifyVar id fun x => { x with root := some v }
        return f.pushValue (w₀.varValue id)
      else return f.pushValue (w₀.varValue id) : Run Frame) w' (Follows f pc (.varDef var init info)) := by
  split
  · rename_i hi
    subst hi
    refine yields_ofExcept_bind (gives_popValue hp) fun r h => ?_
    exact yields_tame_bind (tame_modifyVar _ _) fun _ _ => yields_pure ((h.push _).follows hp hpc rfl)
  · rename_i hi
    rw [Bool.not_eq_true] at hi
    subst hi
    exact yields_pure ((shift_push f _).follows hp hpc rfl)

theorem yields_varDef {var : Nat} {init : Bool} {info : Option Nat} (hf : f.Fits w limits)
    (hr : (Instr.varDef var init info).InRange limits f.method)
    (hp : (Instr.varDef var init info).effect.1 ≤ f.stack.length) (hpc : f.pc = pc + 1) :
    Yields (stepData f (.varDef var init info)) w (Follows f pc (.varDef var init info)) := by
  have hvar : var < (f.loaded w).constants.size := constant_lt hf hr List.mem_cons_self
  refine yields_world_bind (yields_ofExcept_bind (gives_of_spared (spared_varAt hvar)) fun id _ => ?_)
  have finish := fun w' => yields_setRoot id w w' hp hpc
  cases info with
  | none => cases init <;> exact finish w
  | some j =>
    have hinfo : j < (f.loaded w).constants.size := constant_lt hf hr (by simp [Verify.references])
    refine yields_ofExcept_bind (gives_of_spared (spared_constant hinfo)) fun m _ =>
      yields_tame_bind (tame_modifyVar _ _) fun _ w' => ?_
    cases init <;> exact finish w'

theorem yields_stepData (hm : usesData i = true) (hf : f.Fits w limits) (hr : i.InRange limits f.method)
    (hp : i.effect.1 ≤ f.stack.length) (hpc : f.pc = pc + 1) : Yields (stepData f i) w (Follows f pc i) := by
  have next : ∀ {i : Instr} {g : Frame} {w : World}, i.effect.1 ≤ f.stack.length → i.isTerminal = false →
      Shift f g i.effect.1 i.effect.2 → Yields (Pure.pure g : Run Frame) w (Follows f pc i) :=
    fun hp ht hs => yields_pure (hs.follows hp hpc ht)
  cases i with
  | const j =>
    have hj := constant_lt hf hr List.mem_cons_self
    exact yields_world_bind (yields_ofExcept_bind (gives_of_spared (spared_constant hj)) fun _ _ =>
      next hp rfl (shift_push f _))
  | loadField j =>
    exact yields_ofExcept_bind (gives_fieldsPlace f) fun _ _ => yields_world_bind (next hp rfl (shift_push f _))
  | loadFieldClear j =>
    exact yields_ofExcept_bind (gives_fieldsPlace f) fun _ _ => yields_world_bind
      (yields_tame_bind (tame_setField _ _ _) fun _ _ => next hp rfl (shift_push f _))
  | storeField j =>
    exact yields_ofExcept_bind (gives_pop hp) fun r h => yields_ofExcept_bind (gives_fieldsPlace _) fun _ _ =>
      yields_tame_bind (tame_setField _ _ _) fun _ _ => next hp rfl h
  | initField j =>
    refine yields_ofExcept_bind (gives_pop (Nat.lt_of_lt_of_le Nat.zero_lt_two hp)) fun r h => ?_
    refine yields_ofExcept_bind (gives_popValue (by have := h.height; have : 2 ≤ f.stack.length := hp; omega))
      fun r h' => ?_
    exact yields_tame_bind (tame_initField _ _ _) fun _ _ => next hp rfl (h.trans h')
  | varGet j =>
    have hj := constant_lt hf hr List.mem_cons_self
    refine yields_world_bind (yields_ofExcept_bind (gives_of_spared ?_) fun _ _ => next hp rfl (shift_push f _))
    exact spared_bind (spared_varAt hj) fun _ => Core.spared_varGet _ _
  | varSet j =>
    have hj := constant_lt hf hr List.mem_cons_self
    refine yields_ofExcept_bind (gives_popValue hp) fun r h => yields_world_bind ?_
    refine yields_ofExcept_bind (gives_of_spared (spared_varAt (f := r.2) ?_)) fun _ _ => ?_
    · rw [Frame.loaded, h.unit]
      exact hj
    · exact yields_tame_bind (tame_setVar _ _) fun _ _ => next hp rfl (h.push _)
  | varDef var init info => exact yields_varDef hf hr hp hpc
  | getStatic j =>
    exact yields_world_bind (yields_ofExcept_bind (gives_of_spared (spared_memberAt f w j)) fun _ _ =>
      yields_tame_bind (Host.tame_call _ _) fun _ _ => next hp rfl (shift_push f _))
  | getField type index =>
    have hj := constant_lt hf hr List.mem_cons_self
    refine yields_world_bind (yields_ofExcept_bind (gives_of_spared (spared_classAt hj)) fun c _ => ?_)
    refine yields_ofExcept_bind (gives_popValue hp) fun r h => ?_
    dsimp only
    split
    · split
      · exact next hp rfl (h.push _)
      · exact yields_raise (by simp)
    · exact yields_raise (by simp)
  | newFn unit captured =>
    have hu : unit < (f.loaded w).children.size :=
      Nat.lt_of_lt_of_le (hr.tables ("unit", unit, limits.children.length) List.mem_cons_self) hf.children
    refine yields_world_bind ?_
    rw [Array.getElem?_eq_getElem hu]
    exact yields_ofExcept_bind (gives_popMany hp) fun r h => yields_tame_bind (tame_change fun _ => rfl) fun _ _ =>
      yields_world_bind (next hp rfl (h.push _))
  | keywordInvoke site =>
    have hs : site < (f.loaded w).keywordSites.size :=
      Nat.lt_of_lt_of_le (hr.tables ("keyword site", site, limits.keywordSites) List.mem_cons_self) hf.keywordSites
    refine yields_ofExcept_bind (gives_popValue hp) fun r h => ?_
    refine yields_bind (P := fun _ => True) ⟨?_, fun _ _ _ => trivial⟩ fun _ _ _ => next hp rfl (h.push _)
    refine tameAt_keywordInvoke _ ?_
    rw [h.unit]
    exact hs
  | instanceOf j =>
    have hj := constant_lt hf hr List.mem_cons_self
    exact yields_world_bind (yields_ofExcept_bind (gives_of_spared (spared_classAt hj)) fun c _ =>
      yields_ofExcept_bind (gives_popValue hp) fun r h => next hp rfl (h.push _))
  | makeVector n =>
    exact yields_ofExcept_bind (gives_popValues hp) fun r h =>
      yields_tame_bind (tame_newVector _) fun _ _ => next hp rfl (h.push _)
  | makeMap n =>
    exact yields_ofExcept_bind (gives_popValues hp) fun r h =>
      yields_tame_bind (tame_newMap _) fun _ _ => next hp rfl (h.push _)
  | makeSet n =>
    exact yields_ofExcept_bind (gives_popValues hp) fun r h =>
      yields_tame_bind (tame_newSet _) fun _ _ => next hp rfl (h.push _)
  | _ => cases hm

/-- The instructions of `stepHost`. -/
def callsHost : Instr → Bool
  | .invokeStatic .. | .invokeVirtual .. | .invokeStaticReflective .. | .new .. | .newReflective ..
  | .newInstance .. => true
  | _ => false

theorem yields_construct {type argc : Nat} (hi : i.effect = (argc, 1)) (ht : i.isTerminal = false)
    (hj : type < (f.loaded w).constants.size) (hp : argc ≤ f.stack.length) (hpc : f.pc = pc + 1) : Yields (do
      let (id, _) ← Run.ofExcept (f.classAt (← Run.world) type)
      let (args, f) ← Run.ofExcept (f.popValues argc)
      return f.pushValue (← construct id args) : Run Frame) w (Follows f pc i) := by
  refine yields_world_bind (yields_ofExcept_bind (gives_of_spared (spared_classAt hj)) fun c _ => ?_)
  refine yields_ofExcept_bind (gives_popValues hp) fun r h => yields_tame_bind (tame_construct _ _) fun _ _ => ?_
  refine yields_pure (Shift.follows ?_ (by rw [hi]; exact hp) hpc ht)
  rw [hi]
  exact h.push _

theorem yields_stepHost (hm : callsHost i = true) (hf : f.Fits w limits) (hr : i.InRange limits f.method)
    (hp : i.effect.1 ≤ f.stack.length) (hpc : f.pc = pc + 1) : Yields (stepHost f i) w (Follows f pc i) := by
  have next : ∀ {i : Instr} {g : Frame} {w : World}, i.effect.1 ≤ f.stack.length → i.isTerminal = false →
      Shift f g i.effect.1 i.effect.2 → Yields (Pure.pure g : Run Frame) w (Follows f pc i) :=
    fun hp ht hs => yields_pure (hs.follows hp hpc ht)
  cases i with
  | invokeStatic member argc =>
    exact yields_world_bind (yields_ofExcept_bind (gives_of_spared (spared_memberAt f w member)) fun m _ =>
      yields_ofExcept_bind (gives_popMany hp) fun r h =>
        yields_tame_bind (Host.tame_call _ _) fun _ _ => next hp rfl (h.push _))
  | invokeVirtual member argc =>
    refine yields_world_bind (yields_ofExcept_bind (gives_of_spared (spared_memberAt f w member)) fun m _ =>
      yields_ofExcept_bind (gives_popMany hp) fun r h => ?_)
    dsimp only
    split
    · exact yields_raise (by simp)
    · exact yields_tame_bind (Host.tame_call _ _) fun _ _ => next hp rfl (h.push _)
  | invokeStaticReflective type member argc =>
    have ht := constant_lt hf hr List.mem_cons_self
    have hn := constant_lt hf hr (j := member) (by simp [Verify.references])
    exact yields_world_bind (yields_ofExcept_bind (gives_of_spared (spared_classAt ht)) fun c _ =>
      yields_ofExcept_bind (gives_of_spared (spared_nameAt hn)) fun m _ =>
        yields_ofExcept_bind (gives_popValues hp) fun r h =>
          yields_tame_bind (tame_invokeStatic _ _ _) fun _ _ => next hp rfl (h.push _))
  | new ctor argc =>
    exact yields_world_bind (yields_ofExcept_bind (gives_of_spared (spared_memberAt f w ctor)) fun m _ =>
      yields_ofExcept_bind (gives_popMany hp) fun r h =>
        yields_tame_bind (Host.tame_call _ _) fun _ _ => next hp rfl (h.push _))
  | newReflective type argc => exact yields_construct rfl rfl (constant_lt hf hr List.mem_cons_self) hp hpc
  | newInstance type argc => exact yields_construct rfl rfl (constant_lt hf hr List.mem_cons_self) hp hpc
  | _ => cases hm

theorem followedBy_ofAnswer {g : Frame} (h : ∀ v, Follows f pc i (g.pushValue v)) (a : Answer) :
    (Action.ofAnswer g a).FollowedBy f pc i := by
  unfold Action.ofAnswer
  split
  · exact h _
  · exact h

/-- **An instruction has the effect that it declares**, and does not blame the code. -/
theorem yields_step (hi : i ≠ .throw) (hf : f.Fits w limits) (hr : i.InRange limits f.method)
    (hp : i.effect.1 ≤ f.stack.length) (hpc : f.pc = pc + 1) : Yields (step f i) w (Action.FollowedBy f pc i) := by
  have calls : ∀ {i : Instr} {g : Frame} (a : Answer), i.effect.1 ≤ f.stack.length → i.isTerminal = false →
      (∀ v, Shift f (g.pushValue v) i.effect.1 i.effect.2) → (Action.ofAnswer g a).FollowedBy f pc i :=
    fun a hp ht hs => followedBy_ofAnswer (fun v => (hs v).follows hp hpc ht) a
  have local_ : movesSlots i = true →
      Yields (do return .next (← Run.ofExcept (stepLocal f i)) : Run Action) w (Action.FollowedBy f pc i) :=
    fun hm => yields_ofExcept_bind (gives_stepLocal hm hf.room hr hp hpc) fun _ h => yields_pure h
  have data : usesData i = true →
      Yields (do return .next (← stepData f i) : Run Action) w (Action.FollowedBy f pc i) :=
    fun hm => yields_bind (yields_stepData hm hf hr hp hpc) fun _ _ h => yields_pure h
  have host : callsHost i = true →
      Yields (do return .next (← stepHost f i) : Run Action) w (Action.FollowedBy f pc i) :=
    fun hm => yields_bind (yields_stepHost hm hf hr hp hpc) fun _ _ h => yields_pure h
  cases i with
  | invoke argc =>
    have hp' : argc + 1 ≤ f.stack.length := hp
    refine yields_ofExcept_bind (gives_popValues (Nat.le_of_succ_le hp')) fun r h => ?_
    refine yields_ofExcept_bind (gives_popValue (by have := h.height; omega)) fun r h' => ?_
    exact yields_tame_bind (tame_invoke _ _) fun a _ => yields_pure (calls a hp rfl fun v => (h.trans h').push _)
  | invokeReflective member argc =>
    have hp' : argc + 1 ≤ f.stack.length := hp
    have hn := constant_lt hf hr List.mem_cons_self
    refine yields_world_bind (yields_ofExcept_bind (gives_of_spared (spared_nameAt hn)) fun name _ => ?_)
    refine yields_ofExcept_bind (gives_popValues (Nat.le_of_succ_le hp')) fun r h => ?_
    refine yields_ofExcept_bind (gives_popValue (by have := h.height; omega)) fun r h' => ?_
    exact yields_tame_bind (tame_invokeMethod _ _ _) fun a _ => yields_pure (calls a hp rfl fun v => (h.trans h').push _)
  | getFieldReflective member =>
    have hn := constant_lt hf hr List.mem_cons_self
    refine yields_world_bind (yields_ofExcept_bind (gives_of_spared (spared_nameAt hn)) fun name _ => ?_)
    refine yields_ofExcept_bind (gives_popValue hp) fun r h => ?_
    exact yields_tame_bind (tame_getField _ _) fun a _ => yields_pure (calls a hp rfl fun v => h.push _)
  | protocolInvoke site argc =>
    have hs : site < (f.loaded w).protocolSites.size :=
      Nat.lt_of_lt_of_le (hr.tables ("protocol site", site, limits.protocolSites) List.mem_cons_self) hf.protocolSites
    refine yields_ofExcept_bind (gives_popValues hp) fun r h => ?_
    refine yields_bind (P := fun _ => True) ⟨?_, fun _ _ _ => trivial⟩ fun a _ _ =>
      yields_pure (calls a hp rfl fun v => h.push _)
    refine tameAt_protocolInvoke _ ?_
    rw [h.unit]
    exact hs
  | throw => exact absurd rfl hi
  | «return» => exact yields_ofExcept_bind (gives_popValue hp) fun _ _ => yields_pure trivial
  | const | loadField | loadFieldClear | storeField | initField | varGet | varSet | varDef | getStatic | getField
  | newFn | keywordInvoke | instanceOf | makeVector | makeMap | makeSet => exact data rfl
  | invokeStatic | invokeVirtual | invokeStaticReflective | new | newReflective | newInstance => exact host rfl
  | _ => exact local_ rfl

/-- A thrown value is one that was on the stack, or a new exception that says it is not throwable. -/
theorem step_throw (hp : 0 < f.stack.length) : (∃ v, step f .throw w = (.thrown v, w)) ∨
    ∃ v, step f .throw w = Run.raise (.classCast v "Throwable") w := by
  obtain ⟨s, rest, he⟩ := List.exists_cons_of_length_pos hp
  have hpop : f.popValue = .ok (s.toValue, { f with stack := rest }) := by
    simp only [Frame.popValue, Frame.pop, he]
    rfl
  simp only [step, hpop]
  cases hv : s.toValue with
  | exception => exact .inl ⟨_, rfl⟩
  | _ => exact .inr ⟨_, rfl⟩

end Machine

end LispMachine
