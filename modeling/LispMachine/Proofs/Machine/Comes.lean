import LispMachine.Proofs.Emit.Layout
import LispMachine.Proofs.Machine.Realizes
import LispMachine.Proofs.Run.Returns
/-!
# Straight code

What single instructions and short sequences of them do to a frame, as realizations.  `Comes` says where
a frame has come within its activation: the same method goes on, the slots below a bound are as they
were, and the place and the stack are as given.
-/
namespace LispMachine

/-- The frame has come to a place with a stack, and what it held in the slots below the bound is there. -/
structure Frame.Comes (bound : Nat) (f : Frame) (pc : Nat) (stack : List Slot) (g : Frame) : Prop where
  unit : g.unit = f.unit
  method : g.method = f.method
  this : g.this = f.this
  size : g.locals.size = f.locals.size
  locals : ∀ slot < bound, g.locals[slot]? = f.locals[slot]?
  pc : g.pc = pc
  stack : g.stack = stack

namespace Frame

variable {bound : Nat} {f g h : Frame} {p p' : Nat} {st st' : List Slot}

theorem Comes.refl (bound : Nat) (f : Frame) : f.Comes bound f.pc f.stack f :=
  ⟨rfl, rfl, rfl, rfl, fun _ _ => rfl, rfl, rfl⟩

theorem Comes.trans (hg : f.Comes bound p st g) (hh : g.Comes bound p' st' h) : f.Comes bound p' st' h :=
  ⟨hh.unit.trans hg.unit, hh.method.trans hg.method, hh.this.trans hg.this, hh.size.trans hg.size,
    fun slot hs => (hh.locals slot hs).trans (hg.locals slot hs), hh.pc, hh.stack⟩

theorem Comes.below {bound' : Nat} (hg : f.Comes bound p st g) (hb : bound' ≤ bound) : f.Comes bound' p st g :=
  ⟨hg.unit, hg.method, hg.this, hg.size, fun slot hs => hg.locals slot (Nat.lt_of_lt_of_le hs hb), hg.pc, hg.stack⟩

theorem Comes.holds {slot : Nat} (hg : f.Comes bound p st g) (hb : slot < bound) {s : Slot}
    (hl : f.locals[slot]? = some s) : g.locals[slot]? = some s := by
  rw [hg.locals slot hb]
  exact hl

/-- The frame after an instruction that leaves the locals alone. -/
theorem comes_to (bound : Nat) (f : Frame) (pc : Nat) (stack : List Slot) : f.Comes bound pc stack { f with pc, stack } :=
  ⟨rfl, rfl, rfl, rfl, fun _ _ => rfl, rfl, rfl⟩

theorem pop_cons {s : Slot} (h : f.stack = s :: st) : f.pop = .ok (s, { f with stack := st }) := by
  simp only [pop, h]

theorem popValue_cons {s : Slot} (h : f.stack = s :: st) : f.popValue = .ok (s.toValue, { f with stack := st }) := by
  simp only [popValue, pop_cons h]
  rfl

theorem popMany_append (f : Frame) {ss st : List Slot} (h : f.stack = ss.reverse ++ st) :
    f.popMany ss.length = .ok (ss, { f with stack := st }) := by
  unfold popMany
  have hl : ss.length = ss.reverse.length := List.length_reverse.symm
  rw [if_neg (by rw [h, List.length_append, ← hl]; omega), h, hl, List.take_left, List.drop_left, List.reverse_reverse]

theorem popValues_append (f : Frame) {ss st : List Slot} (h : f.stack = ss.reverse ++ st) :
    f.popValues ss.length = .ok (ss.map Slot.toValue, { f with stack := st }) := by
  simp only [popValues, f.popMany_append h]
  rfl

end Frame

namespace Machine

open LispMachine.Frame

variable {depth n bound : Nat} {f : Frame} {w : World} {i : Instr} {st : List Slot}

/-- An instruction that takes what it needs off the stack and pushes the result of a run. -/
theorem realizes_push {x : Run Slot} (hh : f.method.handlers = []) (hi : f.method.code[f.pc]? = some i)
    (hs : step { f with pc := f.pc + 1 } i w =
      (x >>= fun s => pure (Action.next { f with pc := f.pc + 1, stack := s :: st })) w) :
    Realizes depth n f w (fun s => f.Comes bound (f.pc + 1) (s :: st)) (x w) :=
  realizes_step hh hi hs fun s _ _ => comes_to bound f (f.pc + 1) (s :: st)

/-! ## Instructions that move slots -/

theorem step_local (f : Frame) (hm : movesSlots i = true) :
    step f i = (do return .next (← Run.ofExcept (stepLocal f i))) := by
  cases i <;> first | rfl | cases hm

theorem goes_local {g : Frame} {d : Nat} (hi : f.method.code[f.pc]? = some i) (hm : movesSlots i = true)
    (hs : stepLocal { f with pc := f.pc + 1 } i = .ok g) : Goes d f w g w := by
  refine .next hi ?_
  rw [step_local _ hm, hs]
  rfl

/-- An instruction that computes a slot from those on the stack. -/
theorem realizes_local (bound : Nat) {x : Except Failure Slot} (hh : f.method.handlers = []) (hi : f.method.code[f.pc]? = some i)
    (hm : movesSlots i = true)
    (hs : stepLocal { f with pc := f.pc + 1 } i = x.map fun s => { f with pc := f.pc + 1, stack := s :: st }) :
    Realizes depth n f w (fun s => f.Comes bound (f.pc + 1) (s :: st)) (Run.ofExcept x w) := by
  refine realizes_push hh hi ?_
  rw [step_local _ hm, hs]
  cases x <;> rfl

theorem stepLocal_unbox {s : Slot} (p : Prim) (h : f.stack = s :: st) :
    stepLocal f (.unbox p) = (Slot.unbox s.toValue p).map fun s => { f with stack := s :: st } := by
  unfold stepLocal
  simp only [popValue_cons h, Bind.bind, Except.bind]
  generalize Slot.unbox s.toValue p = r
  cases r <;> rfl

theorem stepLocal_convert {s : Slot} (own p : Prim) (h : f.stack = s :: st) :
    stepLocal f (.convert own p) = (s.convert p).map fun s => { f with stack := s :: st } := by
  unfold stepLocal
  simp only [pop_cons h, Bind.bind, Except.bind]
  generalize s.convert p = r
  cases r <;> rfl

theorem stepLocal_box {s : Slot} (p : Prim) (h : f.stack = s :: st) :
    stepLocal f (.box p) = .ok { f with stack := .obj s.toValue :: st } := by
  unfold stepLocal
  simp only [popValue_cons h]
  rfl

theorem stepLocal_pop {s : Slot} (h : f.stack = s :: st) : stepLocal f .pop = .ok { f with stack := st } := by
  unfold stepLocal
  simp only [pop_cons h]
  rfl

theorem stepLocal_store {s : Slot} {slot : Nat} (h : f.stack = s :: st) (hl : slot < f.locals.size) :
    stepLocal f (.store slot) = .ok { f with stack := st, locals := f.locals.modify slot fun _ => s } := by
  unfold stepLocal
  simp only [pop_cons h, Frame.setLocal, Bind.bind, Except.bind, if_pos hl]

theorem stepLocal_load {s : Slot} {slot : Nat} (h : f.locals[slot]? = some s) :
    stepLocal f (.load slot) = .ok { f with stack := s :: f.stack } := by
  unfold stepLocal
  simp only [Frame.getLocal, h]
  rfl

theorem stepLocal_jump {l : Label} {pc : Nat} (h : f.method.labelPc? l = some pc) :
    stepLocal f (.jump l) = .ok { f with pc } := by
  unfold stepLocal
  simp only [Frame.goto, h]

end Machine

end LispMachine
