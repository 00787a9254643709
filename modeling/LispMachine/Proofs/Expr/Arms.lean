import LispMachine.Proofs.Expr.Calls
import LispMachine.Proofs.Expr.Flows
/-!
# Choices and sequences

An arm that does not leave jumps to the common exit, so both arms of a choice end at the same place.  The keys of a
`case` lead to the bucket with the key, and a bucket tries its clauses one after the other.
-/
namespace LispMachine

/-- Control does not go on behind the expression. -/
def Landing.Away : Landing → Prop
  | .returned _ | .again _ => True
  | .dropped | .pushed _ => False

theorem Activation.Lands.away {S : Activation} {loop : Option (List Nat)} {head : Label} {bound p q : Nat} {f g : Frame}
    {a : Landing} (ha : a.Away) (h : S.Lands loop head bound f p a g) : S.Lands loop head bound f q a g := by
  cases a with
  | dropped | pushed => cases ha
  | returned | again => exact h

namespace Machine

open LispMachine.Emit LispMachine.Frame LispMachine.Expr
open Run (Returns returns_pure returns_bind returns_ofExcept)
open LispMachine.Activation (rebindable_none)

variable {S : Activation} {i : Image} {bound : Nat} {scope : List Nat} {ρ : Locals} {f g : Frame} {w w' : World}
  {loop : Option (List Nat)} {head : Label} {k p q pc' n : Nat} {st : List Slot} {dest : Dest} {hs : List Handler}

/-! ## The common exit -/

theorem away_of_land {ret : Option Prim} {r : Flow} {a : Landing} (h : r.land ret dest = .ok a)
    (hr : dest = .result ∨ r.IsAgain) : a.Away := by
  cases r with
  | again us =>
    cases h
    trivial
  | value kind s =>
    obtain rfl | hr := hr
    · simp only [Flow.land] at h
      split at h
      · cases hu : s.unboxAs kind _ with
        | error e =>
          rw [hu] at h
          cases h
        | ok s' =>
          rw [hu] at h
          cases h
          trivial
      · cases h
        trivial
    · exact hr.elim

/-- An arm that is left ends at the common exit. -/
theorem Realizes.exits {x : Run Flow} {leaves : Bool} {stop : Label} {e : Nat → Nat} (hm : f.method = i.method)
    (hx : leaves = true → Returns x Flow.IsAgain) (hexit : Region.exit dest leaves stop i e k p q hs) {p' : Nat}
    (hstop : i.method.labelPc? stop = some p')
    (h : Realizes S.depth n f w (S.Lands loop head bound f p) ((x >>= fun r => Run.ofExcept (r.land S.ret dest)) w)) :
    Realizes S.depth n f w (S.Lands loop head bound f p') ((x >>= fun r => Run.ofExcept (r.land S.ret dest)) w) := by
  have hy : Returns (x >>= fun r => Run.ofExcept (r.land S.ret dest)) fun a => dest = .result ∨ leaves = true → a.Away := by
    refine returns_bind (P := fun r => leaves = true → r.IsAgain) (fun w r w' he hl => hx hl w r w' he) fun r hr => ?_
    refine returns_ofExcept fun a ha hd => away_of_land ha ?_
    exact hd.imp id hr
  generalize (x >>= fun r => Run.ofExcept (r.land S.ret dest)) = y at h hy
  rcases he : y w with ⟨a | t | _, w'⟩ <;> rw [he] at h
  · cases h with
    | value hr hl =>
      rename_i g
      obtain ⟨_, ⟨hj, _⟩ | ⟨_, hd⟩⟩ := hexit
      · -- the jump is there: it matters only if control comes to it
        cases a with
        | returned v => exact .value hr hl
        | again us => exact .value hr hl
        | dropped =>
          have hl : f.Comes bound p f.stack g := hl
          rw [← hm, ← hl.pc, ← hl.method] at hj
          rw [← hm, ← hl.method] at hstop
          refine .value (hr.trans (.single (goes_local hj rfl (stepLocal_jump hstop)))) ?_
          exact hl.trans ⟨rfl, rfl, rfl, rfl, fun _ _ => rfl, rfl, hl.stack⟩
        | pushed s =>
          have hl : f.Comes bound p (s :: f.stack) g := hl
          rw [← hm, ← hl.pc, ← hl.method] at hj
          rw [← hm, ← hl.method] at hstop
          refine .value (hr.trans (.single (goes_local hj rfl (stepLocal_jump hstop)))) ?_
          exact hl.trans ⟨rfl, rfl, rfl, rfl, fun _ _ => rfl, rfl, hl.stack⟩
      · exact .value hr (hl.away (hy w a w' he hd))
  · cases h with
    | thrown hr he => exact .thrown hr he
  · cases h with
    | cut hs => exact .cut hs

/-! ## Conditions -/

theorem stepLocal_jumpIfFalsy {s : Slot} {l : Label} (hst : f.stack = s :: st) (hl : f.method.labelPc? l = some q) :
    stepLocal f (.jumpIfFalsy l) = .ok { f with stack := st, pc := if s.toValue.isTruthy then f.pc else q } := by
  simp only [stepLocal, popValue_cons hst, Bind.bind, Except.bind]
  split
  · rfl
  · simp only [Frame.goto, hl]

theorem stepLocal_jumpIfFalse {b : Bool} {l : Label} (hst : f.stack = .bool b :: st) (hl : f.method.labelPc? l = some q) :
    stepLocal f (.jumpIfFalse l) = .ok { f with stack := st, pc := if b then f.pc else q } := by
  simp only [stepLocal, pop_cons hst, Bind.bind, Except.bind]
  cases b with
  | true => rfl
  | false => simp only [Slot.bool?, Frame.goto, hl, Bool.false_eq_true, if_false]

theorem canBeUnboxed_of_prim? {e : Expr} {q : Prim} (h : e.prim? = some q) : e.canBeUnboxed = true ∧ e.staticType = some (.prim q) := by
  unfold Expr.prim? at h
  split at h
  · rename_i hu
    refine ⟨hu, ?_⟩
    split at h
    · rename_i ht
      cases h
      exact ht
    · cases h
  · cases h

/-- A test goes on behind its jump if the value is true, and to the label otherwise. -/
theorem realizes_test (hi : S.Installed i) {test : Expr} (ht : S.Faithful i n test) {l : Label}
    (hsc : test.Scoped S.context S.frame bound scope none) (hr : S.Ready i bound scope ρ f w)
    (hl : Laid (S.env head) (testDest test) test i S.entryOf k f.pc p hs) (hj : i.method.code[p]? = some (testJump test l))
    (hq : i.method.labelPc? l = some q) :
    Realizes S.depth n f w (fun b => f.Comes bound (if b then p + 1 else q) f.stack)
      ((Run.held none (test.meaning S n k ρ) >>= fun s => pure s.toValue.isTruthy) w) := by
  have jumped : ∀ {g : Frame} {s : Slot} {b : Bool}, f.Comes bound p (s :: f.stack) g →
      stepLocal { g with pc := g.pc + 1 } (testJump test l) =
        .ok { g with stack := f.stack, pc := if b then g.pc + 1 else q } →
      movesSlots (testJump test l) = true → ∀ {v : World}, ∃ h, Reaches S.depth g v h v ∧
        f.Comes bound (if b then p + 1 else q) f.stack h := by
    intro g s b hg hs hmoves w'
    rw [← hr.method, ← hg.pc, ← hg.method] at hj
    refine ⟨_, .single (goes_local hj hmoves hs), hg.trans ?_⟩
    rw [← hg.pc]
    exact ⟨rfl, rfl, rfl, rfl, fun _ _ => rfl, rfl, rfl⟩
  by_cases hb : test.prim? = some .bool
  · obtain ⟨hu, hty⟩ := canBeUnboxed_of_prim? hb
    have hd : testDest test = .unboxed .bool := by simp only [testDest, beq_iff_eq, hb, if_true]
    have hjump : testJump test l = .jumpIfFalse l := by simp only [testJump, beq_iff_eq, hb, if_true]
    have h := ht hsc (rebindable_none scope) hr hl
    have hbool := boolTyped hi test hsc hl hu (.inl hty) (n := n) (ρ := ρ)
    rw [hd] at h
    unfold Run.held
    simp only [bind_assoc]
    rcases he : test.meaning S n k ρ w with ⟨(⟨kind, s⟩ | us) | t | _, w'⟩
    · obtain ⟨rfl, hs⟩ := hbool w _ w' he
      cases s with
      | bool b =>
        rw [Run.bind_value he] at h ⊢
        cases h with
        | value hreach hg =>
          rename_i g
          have hg : f.Comes bound p (.bool b :: f.stack) g := hg
          rw [← hr.method, ← hg.method] at hq
          obtain ⟨h, hreach', hh⟩ := jumped (b := b) hg
            (by rw [hjump]; exact stepLocal_jumpIfFalse (f := { g with pc := g.pc + 1 }) hg.stack hq) (by rw [hjump]; rfl)
            (v := w')
          have htrue : (Value.bool b).isTruthy = b := by cases b <;> rfl
          refine .value (hreach.trans hreach') ?_
          show f.Comes bound (if (Value.bool b).isTruthy = true then p + 1 else q) f.stack h
          rw [htrue]
          exact hh
      | _ => cases hs
    · rw [Run.bind_value he] at h
      cases h with
      | value _ hl => cases hl.1
    · rw [Run.bind_thrown he] at h ⊢
      cases h with
      | thrown hr he => exact .thrown hr he
    · rw [Run.bind_cut he] at h ⊢
      cases h with
      | cut hs => exact .cut hs
  · have hd : testDest test = Dest.ofPrim none := by simp only [testDest, beq_iff_eq, hb, if_false, Dest.ofPrim]
    have hjump : testJump test l = .jumpIfFalsy l := by simp only [testJump, beq_iff_eq, hb, if_false]
    rw [hd] at hl
    refine (realizes_operand ht hsc hr hl).bind fun s g w' _ hreach hg => ?_
    have hr' := hr.comes hg hreach.code_eq
    rw [← hr'.method] at hq
    obtain ⟨h, hreach', hh⟩ := jumped (b := s.toValue.isTruthy) hg
      (by rw [hjump]; exact stepLocal_jumpIfFalsy (f := { g with pc := g.pc + 1 }) hg.stack hq) (by rw [hjump]; rfl) (v := w')
    exact .value hreach' hh

theorem faithful_cond (hi : S.Installed i) {test yes no : Expr} (line : Nat) (ht : S.Faithful i n test)
    (hy : S.Faithful i n yes) (hn : S.Faithful i n no) : S.Faithful i n (.cond test yes no line) := by
  intro bound scope loop head dest k ρ f w pc' hs hsc hloop hr hl
  obtain ⟨otherwise, stop, p₁, _, _, _, htest, p₂, _, _, _, ⟨_, ⟨hj, he⟩, _⟩, p₃, _, _, _, hyes, p₄, _, _, _, hexit, p₅, _, _,
    _, ⟨hother, hp₅, _⟩, p₆, _, _, _, hno, hstop, hpc, _⟩ := hl
  cases he
  cases hp₅
  cases hpc
  rw [Expr.meaning]
  have split : ∀ (x : Run Slot) (A B : Run Flow), ((x >>= fun s => if s.toValue.isTruthy = true then A else B) >>=
      fun r => Run.ofExcept (r.land S.ret dest)) = ((x >>= fun s => pure s.toValue.isTruthy) >>= fun b =>
        (if b = true then A else B) >>= fun r => Run.ofExcept (r.land S.ret dest)) := by
    intro x A B
    simp only [bind_assoc, pure_bind]
  rw [split]
  refine (realizes_test hi ht hsc.1 hr htest hj hother).bind fun b g w' _ hreach hg => ?_
  have hr' := hr.comes hg hreach.code_eq
  cases b with
  | true =>
    rw [if_pos rfl] at hg ⊢
    rw [← hg.pc] at hyes
    exact (Realizes.exits hr'.method returns_leaves hexit hstop (hy hsc.2.1 hloop hr' hyes)).mono fun _ _ => .of_comes hg
  | false =>
    rw [if_neg Bool.false_ne_true] at hg ⊢
    rw [← hg.pc] at hno
    exact (hn hsc.2.2 hloop hr' hno).mono fun _ _ => .of_comes hg

/-! ## Sequences -/

theorem realizes_seq (hi : S.Installed i) : ∀ {es : List Expr} {k : Nat} {f : Frame} {w : World} {hs : List Handler},
    (∀ e ∈ es, S.Faithful i n e) → ScopedSeq S.context S.frame bound scope loop es →
    Activation.Rebindable scope loop → S.Ready i bound scope ρ f w →
    LaidSeq (S.env head) dest es i S.entryOf k f.pc pc' hs →
    Realizes S.depth n f w (S.Lands loop head bound f pc')
      ((meaningSeq S n k ρ es >>= fun r => Run.ofExcept (r.land S.ret dest)) w)
  | [], k, f, w, hs, _, _, _, hr, hl => by
    obtain ⟨_, hcode, _⟩ := hl
    rw [meaningSeq]
    exact realizes_inert (x := pure (.obj .nil)) hi hr.method (fun _ => ⟨_, rfl⟩) hcode
      fun p _ hp => realizes_pushed hr.method hp rfl rfl
  | [e], k, f, w, hs, hes, hsc, hloop, hr, hl => by
    rw [meaningSeq]
    exact hes e List.mem_cons_self hsc hloop hr hl
  | e :: e' :: es, k, f, w, hs, hes, hsc, hloop, hr, hl => by
    obtain ⟨p, _, _, _, he, hrest⟩ := hl
    rw [meaningSeq]
    · rw [bind_assoc]
      refine (hes e List.mem_cons_self hsc.1 (rebindable_none scope) hr he).dropped.bind fun _ g w' _ hreach hg => ?_
      have hr' := hr.comes hg hreach.code_eq
      rw [← hg.pc] at hrest
      exact (realizes_seq hi (fun e h => hes e (List.mem_cons_of_mem _ h)) hsc.2 hloop hr' hrest).mono
        fun _ _ => .of_comes hg
    · simp

theorem faithful_seq (hi : S.Installed i) {body : List Expr} (hes : ∀ e ∈ body, S.Faithful i n e) :
    S.Faithful i n (.seq body) := by
  intro bound scope loop head dest k ρ f w pc' hs hsc hloop hr hl
  rw [meaning_seq]
  exact realizes_seq hi hes hsc hloop hr hl

end Machine

end LispMachine
