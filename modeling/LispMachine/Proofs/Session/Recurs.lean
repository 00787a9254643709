import LispMachine.Proofs.Analyze.Recurs
import LispMachine.Proofs.Emit.Heads
import LispMachine.Proofs.Session.Verifies
/-!
# Accepted `recur`s

What a session compiles has every `recur` at the end of its loop, and the code jumps to the start of that loop; a form with
any other `recur` is not compiled.  Some forms are analyzed as the body of a function of their own; then it is this function
that a `recur` at the end of them goes back to.
-/
namespace LispMachine.Session

open Analysis Analyze

variable {p : Place}

/-- Compiles a form as the body of a function, where `other` is asked about every `recur` that is out of place or has the
wrong number of arguments. -/
def compileThunkOr (other : Analyzer) (f : Form) : Analysis CompiledUnit := do
  let thunk := Form.list [.symbol (Symbol.plain "fn*") none, .ofVector [], f] f.info?
  match ← formOr other allowance .expression thunk with
  | .fn unit _ _ => return unit
  | _ => Analysis.fail .notAFunction

def compileOr (other : Analyzer) (s : Session) (f : Form) : Result CompiledUnit × Session :=
  s.analyzing f do compileThunkOr other (← Expand.fully Analyze.allowance f)

theorem guards_compileThunk (other : Analyzer) (f : Form) :
    Guards p (compileThunk f) (compileThunkOr other f) fun u => u.InPlace := by
  refine guards_bind (guarding_formWithin other allowance .expression _ p) fun e he => ?_
  cases e with
  | fn unit captures line =>
    cases he with
    | node _ _ hunits => exact guards_pure (hunits unit (List.mem_singleton_self unit))
  | _ => exact guards_fail _

theorem guards_compile (other : Analyzer) (f : Form) : Guards p (do compileThunk (← Expand.fully allowance f))
    (do compileThunkOr other (← Expand.fully allowance f)) fun u => u.InPlace :=
  guards_calm (aside_fully allowance f).calm fun f _ => guards_compileThunk other f

theorem rejects_analyzing {α : Type} {s : Session} {f : Form} {x : Analysis α}
    (h : (x (Context.moveTo { options := s.options, world := s.world } f)).1.RejectsRecur) : (s.analyzing f x).1.RejectsRecur := by
  obtain ⟨e, he, hr⟩ := h
  rcases hx : x (Context.moveTo { options := s.options, world := s.world } f) with ⟨r, c⟩
  rw [hx] at he
  cases he
  refine ⟨e.locate s.options.file c.scope.line c.scope.column, ?_, (congrArg CompileFault.ofRecur (fault_locate e _ _ _)).trans hr⟩
  simp only [analyzing, hx]

theorem compile_inPlace {s : Session} {f : Form} {u : CompiledUnit} (h : (s.compile f).1 = .ok u) : u.InPlace := by
  obtain ⟨c, hc⟩ := analyzing_eq_ok h
  exact ((guards_compile (fun _ _ => cut) f _ ⟨0, Nat.zero_le _, rfl⟩).2 u c hc).2

theorem compile_eq_compileOr (other : Analyzer) (s : Session) (f : Form) :
    s.compile f = s.compileOr other f ∨ (s.compile f).1.RejectsRecur := by
  refine ((guards_compile other f _ ⟨0, Nat.zero_le _, rfl⟩).1).imp (fun hsame => ?_) rejects_analyzing
  rw [compile, compileOr, analyzing, analyzing, hsame]

/-- Every `recur` of an accepted form ends the loop or the method whose locals it rebinds, with nothing in between, and jumps
to the start of it.  A `recur` anywhere else, or with another number of arguments, is rejected, and so is what it stands in,
unless the analysis ends before it gets there: then it would end in the same way whatever were done about such a `recur`. -/
theorem recur_goesBack :
    -- what is accepted is in place, and its code goes back to the start
    (∀ n demand f c e c', formWithin n demand f c = (.ok e, c') → e.InPlace (c.scope.rebound? demand)) ∧
    (∀ c obj kind ms u, Emit.unit c obj kind ms = .ok u →
      u.methods.length = ms.length ∧ ∀ p ∈ ms.zip u.methods, p.1.body.GoesBack c p.2 0 0 p.2.code.size) ∧
    -- what is out of place is rejected, and what is miscounted too, after its arguments
    (∀ n demand head args info c, headsRecur head = true → c.scope.rebound? demand = none →
      (formWithin (n + 1) demand (.list (head :: args) info) c).1.RejectsRecur) ∧
    (∀ n demand head args info c targets, headsRecur head = true → c.scope.rebound? demand = some targets →
      args.length ≠ targets.length → (∀ e, (formWithin (n + 1) demand (.list (head :: args) info) c).1 ≠ .ok e) ∧
      ∀ values c', forList (formWithin n .expression) args (c.moveTo (.list (head :: args) info)) = (.ok values, c') →
        (formWithin (n + 1) demand (.list (head :: args) info) c).1.RejectsRecur) ∧
    -- the rejection is that of everything around
    (∀ n demand f c, (formWithin n demand f c).1.RejectsRecur ∨ ∀ other, formWithin n demand f c = formOr other n demand f c) ∧
    (∀ s f, (compile s f).1.RejectsRecur ∨ ∀ other, compile s f = compileOr other s f) ∧
    (∀ s f u, (compile s f).1 = .ok u → u.InPlace) ∧
    ∀ fault : CompileFault, fault.ofRecur = true → fault.kind = .scope := by
  refine ⟨fun n demand f c e c' h => formWithin_inPlace h, fun c obj kind ms u h => Emit.goesBack_unit h, ?_, ?_, ?_, ?_, ?_, ?_⟩
  · exact fun n demand head args info c hhead hplace => rejects_outOfPlace n hhead hplace args info
  · exact fun n demand head args info c targets hhead hplace hlen => rejects_miscounted n hhead hplace hlen info
  · exact fun n demand f c => Classical.or_iff_not_imp_left.2 fun h other => (formWithin_eq_formOr other n demand f c).resolve_right h
  · exact fun s f => Classical.or_iff_not_imp_left.2 fun h other => (compile_eq_compileOr other s f).resolve_right h
  · exact fun s f u => compile_inPlace
  · exact fun fault => CompileFault.kind_of_ofRecur

/-- `(loop* [x true] (if x (recur false) x))`. -/
def countdownForm : Form := .list [Form.sym "loop*", .ofVector [Form.sym "x", .bool true],
  .list [Form.sym "if", Form.sym "x", .list [Form.sym "recur", .bool false] none, Form.sym "x"] none] none

/-- `(recur)`. -/
def recurForm : Form := .list [Form.sym "recur"] none

/-- Here a `recur` rebinds these locals. -/
def contextOver (targets : Option (List Nat)) : Context := { options := {}, world := .initial, scope := { loopLocals := targets } }

theorem recur_goesBack_countdown :
    (∃ u, (compile (.start {}) countdownForm).1 = .ok u ∧ u.InPlace ∧ ∃ c obj kind ms, Emit.unit c obj kind ms = .ok u ∧
      ∀ p ∈ ms.zip u.methods, p.1.body.GoesBack c p.2 0 0 p.2.code.size) ∧
    (∃ e c', formWithin 1 .tail recurForm (contextOver (some [])) = (.ok e, c') ∧ e.InPlace (some [])) ∧
    (formWithin 1 .tail recurForm (contextOver none)).1.RejectsRecur ∧
    (formWithin 1 .tail recurForm (contextOver (some [0]))).1.RejectsRecur ∧
    CompileFault.recurNotInTail.kind = .scope := by
  obtain ⟨hplace, hback, houtside, hcount, _, _, hunit, hkind⟩ := recur_goesBack
  have hcompiles : (compile (.start {}) countdownForm).1.isOk = true := by decide +kernel
  have haccepts : (formWithin 1 .tail recurForm (contextOver (some []))).1.isOk = true := by decide +kernel
  have hhead : headsRecur (Form.sym "recur") = true := by decide +kernel
  refine ⟨?_, ?_, houtside 0 .tail _ [] none _ hhead rfl, ?_, hkind _ rfl⟩
  · obtain ⟨u, hu⟩ := Result.exists_of_isOk hcompiles
    have hin := hunit _ _ u hu
    refine ⟨u, hu, hin, ?_⟩
    cases hin with
    | compiled hemit _ => exact ⟨_, _, _, _, hemit, (hback _ _ _ _ u hemit).2⟩
  · obtain ⟨e, he⟩ := Result.exists_of_isOk haccepts
    exact ⟨e, _, Prod.ext he rfl, hplace 1 .tail recurForm (contextOver (some [])) e _ (Prod.ext he rfl)⟩
  · exact (hcount 0 .tail _ [] none (contextOver (some [0])) [0] hhead rfl (by decide)).2 [] _ rfl

end LispMachine.Session
