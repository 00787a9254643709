import LispMachine.Proofs.Analyze.Strict
import LispMachine.Proofs.Session.Definitions
/-!
# Strict mode only refuses

A session in strict mode and the same session without it differ in one point.  If the analysis comes upon a member access
that it cannot resolve then strict mode ends it with an error, and without strict mode the access is a reflective one, which
is reported if reflection is to be reported.  If no such access is met then both give the same, and nothing is reported
(`heeds_compile`, `heeds_eval`).  An access counts too that is met in a pass over a loop which is thrown away.
-/
namespace LispMachine

/-! ## Evaluation -/

namespace Expr

open Analysis

theorem blind_running {α : Type} (r : Run α) : Blind (running r) := blind_run _ _

theorem blind_classOf (name : String) : Blind (classOf name) := by
  refine blind_world fun w => ?_
  split
  · exact blind_pure _
  · exact blind_fail _

theorem blind_typeValue (name : String) : Blind (typeValue name) := (blind_classOf name).bind fun _ => blind_pure _

theorem blind_constantValue (f : Form) : Blind (constantValue f) := blind_changeWorld _

theorem blind_varValue (v : VarRef) : Blind (varValue v) := blind_world fun _ => blind_running _

theorem blind_closedFn (u : CompiledUnit) : Blind (closedFn u) := (blind_load u).bind fun _ => blind_changeWorld _

mutual

/-- Evaluation does not look at the options. -/
theorem blind_eval : ∀ e : Expr, Blind e.eval
  | .nil | .bool _ | .long _ | .double _ | .theVar _ => blind_pure _
  | .const f => blind_constantValue f
  | .type name => blind_typeValue name
  | .vector items => (blind_evalAll items).bind fun _ => blind_running _
  | .map pairs => (blind_evalPairs pairs).bind fun _ => blind_running _
  | .set items => (blind_evalAll items).bind fun _ => blind_running _
  | .var v => blind_varValue v
  | .define v init info => by
    refine (blind_constantValue info).bind fun m => (blind_changeWorld _).bind fun _ => (blind_evalOption init).bind fun o => ?_
    split
    · exact (blind_changeWorld _).bind fun _ => blind_pure _
    · exact blind_pure _
  | .assign (.var v) value => (blind_eval value).bind fun _ => blind_running _
  | .assign (.field _) _ => blind_fail _
  | .cond test yes no _ => by
    refine (blind_eval test).bind fun v => ?_
    split
    · exact blind_eval yes
    · exact blind_eval no
  | .seq body => blind_evalSeq body
  | .fn unit captures _ => by
    unfold eval
    split
    · exact blind_closedFn unit
    · exact blind_fail _
  | .invoke f args _ _ => (blind_eval f).bind fun _ => (blind_evalAll args).bind fun _ => blind_running _
  | .keywordInvoke _ target _ => (blind_eval target).bind fun _ => blind_running _
  | .protocolInvoke v args _ => (blind_varValue v).bind fun _ => (blind_evalAll args).bind fun _ => blind_running _
  | .staticCall _ _ _ args _ => (blind_evalAll args).bind fun _ => blind_running _
  | .staticField .. => blind_running _
  | .methodCall target _ _ args _ => (blind_eval target).bind fun _ => (blind_evalAll args).bind fun _ => blind_running _
  | .fieldGet target _ _ _ => (blind_eval target).bind fun _ => blind_running _
  | .construct className _ _ args _ => (blind_evalAll args).bind fun _ => (blind_classOf className).bind fun _ => blind_running _
  | .instanceOf className value =>
    (blind_eval value).bind fun _ => (blind_classOf className).bind fun _ => blind_world fun _ => blind_pure _
  | .deftype name unit => (blind_load unit).bind fun _ => blind_typeValue name
  | .reify name unit captures _ => by
    unfold eval
    split
    · exact (blind_load unit).bind fun _ => (blind_classOf name).bind fun _ => blind_running _
    · exact blind_fail _
  | .local _ | .bind .. | .bindFns .. | .recur .. | .throw _ | .attempt .. | .case .. => blind_fail _

theorem blind_evalAll : ∀ es : List Expr, Blind (evalAll es)
  | [] => blind_pure _
  | e :: es => (blind_eval e).bind fun _ => (blind_evalAll es).bind fun _ => blind_pure _

theorem blind_evalPairs : ∀ ps : List (Expr × Expr), Blind (evalPairs ps)
  | [] => blind_pure _
  | (k, v) :: rest => (blind_eval k).bind fun _ => (blind_eval v).bind fun _ => (blind_evalPairs rest).bind fun _ => blind_pure _

theorem blind_evalOption : ∀ o : Option Expr, Blind (evalOption o)
  | some e => (blind_eval e).bind fun _ => blind_pure _
  | none => blind_pure _

theorem blind_evalSeq : ∀ es : List Expr, Blind (evalSeq es)
  | [] => blind_pure _
  | [e] => blind_eval e
  | e :: e' :: es => (blind_eval e).bind fun _ => blind_evalSeq (e' :: es)

end

end Expr

namespace Session

open Analysis Analyze

/-- The session without strict mode; the flag says whether reflection is reported. -/
def lenient (s : Session) (report : Bool) : Session := { s with options := s.options.lenient report }

/-- What is done with a session heeds strict mode: it is refused and would be reported, or it is the same in every mode. -/
structure Heeds {α : Type} (g : Session → Result α × Session) : Prop where
  options : ∀ s, (g s).2.options = s.options
  reported : ∀ s, reflections s.warnings ≤ reflections (g s).2.warnings
  strict : ∀ s, s.options.strict = true →
    (g s).1.Refused ∧ reflections s.warnings < reflections (g (s.lenient true)).2.warnings ∨
    reflections (g s).2.warnings = reflections s.warnings ∧ ∀ report, g (s.lenient report) = ((g s).1, (g s).2.lenient report)

variable {α : Type} {x : Analysis α}

theorem heeds_compileThunk (f : Form) : Analysis.Heeds (compileThunk f) := by
  refine (heeding_formWithin allowance .expression _).bind fun e => ?_
  split
  · exact heeds_pure _
  · exact heeds_fail _

theorem heeds_evalSingle (f : Form) : Analysis.Heeds (evalSingle f) := by
  unfold evalSingle
  split
  · refine (heeds_compileThunk f).bind fun unit => (blind_load unit).then fun id => ?_
    exact (blind_changeWorld _).then fun thunk => (Expr.blind_running _).heeds
  · exact (heeding_formWithin allowance .eval f).bind fun e => (Expr.blind_eval e).heeds

theorem heeds_evalEach {evalForm : Form → Analysis Value} (h : ∀ f, Analysis.Heeds (evalForm f)) (fs : List Form) (last : Value) :
    Analysis.Heeds (evalEach evalForm last fs) := by
  induction fs generalizing last with
  | nil => exact heeds_pure _
  | cons f fs ih => exact (blind_moveTo f).then fun _ => (h f).bind ih

theorem heeds_evalTop (fuel : Nat) (f : Form) : Analysis.Heeds (evalTop fuel f) := by
  induction fuel generalizing f with
  | zero => exact blind_cut.heeds
  | succ fuel ih =>
    refine (blind_fully allowance f).then fun f => ?_
    split
    · split
      · exact heeds_evalEach ih _ _
      · exact heeds_evalSingle _
    · exact heeds_evalSingle _

theorem reflections_append (ws ws' : List Warning) : reflections (ws ++ ws'.reverse) = reflections ws + reflections ws' := by
  rw [reflections, List.countP_append, List.countP_reverse]
  rfl

theorem options_opening (s : Session) (f : Form) : (s.opening f).options = s.options := (blind_moveTo f).options _

theorem warnings_opening (s : Session) (f : Form) : (s.opening f).warnings = [] := (blind_moveTo f).warnings _

theorem opening_lenient (s : Session) (f : Form) (report : Bool) : (s.lenient report).opening f = (s.opening f).lenient report := by
  unfold opening Context.moveTo
  cases f.line? <;> rfl

theorem analyzing_eq (s : Session) (f : Form) (x : Analysis α) : s.analyzing f x =
    (match (x (s.opening f)).1 with
      | .error e => .error (e.locate s.options.file (x (s.opening f)).2.scope.line (x (s.opening f)).2.scope.column)
      | r => r,
    { s with world := (x (s.opening f)).2.world, warnings := s.warnings ++ (x (s.opening f)).2.warnings.reverse }) := rfl

theorem heeds_analyzing (f : Form) (h : Analysis.Heeds x) : Heeds fun s => s.analyzing f x where
  options _ := rfl
  reported s := by
    rw [analyzing_eq, reflections_append]
    exact Nat.le_add_right _ _
  strict s hs := by
    have hnone : reflections (s.opening f).warnings = 0 := congrArg reflections (warnings_opening s f)
    rcases h.strict (s.opening f) ((congrArg CompileOptions.strict (options_opening s f)).trans hs) with
      ⟨hr, hlt⟩ | ⟨hw, hl⟩
    · refine .inl ⟨hr.locate _ _ _, ?_⟩
      rw [analyzing_eq, reflections_append, opening_lenient]
      exact Nat.lt_add_of_pos_right (Nat.lt_of_le_of_lt (Nat.zero_le _) hlt)
    · refine .inr ⟨?_, fun report => ?_⟩
      · rw [analyzing_eq, reflections_append, hw, hnone, Nat.add_zero]
      · rw [analyzing_eq, opening_lenient, hl, analyzing_eq]
        rfl

/-- **Compiling heeds strict mode.** -/
theorem heeds_compile (f : Form) : Heeds fun s => s.compile f :=
  heeds_analyzing f ((blind_fully allowance f).then fun f => heeds_compileThunk f)

/-- What strict mode compiles is compiled to the same unit without it. -/
theorem compile_lenient {s : Session} {f : Form} {u : CompiledUnit} (hs : s.options.strict = true) (h : (s.compile f).1 = .ok u)
    (report : Bool) : (s.lenient report).compile f = (.ok u, (s.compile f).2.lenient report) := by
  rcases (heeds_compile f).strict s hs with ⟨⟨e, what, he, -⟩, -⟩ | ⟨-, hl⟩
  · cases h.symm.trans he
  · rw [hl report, h]

/-- `(fn* [q] (loop* [^String s 0] (. s length) (if q (recur q) s)))`. -/
def rebindingForm : Form :=
  let s := Form.sym "s"
  let hinted := Form.symbol (Symbol.plain "s") (some { entries := [(Form.kw "tag", Form.sym "String")] })
  let body := [.ofItems [Form.sym ".", s, Form.sym "length"],
    .ofItems [Form.sym "if", Form.sym "q", .ofItems [Form.sym "recur", Form.sym "q"], s]]
  .ofItems [Form.sym "fn*", .ofVector [Form.sym "q"], .ofItems (Form.sym "loop*" :: .ofVector [hinted, .long 0] :: body)]

-- in the first pass `s` is a long, and its length is reported though the second pass resolves it
example : reflections ((Session.start { warnOnReflection := true }).compile rebindingForm).2.warnings = 1 := by decide +kernel

/-- **Evaluating heeds strict mode.** -/
theorem heeds_eval (f : Form) : Heeds fun s => s.eval f := heeds_analyzing f (heeds_evalTop allowance f)

end Session

end LispMachine
