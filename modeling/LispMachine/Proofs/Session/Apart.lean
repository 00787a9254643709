import LispMachine.Proofs.Analyze.Apart
import LispMachine.Proofs.Session.Definitions
import LispMachine.Proofs.Session.Verifies
/-!
# Live locals in a session

A session analyzes forms where there is no method and no local.  What it does between two analyses leaves the scope and the
tables alone, so every analysis starts in a context that is spaced (`Asks.spaced`), and so is everything that the analysis comes
to: `liveSlots_apart`.
-/
namespace LispMachine

/-! ## Evaluation -/

namespace Expr

open Analysis

theorem aside_running {α : Type} (r : Run α) : Aside (running r) := aside_run _ _

theorem aside_classOf (name : String) : Aside (classOf name) := by
  refine aside_reading fun w => ?_
  split
  · exact aside_pure _
  · exact aside_fail _

theorem aside_typeValue (name : String) : Aside (typeValue name) := (aside_classOf name).bind fun _ => aside_pure _

theorem aside_constantValue (f : Form) : Aside (constantValue f) := aside_changeWorld _

theorem aside_varValue (v : VarRef) : Aside (varValue v) := aside_reading fun _ => aside_running _

theorem aside_closedFn (u : CompiledUnit) : Aside (closedFn u) := (aside_load u).bind fun _ => aside_changeWorld _

mutual

/-- Evaluation leaves the scope and the tables alone. -/
theorem aside_eval : ∀ e : Expr, Aside e.eval
  | .nil | .bool _ | .long _ | .double _ | .theVar _ => aside_pure _
  | .const f => aside_constantValue f
  | .type name => aside_typeValue name
  | .vector items => (aside_evalAll items).bind fun _ => aside_running _
  | .map pairs => (aside_evalPairs pairs).bind fun _ => aside_running _
  | .set items => (aside_evalAll items).bind fun _ => aside_running _
  | .var v => aside_varValue v
  | .define v init info => by
    refine (aside_constantValue info).bind fun m => (aside_changeWorld _).bind fun _ => (aside_evalOption init).bind fun o => ?_
    split
    · exact (aside_changeWorld _).bind fun _ => aside_pure _
    · exact aside_pure _
  | .assign (.var v) value => (aside_eval value).bind fun _ => aside_running _
  | .assign (.field _) _ => aside_fail _
  | .cond test yes no _ => by
    refine (aside_eval test).bind fun v => ?_
    split
    · exact aside_eval yes
    · exact aside_eval no
  | .seq body => aside_evalSeq body
  | .fn unit captures _ => by
    unfold eval
    split
    · exact aside_closedFn unit
    · exact aside_fail _
  | .invoke f args _ _ => (aside_eval f).bind fun _ => (aside_evalAll args).bind fun _ => aside_running _
  | .keywordInvoke _ target _ => (aside_eval target).bind fun _ => aside_running _
  | .protocolInvoke v args _ => (aside_varValue v).bind fun _ => (aside_evalAll args).bind fun _ => aside_running _
  | .staticCall _ _ _ args _ => (aside_evalAll args).bind fun _ => aside_running _
  | .staticField .. => aside_running _
  | .methodCall target _ _ args _ => (aside_eval target).bind fun _ => (aside_evalAll args).bind fun _ => aside_running _
  | .fieldGet target _ _ _ => (aside_eval target).bind fun _ => aside_running _
  | .construct className _ _ args _ => (aside_evalAll args).bind fun _ => (aside_classOf className).bind fun _ => aside_running _
  | .instanceOf className value =>
    (aside_eval value).bind fun _ => (aside_classOf className).bind fun _ => aside_reading fun _ => aside_pure _
  | .deftype name unit => (aside_load unit).bind fun _ => aside_typeValue name
  | .reify name unit captures _ => by
    unfold eval
    split
    · exact (aside_load unit).bind fun _ => (aside_classOf name).bind fun _ => aside_running _
    · exact aside_fail _
  | .local _ | .bind .. | .bindFns .. | .recur .. | .throw _ | .attempt .. | .case .. => aside_fail _

theorem aside_evalAll : ∀ es : List Expr, Aside (evalAll es)
  | [] => aside_pure _
  | e :: es => (aside_eval e).bind fun _ => (aside_evalAll es).bind fun _ => aside_pure _

theorem aside_evalPairs : ∀ ps : List (Expr × Expr), Aside (evalPairs ps)
  | [] => aside_pure _
  | (k, v) :: rest => (aside_eval k).bind fun _ => (aside_eval v).bind fun _ => (aside_evalPairs rest).bind fun _ => aside_pure _

theorem aside_evalOption : ∀ o : Option Expr, Aside (evalOption o)
  | some e => (aside_eval e).bind fun _ => aside_pure _
  | none => aside_pure _

theorem aside_evalSeq : ∀ es : List Expr, Aside (evalSeq es)
  | [] => aside_pure _
  | [e] => aside_eval e
  | e :: e' :: es => (aside_eval e).bind fun _ => aside_evalSeq (e' :: es)

end

end Expr

namespace Session

open Analysis Analyze Context

/-! ## What a session analyzes -/

/-- What a session does, with any analyzer. -/
def compileThunkBy (analyze : Analyzer) (f : Form) : Analysis CompiledUnit := do
  let thunk := Form.list [.symbol (Symbol.plain "fn*") none, .ofVector [], f] f.info?
  match ← analyze .expression thunk with
  | .fn unit _ _ => return unit
  | _ => Analysis.fail .notAFunction

def evalSingleBy (analyze : Analyzer) (f : Form) : Analysis Value := do
  if needsCompilation f then
    let unit ← Analysis.load (← compileThunkBy analyze f)
    let thunk ← Analysis.changeWorld (·.instantiate unit)
    Expr.running (Machine.call thunk [])
  else (← analyze .eval f).eval

def evalTopBy (analyze : Analyzer) : Nat → Form → Analysis Value
  | 0, _ => Analysis.cut
  | fuel + 1, f => do
    let f ← Expand.fully Analyze.allowance f
    match f with
    | .list (.symbol s _ :: rest) _ =>
      if s.isPlain "do" then evalEach (evalTopBy analyze fuel) .nil rest else evalSingleBy analyze f
    | f => evalSingleBy analyze f

def compileBy (analyze : Analyzer) (s : Session) (f : Form) : Result CompiledUnit × Session :=
  s.analyzing f do compileThunkBy analyze (← Expand.fully Analyze.allowance f)

def evalBy (analyze : Analyzer) (s : Session) (f : Form) : Result Value × Session :=
  s.analyzing f (evalTopBy analyze Analyze.allowance f)

/-- What becomes of a form in the session depends on the analysis of a form in a context. -/
def Asks (s : Session) (f : Form) (demand : Demand) (f' : Form) (c : Context) : Prop :=
  ∃ analyze : Analyzer, (∀ d g c', analyze d g c' ≠ form d g c' → d = demand ∧ g = f' ∧ c' = c) ∧
    (s.compileBy analyze f ≠ s.compile f ∨ s.evalBy analyze f ≠ s.eval f)

variable {analyze : Analyzer} {s : Session} {demand : Demand} {f g : Form} {c : Context} {still : Bool}

theorem spaces_compileThunk (h : Spacing {} form analyze) (f : Form) : Spaces {} still (compileThunk f) (compileThunkBy analyze f) := by
  refine (spaces_rec h .expression _).bind fun e => ?_
  cases e with
  | fn unit captures line => exact spaces_pure _
  | _ => exact spaces_fail _

theorem spaces_evalSingle (h : Spacing {} form analyze) (f : Form) : Spaces {} still (evalSingle f) (evalSingleBy analyze f) := by
  unfold evalSingle evalSingleBy
  split
  · refine (spaces_compileThunk h f).bind fun unit => spaces_aside (aside_load unit) fun id => ?_
    exact spaces_aside (aside_changeWorld _) fun thunk => (Expr.aside_running _).spaces
  · exact (spaces_rec h .eval f).bind fun e => (Expr.aside_eval e).spaces

theorem spaces_moveTo (f : Form) : Spaces {} false (Analysis.modify (·.moveTo f)) (Analysis.modify (·.moveTo f)) :=
  spaces_step fun c hc => by
    obtain ⟨hretains, hlayout⟩ := retains_moveTo c f
    exact ⟨hretains, hc.retains hretains hlayout, fun h => Bool.noConfusion h⟩

theorem spaces_evalEach {x x' : Form → Analysis Value} (h : ∀ f, Spaces {} false (x f) (x' f)) (fs : List Form) (last : Value) :
    Spaces {} false (evalEach x last fs) (evalEach x' last fs) := by
  induction fs generalizing last with
  | nil => exact spaces_pure _
  | cons f fs ih => exact (spaces_moveTo f).bind fun _ => (h f).bind ih

theorem spaces_evalTop (h : Spacing {} form analyze) (fuel : Nat) (f : Form) :
    Spaces {} false (evalTop fuel f) (evalTopBy analyze fuel f) := by
  induction fuel generalizing f with
  | zero => exact spaces_cut
  | succ fuel ih =>
    refine spaces_aside (aside_fully allowance f) fun f => ?_
    cases f with
    | list items info =>
      cases items with
      | nil => exact spaces_evalSingle h _
      | cons head rest =>
        cases head with
        | symbol s place =>
          dsimp only
          split
          · exact spaces_evalEach ih _ _
          · exact spaces_evalSingle h _
        | _ => exact spaces_evalSingle h _
    | _ => exact spaces_evalSingle h _

theorem spaced_opening (s : Session) (f : Form) : (s.opening f).Spaced {} := by
  obtain ⟨hretains, hlayout⟩ := retains_moveTo { options := s.options, world := s.world } f
  exact (spaced_bare rfl rfl).retains hretains hlayout

theorem analyzing_congr {α : Type} {x x' : Analysis α} (h : Spaces {} false x x') (s : Session) (f : Form) :
    s.analyzing f x' = s.analyzing f x := by
  have hsame : x (s.opening f) = x' (s.opening f) := (h _ (spaced_opening s f)).1
  rw [opening] at hsame
  rw [analyzing, analyzing, hsame]

/-- Every analysis that a session starts, starts where nothing is in use. -/
theorem Asks.spaced (h : s.Asks f demand g c) : c.Spaced {} := by
  obtain ⟨analyze, hother, hne⟩ := h
  refine Classical.byContradiction fun hc => ?_
  have hspacing : Spacing {} form analyze := fun d g' c' hc' => by
    refine ⟨Classical.byContradiction fun hne => hc ?_, (spacing_formWithin allowance {} d g' c' hc').2⟩
    obtain ⟨-, -, rfl⟩ := hother d g' c' (Ne.symm hne)
    exact hc'
  rcases hne with hne | hne
  · exact hne (analyzing_congr (spaces_aside (aside_fully allowance f) fun f => spaces_compileThunk hspacing f) s f)
  · exact hne (analyzing_congr (spaces_evalTop hspacing allowance f) s f)

/-- To compile a form is to analyze a function with the expanded form in its body. -/
theorem asks_compile {u : CompiledUnit} (hexpand : Expand.fully allowance f (s.opening f) = (.ok g, c)) (h : (s.compile f).1 = .ok u) :
    Asks s f .expression (.list [.symbol (Symbol.plain "fn*") none, .ofVector [], g] g.info?) c := by
  classical
  let thunk := Form.list [.symbol (Symbol.plain "fn*") none, .ofVector [], g] g.info?
  refine ⟨fun d f' c' => if d = .expression ∧ f' = thunk ∧ c' = c then (.cut, c') else form d f' c', fun d f' c' hne => ?_,
    .inl fun he => ?_⟩
  · exact Classical.byContradiction fun h => hne (if_neg h)
  · rw [← he] at h
    obtain ⟨c₁, h⟩ := analyzing_eq_ok h
    obtain ⟨g', c₂, hg, h⟩ := bind_eq_ok h
    obtain ⟨rfl, rfl⟩ : g = g' ∧ c = c₂ := by
      cases hexpand.symm.trans hg
      exact ⟨rfl, rfl⟩
    obtain ⟨e, c₃, hthunk, -⟩ := bind_eq_ok h
    cases hthunk.symm.trans (if_pos ⟨rfl, rfl, rfl⟩)

/-- **Live locals never share a slot.**  Wherever an analysis comes to, the visible locals of the method and the results and
exceptions of the `try` forms around have slots of their own, all of them handed out by the method; and whether the analysis of
a form ends with an expression or with an error, it comes back to the scope in which it has started. -/
theorem liveSlots_apart :
    -- the analysis of a form in a session
    (∀ s f demand g c, Asks s f demand g c → ∀ k q, Point.Reaches allowance ⟨{}, demand, g, c⟩ k q → q.Clean k) ∧
    -- and from any context in which the slots in use are apart
    (∀ n p, p.context.Spaced p.held → ∀ k q, Point.Reaches n p k q → q.Clean k) ∧
    -- what a `try` holds are the slots that it gets
    (∀ n head args info c e c' g, head.symbol?.bind SpecialForm.ofSymbol? = some .attempt → c.scope.methodReturn = true →
      formWithin (n + 1) .tail (.list (head :: args) info) c = (.ok e, c') →
      ∃ main handlers cleanup result thrown, e = .attempt main handlers cleanup result thrown ∧
        (Held.within g c .tail (.list (head :: args) info)).tries = thrown :: result :: g.tries) := by
  refine ⟨fun s f demand g c h k q hq => ?_, fun n p hp k q hq => ?_, fun n head args info c e c' g hname hc h => ?_⟩
  · exact Point.clean_of_spaced k (hq.spaced h.spaced)
  · exact Point.clean_of_spaced k (hq.spaced hp)
  · exact attempt_slots hname hc h g

/-- `(try nil)`. -/
def emptyTry : Form := .list [Form.sym "try", .nil] none

/-- `(fn* [] (try nil))`. -/
def emptyThunk : Form := .list [.symbol (Symbol.plain "fn*") none, .ofVector [], emptyTry] none

/-- At the start of a method with one parameter. -/
def inFirstMethod : Context where
  options := {}
  world := .initial
  scope := { method := some 0, nextSlot := 2, methodReturn := true, env := [(Symbol.plain "x", 0)] }
  bindings := #[{ name := Symbol.plain "x", slot := 1, tag := none, prim := none, isArg := true, method := some 0, clearRoot := none }]
  methods := #[{ obj := 0, parent := none, maxSlot := 1 }]

/-- In the body of a `try` at the start of a method. -/
def inTryBody : Context := inFirstMethod.allocSlot.2.allocSlot.2.modifyScope fun s => { s with noRecur := true, methodReturn := false }

theorem spaced_inFirstMethod : inFirstMethod.Spaced {} := by
  have hlocals : inFirstMethod.localsOf 0 = [(Symbol.plain "x", 0)] := by rfl
  refine ⟨fun e he => ?_, fun e he m hm => ?_, fun m hm => ?_⟩
  · cases List.mem_singleton.1 he
    decide
  · cases List.mem_singleton.1 he
    cases hm
    decide
  · cases hm
    refine ⟨by decide, by decide, by decide, by decide, by decide, fun e he hslot => ?_, List.not_mem_nil⟩
    cases List.mem_singleton.1 (hlocals ▸ he)
    cases hslot

theorem ok_of_emptyTry {rec : Analyzer} {e : Expr} (h : (formWith rec .tail emptyTry inFirstMethod).1 = .ok e) :
    ∃ e', (rec .tail .nil inTryBody).1 = .ok e' := by
  have hname : (Form.sym "try").symbol?.bind SpecialForm.ofSymbol? = some .attempt := by decide
  rw [emptyTry, formWith, list_special _ _ hname, special, attempt] at h
  obtain ⟨c₁, h⟩ := atForm_eq_ok h
  obtain ⟨scope, c₂, hscope, h⟩ := bind_eq_ok h
  cases hscope
  rw [if_neg (by decide)] at h
  obtain ⟨parts, c₃, hparts, h⟩ := bind_eq_ok h
  cases hparts
  obtain ⟨result, c₄, hresult, h⟩ := bind_eq_ok h
  cases hresult
  obtain ⟨thrown, c₅, hthrown, h⟩ := bind_eq_ok h
  cases hthrown
  obtain ⟨main, c₆, hmain, -⟩ := bind_eq_ok h
  have hbody : (body rec .tail [.nil] inTryBody).1 = .ok main := congrArg Prod.fst hmain
  obtain ⟨leading, c₇, hleading, hlast⟩ := bind_eq_ok (Prod.ext hbody rfl : body rec .tail [.nil] inTryBody = (.ok main, _))
  cases hleading
  obtain ⟨e', c₈, he', -⟩ := bind_eq_ok hlast
  exact ⟨e', congrArg Prod.fst he'⟩

/-- If the body of `(try nil)` does not succeed then the form does not either. -/
theorem asks_emptyTry : Point.Asks 1 ⟨{}, .tail, emptyTry, inFirstMethod⟩ .tail .nil inTryBody := by
  classical
  refine ⟨fun d f c => if d = .tail ∧ f = .nil ∧ c = inTryBody then (.cut, c) else formWithin 1 d f c,
    fun d f c hne => ?_, fun he => ?_⟩
  · exact Classical.byContradiction fun h => hne (if_neg h)
  · have hok : (formWith (formWithin 1) .tail emptyTry inFirstMethod).1.isOk = true := by decide +kernel
    obtain ⟨e, h⟩ := Result.exists_of_isOk hok
    obtain ⟨e', h'⟩ := ok_of_emptyTry ((congrArg Prod.fst he).trans h)
    rw [if_pos ⟨rfl, rfl, rfl⟩] at h'
    cases h'

theorem liveSlots_apart_try :
    (∃ c, Asks (.start {}) emptyTry .expression emptyThunk c ∧ Point.Clean allowance ⟨{}, .expression, emptyThunk, c⟩) ∧
    (Point.Reaches 2 ⟨{}, .tail, emptyTry, inFirstMethod⟩ 1 ⟨{ tries := [3, 2] }, .tail, .nil, inTryBody⟩ ∧
      Point.Clean 1 ⟨{ tries := [3, 2] }, .tail, .nil, inTryBody⟩ ∧ inTryBody.inUse { tries := [3, 2] } 0 = [1, 3, 2]) ∧
    ∃ main handlers cleanup, (formWithin 2 .tail emptyTry inFirstMethod).1 = .ok (.attempt main handlers cleanup 2 3) := by
  obtain ⟨hsession, hany, htry⟩ := liveSlots_apart
  have hreaches : Point.Reaches 2 ⟨{}, .tail, emptyTry, inFirstMethod⟩ 1 ⟨{ tries := [3, 2] }, .tail, .nil, inTryBody⟩ :=
    .part (.start 2 _) asks_emptyTry
  refine ⟨?_, ⟨hreaches, hany 2 _ spaced_inFirstMethod 1 _ hreaches, by rfl⟩, ?_⟩
  · have hok : (Session.compile (.start {}) emptyTry).1.isOk = true := by decide +kernel
    obtain ⟨u, hu⟩ := Result.exists_of_isOk hok
    have hasks : Asks (.start {}) emptyTry .expression emptyThunk ((Session.start {}).opening emptyTry) := asks_compile (by rfl) hu
    exact ⟨_, hasks, hsession _ _ _ _ _ hasks allowance _ (.start _ _)⟩
  · have hok : (formWithin 2 .tail emptyTry inFirstMethod).1.isOk = true := by decide +kernel
    obtain ⟨e, he⟩ := Result.exists_of_isOk hok
    obtain ⟨main, handlers, cleanup, result, thrown, rfl, hheld⟩ :=
      htry 1 (Form.sym "try") [.nil] none inFirstMethod e _ {} (by decide) rfl (Prod.ext he rfl)
    cases hheld
    exact ⟨main, handlers, cleanup, he⟩

end Session

end LispMachine
