import LispMachine.Expr.Eval
import LispMachine.Proofs.Analyze.Logic
import LispMachine.Proofs.Expr.InPlace
/-!
# What can be evaluated without being compiled

Direct evaluation has no slots and no stack of handlers, so it cannot evaluate a local, a binding form, a `recur`, a `throw`, a
`try` or a `case`, nor an instance with captures, nor an assignment to a field (`Expr.evaluable`).  An expression that has none
of these outside of its units is evaluated without the two errors that say so (`Expr.able_eval`).
-/
namespace LispMachine

/-- The faults of what cannot be evaluated without being compiled. -/
def CompileFault.isUnevaluable : CompileFault → Bool
  | .notEvaluable | .fieldAssignmentInEval => true
  | _ => false

namespace Expr

/-- Direct evaluation has a case for the expression, whatever its parts are. -/
def evaluable : Expr → Bool
  | .local _ | .bind .. | .bindFns .. | .recur .. | .throw _ | .attempt .. | .case .. | .assign (.field _) _ => false
  | .fn _ captures _ | .reify _ _ captures _ => captures.isEmpty
  | _ => true

/-- The expression and all its parts can be evaluated without being compiled. -/
inductive Direct : Expr → Prop
  | node {e : Expr} : e.evaluable = true → (∀ p ∈ e.parts, Direct p.2) → Direct e

variable {e : Expr} {es : List Expr}

theorem Direct.evaluable (h : e.Direct) : e.evaluable = true := by
  cases h
  assumption

theorem Direct.parts (h : e.Direct) : ∀ p ∈ e.parts, p.2.Direct := by
  cases h
  assumption

theorem direct_leaf (he : e.evaluable = true) (hp : e.parts = []) : e.Direct := by
  refine .node he fun p hm => ?_
  rw [hp] at hm
  cases hm

/-- An expression that consumes the values of its parts. -/
theorem direct_inner (he : e.evaluable = true) (hp : e.parts = innerParts es) (h : ∀ e' ∈ es, e'.Direct) : e.Direct := by
  refine .node he ?_
  rw [hp]
  exact (forall_innerParts es).2 h

theorem direct_one {e' : Expr} (he : e.evaluable = true) (hp : e.parts = innerParts [e']) (h : e'.Direct) : e.Direct :=
  direct_inner he hp (List.forall_mem_singleton.2 h)

theorem direct_cond {test yes no : Expr} {line : Nat} (htest : test.Direct) (hyes : yes.Direct) (hno : no.Direct) :
    (cond test yes no line).Direct :=
  .node rfl (List.forall_mem_cons.2 ⟨htest, List.forall_mem_cons.2 ⟨hyes, List.forall_mem_singleton.2 hno⟩⟩)

theorem forall_seqParts (es : List Expr) : (∀ p ∈ seqParts es, p.2.Direct) ↔ ∀ e ∈ es, e.Direct := by
  rcases List.eq_nil_or_concat es with rfl | ⟨es, e, rfl⟩
  · exact ⟨fun _ e h => (List.not_mem_nil h).elim, fun _ p h => (List.not_mem_nil h).elim⟩
  · rw [List.concat_eq_append, seqParts_append]
    simp only [List.forall_mem_append, forall_innerParts, List.forall_mem_singleton]

theorem direct_seq (h : ∀ e ∈ es, e.Direct) : (seq es).Direct := .node rfl ((forall_seqParts es).2 h)

/-- Expressions whose values are consumed. -/
theorem Direct.inner (h : e.Direct) (hp : e.parts = innerParts es) : ∀ e' ∈ es, e'.Direct := by
  have hparts := h.parts
  rw [hp] at hparts
  exact (forall_innerParts es).1 hparts

theorem Direct.one {e' : Expr} (h : e.Direct) (hp : e.parts = innerParts [e']) : e'.Direct := h.inner hp e' (List.mem_singleton_self e')

end Expr

/-! ## Evaluation -/

namespace Analysis

variable {α β : Type} {x : Analysis α} {f : α → Analysis β}

/-- The analysis may fail, but not since something cannot be evaluated. -/
def Able (x : Analysis α) : Prop := ∀ c e c', x c = (.error e, c') → e.fault.isUnevaluable = false

theorem able_pure (a : α) : Able (Pure.pure a : Analysis α) := fun _ _ _ h => by cases h

theorem able_fail {fault : CompileFault} (h : fault.isUnevaluable = false) : Able (fail fault : Analysis α) := fun _ _ _ hx => by
  cases hx
  exact h

theorem Able.bind (hx : Able x) (hf : ∀ a, Able (f a)) : Able (x >>= f) := by
  intro c e c' h
  rcases hc : x c with ⟨a | e' | _, c₁⟩
  · rw [bind_of_ok hc] at h
    exact hf a c₁ e c' h
  · rw [bind_of_error hc] at h
    cases h
    exact hx c e _ hc
  · rw [bind_of_cut hc] at h
    cases h

theorem able_read (g : Context → α) : Able (read g) := fun _ _ _ h => by cases h

theorem able_changeWorld (g : World → α × World) : Able (changeWorld g) := fun _ _ _ h => by cases h

theorem able_load (u : CompiledUnit) : Able (load u) := by
  refine (able_changeWorld _).bind fun r => ?_
  cases r with
  | ok id => exact able_pure id
  | error e => exact able_fail rfl

end Analysis

namespace Expr

open Analysis

/-- What a program throws has a fault of its own. -/
theorem able_running {α : Type} (r : Run α) : Able (running r) := by
  intro c e c' h
  simp only [running, run] at h
  rcases hr : r c.world with ⟨a | v | _, w⟩ <;> rw [hr] at h <;> cases h
  rfl

theorem able_classOf (name : String) : Able (classOf name) := by
  refine (able_read _).bind fun w => ?_
  split
  · exact able_pure _
  · exact able_fail rfl

theorem able_typeValue (name : String) : Able (typeValue name) := (able_classOf name).bind fun _ => able_pure _

theorem able_constantValue (f : Form) : Able (constantValue f) := able_changeWorld _

theorem able_varValue (v : VarRef) : Able (varValue v) := (able_read _).bind fun _ => able_running _

theorem able_closedFn (u : CompiledUnit) : Able (closedFn u) := (able_load u).bind fun _ => able_changeWorld _

mutual

theorem able_eval : ∀ e : Expr, e.Direct → Able e.eval
  | .nil, _ | .bool _, _ | .long _, _ | .double _, _ | .theVar _, _ => able_pure _
  | .const f, _ => able_constantValue f
  | .type name, _ => able_typeValue name
  | .vector items, h => (able_evalAll items (h.inner rfl)).bind fun _ => able_running _
  | .map pairs, h => (able_evalPairs pairs (h.inner rfl)).bind fun _ => able_running _
  | .set items, h => (able_evalAll items (h.inner rfl)).bind fun _ => able_running _
  | .var v, _ => able_varValue v
  | .define v init info, h => by
    refine (able_constantValue info).bind fun m => (able_changeWorld _).bind fun _ => (able_evalOption init (h.inner rfl)).bind fun o => ?_
    split
    · exact (able_changeWorld _).bind fun _ => able_pure _
    · exact able_pure _
  | .assign (.var v) value, h => (able_eval value (h.one rfl)).bind fun _ => able_running _
  | .assign (.field _) _, h => Bool.noConfusion h.evaluable
  | .cond test yes no _, h => by
    obtain ⟨htest, h⟩ := List.forall_mem_cons.1 h.parts
    obtain ⟨hyes, h⟩ := List.forall_mem_cons.1 h
    have hno := List.forall_mem_singleton.1 h
    refine (able_eval test htest).bind fun v => ?_
    split
    · exact able_eval yes hyes
    · exact able_eval no hno
  | .seq body, h => able_evalSeq body ((forall_seqParts body).1 h.parts)
  | .fn unit captures _, h => by
    have hnone : captures.isEmpty = true := h.evaluable
    rw [eval, if_pos hnone]
    exact able_closedFn unit
  | .invoke f args _ _, h => by
    obtain ⟨hf, hargs⟩ := List.forall_mem_cons.1 (h.inner rfl)
    exact (able_eval f hf).bind fun _ => (able_evalAll args hargs).bind fun _ => able_running _
  | .keywordInvoke _ target _, h => (able_eval target (h.one rfl)).bind fun _ => able_running _
  | .protocolInvoke v args _, h => (able_varValue v).bind fun _ => (able_evalAll args (h.inner rfl)).bind fun _ => able_running _
  | .staticCall _ _ _ args _, h => (able_evalAll args (h.inner rfl)).bind fun _ => able_running _
  | .staticField .., _ => able_running _
  | .methodCall target _ _ args _, h => by
    obtain ⟨htarget, hargs⟩ := List.forall_mem_cons.1 (h.inner rfl)
    exact (able_eval target htarget).bind fun _ => (able_evalAll args hargs).bind fun _ => able_running _
  | .fieldGet target _ _ _, h => (able_eval target (h.one rfl)).bind fun _ => able_running _
  | .construct className _ _ args _, h =>
    (able_evalAll args (h.inner rfl)).bind fun _ => (able_classOf className).bind fun _ => able_running _
  | .instanceOf className value, h =>
    (able_eval value (h.one rfl)).bind fun _ => (able_classOf className).bind fun _ => (able_read _).bind fun _ => able_pure _
  | .deftype name unit, _ => (able_load unit).bind fun _ => able_typeValue name
  | .reify name unit captures _, h => by
    have hnone : captures.isEmpty = true := h.evaluable
    rw [eval, if_pos hnone]
    exact (able_load unit).bind fun _ => (able_classOf name).bind fun _ => able_running _
  | .local _, h | .bind .., h | .bindFns .., h | .recur .., h | .throw _, h | .attempt .., h | .case .., h =>
    Bool.noConfusion h.evaluable

theorem able_evalAll : ∀ es : List Expr, (∀ e ∈ es, e.Direct) → Able (evalAll es)
  | [], _ => able_pure _
  | e :: es, h => by
    obtain ⟨he, hes⟩ := List.forall_mem_cons.1 h
    exact (able_eval e he).bind fun _ => (able_evalAll es hes).bind fun _ => able_pure _

theorem able_evalPairs : ∀ ps : List (Expr × Expr), (∀ e ∈ ps.flatMap fun p => [p.1, p.2], e.Direct) → Able (evalPairs ps)
  | [], _ => able_pure _
  | (k, v) :: rest, h => by
    obtain ⟨hk, h⟩ := List.forall_mem_cons.1 h
    obtain ⟨hv, hrest⟩ := List.forall_mem_cons.1 h
    exact (able_eval k hk).bind fun _ => (able_eval v hv).bind fun _ => (able_evalPairs rest hrest).bind fun _ => able_pure _

theorem able_evalOption : ∀ o : Option Expr, (∀ e ∈ o.toList, e.Direct) → Able (evalOption o)
  | some e, h => (able_eval e (List.forall_mem_singleton.1 h)).bind fun _ => able_pure _
  | none, _ => able_pure _

theorem able_evalSeq : ∀ es : List Expr, (∀ e ∈ es, e.Direct) → Able (evalSeq es)
  | [], _ => able_pure _
  | [e], h => able_eval e (List.forall_mem_singleton.1 h)
  | e :: e' :: es, h => by
    obtain ⟨he, hes⟩ := List.forall_mem_cons.1 h
    exact (able_eval e he).bind fun _ => able_evalSeq (e' :: es) hes

end

end Expr

end LispMachine
