import LispMachine.Proofs.Expr.Calls
import LispMachine.Proofs.Expr.Switch
import LispMachine.Proofs.Expr.Loops
/-!
# Compiled expressions

The code of every expression without a `try` is faithful to the expression.
-/
namespace LispMachine.Machine

open LispMachine.Expr

theorem sizeOf_fst_lt_of_mem {α β : Type} [SizeOf α] [SizeOf β] {p : α × β} {ps : List (α × β)} (h : p ∈ ps) :
    sizeOf p.1 < sizeOf ps := by
  have hlt := List.sizeOf_lt_of_mem h
  rw [Prod.mk.sizeOf_spec] at hlt
  omega

theorem sizeOf_snd_lt_of_mem {α β : Type} [SizeOf α] [SizeOf β] {p : α × β} {ps : List (α × β)} (h : p ∈ ps) :
    sizeOf p.2 < sizeOf ps := by
  have hlt := List.sizeOf_lt_of_mem h
  rw [Prod.mk.sizeOf_spec] at hlt
  omega

variable {S : Activation} {i : Image} {n : Nat}

/-- The induction is over the expression; each case is the lemma for its node. -/
theorem faithful (hi : S.Installed i) (e : Expr) (h : e.hasTry = false) : S.Faithful i n e := by
  cases e with
  | nil => exact faithful_nil hi
  | bool b => exact faithful_bool hi b
  | long m => exact faithful_long hi m
  | double d => exact faithful_double hi d
  | const c => exact faithful_const hi c
  | type name => exact faithful_type hi name
  | vector items =>
    simp only [hasTry, anyTry_eq, List.any_eq_false, Bool.not_eq_true] at h
    exact faithful_vector hi fun e he => faithful hi e (h e he)
  | map pairs =>
    simp only [hasTry, anyTryPairs_eq, List.any_eq_false, Bool.not_eq_true, Bool.or_eq_false_iff] at h
    exact faithful_map hi fun p hp => ⟨faithful hi p.1 (h p hp).1, faithful hi p.2 (h p hp).2⟩
  | set items =>
    simp only [hasTry, anyTry_eq, List.any_eq_false, Bool.not_eq_true] at h
    exact faithful_set hi fun e he => faithful hi e (h e he)
  | «local» r => exact faithful_local hi r
  | var v => exact faithful_var hi v
  | theVar v => exact faithful_theVar hi v
  | define v init info =>
    cases init with
    | none => exact faithful_define hi v info fun e he => by cases he
    | some e =>
      refine faithful_define hi v info fun e' he => ?_
      cases he
      exact faithful hi e h
  | assign target value =>
    cases target with
    | var v => exact faithful_assignVar hi v (faithful hi value h)
    | field b => exact faithful_assignField hi b (faithful hi value h)
  | cond test yes no line =>
    simp only [hasTry, Bool.or_eq_false_iff] at h
    exact faithful_cond hi line (faithful hi test h.1.1) (faithful hi yes h.1.2) (faithful hi no h.2)
  | seq body =>
    simp only [hasTry, anyTry_eq, List.any_eq_false, Bool.not_eq_true] at h
    exact faithful_seq hi fun e he => faithful hi e (h e he)
  | bind isLoop bindings body =>
    simp only [hasTry, anyTryBindings_eq, List.any_eq_false, Bool.not_eq_true, Bool.or_eq_false_iff] at h
    cases isLoop with
    | false => exact faithful_let hi (fun b hb => faithful hi b.2 (h.1 b hb)) (faithful hi body h.2)
    | true => exact faithful_loop hi (fun b hb => faithful hi b.2 (h.1 b hb)) (faithful hi body h.2)
  | bindFns bindings body =>
    simp only [hasTry, anyTryBindings_eq, List.any_eq_false, Bool.not_eq_true, Bool.or_eq_false_iff] at h
    exact faithful_bindFns hi (fun b hb => faithful hi b.2 (h.1 b hb)) (faithful hi body h.2)
  | recur targets args line =>
    simp only [hasTry, anyTry_eq, List.any_eq_false, Bool.not_eq_true] at h
    exact faithful_recur line fun e he => faithful hi e (h e he)
  | fn u captures line => exact faithful_fn hi u captures line
  | invoke f args line tail =>
    simp only [hasTry, anyTry_eq, List.any_eq_false, Bool.not_eq_true, Bool.or_eq_false_iff] at h
    exact faithful_invoke hi line tail (faithful hi f h.1) fun e he => faithful hi e (h.2 e he)
  | keywordInvoke key target line => exact faithful_keywordInvoke hi key line (faithful hi target h)
  | protocolInvoke v args line =>
    simp only [hasTry, anyTry_eq, List.any_eq_false, Bool.not_eq_true] at h
    exact faithful_protocolInvoke hi v line fun e he => faithful hi e (h e he)
  | staticCall className name member args line =>
    simp only [hasTry, anyTry_eq, List.any_eq_false, Bool.not_eq_true] at h
    exact faithful_staticCall hi className name member line fun e he => faithful hi e (h e he)
  | methodCall target name member args line =>
    simp only [hasTry, anyTry_eq, List.any_eq_false, Bool.not_eq_true, Bool.or_eq_false_iff] at h
    exact faithful_methodCall hi name member line (faithful hi target h.1) fun e he => faithful hi e (h.2 e he)
  | staticField className member => exact faithful_staticField hi className member
  | fieldGet target name field line => exact faithful_fieldGet hi name field line (faithful hi target h)
  | construct className member declared args line =>
    simp only [hasTry, anyTry_eq, List.any_eq_false, Bool.not_eq_true] at h
    exact faithful_construct hi className member declared line fun e he => faithful hi e (h e he)
  | instanceOf className value => exact faithful_instanceOf hi className (faithful hi value h)
  | throw value => exact faithful_throw hi (faithful hi value h)
  | attempt body handlers cleanup resultSlot thrownSlot => cases h
  | case value temp plan buckets otherwise line =>
    simp only [hasTry, anyTryBuckets_eq, List.any_eq_false, Bool.not_eq_true, Bool.or_eq_false_iff] at h
    exact faithful_case hi temp plan line (faithful hi value h.1.1)
      (fun b hb e he => faithful hi e.2 (h.1.2 b hb e he)) (faithful hi otherwise h.2)
  | deftype name u => exact faithful_deftype hi name u
  | reify name u captures line => exact faithful_reify hi name u captures line
termination_by e
decreasing_by
  all_goals subst_vars
  -- a part of its own, a member of a list, or a member of a pair in a list
  all_goals simp only [vector.sizeOf_spec, map.sizeOf_spec, set.sizeOf_spec, define.sizeOf_spec, assign.sizeOf_spec, cond.sizeOf_spec,
    seq.sizeOf_spec, bind.sizeOf_spec, bindFns.sizeOf_spec, recur.sizeOf_spec, invoke.sizeOf_spec, keywordInvoke.sizeOf_spec,
    protocolInvoke.sizeOf_spec, staticCall.sizeOf_spec, methodCall.sizeOf_spec, fieldGet.sizeOf_spec, construct.sizeOf_spec,
    instanceOf.sizeOf_spec, throw.sizeOf_spec, case.sizeOf_spec, Option.some.sizeOf_spec]
  all_goals first
    | omega
    | have := List.sizeOf_lt_of_mem he; omega
    | have := sizeOf_fst_lt_of_mem hp; omega
    | have := sizeOf_snd_lt_of_mem hp; omega
    | have := sizeOf_snd_lt_of_mem hb; omega
    | have := sizeOf_snd_lt_of_mem he; have := sizeOf_snd_lt_of_mem hb; omega

end LispMachine.Machine
