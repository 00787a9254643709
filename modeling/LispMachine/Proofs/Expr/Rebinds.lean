import LispMachine.Proofs.Expr.InPlace
import Mathlib.Data.Set.Insert
/-!
# What an expression rebinds

The values that the `recur`s of an expression pass, with the locals that they go to (`Expr.rebindings`).  A `recur` counts at
whatever depth it stands, also in an inner loop; the bodies of functions and types do not count, since they are no parts.
-/
namespace LispMachine.Expr

/-- A `recur` somewhere in the expression passes the value to the local. -/
inductive Rebinds (target : Nat) (value : Expr) : Expr → Prop
  | recur {targets : List Nat} {args : List Expr} {line : Nat} : (target, value) ∈ targets.zip args →
      Rebinds target value (.recur targets args line)
  | part {e : Expr} {p : Station × Expr} : p ∈ e.parts → Rebinds target value p.2 → Rebinds target value e

def rebindings (e : Expr) : Set (Nat × Expr) := {r | Rebinds r.1 r.2 e}

/-- What any of the expressions rebinds. -/
def rebindingsOf (es : List Expr) : Set (Nat × Expr) := {r | ∃ e ∈ es, r ∈ e.rebindings}

@[simp] theorem rebindingsOf_nil : rebindingsOf [] = ∅ := by simp [rebindingsOf]

@[simp] theorem rebindingsOf_cons (e : Expr) (es : List Expr) : rebindingsOf (e :: es) = e.rebindings ∪ rebindingsOf es := by
  ext r
  simp [rebindingsOf]

theorem rebindingsOf_singleton (e : Expr) : rebindingsOf [e] = e.rebindings := by rw [rebindingsOf_cons, rebindingsOf_nil, Set.union_empty]

@[simp] theorem rebindingsOf_append (es es' : List Expr) : rebindingsOf (es ++ es') = rebindingsOf es ∪ rebindingsOf es' := by
  ext r
  simp only [rebindingsOf, List.mem_append, Set.mem_ofPred_eq, Set.mem_union, or_and_right, exists_or]

theorem rebindingsOf_congr {es es' : List Expr} (h : ∀ e, e ∈ es ↔ e ∈ es') : rebindingsOf es = rebindingsOf es' := by
  ext r
  simp only [rebindingsOf, h]

@[simp] theorem map_snd_innerParts (es : List Expr) : (innerParts es).map (·.2) = es := by
  rw [innerParts, List.map_map]
  exact List.map_id es

@[simp] theorem map_snd_seqParts (es : List Expr) : (seqParts es).map (·.2) = es := by
  induction es with
  | nil => rfl
  | cons e es ih =>
    cases es with
    | nil => rfl
    | cons e' es => exact congrArg (e :: ·) ih

/-- An expression that is no `recur` rebinds what its parts rebind. -/
theorem rebindings_eq {e : Expr} (hr : e.isRecur = false) : e.rebindings = rebindingsOf (e.parts.map (·.2)) := by
  ext r
  constructor
  · rintro (_ | ⟨hp, h⟩)
    · cases hr
    · exact ⟨_, List.mem_map_of_mem hp, h⟩
  · rintro ⟨e', he, h⟩
    obtain ⟨p, hp, rfl⟩ := List.mem_map.1 he
    exact .part hp h

/-- An expression is made of its parts. -/
theorem rebindingsOf_made {e : Expr} {es : List Expr} (hr : e.isRecur = false) (hp : e.parts.map (·.2) = es) :
    rebindingsOf [e] = rebindingsOf es := by
  rw [rebindingsOf_singleton, rebindings_eq hr, hp]

/-- An expression without parts is made of nothing. -/
theorem rebindingsOf_leaf {e : Expr} (hr : e.isRecur = false) (hp : e.parts = []) : rebindingsOf [e] = rebindingsOf [] :=
  rebindingsOf_made hr (by rw [hp, List.map_nil])

/-- A literal has no parts. -/
theorem rebindingsOf_literals {es : List Expr} (h : es.all isLiteral = true) : rebindingsOf es = rebindingsOf [] := by
  refine Set.ext fun r => ⟨fun ⟨e, he, hr⟩ => ?_, fun hr => by simp at hr⟩
  have hl := List.all_eq_true.1 h e he
  have hone : r ∈ rebindingsOf [e] := ⟨e, List.mem_singleton_self e, hr⟩
  cases e with
  | nil | bool | long | double | const => rwa [rebindingsOf_leaf rfl rfl] at hone
  | _ => cases hl

/-- What a `let` or a loop rebinds. -/
theorem rebindingsOf_bind (isLoop : Bool) (inits : List (Nat × Expr)) (result : Expr) :
    rebindingsOf [.bind isLoop inits result] = rebindingsOf (inits.map (·.2) ++ [result]) := rebindingsOf_made rfl (by simp [parts])

theorem rebindingsOf_bindFns (inits : List (Nat × Expr)) (result : Expr) :
    rebindingsOf [.bindFns inits result] = rebindingsOf (inits.map (·.2) ++ [result]) := rebindingsOf_made rfl (by simp [parts])

/-- The cleanup of a `try` has its code more than once. -/
theorem rebindingsOf_attempt (main : Expr) (handlers : List (String × Nat × Expr)) (cleanup : Option Expr) (resultSlot thrownSlot : Nat) :
    rebindingsOf [.attempt main handlers cleanup resultSlot thrownSlot] =
      rebindingsOf ([main] ++ (handlers.map fun h => h.2.2) ++ cleanup.toList) := by
  refine (rebindingsOf_made rfl rfl).trans (rebindingsOf_congr fun e => ?_)
  simp only [parts, attemptParts, List.map_cons, List.map_append, map_snd_innerParts, List.map_flatMap, List.mem_cons, List.mem_append,
    List.mem_flatMap, List.mem_map, List.cons_append]
  grind

/-- A `recur` also rebinds what the values that it passes rebind. -/
theorem rebindings_recur (targets : List Nat) (args : List Expr) (line : Nat) :
    (Expr.recur targets args line).rebindings = {r | r ∈ targets.zip args} ∪ rebindingsOf args := by
  ext r
  constructor
  · rintro (hz | ⟨hp, h⟩)
    · exact .inl hz
    · obtain ⟨e, he, rfl⟩ := List.mem_map.1 hp
      exact .inr ⟨e, he, h⟩
  · rintro (hz | ⟨e, he, h⟩)
    · exact .recur hz
    · exact .part (p := (.inner, e)) (List.mem_map_of_mem he) h

end LispMachine.Expr
