import LispMachine.Proofs.Expr.Landing
/-!
# How expressions end

Two things that the shape of an expression tells about how it ends: control does not come to the end of one
that `leaves`, and one whose type is boolean ends with a boolean that is not boxed.
-/
namespace LispMachine

open Emit
open Run (Returns returns_pure returns_bind returns_then returns_any returns_raise)

/-- The locals of a loop are rebound. -/
def Flow.IsAgain : Flow → Prop
  | .again _ => True
  | .value .. => False

/-- A value is a boolean that is not boxed. -/
def Flow.IsBool : Flow → Prop
  | .again _ => True
  | .value kind s => kind = some .bool ∧ s.prim? = some .bool

namespace Expr

variable {S : Activation} {n k : Nat} {ρ : Locals}

theorem returns_iterate {body : Locals → Run Flow} {Q : Flow → Prop} (h : ∀ ρ, Returns (body ρ) Q) :
    ∀ (n : Nat) (ρ : Locals), Returns (Run.iterate body n ρ) Q
  | 0, _ => fun _ _ _ he => by cases he
  | n + 1, ρ => by
    refine returns_bind (h ρ) fun r hr => ?_
    cases r with
    | again us => exact returns_iterate h n _
    | value kind s => exact returns_pure hr

theorem returns_throwValue (v : Value) {Q : Flow → Prop} : Returns (Activation.throwValue v) Q := by
  intro w a w' h
  revert h
  cases v <;> intro h <;> cases h

theorem returns_held {x : Run Flow} (q : Option Prim) (h : Returns x Flow.IsAgain) : Returns (Run.held q x) fun _ => False := by
  refine returns_bind h fun r hr => ?_
  cases r with
  | again us => exact fun _ _ _ he => by cases he
  | value kind s => exact hr.elim

mutual

theorem returns_leaves : ∀ {e : Expr} {n k : Nat} {ρ : Locals}, e.leaves = true → Returns (e.meaning S n k ρ) Flow.IsAgain
  | .throw e, n, k, ρ, _ => by
    rw [meaning]
    exact returns_then _ fun s => returns_throwValue _
  | .recur targets args line, n, k, ρ, _ => by
    rw [meaning]
    exact returns_then _ fun ss => returns_pure trivial
  | .seq body, n, k, ρ, h => by
    rw [meaning_seq]
    exact returns_anyLeaves h
  | .bind isLoop bindings body, n, k, ρ, h => by
    rw [meaning]
    refine returns_then _ fun ρ => ?_
    split
    · exact returns_iterate (fun ρ => returns_leaves (e := body) h) n ρ
    · exact returns_leaves (e := body) h
  | .bindFns bindings body, n, k, ρ, h => by
    rw [meaning]
    exact returns_then _ fun ρ => returns_then _ fun _ => returns_leaves (e := body) h

theorem returns_anyLeaves : ∀ {es : List Expr} {n k : Nat} {ρ : Locals}, anyLeaves es = true →
    Returns (meaningSeq S n k ρ es) Flow.IsAgain
  | [e], n, k, ρ, h => by
    rw [meaningSeq]
    exact returns_leaves (by simpa [anyLeaves] using h)
  | e :: e' :: es, n, k, ρ, h => by
    rw [meaningSeq]
    · rw [anyLeaves, Bool.or_eq_true] at h
      obtain h | h := h
      · exact returns_bind (returns_held none (returns_leaves h)) fun _ hf => hf.elim
      · exact returns_then _ fun _ => returns_anyLeaves h
    · simp

end

/-! ## Booleans -/

/-- The type of a boolean that is not boxed, or of something without a value. -/
def BoolOrRecur (t : Option StaticType) : Prop := t = some (.prim .bool) ∨ t = some .recur

theorem boolOrRecur_unify {a b : Option StaticType} (h : BoolOrRecur (StaticType.unify a b)) : BoolOrRecur a ∧ BoolOrRecur b := by
  unfold StaticType.unify at h
  split at h
  · exact ⟨.inr rfl, h⟩
  · exact ⟨h, .inr rfl⟩
  · rename_i a b _ _
    split at h
    · rename_i hab
      rw [eq_of_beq hab] at h ⊢
      exact ⟨h, h⟩
    · obtain h | h := h <;> cases h
  · obtain h | h := h <;> cases h

theorem ret_of_boolOrRecur {t : HostType} (h : BoolOrRecur (StaticType.ofHost t)) : t = .prim .bool := by
  cases t with
  | prim p =>
    obtain h | h := h
    · cases h
      rfl
    · cases h
  | _ => obtain h | h := h <;> cases h

/-- The result of a member that gives a boolean. -/
theorem returns_bool {m : HostRef} {h : HostMember} (hm : m.ret = .prim .bool) (hr : h.ret = m.ret) (ht : h.Typed)
    (args : List Slot) :
    Returns (Host.call h.op args >>= fun s => pure (Flow.value m.ret.prim? (Machine.resultSlot h s))) Flow.IsBool := by
  rw [hm] at hr
  refine returns_bind (P := fun s => s.prim? = some .bool) (fun w s w' he => ht .bool args w s w' hr he) fun s hs => ?_
  rw [hm, Machine.resultSlot, hr]
  exact returns_pure ⟨rfl, hs⟩

theorem returns_boolVirtual {m : HostRef} {h : HostMember} (hm : m.ret = .prim .bool) (hr : h.ret = m.ret) (ht : h.Typed)
    (args : List Slot) :
    Returns (Activation.callVirtual h args >>= fun s => pure (Flow.value m.ret.prim? s)) Flow.IsBool := by
  unfold Activation.callVirtual
  split
  · exact returns_bind (P := fun _ => False) (returns_raise _) fun _ hf => hf.elim
  · rw [bind_assoc]
    simp only [pure_bind]
    exact returns_bool hm hr ht args

/-- Values of the expression are booleans that are not boxed, if that is its type. -/
def BoolTyped (S : Activation) (i : Image) (n : Nat) (e : Expr) : Prop :=
  ∀ {dest : Dest} {bound k pc pc' : Nat} {scope : List Nat} {loop : Option (List Nat)} {head : Label} {hs : List Handler}
    {ρ : Locals}, e.Scoped S.context S.frame bound scope loop → Laid (S.env head) dest e i S.entryOf k pc pc' hs →
    e.canBeUnboxed = true → BoolOrRecur e.staticType → Returns (e.meaning S n k ρ) Flow.IsBool

variable {i : Image}

theorem boolTyped_local (r : LocalRef) : BoolTyped S i n (.local r) := by
  intro dest bound k pc pc' scope loop head hs ρ hsc _ hu ht
  obtain ⟨p, hp⟩ := Option.isSome_iff_exists.1 hu
  simp only [BoolOrRecur, staticType, hp] at ht
  obtain h | h := ht
  · cases h
    exact absurd hp hsc.2
  · cases h

theorem boolTyped_instanceOf (name : String) (e : Expr) : BoolTyped S i n (.instanceOf name e) := by
  intro dest bound k pc pc' scope loop head hs ρ _ _ _ _
  rw [meaning]
  exact returns_then _ fun s => returns_then _ fun w => returns_pure ⟨rfl, rfl⟩

theorem boolTyped_recur (targets : List Nat) (args : List Expr) (line : Nat) : BoolTyped S i n (.recur targets args line) := by
  intro dest bound k pc pc' scope loop head hs ρ _ _ _ _
  rw [meaning]
  exact returns_then _ fun ss => returns_pure trivial

theorem boolTyped_staticCall (hi : S.Installed i) (className name : String) (member : Option HostRef) (args : List Expr)
    (line : Nat) : BoolTyped S i n (.staticCall className name member args line) := by
  intro dest bound k pc pc' scope loop head hs ρ _ hl hu ht
  cases member with
  | none => cases hu
  | some m =>
    obtain ⟨p, _, _, _, _, hprov, _, _⟩ := hl
    obtain ⟨h, hh, hr, hty⟩ := (hi.answers _ _ (hprov 0 _ rfl)).host
    rw [meaning]
    refine returns_then _ fun ss => ?_
    simp only [Activation.member?_eq (k := k + (needsAll args).length) hh]
    exact returns_bool (ret_of_boolOrRecur ht) hr hty _

theorem boolTyped_methodCall (hi : S.Installed i) (target : Expr) (name : String) (member : Option HostRef) (args : List Expr)
    (line : Nat) : BoolTyped S i n (.methodCall target name member args line) := by
  intro dest bound k pc pc' scope loop head hs ρ _ hl hu ht
  cases member with
  | none => cases hu
  | some m =>
    obtain ⟨p₁, _, _, _, _, p₂, _, _, _, _, hprov, _, _⟩ := hl
    obtain ⟨h, hh, hr, hty⟩ := (hi.answers _ _ (hprov 0 _ rfl)).host
    rw [meaning]
    refine returns_then _ fun s => returns_then _ fun ss => ?_
    simp only [Activation.member?_eq (k := k + (needs target).length + (needsAll args).length) hh]
    exact returns_boolVirtual (ret_of_boolOrRecur ht) hr hty (s :: ss)

theorem boolTyped_staticField (hi : S.Installed i) (className : String) (m : HostRef) :
    BoolTyped S i n (.staticField className m) := by
  intro dest bound k pc pc' scope loop head hs ρ _ hl _ ht
  obtain ⟨hprov, _, _⟩ := hl
  obtain ⟨h, hh, hr, hty⟩ := (hi.answers _ _ (hprov 0 _ rfl)).host
  rw [meaning]
  simp only [Activation.member?_eq (k := k) hh]
  exact returns_bool (ret_of_boolOrRecur ht) hr hty _

theorem boolTyped_fieldGet (target : Expr) (name : String) (field : Option FieldRef) (line : Nat) :
    BoolTyped S i n (.fieldGet target name field line) := by
  intro dest bound k pc pc' scope loop head hs ρ hsc _ hu ht
  cases field with
  | none => cases hu
  | some r =>
    have hp : r.prim = some .bool := by
      simp only [BoolOrRecur, staticType, Option.bind_some, Option.map_eq_some_iff] at ht
      obtain ⟨p, hp, h⟩ | ⟨p, hp, h⟩ := ht <;> cases h
      exact hp
    exact absurd hp hsc.2

theorem boolTyped_cond {test yes no : Expr} {line : Nat} (hy : BoolTyped S i n yes) (hn : BoolTyped S i n no) :
    BoolTyped S i n (.cond test yes no line) := by
  intro dest bound k pc pc' scope loop head hs ρ hsc hl hu ht
  obtain ⟨_, _, p₁, _, _, _, _, p₂, _, _, _, _, p₃, _, _, _, hyes, p₄, _, _, _, _, p₅, _, _, _, _, p₆, _, _, _, hno, _⟩ := hl
  obtain ⟨hty, htn⟩ := boolOrRecur_unify ht
  simp only [canBeUnboxed, Bool.and_eq_true] at hu
  rw [meaning]
  refine returns_then _ fun s => ?_
  split
  · exact hy hsc.2.1 hyes hu.1.1 hty
  · exact hn hsc.2.2 hno hu.1.2 htn

theorem boolTyped_bind {isLoop : Bool} {bindings : List (Nat × Expr)} {body : Expr} (hb : BoolTyped S i n body) :
    BoolTyped S i n (.bind isLoop bindings body) := by
  intro dest bound k pc pc' scope loop head hs ρ hsc hl hu ht
  obtain ⟨p, _, _, _, _, hbody⟩ := hl
  rw [meaning]
  refine returns_then _ fun ρ => ?_
  cases isLoop with
  | true =>
    obtain ⟨head', _, _, _, _, _, hbody⟩ := hbody
    exact returns_iterate (fun ρ => hb hsc.2.2 hbody hu ht) n ρ
  | false => exact hb hsc.2.2 hbody hu ht

theorem boolTyped_bindFns {bindings : List (Nat × Expr)} {body : Expr} (hb : BoolTyped S i n body) :
    BoolTyped S i n (.bindFns bindings body) := by
  intro dest bound k pc pc' scope loop head hs ρ hsc hl hu ht
  obtain ⟨p₁, _, _, _, _, p₂, _, _, _, _, p₃, _, _, _, _, hbody⟩ := hl
  rw [meaning]
  exact returns_then _ fun ρ => returns_then _ fun _ => hb hsc.2.2 hbody hu ht

theorem boolTyped_seq {body : List Expr} (hb : ∀ e ∈ body, BoolTyped S i n e) : BoolTyped S i n (.seq body) := by
  intro dest bound k pc pc' scope loop head hs ρ hsc hl hu ht
  rw [meaning_seq]
  have last : ∀ {es : List Expr} {k pc : Nat} {hs : List Handler}, (∀ e ∈ es, BoolTyped S i n e) →
      ScopedSeq S.context S.frame bound scope loop es → LaidSeq (S.env head) dest es i S.entryOf k pc pc' hs →
      lastCanBeUnboxed es = true → BoolOrRecur (lastType es) → Returns (meaningSeq S n k ρ es) Flow.IsBool := by
    intro es
    induction es with
    | nil =>
      intro k pc hs _ _ _ hu
      cases hu
    | cons e es ih =>
      intro k pc hs hb hsc hl hu ht
      cases es with
      | nil =>
        rw [meaningSeq]
        exact hb e List.mem_cons_self hsc hl hu ht
      | cons e' es =>
        obtain ⟨p, _, _, _, _, hrest⟩ := hl
        rw [meaningSeq]
        · exact returns_then _ fun _ => ih (fun e h => hb e (List.mem_cons_of_mem _ h)) hsc.2 hrest hu ht
        · simp
  exact last hb hsc hl hu ht

/-- **An expression of boolean type ends with a boolean that is not boxed.** -/
theorem boolTyped (hi : S.Installed i) (e : Expr) : BoolTyped S i n e := by
  cases e with
  | long | double =>
    intro dest bound k pc pc' scope loop head hs ρ _ _ _ ht
    obtain h | h := ht <;> cases h
  | «local» r => exact boolTyped_local r
  | instanceOf name e => exact boolTyped_instanceOf name e
  | recur targets args line => exact boolTyped_recur targets args line
  | staticCall className name member args line => exact boolTyped_staticCall hi className name member args line
  | methodCall target name member args line => exact boolTyped_methodCall hi target name member args line
  | staticField className m => exact boolTyped_staticField hi className m
  | fieldGet target name field line => exact boolTyped_fieldGet target name field line
  | cond test yes no line => exact boolTyped_cond (boolTyped hi yes) (boolTyped hi no)
  | seq body => exact boolTyped_seq fun e _ => boolTyped hi e
  | bind isLoop bindings body => exact boolTyped_bind (boolTyped hi body)
  | bindFns bindings body => exact boolTyped_bindFns (boolTyped hi body)
  | _ =>
    intro dest bound k pc pc' scope loop head hs ρ _ _ hu
    cases hu
termination_by e

end Expr

end LispMachine
