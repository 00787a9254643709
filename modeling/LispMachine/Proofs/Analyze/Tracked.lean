import LispMachine.Proofs.Analyze.Marks
import Mathlib.Data.List.Forall2
/-!
# The analysis of a form accounts for the marks

Whatever a form is, the locals that its analysis marks are those that got a value of another kind from a `recur` in the
expression of the form (`tracking_formWithin`); and of the locals that exist then, only those that a `recur` at the end of
the form rebinds can get such a value.  There is a lemma for every special form.  A loop is the one whose `recur`s aim at
locals of its own: a pass marks those of them that got such a value (`loopPass_passed`), and a pass that changes no flag has
none that did (`Passed.settled`).
-/
namespace LispMachine

/-- The locals that a `recur` in the form may aim at, if its result is wanted in this way. -/
def Demand.targets (demand : Demand) (loop : Option (List Nat)) : List Nat := if demand = .tail then loop.getD [] else []

namespace Analyze

open LispMachine.Expr Analysis

/-- The analyzer accounts for the marks. -/
def Tracking (rec : Analyzer) : Prop := ∀ (demand : Demand) (f : Form) (loop : Option (List Nat)),
  Tracks loop (demand.targets loop) [] (rec demand f) fun e => [e]

variable {rec : Analyzer} {demand : Demand} {loop : Option (List Nat)} {targets : List Nat} {before : List Expr}

/-! ## Sequences -/

theorem tracks_form (hr : Tracking rec) (f : Form) :
    Tracks loop (demand.targets loop) before (rec demand f) fun e => before ++ [e] := (hr demand f loop).from before

theorem tracks_apart (hr : Tracking rec) (hd : demand ≠ .tail) (f : Form) :
    Tracks loop targets before (rec demand f) fun e => before ++ [e] := by
  refine Follows.mono ((hr demand f loop).from before) ?_
  rw [Demand.targets, if_neg hd]
  exact List.nil_subset _

/-- A form whose value is consumed. -/
theorem tracks_operand (hr : Tracking rec) (demand : Demand) (f : Form) :
    Tracks loop targets before (rec demand.operand f) fun e => before ++ [e] := tracks_apart hr (operand_ne_tail demand) f

theorem tracks_operands (hr : Tracking rec) (forms : List Form) :
    Tracks loop targets before (operands rec demand forms) fun es => before ++ es :=
  Follows.congr (tracks_forList_map fun f _ => tracks_operand hr demand f) fun es => by rw [List.map_id']

theorem tracks_body (hr : Tracking rec) (forms : List Form) : Tracks loop (demand.targets loop) [] (body rec demand forms) fun e => [e] := by
  unfold body
  split
  · exact tracks_pure (rebindingsOf_leaf rfl rfl)
  · refine follows_bind (tracks_forList fun f _ => tracks_apart hr (leading_ne_tail demand) f) fun leading => ?_
    refine follows_bind (tracks_form hr _) fun result => tracks_pure ?_
    split
    · rename_i hleading
      rw [List.isEmpty_iff.1 hleading]
      rfl
    · exact rebindingsOf_made rfl (by simp [parts])

/-- A body that ends the round of what a `recur` in it goes back to. -/
theorem tracks_round (hr : Tracking rec) (forms : List Form) (targets : List Nat) :
    Tracks (some targets) targets [] (body rec .tail forms) fun e => [e] := tracks_body hr forms

/-! ## Symbols and quotation -/

theorem tracks_symbol (s : Symbol) (info : Option Form.Info) : Tracks loop targets before (symbol s info) fun e => before ++ [e] := by
  have hleaf : ∀ {e : Expr}, e.isRecur = false → e.parts = [] → rebindingsOf (before ++ [e]) = rebindingsOf before := fun h h' => by
    rw [rebindingsOf_append, rebindingsOf_leaf h h', rebindingsOf_nil, Set.union_empty]
  refine follows_read fun c => ?_
  split
  · exact follows_bind (tracks_referenceLocal _ _) fun r => tracks_pure (hleaf rfl rfl)
  · refine follows_read fun c => ?_
    split
    · split
      · exact tracks_pure (hleaf rfl rfl)
      · exact follows_fail _
    · split
      · split
        · exact follows_fail _
        · exact tracks_pure (hleaf rfl rfl)
      · split
        · exact tracks_pure (hleaf rfl rfl)
        · exact follows_fail _

theorem tracks_quote (items : List Form) : Tracks loop targets [] (quote items) fun e => [e] := by
  unfold quote
  split
  any_goals exact tracks_pure (rebindingsOf_leaf rfl rfl)
  exact follows_fail _

theorem tracks_theVar (items : List Form) : Tracks loop targets [] (theVar items) fun e => [e] := by
  unfold theVar
  split
  · refine follows_read fun c => ?_
    split
    · exact tracks_pure (rebindingsOf_leaf rfl rfl)
    · exact follows_fail _
  · exact follows_fail _

/-! ## Definitions, conditions and assignments -/

theorem tracks_define (hr : Tracking rec) (items : List Form) : Tracks loop targets [] (define rec demand items) fun e => [e] := by
  unfold define
  refine follows_ofExcept fun parts _ => ?_
  obtain ⟨doc, init⟩ := parts
  dsimp only
  split
  · refine follows_read fun c => ?_
    split
    · exact follows_fail _
    · refine follows_calm (calm_changeWorld _) fun id _ => follows_calm (calm_changeWorld _) fun _ _ => ?_
      cases init with
      | none => exact follows_if (calm_warn _ _) (follows_read fun _ => follows_read fun _ => tracks_pure (rebindingsOf_leaf rfl rfl))
      | some f =>
        refine follows_if (calm_warn _ _) (follows_bind (tracks_operand hr demand f) fun e => ?_)
        exact follows_read fun _ => follows_read fun _ => tracks_pure (rebindingsOf_made rfl rfl)
  · exact follows_fail _

theorem tracks_cond (hr : Tracking rec) (items : List Form) :
    Tracks loop (demand.targets loop) [] (cond rec demand items) fun e => [e] := by
  unfold cond
  split
  · exact follows_fail _
  · split
    · refine follows_read fun c => follows_bind (tracks_operand hr demand _) fun test => follows_read fun c => ?_
      refine follows_calm (calm_addPath _ _) fun branch _ => follows_bind (tracks_arm (tracks_form hr _)) fun yes => ?_
      exact follows_bind (tracks_arm (tracks_form hr _)) fun no => tracks_pure (rebindingsOf_made rfl rfl)
    · exact follows_fail _

theorem tracks_assignableField (x : Nat) : Tracks loop targets before (assignableField x) fun _ => before := by
  refine follows_read fun c => ?_
  dsimp only
  split
  · exact follows_bind (tracks_modify (fun c => c.sameKinds_closeOver x) fun c => c.scope_closeOver x) fun _ => tracks_pure rfl
  · exact follows_fail _

theorem tracks_assign (hr : Tracking rec) (items : List Form) : Tracks loop targets [] (assign rec demand items) fun e => [e] := by
  unfold assign
  split
  · refine follows_read fun c => ?_
    split
    · refine follows_bind (tracks_assignableField _) fun target => follows_bind (tracks_operand hr demand _) fun e => ?_
      exact tracks_pure (rebindingsOf_made rfl rfl)
    · refine follows_bind (tracks_symbol _ _) fun e => ?_
      split
      · refine follows_read fun _ => follows_bind (tracks_operand hr demand _) fun e => tracks_pure ?_
        rw [rebindingsOf_made rfl rfl, List.nil_append, rebindingsOf_append, rebindingsOf_leaf (e := .var _) rfl rfl, ← rebindingsOf_append]
        rfl
      · exact follows_fail _
  · exact follows_fail _
  · exact follows_fail _

theorem tracks_throw (hr : Tracking rec) (form : Form) (items : List Form) :
    Tracks loop (demand.targets loop) [] (throw rec demand form items) fun e => [e] := by
  unfold throw
  split
  · split
    · exact hr demand _ loop
    · exact follows_bind (tracks_apart hr Demand.noConfusion _) fun e => tracks_pure (rebindingsOf_made rfl rfl)
  · exact follows_fail _
  · exact follows_fail _

/-! ## Host members -/

theorem tracks_staticMember (hr : Tracking rec) (k : Class) (name : String) (args : List Form) (parenthesized : Bool) (line : Nat) :
    Tracks loop targets [] (staticMember rec demand k name args parenthesized line) fun e => [e] := by
  unfold staticMember
  refine follows_read fun c => ?_
  dsimp only
  split
  · exact tracks_pure (rebindingsOf_leaf rfl rfl)
  · refine follows_bind (tracks_operands hr args) fun es => follows_calm (aside_resolveMember _ _ _ _ _).calm fun member _ => ?_
    exact follows_if (aside_reflects _).calm (tracks_pure (rebindingsOf_made rfl (map_snd_innerParts _)))

theorem tracks_instanceField (k : Option Class) (target : Expr) (name fieldName : String) (args : List Expr) (line : Nat) :
    Tracks loop targets ([target] ++ args) (instanceField k target name fieldName args line) fun e => [e] := by
  unfold instanceField
  split
  · exact follows_fail _
  · rename_i hargs
    have hnil : args = [] := by simpa using hargs
    exact follows_if (aside_reflects _).calm (tracks_pure (rebindingsOf_made rfl (by rw [hnil]; rfl)))

theorem tracks_instanceMethod (k : Option Class) (target : Expr) (name : String) (args : List Expr) (line : Nat) :
    Tracks loop targets ([target] ++ args) (instanceMethod k target name args line) fun e => [e] := by
  have hmade : ∀ member, rebindingsOf [Expr.methodCall target name member args line] = rebindingsOf ([target] ++ args) := fun _ =>
    rebindingsOf_made rfl (map_snd_innerParts _)
  unfold instanceMethod
  split
  · split
    · exact tracks_pure (hmade _)
    · exact follows_calm (aside_resolveMember _ _ _ _ _).calm fun member _ => follows_if (aside_reflects _).calm (tracks_pure (hmade _))
  · exact follows_calm (aside_reflects _).calm fun _ _ => tracks_pure (hmade _)

theorem tracks_instanceMember (hr : Tracking rec) (target : Form) (name : String) (args : List Form) (parenthesized : Bool) (line : Nat) :
    Tracks loop targets [] (instanceMember rec demand target name args parenthesized line) fun e => [e] := by
  unfold instanceMember
  refine follows_bind (tracks_operand hr demand target) fun e => follows_bind (tracks_operands hr args) fun es => follows_read fun c => ?_
  dsimp only
  split
  all_goals
    split
    · exact tracks_instanceField _ _ _ _ _ _
    · exact tracks_instanceMethod _ _ _ _ _

/-- A member of a class that the form names, or else of the object that it gives. -/
theorem tracks_owner {form : Form} {f : Option Class → Analysis Expr} (hsome : ∀ k, Tracks loop targets [] (f (some k)) fun e => [e])
    (hnone : Tracks loop targets [] (f none) fun e => [e]) : Tracks loop targets [] (classNamed? form >>= f) fun e => [e] := by
  refine follows_calm (aside_classNamed? form).calm fun found _ => ?_
  cases found with
  | some k => exact hsome k
  | none => exact hnone

theorem tracks_dot (hr : Tracking rec) (items : List Form) : Tracks loop targets [] (dot rec demand items) fun e => [e] := by
  unfold dot
  refine follows_read fun c => ?_
  dsimp only
  split
  · exact tracks_owner (fun k => tracks_staticMember hr k _ _ _ _) (tracks_instanceMember hr _ _ _ _ _)
  · exact tracks_owner (fun k => tracks_staticMember hr k _ _ _ _) (tracks_instanceMember hr _ _ _ _ _)
  · exact follows_fail _
  · exact follows_fail _

theorem tracks_new (hr : Tracking rec) (items : List Form) : Tracks loop targets [] (new rec demand items) fun e => [e] := by
  unfold new
  split
  · refine follows_read fun c => ?_
    split
    · exact follows_fail _
    · refine follows_read fun c => follows_bind (tracks_operands hr _) fun es => ?_
      split
      · split
        · exact follows_fail _
        · exact tracks_pure (rebindingsOf_made rfl (map_snd_innerParts _))
      · refine follows_calm (aside_resolveMember _ _ _ _ _).calm fun member _ => ?_
        exact follows_if (aside_reflects _).calm (tracks_pure (rebindingsOf_made rfl (map_snd_innerParts _)))
  · exact follows_fail _

/-! ## Exceptions -/

theorem tracks_handler (hr : Tracking rec) (clause : CatchClause) :
    Tracks loop (demand.targets loop) [] (handler rec demand clause) fun h => [h.2.2] := by
  refine follows_read fun c => ?_
  split
  · exact follows_fail _
  · refine tracks_nested (follows_modifyScope (fun _ h => h) (follows_bind (tracks_registerLocal _ _ _ _) fun b => ?_))
    exact follows_bind (tracks_body hr _) fun e => (tracks_pure rfl).ends

theorem tracks_cleanup (hr : Tracking rec) (forms : List Form) : Tracks loop targets before
    (nested do
      modifyScope fun s => { s with inHandler := true, methodReturn := false }
      return some (← body rec .statement forms)) fun o => before ++ o.toList := by
  refine Follows.from ?_ before
  refine tracks_nested (follows_modifyScope (fun _ h => h) ?_)
  exact follows_bind (Follows.mono (tracks_body hr forms) (List.nil_subset _)) fun e => (tracks_pure rfl).ends

theorem tracks_attempt (hr : Tracking rec) (form : Form) (items : List Form) :
    Tracks loop (demand.targets loop) [] (attempt rec demand form items) fun e => [e] := by
  refine follows_read fun c => ?_
  split
  · exact hr demand _ loop
  · refine follows_ofExcept fun parts _ => follows_bind tracks_allocSlot fun resultSlot => follows_bind tracks_allocSlot fun thrownSlot => ?_
    refine follows_bind (tracks_nested (follows_modifyScope (fun _ h => h) (tracks_body hr parts.body).ends)) fun main => ?_
    refine follows_bind (tracks_forList_map fun clause _ => tracks_handler hr clause) fun handlers => ?_
    dsimp only
    split
    · exact follows_read fun _ => tracks_pure ((rebindingsOf_attempt main handlers none _ _).trans (by simp))
    · exact follows_bind (tracks_cleanup hr _) fun cleanup => tracks_pure (rebindingsOf_attempt main handlers cleanup _ _)

/-! ## Choosing by constants -/

theorem tracks_caseDefault (hr : Tracking rec) (otherwise : Option Form) (temp : Symbol) :
    Tracks loop (demand.targets loop) [] (caseDefault rec demand otherwise temp) fun e => [e] := by
  unfold caseDefault
  split <;> exact hr demand _ loop

/-- A step with a look at the context before it, that may be left out. -/
theorem follows_ifRead {α β : Type} {Q : Context → Prop} {done : β → List Expr} {b : Prop} [Decidable b] {g : Context → α}
    {y : α → Analysis PUnit} {z : Analysis β} (hy : ∀ a, Calm (y a) fun _ => True) (hz : Follows Q loop targets before z done) :
    Follows Q loop targets before (if b then read g >>= fun a => y a >>= fun _ => z else z) done := by
  split
  · exact follows_read fun _ => follows_calm (hy _) fun _ _ => hz
  · exact hz

/-- The order of the buckets does not matter. -/
theorem rebindingsOf_case (value : Expr) (temp : Nat) (plan : CasePlan) (buckets : List (Int32 × List (Form × Expr))) (otherwise : Expr)
    (line : Nat) : rebindingsOf [.case value temp plan (sortByKey buckets) otherwise line] =
      rebindingsOf ([value] ++ buckets.flatMap (fun b => b.2.map (·.2)) ++ [otherwise]) := by
  refine (rebindingsOf_made rfl rfl).trans (rebindingsOf_congr fun e => ?_)
  simp only [parts, List.map_cons, List.map_append, List.map_flatMap, List.map_map, List.mem_cons, List.mem_append, List.mem_flatMap,
    mem_sortByKey, List.map_nil, List.not_mem_nil, or_false, or_assoc]
  rfl

theorem tracks_case (hr : Tracking rec) (form : Form) (items : List Form) :
    Tracks loop (demand.targets loop) [] (case rec demand form items) fun e => [e] := by
  unfold case
  split
  · exact hr demand _ loop
  · split
    · refine follows_read fun c => follows_ofExcept fun constants _ => tracks_nested ?_
      refine follows_bind (tracks_operand hr demand _) fun value => follows_calm (calm_changeWorld _) fun n _ => ?_
      refine follows_bind (tracks_registerLocal _ _ _ _) fun temp => ?_
      split
      · refine follows_bind ((tracks_caseDefault hr _ _).from _) fun e => (tracks_pure ?_).ends
        exact rebindingsOf_made rfl rfl
      · refine follows_ifRead (fun _ => calm_warn _ _) (follows_read fun c => follows_calm (calm_addPath _ _) fun branch _ => ?_)
        refine follows_bind (tracks_forList (T := fun b => b.2.map (·.2)) fun group _ => ?_) fun buckets => ?_
        · refine follows_bind (tracks_forList_map fun constant _ => ?_) fun entries => tracks_pure rfl
          exact follows_bind (tracks_arm (tracks_form hr _)) fun e => tracks_pure rfl
        · refine follows_bind ((tracks_arm (tracks_caseDefault hr _ _)).from _) fun e => (tracks_pure ?_).ends
          exact rebindingsOf_case _ _ _ _ _ _
    · exact follows_fail _

/-! ## Bindings and loops -/

/-- A step that may be left out and that changes no kinds. -/
theorem ok_of_if {α : Type} {b : Prop} [Decidable b] {y : Analysis PUnit} {z : Analysis α} {c c' : Context} {a : α} (hy : Calm y fun _ => True)
    (h : (if b then y >>= fun _ => z else z) c = (.ok a, c')) : ∃ c₁, c.Quiet c₁ ∧ z c₁ = (.ok a, c') := by
  split at h
  · obtain ⟨_, c₁, h₁, h₂⟩ := bind_eq_ok h
    exact ⟨c₁, (hy c _ c₁ h₁).1, h₂⟩
  · exact ⟨c, .refl c, h⟩

theorem tracks_bindAll (hr : Tracking rec) (bindings : List (Form × Form)) (boxed : List Bool) :
    Tracks loop targets before (bindAll rec bindings boxed) fun bs => before ++ bs.map (·.2) := by
  induction bindings generalizing boxed before with
  | nil => exact tracks_pure (by simp)
  | cons b rest ih =>
    unfold bindAll
    refine follows_ofExcept fun name _ => follows_bind (tracks_apart hr Demand.noConfusion b.2) fun e => follows_read fun c => ?_
    refine follows_if (calm_warn _ _) (follows_bind (tracks_registerLocal _ _ _ _) fun id => follows_bind (ih boxed.tail) fun bs => tracks_pure ?_)
    rw [List.map_cons, List.append_assoc, List.singleton_append]

theorem bindAll_marks (hr : Tracking rec) {bindings : List (Form × Form)} {boxed : List Bool} {c c' : Context} {bs : List (Nat × Expr)}
    (h : bindAll rec bindings boxed c = (.ok bs, c')) :
    c'.scope.loopLocals = c.scope.loopLocals ∧ c.Marks [] c' (rebindingsOf (bs.map (·.2))) := by
  have htracks : Tracks c.scope.loopLocals [] [] (bindAll rec bindings boxed) fun bs => bs.map (·.2) := tracks_bindAll hr bindings boxed
  obtain ⟨hl, rs, hm, he⟩ := htracks c rfl bs c' h
  rw [rebindingsOf_nil, Set.empty_union] at he
  exact ⟨hl, he ▸ hm⟩

/-- A loop local as it was opened under this flag: it is new, and has the kind of its initial value unless it is boxed. -/
structure Opened (c c' : Context) (isBoxed : Bool) (b : Nat × Expr) : Prop where
  new : c.bindings.size ≤ b.1
  known : b.1 < c'.bindings.size
  prim : (c'.binding b.1).prim = if isBoxed then none else b.2.localPrim?

theorem Opened.later {c c' c'' : Context} {isBoxed : Bool} {b : Nat × Expr} {rs : Set (Nat × Expr)} (h : Opened c c' isBoxed b)
    (hm : c'.Marks targets c'' rs) : Opened c c'' isBoxed b :=
  ⟨h.new, Nat.lt_of_lt_of_le h.known hm.size, (hm.prim b.1 h.known).trans h.prim⟩

/-- The locals are opened one by one, each with its flag, and none of them has a mark. -/
theorem bindAll_opened (hr : Tracking rec) {bindings : List (Form × Form)} {boxed : List Bool} {c c' : Context} {bs : List (Nat × Expr)}
    (hlen : boxed.length = bindings.length) (h : bindAll rec bindings boxed c = (.ok bs, c')) :
    List.Forall₂ (fun isBoxed b => Opened c c' isBoxed b ∧ (c'.binding b.1).recurMismatch = false) boxed bs := by
  induction bindings generalizing boxed c bs with
  | nil =>
    cases h
    rw [List.length_eq_zero_iff.1 hlen]
    exact .nil
  | cons b rest ih =>
    obtain ⟨isBoxed, boxed, rfl⟩ := List.exists_cons_of_length_eq_add_one hlen
    unfold bindAll at h
    obtain ⟨name, c₁, h₁, h⟩ := bind_eq_ok h
    obtain ⟨init, c₂, h₂, h⟩ := bind_eq_ok h
    obtain ⟨c₃, hquiet, h⟩ := ok_of_if (calm_warn _ _) h
    obtain ⟨id, c₄, h₄, h⟩ := bind_eq_ok h
    obtain ⟨bs, c₅, h₅, h⟩ := bind_eq_ok h
    cases h
    obtain ⟨_, _, hinit, _⟩ := hr .expression b.2 _ c₁ rfl init c₂ h₂
    obtain ⟨_, hrest⟩ := bindAll_marks hr h₅
    have hsize : c.bindings.size ≤ c₃.bindings.size := by
      rw [hquiet.size, ← (calm_ofExcept c name c₁ h₁).1.size]
      exact hinit.size
    obtain ⟨rfl, hsize₄, hprim, hmark, _⟩ := registerLocal_kind h₄
    have hnew : c₃.bindings.size < c₄.bindings.size := hsize₄ ▸ Nat.lt_succ_self _
    refine .cons ⟨⟨hsize, Nat.lt_of_lt_of_le hnew hrest.size, (hrest.prim _ hnew).trans hprim⟩, (hrest.mark_eq hnew).trans hmark⟩ ?_
    refine (ih (Nat.succ.inj hlen) h₅).imp fun _ _ h => ⟨⟨?_, h.1.known, h.1.prim⟩, h.2⟩
    exact Nat.le_trans (Nat.le_trans hsize (Nat.le_of_lt hnew)) h.1.new

/-- Only the locals of the loop can get a value of another kind from its body. -/
theorem tracks_loopBody (hr : Tracking rec) (locals : List Nat) (forms : List Form) :
    Tracks loop locals [] (loopBody rec demand locals forms) fun e => [e] := by
  refine follows_read fun c => follows_calm (calm_addPath _ _) fun root _ => ?_
  refine follows_calm (calm_addPath _ _) fun clearRoot _ => follows_calm (calm_addPath _ _) fun clearPath _ => tracks_nested ?_
  exact follows_modifyScope (fun _ _ => rfl) (tracks_round hr forms locals).ends

/-- What a pass over a loop with these flags leaves behind: the locals have marks if they got a value of another kind. -/
structure Passed (c c' : Context) (boxed : List Bool) (inits : List (Nat × Expr)) (result : Expr) : Prop where
  marks : c.Marks (inits.map (·.1)) c' (rebindings (.bind true inits result))
  locals : List.Forall₂ (fun isBoxed b => Opened c c' isBoxed b ∧ ((c'.binding b.1).recurMismatch = true ↔
    ∃ value, Rebinds b.1 value (.bind true inits result) ∧ c'.Clash b.1 value)) boxed inits
  scope : c'.scope = c.scope

theorem loopPass_passed (hr : Tracking rec) {bindings : List (Form × Form)} {forms : List Form} {boxed next : List Bool} {c c' : Context}
    {e : Expr} (hlen : boxed.length = bindings.length) (h : loopPass rec demand bindings forms boxed c = (.ok (e, next), c')) :
    ∃ inits result, e = .bind true inits result ∧ next = boxMismatched c' (inits.map (·.1)) boxed ∧ Passed c c' boxed inits result := by
  obtain ⟨c₂, hx, rfl⟩ := ok_of_nested h
  obtain ⟨inits, c₁, h₁, hx⟩ := bind_eq_ok hx
  obtain ⟨result, _, h₂, hx⟩ := bind_eq_ok hx
  cases hx
  obtain ⟨hl, hm₁⟩ := bindAll_marks hr h₁
  obtain ⟨_, rs, hm₂, he⟩ := tracks_loopBody hr (inits.map (·.1)) forms c₁ hl result c₂ h₂
  have hback : c₂.Marks (inits.map (·.1)) { c₂ with scope := c.scope } ∅ := Context.marks_of_kinds (Nat.le_refl _) fun _ _ => rfl
  have hbody : c₁.Marks (inits.map (·.1)) { c₂ with scope := c.scope } rs := Set.union_empty rs ▸ hm₂.trans hback
  have hrs : rebindings (.bind true inits result) = rebindingsOf (inits.map (·.2)) ∪ rs := by
    rw [rebindingsOf_nil, Set.empty_union] at he
    rw [← rebindingsOf_singleton, rebindingsOf_bind, rebindingsOf_append, he]
  refine ⟨inits, result, rfl, rfl, hrs ▸ (hm₁.mono (List.nil_subset _)).trans hbody, ?_, rfl⟩
  refine (bindAll_opened hr hlen h₁).imp fun _ b ⟨hopened, hunmarked⟩ => ⟨hopened.later hbody, ?_⟩
  have hmem : ∀ value, Rebinds b.1 value (.bind true inits result) ↔ (b.1, value) ∈ rebindingsOf (inits.map (·.2)) ∪ rs :=
    fun value => hrs ▸ Iff.rfl
  rw [hbody.marked b.1 hopened.known, hunmarked]
  simp only [hmem, Context.clash_congr (hbody.prim b.1 hopened.known)]
  constructor
  · rintro (hfalse | ⟨value, hr, hc⟩)
    · cases hfalse
    · exact ⟨value, .inr hr, hc⟩
  · rintro ⟨value, hr | hr, hc⟩
    · exact absurd hc ((hm₁.settled _ hr).resolve_left List.not_mem_nil).2
    · exact .inr ⟨value, hr, hc⟩

/-- The flag for the next pass. -/
theorem getElem_boxMismatched {c : Context} {inits : List (Nat × Expr)} {boxed : List Bool} {i : Nat} (hi : i < inits.length)
    (hb : i < boxed.length) (hn : i < (boxMismatched c (inits.map (·.1)) boxed).length) :
    (boxMismatched c (inits.map (·.1)) boxed)[i] = (boxed[i] || (c.binding inits[i].1).recurMismatch) := by
  simp [boxMismatched]

namespace Passed

variable {c c' : Context} {boxed : List Bool} {inits : List (Nat × Expr)} {result : Expr}

theorem length_eq (h : Passed c c' boxed inits result) : boxed.length = inits.length := h.locals.length_eq

theorem length_next (h : Passed c c' boxed inits result) : (boxMismatched c' (inits.map (·.1)) boxed).length = boxed.length := by
  rw [boxMismatched, List.length_map, List.length_zip, List.length_map, ← h.length_eq, Nat.min_self]

theorem getElem (h : Passed c c' boxed inits result) {i : Nat} (hb : i < boxed.length) (hi : i < inits.length) :
    Opened c c' boxed[i] inits[i] ∧ ((c'.binding inits[i].1).recurMismatch = true ↔
      ∃ value, Rebinds inits[i].1 value (.bind true inits result) ∧ c'.Clash inits[i].1 value) := h.locals.get hb hi

/-- If no flag changes then every local takes what it gets. -/
theorem settled (h : Passed c c' boxed inits result) (hn : boxMismatched c' (inits.map (·.1)) boxed = boxed) :
    ∀ r ∈ rebindings (.bind true inits result), r.1 < c'.bindings.size ∧ ¬ c'.Clash r.1 r.2 := by
  rintro ⟨target, value⟩ hr
  refine (h.marks.settled _ hr).elim (fun ht => ?_) id
  obtain ⟨b, hb, rfl⟩ := List.mem_map.1 ht
  obtain ⟨i, hi, rfl⟩ := List.getElem_of_mem hb
  have hboxed : i < boxed.length := h.length_eq ▸ hi
  obtain ⟨hopened, hmark⟩ := h.getElem hboxed hi
  refine ⟨hopened.known, fun hc => ?_⟩
  have hflag : boxed[i] = true := by
    rw [← List.getElem_of_eq hn (hn.symm ▸ hboxed), getElem_boxMismatched hi hboxed, hmark.2 ⟨value, hr, hc⟩, Bool.or_true]
  obtain ⟨kind, hkind, _⟩ := hc
  have hprim := hopened.prim
  rw [hflag, if_pos rfl] at hprim
  cases hprim.symm.trans hkind

/-- The locals are new, so that a pass leaves no mark on older ones. -/
theorem target_new (h : Passed c c' boxed inits result) : ∀ t ∈ inits.map (·.1), c.bindings.size ≤ t := by
  intro t ht
  obtain ⟨b, hb, rfl⟩ := List.mem_map.1 ht
  obtain ⟨i, hi, rfl⟩ := List.getElem_of_mem hb
  exact (h.getElem (h.length_eq ▸ hi) hi).1.new

end Passed

/-- The last pass settles what it rebinds, and what the passes before it rebind is forgotten. -/
theorem tracks_loopPasses (hr : Tracking rec) (bindings : List (Form × Form)) (forms : List Form) (passes : Nat) {boxed : List Bool}
    (hlen : boxed.length = bindings.length) : Tracks loop targets [] (loopPasses rec demand bindings forms passes boxed) fun e => [e] := by
  induction passes generalizing boxed with
  | zero => exact follows_cut
  | succ passes ih =>
    intro c hl e c' h
    obtain ⟨⟨e₁, next⟩, c₁, h₁, h⟩ := bind_eq_ok h
    obtain ⟨inits, result, rfl, rfl, hpass⟩ := loopPass_passed hr hlen h₁
    have hl₁ : c₁.scope.loopLocals = loop := hpass.scope ▸ hl
    dsimp only at h
    split at h
    · rename_i hsame
      cases h
      refine ⟨hl₁, rebindings (.bind true inits result), ?_, by rw [rebindingsOf_singleton, rebindingsOf_nil, Set.empty_union]⟩
      exact (hpass.marks.close hpass.target_new (hpass.settled (eq_of_beq hsame))).mono (List.nil_subset _)
    · obtain ⟨hl', rs, hm, he⟩ := ih (hpass.length_next.trans hlen) c₁ hl₁ e c' h
      have hpassed : c.Marks targets c₁ ∅ := (hpass.marks.close hpass.target_new fun _ h => h.elim).mono (List.nil_subset _)
      exact ⟨hl', ∅ ∪ rs, hpassed.trans hm, by rw [Set.empty_union, he]⟩

/-- A loop, or the function that is made of it, gets no value of another kind for any local outside. -/
theorem tracks_loop (hr : Tracking rec) (form : Form) (items : List Form) :
    Tracks loop targets [] (bind rec demand form items true) fun e => [e] := by
  refine follows_ofExcept fun bindings _ => ?_
  split
  · rename_i hwrapped
    refine tracks_apart hr (fun h => ?_) _
    rw [h] at hwrapped
    cases hwrapped
  · exact tracks_loopPasses hr bindings _ _ (List.length_map _)

theorem tracks_let (hr : Tracking rec) (form : Form) (items : List Form) :
    Tracks loop (demand.targets loop) [] (bind rec demand form items false) fun e => [e] := by
  refine follows_ofExcept fun bindings _ => ?_
  split
  · exact hr demand _ loop
  · refine tracks_nested (follows_bind (tracks_bindAll hr bindings []) fun inits => ?_)
    refine follows_bind ((tracks_body hr _).from _) fun e => (tracks_pure ?_).ends
    exact rebindingsOf_bind false inits e

theorem tracks_bindFns (hr : Tracking rec) (form : Form) (items : List Form) :
    Tracks loop (demand.targets loop) [] (bindFns rec demand form items) fun e => [e] := by
  refine follows_ofExcept fun bindings _ => ?_
  split
  · exact hr demand _ loop
  · refine tracks_nested (follows_bind (tracks_forList_nil fun b _ => ?_) fun ids => ?_)
    · refine follows_ofExcept fun s _ => follows_bind (tracks_registerLocal _ _ _ _) fun id => ?_
      exact follows_bind (tracks_modify (fun c => c.sameKinds_modifyBinding id fun _ => rfl) fun _ => rfl) fun _ => tracks_pure rfl
    · refine follows_bind (tracks_forList_map (g := (·.2)) fun b _ => ?_) fun inits => ?_
      · exact follows_bind (tracks_apart hr Demand.noConfusion _) fun e => tracks_pure rfl
      · refine follows_bind ((tracks_body hr _).from _) fun e => (tracks_pure ?_).ends
        exact rebindingsOf_bindFns inits e

/-! ## Recur -/

/-- The local is marked if the value is of another kind; otherwise nothing happens. -/
theorem checkRecurArg_cases {target : Nat} {value : Expr} {c c' : Context} {u : PUnit} (h : checkRecurArg target value c = (.ok u, c')) :
    ¬ c.Clash target value ∧ c' = c ∨
    c.Clash target value ∧ (c.modifyBinding target fun b => { b with recurMismatch := true }).Quiet c' := by
  have hread : Analysis.read id c = (.ok c, c) := rfl
  rw [checkRecurArg, bind_of_ok hread] at h
  cases hprim : (c.binding target).prim with
  | none =>
    rw [hprim] at h
    cases h
    refine .inl ⟨fun ⟨_, hkind, _⟩ => ?_, rfl⟩
    cases hprim.symm.trans hkind
  | some kind =>
    rw [hprim] at h
    dsimp only at h
    split at h
    · rename_i haccepts
      cases h
      refine .inl ⟨fun ⟨_, hkind, hn⟩ => ?_, rfl⟩
      cases hprim.symm.trans hkind
      exact hn (Prim.accepts_iff.1 haccepts)
    · rename_i hn
      obtain ⟨_, c₁, h₁, h⟩ := bind_eq_ok h
      cases h₁
      refine .inr ⟨⟨kind, hprim, fun htakes => hn (Prim.accepts_iff.2 htakes)⟩, ?_⟩
      split at h
      · exact (calm_warn _ _ _ _ _ h).1
      · cases h
        exact .refl _

theorem checkRecurArg_marks {target : Nat} {value : Expr} {c c' : Context} {u : PUnit} (ht : target ∈ targets)
    (h : checkRecurArg target value c = (.ok u, c')) : c'.scope.loopLocals = c.scope.loopLocals ∧ c.Marks targets c' {(target, value)} := by
  have hsettled : ∀ r ∈ ({(target, value)} : Set (Nat × Expr)), r.1 ∈ targets ∨ r.1 < c'.bindings.size ∧ ¬ c'.Clash r.1 r.2 :=
    fun r hr => .inl (hr ▸ ht)
  have hone : ∀ b, (∃ v, (b, v) ∈ ({(target, value)} : Set (Nat × Expr)) ∧ c.Clash b v) ↔ target = b ∧ c.Clash target value := by
    refine fun b => ⟨fun ⟨v, hv, hc⟩ => ?_, fun ⟨hb, hc⟩ => ⟨value, hb ▸ rfl, hb ▸ hc⟩⟩
    cases hv
    exact ⟨rfl, hc⟩
  rcases checkRecurArg_cases h with ⟨hn, rfl⟩ | ⟨hc, hq⟩
  · refine ⟨rfl, Nat.le_refl _, fun _ _ => rfl, fun b _ => ?_, hsettled⟩
    rw [hone, or_iff_left fun h => hn h.2]
  · have hkinds := fun b => Prod.mk.inj (hq.kinds b)
    refine ⟨congrArg (fun p => (p.1 0).loopLocals) hq.scope, ?_, fun b hb => ?_, fun b hb => ?_, hsettled⟩
    · rw [hq.size]
      exact Nat.le_of_eq Array.size_modify.symm
    · rw [(hkinds b).1, Context.binding_modify]
      split <;> rfl
    · rw [(hkinds b).2, Context.binding_modify, hone]
      by_cases htb : target = b
      · subst htb
        simp [hb, hc]
      · simp [htb]

/-- A `recur` marks, of the locals that it aims at, those that get a value of another kind. -/
theorem checkRecurArgs_marks {tvs : List (Nat × Expr)} {c c' : Context} {u : PUnit} (ht : ∀ tv ∈ tvs, tv.1 ∈ targets)
    (h : tvs.forM (m := Analysis) (fun tv => checkRecurArg tv.1 tv.2) c = (.ok u, c')) :
    c'.scope.loopLocals = c.scope.loopLocals ∧ c.Marks targets c' {r | r ∈ tvs} := by
  induction tvs generalizing c with
  | nil =>
    cases h
    refine ⟨rfl, ?_⟩
    simpa using (Context.Quiet.refl c').marks
  | cons tv tvs ih =>
    obtain ⟨_, c₁, h₁, h⟩ := bind_eq_ok h
    obtain ⟨hl₁, hm₁⟩ := checkRecurArg_marks (ht tv List.mem_cons_self) h₁
    obtain ⟨hl, hm⟩ := ih (fun tv h => ht tv (List.mem_cons_of_mem _ h)) h
    refine ⟨hl.trans hl₁, ?_⟩
    have hset : {r | r ∈ tv :: tvs} = {(tv.1, tv.2)} ∪ {r | r ∈ tvs} := by
      ext r
      simp
    rw [hset]
    exact hm₁.trans hm

theorem tracks_recur (hr : Tracking rec) (items : List Form) :
    Tracks loop (demand.targets loop) [] (recur rec demand items) fun e => [e] := by
  refine follows_scope fun s hs => ?_
  subst hs
  split
  · exact follows_fail _
  · split
    · rename_i targets hloop
      rw [hloop]
      split
      · exact follows_fail _
      · refine follows_bind (tracks_forList_map fun f _ => tracks_apart hr Demand.noConfusion f) fun values => ?_
        split
        · exact follows_fail _
        · intro c hl e c' h
          obtain ⟨_, c₁, h₁, h⟩ := bind_eq_ok h
          cases h
          obtain ⟨hl₁, hm⟩ := checkRecurArgs_marks (fun tv htv => (List.of_mem_zip htv).1) h₁
          refine ⟨hl₁.trans hl, _, hm, ?_⟩
          rw [rebindingsOf_singleton, rebindings_recur, Set.union_comm, List.map_id', List.nil_append]
    · exact follows_fail _

/-! ## Functions -/

/-- In a method of its own a `recur` rebinds nothing yet. -/
theorem tracks_inMethod {α : Type} {x : Analysis α} {after : α → List Expr} {frame : Nat}
    (hx : Follows (fun _ => True) none targets before x after) : Tracks loop targets before (inMethod frame x) after := by
  have hin : ∀ root, Tracks loop targets before
      (nested do
        modifyScope fun s => {
          method := some frame, nextSlot := 1, clearPath := some root, clearRoot := some root
          methodReturn := true, env := s.env, line := s.line, column := s.column }
        x) after := fun root => tracks_nested (follows_modifyScope (fun _ _ => rfl) hx)
  unfold inMethod
  refine follows_read fun c => ?_
  dsimp only
  split
  · exact follows_read fun _ => hin _
  · exact follows_calm (calm_addPath _ _) fun root _ => hin root

/-- The body of a method, whose parameters a `recur` rebinds. -/
theorem follows_methodBody {β : Type} (hr : Tracking rec) (forms : List Form) {params : List Nat} {f : Expr → Analysis β} {T : β → List Expr}
    (hf : ∀ e, Tracks (some params) params [e] (f e) T) : Follows (fun _ => True) loop params []
      (do
        modifyScope fun s => { s with loopLocals := some params }
        f (← body rec .tail forms)) T :=
  follows_modifyScope (fun _ _ => rfl) (follows_bind (tracks_round hr forms params) hf).ends

theorem opens_registerParams (params : List Form) (variadic : Bool) (fixed : List Nat) (rest : Option Nat) :
    Opens loop (fixed ++ rest.toList) (registerParams params variadic fixed rest) fun r => r.1 ++ r.2.toList := by
  induction params generalizing variadic fixed rest with
  | nil =>
    unfold registerParams
    split
    · exact opens_fail _
    · exact opens_pure rfl
  | cons f params ih =>
    cases f with
    | symbol s info =>
      unfold registerParams
      split
      · split
        · exact opens_fail _
        · exact ih true fixed rest
      · split
        · exact opens_fail _
        · refine opens_ofExcept fun hint => ?_
          dsimp only
          split
          · split
            · exact opens_fail _
            · split
              · exact opens_fail _
              · exact opens_bind (opens_registerLocal _ _ _ _) fun b => (ih variadic fixed (some b)).mono (by simp)
          · exact opens_bind (opens_registerLocal _ _ _ _) fun b => (ih variadic (fixed ++ [b]) rest).mono (by simp)
    | _ => exact opens_fail _

theorem tracks_fnMethod (hr : Tracking rec) (obj : Nat) (self : Option Symbol) (params : List Form) (info : Option Form.Info)
    (forms : List Form) : Tracks loop targets [] (fnMethod rec obj self params info forms) fun _ => [] := by
  refine follows_ofExcept fun hint _ => follows_read fun c => follows_bind (tracks_addMethod _ _) fun frame => ?_
  have hrest : Follows (fun _ => True) none [] []
      (do
        let r ← registerParams params false [] none
        Analysis.ofExcept (checkPrims (← Analysis.read id) r.1 r.2 hint.2)
        modifyScope fun s => { s with loopLocals := some (r.1 ++ r.2.toList) }
        let result ← body rec .tail forms
        Analysis.ofExcept (checkReturn hint.2 result.localPrim?)
        return { frame, name := "invoke", params := r.1, rest := r.2, ret := hint.2, body := result, line := c.scope.line : FnMethod })
      fun _ => [] := by
    refine follows_opens (T := fun m => [m.body]) (opens_registerParams params false [] none) fun r => follows_read fun c => ?_
    exact follows_ofExcept fun _ _ => follows_methodBody hr forms fun e => follows_ofExcept fun _ _ => tracks_pure rfl
  refine Follows.mono (tracks_inMethod ?_) (List.nil_subset _)
  split
  · exact follows_bind (tracks_registerThis _ none) fun _ => hrest
  · exact hrest

theorem tracks_captureRefs (obj : Nat) : Tracks loop targets before (captureRefs obj) fun _ => before :=
  follows_read fun _ => tracks_forList_nil fun b _ => tracks_referenceLocal b none

/-- A function has no parts. -/
theorem tracks_fn (hr : Tracking rec) (items : List Form) : Tracks loop targets [] (fn rec items) fun e => [e] := by
  unfold fn
  dsimp only
  refine follows_ofExcept fun bodies _ => follows_read fun c => follows_calm (aside_unitName _).calm fun name _ => ?_
  refine follows_calm (calm_addObject _ _ _) fun obj _ => ?_
  refine follows_bind (tracks_forList_nil fun b _ => tracks_fnMethod hr obj _ b.1 b.2.1 b.2.2) fun methods => follows_ofExcept fun _ _ => ?_
  refine follows_calm (aside_emitUnit _ _ _).calm fun unit _ => follows_bind (tracks_captureRefs obj) fun refs => tracks_pure ?_
  exact rebindingsOf_leaf rfl rfl

/-! ## Types -/

theorem tracks_typeMethod (hr : Tracking rec) (obj : Nat) (parent : Option Nat) (tag : Option String) (m : TypeMethod) :
    Tracks loop targets [] (typeMethod rec obj parent tag m) fun _ => [] := by
  unfold typeMethod
  split
  · refine follows_read fun c => follows_bind (tracks_addMethod _ _) fun frame => Follows.mono (tracks_inMethod ?_) (List.nil_subset _)
    refine follows_ofExcept fun this _ => follows_bind (tracks_registerThis _ tag) fun _ => ?_
    refine follows_opens (T := fun m => [m.body]) (opens_forList fun f _ known => ?_) fun args => ?_
    · exact opens_ofExcept fun _ => opens_registerLocal _ _ _ _
    · exact follows_methodBody hr _ fun e => tracks_pure rfl
  · exact follows_fail _

theorem tracks_registerFields (obj : Nat) (fields : List FieldDecl) :
    Tracks loop targets before (registerFields obj fields) fun _ => before := by
  unfold registerFields
  refine tracks_forM (fun f => follows_bind (tracks_registerLocal _ _ _ _) fun id => ?_) fields
  exact tracks_modify (g := fun c => (c.modifyBinding id _).capture obj id) (fun c => c.sameKinds_modifyBinding id fun _ => rfl) fun _ => rfl

theorem tracks_typeMethods (hr : Tracking rec) (obj : Nat) (name : String) (fields : List FieldDecl) (methods : List TypeMethod) :
    Tracks loop targets [] (typeMethods rec obj name fields methods) fun _ => [] := by
  refine tracks_nested (follows_bind (tracks_addMethod _ _) fun frame => ?_)
  have hmethods : Tracks none targets []
      (do
        registerFields obj fields
        forList (typeMethod rec obj (some frame) (some name)) methods) fun _ => [] :=
    follows_bind (tracks_registerFields obj fields) fun _ => tracks_forList_nil fun m _ => tracks_typeMethod hr obj _ _ m
  exact follows_modifyScope (fun _ _ => rfl) hmethods.ends

theorem tracks_deftype (hr : Tracking rec) (items : List Form) : Tracks loop targets [] (deftype rec items) fun e => [e] := by
  unfold deftype
  split
  · split
    · exact follows_fail _
    · split
      · refine follows_ofExcept fun fields _ => follows_calm (aside_typeParts _).calm fun parts _ => follows_calm (aside_checkDeclared _ _).calm fun _ _ => ?_
        refine follows_calm (calm_changeWorld _) fun _ _ => follows_calm (calm_addObject _ _ _) fun obj _ => ?_
        refine follows_bind (tracks_typeMethods hr obj _ _ _) fun methods => follows_calm (aside_emitUnit _ _ _).calm fun unit _ => ?_
        exact follows_calm (aside_load unit).calm fun _ _ => tracks_pure (rebindingsOf_leaf rfl rfl)
      · exact follows_fail _
  · exact follows_fail _

theorem tracks_reify (hr : Tracking rec) (items : List Form) : Tracks loop targets [] (reify rec items) fun e => [e] := by
  unfold reify
  split
  · refine follows_calm (calm_forList (S := fun _ => True) (fun f => ?_) _) fun protocols _ => ?_
    · split
      · exact (aside_resolveProtocol _).calm
      · exact calm_fail _
    refine follows_calm (calm_forList (S := fun _ => True) (fun f => ?_) _) fun methods _ => ?_
    · split
      · exact calm_pure trivial
      · exact calm_fail _
    refine follows_calm (aside_checkDeclared _ _).calm fun _ _ => follows_read fun c => follows_calm (aside_unitName _).calm fun name _ => ?_
    refine follows_calm (calm_addObject _ _ _) fun obj _ => ?_
    refine follows_bind (tracks_forList_nil fun m _ => tracks_typeMethod hr obj _ _ m) fun methods => ?_
    refine follows_calm (aside_emitUnit _ _ _).calm fun unit _ => follows_calm (calm_changeWorld _) fun _ _ => follows_calm (aside_load unit).calm fun _ _ => ?_
    exact follows_bind (tracks_captureRefs obj) fun refs => tracks_pure (rebindingsOf_leaf rfl rfl)
  · exact follows_fail _

/-! ## Calls -/

theorem tracks_varCall? (hr : Tracking rec) (s : Symbol) (args : List Form) (line : Nat) :
    Tracks loop (demand.targets loop) [] (varCall? rec demand s args line) Option.toList := by
  refine follows_read fun c => ?_
  split
  · exact tracks_pure rfl
  · dsimp only
    split
    · exact follows_bind (hr demand _ loop) fun e => tracks_pure rfl
    · split
      · exact follows_bind (tracks_operands hr args) fun es => tracks_pure (rebindingsOf_made rfl (map_snd_innerParts es))
      · exact tracks_pure rfl

theorem tracks_instanceTest? (hr : Tracking rec) (s : Symbol) (args : List Form) :
    Tracks loop targets [] (instanceTest? rec demand s args) Option.toList := by
  unfold instanceTest?
  split
  · refine follows_read fun c => follows_read fun c => ?_
    split
    · exact follows_bind (tracks_operand hr demand _) fun e => tracks_pure (rebindingsOf_made rfl rfl)
    · exact tracks_pure rfl
  · exact tracks_pure rfl

theorem tracks_namedCall? (hr : Tracking rec) (s : Symbol) (args : List Form) (line : Nat) :
    Tracks loop (demand.targets loop) [] (namedCall? rec demand s args line) Option.toList := by
  refine follows_read fun c => ?_
  split
  · exact tracks_pure rfl
  · refine follows_bind (tracks_varCall? hr s args line) fun o => ?_
    cases o with
    | some e => exact tracks_pure rfl
    | none => exact tracks_instanceTest? hr s args

theorem tracks_plainCall (hr : Tracking rec) (head : Form) (args : List Form) (line : Nat) :
    Tracks loop targets [] (plainCall rec demand head args line) fun e => [e] := by
  unfold plainCall
  split
  · exact follows_bind (tracks_operand hr demand _) fun e => tracks_pure (rebindingsOf_made rfl rfl)
  · refine follows_bind (tracks_operand hr demand head) fun e => follows_bind (tracks_operands hr args) fun es => ?_
    exact follows_read fun c => tracks_pure (rebindingsOf_made rfl (map_snd_innerParts _))

theorem tracks_invoke (hr : Tracking rec) (head : Form) (args : List Form) :
    Tracks loop (demand.targets loop) [] (invoke rec demand head args) fun e => [e] := by
  refine follows_read fun c => ?_
  dsimp only
  split
  · refine follows_bind (tracks_namedCall? hr _ args _) fun o => ?_
    cases o with
    | some e => exact tracks_pure rfl
    | none => exact tracks_plainCall hr _ args _
  · exact tracks_plainCall hr _ args _

/-! ## All forms -/

theorem tracks_special (hr : Tracking rec) (name : SpecialForm) (f : Form) (items : List Form) :
    Tracks loop (demand.targets loop) [] (special rec demand name f items) fun e => [e] := by
  cases name with
  | define => exact tracks_define hr items
  | cond => exact tracks_cond hr items
  | seq => exact tracks_body hr items.tail
  | bind => exact tracks_let hr f items
  | loop => exact tracks_loop hr f items
  | recur => exact tracks_recur hr items
  | fn => exact tracks_fn hr items
  | quote => exact tracks_quote items
  | var => exact tracks_theVar items
  | assign => exact tracks_assign hr items
  | attempt => exact tracks_attempt hr f items
  | throw => exact tracks_throw hr f items
  | case => exact tracks_case hr f items
  | dot => exact tracks_dot hr items
  | new => exact tracks_new hr items
  | bindFns => exact tracks_bindFns hr f items
  | deftype => exact tracks_deftype hr items
  | reify => exact tracks_reify hr items
  | handler => exact follows_fail _
  | cleanup => exact follows_fail _
  | ampersand => exact follows_fail _

theorem tracks_list (hr : Tracking rec) (f head : Form) (args : List Form) :
    Tracks loop (demand.targets loop) [] (list rec demand f head args) fun e => [e] := by
  refine follows_calm (aside_once f).calm fun o _ => ?_
  split
  · exact hr demand _ loop
  · split
    · exact tracks_special hr _ f (head :: args)
    · exact tracks_invoke hr head args

theorem tracks_vector (hr : Tracking rec) (f : Form) (items : List Form) :
    Tracks loop targets [] (vector rec demand f items) fun e => [e] := by
  refine follows_bind (tracks_operands hr items) fun es => tracks_pure ?_
  split
  · rename_i hliterals
    exact (rebindingsOf_leaf rfl rfl).trans (rebindingsOf_literals hliterals).symm
  · exact rebindingsOf_made rfl (map_snd_innerParts es)

theorem tracks_set (hr : Tracking rec) (f : Form) (items : List Form) :
    Tracks loop targets [] (set rec demand f items) fun e => [e] := by
  refine follows_calm (aside_checkKeys items).calm fun _ _ => follows_bind (tracks_operands hr items) fun es => tracks_pure ?_
  split
  · rename_i hliterals
    exact (rebindingsOf_leaf rfl rfl).trans (rebindingsOf_literals hliterals).symm
  · exact rebindingsOf_made rfl (map_snd_innerParts es)

theorem tracks_map (hr : Tracking rec) (f : Form) (pairs : List (Form × Form)) :
    Tracks loop targets [] (map rec demand f pairs) fun e => [e] := by
  refine follows_calm (aside_checkKeys _).calm fun _ _ => ?_
  refine follows_bind (tracks_forList (T := fun e => [e.1, e.2]) fun kv _ => ?_) fun es => tracks_pure ?_
  · exact follows_bind (tracks_operand hr demand kv.1) fun k => follows_bind (tracks_operand hr demand kv.2) fun v => tracks_pure rfl
  · split
    · rename_i hliterals
      refine (rebindingsOf_leaf rfl rfl).trans (rebindingsOf_literals ?_).symm
      simpa using hliterals
    · exact rebindingsOf_made rfl (map_snd_innerParts _)

/-- **The analysis of a form accounts for the marks.**  By induction on the depth; at each depth one lemma for every kind of
form. -/
theorem tracking_formWithin (n : Nat) : Tracking (formWithin n) := by
  induction n with
  | zero => exact fun _ _ _ => follows_cut
  | succ n ih =>
    intro demand f loop
    cases f with
    | symbol s info => exact tracks_symbol s info
    | vector items => exact tracks_vector ih _ items
    | map pairs => exact tracks_map ih _ pairs
    | set items => exact tracks_set ih _ items
    | list items info =>
      cases items with
      | nil => exact tracks_pure (rebindingsOf_leaf rfl rfl)
      | cons head args =>
        exact tracks_nested (follows_calm (calm_modify (moveTo_quiet _)) fun _ _ => (tracks_located (tracks_list ih _ head args)).ends)
    | _ => exact tracks_pure (rebindingsOf_leaf rfl rfl)

end Analyze

end LispMachine
