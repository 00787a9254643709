import LispMachine.Proofs.Analyze.Guards
import LispMachine.Proofs.Expr.InPlace
/-!
# A `recur` ends its loop

An expression that analysis makes of a form is in place, with all the units in it.  And what might be made of a `recur` that
is out of place, or that has the wrong number of arguments, never counts: if every such `recur` were analyzed in some other
way (`formOr`), the analysis of the form would still do the same, unless it fails and the fault is that of a `recur`
(`guarding_formWithin`).  There is a lemma for every special form.
-/
namespace LispMachine

namespace Analyze

open LispMachine.Expr Analysis

/-- The second analyzer stands for the first, but for what becomes of a `recur` that is rejected; and the first gives
expressions in place. -/
def Guarding (rec rec' : Analyzer) : Prop := ∀ (demand : Demand) (f : Form) (p : Place),
  Guards p (rec demand f) (rec' demand f) fun e => e.InPlace (p.rebound? demand)

variable {rec rec' : Analyzer} {demand : Demand} {p : Place}

/-! ## Sequences -/

theorem guards_apart (hr : Guarding rec rec') (hd : demand ≠ .tail) (f : Form) :
    Guards p (rec demand f) (rec' demand f) fun e => e.InPlace none :=
  (hr demand f p).mono fun e h => by rwa [p.rebound?_of_ne_tail hd] at h

/-- A form whose value is consumed. -/
theorem guards_operand (hr : Guarding rec rec') (demand : Demand) (f : Form) :
    Guards p (rec demand.operand f) (rec' demand.operand f) fun e => e.InPlace none := guards_apart hr (operand_ne_tail demand) f

theorem guards_operands (hr : Guarding rec rec') (forms : List Form) :
    Guards p (operands rec demand forms) (operands rec' demand forms) fun es => ∀ e ∈ es, e.InPlace none :=
  (guards_forList fun f _ => guards_operand hr demand f).mono fun _ h => h.2

theorem guards_body (hr : Guarding rec rec') (forms : List Form) :
    Guards p (body rec demand forms) (body rec' demand forms) fun e => e.InPlace (p.rebound? demand) := by
  unfold body
  split
  · exact guards_pure (inPlace_leaf rfl rfl rfl)
  · refine guards_bind (guards_forList fun f _ => guards_apart hr (leading_ne_tail demand) f) fun leading hl => ?_
    refine guards_bind (hr demand _ p) fun result hresult => guards_pure ?_
    split
    · exact hresult
    · refine inPlace_parts rfl rfl ?_
      rw [parts, seqParts_append]
      exact List.forall_mem_append.2 ⟨forall_inner hl.2, List.forall_mem_singleton.2 hresult⟩

/-! ## Symbols and quotation -/

theorem guards_symbol (loop : Option (List Nat)) (s : Symbol) (info : Option Form.Info) :
    Guards p (symbol s info) (symbol s info) fun e => e.InPlace loop := by
  refine guards_read fun c _ => ?_
  split
  · exact guards_bind (guards_referenceLocal _ _) fun r _ => guards_pure (inPlace_leaf rfl rfl rfl)
  · refine guards_read fun c _ => ?_
    split
    · split
      · exact guards_pure (inPlace_leaf rfl rfl rfl)
      · exact guards_fail _
    · split
      · split
        · exact guards_fail _
        · exact guards_pure (inPlace_leaf rfl rfl rfl)
      · split
        · exact guards_pure (inPlace_leaf rfl rfl rfl)
        · exact guards_fail _

theorem guards_quote (loop : Option (List Nat)) (items : List Form) : Guards p (quote items) (quote items) fun e => e.InPlace loop := by
  unfold quote
  split
  any_goals exact guards_pure (inPlace_leaf rfl rfl rfl)
  exact guards_fail _

theorem guards_theVar (loop : Option (List Nat)) (items : List Form) : Guards p (theVar items) (theVar items) fun e => e.InPlace loop := by
  unfold theVar
  split
  · refine guards_read fun c _ => ?_
    split
    · exact guards_pure (inPlace_leaf rfl rfl rfl)
    · exact guards_fail _
  · exact guards_fail _

/-! ## Definitions, conditions and assignments -/

theorem guards_define (hr : Guarding rec rec') (items : List Form) :
    Guards p (define rec demand items) (define rec' demand items) fun e => e.InPlace (p.rebound? demand) := by
  unfold define
  refine guards_ofExcept fun parts _ => ?_
  obtain ⟨doc, init⟩ := parts
  dsimp only
  split
  · refine guards_read fun c _ => ?_
    split
    · exact guards_fail _
    · refine guards_calm (calm_changeWorld _) fun id _ => guards_calm (calm_changeWorld _) fun _ _ => ?_
      cases init with
      | none =>
        exact guards_if (calm_warn _ _) (guards_read fun _ _ => guards_read fun _ _ => guards_pure (inPlace_leaf rfl rfl rfl))
      | some f =>
        refine guards_if (calm_warn _ _) (guards_bind (guards_operand hr demand f) fun e he => ?_)
        exact guards_read fun _ _ => guards_read fun _ _ => guards_pure (inPlace_one rfl rfl rfl he)
  · exact guards_fail _

theorem guards_cond (hr : Guarding rec rec') (items : List Form) :
    Guards p (cond rec demand items) (cond rec' demand items) fun e => e.InPlace (p.rebound? demand) := by
  unfold cond
  split
  · exact guards_fail _
  · split
    · refine guards_read fun c _ => guards_bind (guards_operand hr demand _) fun test htest => guards_read fun c _ => ?_
      refine guards_calm (calm_addPath _ _) fun branch _ => guards_bind (guards_arm (hr demand _ p)) fun yes hyes => ?_
      refine guards_bind (guards_arm (hr demand _ p)) fun no hno => guards_pure (inPlace_parts rfl rfl ?_)
      exact List.forall_mem_cons.2 ⟨htest, List.forall_mem_cons.2 ⟨hyes, List.forall_mem_singleton.2 hno⟩⟩
    · exact guards_fail _

theorem guards_assignableField (x : Nat) : Guards p (assignableField x) (assignableField x) fun _ => True := by
  refine guards_read fun c _ => ?_
  dsimp only
  split
  · exact guards_bind (guards_modify fun c => c.scope_closeOver x) fun _ _ => guards_pure trivial
  · exact guards_fail _

theorem guards_assign (hr : Guarding rec rec') (items : List Form) :
    Guards p (assign rec demand items) (assign rec' demand items) fun e => e.InPlace (p.rebound? demand) := by
  unfold assign
  split
  · refine guards_read fun c _ => ?_
    split
    · refine guards_bind (guards_assignableField _) fun target _ => guards_bind (guards_operand hr demand _) fun e he => guards_pure ?_
      exact inPlace_one rfl rfl rfl he
    · refine guards_bind (guards_symbol none _ _) fun e _ => ?_
      split
      · exact guards_read fun _ _ => guards_bind (guards_operand hr demand _) fun e he => guards_pure (inPlace_one rfl rfl rfl he)
      · exact guards_fail _
  · exact guards_fail _
  · exact guards_fail _

theorem guards_throw (hr : Guarding rec rec') (form : Form) (items : List Form) :
    Guards p (throw rec demand form items) (throw rec' demand form items) fun e => e.InPlace (p.rebound? demand) := by
  unfold throw
  split
  · split
    · exact hr demand _ p
    · exact guards_bind (guards_apart hr Demand.noConfusion _) fun e he => guards_pure (inPlace_one rfl rfl rfl he)
  · exact guards_fail _
  · exact guards_fail _

/-! ## Host members -/

theorem guards_staticMember (hr : Guarding rec rec') (k : Class) (name : String) (args : List Form) (parenthesized : Bool) (line : Nat) :
    Guards p (staticMember rec demand k name args parenthesized line) (staticMember rec' demand k name args parenthesized line)
      fun e => e.InPlace (p.rebound? demand) := by
  unfold staticMember
  refine guards_read fun c _ => ?_
  dsimp only
  split
  · exact guards_pure (inPlace_leaf rfl rfl rfl)
  · refine guards_bind (guards_operands hr args) fun es hes => guards_calm (aside_resolveMember _ _ _ _ _).calm fun member _ => ?_
    exact guards_if (aside_reflects _).calm (guards_pure (inPlace_inner rfl rfl rfl hes))

theorem guards_instanceField (loop : Option (List Nat)) (k : Option Class) {target : Expr} (name fieldName : String) (args : List Expr)
    (line : Nat) (ht : target.InPlace none) : Guards p (instanceField k target name fieldName args line) (instanceField k target name fieldName args line)
      fun e => e.InPlace loop := by
  unfold instanceField
  split
  · exact guards_fail _
  · exact guards_if (aside_reflects _).calm (guards_pure (inPlace_one rfl rfl rfl ht))

theorem guards_instanceMethod (loop : Option (List Nat)) (k : Option Class) {target : Expr} (name : String) {args : List Expr} (line : Nat)
    (ht : target.InPlace none) (ha : ∀ e ∈ args, e.InPlace none) :
    Guards p (instanceMethod k target name args line) (instanceMethod k target name args line) fun e => e.InPlace loop := by
  have hall : ∀ e ∈ target :: args, e.InPlace none := List.forall_mem_cons.2 ⟨ht, ha⟩
  unfold instanceMethod
  split
  · split
    · exact guards_pure (inPlace_inner rfl rfl rfl hall)
    · refine guards_calm (aside_resolveMember _ _ _ _ _).calm fun member _ => ?_
      exact guards_if (aside_reflects _).calm (guards_pure (inPlace_inner rfl rfl rfl hall))
  · exact guards_calm (aside_reflects _).calm fun _ _ => guards_pure (inPlace_inner rfl rfl rfl hall)

theorem guards_instanceMember (hr : Guarding rec rec') (target : Form) (name : String) (args : List Form) (parenthesized : Bool) (line : Nat) :
    Guards p (instanceMember rec demand target name args parenthesized line) (instanceMember rec' demand target name args parenthesized line)
      fun e => e.InPlace (p.rebound? demand) := by
  unfold instanceMember
  refine guards_bind (guards_operand hr demand target) fun e he => guards_bind (guards_operands hr args) fun es hes => guards_read fun c _ => ?_
  dsimp only
  split
  all_goals
    split
    · exact guards_instanceField _ _ _ _ _ _ he
    · exact guards_instanceMethod _ _ _ _ he hes

theorem guards_dot (hr : Guarding rec rec') (items : List Form) :
    Guards p (dot rec demand items) (dot rec' demand items) fun e => e.InPlace (p.rebound? demand) := by
  unfold dot
  refine guards_read fun c _ => ?_
  dsimp only
  split
  · refine guards_calm (aside_classNamed? _).calm fun found _ => ?_
    split
    · exact guards_staticMember hr _ _ _ _ _
    · exact guards_instanceMember hr _ _ _ _ _
  · refine guards_calm (aside_classNamed? _).calm fun found _ => ?_
    split
    · exact guards_staticMember hr _ _ _ _ _
    · exact guards_instanceMember hr _ _ _ _ _
  · exact guards_fail _
  · exact guards_fail _

theorem guards_new (hr : Guarding rec rec') (items : List Form) :
    Guards p (new rec demand items) (new rec' demand items) fun e => e.InPlace (p.rebound? demand) := by
  unfold new
  split
  · refine guards_read fun c _ => ?_
    split
    · exact guards_fail _
    · refine guards_read fun c _ => guards_bind (guards_operands hr _) fun es hes => ?_
      split
      · split
        · exact guards_fail _
        · exact guards_pure (inPlace_inner rfl rfl rfl hes)
      · refine guards_calm (aside_resolveMember _ _ _ _ _).calm fun member _ => ?_
        exact guards_if (aside_reflects _).calm (guards_pure (inPlace_inner rfl rfl rfl hes))
  · exact guards_fail _

/-! ## Bindings and loops -/

theorem guards_bindAll (hr : Guarding rec rec') (bindings : List (Form × Form)) (boxed : List Bool) :
    Guards p (bindAll rec bindings boxed) (bindAll rec' bindings boxed) fun bs => ∀ e ∈ bs.map (·.2), e.InPlace none := by
  induction bindings generalizing boxed with
  | nil => exact guards_pure fun _ h => by cases h
  | cons b rest ih =>
    unfold bindAll
    refine guards_ofExcept fun name _ => guards_bind (guards_apart hr Demand.noConfusion b.2) fun e he => guards_read fun c _ => ?_
    refine guards_if (calm_warn _ _) (guards_bind (guards_registerLocal _ _ _ _) fun id _ => guards_bind (ih boxed.tail) fun bs hbs => ?_)
    exact guards_pure (List.forall_mem_cons.2 ⟨he, hbs⟩)

/-- The body of a loop may go back to the start of the loop. -/
theorem guards_loopBody (hr : Guarding rec rec') (locals : List Nat) (forms : List Form) :
    Guards p (loopBody rec demand locals forms) (loopBody rec' demand locals forms) fun e => e.InPlace (some locals) := by
  refine guards_read fun c _ => guards_calm (calm_addPath _ _) fun root _ => ?_
  refine guards_calm (calm_addPath _ _) fun clearRoot _ => guards_calm (calm_addPath _ _) fun clearPath _ => guards_nested ?_
  refine guards_shift (fun p => { p with loopLocals := some locals, noRecur := false, methodReturn := demand == .tail && p.methodReturn })
    (fun _ => rfl) (fun _ _ => rfl) ((guards_body hr forms).mono fun e he => ?_).minds
  unfold Place.rebound? at he
  -- in a handler the body has no `recur` at all
  split at he
  · exact he
  · exact he.anywhere rfl

theorem guards_loopPass (hr : Guarding rec rec') (bindings : List (Form × Form)) (forms : List Form) (boxed : List Bool)
    (loop : Option (List Nat)) : Guards p (loopPass rec demand bindings forms boxed) (loopPass rec' demand bindings forms boxed) fun r => r.1.InPlace loop := by
  refine guards_nested (guards_bind (guards_bindAll hr bindings boxed) fun inits hinits => ?_)
  refine guards_bind (guards_loopBody hr _ forms) fun e he => guards_read fun c _ => minds_pure (inPlace_parts rfl rfl ?_)
  exact List.forall_mem_append.2 ⟨forall_inner hinits, List.forall_mem_singleton.2 he⟩

theorem guards_loopPasses (hr : Guarding rec rec') (bindings : List (Form × Form)) (forms : List Form) (passes : Nat) (boxed : List Bool)
    (loop : Option (List Nat)) :
    Guards p (loopPasses rec demand bindings forms passes boxed) (loopPasses rec' demand bindings forms passes boxed) fun e => e.InPlace loop := by
  induction passes generalizing boxed with
  | zero => exact guards_cut
  | succ passes ih =>
    refine guards_bind (guards_loopPass hr bindings forms boxed loop) fun pass he => ?_
    obtain ⟨e, next⟩ := pass
    dsimp only
    split
    · exact guards_pure he
    · exact ih next

theorem guards_let (hr : Guarding rec rec') (form : Form) (items : List Form) (isLoop : Bool) :
    Guards p (bind rec demand form items isLoop) (bind rec' demand form items isLoop) fun e => e.InPlace (p.rebound? demand) := by
  refine guards_ofExcept fun bindings _ => ?_
  split
  · exact hr demand _ p
  · split
    · exact guards_loopPasses hr bindings _ _ _ _
    · refine guards_nested (guards_bind (guards_bindAll hr bindings []) fun inits hinits => guards_bind (guards_body hr _) fun e he => ?_)
      exact minds_pure (inPlace_parts rfl rfl (List.forall_mem_append.2 ⟨forall_inner hinits, List.forall_mem_singleton.2 he⟩))

theorem guards_bindFns (hr : Guarding rec rec') (form : Form) (items : List Form) :
    Guards p (bindFns rec demand form items) (bindFns rec' demand form items) fun e => e.InPlace (p.rebound? demand) := by
  refine guards_ofExcept fun bindings _ => ?_
  split
  · exact hr demand _ p
  · refine guards_nested (guards_bind (Q := fun _ => True) ?_ fun ids _ => ?_)
    · refine (guards_forList (R := fun _ => True) fun b _ => ?_).mono fun _ _ => trivial
      refine guards_ofExcept fun s _ => guards_bind (guards_registerLocal _ _ _ _) fun id _ => ?_
      exact guards_bind (guards_modify fun _ => rfl) fun _ _ => guards_pure trivial
    · refine guards_bind (guards_forList (R := fun b => b.2.InPlace none) fun b _ => ?_) fun inits hinits => ?_
      · exact guards_bind (guards_apart hr Demand.noConfusion _) fun e he => guards_pure he
      · refine guards_bind (guards_body hr _) fun e he => minds_pure (inPlace_parts rfl rfl ?_)
        exact List.forall_mem_append.2 ⟨forall_inner (List.forall_mem_map.2 hinits.2), List.forall_mem_singleton.2 he⟩

/-! ## Recur -/

/-- What a `recur` does where it may stand: it has a value for each of these locals, unless its arguments are miscounted. -/
def rebind (miscounted : Nat → Analysis Expr) (rec : Analyzer) (targets : List Nat) (args : List Form) (line : Nat) : Analysis Expr := do
  let values ← Analysis.forList (rec .expression) args
  if values.length != targets.length then miscounted values.length
  else
    (targets.zip values).forM fun (target, value) => checkRecurArg target value
    return .recur targets values line

/-- The analysis of a `recur`, where `other` is asked about one that is out of place or has the wrong number of arguments. -/
def recurOr (other rec : Analyzer) (demand : Demand) (f : Form) (items : List Form) : Analysis Expr := do
  let s ← Analysis.scope
  match s.rebound? demand with
  | none => other demand f
  | some targets => rebind (fun _ => other demand f) rec targets items.tail s.line

theorem recur_of_some {c : Context} {targets : List Nat} (h : c.scope.rebound? demand = some targets) (items : List Form) :
    recur rec demand items c = rebind (fun n => fail (.recurArity targets.length n)) rec targets items.tail c.scope.line c := by
  unfold Scope.rebound? at h
  split at h
  · rename_i hplace
    obtain ⟨rfl, hn, hh⟩ := hplace
    rw [recur, bind_scope, hh, hn, h]
    rfl
  · cases h

/-- Out of place, a `recur` is rejected before its arguments are looked at. -/
theorem recur_of_none {c : Context} (h : c.scope.rebound? demand = none) (items : List Form) : (recur rec demand items c).1.RejectsRecur := by
  rw [recur, bind_scope]
  split
  · exact ⟨_, rfl, rfl⟩
  · rename_i hh
    dsimp only
    cases hl : c.scope.loopLocals with
    | none => exact ⟨_, rfl, rfl⟩
    | some targets =>
      cases demand with
      | tail =>
        dsimp only
        split
        · exact ⟨_, rfl, rfl⟩
        · rename_i hn
          rw [Scope.rebound?, if_pos ⟨rfl, Bool.eq_false_iff.2 hn, Bool.eq_false_iff.2 hh⟩, hl] at h
          cases h
      | _ => exact ⟨_, rfl, rfl⟩

/-- Miscounted arguments are rejected, but only after they are analyzed. -/
theorem rebind_miscounted {c c₁ : Context} {targets : List Nat} {args : List Form} {values : List Expr} (line : Nat)
    (hlen : args.length ≠ targets.length) (h : forList (rec .expression) args c = (.ok values, c₁)) :
    (rebind (fun n => fail (.recurArity targets.length n)) rec targets args line c).1.RejectsRecur := by
  have hcount : (values.length != targets.length) = true := bne_iff_ne.2 fun he => hlen ((length_of_forList h).symm.trans he)
  rw [rebind, bind_of_ok h, if_pos hcount]
  exact ⟨_, rfl, rfl⟩

/-- A `recur` that is rejected. -/
theorem guards_reject {α : Type} {x : Analysis α} {Q : α → Context → Prop} {fault : CompileFault} (h : fault.ofRecur = true) :
    Minds p (fail fault) x Q := fun _ _ => ⟨.inr ⟨{ fault }, rfl, h⟩, fun _ _ hx => by cases hx⟩

theorem guards_checkRecurArg (target : Nat) (value : Expr) : Guards p (checkRecurArg target value) (checkRecurArg target value) fun _ => True := by
  refine guards_read fun c _ => ?_
  dsimp only
  split
  · exact guards_pure trivial
  · split
    · exact guards_pure trivial
    · refine guards_bind (guards_modify fun _ => rfl) fun _ _ => ?_
      split
      · exact (calm_warn _ _).guards
      · exact guards_pure trivial

theorem guards_rebind (hr : Guarding rec rec') (targets : List Nat) (args : List Form) (line : Nat) (x : Analysis Expr) :
    Guards p (rebind (fun n => fail (.recurArity targets.length n)) rec targets args line) (rebind (fun _ => x) rec' targets args line)
      fun e => e.InPlace (some targets) := by
  refine guards_bind (guards_forList fun f _ => guards_apart hr Demand.noConfusion f) fun values hvalues => ?_
  split
  · exact guards_reject rfl
  · rename_i hlen
    refine guards_bind (guards_forM (fun tv : Nat × Expr => guards_checkRecurArg tv.1 tv.2) _) fun _ _ => guards_pure ?_
    exact .recur (by simpa using hlen) hvalues.2

/-- A `recur` rebinds the locals of the loop that it ends. -/
theorem guards_recur (other : Analyzer) (hr : Guarding rec rec') (f : Form) (items : List Form) :
    Guards p (recur rec demand items) (recurOr other rec' demand f items) fun e => e.InPlace (p.rebound? demand) := by
  intro c hp
  have hplace : c.scope.rebound? demand = p.rebound? demand := by
    obtain ⟨floor, _, rfl⟩ := hp
    rfl
  rw [recurOr, bind_scope, ← hplace]
  cases hb : c.scope.rebound? demand with
  | none =>
    have hrejects : (recur rec demand items c).1.RejectsRecur := recur_of_none hb items
    refine ⟨.inr hrejects, fun e c' h => ?_⟩
    obtain ⟨err, he, _⟩ := hrejects
    rw [h] at he
    cases he
  | some targets =>
    rw [recur_of_some hb]
    exact guards_rebind hr targets _ _ _ c hp

/-! ## Exceptions -/

theorem guards_handler (hr : Guarding rec rec') (clause : CatchClause) :
    Guards p (handler rec demand clause) (handler rec' demand clause) fun h => h.2.2.InPlace none := by
  refine guards_read fun c _ => ?_
  split
  · exact guards_fail _
  · refine guards_nested (guards_shift Place.handling (fun _ => rfl) (fun _ _ => rfl) ?_)
    refine guards_bind (guards_registerLocal _ _ _ _) fun b _ => guards_bind (guards_body hr _) fun e he => minds_pure ?_
    rwa [Place.rebound?_handling] at he

/-- The body of a `try` may not go back to the start of the loop around it. -/
theorem guards_tryBody (hr : Guarding rec rec') (forms : List Form) : Guards p
    (nested do
      modifyScope fun s => { s with noRecur := true, methodReturn := false }
      body rec demand forms)
    (nested do
      modifyScope fun s => { s with noRecur := true, methodReturn := false }
      body rec' demand forms) fun e => e.InPlace none := by
  refine guards_nested (guards_shift Place.attempted (fun _ => rfl) (fun _ _ => rfl) ((guards_body hr forms).mono fun e he => ?_).minds)
  rwa [Place.rebound?_attempted] at he

theorem guards_cleanup (hr : Guarding rec rec') (forms : List Form) : Guards p
    (nested do
      modifyScope fun s => { s with inHandler := true, methodReturn := false }
      return some (← body rec .statement forms))
    (nested do
      modifyScope fun s => { s with inHandler := true, methodReturn := false }
      return some (← body rec' .statement forms)) fun o => ∀ e ∈ o.toList, e.InPlace none := by
  refine guards_nested (guards_shift Place.handling (fun _ => rfl) (fun _ _ => rfl) ?_)
  refine guards_bind (guards_body hr forms) fun e he => minds_pure (List.forall_mem_singleton.2 ?_)
  rwa [Place.rebound?_handling] at he

theorem guards_attempt (hr : Guarding rec rec') (form : Form) (items : List Form) :
    Guards p (attempt rec demand form items) (attempt rec' demand form items) fun e => e.InPlace (p.rebound? demand) := by
  refine guards_read fun c _ => ?_
  split
  · exact hr demand _ p
  · refine guards_ofExcept fun parts _ => guards_bind guards_allocSlot fun resultSlot _ => guards_bind guards_allocSlot fun thrownSlot _ => ?_
    refine guards_bind (guards_tryBody hr parts.body) fun main hmain => ?_
    refine guards_bind (guards_forList fun clause _ => guards_handler hr clause) fun handlers hhandlers => ?_
    dsimp only
    split
    · exact guards_read fun _ _ => guards_pure (inPlace_attempt hmain hhandlers.2 fun _ h => by cases h)
    · exact guards_bind (guards_cleanup hr _) fun cleanup hcleanup => guards_pure (inPlace_attempt hmain hhandlers.2 hcleanup)

/-! ## Choosing by constants -/

theorem guards_caseDefault (hr : Guarding rec rec') (otherwise : Option Form) (temp : Symbol) :
    Guards p (caseDefault rec demand otherwise temp) (caseDefault rec' demand otherwise temp) fun e => e.InPlace (p.rebound? demand) := by
  unfold caseDefault
  split <;> exact hr demand _ p

/-- Every arm of the choice is at the place of the choice. -/
theorem inPlace_case {loop : Option (List Nat)} {value otherwise : Expr} {temp line : Nat} {plan : CasePlan}
    {buckets : List (Int32 × List (Form × Expr))} (hvalue : value.InPlace none) (hbuckets : ∀ b ∈ buckets, ∀ e ∈ b.2, e.2.InPlace loop) (helse : otherwise.InPlace loop) :
    InPlace loop (.case value temp plan (sortByKey buckets) otherwise line) := by
  have hotherwise : ∀ p ∈ [(Station.last, otherwise)], p.2.InPlace (p.1.rebinds loop) := List.forall_mem_singleton.2 helse
  refine inPlace_parts rfl rfl (List.forall_mem_cons.2 ⟨hvalue, List.forall_mem_append.2 ⟨fun p hp => ?_, hotherwise⟩⟩)
  obtain ⟨b, hb, hp⟩ := List.mem_flatMap.1 hp
  obtain ⟨e, he, rfl⟩ := List.mem_map.1 hp
  exact hbuckets b (mem_sortByKey.1 hb) e he

/-- A step with a look at the context before it, that may be left out. -/
theorem guards_ifRead {α β : Type} {R : β → Context → Prop} {b : Prop} [Decidable b] {g : Context → α} {y : α → Analysis PUnit}
    {z z' : Analysis β} (hy : ∀ a, Calm (y a) fun _ => True) (hz : Minds p z z' R) :
    Minds p (if b then read g >>= fun a => y a >>= fun _ => z else z) (if b then read g >>= fun a => y a >>= fun _ => z' else z') R := by
  split
  · exact guards_read fun _ _ => guards_calm (hy _) fun _ _ => hz
  · exact hz

theorem guards_case (hr : Guarding rec rec') (form : Form) (items : List Form) :
    Guards p (case rec demand form items) (case rec' demand form items) fun e => e.InPlace (p.rebound? demand) := by
  unfold case
  split
  · exact hr demand _ p
  · split
    · refine guards_read fun c _ => guards_ofExcept fun constants _ => guards_nested ?_
      refine guards_bind (guards_operand hr demand _) fun value hvalue => guards_calm (calm_changeWorld _) fun n _ => ?_
      refine guards_bind (guards_registerLocal _ _ _ _) fun temp _ => ?_
      split
      · refine guards_bind (guards_caseDefault hr _ _) fun e he => minds_pure (inPlace_parts rfl rfl ?_)
        exact List.forall_mem_cons.2 ⟨hvalue, List.forall_mem_singleton.2 he⟩
      · refine guards_ifRead (fun _ => calm_warn _ _) (guards_read fun c _ => guards_calm (calm_addPath _ _) fun branch _ => ?_)
        refine guards_bind (guards_forList (R := fun b => ∀ e ∈ b.2, e.2.InPlace (p.rebound? demand)) fun group _ => ?_)
          fun buckets hbuckets => ?_
        · refine guards_bind (guards_forList (R := fun e => e.2.InPlace (p.rebound? demand)) fun constant _ => ?_) fun entries hentries => ?_
          · exact guards_bind (guards_arm (hr demand _ p)) fun e he => guards_pure he
          · exact guards_pure hentries.2
        · exact guards_bind (guards_arm (guards_caseDefault hr _ _)) fun e he => minds_pure (inPlace_case hvalue hbuckets.2 he)
    · exact guards_fail _

/-! ## Functions -/

/-- The method has a place of its own. -/
theorem guards_inMethod {α : Type} {x x' : Analysis α} {Q : α → Prop} {frame : Nat} (hx : Minds (.start frame) x x' fun a _ => Q a) :
    Guards p (inMethod frame x) (inMethod frame x') Q := by
  have hin : ∀ root, Guards p
      (nested do
        modifyScope fun s => {
          method := some frame, nextSlot := 1, clearPath := some root, clearRoot := some root
          methodReturn := true, env := s.env, line := s.line, column := s.column }
        x)
      (nested do
        modifyScope fun s => {
          method := some frame, nextSlot := 1, clearPath := some root, clearRoot := some root
          methodReturn := true, env := s.env, line := s.line, column := s.column }
        x') Q := fun root => guards_nested (guards_modifyScope (fun _ _ => ⟨0, Nat.zero_le _, rfl⟩) hx)
  unfold inMethod
  refine guards_read fun c _ => ?_
  dsimp only
  split
  · exact guards_read fun _ _ => hin _
  · exact guards_calm (calm_addPath _ _) fun root _ => hin root

/-- The body of a method, whose parameters a `recur` rebinds. -/
theorem guards_methodBody {β : Type} {R : β → Prop} (hr : Guarding rec rec') {frame : Nat} (forms : List Form) {params : List Nat}
    {f : Expr → Analysis β} (hf : ∀ e q, e.InPlace (some params) → Guards q (f e) (f e) R) : Minds (.start frame)
      (do
        modifyScope fun s => { s with loopLocals := some params }
        f (← body rec .tail forms))
      (do
        modifyScope fun s => { s with loopLocals := some params }
        f (← body rec' .tail forms)) fun b _ => R b := by
  refine guards_shift (fun p => { p with loopLocals := some params }) (fun _ => rfl) (fun _ _ => rfl) ?_
  exact guards_bind (guards_body hr forms) fun e he => (hf e _ he).minds

theorem guards_registerParams (params : List Form) (variadic : Bool) (fixed : List Nat) (rest : Option Nat) :
    Guards p (registerParams params variadic fixed rest) (registerParams params variadic fixed rest) fun _ => True := by
  induction params generalizing variadic fixed rest with
  | nil =>
    unfold registerParams
    split
    · exact guards_fail _
    · exact guards_pure trivial
  | cons f params ih =>
    cases f with
    | symbol s info =>
      unfold registerParams
      split
      · split
        · exact guards_fail _
        · exact ih true fixed rest
      · split
        · exact guards_fail _
        · refine guards_ofExcept fun hint _ => ?_
          dsimp only
          split
          · split
            · exact guards_fail _
            · split
              · exact guards_fail _
              · exact guards_bind (guards_registerLocal _ _ _ _) fun b _ => ih variadic fixed (some b)
          · exact guards_bind (guards_registerLocal _ _ _ _) fun b _ => ih variadic (fixed ++ [b]) rest
    | _ => exact guards_fail _

theorem guards_addMethod (obj : Nat) (parent : Option Nat) :
    Guards p (change (·.addMethod obj parent)) (change (·.addMethod obj parent)) fun _ => True := guards_change fun _ => rfl

theorem guards_fnMethod (hr : Guarding rec rec') (obj : Nat) (self : Option Symbol) (params : List Form) (info : Option Form.Info)
    (forms : List Form) : Guards p (fnMethod rec obj self params info forms) (fnMethod rec' obj self params info forms)
      fun m => m.body.InPlace (some m.locals) := by
  refine guards_ofExcept fun hint _ => guards_read fun c _ => guards_bind (guards_addMethod _ _) fun frame _ => ?_
  dsimp only
  split
  · refine guards_inMethod (guards_bind (guards_registerThis _ none) fun _ _ => ?_)
    refine guards_bind (guards_registerParams params false [] none) fun r _ => ?_
    exact guards_read fun c _ => guards_ofExcept fun _ _ => guards_methodBody hr forms fun e q he => guards_ofExcept fun _ _ => guards_pure he
  · refine guards_inMethod (guards_bind (guards_registerParams params false [] none) fun r _ => ?_)
    exact guards_read fun c _ => guards_ofExcept fun _ _ => guards_methodBody hr forms fun e q he => guards_ofExcept fun _ _ => guards_pure he

/-- The unit of methods whose bodies are in place. -/
theorem guards_emitUnit {obj : Nat} {kind : UnitKind} {methods : List FnMethod} (hm : ∀ m ∈ methods, m.body.InPlace (some m.locals)) :
    Guards p (emitUnit obj kind methods) (emitUnit obj kind methods) fun u => u.InPlace := by
  refine guards_read fun c _ => (calm_ofExcept.guards).mono fun u hu => ?_
  exact .compiled hu hm

theorem guards_captureRefs (obj : Nat) : Guards p (captureRefs obj) (captureRefs obj) fun _ => True :=
  guards_read fun _ _ => (guards_forList fun _ _ => guards_referenceLocal _ none).mono fun _ _ => trivial

theorem guards_fn (hr : Guarding rec rec') (items : List Form) (loop : Option (List Nat)) :
    Guards p (fn rec items) (fn rec' items) fun e => e.InPlace loop := by
  unfold fn
  dsimp only
  refine guards_ofExcept fun bodies _ => guards_read fun c _ => guards_calm (aside_unitName _).calm fun name _ => ?_
  refine guards_calm (calm_addObject _ _ _) fun obj _ => ?_
  refine guards_bind (guards_forList fun b _ => guards_fnMethod hr obj _ b.1 b.2.1 b.2.2) fun methods hmethods => guards_ofExcept fun _ _ => ?_
  refine guards_bind (guards_emitUnit hmethods.2) fun unit hunit => guards_bind (guards_captureRefs obj) fun refs _ => guards_pure ?_
  exact inPlace_unit rfl rfl rfl hunit

/-! ## Types -/

theorem guards_typeMethod (hr : Guarding rec rec') (obj : Nat) (parent : Option Nat) (tag : Option String) (m : TypeMethod) :
    Guards p (typeMethod rec obj parent tag m) (typeMethod rec' obj parent tag m) fun m => m.body.InPlace (some m.locals) := by
  unfold typeMethod
  split
  · refine guards_read fun c _ => guards_bind (guards_addMethod _ _) fun frame _ => guards_inMethod ?_
    refine guards_ofExcept fun this _ => guards_bind (guards_registerThis _ tag) fun _ _ => ?_
    refine guards_bind (guards_forList (R := fun _ => True) fun f _ => ?_) fun args _ => ?_
    · exact guards_ofExcept fun _ _ => guards_registerLocal _ _ _ _
    · refine guards_methodBody hr _ fun e q he => guards_pure ?_
      rw [FnMethod.locals, Option.toList_none, List.append_nil]
      exact he
  · exact guards_fail _

theorem guards_registerFields (obj : Nat) (fields : List FieldDecl) :
    Guards p (registerFields obj fields) (registerFields obj fields) fun _ => True :=
  guards_forM (fun _ => guards_bind (guards_registerLocal _ _ _ _) fun id _ => guards_modify (g := fun c =>
    (c.modifyBinding id _).capture obj id) fun _ => rfl) fields

theorem guards_typeMethodList (hr : Guarding rec rec') (obj : Nat) (parent : Option Nat) (tag : Option String) (methods : List TypeMethod) :
    Guards p (forList (typeMethod rec obj parent tag) methods) (forList (typeMethod rec' obj parent tag) methods)
      fun ms => ∀ m ∈ ms, m.body.InPlace (some m.locals) :=
  (guards_forList fun m _ => guards_typeMethod hr obj parent tag m).mono fun _ h => h.2

theorem guards_typeMethods (hr : Guarding rec rec') (obj : Nat) (name : String) (fields : List FieldDecl) (methods : List TypeMethod) :
    Guards p (typeMethods rec obj name fields methods) (typeMethods rec' obj name fields methods)
      fun ms => ∀ m ∈ ms, m.body.InPlace (some m.locals) := by
  refine guards_nested (guards_bind (guards_addMethod _ _) fun frame _ => ?_)
  refine guards_modifyScope (q := ⟨⟨some frame, 0, false⟩, none, false, false⟩) (fun _ _ => ⟨0, Nat.zero_le _, rfl⟩) ?_
  exact guards_bind (guards_registerFields obj fields) fun _ _ => (guards_typeMethodList hr obj _ _ methods).minds

theorem guards_deftype (hr : Guarding rec rec') (items : List Form) (loop : Option (List Nat)) :
    Guards p (deftype rec items) (deftype rec' items) fun e => e.InPlace loop := by
  unfold deftype
  split
  · split
    · exact guards_fail _
    · split
      · refine guards_ofExcept fun fields _ => guards_calm (aside_typeParts _).calm fun parts _ => guards_calm (aside_checkDeclared _ _).calm fun _ _ => ?_
        refine guards_calm (calm_changeWorld _) fun _ _ => guards_calm (calm_addObject _ _ _) fun obj _ => ?_
        refine guards_bind (guards_typeMethods hr obj _ _ _) fun methods hmethods => guards_bind (guards_emitUnit hmethods) fun unit hunit => ?_
        exact guards_calm (aside_load unit).calm fun _ _ => guards_pure (inPlace_unit rfl rfl rfl hunit)
      · exact guards_fail _
  · exact guards_fail _

theorem guards_reify (hr : Guarding rec rec') (items : List Form) (loop : Option (List Nat)) :
    Guards p (reify rec items) (reify rec' items) fun e => e.InPlace loop := by
  unfold reify
  split
  · refine guards_calm (calm_forList (S := fun _ => True) (fun f => ?_) _) fun protocols _ => ?_
    · split
      · exact (aside_resolveProtocol _).calm
      · exact calm_fail _
    refine guards_calm (calm_forList (S := fun _ => True) (fun f => ?_) _) fun methods _ => ?_
    · split
      · exact calm_pure trivial
      · exact calm_fail _
    refine guards_calm (aside_checkDeclared _ _).calm fun _ _ => guards_read fun c _ => guards_calm (aside_unitName _).calm fun name _ => ?_
    refine guards_calm (calm_addObject _ _ _) fun obj _ => guards_bind (guards_typeMethodList hr obj _ _ _) fun methods hmethods => ?_
    refine guards_bind (guards_emitUnit hmethods) fun unit hunit => guards_calm (calm_changeWorld _) fun _ _ => ?_
    refine guards_calm (aside_load unit).calm fun _ _ => ?_
    exact guards_bind (guards_captureRefs obj) fun refs _ => guards_pure (inPlace_unit rfl rfl rfl hunit)
  · exact guards_fail _

/-! ## Calls -/

theorem guards_varCall? (hr : Guarding rec rec') (s : Symbol) (args : List Form) (line : Nat) :
    Guards p (varCall? rec demand s args line) (varCall? rec' demand s args line) fun o => ∀ e ∈ o, e.InPlace (p.rebound? demand) := by
  refine guards_read fun c _ => ?_
  split
  · exact guards_pure fun e he => by cases he
  · dsimp only
    split
    · exact guards_bind (hr demand _ p) fun e he => guards_pure fun e' h => by cases h; exact he
    · split
      · refine guards_bind (guards_operands hr args) fun es hes => guards_pure fun e' h => ?_
        cases h
        exact inPlace_inner rfl rfl rfl hes
      · exact guards_pure fun e he => by cases he

theorem guards_instanceTest? (hr : Guarding rec rec') (s : Symbol) (args : List Form) :
    Guards p (instanceTest? rec demand s args) (instanceTest? rec' demand s args) fun o => ∀ e ∈ o, e.InPlace (p.rebound? demand) := by
  unfold instanceTest?
  split
  · refine guards_read fun c _ => guards_read fun c _ => ?_
    split
    · refine guards_bind (guards_operand hr demand _) fun e he => guards_pure fun e' h => ?_
      cases h
      exact inPlace_one rfl rfl rfl he
    · exact guards_pure fun e he => by cases he
  · exact guards_pure fun e he => by cases he

theorem guards_namedCall? (hr : Guarding rec rec') (s : Symbol) (args : List Form) (line : Nat) :
    Guards p (namedCall? rec demand s args line) (namedCall? rec' demand s args line) fun o => ∀ e ∈ o, e.InPlace (p.rebound? demand) := by
  refine guards_read fun c _ => ?_
  split
  · exact guards_pure fun e he => by cases he
  · refine guards_bind (guards_varCall? hr s args line) fun o ho => ?_
    split
    · exact guards_pure ho
    · exact guards_instanceTest? hr s args

theorem guards_plainCall (hr : Guarding rec rec') (head : Form) (args : List Form) (line : Nat) :
    Guards p (plainCall rec demand head args line) (plainCall rec' demand head args line) fun e => e.InPlace (p.rebound? demand) := by
  unfold plainCall
  split
  · exact guards_bind (guards_operand hr demand _) fun e he => guards_pure (inPlace_one rfl rfl rfl he)
  · refine guards_bind (guards_operand hr demand head) fun e he => guards_bind (guards_operands hr args) fun es hes => ?_
    exact guards_read fun c _ => guards_pure (inPlace_inner rfl rfl rfl (List.forall_mem_cons.2 ⟨he, hes⟩))

theorem guards_invoke (hr : Guarding rec rec') (head : Form) (args : List Form) :
    Guards p (invoke rec demand head args) (invoke rec' demand head args) fun e => e.InPlace (p.rebound? demand) := by
  refine guards_read fun c _ => ?_
  dsimp only
  split
  · refine guards_bind (guards_namedCall? hr _ args _) fun o ho => ?_
    split
    · exact guards_pure (ho _ rfl)
    · exact guards_plainCall hr _ args _
  · exact guards_plainCall hr _ args _

/-! ## All forms -/

theorem guards_special (hr : Guarding rec rec') {name : SpecialForm} (hname : name ≠ .recur) (f : Form) (items : List Form) :
    Guards p (special rec demand name f items) (special rec' demand name f items) fun e => e.InPlace (p.rebound? demand) := by
  cases name with
  | define => exact guards_define hr items
  | cond => exact guards_cond hr items
  | seq => exact guards_body hr items.tail
  | bind => exact guards_let hr f items false
  | loop => exact guards_let hr f items true
  | recur => exact absurd rfl hname
  | fn => exact guards_fn hr items _
  | quote => exact guards_quote _ items
  | var => exact guards_theVar _ items
  | assign => exact guards_assign hr items
  | attempt => exact guards_attempt hr f items
  | throw => exact guards_throw hr f items
  | case => exact guards_case hr f items
  | dot => exact guards_dot hr items
  | new => exact guards_new hr items
  | bindFns => exact guards_bindFns hr f items
  | deftype => exact guards_deftype hr items _
  | reify => exact guards_reify hr items _
  | handler => exact guards_fail _
  | cleanup => exact guards_fail _
  | ampersand => exact guards_fail _

/-- Whether a form with this head is a `recur`. -/
def headsRecur (head : Form) : Bool := head.symbol?.bind SpecialForm.ofSymbol? == some .recur

theorem guards_list (hr : Guarding rec rec') (f : Form) {head : Form} (hhead : headsRecur head = false) (args : List Form) :
    Guards p (list rec demand f head args) (list rec' demand f head args) fun e => e.InPlace (p.rebound? demand) := by
  refine guards_calm (aside_once f).calm fun o _ => ?_
  split
  · exact hr demand _ p
  · split
    · rename_i name hname
      refine guards_special hr (fun h => ?_) f (head :: args)
      rw [headsRecur, hname, h] at hhead
      cases hhead
    · exact guards_invoke hr head args

theorem guards_vector (hr : Guarding rec rec') (f : Form) (items : List Form) :
    Guards p (vector rec demand f items) (vector rec' demand f items) fun e => e.InPlace (p.rebound? demand) := by
  refine guards_bind (guards_operands hr items) fun es hes => guards_pure ?_
  split
  · exact inPlace_leaf rfl rfl rfl
  · exact inPlace_inner rfl rfl rfl hes

theorem guards_set (hr : Guarding rec rec') (f : Form) (items : List Form) :
    Guards p (set rec demand f items) (set rec' demand f items) fun e => e.InPlace (p.rebound? demand) := by
  refine guards_calm (aside_checkKeys items).calm fun _ _ => guards_bind (guards_operands hr items) fun es hes => guards_pure ?_
  split
  · exact inPlace_leaf rfl rfl rfl
  · exact inPlace_inner rfl rfl rfl hes

theorem guards_map (hr : Guarding rec rec') (f : Form) (pairs : List (Form × Form)) :
    Guards p (map rec demand f pairs) (map rec' demand f pairs) fun e => e.InPlace (p.rebound? demand) := by
  refine guards_calm (aside_checkKeys _).calm fun _ _ => ?_
  refine guards_bind (guards_forList (R := fun e => e.1.InPlace none ∧ e.2.InPlace none) fun kv _ => ?_) fun es hes => ?_
  · refine guards_bind (guards_operand hr demand kv.1) fun k hk => guards_bind (guards_operand hr demand kv.2) fun v hv => ?_
    exact guards_pure ⟨hk, hv⟩
  · refine guards_pure ?_
    split
    · exact inPlace_leaf rfl rfl rfl
    · refine inPlace_inner rfl rfl rfl fun e he => ?_
      obtain ⟨kv, hkv, he⟩ := List.mem_flatMap.1 he
      obtain ⟨hk, hv⟩ := hes.2 kv hkv
      exact List.forall_mem_cons.2 ⟨hk, List.forall_mem_singleton.2 hv⟩ e he

/-- A list is analyzed at its own place in the text. -/
def atForm (f : Form) (x : Analysis Expr) : Analysis Expr := Analysis.nested do
  Analysis.modify (·.moveTo f)
  Analysis.located x

theorem guards_atForm {x x' : Analysis Expr} {Q : Expr → Prop} (f : Form) (h : Guards p x x' Q) : Guards p (atForm f x) (atForm f x') Q :=
  guards_nested (guards_calm (calm_modify (moveTo_quiet f)) fun _ _ => (guards_located h).minds)

theorem atForm_eq_ok {f : Form} {x : Analysis Expr} {c : Context} {e : Expr} (h : (atForm f x c).1 = .ok e) :
    ∃ c', x (c.moveTo f) = (.ok e, c') :=
  ⟨_, located_eq_ok (Prod.ext h rfl)⟩

/-- Where a form is in the text has nothing to do with what a `recur` rebinds. -/
theorem rebound?_moveTo (c : Context) (f : Form) (demand : Demand) : (c.moveTo f).scope.rebound? demand = c.scope.rebound? demand := by
  unfold Context.moveTo
  split <;> rfl

/-- The analysis of a form, where `other` is asked about every `recur` that is out of place or has the wrong number of
arguments. -/
def formOr (other : Analyzer) : Nat → Analyzer
  | 0, _, _ => Analysis.cut
  | fuel + 1, demand, f =>
    match f with
    | .list (head :: args) _ =>
      if headsRecur head then atForm f (recurOr other (formOr other fuel) demand f (head :: args))
      else formWith (formOr other fuel) demand f
    | _ => formWith (formOr other fuel) demand f

/-- A special form is not expanded. -/
theorem once_special {head : Form} {name : SpecialForm} (hname : head.symbol?.bind SpecialForm.ofSymbol? = some name) (args : List Form)
    (info : Option Form.Info) : Expand.once (.list (head :: args) info) = Pure.pure none := by
  cases head with
  | symbol s place =>
    unfold Expand.once
    simp only [show SpecialForm.ofSymbol? s = some name from hname, Option.isSome_some, Bool.true_or, if_true]
    rfl
  | _ => cases hname

theorem list_special (rec : Analyzer) (demand : Demand) {head : Form} {name : SpecialForm}
    (hname : head.symbol?.bind SpecialForm.ofSymbol? = some name) (args : List Form) (info : Option Form.Info) :
    list rec demand (.list (head :: args) info) head args = special rec demand name (.list (head :: args) info) (head :: args) := by
  unfold list
  rw [once_special hname, hname]
  rfl

theorem list_recur (rec : Analyzer) (demand : Demand) {head : Form} (hhead : headsRecur head = true) (args : List Form)
    (info : Option Form.Info) : list rec demand (.list (head :: args) info) head args = recur rec demand (head :: args) :=
  list_special rec demand (eq_of_beq hhead) args info

theorem formWithin_recur (n : Nat) (demand : Demand) {head : Form} (hhead : headsRecur head = true) (args : List Form)
    (info : Option Form.Info) : formWithin (n + 1) demand (.list (head :: args) info) =
      atForm (.list (head :: args) info) (recur (formWithin n) demand (head :: args)) := by
  rw [formWithin, formWith, list_recur _ _ hhead, atForm]

/-- **What is made of a form is in place, and what might be made of a `recur` out of place does not count.**  By induction on
the depth; at each depth one lemma for every kind of form. -/
theorem guarding_formWithin (other : Analyzer) (n : Nat) : Guarding (formWithin n) (formOr other n) := by
  induction n with
  | zero => exact fun _ _ _ => guards_cut
  | succ n ih =>
    intro demand f p
    cases f with
    | symbol s info => exact guards_symbol _ s info
    | vector items => exact guards_vector ih _ items
    | map pairs => exact guards_map ih _ pairs
    | set items => exact guards_set ih _ items
    | list items info =>
      cases items with
      | nil => exact guards_pure (inPlace_leaf rfl rfl rfl)
      | cons head args =>
        rw [formOr]
        split
        · rename_i hhead
          rw [formWithin_recur n demand hhead]
          exact guards_atForm _ (guards_recur other ih _ _)
        · rename_i hhead
          exact guards_atForm _ (guards_list ih _ (Bool.eq_false_iff.2 hhead) args)
    | _ => exact guards_pure (inPlace_leaf rfl rfl rfl)

/-- The expression of a form is in place where the form stands. -/
theorem formWithin_inPlace {n : Nat} {f : Form} {c c' : Context} {e : Expr} (h : formWithin n demand f c = (.ok e, c')) :
    e.InPlace (c.scope.rebound? demand) :=
  ((guarding_formWithin (fun _ _ => cut) n demand f _ c ⟨c.scope.nextSlot, Nat.le_refl _, rfl⟩).2 e c' h).2

theorem formWithin_eq_formOr (other : Analyzer) (n : Nat) (demand : Demand) (f : Form) (c : Context) :
    formWithin n demand f c = formOr other n demand f c ∨ (formWithin n demand f c).1.RejectsRecur :=
  (guarding_formWithin other n demand f _ c ⟨c.scope.nextSlot, Nat.le_refl _, rfl⟩).1

/-- A `recur` that is out of place is rejected. -/
theorem rejects_outOfPlace (n : Nat) {c : Context} {head : Form} (hhead : headsRecur head = true) (h : c.scope.rebound? demand = none)
    (args : List Form) (info : Option Form.Info) : (formWithin (n + 1) demand (.list (head :: args) info) c).1.RejectsRecur := by
  rw [formWithin_recur n demand hhead]
  refine rejects_located (recur_of_none ?_ _)
  rw [rebound?_moveTo]
  exact h

/-- A `recur` with the wrong number of arguments is never accepted, and it is rejected for that if its arguments are accepted. -/
theorem rejects_miscounted (n : Nat) {c : Context} {head : Form} {args : List Form} {targets : List Nat} (hhead : headsRecur head = true)
    (h : c.scope.rebound? demand = some targets) (hlen : args.length ≠ targets.length) (info : Option Form.Info) :
    (∀ e, (formWithin (n + 1) demand (.list (head :: args) info) c).1 ≠ .ok e) ∧
      ∀ values c', forList (formWithin n .expression) args (c.moveTo (.list (head :: args) info)) = (.ok values, c') →
        (formWithin (n + 1) demand (.list (head :: args) info) c).1.RejectsRecur := by
  have hmoved : (c.moveTo (.list (head :: args) info)).scope.rebound? demand = some targets := by
    rw [rebound?_moveTo]
    exact h
  have hrejects : ∀ values c', forList (formWithin n .expression) args (c.moveTo (.list (head :: args) info)) = (.ok values, c') →
      (recur (formWithin n) demand (head :: args) (c.moveTo (.list (head :: args) info))).1.RejectsRecur := fun values c' hv => by
    rw [recur_of_some hmoved]
    exact rebind_miscounted _ hlen hv
  rw [formWithin_recur n demand hhead]
  refine ⟨fun e he => ?_, fun values c' hv => rejects_located (hrejects values c' hv)⟩
  obtain ⟨c', hc⟩ := atForm_eq_ok he
  have hbind := hc
  rw [recur_of_some hmoved] at hbind
  obtain ⟨values, c₁, hv, _⟩ := bind_eq_ok hbind
  obtain ⟨err, herr, _⟩ := hrejects values c₁ hv
  rw [hc] at herr
  cases herr

end Analyze

end LispMachine
