import LispMachine.Proofs.Analyze.Asides
import LispMachine.Proofs.Emit.Sound
import Mathlib.Data.List.Induction
/-!
# Analysis gives fitted expressions

Every form that analysis accepts becomes an expression that is fitted for its place (`fine_form`): its
locals belong to the method, a `recur` stands at the end of its loop, a `try` at the end of its method,
and the units in it are accepted by the checker.
-/
namespace LispMachine.Analyze

open LispMachine.Expr Analysis

/-- The expression is fitted for a place where its value is demanded in this way.  At a place where there may be
no `recur`, or no `try`, it has none. -/
def Fit (good : CompiledUnit → Prop) (c : Context) (p : Place) (demand : Demand) (e : Expr) : Prop := ∀ (loop : Option (List Nat)) (top : Bool),
  (demand = .tail → p.noRecur = false → p.room.inHandler = false → loop = p.loopLocals) →
  (demand = .tail → p.methodReturn = true → top = true) → Fitted good c p.room loop top e

/-- An analyzer gives fitted expressions. -/
def Fine (good : CompiledUnit → Prop) (rec : Analyzer) : Prop := ∀ (demand : Demand) (f : Form) (p : Place) (c : Context),
  Yields p c (rec demand f) fun e c' => Fit good c' p demand e

section

variable {good : CompiledUnit → Prop} {c : Context} {p : Place} {demand : Demand} {e : Expr}

theorem Fit.fitted (h : Fit good c p demand e) (hd : demand ≠ .tail) (loop : Option (List Nat)) (top : Bool) :
    Fitted good c p.room loop top e := h loop top (fun ht => absurd ht hd) fun ht => absurd ht hd

theorem operand_ne_tail (demand : Demand) : demand.operand ≠ .tail := by cases demand <;> exact Demand.noConfusion

theorem leading_ne_tail (demand : Demand) : demand.leading ≠ .tail := by cases demand <;> exact Demand.noConfusion

/-- An expression without parts is fitted everywhere. -/
def Leaf (good : CompiledUnit → Prop) (e : Expr) : Prop := ∀ c frame loop top, Fitted good c frame loop top e

theorem Leaf.fit (h : Leaf good e) : Fit good c p demand e := fun loop top _ _ => h c p.room loop top

/-- The analysis of a leaf. -/
theorem yields_leaf {x : Analysis Expr} (h : Calm x (Leaf good)) : Yields p c x fun e c' => Fit good c' p demand e :=
  h.yields.mono fun _ _ h => h.fit

end

variable {good : CompiledUnit → Prop} {rec : Analyzer} {demand : Demand} {p : Place} {c : Context}

/-! ## Sequences -/

theorem fitted_operands (hr : Fine good rec) (forms : List Form) :
    Yields p c (operands rec demand forms) fun es c' => FittedAll good c' p.room es := by
  refine (yields_forList fun f _ c => hr demand.operand f p c).mono fun es c' h => ?_
  rw [fittedAll_iff]
  intro e he
  obtain ⟨_, _, hf⟩ := h.2 e he
  exact hf.fitted (operand_ne_tail demand) none false

theorem fit_body (hr : Fine good rec) (forms : List Form) : Yields p c (body rec demand forms) fun e c' => Fit good c' p demand e := by
  unfold body
  split
  · exact yields_pure fun _ _ _ _ _ _ => trivial
  · rename_i last _
    refine yields_bind (yields_forList fun f _ c => hr demand.leading f p c) fun leading _ _ => ?_
    refine yields_bind (hr demand last p _) fun result _ _ => yields_pure fun c' _ hresult hleading => ?_
    split
    · exact hresult
    · intro loop top hl ht
      refine fittedSeq_append (fun e he => ?_) (hresult loop top hl ht)
      obtain ⟨_, _, hf⟩ := hleading.2 e he
      exact hf.fitted (leading_ne_tail demand) none false

/-! ## Symbols and quotation -/

theorem fit_symbol (demand : Demand) (s : Symbol) (info : Option Form.Info) : Yields p c (symbol s info) fun e c' => Fit good c' p demand e := by
  refine yields_tidy fun ht _ => yields_read ?_
  split
  · rename_i b hb
    exact yields_bind (yields_referenceLocal (ht.lookup_lt hb) _) fun r _ _ => yields_pure fun c' _ hr loop top _ _ => hr
  · refine yields_read ?_
    split
    · split
      · exact yields_pure fun _ _ _ _ _ _ => trivial
      · exact yields_fail _
    · split
      · split
        · exact yields_fail _
        · exact yields_pure fun _ _ _ _ _ _ => trivial
      · split
        · exact yields_pure fun _ _ _ _ _ _ => trivial
        · exact yields_fail _

theorem calm_quote (items : List Form) : Calm (quote items) (Leaf good) := by
  unfold quote
  split
  any_goals exact calm_pure fun _ _ _ _ => trivial
  exact calm_fail _

theorem calm_theVar (items : List Form) : Calm (theVar items) (Leaf good) := by
  unfold theVar
  split
  · refine calm_then (calm_read _) fun w => ?_
    split
    · exact calm_pure fun _ _ _ _ => trivial
    · exact calm_fail _
  · exact calm_fail _

/-! ## Definitions, conditions and assignments -/

theorem fit_define (hr : Fine good rec) (items : List Form) : Yields p c (define rec demand items) fun e c' => Fit good c' p demand e := by
  unfold define
  refine yields_ofExcept fun ⟨doc, init⟩ _ => ?_
  dsimp only
  split
  · refine yields_read ?_
    split
    · exact yields_fail _
    · refine yields_calm (calm_changeWorld _) fun id c₁ _ => yields_calm (calm_changeWorld _) fun _ c₂ _ => ?_
      cases init with
      | none => exact yields_if (calm_warn _ _) fun c₃ => yields_read (yields_pure fun _ _ _ _ _ _ => trivial)
      | some f =>
        refine yields_if (calm_warn _ _) fun c₃ => yields_bind (hr demand.operand f p c₃) fun e _ _ => yields_read (yields_pure ?_)
        exact fun c' _ he loop top _ _ => he.fitted (operand_ne_tail demand) none false
  · exact yields_fail _

theorem fit_cond (hr : Fine good rec) (items : List Form) : Yields p c (cond rec demand items) fun e c' => Fit good c' p demand e := by
  unfold cond
  split
  · exact yields_fail _
  · split
    · refine yields_read (yields_bind (hr demand.operand _ p _) fun test _ _ => yields_read (yields_calm (calm_addPath _ _) fun branch _ _ => ?_))
      refine yields_bind (yields_arm fun c => hr demand _ p c) fun yes _ _ => yields_bind (yields_arm fun c => hr demand _ p c) fun no _ _ => ?_
      exact yields_pure fun c' _ hno hyes htest loop top hl ht =>
        ⟨htest.fitted (operand_ne_tail demand) none false, hyes loop top hl ht, hno loop top hl ht⟩
    · exact yields_fail _

/-- A field that is assigned is captured, if it is visible. -/
theorem yields_assignableField {x : Nat} (hx : x < c.bindings.size) : Yields p c (assignableField x) fun _ _ => True := by
  refine yields_read ?_
  dsimp only
  split
  · exact yields_bind (yields_modify (Context.closeOver_mild hx)) fun _ _ _ => yields_pure fun _ _ _ => trivial
  · exact yields_fail _

theorem fit_assign (hr : Fine good rec) (items : List Form) : Yields p c (assign rec demand items) fun e c' => Fit good c' p demand e := by
  have hvalue : ∀ (target : AssignTarget) (value : Form) (c : Context),
      Yields p c (do return .assign target (← rec demand.operand value)) fun e c' => Fit good c' p demand e := fun target value c =>
    yields_bind (hr demand.operand value p c) fun e _ _ =>
      yields_pure fun c' _ he loop top _ _ => he.fitted (operand_ne_tail demand) none false
  unfold assign
  split
  · refine yields_tidy fun ht _ => yields_read ?_
    split
    · rename_i b hb
      exact yields_bind (yields_assignableField (ht.lookup_lt hb)) fun target c₁ _ => (hvalue target _ c₁).mono fun _ _ h _ => h
    · refine yields_bind (fit_symbol demand _ _ : Yields p c _ fun e c' => Fit good c' p demand e) fun e c₁ _ => ?_
      split
      · exact (hvalue _ _ c₁).mono fun _ _ h _ => h
      · exact yields_fail _
  · exact yields_fail _
  · exact yields_fail _

theorem fit_throw (hr : Fine good rec) (form : Form) (items : List Form) :
    Yields p c (throw rec demand form items) fun e c' => Fit good c' p demand e := by
  unfold throw
  split
  · split
    · exact hr demand _ p c
    · refine yields_bind (hr .expression _ p c) fun e _ _ => yields_pure fun c' _ he loop top _ _ => ?_
      exact he.fitted Demand.noConfusion none false
  · exact yields_fail _
  · exact yields_fail _

/-! ## Host members -/

theorem fit_staticMember (hr : Fine good rec) (k : Class) (name : String) (args : List Form) (parenthesized : Bool) (line : Nat) :
    Yields p c (staticMember rec demand k name args parenthesized line) fun e c' => Fit good c' p demand e := by
  unfold staticMember
  refine yields_read ?_
  dsimp only
  split
  · exact yields_pure fun _ _ _ _ _ _ => trivial
  · refine yields_bind (fitted_operands hr args) fun es _ _ => yields_calm (aside_resolveMember _ _ _ _ _).calm fun member _ _ => ?_
    exact yields_if (aside_reflects _).calm fun _ => yields_pure fun c' _ hes loop top _ _ => hes

theorem fit_instanceField (demand : Demand) (k : Option Class) (target : Expr) (name fieldName : String) (args : List Expr) (line : Nat) :
    Yields p c (instanceField k target name fieldName args line) fun e c' =>
      Fitted good c' p.room none false target → Fit good c' p demand e := by
  unfold instanceField
  split
  · exact yields_fail _
  · exact yields_if (aside_reflects _).calm fun _ => yields_pure fun c' _ ht loop top _ _ => ht

theorem fit_instanceMethod (demand : Demand) (k : Option Class) (target : Expr) (name : String) (args : List Expr) (line : Nat) :
    Yields p c (instanceMethod k target name args line) fun e c' =>
      Fitted good c' p.room none false target → FittedAll good c' p.room args → Fit good c' p demand e := by
  unfold instanceMethod
  split
  · split
    · exact yields_pure fun c' _ ht ha loop top _ _ => ⟨ht, ha⟩
    · refine yields_calm (aside_resolveMember _ _ _ _ _).calm fun member _ _ => ?_
      exact yields_if (aside_reflects _).calm fun _ => yields_pure fun c' _ ht ha loop top _ _ => ⟨ht, ha⟩
  · exact yields_calm (aside_reflects _).calm fun _ _ _ => yields_pure fun c' _ ht ha loop top _ _ => ⟨ht, ha⟩

theorem fit_instanceMember (hr : Fine good rec) (target : Form) (name : String) (args : List Form) (parenthesized : Bool) (line : Nat) :
    Yields p c (instanceMember rec demand target name args parenthesized line) fun e c' => Fit good c' p demand e := by
  unfold instanceMember
  refine yields_bind (hr demand.operand target p c) fun e _ _ => yields_bind (fitted_operands hr args) fun es c₂ _ => yields_read ?_
  have hfield : ∀ k fieldName, Yields p c₂ (instanceField k e name fieldName es line) fun e' c' =>
      FittedAll good c' p.room es → Fit good c' p demand.operand e → Fit good c' p demand e' := fun k fieldName =>
    (fit_instanceField demand k e name fieldName es line).mono fun _ _ h _ he => h (he.fitted (operand_ne_tail demand) none false)
  have hmethod : ∀ k, Yields p c₂ (instanceMethod k e name es line) fun e' c' =>
      FittedAll good c' p.room es → Fit good c' p demand.operand e → Fit good c' p demand e' := fun k =>
    (fit_instanceMethod demand k e name es line).mono fun _ _ h hes he => h (he.fitted (operand_ne_tail demand) none false) hes
  dsimp only
  split
  all_goals
    split
    · exact hfield _ _
    · exact hmethod _

/-- A member of a class, or else of the value of the target. -/
theorem fit_member (hr : Fine good rec) (target : Form) (name : String) (args : List Form) (parenthesized : Bool) (line : Nat)
    (found : Option Class) : Yields p c (match found with
      | some k => staticMember rec demand k name args parenthesized line
      | none => instanceMember rec demand target name args parenthesized line) fun e c' => Fit good c' p demand e := by
  cases found with
  | some k => exact fit_staticMember hr k name args parenthesized line
  | none => exact fit_instanceMember hr target name args parenthesized line

theorem fit_dot (hr : Fine good rec) (items : List Form) : Yields p c (dot rec demand items) fun e c' => Fit good c' p demand e := by
  unfold dot
  refine yields_read ?_
  dsimp only
  split
  · exact yields_calm (aside_classNamed? _).calm fun found c₁ _ => fit_member hr _ _ _ _ _ found
  · exact yields_calm (aside_classNamed? _).calm fun found c₁ _ => fit_member hr _ _ _ _ _ found
  · exact yields_fail _
  · exact yields_fail _

theorem fit_new (hr : Fine good rec) (items : List Form) : Yields p c (new rec demand items) fun e c' => Fit good c' p demand e := by
  unfold new
  split
  · refine yields_read ?_
    split
    · exact yields_fail _
    · refine yields_read (yields_bind (fitted_operands hr _) fun es _ _ => ?_)
      split
      · split
        · exact yields_fail _
        · exact yields_pure fun c' _ hes loop top _ _ => hes
      · refine yields_calm (aside_resolveMember _ _ _ _ _).calm fun member _ _ => ?_
        exact yields_if (aside_reflects _).calm fun _ => yields_pure fun c' _ hes loop top _ _ => hes
  · exact yields_fail _

/-! ## Bindings and loops -/

theorem fitted_bindAll (hr : Fine good rec) (bindings : List (Form × Form)) (boxed : List Bool) :
    Yields p c (bindAll rec bindings boxed) fun bs c' => FittedBindings good c' p.room bs := by
  induction bindings generalizing boxed c with
  | nil => exact yields_pure fun _ _ => trivial
  | cons b rest ih =>
    unfold bindAll
    refine yields_ofExcept fun ⟨s, info⟩ _ => yields_bind (hr .expression b.2 p c) fun e c₁ _ => yields_read ?_
    refine yields_if (calm_warn _ _) fun c₂ => yields_bind (yields_registerLocal _ _ _ _) fun id c₃ _ => ?_
    exact yields_bind (ih boxed.tail) fun bs _ _ => yields_pure fun c' _ hrest hid he =>
      ⟨hid.1, he.fitted Demand.noConfusion none false, hrest⟩

/-- The body of a loop may go back to the start of the loop. -/
theorem fit_loopBody (hr : Fine good rec) (forms : List Form) {locals : List Nat}
    (hlocals : ∀ c', c.Grows c' → ∀ b ∈ locals, c'.Owns p.room b) :
    Yields p c (loopBody rec demand locals forms) fun e c' => ∀ top : Bool,
      (demand = .tail → p.methodReturn = true → top = true) → Fitted good c' p.room (some locals) top e := by
  refine yields_read (yields_calm_after (calm_addPath _ _) fun root c₁ h₁ _ => ?_)
  refine yields_calm_after (calm_addPath _ _) fun clearRoot c₂ h₂ _ => yields_calm_after (calm_addPath _ _) fun clearPath c₃ h₃ _ => ?_
  refine yields_nested (leads_modifyScope (q := { p with
    loopLocals := some locals, noRecur := false, methodReturn := demand == .tail && p.methodReturn }) ?_ (fun _ h => h) ?_ fun c₄ _ _ => ?_)
  · rintro ⟨floor, hn, rfl⟩
    exact ⟨floor, hn, rfl⟩
  · intro ht hp
    refine ⟨(admits_at ht hp).method, fun ts hts b hb => ?_⟩
    cases hts
    obtain ⟨_, hmethod⟩ := hlocals c₃ (h₁.trans (h₂.trans h₃)) b hb
    exact ⟨Nat.zero_le _, hmethod⟩
  · refine (fit_body hr forms).leads.mono fun e c' he top htop => ?_
    refine he (some locals) top (fun _ _ _ => rfl) fun _ hm => ?_
    rw [Bool.and_eq_true, beq_iff_eq] at hm
    exact htop hm.1 hm.2

theorem fit_loopPass (hr : Fine good rec) (bindings : List (Form × Form)) (forms : List Form) (boxed : List Bool) :
    Yields p c (loopPass rec demand bindings forms boxed) fun r c' => Fit good c' p demand r.1 := by
  refine yields_nested (leads_bind (fitted_bindAll hr bindings boxed) fun inits c₁ hinits => ?_)
  have hlocals : ∀ c', c₁.Grows c' → ∀ b ∈ inits.map (·.1), c'.Owns p.room b := by
    intro c' hc b hb
    obtain ⟨init, hi, rfl⟩ := List.mem_map.1 hb
    exact ((fittedBindings_iff inits).1 (hinits c' hc) init hi).1
  refine leads_bind (fit_loopBody hr forms hlocals) fun e c₂ _ => leads_read (Yields.leads (yields_pure ?_))
  exact fun c' _ he hi loop top _ ht => ⟨hi, he top ht⟩

theorem fit_loopPasses (hr : Fine good rec) (bindings : List (Form × Form)) (forms : List Form) (passes : Nat) (boxed : List Bool) :
    Yields p c (loopPasses rec demand bindings forms passes boxed) fun e c' => Fit good c' p demand e := by
  induction passes generalizing boxed c with
  | zero => exact yields_cut
  | succ passes ih =>
    refine yields_bind (fit_loopPass hr bindings forms boxed) fun ⟨e, next⟩ c₁ _ => ?_
    dsimp only
    split
    · exact yields_pure fun _ _ he => he
    · exact (ih next).mono fun _ _ h _ => h

theorem fit_bind (hr : Fine good rec) (form : Form) (items : List Form) (isLoop : Bool) :
    Yields p c (bind rec demand form items isLoop) fun e c' => Fit good c' p demand e := by
  refine yields_ofExcept fun bindings _ => ?_
  split
  · exact hr demand _ p c
  · split
    · exact fit_loopPasses hr bindings _ _ _
    · refine yields_nested (leads_bind (fitted_bindAll hr bindings []) fun inits c₁ _ => leads_bind (fit_body hr _) fun e c₂ _ => ?_)
      exact Yields.leads (yields_pure fun c' _ he hi loop top hl ht => ⟨hi, he loop top hl ht⟩)

theorem fit_bindFns (hr : Fine good rec) (form : Form) (items : List Form) :
    Yields p c (bindFns rec demand form items) fun e c' => Fit good c' p demand e := by
  refine yields_ofExcept fun bindings _ => ?_
  split
  · exact hr demand _ p c
  · refine yields_nested (leads_bind (Q := fun ids c' => ∀ id ∈ ids, c'.Owns p.room id) ?_ fun ids c₁ _ => ?_)
    · refine (yields_forList (Q := fun _ id c' => c'.Owns p.room id) fun b _ c => ?_).mono fun ids c' h id hid => ?_
      · refine yields_ofExcept fun s _ => yields_bind (yields_registerLocal _ _ _ _) fun id c₁ _ => ?_
        exact yields_calm (calm_modify fun c => Context.modifyBinding_quiet id (fun _ => rfl) (fun _ => rfl) (fun _ h => h) fun _ => rfl)
          fun _ _ _ => yields_pure fun _ _ h => h.1
      · obtain ⟨_, _, ho⟩ := h.2 id hid
        exact ho
    · refine leads_bind (yields_forList (Q := fun b init c' => init.1 = b.1 ∧ Fit good c' p .expression init.2) fun b _ c => ?_) fun inits c₂ _ => ?_
      · exact yields_bind (hr .expression b.2.2 p c) fun e _ _ => yields_pure fun _ _ he => ⟨rfl, he⟩
      · refine leads_bind (fit_body hr _) fun e c₃ _ => Yields.leads (yields_pure fun c' _ he hi hids loop top hl ht => ⟨?_, he loop top hl ht⟩)
        rw [fittedBindings_iff]
        intro init hinit
        obtain ⟨b, hb, hfst, hfit⟩ := hi.2 init hinit
        refine ⟨?_, hfit.fitted Demand.noConfusion none false⟩
        rw [hfst]
        exact hids b.1 (List.of_mem_zip hb).1

theorem yields_checkRecurArg (target : Nat) (arg : Expr) : Yields p c (checkRecurArg target arg) fun _ _ => True := by
  refine yields_read ?_
  dsimp only
  split
  · exact yields_pure fun _ _ => trivial
  · split
    · exact yields_pure fun _ _ => trivial
    · refine yields_bind (yields_modify (g := (·.modifyBinding target fun b => { b with recurMismatch := true })) ?_) fun _ c₁ _ => ?_
      · exact Context.modifyBinding_mild target (fun _ => rfl) (fun _ => rfl) fun _ h => h
      split
      · exact (calm_warn _ _).yields.mono fun _ _ _ _ => trivial
      · exact yields_pure fun _ _ _ => trivial

/-- A `recur` rebinds the locals of the loop that it ends. -/
theorem fit_recur (hr : Fine good rec) (items : List Form) : Yields p c (recur rec demand items) fun e c' => Fit good c' p demand e := by
  refine yields_tidy fun ht hp => yields_read ?_
  split
  · exact yields_fail _
  · split
    · rename_i targets htargets
      split
      · exact yields_fail _
      · obtain ⟨floor, _, rfl⟩ := hp
        refine yields_knowing (P := fun c' => ∀ t ∈ targets, c'.Owns ⟨c.scope.method, 0, c.scope.inHandler⟩ t) ?_ ?_
        · intro c' hc t h
          exact hc.owns (ht.admits.loop targets htargets t h)
        refine yields_bind (yields_forList fun f _ c => hr .expression f _ c) fun args c₁ _ => ?_
        split
        · exact yields_fail _
        · rename_i hlen
          refine yields_bind (yields_forM (fun (ta : Nat × Expr) c => yields_checkRecurArg ta.1 ta.2) _) fun _ c₂ _ => yields_pure ?_
          intro c' _ _ hargs howns loop top hloop _
          have heq : loop = some targets := by
            rw [← htargets]
            exact hloop rfl (by simp_all [Scope.place]) (by simp_all [Scope.place])
          refine ⟨heq, by simpa using hlen, howns, ?_⟩
          rw [fittedAll_iff]
          intro e he
          obtain ⟨_, _, hf⟩ := hargs.2 e he
          exact hf.fitted Demand.noConfusion none false
    · exact yields_fail _

/-! ## Exceptions -/

theorem fitted_handler (hr : Fine good rec) (clause : CatchClause) : Yields p c (handler rec demand clause) fun h c' =>
    c'.Owns p.room.handling h.2.1 ∧ Fitted good c' p.room.handling none false h.2.2 := by
  refine yields_read ?_
  split
  · exact yields_fail _
  · refine yields_nested (leads_modifyScope (q := { p with room := p.room.handling, methodReturn := false }) ?_ (fun _ h => h) ?_ fun c₁ _ _ => ?_)
    · rintro ⟨floor, hn, rfl⟩
      exact ⟨floor, hn, rfl⟩
    · exact fun ht hp => (admits_at ht hp).handling
    · refine leads_bind (yields_registerLocal _ _ _ _) fun b c₂ _ => leads_bind (fit_body hr _) fun e c₃ _ => ?_
      exact Yields.leads (yields_pure fun c' _ he hb => ⟨hb.1, he none false (fun _ _ h => Bool.noConfusion h) fun _ h => Bool.noConfusion h⟩)

theorem fitted_handlers (hr : Fine good rec) (clauses : List CatchClause) :
    Yields p c (forList (handler rec demand) clauses) fun hs c' => FittedHandlers good c' p.room.handling hs := by
  refine (yields_forList fun clause _ c => fitted_handler hr clause).mono fun hs c' h => ?_
  rw [fittedHandlers_iff]
  intro handler hh
  obtain ⟨_, _, hf⟩ := h.2 handler hh
  exact hf

/-- The body of a `try` may not go back to the start of the loop around it. -/
theorem fitted_tryBody (hr : Fine good rec) (forms : List Form) : Yields p c (nested do
    modifyScope fun s => { s with noRecur := true, methodReturn := false }
    body rec demand forms) fun e c' => Fitted good c' p.room none false e := by
  refine yields_nested (leads_modifyScope (q := { p with noRecur := true, methodReturn := false }) ?_ (fun _ h => h) ?_ fun c₁ _ _ => ?_)
  · rintro ⟨floor, hn, rfl⟩
    exact ⟨floor, hn, rfl⟩
  · intro ht hp
    exact ⟨(admits_at ht hp).method, (admits_at ht hp).loop⟩
  · refine (fit_body hr forms).leads.mono fun e c' he => ?_
    exact he none false (fun _ h => Bool.noConfusion h) fun _ h => Bool.noConfusion h

theorem fitted_cleanup (hr : Fine good rec) (forms : List Form) : Yields p c (nested do
    modifyScope fun s => { s with inHandler := true, methodReturn := false }
    return some (← body rec .statement forms)) fun o c' => FittedOption good c' p.room.handling o := by
  refine yields_nested (leads_modifyScope (q := { p with room := p.room.handling, methodReturn := false }) ?_ (fun _ h => h) ?_ fun c₁ _ _ => ?_)
  · rintro ⟨floor, hn, rfl⟩
    exact ⟨floor, hn, rfl⟩
  · exact fun ht hp => (admits_at ht hp).handling
  · refine leads_bind (fit_body hr forms) fun e _ _ => Yields.leads (yields_pure fun c' _ he => ?_)
    exact he.fitted Demand.noConfusion none false

theorem fit_attempt (hr : Fine good rec) (form : Form) (items : List Form) :
    Yields p c (attempt rec demand form items) fun e c' => Fit good c' p demand e := by
  refine yields_tidy fun _ hp => yields_read ?_
  split
  · exact hr demand _ p c
  · rename_i hplace
    have hreturn : demand = .tail ∧ p.methodReturn = true := by
      obtain ⟨floor, _, rfl⟩ := hp
      simpa [Scope.place] using hplace
    refine yields_ofExcept fun parts _ => yields_reserve fun resultSlot c₁ => yields_reserve fun thrownSlot c₂ => ?_
    refine yields_bind (fitted_tryBody hr parts.body) fun main c₃ _ => yields_bind (fitted_handlers hr parts.catches) fun handlers c₄ _ => ?_
    have hall : ∀ cleanup c', FittedOption good c' (p.room.above (thrownSlot + 1)).handling cleanup →
        FittedHandlers good c' (p.room.above (thrownSlot + 1)).handling handlers → Fitted good c' (p.room.above (thrownSlot + 1)) none false main →
        c'.Holds (p.room.above (resultSlot + 1)) thrownSlot → c'.Holds p.room resultSlot →
        Fit good c' p demand (.attempt main handlers cleanup resultSlot thrownSlot) :=
      fun cleanup c' hcleanup hhandlers hmain hthrown hresult loop top _ htop =>
        ⟨htop hreturn.1 hreturn.2, hresult, hthrown, hmain, hhandlers, hcleanup⟩
    dsimp only
    split
    · exact yields_pure fun c' _ => hall none c' trivial
    · exact yields_bind (fitted_cleanup hr _) fun cleanup _ _ => yields_pure fun c' _ => hall cleanup c'

/-! ## Choosing by constants -/

theorem fit_caseDefault (hr : Fine good rec) (otherwise : Option Form) (temp : Symbol) :
    Yields p c (caseDefault rec demand otherwise temp) fun e c' => Fit good c' p demand e := by
  unfold caseDefault
  split <;> exact hr demand _ p c

section

variable {α : Type}

theorem insertSorted_perm (e : Int32 × α) (es : List (Int32 × α)) : (insertSorted e es).Perm (e :: es) := by
  induction es with
  | nil => exact .refl _
  | cons f rest ih =>
    rw [insertSorted]
    split
    · exact .refl _
    · exact (ih.cons f).trans (.swap e f rest)

theorem sortByKey_concat (es : List (Int32 × α)) (e : Int32 × α) : sortByKey (es ++ [e]) = insertSorted e (sortByKey es) := by
  rw [sortByKey, List.foldl_append]
  rfl

theorem sortByKey_perm (es : List (Int32 × α)) : (sortByKey es).Perm es := by
  induction es using List.reverseRecOn with
  | nil => exact .refl _
  | append_singleton es e ih =>
    rw [sortByKey_concat]
    exact (insertSorted_perm e _).trans ((ih.cons e).trans (List.perm_append_singleton e es).symm)

theorem mem_sortByKey {x : Int32 × α} {es : List (Int32 × α)} : x ∈ sortByKey es ↔ x ∈ es := (sortByKey_perm es).mem_iff

end

/-- Every arm of the choice is at the place of the choice. -/
theorem fit_caseTable (hr : Fine good rec) (value : Expr) (temp : Nat) (plan : CasePlan) (line : Nat) (groups : List (Int32 × List CaseConstant))
    (keyOf : Int32 → Int32) (arms : CaseConstant → Form) (otherwise : Option Form) (name : Symbol) : Yields p c (do
      let branch ← addPath .branch (← scope).clearPath
      let buckets ← forList (fun group => do
        let entries ← forList (fun constant => do return (constant.test, ← arm branch (rec demand (arms constant)))) group.2
        return (keyOf group.1, entries)) groups
      let otherwise ← arm branch (caseDefault rec demand otherwise name)
      return .case value temp plan (sortByKey buckets) otherwise line) fun e c' =>
        c'.Owns p.room temp ∧ temp < c'.bindings.size → Fit good c' p demand.operand value → Fit good c' p demand e := by
  refine yields_read (yields_calm (calm_addPath _ _) fun branch c₁ _ => ?_)
  refine yields_bind (yields_forList (Q := fun _ b c' => ∀ e ∈ b.2, Fit good c' p demand e.2) fun group _ c => ?_) fun buckets c₂ _ => ?_
  · refine yields_bind (yields_forList (Q := fun _ e c' => Fit good c' p demand e.2) fun constant _ c => ?_) fun entries _ _ => ?_
    · exact yields_bind (yields_arm fun c => hr demand _ p c) fun e _ _ => yields_pure fun _ _ he => he
    · refine yields_pure fun c' _ h e he => ?_
      obtain ⟨_, _, hf⟩ := h.2 e he
      exact hf
  · refine yields_bind (yields_arm fun c => fit_caseDefault hr otherwise name) fun e _ _ => yields_pure ?_
    intro c' _ he hbuckets htemp hvalue loop top hl ht
    refine ⟨hvalue.fitted (operand_ne_tail demand) none false, htemp.1, (fittedBuckets_iff _).2 fun b hb entry hentry => ?_, he loop top hl ht⟩
    obtain ⟨_, _, hf⟩ := hbuckets.2 b (mem_sortByKey.1 hb)
    exact hf entry hentry loop top hl ht

theorem fit_case (hr : Fine good rec) (form : Form) (items : List Form) :
    Yields p c (case rec demand form items) fun e c' => Fit good c' p demand e := by
  unfold case
  split
  · exact hr demand _ p c
  · split
    · refine yields_read (yields_ofExcept fun constants _ => yields_nested ?_)
      refine leads_bind (hr demand.operand _ p c) fun value c₁ _ => leads_calm (calm_changeWorld _) fun n c₂ _ => ?_
      refine leads_bind (yields_registerLocal _ _ _ _) fun temp c₃ _ => Yields.leads ?_
      split
      · refine yields_bind (fit_caseDefault hr _ _) fun e c₄ _ => yields_pure fun c' _ he _ hv loop top hl ht => ?_
        exact ⟨hv.fitted (operand_ne_tail demand) none false, he loop top hl ht⟩
      · dsimp only
        split
        · exact yields_read (yields_calm (calm_warn _ _) fun _ c₄ _ => fit_caseTable hr value temp _ _ _ _ _ _ _)
        · exact fit_caseTable hr value temp _ _ _ _ _ _ _
    · exact yields_fail _

end LispMachine.Analyze
