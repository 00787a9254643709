import LispMachine.Proofs.Analyze.Rooted
import LispMachine.Proofs.Expr.Direct
/-!
# Forms that are evaluated directly

A form is analyzed for direct evaluation just where there is no method around it (`Demand.Suits`).  Then every special form that
direct evaluation cannot do puts itself into a function that is called at once, and every other form passes the demand on to its
parts.  So the expression is a direct one; and inside of a method, where it need not be, the context stays rooted, which is why a
function that is made outside of all methods captures nothing.  There is a lemma for every special form.
-/
namespace LispMachine

/-- Forms are evaluated directly where there is no method, and only there. -/
def Demand.Suits (demand : Demand) (m : Option Nat) : Prop := demand = .eval ↔ m = none

namespace Demand

variable {demand : Demand} {m : Option Nat}

theorem operand_eq_eval (demand : Demand) : demand.operand = .eval ↔ demand = .eval := by cases demand <;> decide

theorem leading_eq_eval (demand : Demand) : demand.leading = .eval ↔ demand = .eval := by cases demand <;> decide

theorem Suits.operand (h : demand.Suits m) : demand.operand.Suits m := demand.operand_eq_eval.trans h

theorem Suits.leading (h : demand.Suits m) : demand.leading.Suits m := demand.leading_eq_eval.trans h

theorem suits_inside {k : Nat} (h : demand ≠ .eval) : demand.Suits (some k) := ⟨fun he => absurd he h, fun hm => by cases hm⟩

/-- A form that is not evaluated directly is in a method. -/
theorem Suits.inside (h : demand.Suits m) (hd : demand ≠ .eval) : ∃ k, m = some k := Option.ne_none_iff_exists'.1 fun hm => hd (h.2 hm)

end Demand

namespace Analyze

open LispMachine.Expr Analysis

variable {first : Nat} {home : Homes} {c : Context} {m : Option Nat} {k : Nat} {rec : Analyzer} {demand : Demand}

/-- The context stays rooted, and outside of all methods the expression is direct. -/
abbrev Directs (first : Nat) (home : Homes) (c : Context) (m : Option Nat) (x : Analysis Expr) : Prop :=
  Roots first home c m x fun e => m = none → e.Direct

/-- Every form is analyzed in this way. -/
def Directing (first : Nat) (rec : Analyzer) : Prop := ∀ {home : Homes} {c : Context} {m : Option Nat} {demand : Demand},
  demand.Suits m → ∀ f, Directs first home c m (rec demand f)

/-- In a method nothing is said of the expression. -/
theorem directs_inside {x : Analysis Expr} (h : Roots first home c (some k) x fun _ => True) : Directs first home c (some k) x :=
  h.mono fun _ _ hm => by cases hm

theorem directs_leaf {e : Expr} (he : e.evaluable = true) (hp : e.parts = []) : Directs first home c m (Pure.pure e) :=
  roots_pure fun _ => direct_leaf he hp

/-! ## Sequences -/

theorem directs_operands (hr : Directing first rec) (hs : demand.Suits m) (forms : List Form) :
    Roots first home c m (operands rec demand forms) fun es => m = none → ∀ e ∈ es, e.Direct :=
  (roots_forList fun f _ _ _ _ => hr hs.operand f).mono fun _ h hm e he => h e he hm

theorem directs_body (hr : Directing first rec) (hs : demand.Suits m) (forms : List Form) :
    Directs first home c m (body rec demand forms) := by
  unfold body
  split
  · exact directs_leaf rfl rfl
  · refine roots_bind (roots_forList fun f _ _ _ _ => hr hs.leading f) fun leading _ _ hleading => ?_
    refine roots_bind (hr hs _) fun result _ _ hresult => roots_pure fun hm => ?_
    split
    · exact hresult hm
    · exact direct_seq (List.forall_mem_append.2 ⟨fun e he => hleading e he hm, List.forall_mem_singleton.2 (hresult hm)⟩)

/-! ## Symbols and quotation -/

/-- Outside of all methods no symbol is a local. -/
theorem directs_symbol (s : Symbol) (info : Option Form.Info) : Directs first home c m (symbol s info) := by
  refine roots_here fun hc hm => roots_read ?_
  split
  · rename_i b hb
    have hx : c.Around first m b := hm ▸ hc.lookup hb
    refine roots_bind (roots_referenceLocal (fun _ _ => hx) _) fun r _ _ _ => roots_pure fun hnone => ?_
    exact absurd (hnone ▸ hx) Context.not_around_none
  · refine roots_read ?_
    split
    · split
      · exact directs_leaf rfl rfl
      · exact roots_fail _
    · split
      · split
        · exact roots_fail _
        · exact directs_leaf rfl rfl
      · split
        · exact directs_leaf rfl rfl
        · exact roots_fail _

theorem directs_quote (items : List Form) : Directs first home c m (quote items) := by
  unfold quote
  split
  any_goals exact directs_leaf rfl rfl
  exact roots_fail _

theorem directs_theVar (items : List Form) : Directs first home c m (theVar items) := by
  unfold theVar
  split
  · refine roots_read ?_
    split
    · exact directs_leaf rfl rfl
    · exact roots_fail _
  · exact roots_fail _

/-! ## Definitions, conditions and assignments -/

theorem directs_define (hr : Directing first rec) (hs : demand.Suits m) (items : List Form) :
    Directs first home c m (define rec demand items) := by
  unfold define
  refine roots_ofExcept fun ⟨doc, init⟩ _ => ?_
  dsimp only
  split
  · refine roots_read ?_
    split
    · exact roots_fail _
    · refine roots_aside (aside_changeWorld _) fun id c₁ _ => roots_aside (aside_changeWorld _) fun _ c₂ _ => ?_
      cases init with
      | none => exact roots_if (aside_warn _ _) fun c₃ => roots_read (directs_leaf rfl rfl)
      | some f =>
        refine roots_if (aside_warn _ _) fun c₃ => roots_bind (hr hs.operand f) fun e _ _ he => roots_read (roots_pure fun hm => ?_)
        exact direct_one rfl rfl (he hm)
  · exact roots_fail _

theorem directs_cond (hr : Directing first rec) (hs : demand.Suits m) (items : List Form) :
    Directs first home c m (cond rec demand items) := by
  unfold cond
  split
  · exact roots_fail _
  · split
    · refine roots_read (roots_bind (hr hs.operand _) fun test _ _ htest => roots_read ?_)
      refine roots_aside (aside_addPath _ _) fun branch _ _ => roots_bind (roots_arm fun c => hr hs _) fun yes _ _ hyes => ?_
      exact roots_bind (roots_arm fun c => hr hs _) fun no _ _ hno => roots_pure fun hm => direct_cond (htest hm) (hyes hm) (hno hm)
    · exact roots_fail _

/-- A field is a local of a method around. -/
theorem directs_assignableField {x : Nat} (hx : c.Rooted first home → c.scope.method = m → c.Around first m x) :
    Roots first home c m (assignableField x) fun _ => m ≠ none := by
  refine roots_here fun hc hm => roots_read ?_
  dsimp only
  split
  · refine roots_bind (roots_closeOver hx) fun _ _ _ _ => roots_pure fun hnone => ?_
    exact absurd (hnone ▸ hx hc hm) Context.not_around_none
  · exact roots_fail _

theorem directs_assign (hr : Directing first rec) (hs : demand.Suits m) (items : List Form) :
    Directs first home c m (assign rec demand items) := by
  have hvalue : ∀ (target : AssignTarget) (value : Form) (home : Homes) (c : Context), (m = none → ∃ v, target = .var v) →
      Directs first home c m (do return .assign target (← rec demand.operand value)) := fun target value home c htarget => by
    refine roots_bind (hr hs.operand value) fun e _ _ he => roots_pure fun hm => ?_
    obtain ⟨v, rfl⟩ := htarget hm
    exact direct_one rfl rfl (he hm)
  unfold assign
  split
  · refine roots_here fun hc hm => roots_read ?_
    split
    · rename_i b hb
      refine roots_bind (directs_assignableField fun hc hm => hm ▸ hc.lookup hb) fun target home₁ c₁ hsome => ?_
      exact hvalue target _ home₁ c₁ fun hnone => absurd hnone hsome
    · refine roots_bind (directs_symbol _ _) fun e home₁ c₁ _ => ?_
      split
      · exact hvalue _ _ home₁ c₁ fun _ => ⟨_, rfl⟩
      · exact roots_fail _
  · exact roots_fail _
  · exact roots_fail _

theorem directs_throw (hr : Directing first rec) (hs : demand.Suits m) (form : Form) (items : List Form) :
    Directs first home c m (throw rec demand form items) := by
  unfold throw
  split
  · split
    · exact hr hs _
    · rename_i hd
      obtain ⟨k, rfl⟩ := hs.inside fun he => hd (beq_iff_eq.2 he)
      exact directs_inside (roots_bind (hr (Demand.suits_inside Demand.noConfusion) _) fun e _ _ _ => roots_pure trivial)
  · exact roots_fail _
  · exact roots_fail _

/-! ## Host members -/

theorem directs_staticMember (hr : Directing first rec) (hs : demand.Suits m) (cls : Class) (name : String) (args : List Form)
    (parenthesized : Bool) (line : Nat) : Directs first home c m (staticMember rec demand cls name args parenthesized line) := by
  unfold staticMember
  refine roots_read ?_
  dsimp only
  split
  · exact directs_leaf rfl rfl
  · refine roots_bind (directs_operands hr hs args) fun es _ _ hes => roots_aside (aside_resolveMember _ _ _ _ _) fun member _ _ => ?_
    exact roots_if (aside_reflects _) fun _ => roots_pure fun hm => direct_inner rfl rfl (hes hm)

theorem directs_instanceField {target : Expr} (ht : m = none → target.Direct) (cls : Option Class) (name fieldName : String)
    (args : List Expr) (line : Nat) : Directs first home c m (instanceField cls target name fieldName args line) := by
  unfold instanceField
  split
  · exact roots_fail _
  · exact roots_if (aside_reflects _) fun _ => roots_pure fun hm => direct_one rfl rfl (ht hm)

theorem directs_instanceMethod {target : Expr} {args : List Expr} (ht : m = none → target.Direct) (ha : m = none → ∀ e ∈ args, e.Direct)
    (cls : Option Class) (name : String) (line : Nat) : Directs first home c m (instanceMethod cls target name args line) := by
  have hcall : ∀ member, m = none → (methodCall target name member args line).Direct := fun member hm =>
    direct_inner rfl rfl (List.forall_mem_cons.2 ⟨ht hm, ha hm⟩)
  unfold instanceMethod
  split
  · split
    · exact roots_pure (hcall _)
    · refine roots_aside (aside_resolveMember _ _ _ _ _) fun member _ _ => ?_
      exact roots_if (aside_reflects _) fun _ => roots_pure (hcall _)
  · exact roots_aside (aside_reflects _) fun _ _ _ => roots_pure (hcall _)

theorem directs_instanceMember (hr : Directing first rec) (hs : demand.Suits m) (target : Form) (name : String) (args : List Form)
    (parenthesized : Bool) (line : Nat) : Directs first home c m (instanceMember rec demand target name args parenthesized line) := by
  refine roots_bind (hr hs.operand target) fun e _ _ he => roots_bind (directs_operands hr hs args) fun es _ _ hes => roots_read ?_
  dsimp only
  split
  all_goals
    split
    · exact directs_instanceField he _ _ _ _ _
    · exact directs_instanceMethod he hes _ _ _

/-- A member of a class that the form names, or else of the object that it gives. -/
theorem directs_owner {form : Form} {f : Option Class → Analysis Expr} (hsome : ∀ cls c, Directs first home c m (f (some cls)))
    (hnone : ∀ c, Directs first home c m (f none)) : Directs first home c m (classNamed? form >>= f) := by
  refine roots_aside (aside_classNamed? form) fun found c₁ _ => ?_
  cases found with
  | some cls => exact hsome cls c₁
  | none => exact hnone c₁

theorem directs_dot (hr : Directing first rec) (hs : demand.Suits m) (items : List Form) :
    Directs first home c m (dot rec demand items) := by
  unfold dot
  refine roots_read ?_
  dsimp only
  split
  · exact directs_owner (fun cls _ => directs_staticMember hr hs cls _ _ _ _) fun _ => directs_instanceMember hr hs _ _ _ _ _
  · exact directs_owner (fun cls _ => directs_staticMember hr hs cls _ _ _ _) fun _ => directs_instanceMember hr hs _ _ _ _ _
  · exact roots_fail _
  · exact roots_fail _

theorem directs_new (hr : Directing first rec) (hs : demand.Suits m) (items : List Form) :
    Directs first home c m (new rec demand items) := by
  unfold new
  split
  · refine roots_read ?_
    split
    · exact roots_fail _
    · refine roots_read (roots_bind (directs_operands hr hs _) fun es _ _ hes => ?_)
      split
      · split
        · exact roots_fail _
        · exact roots_pure fun hm => direct_inner rfl rfl (hes hm)
      · refine roots_aside (aside_resolveMember _ _ _ _ _) fun member _ _ => ?_
        exact roots_if (aside_reflects _) fun _ => roots_pure fun hm => direct_inner rfl rfl (hes hm)
  · exact roots_fail _

/-! ## Bindings and loops -/

theorem roots_bindAll (hr : Directing first rec) (bindings : List (Form × Form)) (boxed : List Bool) :
    Roots first home c (some k) (bindAll rec bindings boxed) fun _ => True := by
  induction bindings generalizing boxed home c with
  | nil => exact roots_pure trivial
  | cons b rest ih =>
    unfold bindAll
    refine roots_ofExcept fun name _ => ?_
    obtain ⟨s, info⟩ := name
    refine roots_bind (hr (Demand.suits_inside Demand.noConfusion) b.2) fun e _ c₁ _ => roots_read ?_
    refine roots_if (aside_warn _ _) fun c₂ => roots_bind (roots_registerLocal _ _ _ _) fun id _ _ _ => ?_
    exact roots_bind (ih boxed.tail) fun bs _ _ _ => roots_pure trivial

theorem roots_loopBody (hr : Directing first rec) (locals : List Nat) (forms : List Form) :
    Roots first home c (some k) (loopBody rec demand locals forms) fun _ => True := by
  refine roots_read (roots_aside (aside_addPath _ _) fun root _ _ => roots_aside (aside_addPath _ _) fun clearRoot _ _ => ?_)
  refine roots_aside (aside_addPath _ _) fun clearPath _ _ => roots_nested (roots_modifyScope (fun _ => rfl) fun _ => ?_)
  exact (directs_body hr (Demand.suits_inside Demand.noConfusion) forms).mono fun _ _ => trivial

theorem roots_loopPass (hr : Directing first rec) (bindings : List (Form × Form)) (forms : List Form) (boxed : List Bool) :
    Roots first home c (some k) (loopPass rec demand bindings forms boxed) fun _ => True := by
  refine roots_nested (roots_bind (roots_bindAll hr bindings boxed) fun inits _ _ _ => ?_)
  exact roots_bind (roots_loopBody hr _ forms) fun e _ _ _ => roots_read (roots_pure trivial)

theorem roots_loopPasses (hr : Directing first rec) (bindings : List (Form × Form)) (forms : List Form) (passes : Nat)
    (boxed : List Bool) : Roots first home c (some k) (loopPasses rec demand bindings forms passes boxed) fun _ => True := by
  induction passes generalizing boxed home c with
  | zero => exact roots_cut
  | succ passes ih =>
    refine roots_bind (roots_loopPass hr bindings forms boxed) fun pass _ _ _ => ?_
    obtain ⟨e, next⟩ := pass
    dsimp only
    split
    · exact roots_pure trivial
    · exact ih next

theorem directs_bind (hr : Directing first rec) (hs : demand.Suits m) (form : Form) (items : List Form) (isLoop : Bool) :
    Directs first home c m (bind rec demand form items isLoop) := by
  refine roots_ofExcept fun bindings _ => ?_
  split
  · exact hr hs _
  · rename_i hd
    obtain ⟨k, rfl⟩ := hs.inside fun he => hd (Bool.or_eq_true_iff.2 (.inl (beq_iff_eq.2 he)))
    refine directs_inside ?_
    split
    · exact roots_loopPasses hr bindings _ _ _
    · refine roots_nested (roots_bind (roots_bindAll hr bindings []) fun inits _ _ _ => ?_)
      exact roots_bind (directs_body hr hs _) fun e _ _ _ => roots_pure trivial

theorem directs_bindFns (hr : Directing first rec) (hs : demand.Suits m) (form : Form) (items : List Form) :
    Directs first home c m (bindFns rec demand form items) := by
  refine roots_ofExcept fun bindings _ => ?_
  split
  · exact hr hs _
  · rename_i hd
    obtain ⟨k, rfl⟩ := hs.inside fun he => hd (beq_iff_eq.2 he)
    refine directs_inside (roots_nested (roots_bind (roots_forList (R := fun _ => True) fun b _ _ _ _ => ?_) fun ids _ _ _ => ?_))
    · refine roots_ofExcept fun s _ => roots_bind (roots_registerLocal _ _ _ _) fun id _ _ _ => ?_
      exact roots_bind (roots_modifyBinding id fun _ => rfl) fun _ _ _ _ => roots_pure trivial
    · refine roots_bind (roots_forList (R := fun _ => True) fun b _ _ _ _ => ?_) fun inits _ _ _ => ?_
      · exact roots_bind (hr (Demand.suits_inside Demand.noConfusion) b.2.2) fun e _ _ _ => roots_pure trivial
      · exact roots_bind (directs_body hr hs _) fun e _ _ _ => roots_pure trivial

theorem roots_checkRecurArg (target : Nat) (value : Expr) : Roots first home c m (checkRecurArg target value) fun _ => True := by
  refine roots_read ?_
  dsimp only
  split
  · exact roots_pure trivial
  · split
    · exact roots_pure trivial
    · refine roots_bind (roots_modifyBinding target fun _ => rfl) fun _ _ _ _ => ?_
      split
      · exact (aside_warn _ _).roots
      · exact roots_pure trivial

/-- A `recur` stands in a method. -/
theorem directs_recur (hr : Directing first rec) (hs : demand.Suits m) (items : List Form) :
    Directs first home c m (recur rec demand items) := by
  refine roots_read ?_
  split
  · exact roots_fail _
  · split
    · obtain ⟨k, rfl⟩ := hs.inside Demand.noConfusion
      refine directs_inside ?_
      split
      · exact roots_fail _
      · refine roots_bind (roots_forList fun f _ _ _ _ => hr (Demand.suits_inside Demand.noConfusion) f) fun args _ _ _ => ?_
        split
        · exact roots_fail _
        · refine roots_bind (roots_forM fun (ta : Nat × Expr) _ _ _ => roots_checkRecurArg ta.1 ta.2) fun _ _ _ _ => ?_
          exact roots_pure trivial
    · exact roots_fail _

/-! ## Exceptions -/

theorem roots_handler (hr : Directing first rec) (hd : demand ≠ .eval) (clause : CatchClause) :
    Roots first home c (some k) (handler rec demand clause) fun _ => True := by
  refine roots_read ?_
  split
  · exact roots_fail _
  · refine roots_nested (roots_modifyScope (fun _ => rfl) fun _ => roots_bind (roots_registerLocal _ _ _ _) fun b _ _ _ => ?_)
    exact roots_bind (directs_body hr (Demand.suits_inside hd) _) fun e _ _ _ => roots_pure trivial

theorem directs_attempt (hr : Directing first rec) (hs : demand.Suits m) (form : Form) (items : List Form) :
    Directs first home c m (attempt rec demand form items) := by
  refine roots_read ?_
  split
  · exact hr hs _
  · rename_i hplace
    have hd : demand ≠ .eval := fun he => hplace (by rw [he]; rfl)
    obtain ⟨k, rfl⟩ := hs.inside hd
    refine directs_inside (roots_ofExcept fun parts _ => ?_)
    refine roots_bind roots_allocSlot fun resultSlot _ _ _ => roots_bind roots_allocSlot fun thrownSlot _ _ _ => ?_
    refine roots_bind (roots_nested (roots_modifyScope (fun _ => rfl) fun _ => directs_body hr hs _)) fun main _ _ _ => ?_
    refine roots_bind (roots_forList fun clause _ _ _ _ => roots_handler hr hd clause) fun handlers _ _ _ => ?_
    dsimp only
    split
    · exact roots_pure trivial
    · refine roots_bind (Q := fun _ => True) (roots_nested (roots_modifyScope (fun _ => rfl) fun _ => ?_)) fun cleanup _ _ _ => roots_pure trivial
      exact roots_bind (directs_body hr (Demand.suits_inside Demand.noConfusion) _) fun e _ _ _ => roots_pure trivial

/-! ## Choosing by constants -/

theorem roots_caseDefault (hr : Directing first rec) (hd : demand ≠ .eval) (otherwise : Option Form) (temp : Symbol) :
    Roots first home c (some k) (caseDefault rec demand otherwise temp) fun _ => True := by
  unfold caseDefault
  split <;> exact (hr (Demand.suits_inside hd) _).mono fun _ _ => trivial

theorem directs_case (hr : Directing first rec) (hs : demand.Suits m) (form : Form) (items : List Form) :
    Directs first home c m (case rec demand form items) := by
  unfold case
  split
  · exact hr hs _
  · rename_i hne
    have hd : demand ≠ .eval := fun he => hne (beq_iff_eq.2 he)
    obtain ⟨k, rfl⟩ := hs.inside hd
    refine directs_inside ?_
    split
    · refine roots_read (roots_ofExcept fun constants _ => roots_nested ?_)
      refine roots_bind (hr hs.operand _) fun value _ _ _ => roots_aside (aside_changeWorld _) fun n _ _ => ?_
      refine roots_bind (roots_registerLocal _ _ _ _) fun temp _ _ _ => ?_
      split
      · exact roots_bind (roots_caseDefault hr hd _ _) fun e _ _ _ => roots_pure trivial
      · refine roots_ifRead (fun _ => aside_warn _ _) fun _ => roots_read (roots_aside (aside_addPath _ _) fun branch _ _ => ?_)
        refine roots_bind (roots_forList (R := fun _ => True) fun group _ _ _ _ => ?_) fun buckets _ _ _ => ?_
        · refine roots_bind (roots_forList (R := fun _ => True) fun constant _ _ _ _ => ?_) fun entries _ _ _ => roots_pure trivial
          exact roots_bind (roots_arm fun c => hr hs _) fun e _ _ _ => roots_pure trivial
        · exact roots_bind (roots_arm fun c => roots_caseDefault hr hd _ _) fun e _ _ _ => roots_pure trivial
    · exact roots_fail _

/-! ## Functions -/

/-- The body of a method, whose parameters a `recur` rebinds. -/
theorem roots_methodBody {β : Type} {R : β → Prop} (hr : Directing first rec) (forms : List Form) (params : List Nat)
    {f : Expr → Analysis β} (hf : ∀ e home c, Roots first home c (some k) (f e) R) : Roots first home c (some k) (do
      modifyScope fun s => { s with loopLocals := some params }
      f (← body rec .tail forms)) R :=
  roots_modifyScope (fun _ => rfl) fun _ =>
    roots_bind (directs_body hr (Demand.suits_inside Demand.noConfusion) forms) fun e _ _ _ => hf e _ _

/-- A method of a function that is made here. -/
theorem roots_fnMethod (hr : Directing first rec) {obj : Nat} (hobj : obj < c.objects.size) (hhome : home obj = some m)
    (self : Option Symbol) (params : List Form) (info : Option Form.Info) (forms : List Form) :
    Roots first home c m (fnMethod rec obj self params info forms) fun _ => True := by
  refine roots_here fun _ hm => roots_ofExcept fun hint _ => roots_read ?_
  have hparent : ∀ r, home obj = some r → c.scope.method = r := fun r h => hm.trans (Option.some.inj (hhome.symm.trans h))
  refine roots_addMethod hobj hparent fun frame c₁ _ hyoung hframe hp => roots_inMethod hyoung hframe (hp.trans hm) fun c₂ _ => ?_
  have hrest : ∀ home₃ c₃, Roots first home₃ c₃ (some frame) (do
      let r ← registerParams params false [] none
      Analysis.ofExcept (checkPrims (← Analysis.read id) r.1 r.2 hint.2)
      modifyScope fun s => { s with loopLocals := some (r.1 ++ r.2.toList) }
      let result ← body rec .tail forms
      Analysis.ofExcept (checkReturn hint.2 result.localPrim?)
      return { frame, name := "invoke", params := r.1, rest := r.2, ret := hint.2, body := result, line := c.scope.line : FnMethod })
      fun _ => True := fun home₃ c₃ => by
    refine roots_bind (roots_registerParams _ _ _ _) fun r _ _ _ => roots_read (roots_ofExcept fun _ _ => ?_)
    exact roots_methodBody hr forms _ fun e _ _ => roots_ofExcept fun _ _ => roots_pure trivial
  dsimp only
  split
  · exact roots_bind (roots_registerThis _ none) fun _ _ _ _ => hrest _ _
  · exact hrest _ _

theorem directs_fn (hr : Directing first rec) (items : List Form) : Directs first home c m (fn rec items) := by
  unfold fn
  dsimp only
  refine roots_ofExcept fun bodies _ => roots_read (roots_aside (aside_unitName _) fun name _ _ => ?_)
  refine roots_addObject (some m) _ _ _ fun obj home₁ c₁ hobj hhome => ?_
  refine roots_bind_after (roots_forList (R := fun _ => True) fun b home₂ c₂ hl _ => ?_) fun methods home₂ c₂ hl _ => ?_
  · exact roots_fnMethod hr (Nat.lt_of_lt_of_le hobj hl.objects) ((hl.homes obj hobj).trans hhome) _ b.1 b.2.1 b.2.2
  · refine roots_ofExcept fun _ _ => roots_aside (aside_emitUnit _ _ _) fun unit c₃ _ => ?_
    refine roots_bind (roots_captureRefs ((hl.homes obj hobj).trans hhome)) fun refs _ _ hrefs => roots_pure fun hm => ?_
    exact direct_leaf (List.isEmpty_iff.2 (hrefs hm)) rfl

/-! ## Types -/

/-- A method of an object that is made here, or of a declared type. -/
theorem roots_typeMethod (hr : Directing first rec) {obj : Nat} (hobj : obj < c.objects.size) (hhome : ∀ r, home obj = some r → m = r)
    (tag : Option String) (method : TypeMethod) : Roots first home c m (typeMethod rec obj m tag method) fun _ => True := by
  unfold typeMethod
  split
  · refine roots_read (roots_addMethod hobj hhome fun frame c₁ _ hyoung hframe hp => roots_inMethod hyoung hframe hp fun c₂ _ => ?_)
    refine roots_ofExcept fun this _ => roots_bind (roots_registerThis _ tag) fun _ _ _ _ => ?_
    refine roots_bind (roots_forList (R := fun _ => True) fun f _ _ _ _ => ?_) fun args _ _ _ => ?_
    · exact roots_ofExcept fun _ _ => roots_registerLocal _ _ _ _
    · exact roots_methodBody hr _ _ fun e _ _ => roots_pure trivial
  · exact roots_fail _

theorem roots_typeMethodList (hr : Directing first rec) {obj : Nat} (hobj : obj < c.objects.size)
    (hhome : ∀ r, home obj = some r → m = r) (tag : Option String) (methods : List TypeMethod) :
    Roots first home c m (forList (typeMethod rec obj m tag) methods) fun _ => True := by
  have hlist : Roots first home c m (forList (typeMethod rec obj m tag) methods) fun ms => ∀ _ ∈ ms, True :=
    roots_forList fun method home₁ c₁ hl _ =>
      roots_typeMethod hr (Nat.lt_of_lt_of_le hobj hl.objects) (fun r h => hhome r ((hl.homes obj hobj).symm.trans h)) tag method
  exact hlist.mono fun _ _ => trivial

/-- A declared type sees its fields and nothing from outside. -/
theorem roots_typeMethods (hr : Directing first rec) {obj : Nat} (hobj : obj < c.objects.size) (hnone : home obj = none)
    (name : String) (fields : List FieldDecl) (methods : List TypeMethod) :
    Roots first home c m (typeMethods rec obj name fields methods) fun _ => True := by
  let opened : Scope → Scope := fun s => { method := some c.methods.size, nextSlot := 1, line := s.line, column := s.column }
  have hscope : Context.Later home (c.addMethod obj none).2 home ((c.addMethod obj none).2.modifyScope opened) :=
    Context.later_of_eq (fun _ => rfl) rfl rfl
  have hl := (Context.later_addMethod home c obj none).trans hscope
  have hunlisted : ∀ {home₁ c₁} r, Context.Later home c home₁ c₁ → home₁ obj = some r → False := fun r hl h => by
    rw [hl.homes obj hobj, hnone] at h
    cases h
  have hinner : Roots first home ((c.addMethod obj none).2.modifyScope opened) (some c.methods.size) (do
      registerFields obj fields
      forList (typeMethod rec obj (some c.methods.size) (some name)) methods) fun _ => True := by
    refine roots_bind_after (roots_registerFields (Nat.lt_of_lt_of_le hobj hl.objects) hnone fields) fun _ home₁ c₁ hl₁ _ => ?_
    exact roots_typeMethodList hr (Nat.lt_of_lt_of_le hobj (hl.trans hl₁).objects) (fun r h => (hunlisted r (hl.trans hl₁) h).elim) _ _
  refine roots_nested_at hinner rfl hl (fun hc => ?_) rfl
  exact (hc.addMethod hobj fun r h => (hunlisted r (.refl home c) h).elim).modifyScope fun e he => by cases he

theorem directs_deftype (hr : Directing first rec) (items : List Form) : Directs first home c m (deftype rec items) := by
  unfold deftype
  split
  · split
    · exact roots_fail _
    · split
      · refine roots_ofExcept fun fields _ => roots_aside (aside_typeParts _) fun parts _ _ => roots_aside (aside_checkDeclared _ _) fun _ _ _ => ?_
        refine roots_aside (aside_changeWorld _) fun _ _ _ => roots_addObject none _ _ _ fun obj home₁ c₁ hobj hnone => ?_
        refine roots_bind (roots_typeMethods hr hobj hnone _ _ _) fun methods _ _ _ => roots_aside (aside_emitUnit _ _ _) fun unit _ _ => ?_
        exact roots_aside (aside_load unit) fun _ _ _ => directs_leaf rfl rfl
      · exact roots_fail _
  · exact roots_fail _

theorem directs_reify (hr : Directing first rec) (items : List Form) : Directs first home c m (reify rec items) := by
  unfold reify
  split
  · refine roots_aside (aside_forList (fun f => ?_) _) fun protocols _ _ => roots_aside (aside_forList (fun f => ?_) _) fun methods _ _ => ?_
    · split
      · exact aside_resolveProtocol _
      · exact aside_fail _
    · split
      · exact aside_pure _
      · exact aside_fail _
    refine roots_aside (aside_checkDeclared _ _) fun _ c₁ _ => roots_here fun _ hmethod => roots_read ?_
    refine roots_aside (aside_unitName _) fun name _ _ => roots_addObject (some m) _ _ _ fun obj home₂ c₂ hobj hhome => ?_
    rw [hmethod]
    refine roots_bind_after (roots_typeMethodList hr hobj (fun r h => Option.some.inj (hhome.symm.trans h)) _ _) fun methods home₃ c₃ hl _ => ?_
    refine roots_aside (aside_emitUnit _ _ _) fun unit _ _ => roots_aside (aside_changeWorld _) fun _ _ _ => ?_
    refine roots_aside (aside_load unit) fun _ _ _ => roots_bind (roots_captureRefs ((hl.homes obj hobj).trans hhome)) fun refs _ _ hrefs => ?_
    exact roots_pure fun hm => direct_leaf (List.isEmpty_iff.2 (hrefs hm)) rfl
  · exact roots_fail _

/-! ## Calls -/

theorem roots_varCall? (hr : Directing first rec) (hs : demand.Suits m) (s : Symbol) (args : List Form) (line : Nat) :
    Roots first home c m (varCall? rec demand s args line) fun o => m = none → ∀ e ∈ o, e.Direct := by
  refine roots_read ?_
  split
  · exact roots_pure fun _ e he => by cases he
  · dsimp only
    split
    · exact roots_bind (hr hs _) fun e _ _ he => roots_pure fun hm e' he' => by cases he'; exact he hm
    · split
      · refine roots_bind (directs_operands hr hs args) fun es _ _ hes => roots_pure fun hm e he => ?_
        cases he
        exact direct_inner rfl rfl (hes hm)
      · exact roots_pure fun _ e he => by cases he

theorem roots_instanceTest? (hr : Directing first rec) (hs : demand.Suits m) (s : Symbol) (args : List Form) :
    Roots first home c m (instanceTest? rec demand s args) fun o => m = none → ∀ e ∈ o, e.Direct := by
  unfold instanceTest?
  split
  · refine roots_read (roots_read ?_)
    split
    · refine roots_bind (hr hs.operand _) fun e _ _ he => roots_pure fun hm e' he' => ?_
      cases he'
      exact direct_one rfl rfl (he hm)
    · exact roots_pure fun _ e he => by cases he
  · exact roots_pure fun _ e he => by cases he

theorem roots_namedCall? (hr : Directing first rec) (hs : demand.Suits m) (s : Symbol) (args : List Form) (line : Nat) :
    Roots first home c m (namedCall? rec demand s args line) fun o => m = none → ∀ e ∈ o, e.Direct := by
  refine roots_read ?_
  split
  · exact roots_pure fun _ e he => by cases he
  · refine roots_bind (roots_varCall? hr hs s args line) fun o _ _ ho => ?_
    split
    · exact roots_pure ho
    · exact roots_instanceTest? hr hs s args

theorem directs_plainCall (hr : Directing first rec) (hs : demand.Suits m) (head : Form) (args : List Form) (line : Nat) :
    Directs first home c m (plainCall rec demand head args line) := by
  unfold plainCall
  split
  · exact roots_bind (hr hs.operand _) fun e _ _ he => roots_pure fun hm => direct_one rfl rfl (he hm)
  · refine roots_bind (hr hs.operand head) fun f _ _ hf => roots_bind (directs_operands hr hs args) fun es _ _ hes => roots_read ?_
    exact roots_pure fun hm => direct_inner rfl rfl (List.forall_mem_cons.2 ⟨hf hm, hes hm⟩)

theorem directs_invoke (hr : Directing first rec) (hs : demand.Suits m) (head : Form) (args : List Form) :
    Directs first home c m (invoke rec demand head args) := by
  refine roots_read ?_
  dsimp only
  split
  · refine roots_bind (roots_namedCall? hr hs _ args _) fun o _ _ ho => ?_
    split
    · exact roots_pure fun hm => ho hm _ rfl
    · exact directs_plainCall hr hs _ args _
  · exact directs_plainCall hr hs _ args _

/-! ## All forms -/

theorem directs_special (hr : Directing first rec) (hs : demand.Suits m) (name : SpecialForm) (f : Form) (items : List Form) :
    Directs first home c m (special rec demand name f items) := by
  cases name with
  | define => exact directs_define hr hs items
  | cond => exact directs_cond hr hs items
  | seq => exact directs_body hr hs items.tail
  | bind => exact directs_bind hr hs f items false
  | loop => exact directs_bind hr hs f items true
  | recur => exact directs_recur hr hs items
  | fn => exact directs_fn hr items
  | quote => exact directs_quote items
  | var => exact directs_theVar items
  | assign => exact directs_assign hr hs items
  | attempt => exact directs_attempt hr hs f items
  | throw => exact directs_throw hr hs f items
  | case => exact directs_case hr hs f items
  | dot => exact directs_dot hr hs items
  | new => exact directs_new hr hs items
  | bindFns => exact directs_bindFns hr hs f items
  | deftype => exact directs_deftype hr items
  | reify => exact directs_reify hr items
  | handler => exact roots_fail _
  | cleanup => exact roots_fail _
  | ampersand => exact roots_fail _

theorem directs_list (hr : Directing first rec) (hs : demand.Suits m) (f head : Form) (args : List Form) :
    Directs first home c m (list rec demand f head args) := by
  refine roots_aside (aside_once f) fun o _ _ => ?_
  split
  · exact hr hs _
  · split
    · exact directs_special hr hs _ f (head :: args)
    · exact directs_invoke hr hs head args

theorem directs_vector (hr : Directing first rec) (hs : demand.Suits m) (f : Form) (items : List Form) :
    Directs first home c m (vector rec demand f items) := by
  refine roots_bind (directs_operands hr hs items) fun es _ _ hes => roots_pure fun hm => ?_
  split
  · exact direct_leaf rfl rfl
  · exact direct_inner rfl rfl (hes hm)

theorem directs_set (hr : Directing first rec) (hs : demand.Suits m) (f : Form) (items : List Form) :
    Directs first home c m (set rec demand f items) := by
  refine roots_aside (aside_checkKeys items) fun _ _ _ => roots_bind (directs_operands hr hs items) fun es _ _ hes => roots_pure fun hm => ?_
  split
  · exact direct_leaf rfl rfl
  · exact direct_inner rfl rfl (hes hm)

theorem directs_map (hr : Directing first rec) (hs : demand.Suits m) (f : Form) (pairs : List (Form × Form)) :
    Directs first home c m (map rec demand f pairs) := by
  refine roots_aside (aside_checkKeys _) fun _ _ _ => ?_
  refine roots_bind (roots_forList (R := fun e => m = none → e.1.Direct ∧ e.2.Direct) fun kv _ _ _ _ => ?_) fun es _ _ hes => ?_
  · refine roots_bind (hr hs.operand kv.1) fun k _ _ hk => roots_bind (hr hs.operand kv.2) fun v _ _ hv => ?_
    exact roots_pure fun hm => ⟨hk hm, hv hm⟩
  · refine roots_pure fun hm => ?_
    split
    · exact direct_leaf rfl rfl
    · refine direct_inner rfl rfl fun e he => ?_
      obtain ⟨kv, hkv, he⟩ := List.mem_flatMap.1 he
      obtain ⟨hk, hv⟩ := hes kv hkv hm
      exact List.forall_mem_cons.2 ⟨hk, List.forall_mem_singleton.2 hv⟩ e he

theorem directing_formWith (hr : Directing first rec) : Directing first (formWith rec) := by
  intro home c m demand hs f
  unfold formWith
  split
  any_goals exact directs_leaf rfl rfl
  · exact directs_symbol _ _
  · exact roots_nested (roots_moveTo _ fun _ => roots_located (directs_list hr hs _ _ _))
  · exact directs_vector hr hs _ _
  · exact directs_map hr hs _ _
  · exact directs_set hr hs _ _

/-- **A form that is analyzed for direct evaluation outside of all methods gives a direct expression.** -/
theorem directing_formWithin (first n : Nat) : Directing first (formWithin n) := by
  induction n with
  | zero => exact fun _ _ => roots_cut
  | succ n ih => exact directing_formWith ih

/-- Whatever the tables hold when no local is visible and there is no method: what is analyzed for direct evaluation can be
evaluated.  The expression has no local, `let`, `letfn`, `recur`, `throw`, `try` or `case`, no function or anonymous type with
captures, and no assignment to a field, at any depth outside of its units; so evaluating it, in any context, never ends for the
reason that it should have been compiled, or that a field is assigned. -/
theorem direct_formWithin (n : Nat) (f : Form) (c c' : Context) (e : Expr) (henv : c.scope.env = []) (hm : c.scope.method = none)
    (h : formWithin n .eval f c = (.ok e, c')) :
    e.Direct ∧ ∀ d err d', e.eval d = (.error err, d') → err.fault ≠ .notEvaluable ∧ err.fault ≠ .fieldAssignmentInEval := by
  have hrooted : c.Rooted c.methods.size fun _ => none := by
    refine ⟨Nat.le_refl _, fun e he => ?_, fun m hle hlt => absurd hlt (Nat.not_lt_of_le hle), fun o r hr => by cases hr⟩
    rw [henv] at he
    cases he
  obtain ⟨_, _, _, _, hdirect⟩ := directing_formWithin c.methods.size n (Iff.intro (fun _ => rfl) fun _ => rfl) f hrooted hm e c' h
  refine ⟨hdirect rfl, fun d err d' herr => ?_⟩
  have hfault := able_eval e (hdirect rfl) d err d' herr
  constructor
  · rintro hf
    rw [hf] at hfault
    cases hfault
  · rintro hf
    rw [hf] at hfault
    cases hfault

/-- `[(let* [a 1] a) (if nil (throw nil) (try 2)) (fn* [b] (fn* [] b))]`. -/
def wrappedForm : Form :=
  let a := Form.sym "a"
  let b := Form.sym "b"
  .ofVector [.ofItems [Form.sym "let*", .ofVector [a, .long 1], a],
    .ofItems [Form.sym "if", .nil, .ofItems [Form.sym "throw", .nil], .ofItems [Form.sym "try", .long 2]],
    .ofItems [Form.sym "fn*", .ofVector [b], .ofItems [Form.sym "fn*", .ofVector [], b]]]

/-- The context of a form that stands alone. -/
def loneContext : Context := { options := {}, world := .initial }

theorem direct_formWithin_wrapped :
    loneContext.scope.env = [] ∧ loneContext.scope.method = none ∧
    ∃ e c', formWithin 12 .eval wrappedForm loneContext = (.ok e, c') ∧ e.Direct ∧
      ∀ d err d', e.eval d = (.error err, d') → err.fault ≠ .notEvaluable ∧ err.fault ≠ .fieldAssignmentInEval := by
  have hok : (formWithin 12 .eval wrappedForm loneContext).1.isOk = true := by decide +kernel
  obtain ⟨e, c', he⟩ := Result.exists_of_isOk_fst hok
  exact ⟨rfl, rfl, e, c', he, direct_formWithin 12 wrappedForm loneContext c' e rfl rfl he⟩

end Analyze

end LispMachine
