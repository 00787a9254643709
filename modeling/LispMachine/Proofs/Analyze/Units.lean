import LispMachine.Proofs.Analyze.Fits
/-!
# The units that analysis makes

The methods of a function or type are analyzed in frames of their own, so a method starts with a place of
its own (`Place.start`).  Its body is fitted for that place, and therefore the checker accepts the unit.
With that, all forms are covered: `fine_form`.
-/
namespace LispMachine

/-- The place of the body of a method. -/
def Place.start (frame : Nat) : Place := ⟨⟨some frame, 0, false⟩, none, false, true⟩

namespace Analyze

open LispMachine.Expr Analysis

variable {good : CompiledUnit → Prop} {rec : Analyzer} {demand : Demand} {p : Place} {c : Context}

section

variable {α β : Type} {x : Analysis α} {Q : α → Context → Prop} {R : β → Context → Prop}

/-- The method has a place of its own. -/
theorem yields_inMethod {frame : Nat} (hframe : frame < c.methods.size) (hx : ∀ c₁, Leads (.start frame) c₁ x Q) :
    Yields p c (inMethod frame x) Q := by
  have hin : ∀ root c₁, c.Grows c₁ → Yields p c₁ (nested do
      modifyScope fun s => {
        method := some frame, nextSlot := 1, clearPath := some root, clearRoot := some root
        methodReturn := true, env := s.env, line := s.line, column := s.column }
      x) Q := by
    intro root c₁ hc
    refine yields_nested (leads_modifyScope (fun _ => ⟨0, Nat.zero_le _, rfl⟩) (fun _ h => h) (fun _ _ => ⟨fun m hm => ?_, fun ts hts => ?_⟩) fun c₂ _ _ => hx c₂)
    · cases hm
      exact Nat.lt_of_lt_of_le hframe hc.methods
    · cases hts
  unfold inMethod
  refine yields_read ?_
  dsimp only
  split
  · exact hin _ c (.refl c)
  · exact yields_calm_after (calm_addPath _ _) fun root c₁ hc _ => hin root c₁ hc

/-- The unit of fitted methods is as units are. -/
theorem yields_emitUnit (hgood : Emit.Sustained good) {obj : Nat} {kind : UnitKind} {methods : List FnMethod}
    {f : CompiledUnit → Analysis β} (hm : ∀ m ∈ methods, m.Fitted good c)
    (hf : ∀ u, good u → u.closed.length = (c.object obj).closes.length → Yields p c (f u) R) :
    Yields p c (emitUnit obj kind methods >>= f) R := by
  intro ht hp b c' h
  obtain ⟨u, c₁, h₁, h₂⟩ := bind_eq_ok h
  change ofExcept (Emit.unit c obj kind methods) c = _ at h₁
  cases hu : Emit.unit c obj kind methods with
  | error e =>
    rw [hu] at h₁
    cases h₁
  | ok u' =>
    rw [hu] at h₁
    cases h₁
    have hclosed := (Emit.sound_unit ht.orderly.roomy hm hu).2.2
    exact hf u (hgood c obj kind methods u ht.orderly.roomy hm hu) hclosed ht hp b c' h₂

end

/-- As many uses as the object captures. -/
theorem yields_captureRefs (obj : Nat) : Yields p c (captureRefs obj) fun refs c' =>
    refs.length = (c.object obj).closes.length ∧ ∀ r ∈ refs, c'.Lasts p.room r.binding := by
  refine yields_tidy fun ht _ => yields_read ?_
  refine (yields_forList_after fun b hb c₁ hc => yields_referenceLocal ?_ none).mono fun refs c' h => ⟨h.1, fun r hr => ?_⟩
  · exact Nat.lt_of_lt_of_le (ht.orderly.closes obj b hb) hc.size
  · obtain ⟨_, _, hl⟩ := h.2 r hr
    exact hl

theorem calm_addObject (name : String) (kind : ObjectKind) (once : Bool) : Calm (change (·.addObject name kind once)) fun _ => True :=
  calm_change fun _ => ⟨Context.addObject_mild name kind once, fun _ => rfl⟩

/-! ## Functions -/

theorem owned_registerParams (params : List Form) (variadic : Bool) (fixed : List Nat) (rest : Option Nat) :
    Yields p c (registerParams params variadic fixed rest) fun r c' =>
      (∀ b ∈ fixed ++ rest.toList, c'.Owns p.room b) → ∀ b ∈ r.1 ++ r.2.toList, c'.Owns p.room b := by
  induction params generalizing variadic fixed rest c with
  | nil =>
    unfold registerParams
    split
    · exact yields_fail _
    · exact yields_pure fun _ _ h => h
  | cons f params ih =>
    cases f with
    | symbol s info =>
      unfold registerParams
      split
      · split
        · exact yields_fail _
        · exact ih true fixed rest
      · split
        · exact yields_fail _
        · refine yields_ofExcept fun hint _ => ?_
          dsimp only
          split
          · split
            · exact yields_fail _
            · split
              · exact yields_fail _
              · rename_i hnone _
                refine yields_bind (yields_registerLocal _ _ _ _) fun b c₁ _ => (ih variadic fixed (some b)).mono fun r c' h hb hold => h ?_
                intro b' hb'
                rcases List.mem_append.1 hb' with hb' | hb'
                · exact hold b' (List.mem_append_left _ hb')
                · cases List.mem_singleton.1 hb'
                  exact hb.1
          · refine yields_bind (yields_registerLocal _ _ _ _) fun b c₁ _ => (ih variadic (fixed ++ [b]) rest).mono fun r c' h hb hold => h ?_
            intro b' hb'
            rw [List.append_assoc, List.mem_append, List.mem_append, List.mem_singleton] at hb'
            rcases hb' with hb' | rfl | hb'
            · exact hold b' (List.mem_append_left _ hb')
            · exact hb.1
            · exact hold b' (List.mem_append_right _ hb')
    | _ => exact yields_fail _

/-- The body of a method, whose parameters a `recur` rebinds. -/
theorem leads_methodBody {β : Type} {R : β → Context → Prop} (hr : Fine good rec) {frame : Nat} (forms : List Form) {params : List Nat}
    {f : Expr → Analysis β} (hparams : ∀ b ∈ params, c.Owns ⟨some frame, 0, false⟩ b)
    (hf : ∀ e p c, Yields p c (f e) fun b c' => (∃ loop, Fitted good c' ⟨some frame, 0, false⟩ loop true e) → R b c') :
    Leads (.start frame) c (do
      modifyScope fun s => { s with loopLocals := some params }
      f (← body rec .tail forms)) R := by
  refine leads_modifyScope (q := { Place.start frame with loopLocals := some params }) (fun hp => ?_) (fun _ h => h) (fun ht hp => ?_) fun c₁ _ _ => ?_
  · obtain ⟨floor, hn, hp⟩ := hp
    exact ⟨floor, hn, congrArg (fun q : Place => { q with loopLocals := some params }) hp⟩
  · refine ⟨(admits_at ht hp).method, fun ts hts => ?_⟩
    cases hts
    exact hparams
  · refine leads_bind (fit_body hr forms) fun e c₂ _ => (hf e _ c₂).leads.mono fun b c' h he => h ?_
    exact ⟨some params, he (some params) true (fun _ _ _ => rfl) fun _ _ => rfl⟩

theorem fitted_fnMethod (hr : Fine good rec) (obj : Nat) (self : Option Symbol) (params : List Form) (info : Option Form.Info)
    (forms : List Form) : Yields p c (fnMethod rec obj self params info forms) fun m c' => m.Fitted good c' := by
  refine yields_ofExcept fun hint _ => yields_read (yields_bind (yields_addMethod _ _) fun frame c₁ hframe => ?_)
  refine (yields_inMethod (Q := fun m c' => m.Fitted good c') (hframe c₁ (.refl c₁)) fun c₂ => ?_).mono fun _ _ h _ => h
  have hparams : ∀ {f : List Nat × Option Nat → Analysis FnMethod}, (∀ r c₃, (∀ b ∈ r.1 ++ r.2.toList, c₃.Owns ⟨some frame, 0, false⟩ b) →
      Leads (.start frame) c₃ (f r) fun m c' => m.Fitted good c') → ∀ c₃,
      Leads (.start frame) c₃ (registerParams params false [] none >>= f) fun m c' => m.Fitted good c' := by
    intro f hf c₃
    refine leads_bind (owned_registerParams params false [] none) fun r c₄ howned => ?_
    exact (hf r c₄ (howned c₄ (.refl c₄) fun b hb => by cases hb)).mono fun _ _ h _ => h
  dsimp only
  split
  · refine leads_bind (yields_registerThis _ none) fun _ c₃ _ => (hparams (fun r c₄ howned => ?_) c₃).mono fun _ _ h _ => h
    exact leads_read (leads_ofExcept fun _ _ => leads_methodBody hr forms howned fun e p c => yields_ofExcept fun _ _ => yields_pure fun _ _ h => h)
  · refine hparams (fun r c₄ howned => ?_) c₂
    exact leads_read (leads_ofExcept fun _ _ => leads_methodBody hr forms howned fun e p c => yields_ofExcept fun _ _ => yields_pure fun _ _ h => h)

theorem fit_fn (hgood : Emit.Sustained good) (hr : Fine good rec) (items : List Form) : Yields p c (fn rec items) fun e c' => Fit good c' p demand e := by
  unfold fn
  dsimp only
  refine yields_ofExcept fun bodies _ => yields_read (yields_calm (aside_unitName _).calm fun name _ _ => yields_calm (calm_addObject _ _ _) fun obj _ _ => ?_)
  refine yields_bind (yields_forList fun b _ c => fitted_fnMethod hr obj _ b.1 b.2.1 b.2.2) fun methods c₁ hmethods => yields_ofExcept fun _ _ => ?_
  have hm : ∀ m ∈ methods, m.Fitted good c₁ := by
    intro m hm
    obtain ⟨_, _, hf⟩ := (hmethods c₁ (.refl c₁)).2 m hm
    exact hf
  refine yields_emitUnit hgood hm fun unit hunit hclosed => ?_
  refine yields_bind (yields_captureRefs obj) fun refs _ _ => yields_pure fun c' _ hrefs _ loop top _ _ => ⟨?_, hunit, hrefs.2⟩
  rw [hrefs.1, hclosed]

/-! ## Types -/

theorem fitted_typeMethod (hr : Fine good rec) (obj : Nat) (parent : Option Nat) (tag : Option String) (m : TypeMethod) :
    Yields p c (typeMethod rec obj parent tag m) fun m c' => m.Fitted good c' := by
  unfold typeMethod
  split
  · refine yields_read (yields_bind (yields_addMethod _ _) fun frame c₁ hframe => ?_)
    refine (yields_inMethod (Q := fun m c' => m.Fitted good c') (hframe c₁ (.refl c₁)) fun c₂ => ?_).mono fun _ _ h _ => h
    refine leads_ofExcept fun this _ => leads_bind (yields_registerThis _ tag) fun _ c₃ _ => ?_
    refine leads_bind (yields_forList (Q := fun _ b c' => c'.Owns ⟨some frame, 0, false⟩ b) fun f _ c => ?_) fun args c₄ hargs => ?_
    · exact yields_ofExcept fun _ _ => (yields_registerLocal _ _ _ _).mono fun _ _ h => h.1
    · refine (leads_methodBody hr _ (fun b hb => ?_) fun e p c => yields_pure fun _ _ h => h).mono fun m c' h _ _ => h
      obtain ⟨_, _, ho⟩ := (hargs c₄ (.refl c₄)).2 b hb
      exact ho
  · exact yields_fail _

theorem yields_registerFields (obj : Nat) (fields : List FieldDecl) : Yields p c (registerFields obj fields) fun _ _ => True := by
  refine yields_forM (fun f c => yields_bind (yields_registerLocal _ _ _ _) fun b c₁ hb => ?_) fields
  have hlt : b < c₁.bindings.size := (hb c₁ (.refl c₁)).2
  have hfield := Context.modifyBinding_mild (c := c₁) b (f := fun b => { b with canBeCleared := false, isMutable := f.capture.isMutable })
    (fun _ => rfl) (fun _ => rfl) fun _ h => h
  exact (yields_modify (hfield.trans (Context.capture_mild (hfield.size ▸ hlt) obj))).mono fun _ _ _ _ => trivial

/-- A list of fitted methods. -/
theorem fitted_typeMethodList (hr : Fine good rec) (obj : Nat) (parent : Option Nat) (tag : Option String) (methods : List TypeMethod) :
    Yields p c (forList (typeMethod rec obj parent tag) methods) fun ms c' => ∀ m ∈ ms, m.Fitted good c' := by
  refine (yields_forList fun m _ c => fitted_typeMethod hr obj parent tag m).mono fun ms c' h m hm => ?_
  obtain ⟨_, _, hf⟩ := h.2 m hm
  exact hf

theorem fitted_typeMethods (hr : Fine good rec) (obj : Nat) (name : String) (fields : List FieldDecl) (methods : List TypeMethod) :
    Yields p c (typeMethods rec obj name fields methods) fun ms c' => ∀ m ∈ ms, m.Fitted good c' := by
  refine yields_nested (leads_bind (yields_addMethod _ _) fun frame c₁ hframe => ?_)
  refine leads_modifyScope (q := ⟨⟨some frame, 0, false⟩, none, false, false⟩) (fun _ => ⟨0, Nat.zero_le _, rfl⟩)
    (fun e he => by cases he) (fun _ _ => ⟨fun m hm => ?_, fun ts hts => ?_⟩) fun c₂ _ _ => ?_
  · cases hm
    exact hframe c₁ (.refl c₁)
  · cases hts
  · refine leads_bind (yields_registerFields obj fields) fun _ c₃ _ => ?_
    exact (fitted_typeMethodList hr obj _ _ methods).leads.mono fun _ _ h _ _ => h

theorem fit_deftype (hgood : Emit.Sustained good) (hr : Fine good rec) (items : List Form) : Yields p c (deftype rec items) fun e c' => Fit good c' p demand e := by
  unfold deftype
  split
  · split
    · exact yields_fail _
    · split
      · refine yields_ofExcept fun fields _ => yields_calm (aside_typeParts _).calm fun parts _ _ => yields_calm (aside_checkDeclared _ _).calm fun _ _ _ => ?_
        refine yields_calm (calm_changeWorld _) fun _ _ _ => yields_calm (calm_addObject _ _ _) fun obj _ _ => ?_
        refine yields_bind (fitted_typeMethods hr obj _ _ _) fun methods c₁ hmethods => ?_
        refine yields_emitUnit hgood (hmethods c₁ (.refl c₁)) fun unit hunit _ => yields_calm (aside_load unit).calm fun _ _ _ => ?_
        exact yields_pure fun c' _ _ loop top _ _ => hunit
      · exact yields_fail _
  · exact yields_fail _

theorem fit_reify (hgood : Emit.Sustained good) (hr : Fine good rec) (items : List Form) : Yields p c (reify rec items) fun e c' => Fit good c' p demand e := by
  unfold reify
  split
  · refine yields_calm (calm_forList (S := fun _ => True) (fun f => ?_) _) fun protocols _ _ => ?_
    · split
      · exact (aside_resolveProtocol _).calm
      · exact calm_fail _
    refine yields_calm (calm_forList (S := fun _ => True) (fun f => ?_) _) fun methods _ _ => ?_
    · split
      · exact calm_pure trivial
      · exact calm_fail _
    refine yields_calm (aside_checkDeclared _ _).calm fun _ _ _ => yields_read (yields_calm (aside_unitName _).calm fun name _ _ => ?_)
    refine yields_calm (calm_addObject _ _ _) fun obj _ _ => yields_bind (fitted_typeMethodList hr obj _ _ _) fun methods c₁ hmethods => ?_
    refine yields_emitUnit hgood (hmethods c₁ (.refl c₁)) fun unit hunit _ => ?_
    refine yields_calm (calm_changeWorld _) fun _ _ _ => yields_calm (aside_load unit).calm fun _ _ _ => ?_
    exact yields_bind (yields_captureRefs obj) fun refs _ _ => yields_pure fun c' _ hrefs _ loop top _ _ => ⟨hunit, hrefs.2⟩
  · exact yields_fail _

/-! ## Calls -/

theorem fit_varCall? (hr : Fine good rec) (s : Symbol) (args : List Form) (line : Nat) :
    Yields p c (varCall? rec demand s args line) fun o c' => ∀ e ∈ o, Fit good c' p demand e := by
  refine yields_read ?_
  split
  · exact yields_pure fun _ _ e he => by cases he
  · dsimp only
    split
    · exact yields_bind (hr demand _ p c) fun e _ _ => yields_pure fun c' _ h e he => by cases he; exact h
    · split
      · refine yields_bind (fitted_operands hr args) fun es _ _ => yields_pure fun c' _ h e he => ?_
        cases he
        exact fun _ _ _ _ => h
      · exact yields_pure fun _ _ e he => by cases he

theorem fit_instanceTest? (hr : Fine good rec) (s : Symbol) (args : List Form) :
    Yields p c (instanceTest? rec demand s args) fun o c' => ∀ e ∈ o, Fit good c' p demand e := by
  unfold instanceTest?
  split
  · refine yields_read (yields_read ?_)
    split
    · refine yields_bind (hr demand.operand _ p c) fun e _ _ => yields_pure fun c' _ h e he => ?_
      cases he
      exact fun _ _ _ _ => h.fitted (operand_ne_tail demand) none false
    · exact yields_pure fun _ _ e he => by cases he
  · exact yields_pure fun _ _ e he => by cases he

theorem fit_namedCall? (hr : Fine good rec) (s : Symbol) (args : List Form) (line : Nat) :
    Yields p c (namedCall? rec demand s args line) fun o c' => ∀ e ∈ o, Fit good c' p demand e := by
  refine yields_read ?_
  split
  · exact yields_pure fun _ _ e he => by cases he
  · refine yields_bind (fit_varCall? hr s args line) fun o c₁ _ => ?_
    split
    · exact yields_pure fun _ _ h => h
    · exact (fit_instanceTest? hr s args).mono fun _ _ h _ => h

theorem fit_plainCall (hr : Fine good rec) (head : Form) (args : List Form) (line : Nat) :
    Yields p c (plainCall rec demand head args line) fun e c' => Fit good c' p demand e := by
  unfold plainCall
  split
  · refine yields_bind (hr demand.operand _ p c) fun e _ _ => yields_pure fun c' _ he loop top _ _ => ?_
    exact he.fitted (operand_ne_tail demand) none false
  · refine yields_bind (hr demand.operand head p c) fun e _ _ => yields_bind (fitted_operands hr args) fun es c₂ _ => ?_
    refine yields_tidy fun _ hp => yields_read (yields_pure fun c' _ hes he loop top _ htop => ⟨fun htail => ?_, ?_, hes⟩)
    · obtain ⟨floor, _, rfl⟩ := hp
      rw [Bool.and_eq_true, beq_iff_eq] at htail
      exact htop htail.1 htail.2
    · exact he.fitted (operand_ne_tail demand) none false

theorem fit_invoke (hr : Fine good rec) (head : Form) (args : List Form) :
    Yields p c (invoke rec demand head args) fun e c' => Fit good c' p demand e := by
  refine yields_read ?_
  dsimp only
  split
  · refine yields_bind (fit_namedCall? hr _ args _) fun o c₁ _ => ?_
    split
    · exact yields_pure fun c' _ h => h _ rfl
    · exact (fit_plainCall hr _ args _).mono fun _ _ h _ => h
  · exact fit_plainCall hr _ args _

/-! ## All forms -/

theorem fit_special (hgood : Emit.Sustained good) (hr : Fine good rec) (name : SpecialForm) (f : Form) (items : List Form) :
    Yields p c (special rec demand name f items) fun e c' => Fit good c' p demand e := by
  cases name with
  | define => exact fit_define hr items
  | cond => exact fit_cond hr items
  | seq => exact fit_body hr items.tail
  | bind => exact fit_bind hr f items false
  | loop => exact fit_bind hr f items true
  | recur => exact fit_recur hr items
  | fn => exact fit_fn hgood hr items
  | quote => exact yields_leaf (calm_quote items)
  | var => exact yields_leaf (calm_theVar items)
  | assign => exact fit_assign hr items
  | attempt => exact fit_attempt hr f items
  | throw => exact fit_throw hr f items
  | case => exact fit_case hr f items
  | dot => exact fit_dot hr items
  | new => exact fit_new hr items
  | bindFns => exact fit_bindFns hr f items
  | deftype => exact fit_deftype hgood hr items
  | reify => exact fit_reify hgood hr items
  | handler => exact yields_fail _
  | cleanup => exact yields_fail _
  | ampersand => exact yields_fail _

theorem fit_list (hgood : Emit.Sustained good) (hr : Fine good rec) (f head : Form) (args : List Form) :
    Yields p c (list rec demand f head args) fun e c' => Fit good c' p demand e := by
  refine yields_calm (aside_once f).calm fun o c₁ _ => ?_
  split
  · exact hr demand _ p c₁
  · split
    · exact fit_special hgood hr _ f (head :: args)
    · exact fit_invoke hr head args

theorem fit_vector (hr : Fine good rec) (f : Form) (items : List Form) : Yields p c (vector rec demand f items) fun e c' => Fit good c' p demand e := by
  refine yields_bind (fitted_operands hr items) fun es _ _ => yields_pure fun c' _ hes => ?_
  split
  · exact fun _ _ _ _ => trivial
  · exact fun _ _ _ _ => hes

theorem fit_set (hr : Fine good rec) (f : Form) (items : List Form) : Yields p c (set rec demand f items) fun e c' => Fit good c' p demand e := by
  refine yields_calm (aside_checkKeys items).calm fun _ _ _ => yields_bind (fitted_operands hr items) fun es _ _ => yields_pure fun c' _ hes => ?_
  split
  · exact fun _ _ _ _ => trivial
  · exact fun _ _ _ _ => hes

theorem fit_map (hr : Fine good rec) (f : Form) (pairs : List (Form × Form)) :
    Yields p c (map rec demand f pairs) fun e c' => Fit good c' p demand e := by
  refine yields_calm (aside_checkKeys _).calm fun _ _ _ => ?_
  refine yields_bind (yields_forList (Q := fun _ e c' => Fit good c' p demand.operand e.1 ∧ Fit good c' p demand.operand e.2) fun kv _ c => ?_) fun es _ _ => ?_
  · refine yields_bind (hr demand.operand kv.1 p c) fun k _ _ => yields_bind (hr demand.operand kv.2 p _) fun v _ _ => ?_
    exact yields_pure fun c' _ hv hk => ⟨hk, hv⟩
  · refine yields_pure fun c' _ hes => ?_
    split
    · exact fun _ _ _ _ => trivial
    · intro loop top _ _
      refine (fittedPairs_iff es).2 fun e he => ?_
      obtain ⟨_, _, hk, hv⟩ := hes.2 e he
      exact ⟨hk.fitted (operand_ne_tail demand) none false, hv.fitted (operand_ne_tail demand) none false⟩

theorem moveTo_quiet (f : Form) (c : Context) : c.Quiet (c.moveTo f) := by
  unfold Context.moveTo
  split
  · exact Context.quiet_of_eq rfl rfl rfl rfl
  · exact .refl c

theorem fine_formWith (hgood : Emit.Sustained good) (hr : Fine good rec) : Fine good (formWith rec) := by
  intro demand f p c
  unfold formWith
  split
  any_goals exact yields_pure fun _ _ _ _ _ _ => trivial
  · exact fit_symbol demand _ _
  · refine yields_nested (leads_calm (calm_modify (moveTo_quiet _)) fun _ c₁ _ => ?_)
    exact (yields_located (fit_list hgood hr _ _ _)).leads
  · exact fit_vector hr _ _
  · exact fit_map hr _ _
  · exact fit_set hr _ _

/-- Analysis gives fitted expressions. -/
theorem fine_form (hgood : Emit.Sustained good) (n : Nat) : Fine good (formWithin n) := by
  induction n with
  | zero => exact fun _ _ _ _ => yields_cut
  | succ n ih => exact fine_formWith hgood ih

end Analyze

end LispMachine
