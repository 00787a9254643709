import LispMachine.Analyze.Form
import LispMachine.Proofs.Analyze.Guards
import LispMachine.Proofs.World.Linked
/-!
# What analysis does to the world

The analysis of a form changes the world while it builds the expression: a definition makes its var and sets the dynamic flag, a
type is declared and its unit linked, and expanders run.  Each of these changes is made by one step.  An invariant of worlds that
survives the steps (`World.Endures`) outlasts the analysis of every form, however deep it nests, however often a part of it is
analyzed and however the analysis ends (`lasting_formWithin`).
-/
namespace LispMachine

/-- The invariant survives all that analysis does to the world: it links units, numbers the names that it makes up, sets the dynamic
flag of a var, declares types and runs the expanders that programs define. -/
structure World.Endures (P : World → Prop) : Prop extends World.Withstands P where
  generate : ∀ {w : World} (gensym : Nat), P w → P { w with gensym }
  flag : ∀ {w : World} (id : Nat) (dynamic : Bool), P w → P (w.modifyVar id fun v => { v with dynamic })
  declare : ∀ {w : World} (name : String) (fields : List Capture) (reified : Bool), P w → P (w.declareType name fields reified).2
  /-- An expander that is not built in is a function of the program. -/
  expand : ∀ {w : World} {id : Nat} {f : Value} (args : List Value) (nextId : Nat), P w → (w.var id).isMacro = true →
    (w.var id).root = some f → (∀ e, f ≠ .native (.expander e)) → P (Machine.call f args { w with nextId }).2

namespace Analysis

variable {α β : Type} {P : World → Prop} {x : Analysis α} {f : α → Analysis β}

/-- However the analysis ends, the invariant of the world outlasts it, if it starts there. -/
def OutlastsAt (P : World → Prop) (c : Context) (x : Analysis α) : Prop := P c.world → P (x c).2.world

/-- The invariant outlasts the analysis, wherever it starts. -/
def Outlasts (P : World → Prop) (x : Analysis α) : Prop := ∀ c, OutlastsAt P c x

theorem outlasts_pure (a : α) : Outlasts P (Pure.pure a : Analysis α) := fun _ h => h

theorem outlasts_fail (e : CompileFault) : Outlasts P (fail e : Analysis α) := fun _ h => h

theorem outlasts_cut : Outlasts P (cut : Analysis α) := fun _ h => h

theorem outlasts_ofExcept (e : Except CompileFault α) : Outlasts P (ofExcept e) := by
  cases e with
  | ok a => exact outlasts_pure a
  | error e => exact outlasts_fail e

theorem OutlastsAt.bind {c : Context} (hx : OutlastsAt P c x) (hf : ∀ a, Outlasts P (f a)) : OutlastsAt P c (x >>= f) := by
  intro hc
  have h := hx hc
  rcases hr : x c with ⟨a | e | _, c₁⟩ <;> rw [hr] at h
  · rw [bind_of_ok hr]
    exact hf a c₁ h
  · rw [bind_of_error hr]
    exact h
  · rw [bind_of_cut hr]
    exact h

theorem Outlasts.bind (hx : Outlasts P x) (hf : ∀ a, Outlasts P (f a)) : Outlasts P (x >>= f) := fun c => (hx c).bind hf

/-- What looks at the world it starts in. -/
theorem outlastsAt_world {c : Context} {f : World → Analysis β} (hf : OutlastsAt P c (f c.world)) : OutlastsAt P c (world >>= f) := hf

/-- What only looks at the context. -/
theorem outlasts_read {g : Context → α} (hf : ∀ a, Outlasts P (f a)) : Outlasts P (read g >>= f) := fun c hc => hf (g c) c hc

/-- A step that may be left out, and that looks at the context. -/
theorem outlasts_ifRead {b : Prop} [Decidable b] {g : Context → β} {y : β → Analysis PUnit} (hy : ∀ r, Outlasts P (y r)) (hx : Outlasts P x) :
    Outlasts P (if b then read g >>= fun r => y r >>= fun _ => x else x) := by
  split
  · exact outlasts_read fun r => (hy r).bind fun _ => hx
  · exact hx

theorem outlasts_bindExcept {e : Except CompileFault α} (hf : ∀ a, Outlasts P (f a)) : Outlasts P (ofExcept e >>= f) :=
  (outlasts_ofExcept e).bind hf

theorem outlasts_change {g : Context → α × Context} (h : ∀ c, (g c).2.world = c.world) : Outlasts P (change g) := fun c hc => by
  show P (g c).2.world
  rw [h]
  exact hc

theorem outlasts_modify {g : Context → Context} (h : ∀ c, (g c).world = c.world) : Outlasts P (modify g) := fun c hc => by
  show P (g c).world
  rw [h]
  exact hc

theorem outlasts_modifyScope (g : Scope → Scope) : Outlasts P (modifyScope g) := outlasts_modify fun _ => rfl

/-- A step that may be left out. -/
theorem outlasts_if {b : Prop} [Decidable b] {y : Analysis PUnit} (hy : Outlasts P y) (hx : Outlasts P x) :
    Outlasts P (if b then y >>= fun _ => x else x) := by
  split
  · exact hy.bind fun _ => hx
  · exact hx

theorem outlasts_nested (h : Outlasts P x) : Outlasts P (nested x) := fun c hc => h c hc

theorem outlasts_located (h : Outlasts P x) : Outlasts P (located x) := by
  intro c hc
  have h := h c hc
  unfold located
  rcases hr : x c with ⟨a | e | _, c₁⟩ <;> rw [hr] at h <;> exact h

theorem outlasts_warn (kind : WarningKind) (message : String) : Outlasts P (warn kind message) := outlasts_modify fun _ => rfl

theorem outlasts_addPath (kind : PathKind) (parent : Option Nat) : Outlasts P (addPath kind parent) := outlasts_change fun _ => rfl

theorem outlasts_arm {branch : Nat} (h : Outlasts P x) : Outlasts P (arm branch x) :=
  outlasts_nested ((outlasts_addPath _ _).bind fun _ => (outlasts_modifyScope _).bind fun _ => h)

theorem outlasts_referenceLocal (b : Nat) (tag : Option String) : Outlasts P (referenceLocal b tag) :=
  outlasts_change fun c => c.world_referenceLocal b tag

theorem outlasts_registerLocal (name : Symbol) (tag : Option String) (prim : Option Prim) (isArg : Bool) :
    Outlasts P (registerLocal name tag prim isArg) := outlasts_change fun _ => rfl

theorem outlasts_reflects (what : String) : Outlasts P (reflects what) := by
  refine outlasts_read fun c => ?_
  split
  · exact outlasts_fail _
  · split
    · exact outlasts_warn _ _
    · exact outlasts_pure _

theorem outlasts_forList {g : α → Analysis β} {as : List α} (h : ∀ a ∈ as, Outlasts P (g a)) : Outlasts P (forList g as) := by
  induction as with
  | nil => exact outlasts_pure _
  | cons a as ih =>
    obtain ⟨ha, has⟩ := List.forall_mem_cons.1 h
    exact ha.bind fun _ => (ih has).bind fun _ => outlasts_pure _

theorem outlasts_forM {g : α → Analysis PUnit} (h : ∀ a, Outlasts P (g a)) (as : List α) : Outlasts P (as.forM g) := by
  induction as with
  | nil => exact outlasts_pure _
  | cons a as ih =>
    rw [List.forM_eq_forM, List.forM_cons]
    exact (h a).bind fun _ => ih

theorem outlasts_changeWorld {g : World → α × World} (h : ∀ w, P w → P (g w).2) : Outlasts P (changeWorld g) := fun c hc => h c.world hc

theorem outlasts_load (hP : World.Endures P) (u : CompiledUnit) : Outlasts P (load u) := by
  refine (outlasts_changeWorld fun w hw => hP.toWithstands.load hw u).bind fun r => ?_
  cases r with
  | ok id => exact outlasts_pure id
  | error e => exact outlasts_fail _

theorem outlasts_nextGensym (hP : World.Endures P) : Outlasts P nextGensym := outlasts_changeWorld fun _ hw => hP.generate _ hw

end Analysis

namespace Analyze

open Analysis

variable {P : World → Prop} {rec : Analyzer} {demand : Demand}

/-- The invariant outlasts the analysis of any form. -/
def Lasting (P : World → Prop) (rec : Analyzer) : Prop := ∀ demand f, Outlasts P (rec demand f)

/-! ## Expansion -/

theorem outlasts_runBuiltin (hP : World.Endures P) (e : Expander) (form : Form) (args : List Form) :
    Outlasts P (Expand.runBuiltin e form args) := by
  refine outlasts_read fun w => ?_
  split
  · exact Outlasts.bind (fun c hc => hP.generate _ hc) fun _ => outlasts_pure _
  · exact outlasts_fail _

/-- The analysis only makes identities. -/
def Identifies {α : Type} (x : Analysis α) : Prop := ∀ c : Context, ∃ nextId, (x c).2.world = { c.world with nextId }

theorem identifies_valueOf (f : Form) : Identifies (Expand.valueOf f) := fun _ => ⟨_, rfl⟩

theorem identifies_visibleLocals : Identifies Expand.visibleLocals := fun _ => ⟨_, rfl⟩

theorem Identifies.bind {α β : Type} {x : Analysis α} {f : α → Analysis β} (hx : Identifies x) (hf : ∀ a, Identifies (f a)) :
    Identifies (x >>= f) := by
  intro c
  obtain ⟨i, hi⟩ := hx c
  rcases hr : x c with ⟨a | e | _, c₁⟩ <;> rw [hr] at hi
  · obtain ⟨j, hj⟩ := hf a c₁
    rw [bind_of_ok hr, hj, show c₁.world = _ from hi]
    exact ⟨j, rfl⟩
  · rw [bind_of_error hr]
    exact ⟨i, hi⟩
  · rw [bind_of_cut hr]
    exact ⟨i, hi⟩

theorem identifies_pure {α : Type} (a : α) : Identifies (Pure.pure a : Analysis α) := fun c => ⟨c.world.nextId, rfl⟩

theorem identifies_forList {α β : Type} {f : α → Analysis β} (h : ∀ a, Identifies (f a)) : ∀ as : List α, Identifies (forList f as)
  | [] => identifies_pure _
  | a :: as => (h a).bind fun _ => (identifies_forList h as).bind fun _ => identifies_pure _

/-- The invariant outlasts the analysis if nothing but identities was made since the world was this one. -/
def OutlastsSince {α : Type} (P : World → Prop) (w : World) (x : Analysis α) : Prop :=
  ∀ (c : Context) (nextId : Nat), c.world = { w with nextId } → P (x c).2.world

theorem Identifies.outlastsSince {α β : Type} {x : Analysis α} {f : α → Analysis β} {w : World} (hP : World.Endures P) (hw : P w)
    (hx : Identifies x) (hf : ∀ a, OutlastsSince P w (f a)) : OutlastsSince P w (x >>= f) := by
  intro c i hc
  obtain ⟨j, hj⟩ := hx c
  rw [hc] at hj
  have hmade : P { w with nextId := j } := hP.identify j hw
  rcases hr : x c with ⟨a | e | _, c₁⟩ <;> rw [hr] at hj
  · rw [bind_of_ok hr]
    exact hf a c₁ j hj
  · rwa [bind_of_error hr, hj]
  · rwa [bind_of_cut hr, hj]

/-- Before the function of an expander runs, only identities are made. -/
theorem outlasts_runFunction (hP : World.Endures P) {c : Context} {id : Nat} {f : Value} (hm : (c.world.var id).isMacro = true)
    (hf : (c.world.var id).root = some f) (he : ∀ e, f ≠ .native (.expander e)) (form : Form) (args : List Form) :
    OutlastsAt P c (Expand.runFunction f form args) := by
  intro hc
  have hsince : OutlastsSince P c.world (Expand.runFunction f form args) := by
    refine (identifies_valueOf form).outlastsSince hP hc fun whole => identifies_visibleLocals.outlastsSince hP hc fun locals => ?_
    refine (identifies_forList identifies_valueOf args).outlastsSince hP hc fun args c₁ i hi => ?_
    have hrun : P (Machine.call f (whole :: locals :: args) c₁.world).2 := hi ▸ hP.expand _ i hc hm hf he
    have hran : OutlastsAt P c₁ (run (Machine.call f (whole :: locals :: args)) fun _ text => .expander text) := by
      intro _
      unfold run
      rcases hr : Machine.call f (whole :: locals :: args) c₁.world with ⟨a | v | _, w⟩ <;> rw [hr] at hrun <;> exact hrun
    refine hran.bind (fun expansion => ?_) (hi ▸ hP.identify i hc)
    split
    · exact outlasts_pure _
    · exact outlasts_read fun _ => outlasts_fail _
  exact hsince c c.world.nextId rfl

theorem outlasts_invokeExpander (hP : World.Endures P) {c : Context} {id : Nat} (hm : (c.world.var id).isMacro = true) (form : Form)
    (args : List Form) : OutlastsAt P c (Expand.invokeExpander id form args) := by
  refine outlastsAt_world ?_
  dsimp only
  split
  · exact outlasts_fail _ c
  · exact outlasts_runBuiltin hP _ form args c
  · rename_i f hne hroot
    exact outlasts_runFunction hP hm hroot hne form args

theorem outlasts_sugar (head : Symbol) (args : List Form) : Outlasts P (Expand.sugar head args) := by
  unfold Expand.sugar
  split
  · exact outlasts_ofExcept _
  · refine outlasts_read fun w => ?_
    split <;> exact outlasts_pure _

theorem outlasts_once (hP : World.Endures P) (form : Form) : Outlasts P (Expand.once form) := by
  unfold Expand.once
  split
  · refine outlasts_read fun found => ?_
    split
    · exact outlasts_pure _
    · refine fun c => outlastsAt_world ?_
      split
      · rename_i id hid
        exact (outlasts_invokeExpander hP (Option.filter_eq_some_iff.1 hid).2 _ _).bind fun _ => outlasts_pure _
      · exact ((outlasts_sugar _ _).bind fun _ => outlasts_pure _) c
  · exact outlasts_pure _

theorem outlasts_fully (hP : World.Endures P) (fuel : Nat) (form : Form) : Outlasts P (Expand.fully fuel form) := by
  induction fuel generalizing form with
  | zero => exact outlasts_cut
  | succ fuel ih =>
    refine (outlasts_once hP form).bind fun o => ?_
    split
    · exact ih _
    · exact outlasts_pure _

/-! ## Parts -/

theorem outlasts_operands (hr : Lasting P rec) (forms : List Form) : Outlasts P (operands rec demand forms) :=
  outlasts_forList fun f _ => hr _ f

theorem outlasts_body (hr : Lasting P rec) (forms : List Form) : Outlasts P (body rec demand forms) := by
  unfold body
  split
  · exact outlasts_pure _
  · exact (outlasts_forList fun f _ => hr _ f).bind fun _ => (hr _ _).bind fun _ => outlasts_pure _

theorem outlasts_symbol (s : Symbol) (info : Option Form.Info) : Outlasts P (symbol s info) := by
  refine outlasts_read fun found => ?_
  split
  · exact (outlasts_referenceLocal _ _).bind fun _ => outlasts_pure _
  · refine outlasts_read fun w => ?_
    split
    · split
      · exact outlasts_pure _
      · exact outlasts_fail _
    · split
      · split
        · exact outlasts_fail _
        · exact outlasts_pure _
      · split
        · exact outlasts_pure _
        · exact outlasts_fail _

theorem outlasts_checkKeys (keys : List Form) : Outlasts P (checkKeys keys) := by
  unfold checkKeys
  split
  · exact outlasts_fail _
  · exact outlasts_pure _

theorem outlasts_vector (hr : Lasting P rec) (f : Form) (items : List Form) : Outlasts P (vector rec demand f items) :=
  (outlasts_operands hr items).bind fun _ => outlasts_pure _

theorem outlasts_set (hr : Lasting P rec) (f : Form) (items : List Form) : Outlasts P (set rec demand f items) :=
  (outlasts_checkKeys items).bind fun _ => (outlasts_operands hr items).bind fun _ => outlasts_pure _

theorem outlasts_map (hr : Lasting P rec) (f : Form) (pairs : List (Form × Form)) : Outlasts P (map rec demand f pairs) := by
  refine (outlasts_checkKeys _).bind fun _ => (outlasts_forList fun kv _ => ?_).bind fun _ => outlasts_pure _
  exact (hr _ kv.1).bind fun _ => (hr _ kv.2).bind fun _ => outlasts_pure _

/-! ## Definitions, conditions and assignments -/

/-- A definition makes its var and sets the dynamic flag. -/
theorem outlasts_define (hP : World.Endures P) (hr : Lasting P rec) (items : List Form) : Outlasts P (define rec demand items) := by
  refine outlasts_bindExcept fun parts => ?_
  obtain ⟨doc, init⟩ := parts
  dsimp only
  split
  · refine outlasts_read fun w => ?_
    split
    · exact outlasts_fail _
    · refine (outlasts_changeWorld fun w hw => hP.intern _ _ hw).bind fun id => ?_
      refine (outlasts_changeWorld fun w hw => hP.flag id _ hw).bind fun _ => ?_
      cases init with
      | none => exact outlasts_if (outlasts_warn _ _) (outlasts_read fun _ => outlasts_read fun _ => outlasts_pure _)
      | some f =>
        exact outlasts_if (outlasts_warn _ _) ((hr _ f).bind fun _ => outlasts_read fun _ => outlasts_read fun _ => outlasts_pure _)
  · exact outlasts_fail _

theorem outlasts_cond (hr : Lasting P rec) (items : List Form) : Outlasts P (cond rec demand items) := by
  unfold cond
  split
  · exact outlasts_fail _
  · split
    · refine outlasts_read fun s => (hr _ _).bind fun _ => outlasts_read fun _ => (outlasts_addPath _ _).bind fun _ => ?_
      exact (outlasts_arm (hr _ _)).bind fun _ => (outlasts_arm (hr _ _)).bind fun _ => outlasts_pure _
    · exact outlasts_fail _

theorem outlasts_quote (items : List Form) : Outlasts P (quote items) := by
  unfold quote
  split
  any_goals exact outlasts_pure _
  exact outlasts_fail _

theorem outlasts_theVar (items : List Form) : Outlasts P (theVar items) := by
  unfold theVar
  split
  · refine outlasts_read fun w => ?_
    split
    · exact outlasts_pure _
    · exact outlasts_fail _
  · exact outlasts_fail _

theorem outlasts_closeOver (b : Nat) : Outlasts P (modify (·.closeOver b)) := outlasts_modify fun c => c.world_closeOver b

theorem outlasts_assignableField (b : Nat) : Outlasts P (assignableField b) := by
  refine outlasts_read fun c => ?_
  dsimp only
  split
  · exact (outlasts_closeOver b).bind fun _ => outlasts_pure _
  · exact outlasts_fail _

theorem outlasts_assign (hr : Lasting P rec) (items : List Form) : Outlasts P (assign rec demand items) := by
  unfold assign
  split
  · refine outlasts_read fun found => ?_
    split
    · exact (outlasts_assignableField _).bind fun _ => (hr _ _).bind fun _ => outlasts_pure _
    · refine (outlasts_symbol _ _).bind fun e => ?_
      split
      · exact (hr _ _).bind fun _ => outlasts_pure _
      · exact outlasts_fail _
  · exact outlasts_fail _
  · exact outlasts_fail _

theorem outlasts_throw (hr : Lasting P rec) (form : Form) (items : List Form) : Outlasts P (throw rec demand form items) := by
  unfold throw
  split
  · split
    · exact hr _ _
    · exact (hr _ _).bind fun _ => outlasts_pure _
  · exact outlasts_fail _
  · exact outlasts_fail _

/-! ## Host members -/

theorem outlasts_resolveMember (k : Class) (kind : HostKind) (name : String) (args : List Expr) (missing : CompileFault) :
    Outlasts P (resolveMember k kind name args missing) := by
  refine outlasts_read fun w => ?_
  dsimp only
  split
  · exact outlasts_bindExcept fun _ => outlasts_pure _
  · exact outlasts_fail _

theorem outlasts_classNamed? (f : Form) : Outlasts P (classNamed? f) := by
  unfold classNamed?
  split
  · refine outlasts_read fun found => ?_
    split
    · exact outlasts_pure _
    · exact outlasts_read fun _ => outlasts_pure _
  · exact outlasts_pure _

theorem outlasts_staticMember (hr : Lasting P rec) (k : Class) (name : String) (args : List Form) (parenthesized : Bool) (line : Nat) :
    Outlasts P (staticMember rec demand k name args parenthesized line) := by
  refine outlasts_read fun w => ?_
  dsimp only
  split
  · exact outlasts_pure _
  · refine (outlasts_operands hr args).bind fun _ => (outlasts_resolveMember _ _ _ _ _).bind fun _ => ?_
    exact outlasts_if (outlasts_reflects _) (outlasts_pure _)

theorem outlasts_instanceField (k : Option Class) (target : Expr) (name fieldName : String) (args : List Expr) (line : Nat) :
    Outlasts P (instanceField k target name fieldName args line) := by
  unfold instanceField
  split
  · exact outlasts_fail _
  · exact outlasts_if (outlasts_reflects _) (outlasts_pure _)

theorem outlasts_instanceMethod (k : Option Class) (target : Expr) (name : String) (args : List Expr) (line : Nat) :
    Outlasts P (instanceMethod k target name args line) := by
  unfold instanceMethod
  split
  · split
    · exact outlasts_pure _
    · exact (outlasts_resolveMember _ _ _ _ _).bind fun _ => outlasts_if (outlasts_reflects _) (outlasts_pure _)
  · exact (outlasts_reflects _).bind fun _ => outlasts_pure _

theorem outlasts_instanceMember (hr : Lasting P rec) (target : Form) (name : String) (args : List Form) (parenthesized : Bool) (line : Nat) :
    Outlasts P (instanceMember rec demand target name args parenthesized line) := by
  refine (hr _ target).bind fun e => (outlasts_operands hr args).bind fun es => outlasts_read fun w => ?_
  dsimp only
  split
  all_goals
    split
    · exact outlasts_instanceField _ _ _ _ _ _
    · exact outlasts_instanceMethod _ _ _ _ _

theorem outlasts_dot (hr : Lasting P rec) (items : List Form) : Outlasts P (dot rec demand items) := by
  refine outlasts_read fun s => ?_
  dsimp only
  split
  any_goals exact outlasts_fail _
  all_goals
    refine (outlasts_classNamed? _).bind fun found => ?_
    split
    · exact outlasts_staticMember hr _ _ _ _ _
    · exact outlasts_instanceMember hr _ _ _ _ _

theorem outlasts_new (hr : Lasting P rec) (items : List Form) : Outlasts P (new rec demand items) := by
  unfold new
  split
  · refine outlasts_read fun w => ?_
    split
    · exact outlasts_fail _
    · refine outlasts_read fun s => (outlasts_operands hr _).bind fun es => ?_
      split
      · split
        · exact outlasts_fail _
        · exact outlasts_pure _
      · exact (outlasts_resolveMember _ _ _ _ _).bind fun _ => outlasts_if (outlasts_reflects _) (outlasts_pure _)
  · exact outlasts_fail _

/-! ## Bindings and loops -/

theorem outlasts_bindAll (hr : Lasting P rec) (bindings : List (Form × Form)) (boxed : List Bool) : Outlasts P (bindAll rec bindings boxed) := by
  induction bindings generalizing boxed with
  | nil => exact outlasts_pure _
  | cons b rest ih =>
    unfold bindAll
    refine outlasts_bindExcept fun name => (hr _ b.2).bind fun e => outlasts_read fun c => outlasts_if (outlasts_warn _ _) ?_
    exact (outlasts_registerLocal _ _ _ _).bind fun _ => (ih boxed.tail).bind fun _ => outlasts_pure _

theorem outlasts_loopBody (hr : Lasting P rec) (locals : List Nat) (forms : List Form) : Outlasts P (loopBody rec demand locals forms) := by
  refine outlasts_read fun s => (outlasts_addPath _ _).bind fun _ => (outlasts_addPath _ _).bind fun _ => ?_
  refine (outlasts_addPath _ _).bind fun _ => ?_
  exact outlasts_nested ((outlasts_modifyScope _).bind fun _ => outlasts_body hr forms)

theorem outlasts_loopPasses (hr : Lasting P rec) (bindings : List (Form × Form)) (forms : List Form) (passes : Nat) (boxed : List Bool) :
    Outlasts P (loopPasses rec demand bindings forms passes boxed) := by
  induction passes generalizing boxed with
  | zero => exact outlasts_cut
  | succ passes ih =>
    have hpass : Outlasts P (loopPass rec demand bindings forms boxed) :=
      outlasts_nested ((outlasts_bindAll hr bindings boxed).bind fun _ => (outlasts_loopBody hr _ forms).bind fun _ =>
        outlasts_read fun _ => outlasts_pure _)
    refine hpass.bind fun pass => ?_
    obtain ⟨e, next⟩ := pass
    dsimp only
    split
    · exact outlasts_pure e
    · exact ih next

theorem outlasts_let (hr : Lasting P rec) (form : Form) (items : List Form) (isLoop : Bool) : Outlasts P (bind rec demand form items isLoop) := by
  refine outlasts_bindExcept fun bindings => ?_
  split
  · exact hr _ _
  · split
    · exact outlasts_loopPasses hr bindings _ _ _
    · exact outlasts_nested ((outlasts_bindAll hr bindings []).bind fun _ => (outlasts_body hr _).bind fun _ => outlasts_pure _)

theorem outlasts_bindFns (hr : Lasting P rec) (form : Form) (items : List Form) : Outlasts P (bindFns rec demand form items) := by
  refine outlasts_bindExcept fun bindings => ?_
  split
  · exact hr _ _
  · refine outlasts_nested ((outlasts_forList fun b _ => ?_).bind fun ids => (outlasts_forList fun b _ => ?_).bind fun inits => ?_)
    · refine outlasts_bindExcept fun s => (outlasts_registerLocal _ _ _ _).bind fun id => ?_
      exact Outlasts.bind (outlasts_modify fun _ => rfl) fun _ => outlasts_pure _
    · exact (hr _ _).bind fun _ => outlasts_pure _
    · exact (outlasts_body hr _).bind fun _ => outlasts_pure _

theorem outlasts_checkRecurArg (target : Nat) (arg : Expr) : Outlasts P (checkRecurArg target arg) := by
  refine outlasts_read fun c => ?_
  dsimp only
  split
  · exact outlasts_pure _
  · split
    · exact outlasts_pure _
    · refine Outlasts.bind (outlasts_modify fun _ => rfl) fun _ => ?_
      split
      · exact outlasts_warn _ _
      · exact outlasts_pure _

theorem outlasts_recur (hr : Lasting P rec) (items : List Form) : Outlasts P (recur rec demand items) := by
  refine outlasts_read fun s => ?_
  split
  · exact outlasts_fail _
  · split
    · split
      · exact outlasts_fail _
      · refine (outlasts_forList fun f _ => hr _ f).bind fun args => ?_
        split
        · exact outlasts_fail _
        · exact (outlasts_forM (fun ta : Nat × Expr => outlasts_checkRecurArg ta.1 ta.2) _).bind fun _ => outlasts_pure _
    · exact outlasts_fail _

/-! ## Exceptions and choices -/

theorem outlasts_handler (hr : Lasting P rec) (clause : CatchClause) : Outlasts P (handler rec demand clause) := by
  refine outlasts_read fun w => ?_
  split
  · exact outlasts_fail _
  · refine outlasts_nested ((outlasts_modifyScope _).bind fun _ => (outlasts_registerLocal _ _ _ _).bind fun _ => ?_)
    exact (outlasts_body hr _).bind fun _ => outlasts_pure _

theorem outlasts_attempt (hr : Lasting P rec) (form : Form) (items : List Form) : Outlasts P (attempt rec demand form items) := by
  refine outlasts_read fun s => ?_
  split
  · exact hr _ _
  · refine outlasts_bindExcept fun parts => Outlasts.bind (outlasts_change fun _ => rfl) fun _ => ?_
    refine Outlasts.bind (outlasts_change fun _ => rfl) fun _ => ?_
    refine (outlasts_nested ((outlasts_modifyScope _).bind fun _ => outlasts_body hr _)).bind fun main => ?_
    refine (outlasts_forList fun clause _ => outlasts_handler hr clause).bind fun handlers => ?_
    split
    · exact outlasts_pure _
    · refine Outlasts.bind (outlasts_nested ((outlasts_modifyScope _).bind fun _ => ?_)) fun _ => outlasts_pure _
      exact (outlasts_body hr _).bind fun _ => outlasts_pure _

theorem outlasts_caseDefault (hr : Lasting P rec) (otherwise : Option Form) (temp : Symbol) :
    Outlasts P (caseDefault rec demand otherwise temp) := by
  unfold caseDefault
  split <;> exact hr _ _

theorem outlasts_case (hP : World.Endures P) (hr : Lasting P rec) (form : Form) (items : List Form) :
    Outlasts P (case rec demand form items) := by
  unfold case
  split
  · exact hr _ _
  · split
    · refine outlasts_read fun s => outlasts_bindExcept fun constants => outlasts_nested ((hr _ _).bind fun dispatch => ?_)
      refine (outlasts_nextGensym hP).bind fun _ => (outlasts_registerLocal _ _ _ _).bind fun _ => ?_
      split
      · exact (outlasts_caseDefault hr _ _).bind fun _ => outlasts_pure _
      · refine outlasts_ifRead (fun _ => outlasts_warn _ _) (outlasts_read fun s => (outlasts_addPath _ _).bind fun branch => ?_)
        refine (outlasts_forList fun group _ => ?_).bind fun buckets => ?_
        · refine (outlasts_forList fun constant _ => ?_).bind fun entries => outlasts_pure _
          exact (outlasts_arm (hr _ _)).bind fun e => outlasts_pure _
        · exact (outlasts_arm (outlasts_caseDefault hr _ _)).bind fun e => outlasts_pure _
    · exact outlasts_fail _

/-! ## Functions and types -/

theorem outlasts_unitName (hP : World.Endures P) (localName : Option String) : Outlasts P (unitName localName) :=
  outlasts_read fun _ => (outlasts_nextGensym hP).bind fun _ => outlasts_pure _

theorem outlasts_inMethod {α : Type} {x : Analysis α} (frame : Nat) (h : Outlasts P x) : Outlasts P (inMethod frame x) := by
  refine outlasts_read fun s => ?_
  split
  · exact outlasts_nested ((outlasts_modifyScope _).bind fun _ => h)
  · exact (outlasts_addPath _ _).bind fun _ => outlasts_nested ((outlasts_modifyScope _).bind fun _ => h)

theorem outlasts_captureRefs (obj : Nat) : Outlasts P (captureRefs obj) :=
  outlasts_read fun _ => outlasts_forList fun b _ => outlasts_referenceLocal b none

theorem outlasts_emitUnit (obj : Nat) (kind : UnitKind) (methods : List FnMethod) : Outlasts P (emitUnit obj kind methods) :=
  outlasts_read fun _ => outlasts_ofExcept _

theorem outlasts_registerThis (name : Symbol) (tag : Option String) : Outlasts P (change (·.registerThis name tag)) := outlasts_change fun _ => rfl

theorem outlasts_addMethod (obj : Nat) (parent : Option Nat) : Outlasts P (change (·.addMethod obj parent)) := outlasts_change fun _ => rfl

theorem outlasts_addObject (name : String) (kind : ObjectKind) (once : Bool) : Outlasts P (change (·.addObject name kind once)) :=
  outlasts_change fun _ => rfl

theorem outlasts_registerParams (params : List Form) (variadic : Bool) (fixed : List Nat) (rest : Option Nat) :
    Outlasts P (registerParams params variadic fixed rest) := by
  induction params generalizing variadic fixed rest with
  | nil =>
    unfold registerParams
    split
    · exact outlasts_fail _
    · exact outlasts_pure _
  | cons f params ih =>
    cases f with
    | symbol s info =>
      unfold registerParams
      split
      · split
        · exact outlasts_fail _
        · exact ih true fixed rest
      · split
        · exact outlasts_fail _
        · refine outlasts_bindExcept fun hint => ?_
          dsimp only
          split
          · split
            · exact outlasts_fail _
            · split
              · exact outlasts_fail _
              · exact (outlasts_registerLocal _ _ _ _).bind fun b => ih variadic fixed (some b)
          · exact (outlasts_registerLocal _ _ _ _).bind fun b => ih variadic (fixed ++ [b]) rest
    | _ => exact outlasts_fail _

theorem outlasts_fnMethod (hr : Lasting P rec) (obj : Nat) (self : Option Symbol) (params : List Form) (info : Option Form.Info)
    (forms : List Form) : Outlasts P (fnMethod rec obj self params info forms) := by
  refine outlasts_bindExcept fun hint => outlasts_read fun s => (outlasts_addMethod _ _).bind fun frame => outlasts_inMethod frame ?_
  split
  on_goal 1 => refine (outlasts_registerThis _ _).bind fun _ => ?_
  all_goals
    refine (outlasts_registerParams _ _ _ _).bind fun ids => outlasts_read fun c => outlasts_bindExcept fun _ => ?_
    exact (outlasts_modifyScope _).bind fun _ => (outlasts_body hr _).bind fun _ => outlasts_bindExcept fun _ => outlasts_pure _

theorem outlasts_fn (hP : World.Endures P) (hr : Lasting P rec) (items : List Form) : Outlasts P (fn rec items) := by
  unfold fn
  dsimp only
  split
  all_goals
    refine outlasts_bindExcept fun bodies => outlasts_read fun s => (outlasts_unitName hP _).bind fun name => ?_
    refine (outlasts_addObject _ _ _).bind fun obj => ?_
    refine (outlasts_forList fun b _ => outlasts_fnMethod hr _ _ _ _ _).bind fun methods => outlasts_bindExcept fun _ => ?_
    exact (outlasts_emitUnit _ _ _).bind fun unit => (outlasts_captureRefs _).bind fun _ => outlasts_pure _

theorem outlasts_resolveProtocol (s : Symbol) : Outlasts P (resolveProtocol s) := by
  refine outlasts_read fun w => ?_
  split
  · exact outlasts_fail _
  · split
    · exact outlasts_pure _
    · exact outlasts_fail _

theorem outlasts_checkDeclared (protocols : List (Symbol × Nat)) (methods : List TypeMethod) : Outlasts P (checkDeclared protocols methods) := by
  refine outlasts_read fun w => outlasts_forM (fun m => ?_) methods
  split
  · exact outlasts_pure _
  · exact outlasts_fail _

theorem outlasts_typeParts (forms : List Form) : Outlasts P (typeParts forms) := by
  induction forms with
  | nil => exact outlasts_pure _
  | cons f fs ih =>
    unfold typeParts
    split
    · exact (outlasts_resolveProtocol _).bind fun _ => ih.bind fun _ => outlasts_pure _
    · split
      · exact ih.bind fun _ => outlasts_pure _
      · exact outlasts_fail _

theorem outlasts_typeMethod (hr : Lasting P rec) (obj : Nat) (parent : Option Nat) (tag : Option String) (m : TypeMethod) :
    Outlasts P (typeMethod rec obj parent tag m) := by
  unfold typeMethod
  split
  · refine outlasts_read fun s => (outlasts_addMethod _ _).bind fun frame => outlasts_inMethod frame ?_
    refine outlasts_bindExcept fun this => (outlasts_registerThis _ _).bind fun _ => ?_
    refine (outlasts_forList fun p _ => outlasts_bindExcept fun s => outlasts_registerLocal _ _ _ _).bind fun args => ?_
    exact (outlasts_modifyScope _).bind fun _ => (outlasts_body hr _).bind fun _ => outlasts_pure _
  · exact outlasts_fail _

theorem outlasts_typeMethods (hr : Lasting P rec) (obj : Nat) (name : String) (fields : List FieldDecl) (methods : List TypeMethod) :
    Outlasts P (typeMethods rec obj name fields methods) := by
  refine outlasts_nested ((outlasts_addMethod _ _).bind fun frame => (outlasts_modifyScope _).bind fun _ => ?_)
  refine (outlasts_forM (fun f => ?_) fields).bind fun _ => outlasts_forList fun m _ => outlasts_typeMethod hr _ _ _ m
  exact (outlasts_registerLocal _ _ _ _).bind fun _ => outlasts_modify fun _ => rfl

/-- A type is declared, and its unit is linked. -/
theorem outlasts_deftype (hP : World.Endures P) (hr : Lasting P rec) (items : List Form) : Outlasts P (deftype rec items) := by
  unfold deftype
  split
  · split
    · exact outlasts_fail _
    · split
      · refine outlasts_bindExcept fun fields => (outlasts_typeParts _).bind fun parts => (outlasts_checkDeclared _ _).bind fun _ => ?_
        refine (outlasts_changeWorld fun w hw => hP.declare _ _ _ hw).bind fun _ => (outlasts_addObject _ _ _).bind fun obj => ?_
        refine (outlasts_typeMethods hr _ _ _ _).bind fun methods => (outlasts_emitUnit _ _ _).bind fun unit => ?_
        exact (outlasts_load hP unit).bind fun _ => outlasts_pure _
      · exact outlasts_fail _
  · exact outlasts_fail _

theorem outlasts_reify (hP : World.Endures P) (hr : Lasting P rec) (items : List Form) : Outlasts P (reify rec items) := by
  unfold reify
  split
  · refine (outlasts_forList fun f _ => ?_).bind fun protocols => (outlasts_forList fun f _ => ?_).bind fun methods => ?_
    · split
      · exact outlasts_resolveProtocol _
      · exact outlasts_fail _
    · split
      · exact outlasts_pure _
      · exact outlasts_fail _
    · refine (outlasts_checkDeclared _ _).bind fun _ => outlasts_read fun s => (outlasts_unitName hP _).bind fun name => ?_
      refine (outlasts_addObject _ _ _).bind fun obj => (outlasts_forList fun m _ => outlasts_typeMethod hr _ _ _ m).bind fun methods => ?_
      refine (outlasts_emitUnit _ _ _).bind fun unit => (outlasts_changeWorld fun w hw => hP.declare _ _ _ hw).bind fun _ => ?_
      exact (outlasts_load hP unit).bind fun _ => (outlasts_captureRefs _).bind fun _ => outlasts_pure _
  · exact outlasts_fail _

/-! ## Calls -/

theorem outlasts_varCall? (hr : Lasting P rec) (s : Symbol) (args : List Form) (line : Nat) : Outlasts P (varCall? rec demand s args line) := by
  refine outlasts_read fun w => ?_
  dsimp only
  split
  · exact outlasts_pure _
  · split
    · exact (hr _ _).bind fun _ => outlasts_pure _
    · split
      · exact (outlasts_operands hr _).bind fun _ => outlasts_pure _
      · exact outlasts_pure _

theorem outlasts_instanceTest? (hr : Lasting P rec) (s : Symbol) (args : List Form) : Outlasts P (instanceTest? rec demand s args) := by
  unfold instanceTest?
  split
  · refine outlasts_read fun w => outlasts_read fun found => ?_
    split
    · exact (hr _ _).bind fun _ => outlasts_pure _
    · exact outlasts_pure _
  · exact outlasts_pure _

theorem outlasts_namedCall? (hr : Lasting P rec) (s : Symbol) (args : List Form) (line : Nat) :
    Outlasts P (namedCall? rec demand s args line) := by
  refine outlasts_read fun found => ?_
  split
  · exact outlasts_pure _
  · refine (outlasts_varCall? hr s args line).bind fun e => ?_
    split
    · exact outlasts_pure _
    · exact outlasts_instanceTest? hr s args

theorem outlasts_plainCall (hr : Lasting P rec) (head : Form) (args : List Form) (line : Nat) :
    Outlasts P (plainCall rec demand head args line) := by
  unfold plainCall
  split
  · exact (hr _ _).bind fun _ => outlasts_pure _
  · exact (hr _ _).bind fun _ => (outlasts_operands hr _).bind fun _ => outlasts_read fun _ => outlasts_pure _

theorem outlasts_invoke (hr : Lasting P rec) (head : Form) (args : List Form) : Outlasts P (invoke rec demand head args) := by
  refine outlasts_read fun s => ?_
  dsimp only
  split
  · refine (outlasts_namedCall? hr _ _ _).bind fun e => ?_
    split
    · exact outlasts_pure _
    · exact outlasts_plainCall hr _ _ _
  · exact outlasts_plainCall hr _ _ _

/-! ## All forms -/

theorem outlasts_special (hP : World.Endures P) (hr : Lasting P rec) (name : SpecialForm) (form : Form) (items : List Form) :
    Outlasts P (special rec demand name form items) := by
  cases name with
  | define => exact outlasts_define hP hr items
  | cond => exact outlasts_cond hr items
  | seq => exact outlasts_body hr items.tail
  | bind => exact outlasts_let hr form items false
  | loop => exact outlasts_let hr form items true
  | recur => exact outlasts_recur hr items
  | fn => exact outlasts_fn hP hr items
  | quote => exact outlasts_quote items
  | var => exact outlasts_theVar items
  | assign => exact outlasts_assign hr items
  | attempt => exact outlasts_attempt hr form items
  | throw => exact outlasts_throw hr form items
  | case => exact outlasts_case hP hr form items
  | dot => exact outlasts_dot hr items
  | new => exact outlasts_new hr items
  | bindFns => exact outlasts_bindFns hr form items
  | deftype => exact outlasts_deftype hP hr items
  | reify => exact outlasts_reify hP hr items
  | handler | cleanup | ampersand => exact outlasts_fail _

theorem outlasts_list (hP : World.Endures P) (hr : Lasting P rec) (form head : Form) (args : List Form) :
    Outlasts P (list rec demand form head args) := by
  refine (outlasts_once hP form).bind fun expanded => ?_
  split
  · exact hr _ _
  · split
    · exact outlasts_special hP hr _ _ _
    · exact outlasts_invoke hr _ _

/-- **What endures the single changes outlasts the analysis of a form**, however deep it nests and however it ends. -/
theorem lasting_formWithin (hP : World.Endures P) (n : Nat) : Lasting P (formWithin n) := by
  induction n with
  | zero => exact fun _ _ => outlasts_cut
  | succ n ih =>
    intro demand f
    cases f with
    | symbol s info => exact outlasts_symbol s info
    | vector items info => exact outlasts_vector ih _ items
    | map pairs info => exact outlasts_map ih _ pairs
    | set items info => exact outlasts_set ih _ items
    | list items info =>
      cases items with
      | nil => exact outlasts_pure _
      | cons head args =>
        refine outlasts_nested (Outlasts.bind (outlasts_modify fun c => ?_) fun _ => outlasts_located (outlasts_list hP ih _ head args))
        unfold Context.moveTo
        split <;> rfl
    | _ => exact outlasts_pure _

end Analyze

end LispMachine
