import LispMachine.Proofs.Analyze.Lenient
/-!
# What strict mode does to a form

The analysis of a form heeds strict mode (`heeding_formWithin`): an access that stays open is the only thing that strict
mode refuses, and only by refusing it does strict mode change anything.  There is a lemma for every special form, and a loop
that is analyzed more than once heeds strict mode in each of its passes, in those too that are thrown away.
-/
namespace LispMachine.Analyze

open Analysis

/-- Whatever is analyzed, strict mode does nothing but refuse. -/
def Heeding (rec : Analyzer) : Prop := ∀ demand f, Heeds (rec demand f)

variable {rec : Analyzer} {demand : Demand}

/-! ## Expansion -/

theorem blind_runBuiltin (e : Expander) (form : Form) (args : List Form) : Blind (Expand.runBuiltin e form args) := by
  refine blind_world fun w => ?_
  split
  · exact Blind.bind (fun _ _ _ => rfl) fun _ => blind_pure _
  · exact blind_fail _

theorem blind_valueOf (f : Form) : Blind (Expand.valueOf f) := blind_changeWorld _

theorem blind_runFunction (v : Value) (form : Form) (args : List Form) : Blind (Expand.runFunction v form args) := by
  refine (blind_valueOf form).bind fun whole => ((blind_scope fun s => blind_run _ _ : Blind Expand.visibleLocals)).bind fun locals => ?_
  refine (blind_forList blind_valueOf args).bind fun args => (blind_run _ _).bind fun expansion => ?_
  split
  · exact blind_pure _
  · exact blind_world fun w => blind_fail _

theorem blind_invokeExpander (var : Nat) (form : Form) (args : List Form) : Blind (Expand.invokeExpander var form args) := by
  refine blind_world fun w => ?_
  dsimp only
  split
  · exact blind_fail _
  · exact blind_runBuiltin _ form args
  · exact blind_runFunction _ form args

theorem blind_sugar (head : Symbol) (args : List Form) : Blind (Expand.sugar head args) := by
  unfold Expand.sugar
  split
  · exact blind_ofExcept _
  · refine blind_world fun w => ?_
    split <;> exact blind_pure _

theorem blind_once (f : Form) : Blind (Expand.once f) := by
  unfold Expand.once
  split
  · refine blind_lookupLocal _ fun found => ?_
    split
    · exact blind_pure _
    · refine blind_world fun w => ?_
      split
      · exact (blind_invokeExpander _ _ _).bind fun _ => blind_pure _
      · exact (blind_sugar _ _).bind fun _ => blind_pure _
  · exact blind_pure _

theorem blind_fully (fuel : Nat) (f : Form) : Blind (Expand.fully fuel f) := by
  induction fuel generalizing f with
  | zero => exact blind_cut
  | succ fuel ih =>
    refine (blind_once f).bind fun o => ?_
    split
    · exact ih _
    · exact blind_pure _

/-! ## Sequences, symbols and quotation -/

theorem heeds_operands (hr : Heeding rec) (forms : List Form) : Heeds (operands rec demand forms) :=
  heeds_forList (fun f => hr _ f) forms

theorem heeds_body (hr : Heeding rec) (forms : List Form) : Heeds (body rec demand forms) := by
  unfold body
  split
  · exact heeds_pure _
  · exact (heeds_forList (fun f => hr _ f) _).bind fun leading => (hr demand _).bind fun result => heeds_pure _

theorem blind_symbol (s : Symbol) (info : Option Form.Info) : Blind (symbol s info) := by
  refine blind_lookupLocal s fun found => ?_
  split
  · exact (blind_referenceLocal _ _).bind fun r => blind_pure _
  · refine blind_world fun w => ?_
    split
    · split
      · exact blind_pure _
      · exact blind_fail _
    · split
      · split
        · exact blind_fail _
        · exact blind_pure _
      · split
        · exact blind_pure _
        · exact blind_fail _

theorem blind_quote (items : List Form) : Blind (quote items) := by
  unfold quote
  split
  any_goals exact blind_pure _
  exact blind_fail _

theorem blind_theVar (items : List Form) : Blind (theVar items) := by
  unfold theVar
  split
  · refine blind_world fun w => ?_
    split
    · exact blind_pure _
    · exact blind_fail _
  · exact blind_fail _

/-! ## Definitions, conditions and assignments -/

theorem heeds_define (hr : Heeding rec) (items : List Form) : Heeds (define rec demand items) := by
  refine heeds_ofExcept fun (doc, init) => ?_
  dsimp only
  split
  · refine heeds_world fun w => ?_
    split
    · exact heeds_fail _
    · refine (blind_changeWorld _).then fun id => (blind_changeWorld _).then fun _ => ?_
      refine heeds_if (heeds_warn WarningKind.noConfusion _) ?_
      split
      · exact (hr _ _).bind fun e => (heeds_pure _).bind fun init => heeds_world fun w => heeds_pure _
      · exact (heeds_pure _).bind fun init => heeds_world fun w => heeds_pure _
  · exact heeds_fail _

theorem heeds_cond (hr : Heeding rec) (items : List Form) : Heeds (cond rec demand items) := by
  unfold cond
  split
  · exact heeds_fail _
  · split
    · refine heeds_scope fun s => (hr _ _).bind fun test => heeds_scope fun s => (blind_addPath _ _).then fun branch => ?_
      exact (heeds_arm (hr demand _) branch).bind fun yes => (heeds_arm (hr demand _) branch).bind fun no => heeds_pure _
    · exact heeds_fail _

theorem blind_assignableField (x : Nat) : Blind (assignableField x) := by
  refine blind_read (fun _ _ _ => rfl) fun c => ?_
  dsimp only
  split
  · exact (blind_closeOver x).bind fun _ => blind_pure _
  · exact blind_fail _

theorem heeds_assign (hr : Heeding rec) (items : List Form) : Heeds (assign rec demand items) := by
  unfold assign
  split
  · refine heeds_lookupLocal fun found => ?_
    split
    · exact (blind_assignableField _).then fun target => (hr _ _).bind fun e => heeds_pure _
    · refine (blind_symbol _ _).then fun e => ?_
      split
      · exact (heeds_pure _).bind fun target => (hr _ _).bind fun e => heeds_pure _
      · exact (heeds_fail _).bind fun target => (hr _ _).bind fun e => heeds_pure _
  · exact heeds_fail _
  · exact heeds_fail _

theorem heeds_throw (hr : Heeding rec) (form : Form) (items : List Form) : Heeds (throw rec demand form items) := by
  unfold throw
  split
  · split
    · exact hr demand _
    · exact (hr _ _).bind fun e => heeds_pure _
  · exact heeds_fail _
  · exact heeds_fail _

/-! ## Host members -/

theorem blind_resolveMember (k : Class) (kind : HostKind) (name : String) (args : List Expr) (missing : CompileFault) :
    Blind (resolveMember k kind name args missing) := by
  refine blind_world fun w => ?_
  dsimp only
  split
  · exact (blind_ofExcept _).bind fun _ => blind_pure _
  · exact blind_fail _

theorem blind_classNamed? (f : Form) : Blind (classNamed? f) := by
  unfold classNamed?
  split
  · refine blind_lookupLocal _ fun found => ?_
    split
    · exact blind_pure _
    · exact blind_world fun w => blind_pure _
  · exact blind_pure _

theorem heeds_staticMember (hr : Heeding rec) (k : Class) (name : String) (args : List Form) (parenthesized : Bool) (line : Nat) :
    Heeds (staticMember rec demand k name args parenthesized line) := by
  refine heeds_world fun w => ?_
  dsimp only
  split
  · exact heeds_pure _
  · refine (heeds_operands hr args).bind fun es => (blind_resolveMember _ _ _ _ _).then fun member => ?_
    exact heeds_if (heeds_reflects _) (heeds_pure _)

theorem heeds_instanceField (k : Option Class) (target : Expr) (name fieldName : String) (args : List Expr) (line : Nat) :
    Heeds (instanceField k target name fieldName args line) := by
  unfold instanceField
  split
  · exact heeds_fail _
  · exact heeds_if (heeds_reflects _) (heeds_pure _)

theorem heeds_instanceMethod (k : Option Class) (target : Expr) (name : String) (args : List Expr) (line : Nat) :
    Heeds (instanceMethod k target name args line) := by
  unfold instanceMethod
  split
  · split
    · exact heeds_pure _
    · exact (blind_resolveMember _ _ _ _ _).then fun member => heeds_if (heeds_reflects _) (heeds_pure _)
  · exact (heeds_reflects _).bind fun _ => heeds_pure _

theorem heeds_instanceMember (hr : Heeding rec) (target : Form) (name : String) (args : List Form) (parenthesized : Bool) (line : Nat) :
    Heeds (instanceMember rec demand target name args parenthesized line) := by
  refine (hr _ target).bind fun e => (heeds_operands hr args).bind fun es => heeds_world fun w => ?_
  dsimp only
  split
  all_goals
    split
    · exact heeds_instanceField _ _ _ _ _ _
    · exact heeds_instanceMethod _ _ _ _ _

/-- A member of a class that the form names, or else of the object that it gives. -/
theorem heeds_owner {form : Form} {f : Option Class → Analysis Expr} (hsome : ∀ k, Heeds (f (some k))) (hnone : Heeds (f none)) :
    Heeds (classNamed? form >>= f) := by
  refine (blind_classNamed? form).then fun found => ?_
  cases found with
  | some k => exact hsome k
  | none => exact hnone

theorem heeds_dot (hr : Heeding rec) (items : List Form) : Heeds (dot rec demand items) := by
  unfold dot
  refine heeds_scope fun s => ?_
  dsimp only
  split
  · exact heeds_owner (fun k => heeds_staticMember hr k _ _ _ _) (heeds_instanceMember hr _ _ _ _ _)
  · exact heeds_owner (fun k => heeds_staticMember hr k _ _ _ _) (heeds_instanceMember hr _ _ _ _ _)
  · exact heeds_fail _
  · exact heeds_fail _

theorem heeds_new (hr : Heeding rec) (items : List Form) : Heeds (new rec demand items) := by
  unfold new
  split
  · refine heeds_world fun w => ?_
    split
    · exact heeds_fail _
    · refine heeds_scope fun s => (heeds_operands hr _).bind fun es => ?_
      split
      · split
        · exact heeds_fail _
        · exact heeds_pure _
      · exact (blind_resolveMember _ _ _ _ _).then fun member => heeds_if (heeds_reflects _) (heeds_pure _)
  · exact heeds_fail _

/-! ## Bindings and loops -/

theorem heeds_bindAll (hr : Heeding rec) (bindings : List (Form × Form)) (boxed : List Bool) : Heeds (bindAll rec bindings boxed) := by
  induction bindings generalizing boxed with
  | nil => exact heeds_pure _
  | cons b rest ih =>
    refine heeds_ofExcept fun name => (hr _ b.2).bind fun e => heeds_read (fun _ _ => rfl) fun o => ?_
    refine heeds_if (heeds_warn WarningKind.noConfusion _) ?_
    exact (blind_registerLocal _ _ _ _).then fun id => (ih boxed.tail).bind fun bs => heeds_pure _

theorem heeds_loopBody (hr : Heeding rec) (locals : List Nat) (forms : List Form) : Heeds (loopBody rec demand locals forms) := by
  refine heeds_scope fun s => (blind_addPath _ _).then fun root => (blind_addPath _ _).then fun clearRoot => ?_
  refine (blind_addPath _ _).then fun clearPath => heeds_nested ((blind_modifyScope _).then fun _ => heeds_body hr forms)

theorem heeds_loopPass (hr : Heeding rec) (bindings : List (Form × Form)) (forms : List Form) (boxed : List Bool) :
    Heeds (loopPass rec demand bindings forms boxed) := by
  refine heeds_nested ((heeds_bindAll hr bindings boxed).bind fun inits => (heeds_loopBody hr _ forms).bind fun e => ?_)
  exact heeds_read (fun _ _ => rfl) fun c => heeds_pure _

/-- Every pass counts, although only the expression of the last one does. -/
theorem heeds_loopPasses (hr : Heeding rec) (bindings : List (Form × Form)) (forms : List Form) (passes : Nat) (boxed : List Bool) :
    Heeds (loopPasses rec demand bindings forms passes boxed) := by
  induction passes generalizing boxed with
  | zero => exact blind_cut.heeds
  | succ passes ih =>
    refine (heeds_loopPass hr bindings forms boxed).bind fun (e, next) => ?_
    dsimp only
    split
    · exact heeds_pure _
    · exact ih next

theorem heeds_let (hr : Heeding rec) (form : Form) (items : List Form) (isLoop : Bool) : Heeds (bind rec demand form items isLoop) := by
  refine heeds_ofExcept fun bindings => ?_
  split
  · exact hr demand _
  · split
    · exact heeds_loopPasses hr bindings _ _ _
    · exact heeds_nested ((heeds_bindAll hr bindings []).bind fun inits => (heeds_body hr _).bind fun e => heeds_pure _)

theorem heeds_bindFns (hr : Heeding rec) (form : Form) (items : List Form) : Heeds (bindFns rec demand form items) := by
  refine heeds_ofExcept fun bindings => ?_
  split
  · exact hr demand _
  · refine heeds_nested (Heeds.bind (heeds_forList (fun b => ?_) _) fun ids => ?_)
    · refine heeds_ofExcept fun s => (blind_registerLocal _ _ _ _).then fun id => ?_
      exact (blind_modifyBinding _ _).then fun _ => heeds_pure _
    · refine (heeds_forList (fun b => (hr _ _).bind fun e => heeds_pure _) _).bind fun inits => ?_
      exact (heeds_body hr _).bind fun e => heeds_pure _

theorem heeds_checkRecurArg (target : Nat) (value : Expr) : Heeds (checkRecurArg target value) := by
  refine heeds_read (fun _ _ => rfl) fun c => ?_
  dsimp only
  split
  · exact heeds_pure _
  · split
    · exact heeds_pure _
    · refine (blind_modifyBinding _ _).then fun _ => ?_
      split
      · exact heeds_warn WarningKind.noConfusion _
      · exact heeds_pure _

theorem heeds_recur (hr : Heeding rec) (items : List Form) : Heeds (recur rec demand items) := by
  refine heeds_scope fun s => ?_
  split
  · exact heeds_fail _
  · split
    · split
      · exact heeds_fail _
      · refine (heeds_forList (fun f => hr _ f) _).bind fun args => ?_
        split
        · exact heeds_fail _
        · exact (heeds_forM (fun ta : Nat × Expr => heeds_checkRecurArg ta.1 ta.2) _).bind fun _ => heeds_pure _
    · exact heeds_fail _

/-! ## Exceptions -/

theorem heeds_handler (hr : Heeding rec) (clause : CatchClause) : Heeds (handler rec demand clause) := by
  refine heeds_world fun w => ?_
  split
  · exact heeds_fail _
  · refine heeds_nested ((blind_modifyScope _).then fun _ => (blind_registerLocal _ _ _ _).then fun id => ?_)
    exact (heeds_body hr _).bind fun e => heeds_pure _

theorem heeds_attempt (hr : Heeding rec) (form : Form) (items : List Form) : Heeds (attempt rec demand form items) := by
  refine heeds_scope fun s => ?_
  split
  · exact hr demand _
  · refine heeds_ofExcept fun parts => blind_allocSlot.then fun resultSlot => blind_allocSlot.then fun thrownSlot => ?_
    refine (heeds_nested ((blind_modifyScope _).then fun _ => heeds_body hr _)).bind fun main => ?_
    refine (heeds_forList (heeds_handler hr) _).bind fun handlers => ?_
    dsimp only
    split
    · exact heeds_pure _
    · refine (heeds_nested ((blind_modifyScope _).then fun _ => ?_)).bind fun cleanup => heeds_pure _
      exact (heeds_body hr _).bind fun e => heeds_pure _

/-! ## Choosing by constants -/

theorem heeds_caseDefault (hr : Heeding rec) (otherwise : Option Form) (temp : Symbol) : Heeds (caseDefault rec demand otherwise temp) := by
  unfold caseDefault
  split <;> exact hr demand _

theorem heeds_case (hr : Heeding rec) (form : Form) (items : List Form) : Heeds (case rec demand form items) := by
  unfold case
  split
  · exact hr demand _
  · split
    · refine heeds_scope fun s => heeds_ofExcept fun constants => heeds_nested ?_
      refine (hr _ _).bind fun value => (blind_changeWorld _).then fun n => (blind_registerLocal _ _ _ _).then fun temp => ?_
      split
      · exact (heeds_caseDefault hr _ _).bind fun e => heeds_pure _
      · refine heeds_ifRead (fun _ _ => rfl) (fun o => heeds_warn WarningKind.noConfusion _) ?_
        · refine heeds_scope fun s => (blind_addPath _ _).then fun branch => ?_
          refine (heeds_forList (fun group => ?_) _).bind fun buckets => ?_
          · refine (heeds_forList (fun constant => ?_) _).bind fun entries => heeds_pure _
            exact (heeds_arm (hr demand _) branch).bind fun e => heeds_pure _
          · exact (heeds_arm (heeds_caseDefault hr _ _) branch).bind fun e => heeds_pure _
    · exact heeds_fail _

/-! ## Functions -/

theorem blind_unitName (localName : Option String) : Blind (unitName localName) :=
  blind_read (fun _ _ _ => rfl) fun _ => (blind_changeWorld _).bind fun _ => blind_pure _

theorem heeds_inMethod {α : Type} {x : Analysis α} (hx : Heeds x) (frame : Nat) : Heeds (inMethod frame x) := by
  refine heeds_scope fun s => ?_
  dsimp only
  split
  · exact heeds_nested ((blind_modifyScope _).then fun _ => hx)
  · exact (blind_addPath _ _).then fun root => heeds_nested ((blind_modifyScope _).then fun _ => hx)

theorem blind_captureRefs (obj : Nat) : Blind (captureRefs obj) :=
  blind_read (fun _ _ _ => rfl) fun _ => blind_forList (fun b => blind_referenceLocal b none) _

/-- The code is the same in every mode. -/
theorem heeds_emitUnit (obj : Nat) (kind : UnitKind) (methods : List FnMethod) : Heeds (emitUnit obj kind methods) :=
  heeds_read (fun c report => congrArg ofExcept (Emit.unit_lenient c obj kind methods report)) fun _ => (blind_ofExcept _).heeds

theorem blind_registerParams (params : List Form) (variadic : Bool) (fixed : List Nat) (rest : Option Nat) :
    Blind (registerParams params variadic fixed rest) := by
  induction params generalizing variadic fixed rest with
  | nil =>
    unfold registerParams
    split
    · exact blind_fail _
    · exact blind_pure _
  | cons f params ih =>
    cases f with
    | symbol s info =>
      unfold registerParams
      split
      · split
        · exact blind_fail _
        · exact ih true fixed rest
      · split
        · exact blind_fail _
        · refine (blind_ofExcept _).bind fun hint => ?_
          dsimp only
          split
          · split
            · exact blind_fail _
            · split
              · exact blind_fail _
              · exact (blind_registerLocal _ _ _ _).bind fun b => ih variadic fixed (some b)
          · exact (blind_registerLocal _ _ _ _).bind fun b => ih variadic (fixed ++ [b]) rest
    | _ => exact blind_fail _

theorem heeds_fnMethod (hr : Heeding rec) (obj : Nat) (self : Option Symbol) (params : List Form) (info : Option Form.Info)
    (forms : List Form) : Heeds (fnMethod rec obj self params info forms) := by
  refine heeds_ofExcept fun hint => heeds_scope fun s => (blind_addMethod _ _).then fun frame => ?_
  have hrest : Heeds (do
      let r ← registerParams params false [] none
      Analysis.ofExcept (checkPrims (← Analysis.read id) r.1 r.2 hint.2)
      Analysis.modifyScope fun s => { s with loopLocals := some (r.1 ++ r.2.toList) }
      let result ← body rec .tail forms
      Analysis.ofExcept (checkReturn hint.2 result.localPrim?)
      return { frame, name := "invoke", params := r.1, rest := r.2, ret := hint.2, body := result, line := s.line : FnMethod }) := by
    refine (blind_registerParams _ _ _ _).then fun r => heeds_read (fun _ _ => rfl) fun c => heeds_ofExcept fun _ => ?_
    exact (blind_modifyScope _).then fun _ => (heeds_body hr forms).bind fun e => heeds_ofExcept fun _ => heeds_pure _
  dsimp only
  split
  · exact heeds_inMethod ((blind_registerThis _ none).then fun _ => hrest) frame
  · exact heeds_inMethod hrest frame

theorem heeds_fn (hr : Heeding rec) (items : List Form) : Heeds (fn rec items) := by
  unfold fn
  dsimp only
  refine heeds_ofExcept fun bodies => heeds_scope fun s => (blind_unitName _).then fun name => (blind_addObject _ _ _).then fun obj => ?_
  refine (heeds_forList (fun b => heeds_fnMethod hr obj _ b.1 b.2.1 b.2.2) bodies).bind fun methods => heeds_ofExcept fun _ => ?_
  exact (heeds_emitUnit obj _ methods).bind fun unit => (blind_captureRefs obj).then fun refs => heeds_pure _

/-! ## Types -/

theorem blind_resolveProtocol (s : Symbol) : Blind (resolveProtocol s) := by
  refine blind_world fun w => ?_
  split
  · exact blind_fail _
  · split
    · exact blind_pure _
    · exact blind_fail _

theorem blind_checkDeclared (protocols : List (Symbol × Nat)) (methods : List TypeMethod) : Blind (checkDeclared protocols methods) := by
  refine blind_world fun w => blind_forM (fun m => ?_) methods
  split
  · exact blind_pure _
  · exact blind_fail _

theorem blind_typeParts (forms : List Form) : Blind (typeParts forms) := by
  induction forms with
  | nil => exact blind_pure _
  | cons f fs ih =>
    unfold typeParts
    split
    · exact (blind_resolveProtocol _).bind fun p => ih.bind fun parts => blind_pure _
    · split
      · exact ih.bind fun parts => blind_pure _
      · exact blind_fail _

theorem heeds_typeMethod (hr : Heeding rec) (obj : Nat) (parent : Option Nat) (tag : Option String) (m : TypeMethod) :
    Heeds (typeMethod rec obj parent tag m) := by
  unfold typeMethod
  split
  · refine heeds_scope fun s => (blind_addMethod _ _).then fun frame => heeds_inMethod ?_ frame
    refine heeds_ofExcept fun this => (blind_registerThis _ tag).then fun _ => ?_
    refine (blind_forList (fun f => (blind_ofExcept _).bind fun p => blind_registerLocal _ _ _ _) _).then fun args => ?_
    exact (blind_modifyScope _).then fun _ => (heeds_body hr _).bind fun e => heeds_pure _
  · exact heeds_fail _

theorem blind_registerFields (obj : Nat) (fields : List FieldDecl) : Blind (registerFields obj fields) :=
  blind_forM (fun _ => (blind_registerLocal _ _ _ _).bind fun _ _ _ _ => rfl) fields

theorem heeds_typeMethods (hr : Heeding rec) (obj : Nat) (name : String) (fields : List FieldDecl) (methods : List TypeMethod) :
    Heeds (typeMethods rec obj name fields methods) := by
  refine heeds_nested ((blind_addMethod _ _).then fun frame => (blind_modifyScope _).then fun _ => ?_)
  exact (blind_registerFields obj fields).then fun _ => heeds_forList (heeds_typeMethod hr obj _ _) methods

theorem heeds_deftype (hr : Heeding rec) (items : List Form) : Heeds (deftype rec items) := by
  unfold deftype
  split
  · split
    · exact heeds_fail _
    · split
      · refine heeds_ofExcept fun fields => (blind_typeParts _).then fun parts => (blind_checkDeclared _ _).then fun _ => ?_
        refine (blind_changeWorld _).then fun _ => (blind_addObject _ _ _).then fun obj => ?_
        refine (heeds_typeMethods hr obj _ _ _).bind fun methods => (heeds_emitUnit obj _ methods).bind fun unit => ?_
        exact (blind_load unit).then fun _ => heeds_pure _
      · exact heeds_fail _
  · exact heeds_fail _

theorem heeds_reify (hr : Heeding rec) (items : List Form) : Heeds (reify rec items) := by
  unfold reify
  split
  · refine Blind.then (blind_forList (fun f => ?_) _) fun protocols => Blind.then (blind_forList (fun f => ?_) _) fun methods => ?_
    · split
      · exact blind_resolveProtocol _
      · exact blind_fail _
    · split
      · exact blind_pure _
      · exact blind_fail _
    refine (blind_checkDeclared _ _).then fun _ => heeds_scope fun s => (blind_unitName _).then fun name => ?_
    refine (blind_addObject _ _ _).then fun obj => (heeds_forList (heeds_typeMethod hr obj _ _) _).bind fun methods => ?_
    refine (heeds_emitUnit obj _ methods).bind fun unit => (blind_changeWorld _).then fun _ => (blind_load unit).then fun _ => ?_
    exact (blind_captureRefs obj).then fun refs => heeds_pure _
  · exact heeds_fail _

/-! ## Calls -/

theorem heeds_varCall? (hr : Heeding rec) (s : Symbol) (args : List Form) (line : Nat) : Heeds (varCall? rec demand s args line) := by
  refine heeds_world fun w => ?_
  split
  · exact heeds_pure _
  · dsimp only
    split
    · exact (hr demand _).bind fun e => heeds_pure _
    · split
      · exact (heeds_operands hr args).bind fun es => heeds_pure _
      · exact heeds_pure _

theorem heeds_instanceTest? (hr : Heeding rec) (s : Symbol) (args : List Form) : Heeds (instanceTest? rec demand s args) := by
  unfold instanceTest?
  split
  · refine heeds_world fun w => heeds_lookupLocal fun found => ?_
    split
    · exact (hr _ _).bind fun e => heeds_pure _
    · exact heeds_pure _
  · exact heeds_pure _

theorem heeds_namedCall? (hr : Heeding rec) (s : Symbol) (args : List Form) (line : Nat) : Heeds (namedCall? rec demand s args line) := by
  refine heeds_lookupLocal fun found => ?_
  split
  · exact heeds_pure _
  · refine (heeds_varCall? hr s args line).bind fun o => ?_
    split
    · exact heeds_pure _
    · exact heeds_instanceTest? hr s args

theorem heeds_plainCall (hr : Heeding rec) (head : Form) (args : List Form) (line : Nat) : Heeds (plainCall rec demand head args line) := by
  unfold plainCall
  split
  · exact (hr _ _).bind fun e => heeds_pure _
  · exact (hr _ head).bind fun e => (heeds_operands hr args).bind fun es => heeds_scope fun s => heeds_pure _

theorem heeds_invoke (hr : Heeding rec) (head : Form) (args : List Form) : Heeds (invoke rec demand head args) := by
  refine heeds_scope fun s => ?_
  dsimp only
  split
  · refine (heeds_namedCall? hr _ args _).bind fun o => ?_
    split
    · exact heeds_pure _
    · exact heeds_plainCall hr _ args _
  · exact heeds_plainCall hr _ args _

/-! ## All forms -/

theorem heeds_special (hr : Heeding rec) (name : SpecialForm) (form : Form) (items : List Form) :
    Heeds (special rec demand name form items) := by
  cases name with
  | define => exact heeds_define hr items
  | cond => exact heeds_cond hr items
  | seq => exact heeds_body hr items.tail
  | bind => exact heeds_let hr form items false
  | loop => exact heeds_let hr form items true
  | recur => exact heeds_recur hr items
  | fn => exact heeds_fn hr items
  | quote => exact (blind_quote items).heeds
  | var => exact (blind_theVar items).heeds
  | assign => exact heeds_assign hr items
  | attempt => exact heeds_attempt hr form items
  | throw => exact heeds_throw hr form items
  | case => exact heeds_case hr form items
  | dot => exact heeds_dot hr items
  | new => exact heeds_new hr items
  | bindFns => exact heeds_bindFns hr form items
  | deftype => exact heeds_deftype hr items
  | reify => exact heeds_reify hr items
  | handler => exact heeds_fail _
  | cleanup => exact heeds_fail _
  | ampersand => exact heeds_fail _

theorem heeds_list (hr : Heeding rec) (form head : Form) (args : List Form) : Heeds (list rec demand form head args) := by
  refine (blind_once form).then fun o => ?_
  split
  · exact hr demand _
  · split
    · exact heeds_special hr _ form _
    · exact heeds_invoke hr head args

theorem blind_checkKeys (keys : List Form) : Blind (checkKeys keys) := by
  unfold checkKeys
  split
  · exact blind_fail _
  · exact blind_pure _

theorem heeds_formWith (hr : Heeding rec) (f : Form) : Heeds (formWith rec demand f) := by
  cases f with
  | symbol s info => exact (blind_symbol s info).heeds
  | vector items => exact (heeds_operands hr items).bind fun es => heeds_pure _
  | set items => exact (blind_checkKeys items).then fun _ => (heeds_operands hr items).bind fun es => heeds_pure _
  | map pairs =>
    refine (blind_checkKeys _).then fun _ => (heeds_forList (fun kv => ?_) pairs).bind fun es => heeds_pure _
    exact (hr _ kv.1).bind fun k => (hr _ kv.2).bind fun v => heeds_pure _
  | list items info =>
    cases items with
    | nil => exact heeds_pure _
    | cons head args => exact heeds_nested ((blind_moveTo _).then fun _ => heeds_located (heeds_list hr _ head args))
  | _ => exact heeds_pure _

/-- **Strict mode does nothing but refuse.**  By induction on the depth. -/
theorem heeding_formWithin (n : Nat) : Heeding (formWithin n) := by
  induction n with
  | zero => exact fun _ _ => blind_cut.heeds
  | succ n ih => exact fun demand f => heeds_formWith ih f

end LispMachine.Analyze
