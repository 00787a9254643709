import LispMachine.Proofs.Analyze.Literals
import LispMachine.Proofs.Analyze.Recurs
import LispMachine.Proofs.Analyze.Slots
/-!
# Live locals never share a slot

The parts of a form are analyzed in spaced contexts if the form is, where a `try` holds two slots more and a method starts with
none (`Held.within`).  There is a lemma for every special form, and they are put together in `spacesAt_formWith`: whatever the
analyzer of the parts may do elsewhere, it does not matter.
-/
namespace LispMachine

namespace Analyze

open Analysis Context

/-! ## What is held inside a form -/

/-- The name of the object in a method of a type. -/
def TypeMethod.receiver? (m : TypeMethod) : Option Symbol :=
  match m.rest with
  | .vector (.symbol s _ :: _) _ :: _ => some s
  | _ => none

/-- The names of the objects in the methods among these forms. -/
def receivers (forms : List Form) : List Symbol := forms.filterMap fun f => (typeMethod? f).bind TypeMethod.receiver?

/-- The name that a function has for itself. -/
def selfName : List Form → Option Symbol
  | .symbol s _ :: _ => some s
  | _ => none

end Analyze

open Analyze Analysis Context

/-- A `try` that is not made a function of its own takes the next two slots, one for its result and one for its exception. -/
def Held.trying (g : Held) (c : Context) (demand : Demand) : Held :=
  if demand == .tail && c.scope.methodReturn then { g with tries := (c.scope.nextSlot + 1) :: c.scope.nextSlot :: g.tries } else g

/-- What is held while the parts of a form are analyzed. -/
def Held.within (g : Held) (c : Context) (demand : Demand) : Form → Held
  | .list (head :: args) _ =>
    match head.symbol?.bind SpecialForm.ofSymbol? with
    | some .attempt => g.trying c demand
    | some .fn => { selves := (selfName args).toList }
    | some .deftype | some .reify => { selves := receivers args }
    | _ => g
  | _ => g

namespace Analyze

/-- From spaced contexts the second analyzer does what the first one does, which keeps everything there and comes back to the
scope, however it ends. -/
def Spacing (g : Held) (rec rec' : Analyzer) : Prop := ∀ demand f, Spaces g true (rec demand f) (rec' demand f)

variable {g : Held} {still : Bool} {rec rec' : Analyzer} {demand : Demand} {c : Context}

/-! ## Sequences -/

theorem spaces_rec (hr : Spacing g rec rec') (demand : Demand) (f : Form) : Spaces g still (rec demand f) (rec' demand f) :=
  (hr demand f).any

theorem spaces_operands (hr : Spacing g rec rec') (forms : List Form) :
    Spaces g still (operands rec demand forms) (operands rec' demand forms) := spaces_forList fun f _ => spaces_rec hr _ f

theorem spaces_body (hr : Spacing g rec rec') (forms : List Form) : Spaces g still (body rec demand forms) (body rec' demand forms) := by
  unfold body
  split
  · exact spaces_pure _
  · exact (spaces_forList fun f _ => spaces_rec hr _ f).bind fun leading => (spaces_rec hr _ _).bind fun result => spaces_pure _

/-! ## Symbols and quotation -/

theorem spaces_symbol (s : Symbol) (info : Option Form.Info) : Spaces g still (symbol s info) (symbol s info) := by
  refine spaces_read fun found => ?_
  split
  · exact (spaces_referenceLocal _ _).bind fun _ => spaces_pure _
  · refine spaces_read fun w => ?_
    split
    · split
      · exact spaces_pure _
      · exact spaces_fail _
    · split
      · split
        · exact spaces_fail _
        · exact spaces_pure _
      · split
        · exact spaces_pure _
        · exact spaces_fail _

theorem aside_quote (items : List Form) : Aside (quote items) := by
  unfold quote
  split
  any_goals exact aside_pure _
  exact aside_fail _

theorem aside_theVar (items : List Form) : Aside (theVar items) := by
  unfold theVar
  split
  · refine aside_reading fun w => ?_
    split
    · exact aside_pure _
    · exact aside_fail _
  · exact aside_fail _

/-! ## Definitions, conditions and assignments -/

theorem spaces_define (hr : Spacing g rec rec') (items : List Form) :
    Spaces g still (define rec demand items) (define rec' demand items) := by
  unfold define
  refine spaces_ofExcept fun parts => ?_
  obtain ⟨doc, init⟩ := parts
  dsimp only
  split
  · refine spaces_read fun w => ?_
    split
    · exact spaces_fail _
    · refine spaces_aside (aside_changeWorld _) fun id => spaces_aside (aside_changeWorld _) fun _ => ?_
      cases init with
      | none => exact spaces_if (aside_warn _ _) (spaces_read fun _ => spaces_read fun _ => spaces_pure _)
      | some f =>
        exact spaces_if (aside_warn _ _) ((spaces_rec hr _ f).bind fun e => spaces_read fun _ => spaces_read fun _ => spaces_pure _)
  · exact spaces_fail _

theorem spaces_cond (hr : Spacing g rec rec') (items : List Form) : Spaces g still (cond rec demand items) (cond rec' demand items) := by
  unfold cond
  split
  · exact spaces_fail _
  · split
    · refine spaces_read fun s => (spaces_rec hr _ _).bind fun test => spaces_read fun s => ?_
      refine spaces_aside (aside_addPath _ _) fun branch => ?_
      refine (spaces_arm (spaces_rec hr _ _)).bind fun yes => (spaces_arm (spaces_rec hr _ _)).bind fun no => spaces_pure _
    · exact spaces_fail _

theorem spaces_assignableField (x : Nat) : Spaces g still (assignableField x) (assignableField x) := by
  refine spaces_read fun c => ?_
  dsimp only
  split
  · exact (spaces_modify fun c => ⟨c.retains_closeOver x, c.scope_closeOver x⟩).bind fun _ => spaces_pure _
  · exact spaces_fail _

theorem spaces_assign (hr : Spacing g rec rec') (items : List Form) :
    Spaces g still (assign rec demand items) (assign rec' demand items) := by
  unfold assign
  split
  · refine spaces_read fun found => ?_
    split
    · exact (spaces_assignableField _).bind fun target => (spaces_rec hr _ _).bind fun e => spaces_pure _
    · refine (spaces_symbol _ _).bind fun e => ?_
      split
      · exact spaces_read fun _ => (spaces_rec hr _ _).bind fun e => spaces_pure _
      · exact spaces_fail _
  · exact spaces_fail _
  · exact spaces_fail _

theorem spaces_throw (hr : Spacing g rec rec') (form : Form) (items : List Form) :
    Spaces g still (throw rec demand form items) (throw rec' demand form items) := by
  unfold throw
  split
  · split
    · exact spaces_rec hr _ _
    · exact (spaces_rec hr _ _).bind fun e => spaces_pure _
  · exact spaces_fail _
  · exact spaces_fail _

/-! ## Host members -/

theorem spaces_staticMember (hr : Spacing g rec rec') (k : Class) (name : String) (args : List Form) (parenthesized : Bool) (line : Nat) :
    Spaces g still (staticMember rec demand k name args parenthesized line) (staticMember rec' demand k name args parenthesized line) := by
  unfold staticMember
  refine spaces_read fun w => ?_
  dsimp only
  split
  · exact spaces_pure _
  · refine (spaces_operands hr args).bind fun es => spaces_aside (aside_resolveMember _ _ _ _ _) fun member => ?_
    exact spaces_if (aside_reflects _) (spaces_pure _)

theorem aside_instanceField (k : Option Class) (target : Expr) (name fieldName : String) (args : List Expr) (line : Nat) :
    Aside (instanceField k target name fieldName args line) := by
  unfold instanceField
  split
  · exact aside_fail _
  · exact aside_if (aside_reflects _) (aside_pure _)

theorem aside_instanceMethod (k : Option Class) (target : Expr) (name : String) (args : List Expr) (line : Nat) :
    Aside (instanceMethod k target name args line) := by
  unfold instanceMethod
  split
  · split
    · exact aside_pure _
    · exact (aside_resolveMember _ _ _ _ _).bind fun _ => aside_if (aside_reflects _) (aside_pure _)
  · exact (aside_reflects _).bind fun _ => aside_pure _

theorem spaces_instanceMember (hr : Spacing g rec rec') (target : Form) (name : String) (args : List Form) (parenthesized : Bool)
    (line : Nat) :
    Spaces g still (instanceMember rec demand target name args parenthesized line)
      (instanceMember rec' demand target name args parenthesized line) := by
  unfold instanceMember
  refine (spaces_rec hr _ target).bind fun e => (spaces_operands hr args).bind fun es => spaces_read fun w => ?_
  dsimp only
  split
  all_goals
    split
    · exact (aside_instanceField _ _ _ _ _ _).spaces
    · exact (aside_instanceMethod _ _ _ _ _).spaces

theorem spaces_dot (hr : Spacing g rec rec') (items : List Form) : Spaces g still (dot rec demand items) (dot rec' demand items) := by
  unfold dot
  refine spaces_read fun s => ?_
  dsimp only
  split
  · refine spaces_aside (aside_classNamed? _) fun found => ?_
    split
    · exact spaces_staticMember hr _ _ _ _ _
    · exact spaces_instanceMember hr _ _ _ _ _
  · refine spaces_aside (aside_classNamed? _) fun found => ?_
    split
    · exact spaces_staticMember hr _ _ _ _ _
    · exact spaces_instanceMember hr _ _ _ _ _
  · exact spaces_fail _
  · exact spaces_fail _

theorem spaces_new (hr : Spacing g rec rec') (items : List Form) : Spaces g still (new rec demand items) (new rec' demand items) := by
  unfold new
  split
  · refine spaces_read fun w => ?_
    split
    · exact spaces_fail _
    · refine spaces_read fun s => (spaces_operands hr _).bind fun es => ?_
      split
      · split
        · exact spaces_fail _
        · exact spaces_pure _
      · refine spaces_aside (aside_resolveMember _ _ _ _ _) fun member => ?_
        exact spaces_if (aside_reflects _) (spaces_pure _)
  · exact spaces_fail _

/-! ## Bindings and loops -/

/-- Each local that is bound takes the next slot. -/
theorem spaces_bindAll (hr : Spacing g rec rec') (bindings : List (Form × Form)) (boxed : List Bool) :
    Spaces g false (bindAll rec bindings boxed) (bindAll rec' bindings boxed) := by
  induction bindings generalizing boxed with
  | nil => exact spaces_pure _
  | cons b rest ih =>
    unfold bindAll
    refine spaces_ofExcept fun name => (spaces_rec hr _ b.2).bind fun e => spaces_read fun c => ?_
    refine spaces_if (aside_warn _ _) ((spaces_registerLocal _ _ _ _).bind fun id => ?_)
    exact (ih boxed.tail).bind fun bs => spaces_pure _

theorem spaces_loopBody (hr : Spacing g rec rec') (locals : List Nat) (forms : List Form) :
    Spaces g still (loopBody rec demand locals forms) (loopBody rec' demand locals forms) := by
  refine spaces_read fun s => spaces_aside (aside_addPath _ _) fun root => ?_
  refine spaces_aside (aside_addPath _ _) fun clearRoot => spaces_aside (aside_addPath _ _) fun clearPath => ?_
  exact spaces_nested (spaces_shift (fun _ => rfl) (spaces_body hr forms))

theorem spaces_loopPass (hr : Spacing g rec rec') (bindings : List (Form × Form)) (forms : List Form) (boxed : List Bool) :
    Spaces g still (loopPass rec demand bindings forms boxed) (loopPass rec' demand bindings forms boxed) := by
  refine spaces_nested ((spaces_bindAll hr bindings boxed).bind fun inits => (spaces_loopBody hr _ forms).bind fun e => ?_)
  exact spaces_read fun c => spaces_pure _

/-- Every pass starts from the scope from which the first one has started. -/
theorem spaces_loopPasses (hr : Spacing g rec rec') (bindings : List (Form × Form)) (forms : List Form) (passes : Nat)
    (boxed : List Bool) :
    Spaces g still (loopPasses rec demand bindings forms passes boxed) (loopPasses rec' demand bindings forms passes boxed) := by
  induction passes generalizing boxed with
  | zero => exact spaces_cut
  | succ passes ih =>
    refine (spaces_loopPass hr bindings forms boxed).bind fun pass => ?_
    obtain ⟨e, next⟩ := pass
    dsimp only
    split
    · exact spaces_pure e
    · exact ih next

theorem spaces_let (hr : Spacing g rec rec') (form : Form) (items : List Form) (isLoop : Bool) :
    Spaces g still (bind rec demand form items isLoop) (bind rec' demand form items isLoop) := by
  refine spaces_ofExcept fun bindings => ?_
  split
  · exact spaces_rec hr _ _
  · split
    · exact spaces_loopPasses hr bindings _ _ _
    · exact spaces_nested ((spaces_bindAll hr bindings []).bind fun inits => (spaces_body hr _).bind fun e => spaces_pure _)

theorem spaces_bindFns (hr : Spacing g rec rec') (form : Form) (items : List Form) :
    Spaces g still (bindFns rec demand form items) (bindFns rec' demand form items) := by
  refine spaces_ofExcept fun bindings => ?_
  split
  · exact spaces_rec hr _ _
  · refine spaces_nested (Spaces.bind (spaces_forList fun b _ => ?_) fun ids => ?_)
    · refine spaces_ofExcept fun s => (spaces_registerLocal _ _ _ _).bind fun id => ?_
      refine Spaces.bind (spaces_modify fun c => ⟨?_, rfl⟩) fun _ => spaces_pure _
      exact c.retains_modifyBinding id (fun _ => rfl) fun _ => rfl
    · refine Spaces.bind (spaces_forList fun b _ => ?_) fun inits => (spaces_body hr _).bind fun e => spaces_pure _
      exact (spaces_rec hr _ _).bind fun e => spaces_pure _

/-! ## Recur -/

theorem spaces_checkRecurArg (target : Nat) (arg : Expr) : Spaces g still (checkRecurArg target arg) (checkRecurArg target arg) := by
  refine spaces_read fun c => ?_
  dsimp only
  split
  · exact spaces_pure _
  · split
    · exact spaces_pure _
    · refine Spaces.bind (spaces_modify fun c => ⟨?_, rfl⟩) fun _ => ?_
      · exact c.retains_modifyBinding target (fun _ => rfl) fun _ => rfl
      · split
        · exact (aside_warn _ _).spaces
        · exact spaces_pure _

theorem spaces_recur (hr : Spacing g rec rec') (items : List Form) :
    Spaces g still (recur rec demand items) (recur rec' demand items) := by
  refine spaces_read fun s => ?_
  split
  · exact spaces_fail _
  · split
    · split
      · exact spaces_fail _
      · refine (spaces_forList fun f _ => spaces_rec hr _ f).bind fun args => ?_
        split
        · exact spaces_fail _
        · exact (spaces_forM (fun ta : Nat × Expr => spaces_checkRecurArg ta.1 ta.2) _).bind fun _ => spaces_pure _
    · exact spaces_fail _

/-! ## Exceptions -/

theorem spaces_handler (hr : Spacing g rec rec') (clause : CatchClause) :
    Spaces g still (handler rec demand clause) (handler rec' demand clause) := by
  refine spaces_read fun w => ?_
  split
  · exact spaces_fail _
  · refine spaces_nested (spaces_shift (fun _ => rfl) ?_)
    exact (spaces_registerLocal _ _ _ _).bind fun b => (spaces_body hr _).bind fun e => spaces_pure _

theorem trying_of_expression (h : (demand != .tail || !c.scope.methodReturn) = true) : g.trying c demand = g := by
  refine if_neg fun ht => ?_
  rw [Bool.and_eq_true] at ht
  rw [bne, ht.1, ht.2] at h
  cases h

theorem trying_of_tail (h : ¬ (demand != .tail || !c.scope.methodReturn) = true) :
    g.trying c demand = { g with tries := (c.scope.nextSlot + 1) :: c.scope.nextSlot :: g.tries } := by
  refine if_pos ?_
  rw [bne, Bool.not_eq_true, Bool.or_eq_false_iff, Bool.not_eq_false', Bool.not_eq_false'] at h
  rw [h.1, h.2]
  rfl

/-- The two slots of a `try` are held until the end of the form. -/
theorem spacesAt_attempt (hc : c.Spaced g) (hr : Spacing (g.trying c demand) rec rec') (form : Form) (items : List Form) :
    SpacesAt g false c (attempt rec demand form items) (attempt rec' demand form items) := by
  have hrelease : ∀ (h : Held) (slot : Nat) (c' : Context), c'.Spaced { h with tries := slot :: h.tries } → c'.Spaced h :=
    fun h slot c' hc' => hc'.mono (List.sublist_cons_self _ _) fun _ hs => hs
  refine spacesAt_read ?_
  split
  · rename_i h
    rw [trying_of_expression h] at hr
    exact spaces_rec hr _ _ c hc
  · rename_i h
    rw [trying_of_tail h] at hr
    refine spacesAt_ofExcept hc fun parts _ => ?_
    have hc₂ : c.allocSlot.2.allocSlot.2.Spaced { g with tries := (c.scope.nextSlot + 1) :: c.scope.nextSlot :: g.tries } :=
      spaced_allocSlot (spaced_allocSlot hc)
    refine .change c.retains_allocSlot (fun h => Bool.noConfusion h) ?_ (hrelease g c.scope.nextSlot)
    refine .change (retains_allocSlot _) (fun h => Bool.noConfusion h) ?_ (hrelease _ (c.scope.nextSlot + 1))
    refine Spaces.at ?_ hc₂
    refine Spaces.bind (spaces_nested (spaces_shift (fun _ => rfl) (spaces_body hr _))) fun main => ?_
    refine (spaces_forList fun clause _ => spaces_handler hr clause).bind fun handlers => ?_
    dsimp only
    split
    · exact spaces_read fun _ => spaces_pure _
    · refine Spaces.bind (spaces_nested (spaces_shift (fun _ => rfl) ?_)) fun cleanup => spaces_pure _
      exact (spaces_body hr _).bind fun e => spaces_pure _

/-! ## Choosing by constants -/

theorem spaces_caseDefault (hr : Spacing g rec rec') (otherwise : Option Form) (temp : Symbol) :
    Spaces g still (caseDefault rec demand otherwise temp) (caseDefault rec' demand otherwise temp) := by
  unfold caseDefault
  split <;> exact spaces_rec hr _ _

theorem spaces_case (hr : Spacing g rec rec') (form : Form) (items : List Form) :
    Spaces g still (case rec demand form items) (case rec' demand form items) := by
  unfold case
  split
  · exact spaces_rec hr _ _
  · split
    · refine spaces_read fun s => spaces_ofExcept fun constants => spaces_nested ?_
      refine (spaces_rec hr _ _).bind fun value => spaces_aside (aside_changeWorld _) fun n => ?_
      refine (spaces_registerLocal _ _ _ _).bind fun temp => ?_
      split
      · exact (spaces_caseDefault hr _ _).bind fun e => spaces_pure _
      · refine spaces_ifRead (fun _ => aside_warn _ _) (spaces_read fun s => spaces_aside (aside_addPath _ _) fun branch => ?_)
        refine Spaces.bind (spaces_forList fun group _ => ?_) fun buckets => ?_
        · refine Spaces.bind (spaces_forList fun constant _ => ?_) fun entries => spaces_pure _
          exact (spaces_arm (spaces_rec hr _ _)).bind fun e => spaces_pure _
        · exact (spaces_arm (spaces_caseDefault hr _ _)).bind fun e => spaces_pure _
    · exact spaces_fail _

/-! ## Functions -/

/-- A method of its own starts with nothing in use. -/
theorem spaces_inMethod {α : Type} {h : Held} {x x' : Nat → Analysis α} (obj : Nat) (parent : Option Nat)
    (hx : ∀ frame c, c.Entered → SpacesAt h false c (x frame) (x' frame)) :
    Spaces g still (change (·.addMethod obj parent) >>= fun frame => inMethod frame (x frame))
      (change (·.addMethod obj parent) >>= fun frame => inMethod frame (x' frame)) := by
  refine Spaces.any fun c hc => ?_
  have hr := retains_addMethod c obj parent
  have hlt := lt_addMethod c obj parent
  have hc₁ : (c.addMethod obj parent).2.Spaced g := hc.retains hr rfl
  refine .change hr (fun _ => rfl) ?_ fun _ h => h
  -- the root of the paths may be new, but there is no other step before the method is entered
  have hin : ∀ root c₂, (c.addMethod obj parent).2.Keeps g true c₂ → SpacesAt g true c₂
      (Analysis.nested do
        Analysis.modifyScope fun s => {
          method := some c.methods.size, nextSlot := 1, clearPath := some root, clearRoot := some root
          methodReturn := true, env := s.env, line := s.line, column := s.column }
        x c.methods.size)
      (Analysis.nested do
        Analysis.modifyScope fun s => {
          method := some c.methods.size, nextSlot := 1, clearPath := some root, clearRoot := some root
          methodReturn := true, env := s.env, line := s.line, column := s.column }
        x' c.methods.size) := by
    intro root c₂ hk
    have henv : c₂.scope.env = c.scope.env := congrArg Scope.env (hk.scope rfl)
    have hretains : ∀ r, c.Retains (c₂.modifyScope r) := fun r => hr.trans (hk.retains.trans (retains_modifyScope c₂ r))
    refine spacesAt_enter hk.spaced (hx _ _ (entered_of_new hc (hretains _) rfl rfl (Nat.le_refl _) ?_ ?_))
    · exact Nat.lt_of_lt_of_le hlt hk.retains.methods
    · exact fun e he => henv ▸ he
  refine spacesAt_read ?_
  dsimp only
  split
  · exact hin _ _ ⟨.refl _, hc₁, fun _ => rfl⟩
  · exact ((aside_addPath _ _).spaces _ hc₁).bind fun root c₂ _ => hin root c₂

theorem spaces_registerParams (params : List Form) (variadic : Bool) (fixed : List Nat) (rest : Option Nat) :
    Spaces g false (registerParams params variadic fixed rest) (registerParams params variadic fixed rest) := by
  induction params generalizing variadic fixed rest with
  | nil =>
    unfold registerParams
    split
    · exact spaces_fail _
    · exact spaces_pure _
  | cons f params ih =>
    cases f with
    | symbol s info =>
      unfold registerParams
      split
      · split
        · exact spaces_fail _
        · exact ih true fixed rest
      · split
        · exact spaces_fail _
        · refine spaces_ofExcept fun hint => ?_
          dsimp only
          split
          · split
            · exact spaces_fail _
            · split
              · exact spaces_fail _
              · exact (spaces_registerLocal _ _ _ _).bind fun b => ih variadic fixed (some b)
          · exact (spaces_registerLocal _ _ _ _).bind fun b => ih variadic (fixed ++ [b]) rest
    | _ => exact spaces_fail _

/-- The name of the object takes slot zero. -/
theorem spacesAt_registerThis {α : Type} {selves : List Symbol} {f f' : Nat → Analysis α} (hc : c.Entered) {name : Symbol}
    (hname : name ∈ selves) (tag : Option String) (hf : ∀ id, Spaces { selves } false (f id) (f' id)) :
    SpacesAt { selves } false c (change (·.registerThis name tag) >>= f) (change (·.registerThis name tag) >>= f') :=
  .change (retains_addBinding c _) (fun h => Bool.noConfusion h) (hf _ _ (spaced_registerThis hc hname tag)) fun _ h => h

/-- The body of a method, once its parameters are there. -/
theorem spaces_methodBody {α : Type} (hr : Spacing g rec rec') (forms : List Form) {params : List Nat} {f : Expr → Analysis α}
    (hf : ∀ e, Aside (f e)) : Spaces g false
      (do
        Analysis.modifyScope fun s => { s with loopLocals := some params }
        f (← body rec .tail forms))
      (do
        Analysis.modifyScope fun s => { s with loopLocals := some params }
        f (← body rec' .tail forms)) :=
  spaces_shift (fun _ => rfl) ((spaces_body hr forms).bind fun e => (hf e).spaces)

theorem spaces_fnMethod {self : Option Symbol} (hr : Spacing { selves := self.toList } rec rec') (obj : Nat) (params : List Form)
    (info : Option Form.Info) (forms : List Form) :
    Spaces g still (fnMethod rec obj self params info forms) (fnMethod rec' obj self params info forms) := by
  have hrest : ∀ (frame : Nat) (ret : Option Prim) (line : Nat), Spaces { selves := self.toList } false
      (do
        let all ← registerParams params false [] none
        Analysis.ofExcept (checkPrims (← Analysis.read id) all.1 all.2 ret)
        Analysis.modifyScope fun s => { s with loopLocals := some (all.1 ++ all.2.toList) }
        let result ← body rec .tail forms
        Analysis.ofExcept (checkReturn ret result.localPrim?)
        return { frame, name := "invoke", params := all.1, rest := all.2, ret, body := result, line : FnMethod })
      (do
        let all ← registerParams params false [] none
        Analysis.ofExcept (checkPrims (← Analysis.read id) all.1 all.2 ret)
        Analysis.modifyScope fun s => { s with loopLocals := some (all.1 ++ all.2.toList) }
        let result ← body rec' .tail forms
        Analysis.ofExcept (checkReturn ret result.localPrim?)
        return { frame, name := "invoke", params := all.1, rest := all.2, ret, body := result, line : FnMethod }) := by
    intro frame ret line
    refine (spaces_registerParams params false [] none).bind fun r => spaces_read fun c => spaces_ofExcept fun _ => ?_
    exact spaces_methodBody hr forms fun e => (aside_ofExcept _).bind fun _ => aside_pure _
  refine spaces_ofExcept fun hint => spaces_read fun s => spaces_inMethod (h := { selves := self.toList }) obj _ fun frame c hc => ?_
  cases self with
  | some name => exact spacesAt_registerThis hc (List.mem_singleton_self name) none fun _ => hrest frame _ _
  | none => exact hrest frame _ _ c hc.spaced

theorem spaces_captureRefs (obj : Nat) : Spaces g still (captureRefs obj) (captureRefs obj) :=
  spaces_read fun _ => spaces_forList fun x _ => spaces_referenceLocal x none

theorem spaces_fn {head : Form} {args : List Form} (hr : Spacing { selves := (selfName args).toList } rec rec') :
    Spaces g still (fn rec (head :: args)) (fn rec' (head :: args)) := by
  unfold fn
  dsimp only
  refine spaces_ofExcept fun bodies => spaces_read fun s => spaces_aside (aside_unitName _) fun name => ?_
  refine (spaces_addObject _ _ _).bind fun obj => ?_
  refine (spaces_forList fun b _ => spaces_fnMethod ?_ obj b.1 b.2.1 b.2.2).bind fun methods => spaces_ofExcept fun _ => ?_
  · cases args with
    | nil => exact hr
    | cons f rest => cases f <;> exact hr
  · exact spaces_aside (aside_emitUnit _ _ _) fun unit => (spaces_captureRefs obj).bind fun refs => spaces_pure _

/-! ## Types -/

/-- Every method has one of these names for its object, if it has one. -/
def Received (selves : List Symbol) (methods : List TypeMethod) : Prop := ∀ m ∈ methods, ∀ s, m.receiver? = some s → s ∈ selves

variable {selves : List Symbol}

theorem methodParam_eq_ok {name : String} {f : Form} {s : Symbol} {info : Option Form.Info} (h : methodParam name f = .ok (s, info)) :
    f = .symbol s info := by
  unfold methodParam at h
  split at h
  · split at h
    · cases h
    · cases h
      rfl
  · cases h

theorem spaces_typeMethod (hr : Spacing { selves } rec rec') (obj : Nat) (parent : Option Nat) (tag : Option String) {m : TypeMethod}
    (hm : ∀ s, m.receiver? = some s → s ∈ selves) :
    Spaces g still (typeMethod rec obj parent tag m) (typeMethod rec' obj parent tag m) := by
  unfold typeMethod
  split
  · rename_i this params info forms hrest
    refine spaces_read fun s => spaces_inMethod (h := { selves }) obj parent fun frame c hc => ?_
    refine spacesAt_ofExcept (hc.spaced.mono (List.Sublist.refl _) fun _ h => by cases h) fun p hp => ?_
    obtain ⟨name, place⟩ := p
    refine spacesAt_registerThis hc (hm name ?_) tag fun _ => ?_
    · rw [TypeMethod.receiver?, hrest, methodParam_eq_ok hp]
    · refine (spaces_forList fun f _ => spaces_ofExcept fun p => spaces_registerLocal _ _ _ _).bind fun args => ?_
      exact spaces_methodBody hr forms fun e => aside_pure _
  · exact spaces_fail _

theorem spaces_typeMethodList (hr : Spacing { selves } rec rec') (obj : Nat) (parent : Option Nat) (tag : Option String)
    {methods : List TypeMethod} (hm : Received selves methods) :
    Spaces g still (Analysis.forList (typeMethod rec obj parent tag) methods) (Analysis.forList (typeMethod rec' obj parent tag) methods) :=
  spaces_forList fun m hmem => spaces_typeMethod hr obj parent tag (hm m hmem)

theorem spaces_registerFields (obj : Nat) (fields : List FieldDecl) :
    Spaces g false (registerFields obj fields) (registerFields obj fields) := by
  refine spaces_forM (fun f => ?_) fields
  refine Spaces.bind (spaces_registerLocal _ _ _ _) fun id => spaces_modify fun c => ⟨?_, rfl⟩
  refine Retains.trans ?_ (retains_capture _ obj id)
  exact c.retains_modifyBinding id (fun _ => rfl) fun _ => rfl

/-- The fields are the locals of a method of their own, and nothing else is visible. -/
theorem spaces_typeMethods (hr : Spacing { selves } rec rec') (obj : Nat) (name : String) (fields : List FieldDecl)
    {methods : List TypeMethod} (hm : Received selves methods) :
    Spaces g still (typeMethods rec obj name fields methods) (typeMethods rec' obj name fields methods) := by
  have hrest : ∀ frame : Nat, Spaces {} false
      (do
        registerFields obj fields
        Analysis.forList (typeMethod rec obj (some frame) (some name)) methods)
      (do
        registerFields obj fields
        Analysis.forList (typeMethod rec' obj (some frame) (some name)) methods) :=
    fun frame => (spaces_registerFields obj fields).bind fun _ => spaces_typeMethodList hr obj _ _ hm
  intro c hc
  have hretains := (retains_addMethod c obj none).trans (retains_modifyScope _ fun s => {
    method := some c.methods.size, nextSlot := 1, line := s.line, column := s.column })
  have hentered := entered_of_new hc hretains rfl rfl (Nat.le_refl _) (lt_addMethod c obj none) fun _ he => absurd he List.not_mem_nil
  obtain ⟨hsame, hkeeps⟩ := hrest c.methods.size _ hentered.spaced
  exact spacesAt_nested hc hsame (hretains.trans hkeeps.retains)

theorem exists_of_mem_forList {α β : Type} {f : α → Analysis β} {as : List α} {bs : List β} {c c' : Context}
    (h : Analysis.forList f as c = (.ok bs, c')) : ∀ b ∈ bs, ∃ a ∈ as, ∃ c₁ c₂, f a c₁ = (.ok b, c₂) := by
  have hall := forList_eq_ok h
  clear h
  induction hall with
  | nil => exact fun b hb => absurd hb List.not_mem_nil
  | cons hab _ ih =>
    refine List.forall_mem_cons.2 ⟨⟨_, List.mem_cons_self, hab⟩, fun b hb => ?_⟩
    exact (ih b hb).imp fun a ha => ha.imp_left (List.mem_cons_of_mem _)

theorem mem_typeParts {forms : List Form} {protocols : List (Symbol × Nat)} {methods : List TypeMethod} {c c' : Context}
    (h : typeParts forms c = (.ok (protocols, methods), c')) : ∀ m ∈ methods, ∃ f ∈ forms, typeMethod? f = some m := by
  induction forms generalizing protocols methods c c' with
  | nil =>
    cases h
    exact fun _ hm => absurd hm List.not_mem_nil
  | cons f fs ih =>
    have hlater : ∀ {ms : List TypeMethod}, (∀ m ∈ ms, ∃ f ∈ fs, typeMethod? f = some m) →
        ∀ m ∈ ms, ∃ f' ∈ f :: fs, typeMethod? f' = some m :=
      fun h m hm => (h m hm).imp fun f' hf => hf.imp_left (List.mem_cons_of_mem f)
    unfold typeParts at h
    split at h
    · obtain ⟨p, c₁, -, h⟩ := bind_eq_ok h
      obtain ⟨parts, c₂, hparts, h⟩ := bind_eq_ok h
      cases h
      exact hlater (ih hparts)
    · cases hm : typeMethod? f with
      | none =>
        simp only [hm] at h
        cases h
      | some m =>
        simp only [hm] at h
        obtain ⟨parts, c₁, hparts, h⟩ := bind_eq_ok h
        cases h
        exact List.forall_mem_cons.2 ⟨⟨_, List.mem_cons_self, hm⟩, hlater (ih hparts)⟩

/-- The methods are among the forms. -/
theorem received_of_forms {args : List Form} {methods : List TypeMethod}
    (h : ∀ m ∈ methods, ∃ f ∈ args, typeMethod? f = some m) :
    Received (receivers args) methods := by
  intro m hm s hs
  obtain ⟨f, hf, hmethod⟩ := h m hm
  exact List.mem_filterMap.2 ⟨f, hf, by rw [hmethod]; exact hs⟩

theorem spaces_deftype {head : Form} {args : List Form}
    (hr : Spacing { selves := receivers args } rec rec') :
    Spaces g still (deftype rec (head :: args)) (deftype rec' (head :: args)) := by
  unfold deftype
  split
  · rename_i s info rest hitems
    obtain ⟨-, rfl⟩ := List.cons.inj hitems
    split
    · exact spaces_fail _
    · split
      · rename_i fields place rest
        refine spaces_ofExcept fun decls => spaces_known (aside_typeParts _) fun parts c c' hparts => ?_
        have hmethods : Received (receivers (.symbol s info :: .vector fields place :: rest)) parts.2 :=
          received_of_forms fun m hm => (mem_typeParts hparts m hm).imp fun f hf =>
            hf.imp_left fun h => List.mem_cons_of_mem _ (List.mem_cons_of_mem _ h)
        refine spaces_aside (aside_checkDeclared _ _) fun _ => spaces_aside (aside_changeWorld _) fun _ => ?_
        refine (spaces_addObject _ _ _).bind fun obj => (spaces_typeMethods hr obj _ _ hmethods).bind fun methods => ?_
        exact spaces_aside (aside_emitUnit _ _ _) fun unit => spaces_aside (aside_load unit) fun _ => spaces_pure _
      · exact spaces_fail _
  · exact spaces_fail _

theorem spaces_reify {head : Form} {args : List Form}
    (hr : Spacing { selves := receivers args } rec rec') :
    Spaces g still (reify rec (head :: args)) (reify rec' (head :: args)) := by
  unfold reify
  split
  · rename_i protocols place rest hitems
    obtain ⟨-, rfl⟩ := List.cons.inj hitems
    refine spaces_aside (aside_forList (fun f => ?_) _) fun resolved => ?_
    · split
      · exact aside_resolveProtocol _
      · exact aside_fail _
    refine spaces_known (aside_forList (fun f => ?_) _) fun methods c c' hlist => ?_
    · split
      · exact aside_pure _
      · exact aside_fail _
    have hmethods : Received (receivers (.vector protocols place :: rest)) methods := received_of_forms fun m hm => by
      obtain ⟨f, hf, c₁, c₂, hm⟩ := exists_of_mem_forList hlist m hm
      refine ⟨f, List.mem_cons_of_mem _ hf, ?_⟩
      cases hmethod : typeMethod? f with
      | some m' =>
        simp only [hmethod] at hm
        cases hm
        rfl
      | none =>
        simp only [hmethod] at hm
        cases hm
    refine spaces_aside (aside_checkDeclared _ _) fun _ => spaces_read fun s => spaces_aside (aside_unitName _) fun name => ?_
    refine (spaces_addObject _ _ _).bind fun obj => (spaces_typeMethodList hr obj _ _ hmethods).bind fun methods => ?_
    refine spaces_aside (aside_emitUnit _ _ _) fun unit => spaces_aside (aside_changeWorld _) fun _ => ?_
    exact spaces_aside (aside_load unit) fun _ => (spaces_captureRefs obj).bind fun refs => spaces_pure _
  · exact spaces_fail _

/-! ## Calls -/

theorem spaces_varCall? (hr : Spacing g rec rec') (s : Symbol) (args : List Form) (line : Nat) :
    Spaces g still (varCall? rec demand s args line) (varCall? rec' demand s args line) := by
  refine spaces_read fun w => ?_
  split
  · exact spaces_pure _
  · dsimp only
    split
    · exact (spaces_rec hr _ _).bind fun e => spaces_pure _
    · split
      · exact (spaces_operands hr args).bind fun es => spaces_pure _
      · exact spaces_pure _

theorem spaces_instanceTest? (hr : Spacing g rec rec') (s : Symbol) (args : List Form) :
    Spaces g still (instanceTest? rec demand s args) (instanceTest? rec' demand s args) := by
  unfold instanceTest?
  split
  · refine spaces_read fun w => spaces_read fun found => ?_
    split
    · exact (spaces_rec hr _ _).bind fun e => spaces_pure _
    · exact spaces_pure _
  · exact spaces_pure _

theorem spaces_namedCall? (hr : Spacing g rec rec') (s : Symbol) (args : List Form) (line : Nat) :
    Spaces g still (namedCall? rec demand s args line) (namedCall? rec' demand s args line) := by
  refine spaces_read fun found => ?_
  split
  · exact spaces_pure _
  · refine (spaces_varCall? hr s args line).bind fun o => ?_
    split
    · exact spaces_pure _
    · exact spaces_instanceTest? hr s args

theorem spaces_plainCall (hr : Spacing g rec rec') (head : Form) (args : List Form) (line : Nat) :
    Spaces g still (plainCall rec demand head args line) (plainCall rec' demand head args line) := by
  unfold plainCall
  split
  · exact (spaces_rec hr _ _).bind fun e => spaces_pure _
  · exact (spaces_rec hr _ head).bind fun e => (spaces_operands hr args).bind fun es => spaces_read fun s => spaces_pure _

theorem spaces_invoke (hr : Spacing g rec rec') (head : Form) (args : List Form) :
    Spaces g still (invoke rec demand head args) (invoke rec' demand head args) := by
  refine spaces_read fun s => ?_
  dsimp only
  split
  · refine (spaces_namedCall? hr _ args _).bind fun o => ?_
    split
    · exact spaces_pure _
    · exact spaces_plainCall hr _ args _
  · exact spaces_plainCall hr _ args _

/-! ## All forms -/

theorem within_moveTo (g : Held) (c : Context) (demand : Demand) (f f' : Form) :
    g.within (c.moveTo f) demand f' = g.within c demand f' := by
  unfold Context.moveTo
  split <;> rfl

theorem spacesAt_special {name : SpecialForm} {head : Form} (hname : head.symbol?.bind SpecialForm.ofSymbol? = some name) (args : List Form)
    (info : Option Form.Info) (hc : c.Spaced g) (hr : Spacing (g.within c demand (.list (head :: args) info)) rec rec') :
    SpacesAt g false c (special rec demand name (.list (head :: args) info) (head :: args))
      (special rec' demand name (.list (head :: args) info) (head :: args)) := by
  rw [Held.within, hname] at hr
  cases name with
  | define => exact spaces_define hr _ c hc
  | cond => exact spaces_cond hr _ c hc
  | seq => exact spaces_body hr _ c hc
  | bind => exact spaces_let hr _ _ false c hc
  | loop => exact spaces_let hr _ _ true c hc
  | recur => exact spaces_recur hr _ c hc
  | fn => exact spaces_fn hr c hc
  | quote => exact (aside_quote _).spaces c hc
  | var => exact (aside_theVar _).spaces c hc
  | assign => exact spaces_assign hr _ c hc
  | attempt => exact spacesAt_attempt hc hr _ _
  | throw => exact spaces_throw hr _ _ c hc
  | case => exact spaces_case hr _ _ c hc
  | dot => exact spaces_dot hr _ c hc
  | new => exact spaces_new hr _ c hc
  | bindFns => exact spaces_bindFns hr _ _ c hc
  | deftype => exact spaces_deftype hr c hc
  | reify => exact spaces_reify hr c hc
  | handler => exact spaces_fail _ c hc
  | cleanup => exact spaces_fail _ c hc
  | ampersand => exact spaces_fail _ c hc

theorem spacesAt_list (head : Form) (args : List Form) (info : Option Form.Info) (hc : c.Spaced g)
    (hr : Spacing (g.within c demand (.list (head :: args) info)) rec rec') :
    SpacesAt g false c (list rec demand (.list (head :: args) info) head args)
      (list rec' demand (.list (head :: args) info) head args) := by
  cases hname : head.symbol?.bind SpecialForm.ofSymbol? with
  | some name =>
    rw [list_special rec demand hname, list_special rec' demand hname]
    exact spacesAt_special hname args info hc hr
  | none =>
    rw [Held.within, hname] at hr
    unfold list
    rw [hname]
    refine spaces_aside (aside_once _) (fun o => ?_) c hc
    split
    · exact spaces_rec hr _ _
    · exact spaces_invoke hr head args

/-- **One level of the analysis.**  From a spaced context the outcome depends only on what the analyzer of the parts does from
spaced contexts, and however the analysis ends, the tables keep what is in use and the scope is what it was. -/
theorem spacesAt_formWith (f : Form) (hc : c.Spaced g) (hr : Spacing (g.within c demand f) rec rec') :
    SpacesAt g true c (formWith rec demand f) (formWith rec' demand f) := by
  cases f with
  | symbol s info => exact spaces_symbol s info c hc
  | vector items info => exact (spaces_operands hr items).bind (fun es => spaces_pure _) c hc
  | set items info =>
    exact spaces_aside (aside_checkKeys items) (fun _ => (spaces_operands hr items).bind fun es => spaces_pure _) c hc
  | map pairs info =>
    refine spaces_aside (aside_checkKeys _) (fun _ => Spaces.bind (spaces_forList fun kv _ => ?_) fun es => spaces_pure _) c hc
    exact (spaces_rec hr _ kv.1).bind fun k => (spaces_rec hr _ kv.2).bind fun v => spaces_pure _
  | list items info =>
    cases items with
    | nil => exact spaces_pure _ c hc
    | cons head args =>
      obtain ⟨hretains, hlayout⟩ := retains_moveTo c (.list (head :: args) info)
      rw [← within_moveTo g c demand (.list (head :: args) info)] at hr
      obtain ⟨hsame, hkeeps⟩ := (spacesAt_list head args info (hc.retains hretains hlayout) hr).located
      exact spacesAt_nested hc hsame (hretains.trans hkeeps.retains)
  | _ => exact spaces_pure _ c hc

theorem spacing_formWithin : ∀ (n : Nat) (g : Held), Spacing g (formWithin n) (formWithin n)
  | 0, _ => fun _ _ => spaces_cut
  | n + 1, _ => fun _ f _ hc => spacesAt_formWith f hc (spacing_formWithin n _)

/-! ## Wherever the analysis comes to -/

/-- A form that is to be analyzed in a context. -/
structure Point where
  held : Held
  demand : Demand
  form : Form
  context : Context

namespace Point

/-- How the analysis ends, with an expression or with an error, and in which context. -/
def outcome (n : Nat) (p : Point) : Result Expr × Context := formWithin n p.demand p.form p.context

/-- What becomes of the form depends on the analysis of another form in another context: if that ended in some other way, this
would too. -/
def Asks (n : Nat) (p : Point) (demand : Demand) (f : Form) (c : Context) : Prop :=
  ∃ rec : Analyzer, (∀ demand' f' c', rec demand' f' c' ≠ formWithin n demand' f' c' → demand' = demand ∧ f' = f ∧ c' = c) ∧
    formWith rec p.demand p.form p.context ≠ formWith (formWithin n) p.demand p.form p.context

/-- The analysis of the first form comes to the second one, which may be a part of it or something it expands to, or a part of
that, and so on.  The numbers bound the depth that is left. -/
inductive Reaches : Nat → Point → Nat → Point → Prop
  | start (n : Nat) (p : Point) : Reaches n p n p
  | part {n k : Nat} {p q : Point} {demand : Demand} {f : Form} {c : Context} : Reaches n p (k + 1) q → q.Asks k demand f c →
    Reaches n p k ⟨q.held.within q.context q.demand q.form, demand, f, c⟩

/-- The slots in use are apart before the analysis and after it, whether it ends with an expression or with an error; and the
scope is what it was. -/
structure Clean (n : Nat) (p : Point) : Prop where
  before : p.context.Spaced p.held
  after : (p.outcome n).2.Spaced p.held
  scope : (p.outcome n).2.scope = p.context.scope
  /-- They are apart too where the analysis of a list stops, before the scope is put back. -/
  inside : ∀ k head args info, n = k + 1 → p.form = .list (head :: args) info →
    (list (formWithin k) p.demand p.form head args (p.context.moveTo p.form)).2.Spaced p.held

variable {n k : Nat} {p q : Point} {f : Form}

theorem clean_of_spaced (n : Nat) (h : p.context.Spaced p.held) : p.Clean n := by
  have hkeeps := (spacing_formWithin n p.held p.demand p.form p.context h).2
  refine ⟨h, hkeeps.spaced, hkeeps.scope rfl, fun k head args info _ hf => ?_⟩
  obtain ⟨hretains, hlayout⟩ := retains_moveTo p.context p.form
  rw [hf] at hretains hlayout ⊢
  exact (spacesAt_list head args info (h.retains hretains hlayout) (spacing_formWithin k _)).2.spaced

/-- What a form asks for is spaced. -/
theorem Asks.spaced (h : p.Asks n demand f c) (hp : p.context.Spaced p.held) :
    c.Spaced (p.held.within p.context p.demand p.form) := by
  obtain ⟨rec, hrec, hne⟩ := h
  refine Classical.byContradiction fun hc => hne ?_
  refine ((spacesAt_formWith p.form hp fun demand' f' c' hc' => ?_).1).symm
  obtain ⟨_, hkeeps⟩ := spacing_formWithin n _ demand' f' c' hc'
  refine ⟨Classical.byContradiction fun hother => ?_, hkeeps⟩
  obtain ⟨-, -, rfl⟩ := hrec demand' f' c' (Ne.symm hother)
  exact hc hc'

/-- By induction on the way. -/
theorem Reaches.spaced (h : Reaches n p k q) (hp : p.context.Spaced p.held) : q.context.Spaced q.held := by
  induction h with
  | start => exact hp
  | part _ hasks ih => exact hasks.spaced (ih hp)

end Point

/-- The slots of a `try` are the two that are held while it is analyzed. -/
theorem attempt_slots {n : Nat} {head : Form} {args : List Form} {info : Option Form.Info} {c' : Context} {e : Expr}
    (hname : head.symbol?.bind SpecialForm.ofSymbol? = some .attempt) (hc : c.scope.methodReturn = true)
    (h : formWithin (n + 1) .tail (.list (head :: args) info) c = (.ok e, c')) (g : Held) :
    ∃ main handlers cleanup result thrown, e = .attempt main handlers cleanup result thrown ∧
      (g.within c .tail (.list (head :: args) info)).tries = thrown :: result :: g.tries := by
  rw [formWithin, formWith, list_special _ _ hname] at h
  obtain ⟨c₁, h⟩ := atForm_eq_ok (congrArg Prod.fst h)
  rw [← within_moveTo g c .tail (.list (head :: args) info)]
  generalize hm : c.moveTo (.list (head :: args) info) = m at h ⊢
  have hreturn : m.scope.methodReturn = true := by
    rw [← hm, Context.moveTo]
    split <;> exact hc
  rw [Held.within, hname, Held.trying, hreturn, if_pos (by rfl)]
  rw [special, attempt, bind_scope, hreturn, if_neg (by decide)] at h
  obtain ⟨parts, c₂, hparts, h⟩ := bind_eq_ok h
  cases hparts' : tryParts (head :: args).tail with
  | error err =>
    rw [hparts'] at hparts
    cases hparts
  | ok parts' =>
    rw [hparts'] at hparts
    cases hparts
    obtain ⟨result, c₃, hresult, h⟩ := bind_eq_ok h
    cases hresult
    obtain ⟨thrown, c₄, hthrown, h⟩ := bind_eq_ok h
    cases hthrown
    obtain ⟨main, c₅, -, h⟩ := bind_eq_ok h
    obtain ⟨handlers, c₆, -, h⟩ := bind_eq_ok h
    cases hcleanup : parts.cleanup
    all_goals
      simp only [hcleanup] at h
      obtain ⟨cleanup, c₇, -, h⟩ := bind_eq_ok h
      cases h
      exact ⟨main, handlers, cleanup, _, _, rfl, rfl⟩

end Analyze

end LispMachine
