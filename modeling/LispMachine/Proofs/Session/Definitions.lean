import LispMachine.Proofs.Analyze.Literals
import LispMachine.Proofs.Analyze.Recurs
import LispMachine.Proofs.Form.Grammar
import LispMachine.Proofs.Session.Verifies
import LispMachine.Proofs.World.Info
/-!
# What a definition does to its var

A definition at the top touches its var at three moments: the dynamic flag is set before the initial value is analyzed, the
metadata before it is evaluated, and the root after that.  So a definition that fails never touches the root, but it leaves the
flag behind if the initial value is rejected, and all of the metadata if the evaluation throws (`eval_definition`).  After a
definition that succeeds the metadata and the dynamic flag are those that are written, and the var is an expander if it was one
or if this is written; so it is for any number of definitions one after the other (`Redefined.var`).
-/
namespace LispMachine

open Analysis Analyze

/-! ## Definitions -/

/-- A definition as it is written: the name with its metadata and what follows it, which is a text and an initial value. -/
structure Definition where
  name : Symbol
  info : Option Form.Info
  rest : List Form
  doc : Option String
  init : Option Form
  head : Option Form.Info
  place : Option Form.Info
  parts : definitionParts (.symbol (Symbol.plain "def") head :: .symbol name info :: rest) = .ok (doc, init)

/-- The analysis leaves the var as it finds it, however it ends. -/
def Analysis.Spares {α : Type} (id : Nat) (x : Analysis α) (c : Context) : Prop :=
  ∀ v, c.world.vars[id]? = some v → (x c).2.world.vars[id]? = some v

namespace Definition

variable (d : Definition)

def items : List Form := .symbol (Symbol.plain "def") d.head :: .symbol d.name d.info :: d.rest

def form : Form := .list d.items d.place

/-- Whether the name is written with this flag. -/
def flag (key : String) : Bool := (d.info.getD {}).flag key

/-- The metadata that is written. -/
def written : Form := definitionInfo (d.info.getD {}).entries d.doc

/-- The definition is one of this var, which exists. -/
structure Names (w : World) (id : Nat) : Prop where
  here : d.name.ns.any (· != w.current) = false
  found : w.findIn? w.current d.name.name = some id

/-- Where the initial value is analyzed: the var has the flag. -/
def begun (id : Nat) (c : Context) : Context :=
  let c := { c with world := c.world.modifyVar id fun v => { v with dynamic := d.flag "dynamic" } }
  if !d.flag "dynamic" && hasEarmuffs d.name.name then (Analysis.warn .dynamic (dynamicWarning d.name.name) c).2 else c

/-- The value of the metadata, made from this context. -/
def infoValue (c : Context) : Value := ((Value.ofForm d.written).run c.world.nextId).1

/-- Where the initial value is evaluated: the var has the metadata. -/
def described (id : Nat) (c : Context) : Context :=
  let nextId := ((Value.ofForm d.written).run c.world.nextId).2
  { c with world := { c.world with nextId }.modifyVar id fun v => v.setInfo (d.infoValue c) }

/-- Analyzes the initial value, if there is one. -/
def analyzeInit (rec : Analyzer) (demand : Demand) : Analysis (Option Expr) :=
  match d.init with
  | some f => do return some (← rec demand.operand f)
  | none => return none

variable {d} {id : Nat} {c : Context} {v : Var}

theorem analyzeInit_bind {α : Type} (rec : Analyzer) (demand : Demand) (k : Option Expr → Analysis α) (c : Context) :
    (d.analyzeInit rec demand >>= k) c =
      match d.init with
      | some f => (rec demand.operand f >>= fun e => k (some e)) c
      | none => k none c := by
  rw [analyzeInit]
  cases d.init with
  | none => rfl
  | some f =>
    simp only [Bind.bind, Analysis.bind]
    rcases rec demand.operand f c with ⟨e | e | _, c'⟩ <;> rfl

theorem define_eq (h : d.Names c.world id) (rec : Analyzer) (demand : Demand) : define rec demand d.items c =
    (do
      let init ← d.analyzeInit rec demand
      return Expr.define (varRef (← Analysis.world) id none) init d.written) (d.begun id c) := by
  have hintern : Analysis.changeWorld (·.intern c.world.current d.name.name) c = (.ok id, c) := by
    rw [Analysis.changeWorld, World.intern_of_findIn? h.found]
  unfold define
  rw [items, d.parts]
  refine (bind_of_ok rfl).trans ((bind_of_ok rfl).trans ?_)
  rw [h.here, if_neg Bool.false_ne_true]
  refine (bind_of_ok hintern).trans ((bind_of_ok rfl).trans ?_)
  rw [begun, analyzeInit_bind]
  split
  · rename_i hwarns
    rw [if_pos (by exact hwarns)]
    cases d.init <;> rfl
  · rename_i hwarns
    rw [if_neg (by exact hwarns)]
    cases d.init <;> rfl

theorem eval_define (r : VarRef) (init : Option Expr) (c : Context) : (Expr.define r init d.written).eval c =
    (do
      match ← Expr.evalOption init with
      | some value => Analysis.changeWorld fun w => ((), w.modifyVar r.var fun x => { x with root := some value })
      | none => Pure.pure ()
      return Value.var r.var r.name) (d.described r.var c) := by
  rw [Expr.eval]
  rfl

theorem getElem?_begun (hv : c.world.vars[id]? = some v) : (d.begun id c).world.vars[id]? = some { v with dynamic := d.flag "dynamic" } := by
  have hflag : (c.world.modifyVar id fun v => { v with dynamic := d.flag "dynamic" }).vars[id]? = some { v with dynamic := d.flag "dynamic" } := by
    rw [World.getElem?_modifyVar_self, hv]
    rfl
  rw [begun]
  split
  · exact hflag
  · exact hflag

theorem getElem?_described (hv : c.world.vars[id]? = some v) :
    (d.described id c).world.vars[id]? = some (v.setInfo (d.infoValue c)) := by
  refine (World.getElem?_modifyVar_self _ id _).trans ?_
  rw [hv]
  rfl

variable (d) in
/-- What a definition makes of its var, and whether it succeeds. -/
inductive Leaves (v : Var) : Bool → Var → Prop
  /-- The initial value is rejected. -/
  | rejected : Leaves v false { v with dynamic := d.flag "dynamic" }
  /-- The evaluation of the initial value throws. -/
  | failed {m : Value} (h : Value.Reads d.written m) : Leaves v false (v.setInfo m)
  | defined {m : Value} (h : Value.Reads d.written m) (root : Option Value) : Leaves v true { v.setInfo m with root }

theorem allowance_ne_zero : allowance ≠ 0 := Nat.ne_of_gt (Nat.pow_pos Nat.two_pos)

/-- The analysis of what stands in a form at the top. -/
def inner : Analyzer := formWithin (allowance - 1)

variable (d) in
/-- From here on neither the analysis nor the evaluation of the initial value touches the var. -/
structure Spared (id : Nat) (c : Context) : Prop where
  analysis : Spares id (d.analyzeInit inner .eval) (d.begun id (c.moveTo d.form))
  evaluation : ∀ e c', d.analyzeInit inner .eval (d.begun id (c.moveTo d.form)) = (.ok e, c') →
    Spares id (Expr.evalOption e) (d.described id { c' with scope := c.scope })

/-- A declaration has no initial value that could touch the var. -/
theorem spared_declaration (h : d.init = none) (id : Nat) (c : Context) : d.Spared id c := by
  have hnone : d.analyzeInit inner .eval = Pure.pure none := by rw [analyzeInit, h]
  refine ⟨fun v hv => ?_, fun e c' he v hv => ?_⟩
  · rw [hnone]
    exact hv
  · rw [hnone] at he
    cases he
    rw [Expr.evalOption]
    exact hv

/-- Nor does a constant touch the var. -/
theorem spared_constant {f : Form} (h : d.init = some f) (hf : isConstant f = true) (id : Nat) (c : Context) : d.Spared id c := by
  have hsome : d.analyzeInit inner .eval = inner .eval f >>= fun e => Pure.pure (some e) := by
    rw [analyzeInit, h]
    rfl
  have hstill : (d.analyzeInit inner .eval).Still := by
    rw [hsome]
    exact (still_formWithin _ hf).bind fun _ _ => rfl
  refine ⟨fun v hv => ?_, fun e c' he v hv => ?_⟩
  · rw [hstill]
    exact hv
  · rw [hsome] at he
    obtain ⟨e', c'', he', he⟩ := Analysis.bind_eq_ok he
    cases he
    have heval : e'.eval = Expr.constantValue f := (literally_formWithin _ hf he').2
    rw [Expr.evalOption, heval]
    exact hv

/-! ## One definition -/

theorem world_moveTo (c : Context) (f : Form) : (c.moveTo f).world = c.world := by
  unfold Context.moveTo
  split <;> rfl

theorem atForm_of_ok {f : Form} {x : Analysis Expr} {c c' : Context} {e : Expr} (h : x (c.moveTo f) = (.ok e, c')) :
    atForm f x c = (.ok e, { c' with scope := c.scope }) := by
  have hlocated : located x (c.moveTo f) = (.ok e, c') := by
    unfold located
    rw [h]
  have hmoved : (Analysis.modify (·.moveTo f) >>= fun _ => located x) c = (.ok e, c') := (bind_of_ok rfl).trans hlocated
  exact congrArg (fun r => (r.1, { r.2 with scope := c.scope })) hmoved

theorem atForm_of_not_ok {f : Form} {x : Analysis Expr} {c : Context} (h : (x (c.moveTo f)).1.isOk = false) :
    (atForm f x c).1.isOk = false ∧ (atForm f x c).2.world = (x (c.moveTo f)).2.world := by
  have hlocated : (located x (c.moveTo f)).1.isOk = false ∧ (located x (c.moveTo f)).2 = (x (c.moveTo f)).2 := by
    unfold located
    rcases hx : x (c.moveTo f) with ⟨e | e | _, c'⟩
    · rw [hx] at h
      cases h
    · exact ⟨rfl, rfl⟩
    · exact ⟨rfl, rfl⟩
  refine ⟨hlocated.1, ?_⟩
  show (located x (c.moveTo f)).2.world = _
  rw [hlocated.2]

theorem special_head : (Form.symbol (Symbol.plain "def") d.head).symbol?.bind SpecialForm.ofSymbol? = some .define := rfl

theorem evalSingle_form (c : Context) : Session.evalSingle d.form c =
    (atForm d.form (define inner .eval d.items) >>= Expr.eval) c := by
  have hdirect : Session.needsCompilation d.form = false := by
    show (!"def".startsWith "def") = false
    decide +kernel
  have hdepth : allowance = allowance - 1 + 1 := (Nat.succ_pred allowance_ne_zero).symm
  have hform : Analyze.form .eval d.form = atForm d.form (define inner .eval d.items) := by
    rw [Analyze.form, hdepth, formWithin, form, items, formWith, list_special _ _ special_head, atForm]
    rfl
  rw [Session.evalSingle, hdirect, ← hform]
  rfl

/-- The initial value is rejected, and the var has the flag, or there is an expression for the definition. -/
theorem define_outcome (h : d.Names c.world id) (hv : c.world.vars[id]? = some v) {rec : Analyzer} {demand : Demand}
    (hs : Spares id (d.analyzeInit rec demand) (d.begun id c)) :
    (define rec demand d.items c).2.world.vars[id]? = some { v with dynamic := d.flag "dynamic" } ∧
      ((define rec demand d.items c).1.isOk = false ∨ ∃ r init c', d.analyzeInit rec demand (d.begun id c) = (.ok init, c') ∧
        define rec demand d.items c = (.ok (.define r init d.written), c') ∧ r.var = id) := by
  have hvar := hs _ (getElem?_begun hv)
  rw [define_eq h]
  rcases hinit : d.analyzeInit rec demand (d.begun id c) with ⟨init | e | _, c'⟩ <;> rw [hinit] at hvar
  · rw [bind_of_ok hinit]
    exact ⟨hvar, .inr ⟨_, init, c', rfl, rfl, rfl⟩⟩
  · rw [bind_of_error hinit]
    exact ⟨hvar, .inl rfl⟩
  · rw [bind_of_cut hinit]
    exact ⟨hvar, .inl rfl⟩

/-- The metadata is there before the initial value is evaluated, and the root afterwards. -/
theorem eval_outcome {b : Bool} (hv : c.world.vars[id]? = some { v with dynamic := b }) {r : VarRef} (hr : r.var = id)
    {init : Option Expr} (hs : Spares id (Expr.evalOption init) (d.described id c)) :
    ∃ v', ((Expr.define r init d.written).eval c).2.world.vars[id]? = some v' ∧
      d.Leaves v ((Expr.define r init d.written).eval c).1.isOk v' := by
  have hreads : Value.Reads d.written (d.infoValue c) := ⟨_, rfl⟩
  have hvar := hs _ (getElem?_described hv)
  rw [Var.setInfo_withDynamic] at hvar
  rw [eval_define, hr]
  simp only [Bind.bind, Analysis.bind]
  rcases hvalue : Expr.evalOption init (d.described id c) with ⟨(_ | value) | e | _, c'⟩ <;> rw [hvalue] at hvar
  · exact ⟨_, hvar, .defined hreads v.root⟩
  · refine ⟨_, ?_, .defined hreads (some value)⟩
    refine (World.getElem?_modifyVar_self _ id _).trans ?_
    rw [show c'.world.vars[id]? = _ from hvar]
    rfl
  · exact ⟨_, hvar, .failed hreads⟩
  · exact ⟨_, hvar, .failed hreads⟩

/-- **What a definition does to its var**, if the initial value leaves the var alone. -/
theorem evalSingle_definition (h : d.Names c.world id) (hv : c.world.vars[id]? = some v) (hs : d.Spared id c) :
    ∃ v', (Session.evalSingle d.form c).2.world.vars[id]? = some v' ∧
      d.Leaves v (Session.evalSingle d.form c).1.isOk v' := by
  have hmoved := world_moveTo c d.form
  obtain ⟨hvar, hfail | ⟨r, init, c', hinit, hok, hr⟩⟩ := define_outcome (hmoved ▸ h) (hmoved ▸ hv) hs.analysis <;>
    rw [evalSingle_form]
  · obtain ⟨hat, hworld⟩ := atForm_of_not_ok hfail
    rw [← hworld] at hvar
    rcases hr : atForm d.form (define inner .eval d.items) c with ⟨e | e | _, c'⟩ <;> rw [hr] at hat hvar
    · cases hat
    · rw [bind_of_error hr]
      exact ⟨_, hvar, .rejected⟩
    · rw [bind_of_cut hr]
      exact ⟨_, hvar, .rejected⟩
  · rw [hok] at hvar
    rw [bind_of_ok (atForm_of_ok hok)]
    exact eval_outcome (c := { c' with scope := c.scope }) hvar hr (hs.evaluation init c' hinit)

end Definition

/-! ## Flags -/

namespace Definition

variable {d : Definition} {m : Value}

/-- **The flags of the metadata are those that are written.** -/
theorem marked_written (hreg : (Form.ofPairs (d.info.getD {}).entries).Regular) (h : Value.Reads d.written m) {key : String}
    (hkey : key ≠ "doc") : Var.marked key m = d.flag key := by
  obtain ⟨ps, hps, hregular, hflag⟩ := Analyze.definitionInfo_eq hreg d.doc
  rw [written, hps] at h
  have hd : ps.Pairwise fun p q => (p.1 == q.1) = false := by
    cases hregular with
    | atom hf _ => cases hf
    | map _ _ hd _ => exact hd
  rw [Var.marked_of_mirrors (h.mirrors hregular) hd, hflag key hkey]
  rfl

/-- A definition that fails leaves the root. -/
theorem Leaves.root_eq {v v' : Var} (h : d.Leaves v false v') : v'.root = v.root := by
  cases h <;> rfl

/-- Whether or not a definition succeeds, the dynamic flag is the one that is written. -/
theorem Leaves.dynamic_eq {v v' : Var} {ok : Bool} (h : d.Leaves v ok v') (hreg : (Form.ofPairs (d.info.getD {}).entries).Regular) :
    v'.dynamic = d.flag "dynamic" := by
  cases h with
  | rejected => rfl
  | failed h => exact marked_written hreg h (by decide)
  | defined h root => exact marked_written hreg h (by decide)

/-- After a definition that succeeds the var is an expander if it was one or if this is written. -/
theorem Leaves.isMacro_eq {v v' : Var} (h : d.Leaves v true v') (hreg : (Form.ofPairs (d.info.getD {}).entries).Regular) :
    v'.isMacro = (v.isMacro || d.flag "macro") := by
  cases h with
  | defined h root => exact congrArg (v.isMacro || ·) (marked_written hreg h (by decide))

end Definition

/-! ## Definitions in a session -/

namespace Session

variable {s s' : Session} {f : Form} {d : Definition} {id : Nat} {v : Var} {c : Context}

/-- Where the evaluation of a form starts. -/
def opening (s : Session) (f : Form) : Context := Context.moveTo { options := s.options, world := s.world } f

theorem analyzing_outcome {α : Type} (s : Session) (f : Form) (x : Analysis α) :
    (s.analyzing f x).1.isOk = (x (s.opening f)).1.isOk ∧ (s.analyzing f x).2.world = (x (s.opening f)).2.world := by
  rw [opening, analyzing]
  rcases x _ with ⟨a | e | _, c⟩ <;> exact ⟨rfl, rfl⟩

/-- A definition is not expanded. -/
theorem fully_form (n : Nat) (d : Definition) (c : Context) : Expand.fully (n + 1) d.form c = (.ok d.form, c) := by
  have honce : Expand.once d.form = Pure.pure none := once_special Definition.special_head _ d.place
  rw [Expand.fully, honce]
  rfl

theorem evalTop_of_expands {n : Nat} (hn : n ≠ 0) {c' : Context} (h : Expand.fully allowance f c = (.ok d.form, c')) :
    evalTop n f c = evalSingle d.form c' := by
  obtain ⟨n, rfl⟩ := Nat.exists_eq_succ_of_ne_zero hn
  rw [evalTop]
  exact (bind_of_ok h).trans (congrFun (if_neg (by decide +kernel)) c')

/-- The form is a definition of the var or expands to one, and neither the expansion nor the initial value touches the var. -/
structure Redefines (s : Session) (id : Nat) (f : Form) (d : Definition) (c : Context) : Prop where
  expands : Expand.fully allowance f (s.opening f) = (.ok d.form, c)
  spares : Spares id (Expand.fully allowance f) (s.opening f)
  names : d.Names c.world id
  spared : d.Spared id c

/-- **What a definition at the top does to its var**, whether it succeeds or not. -/
theorem eval_definition (h : s.Redefines id f d c) (hv : s.world.vars[id]? = some v) :
    ∃ v', (s.eval f).2.world.vars[id]? = some v' ∧ d.Leaves v (s.eval f).1.isOk v' := by
  have hvar := h.spares v (by rw [opening, Definition.world_moveTo]; exact hv)
  rw [h.expands] at hvar
  obtain ⟨hok, hworld⟩ := analyzing_outcome s f (evalTop allowance f)
  rw [eval, hok, hworld, evalTop_of_expands Definition.allowance_ne_zero h.expands]
  exact Definition.evalSingle_definition h.names hvar h.spared

/-- A definition as it stands, of a var that exists. -/
theorem redefines_form (hn : d.Names s.world id) (hs : d.Spared id (s.opening d.form)) : s.Redefines id d.form d (s.opening d.form) := by
  have hfully : Expand.fully allowance d.form (s.opening d.form) = (.ok d.form, s.opening d.form) := by
    rw [← Nat.succ_pred Definition.allowance_ne_zero]
    exact fully_form _ d _
  refine ⟨hfully, fun v hv => ?_, ?_, hs⟩
  · rw [hfully]
    exact hv
  · rw [opening, Definition.world_moveTo]
    exact hn

/-- The var y is no expander, and the definition that makes it one fails. -/
example : let r := ((start {}).evalText "(def y 0)").2.evalText "(def ^:macro y (throw (new RuntimeException \"no\")))"
    r.1.isOk = false ∧ (r.2.world.resolve? (Symbol.plain "y")).any (fun id => (r.2.world.var id).isMacro) = true := by
  decide +kernel

/-! ## One definition after the other -/

/-- Definitions of the var that succeed one after the other. -/
inductive Redefined (s : Session) (id : Nat) : List Definition → Session → Prop
  | none : Redefined s id [] s
  | next {ds : List Definition} {s' : Session} (h : Redefined s id ds s') {f : Form} {d : Definition} {c : Context}
      (hd : s'.Redefines id f d c) (hok : (s'.eval f).1.isOk = true) : Redefined s id (ds ++ [d]) (s'.eval f).2

/-- **The metadata of the last definition replaces that of the others**, but an expander stays one. -/
theorem Redefined.var {ds : List Definition} (h : s.Redefined id ds s') (hv : s.world.vars[id]? = some v) :
    ∃ ms root, ds.Forall₂ (fun d m => Value.Reads d.written m) ms ∧
      s'.world.vars[id]? = some { ms.foldl Var.setInfo v with root } := by
  induction h with
  | none => exact ⟨[], v.root, .nil, hv⟩
  | @next ds s' h f d c hd hok ih =>
    obtain ⟨ms, root, hms, hvar⟩ := ih
    obtain ⟨v', hv', hleaves⟩ := eval_definition hd hvar
    rw [hok] at hleaves
    cases hleaves with
    | @defined m hm root' =>
      refine ⟨ms ++ [m], root', List.rel_append hms (.cons hm .nil), ?_⟩
      rw [hv', List.foldl_append]
      rfl

/-- **The flags after definitions.**  The dynamic flag is that of the last one, but one that makes an expander is enough. -/
theorem Redefined.flags {ds : List Definition} (h : s.Redefined id (ds ++ [d]) s') (hv : s.world.vars[id]? = some v)
    (hreg : ∀ e ∈ ds ++ [d], (Form.ofPairs (e.info.getD {}).entries).Regular) :
    ∃ v' m, s'.world.vars[id]? = some v' ∧ Value.Reads d.written m ∧ v'.info = Var.infoOf m ∧
      v'.dynamic = d.flag "dynamic" ∧ v'.isMacro = (v.isMacro || (ds ++ [d]).any (·.flag "macro")) := by
  obtain ⟨ms, root, hms, hvar⟩ := h.var hv
  have hmacro : ms.any (Var.marked "macro") = (ds ++ [d]).any (·.flag "macro") :=
    Value.any_eq (fun _ _ heq => heq)
      (forall₂_imp_of_mem (fun e he m hm => Definition.marked_written (hreg e he) hm (by decide)) hms)
  obtain ⟨last, hdrop, hlast⟩ : ∃ m, ms.drop ds.length = [m] ∧ Value.Reads d.written m := by
    obtain ⟨m, rest, hm, hrest, hdrop⟩ := List.forall₂_cons_right_iff.1 (List.forall₂_drop_append ms ds [d] hms.flip)
    rw [List.forall₂_nil_right_iff.1 hrest] at hdrop
    exact ⟨m, hdrop, hm⟩
  rw [← List.take_append_drop ds.length ms, hdrop] at hvar hmacro
  obtain ⟨hinfo, hdynamic⟩ := Var.foldl_setInfo_concat (ms.take ds.length) last v
  refine ⟨_, last, hvar, hlast, hinfo, hdynamic.trans ?_, (Var.isMacro_foldl_setInfo _ v).trans (congrArg (v.isMacro || ·) hmacro)⟩
  exact Definition.marked_written (hreg d (List.mem_append_right _ (List.mem_singleton_self d))) hlast (by decide)

end Session

/-! ## Definitions of functions and expanders -/

namespace Definition

/-- The definition that `defn` and `defmacro` expand to. -/
def ofFn (name : Symbol) (info : Form.Info) (bodies : List (Form × List Form)) : Definition where
  name := name
  info := some info
  rest := [Expander.call "fn*" (Expander.bare name :: bodies.map fun (params, body) => .ofItems (params :: body))]
  doc := none
  init := some (Expander.call "fn*" (Expander.bare name :: bodies.map fun (params, body) => .ofItems (params :: body)))
  head := none
  place := none
  parts := rfl

theorem carryPlace_form (d : Definition) (call : Form) : ∃ place, Expand.carryPlace d.form call = { d with place }.form := by
  rw [form, Expand.carryPlace.eq_def]
  cases call.info? with
  | none => exact ⟨d.place, rfl⟩
  | some m =>
    dsimp only
    split
    · exact ⟨some { d.place.getD {} with line := m.line, column := m.column }, rfl⟩
    · exact ⟨d.place, rfl⟩

theorem expandDefn_eq_ok {args : List Form} {g : Form} (h : Expander.expandDefn args = .ok g) :
    ∃ name info rest bodies, Expander.definitionHeader args "defn" = .ok (name, info, rest) ∧ g = (ofFn name info bodies).form := by
  obtain ⟨⟨name, info, rest⟩, hheader, h⟩ := Form.exists_of_bind h
  obtain ⟨bodies, -, h⟩ := Form.exists_of_bind h
  cases h
  exact ⟨name, info, rest, bodies, hheader, rfl⟩

theorem expandDefExpander_eq_ok {args : List Form} {g : Form} (h : Expander.expandDefExpander args = .ok g) :
    ∃ name info rest bodies, Expander.definitionHeader args "defmacro" = .ok (name, info, rest) ∧
      g = (ofFn name (info.insert (.keyword (Keyword.plain "macro")) (.bool true)) bodies).form := by
  obtain ⟨⟨name, info, rest⟩, hheader, h⟩ := Form.exists_of_bind h
  obtain ⟨bodies, -, h⟩ := Form.exists_of_bind h
  cases h
  have hkw : Form.kw "macro" = .keyword (Keyword.plain "macro") := congrArg Form.keyword (by decide +kernel)
  rw [hkw]
  exact ⟨name, info, rest, _, hheader, rfl⟩

end Definition

/-- At the head of a list the symbol stands for a built-in expander. -/
structure Context.Calls (c : Context) (head : Symbol) (e : Expander) : Prop where
  ordinary : SpecialForm.ofSymbol? head = none
  unshadowed : c.lookupLocal? head = none
  expander : ∃ k, c.world.resolve? head = some k ∧ (c.world.var k).isMacro = true ∧ (c.world.var k).root = some (.native (.expander e))

namespace Session

variable {s : Session} {c : Context} {id : Nat} {e : Expander} {call g : Form} {head : Symbol} {headInfo place : Option Form.Info}
  {args : List Form} {gensym : Nat}

theorem once_of_calls (h : c.Calls head e) (hcall : call = .list (.symbol head headInfo :: args) place)
    (hexpand : e.expand call args c.world.gensym = .ok (g, gensym)) :
    Expand.once call c = (.ok (some (Expand.carryPlace g call)), { c with world := { c.world with gensym } }) := by
  obtain ⟨hordinary, hfree, k, hk, hmacro, hroot⟩ := h
  have hfilter : ((c.world.resolve? head).filter fun v => (c.world.var v).isMacro) = some k := by
    rw [hk, Option.filter_some, if_pos hmacro]
  have hinvoke : Expand.invokeExpander k call args c = (.ok g, { c with world := { c.world with gensym } }) := by
    unfold Expand.invokeExpander
    refine (bind_of_ok rfl).trans ?_
    dsimp only
    rw [hroot]
    unfold Expand.runBuiltin
    refine (bind_of_ok rfl).trans ?_
    dsimp only
    rw [hexpand]
    rfl
  subst hcall
  unfold Expand.once
  refine (bind_of_ok rfl).trans ((congrFun (if_neg ?_) c).trans ?_)
  · show ¬ ((SpecialForm.ofSymbol? head).isSome || (c.lookupLocal? head).isSome) = true
    rw [hordinary, hfree]
    exact Bool.false_ne_true
  · refine (bind_of_ok rfl).trans ?_
    rw [hfilter]
    exact (bind_of_ok hinvoke).trans rfl

/-- A call that is expanded into a definition is this definition, at the place of the call. -/
theorem redefines_of_calls {d : Definition} (h : (s.opening call).Calls head e) (hcall : call = .list (.symbol head headInfo :: args) place)
    (hexpand : e.expand call args s.world.gensym = .ok (d.form, gensym)) :
    ∃ place' c, ∀ id, d.Names s.world id → { d with place := place' }.Spared id c → s.Redefines id call { d with place := place' } c := by
  have hworld : (s.opening call).world = s.world := Definition.world_moveTo _ call
  obtain ⟨place', hcarry⟩ := d.carryPlace_form call
  have honce := once_of_calls h hcall (hworld ▸ hexpand)
  rw [hcarry] at honce
  have hfully : Expand.fully allowance call (s.opening call) =
      (.ok { d with place := place' }.form, { s.opening call with world := { (s.opening call).world with gensym } }) := by
    obtain ⟨n, hn⟩ : ∃ n, allowance = n + 1 + 1 := ⟨allowance - 2, (Nat.sub_add_cancel (by decide +kernel : 2 ≤ allowance)).symm⟩
    rw [hn, Expand.fully]
    exact (bind_of_ok honce).trans (fully_form n _ _)
  refine ⟨place', _, fun id hnames hspared => ⟨hfully, fun v hv => ?_, ?_, hspared⟩⟩
  · rw [hfully]
    exact hv
  · rw [hworld]
    exact ⟨hnames.here, hnames.found⟩

/-- **A call of `defn` defines its function** with the metadata in front of it. -/
theorem redefines_defn (h : (s.opening call).Calls head .defn) (hcall : call = .list (.symbol head headInfo :: args) place)
    (hexpand : Expander.expand .defn call args s.world.gensym = .ok (g, gensym)) :
    ∃ name info rest bodies place' c, Expander.definitionHeader args "defn" = .ok (name, info, rest) ∧
      ∀ id, (Definition.ofFn name info bodies).Names s.world id → { Definition.ofFn name info bodies with place := place' }.Spared id c →
        s.Redefines id call { Definition.ofFn name info bodies with place := place' } c := by
  obtain ⟨g', hg, hpair⟩ := Form.exists_of_bind hexpand
  cases hpair
  obtain ⟨name, info, rest, bodies, hheader, rfl⟩ := Definition.expandDefn_eq_ok hg
  obtain ⟨place', c, hredefines⟩ := redefines_of_calls h hcall hexpand
  exact ⟨name, info, rest, bodies, place', c, hheader, hredefines⟩

/-- **A call of `defmacro` defines an expander.** -/
theorem redefines_defExpander (h : (s.opening call).Calls head .defExpander) (hcall : call = .list (.symbol head headInfo :: args) place)
    (hexpand : Expander.expand .defExpander call args s.world.gensym = .ok (g, gensym)) :
    ∃ d c, d.flag "macro" = true ∧ ∀ id, d.Names s.world id → d.Spared id c → s.Redefines id call d c := by
  obtain ⟨g', hg, hpair⟩ := Form.exists_of_bind hexpand
  cases hpair
  obtain ⟨name, info, rest, bodies, -, rfl⟩ := Definition.expandDefExpander_eq_ok hg
  obtain ⟨place', c, hredefines⟩ := redefines_of_calls h hcall hexpand
  refine ⟨_, c, ?_, fun id hnames hspared => hredefines id ⟨hnames.here, hnames.found⟩ hspared⟩
  exact Meta.flag_insert info "macro" (.bool true)

end Session

end LispMachine
