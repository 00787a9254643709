import LispMachine.Proofs.Expr.Landing
/-!
# Expressions without arms

Literals, locals, vars, collections and calls: their operands are evaluated from left to right and left on the
stack, one instruction takes them, and its result goes to the destination.
-/
namespace LispMachine.Machine

open LispMachine.Emit LispMachine.Frame LispMachine.Expr
open LispMachine.Activation (Faithful rebindable_none)

variable {S : Activation} {i : Image} {bound : Nat} {scope : List Nat} {ρ : Locals} {f g : Frame} {w w' : World}
  {loop : Option (List Nat)} {head : Label} {k p pc' n : Nat} {st : List Slot} {dest : Dest} {hs : List Handler}

/-! ## Operands -/

section

variable {e : Expr} {q : Option Prim}

theorem realizes_operand (he : S.Faithful i n e) (hsc : e.Scoped S.context S.frame bound scope none)
    (hr : S.Ready i bound scope ρ f w) (hl : Laid (S.env head) (Dest.ofPrim q) e i S.entryOf k f.pc p hs) :
    Realizes S.depth n f w (fun s => f.Comes bound p (s :: f.stack)) (Run.held q (e.meaning S n k ρ) w) :=
  (he hsc (rebindable_none scope) hr hl).held

theorem realizes_args : ∀ {es : List Expr} {prims : List (Option Prim)} {k : Nat} {f : Frame} {w : World} {hs : List Handler},
    (∀ e ∈ es, S.Faithful i n e) → ScopedAll S.context S.frame bound scope es → S.Ready i bound scope ρ f w →
    LaidArgs (S.env head) prims es i S.entryOf k f.pc p hs →
    Realizes S.depth n f w (fun ss g => f.Comes bound p (ss.reverse ++ f.stack) g ∧ ss.length = es.length)
      (meaningArgs S n k ρ prims es w)
  | [], prims, k, f, w, hs, _, _, _, hl => by
    obtain ⟨_, hs, _⟩ := hl
    cases hs
    exact .pure ⟨Comes.refl bound f, rfl⟩
  | e :: es, prims, k, f, w, hs, hes, hsc, hr, hl => by
    obtain ⟨p, hs₁, hs₂, _, he, hrest⟩ := hl
    refine (realizes_operand (hes e List.mem_cons_self) hsc.1 hr he).bind fun s g w' _ hreach hg => ?_
    have hr' := hr.comes hg hreach.code_eq
    rw [← hg.pc] at hrest
    refine (realizes_args (fun e' h => hes e' (List.mem_cons_of_mem e h)) hsc.2 hr' hrest).bind
      fun ss h w'' _ _ hh => ?_
    refine .pure ⟨?_, by rw [List.length_cons, hh.2, List.length_cons]⟩
    have := hg.trans hh.1
    rw [hg.stack] at this
    simpa using this

end

theorem realizes_pairs : ∀ {pairs : List (Expr × Expr)} {k : Nat} {f : Frame} {w : World} {hs : List Handler},
    (∀ e ∈ pairs, S.Faithful i n e.1 ∧ S.Faithful i n e.2) → ScopedPairs S.context S.frame bound scope pairs →
    S.Ready i bound scope ρ f w → LaidPairs (S.env head) pairs i S.entryOf k f.pc p hs →
    Realizes S.depth n f w (fun ss g => f.Comes bound p (ss.reverse ++ f.stack) g ∧ ss.length = pairs.length * 2)
      (meaningPairs S n k ρ pairs w)
  | [], k, f, w, hs, _, _, _, hl => by
    obtain ⟨_, hs, _⟩ := hl
    cases hs
    exact .pure ⟨Comes.refl bound f, rfl⟩
  | (key, value) :: pairs, k, f, w, hs, hes, hsc, hr, hl => by
    obtain ⟨p₁, hs₁, _, _, hkey, p₂, hs₂, hs₃, _, hvalue, hrest⟩ := hl
    obtain ⟨hfk, hfv⟩ := hes (key, value) List.mem_cons_self
    refine (realizes_operand (q := none) hfk hsc.1 hr hkey).bind fun s g₁ w₁ _ hreach₁ hg₁ => ?_
    have hr₁ := hr.comes hg₁ hreach₁.code_eq
    rw [← hg₁.pc] at hvalue
    refine (realizes_operand (q := none) hfv hsc.2.1 hr₁ hvalue).bind fun t g₂ w₂ _ hreach₂ hg₂ => ?_
    have hr₂ := hr₁.comes hg₂ hreach₂.code_eq
    rw [← hg₂.pc] at hrest
    refine (realizes_pairs (fun e' h => hes e' (List.mem_cons_of_mem _ h)) hsc.2.2 hr₂ hrest).bind
      fun ss h w₃ _ _ hh => ?_
    refine .pure ⟨?_, by rw [List.length_cons, List.length_cons, hh.2, List.length_cons]; omega⟩
    have := (hg₁.trans hg₂).trans hh.1
    rw [hg₂.stack, hg₁.stack] at this
    simpa using this

/-! ## Literals and locals -/

theorem realizes_pushed {j : Instr} {s : Slot} (hm : f.method = i.method) (hs : i.Spans [j] f.pc p)
    (hj : movesSlots j = true)
    (hstep : stepLocal { f with pc := f.pc + 1 } j = .ok { f with pc := f.pc + 1, stack := s :: f.stack }) :
    Realizes S.depth n f w (fun s' => f.Comes bound p (s' :: f.stack)) ((pure s : Run Slot) w) := by
  obtain ⟨hc, he⟩ := hs
  cases he
  rw [← hm] at hc
  exact .value (.single (goes_local hc hj hstep)) (comes_to bound f _ _)

theorem faithful_nil (hi : S.Installed i) : S.Faithful i n .nil := by
  intro bound scope loop head dest k ρ f w pc' hs _ _ hr hl
  obtain ⟨_, hcode, _⟩ := hl
  rw [Expr.meaning]
  exact realizes_inert (x := pure (.obj .nil)) hi hr.method (fun _ => ⟨_, rfl⟩) hcode
    fun p _ hp => realizes_pushed hr.method hp rfl rfl

theorem faithful_long (hi : S.Installed i) (m : Int64) : S.Faithful i n (.long m) := by
  intro bound scope loop head dest k ρ f w pc' hs _ _ hr hl
  obtain ⟨_, hcode, _⟩ := hl
  rw [Expr.meaning]
  exact realizes_inert (x := pure (.long m)) hi hr.method (fun _ => ⟨_, rfl⟩) hcode
    fun p _ hp => realizes_pushed hr.method hp rfl rfl

theorem faithful_double (hi : S.Installed i) (d : Float) : S.Faithful i n (.double d) := by
  intro bound scope loop head dest k ρ f w pc' hs _ _ hr hl
  obtain ⟨_, hcode, _⟩ := hl
  rw [Expr.meaning]
  exact realizes_inert (x := pure (.double d)) hi hr.method (fun _ => ⟨_, rfl⟩) hcode
    fun p _ hp => realizes_pushed hr.method hp rfl rfl

theorem faithful_bool (hi : S.Installed i) (b : Bool) : S.Faithful i n (.bool b) := by
  intro bound scope loop head dest k ρ f w pc' hs _ _ hr hl
  obtain ⟨_, hcode, _⟩ := hl
  rw [Expr.meaning]
  split at hcode
  · rename_i hd
    rw [eq_of_beq hd]
    obtain ⟨hb, he⟩ := hcode
    cases he
    rw [← hr.method] at hb
    exact .value (.single (goes_local hb rfl rfl)) (comes_to bound f _ (.bool b :: f.stack))
  · refine realizes_inert (x := pure (.obj (.bool b))) hi hr.method (fun _ => ⟨_, rfl⟩) hcode fun p _ hp => ?_
    obtain ⟨hb, hbox, he⟩ := hp
    cases he
    rw [← hr.method] at hb hbox
    refine .value ((Reaches.single (goes_local hb rfl rfl)).trans (.single ?_)) (comes_to bound f _ _)
    exact goes_local (f := { f with pc := f.pc + 1, stack := .bool b :: f.stack }) hbox rfl rfl

/-- An entry of the constants is pushed. -/
theorem step_const {e : Nat} {v : Value} (h : f.constant w e = .ok v) :
    step f (.const e) w = (.value (.next { f with stack := .obj v :: f.stack }), w) := by
  simp only [step, stepData, bind_assoc, pure_bind]
  show (Run.ofExcept (f.constant w e) >>= _) w = _
  rw [h]
  rfl

theorem realizes_constant (hr : S.Ready i bound scope ρ f w) {v : Value} {e : Nat} (hv : S.tables.constants[e]? = some v)
    (hs : i.Spans [.const e] f.pc p) :
    Realizes S.depth n f w (fun s => f.Comes bound p (s :: f.stack)) ((pure (.obj v) : Run Slot) w) := by
  obtain ⟨hc, he⟩ := hs
  cases he
  rw [← hr.method] at hc
  refine .value (.single (.next hc (step_const (f := { f with pc := f.pc + 1 }) (v := v) ?_))) (comes_to bound f _ _)
  exact hr.constant hv

theorem faithful_const (hi : S.Installed i) (c : Form) : S.Faithful i n (.const c) := by
  intro bound scope loop head dest k ρ f w pc' hs _ _ hr hl
  obtain ⟨hprov, hcode, _⟩ := hl
  rw [Expr.meaning]
  refine realizes_inert (x := pure (.obj (S.value k))) hi hr.method (fun _ => ⟨_, rfl⟩) hcode fun p hd hp => ?_
  have hn : inertNeeds dest [formNeed c] = [formNeed c] := if_neg (by simpa using hd)
  obtain ⟨v, hv⟩ := (hi.answers _ _ (hprov 0 _ (by rw [hn]; rfl))).constant
  rw [Activation.value_eq (k := k) hv]
  exact realizes_constant hr hv hp

theorem faithful_type (hi : S.Installed i) (name : String) : S.Faithful i n (.type name) := by
  intro bound scope loop head dest k ρ f w pc' hs _ _ hr hl
  obtain ⟨hprov, hcode, _⟩ := hl
  rw [Expr.meaning]
  refine realizes_inert (x := pure (.obj (S.value k))) hi hr.method (fun _ => ⟨_, rfl⟩) hcode fun p hd hp => ?_
  have hn : inertNeeds dest [.constant (.type name)] = [.constant (.type name)] := if_neg (by simpa using hd)
  obtain ⟨v, hv⟩ := (hi.answers _ _ (hprov 0 _ (by rw [hn]; rfl))).constant
  rw [Activation.value_eq (k := k) hv]
  exact realizes_constant hr hv hp

theorem faithful_local (hi : S.Installed i) (r : LocalRef) : S.Faithful i n (.local r) := by
  intro bound scope loop head dest k ρ f w pc' hs hsc _ hr hl
  obtain ⟨hvis, _, hcode, _⟩ := hl
  rw [Expr.meaning]
  simp only [bind_assoc, pure_bind]
  refine realizes_inert hi hr.method (fun _ => ⟨_, rfl⟩) hcode fun p hd hp => ?_
  obtain ⟨j, hj⟩ := Option.isSome_iff_exists.1 (hvis hd r List.mem_cons_self)
  simp only [localCode, List.filterMap_cons, hj, List.filterMap_nil] at hp
  obtain ⟨hc, he⟩ := hp
  cases he
  exact realizes_lookup hi hr hsc.1 hj hc

/-! ## Collections -/

theorem faithful_vector (hi : S.Installed i) {items : List Expr} (hes : ∀ e ∈ items, S.Faithful i n e) :
    S.Faithful i n (.vector items) := by
  intro bound scope loop head dest k ρ f w pc' hs hsc _ hr hl
  obtain ⟨p, hs₁, hs₂, _, hargs, _, hcode, _⟩ := hl
  rw [Expr.meaning]
  simp only [bind_assoc, pure_bind]
  refine (realizes_args hes hsc hr hargs).bind fun ss g w' _ _ hg => ?_
  refine realizes_last .obj hi hr.method hg.1 hcode ?_
  rw [← hg.2]
  simp only [step, stepData, popValues_append { g with pc := g.pc + 1 } hg.1.stack, Run.ofExcept_ok, pure_bind, bind_assoc]
  rfl

theorem faithful_map (hi : S.Installed i) {pairs : List (Expr × Expr)}
    (hes : ∀ e ∈ pairs, S.Faithful i n e.1 ∧ S.Faithful i n e.2) : S.Faithful i n (.map pairs) := by
  intro bound scope loop head dest k ρ f w pc' hs hsc _ hr hl
  obtain ⟨p, hs₁, hs₂, _, hargs, _, hcode, _⟩ := hl
  rw [Expr.meaning]
  simp only [bind_assoc, pure_bind]
  refine (realizes_pairs hes hsc hr hargs).bind fun ss g w' _ _ hg => ?_
  refine realizes_last .obj hi hr.method hg.1 hcode ?_
  simp only [step, stepData, ← hg.2, popValues_append { g with pc := g.pc + 1 } hg.1.stack, Run.ofExcept_ok, pure_bind,
    bind_assoc]
  rfl

theorem faithful_set (hi : S.Installed i) {items : List Expr} (hes : ∀ e ∈ items, S.Faithful i n e) :
    S.Faithful i n (.set items) := by
  intro bound scope loop head dest k ρ f w pc' hs hsc _ hr hl
  obtain ⟨p, hs₁, hs₂, _, hargs, _, hcode, _⟩ := hl
  rw [Expr.meaning]
  simp only [bind_assoc, pure_bind]
  refine (realizes_args hes hsc hr hargs).bind fun ss g w' _ _ hg => ?_
  refine realizes_last .obj hi hr.method hg.1 hcode ?_
  rw [← hg.2]
  simp only [step, stepData, popValues_append { g with pc := g.pc + 1 } hg.1.stack, Run.ofExcept_ok, pure_bind, bind_assoc]
  rfl

/-! ## Vars -/

theorem step_varGet {e id : Nat} (h : f.varAt w e = .ok id) : step f (.varGet e) w =
    (Run.ofExcept (w.varGet id) >>= fun v => pure (Action.next { f with stack := .obj v :: f.stack })) w := by
  simp only [step, stepData, bind_assoc, pure_bind, Run.world_bind, h]
  rfl

theorem faithful_var (hi : S.Installed i) (v : VarRef) : S.Faithful i n (.var v) := by
  intro bound scope loop head dest k ρ f w pc' hs _ _ hr hl
  obtain ⟨hprov, hcode, _⟩ := hl
  obtain ⟨id, name, hv⟩ := (hi.answers _ _ (hprov 0 _ rfl)).var
  rw [Expr.meaning]
  simp only [bind_assoc, pure_bind, Activation.varId_eq (k := k) hv, Run.world_bind]
  exact realizes_last .obj hi hr.method (Comes.refl bound f) hcode (step_varGet ((hr.moved _ _).varAt hv))

theorem faithful_theVar (hi : S.Installed i) (v : VarRef) : S.Faithful i n (.theVar v) := by
  intro bound scope loop head dest k ρ f w pc' hs _ _ hr hl
  obtain ⟨hprov, hcode, _⟩ := hl
  obtain ⟨v, hv⟩ := (hi.answers _ _ (hprov 0 _ rfl)).constant
  rw [Expr.meaning, Activation.value_eq (k := k) hv]
  exact realizes_last (x := pure v) .obj hi hr.method (Comes.refl bound f) hcode
    (step_const ((hr.moved _ _).constant hv))

theorem step_varDef_none {var info id : Nat} {m : Value} (hv : f.varAt w var = .ok id) (hm : f.constant w info = .ok m) :
    step f (.varDef var false (some info)) w =
      (Activation.define id m none >>= fun v => pure (Action.next { f with stack := .obj v :: f.stack })) w := by
  simp only [step, stepData, bind_assoc, pure_bind, Run.world_bind, hv, hm, Run.ofExcept_ok]
  rfl

theorem step_varDef_some {var info id : Nat} {m : Value} {s : Slot} (hst : f.stack = s :: st) (hv : f.varAt w var = .ok id)
    (hm : f.constant w info = .ok m) : step f (.varDef var true (some info)) w =
      (Activation.define id m (some s.toValue) >>= fun v => pure (Action.next { f with stack := .obj v :: st })) w := by
  simp only [step, stepData, bind_assoc, pure_bind, Run.world_bind, hv, hm, Run.ofExcept_ok, popValue_cons hst]
  rfl

theorem faithful_define (hi : S.Installed i) (v : VarRef) {init : Option Expr} (info : Form)
    (he : ∀ e ∈ init, S.Faithful i n e) : S.Faithful i n (.define v init info) := by
  intro bound scope loop head dest k ρ f w pc' hs hsc _ hr hl
  obtain ⟨p, hs₁, hs₂, _, hinit, hprov, hcode, _⟩ := hl
  obtain ⟨id, name, hv⟩ := (hi.answers _ _ (hprov 0 _ rfl)).var
  obtain ⟨m, hm⟩ := (hi.answers _ _ (hprov 1 _ rfl)).constant
  rw [Expr.meaning]
  simp only [bind_assoc, pure_bind, Activation.varId_eq (k := k + (needsOption init).length) hv,
    Activation.value_eq (k := k + (needsOption init).length + 1) hm]
  cases init with
  | none =>
    obtain ⟨_, hs, _⟩ := hinit
    cases hs
    rw [meaningOption, pure_bind]
    exact realizes_last .obj hi hr.method (Comes.refl bound f) hcode
      (step_varDef_none ((hr.moved _ _).varAt hv) ((hr.moved _ _).constant hm))
  | some e =>
    rw [meaningOption]
    simp only [bind_assoc, pure_bind]
    refine (realizes_operand (q := none) (he e rfl) hsc hr hinit).bind fun s g w' _ hreach hg => ?_
    have hr' := hr.comes hg hreach.code_eq
    exact realizes_last .obj hi hr.method hg hcode
      (step_varDef_some hg.stack ((hr'.moved _ _).varAt hv) ((hr'.moved _ _).constant hm))

theorem faithful_assignVar (hi : S.Installed i) (v : VarRef) {e : Expr} (he : S.Faithful i n e) :
    S.Faithful i n (.assign (.var v) e) := by
  intro bound scope loop head dest k ρ f w pc' hs hsc _ hr hl
  obtain ⟨p, hs₁, hs₂, _, hval, _, hprov, hcode, _⟩ := hl
  obtain ⟨id, name, hv⟩ := (hi.answers _ _ (hprov 0 _ rfl)).var
  rw [Expr.meaning]
  simp only [bind_assoc, pure_bind, Activation.varId_eq (k := k + (needs e).length) hv]
  refine (realizes_operand (q := none) he hsc hr hval).bind fun s g w' _ hreach hg => ?_
  have hr' := hr.comes hg hreach.code_eq
  refine realizes_last .obj hi hr.method hg hcode ?_
  simp only [step, stepData, popValue_cons (f := { g with pc := g.pc + 1 }) hg.stack, Run.ofExcept_ok, pure_bind, bind_assoc,
    Run.world_bind, (hr'.moved (g.pc + 1) f.stack).varAt hv]
  rfl

/-- A value is stored in a field and kept on the stack. -/
theorem reaches_storeField (hi : S.Installed i) (hr : S.Ready i bound scope ρ f w) {s : Slot} {idx : Nat}
    (hst : f.stack = s :: st) (hs : i.Spans [.dup, .storeField idx] f.pc p) :
    ∃ g, Reaches S.depth f w g (w.setField S.place idx s) ∧ f.Comes bound p (s :: st) g := by
  obtain ⟨hdup, hstore, he⟩ := hs
  cases he
  rw [← hr.method] at hdup hstore
  have hd : stepLocal { f with pc := f.pc + 1 } .dup = .ok { f with pc := f.pc + 1, stack := s :: s :: st } := by
    simp only [stepLocal, pop_cons (f := { f with pc := f.pc + 1 }) hst]
    rfl
  refine ⟨{ f with pc := f.pc + 2, stack := s :: st }, (Reaches.single (goes_local hdup rfl hd)).trans (.single ?_),
    comes_to bound f _ _⟩
  refine .next (f := { f with pc := f.pc + 1, stack := s :: s :: st }) hstore ?_
  have hp : Frame.fieldsPlace { f with pc := f.pc + 1 + 1, stack := s :: st } = .ok S.place := hi.place _ hr.this
  simp only [step, stepData, pop_cons (f := { f with pc := f.pc + 1 + 1, stack := s :: s :: st }) rfl, Run.ofExcept_ok,
    pure_bind, bind_assoc, hp]
  rfl

theorem faithful_assignField (hi : S.Installed i) (b : Nat) {e : Expr} (he : S.Faithful i n e) :
    S.Faithful i n (.assign (.field b) e) := by
  intro bound scope loop head dest k ρ f w pc' hs hsc _ hr hl
  obtain ⟨p, hs₁, hs₂, _, hval, hsome, _, hcode, _⟩ := hl
  obtain ⟨idx, hidx⟩ : ∃ idx, (S.context.object S.obj).fieldIndex? b = some idx := by
    rw [assignCode?, Option.isSome_map] at hsome
    exact Option.isSome_iff_exists.1 hsome
  rw [Expr.meaning]
  simp only [bind_assoc, pure_bind, hidx]
  have ha : assignCode? (S.env head) (.field b) =
      some fun _ => ([.dup, .storeField idx] : List Instr) ++ boxCode (primOf (S.env head) b) := by
    simp only [assignCode?, Activation.env, hidx, Option.map_some]
  rw [ha] at hcode
  obtain ⟨p₂, hcode, hset⟩ := Image.spans_append.1 hcode
  obtain ⟨p₁, hstore, hbox⟩ := Image.spans_append.1 hcode
  refine (realizes_operand he hsc hr hval).bind fun s g w' _ hreach hg => ?_
  have hr' := hr.comes hg hreach.code_eq
  rw [← hg.pc] at hstore
  obtain ⟨g₁, hreach₁, hg₁⟩ := reaches_storeField (w := w') hi hr' hg.stack hstore
  rw [← hg₁.pc] at hbox
  obtain ⟨g₂, hreach₂, hg₂⟩ := reaches_box S.depth bound (w'.setField S.place idx s)
    (hg₁.method.trans hr'.method) hg₁.stack hbox
  exact .after (hreach₁.trans hreach₂) (realizes_settle hi hr.method ((hg.trans hg₁).trans hg₂) hset)

/-! ## Closures and instances -/

theorem step_newFn {e child : Nat} {ss : List Slot} (hst : f.stack = ss.reverse ++ st)
    (hc : (f.loaded w).children[e]? = some child) : step f (.newFn e ss.length) w =
      (Activation.closure child ss >>= fun v => pure (Action.next { f with stack := .obj v :: st })) w := by
  simp only [step, stepData, bind_assoc, pure_bind, Run.world_bind, hc, popMany_append f hst, Run.ofExcept_ok]
  rfl

theorem faithful_fn (hi : S.Installed i) (u : CompiledUnit) (captures : List LocalRef) (line : Nat) :
    S.Faithful i n (.fn u captures line) := by
  intro bound scope loop head dest k ρ f w pc' hs hsc _ hr hl
  obtain ⟨hvis, hprov, hcode, _⟩ := hl
  obtain ⟨child, _, hc⟩ := hi.answers _ _ (hprov 0 _ rfl)
  obtain ⟨p, hlocals, hcode⟩ := Image.spans_append.1 hcode
  rw [Expr.meaning]
  have hchild : S.child? k = some child := hc
  simp only [bind_assoc, pure_bind, hchild]
  refine (realizes_lookups hi hr hsc hvis hlocals).bind fun ss g w' _ hreach hg => ?_
  have hr' := hr.comes hg.1 hreach.code_eq
  refine realizes_last .obj hi hr.method hg.1 hcode ?_
  rw [← hg.2]
  exact step_newFn (f := { g with pc := g.pc + 1 }) hg.1.stack (((hr'.moved _ _).childAt _).trans hc)

theorem step_newInstance {e : Nat} {id : ClassId} {name : String} {ss : List Slot} (hst : f.stack = ss.reverse ++ st)
    (hc : f.classAt w e = .ok (id, name)) : step f (.newInstance e ss.length) w =
      (construct id (ss.map Slot.toValue) >>= fun v => pure (Action.next { f with stack := .obj v :: st })) w := by
  simp only [step, stepHost, bind_assoc, pure_bind, Run.world_bind, hc, popValues_append f hst, Run.ofExcept_ok]
  rfl

theorem faithful_reify (hi : S.Installed i) (name : String) (u : CompiledUnit) (captures : List LocalRef) (line : Nat) :
    S.Faithful i n (.reify name u captures line) := by
  intro bound scope loop head dest k ρ f w pc' hs hsc _ hr hl
  obtain ⟨hvis, hprov, hcode, _⟩ := hl
  obtain ⟨id, name', hc⟩ := (hi.answers _ _ (hprov 1 _ rfl)).type
  obtain ⟨p, hlocals, hcode⟩ := Image.spans_append.1 hcode
  rw [Expr.meaning]
  simp only [bind_assoc, pure_bind, Activation.type_eq (k := k + 1) hc]
  refine (realizes_lookups hi hr hsc hvis hlocals).bind fun ss g w' _ hreach hg => ?_
  have hr' := hr.comes hg.1 hreach.code_eq
  refine realizes_last .obj hi hr.method hg.1 hcode ?_
  rw [← hg.2]
  exact step_newInstance (f := { g with pc := g.pc + 1 }) hg.1.stack ((hr'.moved _ _).classAt hc)

theorem faithful_deftype (hi : S.Installed i) (name : String) (u : CompiledUnit) : S.Faithful i n (.deftype name u) := by
  intro bound scope loop head dest k ρ f w pc' hs _ _ hr hl
  obtain ⟨hprov, hcode, _⟩ := hl
  obtain ⟨v, hv⟩ := (hi.answers _ _ (hprov 1 _ rfl)).constant
  rw [Expr.meaning, Activation.value_eq (k := k + 1) hv]
  exact realizes_last (x := pure v) .obj hi hr.method (Comes.refl bound f) hcode
    (step_const ((hr.moved _ _).constant hv))

/-! ## Tests and exceptions -/

theorem faithful_instanceOf (hi : S.Installed i) (name : String) {e : Expr} (he : S.Faithful i n e) :
    S.Faithful i n (.instanceOf name e) := by
  intro bound scope loop head dest k ρ f w pc' hs hsc _ hr hl
  obtain ⟨p, hs₁, hs₂, _, hval, hprov, hcode, _⟩ := hl
  obtain ⟨id, name', hc⟩ := (hi.answers _ _ (hprov 0 _ rfl)).type
  rw [Expr.meaning]
  simp only [bind_assoc, pure_bind, Activation.type_eq (k := k + (needs e).length) hc]
  refine (realizes_operand (q := none) he hsc hr hval).bind fun s g w' _ hreach hg => ?_
  have hr' := hr.comes hg hreach.code_eq
  refine realizes_last (fun w : World => .bool (w.isInstance s.toValue id)) hi hr.method hg hcode ?_
  simp only [step, stepData, popValue_cons (f := { g with pc := g.pc + 1 }) hg.stack, Run.ofExcept_ok, pure_bind, bind_assoc,
    Run.world_bind, (hr'.moved (g.pc + 1) g.stack).classAt hc]
  rfl

theorem faithful_throw (hi : S.Installed i) {e : Expr} (he : S.Faithful i n e) : S.Faithful i n (.throw e) := by
  intro bound scope loop head dest k ρ f w pc' hs hsc _ hr hl
  obtain ⟨p, hs₁, hs₂, _, hval, _, ⟨hj, _⟩, _⟩ := hl
  rw [Expr.meaning]
  simp only [bind_assoc]
  refine (realizes_operand (q := none) he hsc hr hval).bind fun s g w' _ hreach hg => ?_
  have hr' := hr.comes hg hreach.code_eq
  rw [← hr'.method, ← hg.pc] at hj
  refine (realizes_step (P := fun _ _ => False) (h := fun _ => g) (hr'.handlers hi) hj ?_ ?_).bind
    fun _ _ _ _ _ hf => hf.elim
  · simp only [step, popValue_cons (f := { g with pc := g.pc + 1 }) hg.stack, Run.ofExcept_ok, pure_bind]
    cases s.toValue <;> rfl
  · intro a w'' h
    revert h
    cases s.toValue <;> intro h <;> cases h

end LispMachine.Machine
