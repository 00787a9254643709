import LispMachine.Analyze.Form
import LispMachine.Expr.Eval
import LispMachine.Proofs.Analyze.Logic
import LispMachine.Proofs.Expr.Meaning
import LispMachine.Proofs.Value.Data
/-!
# Literal collections

A collection whose elements are all analyzed into literals becomes a constant, and its value is the written
form as data.  Evaluating this constant is the same as evaluating the elements from left to right and then
building the collection, provided that an element which is analyzed into a literal is written as the constant
that it is (`Plain`): see `eval_vector`, `eval_set` and `eval_map`.  What is built then is what the functions
`vector`, `hash-set` and `hash-map` build.  The condition is needed: `(quote a)` and `(do 1)` are analyzed into
literals too, but as data they are lists.
-/
namespace LispMachine

/-! ## Data -/

namespace Expr

/-- Makes data out of forms; the identities are new ones of the world. -/
def reading {α : Type} (x : StateM Nat α) : Analysis α := Analysis.changeWorld fun w =>
  ((x.run w.nextId).1, { w with nextId := (x.run w.nextId).2 })

theorem constantValue_eq (f : Form) : constantValue f = reading (Value.ofForm f) := rfl

/-- The value of the expression is the form as data. -/
def Denotes (f : Form) (e : Expr) : Prop := e.eval = constantValue f

theorem denotes_const (f : Form) : Denotes f (.const f) := rfl

theorem evalAll_of_denotes {fs : List Form} {es : List Expr} (h : List.Forall₂ Denotes fs es) : evalAll es = reading (Value.ofForms fs) := by
  induction h with
  | nil => rfl
  | @cons f e fs es hd _ ih =>
    rw [Denotes, constantValue_eq] at hd
    show (do let v ← e.eval; return v :: (← evalAll es)) = _
    rw [ih, hd]
    rfl

theorem evalPairs_of_denotes {fs : List (Form × Form)} {es : List (Expr × Expr)}
    (h : List.Forall₂ (fun f e => Denotes f.1 e.1 ∧ Denotes f.2 e.2) fs es) : evalPairs es = reading (Value.ofPairs fs) := by
  induction h with
  | nil => rfl
  | @cons f e fs es hd _ ih =>
    obtain ⟨hk, hv⟩ := hd
    rw [Denotes, constantValue_eq] at hk hv
    show (do let k ← e.1.eval; let v ← e.2.eval; return (k, v) :: (← evalPairs es)) = _
    rw [ih, hk, hv]
    rfl

/-- A vector as data is built like any other vector. -/
theorem denotes_vector {fs : List Form} {es : List Expr} (h : List.Forall₂ Denotes fs es) (info : Option Form.Info) :
    Denotes (.vector fs info) (.vector es) := by
  show (do running (Run.newVector (← evalAll es))) = _
  rw [evalAll_of_denotes h]
  rfl

theorem denotes_set {fs : List Form} {es : List Expr} (h : List.Forall₂ Denotes fs es) (info : Option Form.Info) :
    Denotes (.set fs info) (.set es) := by
  show (do running (Run.newSet (← evalAll es))) = _
  rw [evalAll_of_denotes h]
  rfl

theorem denotes_map {fs : List (Form × Form)} {es : List (Expr × Expr)}
    (h : List.Forall₂ (fun f e => Denotes f.1 e.1 ∧ Denotes f.2 e.2) fs es) (info : Option Form.Info) :
    Denotes (.map fs info) (.map es) := by
  show (do running (Run.newMap (← evalPairs es))) = _
  rw [evalPairs_of_denotes h]
  rfl

end Expr

/-! ## Elements -/

theorem Analysis.forList_eq_ok {α β : Type} {f : α → Analysis β} : ∀ {as : List α} {bs : List β} {c c' : Context},
    forList f as c = (.ok bs, c') → List.Forall₂ (fun a b => ∃ c₁ c₂, f a c₁ = (.ok b, c₂)) as bs
  | [], _, _, _, h => by
    cases h
    exact .nil
  | a :: as, bs, c, c', h => by
    obtain ⟨b, c₁, hb, h⟩ := bind_eq_ok h
    obtain ⟨bs, c₂, hbs, h⟩ := bind_eq_ok h
    cases h
    exact .cons ⟨c, c₁, hb⟩ (forList_eq_ok hbs)

/-- However the analysis ends, the context is what it was. -/
def Analysis.Still {α : Type} (x : Analysis α) : Prop := ∀ c, (x c).2 = c

theorem Analysis.Still.bind {α β : Type} {x : Analysis α} {f : α → Analysis β} (hx : x.Still) (hf : ∀ a, (f a).Still) :
    (x >>= f).Still := by
  intro c
  have hc := hx c
  rcases hr : x c with ⟨a | e | _, c'⟩ <;> rw [hr] at hc
  · rw [bind_of_ok hr, hf a c']
    exact hc
  · rw [bind_of_error hr]
    exact hc
  · rw [bind_of_cut hr]
    exact hc

theorem Analysis.still_forList {α β : Type} {f : α → Analysis β} : ∀ {as : List α}, (∀ a ∈ as, (f a).Still) → (forList f as).Still
  | [], _ => fun _ => rfl
  | _ :: _, h =>
    have ⟨ha, has⟩ := List.forall_mem_cons.1 h
    ha.bind fun _ => (still_forList has).bind fun _ _ => rfl

namespace Analyze

open LispMachine.Expr

variable {rec : Analyzer} {demand : Demand} {c c' : Context} {e : Expr} {info : Option Form.Info}

/-- The analysis of a key and of its value. -/
def entry (rec : Analyzer) (demand : Demand) (p : Form × Form) : Analysis (Expr × Expr) := do
  let k ← rec demand.operand p.1
  return (k, ← rec demand.operand p.2)

theorem entry_eq_ok {p : Form × Form} {e : Expr × Expr} (h : entry rec demand p c = (.ok e, c')) :
    ∃ c₁, rec demand.operand p.1 c = (.ok e.1, c₁) ∧ rec demand.operand p.2 c₁ = (.ok e.2, c') := by
  obtain ⟨k, c₁, hk, h⟩ := Analysis.bind_eq_ok h
  obtain ⟨v, c₂, hv, h⟩ := Analysis.bind_eq_ok h
  cases h
  exact ⟨c₁, hk, hv⟩

/-- Equal keys are looked for without touching anything. -/
theorem checkKeys_eq_ok {keys : List Form} {u : PUnit} (h : checkKeys keys c = (.ok u, c')) : c' = c := by
  unfold checkKeys at h
  cases hk : repeatedKey? [] keys with
  | some k =>
    rw [hk] at h
    cases h
  | none =>
    rw [hk] at h
    cases h
    rfl

theorem vector_eq_ok {form : Form} {items : List Form} (h : vector rec demand form items c = (.ok e, c')) :
    ∃ es, operands rec demand items c = (.ok es, c') ∧ e = if es.all isLiteral then .const (form.withInfo none) else .vector es := by
  obtain ⟨es, c₁, hes, h⟩ := Analysis.bind_eq_ok h
  cases h
  exact ⟨es, hes, rfl⟩

theorem set_eq_ok {form : Form} {items : List Form} (h : set rec demand form items c = (.ok e, c')) :
    ∃ es, operands rec demand items c = (.ok es, c') ∧ e = if es.all isLiteral then .const (form.withInfo none) else .set es := by
  unfold set at h
  obtain ⟨u, c₁, hu, hrest⟩ := Analysis.bind_eq_ok h
  obtain ⟨es, c₂, hes, he⟩ := Analysis.bind_eq_ok hrest
  cases he
  rw [checkKeys_eq_ok hu] at hes
  exact ⟨es, hes, rfl⟩

theorem map_eq_ok {form : Form} {pairs : List (Form × Form)} (h : map rec demand form pairs c = (.ok e, c')) :
    ∃ es, Analysis.forList (entry rec demand) pairs c = (.ok es, c') ∧
      e = if es.all (fun e => e.1.isLiteral && e.2.isLiteral) then .const (form.withInfo none) else .map es := by
  unfold map at h
  obtain ⟨u, c₁, hu, hrest⟩ := Analysis.bind_eq_ok h
  obtain ⟨es, c₂, hes, he⟩ := Analysis.bind_eq_ok hrest
  cases he
  rw [checkKeys_eq_ok hu] at hes
  exact ⟨es, hes, rfl⟩

/-! ## Constants -/

/-- A form that is written as a constant is analyzed into a literal, whose value is the form as data. -/
def Literally (rec : Analyzer) : Prop := ∀ ⦃demand : Demand⦄ ⦃f : Form⦄ ⦃c c' : Context⦄ ⦃e : Expr⦄, isConstant f = true →
  rec demand f c = (.ok e, c') → e.isLiteral = true ∧ Denotes f e

/-- A literal that stands for a form is written as it is. -/
def Plain (f : Form) (e : Expr) : Prop := e.isLiteral = true → isConstant f = true

/-- Constants among the elements are literals. -/
theorem Literally.all_operands (hr : Literally rec) {items : List Form} {es : List Expr} (h : operands rec demand items c = (.ok es, c'))
    (hc : areConstant items = true) : es.all isLiteral = true := by
  have hes := Analysis.forList_eq_ok h
  clear h
  induction hes with
  | nil => rfl
  | cons he _ ih =>
    obtain ⟨_, _, he⟩ := he
    obtain ⟨hf, hfs⟩ := Bool.and_eq_true_iff.1 hc
    rw [List.all_cons, (hr hf he).1, ih hfs]
    rfl

theorem Literally.all_entries (hr : Literally rec) {pairs : List (Form × Form)} {es : List (Expr × Expr)}
    (h : Analysis.forList (entry rec demand) pairs c = (.ok es, c')) (hc : areConstantPairs pairs = true) :
    es.all (fun e => e.1.isLiteral && e.2.isLiteral) = true := by
  have hes := Analysis.forList_eq_ok h
  clear h
  induction hes with
  | nil => rfl
  | cons he _ ih =>
    obtain ⟨_, _, he⟩ := he
    obtain ⟨_, hk, hv⟩ := entry_eq_ok he
    obtain ⟨hf, hfs⟩ := Bool.and_eq_true_iff.1 hc
    obtain ⟨hfk, hfv⟩ := Bool.and_eq_true_iff.1 hf
    rw [List.all_cons, (hr hfk hk).1, (hr hfv hv).1, ih hfs]
    rfl

/-- The analysis of a constant, if the constants in it are analyzed as they should be. -/
theorem Literally.formWith (hr : Literally rec) : Literally (formWith rec) := by
  intro demand f c c' e hf h
  cases f with
  | nil | bool | long | double =>
    cases h
    exact ⟨rfl, rfl⟩
  | char | str | keyword =>
    cases h
    exact ⟨rfl, denotes_const _⟩
  | symbol => cases hf
  | list items info =>
    cases items with
    | nil =>
      cases h
      exact ⟨rfl, denotes_const _⟩
    | cons => cases hf
  | vector items info =>
    obtain ⟨es, hes, rfl⟩ := vector_eq_ok h
    rw [if_pos (hr.all_operands hes hf)]
    exact ⟨rfl, denotes_const _⟩
  | set items info =>
    obtain ⟨es, hes, rfl⟩ := set_eq_ok h
    rw [if_pos (hr.all_operands hes hf)]
    exact ⟨rfl, denotes_const _⟩
  | map pairs info =>
    obtain ⟨es, hes, rfl⟩ := map_eq_ok h
    rw [if_pos (hr.all_entries hes hf)]
    exact ⟨rfl, denotes_const _⟩

theorem literally_formWithin : ∀ n : Nat, Literally (formWithin n)
  | 0 => fun _ _ _ _ _ _ h => by cases h
  | n + 1 => (literally_formWithin n).formWith

theorem isConstant_of_mem {f : Form} : ∀ {fs : List Form}, areConstant fs = true → f ∈ fs → isConstant f = true
  | _ :: _, h, hf => by
    obtain ⟨hfirst, hrest⟩ := Bool.and_eq_true_iff.1 h
    rcases List.mem_cons.1 hf with rfl | hf
    · exact hfirst
    · exact isConstant_of_mem hrest hf

theorem isConstant_of_mem_pairs {p : Form × Form} : ∀ {ps : List (Form × Form)}, areConstantPairs ps = true → p ∈ ps →
    isConstant p.1 = true ∧ isConstant p.2 = true
  | _ :: _, h, hp => by
    obtain ⟨hfirst, hrest⟩ := Bool.and_eq_true_iff.1 h
    rcases List.mem_cons.1 hp with rfl | hp
    · exact Bool.and_eq_true_iff.1 hfirst
    · exact isConstant_of_mem_pairs hrest hp

theorem still_checkKeys (keys : List Form) : (checkKeys keys).Still := by
  intro c
  unfold checkKeys
  cases repeatedKey? [] keys <;> rfl

/-- The analysis of a constant touches nothing, also when a key is repeated. -/
theorem still_formWithin : ∀ (n : Nat) {demand : Demand} {f : Form}, isConstant f = true → (formWithin n demand f).Still
  | 0, _, _, _ => fun _ => rfl
  | n + 1, demand, f, hf => by
    cases f with
    | nil | bool | long | double | char | str | keyword => exact fun _ => rfl
    | symbol => cases hf
    | list items info =>
      cases items with
      | nil => exact fun _ => rfl
      | cons => cases hf
    | vector items info =>
      have hitems : (Analyze.operands (formWithin n) demand items).Still :=
        Analysis.still_forList fun _ hg => still_formWithin n (isConstant_of_mem hf hg)
      exact hitems.bind fun _ _ => rfl
    | set items info =>
      have hitems : (Analyze.operands (formWithin n) demand items).Still :=
        Analysis.still_forList fun _ hg => still_formWithin n (isConstant_of_mem hf hg)
      exact (still_checkKeys items).bind fun _ => hitems.bind fun _ _ => rfl
    | map pairs info =>
      have hentries : (Analysis.forList (entry (formWithin n) demand) pairs).Still := Analysis.still_forList fun p hp =>
        have ⟨hk, hv⟩ := isConstant_of_mem_pairs hf hp
        (still_formWithin n hk).bind fun _ => (still_formWithin n hv).bind fun _ _ => rfl
      exact (still_checkKeys _).bind fun _ => hentries.bind fun _ _ => rfl

/-- Elements that are analyzed into literals and are written as they are. -/
theorem Literally.operands (hr : Literally rec) {items : List Form} {es : List Expr} (h : operands rec demand items c = (.ok es, c'))
    (hp : List.Forall₂ Plain items es) (hl : es.all isLiteral = true) : List.Forall₂ Denotes items es := by
  have hes := Analysis.forList_eq_ok h
  rw [List.all_eq_true] at hl
  rw [List.forall₂_iff_zip] at hp hes ⊢
  refine ⟨hp.1, fun {f e} hm => ?_⟩
  obtain ⟨_, _, he⟩ := hes.2 hm
  exact (hr (hp.2 hm (hl e (List.of_mem_zip hm).2)) he).2

theorem Literally.entries (hr : Literally rec) {pairs : List (Form × Form)} {es : List (Expr × Expr)}
    (h : Analysis.forList (entry rec demand) pairs c = (.ok es, c')) (hp : List.Forall₂ (fun f e => Plain f.1 e.1 ∧ Plain f.2 e.2) pairs es)
    (hl : es.all (fun e => e.1.isLiteral && e.2.isLiteral) = true) :
    List.Forall₂ (fun f e => Denotes f.1 e.1 ∧ Denotes f.2 e.2) pairs es := by
  have hes := Analysis.forList_eq_ok h
  simp only [List.all_eq_true, Bool.and_eq_true] at hl
  rw [List.forall₂_iff_zip] at hp hes ⊢
  refine ⟨hp.1, fun {f e} hm => ?_⟩
  obtain ⟨_, _, he⟩ := hes.2 hm
  obtain ⟨_, hk, hv⟩ := entry_eq_ok he
  obtain ⟨hlk, hlv⟩ := hl e (List.of_mem_zip hm).2
  exact ⟨(hr ((hp.2 hm).1 hlk) hk).2, (hr ((hp.2 hm).2 hlv) hv).2⟩

/-! ## Evaluation -/

variable {n : Nat}

theorem eval_folded {b : Bool} {f : Form} (h : b = true → Denotes f e) : (if b then .const f else e).eval = e.eval := by
  cases b with
  | true => exact (denotes_const f).trans (h rfl).symm
  | false => rfl

/-- **A vector evaluates its elements from left to right**, also if it was made a constant. -/
theorem eval_vector {items : List Form} (h : formWithin (n + 1) demand (.vector items info) c = (.ok e, c')) :
    ∃ es, operands (formWithin n) demand items c = (.ok es, c') ∧ (List.Forall₂ Plain items es → e.eval = (Expr.vector es).eval) := by
  obtain ⟨es, hes, rfl⟩ := vector_eq_ok h
  exact ⟨es, hes, fun hp => eval_folded fun hl => denotes_vector ((literally_formWithin n).operands hes hp hl) none⟩

/-- **A set evaluates its members from left to right**, also if it was made a constant. -/
theorem eval_set {items : List Form} (h : formWithin (n + 1) demand (.set items info) c = (.ok e, c')) :
    ∃ es, operands (formWithin n) demand items c = (.ok es, c') ∧ (List.Forall₂ Plain items es → e.eval = (Expr.set es).eval) := by
  obtain ⟨es, hes, rfl⟩ := set_eq_ok h
  exact ⟨es, hes, fun hp => eval_folded fun hl => denotes_set ((literally_formWithin n).operands hes hp hl) none⟩

/-- **A map evaluates each key and then its value, from left to right**, also if it was made a constant. -/
theorem eval_map {pairs : List (Form × Form)} (h : formWithin (n + 1) demand (.map pairs info) c = (.ok e, c')) :
    ∃ es, Analysis.forList (entry (formWithin n) demand) pairs c = (.ok es, c') ∧
      (List.Forall₂ (fun f e => Plain f.1 e.1 ∧ Plain f.2 e.2) pairs es → e.eval = (Expr.map es).eval) := by
  obtain ⟨es, hes, rfl⟩ := map_eq_ok h
  exact ⟨es, hes, fun hp => eval_folded fun hl => denotes_map ((literally_formWithin n).entries hes hp hl) none⟩

end Analyze

/-! ## Functions that build collections -/

instance : LawfulMonad Analysis := LawfulMonad.mk' Analysis
  (by
    intro α x
    funext c
    show (match x c with
      | (.ok a, c) => (Result.ok a, c)
      | (.error e, c) => (.error e, c)
      | (.cut, c) => (.cut, c)) = x c
    rcases x c with ⟨_ | _ | _, _⟩ <;> rfl)
  (fun _ _ => rfl)
  (by
    intro α β γ x f g
    funext c
    simp only [Bind.bind, Analysis.bind]
    rcases x c with ⟨_ | _ | _, _⟩ <;> rfl)

/-- A core function that gives its value at once. -/
theorem Machine.call_core {g : CoreFn} {args : List Value} {x : Run Value} (h : Core.call g args = do return .value (← x)) :
    call (.native (.fn g)) args = x := by
  obtain ⟨n, hn⟩ : ∃ n, allowance = n + 2 := ⟨Nat.pow 2 60 - 2, by decide⟩
  funext w
  rw [call, hn, invokeValue_succ, invoke, h]
  simp only [Bind.bind, Run.bind, Pure.pure, Run.pure]
  rcases x w with ⟨_ | _ | _, _⟩
  · simp only [Answer.ofReply, answer]
  · rfl
  · rfl

namespace Expr

variable {c : Context} {v : VarRef} {line : Nat} {tail : Bool}

/-- A call of a core function evaluates its arguments from left to right. -/
theorem eval_invoke_core {g : CoreFn} {build : List Value → Run Value} (hb : ∀ args, Core.call g args = do return .value (← build args))
    (hv : c.world.varGet v.var = .ok (.native (.fn g))) (es : List Expr) :
    (invoke (.var v) es line tail).eval c = (do running (build (← evalAll es)) : Analysis Value) c := by
  have hf : (Expr.var v).eval c = (.ok (.native (.fn g)), c) := by
    show running (Run.ofExcept (c.world.varGet v.var)) c = _
    rw [hv]
    rfl
  show ((Expr.var v).eval >>= fun f => evalAll es >>= fun args => running (Machine.call f args)) c = _
  rw [Analysis.bind_of_ok hf]
  simp only [Machine.call_core (hb _)]

/-- **The function `vector` builds what a vector in brackets builds.** -/
theorem eval_invoke_vector (hv : c.world.varGet v.var = .ok (.native (.fn .vector))) (es : List Expr) :
    (invoke (.var v) es line tail).eval c = (vector es).eval c := by
  rw [eval_invoke_core (fun _ => rfl) hv]
  rfl

/-- **The function `hash-set` builds what a set in braces builds.** -/
theorem eval_invoke_hashSet (hv : c.world.varGet v.var = .ok (.native (.fn .hashSet))) (es : List Expr) :
    (invoke (.var v) es line tail).eval c = (set es).eval c := by
  rw [eval_invoke_core (fun _ => rfl) hv]
  rfl

/-- Keys and values alternate. -/
def alternate {α : Type} (ps : List (α × α)) : List α := ps.flatMap fun p => [p.1, p.2]

theorem ofItems_alternate : ∀ kvs : List (Value × Value), Value.Entries.ofItems (alternate kvs) = kvs
  | [] => rfl
  | (k, v) :: kvs => congrArg ((k, v) :: ·) (ofItems_alternate kvs)

theorem evalAll_alternate (ps : List (Expr × Expr)) : evalAll (alternate ps) = do return alternate (← evalPairs ps) := by
  induction ps with
  | nil => rfl
  | cons p ps ih =>
    have hpairs : evalPairs (p :: ps) = (do let k ← p.1.eval; let v ← p.2.eval; return (k, v) :: (← evalPairs ps)) := rfl
    show (do let k ← p.1.eval; return k :: (← (do let v ← p.2.eval; return v :: (← evalAll (alternate ps))))) = _
    rw [ih, hpairs]
    simp only [bind_assoc, pure_bind]
    rfl

theorem length_alternate {α : Type} (ps : List (α × α)) : (alternate ps).length % 2 = 0 := by
  induction ps with
  | nil => rfl
  | cons p ps ih =>
    show ((alternate ps).length + 1 + 1) % 2 = 0
    omega

/-- **The function `hash-map` builds what a map in braces builds**, from the same keys and values in turn. -/
theorem eval_invoke_hashMap (hv : c.world.varGet v.var = .ok (.native (.fn .hashMap))) (ps : List (Expr × Expr)) :
    (invoke (.var v) (alternate ps) line tail).eval c = (map ps).eval c := by
  rw [eval_invoke_core (fun _ => rfl) hv, evalAll_alternate]
  simp only [bind_assoc, pure_bind, Core.callCollection, length_alternate, ofItems_alternate]
  rfl

end Expr

end LispMachine
