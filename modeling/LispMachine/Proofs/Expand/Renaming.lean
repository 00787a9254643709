import LispMachine.Expand.Builtin
import Mathlib.Logic.Function.Basic
/-!
# Renaming what stands in a call

A built-in expander only moves about what stands in a call: renaming the symbols in the call renames its expansion in
the same way (`expand_rename`), and an expander that fails does so after the renaming too.  The renaming has to leave
alone what the expander writes itself (`spelled`) and its temporary names.  These are looked up where the call stands:
a local with one of them is the only one that can come between an expansion and what it relies on.
-/
namespace LispMachine

variable {σ : Symbol → Symbol} {α β γ δ : Type}

/-! ## Renaming -/

namespace Form

mutual

/-- Other symbols at every depth; metadata stays. -/
def rename (σ : Symbol → Symbol) : Form → Form
  | .symbol s i => .symbol (σ s) i
  | .list xs i => .list (renameAll σ xs) i
  | .vector xs i => .vector (renameAll σ xs) i
  | .set xs i => .set (renameAll σ xs) i
  | .map ps i => .map (renamePairs σ ps) i
  | .nil => .nil
  | .bool b => .bool b
  | .long n => .long n
  | .double d => .double d
  | .char c => .char c
  | .str s => .str s
  | .keyword k => .keyword k

def renameAll (σ : Symbol → Symbol) : List Form → List Form
  | [] => []
  | x :: xs => rename σ x :: renameAll σ xs

def renamePairs (σ : Symbol → Symbol) : List (Form × Form) → List (Form × Form)
  | [] => []
  | (k, v) :: ps => (rename σ k, rename σ v) :: renamePairs σ ps

end

theorem renameAll_eq (σ : Symbol → Symbol) : ∀ xs, renameAll σ xs = xs.map (rename σ)
  | [] => rfl
  | x :: xs => congrArg (rename σ x :: ·) (renameAll_eq σ xs)

@[simp] theorem rename_symbol (s : Symbol) (i : Option Info) : rename σ (.symbol s i) = .symbol (σ s) i := rfl

@[simp] theorem rename_list (xs : List Form) (i : Option Info) :
    rename σ (.list xs i) = .list (xs.map (rename σ)) i :=
  congrArg (list · i) (renameAll_eq σ xs)

@[simp] theorem rename_vector (xs : List Form) (i : Option Info) :
    rename σ (.vector xs i) = .vector (xs.map (rename σ)) i :=
  congrArg (vector · i) (renameAll_eq σ xs)

@[simp] theorem rename_nil : rename σ .nil = .nil := rfl

@[simp] theorem rename_bool (b : Bool) : rename σ (.bool b) = .bool b := rfl

@[simp] theorem rename_long (n : Int64) : rename σ (.long n) = .long n := rfl

@[simp] theorem rename_ofItems (xs : List Form) : rename σ (ofItems xs) = ofItems (xs.map (rename σ)) :=
  rename_list xs none

@[simp] theorem rename_ofVector (xs : List Form) : rename σ (ofVector xs) = ofVector (xs.map (rename σ)) :=
  rename_vector xs none

@[simp] theorem symbol?_rename (f : Form) : (rename σ f).symbol? = f.symbol?.map σ := by
  cases f <;> rfl

@[simp] theorem vector?_rename (f : Form) : (rename σ f).vector? = f.vector?.map (List.map (rename σ)) := by
  cases f with
  | vector xs i => exact congrArg some (renameAll_eq σ xs)
  | _ => rfl

@[simp] theorem typeName_rename (f : Form) : (rename σ f).typeName = f.typeName := by
  cases f <;> rfl

@[simp] theorem info?_rename (f : Form) : (rename σ f).info? = f.info? := by
  cases f <;> rfl

@[simp] theorem rename_withInfo (f : Form) (i : Option Info) : rename σ (f.withInfo i) = (rename σ f).withInfo i := by
  cases f <;> rfl

end Form

/-- The forms that an error is about are those that stand in the call. -/
def ExpandError.rename (σ : Symbol → Symbol) : ExpandError → ExpandError
  | .badSignature f => .badSignature (f.rename σ)
  | .badImplementation f => .badImplementation (f.rename σ)
  | .fieldNotSymbol f => .fieldNotSymbol (f.rename σ)
  | e => e

namespace Expander

/-- The names that the expanders write themselves. -/
def spelled : List String := [
  "def", "do", "if", "let*", "loop*", "letfn*", "fn*", "case*", "reify*", "recur", "var", "try", "finally", "and", "or",
  "inc", "<", "long", "hash-map", "push-thread-bindings", "pop-thread-bindings"]

/-- The renaming leaves alone what the expanders write themselves. -/
structure Spares (σ : Symbol → Symbol) : Prop where
  spelled : ∀ name ∈ spelled, σ (.plain name) = .plain name
  temporary : ∀ (stem : String) (n : Nat),
    σ (.plain (stem ++ "__" ++ toString n ++ "__auto__")) = .plain (stem ++ "__" ++ toString n ++ "__auto__")

/-- One name that no expander writes may be exchanged for any other. -/
theorem Spares.update {s : Symbol} (hs : ∀ name ∈ Expander.spelled, s ≠ .plain name)
    (ht : ∀ text, s ≠ .plain (text ++ "__auto__")) (t : Symbol) : Spares (Function.update id s t) where
  spelled name h := Function.update_of_ne (hs name h).symm t id
  temporary _ _ := Function.update_of_ne (ht _).symm t id

/-- The expanders that use the texts of names, or what stands in front of a definition. -/
def defines : Expander → Bool
  | .defn | .defExpander | .defprotocol | .extendType | .deftype => true
  | _ => false

/-- The result with everything renamed, an error too. -/
def renamed (σ : Symbol → Symbol) (m : α → β) : Except ExpandError α → Except ExpandError β
  | .ok a => .ok (m a)
  | .error e => .error (e.rename σ)

/-- The second expansion gives the renamed result of the first and takes the same numbers. -/
def Renames (σ : Symbol → Symbol) (m : α → β) (x : Expansion α) (x' : Expansion β) : Prop :=
  ∀ n, x'.run n = renamed σ (Prod.map m id) (x.run n)

variable {m : α → β} {k : γ → δ}

theorem renamed_bind {x : Except ExpandError α} {x' : Except ExpandError β} {g : α → Except ExpandError γ}
    {g' : β → Except ExpandError δ} (hx : x' = renamed σ m x) (hg : ∀ a, g' (m a) = renamed σ k (g a)) :
    x' >>= g' = renamed σ k (x >>= g) := by
  subst hx
  cases x with
  | ok a => exact hg a
  | error e => rfl

theorem renamed_mapM {g : α → Except ExpandError γ} {g' : β → Except ExpandError δ}
    (hg : ∀ a, g' (m a) = renamed σ k (g a)) : ∀ as : List α,
      (as.map m).mapM g' = renamed σ (List.map k) (as.mapM g)
  | [] => rfl
  | a :: as => by
    rw [List.map_cons, List.mapM_cons, List.mapM_cons]
    exact renamed_bind (hg a) fun c => renamed_bind (renamed_mapM hg as) fun cs => rfl

namespace Renames

theorem pure {a : α} {b : β} (h : b = m a) : Renames σ m (pure a) (pure b) := by
  subst h
  exact fun _ => rfl

theorem bind {x : Expansion α} {x' : Expansion β} {g : α → Expansion γ} {g' : β → Expansion δ}
    (hx : Renames σ m x x') (hg : ∀ a, Renames σ k (g a) (g' (m a))) : Renames σ k (x >>= g) (x' >>= g') := by
  intro n
  rw [StateT.run_bind, StateT.run_bind]
  exact renamed_bind (hx n) fun a => hg a.1 a.2

theorem lift {x : Except ExpandError α} {x' : Except ExpandError β} (h : x' = renamed σ m x) :
    Renames σ m (liftM x) (liftM x') := by
  subst h
  intro n
  cases x <;> rfl

theorem gensym (hσ : Spares σ) (stem : String) :
    Renames σ (Form.rename σ) (Expander.gensym stem) (Expander.gensym stem) := by
  intro n
  change Except.ok (sym _, n + 1) = Except.ok (Form.rename σ (sym _), n + 1)
  rw [sym, Form.rename_symbol, hσ.temporary]

end Renames

/-! ## Building forms -/

theorem rename_call (hσ : Spares σ) {head : String} (h : head ∈ spelled) (args : List Form) :
    (call head args).rename σ = call head (args.map (Form.rename σ)) := by
  simp only [call, Form.rename_ofItems, List.map_cons, sym, Form.rename_symbol, hσ.spelled head h]

theorem rename_rename (hσ : Spares σ) {head : String} (h : head ∈ spelled) (form : Form) (args : List Form) :
    (rename form args head).rename σ = rename (form.rename σ) (args.map (Form.rename σ)) head := by
  rw [rename, Form.rename_withInfo, rename_call hσ h, rename, Form.info?_rename]

theorem rename_doBody (hσ : Spares σ) (body : List Form) :
    (doBody body).rename σ = doBody (body.map (Form.rename σ)) := by
  match body with
  | [] => exact rename_call hσ (by decide) []
  | [_] => rfl
  | _ :: _ :: _ => exact rename_call hσ (by decide) _

theorem pairs_map (f : α → β) : ∀ as : List α, pairs (as.map f) = (pairs as).map (Prod.map f f)
  | [] => rfl
  | [_] => rfl
  | _ :: _ :: rest => congrArg (_ :: ·) (pairs_map f rest)

theorem headD_map (args : List Form) : (args.map (Form.rename σ)).headD .nil = (args.headD .nil).rename σ := by
  cases args <;> simp

theorem getD_map (args : List Form) (i : Nat) :
    ((args.map (Form.rename σ))[i]?).getD .nil = ((args[i]?).getD .nil).rename σ := by
  rw [List.getElem?_map]
  cases args[i]? <;> simp

theorem threadInto_rename (atEnd : Bool) (acc step : Form) :
    threadInto atEnd (acc.rename σ) (step.rename σ) = (threadInto atEnd acc step).rename σ := by
  cases step with
  | list items info => cases items <;> cases atEnd <;> simp [threadInto]
  | _ => simp [threadInto, Form.rename]

/-! ## Checking arguments -/

theorem needSymbol_rename (f : Form) (what : String) :
    needSymbol (f.rename σ) what = renamed σ σ (needSymbol f what) := by
  unfold needSymbol
  rw [Form.symbol?_rename, Form.typeName_rename]
  cases f.symbol? <;> rfl

theorem needVector_rename (args : List Form) (name : String) :
    needVector (args.map (Form.rename σ)).head? name =
      renamed σ (List.map (Form.rename σ)) (needVector args.head? name) := by
  unfold needVector
  cases args with
  | nil => rfl
  | cons f _ =>
    simp only [List.map_cons, List.head?_cons, Option.bind_some, Form.vector?_rename]
    cases f.vector? <;> rfl

theorem needArgs_rename (args : List Form) (n : Nat) (name : String) :
    needArgs (args.map (Form.rename σ)) n name = renamed σ id (needArgs args n name) := by
  unfold needArgs
  rw [List.length_map]
  split <;> rfl

theorem needPair_rename (args : List Form) (name : String) :
    needPair (args.map (Form.rename σ)) name =
      renamed σ (Prod.map (Form.rename σ) (Form.rename σ)) (needPair args name) := by
  refine renamed_bind (needVector_rename args name) fun items => ?_
  match items with
  | [] | [_] | [_, _] | _ :: _ :: _ :: _ => rfl

theorem localFn_rename (hσ : Spares σ) (spec : Form) :
    localFn (spec.rename σ) = renamed σ (List.map (Form.rename σ)) (localFn spec) := by
  cases spec with
  | list items info =>
    rw [Form.rename_list]
    refine renamed_bind ((congrArg (needSymbol · _) (headD_map items)).trans (needSymbol_rename _ _)) fun _ => ?_
    rw [headD_map]
    exact congrArg (fun f => Except.ok [_, f]) (rename_call hσ (by decide) items).symm
  | _ => rw [Form.rename]; rfl

/-- A protocol and the methods that follow it. -/
abbrev Spec := Form × List (List Form)

/-- A protocol and its methods with other symbols. -/
def Spec.rename (σ : Symbol → Symbol) : Spec → Spec :=
  Prod.map (Form.rename σ) (List.map (List.map (Form.rename σ)))

theorem protocolSpecs_go_rename : ∀ (forms : List Form) (done : List Spec),
    protocolSpecs.go (done.map (Spec.rename σ)) (forms.map (Form.rename σ)) =
      renamed σ (List.map (Spec.rename σ)) (protocolSpecs.go done forms)
  | [], done => by
    simp [protocolSpecs.go, renamed, Spec.rename]
  | form :: rest, done => by
    rw [List.map_cons]
    cases form with
    | symbol s i =>
      rw [Form.rename_symbol, protocolSpecs.go, protocolSpecs.go]
      exact protocolSpecs_go_rename rest ((.symbol s i, []) :: done)
    | list items i =>
      rw [Form.rename_list]
      cases done with
      | nil => rfl
      | cons spec done => exact protocolSpecs_go_rename rest ((spec.1, items :: spec.2) :: done)
    | _ => rw [Form.rename]; rfl

theorem protocolSpecs_rename (forms : List Form) :
    protocolSpecs (forms.map (Form.rename σ)) = renamed σ (List.map (Spec.rename σ)) (protocolSpecs forms) :=
  protocolSpecs_go_rename forms []

/-! ## Expanders that need no temporary name -/

theorem expandDeclare_rename (hσ : Spares σ) (args : List Form) :
    expandDeclare (args.map (Form.rename σ)) = (expandDeclare args).rename σ := by
  rw [expandDeclare, expandDeclare, rename_call hσ (by decide), List.map_map, List.map_map]
  congr 1
  exact List.map_congr_left fun name _ => (rename_call hσ (by decide) [name]).symm

theorem expandWhen_rename (hσ : Spares σ) (args : List Form) :
    expandWhen (args.map (Form.rename σ)) = renamed σ (Form.rename σ) (expandWhen args) := by
  refine renamed_bind (needArgs_rename args 1 "when") fun _ => congrArg Except.ok ?_
  rw [rename_call hσ (by decide), List.map_cons, List.map_cons, rename_doBody hσ, headD_map, List.map_tail, List.map_nil]

theorem expandWhenNot_rename (hσ : Spares σ) (args : List Form) :
    expandWhenNot (args.map (Form.rename σ)) = renamed σ (Form.rename σ) (expandWhenNot args) := by
  refine renamed_bind (needArgs_rename args 1 "when-not") fun _ => congrArg Except.ok ?_
  rw [rename_call hσ (by decide), headD_map]
  simp only [List.map_cons, List.map_nil, rename_doBody hσ, Form.rename_nil, List.map_tail]

theorem expandIfNot_rename (hσ : Spares σ) (args : List Form) :
    expandIfNot (args.map (Form.rename σ)) = renamed σ (Form.rename σ) (expandIfNot args) := by
  refine renamed_bind (needArgs_rename args 2 "if-not") fun _ => congrArg Except.ok ?_
  rw [rename_call hσ (by decide), headD_map, getD_map, getD_map]
  rfl

theorem expandCond_rename (hσ : Spares σ) (args : List Form) :
    expandCond (args.map (Form.rename σ)) = renamed σ (Form.rename σ) (expandCond args) := by
  unfold expandCond
  rw [List.length_map, pairs_map]
  split
  · rfl
  · refine congrArg Except.ok ?_
    induction pairs args with
    | nil => exact Form.rename_nil.symm
    | cons clause rest ih =>
      rw [List.map_cons, List.foldr_cons, List.foldr_cons, rename_call hσ (by decide), ih]
      rfl

theorem expandThread_rename (atEnd : Bool) (name : String) (args : List Form) :
    expandThread atEnd name (args.map (Form.rename σ)) = renamed σ (Form.rename σ) (expandThread atEnd name args) := by
  refine renamed_bind (needArgs_rename args 1 name) fun _ => congrArg Except.ok ?_
  rw [headD_map, ← List.map_tail, List.foldl_map]
  exact List.foldl_hom (Form.rename σ) (threadInto_rename atEnd)

theorem expandLet_rename (hσ : Spares σ) (form : Form) (args : List Form) :
    expandLet (form.rename σ) (args.map (Form.rename σ)) = renamed σ (Form.rename σ) (expandLet form args) :=
  renamed_bind (needVector_rename args "let") fun _ =>
    congrArg Except.ok (rename_rename hσ (by decide) form args).symm

theorem expandLoop_rename (hσ : Spares σ) (form : Form) (args : List Form) :
    expandLoop (form.rename σ) (args.map (Form.rename σ)) = renamed σ (Form.rename σ) (expandLoop form args) :=
  renamed_bind (needVector_rename args "loop") fun _ =>
    congrArg Except.ok (rename_rename hσ (by decide) form args).symm

theorem expandLetfn_rename (hσ : Spares σ) (args : List Form) :
    expandLetfn (args.map (Form.rename σ)) = renamed σ (Form.rename σ) (expandLetfn args) := by
  refine renamed_bind (needVector_rename args "letfn") fun specs =>
    renamed_bind (renamed_mapM (localFn_rename hσ) specs) fun bindings => congrArg Except.ok ?_
  rw [rename_call hσ (by decide), List.map_cons, Form.rename_ofVector, List.map_flatten, List.map_tail]

theorem expandBinding_rename (hσ : Spares σ) (args : List Form) :
    expandBinding (args.map (Form.rename σ)) = renamed σ (Form.rename σ) (expandBinding args) := by
  refine renamed_bind (needVector_rename args "binding") fun items => ?_
  rw [List.length_map, pairs_map]
  split
  · rfl
  · refine congrArg Except.ok ?_
    simp (disch := decide) only [rename_call hσ, List.map_cons, List.map_nil, List.map_append, List.map_tail,
      List.map_flatMap, List.flatMap_map, Prod.map]

theorem expandReify_rename (hσ : Spares σ) (args : List Form) :
    expandReify (args.map (Form.rename σ)) = renamed σ (Form.rename σ) (expandReify args) := by
  refine renamed_bind (protocolSpecs_rename args) fun specs => congrArg Except.ok ?_
  rw [rename_call hσ (by decide), List.map_cons, Form.rename_ofVector]
  simp only [List.map_map, List.map_flatMap, List.flatMap_map, Spec.rename, Prod.map, Function.comp_def,
    Form.rename_ofItems]

/-! ## Expanders that compute something once -/

theorem expandAnd_renames (hσ : Spares σ) (args : List Form) :
    Renames σ (Form.rename σ) (expandAnd args) (expandAnd (args.map (Form.rename σ))) := by
  match args with
  | [] => exact .pure (Form.rename_bool true).symm
  | [_] => exact .pure rfl
  | first :: second :: rest =>
    refine .bind (.gensym hσ "and") fun g => .pure ?_
    simp (disch := decide) only [rename_call hσ, List.map_cons, List.map_nil, Form.rename_ofVector]

theorem expandOr_renames (hσ : Spares σ) (args : List Form) :
    Renames σ (Form.rename σ) (expandOr args) (expandOr (args.map (Form.rename σ))) := by
  match args with
  | [] => exact .pure Form.rename_nil.symm
  | [_] => exact .pure rfl
  | first :: second :: rest =>
    refine .bind (.gensym hσ "or") fun g => .pure ?_
    simp (disch := decide) only [rename_call hσ, List.map_cons, List.map_nil, Form.rename_ofVector]

theorem expandIfLet_renames (hσ : Spares σ) (args : List Form) :
    Renames σ (Form.rename σ) (expandIfLet args) (expandIfLet (args.map (Form.rename σ))) := by
  refine .bind (.lift (needArgs_rename args 2 "if-let")) fun _ =>
    .bind (.lift (needPair_rename args "if-let")) fun (name, test) => .bind (.gensym hσ "temp") fun g => .pure ?_
  simp (disch := decide) only [rename_call hσ, List.map_cons, List.map_nil, Form.rename_ofVector, getD_map]

theorem expandWhenLet_renames (hσ : Spares σ) (args : List Form) :
    Renames σ (Form.rename σ) (expandWhenLet args) (expandWhenLet (args.map (Form.rename σ))) := by
  refine .bind (.lift (needArgs_rename args 2 "when-let")) fun _ =>
    .bind (.lift (needPair_rename args "when-let")) fun (name, test) => .bind (.gensym hσ "temp") fun g => .pure ?_
  simp (disch := decide) only [rename_call hσ, List.map_cons, List.map_nil, Form.rename_ofVector, List.map_tail]

theorem expandCase_renames (hσ : Spares σ) (args : List Form) :
    Renames σ (Form.rename σ) (expandCase args) (expandCase (args.map (Form.rename σ))) := by
  refine .bind (.lift (needArgs_rename args 1 "case")) fun _ => .bind (.gensym hσ "case") fun g => .pure ?_
  simp (disch := decide) only [rename_call hσ, List.map_cons, List.map_nil, Form.rename_ofVector, List.map_tail,
    headD_map]

theorem expandDotimes_renames (hσ : Spares σ) (args : List Form) :
    Renames σ (Form.rename σ) (expandDotimes args) (expandDotimes (args.map (Form.rename σ))) := by
  refine .bind (.lift (needPair_rename args "dotimes")) fun (i, n) => .bind (.gensym hσ "n") fun limit => .pure ?_
  simp (disch := decide) only [rename_call hσ, List.map_cons, List.map_nil, Form.rename_ofVector, List.map_tail,
    List.map_append, Form.rename_long]

/-- **What an expander does with renamed forms is what it does with the forms, renamed.** -/
theorem expand_rename (hσ : Spares σ) {e : Expander} (he : e.defines = false) (form : Form) (args : List Form) :
    Renames σ (Form.rename σ) (e.expand form args) (e.expand (form.rename σ) (args.map (Form.rename σ))) := by
  cases e with
  | defn | defExpander | defprotocol | extendType | deftype => cases he
  | declare => exact .pure (expandDeclare_rename hσ args)
  | when => exact .lift (expandWhen_rename hσ args)
  | whenNot => exact .lift (expandWhenNot_rename hσ args)
  | ifNot => exact .lift (expandIfNot_rename hσ args)
  | cond => exact .lift (expandCond_rename hσ args)
  | and => exact expandAnd_renames hσ args
  | or => exact expandOr_renames hσ args
  | ifLet => exact expandIfLet_renames hσ args
  | whenLet => exact expandWhenLet_renames hσ args
  | case => exact expandCase_renames hσ args
  | threadFirst => exact .lift (expandThread_rename false "->" args)
  | threadLast => exact .lift (expandThread_rename true "->>" args)
  | let' => exact .lift (expandLet_rename hσ form args)
  | loop => exact .lift (expandLoop_rename hσ form args)
  | fn => exact .pure (rename_rename hσ (by decide) form args).symm
  | letfn => exact .lift (expandLetfn_rename hσ args)
  | binding => exact .lift (expandBinding_rename hσ args)
  | dotimes => exact expandDotimes_renames hσ args
  | comment => exact .pure Form.rename_nil.symm
  | reify => exact .lift (expandReify_rename hσ args)

end Expander
end LispMachine
