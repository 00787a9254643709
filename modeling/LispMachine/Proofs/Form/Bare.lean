import Mathlib.Data.List.Forall2
import LispMachine.Form.Reader
/-!
# Forms without their metadata

`bare` drops the metadata at every depth and leaves the kinds of the collections and the order of their
members.  Equality of forms depends only on what is left (`beq_bare`), and two forms that are the same when
bare are equal unless a double in them is not a number (`beq_of_bare_eq`).
-/
namespace LispMachine.Form

/-- Induction over forms; the members of a collection are reached by membership. -/
theorem induct {P : Form → Prop} (atom : ∀ f, f.isCollection = false → P f)
    (list : ∀ xs info, (∀ x ∈ xs, P x) → P (.list xs info))
    (vector : ∀ xs info, (∀ x ∈ xs, P x) → P (.vector xs info))
    (set : ∀ xs info, (∀ x ∈ xs, P x) → P (.set xs info))
    (map : ∀ ps info, (∀ e ∈ ps, P e.1 ∧ P e.2) → P (.map ps info)) (f : Form) : P f := by
  induction hn : sizeOf f using Nat.strongRecOn generalizing f with
  | ind n ih =>
    subst hn
    have hitem {xs : List Form} (h : sizeOf xs < sizeOf f) : ∀ x ∈ xs, P x := fun x hx =>
      ih _ (Nat.lt_trans (List.sizeOf_lt_of_mem hx) h) x rfl
    cases f with
    | list xs info => exact list xs info (hitem (by simp; omega))
    | vector xs info => exact vector xs info (hitem (by simp; omega))
    | set xs info => exact set xs info (hitem (by simp; omega))
    | map ps info =>
      refine map ps info fun e he => ?_
      have := List.sizeOf_lt_of_mem he
      obtain ⟨k, v⟩ := e
      rw [Prod.mk.sizeOf_spec] at this
      exact ⟨ih _ (by simp; omega) k rfl, ih _ (by simp; omega) v rfl⟩
    | nil | bool | long | double | char | str | keyword | symbol => exact atom _ rfl

/-! ## Dropping metadata -/

mutual

/-- The form without metadata, at every depth. -/
def bare : Form → Form
  | .symbol s _ => .symbol s none
  | .list xs _ => .list (bareAll xs) none
  | .vector xs _ => .vector (bareAll xs) none
  | .set xs _ => .set (bareAll xs) none
  | .map ps _ => .map (barePairs ps) none
  | f => f

def bareAll : List Form → List Form
  | [] => []
  | x :: xs => bare x :: bareAll xs

def barePairs : List (Form × Form) → List (Form × Form)
  | [] => []
  | (k, v) :: ps => (bare k, bare v) :: barePairs ps

end

theorem bareAll_eq : ∀ xs : List Form, bareAll xs = xs.map bare
  | [] => rfl
  | x :: xs => congrArg (bare x :: ·) (bareAll_eq xs)

theorem barePairs_eq : ∀ ps : List (Form × Form), barePairs ps = ps.map (Prod.map bare bare)
  | [] => rfl
  | (k, v) :: ps => congrArg ((bare k, bare v) :: ·) (barePairs_eq ps)

@[simp] theorem bare_list (xs : List Form) (info : Option Info) : (list xs info).bare = .list (xs.map bare) none :=
  congrArg (list · none) (bareAll_eq xs)

@[simp] theorem bare_vector (xs : List Form) (info : Option Info) : (vector xs info).bare = .vector (xs.map bare) none :=
  congrArg (vector · none) (bareAll_eq xs)

@[simp] theorem bare_set (xs : List Form) (info : Option Info) : (set xs info).bare = .set (xs.map bare) none :=
  congrArg (set · none) (bareAll_eq xs)

@[simp] theorem bare_map (ps : List (Form × Form)) (info : Option Info) :
    (map ps info).bare = .map (ps.map (Prod.map bare bare)) none :=
  congrArg (map · none) (barePairs_eq ps)

@[simp] theorem bare_symbol (s : Symbol) (info : Option Info) : (symbol s info).bare = .symbol s none := rfl

@[simp] theorem bare_withInfo (f : Form) (info : Option Info) : (f.withInfo info).bare = f.bare := by
  cases f <;> rfl

theorem isCollection_bare (f : Form) : f.bare.isCollection = f.isCollection := by
  cases f <;> rfl

theorem isSymbol_bare (f : Form) : f.bare.isSymbol = f.isSymbol := by
  cases f <;> rfl

/-! ## Equality -/

attribute [local simp] beq sameItems allAmong pairsAmong

theorem sameItems_map_bare {xs : List Form} (h : ∀ x ∈ xs, ∀ y, beq x.bare y.bare = beq x y) :
    ∀ ys, sameItems (xs.map bare) (ys.map bare) = sameItems xs ys := by
  induction xs with
  | nil =>
    intro ys
    cases ys <;> simp
  | cons x xs ih =>
    intro ys
    cases ys with
    | nil => simp
    | cons y ys =>
      simp only [List.map_cons, sameItems, h x List.mem_cons_self,
        ih (fun z hz => h z (List.mem_cons_of_mem _ hz))]

theorem allAmong_map_bare {xs : List Form} (h : ∀ x ∈ xs, ∀ y, beq x.bare y.bare = beq x y) (ys : List Form) :
    allAmong (xs.map bare) (ys.map bare) = allAmong xs ys := by
  induction xs with
  | nil => simp
  | cons x xs ih =>
    simp only [List.map_cons, allAmong, List.any_map, Function.comp_def, h x List.mem_cons_self,
      ih (fun z hz => h z (List.mem_cons_of_mem _ hz))]

theorem pairsAmong_map_bare {ps : List (Form × Form)}
    (h : ∀ e ∈ ps, (∀ y, beq e.1.bare y.bare = beq e.1 y) ∧ ∀ y, beq e.2.bare y.bare = beq e.2 y)
    (qs : List (Form × Form)) :
    pairsAmong (ps.map (Prod.map bare bare)) (qs.map (Prod.map bare bare)) = pairsAmong ps qs := by
  induction ps with
  | nil => simp
  | cons e ps ih =>
    obtain ⟨k, v⟩ := e
    obtain ⟨hk, hv⟩ := h _ List.mem_cons_self
    have := ih fun z hz => h z (List.mem_cons_of_mem _ hz)
    simp only [List.map_cons, Prod.map, pairsAmong, List.any_map, Function.comp_def, hk, hv] at this ⊢
    rw [← this]

/-- **Equality pays no attention to metadata.** -/
theorem beq_bare (f g : Form) : beq f.bare g.bare = beq f g := by
  induction f using induct generalizing g with
  | atom f hf => cases f <;> cases g <;> simp_all [isCollection, bare]
  | list xs info ih => cases g <;> simp [bare, bareAll_eq, sameItems_map_bare ih]
  | vector xs info ih => cases g <;> simp [bare, bareAll_eq, sameItems_map_bare ih]
  | set xs info ih => cases g <;> simp [bare, bareAll_eq, allAmong_map_bare ih]
  | map ps info ih =>
    have h : ∀ qs, pairsAmong (ps.map (Prod.map bare bare)) (qs.map (Prod.map bare bare)) = pairsAmong ps qs :=
      pairsAmong_map_bare fun e he => ⟨fun y => (ih e he).1 y, fun y => (ih e he).2 y⟩
    cases g <;> simp [bare, barePairs_eq, h]

/-! ## Doubles -/

mutual

/-- The doubles in a form, in order; those in its metadata do not count. -/
def doubles : Form → List Float
  | .double d => [d]
  | .list xs _ | .vector xs _ | .set xs _ => doublesOf xs
  | .map ps _ => doublesOfPairs ps
  | _ => []

def doublesOf : List Form → List Float
  | [] => []
  | x :: xs => doubles x ++ doublesOf xs

def doublesOfPairs : List (Form × Form) → List Float
  | [] => []
  | (k, v) :: ps => doubles k ++ doubles v ++ doublesOfPairs ps

end

theorem mem_doublesOf {d : Float} : ∀ {xs : List Form}, d ∈ doublesOf xs ↔ ∃ x ∈ xs, d ∈ x.doubles
  | [] => by simp [show doublesOf [] = [] from rfl]
  | x :: xs => by
    rw [show doublesOf (x :: xs) = x.doubles ++ doublesOf xs from rfl, List.mem_append, mem_doublesOf]
    simp

theorem mem_doublesOfPairs {d : Float} : ∀ {ps : List (Form × Form)},
    d ∈ doublesOfPairs ps ↔ ∃ e ∈ ps, d ∈ e.1.doubles ∨ d ∈ e.2.doubles
  | [] => by simp [show doublesOfPairs [] = [] from rfl]
  | (k, v) :: ps => by
    rw [show doublesOfPairs ((k, v) :: ps) = k.doubles ++ v.doubles ++ doublesOfPairs ps from rfl, List.mem_append,
      List.mem_append, mem_doublesOfPairs]
    simp

theorem sameItems_self {xs : List Form} (h : ∀ x ∈ xs, beq x x = true) : sameItems xs xs = true := by
  induction xs with
  | nil => simp
  | cons x xs ih => simp [h x, ih fun y hy => h y (List.mem_cons_of_mem _ hy)]

theorem allAmong_of_subset {xs ys : List Form} (h : ∀ x ∈ xs, x ∈ ys ∧ beq x x = true) : allAmong xs ys = true := by
  induction xs with
  | nil => simp
  | cons x xs ih =>
    obtain ⟨hx, hb⟩ := h x List.mem_cons_self
    rw [allAmong, Bool.and_eq_true, List.any_eq_true]
    exact ⟨⟨x, hx, hb⟩, ih fun y hy => h y (List.mem_cons_of_mem _ hy)⟩

theorem pairsAmong_of_subset {ps qs : List (Form × Form)}
    (h : ∀ e ∈ ps, e ∈ qs ∧ beq e.1 e.1 = true ∧ beq e.2 e.2 = true) : pairsAmong ps qs = true := by
  induction ps with
  | nil => simp
  | cons e ps ih =>
    obtain ⟨he, hk, hv⟩ := h e List.mem_cons_self
    rw [pairsAmong, Bool.and_eq_true, List.any_eq_true]
    exact ⟨⟨e, he, by simp [hk, hv]⟩, ih fun y hy => h y (List.mem_cons_of_mem _ hy)⟩

/-- A form equals itself unless a double in it does not. -/
theorem beq_self {f : Form} (h : ∀ d ∈ f.doubles, (d == d) = true) : beq f f = true := by
  induction f using induct with
  | atom f hf => cases f <;> simp_all [isCollection, doubles]
  | list xs info ih | vector xs info ih =>
    rw [beq]
    exact sameItems_self fun x hx => ih x hx fun d hd => h d (mem_doublesOf.mpr ⟨x, hx, hd⟩)
  | set xs info ih =>
    rw [beq, beq_self_eq_true, Bool.true_and]
    exact allAmong_of_subset fun x hx => ⟨hx, ih x hx fun d hd => h d (mem_doublesOf.mpr ⟨x, hx, hd⟩)⟩
  | map ps info ih =>
    rw [beq, beq_self_eq_true, Bool.true_and]
    exact pairsAmong_of_subset fun e he => ⟨he, (ih e he).1 fun d hd => h d (mem_doublesOfPairs.mpr ⟨e, he, .inl hd⟩),
      (ih e he).2 fun d hd => h d (mem_doublesOfPairs.mpr ⟨e, he, .inr hd⟩)⟩

/-- **Forms that are the same without their metadata are equal.** -/
theorem beq_of_bare_eq {f g : Form} (hbare : g.bare = f.bare) (h : ∀ d ∈ f.doubles, (d == d) = true) :
    (g == f) = true := by
  show beq g f = true
  rw [← beq_bare, hbare, beq_bare]
  exact beq_self h

/-! ## Texts -/

theorem renderItems_congr {g : Form → Form} : ∀ {xs : List Form}, (∀ x ∈ xs, (g x).render = x.render) →
    renderItems (xs.map g) = renderItems xs
  | [], _ => rfl
  | [x], h => h x (List.mem_singleton_self x)
  | x :: y :: xs, h => by
    have hx := h x List.mem_cons_self
    have hrest : renderItems ((y :: xs).map g) = renderItems (y :: xs) :=
      renderItems_congr fun z hz => h z (List.mem_cons_of_mem _ hz)
    simp only [List.map_cons, renderItems, hx] at hrest ⊢
    rw [hrest]

theorem renderPairs_congr {g : Form → Form} : ∀ {ps : List (Form × Form)},
    (∀ e ∈ ps, (g e.1).render = e.1.render ∧ (g e.2).render = e.2.render) →
    renderPairs (ps.map (Prod.map g g)) = renderPairs ps
  | [], _ => rfl
  | [(k, v)], h => by
    obtain ⟨hk, hv⟩ := h _ (List.mem_singleton_self _)
    simp only [List.map_cons, List.map_nil, Prod.map, renderPairs, hk, hv]
  | (k, v) :: e :: ps, h => by
    obtain ⟨hk, hv⟩ := h _ List.mem_cons_self
    have hrest : renderPairs ((e :: ps).map (Prod.map g g)) = renderPairs (e :: ps) :=
      renderPairs_congr fun z hz => h z (List.mem_cons_of_mem _ hz)
    simp only [List.map_cons, Prod.map, renderPairs, hk, hv] at hrest ⊢
    rw [hrest]

/-- Metadata is not written. -/
theorem render_bare (f : Form) : f.bare.render = f.render := by
  induction f using induct with
  | atom f hf => cases f <;> first | rfl | exact absurd hf (by simp [isCollection])
  | list xs info ih | vector xs info ih | set xs info ih => simp [render, renderItems_congr ih]
  | map ps info ih => simp [render, renderPairs_congr ih]

/-! ## Literals -/

theorem any_beq_map_bare (xs : List Form) (y : Form) : (xs.map bare).any (· == y.bare) = xs.any (· == y) := by
  rw [List.any_map]
  exact congrArg xs.any (funext fun x => beq_bare x y)

theorem repeated?_map_bare : ∀ before xs : List Form,
    repeated? (before.map bare) (xs.map bare) = (repeated? before xs).map bare
  | _, [] => rfl
  | before, x :: xs => by
    rw [List.map_cons, repeated?, repeated?, any_beq_map_bare]
    split
    · rfl
    · rw [show before.map bare ++ [x.bare] = (before ++ [x]).map bare by simp]
      exact repeated?_map_bare (before ++ [x]) xs

theorem pairUp_map_bare : ∀ xs : List Form, pairUp (xs.map bare) = (pairUp xs).map (Prod.map bare bare)
  | [] => rfl
  | [x] => rfl
  | k :: v :: rest => by
    simp only [List.map_cons, pairUp, pairUp_map_bare rest]
    rfl

end LispMachine.Form
