import Mathlib.Data.List.Perm.Basic
import LispMachine.Proofs.Form.Legible
/-!
# Equality of forms

Sets and maps are compared by looking for a partner of every member in one direction only.  On `Regular` forms, which
hold nothing twice and no double that is not a number, two members never share a partner, and so the partners are all
members of the other side (`partners`).  Hence equality is symmetric, and equal forms have the same code
(`beq_equivalence`).  Every form that is read is regular (`regular_of_readAll`).
-/
namespace LispMachine

/-! ## Partners -/

section

variable {α : Type} {r : α → α → Prop} {xs ys : List α}

/-- If no two members have a partner in common, and there are as many members on both sides, then everything is the
partner of some member. -/
theorem exists_partners (hsome : ∀ x ∈ xs, ∃ y ∈ ys, r x y)
    (hapart : xs.Pairwise fun x x' => ∀ y, r x y → ¬ r x' y) (hlen : xs.length = ys.length) :
    ∃ zs, xs.Forall₂ r zs ∧ zs.Perm ys := by
  induction xs generalizing ys with
  | nil =>
    obtain rfl := List.length_eq_zero_iff.mp hlen.symm
    exact ⟨[], .nil, .refl _⟩
  | cons x xs ih =>
    obtain ⟨hx, hxs⟩ := List.pairwise_cons.mp hapart
    obtain ⟨y, hy, hr⟩ := hsome x List.mem_cons_self
    obtain ⟨us, vs, rfl⟩ := List.append_of_mem hy
    -- the other members have their partners among the rest, since none of them shares this one
    have hrest : ∀ x' ∈ xs, ∃ y' ∈ us ++ vs, r x' y' := by
      intro x' hx'
      obtain ⟨y', hy', hr'⟩ := hsome x' (List.mem_cons_of_mem _ hx')
      rcases List.mem_cons.mp (List.perm_middle.mem_iff.mp hy') with rfl | hmem
      · exact absurd hr' (hx x' hx' _ hr)
      · exact ⟨y', hmem, hr'⟩
    have hlen' : xs.length = (us ++ vs).length := by
      simp only [List.length_cons, List.length_append] at hlen ⊢
      omega
    obtain ⟨zs, hzs, hperm⟩ := ih hrest hxs hlen'
    exact ⟨y :: zs, .cons hr hzs, (hperm.cons y).trans List.perm_middle.symm⟩

/-- Members that are not related to each other have no partner in common. -/
theorem partners (hsymm : ∀ x ∈ xs, ∀ y, r x y → r y x) (htrans : ∀ {x y z}, r x y → r y z → r x z)
    (hd : xs.Pairwise fun x y => ¬ r x y) (hlen : xs.length = ys.length) (h : ∀ x ∈ xs, ∃ y ∈ ys, r x y) :
    ∃ zs, xs.Forall₂ r zs ∧ zs.Perm ys := by
  refine exists_partners h (hd.imp_of_mem ?_) hlen
  intro x x' _ hx' hne y hr hr'
  -- a partner in common would relate the two by way of it
  exact hne (htrans hr (hsymm x' hx' y hr'))

theorem some_of_partners {zs : List α} (h : xs.Forall₂ r zs) (hperm : zs.Perm ys) : ∀ x ∈ xs, ∃ y ∈ ys, r x y := by
  induction h generalizing ys with
  | nil =>
    intro _ hx
    cases hx
  | cons hr hrs ih =>
    obtain ⟨us, vs, rfl⟩ := List.append_of_mem (hperm.subset List.mem_cons_self)
    have hrest := ih (List.perm_cons _ |>.mp (hperm.trans List.perm_middle))
    refine List.forall_mem_cons.mpr ⟨⟨_, by simp, hr⟩, fun x hx => ?_⟩
    obtain ⟨y, hy, hr'⟩ := hrest x hx
    exact ⟨y, List.perm_middle.mem_iff.mpr (List.mem_cons_of_mem _ hy), hr'⟩

theorem forall₂_imp_of_mem {β : Type} {r s : α → β → Prop} {bs : List β} (h : ∀ x ∈ xs, ∀ b, r x b → s x b)
    (hr : xs.Forall₂ r bs) : xs.Forall₂ s bs := by
  have hboth := (List.forall₂_and_left xs bs).mpr ⟨h, hr⟩
  exact hboth.imp fun _ b hb => hb.1 b hb.2

theorem forall₂_symm (hsymm : ∀ x ∈ xs, ∀ y, r x y → r y x) (h : xs.Forall₂ r ys) : ys.Forall₂ r xs :=
  (forall₂_imp_of_mem hsymm h).flip

theorem forall₂_trans {zs : List α} (htrans : ∀ x ∈ xs, ∀ y z, r x y → r y z → r x z) (h : xs.Forall₂ r ys)
    (h' : ys.Forall₂ r zs) : xs.Forall₂ r zs := by
  induction h generalizing zs with
  | nil => exact h'
  | cons hr hrs ih =>
    obtain ⟨z, zs, hr', hrs', rfl⟩ := List.forall₂_cons_left_iff.mp h'
    obtain ⟨hx, hxs⟩ := List.forall_mem_cons.mp htrans
    exact .cons (hx _ _ hr hr') (ih hxs hrs')

theorem among_trans {zs : List α} (htrans : ∀ x ∈ xs, ∀ y z, r x y → r y z → r x z) (h : ∀ x ∈ xs, ∃ y ∈ ys, r x y)
    (h' : ∀ y ∈ ys, ∃ z ∈ zs, r y z) : ∀ x ∈ xs, ∃ z ∈ zs, r x z := by
  intro x hx
  obtain ⟨y, hy, hr⟩ := h x hx
  obtain ⟨z, hz, hr'⟩ := h' y hy
  exact ⟨z, hz, htrans x hx y z hr hr'⟩

theorem partners_symm {zs : List α} (hsymm : ∀ x ∈ xs, ∀ y, r x y → r y x) (h : xs.Forall₂ r zs)
    (hperm : zs.Perm ys) : ∃ us, ys.Forall₂ r us ∧ us.Perm xs :=
  List.perm_comp_forall₂ hperm.symm (forall₂_symm hsymm h)

theorem length_of_partners {zs : List α} (h : xs.Forall₂ r zs) (hperm : zs.Perm ys) : xs.length = ys.length :=
  h.length_eq.trans hperm.length_eq

end

/-! ## Codes -/

namespace Hash

theorem unordered_perm {xs ys : List Int32} (h : xs.Perm ys) : unordered xs = unordered ys := by
  have : RightCommutative fun h x : Int32 => h + x :=
    ⟨fun a b c => by rw [Int32.add_assoc, Int32.add_comm b, Int32.add_assoc]⟩
  rw [unordered, unordered, h.foldl_eq, h.length_eq]

theorem ofDouble_congr {a b : Float} (h : (a == b) = true) : ofDouble a = ofDouble b := by
  obtain ⟨-, -, rfl | ⟨rfl, rfl⟩ | ⟨rfl, rfl⟩⟩ := Float.beq_iff_ne_nan_and_eq.mp h
  · rfl
  · decide +kernel
  · decide +kernel

end Hash

namespace Form

variable {f g k : Form} {xs ys zs fs : List Form} {ps qs : List (Form × Form)} {i j : Option Info}

theorem hashes_eq : ∀ xs : List Form, hashes xs = xs.map hash
  | [] => rfl
  | x :: xs => congrArg (hash x :: ·) (hashes_eq xs)

/-- The code of an entry of a map. -/
def entryHash (e : Form × Form) : Int32 := Hash.ordered [e.1.hash, e.2.hash]

theorem pairHashes_eq : ∀ ps : List (Form × Form), pairHashes ps = ps.map entryHash
  | [] => rfl
  | e :: ps => congrArg (entryHash e :: ·) (pairHashes_eq ps)

/-! ## Members -/

theorem sameItems_iff : ∀ {xs ys : List Form}, sameItems xs ys = true ↔ xs.Forall₂ (· == ·) ys
  | [], [] => by simp [sameItems]
  | [], _ :: _ => by simp [sameItems]
  | _ :: _, [] => by simp [sameItems]
  | x :: xs, y :: ys => by
    rw [sameItems, Bool.and_eq_true, List.forall₂_cons, sameItems_iff]
    exact Iff.rfl

theorem allAmong_iff : ∀ {xs ys : List Form}, allAmong xs ys = true ↔ ∀ x ∈ xs, ∃ y ∈ ys, (x == y) = true
  | [], _ => by simp [allAmong]
  | x :: xs, ys => by
    rw [allAmong, Bool.and_eq_true, List.any_eq_true, List.forall_mem_cons, allAmong_iff]
    exact Iff.rfl

theorem pairsAmong_iff : ∀ {ps qs : List (Form × Form)},
    pairsAmong ps qs = true ↔ ∀ e ∈ ps, ∃ e' ∈ qs, (e == e') = true
  | [], _ => by simp [pairsAmong]
  | (k, v) :: ps, qs => by
    rw [pairsAmong, Bool.and_eq_true, List.any_eq_true, List.forall_mem_cons, pairsAmong_iff]
    exact Iff.rfl

theorem beq_pair {e e' : Form × Form} : (e == e') = true ↔ (e.1 == e'.1) = true ∧ (e.2 == e'.2) = true :=
  Bool.and_eq_true _ _ ▸ Iff.rfl

theorem pair_symm {e e' : Form × Form} (hk : (e.1 == e'.1) = true → (e'.1 == e.1) = true)
    (hv : (e.2 == e'.2) = true → (e'.2 == e.2) = true) (h : (e == e') = true) : (e' == e) = true :=
  beq_pair.mpr ((beq_pair.mp h).imp hk hv)

theorem pair_trans {d e e' : Form × Form} (hk : (d.1 == e.1) = true → (e.1 == e'.1) = true → (d.1 == e'.1) = true)
    (hv : (d.2 == e.2) = true → (e.2 == e'.2) = true → (d.2 == e'.2) = true) (h : (d == e) = true)
    (h' : (e == e') = true) : (d == e') = true :=
  beq_pair.mpr ⟨hk (beq_pair.mp h).1 (beq_pair.mp h').1, hv (beq_pair.mp h).2 (beq_pair.mp h').2⟩

theorem beq_set : (set xs i == g) = true ↔
    ∃ ys j, g = .set ys j ∧ xs.length = ys.length ∧ ∀ x ∈ xs, ∃ y ∈ ys, (x == y) = true := by
  show beq _ g = true ↔ _
  cases g <;> simp [beq, allAmong_iff]

theorem beq_map : (map ps i == g) = true ↔
    ∃ qs j, g = .map qs j ∧ ps.length = qs.length ∧ ∀ e ∈ ps, ∃ e' ∈ qs, (e == e') = true := by
  show beq _ g = true ↔ _
  cases g <;> simp [beq, pairsAmong_iff]

/-- The members of a list or vector. -/
def items? : Form → Option (List Form)
  | .list xs _ | .vector xs _ => some xs
  | _ => none

theorem beq_of_items (hf : f.items? = some xs) :
    (f == g) = true ↔ ∃ ys, g.items? = some ys ∧ xs.Forall₂ (· == ·) ys := by
  show beq f g = true ↔ _
  cases f with
  | list | vector =>
    obtain rfl := Option.some.inj hf
    cases g <;> simp [beq, items?, sameItems_iff]
  | _ => cases hf

/-- An atom equals a form that is the same without metadata, and a zero also equals the other zero. -/
theorem beq_atom (hf : f.isCollection = false) (h : (f == g) = true) :
    g.bare = f.bare ∨ ∃ a b : Float, f = .double a ∧ g = .double b ∧ (a == b) = true := by
  change beq f g = true at h
  cases f <;> cases g <;> simp_all [isCollection, beq, bare]

theorem beq_double {a : Float} : (double a == g) = true ↔ ∃ b : Float, g = .double b ∧ (a == b) = true := by
  show beq _ g = true ↔ _
  cases g <;> simp [beq]

theorem beq_left_congr (h : g.bare = f.bare) (k : Form) : (g == k) = (f == k) := by
  show beq g k = beq f k
  rw [← beq_bare, h, beq_bare]

theorem beq_right_congr (h : g.bare = f.bare) (k : Form) : (k == g) = (k == f) := by
  show beq k g = beq k f
  rw [← beq_bare, h, beq_bare]

/-! ## The laws -/

theorem set_of_partners (h : xs.Forall₂ (· == ·) zs) (hperm : zs.Perm ys) : (set xs i == set ys j) = true :=
  beq_set.mpr ⟨ys, j, rfl, length_of_partners h hperm, some_of_partners h hperm⟩

theorem map_of_partners {rs : List (Form × Form)} (h : ps.Forall₂ (· == ·) rs) (hperm : rs.Perm qs) :
    (map ps i == map qs j) = true :=
  beq_map.mpr ⟨qs, j, rfl, length_of_partners h hperm, some_of_partners h hperm⟩

theorem beq_trans (h : (f == g) = true) (h' : (g == k) = true) : (f == k) = true := by
  induction f using induct generalizing g k with
  | atom f hf =>
    rcases beq_atom hf h with hbare | ⟨a, b, rfl, rfl, hab⟩
    · rwa [← beq_left_congr hbare]
    · obtain ⟨c, rfl, hbc⟩ := beq_double.mp h'
      exact beq_double.mpr ⟨c, rfl, BEq.trans hab hbc⟩
  | list xs info ih | vector xs info ih =>
    obtain ⟨ys, hg, hys⟩ := (beq_of_items rfl).mp h
    obtain ⟨zs, hk, hzs⟩ := (beq_of_items hg).mp h'
    exact (beq_of_items rfl).mpr ⟨zs, hk, forall₂_trans (fun x hx _ _ => ih x hx) hys hzs⟩
  | set xs info ih =>
    obtain ⟨ys, _, rfl, hlen, hys⟩ := beq_set.mp h
    obtain ⟨zs, j, rfl, hlen', hzs⟩ := beq_set.mp h'
    exact beq_set.mpr ⟨zs, j, rfl, hlen.trans hlen', among_trans (fun x hx _ _ => ih x hx) hys hzs⟩
  | map ps info ih =>
    obtain ⟨qs, _, rfl, hlen, hqs⟩ := beq_map.mp h
    obtain ⟨rs, j, rfl, hlen', hrs⟩ := beq_map.mp h'
    have htrans : ∀ e ∈ ps, ∀ e' e'', (e == e') = true → (e' == e'') = true → (e == e'') = true :=
      fun e he _ _ => pair_trans (ih e he).1 (ih e he).2
    exact beq_map.mpr ⟨rs, j, rfl, hlen.trans hlen', among_trans htrans hqs hrs⟩

/-- Forms without a double that is not a number, whose sets hold no member twice and whose maps no key, at every depth;
what stands in metadata does not count. -/
inductive Regular : Form → Prop
  | atom {f : Form} (hf : f.isCollection = false) (hd : f ≠ .double Float.nan) : Regular f
  | list {xs : List Form} (h : ∀ x ∈ xs, Regular x) (info : Option Info) : Regular (.list xs info)
  | vector {xs : List Form} (h : ∀ x ∈ xs, Regular x) (info : Option Info) : Regular (.vector xs info)
  | set {xs : List Form} (h : ∀ x ∈ xs, Regular x) (hd : xs.Pairwise fun x y => (x == y) = false)
      (info : Option Info) : Regular (.set xs info)
  | map {ps : List (Form × Form)} (hk : ∀ e ∈ ps, Regular e.1) (hv : ∀ e ∈ ps, Regular e.2)
      (hd : ps.Pairwise fun e e' => (e.1 == e'.1) = false) (info : Option Info) : Regular (.map ps info)

theorem Regular.double_ne_nan (h : Regular f) : ∀ d ∈ f.doubles, d ≠ Float.nan := by
  induction h with
  | @atom f hf hd =>
    intro d hmem
    cases f <;> simp_all [isCollection, doubles]
  | list h info ih | vector h info ih | set h hd info ih =>
    intro d hd
    obtain ⟨x, hx, hd⟩ := mem_doublesOf.mp (by simpa only [doubles] using hd)
    exact ih x hx d hd
  | map hk hv hd info ihk ihv =>
    intro d hd
    obtain ⟨e, he, hd | hd⟩ := mem_doublesOfPairs.mp (by simpa only [doubles] using hd)
    · exact ihk e he d hd
    · exact ihv e he d hd

theorem Regular.beq_self (h : Regular f) : (f == f) = true :=
  beq_of_bare_eq rfl fun d hd => Float.beq_self_iff.mpr (h.double_ne_nan d hd)

theorem partners_of_set (hsymm : ∀ x ∈ xs, ∀ y, (x == y) = true → (y == x) = true)
    (hd : xs.Pairwise fun x y => (x == y) = false) (hlen : xs.length = ys.length)
    (h : ∀ x ∈ xs, ∃ y ∈ ys, (x == y) = true) : ∃ zs, xs.Forall₂ (· == ·) zs ∧ zs.Perm ys :=
  partners hsymm beq_trans (hd.imp ne_true_of_eq_false) hlen h

theorem partners_of_map (hsymm : ∀ e ∈ ps, ∀ e', (e == e') = true → (e' == e) = true)
    (hd : ps.Pairwise fun e e' => (e.1 == e'.1) = false) (hlen : ps.length = qs.length)
    (h : ∀ e ∈ ps, ∃ e' ∈ qs, (e == e') = true) : ∃ rs, ps.Forall₂ (· == ·) rs ∧ rs.Perm qs := by
  refine partners hsymm (pair_trans beq_trans beq_trans) (hd.imp ?_) hlen h
  intro e e' hne hr
  exact absurd (beq_pair.mp hr).1 (ne_true_of_eq_false hne)

theorem Regular.beq_symm (hf : Regular f) (h : (f == g) = true) : (g == f) = true := by
  induction hf generalizing g with
  | atom hf hd =>
    rcases beq_atom hf h with hbare | ⟨a, b, rfl, rfl, hab⟩
    · rwa [beq_left_congr hbare, ← beq_right_congr hbare]
    · exact beq_double.mpr ⟨a, rfl, BEq.symm hab⟩
  | list hxs info ih | vector hxs info ih =>
    obtain ⟨ys, hg, hys⟩ := (beq_of_items rfl).mp h
    exact (beq_of_items hg).mpr ⟨_, rfl, forall₂_symm (fun x hx _ => ih x hx) hys⟩
  | set hxs hd info ih =>
    obtain ⟨ys, _, rfl, hlen, hys⟩ := beq_set.mp h
    have hsymm := fun x hx y => ih x hx (g := y)
    obtain ⟨zs, hzs, hperm⟩ := partners_of_set hsymm hd hlen hys
    obtain ⟨us, hus, hperm'⟩ := partners_symm hsymm hzs hperm
    exact set_of_partners hus hperm'
  | @map ps hk hv hd info ihk ihv =>
    obtain ⟨qs, _, rfl, hlen, hqs⟩ := beq_map.mp h
    have hsymm : ∀ e ∈ ps, ∀ e', (e == e') = true → (e' == e) = true :=
      fun e he _ => pair_symm (ihk e he) (ihv e he)
    obtain ⟨rs, hrs, hperm⟩ := partners_of_map hsymm hd hlen hqs
    obtain ⟨us, hus, hperm'⟩ := partners_symm hsymm hrs hperm
    exact map_of_partners hus hperm'

theorem Regular.beq_false_symm (hg : Regular g) (h : (f == g) = false) : (g == f) = false :=
  eq_false_of_ne_true fun hgf => ne_true_of_eq_false h (hg.beq_symm hgf)

/-! ## Codes -/

theorem map_hash_eq {α β : Type} {r : α → β → Prop} {code : α → Int32} {code' : β → Int32} {xs : List α} {ys : List β}
    (h : ∀ x ∈ xs, ∀ y, r x y → code x = code' y) (hr : xs.Forall₂ r ys) : xs.map code = ys.map code' := by
  induction hr with
  | nil => rfl
  | cons hr _ ih =>
    obtain ⟨hx, hxs⟩ := List.forall_mem_cons.mp h
    rw [List.map_cons, List.map_cons, hx _ hr, ih hxs]

theorem hash_of_items (hf : f.items? = some xs) : f.hash = Hash.ordered (xs.map hash) := by
  cases f with
  | list | vector =>
    obtain rfl := Option.some.inj hf
    rw [hash, hashes_eq]
  | _ => cases hf

/-- Codes pay no attention to metadata. -/
theorem hash_bare (f : Form) : f.bare.hash = f.hash := by
  induction f using induct with
  | atom f hf => cases f <;> simp_all [isCollection, bare, hash]
  | list xs info ih | vector xs info ih | set xs info ih =>
    have hcodes : (xs.map bare).map hash = xs.map hash := by
      rw [List.map_map]
      exact List.map_congr_left ih
    simp only [bare_list, bare_vector, bare_set, hash, hashes_eq, hcodes]
  | map ps info ih =>
    have hcodes : (ps.map (Prod.map bare bare)).map entryHash = ps.map entryHash := by
      rw [List.map_map]
      refine List.map_congr_left fun e he => ?_
      simp only [Function.comp, entryHash, Prod.map, (ih e he).1, (ih e he).2]
    simp only [bare_map, hash, pairHashes_eq, hcodes]

/-- **Equal forms have the same code.** -/
theorem Regular.hash_eq (hf : Regular f) (h : (f == g) = true) : f.hash = g.hash := by
  induction hf generalizing g with
  | @atom f hf hd =>
    rcases beq_atom hf h with hbare | ⟨a, b, rfl, rfl, hab⟩
    · rw [← hash_bare f, ← hbare, hash_bare]
    · exact Hash.ofDouble_congr hab
  | list hxs info ih | vector hxs info ih =>
    obtain ⟨ys, hg, hys⟩ := (beq_of_items rfl).mp h
    rw [hash_of_items rfl, hash_of_items hg, map_hash_eq (fun x hx y => ih x hx (g := y)) hys]
  | set hxs hd info ih =>
    obtain ⟨ys, _, rfl, hlen, hys⟩ := beq_set.mp h
    obtain ⟨zs, hzs, hperm⟩ := partners_of_set (fun x hx _ => (hxs x hx).beq_symm) hd hlen hys
    rw [hash, hash, hashes_eq, hashes_eq, map_hash_eq (fun x hx y => ih x hx (g := y)) hzs]
    exact Hash.unordered_perm (hperm.map hash)
  | @map ps hk hv hd info ihk ihv =>
    obtain ⟨qs, _, rfl, hlen, hqs⟩ := beq_map.mp h
    have hsymm : ∀ e ∈ ps, ∀ e', (e == e') = true → (e' == e) = true :=
      fun e he _ => pair_symm (hk e he).beq_symm (hv e he).beq_symm
    have hcode : ∀ e ∈ ps, ∀ e', (e == e') = true → entryHash e = entryHash e' := by
      intro e he e' hr
      obtain ⟨hkeys, hvalues⟩ := beq_pair.mp hr
      rw [entryHash, entryHash, ihk e he hkeys, ihv e he hvalues]
    obtain ⟨rs, hrs, hperm⟩ := partners_of_map hsymm hd hlen hqs
    rw [hash, hash, pairHashes_eq, pairHashes_eq, map_hash_eq hcode hrs]
    exact Hash.unordered_perm (hperm.map entryHash)

/-- **Equality of regular forms** is an equivalence and a congruence.  A list equals a vector of equal members, and
neither metadata nor the order in sets and maps matters.  Equal forms have the same code. -/
theorem beq_equivalence :
    Equivalence (fun f g : {f : Form // f.Regular} => f.1 == g.1) ∧
    (∀ f g : Form, f.Regular → g.Regular → f == g → f.hash = g.hash) ∧
    (∀ (xs ys : List Form) (i j : Option Info), xs.Forall₂ (· == ·) ys →
      list xs i == list ys j ∧ vector xs i == vector ys j ∧ list xs i == vector ys j ∧ vector xs i == list ys j) ∧
    (∀ (xs zs ys : List Form) (i j : Option Info), xs.Forall₂ (· == ·) zs → zs.Perm ys → set xs i == set ys j) ∧
    (∀ (ps rs qs : List (Form × Form)) (i j : Option Info), ps.Forall₂ (· == ·) rs → rs.Perm qs →
      map ps i == map qs j) ∧
    ∀ f g : Form, f.Regular → g.bare = f.bare → f == g := by
  refine ⟨⟨fun f => f.2.beq_self, fun {f g} h => f.2.beq_symm h, beq_trans⟩, fun f g hf _ h => hf.hash_eq h, ?_, ?_, ?_,
    ?_⟩
  · intro xs ys i j h
    have hsame {f g : Form} (hf : f.items? = some xs) (hg : g.items? = some ys) : (f == g) = true :=
      (beq_of_items hf).mpr ⟨ys, hg, h⟩
    exact ⟨hsame rfl rfl, hsame rfl rfl, hsame rfl rfl, hsame rfl rfl⟩
  · exact fun _ _ _ _ _ => set_of_partners
  · exact fun _ _ _ _ _ => map_of_partners
  · exact fun f g hf hbare => beq_right_congr hbare f ▸ hf.beq_self

/-- A list in a set for a vector, and the one zero for the other. -/
theorem beq_equivalence_nested :
    let f := set [.long 1, .list [.double 0] none] none
    let g := set [.vector [.double (-0)] (some (Meta.ofPlace 1 4)), .long 1] none
    f.Regular ∧ g.Regular ∧ f == g ∧ g == f ∧ f.hash = g.hash := by
  have hzero : (double 0).Regular ∧ (double (-0)).Regular := by
    constructor <;> refine .atom rfl fun h => ?_
    · exact absurd (double.inj h) (by decide +kernel)
    · exact absurd (double.inj h) (by decide +kernel)
  have hone : (long 1).Regular := .atom rfl (by simp)
  have hlist : (list [.double 0] none).Regular := .list (by simpa using hzero.1) none
  have hvector : (vector [.double (-0)] (some (Meta.ofPlace 1 4))).Regular := .vector (by simpa using hzero.2) _
  obtain ⟨hequiv, hhash, hlists, hsets, -, -⟩ := beq_equivalence
  have hf : (set [.long 1, .list [.double 0] none] none).Regular :=
    .set (by simpa using ⟨hone, hlist⟩) (by decide +kernel) none
  have hg : (set [.vector [.double (-0)] (some (Meta.ofPlace 1 4)), .long 1] none).Regular :=
    .set (by simpa using ⟨hvector, hone⟩) (by decide +kernel) none
  have hitems := (hlists [.double 0] [.double (-0)] none (some (Meta.ofPlace 1 4))
    (.cons (by decide +kernel) .nil)).2.2.1
  have heq := hsets _ _ _ none none (.cons (hequiv.refl ⟨_, hone⟩) (.cons hitems .nil)) (.swap _ _ [])
  exact ⟨hf, hg, heq, hequiv.symm (x := ⟨_, hf⟩) (y := ⟨_, hg⟩) heq, hhash _ _ hf hg heq⟩

/-! ## Forms of a text -/

theorem pairwise_of_repeated? : ∀ {before xs : List Form}, repeated? before xs = none →
    (∀ x ∈ before, ∀ y ∈ xs, (x == y) = false) ∧ xs.Pairwise fun x y => (x == y) = false
  | _, [], _ => ⟨fun _ _ _ hy => absurd hy List.not_mem_nil, .nil⟩
  | before, x :: xs, h => by
    rw [repeated?] at h
    split at h
    · cases h
    · rename_i hnew
      obtain ⟨hbefore, hxs⟩ := pairwise_of_repeated? h
      have hx : ∀ y ∈ before, (y == x) = false := by simpa using hnew
      refine ⟨fun y hy => List.forall_mem_cons.mpr ⟨hx y hy, hbefore y (List.mem_append_left _ hy)⟩, .cons ?_ hxs⟩
      exact hbefore x (List.mem_append_right _ (List.mem_singleton_self x))

theorem Legible.regular (h : Legible f) : Regular f := by
  induction h with
  | nil | bool | long | char | str | keyword | symbol => exact .atom rfl (by simp)
  | double h => exact .atom rfl fun heq => h (double.inj heq)
  | list h info ih => exact .list ih info
  | vector h info ih => exact .vector ih info
  | set h hd info ih => exact .set ih (pairwise_of_repeated? hd).2 info
  | map hk hv hd info ihk ihv => exact .map ihk ihv (List.pairwise_map.mp (pairwise_of_repeated? hd).2) info

/-- **Every form that is read is regular.** -/
theorem regular_of_readAll {s : String} (h : readAll s = .ok fs) : ∀ f ∈ fs, f.Regular :=
  fun f hf => (legible_of_readAll h f hf).regular

end Form
end LispMachine
