import LispMachine.Proofs.Value.Data
/-!
# Equality of values

Values are equal like forms: lists and vectors item by item, sets and maps by partners.  What is no collection is
compared by content or by identity, and of it `face` keeps just what counts.  On `Regular` values, which hold nothing
twice and no double that is not a number, equality is an equivalence and equal values have the same code
(`Regular.equiv_self`, `Regular.equiv_symm`, `equiv_trans`, `Regular.hash_eq`).
-/
namespace LispMachine.Value

variable {u v w : Value} {xs ys zs : List Value} {es ds : List (Value × Value)} {id : Nat}

/-- Lists, vectors, maps and sets. -/
def isCollection : Value → Bool
  | .list .. | .vector .. | .map .. | .set .. => true
  | _ => false

/-- Induction over values; the members of a collection are reached by membership. -/
theorem induct {P : Value → Prop} (atom : ∀ v, v.isCollection = false → P v)
    (list : ∀ id xs, (∀ x ∈ xs, P x) → P (.list id xs))
    (vector : ∀ id xs, (∀ x ∈ xs, P x) → P (.vector id xs))
    (set : ∀ id xs, (∀ x ∈ xs, P x) → P (.set id xs))
    (map : ∀ id es, (∀ e ∈ es, P e.1 ∧ P e.2) → P (.map id es)) (v : Value) : P v := by
  induction hn : sizeOf v using Nat.strongRecOn generalizing v with
  | ind n ih =>
    subst hn
    have hitem {xs : List Value} (h : sizeOf xs < sizeOf v) : ∀ x ∈ xs, P x := fun x hx =>
      ih _ (Nat.lt_trans (List.sizeOf_lt_of_mem hx) h) x rfl
    cases v with
    | list id xs => exact list id xs (hitem (by simp))
    | vector id xs => exact vector id xs (hitem (by simp))
    | set id xs => exact set id xs (hitem (by simp))
    | map id es =>
      refine map id es fun e he => ?_
      have := List.sizeOf_lt_of_mem he
      obtain ⟨k, v⟩ := e
      rw [Prod.mk.sizeOf_spec] at this
      exact ⟨ih _ (by simp; omega) k rfl, ih _ (by simp; omega) v rfl⟩
    | _ => exact atom _ rfl

/-! ## Atoms -/

/-- What counts when a value is compared by content or by identity. -/
def face : Value → Value
  | .symbol s _ => .symbol s none
  | .fn fields _ _ => .fn fields 0 ""
  | .var id _ => .var id ⟨none, ""⟩
  | .type id _ => .type id ""
  | .protocol id _ => .protocol id ⟨none, ""⟩
  | .protocolMethod id _ _ => .protocolMethod id 0 ""
  | .inst fields _ _ => .inst fields 0 ""
  | .exception id _ _ _ _ => .exception id 0 none .nil none
  | v => v

@[simp] theorem isCollection_face (v : Value) : v.face.isCollection = v.isCollection := by cases v <;> rfl

@[simp] theorem hash_face (v : Value) : v.face.hash = v.hash := by cases v <;> simp only [face, hash]

theorem identical_face (v w : Value) : identical v.face w.face = identical v w := by
  cases v <;> cases w <;> rfl

theorem double_or (v : Value) : (∃ a, v = .double a) ∨ ∀ a, v ≠ .double a := by
  cases v with
  | double a => exact .inl ⟨a, rfl⟩
  | _ => exact .inr fun _ h => by cases h

/-- An atom that is no double equals just what has the same face. -/
theorem equiv_atom (hv : v.isCollection = false) (hd : ∀ d, v ≠ .double d) :
    equiv v w = true ↔ w.face = v.face := by
  have hequiv : equiv v w = identical v w := by
    cases v with
    | double d => exact absurd rfl (hd d)
    | list | vector | set | map => cases hv
    | _ => simp only [equiv]
  rw [hequiv]
  constructor
  · intro h
    unfold identical at h
    split at h
    all_goals first
      | exact absurd h Bool.false_ne_true
      | cases hv; done
      | exact absurd rfl (hd _)
      | obtain rfl := eq_of_beq h; rfl
      | rfl
  · intro h
    rw [← identical_face, h]
    cases v with
    | list | vector | set | map => cases hv
    | _ => simp [identical, face]

theorem atom_of_face (hv : v.isCollection = false) (hd : ∀ d, v ≠ .double d) (h : w.face = v.face) :
    w.isCollection = false ∧ ∀ d, w ≠ .double d := by
  refine ⟨by rw [← isCollection_face, h, isCollection_face, hv], ?_⟩
  rintro d rfl
  cases v <;> first | exact absurd rfl (hd _) | cases h

theorem equiv_double {a : Float} : equiv (.double a) w = true ↔ ∃ b, w = .double b ∧ (a == b) = true := by
  cases w <;> simp [equiv, identical]

theorem equiv_long {n : Int64} : equiv v (.long n) = true ↔ v = .long n := by
  cases v <;> simp [equiv, identical]

theorem equiv_keyword {s : Keyword} : equiv v (.keyword s) = true ↔ v = .keyword s := by
  cases v <;> simp [equiv, identical]

theorem equiv_str {t : String} : equiv v (.str t) = true ↔ v = .str t := by
  cases v <;> simp [equiv, identical]

/-! ## Members -/

/-- The members of a list or vector. -/
def row? : Value → Option (List Value)
  | .list _ xs | .vector _ xs => some xs
  | _ => none

/-- Entries with equal keys and equal values. -/
def EquivEntry (e d : Value × Value) : Prop := equiv e.1 d.1 = true ∧ equiv e.2 d.2 = true

theorem sameItems_iff : ∀ {xs ys : List Value}, sameItems xs ys = true ↔ xs.Forall₂ (fun x y => equiv x y = true) ys
  | [], [] => by simp [sameItems]
  | [], _ :: _ => by simp [sameItems]
  | _ :: _, [] => by simp [sameItems]
  | x :: xs, y :: ys => by rw [sameItems, Bool.and_eq_true, List.forall₂_cons, sameItems_iff]

theorem allAmong_iff : ∀ {xs ys : List Value}, allAmong xs ys = true ↔ ∀ x ∈ xs, ∃ y ∈ ys, equiv x y = true
  | [], _ => by simp [allAmong]
  | x :: xs, ys => by rw [allAmong, Bool.and_eq_true, List.any_eq_true, List.forall_mem_cons, allAmong_iff]

theorem pairsAmong_iff : ∀ {es ds : List (Value × Value)},
    pairsAmong es ds = true ↔ ∀ e ∈ es, ∃ d ∈ ds, EquivEntry e d
  | [], _ => by simp [pairsAmong]
  | (k, v) :: es, ds => by
    rw [pairsAmong, Bool.and_eq_true, List.any_eq_true, List.forall_mem_cons, pairsAmong_iff]
    simp only [Bool.and_eq_true, EquivEntry]

theorem equiv_set : equiv (.set id xs) w = true ↔
    ∃ id' ys, w = .set id' ys ∧ xs.length = ys.length ∧ ∀ x ∈ xs, ∃ y ∈ ys, equiv x y = true := by
  cases w <;> simp [equiv, identical, allAmong_iff]

theorem equiv_map : equiv (.map id es) w = true ↔
    ∃ id' ds, w = .map id' ds ∧ es.length = ds.length ∧ ∀ e ∈ es, ∃ d ∈ ds, EquivEntry e d := by
  cases w <;> simp [equiv, identical, pairsAmong_iff]

theorem equiv_of_row (hv : v.row? = some xs) :
    equiv v w = true ↔ ∃ ys, w.row? = some ys ∧ xs.Forall₂ (fun x y => equiv x y = true) ys := by
  cases v with
  | list | vector =>
    obtain rfl := Option.some.inj hv
    cases w <;> simp [equiv, identical, row?, sameItems_iff]
  | _ => cases hv

theorem EquivEntry.symm {e d : Value × Value} (hk : equiv e.1 d.1 = true → equiv d.1 e.1 = true)
    (hv : equiv e.2 d.2 = true → equiv d.2 e.2 = true) (h : EquivEntry e d) : EquivEntry d e :=
  ⟨hk h.1, hv h.2⟩

theorem EquivEntry.trans {e d c : Value × Value}
    (hk : equiv e.1 d.1 = true → equiv d.1 c.1 = true → equiv e.1 c.1 = true)
    (hv : equiv e.2 d.2 = true → equiv d.2 c.2 = true → equiv e.2 c.2 = true) (h : EquivEntry e d)
    (h' : EquivEntry d c) : EquivEntry e c :=
  ⟨hk h.1 h'.1, hv h.2 h'.2⟩

/-! ## The laws -/

theorem equiv_trans (h : equiv u v = true) (h' : equiv v w = true) : equiv u w = true := by
  induction u using induct generalizing v w with
  | atom u hu =>
    rcases double_or u with ⟨a, rfl⟩ | hd
    · obtain ⟨b, rfl, hab⟩ := equiv_double.mp h
      obtain ⟨c, rfl, hbc⟩ := equiv_double.mp h'
      exact equiv_double.mpr ⟨c, rfl, BEq.trans hab hbc⟩
    · have hface := (equiv_atom hu hd).mp h
      obtain ⟨hv, hd'⟩ := atom_of_face hu hd hface
      exact (equiv_atom hu hd).mpr (((equiv_atom hv hd').mp h').trans hface)
  | list id xs ih | vector id xs ih =>
    obtain ⟨ys, hv, hys⟩ := (equiv_of_row rfl).mp h
    obtain ⟨zs, hw, hzs⟩ := (equiv_of_row hv).mp h'
    exact (equiv_of_row rfl).mpr ⟨zs, hw, forall₂_trans (fun x hx _ _ => ih x hx) hys hzs⟩
  | set id xs ih =>
    obtain ⟨_, ys, rfl, hlen, hys⟩ := equiv_set.mp h
    obtain ⟨id', zs, rfl, hlen', hzs⟩ := equiv_set.mp h'
    exact equiv_set.mpr ⟨id', zs, rfl, hlen.trans hlen', among_trans (fun x hx _ _ => ih x hx) hys hzs⟩
  | map id es ih =>
    obtain ⟨_, ds, rfl, hlen, hds⟩ := equiv_map.mp h
    obtain ⟨id', cs, rfl, hlen', hcs⟩ := equiv_map.mp h'
    have htrans : ∀ e ∈ es, ∀ d c, EquivEntry e d → EquivEntry d c → EquivEntry e c :=
      fun e he _ _ => .trans (ih e he).1 (ih e he).2
    exact equiv_map.mpr ⟨id', cs, rfl, hlen.trans hlen', among_trans htrans hds hcs⟩

/-- Values without a double that is not a number, whose sets hold no member twice and whose maps no key, at every
depth. -/
inductive Regular : Value → Prop
  | atom {v : Value} (hv : v.isCollection = false) (hd : v ≠ .double Float.nan) : Regular v
  | list (id : Nat) {xs : List Value} (h : ∀ x ∈ xs, Regular x) : Regular (.list id xs)
  | vector (id : Nat) {xs : List Value} (h : ∀ x ∈ xs, Regular x) : Regular (.vector id xs)
  | set (id : Nat) {xs : List Value} (h : ∀ x ∈ xs, Regular x) (hd : xs.Pairwise fun x y => equiv x y = false) :
      Regular (.set id xs)
  | map (id : Nat) {es : List (Value × Value)} (hk : ∀ e ∈ es, Regular e.1) (hv : ∀ e ∈ es, Regular e.2)
      (hd : es.Pairwise fun e d => equiv e.1 d.1 = false) : Regular (.map id es)

theorem equiv_atom_self (hv : v.isCollection = false) (hd : v ≠ .double Float.nan) : equiv v v = true := by
  rcases double_or v with ⟨a, rfl⟩ | h
  · exact equiv_double.mpr ⟨a, rfl, Float.beq_self_iff.mpr fun ha => hd (ha ▸ rfl)⟩
  · exact (equiv_atom hv h).mpr rfl

theorem Regular.equiv_self (h : Regular v) : equiv v v = true := by
  induction h with
  | atom hv hd => exact equiv_atom_self hv hd
  | list id h ih | vector id h ih => exact (equiv_of_row rfl).mpr ⟨_, rfl, List.forall₂_same.mpr ih⟩
  | set id h hd ih => exact equiv_set.mpr ⟨id, _, rfl, rfl, fun x hx => ⟨x, hx, ih x hx⟩⟩
  | map id hk hv hd ihk ihv => exact equiv_map.mpr ⟨id, _, rfl, rfl, fun e he => ⟨e, he, ihk e he, ihv e he⟩⟩

theorem partners_of_set (hsymm : ∀ x ∈ xs, ∀ y, equiv x y = true → equiv y x = true)
    (hd : xs.Pairwise fun x y => equiv x y = false) (hlen : xs.length = ys.length)
    (h : ∀ x ∈ xs, ∃ y ∈ ys, equiv x y = true) : ∃ zs, xs.Forall₂ (fun x y => equiv x y = true) zs ∧ zs.Perm ys :=
  partners hsymm equiv_trans (hd.imp ne_true_of_eq_false) hlen h

theorem partners_of_map (hsymm : ∀ e ∈ es, ∀ d, EquivEntry e d → EquivEntry d e)
    (hd : es.Pairwise fun e d => equiv e.1 d.1 = false) (hlen : es.length = ds.length)
    (h : ∀ e ∈ es, ∃ d ∈ ds, EquivEntry e d) : ∃ cs, es.Forall₂ EquivEntry cs ∧ cs.Perm ds :=
  partners hsymm (.trans equiv_trans equiv_trans) (hd.imp fun hne hr => absurd hr.1 (ne_true_of_eq_false hne)) hlen h

theorem Regular.equiv_symm (hv : Regular v) (h : equiv v w = true) : equiv w v = true := by
  induction hv generalizing w with
  | @atom v hv hd =>
    rcases double_or v with ⟨a, rfl⟩ | hdouble
    · obtain ⟨b, rfl, hab⟩ := equiv_double.mp h
      exact equiv_double.mpr ⟨a, rfl, BEq.symm hab⟩
    · have hface := (equiv_atom hv hdouble).mp h
      obtain ⟨hw, hdouble'⟩ := atom_of_face hv hdouble hface
      exact (equiv_atom hw hdouble').mpr hface.symm
  | list id hxs ih | vector id hxs ih =>
    obtain ⟨ys, hw, hys⟩ := (equiv_of_row rfl).mp h
    exact (equiv_of_row hw).mpr ⟨_, rfl, forall₂_symm (fun x hx _ => ih x hx) hys⟩
  | set id hxs hd ih =>
    obtain ⟨_, ys, rfl, hlen, hys⟩ := equiv_set.mp h
    have hsymm := fun x hx y => ih x hx (w := y)
    obtain ⟨zs, hzs, hperm⟩ := partners_of_set hsymm hd hlen hys
    obtain ⟨us, hus, hperm'⟩ := partners_symm hsymm hzs hperm
    exact equiv_set.mpr ⟨id, _, rfl, hlen.symm, some_of_partners hus hperm'⟩
  | @map id es hk hv hd ihk ihv =>
    obtain ⟨_, ds, rfl, hlen, hds⟩ := equiv_map.mp h
    have hsymm : ∀ e ∈ es, ∀ d, EquivEntry e d → EquivEntry d e := fun e he _ => .symm (ihk e he) (ihv e he)
    obtain ⟨cs, hcs, hperm⟩ := partners_of_map hsymm hd hlen hds
    obtain ⟨us, hus, hperm'⟩ := partners_symm hsymm hcs hperm
    exact equiv_map.mpr ⟨id, _, rfl, hlen.symm, some_of_partners hus hperm'⟩

theorem Regular.equiv_comm (hv : Regular v) (hw : Regular w) : equiv v w = equiv w v :=
  Bool.eq_iff_iff.mpr ⟨hv.equiv_symm, hw.equiv_symm⟩

/-! ## Codes -/

theorem hash_of_row (hv : v.row? = some xs) : v.hash = Hash.ordered (xs.map hash) := by
  cases v with
  | list | vector =>
    obtain rfl := Option.some.inj hv
    rw [hash, hashes_eq]
  | _ => cases hv

/-- **Equal values have the same code.** -/
theorem Regular.hash_eq (hv : Regular v) (h : equiv v w = true) : v.hash = w.hash := by
  induction hv generalizing w with
  | @atom v hv hd =>
    rcases double_or v with ⟨a, rfl⟩ | hdouble
    · obtain ⟨b, rfl, hab⟩ := equiv_double.mp h
      rw [hash, hash, Hash.ofDouble_congr hab]
    · rw [← hash_face v, ← (equiv_atom hv hdouble).mp h, hash_face]
  | list id hxs ih | vector id hxs ih =>
    obtain ⟨ys, hw, hys⟩ := (equiv_of_row rfl).mp h
    rw [hash_of_row rfl, hash_of_row hw, Form.map_hash_eq (fun x hx y => ih x hx (w := y)) hys]
  | set id hxs hd ih =>
    obtain ⟨_, ys, rfl, hlen, hys⟩ := equiv_set.mp h
    obtain ⟨zs, hzs, hperm⟩ := partners_of_set (fun x hx _ => (hxs x hx).equiv_symm) hd hlen hys
    rw [hash, hash, hashes_eq, hashes_eq, Form.map_hash_eq (fun x hx y => ih x hx (w := y)) hzs]
    exact Hash.unordered_perm (hperm.map hash)
  | @map id es hk hv hd ihk ihv =>
    obtain ⟨_, ds, rfl, hlen, hds⟩ := equiv_map.mp h
    have hsymm : ∀ e ∈ es, ∀ d, EquivEntry e d → EquivEntry d e :=
      fun e he _ => .symm (hk e he).equiv_symm (hv e he).equiv_symm
    have hcode : ∀ e ∈ es, ∀ d, EquivEntry e d → entryHash e = entryHash d := by
      intro e he d hr
      rw [entryHash, entryHash, ihk e he hr.1, ihv e he hr.2]
    obtain ⟨cs, hcs, hperm⟩ := partners_of_map hsymm hd hlen hds
    rw [hash, hash, pairHashes_eq, pairHashes_eq, Form.map_hash_eq hcode hcs]
    exact Hash.unordered_perm (hperm.map entryHash)

end LispMachine.Value
