import LispMachine.Proofs.Value.Equality
/-!
# Contents of maps and sets

What it does to a list of entries or members to put something in or to take something out: what is found afterwards
under each key (`Entries.find?_insert`, `Entries.find?_erase`), and which keys there are in which order
(`Entries.keys_insert`, `Entries.erase_eq`).  No two keys or members become equal (`Members.Apart`).
-/
namespace LispMachine.Value

variable {k k' v x y : Value} {xs ys : List Value} {es ds : List (Value × Value)}

/-! ## Members -/

namespace Members

/-- No two members are equal. -/
def Apart (xs : Members) : Prop := xs.Pairwise fun x y => equiv x y = false

theorem contains_cons (x y : Value) (xs : Members) : contains (y :: xs) x = (equiv x y || contains xs x) := rfl

theorem contains_insert (xs : Members) (x y : Value) :
    contains (insert xs x) y = (equiv y x || contains xs y) := by
  rw [insert]
  split
  case isTrue h =>
    obtain ⟨z, hz, hxz⟩ := List.any_eq_true.mp h
    cases hyx : equiv y x with
    | false => rw [Bool.false_or]
    | true => rw [Bool.true_or]; exact List.any_eq_true.mpr ⟨z, hz, equiv_trans hyx hxz⟩
  case isFalse => rw [contains, List.any_append, Bool.or_comm, List.any_cons, List.any_nil, Bool.or_false]; rfl

theorem forall_insert {P : Value → Prop} (hxs : ∀ y ∈ xs, P y) (hx : P x) : ∀ y ∈ insert xs x, P y := by
  rw [insert]
  split
  · exact hxs
  · exact fun y hy => (List.mem_append.mp hy).elim (hxs y) fun h => List.mem_singleton.mp h ▸ hx

theorem apart_insert (hxs : ∀ y ∈ xs, Regular y) (x : Value) (h : Apart xs) : Apart (insert xs x) := by
  rw [insert]
  split
  case isTrue => exact h
  case isFalse hnew =>
    refine List.pairwise_append.mpr ⟨h, List.pairwise_singleton _ _, fun y hy z hz => ?_⟩
    obtain rfl := List.mem_singleton.mp hz
    exact eq_false_of_ne_true fun hyz => hnew (List.any_eq_true.mpr ⟨y, hy, (hxs y hy).equiv_symm hyz⟩)

end Members

/-! ## Entries -/

namespace Entries

/-- The keys, in order. -/
def keys (es : Entries) : Members := es.map (·.1)

theorem keys_cons (e : Value × Value) (es : Entries) : keys (e :: es) = e.1 :: keys es := rfl

theorem find?_isSome (es : Entries) (k : Value) : (find? es k).isSome = Members.contains (keys es) k := by
  induction es with
  | nil => rfl
  | cons e es ih =>
    rw [find?, keys_cons, Members.contains_cons]
    split
    case isTrue h => rw [h, Bool.true_or, Option.isSome_some]
    case isFalse h => rw [ih, eq_false_of_ne_true h, Bool.false_or]

theorem find?_insert (hk : Regular k) (hk' : Regular k') (es : Entries) (v : Value) :
    find? (insert es k v) k' = if equiv k' k then some v else find? es k' := by
  induction es with
  | nil => rfl
  | cons e es ih =>
    rw [insert]
    split
    case isTrue h =>
      -- the keys equal to `k` are those equal to the key that is already there
      have hsame : equiv k' e.1 = equiv k' k :=
        Bool.eq_iff_iff.mpr ⟨fun h' => equiv_trans h' (hk.equiv_symm h), fun h' => equiv_trans h' h⟩
      simp only [find?, hsame]
      split <;> rfl
    case isFalse h =>
      simp only [find?, ih]
      split
      case isTrue h' =>
        rw [if_neg fun hkk => h (equiv_trans (hk'.equiv_symm hkk) h')]
      case isFalse => rfl

/-- A key is put in like a member of a set. -/
theorem keys_insert (es : Entries) (k v : Value) : keys (insert es k v) = Members.insert (keys es) k := by
  rw [Members.insert]
  induction es with
  | nil => rfl
  | cons e es ih =>
    rw [insert, keys_cons, Members.contains_cons]
    split
    case isTrue h => rw [h, Bool.true_or, if_pos rfl, keys_cons]
    case isFalse h =>
      rw [eq_false_of_ne_true h, Bool.false_or, keys_cons, ih]
      split <;> rfl

/-- Without repeated keys, the entry that is taken out is the only one under the key. -/
theorem erase_eq (hk : Regular k) (h : Members.Apart (keys es)) :
    erase es k = es.filter fun e => !equiv k e.1 := by
  induction es with
  | nil => rfl
  | cons e es ih =>
    obtain ⟨hne, hes⟩ := List.pairwise_cons.mp h
    rw [erase]
    split
    case isTrue heq =>
      rw [List.filter_cons_of_neg (by simpa using heq)]
      refine (List.filter_eq_self.mpr fun d hd => ?_).symm
      rw [Bool.not_eq_true']
      exact eq_false_of_ne_true fun h' => ne_true_of_eq_false (hne d.1 (List.mem_map_of_mem hd))
        (equiv_trans (hk.equiv_symm heq) h')
    case isFalse hne' => rw [List.filter_cons_of_pos (by simpa using hne'), ih hes]

theorem length_erase (es : Entries) (k : Value) :
    es.length = (erase es k).length + if Members.contains (keys es) k then 1 else 0 := by
  induction es with
  | nil => rfl
  | cons e es ih =>
    rw [erase, keys_cons, Members.contains_cons]
    split
    case isTrue h => rw [h, Bool.true_or, if_pos rfl, List.length_cons]
    case isFalse h =>
      rw [eq_false_of_ne_true h, Bool.false_or, List.length_cons, List.length_cons, ih]
      omega

theorem find?_filter (hk : Regular k) (hk' : Regular k') (es : Entries) :
    find? (es.filter fun e => !equiv k e.1) k' = if equiv k' k then none else find? es k' := by
  induction es with
  | nil => simp [find?]
  | cons e es ih =>
    cases he : equiv k e.1 with
    | true =>
      have hsame : equiv k' e.1 = equiv k' k :=
        Bool.eq_iff_iff.mpr ⟨fun h' => equiv_trans h' (hk.equiv_symm he), fun h' => equiv_trans h' he⟩
      rw [List.filter_cons_of_neg (by simp [he]), ih, find?, hsame]
      split <;> rfl
    | false =>
      rw [List.filter_cons_of_pos (by simp [he]), find?, find?, ih]
      split
      case isTrue h' =>
        rw [if_neg fun hkk => ne_true_of_eq_false he (equiv_trans (hk'.equiv_symm hkk) h')]
      case isFalse => rfl

theorem forall_insert {P : Value × Value → Prop} (hes : ∀ e ∈ es, P e) (hnew : P (k, v))
    (hold : ∀ e ∈ es, equiv k e.1 = true → P (e.1, v)) : ∀ e ∈ insert es k v, P e := by
  induction es with
  | nil => exact List.forall_mem_singleton.mpr hnew
  | cons e es ih =>
    obtain ⟨he, hes⟩ := List.forall_mem_cons.mp hes
    obtain ⟨hold, holds⟩ := List.forall_mem_cons.mp hold
    rw [insert]
    split
    case isTrue h => exact List.forall_mem_cons.mpr ⟨hold h, hes⟩
    case isFalse => exact List.forall_mem_cons.mpr ⟨he, ih hes holds⟩

end Entries

/-! ## Regular sets and maps -/

theorem regular_row (hv : v.row? = some xs) : Regular v ↔ ∀ x ∈ xs, Regular x := by
  constructor
  · intro h
    cases h with
    | atom hatom => cases v <;> first | cases hatom; done | cases hv
    | list id h | vector id h => cases hv; exact h
    | set | map => cases hv
  · intro h
    cases v with
    | list id | vector id => cases hv; first | exact .list id h | exact .vector id h
    | _ => cases hv

theorem regular_set {id : Nat} : Regular (.set id xs) ↔ (∀ x ∈ xs, Regular x) ∧ Members.Apart xs := by
  constructor
  · intro h
    cases h with
    | atom hatom => cases hatom
    | set _ h hd => exact ⟨h, hd⟩
  · exact fun h => .set id h.1 h.2

theorem regular_map {id : Nat} :
    Regular (.map id es) ↔ (∀ e ∈ es, Regular e.1 ∧ Regular e.2) ∧ Members.Apart (Entries.keys es) := by
  constructor
  · intro h
    cases h with
    | atom hatom => cases hatom
    | map _ hk hv hd => exact ⟨fun e he => ⟨hk e he, hv e he⟩, List.pairwise_map.mpr hd⟩
  · exact fun h => .map id (fun e he => (h.1 e he).1) (fun e he => (h.1 e he).2) (List.pairwise_map.mp h.2)

theorem regular_set_insert {id id' : Nat} (h : Regular (.set id xs)) (hx : Regular x) :
    Regular (.set id' (Members.insert xs x)) := by
  obtain ⟨hxs, hd⟩ := regular_set.mp h
  exact regular_set.mpr ⟨Members.forall_insert hxs hx, Members.apart_insert hxs x hd⟩

theorem regular_map_insert {id id' : Nat} (h : Regular (.map id es)) (hk : Regular k) (hv : Regular v) :
    Regular (.map id' (Entries.insert es k v)) := by
  obtain ⟨hes, hd⟩ := regular_map.mp h
  refine regular_map.mpr ⟨Entries.forall_insert hes ⟨hk, hv⟩ fun e he _ => ⟨(hes e he).1, hv⟩, ?_⟩
  rw [Entries.keys_insert]
  exact Members.apart_insert (List.forall_mem_map.mpr fun e he => (hes e he).1) k hd

theorem regular_map_erase {id id' : Nat} (h : Regular (.map id es)) (hk : Regular k) :
    Regular (.map id' (Entries.erase es k)) := by
  obtain ⟨hes, hd⟩ := regular_map.mp h
  rw [Entries.erase_eq hk hd]
  exact regular_map.mpr ⟨fun e he => hes e (List.mem_of_mem_filter he), hd.sublist (List.filter_sublist.map _)⟩

theorem regular_set_ofList (id : Nat) (h : ∀ x ∈ xs, Regular x) : Regular (.set id (Members.ofList xs)) := by
  suffices ∀ before, Regular (.set id before) → Regular (.set id (xs.foldl Members.insert before)) from
    this [] (.set id (by simp) .nil)
  induction xs with
  | nil => exact fun _ hbefore => hbefore
  | cons x xs ih =>
    obtain ⟨hx, hxs⟩ := List.forall_mem_cons.mp h
    exact fun before hbefore => ih hxs _ (regular_set_insert hbefore hx)

theorem regular_map_ofList (id : Nat) (h : ∀ e ∈ es, Regular e.1 ∧ Regular e.2) :
    Regular (.map id (Entries.ofList es)) := by
  suffices ∀ before, Regular (.map id before) →
      Regular (.map id (es.foldl (fun m e => Entries.insert m e.1 e.2) before)) from
    this [] (.map id (by simp) (by simp) .nil)
  induction es with
  | nil => exact fun _ hbefore => hbefore
  | cons e es ih =>
    obtain ⟨he, hes⟩ := List.forall_mem_cons.mp h
    exact fun before hbefore => ih hes _ (regular_map_insert hbefore he.1 he.2)

end LispMachine.Value
