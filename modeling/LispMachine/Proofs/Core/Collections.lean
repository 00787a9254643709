import LispMachine.Proofs.Core.Built
import LispMachine.Proofs.Run.Preserves
/-!
# Operations on collections

The functions on collections are finite maps, sets and sequences (`collectionLaws`).  Each law says of one call what the
functions that look into a collection answer afterwards, as against what they answered of the argument; a call with
several items is one call after the other.  The laws hold of whatever has been `Built`, with any values in it, because
equality is an equivalence there.  Collections are values, and so the argument of a call cannot change; nor does
anything else in the world, however the call ends, but for the identities that are given to new collections
(`unchanged`).
-/
namespace LispMachine.Core

open Value Run

/-- The keys of a map, the members of a set and the items of a list or vector, in order. -/
def members : Value → List Value
  | .map _ es => Entries.keys es
  | .list _ xs | .vector _ xs | .set _ xs => xs
  | _ => []

/-- The world after one identity has been taken for a result. -/
def afterOne (w : World) : World := { w with nextId := w.nextId + 1 }

/-- The call ends with the value, and the only thing it changes is that an identity has been taken. -/
def Makes (f : CoreFn) (args : List Value) (w : World) (v : Value) : Prop :=
  Core.call f args w = (.value (.value v), afterOne w)

/-- The reply that a value is found or known, if the condition holds, and else the reply of another call. -/
def orElse (found : Bool) (v : Value) (other : Run Reply) : Run Reply := if found then Pure.pure (.value v) else other

/-- The second map is the first one with the value under the key. -/
structure Put (m k v m' : Value) : Prop where
  get (k' d : Value) (h : Built k') :
    Core.call .get [m', k', d] = orElse (equiv k' k) v (Core.call .get [m, k', d])
  members : members m' = if Coll.contains m k then members m else members m ++ [k]

/-- The second map is the first one without the entry under the key. -/
structure Taken (m k m' : Value) : Prop where
  get (k' d : Value) (h : Built k') :
    Core.call .get [m', k', d] = orElse (equiv k' k) d (Core.call .get [m, k', d])
  count : (members m).length = (members m').length + if Coll.contains m k then 1 else 0
  members : members m' = (members m).filter fun k' => !equiv k k'

/-- The second set is the first one with the member. -/
structure Added (s x s' : Value) : Prop where
  contains (y : Value) (h : Built y) :
    Core.call .contains [s', y] = orElse (equiv y x) (.bool true) (Core.call .contains [s, y])
  members : members s' = if Coll.contains s x then members s else members s ++ [x]

/-- The second vector is the first one with the item at the index. -/
structure Placed (c : Value) (i : Int64) (v c' : Value) : Prop where
  get (j : Int64) (d : Value) :
    Core.call .get [c', .long j, d] = orElse (j == i) v (Core.call .get [c, .long j, d])
  count : (members c').length = (members c).length + if i.toInt = (members c).length then 1 else 0

/-- Goes on with the value that a call has ended with. -/
def onward (f : Value → Run Reply) : Reply → Run Reply
  | .value v => f v
  | r => Pure.pure r

/-- What the functions on collections do with what has been built. -/
structure CollectionLaws : Prop where
  equivalence : Equivalence fun v w : {v // Built v} => equiv v.1 w.1 = true
  hash (v w : Value) (hv : Built v) (h : equiv v w = true) : v.hash = w.hash
  quoted (f : Form) (n : Nat) (h : ∀ d ∈ f.doubles, d ≠ Float.nan) : Built ((ofForm f).run n).1
  map_apart (id : Nat) (es : List (Value × Value)) (h : Built (.map id es)) :
    (Entries.keys es).Pairwise fun k k' => equiv k k' = false ∧ equiv k' k = false
  set_apart (id : Nat) (xs : List Value) (h : Built (.set id xs)) :
    xs.Pairwise fun x y => equiv x y = false ∧ equiv y x = false
  count (c : Value) (hc : c.isCollection = true) :
    Core.call .count [c] = Pure.pure (.value (.long (.ofNat (members c).length)))
  get (c k : Value) : Core.call .get [c, k] = Core.call .get [c, k, .nil]
  assoc_map (id : Nat) (es : List (Value × Value)) (k v : Value) (w : World) (hm : Built (.map id es)) (hk : Built k) :
    ∃ m', Makes .assoc [.map id es, k, v] w m' ∧ Put (.map id es) k v m'
  dissoc_map (id : Nat) (es : List (Value × Value)) (k : Value) (w : World) (hm : Built (.map id es)) (hk : Built k) :
    ∃ m', Makes .dissoc [.map id es, k] w m' ∧ Taken (.map id es) k m'
  conj_map (id id' : Nat) (es : List (Value × Value)) (k v : Value) :
    Core.call .conj [.map id es, .vector id' [k, v]] = Core.call .assoc [.map id es, k, v]
  conj_set (id : Nat) (xs : List Value) (x : Value) (w : World) (hs : Built (.set id xs)) (hx : Built x) :
    ∃ s', Makes .conj [.set id xs, x] w s' ∧ Added (.set id xs) x s'
  conj_list (id : Nat) (xs : List Value) (x : Value) (w : World) :
    Makes .conj [.list id xs, x] w (.list w.nextId (x :: xs))
  conj_vector (id : Nat) (xs : List Value) (x : Value) (w : World) :
    Makes .conj [.vector id xs, x] w (.vector w.nextId (xs ++ [x]))
  /-- A vector takes the indices of its items and the next one, and nothing else for a key. -/
  assoc_vector (id : Nat) (xs : List Value) (k v : Value) (w : World) :
    (∃ r w', Core.call .assoc [.vector id xs, k, v] w = (.value r, w')) ↔
      ∃ i, k = .long i ∧ 0 ≤ i.toInt ∧ i.toInt ≤ xs.length
  assoc_vector_at (id : Nat) (xs : List Value) (i : Int64) (v : Value) (w : World) (h : 0 ≤ i.toInt)
      (h' : i.toInt ≤ xs.length) :
    ∃ ys, Makes .assoc [.vector id xs, .long i, v] w (.vector w.nextId ys) ∧
      Placed (.vector id xs) i v (.vector w.nextId ys)
  conj_more (c x : Value) (xs : List Value) : Core.call .conj (c :: x :: xs) =
    Core.call .conj [c, x] >>= onward fun c' => Core.call .conj (c' :: xs)
  dissoc_more (c k : Value) (ks : List Value) : Core.call .dissoc (c :: k :: ks) =
    Core.call .dissoc [c, k] >>= onward fun c' => Core.call .dissoc (c' :: ks)
  assoc_more (c k v : Value) (xs : List Value) (hne : xs ≠ []) (heven : xs.length % 2 = 0) :
    Core.call .assoc (c :: k :: v :: xs) =
      Core.call .assoc [c, k, v] >>= onward fun c' => Core.call .assoc (c' :: xs)
  into (c s : Value) : Core.call .into [c, s] = itemsOf s >>= fun xs => Core.call .conj (c :: xs)
  unchanged (f : CoreFn) (hf : f ∈ builders) (args : List Value) (w : World) :
    ∃ n, (Core.call f args w).2 = { w with nextId := n }

variable {c k v x : Value} {xs : List Value} {es : List (Value × Value)} {w : World}

/-! ## Calls on one item -/

theorem call_conj (c : Value) (xs : List Value) :
    call .conj (c :: xs) = (do return .value (← foldList Coll.conj c xs)) := rfl

theorem call_dissoc (c : Value) (xs : List Value) :
    call .dissoc (c :: xs) = (do return .value (← foldList Coll.dissoc c xs)) := rfl

theorem call_assoc (c : Value) (hne : xs ≠ []) (heven : xs.length % 2 = 0) : call .assoc (c :: xs) =
    (do return .value (← foldList (fun c e => Coll.assoc c e.1 e.2) c (Entries.ofItems xs))) := by
  have hfold : callCollection .assoc (c :: xs) =
      foldList (fun c e => Coll.assoc c e.1 e.2) c (Entries.ofItems xs) := by
    refine if_neg ?_
    have := List.length_pos_of_ne_nil hne
    simp only [List.length_cons, Bool.or_eq_true, decide_eq_true_eq, beq_iff_eq]
    omega
  rw [← hfold]
  rfl

theorem foldList_one {α β : Type} (f : β → α → Run β) (b : β) (a : α) : foldList f b [a] = f b a := bind_pure _

theorem conj_one (h : Coll.conjAs w.nextId c x = .ok v) : Makes .conj [c, x] w v := by
  unfold Makes
  rw [call_conj, foldList_one]
  change (Run.ofExcept (Coll.conjAs w.nextId c x) >>= _ : Run Reply) (afterOne w) = _
  rw [h]
  rfl

theorem dissoc_one (h : Coll.dissocAs w.nextId c k = .ok v) :
    Makes .dissoc [c, k] w v := by
  unfold Makes
  rw [call_dissoc, foldList_one]
  change (Run.ofExcept (Coll.dissocAs w.nextId c k) >>= _ : Run Reply) (afterOne w) = _
  rw [h]
  rfl

theorem assoc_one (c k v : Value) (w : World) : call .assoc [c, k, v] w =
    (do return Reply.value (← Run.ofExcept (Coll.assocAs w.nextId c k v))) (afterOne w) := by
  rw [call_assoc c (by simp) (by simp), Entries.ofItems, Entries.ofItems.eq_2 [] (by simp), foldList_one]
  rfl

theorem assoc_one_ok (h : Coll.assocAs w.nextId c k x = .ok v) : Makes .assoc [c, k, x] w v := by
  unfold Makes
  rw [assoc_one, h]
  rfl

/-! ## One thing after the other -/

theorem foldList_cons {α β : Type} (f : β → α → Run β) (b : β) (a : α) (as : List α) :
    foldList f b (a :: as) = f b a >>= fun b => foldList f b as := rfl

theorem call_conj_more (c x : Value) (xs : List Value) : call .conj (c :: x :: xs) =
    call .conj [c, x] >>= onward fun c' => call .conj (c' :: xs) := by
  simp only [call_conj, foldList_cons, bind_assoc, pure_bind, onward]
  rfl

theorem call_dissoc_more (c k : Value) (ks : List Value) : call .dissoc (c :: k :: ks) =
    call .dissoc [c, k] >>= onward fun c' => call .dissoc (c' :: ks) := by
  simp only [call_dissoc, foldList_cons, bind_assoc, pure_bind, onward]
  rfl

theorem call_assoc_more (c k v : Value) (hne : xs ≠ []) (heven : xs.length % 2 = 0) :
    call .assoc (c :: k :: v :: xs) = call .assoc [c, k, v] >>= onward fun c' => call .assoc (c' :: xs) := by
  have heven' : (k :: v :: xs).length % 2 = 0 := by
    simp only [List.length_cons]
    omega
  rw [call_assoc c (by simp) heven', call_assoc c (by simp) (by simp)]
  simp only [call_assoc _ hne heven, Entries.ofItems, foldList_cons, bind_assoc, pure_bind, onward]
  rfl

theorem call_into (c s : Value) : call .into [c, s] = itemsOf s >>= fun xs => call .conj (c :: xs) := by
  simp only [call_conj]
  exact bind_assoc _ _ _

/-! ## Nothing else changes -/

theorem preserves_foldList {α β : Type} {I : World → Prop} {f : β → α → Run β} (hf : ∀ b a, Preserves I (f b a)) :
    ∀ (as : List α) (b : β), Preserves I (foldList f b as)
  | [], b => preserves_pure b
  | a :: as, b => preserves_bind (hf b a) fun b => preserves_foldList hf as b

theorem preserves_alloc {I : World → Prop} (hI : ∀ (w : World) (n : Nat), I w → I { w with nextId := n }) (n : Nat) :
    Preserves I (alloc n) := fun w hw => hI w _ hw

section

variable {I : World → Prop} (hI : ∀ (w : World) (n : Nat), I w → I { w with nextId := n })
include hI

theorem preserves_itemsOf (c : Value) : Preserves I (itemsOf c) := by
  refine preserves_bind (preserves_alloc hI _) fun id => ?_
  split
  · exact preserves_pure _
  · exact preserves_raise hI _

theorem preserves_fresh (op : Nat → Except Failure Value) : Preserves I (do ofExcept (op (← alloc 1)) : Run Value) :=
  preserves_bind (preserves_alloc hI 1) fun id => preserves_ofExcept hI (op id)

theorem preserves_checkArity (f : CoreFn) (least : Nat) (most : Option Nat) (args : List Value) :
    Preserves I (checkArity f least most args) := by
  unfold checkArity
  split
  · exact preserves_raise hI _
  · exact preserves_pure _

theorem preserves_call {f : CoreFn} (hf : f ∈ builders) (args : List Value) : Preserves I (call f args) := by
  suffices hcoll : Preserves I (callCollection f args) by
    rw [call_builder hf]
    exact preserves_bind hcoll fun _ => preserves_pure _
  simp only [builders, List.mem_cons, List.not_mem_nil, or_false] at hf
  rcases hf with rfl | rfl | rfl | rfl | rfl | rfl | rfl | rfl
  · exact preserves_bind (preserves_alloc hI 1) fun _ => preserves_pure _
  · exact preserves_bind (preserves_alloc hI 1) fun _ => preserves_pure _
  · simp only [callCollection]
    split
    · exact preserves_raise hI _
    · exact preserves_bind (preserves_alloc hI 1) fun _ => preserves_pure _
  · exact preserves_bind (preserves_alloc hI 1) fun _ => preserves_pure _
  · exact preserves_bind (preserves_checkArity hI _ _ _ _) fun _ =>
      preserves_foldList (fun c x => preserves_fresh hI (Coll.conjAs · c x)) _ _
  · simp only [callCollection, binary]
    split
    · exact preserves_bind (preserves_itemsOf hI _) fun _ =>
        preserves_foldList (fun c x => preserves_fresh hI (Coll.conjAs · c x)) _ _
    · exact preserves_raise hI _
  · simp only [callCollection]
    split
    · exact preserves_raise hI _
    · exact preserves_foldList (fun c (e : Value × Value) => preserves_fresh hI (Coll.assocAs · c e.1 e.2)) _ _
  · exact preserves_bind (preserves_checkArity hI _ _ _ _) fun _ =>
      preserves_foldList (fun c k => preserves_fresh hI (Coll.dissocAs · c k)) _ _

end

theorem unchanged {f : CoreFn} (hf : f ∈ builders) (args : List Value) (w : World) :
    ∃ n, (call f args w).2 = { w with nextId := n } := by
  refine preserves_call (I := fun w' => ∃ n, w' = { w with nextId := n }) ?_ hf args w ⟨_, rfl⟩
  rintro _ m ⟨n, rfl⟩
  exact ⟨m, rfl⟩

/-! ## What is found afterwards -/

theorem contains_map (id : Nat) (es : List (Value × Value)) (k : Value) :
    Coll.contains (.map id es) k = Members.contains (Entries.keys es) k := Entries.find?_isSome es k

theorem put_insert (id id' : Nat) (es : List (Value × Value)) (hk : Regular k) (v : Value) :
    Put (.map id es) k v (.map id' (Entries.insert es k v)) where
  get k' d h := by
    change (fun w => (Outcome.value (Reply.value ((Entries.find? (Entries.insert es k v) k').getD d)), w)) = _
    rw [Entries.find?_insert hk h.regular, orElse]
    split <;> rfl
  members := by
    rw [contains_map]
    exact Entries.keys_insert es k v

theorem taken_erase (id id' : Nat) (hm : Regular (.map id es)) (hk : Regular k) :
    Taken (.map id es) k (.map id' (Entries.erase es k)) where
  get k' d h := by
    change (fun w => (Outcome.value (Reply.value ((Entries.find? (Entries.erase es k) k').getD d)), w)) = _
    rw [Entries.erase_eq hk (regular_map.mp hm).2, Entries.find?_filter hk h.regular, orElse]
    split <;> rfl
  count := by
    rw [contains_map]
    simpa only [members, Entries.keys, List.length_map] using Entries.length_erase es k
  members := by
    change Entries.keys (Entries.erase es k) = _
    rw [Entries.erase_eq hk (regular_map.mp hm).2, members, Entries.keys, Entries.keys, List.filter_map]
    rfl

theorem added_insert (id id' : Nat) (xs : List Value) (x : Value) :
    Added (.set id xs) x (.set id' (Members.insert xs x)) where
  contains y h := by
    change (fun w => (Outcome.value (Reply.value (.bool (Members.contains (Members.insert xs x) y))), w)) = _
    rw [Members.contains_insert, orElse]
    split
    case isTrue h => rw [h]; rfl
    case isFalse h => rw [eq_false_of_ne_true h]; rfl
  members := rfl

/-- A list with an item in place of the one at an index, or at the end. -/
def place (xs : List Value) (n : Nat) (v : Value) : List Value := xs.take n ++ v :: xs.drop (n + 1)

theorem getElem?_place {n : Nat} (h : n ≤ xs.length) (v : Value) (m : Nat) :
    (place xs n v)[m]? = if m = n then some v else xs[m]? := by
  have hlen : (xs.take n).length = n := List.length_take_of_le h
  rcases Nat.lt_trichotomy m n with hlt | rfl | hgt
  · rw [place, List.getElem?_append_left (by omega), List.getElem?_take_of_lt hlt, if_neg (by omega)]
  · rw [place, List.getElem?_append_right (by omega), hlen, Nat.sub_self, if_pos rfl]
    rfl
  · obtain ⟨d, rfl⟩ := Nat.exists_eq_add_of_lt hgt
    rw [place, List.getElem?_append_right (by omega), hlen, if_neg (by omega),
      show n + d + 1 - n = d + 1 by omega, List.getElem?_cons_succ, List.getElem?_drop]
    congr 1
    omega

theorem assocAs_vector (id id' : Nat) (i : Int64) (v : Value) (h : 0 ≤ i.toInt) (h' : i.toInt ≤ xs.length) :
    Coll.assocAs id' (.vector id xs) (.long i) v = .ok (.vector id' (place xs i.toInt.toNat v)) := by
  simp only [Coll.assocAs, if_neg (not_lt.mpr h)]
  rcases Nat.lt_or_eq_of_le (show i.toInt.toNat ≤ xs.length by omega) with hlt | heq
  · rw [if_pos hlt, place, List.set_eq_take_append_cons_drop, if_pos hlt]
  · rw [if_neg (by omega), if_pos (by simpa using heq), place, heq, List.take_length, List.drop_eq_nil_of_le (by omega)]

theorem placed_place (id id' : Nat) (i : Int64) (v : Value) (h : 0 ≤ i.toInt) (h' : i.toInt ≤ xs.length) :
    Placed (.vector id xs) i v (.vector id' (place xs i.toInt.toNat v)) where
  get j d := by
    change (fun w => (Outcome.value (Reply.value ((Coll.at? (place xs i.toInt.toNat v) j).getD d)), w)) = _
    have hat : Coll.at? (place xs i.toInt.toNat v) j = if j == i then some v else Coll.at? xs j := by
      have hji : (j == i) = true ↔ j.toInt = i.toInt := by rw [beq_iff_eq, Int64.toInt_inj]
      unfold Coll.at?
      by_cases hneg : j.toInt < 0
      · rw [if_pos hneg, if_pos hneg, if_neg (by rw [hji]; omega)]
      · rw [if_neg hneg, if_neg hneg, getElem?_place (by omega)]
        simp only [hji]
        congr 1
        exact propext ⟨fun _ => by omega, fun _ => by omega⟩
    rw [hat, orElse]
    split <;> rfl
  count := by
    change (place xs i.toInt.toNat v).length = xs.length + if i.toInt = xs.length then 1 else 0
    simp only [place, List.length_append, List.length_take, List.length_cons, List.length_drop]
    split_ifs <;> omega

theorem assoc_vector_iff (id : Nat) (xs : List Value) (k v : Value) (w : World) :
    (∃ r w', call .assoc [.vector id xs, k, v] w = (.value r, w')) ↔
      ∃ i, k = .long i ∧ 0 ≤ i.toInt ∧ i.toInt ≤ xs.length := by
  rw [assoc_one]
  constructor
  · rintro ⟨r, w', h⟩
    cases k with
    | long i =>
      refine ⟨i, rfl, ?_⟩
      by_contra hout
      have herr : Coll.assocAs w.nextId (.vector id xs) (.long i) v = .error (.outOfBounds i.toInt) := by
        simp only [Coll.assocAs]
        by_cases hneg : i.toInt < 0
        · rw [if_pos hneg]
        · rw [if_neg hneg, if_neg (by omega), if_neg (by simp only [beq_iff_eq]; omega)]
      rw [herr] at h
      cases h
    | _ => cases h
  · rintro ⟨i, rfl, h, h'⟩
    rw [assocAs_vector id w.nextId i v h h']
    exact ⟨_, _, rfl⟩

theorem apart_both {xs : List Value} (hxs : ∀ x ∈ xs, Regular x) (h : Members.Apart xs) :
    xs.Pairwise fun x y => equiv x y = false ∧ equiv y x = false :=
  h.imp_of_mem fun hx hy hne => ⟨hne, (hxs _ hx).equiv_comm (hxs _ hy) ▸ hne⟩

/-- **The functions on collections are lawful.** -/
theorem collectionLaws : CollectionLaws where
  equivalence := ⟨fun v => v.2.regular.equiv_self, fun {v _} h => v.2.regular.equiv_symm h, equiv_trans⟩
  hash _ _ hv h := hv.regular.hash_eq h
  quoted _ n h := Built.of_reads h ⟨n, rfl⟩
  map_apart _ _ h :=
    apart_both (List.forall_mem_map.mpr fun e he => ((regular_map.mp h.regular).1 e he).1) (regular_map.mp h.regular).2
  set_apart _ _ h := apart_both (regular_set.mp h.regular).1 (regular_set.mp h.regular).2
  count c hc := by
    cases c with
    | map id es =>
      rw [members, Entries.keys, List.length_map]
      rfl
    | list | vector | set => rfl
    | _ => cases hc
  get _ _ := rfl
  assoc_map id es k v w hm hk := ⟨_, assoc_one_ok rfl, put_insert id w.nextId es hk.regular v⟩
  dissoc_map id es k w hm hk := ⟨_, dissoc_one rfl, taken_erase id w.nextId hm.regular hk.regular⟩
  conj_map id id' es k v := by
    rw [call_conj, foldList_one]
    funext w
    rw [assoc_one]
    rfl
  conj_set id xs x w _ _ := ⟨_, conj_one rfl, added_insert id w.nextId xs x⟩
  conj_list _ _ _ _ := conj_one rfl
  conj_vector _ _ _ _ := conj_one rfl
  assoc_vector := assoc_vector_iff
  assoc_vector_at id xs i v w h h' :=
    ⟨_, assoc_one_ok (assocAs_vector id w.nextId i v h h'), placed_place id w.nextId i v h h'⟩
  conj_more := call_conj_more
  dissoc_more := call_dissoc_more
  assoc_more c k v _ := call_assoc_more c k v
  into := call_into
  unchanged _ hf := unchanged hf

end LispMachine.Core
