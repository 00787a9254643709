import LispMachine.Core.Library
import LispMachine.Proofs.Run.Returns
import LispMachine.Proofs.Value.Entries
/-!
# Collections that are built

`Built` values come from atoms, but for doubles that are not numbers, by literals and by calls of the functions that
build collections, in any order and number.  They are regular (`Built.regular`): however a set or map has come about,
nothing is in it twice.  The value of a form as data is built as well (`Built.of_reads`).
-/
namespace LispMachine.Core

open Value Run

/-- The functions that build collections. -/
def builders : List CoreFn := [.list, .vector, .hashMap, .hashSet, .conj, .into, .assoc, .dissoc]

/-- Values that are built from atoms that are numbers if they are doubles, by literals and by calls. -/
inductive Built : Value → Prop
  | atom {v : Value} (hv : v.isCollection = false) (hd : v ≠ .double Float.nan) : Built v
  | list (id : Nat) {xs : List Value} (h : ∀ x ∈ xs, Built x) : Built (.list id xs)
  | vector (id : Nat) {xs : List Value} (h : ∀ x ∈ xs, Built x) : Built (.vector id xs)
  | set (id : Nat) {xs : List Value} (h : ∀ x ∈ xs, Built x) : Built (.set id (Members.ofList xs))
  | map (id : Nat) {es : List (Value × Value)} (hk : ∀ e ∈ es, Built e.1) (hv : ∀ e ∈ es, Built e.2) :
      Built (.map id (Entries.ofList es))
  | call {f : CoreFn} {args : List Value} {v : Value} {w w' : World} (hf : f ∈ builders) (h : ∀ x ∈ args, Built x)
      (hcall : Core.call f args w = (.value (.value v), w')) : Built v

variable {c k v x : Value} {f : Form} {xs : List Value} {id : Nat}

/-! ## What is built is regular -/

theorem regular_entryVectors : ∀ {es : List (Value × Value)} (id : Nat), (∀ e ∈ es, Regular e.1 ∧ Regular e.2) →
    ∀ x ∈ entryVectors id es, Regular x
  | [], _, _ => by simp [entryVectors]
  | e :: es, id, h => by
    obtain ⟨he, hes⟩ := List.forall_mem_cons.mp h
    exact List.forall_mem_cons.mpr ⟨.vector id (by simpa using he), regular_entryVectors (id + 1) hes⟩

theorem regular_items (hc : Regular c) (h : c.items? id = some xs) : ∀ x ∈ xs, Regular x := by
  cases c with
  | nil => cases h; simp
  | list | vector => cases h; exact (regular_row rfl).mp hc
  | set => cases h; exact (regular_set.mp hc).1
  | map => cases h; exact regular_entryVectors id (regular_map.mp hc).1
  | str s =>
    cases h
    exact List.forall_mem_map.mpr fun c _ => .atom rfl (by simp)
  | _ => cases h

theorem returns_itemsOf (hc : Regular c) : Returns (itemsOf c) fun xs => ∀ x ∈ xs, Regular x := by
  refine returns_then _ fun id => ?_
  cases h : c.items? id with
  | none => exact returns_raise _
  | some xs => exact returns_pure (regular_items hc h)

theorem regular_conjAs (hc : Regular c) (hx : Regular x) (h : Coll.conjAs id c x = .ok v) : Regular v := by
  cases c with
  | nil => cases h; exact .list id (by simpa using hx)
  | list _ xs => cases h; exact .list id (List.forall_mem_cons.mpr ⟨hx, (regular_row rfl).mp hc⟩)
  | vector _ xs =>
    cases h
    exact .vector id (List.forall_mem_append.mpr ⟨(regular_row rfl).mp hc, by simpa using hx⟩)
  | set => cases h; exact regular_set_insert hc hx
  | map _ es =>
    simp only [Coll.conjAs] at h
    split at h
    · cases h
      obtain ⟨hk, hv⟩ : Regular _ ∧ Regular _ := by simpa using (regular_row rfl).mp hx
      exact regular_map_insert hc hk hv
    · cases h
  | _ => cases h

theorem regular_assocAs (hc : Regular c) (hk : Regular k) (hx : Regular x) (h : Coll.assocAs id c k x = .ok v) :
    Regular v := by
  cases c with
  | nil => cases h; exact .map id (by simpa using hk) (by simpa using hx) (List.pairwise_singleton _ _)
  | map => cases h; exact regular_map_insert hc hk hx
  | vector _ xs =>
    have hxs := (regular_row rfl).mp hc
    simp only [Coll.assocAs] at h
    split at h
    · split at h
      · cases h
      · split at h
        · cases h
          exact .vector id fun y hy => (List.mem_or_eq_of_mem_set hy).elim (hxs y) fun hy => hy ▸ hx
        · split at h
          · cases h
            exact .vector id (List.forall_mem_append.mpr ⟨hxs, by simpa using hx⟩)
          · cases h
    · cases h
  | _ => cases h

theorem regular_dissocAs (hc : Regular c) (hk : Regular k) (h : Coll.dissocAs id c k = .ok v) : Regular v := by
  cases c with
  | nil => cases h; exact .atom rfl (by simp)
  | map => cases h; exact regular_map_erase hc hk
  | _ => cases h

theorem returns_foldList {α β : Type} {P : β → Prop} {Q : α → Prop} {f : β → α → Run β}
    (hf : ∀ b a, P b → Q a → Returns (f b a) P) : ∀ {as : List α} {b : β}, P b → (∀ a ∈ as, Q a) →
      Returns (foldList f b as) P
  | [], _, hb, _ => returns_pure hb
  | a :: _, b, hb, has => by
    obtain ⟨ha, has⟩ := List.forall_mem_cons.mp has
    exact returns_bind (hf b a hb ha) fun _ hb' => returns_foldList hf hb' has

theorem returns_conj (hc : Regular c) (hx : Regular x) : Returns (Coll.conj c x) Regular :=
  returns_then _ fun _ => returns_ofExcept fun _ => regular_conjAs hc hx

theorem returns_assoc (hc : Regular c) (hk : Regular k) (hx : Regular x) : Returns (Coll.assoc c k x) Regular :=
  returns_then _ fun _ => returns_ofExcept fun _ => regular_assocAs hc hk hx

theorem returns_dissoc (hc : Regular c) (hk : Regular k) : Returns (Coll.dissoc c k) Regular :=
  returns_then _ fun _ => returns_ofExcept fun _ => regular_dissocAs hc hk

theorem regular_ofItems : ∀ {xs : List Value}, (∀ x ∈ xs, Regular x) →
    ∀ e ∈ Entries.ofItems xs, Regular e.1 ∧ Regular e.2
  | [], _ | [_], _ => by simp [Entries.ofItems]
  | k :: v :: xs, h => by
    obtain ⟨hk, h⟩ := List.forall_mem_cons.mp h
    obtain ⟨hv, h⟩ := List.forall_mem_cons.mp h
    exact List.forall_mem_cons.mpr ⟨⟨hk, hv⟩, regular_ofItems h⟩

theorem regular_head (h : ∀ x ∈ xs, Regular x) : Regular (xs.head?.getD .nil) := by
  cases xs with
  | nil => exact .atom rfl (by simp)
  | cons x xs => exact h x List.mem_cons_self

theorem regular_tail (h : ∀ x ∈ xs, Regular x) : ∀ x ∈ xs.tail, Regular x :=
  fun x hx => h x (List.mem_of_mem_tail hx)

theorem call_builder {f : CoreFn} (hf : f ∈ builders) (args : List Value) :
    call f args = (do return .value (← callCollection f args)) := by
  simp only [builders, List.mem_cons, List.not_mem_nil, or_false] at hf
  rcases hf with rfl | rfl | rfl | rfl | rfl | rfl | rfl | rfl <;> rfl

/-- No builder makes anything irregular out of regular arguments. -/
theorem returns_call {f : CoreFn} (hf : f ∈ builders) (h : ∀ x ∈ xs, Regular x) :
    Returns (call f xs) fun r => ∀ v, r = .value v → Regular v := by
  suffices hcoll : Returns (callCollection f xs) Regular by
    rw [call_builder hf]
    exact returns_bind hcoll fun v hv => returns_pure fun v' h => by cases h; exact hv
  simp only [builders, List.mem_cons, List.not_mem_nil, or_false] at hf
  rcases hf with rfl | rfl | rfl | rfl | rfl | rfl | rfl | rfl
  · exact returns_then _ fun id => returns_pure (.list id h)
  · exact returns_then _ fun id => returns_pure (.vector id h)
  · simp only [callCollection]
    split
    · exact returns_raise _
    · exact returns_then _ fun id => returns_pure (regular_map_ofList id (regular_ofItems h))
  · exact returns_then _ fun id => returns_pure (regular_set_ofList id h)
  · exact returns_then _ fun _ => returns_foldList (fun _ _ => returns_conj) (regular_head h) (regular_tail h)
  · simp only [callCollection, binary]
    split
    · obtain ⟨hc, hs⟩ : Regular _ ∧ Regular _ := by simpa using h
      exact returns_bind (returns_itemsOf hs) fun _ => returns_foldList (fun _ _ => returns_conj) hc
    · exact returns_raise _
  · simp only [callCollection]
    split
    · exact returns_raise _
    · exact returns_foldList (fun _ _ hc he => returns_assoc hc he.1 he.2) (regular_head h)
        (regular_ofItems (regular_tail h))
  · exact returns_then _ fun _ => returns_foldList (fun _ _ => returns_dissoc) (regular_head h) (regular_tail h)

theorem Built.regular (h : Built v) : Regular v := by
  induction h with
  | atom hv hd => exact .atom hv hd
  | list id h ih => exact .list id ih
  | vector id h ih => exact .vector id ih
  | set id h ih => exact regular_set_ofList id ih
  | map id hk hv ihk ihv => exact regular_map_ofList id fun e he => ⟨ihk e he, ihv e he⟩
  | call hf h hcall ih => exact returns_call hf ih _ _ _ hcall _ rfl

/-! ## Data -/

theorem forall_of_forall₂ {α β : Type} {P : β → Prop} {as : List α} {bs : List β}
    (h : as.Forall₂ (fun _ b => P b) bs) : ∀ b ∈ bs, P b := by
  induction h with
  | nil => simp
  | cons hb _ ih => exact List.forall_mem_cons.mpr ⟨hb, ih⟩

theorem built_members {fs : List Form} (ih : ∀ f ∈ fs, ∀ {v}, (∀ d ∈ f.doubles, d ≠ Float.nan) → Reads f v → Built v)
    (hd : ∀ d ∈ Form.doublesOf fs, d ≠ Float.nan) (h : fs.Forall₂ Reads xs) : ∀ x ∈ xs, Built x :=
  forall_of_forall₂ <| forall₂_imp_of_mem
    (fun f hf _ => ih f hf fun d hmem => hd d (Form.mem_doublesOf.mpr ⟨f, hf, hmem⟩)) h

theorem Built.of_reads (hd : ∀ d ∈ f.doubles, d ≠ Float.nan) (h : Reads f v) : Built v := by
  induction f using Form.induct generalizing v with
  | atom f hf =>
    obtain ⟨n, rfl⟩ := h
    cases f with
    | double d => exact .atom rfl fun heq => hd d (by simp [Form.doubles]) (Value.double.inj heq)
    | list | vector | set | map => cases hf
    | _ => exact .atom rfl (by rintro ⟨⟩)
  | list xs info ih =>
    obtain ⟨id, vs, rfl, hvs⟩ := h.list
    exact .list id (built_members ih (by simpa only [Form.doubles] using hd) hvs)
  | vector xs info ih =>
    obtain ⟨id, vs, rfl, hvs⟩ := h.vector
    exact .vector id (built_members ih (by simpa only [Form.doubles] using hd) hvs)
  | set xs info ih =>
    obtain ⟨id, vs, rfl, hvs⟩ := h.set
    exact .set id (built_members ih (by simpa only [Form.doubles] using hd) hvs)
  | map ps info ih =>
    obtain ⟨id, es, rfl, hes⟩ := h.map
    have hdouble : ∀ p ∈ ps, ∀ d, d ∈ p.1.doubles ∨ d ∈ p.2.doubles → d ≠ Float.nan := by
      intro p hp d hmem
      exact hd d (by simpa only [Form.doubles] using Form.mem_doublesOfPairs.mpr ⟨p, hp, hmem⟩)
    have hbuilt : ∀ e ∈ es, Built e.1 ∧ Built e.2 := forall_of_forall₂ <| forall₂_imp_of_mem
      (fun p hp _ he => ⟨(ih p hp).1 (fun d h => hdouble p hp d (.inl h)) he.1,
        (ih p hp).2 (fun d h => hdouble p hp d (.inr h)) he.2⟩) hes
    exact .map id (fun e he => (hbuilt e he).1) (fun e he => (hbuilt e he).2)

end LispMachine.Core
