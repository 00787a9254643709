import LispMachine.Proofs.Class.Ancestry
import Mathlib.Logic.Relation
/-!
# The class hierarchy

In a class table that programs can build (`ClassTable.Built`) the built-in classes have the supertypes that they were declared
with, and a declared type has the class of objects above it and nothing else (`Layered`).  Hence `isSubclass`, which looks a
bounded number of levels up, decides whether a class is another one or stands below it (`isSubclass_iff`).  And the number of
a class says how special it is among the superclasses of one class: if one of them stands below another, it has the larger
number (`Below.lt`).  The class itself may well have a smaller number than its superclasses.
-/
namespace LispMachine

namespace ClassId

/-- The direct supertypes of a built-in class. -/
def supersOf (id : ClassId) : List ClassId := ((builtins.lookup id).map (·.2)).getD []

/-- No chain of supertypes has more links. -/
def shallow : Nat → ClassId → Bool
  | 0, id => (supersOf id).isEmpty
  | n + 1, id => (supersOf id).all (shallow n)

theorem mem_builtins_of_mem_supersOf {id s : ClassId} (h : s ∈ supersOf id) : ∃ b ∈ builtins, b.1 = id ∧ s ∈ b.2.2 := by
  unfold supersOf at h
  cases hb : builtins.lookup id with
  | none =>
    rw [hb] at h
    cases h
  | some b =>
    rw [hb] at h
    obtain ⟨l₁, l₂, hl, -⟩ := List.lookup_eq_some_iff.1 hb
    exact ⟨(id, b), hl ▸ List.mem_append_right _ List.mem_cons_self, rfl, h⟩

/-- A supertype of a built-in class is built in; it is not the class of `nil`, and its own supertypes have smaller numbers. -/
theorem of_mem_supersOf {id s : ClassId} (h : s ∈ supersOf id) :
    s ≠ nil ∧ (builtins.lookup s).isSome = true ∧ s < firstUser ∧ ∀ s' ∈ supersOf s, s' < s := by
  have hall : ∀ b ∈ builtins, ∀ s ∈ b.2.2, s ≠ nil ∧ (builtins.lookup s).isSome = true ∧ s < firstUser ∧ ∀ s' ∈ supersOf s, s' < s := by
    decide +kernel
  obtain ⟨b, hb, -, hs⟩ := mem_builtins_of_mem_supersOf h
  exact hall b hb s hs

/-- Only the class of `nil` and the class of objects have no supertypes. -/
theorem supersOf_ne_nil {id : ClassId} (h : (builtins.lookup id).isSome = true) : id = nil ∨ id = object ∨ supersOf id ≠ [] := by
  have hall : ∀ b ∈ builtins, b.1 = nil ∨ b.1 = object ∨ supersOf b.1 ≠ [] := by decide +kernel
  obtain ⟨b, hb⟩ := Option.isSome_iff_exists.1 h
  obtain ⟨l₁, l₂, hl, -⟩ := List.lookup_eq_some_iff.1 hb
  exact hall (id, b) (hl ▸ List.mem_append_right _ List.mem_cons_self)

theorem shallow_builtin (id : ClassId) : shallow 6 id = true := by
  have hall : ∀ b ∈ builtins, shallow 6 b.1 = true := by decide +kernel
  rw [shallow, List.all_eq_true]
  intro s hs
  obtain ⟨b, hb, rfl, -⟩ := mem_builtins_of_mem_supersOf hs
  exact List.all_eq_true.1 (hall b hb) s hs

end ClassId

namespace ClassTable

/-- The tables that programs can build: types are declared, and declared types get their methods. -/
inductive Built : ClassTable → Prop
  | initial : Built .initial
  | declare {t : ClassTable} (name : String) (fields : List Capture) (reified : Bool) :
    Built t → Built (t.insert ⟨t.nextId, name, [ClassId.object], [], some ⟨fields, reified, none⟩⟩)
  | attach {t : ClassTable} (id : ClassId) (unit : Nat) :
    Built t → Built (t.modify id fun c => { c with declared := c.declared.map fun d => { d with methods := some unit } })

/-- The first class stands below the second: the second is a proper superclass of it. -/
def Below (t : ClassTable) : ClassId → ClassId → Prop := Relation.TransGen fun c s => s ∈ t.supers c

/-- The built-in classes have the supertypes of the list, and declared types have one. -/
structure Layered (t : ClassTable) : Prop where
  builtin : ∀ id < ClassId.firstUser, (t.get? id).map (·.supers) = (ClassId.builtins.lookup id).map (·.2)
  declared : ∀ id, ClassId.firstUser ≤ id → ∀ c, t.get? id = some c → c.supers = [ClassId.object]

variable {t : ClassTable} {c s s' : ClassId}

/-! ## What programs build -/

/-- Later classes of the same number take the place of earlier ones; in the list no number stands twice. -/
theorem supers_foldl_insert (members : ClassId → List HostMember) : ∀ (bs : List (ClassId × String × List ClassId)) (t : ClassTable),
    (bs.map (·.1)).Nodup → ∀ id,
      ((bs.foldl (fun t (id, name, supers) => t.insert ⟨id, name, supers, members id, none⟩) t).get? id).map (·.supers) =
        ((bs.lookup id).map (·.2)).or ((t.get? id).map (·.supers))
  | [], _, _, _ => rfl
  | (i, name, supers) :: bs, t, h, id => by
    rw [List.map_cons, List.nodup_cons] at h
    rw [List.foldl_cons, supers_foldl_insert members bs _ h.2, get?_insert_eq, List.lookup_cons]
    by_cases hid : id = i
    · have hnone : bs.lookup id = none := by
        rw [List.lookup_eq_none_iff]
        intro b hb
        rw [bne_iff_ne]
        rintro rfl
        exact h.1 (List.mem_map.2 ⟨b, hb, hid⟩)
      rw [if_pos hid, hnone, beq_iff_eq.2 hid]
      rfl
    · rw [if_neg hid, beq_eq_false_iff_ne.2 hid]

theorem layered_initial : initial.Layered := by
  have hsupers : ∀ id, (initial.get? id).map (·.supers) = (ClassId.builtins.lookup id).map (·.2) := fun id => by
    refine (supers_foldl_insert Host.membersOf ClassId.builtins ⟨#[], []⟩ (by decide +kernel) id).trans ?_
    exact Option.or_none
  refine ⟨fun id _ => hsupers id, fun id hid c hc => ?_⟩
  have hall : ∀ b ∈ ClassId.builtins, b.1 < ClassId.firstUser := by decide
  have hlookup := hsupers id
  rw [hc] at hlookup
  obtain ⟨b, hb, -⟩ := Option.map_eq_some_iff.1 hlookup.symm
  obtain ⟨l₁, l₂, hl, -⟩ := List.lookup_eq_some_iff.1 hb
  exact absurd (hall (id, b) (hl ▸ List.mem_append_right _ List.mem_cons_self)) (Nat.not_lt.2 hid)

theorem Built.layered (h : t.Built) : t.Layered := by
  induction h with
  | initial => exact layered_initial
  | @declare t name fields reified _ ih =>
    have hnew : ClassId.firstUser ≤ t.nextId := Nat.le_max_right _ _
    refine ⟨fun id hid => ?_, fun id hid c hc => ?_⟩
    · rw [get?_insert_eq, if_neg (Nat.ne_of_lt (Nat.lt_of_lt_of_le hid hnew))]
      exact ih.builtin id hid
    · rw [get?_insert_eq] at hc
      split at hc
      · cases hc
        rfl
      · exact ih.declared id hid c hc
  | @attach t id unit _ ih =>
    refine ⟨fun id' hid => ?_, fun id' hid c hc => ?_⟩
    · rw [get?_modify_eq, ← ih.builtin id' hid]
      split
      · rw [Option.map_map]
        rfl
      · rfl
    · rw [get?_modify_eq] at hc
      split at hc
      · obtain ⟨c', hc', rfl⟩ := Option.map_eq_some_iff.1 hc
        exact ih.declared id' hid c' hc'
      · exact ih.declared id' hid c hc

/-! ## Superclasses -/

theorem Layered.supers_builtin (h : t.Layered) {id : ClassId} (hid : id < ClassId.firstUser) : t.supers id = ClassId.supersOf id := by
  rw [supers, h.builtin id hid, ClassId.supersOf]

/-- A superclass is the superclass of a built-in class by the list, or the class of objects. -/
theorem Layered.super_cases (h : t.Layered) (hs : s ∈ t.supers c) : (c < ClassId.firstUser ∧ s ∈ ClassId.supersOf c) ∨ s = ClassId.object := by
  by_cases hc : c < ClassId.firstUser
  · exact .inl ⟨hc, h.supers_builtin hc ▸ hs⟩
  · unfold supers at hs
    cases hk : t.get? c with
    | none =>
      rw [hk] at hs
      cases hs
    | some k =>
      rw [hk, Option.map_some, Option.getD_some, h.declared c (Nat.not_lt.1 hc) k hk] at hs
      exact .inr (List.mem_singleton.1 hs)

/-- Every superclass is in the table, and its own superclasses have smaller numbers. -/
theorem Layered.of_super (h : t.Layered) (hs : s ∈ t.supers c) :
    s ≠ ClassId.nil ∧ (t.get? s).isSome = true ∧ s < ClassId.firstUser ∧ ∀ s' ∈ t.supers s, s' < s := by
  have hbuiltin : s ≠ ClassId.nil ∧ (ClassId.builtins.lookup s).isSome = true ∧ s < ClassId.firstUser ∧
      ∀ s' ∈ ClassId.supersOf s, s' < s := by
    obtain ⟨-, hid⟩ | rfl := h.super_cases hs
    · exact ClassId.of_mem_supersOf hid
    · decide
  obtain ⟨hnil, hknown, hlt, hfalls⟩ := hbuiltin
  refine ⟨hnil, ?_, hlt, h.supers_builtin hlt ▸ hfalls⟩
  rw [← Option.isSome_map, h.builtin s hlt, Option.isSome_map, hknown]

theorem Below.super (h : t.Below c s) : ∃ c', s ∈ t.supers c' := by
  cases h with
  | single hs => exact ⟨c, hs⟩
  | tail _ hs => exact ⟨_, hs⟩

theorem Below.known (ht : t.Built) (h : t.Below c s) : (t.get? s).isSome = true :=
  let ⟨_, hs⟩ := h.super
  (ht.layered.of_super hs).2.1

/-- **Of two superclasses, the one that stands below the other has the larger number.** -/
theorem Below.lt (ht : t.Built) (h : t.Below c s) (h' : t.Below s s') : s' < s := by
  induction h' with
  | single hs' =>
    obtain ⟨c', hs⟩ := h.super
    exact (ht.layered.of_super hs).2.2.2 _ hs'
  | tail hm hs' ih =>
    obtain ⟨c', hm⟩ := Below.super hm
    exact Nat.lt_trans ((ht.layered.of_super hm).2.2.2 _ hs') ih

/-! ## The bounded search -/

theorem Layered.super_of_known (h : t.Layered) (hc : (t.get? c).isSome = true) (hnil : c ≠ ClassId.nil) (hobject : c ≠ ClassId.object) :
    ∃ s, s ∈ t.supers c := by
  obtain ⟨k, hk⟩ := Option.isSome_iff_exists.1 hc
  by_cases hlt : c < ClassId.firstUser
  · have hlookup : (ClassId.builtins.lookup c).isSome = true := by
      rw [← Option.isSome_map (f := (·.2)), ← h.builtin c hlt, Option.isSome_map, hc]
    obtain he | he | hne := ClassId.supersOf_ne_nil hlookup
    · exact absurd he hnil
    · exact absurd he hobject
    · rw [h.supers_builtin hlt]
      exact List.exists_mem_of_ne_nil _ hne
  · refine ⟨ClassId.object, ?_⟩
    rw [supers, hk, Option.map_some, Option.getD_some, h.declared c (Nat.not_lt.1 hlt) k hk]
    exact List.mem_singleton_self _

/-- Every class but that of `nil` inherits from the class of objects. -/
theorem Layered.below_object (h : t.Layered) : ∀ c, (t.get? c).isSome = true → c ≠ ClassId.nil → c = ClassId.object ∨ t.Below c ClassId.object := by
  -- superclasses have falling numbers, and only the class itself may be out of line
  have hsupers : ∀ s, (∃ c, s ∈ t.supers c) → s = ClassId.object ∨ t.Below s ClassId.object := by
    intro s
    induction s using Nat.strongRecOn with
    | ind s ih =>
      rintro ⟨c, hs⟩
      obtain ⟨hnil, hknown, -, hfalls⟩ := h.of_super hs
      by_cases hobject : s = ClassId.object
      · exact .inl hobject
      · obtain ⟨s', hs'⟩ := h.super_of_known hknown hnil hobject
        refine .inr ?_
        obtain rfl | hb := ih s' (hfalls s' hs') ⟨s, hs'⟩
        · exact .single hs'
        · exact .head hs' hb
  intro c hc hnil
  by_cases hobject : c = ClassId.object
  · exact .inl hobject
  · obtain ⟨s, hs⟩ := h.super_of_known hc hnil hobject
    refine .inr ?_
    obtain rfl | hb := hsupers s ⟨c, hs⟩
    · exact .single hs
    · exact .head hs hb

theorem Layered.of_isSubclassWithin (h : t.Layered) : ∀ (n : Nat) (c : ClassId), (t.get? c).isSome = true →
    t.isSubclassWithin n c s = true → c = s ∨ t.Below c s := by
  have hhere : ∀ c, (t.get? c).isSome = true → (c == s || (s == ClassId.object && c != ClassId.nil)) = true → c = s ∨ t.Below c s := by
    intro c hc hs
    rw [Bool.or_eq_true, Bool.and_eq_true, beq_iff_eq, beq_iff_eq, bne_iff_ne] at hs
    obtain rfl | ⟨rfl, hnil⟩ := hs
    · exact .inl rfl
    · exact h.below_object c hc hnil
  intro n
  induction n with
  | zero => exact fun c hc hs => hhere c hc hs
  | succ n ih =>
    intro c hc hs
    obtain hs | hs := Bool.or_eq_true_iff.1 hs
    · exact hhere c hc hs
    · obtain ⟨m, hm, hs⟩ := List.any_eq_true.1 hs
      obtain rfl | hb := ih m (h.of_super hm).2.1 hs
      · exact .inr (.single hm)
      · exact .inr (.head hm hb)

theorem isSubclassWithin_self (t : ClassTable) (n : Nat) (c : ClassId) : t.isSubclassWithin n c c = true := by
  cases n <;> simp [isSubclassWithin]

/-- One level more leads from a class to its superclasses. -/
theorem isSubclassWithin_succ {n : Nat} (hs : s ∈ t.supers c) (h : t.isSubclassWithin n s s' = true) :
    t.isSubclassWithin (n + 1) c s' = true := by
  rw [isSubclassWithin, Bool.or_eq_true, List.any_eq_true]
  exact .inr ⟨s, hs, h⟩

theorem Layered.isSubclassWithin_of_below (h : t.Layered) : ∀ (n m : Nat) (c : ClassId), c < ClassId.firstUser →
    ClassId.shallow n c = true → n ≤ m → t.Below c s → t.isSubclassWithin m c s = true := by
  intro n
  induction n with
  | zero =>
    intro m c hc hn _ hb
    obtain ⟨s', hs', -⟩ := Relation.TransGen.head'_iff.1 hb
    rw [h.supers_builtin hc, List.isEmpty_iff.1 hn] at hs'
    cases hs'
  | succ n ih =>
    intro m c hc hn hle hb
    obtain ⟨m, rfl⟩ := Nat.exists_eq_add_of_le' (Nat.le_trans (Nat.succ_le_succ (Nat.zero_le n)) hle)
    obtain ⟨s', hs', hrest⟩ := Relation.TransGen.head'_iff.1 hb
    refine isSubclassWithin_succ hs' ?_
    obtain rfl | hb := Relation.reflTransGen_iff_eq_or_transGen.1 hrest
    · exact isSubclassWithin_self t m _
    · refine ih m s' (h.of_super hs').2.2.1 (List.all_eq_true.1 hn s' ?_) (Nat.le_of_succ_le_succ hle) hb
      rw [← h.supers_builtin hc]
      exact hs'

/-- **The bounded search finds exactly the class itself and its superclasses.** -/
theorem isSubclass_iff (ht : t.Built) (hc : (t.get? c).isSome = true) : t.isSubclass c s = true ↔ c = s ∨ t.Below c s := by
  refine ⟨ht.layered.of_isSubclassWithin maxAncestry c hc, ?_⟩
  rintro (rfl | hb)
  · exact isSubclassWithin_self t _ c
  · -- only the class itself may be a declared one
    obtain ⟨s', hs', hrest⟩ := Relation.TransGen.head'_iff.1 hb
    refine isSubclassWithin_succ (n := 15) hs' ?_
    obtain rfl | hb := Relation.reflTransGen_iff_eq_or_transGen.1 hrest
    · exact isSubclassWithin_self t _ _
    · exact ht.layered.isSubclassWithin_of_below 6 15 s' (ht.layered.of_super hs').2.2.1 (ClassId.shallow_builtin s') (by decide) hb

end ClassTable

end LispMachine
