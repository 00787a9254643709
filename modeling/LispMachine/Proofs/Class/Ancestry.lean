import LispMachine.World.Basic
/-!
# Ancestry

Declared types stand below the built-in classes and above nothing: the supertypes of every class are
built in (`Grounded`).  So a new type changes no answer to the question whether one class inherits from
another, not even for its own number, which inherits from the class of objects before the declaration as
well as after it.
-/
namespace LispMachine

namespace ClassTable

variable {t t' : ClassTable} {id : ClassId}

/-! ## Lookups -/

theorem get?_insert_eq (t : ClassTable) (c : Class) (id : ClassId) :
    (t.insert c).get? id = if id = c.id then some c else t.get? id := by
  unfold get? insert reserve
  rw [Array.getElem?_modify, Array.getElem?_append, Array.getElem?_replicate]
  by_cases hid : id = c.id
  · subst hid
    rw [if_pos rfl, if_pos rfl]
    split
    · rename_i h
      rw [Array.getElem?_eq_getElem h]
      rfl
    · rw [if_pos (by omega)]
      rfl
  · rw [if_neg (Ne.symm hid), if_neg hid]
    split
    · rfl
    · rename_i h
      rw [Array.getElem?_eq_none (by omega)]
      split <;> rfl

theorem get?_modify_eq (t : ClassTable) (f : Class → Class) (id id' : ClassId) :
    (t.modify id f).get? id' = if id = id' then (t.get? id').map f else t.get? id' := by
  unfold get? modify
  rw [Array.getElem?_modify]
  split
  · cases t.byId[id']? with
    | none => rfl
    | some o => cases o <;> rfl
  · rfl

theorem get?_nextId (t : ClassTable) : t.get? t.nextId = none := by
  unfold get? nextId
  rw [Array.getElem?_eq_none (Nat.le_max_left _ _)]
  rfl

/-! ## Supertypes -/

/-- The supertypes of every class are built in, and the class of objects has none. -/
structure Grounded (t : ClassTable) : Prop where
  builtin : ∀ id, ∀ s ∈ t.supers id, s < ClassId.firstUser
  root : t.supers ClassId.object = []

theorem supers_insert (t : ClassTable) (c : Class) (id : ClassId) :
    (t.insert c).supers id = if id = c.id then c.supers else t.supers id := by
  unfold supers
  rw [get?_insert_eq]
  split <;> rfl

theorem supers_modify (t : ClassTable) {f : Class → Class} (hf : ∀ c, (f c).supers = c.supers) (id id' : ClassId) :
    (t.modify id f).supers id' = t.supers id' := by
  unfold supers
  rw [get?_modify_eq]
  split
  · cases t.get? id' with
    | none => rfl
    | some c => exact hf c
  · rfl

theorem Grounded.insert (ht : t.Grounded) {c : Class} (hc : ∀ s ∈ c.supers, s < ClassId.firstUser)
    (hr : c.id = ClassId.object → c.supers = []) : (t.insert c).Grounded := by
  refine ⟨fun id s hs => ?_, ?_⟩
  · rw [supers_insert] at hs
    split at hs
    · exact hc s hs
    · exact ht.builtin id s hs
  · rw [supers_insert]
    split
    · rename_i h
      exact hr h.symm
    · exact ht.root

theorem Grounded.congr (ht : t.Grounded) (h : ∀ id, t'.supers id = t.supers id) : t'.Grounded :=
  ⟨fun id s hs => ht.builtin id s (h id ▸ hs), (h _).trans ht.root⟩

theorem grounded_initial : initial.Grounded := by
  unfold initial
  have h₀ : Grounded ⟨#[], []⟩ := ⟨fun id s hs => by simp [supers, get?] at hs, rfl⟩
  have hb : ∀ b ∈ ClassId.builtins, (∀ s ∈ b.2.2, s < ClassId.firstUser) ∧ (b.1 = ClassId.object → b.2.2 = []) := by
    decide
  generalize (⟨#[], []⟩ : ClassTable) = t at h₀
  generalize ClassId.builtins = builtins at hb
  induction builtins generalizing t with
  | nil => exact h₀
  | cons b bs ih =>
    have hb₀ := hb b List.mem_cons_self
    refine ih _ (h₀.insert ?_ ?_) fun b' hb' => hb b' (List.mem_cons_of_mem _ hb')
    · exact hb₀.1
    · exact hb₀.2

/-! ## Inheritance -/

theorem isSubclassWithin_congr (h : ∀ id, t'.supers id = t.supers id) :
    ∀ (n : Nat) (id target : ClassId), t'.isSubclassWithin n id target = t.isSubclassWithin n id target
  | 0, _, _ => rfl
  | n + 1, id, target => by
    simp only [isSubclassWithin, h id, isSubclassWithin_congr h n]

theorem isSubclassWithin_object (ht : t.Grounded) (target : ClassId) (n : Nat) :
    t.isSubclassWithin n ClassId.object target = (ClassId.object == target) := by
  have hn : (ClassId.object != ClassId.nil) = true := rfl
  cases n <;> simp [isSubclassWithin, ht.root, hn, Bool.beq_comm (a := target)]

/-- The class under a new number: before it is there it has no supertypes. -/
theorem isSubclassWithin_insert (ht : t.Grounded) {c : Class} (hid : c.id = t.nextId) (hs : c.supers = [ClassId.object]) :
    ∀ (n : Nat) (id target : ClassId), (t.insert c).isSubclassWithin n id target = t.isSubclassWithin n id target
  | 0, _, _ => rfl
  | n + 1, id, target => by
    have hlt : ClassId.firstUser ≤ c.id := hid ▸ Nat.le_max_right _ _
    simp only [isSubclassWithin, supers_insert]
    split
    · rename_i h
      have hnew : t.supers id = [] := by
        rw [h, hid, supers, get?_nextId]
        rfl
      have hnil : (id != ClassId.nil) = true := by
        rw [h, bne_iff_ne]
        exact Nat.ne_of_gt (Nat.lt_of_lt_of_le (by decide) hlt)
      have hobj : (t.insert c).Grounded := ht.insert (by rw [hs]; decide) fun h => by rw [h] at hlt; exact absurd hlt (by decide)
      rw [hs, hnew, List.any_cons, List.any_nil, List.any_nil, isSubclassWithin_object hobj, hnil, Bool.and_true,
        Bool.or_false, Bool.or_false, Bool.beq_comm (a := target), Bool.or_assoc, Bool.or_self]
    · rw [funext fun s => isSubclassWithin_insert ht hid hs n s target]

end ClassTable

namespace Protocol

theorem find?_congr (p : Protocol) (method : String) {type : ClassId} {t t' : ClassTable}
    (h : ∀ target, t'.isSubclass type target = t.isSubclass type target) :
    p.find? method type t' = p.find? method type t := by
  unfold find? inherited?
  simp only [h]

end Protocol

end LispMachine
