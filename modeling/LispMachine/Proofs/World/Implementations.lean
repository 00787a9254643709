import LispMachine.Proofs.Class.Hierarchy
import LispMachine.Proofs.World.Linked
import Mathlib.Data.List.Induction
import Mathlib.Data.List.Pairwise
/-!
# Which implementation a class gets

A protocol remembers what was last registered for a method on a class (`implOn?_registerAll`).  A class without an
implementation of its own inherits that of the superclass with the largest number, among those that have one
(`inherited?_eq_some_iff`).  Numbers fall along the superclasses of a class, so no other superclass with an implementation
stands below that one: the implementation is as special as can be, and when it was registered does not matter
(`find?_latest`).
-/
namespace LispMachine

/-! ## Registrations -/

/-- An implementation as it is given to a protocol. -/
structure Registration where
  method : String
  type : ClassId
  dispatcher : Nat

/-- The dispatcher of the last registration for the method on the class. -/
def Registration.latest? (rs : List Registration) (method : String) (type : ClassId) : Option Nat :=
  (rs.filter fun r => r.method == method && r.type == type).getLast?.map (·.dispatcher)

theorem Registration.latest?_concat (rs : List Registration) (r : Registration) (method : String) (type : ClassId) :
    latest? (rs ++ [r]) method type = if r.method = method ∧ r.type = type then some r.dispatcher else latest? rs method type := by
  unfold latest?
  rw [List.filter_append]
  by_cases h : r.method = method ∧ r.type = type
  · rw [if_pos h, List.filter_cons_of_pos (by simpa using h), List.getLast?_append]
    rfl
  · rw [if_neg h, List.filter_cons_of_neg (by simpa using h), List.filter_nil, List.append_nil]

namespace Protocol

variable {p p' : Protocol} {method : String} {type : ClassId} {t : ClassTable} {d : Nat}

/-- Registers implementations one after the other. -/
def registerAll (p : Protocol) (rs : List Registration) : Protocol :=
  rs.foldl (fun p r => p.register r.method r.type r.dispatcher) p

theorem registerAll_concat (p : Protocol) (rs : List Registration) (r : Registration) :
    p.registerAll (rs ++ [r]) = (p.registerAll rs).register r.method r.type r.dispatcher := List.foldl_concat ..

theorem implOn?_register (p : Protocol) (method : String) (type : ClassId) (d : Nat) (method' : String) (type' : ClassId) :
    (p.register method type d).implOn? method' type' = if method = method' ∧ type = type' then some d else p.implOn? method' type' := by
  unfold implOn? register
  by_cases h : method = method' ∧ type = type'
  · rw [if_pos h, List.find?_cons_of_pos (by simpa using h)]
    rfl
  · rw [if_neg h, List.find?_cons_of_neg (by simpa using h), List.find?_filter]
    congr 2
    funext ⟨m, s, d⟩
    by_cases hi : m = method' ∧ s = type'
    · have hne : (m == method && s == type) = false := Bool.eq_false_iff.2 fun hk => by
        rw [Bool.and_eq_true, beq_iff_eq, beq_iff_eq] at hk
        exact h ⟨hk.1.symm.trans hi.1, hk.2.symm.trans hi.2⟩
      obtain ⟨rfl, rfl⟩ := hi
      simp [hne]
    · have hother : (m == method' && s == type') = false := by simpa using hi
      simp [hother]

/-- A method has at most one implementation on a class. -/
def Single (p : Protocol) : Prop := p.impls.Pairwise fun i j => ¬ (i.1 = j.1 ∧ i.2.1 = j.2.1)

theorem Single.register (h : p.Single) (method : String) (type : ClassId) (d : Nat) : (p.register method type d).Single := by
  refine List.pairwise_cons.2 ⟨fun i hi => ?_, h.filter _⟩
  obtain ⟨m, s, d'⟩ := i
  have hne := (List.mem_filter.1 hi).2
  rintro ⟨rfl, rfl⟩
  simp at hne

theorem Single.registerAll (h : p.Single) (rs : List Registration) : (p.registerAll rs).Single := by
  induction rs using List.reverseRecOn with
  | nil => exact h
  | append_singleton rs r ih =>
    rw [registerAll_concat]
    exact ih.register r.method r.type r.dispatcher

/-- What counts is what was last registered. -/
theorem implOn?_registerAll (p : Protocol) (rs : List Registration) (method : String) (type : ClassId) :
    (p.registerAll rs).implOn? method type = (Registration.latest? rs method type).or (p.implOn? method type) := by
  induction rs using List.reverseRecOn with
  | nil => rfl
  | append_singleton rs r ih =>
    rw [registerAll_concat, implOn?_register, Registration.latest?_concat, ih]
    split <;> rfl

theorem Single.mem_impls_iff (h : p.Single) : (method, type, d) ∈ p.impls ↔ p.implOn? method type = some d := by
  unfold implOn?
  refine ⟨fun hmem => ?_, fun hfind => ?_⟩
  · cases hf : p.impls.find? fun i => i.1 == method && i.2.1 == type with
    | none => simpa using List.find?_eq_none.1 hf _ hmem
    | some i =>
      have hi := List.find?_some hf
      rw [Bool.and_eq_true, beq_iff_eq, beq_iff_eq] at hi
      by_contra hne
      have : Std.Symm fun i j : String × ClassId × Nat => ¬ (i.1 = j.1 ∧ i.2.1 = j.2.1) := ⟨fun _ _ h h' => h ⟨h'.1.symm, h'.2.symm⟩⟩
      exact h.forall (List.mem_of_find?_eq_some hf) hmem (fun heq => hne (heq ▸ rfl)) hi
  · obtain ⟨⟨m, s, d'⟩, hi, rfl⟩ := Option.map_eq_some_iff.1 hfind
    have hkey := List.find?_some hi
    rw [Bool.and_eq_true, beq_iff_eq, beq_iff_eq] at hkey
    obtain ⟨rfl, rfl⟩ := hkey
    exact List.mem_of_find?_eq_some hi

/-! ## Inheritance -/

/-- Keeps the implementation for the class with the larger number. -/
def higher (best : Option (ClassId × Nat)) (impl : String × ClassId × Nat) : Option (ClassId × Nat) :=
  match best with
  | some (t, d) => if impl.2.1 > t then some impl.2 else some (t, d)
  | none => some impl.2

theorem higher_eq (best : Option (ClassId × Nat)) (impl : String × ClassId × Nat) :
    ∃ b, higher best impl = some b ∧ (best = some b ∨ impl.2 = b) ∧ impl.2.1 ≤ b.1 ∧ ∀ b', best = some b' → b'.1 ≤ b.1 := by
  cases best with
  | none => exact ⟨impl.2, rfl, .inr rfl, Nat.le_refl _, fun _ h => by cases h⟩
  | some b =>
    by_cases hlt : impl.2.1 > b.1
    · exact ⟨impl.2, if_pos hlt, .inr rfl, Nat.le_refl _, fun _ h => by cases h; exact Nat.le_of_lt hlt⟩
    · exact ⟨b, if_neg hlt, .inl rfl, Nat.not_lt.1 hlt, fun _ h => by cases h; exact Nat.le_refl _⟩

/-- The fold ends with one of the implementations, and none is for a class with a larger number. -/
theorem foldl_higher : ∀ (impls : List (String × ClassId × Nat)) (b : ClassId × Nat),
    ∃ b', impls.foldl higher (some b) = some b' ∧ (b' = b ∨ ∃ impl ∈ impls, impl.2 = b') ∧ b.1 ≤ b'.1 ∧ ∀ impl ∈ impls, impl.2.1 ≤ b'.1
  | [], b => ⟨b, rfl, .inl rfl, Nat.le_refl _, fun _ h => by cases h⟩
  | impl :: impls, b => by
    obtain ⟨b₁, h₁, hfrom₁, hle₁, hold₁⟩ := higher_eq (some b) impl
    obtain ⟨b₂, h₂, hfrom₂, hle₂, hall₂⟩ := foldl_higher impls b₁
    refine ⟨b₂, ?_, ?_, Nat.le_trans (hold₁ b rfl) hle₂, ?_⟩
    · rw [List.foldl_cons, h₁, h₂]
    · obtain rfl | ⟨i, hi, hb⟩ := hfrom₂
      · exact hfrom₁.imp (fun h => (Option.some.inj h).symm) fun h => ⟨impl, List.mem_cons_self, h⟩
      · exact .inr ⟨i, List.mem_cons_of_mem _ hi, hb⟩
    · rintro i hi
      obtain rfl | hi := List.mem_cons.1 hi
      · exact Nat.le_trans hle₁ hle₂
      · exact hall₂ i hi

theorem inherited?_eq (p : Protocol) (method : String) (type : ClassId) (t : ClassTable) :
    p.inherited? method type t = ((p.impls.filter fun i => i.1 == method && t.isSubclass type i.2.1).foldl higher none).map (·.2) := rfl

/-- Some implementation is inherited if there is any for a superclass: one for the class with the largest number. -/
theorem inherited?_cases (p : Protocol) (method : String) (type : ClassId) (t : ClassTable) :
    p.inherited? method type t = none ∧ (∀ i ∈ p.impls, i.1 = method → t.isSubclass type i.2.1 = false) ∨
    ∃ s d, p.inherited? method type t = some d ∧ (method, s, d) ∈ p.impls ∧ t.isSubclass type s = true ∧
      ∀ i ∈ p.impls, i.1 = method → t.isSubclass type i.2.1 = true → i.2.1 ≤ s := by
  rw [inherited?_eq]
  generalize hl : p.impls.filter (fun i => i.1 == method && t.isSubclass type i.2.1) = l
  have hmem : ∀ i, i ∈ l ↔ i ∈ p.impls ∧ i.1 = method ∧ t.isSubclass type i.2.1 = true := fun i => by
    rw [← hl, List.mem_filter, Bool.and_eq_true, beq_iff_eq]
  cases l with
  | nil =>
    refine .inl ⟨rfl, fun i hi hm => Bool.eq_false_iff.2 fun hs => ?_⟩
    cases (hmem i).2 ⟨hi, hm, hs⟩
  | cons i is =>
    obtain ⟨b, hb, hfrom, hle, hall⟩ := foldl_higher is i.2
    have hin : ∃ j ∈ i :: is, j.2 = b :=
      hfrom.elim (fun h => ⟨i, List.mem_cons_self, h.symm⟩) fun ⟨j, hj, h⟩ => ⟨j, List.mem_cons_of_mem _ hj, h⟩
    obtain ⟨⟨m, s, d⟩, hj, rfl⟩ := hin
    obtain ⟨hj, rfl, hs⟩ := (hmem _).1 hj
    refine .inr ⟨s, d, congrArg (Option.map (·.2)) hb, hj, hs, fun k hk hm hsub => ?_⟩
    obtain rfl | hk := List.mem_cons.1 ((hmem k).2 ⟨hk, hm, hsub⟩)
    · exact hle
    · exact hall k hk

theorem Single.inherited?_eq_some_iff (h : p.Single) : p.inherited? method type t = some d ↔
    ∃ s, t.isSubclass type s = true ∧ p.implOn? method s = some d ∧
      ∀ s' d', t.isSubclass type s' = true → p.implOn? method s' = some d' → s' ≤ s := by
  obtain ⟨hnone, hempty⟩ | ⟨s, d₀, hsome, hmem, hsub, hmax⟩ := inherited?_cases p method type t
  · rw [hnone]
    refine ⟨fun h => (by cases h), fun ⟨s, hs, hd, _⟩ => ?_⟩
    rw [hempty _ (h.mem_impls_iff.2 hd) rfl] at hs
    cases hs
  · rw [hsome]
    refine ⟨fun hd => ?_, fun ⟨s', hs', hd, hmax'⟩ => ?_⟩
    · cases hd
      exact ⟨s, hsub, h.mem_impls_iff.1 hmem, fun s' d' hs' hd' => hmax _ (h.mem_impls_iff.2 hd') rfl hs'⟩
    · have hd₀ := h.mem_impls_iff.1 hmem
      obtain rfl := Nat.le_antisymm (hmax _ (h.mem_impls_iff.2 hd) rfl hs') (hmax' s d₀ hsub hd₀)
      exact hd₀.symm.trans hd

/-- Only the implementations for the class and its superclasses matter. -/
theorem Single.find?_congr (h : p.Single) (h' : p'.Single)
    (himpl : ∀ s, t.isSubclass type s = true → p'.implOn? method s = p.implOn? method s) :
    p'.find? method type t = p.find? method type t := by
  have hinherited : p'.inherited? method type t = p.inherited? method type t := by
    ext d
    rw [h'.inherited?_eq_some_iff, h.inherited?_eq_some_iff]
    refine exists_congr fun s => and_congr_right fun hs => ?_
    rw [himpl s hs]
    refine and_congr_right fun _ => forall₂_congr fun s' d' => forall_congr' fun hs' => ?_
    rw [himpl s' hs']
  rw [find?, find?, hinherited, himpl type (ClassTable.isSubclassWithin_self t _ type)]

/-- For every class of a table that programs can build, and whatever was registered: the class gets its own implementation if
it has one, and otherwise that of a superclass such that no superclass in between has one.  It gets none only if neither it
nor any superclass has one.  Of all registrations only the last one for the class itself and for each superclass counts. -/
theorem find?_latest (name : Symbol) (methods : List String) (rs : List Registration) (method : String) {t : ClassTable} (ht : t.Built)
    {c : ClassId} (hc : (t.get? c).isSome = true) :
    (∀ d, Registration.latest? rs method c = some d → (registerAll { name, methods } rs).find? method c t = some d) ∧
    (∀ d, Registration.latest? rs method c = none → (registerAll { name, methods } rs).find? method c t = some d →
      ∃ s, t.Below c s ∧ Registration.latest? rs method s = some d ∧
        ∀ s', t.Below c s' → t.Below s' s → Registration.latest? rs method s' = none) ∧
    ((registerAll { name, methods } rs).find? method c t = none ↔
      Registration.latest? rs method c = none ∧ ∀ s, t.Below c s → Registration.latest? rs method s = none) ∧
    ∀ rs', (∀ s, c = s ∨ t.Below c s → Registration.latest? rs' method s = Registration.latest? rs method s) →
      (registerAll { name, methods } rs').find? method c t = (registerAll { name, methods } rs).find? method c t := by
  have himpl : ∀ rs s, (registerAll { name, methods } rs).implOn? method s = Registration.latest? rs method s := fun rs s => by
    rw [implOn?_registerAll]
    exact Option.or_none
  have hsingle : ∀ rs, (registerAll { name, methods } rs).Single := fun rs => Single.registerAll (p := { name, methods }) List.Pairwise.nil rs
  have hsub := fun s => ClassTable.isSubclass_iff (s := s) ht hc
  refine ⟨fun d hd => ?_, fun d hnone hd => ?_, ?_, fun rs' hrs' => ?_⟩
  · rw [find?, himpl, hd]
    rfl
  · rw [find?, himpl, hnone, Option.none_or, (hsingle rs).inherited?_eq_some_iff] at hd
    obtain ⟨s, hs, hd, hmax⟩ := hd
    rw [himpl] at hd
    obtain rfl | hbelow := (hsub s).1 hs
    · rw [hnone] at hd
      cases hd
    · refine ⟨s, hbelow, hd, fun s' hs' hless => Option.eq_none_iff_forall_ne_some.2 fun d' hd' => ?_⟩
      -- a registered class in between would have a larger number
      have hle := hmax s' d' ((hsub s').2 (.inr hs')) ((himpl rs s').trans hd')
      exact Nat.not_lt.2 hle (hs'.lt ht hless)
  · rw [find?, Option.or_eq_none_iff, himpl]
    refine and_congr_right fun hown => ⟨fun hnone s hs => ?_, fun hall => ?_⟩
    · obtain ⟨-, hempty⟩ | ⟨s', d, hsome, -⟩ := inherited?_cases (registerAll { name, methods } rs) method c t
      · refine Option.eq_none_iff_forall_ne_some.2 fun d hd => ?_
        have hnot := hempty _ ((hsingle rs).mem_impls_iff.2 ((himpl rs s).trans hd)) rfl
        rw [(hsub s).2 (.inr hs)] at hnot
        cases hnot
      · rw [hnone] at hsome
        cases hsome
    · refine Option.eq_none_iff_forall_ne_some.2 fun d hd => ?_
      obtain ⟨s, hs, hd, -⟩ := (hsingle rs).inherited?_eq_some_iff.1 hd
      rw [himpl] at hd
      obtain rfl | hbelow := (hsub s).1 hs
      · rw [hown] at hd
        cases hd
      · rw [hall s hbelow] at hd
        cases hd
  · refine (hsingle rs).find?_congr (hsingle rs') fun s hs => ?_
    rw [himpl, himpl]
    exact hrs' s ((hsub s).1 hs)

/-- The built-in classes and a declared type. -/
def pointTable : ClassTable := ClassTable.initial.insert ⟨ClassTable.initial.nextId, "Point", [ClassId.object], [], some ⟨[], false, none⟩⟩

/-- Vectors have no implementation of their own, but three of their superclasses have one. -/
def areaRegistrations : List Registration := [⟨"area", ClassId.object, 5⟩, ⟨"area", ClassId.sequential, 6⟩, ⟨"name", ClassId.vector, 4⟩,
  ⟨"area", ClassId.callable, 7⟩, ⟨"area", ClassId.object, 8⟩]

theorem find?_latest_vector :
    pointTable.Built ∧ (pointTable.get? ClassId.vector).isSome = true ∧
    (registerAll { name := Symbol.plain "Shape", methods := ["area"] } areaRegistrations).find? "area" ClassId.vector pointTable = some 6 ∧
    ∃ s, pointTable.Below ClassId.vector s ∧ Registration.latest? areaRegistrations "area" s = some 6 ∧
      ∀ s', pointTable.Below ClassId.vector s' → pointTable.Below s' s → Registration.latest? areaRegistrations "area" s' = none := by
  have hbuilt : pointTable.Built := ClassTable.Built.initial.declare "Point" [] false
  have hknown : (pointTable.get? ClassId.vector).isSome = true := by decide +kernel
  have hfind : (registerAll { name := Symbol.plain "Shape", methods := ["area"] } areaRegistrations).find? "area" ClassId.vector pointTable =
    some 6 := by decide +kernel
  exact ⟨hbuilt, hknown, hfind, (find?_latest (Symbol.plain "Shape") ["area"] areaRegistrations "area" hbuilt hknown).2.1 6
    (by decide +kernel) hfind⟩

end Protocol

end LispMachine
