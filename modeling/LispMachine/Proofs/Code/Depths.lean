import LispMachine.Code.Verify
/-!
# What the checker establishes

A method that the checker accepts has a depth for each instruction that control can reach
(`Method.Balanced`), and each of its instructions refers only to what exists (`Instr.InRange`).

The visit is a worklist.  Its invariant is that the successors of a settled instruction are settled or
still pending; it does not run out of visits before the list is empty, since every visit lowers
`visitsLeft`.
-/
namespace LispMachine

/-- The slot whose value the instruction changes. -/
def Instr.written? : Instr → Option Nat
  | .loadClear s | .store s | .clear s => some s
  | _ => none

/-- A piece of code: from the one place up to the other. -/
structure Piece where
  entry : Nat
  exit : Nat

def Piece.Has (p : Piece) (pc : Nat) : Prop := p.entry ≤ pc ∧ pc < p.exit

namespace Verify

/-! ## Checks in sequence -/

theorem ok_of_bind_ok {ε : Type} {x : Except ε Unit} {y : Unit → Except ε Unit} (h : (x >>= y) = .ok ()) :
    x = .ok () ∧ y () = .ok () := by
  cases x with
  | ok a => exact ⟨rfl, h⟩
  | error e => cases h

/-! ## Indices -/

theorem lt_of_checkReferences {name : String} {pc : Nat} : ∀ {refs : List (String × Nat × Nat)},
    checkReferences name pc refs = .ok () → ∀ r ∈ refs, r.2.1 < r.2.2
  | [], _, _, hr => by cases hr
  | (what, index, size) :: rest, h, r, hr => by
    rw [checkReferences] at h
    split at h
    · rename_i hlt
      cases hr with
      | head => exact hlt
      | tail _ hr => exact lt_of_checkReferences h r hr
    · cases h

theorem isSome_of_checkTargets {name : String} {m : Method} {pc : Nat} : ∀ {ls : List Label},
    checkTargets name m pc ls = .ok () → ∀ l ∈ ls, (m.labelPc? l).isSome
  | [], _, _, hl => by cases hl
  | l' :: ls, h, l, hl => by
    rw [checkTargets] at h
    split at h
    · rename_i hs
      cases hl with
      | head => exact hs
      | tail _ hl => exact isSome_of_checkTargets h l hl
    · cases h

end Verify

/-- Everything that the instruction names exists. -/
structure Instr.InRange (limits : Verify.Limits) (m : Method) (i : Instr) : Prop where
  slot : ∀ s, Verify.localOf? i = some s → s < m.maxLocals
  tables : ∀ r ∈ Verify.references limits i, r.2.1 < r.2.2
  captured : ∀ u n, i = .newFn u n → limits.children[u]? = some n
  jumps : ∀ l ∈ i.targets, (m.labelPc? l).isSome

namespace Verify

theorem inRange_of_checkInstr {name : String} {limits : Limits} {m : Method} {pc : Nat} {i : Instr}
    (h : checkInstr name limits m pc i = .ok ()) : i.InRange limits m := by
  obtain ⟨hl, h⟩ := ok_of_bind_ok h
  obtain ⟨hr, h⟩ := ok_of_bind_ok h
  obtain ⟨hc, ht⟩ := ok_of_bind_ok h
  refine ⟨fun s hs => ?_, lt_of_checkReferences hr, fun u n hi => ?_, isSome_of_checkTargets ht⟩
  · simp only [checkLocal, hs] at hl
    split at hl
    · assumption
    · cases hl
  · subst hi
    simp only [checkCaptured] at hc
    split at hc
    · rename_i he
      exact eq_of_beq he
    · cases hc

theorem inRange_of_checkCode {name : String} {limits : Limits} {m : Method} : ∀ {pc : Nat} {code : List Instr},
    checkCode name limits m pc code = .ok () → ∀ i ∈ code, i.InRange limits m
  | _, [], _, _, hi => by cases hi
  | pc, i' :: rest, h, i, hi => by
    obtain ⟨hc, h⟩ := ok_of_bind_ok h
    cases hi with
    | head => exact inRange_of_checkInstr hc
    | tail _ hi => exact inRange_of_checkCode h i hi

end Verify

/-! ## Depths -/

/-- The instruction finds what it pops, and what comes next has the depth that the effect says. -/
def Method.HandsOn (m : Method) (depths : Nat → Option Nat) (pc d : Nat) : Prop :=
  ∃ i, m.code[pc]? = some i ∧ i.effect.1 ≤ d ∧ ∀ p ∈ Verify.successors m pc d i, depths p.1 = some p.2

/-- The depths agree with the flow of control: the method starts with an empty stack, a handler with the
exception alone, and an instruction hands on what its effect says. -/
structure Method.Balanced (m : Method) (depths : Nat → Option Nat) : Prop where
  entry : depths 0 = some 0
  handler : ∀ h ∈ m.handlers, ∀ pc, m.labelPc? h.target = some pc → depths pc = some 1
  flow : ∀ pc d, depths pc = some d → m.HandsOn depths pc d

namespace Verify

/-- The depth of a settled instruction. -/
def settled (depths : Array (Option Nat)) (pc : Nat) : Option Nat := (depths[pc]?).join

/-- The visits that instructions not yet settled may still ask for. -/
def unsettledVisits : List Instr → List (Option Nat) → Nat
  | i :: is, none :: ds => i.targets.length + 2 + unsettledVisits is ds
  | _ :: is, some _ :: ds => unsettledVisits is ds
  | _, _ => 0

/-- A bound on the visits that are still to come. -/
def visitsLeft (m : Method) (depths : Array (Option Nat)) (work : List Pending) : Nat :=
  work.length + unsettledVisits m.code.toList depths.toList

theorem unsettledVisits_settle (d : Nat) : ∀ (code : List Instr) (depths : List (Option Nat)) (pc : Nat) (i : Instr),
    code[pc]? = some i → depths[pc]? = some none →
    unsettledVisits code (depths.modify pc fun _ => some d) + (i.targets.length + 2) = unsettledVisits code depths
  | i' :: is, d' :: ds, 0, i, hi, hd => by
    simp only [List.getElem?_cons_zero, Option.some.injEq] at hi hd
    subst hi hd
    simp only [List.modify_zero_cons, unsettledVisits]
    omega
  | i' :: is, d' :: ds, pc + 1, i, hi, hd => by
    simp only [List.getElem?_cons_succ] at hi hd
    have ih := unsettledVisits_settle d is ds pc i hi hd
    simp only [List.modify_succ_cons]
    cases d' <;> simp only [unsettledVisits] <;> omega
  | [], _, _, _, hi, _ => by simp at hi
  | _ :: _, [], _, _, _, hd => by simp at hd

theorem unsettledVisits_replicate : ∀ code : List Instr,
    unsettledVisits code (List.replicate code.length none) = code.foldr (fun i n => i.targets.length + 2 + n) 0
  | [] => rfl
  | i :: is => by
    simp only [List.length_cons, List.replicate_succ, unsettledVisits, List.foldr_cons]
    rw [unsettledVisits_replicate is]

theorem foldr_visits (k : Nat) : ∀ code : List Instr, code.foldr (fun i n => i.targets.length + 2 + n) k =
    code.foldr (fun i n => i.targets.length + 2 + n) 0 + k
  | [] => (Nat.zero_add k).symm
  | i :: is => by
    simp only [List.foldr_cons]
    rw [foldr_visits k is]
    omega

/-- The check starts with more visits than it can need. -/
theorem visitsLeft_start (m : Method) :
    visitsLeft m (Array.replicate m.code.size none) (entries m) < visitBound m := by
  rw [visitBound, foldr_visits, visitsLeft, Array.toList_replicate, ← Array.length_toList, unsettledVisits_replicate]
  omega

theorem length_successors_le (m : Method) (pc d : Nat) (i : Instr) :
    (successors m pc d i).length ≤ i.targets.length + 1 := by
  have h := List.length_filterMap_le m.labelPc? i.targets
  simp only [successors, List.length_reverse]
  split
  · simp only [List.length_map]
    omega
  · simp only [List.length_append, List.length_map, List.length_singleton]
    omega

theorem settled_modify (depths : Array (Option Nat)) (pc d pc' : Nat) (h : depths[pc]? = some none) :
    settled (depths.modify pc fun _ => some d) pc' = if pc = pc' then some d else settled depths pc' := by
  simp only [settled, Array.getElem?_modify]
  split
  · rename_i he
    rw [← he, h]
    rfl
  · rfl

/-- What a visit that ends well has settled: all that was pending, and nothing that breaks the flow. -/
theorem visit_ok {name : String} {m : Method} : ∀ (fuel : Nat) (depths : Array (Option Nat)) (work : List Pending),
    depths.size = m.code.size → visitsLeft m depths work < fuel → visit name m fuel depths work = .ok () →
    ∃ final : Nat → Option Nat, (∀ pc d, settled depths pc = some d → final pc = some d) ∧
      (∀ p ∈ work, final p.1 = some p.2) ∧
      ∀ pc d, final pc = some d → settled depths pc = none → m.HandsOn final pc d
  | 0, _, _, _, hl, _ => by omega
  | fuel + 1, depths, [], _, _, _ => by
    refine ⟨settled depths, fun _ _ h => h, (fun _ h => by cases h), fun pc d h hn => ?_⟩
    rw [hn] at h
    cases h
  | fuel + 1, depths, (pc, d) :: work, hsize, hl, h => by
    rw [visit] at h
    split at h
    · rename_i known hk
      split at h
      · rename_i hd
        have hd := eq_of_beq hd
        subst hd
        have hl' : visitsLeft m depths work < fuel := by
          simp only [visitsLeft, List.length_cons] at hl ⊢
          omega
        obtain ⟨final, hext, hwork, hflow⟩ := visit_ok fuel depths work hsize hl' h
        refine ⟨final, hext, fun p hp => ?_, hflow⟩
        cases hp with
        | head => exact hext _ _ hk
        | tail _ hp => exact hwork p hp
      · cases h
    · rename_i hn
      split at h
      · cases h
      · rename_i i hi
        split at h
        · cases h
        · rename_i hpops
          have hlt : pc < depths.size := by
            rw [hsize]
            exact (Array.getElem?_eq_some_iff.1 hi).1
          have hnone : depths[pc]? = some none := by
            rw [Array.getElem?_eq_getElem hlt] at hn ⊢
            simp only [Option.join_some] at hn
            rw [hn]
          have hleft := unsettledVisits_settle d m.code.toList depths.toList pc i
            (by rw [Array.getElem?_toList]; exact hi) (by rw [Array.getElem?_toList]; exact hnone)
          have hl' : visitsLeft m (depths.modify pc fun _ => some d) (successors m pc d i ++ work) < fuel := by
            have hs := length_successors_le m pc d i
            simp only [visitsLeft, List.length_cons, List.length_append, Array.toList_modify] at hl ⊢
            omega
          obtain ⟨final, hext, hwork, hflow⟩ := visit_ok fuel _ _ (by simpa using hsize) hl' h
          have hpc : final pc = some d := hext pc d (by rw [settled_modify _ _ _ _ hnone, if_pos rfl])
          refine ⟨final, fun pc' d' hd' => ?_, fun p hp => ?_, fun pc' d' hd' hn' => ?_⟩
          · refine hext pc' d' ?_
            rw [settled_modify _ _ _ _ hnone]
            split
            · rename_i he
              rw [← he] at hd'
              rw [show settled depths pc = none from hn] at hd'
              cases hd'
            · exact hd'
          · cases hp with
            | head => exact hpc
            | tail _ hp => exact hwork p (List.mem_append_right _ hp)
          · by_cases he : pc = pc'
            · subst he
              rw [hpc, Option.some.injEq] at hd'
              subst hd'
              exact ⟨i, hi, by omega, fun p hp => hwork p (List.mem_append_left _ hp)⟩
            · refine hflow pc' d' hd' ?_
              rw [settled_modify _ _ _ _ hnone, if_neg he]
              exact hn'

theorem balanced_of_checkStack {name : String} {m : Method} (h : checkStack name m = .ok ()) :
    ∃ depths, m.Balanced depths := by
  obtain ⟨final, _, hwork, hflow⟩ := visit_ok _ _ _ (by simp) (visitsLeft_start m) h
  refine ⟨final, ⟨hwork (0, 0) (by simp [entries]), fun h hh pc hpc => ?_, fun pc d hd => hflow pc d hd ?_⟩⟩
  · refine hwork (pc, 1) ?_
    simp only [entries, List.mem_reverse, List.mem_cons, List.mem_map, List.mem_filterMap]
    exact .inr ⟨pc, ⟨h, hh, hpc⟩, rfl⟩
  · simp only [settled, Array.getElem?_replicate]
    split <;> rfl

end Verify

/-- What the checker knows about a method that it accepts. -/
structure Method.Verified (limits : Verify.Limits) (m : Method) : Prop where
  inRange : ∀ i ∈ m.code.toList, i.InRange limits m
  balanced : ∃ depths, m.Balanced depths

namespace Verify

theorem verified_of_checkMethod {unitName : String} {limits : Limits} {m : Method}
    (h : checkMethod unitName limits m = .ok ()) : m.Verified limits := by
  obtain ⟨_, h⟩ := ok_of_bind_ok h
  obtain ⟨_, h⟩ := ok_of_bind_ok h
  obtain ⟨hc, hs⟩ := ok_of_bind_ok h
  exact ⟨inRange_of_checkCode hc, balanced_of_checkStack hs⟩

theorem verified_of_checkMethods {unitName : String} {limits : Limits} : ∀ {ms : List Method},
    checkMethods unitName limits ms = .ok () → ∀ m ∈ ms, m.Verified limits
  | [], _, _, hm => by cases hm
  | m' :: ms, h, m, hm => by
    obtain ⟨hc, h⟩ := ok_of_bind_ok h
    cases hm with
    | head => exact verified_of_checkMethod hc
    | tail _ hm => exact verified_of_checkMethods h m hm

end Verify

/-! ## Nested units -/

namespace CompiledUnit

/-- A unit, or one that is nested in it at any depth. -/
inductive Within : CompiledUnit → CompiledUnit → Prop
  | self (u : CompiledUnit) : Within u u
  | child {v c u : CompiledUnit} : c ∈ u.children → Within v c → Within v u

theorem verify_of_verifyAll : ∀ {us : List CompiledUnit}, verifyAll us = .ok () → ∀ u ∈ us, u.verify = .ok ()
  | [], _, _, hu => by cases hu
  | u' :: us, h, u, hu => by
    rw [verifyAll] at h
    obtain ⟨hv, h⟩ := Verify.ok_of_bind_ok h
    cases hu with
    | head => exact hv
    | tail _ hu => exact verify_of_verifyAll h u hu

theorem verify_eq (u : CompiledUnit) :
    u.verify = (do Verify.checkMethods u.name u.limits u.methods; verifyAll u.children) := by
  cases u
  rw [verify]

/-- Every method of an accepted unit, and of the units nested in it, is one that the checker knows. -/
theorem Within.verified {u v : CompiledUnit} (hv : Within v u) (h : u.verify = .ok ()) :
    ∀ m ∈ v.methods, m.Verified v.limits := by
  induction hv with
  | self =>
    rw [verify_eq] at h
    exact Verify.verified_of_checkMethods (Verify.ok_of_bind_ok h).1
  | child hc _ ih =>
    rw [verify_eq] at h
    exact ih (verify_of_verifyAll (Verify.ok_of_bind_ok h).2 _ hc)

end CompiledUnit

end LispMachine
