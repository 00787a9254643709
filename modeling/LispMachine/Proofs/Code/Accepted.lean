import LispMachine.Proofs.Code.Depths
/-!
# What the checker accepts

The converse of what the checker establishes: a method whose labels and handlers are in order, whose
instructions refer to what exists and whose depths agree with the flow of control is accepted
(`Method.Sound`), and so is a unit made of such methods and of accepted units.
-/
namespace LispMachine

namespace Verify

theorem bind_ok_unit {ε : Type} {x : Except ε Unit} {y : Unit → Except ε Unit} (hx : x = .ok ()) (hy : y () = .ok ()) :
    (x >>= y) = .ok () := by
  rw [hx]
  exact hy

/-! ## Labels and indices -/

theorem checkLabels_eq_ok {name : String} {size : Nat} : ∀ {l : Label} {ls : List (Option Nat)},
    (∀ o ∈ ls, ∃ pc, o = some pc ∧ pc ≤ size) → checkLabels name size l ls = .ok ()
  | _, [], _ => rfl
  | l, o :: ls, h => by
    obtain ⟨pc, rfl, hpc⟩ := h o List.mem_cons_self
    rw [checkLabels, if_neg (Nat.not_lt.2 hpc)]
    exact checkLabels_eq_ok fun o ho => h o (List.mem_cons_of_mem _ ho)

theorem checkReferences_eq_ok {name : String} {pc : Nat} : ∀ {refs : List (String × Nat × Nat)},
    (∀ r ∈ refs, r.2.1 < r.2.2) → checkReferences name pc refs = .ok ()
  | [], _ => rfl
  | r :: refs, h => by
    rw [checkReferences, if_pos (h r List.mem_cons_self)]
    exact checkReferences_eq_ok fun r hr => h r (List.mem_cons_of_mem _ hr)

theorem checkTargets_eq_ok {name : String} {m : Method} {pc : Nat} : ∀ {ls : List Label},
    (∀ l ∈ ls, (m.labelPc? l).isSome) → checkTargets name m pc ls = .ok ()
  | [], _ => rfl
  | l :: ls, h => by
    rw [checkTargets, if_pos (h l List.mem_cons_self)]
    exact checkTargets_eq_ok fun l hl => h l (List.mem_cons_of_mem _ hl)

theorem checkInstr_of_inRange {name : String} {limits : Limits} {m : Method} {pc : Nat} {i : Instr}
    (h : i.InRange limits m) : checkInstr name limits m pc i = .ok () := by
  refine bind_ok_unit ?_ (bind_ok_unit (checkReferences_eq_ok h.tables) (bind_ok_unit ?_ (checkTargets_eq_ok h.jumps)))
  · unfold checkLocal
    split
    · rename_i s hs
      rw [if_pos (h.slot s hs)]
    · rfl
  · unfold checkCaptured
    split
    · rename_i u n
      rw [h.captured u n rfl, if_pos (beq_self_eq_true _)]
    · rfl

theorem checkCode_of_inRange {name : String} {limits : Limits} {m : Method} : ∀ {pc : Nat} {code : List Instr},
    (∀ i ∈ code, i.InRange limits m) → checkCode name limits m pc code = .ok ()
  | _, [], _ => rfl
  | _, i :: _, h => bind_ok_unit (checkInstr_of_inRange (h i List.mem_cons_self))
    (checkCode_of_inRange fun i hi => h i (List.mem_cons_of_mem _ hi))

/-! ## Depths -/

/-- A visit that starts from right depths finds nothing wrong. -/
theorem visit_of_balanced {name : String} {m : Method} {depths : Nat → Option Nat} (hb : m.Balanced depths) :
    ∀ (fuel : Nat) (known : Array (Option Nat)) (work : List Pending),
    (∀ pc d, settled known pc = some d → depths pc = some d) → (∀ p ∈ work, depths p.1 = some p.2) →
    visit name m fuel known work = .ok ()
  | 0, _, _, _, _ => rfl
  | _ + 1, _, [], _, _ => rfl
  | fuel + 1, known, (pc, d) :: work, hk, hw => by
    have hd : depths pc = some d := hw (pc, d) List.mem_cons_self
    have hrest : ∀ p ∈ work, depths p.1 = some p.2 := fun p hp => hw p (List.mem_cons_of_mem _ hp)
    rw [visit]
    split
    · rename_i d' hd'
      have he : d' = d := Option.some.inj ((hk pc d' hd').symm.trans hd)
      rw [he, if_pos (beq_self_eq_true d)]
      exact visit_of_balanced hb fuel known work hk hrest
    · obtain ⟨i, hi, hpops, hnext⟩ := hb.flow pc d hd
      rw [hi]
      dsimp only
      rw [if_neg (Nat.not_lt.2 hpops)]
      refine visit_of_balanced hb fuel _ _ (fun pc' d' h => ?_) fun p hp => ?_
      · simp only [settled, Array.getElem?_modify] at h
        split at h
        · rename_i he
          cases hp : known[pc']? with
          | none =>
            rw [hp] at h
            cases h
          | some o =>
            rw [hp] at h
            cases h
            rw [← he, hd]
        · exact hk pc' d' h
      · rcases List.mem_append.1 hp with hp | hp
        · exact hnext p hp
        · exact hrest p hp

theorem checkStack_of_balanced {name : String} {m : Method} {depths : Nat → Option Nat} (hb : m.Balanced depths) :
    checkStack name m = .ok () := by
  refine visit_of_balanced hb _ _ _ (fun pc d h => ?_) fun p hp => ?_
  · simp only [settled, Array.getElem?_replicate] at h
    split at h <;> cases h
  · simp only [entries, List.mem_reverse, List.mem_cons, List.mem_map, List.mem_filterMap] at hp
    obtain rfl | ⟨pc, ⟨h, hh, hpc⟩, rfl⟩ := hp
    · exact hb.entry
    · exact hb.handler h hh pc hpc

end Verify

/-! ## Methods and units -/

/-- All that the checker asks of a method. -/
structure Method.Sound (limits : Verify.Limits) (m : Method) : Prop where
  labels : ∀ o ∈ m.labels.toList, ∃ pc, o = some pc ∧ pc ≤ m.code.size
  handlers : ∀ h ∈ m.handlers, Verify.handlerOk m h = true
  verified : m.Verified limits

namespace Verify

theorem checkMethod_of_sound {unitName : String} {limits : Limits} {m : Method} (h : m.Sound limits) :
    checkMethod unitName limits m = .ok () := by
  obtain ⟨depths, hb⟩ := h.verified.balanced
  refine bind_ok_unit (checkLabels_eq_ok h.labels) (bind_ok_unit ?_ (bind_ok_unit (checkCode_of_inRange h.verified.inRange)
    (checkStack_of_balanced hb)))
  rw [checkHandlers, if_pos (List.all_eq_true.2 h.handlers)]

theorem checkMethods_of_sound {unitName : String} {limits : Limits} : ∀ {ms : List Method},
    (∀ m ∈ ms, m.Sound limits) → checkMethods unitName limits ms = .ok ()
  | [], _ => rfl
  | m :: _, h => bind_ok_unit (checkMethod_of_sound (h m List.mem_cons_self))
    (checkMethods_of_sound fun m hm => h m (List.mem_cons_of_mem _ hm))

end Verify

namespace CompiledUnit

theorem verifyAll_eq_ok : ∀ {us : List CompiledUnit}, (∀ u ∈ us, u.verify = .ok ()) → verifyAll us = .ok ()
  | [], _ => by rw [verifyAll]
  | u :: us, h => by
    rw [verifyAll]
    exact Verify.bind_ok_unit (h u List.mem_cons_self) (verifyAll_eq_ok fun u hu => h u (List.mem_cons_of_mem _ hu))

theorem verify_of_sound {u : CompiledUnit} (hm : ∀ m ∈ u.methods, m.Sound u.limits)
    (hc : ∀ c ∈ u.children, c.verify = .ok ()) : u.verify = .ok () := by
  rw [verify_eq]
  exact Verify.bind_ok_unit (Verify.checkMethods_of_sound hm) (verifyAll_eq_ok hc)

end CompiledUnit

end LispMachine
