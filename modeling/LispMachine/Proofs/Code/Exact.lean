import LispMachine.Proofs.Code.Accepted
/-!
# The check of depths is exact

Control starts at the entry with an empty stack and at a handler with the exception alone, and flows along jumps and from
one instruction to the next (`Method.Flows`).  The check accepts a method if and only if all that control can reach is
inside the code and has a depth that agrees with the flow (`Method.DepthsFit`).

The check is one way to work off a list of pending instructions.  `Visit` is a visit to any of them, so a run of visits may
take them in any order.  What is settled or pending has the only depth that fits (`Agrees`), so a refusal means that no depths
fit; and when nothing is pending any more, the settled depths do (`Complete`).  So every order comes to an end, and to the same
verdict: `checkStack_exact`.
-/
namespace LispMachine

/-! ## The flow of control -/

namespace Method

/-- Where control can start, and how many slots the stack holds then. -/
inductive Starts (m : Method) : Nat → Nat → Prop
  | entry : Starts m 0 0
  | handler {h : Handler} {pc : Nat} : h ∈ m.handlers → m.labelPc? h.target = some pc → Starts m pc 1

/-- Control goes from one instruction to another, or out of the code. -/
inductive Flows (m : Method) : Nat → Nat → Prop
  | jump {pc pc' : Nat} {i : Instr} {l : Label} : m.code[pc]? = some i → l ∈ i.targets → m.labelPc? l = some pc' → Flows m pc pc'
  | next {pc : Nat} {i : Instr} : m.code[pc]? = some i → i.isTerminal = false → Flows m pc (pc + 1)

/-- Where control can come. -/
inductive Reaches (m : Method) : Nat → Prop
  | start {pc d : Nat} : m.Starts pc d → Reaches m pc
  | flow {pc pc' : Nat} : Reaches m pc → m.Flows pc pc' → Reaches m pc'

/-- An instruction that control can reach has a depth: that of the start if control can start there, never less than what
the instruction pops, and whatever control goes to from there has what the instruction leaves. -/
structure DepthsFit (m : Method) (depth : Nat → Nat) : Prop where
  start : ∀ pc d, m.Starts pc d → depth pc = d
  flow : ∀ pc, m.Reaches pc → ∃ i, m.code[pc]? = some i ∧ i.effect.1 ≤ depth pc ∧
    ∀ pc', m.Flows pc pc' → depth pc' = depth pc - i.effect.1 + i.effect.2

end Method

namespace Verify

variable {m : Method} {name : String} {pc d : Nat} {i : Instr} {depths : Array (Option Nat)} {work rest : List Pending}

theorem mem_entries_iff : (pc, d) ∈ entries m ↔ m.Starts pc d := by
  simp only [entries, List.mem_reverse, List.mem_cons, List.mem_map, List.mem_filterMap, Prod.mk.injEq]
  constructor
  · rintro (⟨rfl, rfl⟩ | ⟨_, ⟨h, hh, hpc⟩, rfl, rfl⟩)
    · exact .entry
    · exact .handler hh hpc
  · rintro (_ | ⟨hh, hpc⟩)
    · exact .inl ⟨rfl, rfl⟩
    · exact .inr ⟨pc, ⟨_, hh, hpc⟩, rfl, rfl⟩

/-- The successors of an instruction are what control goes to, with the depth that the instruction leaves. -/
theorem mem_successors_iff (hi : m.code[pc]? = some i) {p : Pending} :
    p ∈ successors m pc d i ↔ m.Flows pc p.1 ∧ p.2 = d - i.effect.1 + i.effect.2 := by
  obtain ⟨pc', d'⟩ := p
  have hjump : (pc', d') ∈ (i.targets.filterMap m.labelPc?).map (fun pc => (pc, d - i.effect.1 + i.effect.2)) ↔
      (∃ l ∈ i.targets, m.labelPc? l = some pc') ∧ d' = d - i.effect.1 + i.effect.2 := by
    simp only [List.mem_map, List.mem_filterMap, Prod.mk.injEq]
    exact ⟨fun ⟨_, hl, hpc, hd⟩ => ⟨hpc ▸ hl, hd.symm⟩, fun ⟨hl, hd⟩ => ⟨pc', hl, rfl, hd.symm⟩⟩
  have hflows : m.Flows pc pc' ↔ (∃ l ∈ i.targets, m.labelPc? l = some pc') ∨ i.isTerminal = false ∧ pc' = pc + 1 := by
    constructor
    · rintro (⟨hi', hl, hpc⟩ | ⟨hi', ht⟩)
      · cases hi.symm.trans hi'
        exact .inl ⟨_, hl, hpc⟩
      · cases hi.symm.trans hi'
        exact .inr ⟨ht, rfl⟩
    · rintro (⟨l, hl, hpc⟩ | ⟨ht, rfl⟩)
      · exact .jump hi hl hpc
      · exact .next hi ht
  simp only [successors, List.mem_reverse]
  rw [hflows]
  cases ht : i.isTerminal with
  | true => simpa using hjump
  | false =>
    simp only [Bool.false_eq_true, if_false, List.mem_append, hjump, List.mem_singleton, Prod.mk.injEq, true_and]
    rw [or_and_right]

/-- Depths that fit are those that the check looks for, given to what control can reach. -/
theorem exists_depthsFit_iff : (∃ depth, m.DepthsFit depth) ↔ ∃ depths, m.Balanced depths := by
  classical
  constructor
  · rintro ⟨depth, hfit⟩
    refine ⟨fun pc => if m.Reaches pc then some (depth pc) else none, ?_, fun h hh pc hpc => ?_, fun pc d hd => ?_⟩
    · rw [if_pos (.start .entry), hfit.start 0 0 .entry]
    · rw [if_pos (.start (.handler hh hpc)), hfit.start pc 1 (.handler hh hpc)]
    · split at hd
      · rename_i hreach
        cases hd
        obtain ⟨i, hi, hpops, hnext⟩ := hfit.flow pc hreach
        refine ⟨i, hi, hpops, fun p hp => ?_⟩
        obtain ⟨hflow, hd⟩ := (mem_successors_iff hi).1 hp
        show (if m.Reaches p.1 then some (depth p.1) else none) = some p.2
        rw [if_pos (hreach.flow hflow), hnext p.1 hflow, hd]
      · cases hd
  · rintro ⟨depths, hb⟩
    have hstart : ∀ pc d, m.Starts pc d → depths pc = some d := by
      rintro _ _ (_ | ⟨hh, hpc⟩)
      · exact hb.entry
      · exact hb.handler _ hh _ hpc
    have hflow : ∀ pc d i pc', depths pc = some d → m.code[pc]? = some i → m.Flows pc pc' →
        depths pc' = some (d - i.effect.1 + i.effect.2) := by
      intro pc d i pc' hd hi hf
      obtain ⟨i', hi', _, hnext⟩ := hb.flow pc d hd
      cases hi.symm.trans hi'
      exact hnext (pc', _) ((mem_successors_iff hi).2 ⟨hf, rfl⟩)
    have hreach : ∀ pc, m.Reaches pc → ∃ d, depths pc = some d := by
      intro pc h
      induction h with
      | start hs => exact ⟨_, hstart _ _ hs⟩
      | flow _ hf ih =>
        obtain ⟨d, hd⟩ := ih
        obtain ⟨i, hi, -, -⟩ := hb.flow _ d hd
        exact ⟨_, hflow _ d i _ hd hi hf⟩
    refine ⟨fun pc => (depths pc).getD 0, fun pc d hs => ?_, fun pc hr => ?_⟩
    · rw [hstart pc d hs, Option.getD_some]
    · obtain ⟨d, hd⟩ := hreach pc hr
      obtain ⟨i, hi, hpops, -⟩ := hb.flow pc d hd
      refine ⟨i, hi, by rwa [hd], fun pc' hf => ?_⟩
      rw [hflow pc d i pc' hd hi hf, hd, Option.getD_some, Option.getD_some]

/-- What the check accepts. -/
theorem checkStack_iff : checkStack name m = .ok () ↔ ∃ depth, m.DepthsFit depth :=
  ⟨fun h => exists_depthsFit_iff.2 (balanced_of_checkStack h), fun h => by
    obtain ⟨depths, hb⟩ := exists_depthsFit_iff.1 h
    exact checkStack_of_balanced hb⟩

/-! ## Visits in any order -/

/-- A check on its way. -/
inductive Checking where
  | running (depths : Array (Option Nat)) (work : List Pending)
  | refused

/-- A pending instruction with which something is wrong: it has another depth, or it is not there, or it pops too much. -/
def Faulty (m : Method) (depths : Array (Option Nat)) (p : Pending) : Prop :=
  (∃ d, settled depths p.1 = some d ∧ d ≠ p.2) ∨ settled depths p.1 = none ∧ ∀ i, m.code[p.1]? = some i → p.2 < i.effect.1

/-- A visit to some pending instruction. -/
inductive Visit (m : Method) : Checking → Checking → Prop
  | again {depths : Array (Option Nat)} {work rest : List Pending} {pc d : Nat} :
    work.Perm ((pc, d) :: rest) → settled depths pc = some d → Visit m (.running depths work) (.running depths rest)
  | settle {depths : Array (Option Nat)} {work rest : List Pending} {pc d : Nat} {i : Instr} :
    work.Perm ((pc, d) :: rest) → settled depths pc = none → m.code[pc]? = some i → i.effect.1 ≤ d →
    Visit m (.running depths work) (.running (depths.modify pc fun _ => some d) (successors m pc d i ++ rest))
  | refuse {depths : Array (Option Nat)} {work rest : List Pending} {p : Pending} :
    work.Perm (p :: rest) → Faulty m depths p → Visit m (.running depths work) .refused

/-- So many visits, one after the other. -/
inductive Visits (m : Method) : Nat → Checking → Checking → Prop
  | none (s : Checking) : Visits m 0 s s
  | more {n : Nat} {s s' s'' : Checking} : Visits m n s s' → Visit m s' s'' → Visits m (n + 1) s s''

/-- Nothing is settled, and control may start. -/
def Checking.start (m : Method) : Checking := .running (Array.replicate m.code.size none) (entries m)

variable {s s' : Checking} {n : Nat} {depth : Nat → Nat}

theorem settled_start (pc : Nat) : settled (Array.replicate m.code.size none) pc = none := by
  simp only [settled, Array.getElem?_replicate]
  split <;> rfl

/-- An instruction of the code that is not settled has its place in the table. -/
theorem getElem?_of_settled_none (hsize : depths.size = m.code.size) (hn : settled depths pc = none) (hi : m.code[pc]? = some i) :
    depths[pc]? = some none := by
  have hlt : pc < depths.size := by
    rw [hsize]
    exact (Array.getElem?_eq_some_iff.1 hi).1
  rw [settled, Array.getElem?_eq_getElem hlt, Option.join_some] at hn
  rw [Array.getElem?_eq_getElem hlt, hn]

/-- As long as something is pending it can be visited. -/
theorem exists_visit (p : Pending) (rest : List Pending) : ∃ s, Visit m (.running depths (p :: rest)) s := by
  obtain ⟨pc, d⟩ := p
  cases hs : settled depths pc with
  | some d' =>
    by_cases he : d' = d
    · exact ⟨_, .again (List.Perm.refl _) (he ▸ hs)⟩
    · exact ⟨_, .refuse (List.Perm.refl _) (.inl ⟨d', hs, he⟩)⟩
  | none =>
    by_cases hf : ∀ i, m.code[pc]? = some i → d < i.effect.1
    · exact ⟨_, .refuse (List.Perm.refl _) (.inr ⟨hs, hf⟩)⟩
    · obtain ⟨i, hi⟩ := Classical.not_forall.1 hf
      obtain ⟨hi, hle⟩ := Classical.not_imp.1 hi
      exact ⟨_, .settle (List.Perm.refl _) hs hi (Nat.not_lt.1 hle)⟩

/-! ## A refusal is right -/

/-- What is settled or pending has the depth that fits. -/
def Agrees (m : Method) (depth : Nat → Nat) : Checking → Prop
  | .running depths work => (∀ pc d, settled depths pc = some d → depth pc = d) ∧ ∀ p ∈ work, m.Reaches p.1 ∧ depth p.1 = p.2
  | .refused => False

theorem agrees_start (hfit : m.DepthsFit depth) : Agrees m depth (.start m) := by
  refine ⟨fun pc d h => ?_, fun p hp => ?_⟩
  · rw [settled_start] at h
    cases h
  · have hs : m.Starts p.1 p.2 := mem_entries_iff.1 hp
    exact ⟨.start hs, hfit.start _ _ hs⟩

theorem Agrees.visit (hfit : m.DepthsFit depth) (ha : Agrees m depth s) (hv : Visit m s s') : Agrees m depth s' := by
  cases hv with
  | again hw _ =>
    obtain ⟨hsettled, hwork⟩ := ha
    exact ⟨hsettled, fun p hp => hwork p (hw.mem_iff.2 (List.mem_cons_of_mem _ hp))⟩
  | @settle depths work rest pc d i hw hn hi hpops =>
    obtain ⟨hsettled, hwork⟩ := ha
    obtain ⟨hreach, hd⟩ := hwork (pc, d) (hw.mem_iff.2 List.mem_cons_self)
    obtain ⟨i', hi', -, hnext⟩ := hfit.flow pc hreach
    cases hi.symm.trans hi'
    refine ⟨fun pc' d' h => ?_, fun p hp => ?_⟩
    · simp only [settled, Array.getElem?_modify] at h
      split at h
      · rename_i he
        subst he
        cases hdepth : depths[pc]? with
        | none =>
          rw [hdepth] at h
          cases h
        | some o =>
          rw [hdepth] at h
          cases h
          exact hd
      · exact hsettled pc' d' h
    · rcases List.mem_append.1 hp with hp | hp
      · obtain ⟨hflow, hp2⟩ := (mem_successors_iff hi).1 hp
        refine ⟨hreach.flow hflow, ?_⟩
        rw [hnext p.1 hflow, hd, hp2]
      · exact hwork p (hw.mem_iff.2 (List.mem_cons_of_mem _ hp))
  | @refuse depths work rest p hw hf =>
    obtain ⟨hsettled, hwork⟩ := ha
    obtain ⟨hreach, hd⟩ := hwork p (hw.mem_iff.2 List.mem_cons_self)
    rcases hf with ⟨d', hd', hne⟩ | ⟨-, hf⟩
    · exact hne ((hsettled p.1 d' hd').symm.trans hd)
    · obtain ⟨i, hi, hpops, -⟩ := hfit.flow p.1 hreach
      exact absurd (hd ▸ hpops) (Nat.not_le.2 (hf i hi))

/-! ## An acceptance is right -/

/-- Where control can start, and where it goes from what is settled, is settled or pending. -/
def Complete (m : Method) : Checking → Prop
  | .running depths work => depths.size = m.code.size ∧
    (∀ pc d, m.Starts pc d → settled depths pc = some d ∨ (pc, d) ∈ work) ∧
    ∀ pc d, settled depths pc = some d → ∃ i, m.code[pc]? = some i ∧ i.effect.1 ≤ d ∧
      ∀ p ∈ successors m pc d i, settled depths p.1 = some p.2 ∨ p ∈ work
  | .refused => True

theorem complete_start (m : Method) : Complete m (.start m) := by
  refine ⟨Array.size_replicate, fun pc d hs => .inr (mem_entries_iff.2 hs), fun pc d h => ?_⟩
  rw [settled_start] at h
  cases h

theorem Complete.visit (hc : Complete m s) (hv : Visit m s s') : Complete m s' := by
  cases hv with
  | @again depths work rest pc d hw hd =>
    obtain ⟨hsize, hstart, hflow⟩ := hc
    -- what was visited is settled already
    have hstill : ∀ p : Pending, settled depths p.1 = some p.2 ∨ p ∈ work → settled depths p.1 = some p.2 ∨ p ∈ rest := by
      rintro p (h | h)
      · exact .inl h
      · rcases List.mem_cons.1 (hw.mem_iff.1 h) with rfl | h
        · exact .inl hd
        · exact .inr h
    refine ⟨hsize, fun pc' d' hs => hstill (pc', d') (hstart pc' d' hs), fun pc' d' h => ?_⟩
    obtain ⟨i, hi, hpops, hnext⟩ := hflow pc' d' h
    exact ⟨i, hi, hpops, fun p hp => hstill p (hnext p hp)⟩
  | @settle depths work rest pc d i hw hn hi hpops =>
    obtain ⟨hsize, hstart, hflow⟩ := hc
    have hnone := getElem?_of_settled_none hsize hn hi
    have hkeep : ∀ p : Pending, settled depths p.1 = some p.2 →
        settled (depths.modify pc fun _ => some d) p.1 = some p.2 := by
      intro p h
      rw [settled_modify _ _ _ _ hnone]
      split
      · rename_i he
        rw [← he, hn] at h
        cases h
      · exact h
    have hstill : ∀ p : Pending, settled depths p.1 = some p.2 ∨ p ∈ work →
        settled (depths.modify pc fun _ => some d) p.1 = some p.2 ∨ p ∈ successors m pc d i ++ rest := by
      rintro p (h | h)
      · exact .inl (hkeep p h)
      · rcases List.mem_cons.1 (hw.mem_iff.1 h) with rfl | h
        · exact .inl (by rw [settled_modify _ _ _ _ hnone, if_pos rfl])
        · exact .inr (List.mem_append_right _ h)
    refine ⟨by rw [Array.size_modify, hsize], fun pc' d' hs => hstill (pc', d') (hstart pc' d' hs), fun pc' d' h => ?_⟩
    rw [settled_modify _ _ _ _ hnone] at h
    split at h
    · rename_i he
      subst he
      cases h
      exact ⟨i, hi, hpops, fun p hp => .inr (List.mem_append_left _ hp)⟩
    · obtain ⟨i', hi', hpops', hnext⟩ := hflow pc' d' h
      exact ⟨i', hi', hpops', fun p hp => hstill p (hnext p hp)⟩
  | refuse => trivial

/-- When nothing is pending any more the settled depths are right. -/
theorem Complete.balanced (hc : Complete m (.running depths [])) : m.Balanced (settled depths) := by
  obtain ⟨-, hstart, hflow⟩ := hc
  have hnil : ∀ p : Pending, settled depths p.1 = some p.2 ∨ p ∈ ([] : List Pending) → settled depths p.1 = some p.2 :=
    fun p h => h.resolve_right List.not_mem_nil
  refine ⟨hnil (0, 0) (hstart 0 0 .entry), fun h hh pc hpc => hnil (pc, 1) (hstart pc 1 (.handler hh hpc)), fun pc d hd => ?_⟩
  obtain ⟨i, hi, hpops, hnext⟩ := hflow pc d hd
  exact ⟨i, hi, hpops, fun p hp => hnil p (hnext p hp)⟩

/-! ## Every order ends -/

/-- A bound on the visits that are still to come. -/
def Checking.left (m : Method) : Checking → Nat
  | .running depths work => visitsLeft m depths work
  | .refused => 0

/-- Settling an instruction costs more visits than it adds. -/
theorem visitsLeft_settle (hsize : depths.size = m.code.size) (hn : settled depths pc = none) (hi : m.code[pc]? = some i)
    (d : Nat) (rest : List Pending) :
    visitsLeft m (depths.modify pc fun _ => some d) (successors m pc d i ++ rest) < visitsLeft m depths ((pc, d) :: rest) := by
  have hleft := unsettledVisits_settle d m.code.toList depths.toList pc i (by rw [Array.getElem?_toList]; exact hi)
    (by rw [Array.getElem?_toList]; exact getElem?_of_settled_none hsize hn hi)
  have hsucc := length_successors_le m pc d i
  simp only [visitsLeft, List.length_cons, List.length_append, Array.toList_modify]
  omega

theorem left_lt_of_visit (hc : Complete m s) (hv : Visit m s s') : s'.left m < s.left m := by
  cases hv with
  | again hw _ =>
    simp only [Checking.left, visitsLeft, hw.length_eq, List.length_cons]
    omega
  | @settle depths work rest pc d i hw hn hi _ =>
    have h := visitsLeft_settle hc.1 hn hi d rest
    have hlen : visitsLeft m depths work = visitsLeft m depths ((pc, d) :: rest) := by
      simp only [visitsLeft, hw.length_eq]
    simp only [Checking.left]
    rw [hlen]
    exact h
  | refuse hw _ =>
    simp only [Checking.left, visitsLeft, hw.length_eq, List.length_cons]
    omega

/-- What a run of visits keeps. -/
theorem visits_invariant (hv : Visits m n s s') (hc : Complete m s) :
    Complete m s' ∧ n + s'.left m ≤ s.left m ∧ ∀ depth, m.DepthsFit depth → Agrees m depth s → Agrees m depth s' := by
  induction hv with
  | none => exact ⟨hc, Nat.le_of_eq (Nat.zero_add _), fun _ _ ha => ha⟩
  | more _ hlast ih =>
    obtain ⟨hc', hle, ha⟩ := ih hc
    have hlt := left_lt_of_visit hc' hlast
    exact ⟨hc'.visit hlast, by omega, fun depth hfit h => (ha depth hfit h).visit hfit hlast⟩

/-- With enough visits allowed the result does not depend on their number. -/
theorem visit_enough : ∀ (fuel fuel' : Nat) (depths : Array (Option Nat)) (work : List Pending), depths.size = m.code.size →
    visitsLeft m depths work < fuel → visitsLeft m depths work < fuel' →
    visit name m fuel depths work = visit name m fuel' depths work
  | 0, _, _, _, _, h, _ => absurd h (Nat.not_lt_zero _)
  | _, 0, _, _, _, _, h => absurd h (Nat.not_lt_zero _)
  | _ + 1, _ + 1, _, [], _, _, _ => rfl
  | fuel + 1, fuel' + 1, depths, (pc, d) :: rest, hsize, h, h' => by
    have hrest : visitsLeft m depths rest < visitsLeft m depths ((pc, d) :: rest) := by
      simp only [visitsLeft, List.length_cons]
      omega
    rw [visit, visit]
    split
    · split
      · exact visit_enough fuel fuel' depths rest hsize (by omega) (by omega)
      · rfl
    · rename_i hn
      split
      · rfl
      · rename_i i hi
        split
        · rfl
        · have hless := visitsLeft_settle hsize hn hi d rest
          exact visit_enough fuel fuel' _ _ (by rw [Array.size_modify, hsize]) (by omega) (by omega)

/-- **The check of depths is exact.**  It accepts a method if and only if there are depths that fit; and in whatever order the
pending instructions are visited, there is an end to it, which is a refusal if the check refuses and else comes when nothing is
pending.  A label that is bound nowhere leads nowhere, so that nothing need be assumed of labels and handlers. -/
theorem checkStack_exact (name : String) (m : Method) :
    (checkStack name m = .ok () ↔ ∃ depth, m.DepthsFit depth) ∧
    -- the number of visits that the check allows itself is enough
    (∀ fuel, visitBound m ≤ fuel → visit name m fuel (Array.replicate m.code.size none) (entries m) = checkStack name m) ∧
    -- any other order
    ∀ n s, Visits m n (.start m) s → n < visitBound m ∧ ((∃ s', Visit m s s') ∨
      s = .refused ∧ checkStack name m ≠ .ok () ∨ (∃ depths, s = .running depths []) ∧ checkStack name m = .ok ()) := by
  have hstart := visitsLeft_start m
  refine ⟨checkStack_iff, fun fuel hf => ?_, fun n s hv => ?_⟩
  · exact visit_enough _ _ _ _ Array.size_replicate (Nat.lt_of_lt_of_le hstart hf) hstart
  · obtain ⟨hc, hle, hagrees⟩ := visits_invariant hv (complete_start m)
    refine ⟨Nat.lt_of_le_of_lt (Nat.le_trans (Nat.le_add_right _ _) hle) hstart, ?_⟩
    cases s with
    | refused =>
      refine .inr (.inl ⟨rfl, fun hok => ?_⟩)
      obtain ⟨depth, hfit⟩ := checkStack_iff.1 hok
      exact hagrees depth hfit (agrees_start hfit)
    | running depths work =>
      cases work with
      | nil => exact .inr (.inr ⟨⟨depths, rfl⟩, checkStack_of_balanced hc.balanced⟩)
      | cons p rest => exact .inl (exists_visit p rest)

end Verify

end LispMachine
