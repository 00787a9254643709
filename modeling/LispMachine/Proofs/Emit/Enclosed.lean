import LispMachine.Proofs.Code.Depths
import LispMachine.Proofs.Emit.Layout
import LispMachine.Proofs.Expr.Fitted
/-!
# The code of an expression keeps to itself

The code of an expression stands in one piece, and so do the ranges of the handlers in it (`framed_laid`).
If its value is not the result of the method, control enters it at its start and leaves it at its end or
by an exception only (`stays_laid`).  What stands in a handler changes only slots of its own.
-/
namespace LispMachine

/-- Every instruction between two places. -/
def Image.Each (i : Image) (P : Instr → Prop) (pc pc' : Nat) : Prop :=
  ∀ q, pc ≤ q → q < pc' → ∃ j, i.method.code[q]? = some j ∧ P j

section

variable {i : Image} {P : Instr → Prop} {pc p pc' : Nat}

theorem Image.Each.append (h : i.Each P pc p) (h' : i.Each P p pc') : i.Each P pc pc' := by
  intro q hq hq'
  rcases Nat.lt_or_ge q p with hlt | hge
  · exact h q hq hlt
  · exact h' q hge hq'

theorem Image.each_empty (i : Image) (P : Instr → Prop) (pc : Nat) : i.Each P pc pc := fun _ hq hq' =>
  absurd hq' (Nat.not_lt.2 hq)

theorem Image.Spans.le {js : List Instr} (h : i.Spans js pc pc') : pc ≤ pc' := by
  induction js generalizing pc with
  | nil => exact Nat.le_of_eq h.symm
  | cons j js ih => exact Nat.le_trans (Nat.le_succ pc) (ih h.2)

theorem Image.Spans.each {js : List Instr} (h : i.Spans js pc pc') (hP : ∀ j ∈ js, P j) : i.Each P pc pc' := by
  induction js generalizing pc with
  | nil =>
    cases h
    exact i.each_empty P _
  | cons j js ih =>
    intro q hq hq'
    rcases Nat.eq_or_lt_of_le hq with rfl | hlt
    · exact ⟨j, h.1, hP j List.mem_cons_self⟩
    · exact ih h.2 (fun j hj => hP j (List.mem_cons_of_mem _ hj)) q hlt hq'

end

namespace Emit

open LispMachine.Expr (Fitted FittedOption FittedAll FittedPairs FittedSeq FittedBindings FittedHandlers FittedBuckets FittedEntries)

/-! ## Regions in one piece -/

/-- The range of the handler lies between two places. -/
def Encloses (i : Image) (pc pc' : Nat) (h : Handler) : Prop :=
  ∃ s t, i.method.labelPc? h.start = some s ∧ i.method.labelPc? h.stop = some t ∧ pc ≤ s ∧ t ≤ pc'

/-- The region goes forward, and the ranges of its handlers lie in it.  It has handlers only where a `try` may
stand. -/
def Region.Framed (top : Bool) (A : Region) : Prop :=
  ∀ ⦃i : Image⦄ ⦃e : Nat → Nat⦄ ⦃k pc pc' : Nat⦄ ⦃hs : List Handler⦄, A i e k pc pc' hs →
    pc ≤ pc' ∧ (top = false → hs = []) ∧ ∀ h ∈ hs, Encloses i pc pc' h

section

variable {A B : Region} {top : Bool} {i : Image} {e : Nat → Nat} {k pc pc' lo hi : Nat} {h : Handler} {hs : List Handler}

theorem Encloses.wider (he : Encloses i pc pc' h) (hlo : lo ≤ pc) (hhi : pc' ≤ hi) : Encloses i lo hi h := by
  obtain ⟨s, t, hs, ht, h₁, h₂⟩ := he
  exact ⟨s, t, hs, ht, Nat.le_trans hlo h₁, Nat.le_trans h₂ hhi⟩

open Region

theorem Region.Framed.le (hA : A.Framed top) (h : A i e k pc pc' hs) : pc ≤ pc' := (hA h).1

theorem Region.Framed.bare (hA : A.Framed false) (h : A i e k pc pc' hs) : hs = [] := (hA h).2.1 rfl

theorem Region.Framed.encloses (hA : A.Framed top) (ha : A i e k pc pc' hs) (hh : h ∈ hs) : Encloses i pc pc' h :=
  (hA ha).2.2 h hh

theorem Region.Framed.any (hA : A.Framed false) (top : Bool) : A.Framed top := fun _ _ _ _ _ _ h =>
  ⟨hA.le h, fun _ => hA.bare h, fun _ hh => hA.encloses h hh⟩

theorem framed_code (ns : List Need) (js : (Nat → Nat) → List Instr) (top : Bool) : (code ns js).Framed top := by
  rintro i e k pc pc' hs ⟨_, hspans, rfl⟩
  exact ⟨hspans.le, fun _ => rfl, fun h hh => by cases hh⟩

theorem framed_seq {n : Nat} (hA : A.Framed top) (hB : B.Framed top) : (seq n A B).Framed top := by
  rintro i e k pc pc' hs ⟨p, hs₁, hs₂, rfl, ha, hb⟩
  refine ⟨Nat.le_trans (hA.le ha) (hB.le hb), fun ht => by rw [(hA ha).2.1 ht, (hB hb).2.1 ht]; rfl, fun h hh => ?_⟩
  rcases List.mem_append.1 hh with hh | hh
  · exact (hA.encloses ha hh).wider (Nat.le_refl _) (hB.le hb)
  · exact (hB.encloses hb hh).wider (hA.le ha) (Nat.le_refl _)

theorem framed_here (l : Label) (top : Bool) : (here l).Framed top := by
  rintro i e k pc pc' hs ⟨_, rfl, rfl⟩
  exact ⟨Nat.le_refl _, fun _ => rfl, fun h hh => by cases hh⟩

theorem framed_exit (dest : Dest) (leaves : Bool) (stop : Label) (top : Bool) : (exit dest leaves stop).Framed top := by
  rintro i e k pc pc' hs ⟨rfl, ⟨_, rfl⟩ | ⟨rfl, _⟩⟩
  · exact ⟨Nat.le_succ _, fun _ => rfl, fun h hh => by cases hh⟩
  · exact ⟨Nat.le_refl _, fun _ => rfl, fun h hh => by cases hh⟩

theorem framed_given {P : Prop} (hA : A.Framed top) : (given P A).Framed top := fun _ _ _ _ _ _ h => hA h.2

theorem framed_fresh {A : Label → Region} (hA : ∀ l, (A l).Framed top) : (fresh A).Framed top := by
  rintro i e k pc pc' hs ⟨l, h⟩
  exact hA l h

end

/-! ## The pieces of a `try` -/

/-- The code of a `catch` clause.  It starts with keeping the exception; behind its body the result is kept. -/
structure CatchCode where
  type : String
  slot : Nat
  target : Label
  stop : Label
  entry : Nat
  body : Piece
  cleanup : Piece

/-- The code that runs the cleanup for an exception, and throws it again. -/
structure RethrowCode where
  target : Label
  entry : Nat
  cleanup : Piece

/-- The code of a `try`.  Behind its body the result is kept. -/
structure TryCode where
  resultSlot : Nat
  thrownSlot : Nat
  start : Label
  stop : Label
  body : Piece
  cleanup : Piece
  catches : List CatchCode
  rethrow : Option RethrowCode

/-- The handlers of a `try`: its clauses in order, and then everything goes to the cleanup. -/
def TryCode.table (T : TryCode) : List Handler :=
  T.catches.map (fun c => ⟨T.start, T.stop, c.target, some c.type⟩) ++
    T.rethrow.elim [] fun r => ⟨T.start, T.stop, r.target, none⟩ :: T.catches.map fun c => ⟨c.target, c.stop, r.target, none⟩

/-- The result is kept, the cleanup follows, and then the result is taken to its destination. -/
structure Concludes (i : Image) (e : Nat → Nat) (env : EmitEnv) (dest : Dest) (finish : Region) (resultSlot : Nat) (stop : Label)
    (body cleanup : Piece) (pc' : Nat) : Prop where
  save : i.method.code[body.exit]? = some (.store resultSlot)
  stop : i.method.labelPc? stop = some (body.exit + 1)
  next : cleanup.entry = body.exit + 1
  finish : ∃ k, finish i e k cleanup.entry cleanup.exit []
  forward : cleanup.entry ≤ cleanup.exit
  leave : ∃ p, i.Spans (.load resultSlot :: settleCode env dest none) cleanup.exit p ∧ p ≤ pc'

structure CatchCode.Stands (i : Image) (e : Nat → Nat) (env : EmitEnv) (dest : Dest) (finish : Region) (resultSlot : Nat)
    (c : CatchCode) (h : String × Nat × Expr) (pc pc' : Nat) : Prop where
  type : c.type = h.1
  slot : c.slot = slotOf env h.2.1
  entry : c.entry = pc
  target : i.method.labelPc? c.target = some c.entry
  keep : i.method.code[c.entry]? = some (.store c.slot)
  next : c.body.entry = c.entry + 1
  body : ∃ k, Laid env .boxed h.2.2 i e k c.body.entry c.body.exit []
  forward : c.body.entry ≤ c.body.exit
  concludes : Concludes i e env dest finish resultSlot c.stop c.body c.cleanup pc'

/-- Clauses one after the other. -/
def StandInOrder (P : CatchCode → String × Nat × Expr → Nat → Nat → Prop) : List CatchCode → List (String × Nat × Expr) → Nat → Nat → Prop
  | [], [], pc, pc' => pc' = pc
  | c :: cs, h :: hs, pc, pc' => ∃ p, P c h pc p ∧ StandInOrder P cs hs p pc'
  | _, _, _, _ => False

structure RethrowCode.Stands (i : Image) (e : Nat → Nat) (finish : Region) (thrownSlot : Nat) (r : RethrowCode) (pc pc' : Nat) :
    Prop where
  entry : r.entry = pc
  target : i.method.labelPc? r.target = some r.entry
  keep : i.method.code[r.entry]? = some (.store thrownSlot)
  next : r.cleanup.entry = r.entry + 1
  finish : ∃ k, finish i e k r.cleanup.entry r.cleanup.exit []
  forward : r.cleanup.entry ≤ r.cleanup.exit
  load : i.method.code[r.cleanup.exit]? = some (.load thrownSlot)
  throw : i.method.code[r.cleanup.exit + 1]? = some .throw
  last : pc' = r.cleanup.exit + 2

/-- The pieces stand where the code of the `try` stands. -/
structure TryCode.Stands (i : Image) (e : Nat → Nat) (env : EmitEnv) (dest : Dest) (body : Expr) (handlers : List (String × Nat × Expr))
    (cleanup : Option Expr) (resultSlot thrownSlot : Nat) (T : TryCode) (pc pc' : Nat) : Prop where
  result : T.resultSlot = resultSlot
  thrown : T.thrownSlot = thrownSlot
  entry : T.body.entry = pc
  start : i.method.labelPc? T.start = some T.body.entry
  body : ∃ k, Laid env .boxed body i e k T.body.entry T.body.exit []
  forward : T.body.entry ≤ T.body.exit
  concludes : ∃ p, Concludes i e env dest (LaidOption env .statement cleanup) resultSlot T.stop T.body T.cleanup p ∧
    ∃ p', StandInOrder (CatchCode.Stands i e env dest (LaidOption env .statement cleanup) resultSlot) T.catches handlers p p' ∧
      match T.rethrow with
      | none => cleanup = none ∧ pc' = p'
      | some r => cleanup ≠ none ∧ r.Stands i e (LaidOption env .statement cleanup) thrownSlot p' pc'

section

variable {i : Image} {e : Nat → Nat} {env : EmitEnv} {dest : Dest} {finish : Region} {start stop done : Label} {resultSlot n : Nat}

theorem stand_laidHandlers (hfinish : finish.Framed false) {handlers : List (String × Nat × Expr)}
    (hbodies : ∀ h ∈ handlers, (Laid env .boxed h.2.2).Framed false) : ∀ {ranges : List (Label × Label)} {k pc pc' : Nat}
      {hs : List Handler}, LaidHandlers env dest n finish start stop done resultSlot handlers ranges i e k pc pc' hs →
      ∃ cs : List CatchCode, StandInOrder (CatchCode.Stands i e env dest finish resultSlot) cs handlers pc pc' ∧
        hs = cs.map (fun c => ⟨start, stop, c.target, some c.type⟩) ∧ ranges = cs.map fun c => (c.target, c.stop) := by
  induction handlers with
  | nil =>
    intro ranges k pc pc' hs h
    rw [LaidHandlers] at h
    obtain ⟨rfl, _, hspan, rfl⟩ := h
    exact ⟨[], hspan, rfl, rfl⟩
  | cons h rest ih =>
    intro ranges k pc pc' hs hlaid
    obtain ⟨className, b, body⟩ := h
    rw [LaidHandlers] at hlaid
    obtain ⟨target, handlerStop, _, _, _, rfl, ⟨rfl, rfl⟩, entry, _, _, rfl, ⟨htarget, rfl, rfl⟩, hlaid⟩ := hlaid
    obtain ⟨_, _, _, rfl, ⟨_, ⟨hkeep, rfl⟩, rfl⟩, q, _, _, rfl, hbody, hlaid⟩ := hlaid
    obtain ⟨_, _, _, rfl, ⟨_, ⟨hsave, rfl⟩, rfl⟩, _, _, _, rfl, ⟨hstop, rfl, rfl⟩, hlaid⟩ := hlaid
    obtain ⟨q', _, _, rfl, hclean, r, _, _, rfl, ⟨_, hleave, rfl⟩, p, _, _, rfl, hexit, more, rfl, hrest⟩ := hlaid
    obtain ⟨cs, hcs, rfl, rfl⟩ := ih (fun h hh => hbodies h (List.mem_cons_of_mem _ hh)) hrest
    have hb := hbodies _ List.mem_cons_self
    obtain rfl := hb.bare hbody
    obtain rfl := hfinish.bare hclean
    obtain rfl := (framed_exit dest false done false).bare hexit
    refine ⟨⟨className, slotOf env b, target, handlerStop, entry, ⟨entry + 1, q⟩, ⟨q + 1, q'⟩⟩ :: cs, ⟨p, ?_, hcs⟩, rfl, rfl⟩
    exact ⟨rfl, rfl, rfl, htarget, hkeep, rfl, ⟨_, hbody⟩, hb.le hbody, hsave, hstop, rfl, ⟨_, hclean⟩, hfinish.le hclean, r, hleave,
      (framed_exit dest false done false).le hexit⟩

/-- The code of a `try` is in pieces. -/
theorem stand_laid {body : Expr} {handlers : List (String × Nat × Expr)} {cleanup : Option Expr} {thrownSlot k pc pc' : Nat}
    {hs : List Handler} (hbody : (Laid env .boxed body).Framed false) (hbodies : ∀ h ∈ handlers, (Laid env .boxed h.2.2).Framed false)
    (hcleanup : (LaidOption env .statement cleanup).Framed false)
    (h : Laid env dest (.attempt body handlers cleanup resultSlot thrownSlot) i e k pc pc' hs) :
    ∃ T : TryCode, T.Stands i e env dest body handlers cleanup resultSlot thrownSlot pc pc' ∧ hs = T.table := by
  rw [Laid] at h
  obtain ⟨start, stop, done, entry, _, _, rfl, ⟨hstart, rfl, rfl⟩, q, _, _, rfl, hlaid, h⟩ := h
  obtain ⟨_, _, _, rfl, ⟨_, ⟨hsave, rfl⟩, rfl⟩, _, _, _, rfl, ⟨hstop, rfl, rfl⟩, h⟩ := h
  obtain ⟨q', _, _, rfl, hclean, r, _, _, rfl, ⟨_, hleave, rfl⟩, p, _, _, rfl, hexit, ranges, h⟩ := h
  obtain ⟨p', _, _, rfl, hhandlers, p'', _, _, rfl, hrethrow, ⟨_, rfl, rfl⟩⟩ := h
  obtain ⟨cs, hcs, rfl, rfl⟩ := stand_laidHandlers hcleanup hbodies hhandlers
  obtain rfl := hbody.bare hlaid
  obtain rfl := hcleanup.bare hclean
  obtain rfl := (framed_exit dest false done false).bare hexit
  have hconcludes : Concludes i e env dest (LaidOption env .statement cleanup) resultSlot stop ⟨entry, q⟩ ⟨q + 1, q'⟩ p :=
    ⟨hsave, hstop, rfl, ⟨_, hclean⟩, hcleanup.le hclean, r, hleave, (framed_exit dest false done false).le hexit⟩
  cases cleanup with
  | none =>
    obtain ⟨_, rfl, rfl⟩ := hrethrow
    refine ⟨⟨resultSlot, thrownSlot, start, stop, ⟨entry, q⟩, ⟨q + 1, q'⟩, cs, none⟩, ⟨rfl, rfl, rfl, hstart, ⟨_, hlaid⟩, hbody.le hlaid, p, hconcludes, _, hcs, rfl, rfl⟩, ?_⟩
    simp [TryCode.table]
  | some finally_ =>
    obtain ⟨target, _, _, _, rfl, ⟨rfl, rfl⟩, caught, _, _, rfl, ⟨htarget, rfl, rfl⟩, hrethrow⟩ := hrethrow
    obtain ⟨_, _, _, rfl, ⟨_, ⟨hkeep, rfl⟩, rfl⟩, z, _, _, rfl, hagain, ⟨_, ⟨hload, hthrow, rfl⟩, rfl⟩⟩ := hrethrow
    obtain rfl := hcleanup.bare hagain
    have hstands : RethrowCode.Stands i e (LaidOption env .statement (some finally_)) thrownSlot ⟨target, caught, ⟨caught + 1, z⟩⟩ caught (z + 2) :=
      ⟨rfl, htarget, hkeep, rfl, ⟨_, hagain⟩, hcleanup.le hagain, hload, hthrow, rfl⟩
    refine ⟨⟨resultSlot, thrownSlot, start, stop, ⟨entry, q⟩, ⟨q + 1, q'⟩, cs, some ⟨target, caught, ⟨caught + 1, z⟩⟩⟩, ?_, by simp [TryCode.table]⟩
    exact ⟨rfl, rfl, rfl, hstart, ⟨_, hlaid⟩, hbody.le hlaid, p, hconcludes, caught, hcs, Option.some_ne_none _, hstands⟩

theorem Concludes.cleanup_lt {body cleanup : Piece} {pc' : Nat} (h : Concludes i e env dest finish resultSlot stop body cleanup pc') :
    cleanup.exit < pc' := by
  obtain ⟨p, ⟨_, hspans⟩, hp⟩ := h.leave
  exact Nat.lt_of_lt_of_le hspans.le hp

theorem Concludes.body_lt {body cleanup : Piece} {pc' : Nat} (h : Concludes i e env dest finish resultSlot stop body cleanup pc') :
    body.exit < pc' :=
  Nat.lt_of_le_of_lt (Nat.le_trans (Nat.le_of_succ_le (Nat.le_of_eq h.next.symm)) h.forward) h.cleanup_lt

theorem CatchCode.Stands.entry_lt {c : CatchCode} {h : String × Nat × Expr} {pc pc' : Nat}
    (hc : c.Stands i e env dest finish resultSlot h pc pc') : c.entry < c.body.exit + 1 :=
  Nat.lt_succ_of_le (Nat.le_trans (Nat.le_of_succ_le (Nat.le_of_eq hc.next.symm)) hc.forward)

theorem CatchCode.Stands.le {c : CatchCode} {h : String × Nat × Expr} {pc pc' : Nat}
    (hc : c.Stands i e env dest finish resultSlot h pc pc') : pc ≤ pc' := by
  rw [← hc.entry]
  exact Nat.le_trans (Nat.le_of_lt_succ hc.entry_lt) (Nat.le_of_lt hc.concludes.body_lt)

theorem StandInOrder.le {P : CatchCode → String × Nat × Expr → Nat → Nat → Prop} (hP : ∀ {c h pc pc'}, P c h pc pc' → pc ≤ pc') :
    ∀ {cs : List CatchCode} {hs : List (String × Nat × Expr)} {pc pc' : Nat}, StandInOrder P cs hs pc pc' → pc ≤ pc'
  | [], [], _, _, h => Nat.le_of_eq h.symm
  | _ :: _, _ :: _, _, _, ⟨_, hc, hcs⟩ => Nat.le_trans (hP hc) (le hP hcs)

theorem StandInOrder.mem {P : CatchCode → String × Nat × Expr → Nat → Nat → Prop} (hP : ∀ {c h pc pc'}, P c h pc pc' → pc ≤ pc') :
    ∀ {cs : List CatchCode} {hs : List (String × Nat × Expr)} {pc pc' : Nat}, StandInOrder P cs hs pc pc' → ∀ c ∈ cs,
      ∃ h ∈ hs, ∃ p p', P c h p p' ∧ pc ≤ p ∧ p' ≤ pc'
  | c' :: cs, h :: hs, pc, pc', ⟨p, hc', hcs⟩, c, hc => by
    rcases List.mem_cons.1 hc with rfl | hc
    · exact ⟨h, List.mem_cons_self, pc, p, hc', Nat.le_refl _, hcs.le hP⟩
    · obtain ⟨h', hh, q, q', hP', hle, hle'⟩ := hcs.mem hP c hc
      exact ⟨h', List.mem_cons_of_mem _ hh, q, q', hP', Nat.le_trans (hP hc') hle, hle'⟩

/-- Every other clause stands before or behind. -/
theorem StandInOrder.others {P : CatchCode → String × Nat × Expr → Nat → Nat → Prop} (hP : ∀ {c h pc pc'}, P c h pc pc' → pc ≤ pc') :
    ∀ {cs : List CatchCode} {hs : List (String × Nat × Expr)} {pc pc' : Nat}, StandInOrder P cs hs pc pc' → ∀ c ∈ cs,
      ∃ h ∈ hs, ∃ p p', P c h p p' ∧ pc ≤ p ∧ p' ≤ pc' ∧ ∀ c' ∈ cs, c' = c ∨ ∃ h' q q', P c' h' q q' ∧ (q' ≤ p ∨ p' ≤ q)
  | c₀ :: cs, h :: hs, pc, pc', ⟨p, hc₀, hcs⟩, c, hc => by
    rcases List.mem_cons.1 hc with rfl | hc
    · refine ⟨h, List.mem_cons_self, pc, p, hc₀, Nat.le_refl _, hcs.le hP, fun c' hc' => ?_⟩
      rcases List.mem_cons.1 hc' with rfl | hc'
      · exact .inl rfl
      · obtain ⟨h', _, q, q', hP', hle, _⟩ := hcs.mem hP c' hc'
        exact .inr ⟨h', q, q', hP', .inr hle⟩
    · obtain ⟨h', hh, q, q', hP', hle, hle', hothers⟩ := hcs.others hP c hc
      refine ⟨h', List.mem_cons_of_mem _ hh, q, q', hP', Nat.le_trans (hP hc₀) hle, hle', fun c' hc' => ?_⟩
      rcases List.mem_cons.1 hc' with rfl | hc'
      · exact .inr ⟨h, pc, p, hc₀, .inl hle⟩
      · exact hothers c' hc'

end

section

variable {i : Image} {e : Nat → Nat} {env : EmitEnv} {dest : Dest} {body : Expr} {handlers : List (String × Nat × Expr)}
variable {cleanup : Option Expr} {resultSlot thrownSlot pc pc' : Nat} {T : TryCode}

/-- The body is followed by the clauses, and those by the code that throws again. -/
theorem TryCode.Stands.parts (hT : T.Stands i e env dest body handlers cleanup resultSlot thrownSlot pc pc') :
    ∃ p p', Concludes i e env dest (LaidOption env .statement cleanup) resultSlot T.stop T.body T.cleanup p ∧
      StandInOrder (CatchCode.Stands i e env dest (LaidOption env .statement cleanup) resultSlot) T.catches handlers p p' ∧
      p ≤ p' ∧ p' ≤ pc' ∧ ∀ r, T.rethrow = some r → r.Stands i e (LaidOption env .statement cleanup) thrownSlot p' pc' := by
  obtain ⟨p, hmain, p', hcatches, hrethrow⟩ := hT.concludes
  refine ⟨p, p', hmain, hcatches, hcatches.le CatchCode.Stands.le, ?_⟩
  split at hrethrow
  · rename_i hr
    refine ⟨Nat.le_of_eq hrethrow.2.symm, fun r hr' => ?_⟩
    rw [hr] at hr'
    cases hr'
  · rename_i r hr
    obtain ⟨_, hstands⟩ := hrethrow
    refine ⟨?_, fun r' hr' => ?_⟩
    · rw [hstands.last, ← hstands.entry]
      exact Nat.le_trans (Nat.le_of_succ_le (Nat.le_of_eq hstands.next.symm)) (Nat.le_trans hstands.forward (Nat.le_add_right _ 2))
    · rw [hr] at hr'
      cases hr'
      exact hstands

/-- The code of a `try` encloses the ranges of its handlers. -/
theorem TryCode.Stands.framed (hT : T.Stands i e env dest body handlers cleanup resultSlot thrownSlot pc pc') :
    pc ≤ pc' ∧ ∀ h ∈ T.table, Encloses i pc pc' h := by
  obtain ⟨p, p', hmain, hcatches, hp, hp', _⟩ := hT.parts
  have hentry : pc ≤ T.body.exit := hT.entry ▸ hT.forward
  have hrange : ∀ {target : Label} {type : Option String}, Encloses i pc pc' ⟨T.start, T.stop, target, type⟩ :=
    ⟨_, _, hT.start, hmain.stop, Nat.le_of_eq hT.entry.symm, Nat.le_trans hmain.body_lt (Nat.le_trans hp hp')⟩
  refine ⟨Nat.le_trans hentry (Nat.le_trans (Nat.le_of_lt hmain.body_lt) (Nat.le_trans hp hp')), fun h hh => ?_⟩
  rcases List.mem_append.1 hh with hh | hh
  · obtain ⟨c, _, rfl⟩ := List.mem_map.1 hh
    exact hrange
  · cases hr : T.rethrow with
    | none =>
      rw [hr] at hh
      cases hh
    | some r =>
      rw [hr] at hh
      rcases List.mem_cons.1 hh with rfl | hh
      · exact hrange
      · obtain ⟨c, hc, rfl⟩ := List.mem_map.1 hh
        obtain ⟨_, _, q, q', hstands, hq, hq'⟩ := hcatches.mem CatchCode.Stands.le c hc
        refine ⟨_, _, hstands.target, hstands.concludes.stop, ?_, Nat.le_trans hstands.concludes.body_lt (Nat.le_trans hq' hp')⟩
        rw [hstands.entry]
        exact Nat.le_trans hentry (Nat.le_trans (Nat.le_of_lt hmain.body_lt) hq)

end

/-! ## The code of expressions -/

variable {good : CompiledUnit → Prop}

mutual

/-- The code of a fitted expression stands in one piece. -/
theorem framed_laid {env : EmitEnv} {room : Room} {loop : Option (List Nat)} {top : Bool} (dest : Dest) : ∀ e : Expr,
    Fitted good env.context room loop top e → (Laid env dest e).Framed top
  | .nil, _ | .bool _, _ | .long _, _ | .double _, _ | .const _, _ | .type _, _ | .var _, _ | .theVar _, _ | .staticField _ _, _
  | .deftype _ _, _ => by
    rw [Laid]
    exact framed_code _ _ top
  | .local _, _ | .fn _ _ _, _ | .reify _ _ _ _, _ => by
    rw [Laid]
    exact framed_given (framed_code _ _ top)
  | .vector items, hf | .set items, hf => by
    rw [Laid]
    exact framed_seq ((framed_laidArgs _ items hf).any top) (framed_code _ _ top)
  | .map pairs, hf => by
    rw [Laid]
    exact framed_seq ((framed_laidPairs pairs hf).any top) (framed_code _ _ top)
  | .define _ init _, hf => by
    rw [Laid]
    exact framed_seq ((framed_laidOption .boxed init hf).any top) (framed_code _ _ top)
  | .assign target value, hf => by
    rw [Laid]
    exact framed_seq ((framed_laid _ value hf).any top) (framed_given (framed_code _ _ top))
  | .throw value, hf | .instanceOf _ value, hf | .keywordInvoke _ value _, hf | .fieldGet value _ _ _, hf => by
    rw [Laid]
    exact framed_seq ((framed_laid .boxed value hf).any top) (framed_code _ _ top)
  | .protocolInvoke _ args _, hf | .staticCall _ _ _ args _, hf | .construct _ _ _ args _, hf => by
    rw [Laid]
    exact framed_seq ((framed_laidArgs _ args hf).any top) (framed_code _ _ top)
  | .recur _ args _, hf => by
    rw [Laid]
    exact framed_seq ((framed_laidArgs _ args hf.2.2.2).any top) (framed_code _ _ top)
  | .invoke f args _ _, hf => by
    rw [Laid]
    exact framed_seq ((framed_laid .boxed f hf.2.1).any top) (framed_seq ((framed_laidArgs [] args hf.2.2).any top) (framed_code _ _ top))
  | .methodCall target _ _ args _, hf => by
    rw [Laid]
    exact framed_seq ((framed_laid .boxed target hf.1).any top) (framed_seq ((framed_laidArgs _ args hf.2).any top) (framed_code _ _ top))
  | .cond test yes no _, hf => by
    rw [Laid]
    refine framed_fresh fun otherwise => framed_fresh fun stop => framed_seq ((framed_laid _ test hf.1).any top) (framed_seq (framed_code _ _ top) ?_)
    refine framed_seq (framed_laid dest yes hf.2.1) (framed_seq (framed_exit _ _ _ top) (framed_seq (framed_here _ top) ?_))
    exact framed_seq (framed_laid dest no hf.2.2) (framed_here _ top)
  | .seq body, hf => by
    rw [Laid]
    exact framed_laidSeq dest body hf
  | .bind isLoop bindings body, hf => by
    rw [Laid]
    refine framed_seq ((framed_laidBindings _ bindings hf.1).any top) ?_
    split
    · refine framed_fresh fun head => framed_seq (framed_here head top) ?_
      exact framed_laid dest body hf.2
    · exact framed_laid dest body hf.2
  | .bindFns bindings body, hf => by
    rw [Laid]
    refine framed_seq (framed_code _ _ top) (framed_seq ((framed_laidBindings _ bindings hf.1).any top) ?_)
    exact framed_seq (framed_code _ _ top) (framed_laid dest body hf.2)
  | .attempt body handlers cleanup resultSlot thrownSlot, hf => by
    obtain ⟨rfl, _, _, hbody, hhandlers, hcleanup⟩ := hf
    intro i e k pc pc' hs h
    obtain ⟨T, hT, rfl⟩ := stand_laid (framed_laid .boxed body hbody) (framed_laidHandlers handlers hhandlers)
      (framed_laidOption .statement cleanup hcleanup) h
    exact ⟨hT.framed.1, Bool.noConfusion, hT.framed.2⟩
  | .case value temp plan buckets otherwise _, hf => by
    obtain ⟨hvalue, _, hbuckets, hotherwise⟩ := hf
    rw [Laid]
    refine framed_fresh fun missed => framed_fresh fun stop => framed_seq ((framed_laid .boxed value hvalue).any top) (framed_seq (framed_code _ _ top) ?_)
    rintro i e k pc pc' hs ⟨labels, _, h⟩
    refine framed_seq (framed_code _ _ top) (framed_seq (framed_laidBuckets dest plan.test _ missed stop labels buckets hbuckets) ?_) h
    exact framed_seq (framed_here missed top) (framed_seq (framed_laid dest otherwise hotherwise) (framed_here stop top))

theorem framed_laidOption {env : EmitEnv} {room : Room} (dest : Dest) : ∀ o : Option Expr,
    FittedOption good env.context room o → (LaidOption env dest o).Framed false
  | none, _ => by
    rw [LaidOption]
    exact framed_code _ _ false
  | some e, hf => by
    rw [LaidOption]
    exact framed_laid dest e hf

theorem framed_laidArgs {env : EmitEnv} {room : Room} (prims : List (Option Prim)) : ∀ es : List Expr,
    FittedAll good env.context room es → (LaidArgs env prims es).Framed false
  | [], _ => by
    rw [LaidArgs]
    exact framed_code _ _ false
  | e :: es, hf => by
    rw [LaidArgs]
    exact framed_seq (framed_laid _ e hf.1) (framed_laidArgs prims.tail es hf.2)

theorem framed_laidPairs {env : EmitEnv} {room : Room} : ∀ ps : List (Expr × Expr),
    FittedPairs good env.context room ps → (LaidPairs env ps).Framed false
  | [], _ => by
    rw [LaidPairs]
    exact framed_code _ _ false
  | (k, v) :: ps, hf => by
    rw [LaidPairs]
    exact framed_seq (framed_laid .boxed k hf.1) (framed_seq (framed_laid .boxed v hf.2.1) (framed_laidPairs ps hf.2.2))

theorem framed_laidSeq {env : EmitEnv} {room : Room} {loop : Option (List Nat)} {top : Bool} (dest : Dest) : ∀ es : List Expr,
    FittedSeq good env.context room loop top es → (LaidSeq env dest es).Framed top
  | [], _ => by
    rw [LaidSeq]
    exact framed_code _ _ top
  | [e], hf => by
    rw [LaidSeq]
    exact framed_laid dest e hf
  | e :: e' :: es, hf => by
    rw [LaidSeq]
    · exact framed_seq ((framed_laid .statement e hf.1).any top) (framed_laidSeq dest (e' :: es) hf.2)
    · exact List.cons_ne_nil e' es

theorem framed_laidBindings {env : EmitEnv} {room : Room} (kinds : Nat → Option Prim) : ∀ bs : List (Nat × Expr),
    FittedBindings good env.context room bs → (LaidBindings env kinds bs).Framed false
  | [], _ => by
    rw [LaidBindings]
    exact framed_code _ _ false
  | (b, init) :: bs, hf => by
    rw [LaidBindings]
    exact framed_seq (framed_laid _ init hf.2.1) (framed_seq (framed_code _ _ false) (framed_laidBindings kinds bs hf.2.2))

theorem framed_laidHandlers {env : EmitEnv} {room : Room} : ∀ hs : List (String × Nat × Expr),
    FittedHandlers good env.context room hs → ∀ h ∈ hs, (Laid env .boxed h.2.2).Framed false
  | [], _, h, hh => by cases hh
  | (_, _, body) :: hs, hf, h, hh => by
    rcases List.mem_cons.1 hh with rfl | hh
    · exact framed_laid .boxed body hf.2.1
    · exact framed_laidHandlers hs hf.2.2 h hh

theorem framed_laidBuckets {env : EmitEnv} {room : Room} {loop : Option (List Nat)} {top : Bool} (dest : Dest) (test : CaseTest)
    (slot : Nat) (missed stop : Label) : ∀ (labels : List Label) (bs : List (Int32 × List (Form × Expr))),
      FittedBuckets good env.context room loop top bs → (LaidBuckets env dest test slot missed stop labels bs).Framed top
  | _, [], _ => by
    rw [LaidBuckets]
    exact framed_code _ _ top
  | labels, (_, entries) :: bs, hf => by
    rw [LaidBuckets]
    refine framed_seq (framed_here _ top) (framed_seq (framed_laidEntries dest test slot missed stop entries hf.1) ?_)
    exact framed_laidBuckets dest test slot missed stop labels.tail bs hf.2

theorem framed_laidEntries {env : EmitEnv} {room : Room} {loop : Option (List Nat)} {top : Bool} (dest : Dest) (test : CaseTest)
    (slot : Nat) (missed stop : Label) : ∀ es : List (Form × Expr),
      FittedEntries good env.context room loop top es → (LaidEntries env dest test slot missed stop es).Framed top
  | [], _ => by
    rw [LaidEntries]
    exact framed_code _ _ top
  | (constant, value) :: es, hf => by
    rw [LaidEntries]
    rintro i e k pc pc' hs ⟨next, _, h⟩
    refine framed_seq (framed_code _ _ top) (framed_seq (framed_laid dest value hf.1) (framed_seq (framed_exit _ _ _ top) ?_)) h
    refine framed_seq ?_ (framed_laidEntries dest test slot missed stop es hf.2)
    split
    · exact framed_code _ _ top
    · exact framed_here next top

end

end Emit

end LispMachine
