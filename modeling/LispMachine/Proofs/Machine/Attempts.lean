import LispMachine.Proofs.Emit.Sound
import LispMachine.Proofs.Machine.Handlers
import LispMachine.Proofs.Machine.Pieces
/-!
# The meaning of `try`

`Attempts` says what a `try` does, in terms of what its body, its clauses and its cleanup do by themselves.
First the body runs, and if it throws, the first clause that catches the exception.  What they end with is put
aside (`Attempted`): a value, or an exception that no clause catches or that a clause throws.  Then the cleanup
runs, once.  If it throws, that is the outcome; otherwise what was put aside is returned or thrown again.

The code of a `try` does just that (`endsWith_iff_attempts`), wherever a compiled method has one (`try_endsWith_iff`).
-/
namespace LispMachine

/-- The frame goes on elsewhere with a value in a slot. -/
def Frame.keep (f : Frame) (slot : Nat) (s : Slot) (stack : List Slot) (pc : Nat) : Frame :=
  { f with locals := f.locals.modify slot fun _ => s, stack, pc }

/-- The frame in which the cleanup for an exception starts, if there is one. -/
def Emit.TryCode.aside (T : TryCode) (f : Frame) (t : Value) : Frame :=
  match T.rethrow with
  | some r => f.keep T.thrownSlot (.obj t) [] r.cleanup.entry
  | none => f

namespace Machine

open Emit

/-! ## What a `try` does -/

/-- What is put aside while the cleanup runs. -/
inductive Pending where
  | value (s : Slot)
  | exception (t : Value)

/-- The value is returned as the kind that the method gives, or the exception is thrown. -/
def Pending.deliver (ret : Option Prim) : Pending → Run Value
  | .value s =>
    match ret with
    | none => return s.toValue
    | some p => do return (← Run.ofExcept (Slot.unbox s.toValue p)).toValue
  | .exception t => Run.throw t

/-- The body has run, and a clause if one catches what the body throws.  What they came to is put aside, and the
cleanup that is next starts in the second frame. -/
inductive Attempted (depth : Nat) (T : TryCode) : Frame → World → Pending → Option Piece → Frame → World → Prop
  | returned {f g : Frame} {w w₁ : World} {s : Slot} {st : List Slot} : Completes depth T.body f w g w₁ → g.stack = s :: st →
      Attempted depth T f w (.value s) (some T.cleanup) (g.keep T.resultSlot s st T.cleanup.entry) w₁
  | caught {f g h : Frame} {w w₁ w₂ : World} {t : Value} {c : CatchCode} {s : Slot} {st : List Slot} :
      Fails depth T.body f w g t w₁ → T.clauseFor? w₁ t = some c →
      Completes depth c.body (g.keep c.slot (.obj t) [] c.body.entry) w₁ h w₂ → h.stack = s :: st →
      Attempted depth T f w (.value s) (some c.cleanup) (h.keep T.resultSlot s st c.cleanup.entry) w₂
  | uncaught {f g : Frame} {w w₁ : World} {t : Value} : Fails depth T.body f w g t w₁ → T.clauseFor? w₁ t = none →
      Attempted depth T f w (.exception t) (T.rethrow.map (·.cleanup)) (T.aside g t) w₁
  | escaped {f g h : Frame} {w w₁ w₂ : World} {t t' : Value} {c : CatchCode} :
      Fails depth T.body f w g t w₁ → T.clauseFor? w₁ t = some c →
      Fails depth c.body (g.keep c.slot (.obj t) [] c.body.entry) w₁ h t' w₂ →
      Attempted depth T f w (.exception t') (T.rethrow.map (·.cleanup)) (T.aside h t') w₂

/-- The outcome of a `try` in a method that gives this kind of result. -/
inductive Attempts (depth : Nat) (T : TryCode) (ret : Option Prim) : Frame → World → Outcome Value → World → Prop
  | finished {f g h : Frame} {w w₁ w₂ w' : World} {P : Pending} {p : Piece} {o : Outcome Value} :
      Attempted depth T f w P (some p) g w₁ → Completes depth p g w₁ h w₂ → P.deliver ret w₂ = (o, w') → Attempts depth T ret f w o w'
  | replaced {f g h : Frame} {w w₁ w' : World} {P : Pending} {p : Piece} {t : Value} :
      Attempted depth T f w P (some p) g w₁ → Fails depth p g w₁ h t w' → Attempts depth T ret f w (.thrown t) w'
  | plain {f g : Frame} {w w₁ w' : World} {P : Pending} {o : Outcome Value} :
      Attempted depth T f w P none g w₁ → P.deliver ret w₁ = (o, w') → Attempts depth T ret f w o w'

/-! ## Straight code -/

section

variable {depth : Nat} {f g : Frame} {w w' : World} {o : Outcome Value} {t : Value} {i : Instr} {s : Slot} {st : List Slot} {slot pc : Nat}

theorem moves_local (hi : f.method.code[f.pc]? = some i) (hm : movesSlots i = true)
    (hs : stepLocal { f with pc := f.pc + 1 } i = .ok g) : Moves depth f w g w := by
  refine .next hi ?_
  rw [step_local _ hm, hs]
  rfl

theorem throws_local {e : Failure} (hi : f.method.code[f.pc]? = some i) (hm : movesSlots i = true)
    (hs : stepLocal { f with pc := f.pc + 1 } i = .error e) :
    Throws depth f w (Run.exceptionOf w.nextId e) { w with nextId := w.nextId + 1 } := by
  refine .here hi ?_
  rw [step_local _ hm, hs]
  rfl

theorem moves_store (hi : f.method.code[f.pc]? = some (.store slot)) (hst : f.stack = s :: st) (hl : slot < f.locals.size) :
    Moves depth f w (f.keep slot s st (f.pc + 1)) w := moves_local hi rfl (stepLocal_store hst hl)

theorem getElem?_keep (hl : slot < f.locals.size) : (f.keep slot s st pc).locals[slot]? = some s := by
  simp only [Frame.keep, Array.getElem?_modify, if_true, Array.getElem?_eq_getElem hl, Option.map_some]

/-- An exception is thrown as it is. -/
theorem throws_exception (ht : t.IsException) (hi : f.method.code[f.pc]? = some .throw) (hst : f.stack = .obj t :: st) :
    Throws depth f w t w := by
  refine .here hi ?_
  have hpop : Frame.popValue { f with pc := f.pc + 1 } = .ok (t, { f with pc := f.pc + 1, stack := st }) :=
    Frame.popValue_cons (f := { f with pc := f.pc + 1 }) hst
  cases t with
  | exception =>
    simp only [step, hpop]
    rfl
  | _ => cases ht

theorem endsWith_return (hi : f.method.code[f.pc]? = some .return) (hst : f.stack = s :: st) (ho : o ≠ .cut) :
    EndsWith depth f w o w' ↔ (.value s.toValue, w) = (o, w') := by
  have hpop : Frame.popValue { f with pc := f.pc + 1 } = .ok (s.toValue, { f with pc := f.pc + 1, stack := st }) :=
    Frame.popValue_cons (f := { f with pc := f.pc + 1 }) hst
  have hs : step { f with pc := f.pc + 1 } .return w = (.value (.done s.toValue), w) := by
    simp only [step, hpop]
    rfl
  constructor
  · rintro ⟨n, hn⟩
    cases n with
    | zero => exact absurd (by rw [← execute_zero depth f w, hn]) ho
    | succ n => rwa [execute_done hi hs] at hn
  · intro h
    exact ⟨1, (execute_done hi hs).trans h⟩

/-- The value in the slot is returned. -/
theorem endsWith_leave {img : Image} {env : EmitEnv} {p : Nat} (hm : f.method = img.method)
    (hspans : img.Spans (.load slot :: settleCode env .result none) f.pc p) (hl : f.locals[slot]? = some s)
    (hquiet : ∀ q, f.pc ≤ q → q < p → ∀ w t, handlerFor? w img.method q t = none) (ho : o ≠ .cut) :
    EndsWith depth f w o w' ↔ (Pending.value s).deliver env.ret w = (o, w') := by
  obtain ⟨hload, hspans⟩ := hspans
  rw [← hm] at hload
  have hloaded : Moves depth f w { f with pc := f.pc + 1, stack := s :: f.stack } w := moves_local hload rfl (stepLocal_load hl)
  rw [hloaded.endsWith_iff ho]
  cases hret : env.ret with
  | none =>
    simp only [settleCode, hret, boxCode, List.nil_append] at hspans
    exact endsWith_return (hm ▸ hspans.1) rfl ho
  | some kind =>
    simp only [settleCode, hret, unboxCode, List.singleton_append] at hspans
    obtain ⟨hunbox, hbox, hreturn, hp⟩ := hspans
    cases hu : Slot.unbox s.toValue kind with
    | error e =>
      have hs : stepLocal { f with pc := f.pc + 1 + 1, stack := s :: f.stack } (.unbox kind) = .error e := by
        rw [stepLocal_unbox kind rfl, hu]
        rfl
      have ht : Throws depth { f with pc := f.pc + 1, stack := s :: f.stack } w _ _ := throws_local (hm ▸ hunbox) rfl hs
      rw [ht.endsWith_iff ho, endsAfter_uncaught (by rw [hm]; exact hquiet _ (Nat.le_succ _) (by rw [hp]; show f.pc + 1 < _; omega) _ _) ho]
      simp only [Pending.deliver, hu]
      constructor
      · rintro ⟨rfl, rfl⟩
        rfl
      · rintro h
        cases h
        exact ⟨rfl, rfl⟩
    | ok s' =>
      have hs : stepLocal { f with pc := f.pc + 1 + 1, stack := s :: f.stack } (.unbox kind) =
          .ok { f with pc := f.pc + 1 + 1, stack := s' :: f.stack } := by
        rw [stepLocal_unbox kind rfl, hu]
        rfl
      have hunboxed : Moves depth { f with pc := f.pc + 1, stack := s :: f.stack } w { f with pc := f.pc + 1 + 1, stack := s' :: f.stack } w :=
        moves_local (hm ▸ hunbox) rfl hs
      have hboxed : Moves depth { f with pc := f.pc + 1 + 1, stack := s' :: f.stack } w
          { f with pc := f.pc + 1 + 1 + 1, stack := .obj s'.toValue :: f.stack } w := moves_local (hm ▸ hbox) rfl (stepLocal_box kind rfl)
      rw [hunboxed.endsWith_iff ho, hboxed.endsWith_iff ho, endsWith_return (hm ▸ hreturn) rfl ho]
      simp only [Pending.deliver, hu]
      rfl

end

section

variable {good : CompiledUnit → Prop} {img : Image} {entry : Nat → Nat} {env : EmitEnv} {room room' : Room} {body : Expr}
variable {handlers : List (String × Nat × Expr)} {cleanup : Option Expr} {T : TryCode} {pc pc' : Nat} {w w' w₁ : World} {t : Value}
variable {depth : Nat} {ret : Option Prim} {P : Pending} {p : Piece} {f g : Frame} {o : Outcome Value} {v : CompiledUnit} {unit : Nat}

/-! ## The cleanup -/

/-- The cleanup runs, and then what was put aside is delivered. -/
def Finishes (depth : Nat) (ret : Option Prim) (P : Pending) (p : Piece) (f : Frame) (w : World) (o : Outcome Value) (w' : World) : Prop :=
  (∃ g w₁, Completes depth p f w g w₁ ∧ P.deliver ret w₁ = (o, w')) ∨ ∃ g t, Fails depth p f w g t w' ∧ o = .thrown t

theorem attempts_iff : Attempts depth T ret f w o w' ↔ ∃ P next g w₁, Attempted depth T f w P next g w₁ ∧
    next.elim (P.deliver ret w₁ = (o, w')) fun p => Finishes depth ret P p g w₁ o w' := by
  constructor
  · rintro (⟨ha, hr, hd⟩ | ⟨ha, hr⟩ | ⟨ha, hd⟩)
    · exact ⟨_, _, _, _, ha, .inl ⟨_, _, hr, hd⟩⟩
    · exact ⟨_, _, _, _, ha, .inr ⟨_, _, hr, rfl⟩⟩
    · exact ⟨_, _, _, _, ha, hd⟩
  · rintro ⟨P, _ | p, g, w₁, ha, hf⟩
    · exact .plain ha hf
    · rcases hf with ⟨h, w₂, hr, hd⟩ | ⟨h, t, hr, rfl⟩
      · exact .finished ha hr hd
      · exact .replaced ha hr

/-- The cleanup in front of code that delivers what was put aside.  Nothing in either is caught. -/
theorem endsWith_iff_finishes (hp : Confined img.method room' p) (hle : p.entry ≤ p.exit) (hc : Checked v img.method unit f w) (hpc : f.pc = p.entry)
    (hquiet : ∀ q, p.Has q → ∀ w t, handlerFor? w img.method q t = none)
    (hdeliver : ∀ {g : Frame} {w₁ : World}, Completes depth p f w g w₁ → Checked v img.method unit g w₁ →
      (EndsWith depth g w₁ o w' ↔ P.deliver ret w₁ = (o, w'))) (ho : o ≠ .cut) :
    EndsWith depth f w o w' ↔ Finishes depth ret P p f w o w' := by
  have hnone : ∀ {g : Frame} {t : Value} {w₁ : World}, Fails depth p f w g t w₁ → handlerFor? w₁ g.method g.pc t = none := by
    rintro g t w₁ ⟨w₂, hthrough, hin, _⟩
    rw [(hthrough.checked hc).method_eq]
    exact hquiet _ hin _ _
  rw [endsWith_iff_piece hp hc hpc hle ho]
  refine or_congr ⟨?_, ?_⟩ ⟨?_, ?_⟩
  · rintro ⟨g, w₁, hr, he⟩
    exact ⟨g, w₁, hr, (hdeliver hr (hr.through.checked hc)).1 he⟩
  · rintro ⟨g, w₁, hr, hd⟩
    exact ⟨g, w₁, hr, (hdeliver hr (hr.through.checked hc)).2 hd⟩
  · rintro ⟨g, t, w₁, hr, he⟩
    obtain ⟨rfl, rfl⟩ := (endsAfter_uncaught (hnone hr) ho).1 he
    exact ⟨g, t, hr, rfl⟩
  · rintro ⟨g, t, hr, rfl⟩
    exact ⟨g, t, w', hr, (endsAfter_uncaught (hnone hr) ho).2 ⟨rfl, rfl⟩⟩

/-- The top of the stack is put into a slot. -/
theorem Checked.keeps (hc : Checked v img.method unit f w) {slot : Nat} (hi : img.method.code[f.pc]? = some (.store slot)) :
    ∃ s st, f.stack = s :: st ∧ (∀ depth, Moves depth f w (f.keep slot s st (f.pc + 1)) w) ∧
      (f.keep slot s st (f.pc + 1)).locals[slot]? = some s := by
  have hpops := hc.pops hi
  have hslot := hc.slot_lt hi rfl
  cases hst : f.stack with
  | nil =>
    rw [hst] at hpops
    cases hpops
  | cons s st => exact ⟨s, st, rfl, fun _ => moves_store (hc.method_eq ▸ hi) hst hslot, getElem?_keep hslot⟩

/-- The result of the body or of a clause is kept while the cleanup runs, and then it is returned. -/
theorem endsWith_iff_concludes {finish : Region} {resultSlot z : Nat} {stop : Label} {b : Piece}
    (h : Concludes img entry env .result finish resultSlot stop b p z) (hp : Confined img.method room' p) (hroom : room'.inHandler = true)
    (hfloor : resultSlot < room'.floor) (hquiet : ∀ q, p.entry ≤ q → q < z → ∀ w t, handlerFor? w img.method q t = none)
    (hc : Checked v img.method unit f w) (hpc : f.pc = b.exit) (ho : o ≠ .cut) :
    ∃ s st, f.stack = s :: st ∧
      (EndsWith depth f w o w' ↔ Finishes depth env.ret (.value s) p (f.keep resultSlot s st p.entry) w o w') := by
  obtain ⟨s, st, hst, hm, hl⟩ := hc.keeps (hpc ▸ h.save)
  have hck := hc.goes (hm depth).goes
  rw [hpc, ← h.next] at hm hl hck
  refine ⟨s, st, hst, ((hm depth).endsWith_iff ho).trans ?_⟩
  obtain ⟨z', hspans, hz'⟩ := h.leave
  have hlt := h.cleanup_lt
  refine endsWith_iff_finishes hp h.forward hck rfl (fun q hq => hquiet q hq.1 (Nat.lt_trans hq.2 hlt)) (fun hr hcg => ?_) ho
  have hg := hr.through.kept hp hroom hck resultSlot hfloor
  rw [hl] at hg
  refine endsWith_leave hcg.method_eq (hr.behind ▸ hspans) hg (fun q hq hq' => ?_) ho
  exact hquiet q (Nat.le_trans h.forward (hr.behind ▸ hq)) (Nat.lt_of_lt_of_le hq' hz')

/-- The exception is kept while the cleanup runs, and then it is thrown again. -/
theorem endsWith_iff_rethrow {finish : Region} {thrownSlot z z' : Nat} {r : RethrowCode}
    (h : r.Stands img entry finish thrownSlot z z') (hp : Confined img.method room' r.cleanup) (hroom : room'.inHandler = true)
    (hfloor : thrownSlot < room'.floor) (hquiet : ∀ q, r.cleanup.entry ≤ q → q < z' → ∀ w t, handlerFor? w img.method q t = none)
    (ht : t.IsException) (hc : Checked v img.method unit f w) (hpc : f.pc = r.entry) (hst : f.stack = [.obj t]) (ho : o ≠ .cut) :
    EndsWith depth f w o w' ↔ Finishes depth ret (.exception t) r.cleanup (f.keep thrownSlot (.obj t) [] r.cleanup.entry) w o w' := by
  obtain ⟨s, st, hst', hm, hl⟩ := hc.keeps (hpc ▸ h.keep)
  rw [hst] at hst'
  cases hst'
  have hck := hc.goes (hm depth).goes
  rw [hpc, ← h.next] at hm hl hck
  rw [(hm depth).endsWith_iff ho]
  have hlast := h.last
  refine endsWith_iff_finishes hp h.forward hck rfl (fun q hq => hquiet q hq.1 (by have := hq.2; omega)) (fun {g w₁} hr hcg => ?_) ho
  have hg := hr.through.kept hp hroom hck thrownSlot hfloor
  rw [hl] at hg
  have hbehind := hr.behind
  have hload : g.method.code[g.pc]? = some (.load thrownSlot) := by rw [hcg.method_eq, hbehind]; exact h.load
  have hthrow : g.method.code[g.pc + 1]? = some .throw := by rw [hcg.method_eq, hbehind]; exact h.throw
  have hloaded : Moves depth g w₁ { g with pc := g.pc + 1, stack := .obj t :: g.stack } w₁ := moves_local hload rfl (stepLocal_load hg)
  have hthrown : Throws depth { g with pc := g.pc + 1, stack := .obj t :: g.stack } w₁ t w₁ := throws_exception ht hthrow rfl
  have hforward := h.forward
  have hnone : handlerFor? w₁ g.method (g.pc + 1) t = none := by
    rw [hcg.method_eq]
    exact hquiet _ (by omega) (by omega) _ _
  rw [hloaded.endsWith_iff ho, hthrown.endsWith_iff ho, endsAfter_uncaught hnone ho]
  constructor
  · rintro ⟨rfl, rfl⟩
    rfl
  · intro hd
    cases hd
    exact ⟨rfl, rfl⟩

/-! ## The outcome -/

/-- What is laid out keeps control. -/
theorem Confined.of_region {A : Region} {k : Nat} {hs : List Handler} (hA : A.Confined img room' p.entry p.exit)
    (h : A img entry k p.entry p.exit hs) : Confined img.method room' p :=
  fun q hq => hA.stays h (Nat.le_refl _) (Nat.le_refl _) q hq.1 hq.2

theorem Installed.confined_body (hT : Installed good img entry env room body handlers cleanup T pc pc') :
    Confined img.method (room.above (T.thrownSlot + 1)) T.body := by
  have hm : (room.above (T.thrownSlot + 1)).method = some env.frame := hT.method
  obtain ⟨k, hlaid⟩ := hT.stands.body
  exact .of_region (confined_laid hm rebinds_none Dest.noConfusion body hT.body) hlaid

theorem Installed.confined_cleanup (hT : Installed good img entry env room body handlers cleanup T pc pc') {k : Nat}
    (h : LaidOption env .statement cleanup img entry k p.entry p.exit []) : Confined img.method (room.above (T.thrownSlot + 1)).handling p := by
  have hm : (room.above (T.thrownSlot + 1)).handling.method = some env.frame := hT.method
  exact .of_region (confined_laidOption hm Dest.noConfusion cleanup hT.cleanup) h

theorem Installed.confined_clause (hT : Installed good img entry env room body handlers cleanup T pc pc') {h : String × Nat × Expr}
    (hh : h ∈ handlers) {k : Nat} (hlaid : Laid env .boxed h.2.2 img entry k p.entry p.exit []) :
    Confined img.method (room.above (T.thrownSlot + 1)).handling p := by
  have hm : (room.above (T.thrownSlot + 1)).handling.method = some env.frame := hT.method
  exact .of_region (confined_laid hm rebinds_none Dest.noConfusion h.2.2 ((Expr.fittedHandlers_iff _).1 hT.handlers h hh).2) hlaid

/-- After the body the cleanup runs, and its value is the result. -/
theorem Installed.returned (hT : Installed good img entry env room body handlers cleanup T pc pc') (hc : Checked v img.method unit f w)
    (hpc : f.pc = T.body.exit) (ho : o ≠ .cut) : ∃ s st, f.stack = s :: st ∧
      (EndsWith depth f w o w' ↔ Finishes depth env.ret (.value s) T.cleanup (f.keep T.resultSlot s st T.cleanup.entry) w o w') := by
  obtain ⟨p, p', hmain, hcatches, hp, hp', _⟩ := hT.stands.parts
  obtain ⟨k, hclean⟩ := hmain.finish
  have hnext := hmain.next
  refine endsWith_iff_concludes hmain (hT.confined_cleanup hclean) rfl (Nat.lt_succ_of_lt hT.slots) (fun q hq hq' w t => ?_) hc hpc ho
  refine hT.handlerFor?_quiet (by omega) (by omega) fun c hc => ?_
  obtain ⟨_, _, z, z', hstands, hz, _⟩ := hcatches.mem CatchCode.Stands.le c hc
  have hstart := hstands.entry
  exact .inl (by omega)

/-- After a clause the cleanup runs, and the value of the clause is the result. -/
theorem Installed.caught (hT : Installed good img entry env room body handlers cleanup T pc pc') {c : CatchCode} (hmem : c ∈ T.catches)
    (hc : Checked v img.method unit f w) (hpc : f.pc = c.body.exit) (ho : o ≠ .cut) : ∃ s st, f.stack = s :: st ∧
      (EndsWith depth f w o w' ↔ Finishes depth env.ret (.value s) c.cleanup (f.keep T.resultSlot s st c.cleanup.entry) w o w') := by
  obtain ⟨p, p', hmain, hcatches, hp, hp', _⟩ := hT.stands.parts
  obtain ⟨_, _, z, z', hstands, hz, hz', hothers⟩ := hcatches.others CatchCode.Stands.le c hmem
  obtain ⟨k, hclean⟩ := hstands.concludes.finish
  have hbody := hmain.body_lt
  have hnext := hstands.concludes.next
  have hstart := hstands.entry_lt
  have hentry := hstands.entry
  refine endsWith_iff_concludes hstands.concludes (hT.confined_cleanup hclean) rfl (Nat.lt_succ_of_lt hT.slots) (fun q hq hq' w t => ?_) hc hpc ho
  refine hT.handlerFor?_quiet (by omega) (by omega) fun c' hc' => ?_
  rcases hothers c' hc' with rfl | ⟨_, y, y', hstands', hapart⟩
  · exact .inr (by omega)
  · have hin' := hstands'.concludes.body_lt
    have hstart' := hstands'.entry
    omega

/-- An exception that no clause catches, or that a clause throws, is thrown again after the cleanup. -/
theorem Installed.uncaught (hT : Installed good img entry env room body handlers cleanup T pc pc') (hc : Checked v img.method unit g w)
    (hthrows : Throws depth g w t w₁) (hh : handlerFor? w₁ img.method g.pc t = T.rethrow.map (·.entry)) (ho : o ≠ .cut) :
    EndsAfter depth g t w₁ o w' ↔ (T.rethrow.map (·.cleanup)).elim ((Pending.exception t).deliver ret w₁ = (o, w'))
      fun p => Finishes depth ret (.exception t) p (T.aside g t) w₁ o w' := by
  rw [← hc.method_eq] at hh
  cases hr : T.rethrow with
  | none =>
    rw [hr] at hh
    rw [endsAfter_uncaught hh ho]
    constructor
    · rintro ⟨rfl, rfl⟩
      rfl
    · intro hd
      cases hd
      exact ⟨rfl, rfl⟩
  | some r =>
    rw [hr] at hh
    obtain ⟨p, p', hmain, hcatches, hp, hp', hrethrow⟩ := hT.stands.parts
    have hstands := hrethrow r hr
    obtain ⟨k, hclean⟩ := hstands.finish
    have hbody := hmain.body_lt
    have hnext := hstands.next
    have hentry := hstands.entry
    have haside : T.aside g t = g.keep T.thrownSlot (.obj t) [] r.cleanup.entry := by simp only [TryCode.aside, hr]
    rw [endsAfter_caught hh ho, Option.map_some, Option.elim_some, haside]
    refine endsWith_iff_rethrow hstands (hT.confined_cleanup hclean) rfl (Nat.lt_succ_self _) (fun q hq hq' w t => ?_) hthrows.isException
      (hc.goes (hthrows.goes hh)) rfl rfl ho
    refine hT.handlerFor?_quiet (by omega) hq' fun c hc => ?_
    obtain ⟨_, _, z, z', hstands', _, hz'⟩ := hcatches.mem CatchCode.Stands.le c hc
    have hin := hstands'.concludes.body_lt
    exact .inr (by omega)

/-- A clause starts with keeping the exception. -/
theorem Installed.enters (hT : Installed good img entry env room body handlers cleanup T pc pc') {c : CatchCode} (hmem : c ∈ T.catches)
    (hc : Checked v img.method unit g w) (hthrows : Throws depth g w t w₁) (hh : handlerFor? w₁ img.method g.pc t = some c.entry) :
    Moves depth { g with stack := [.obj t], pc := c.entry } w₁ (g.keep c.slot (.obj t) [] c.body.entry) w₁ ∧
      Checked v img.method unit (g.keep c.slot (.obj t) [] c.body.entry) w₁ := by
  obtain ⟨_, _, _, hcatches, _⟩ := hT.stands.parts
  obtain ⟨_, _, _, _, hstands, _⟩ := hcatches.mem CatchCode.Stands.le c hmem
  rw [← hc.method_eq] at hh
  have hcaught := hc.goes (hthrows.goes hh)
  obtain ⟨s, st, hst, hm, _⟩ := hcaught.keeps hstands.keep
  cases hst
  have hkept := hcaught.goes (hm depth).goes
  rw [hstands.next]
  exact ⟨hm depth, hkept⟩

/-- An exception that a clause catches: the clause runs. -/
theorem Installed.endsAfter_clause (hT : Installed good img entry env room body handlers cleanup T pc pc') {c : CatchCode} (hmem : c ∈ T.catches)
    (hc : Checked v img.method unit g w) (hthrows : Throws depth g w t w₁) (hh : handlerFor? w₁ img.method g.pc t = some c.entry) (ho : o ≠ .cut) :
    EndsAfter depth g t w₁ o w' ↔
      (∃ h w₂, Completes depth c.body (g.keep c.slot (.obj t) [] c.body.entry) w₁ h w₂ ∧ EndsWith depth h w₂ o w') ∨
      ∃ h t' w₂, Fails depth c.body (g.keep c.slot (.obj t) [] c.body.entry) w₁ h t' w₂ ∧ EndsAfter depth h t' w₂ o w' := by
  obtain ⟨_, _, _, hcatches, _⟩ := hT.stands.parts
  obtain ⟨h, hh', _, _, hstands, _⟩ := hcatches.mem CatchCode.Stands.le c hmem
  obtain ⟨k, hlaid⟩ := hstands.body
  obtain ⟨hm, hk⟩ := hT.enters hmem hc hthrows hh
  rw [← hc.method_eq] at hh
  rw [endsAfter_caught hh ho, hm.endsWith_iff ho]
  exact endsWith_iff_piece (hT.confined_clause hh' hlaid) hk rfl hstands.forward ho

/-- **The code of a `try` does what a `try` does.** -/
theorem endsWith_iff_attempts (hT : Installed good img entry env room body handlers cleanup T pc pc') (hc : Checked v img.method unit f w)
    (hpc : f.pc = T.body.entry) (ho : o ≠ .cut) : EndsWith depth f w o w' ↔ Attempts depth T env.ret f w o w' := by
  rw [attempts_iff, endsWith_iff_piece hT.confined_body hc hpc hT.stands.forward ho]
  -- what is known where the body throws, and where a clause throws
  have hbody : ∀ {g : Frame} {t : Value} {w₁ : World}, Fails depth T.body f w g t w₁ → ∃ w₂, Checked v img.method unit g w₂ ∧
      Throws depth g w₂ t w₁ ∧ handlerFor? w₁ img.method g.pc t = ((T.clauseFor? w₁ t).map (·.entry)).or (T.rethrow.map (·.entry)) := by
    rintro g t w₁ ⟨w₂, hthrough, hin, hthrows⟩
    exact ⟨w₂, hthrough.checked hc, hthrows, hT.handlerFor?_body hin.1 (Nat.le_of_lt hin.2)⟩
  have hclause : ∀ {c : CatchCode} {g h : Frame} {t : Value} {w₁ w₂ : World}, c ∈ T.catches → Checked v img.method unit g w₁ →
      Fails depth c.body g w₁ h t w₂ → (EndsAfter depth h t w₂ o w' ↔
        (T.rethrow.map (·.cleanup)).elim ((Pending.exception t).deliver env.ret w₂ = (o, w'))
          fun p => Finishes depth env.ret (.exception t) p (T.aside h t) w₂ o w') := by
    rintro c g h t w₁ w₂ hmem hg ⟨w₃, hthrough, hin, hthrows⟩
    have hentry := hT.entry_le hmem
    exact hT.uncaught (hthrough.checked hg) hthrows (hT.handlerFor?_clause hmem (Nat.le_trans hentry hin.1) (Nat.le_of_lt hin.2)) ho
  constructor
  · rintro (⟨g, w₁, hr, he⟩ | ⟨g, t, w₁, hr, he⟩)
    · obtain ⟨s, st, hst, hiff⟩ := hT.returned (hr.through.checked hc) hr.behind ho
      exact ⟨_, _, _, _, .returned hr hst, hiff.1 he⟩
    · obtain ⟨w₂, hg, hthrows, hh⟩ := hbody hr
      cases hcatch : T.clauseFor? w₁ t with
      | none =>
        rw [hcatch] at hh
        exact ⟨_, _, _, _, .uncaught hr hcatch, (hT.uncaught hg hthrows hh ho).1 he⟩
      | some c =>
        rw [hcatch] at hh
        have hmem := List.mem_of_find?_eq_some hcatch
        obtain ⟨_, hk⟩ := hT.enters hmem hg hthrows hh
        rcases (hT.endsAfter_clause hmem hg hthrows hh ho).1 he with ⟨h, w₃, hr', he'⟩ | ⟨h, t', w₃, hr', he'⟩
        · obtain ⟨s, st, hst, hiff⟩ := hT.caught hmem (hr'.through.checked hk) hr'.behind ho
          exact ⟨_, _, _, _, .caught hr hcatch hr' hst, hiff.1 he'⟩
        · exact ⟨_, _, _, _, .escaped hr hcatch hr', (hclause hmem hk hr').1 he'⟩
  · rintro ⟨P, next, g, w₁, ha, hf⟩
    cases ha with
    | returned hr hst =>
      obtain ⟨s, st, hst', hiff⟩ := hT.returned (hr.through.checked hc) hr.behind ho
      rw [hst] at hst'
      cases hst'
      exact .inl ⟨_, _, hr, hiff.2 hf⟩
    | uncaught hr hcatch =>
      obtain ⟨w₂, hg, hthrows, hh⟩ := hbody hr
      rw [hcatch] at hh
      exact .inr ⟨_, _, _, hr, (hT.uncaught hg hthrows hh ho).2 hf⟩
    | caught hr hcatch hr' hst =>
      obtain ⟨w₂, hg, hthrows, hh⟩ := hbody hr
      rw [hcatch] at hh
      have hmem := List.mem_of_find?_eq_some hcatch
      obtain ⟨_, hk⟩ := hT.enters hmem hg hthrows hh
      obtain ⟨s, st, hst', hiff⟩ := hT.caught hmem (hr'.through.checked hk) hr'.behind ho
      rw [hst] at hst'
      cases hst'
      exact .inr ⟨_, _, _, hr, (hT.endsAfter_clause hmem hg hthrows hh ho).2 (.inl ⟨_, _, hr', hiff.2 hf⟩)⟩
    | escaped hr hcatch hr' =>
      obtain ⟨w₂, hg, hthrows, hh⟩ := hbody hr
      rw [hcatch] at hh
      have hmem := List.mem_of_find?_eq_some hcatch
      obtain ⟨_, hk⟩ := hT.enters hmem hg hthrows hh
      exact .inr ⟨_, _, _, hr, (hT.endsAfter_clause hmem hg hthrows hh ho).2 (.inr ⟨_, _, _, hr', (hclause hmem hk hr').2 hf⟩)⟩

end

/-! ## Compiled methods -/

section

variable {good : CompiledUnit → Prop} {c : Context} {obj : Nat} {pool pool' : Pool} {m : FnMethod} {code : Method}

/-- The code of a `try` that stands at the end of another expression. -/
theorem installed_of_sits {img : Image} {entry : Nat → Nat} {env : EmitEnv} {room : Room} {body : Expr} {handlers : List (String × Nat × Expr)}
    {cleanup : Option Expr} {resultSlot thrownSlot pc pc' : Nat} (hm : room.method = some env.frame)
    (h : Sits good img entry env .result room true (.attempt body handlers cleanup resultSlot thrownSlot) pc pc' img.method.handlers) :
    ∃ head T p p', Installed good img entry { env with loopHead := head } room body handlers cleanup T p p' ∧
      T.resultSlot = resultSlot ∧ T.thrownSlot = thrownSlot := by
  obtain ⟨head, _, k, p, p', before, own, after, hown, ⟨_, _, hthrown, hbody, hhandlers, hcleanup⟩, _, _, htable, hapart⟩ := h
  have hframed : (Laid { env with loopHead := head } .boxed body).Framed false := framed_laid .boxed body hbody
  have hclauses : ∀ h ∈ handlers, (Laid { env with loopHead := head } .boxed h.2.2).Framed false := framed_laidHandlers handlers hhandlers
  have hclean : (LaidOption { env with loopHead := head } .statement cleanup).Framed false := framed_laidOption .statement cleanup hcleanup
  obtain ⟨T, hT, rfl⟩ := stand_laid hframed hclauses hclean hown
  obtain rfl := hT.result
  obtain rfl := hT.thrown
  exact ⟨head, T, p, p', ⟨hT, hm, hthrown.free, hbody, hhandlers, hcleanup, before, after, htable, hapart⟩, rfl, rfl⟩

/-- **A `try` has its usual meaning.**  A run from the start of its code ends as the `try` says. -/
theorem try_endsWith_iff {body : Expr} {handlers : List (String × Nat × Expr)} {cleanup : Option Expr} {resultSlot thrownSlot : Nat}
    (hf : m.Fitted good c) (h : Emit.method c obj pool m = .ok (code, pool'))
    (ht : Expr.Tail (.attempt body handlers cleanup resultSlot thrownSlot) m.body) : ∃ entry head T pc pc',
      TryCode.Stands ⟨code, pool'⟩ entry { context := c, obj, frame := m.frame, ret := m.ret, loopHead := head } .result
        body handlers cleanup resultSlot thrownSlot T pc pc' ∧
      ∀ {depth unit : Nat} {v : CompiledUnit} {f : Frame} {w w' : World} {o : Outcome Value}, Checked v code unit f w → f.pc = pc → o ≠ .cut →
        (EndsWith depth f w o w' ↔ Attempts depth T m.ret f w o w') := by
  obtain ⟨entry, hlaid⟩ := laid_method h
  obtain ⟨loop, hfit⟩ := hf
  obtain ⟨head, T, pc, pc', hT, rfl, rfl⟩ := installed_of_sits rfl (contains_tail ht hfit hlaid)
  exact ⟨entry, head, T, pc, pc', hT.stands, fun hc hpc ho => endsWith_iff_attempts hT hc (hpc.trans hT.stands.entry.symm) ho⟩

end

end Machine

end LispMachine
