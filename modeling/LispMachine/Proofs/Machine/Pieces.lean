import LispMachine.Proofs.Emit.Confined
import LispMachine.Proofs.Machine.Comes
import LispMachine.Proofs.Run.Returns
/-!
# Runs of pieces

A frame in a piece of code goes through the piece without an exception and stands behind it (`Completes`), or it
comes to an instruction that throws (`Fails`).  Neither looks at the handlers of the method, so these say what
the piece does by itself.  If control stays in the piece then every run that comes to an end does one of the
two (`endsWith_iff_piece`).
-/
namespace LispMachine.Machine

variable {depth : Nat} {f g h : Frame} {w w' w₁ w₂ : World} {o : Outcome Value} {t : Value}

/-! ## Moves without exceptions -/

/-- The instruction of the frame goes on, or what it calls returns. -/
inductive Moves (depth : Nat) : Frame → World → Frame → World → Prop
  | next {f g : Frame} {i : Instr} {w w' : World} : f.method.code[f.pc]? = some i →
      step { f with pc := f.pc + 1 } i w = (.value (.next g), w') → Moves depth f w g w'
  | called {f g : Frame} {i : Instr} {a : Answer} {v : Value} {n : Nat} {w w' w'' : World} :
      f.method.code[f.pc]? = some i → step { f with pc := f.pc + 1 } i w = (.value (.call g a), w') →
      answer n depth a w' = (.value v, w'') → Moves depth f w (g.pushValue v) w''

/-- The instruction of the frame, or what it calls, throws. -/
inductive Throws (depth : Nat) : Frame → World → Value → World → Prop
  | here {f : Frame} {i : Instr} {t : Value} {w w' : World} : f.method.code[f.pc]? = some i →
      step { f with pc := f.pc + 1 } i w = (.thrown t, w') → Throws depth f w t w'
  | inCall {f g : Frame} {i : Instr} {a : Answer} {t : Value} {n : Nat} {w w' w'' : World} :
      f.method.code[f.pc]? = some i → step { f with pc := f.pc + 1 } i w = (.value (.call g a), w') →
      answer n depth a w' = (.thrown t, w'') → Throws depth f w t w''

theorem Moves.goes (h : Moves depth f w g w') : Goes depth f w g w' := by
  cases h with
  | next hi hs => exact .next hi hs
  | called hi hs ha => exact .called hi hs ha

theorem Throws.goes (h : Throws depth f w t w') {pc : Nat} (hh : handlerFor? w' f.method f.pc t = some pc) :
    Goes depth f w { f with stack := [.obj t], pc } w' := by
  cases h with
  | here hi hs => exact .caught hi hs hh
  | inCall hi hs ha => exact .caughtCall hi hs ha hh

/-- What is thrown is an exception. -/
theorem Throws.isException (h : Throws depth f w t w') : t.IsException := by
  cases h with
  | here hi hs => exact (keeps_step { f with pc := f.pc + 1 } _ w).exceptions t (by rw [hs])
  | inCall hi hs ha =>
    rename_i i a n w₁
    exact ((keepsWithin n).answer depth a w₁).exceptions t (by rw [ha])

/-! ## How a run ends -/

/-- The run from this frame comes to an end, with this outcome. -/
def EndsWith (depth : Nat) (f : Frame) (w : World) (o : Outcome Value) (w' : World) : Prop := ∃ n, execute n depth f w = (o, w')

/-- The run comes to an end after the frame was left by an exception. -/
def EndsAfter (depth : Nat) (f : Frame) (t : Value) (w : World) (o : Outcome Value) (w' : World) : Prop :=
  ∃ n, resume n depth f t w = (o, w')

theorem resume_of_le {m n : Nat} (hmn : m ≤ n) (h : resume m depth f t w = (o, w')) (ho : o ≠ .cut) :
    resume n depth f t w = (o, w') := by
  have he := extends_of_le (x := fun n => resume n depth f t) (fun n => (settlesWithin n).resume depth f t) hmn w
  rw [h] at he
  exact he ho

theorem Moves.endsWith_iff (h : Moves depth f w g w₁) (ho : o ≠ .cut) : EndsWith depth f w o w' ↔ EndsWith depth g w₁ o w' := by
  constructor
  · rintro ⟨n, hn⟩
    cases n with
    | zero => exact absurd (by rw [← execute_zero depth f w, hn]) ho
    | succ n =>
      cases h with
      | next hi hs => exact ⟨n, (execute_next hi hs).symm.trans hn⟩
      | called hi hs ha =>
        rename_i a _ k _
        rcases he : answer n depth a _ with ⟨o', w₂⟩
        obtain rfl | ⟨rfl, rfl⟩ := answer_cut_of_le he ha
        · rw [execute_callSpent hi hs he] at hn
          exact absurd (Prod.mk.inj hn).1.symm ho
        · exact ⟨n, (execute_called hi hs he).symm.trans hn⟩
  · rintro ⟨n, hn⟩
    obtain ⟨k, hk⟩ := h.goes.execute_eq (n := n) (by rw [hn]; exact ho)
    exact ⟨k, hk.trans hn⟩

theorem Throws.endsWith_iff (h : Throws depth f w t w₁) (ho : o ≠ .cut) : EndsWith depth f w o w' ↔ EndsAfter depth f t w₁ o w' := by
  constructor
  · rintro ⟨n, hn⟩
    cases n with
    | zero => exact absurd (by rw [← execute_zero depth f w, hn]) ho
    | succ n =>
      cases h with
      | here hi hs => exact ⟨n, (execute_thrown hi hs).symm.trans hn⟩
      | inCall hi hs ha =>
        rename_i a k _
        rcases he : answer n depth a _ with ⟨o', w₂⟩
        obtain rfl | ⟨rfl, rfl⟩ := answer_thrown_of_le he ha
        · rw [execute_callSpent hi hs he] at hn
          exact absurd (Prod.mk.inj hn).1.symm ho
        · exact ⟨n, (execute_callThrown hi hs he).symm.trans hn⟩
  · rintro ⟨n, hn⟩
    cases h with
    | here hi hs => exact ⟨n + 1, (execute_thrown hi hs).trans hn⟩
    | inCall hi hs ha =>
      rename_i k _
      refine ⟨max k n + 1, ?_⟩
      rw [execute_callThrown hi hs (answer_of_le (Nat.le_max_left k n) ha (by simp))]
      exact resume_of_le (Nat.le_max_right k n) hn ho

theorem endsAfter_caught {pc : Nat} (hh : handlerFor? w f.method f.pc t = some pc) (ho : o ≠ .cut) :
    EndsAfter depth f t w o w' ↔ EndsWith depth { f with stack := [.obj t], pc } w o w' := by
  constructor
  · rintro ⟨n, hn⟩
    cases n with
    | zero =>
      simp only [resume] at hn
      exact absurd (Prod.mk.inj hn).1.symm ho
    | succ n => exact ⟨n, (resume_caught hh).symm.trans hn⟩
  · rintro ⟨n, hn⟩
    exact ⟨n + 1, (resume_caught hh).trans hn⟩

theorem endsAfter_uncaught (hh : handlerFor? w f.method f.pc t = none) (ho : o ≠ .cut) :
    EndsAfter depth f t w o w' ↔ o = .thrown t ∧ w' = w := by
  constructor
  · rintro ⟨n, hn⟩
    cases n with
    | zero =>
      simp only [resume] at hn
      exact absurd (Prod.mk.inj hn).1.symm ho
    | succ n =>
      rw [resume_uncaught hh] at hn
      cases hn
      exact ⟨rfl, rfl⟩
  · rintro ⟨rfl, rfl⟩
    exact ⟨1, resume_uncaught hh⟩

/-! ## Pieces -/

/-- The frame makes any number of moves, each from inside the piece. -/
inductive Through (depth : Nat) (p : Piece) : Frame → World → Frame → World → Prop
  | refl (f : Frame) (w : World) : Through depth p f w f w
  | step {f g h : Frame} {w w' w'' : World} : p.Has f.pc → Moves depth f w g w' → Through depth p g w' h w'' → Through depth p f w h w''

/-- The frame goes through the piece and then stands behind it. -/
structure Completes (depth : Nat) (p : Piece) (f : Frame) (w : World) (g : Frame) (w' : World) : Prop where
  through : Through depth p f w g w'
  behind : g.pc = p.exit

/-- The frame goes through the piece to a place where an exception is thrown. -/
def Fails (depth : Nat) (p : Piece) (f : Frame) (w : World) (g : Frame) (t : Value) (w' : World) : Prop :=
  ∃ w₁, Through depth p f w g w₁ ∧ p.Has g.pc ∧ Throws depth g w₁ t w'

variable {p : Piece}

theorem Through.endsWith_iff (h : Through depth p f w g w₁) (ho : o ≠ .cut) : EndsWith depth f w o w' ↔ EndsWith depth g w₁ o w' := by
  induction h with
  | refl => rfl
  | step _ hm _ ih => exact (hm.endsWith_iff ho).trans ih

theorem Fails.endsWith_iff (h : Fails depth p f w g t w₁) (ho : o ≠ .cut) : EndsWith depth f w o w' ↔ EndsAfter depth g t w₁ o w' := by
  obtain ⟨w₂, hr, _, ht⟩ := h
  exact (hr.endsWith_iff ho).trans (ht.endsWith_iff ho)

/-- Control stays in the piece. -/
def Confined (m : Method) (room : Room) (p : Piece) : Prop := ∀ q, p.Has q → ∃ j, m.code[q]? = some j ∧ j.Stays m p.entry p.exit room

/-! ## Checked frames -/

/-- The frame is one of a checked method whose unit is loaded. -/
structure Checked (v : CompiledUnit) (m : Method) (unit : Nat) (f : Frame) (w : World) : Prop where
  settled : ∃ depths, m.Balanced depths ∧ Settled m depths unit f
  verified : m.Verified v.limits
  loaded : ∃ l, w.units[unit]? = some l ∧ l.Linked ∧ l.unit = v

variable {v : CompiledUnit} {m : Method} {unit : Nat} {room : Room} {i : Instr}

theorem Checked.in_world (h : Checked v m unit f w) (hc : w'.code = w.code) : Checked v m unit f w' := by
  obtain ⟨l, hl, hk, he⟩ := h.loaded
  obtain ⟨l', hl', he'⟩ := World.unit_of_code_eq hc hl
  exact ⟨h.settled, h.verified, l', hl', World.linked_of_linked_eq he' hk, (LinkedCode.mk.inj he').1.trans he⟩

theorem Checked.goes (h : Checked v m unit f w) (hg : Goes depth f w g w') : Checked v m unit g w' := by
  obtain ⟨depths, hb, hs⟩ := h.settled
  obtain ⟨l, hl, hk, rfl⟩ := h.loaded
  have h' := h.in_world hg.code_eq
  exact ⟨⟨depths, hb, hs.goes hb h.verified hl hk hg⟩, h.verified, h'.loaded⟩

theorem Checked.method_eq (h : Checked v m unit f w) : f.method = m := by
  obtain ⟨_, _, hs⟩ := h.settled
  exact hs.method_eq

theorem Checked.followed (h : Checked v m unit f w) {a : Action} (hi : m.code[f.pc]? = some i)
    (hs : step { f with pc := f.pc + 1 } i w = (.value a, w')) : a.FollowedBy { f with pc := f.pc + 1 } f.pc i := by
  obtain ⟨depths, hb, hset⟩ := h.settled
  obtain ⟨l, hl, hk, rfl⟩ := h.loaded
  exact (hset.step hb h.verified hl hk).2 i a w' hi hs

/-- The instruction finds what it pops, and the slot that it names. -/
theorem Checked.pops (h : Checked v m unit f w) (hi : m.code[f.pc]? = some i) : i.effect.1 ≤ f.stack.length := by
  obtain ⟨depths, hb, hset⟩ := h.settled
  obtain ⟨j, hj, hp, _⟩ := hb.flow _ _ hset.height
  rw [hi] at hj
  cases hj
  exact hp

theorem Checked.slot_lt (h : Checked v m unit f w) (hi : m.code[f.pc]? = some i) {slot : Nat} (hs : Verify.localOf? i = some slot) :
    slot < f.locals.size := by
  obtain ⟨depths, hb, hset⟩ := h.settled
  exact Nat.lt_of_lt_of_le ((h.verified.inRange i (Array.mem_toList_iff.2 (Array.mem_of_getElem? hi))).slot slot hs) hset.room

/-- Where control can be after a move. -/
theorem follows_pc {pc : Nat} (hf : Frame.Follows f pc i g) : (i.isTerminal = false ∧ g.pc = pc + 1) ∨ ∃ l ∈ i.targets, f.method.labelPc? l = some g.pc := by
  have hs := hf.successor
  simp only [Verify.successors, List.mem_reverse] at hs
  have hjump : (g.pc, g.stack.length) ∈ (i.targets.filterMap f.method.labelPc?).map
      (fun pc' => (pc', f.stack.length - i.effect.1 + i.effect.2)) → ∃ l ∈ i.targets, f.method.labelPc? l = some g.pc := by
    intro hs
    obtain ⟨pc', hpc', he⟩ := List.mem_map.1 hs
    cases (Prod.mk.inj he).1
    exact List.mem_filterMap.1 hpc'
  split at hs
  · exact .inr (hjump hs)
  · rename_i ht
    rcases List.mem_append.1 hs with hs | hs
    · exact .inr (hjump hs)
    · exact .inl ⟨Bool.eq_false_iff.2 ht, (Prod.mk.inj (List.mem_singleton.1 hs)).1⟩

/-- The instruction hands the frame on to one that follows. -/
theorem Checked.moves_follows (h : Checked v m unit f w) (hi : m.code[f.pc]? = some i) (hm : Moves depth f w g w') :
    Frame.Follows { f with pc := f.pc + 1 } f.pc i g := by
  have hsame : ∀ {j : Instr}, f.method.code[f.pc]? = some j → j = i := by
    intro j hj
    rw [h.method_eq, hi] at hj
    exact (Option.some.inj hj).symm
  cases hm with
  | next hj hs =>
    cases hsame hj
    exact h.followed hi hs
  | called hj hs ha =>
    cases hsame hj
    exact h.followed hi hs _

/-- A move from inside the piece does not leave it but at its end, and in a handler it spares the slots that are
taken. -/
theorem Checked.moves_confined (h : Checked v m unit f w) (hp : Confined m room p) (hin : p.Has f.pc) (hm : Moves depth f w g w') :
    (p.entry ≤ g.pc ∧ g.pc ≤ p.exit) ∧ (room.inHandler = true → ∀ slot < room.floor, g.locals[slot]? = f.locals[slot]?) := by
  obtain ⟨i, hi, hstays⟩ := hp _ hin
  have hf := h.moves_follows hi hm
  refine ⟨?_, fun hh slot hslot => ?_⟩
  · rcases follows_pc hf with ⟨_, hpc⟩ | ⟨l, hl, hpc⟩
    · rw [hpc]
      exact ⟨Nat.le_succ_of_le hin.1, hin.2⟩
    · exact hstays.inside l hl _ (h.method_eq ▸ hpc)
  · exact hf.kept slot fun hw => absurd (hstays.spares hh slot hw) (Nat.not_le.2 hslot)

theorem Through.checked (hr : Through depth p f w g w') (h : Checked v m unit f w) : Checked v m unit g w' := by
  induction hr with
  | refl => exact h
  | step _ hm _ ih => exact ih (h.goes hm.goes)

/-- In a handler a piece spares the slots that are taken. -/
theorem Through.kept (hp : Confined m room p) (hroom : room.inHandler = true) (hr : Through depth p f w g w') (h : Checked v m unit f w) :
    ∀ slot < room.floor, g.locals[slot]? = f.locals[slot]? := by
  induction hr with
  | refl => exact fun _ _ => rfl
  | step hin hm _ ih =>
    intro slot hslot
    rw [ih (h.goes hm.goes) slot hslot]
    exact (h.moves_confined hp hin hm).2 hroom slot hslot

/-! ## Runs of pieces -/

theorem ofAnswer_ne_done (f : Frame) (a : Answer) (v : Value) : Action.ofAnswer f a ≠ .done v := by
  cases a <;> exact Action.noConfusion

/-- Only one instruction ends the activation. -/
theorem returns_step (f : Frame) (hi : i ≠ .return) : Run.Returns (step f i) fun a => ∀ v, a ≠ .done v := by
  have next : ∀ (x : Run Frame), Run.Returns (do return .next (← x) : Run Action) fun a => ∀ v, a ≠ .done v :=
    fun x => Run.returns_then x fun _ => Run.returns_pure fun _ => Action.noConfusion
  cases i with
  | «return» => exact absurd rfl hi
  | throw =>
    refine Run.returns_then _ fun r => ?_
    dsimp only
    split
    · exact fun _ _ _ he => by cases he
    · exact Run.returns_raise _
  | invoke =>
    exact Run.returns_then _ fun _ => Run.returns_then _ fun _ => Run.returns_then _ fun a => Run.returns_pure (ofAnswer_ne_done _ a)
  | invokeReflective =>
    refine Run.returns_then _ fun _ => Run.returns_then _ fun _ => Run.returns_then _ fun _ => Run.returns_then _ fun _ => ?_
    exact Run.returns_then _ fun a => Run.returns_pure (ofAnswer_ne_done _ a)
  | getFieldReflective =>
    refine Run.returns_then _ fun _ => Run.returns_then _ fun _ => Run.returns_then _ fun _ => ?_
    exact Run.returns_then _ fun a => Run.returns_pure (ofAnswer_ne_done _ a)
  | protocolInvoke =>
    exact Run.returns_then _ fun _ => Run.returns_then _ fun a => Run.returns_pure (ofAnswer_ne_done _ a)
  | _ => exact next _

/-- A run that comes to an end goes through the piece, or fails in it. -/
theorem completes_or_fails (hp : Confined m room p) : ∀ {n : Nat} {f : Frame} {w : World}, Checked v m unit f w → p.entry ≤ f.pc → f.pc ≤ p.exit →
    execute n depth f w = (o, w') → o ≠ .cut →
    (∃ g w₁, Completes depth p f w g w₁) ∨ ∃ g t w₁, Fails depth p f w g t w₁
  | 0, f, w, _, _, _, he, ho => absurd (by rw [← execute_zero depth f w, he]) ho
  | n + 1, f, w, hc, hlo, hhi, he, ho => by
    rcases Nat.eq_or_lt_of_le hhi with hpc | hlt
    · exact .inl ⟨f, w, .refl f w, hpc⟩
    · have hin : p.Has f.pc := ⟨hlo, hlt⟩
      obtain ⟨i, hi, hstays⟩ := hp _ hin
      rw [← hc.method_eq] at hi
      have moved : ∀ {g : Frame} {w₁ : World}, Moves depth f w g w₁ → execute n depth g w₁ = (o, w') →
          (∃ g w₁, Completes depth p f w g w₁) ∨ ∃ g t w₁, Fails depth p f w g t w₁ := by
        intro g w₁ hm he
        obtain ⟨⟨hlo', hhi'⟩, _⟩ := hc.moves_confined hp hin hm
        rcases completes_or_fails hp (hc.goes hm.goes) hlo' hhi' he ho with ⟨h, w₂, hr⟩ | ⟨h, t, w₂, w₃, hr, hh, ht⟩
        · exact .inl ⟨h, w₂, .step hin hm hr.through, hr.behind⟩
        · exact .inr ⟨h, t, w₂, w₃, .step hin hm hr, hh, ht⟩
      have thrown : ∀ {t : Value} {w₁ : World}, Throws depth f w t w₁ → ∃ g t w₁, Fails depth p f w g t w₁ :=
        fun ht => ⟨f, _, _, w, .refl f w, hin, ht⟩
      rcases hs : step { f with pc := f.pc + 1 } i w with ⟨(g | x | ⟨g, a⟩) | t | _, w₁⟩
      · exact moved (.next hi hs) ((execute_next hi hs).symm.trans he)
      · exact absurd rfl (returns_step _ hstays.goesOn w _ _ hs x)
      · rcases ha : answer n depth a w₁ with ⟨x | t | _, w₂⟩
        · exact moved (.called hi hs ha) ((execute_called hi hs ha).symm.trans he)
        · exact .inr (thrown (.inCall hi hs ha))
        · rw [execute_callSpent hi hs ha] at he
          exact absurd (Prod.mk.inj he).1.symm ho
      · exact .inr (thrown (.here hi hs))
      · rw [execute_cut hi hs] at he
        exact absurd (Prod.mk.inj he).1.symm ho

/-- **How a run from the start of a piece ends.**  It goes through the piece and then ends as it does from behind
it, or it fails in the piece and ends as it does after the exception. -/
theorem endsWith_iff_piece (hp : Confined m room p) (hc : Checked v m unit f w) (hpc : f.pc = p.entry) (hle : p.entry ≤ p.exit) (ho : o ≠ .cut) :
    EndsWith depth f w o w' ↔ (∃ g w₁, Completes depth p f w g w₁ ∧ EndsWith depth g w₁ o w') ∨
      ∃ g t w₁, Fails depth p f w g t w₁ ∧ EndsAfter depth g t w₁ o w' := by
  constructor
  · rintro ⟨n, hn⟩
    rcases completes_or_fails hp hc (Nat.le_of_eq hpc.symm) (hpc ▸ hle) hn ho with ⟨g, w₁, hr⟩ | ⟨g, t, w₁, hr⟩
    · exact .inl ⟨g, w₁, hr, (hr.through.endsWith_iff ho).1 ⟨n, hn⟩⟩
    · exact .inr ⟨g, t, w₁, hr, (hr.endsWith_iff ho).1 ⟨n, hn⟩⟩
  · rintro (⟨g, w₁, hr, he⟩ | ⟨g, t, w₁, hr, he⟩)
    · exact (hr.through.endsWith_iff ho).2 he
    · exact (hr.endsWith_iff ho).2 he

end LispMachine.Machine
