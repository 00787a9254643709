import LispMachine.Proofs.Machine.Verified
/-!
# Frames that realize a run

A frame realizes a run if what it goes on to do is what the run does: it reaches a frame as the
postcondition says with the world that the run leaves, or its activation ends by the exception that the
run throws, or, if the run is cut short, no allowance up to the given one suffices.

Realizations compose as runs do, so a proof that code realizes a run follows the text of the run.
-/
namespace LispMachine.Machine

variable {α β : Type} {depth n : Nat} {f g h : Frame} {w w' w'' : World}

theorem execute_zero (depth : Nat) (f : Frame) (w : World) : (execute 0 depth f w).1 = .cut := by
  simp only [execute]

theorem answer_cut_of_le {m k : Nat} {a : Answer} {v : Value} {o : Outcome Value} (hm : answer m depth a w = (o, w''))
    (hk : answer k depth a w = (.value v, w')) : o = .cut ∨ (o = .value v ∧ w'' = w') := by
  by_cases ho : o = .cut
  · exact .inl ho
  · have h₁ := answer_of_le (Nat.le_max_left m k) hm ho
    have h₂ := answer_of_le (Nat.le_max_right m k) hk (by simp)
    rw [h₁] at h₂
    exact .inr (Prod.mk.inj h₂)

theorem answer_thrown_of_le {m k : Nat} {a : Answer} {t : Value} {o : Outcome Value} (hm : answer m depth a w = (o, w''))
    (hk : answer k depth a w = (.thrown t, w')) : o = .cut ∨ (o = .thrown t ∧ w'' = w') := by
  by_cases ho : o = .cut
  · exact .inl ho
  · have h₁ := answer_of_le (Nat.le_max_left m k) hm ho
    have h₂ := answer_of_le (Nat.le_max_right m k) hk (by simp)
    rw [h₁] at h₂
    exact .inr (Prod.mk.inj h₂)

/-- A move costs at least one unit of allowance. -/
theorem Goes.cut (hs : Goes depth f w g w') (hg : ∀ m ≤ n, (execute m depth g w').1 = .cut) :
    ∀ m ≤ n + 1, (execute m depth f w).1 = .cut := by
  intro m hm
  cases m with
  | zero => exact execute_zero depth f w
  | succ m =>
    have hm := Nat.le_of_succ_le_succ hm
    have resumed : ∀ {t : Value} {pc : Nat} {w' : World}, handlerFor? w' f.method f.pc t = some pc →
        (∀ m ≤ n, (execute m depth { f with stack := [.obj t], pc } w').1 = .cut) → (resume m depth f t w').1 = .cut := by
      intro t pc w' hh hg
      cases m with
      | zero => simp only [resume]
      | succ m =>
        rw [resume_caught hh]
        exact hg m (Nat.le_of_succ_le hm)
    cases hs with
    | next hi hs =>
      rw [execute_next hi hs]
      exact hg m hm
    | called hi hs ha =>
      rename_i a v k _
      rcases he : answer m depth a _ with ⟨o, w₂⟩
      obtain rfl | ⟨rfl, rfl⟩ := answer_cut_of_le he ha
      · rw [execute_callSpent hi hs he]
      · rw [execute_called hi hs he]
        exact hg m hm
    | caught hi hs hh =>
      rw [execute_thrown hi hs]
      exact resumed hh hg
    | caughtCall hi hs ha hh =>
      rename_i a t k pc _
      rcases he : answer m depth a _ with ⟨o, w₂⟩
      obtain rfl | ⟨rfl, rfl⟩ := answer_thrown_of_le he ha
      · rw [execute_callSpent hi hs he]
      · rw [execute_callThrown hi hs he]
        exact resumed hh hg

theorem Reaches.cut (hr : Reaches depth f w g w') (hg : ∀ m ≤ n, (execute m depth g w').1 = .cut) :
    ∀ m ≤ n, (execute m depth f w).1 = .cut := by
  induction hr with
  | refl => exact hg
  | step hs _ ih => exact fun m hm => hs.cut (ih hg) m (Nat.le_succ_of_le hm)

/-- The frame goes on to do what the run does. -/
inductive Realizes (depth n : Nat) (f : Frame) (w : World) (P : α → Frame → Prop) : Outcome α × World → Prop
  | value {a : α} {g : Frame} {w' : World} : Reaches depth f w g w' → P a g → Realizes depth n f w P (.value a, w')
  | thrown {t : Value} {g : Frame} {w₁ w' : World} : Reaches depth f w g w₁ → Ends depth g w₁ (.thrown t) w' →
      Realizes depth n f w P (.thrown t, w')
  | cut {w' : World} : (∀ m ≤ n, (execute m depth f w).1 = .cut) → Realizes depth n f w P (.cut, w')

namespace Realizes

variable {P : α → Frame → Prop} {Q : β → Frame → Prop} {r : Outcome α × World}

theorem mono {P' : α → Frame → Prop} (h : Realizes depth n f w P r) (hP : ∀ a g, P a g → P' a g) :
    Realizes depth n f w P' r := by
  cases h with
  | value hr hp => exact .value hr (hP _ _ hp)
  | thrown hr he => exact .thrown hr he
  | cut hs => exact .cut hs

theorem after (hr : Reaches depth f w g w') (h : Realizes depth n g w' P r) : Realizes depth n f w P r := by
  cases h with
  | value hr' hp => exact .value (hr.trans hr') hp
  | thrown hr' he => exact .thrown (hr.trans hr') he
  | cut hs => exact .cut (hr.cut hs)

/-- A move may be paid for. -/
theorem after_goes (hs : Goes depth f w g w') (h : Realizes depth n g w' P r) : Realizes depth (n + 1) f w P r := by
  cases h with
  | value hr hp => exact .value (.step hs hr) hp
  | thrown hr he => exact .thrown (.step hs hr) he
  | cut hg => exact .cut (hs.cut hg)

theorem pure {a : α} (h : P a f) : Realizes depth n f w P ((Pure.pure a : Run α) w) := .value (.refl f w) h

theorem bind {x : Run α} {k : α → Run β} (hx : Realizes depth n f w P (x w))
    (hk : ∀ a g w', x w = (.value a, w') → Reaches depth f w g w' → P a g → Realizes depth n g w' Q (k a w')) :
    Realizes depth n f w Q ((x >>= k) w) := by
  simp only [Bind.bind, Run.bind]
  rcases he : x w with ⟨a | t | _, w'⟩ <;> rw [he] at hx
  · cases hx with
    | value hr hp => exact (hk a _ w' he hr hp).after hr
  · cases hx with
    | thrown hr hE => exact .thrown hr hE
  · cases hx with
    | cut hs => exact .cut hs

/-- With a smaller allowance. -/
theorem within {m : Nat} (h : Realizes depth n f w P r) (hm : m ≤ n) : Realizes depth m f w P r := by
  cases h with
  | value hr hp => exact .value hr hp
  | thrown hr he => exact .thrown hr he
  | cut hs => exact .cut fun k hk => hs k (Nat.le_trans hk hm)

end Realizes

/-! ## One instruction -/

section

variable {i : Instr} {P : α → Frame → Prop}

theorem handlerFor?_nil {m : Method} (hm : m.handlers = []) (w : World) (pc : Nat) (t : Value) :
    handlerFor? w m pc t = none := by
  simp only [handlerFor?, hm, List.findSome?_nil]

/-- An instruction that goes on with a frame that the run gives. -/
theorem realizes_step {x : Run α} {h : α → Frame} (hh : f.method.handlers = []) (hi : f.method.code[f.pc]? = some i)
    (hs : step { f with pc := f.pc + 1 } i w = (x >>= fun a => Pure.pure (Action.next (h a))) w)
    (hP : ∀ a w', x w = (.value a, w') → P a (h a)) : Realizes depth n f w P (x w) := by
  simp only [Bind.bind, Run.bind] at hs
  rcases he : x w with ⟨a | t | _, w'⟩ <;> rw [he] at hs
  · exact .value (.single (.next hi hs)) (hP a w' he)
  · exact .thrown (.refl f w) (.thrown hi hs (handlerFor?_nil hh _ _ _))
  · refine .cut fun m _ => ?_
    cases m with
    | zero => exact execute_zero depth f w
    | succ m => rw [execute_cut hi hs]

/-- An instruction that makes a call. -/
theorem realizes_call {x : Run Answer} {g : Frame} {P : Value → Frame → Prop} (hh : f.method.handlers = [])
    (hi : f.method.code[f.pc]? = some i)
    (hs : step { f with pc := f.pc + 1 } i w = (x >>= fun a => Pure.pure (Action.ofAnswer g a)) w)
    (hP : ∀ v, P v (g.pushValue v)) : Realizes depth n f w P ((x >>= complete n depth) w) := by
  simp only [Bind.bind, Run.bind] at hs ⊢
  rcases he : x w with ⟨a | t | _, w'⟩ <;> rw [he] at hs
  · have made : ∀ a, Action.ofAnswer g a = .call g a → complete n depth a = answer n depth a →
        step { f with pc := f.pc + 1 } i w = (.value (Action.ofAnswer g a), w') →
        Realizes depth n f w P (complete n depth a w') := by
      intro a ha hc hs
      rw [ha] at hs
      rw [hc]
      rcases hr : answer n depth a w' with ⟨v | t | _, w''⟩
      · exact .value (.single (.called hi hs hr)) (hP v)
      · exact .thrown (.refl f w) (.thrownCall hi hs hr (handlerFor?_nil hh _ _ _))
      · refine .cut fun m hm => ?_
        cases m with
        | zero => exact execute_zero depth f w
        | succ m =>
          rcases hr' : answer m depth a w' with ⟨o, w₂⟩
          by_cases ho : o = .cut
          · rw [ho] at hr'
            rw [execute_callSpent hi hs hr']
          · rw [answer_of_le (Nat.le_of_succ_le hm) hr' ho] at hr
            exact absurd (Prod.mk.inj hr).1 ho
    cases a with
    | value v => exact .value (.single (.next hi hs)) (hP v)
    | enter _ _ _ _ => exact made _ rfl rfl hs
    | again _ _ => exact made _ rfl rfl hs
    | map _ _ => exact made _ rfl rfl hs
    | filter _ _ => exact made _ rfl rfl hs
    | reduce _ _ _ => exact made _ rfl rfl hs
  · exact .thrown (.refl f w) (.thrown hi hs (handlerFor?_nil hh _ _ _))
  · refine .cut fun m _ => ?_
    cases m with
    | zero => exact execute_zero depth f w
    | succ m => rw [execute_cut hi hs]

end

end LispMachine.Machine
