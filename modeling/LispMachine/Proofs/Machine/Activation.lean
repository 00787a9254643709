import LispMachine.Proofs.Machine.Keeps
/-!
# Activations

`execute` as a transition relation: `Goes` is what one instruction of a frame leads to, a call that
returns and an exception that is caught included, `Reaches` any number of these, and `Ends` how an
activation is left.  A run that is not cut short is a chain of transitions and an end
(`execute_eq_iff`); on the way there the allowance plays no part, since a larger one never changes an
outcome that was reached (`settlesWithin`).
-/
namespace LispMachine.Machine

/-! ## One instruction of a run -/

section

variable {n depth : Nat} {f g : Frame} {i : Instr} {a : Answer} {v t : Value} {w w' w'' : World}

theorem execute_fell (hi : f.method.code[f.pc]? = none) :
    execute (n + 1) depth f w = Run.raise Fault.fellOffEnd.failure w := by
  simp only [execute, hi, Fault.failure]

theorem execute_next (hi : f.method.code[f.pc]? = some i)
    (hs : step { f with pc := f.pc + 1 } i w = (.value (.next g), w')) :
    execute (n + 1) depth f w = execute n depth g w' := by
  rw [execute.eq_def]
  simp only [hi, hs]

theorem execute_done (hi : f.method.code[f.pc]? = some i)
    (hs : step { f with pc := f.pc + 1 } i w = (.value (.done v), w')) :
    execute (n + 1) depth f w = (.value v, w') := by
  rw [execute.eq_def]
  simp only [hi, hs]

theorem execute_called (hi : f.method.code[f.pc]? = some i)
    (hs : step { f with pc := f.pc + 1 } i w = (.value (.call g a), w')) (ha : answer n depth a w' = (.value v, w'')) :
    execute (n + 1) depth f w = execute n depth (g.pushValue v) w'' := by
  rw [execute.eq_def]
  simp only [hi, hs, ha]

theorem execute_callThrown (hi : f.method.code[f.pc]? = some i)
    (hs : step { f with pc := f.pc + 1 } i w = (.value (.call g a), w')) (ha : answer n depth a w' = (.thrown t, w'')) :
    execute (n + 1) depth f w = resume n depth f t w'' := by
  rw [execute.eq_def]
  simp only [hi, hs, ha]

theorem execute_callSpent (hi : f.method.code[f.pc]? = some i)
    (hs : step { f with pc := f.pc + 1 } i w = (.value (.call g a), w')) (ha : answer n depth a w' = (.cut, w'')) :
    execute (n + 1) depth f w = (.cut, w'') := by
  rw [execute.eq_def]
  simp only [hi, hs, ha]

theorem execute_thrown (hi : f.method.code[f.pc]? = some i)
    (hs : step { f with pc := f.pc + 1 } i w = (.thrown t, w')) :
    execute (n + 1) depth f w = resume n depth f t w' := by
  rw [execute.eq_def]
  simp only [hi, hs]

theorem execute_cut (hi : f.method.code[f.pc]? = some i)
    (hs : step { f with pc := f.pc + 1 } i w = (.cut, w')) : execute (n + 1) depth f w = (.cut, w') := by
  rw [execute.eq_def]
  simp only [hi, hs]

theorem resume_caught {pc : Nat} (h : handlerFor? w f.method f.pc t = some pc) :
    resume (n + 1) depth f t w = execute n depth { f with stack := [.obj t], pc } w := by
  rw [resume.eq_def]
  simp only [h]

theorem resume_uncaught (h : handlerFor? w f.method f.pc t = none) :
    resume (n + 1) depth f t w = (.thrown t, w) := by
  rw [resume.eq_def]
  simp only [h]

end

/-! ## The allowance -/

/-- The second run agrees with the first wherever that one reaches an outcome. -/
def Extends {α : Type} (x y : Run α) : Prop := ∀ w, (x w).1 ≠ .cut → y w = x w

variable {α β : Type}

theorem extends_refl (x : Run α) : Extends x x := fun _ _ => rfl

theorem Extends.trans {x y z : Run α} (h : Extends x y) (h' : Extends y z) : Extends x z := by
  intro w hr
  have hy := h w hr
  rw [← hy] at hr ⊢
  exact h' w hr

theorem extends_bind {x x' : Run α} {k k' : α → Run β} (hx : Extends x x') (hk : ∀ a, Extends (k a) (k' a)) :
    Extends (x >>= k) (x' >>= k') := by
  intro w hr
  simp only [Bind.bind, Run.bind] at hr ⊢
  have hs : (x w).1 ≠ .cut := by
    intro hs
    rw [show x w = (.cut, (x w).2) from Prod.ext hs rfl] at hr
    exact hr rfl
  rw [hx w hs]
  rcases he : x w with ⟨a | t | _, w'⟩ <;> rw [he] at hr
  exact hk a w' hr

/-- One more unit of allowance changes no outcome that was reached. -/
structure SettlesWithin (n : Nat) : Prop where
  execute : ∀ depth f, Extends (execute n depth f) (execute (n + 1) depth f)
  resume : ∀ depth f t, Extends (resume n depth f t) (resume (n + 1) depth f t)
  answer : ∀ depth a, Extends (answer n depth a) (answer (n + 1) depth a)
  invokeValue : ∀ depth f args, Extends (invokeValue n depth f args) (invokeValue (n + 1) depth f args)
  mapCalls : ∀ depth f done rows, Extends (mapCalls n depth f done rows) (mapCalls (n + 1) depth f done rows)
  filterCalls : ∀ depth f kept items,
    Extends (filterCalls n depth f kept items) (filterCalls (n + 1) depth f kept items)
  reduceCalls : ∀ depth f acc items,
    Extends (reduceCalls n depth f acc items) (reduceCalls (n + 1) depth f acc items)

theorem SettlesWithin.zero : SettlesWithin 0 := by
  constructor <;> intros <;> intro w hr <;> exact absurd (by simp only [Machine.execute, Machine.resume,
    Machine.answer, Machine.invokeValue, Machine.mapCalls, Machine.filterCalls, Machine.reduceCalls]) hr

theorem SettlesWithin.resume_succ {n : Nat} (ih : SettlesWithin n) (depth : Nat) (f : Frame) (t : Value) :
    Extends (Machine.resume (n + 1) depth f t) (Machine.resume (n + 2) depth f t) := by
  intro w hr
  cases h : handlerFor? w f.method f.pc t with
  | none => rw [resume_uncaught h, resume_uncaught h]
  | some pc =>
    rw [resume_caught h] at hr
    rw [resume_caught h, resume_caught h]
    exact ih.execute _ _ _ hr

theorem SettlesWithin.execute_succ {n : Nat} (ih : SettlesWithin n) (depth : Nat) (f : Frame) :
    Extends (Machine.execute (n + 1) depth f) (Machine.execute (n + 2) depth f) := by
  intro w hr
  cases hi : f.method.code[f.pc]? with
  | none => rw [execute_fell hi, execute_fell hi]
  | some i =>
    rcases hs : step { f with pc := f.pc + 1 } i w with ⟨(g | v | ⟨g, a⟩) | t | _, w'⟩
    · rw [execute_next hi hs] at hr
      rw [execute_next hi hs, execute_next hi hs]
      exact ih.execute _ _ _ hr
    · rw [execute_done hi hs, execute_done hi hs]
    · rcases ha : Machine.answer n depth a w' with ⟨v | t | _, w''⟩
      · have ha' := ih.answer depth a w' (by rw [ha]; simp)
        rw [execute_called hi hs ha] at hr
        rw [execute_called hi hs ha, execute_called hi hs (ha'.trans ha)]
        exact ih.execute _ _ _ hr
      · have ha' := ih.answer depth a w' (by rw [ha]; simp)
        rw [execute_callThrown hi hs ha] at hr
        rw [execute_callThrown hi hs ha, execute_callThrown hi hs (ha'.trans ha)]
        exact ih.resume _ _ _ _ hr
      · rw [execute_callSpent hi hs ha] at hr
        exact absurd rfl hr
    · rw [execute_thrown hi hs] at hr
      rw [execute_thrown hi hs, execute_thrown hi hs]
      exact ih.resume _ _ _ _ hr
    · rw [execute_cut hi hs, execute_cut hi hs]

theorem SettlesWithin.answer_succ {n : Nat} (ih : SettlesWithin n) (depth : Nat) (a : Answer) :
    Extends (Machine.answer (n + 1) depth a) (Machine.answer (n + 2) depth a) := by
  cases a with
  | value v => exact fun w _ => by simp only [Machine.answer]
  | enter unit m this args =>
    intro w hr
    rw [answer_enter] at hr
    rw [answer_enter, answer_enter]
    split at hr
    · rename_i hm
      rw [if_pos hm, if_pos hm]
    · rename_i hm
      rw [if_neg hm, if_neg hm]
      split at hr
      · rename_i hd
        rw [if_pos hd, if_pos hd]
      · rename_i hd
        rw [if_neg hd, if_neg hd]
        exact extends_bind (extends_refl _) (fun f => ih.execute _ f) w hr
  | again f args =>
    intro w hr
    simp only [Machine.answer] at hr ⊢
    exact ih.invokeValue _ _ _ w hr
  | map f rows =>
    rw [answer_map, answer_map]
    exact extends_bind (ih.mapCalls _ _ _ _) fun vs => extends_refl _
  | filter f items =>
    rw [answer_filter, answer_filter]
    exact extends_bind (ih.filterCalls _ _ _ _) fun vs => extends_refl _
  | reduce f init items =>
    intro w hr
    simp only [Machine.answer] at hr ⊢
    exact ih.reduceCalls _ _ _ _ w hr

theorem SettlesWithin.invokeValue_succ {n : Nat} (ih : SettlesWithin n) (depth : Nat) (f : Value) (args : List Value) :
    Extends (Machine.invokeValue (n + 1) depth f args) (Machine.invokeValue (n + 2) depth f args) := by
  rw [Machine.invokeValue_succ, Machine.invokeValue_succ]
  exact extends_bind (extends_refl _) (ih.answer depth)

theorem SettlesWithin.mapCalls_succ {n : Nat} (ih : SettlesWithin n) (depth : Nat) (f : Value) (done : List Value) :
    ∀ rows, Extends (Machine.mapCalls (n + 1) depth f done rows) (Machine.mapCalls (n + 2) depth f done rows)
  | [] => fun w _ => by simp only [Machine.mapCalls]
  | row :: rows => by
    rw [mapCalls_cons, mapCalls_cons]
    exact extends_bind (ih.invokeValue _ _ _) fun _ => ih.mapCalls _ _ _ _

theorem SettlesWithin.filterCalls_succ {n : Nat} (ih : SettlesWithin n) (depth : Nat) (f : Value) (kept : List Value) :
    ∀ items, Extends (Machine.filterCalls (n + 1) depth f kept items) (Machine.filterCalls (n + 2) depth f kept items)
  | [] => fun w _ => by simp only [Machine.filterCalls]
  | item :: items => by
    rw [filterCalls_cons, filterCalls_cons]
    exact extends_bind (ih.invokeValue _ _ _) fun _ => ih.filterCalls _ _ _ _

theorem SettlesWithin.reduceCalls_succ {n : Nat} (ih : SettlesWithin n) (depth : Nat) (f acc : Value) :
    ∀ items, Extends (Machine.reduceCalls (n + 1) depth f acc items) (Machine.reduceCalls (n + 2) depth f acc items)
  | [] => fun w _ => by simp only [Machine.reduceCalls]
  | item :: items => by
    rw [reduceCalls_cons, reduceCalls_cons]
    exact extends_bind (ih.invokeValue _ _ _) fun _ => ih.reduceCalls _ _ _ _

/-- **A larger allowance never changes an outcome that was reached.** -/
theorem settlesWithin : ∀ n, SettlesWithin n
  | 0 => .zero
  | n + 1 =>
    have ih := settlesWithin n
    { execute := ih.execute_succ, resume := ih.resume_succ, answer := ih.answer_succ
      invokeValue := ih.invokeValue_succ, mapCalls := ih.mapCalls_succ, filterCalls := ih.filterCalls_succ
      reduceCalls := ih.reduceCalls_succ }

theorem extends_of_le {x : Nat → Run α} (h : ∀ n, Extends (x n) (x (n + 1))) {m n : Nat} (hmn : m ≤ n) :
    Extends (x m) (x n) := by
  induction hmn with
  | refl => exact extends_refl _
  | step _ ih => exact ih.trans (h _)

theorem execute_extends {m n : Nat} (h : m ≤ n) (depth : Nat) (f : Frame) :
    Extends (execute m depth f) (execute n depth f) :=
  extends_of_le (x := fun n => execute n depth f) (fun n => (settlesWithin n).execute depth f) h

theorem answer_of_le {m n depth : Nat} {a : Answer} {o : Outcome Value} {w w' : World} (hmn : m ≤ n)
    (h : answer m depth a w = (o, w')) (ho : o ≠ .cut) : answer n depth a w = (o, w') := by
  have he := extends_of_le (x := fun n => answer n depth a) (fun n => (settlesWithin n).answer depth a) hmn w
  rw [h] at he
  exact he ho

/-- Completes an answer; what is a value already needs no call. -/
def complete (n depth : Nat) : Answer → Run Value
  | .value v => return v
  | a => answer n depth a

/-! ## Transitions -/

/-- The frame makes one move: its instruction goes on, or what it calls returns, or an exception is
thrown by one of them and caught here. -/
inductive Goes (depth : Nat) : Frame → World → Frame → World → Prop
  | next {f g : Frame} {i : Instr} {w w' : World} : f.method.code[f.pc]? = some i →
      step { f with pc := f.pc + 1 } i w = (.value (.next g), w') → Goes depth f w g w'
  | called {f g : Frame} {i : Instr} {a : Answer} {v : Value} {n : Nat} {w w' w'' : World} :
      f.method.code[f.pc]? = some i → step { f with pc := f.pc + 1 } i w = (.value (.call g a), w') →
      answer n depth a w' = (.value v, w'') → Goes depth f w (g.pushValue v) w''
  | caught {f : Frame} {i : Instr} {t : Value} {pc : Nat} {w w' : World} : f.method.code[f.pc]? = some i →
      step { f with pc := f.pc + 1 } i w = (.thrown t, w') → handlerFor? w' f.method f.pc t = some pc →
      Goes depth f w { f with stack := [.obj t], pc } w'
  | caughtCall {f g : Frame} {i : Instr} {a : Answer} {t : Value} {n pc : Nat} {w w' w'' : World} :
      f.method.code[f.pc]? = some i → step { f with pc := f.pc + 1 } i w = (.value (.call g a), w') →
      answer n depth a w' = (.thrown t, w'') → handlerFor? w'' f.method f.pc t = some pc →
      Goes depth f w { f with stack := [.obj t], pc } w''

/-- Any number of moves. -/
inductive Reaches (depth : Nat) : Frame → World → Frame → World → Prop
  | refl (f : Frame) (w : World) : Reaches depth f w f w
  | step {f g h : Frame} {w w' w'' : World} : Goes depth f w g w' → Reaches depth g w' h w'' → Reaches depth f w h w''

/-- The activation is left from this frame: its code ends, it returns, or an exception is thrown that no
handler here catches. -/
inductive Ends (depth : Nat) : Frame → World → Outcome Value → World → Prop
  | fell {f : Frame} {w : World} : f.method.code[f.pc]? = none →
      Ends depth f w (.thrown (Run.exceptionOf w.nextId Fault.fellOffEnd.failure)) { w with nextId := w.nextId + 1 }
  | done {f : Frame} {i : Instr} {v : Value} {w w' : World} : f.method.code[f.pc]? = some i →
      step { f with pc := f.pc + 1 } i w = (.value (.done v), w') → Ends depth f w (.value v) w'
  | thrown {f : Frame} {i : Instr} {t : Value} {w w' : World} : f.method.code[f.pc]? = some i →
      step { f with pc := f.pc + 1 } i w = (.thrown t, w') → handlerFor? w' f.method f.pc t = none →
      Ends depth f w (.thrown t) w'
  | thrownCall {f g : Frame} {i : Instr} {a : Answer} {t : Value} {n : Nat} {w w' w'' : World} :
      f.method.code[f.pc]? = some i → step { f with pc := f.pc + 1 } i w = (.value (.call g a), w') →
      answer n depth a w' = (.thrown t, w'') → handlerFor? w'' f.method f.pc t = none →
      Ends depth f w (.thrown t) w''

variable {depth : Nat} {f g h : Frame} {w w' w'' : World}

theorem Reaches.trans (hfg : Reaches depth f w g w') (hgh : Reaches depth g w' h w'') : Reaches depth f w h w'' := by
  induction hfg with
  | refl => exact hgh
  | step hs _ ih => exact .step hs (ih hgh)

theorem Reaches.single (hs : Goes depth f w g w') : Reaches depth f w g w' := .step hs (.refl g w')

/-- A run follows every move, once its allowance is large enough. -/
theorem Goes.execute_eq (hs : Goes depth f w g w') {n : Nat} (hr : (execute n depth g w').1 ≠ .cut) :
    ∃ k, execute k depth f w = execute n depth g w' := by
  cases hs with
  | next hi hs => exact ⟨n + 1, execute_next hi hs⟩
  | called hi hs ha =>
    rename_i k _
    refine ⟨max k n + 1, ?_⟩
    rw [execute_called hi hs (answer_of_le (Nat.le_max_left k n) ha (by simp))]
    exact execute_extends (Nat.le_max_right k n) _ _ _ hr
  | caught hi hs hh => exact ⟨n + 2, by rw [execute_thrown hi hs, resume_caught hh]⟩
  | caughtCall hi hs ha hh =>
    rename_i k _ _
    refine ⟨max k n + 2, ?_⟩
    rw [execute_callThrown hi hs (answer_of_le (Nat.le_trans (Nat.le_max_left k n) (Nat.le_succ _)) ha (by simp)),
      resume_caught hh]
    exact execute_extends (Nat.le_max_right k n) _ _ _ hr

theorem Reaches.execute_eq (hs : Reaches depth f w g w') {n : Nat} (hr : (execute n depth g w').1 ≠ .cut) :
    ∃ k, execute k depth f w = execute n depth g w' := by
  induction hs with
  | refl => exact ⟨n, rfl⟩
  | step hs _ ih =>
    obtain ⟨k, hk⟩ := ih hr
    rw [← hk] at hr ⊢
    exact hs.execute_eq hr

theorem Ends.execute_eq {o : Outcome Value} (he : Ends depth f w o w') : ∃ n, execute n depth f w = (o, w') := by
  cases he with
  | fell hi => exact ⟨1, execute_fell hi⟩
  | done hi hs => exact ⟨1, execute_done hi hs⟩
  | thrown hi hs hh => exact ⟨2, by rw [execute_thrown hi hs, resume_uncaught hh]⟩
  | thrownCall hi hs ha hh =>
    rename_i k _
    refine ⟨k + 2, ?_⟩
    rw [execute_callThrown hi hs (answer_of_le (Nat.le_succ k) ha (by simp)), resume_uncaught hh]

theorem Ends.reached {o : Outcome Value} (he : Ends depth f w o w') : o ≠ .cut := by
  cases he <;> exact fun h => by cases h

theorem resume_cases {n : Nat} {t : Value} {o : Outcome Value} (he : resume n depth f t w = (o, w')) (ho : o ≠ .cut) :
    (handlerFor? w f.method f.pc t = none ∧ o = .thrown t ∧ w' = w) ∨
      ∃ m pc, m < n ∧ handlerFor? w f.method f.pc t = some pc ∧
        execute m depth { f with stack := [.obj t], pc } w = (o, w') := by
  cases n with
  | zero =>
    simp only [resume, Prod.mk.injEq] at he
    exact absurd he.1.symm ho
  | succ n =>
    cases hh : handlerFor? w f.method f.pc t with
    | none =>
      rw [resume_uncaught hh] at he
      cases he
      exact .inl ⟨rfl, rfl, rfl⟩
    | some pc =>
      rw [resume_caught hh] at he
      exact .inr ⟨n, pc, Nat.lt_succ_self n, rfl, he⟩

/-- Every outcome that a run reaches is the end of a chain of moves. -/
theorem ends_of_execute {n : Nat} : ∀ {f : Frame} {w : World} {o : Outcome Value} {w' : World},
    execute n depth f w = (o, w') → o ≠ .cut → ∃ g w₁, Reaches depth f w g w₁ ∧ Ends depth g w₁ o w' := by
  -- a caught exception draws on the allowance twice
  induction n using Nat.strongRecOn with
  | ind n ih =>
    intro f w o w' he ho
    have moved : ∀ {m : Nat} {g : Frame} {w₁ : World}, m < n → Goes depth f w g w₁ → execute m depth g w₁ = (o, w') →
        ∃ g w₁, Reaches depth f w g w₁ ∧ Ends depth g w₁ o w' := by
      intro m g w₁ hm hs he
      obtain ⟨h, w₂, hr, hE⟩ := ih m hm he ho
      exact ⟨h, w₂, .step hs hr, hE⟩
    cases n with
    | zero =>
      simp only [execute, Prod.mk.injEq] at he
      exact absurd he.1.symm ho
    | succ n =>
      cases hi : f.method.code[f.pc]? with
      | none =>
        rw [execute_fell hi] at he
        cases he
        exact ⟨f, w, .refl f w, .fell hi⟩
      | some i =>
        rcases hs : step { f with pc := f.pc + 1 } i w with ⟨(g | v | ⟨g, a⟩) | t | _, w₁⟩
        · rw [execute_next hi hs] at he
          exact moved (Nat.lt_succ_self n) (.next hi hs) he
        · rw [execute_done hi hs] at he
          cases he
          exact ⟨f, w, .refl f w, .done hi hs⟩
        · rcases ha : answer n depth a w₁ with ⟨v | t | _, w₂⟩
          · rw [execute_called hi hs ha] at he
            exact moved (Nat.lt_succ_self n) (.called hi hs ha) he
          · rw [execute_callThrown hi hs ha] at he
            obtain ⟨hh, rfl, rfl⟩ | ⟨m, pc, hm, hh, he⟩ := resume_cases he ho
            · exact ⟨f, w, .refl f w, .thrownCall hi hs ha hh⟩
            · exact moved (Nat.lt_succ_of_lt hm) (.caughtCall hi hs ha hh) he
          · rw [execute_callSpent hi hs ha] at he
            cases he
            exact absurd rfl ho
        · rw [execute_thrown hi hs] at he
          obtain ⟨hh, rfl, rfl⟩ | ⟨m, pc, hm, hh, he⟩ := resume_cases he ho
          · exact ⟨f, w, .refl f w, .thrown hi hs hh⟩
          · exact moved (Nat.lt_succ_of_lt hm) (.caught hi hs hh) he
        · rw [execute_cut hi hs] at he
          cases he
          exact absurd rfl ho

/-- **What a run reaches is what its moves lead to.** -/
theorem execute_eq_iff {o : Outcome Value} (ho : o ≠ .cut) : (∃ n, execute n depth f w = (o, w')) ↔
    ∃ g w₁, Reaches depth f w g w₁ ∧ Ends depth g w₁ o w' := by
  constructor
  · rintro ⟨n, h⟩
    exact ends_of_execute h ho
  · rintro ⟨g, w₁, hr, he⟩
    obtain ⟨n, hn⟩ := he.execute_eq
    obtain ⟨k, hk⟩ := hr.execute_eq (n := n) (by rw [hn]; exact ho)
    exact ⟨k, hk.trans hn⟩

end LispMachine.Machine
