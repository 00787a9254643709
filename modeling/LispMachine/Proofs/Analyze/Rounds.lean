import LispMachine.Proofs.Analyze.Tracked
/-!
# The passes over a loop

A loop is analyzed again and again until no flag changes.  `Retries` is that loop with no bound on the passes, and with their
history: every pass that changes a flag boxes a local that was not boxed before, so that there is an end after at most one
pass more than there are locals (`loopPasses_retries`).  A local is boxed in a pass if and only if a `recur` of an earlier
one passed it a value of another kind (`Retries.after`).
-/
namespace LispMachine.Analyze

open LispMachine.Expr Analysis

/-- A pass over a loop: the flags and the context that it started with, and what became of it. -/
structure Round where
  flags : List Bool
  before : Context
  outcome : Result (Expr × List Bool)
  after : Context

/-- In this pass a `recur` passed the local with this number a value of another kind. -/
def Round.Boxes (r : Round) (i : Nat) : Prop := ∃ inits result next b value, r.outcome = .ok (.bind true inits result, next) ∧
  inits[i]? = some b ∧ Rebinds b.1 value (.bind true inits result) ∧ r.after.Clash b.1 value

/-- A pass with these flags and then others, until one leaves its flags as they are or gives no expression: the history of
them, and what is made of the last. -/
inductive Retries (pass : List Bool → Analysis (Expr × List Bool)) : List Bool → Context → List Round → Result Expr × Context → Prop
  | settles {flags : List Bool} {c c' : Context} {e : Expr} : pass flags c = (.ok (e, flags), c') →
      Retries pass flags c [⟨flags, c, .ok (e, flags), c'⟩] (.ok e, c')
  | fails {flags : List Bool} {c c' : Context} {err : CompileError} : pass flags c = (.error err, c') →
      Retries pass flags c [⟨flags, c, .error err, c'⟩] (.error err, c')
  | stops {flags : List Bool} {c c' : Context} : pass flags c = (.cut, c') → Retries pass flags c [⟨flags, c, .cut, c'⟩] (.cut, c')
  | again {flags next : List Bool} {c c₁ : Context} {e : Expr} {rounds : List Round} {r : Result Expr × Context} :
      pass flags c = (.ok (e, next), c₁) → next ≠ flags → Retries pass next c₁ rounds r →
      Retries pass flags c (⟨flags, c, .ok (e, next), c₁⟩ :: rounds) r

/-! ## The end of the passes -/

/-- If a flag changes then fewer locals are left that are not boxed. -/
theorem count_boxMismatched {c : Context} {locals : List Nat} {flags : List Bool} (hlen : locals.length = flags.length) :
    boxMismatched c locals flags = flags ∨ (boxMismatched c locals flags).count false < flags.count false := by
  induction locals generalizing flags with
  | nil =>
    rw [List.length_eq_zero_iff.1 hlen.symm]
    exact .inl rfl
  | cons id locals ih =>
    obtain ⟨flag, flags, rfl⟩ := List.exists_cons_of_length_eq_add_one hlen.symm
    have hcons : boxMismatched c (id :: locals) (flag :: flags) = (flag || (c.binding id).recurMismatch) :: boxMismatched c locals flags := rfl
    rw [hcons]
    rcases ih (Nat.succ.inj hlen) with hsame | hless
    · rw [hsame]
      cases flag <;> cases (c.binding id).recurMismatch <;> simp
    · right
      cases flag <;> cases (c.binding id).recurMismatch <;> simp <;> omega

variable {rec : Analyzer} {demand : Demand} {bindings : List (Form × Form)} {forms : List Form}

theorem loopPasses_of_ok {passes : Nat} {flags next : List Bool} {c c' : Context} {e : Expr}
    (h : loopPass rec demand bindings forms flags c = (.ok (e, next), c')) : loopPasses rec demand bindings forms (passes + 1) flags c =
      if next = flags then (.ok e, c') else loopPasses rec demand bindings forms passes next c' := by
  rw [loopPasses, bind_of_ok h]
  by_cases hsame : next = flags
  · simp only [hsame, beq_self_eq_true, if_true]
    rfl
  · simp only [beq_iff_eq, hsame, if_false]

/-- **The passes come to an end.**  By induction on the passes that are allowed, which are more than the locals that are not
boxed yet: each pass that is not the last leaves fewer of these. -/
theorem loopPasses_retries (hr : Tracking rec) (passes : Nat) {flags : List Bool} (hlen : flags.length = bindings.length)
    (hpasses : flags.count false < passes) (c : Context) :
    ∃ rounds, Retries (loopPass rec demand bindings forms) flags c rounds (loopPasses rec demand bindings forms passes flags c) ∧
      rounds.length ≤ flags.count false + 1 := by
  induction passes generalizing flags c with
  | zero => exact absurd hpasses (Nat.not_lt_zero _)
  | succ passes ih =>
    rcases hpass : loopPass rec demand bindings forms flags c with ⟨result, c₁⟩
    cases result with
    | error err =>
      rw [loopPasses, bind_of_error hpass]
      exact ⟨_, .fails hpass, Nat.le_add_left 1 _⟩
    | cut =>
      rw [loopPasses, bind_of_cut hpass]
      exact ⟨_, .stops hpass, Nat.le_add_left 1 _⟩
    | ok made =>
      obtain ⟨e, next⟩ := made
      rw [loopPasses_of_ok hpass]
      obtain ⟨inits, result, rfl, rfl, hpassed⟩ := loopPass_passed hr hlen hpass
      have hlocals : (inits.map (·.1)).length = flags.length := by rw [List.length_map, hpassed.length_eq]
      by_cases hsame : boxMismatched c₁ (inits.map (·.1)) flags = flags
      · rw [if_pos hsame]
        rw [hsame] at hpass
        exact ⟨_, .settles hpass, Nat.le_add_left 1 _⟩
      · rw [if_neg hsame]
        have hless := (count_boxMismatched hlocals).resolve_left hsame
        obtain ⟨rounds, hrounds, hcount⟩ := ih (hpassed.length_next.trans hlen) (by omega) c₁
        refine ⟨_, .again hpass hsame hrounds, ?_⟩
        rw [List.length_cons]
        omega

/-- What is made in the end is made by the last pass, which leaves its flags as they are. -/
theorem Retries.last {pass : List Bool → Analysis (Expr × List Bool)} {flags : List Bool} {c c' : Context} {rounds : List Round} {e : Expr}
    (h : Retries pass flags c rounds (.ok e, c')) :
    ∃ pre round, rounds = pre ++ [round] ∧ round.outcome = .ok (e, round.flags) ∧ round.after = c' := by
  generalize hr : ((.ok e, c') : Result Expr × Context) = r at h
  induction h with
  | settles =>
    cases hr
    exact ⟨[], _, rfl, rfl, rfl⟩
  | fails | stops => cases hr
  | again _ _ _ ih =>
    obtain ⟨pre, round, rfl, hround⟩ := ih hr
    exact ⟨_ :: pre, round, rfl, hround⟩

/-! ## What a pass does to the kinds -/

theorem Round.boxes_iff {r : Round} {inits : List (Nat × Expr)} {result : Expr} {next : List Bool}
    (h : r.outcome = .ok (.bind true inits result, next)) (i : Nat) : r.Boxes i ↔
      ∃ b, inits[i]? = some b ∧ ∃ value, Rebinds b.1 value (.bind true inits result) ∧ r.after.Clash b.1 value := by
  refine ⟨fun ⟨_, _, _, b, value, ho, hb, hr⟩ => ?_, fun ⟨b, hb, value, hr⟩ => ⟨inits, result, next, b, value, h, hb, hr⟩⟩
  cases h.symm.trans ho
  exact ⟨b, hb, value, hr⟩

theorem length_next (hr : Tracking rec) {flags next : List Bool} {c c' : Context} {e : Expr} (hlen : flags.length = bindings.length)
    (hpass : loopPass rec demand bindings forms flags c = (.ok (e, next), c')) : next.length = flags.length := by
  obtain ⟨_, _, _, rfl, hpassed⟩ := loopPass_passed hr hlen hpass
  exact hpassed.length_next

/-- A local is boxed in the next pass if it is in this one, or if a `recur` of this one passed it a value of another kind. -/
theorem flag_next (hr : Tracking rec) {flags next : List Bool} {c c' : Context} {e : Expr} (hlen : flags.length = bindings.length)
    (hpass : loopPass rec demand bindings forms flags c = (.ok (e, next), c')) (i : Nat) :
    next[i]? = some true ↔ flags[i]? = some true ∨ Round.Boxes ⟨flags, c, .ok (e, next), c'⟩ i := by
  obtain ⟨inits, result, rfl, rfl, hpassed⟩ := loopPass_passed hr hlen hpass
  rw [Round.boxes_iff rfl]
  by_cases hi : i < flags.length
  · have hinit : i < inits.length := hpassed.length_eq ▸ hi
    obtain ⟨_, hmark⟩ := hpassed.getElem hi hinit
    rw [List.getElem?_eq_getElem (hpassed.length_next.symm ▸ hi), List.getElem?_eq_getElem hi, List.getElem?_eq_getElem hinit,
      getElem_boxMismatched hinit hi]
    simp only [Option.some.injEq, Bool.or_eq_true, hmark, exists_eq_left']
  · have hinit : inits[i]? = none := List.getElem?_eq_none (hpassed.length_eq ▸ Nat.le_of_not_lt hi)
    have hnext : (boxMismatched c' (inits.map (·.1)) flags)[i]? = none :=
      List.getElem?_eq_none (hpassed.length_next.symm ▸ Nat.le_of_not_lt hi)
    rw [hnext, hinit, List.getElem?_eq_none (Nat.le_of_not_lt hi)]
    simp only [reduceCtorEq, false_and, exists_false, or_self]

/-- The round was a pass with its flags, and those are the first flags and what the earlier rounds boxed. -/
structure Round.After (pass : List Bool → Analysis (Expr × List Bool)) (flags : List Bool) (earlier : List Round) (r : Round) : Prop where
  length : r.flags.length = flags.length
  runs : pass r.flags r.before = (r.outcome, r.after)
  boxed : ∀ i, r.flags[i]? = some true ↔ flags[i]? = some true ∨ ∃ r' ∈ earlier, r'.Boxes i

/-- The first round. -/
theorem Round.after_nil {pass : List Bool → Analysis (Expr × List Bool)} {flags : List Bool} {c c' : Context}
    {o : Result (Expr × List Bool)} (h : pass flags c = (o, c')) : Round.After pass flags [] ⟨flags, c, o, c'⟩ :=
  ⟨rfl, h, fun i => by simp⟩

/-- **A local is boxed in a pass if and only if an earlier one passed it a value of another kind.**  By induction on the history. -/
theorem Retries.after (hr : Tracking rec) {flags : List Bool} {c : Context} {rounds : List Round} {r : Result Expr × Context}
    (hlen : flags.length = bindings.length) (h : Retries (loopPass rec demand bindings forms) flags c rounds r) :
    ∀ pre round post, rounds = pre ++ round :: post → round.After (loopPass rec demand bindings forms) flags pre := by
  induction h with
  | settles hpass | fails hpass | stops hpass =>
    intro pre round post hrounds
    cases pre with
    | nil =>
      cases hrounds
      exact Round.after_nil hpass
    | cons first pre => simp at hrounds
  | again hpass hchanged hrest ih =>
    intro pre round post hrounds
    cases pre with
    | nil =>
      cases hrounds
      exact Round.after_nil hpass
    | cons first pre =>
      obtain ⟨rfl, hrest'⟩ := List.cons.inj hrounds
      have hnext := length_next hr hlen hpass
      obtain ⟨hlength, hruns, hboxed⟩ := ih (hnext.trans hlen) pre round post hrest'
      refine ⟨hlength.trans hnext, hruns, fun i => ?_⟩
      rw [hboxed, flag_next hr hlen hpass, List.exists_mem_cons_iff, or_assoc]

/-- A pass makes a loop of all the locals; one that an earlier pass passed a value of another kind is boxed, and any other has
the kind of its initial value. -/
theorem Round.After.kinds (hr : Tracking rec) {flags : List Bool} {earlier : List Round} {r : Round} (hlen : flags.length = bindings.length)
    (hflags : ∀ i : Nat, flags[i]? ≠ some true) (h : r.After (loopPass rec demand bindings forms) flags earlier) {e : Expr} {next : List Bool}
    (ho : r.outcome = .ok (e, next)) : ∃ inits result, e = .bind true inits result ∧ inits.length = bindings.length ∧
      ∀ i b, inits[i]? = some b →
        (∃ r' ∈ earlier, r'.Boxes i) ∧ (r.after.binding b.1).prim = none ∨
        (¬ ∃ r' ∈ earlier, r'.Boxes i) ∧ (r.after.binding b.1).prim = b.2.localPrim? := by
  obtain ⟨inits, result, rfl, _, hpassed⟩ := loopPass_passed hr (h.length.trans hlen) (ho ▸ h.runs)
  refine ⟨inits, result, rfl, by rw [← hpassed.length_eq, h.length, hlen], fun i b hb => ?_⟩
  obtain ⟨hinit, rfl⟩ := List.getElem?_eq_some_iff.1 hb
  have hi : i < r.flags.length := hpassed.length_eq ▸ hinit
  have hprim := (hpassed.getElem hi hinit).1.prim
  have hboxed := h.boxed i
  rw [List.getElem?_eq_getElem hi, Option.some.injEq, or_iff_right (hflags i)] at hboxed
  by_cases hflag : r.flags[i] = true
  · rw [hflag, if_pos rfl] at hprim
    exact .inl ⟨hboxed.1 hflag, hprim⟩
  · rw [if_neg hflag] at hprim
    exact .inr ⟨fun h => hflag (hboxed.2 h), hprim⟩

/-- A loop is analyzed in passes, or made a function first. -/
theorem bind_loop {items : List Form} (hb : bindingPairs items[1]? = .ok bindings) (form : Form) (c : Context) :
    bind rec demand form items true c =
      if demand == .eval || demand == .expression then rec demand (wrapInOnceFn form) c
      else loopPasses rec demand bindings (items.drop 2) (bindings.length + 1) (bindings.map fun _ => false) c := by
  rw [bind, hb, bind_of_ok (rfl : ofExcept (.ok bindings) c = (.ok bindings, c)), Bool.true_and, if_pos (rfl : true = true)]
  split <;> rfl

/-- **A loop is analyzed until its locals have settled.**  Where it is not made a function first, the passes over a loop of `n`
bindings end after at most `n + 1` of them, with one that changes no flag.  In every pass a local is boxed if a `recur` of an
earlier one passed it a value of another kind, and otherwise it has the kind of its initial value.  In what is made in the end,
every value that a `recur` passes to a local that is primitive is of a kind that the local takes. -/
theorem loop_settles (fuel : Nat) (demand : Demand) (form : Form) (items : List Form) {bindings : List (Form × Form)} (c : Context)
    (hb : bindingPairs items[1]? = .ok bindings) :
    (∀ e c', bind (formWithin fuel) demand form items true c = (.ok e, c') →
      ∀ target value kind, Rebinds target value e → (c'.binding target).prim = some kind →
        kind = .long ∧ (value.prim? = some .long ∨ value.prim? = some .int) ∨
        kind = .double ∧ (value.prim? = some .double ∨ value.prim? = some .float)) ∧
    ((demand = .eval ∨ demand = .expression) ∧ bind (formWithin fuel) demand form items true c = formWithin fuel demand (wrapInOnceFn form) c ∨
      ∃ rounds, Retries (loopPass (formWithin fuel) demand bindings (items.drop 2)) (bindings.map fun _ => false) c rounds
          (bind (formWithin fuel) demand form items true c) ∧
        rounds.length ≤ bindings.length + 1 ∧
        (∀ e c', bind (formWithin fuel) demand form items true c = (.ok e, c') →
          ∃ pre round, rounds = pre ++ [round] ∧ round.outcome = .ok (e, round.flags) ∧ round.after = c') ∧
        ∀ pre round post, rounds = pre ++ round :: post → ∀ e next, round.outcome = .ok (e, next) →
          ∃ inits result, e = .bind true inits result ∧ inits.length = bindings.length ∧
            ∀ i b, inits[i]? = some b →
              (∃ earlier ∈ pre, earlier.Boxes i) ∧ (round.after.binding b.1).prim = none ∨
              (¬ ∃ earlier ∈ pre, earlier.Boxes i) ∧ (round.after.binding b.1).prim = b.2.localPrim?) := by
  have hr : Tracking (formWithin fuel) := tracking_formWithin fuel
  constructor
  · intro e c' he target value kind hrebinds hkind
    have htracks : Tracks c.scope.loopLocals [] [] (bind (formWithin fuel) demand form items true) fun e => [e] := tracks_loop hr form items
    obtain ⟨_, rs, hmarks, hrs⟩ := htracks c rfl e c' he
    rw [rebindingsOf_singleton, rebindingsOf_nil, Set.empty_union] at hrs
    have hmem : (target, value) ∈ rs := hrs ▸ (hrebinds : (target, value) ∈ e.rebindings)
    obtain ⟨_, hsettled⟩ := (hmarks.settled _ hmem).resolve_left List.not_mem_nil
    exact by_contra fun hn => hsettled ⟨kind, hkind, hn⟩
  · rw [bind_loop hb]
    split
    · rename_i hwrapped
      refine .inl ⟨?_, rfl⟩
      simpa using hwrapped
    · right
      have hlen : (bindings.map fun _ => false).length = bindings.length := List.length_map _
      have hcount : (bindings.map fun _ => false).count false = bindings.length := by simp
      have hnone : ∀ i : Nat, (bindings.map fun _ => false)[i]? ≠ some true := fun i hi => by
        obtain ⟨_, _, hfalse⟩ := List.mem_map.1 (List.mem_of_getElem? hi)
        cases hfalse
      obtain ⟨rounds, hrounds, hbound⟩ := loopPasses_retries hr (bindings.length + 1) hlen (hcount ▸ Nat.lt_succ_self _) c
      refine ⟨rounds, hrounds, hcount ▸ hbound, fun e c' he => (he ▸ hrounds).last, fun pre round post hsplit e next ho => ?_⟩
      exact (hrounds.after hr hlen pre round post hsplit).kinds hr hlen hnone ho

/-- The items of `(loop* [i 0] (recur "s"))`. -/
def textLoop : List Form := [Form.sym "loop*", .ofVector [Form.sym "i", .long 0], .list [Form.sym "recur", .str "s"] none]

theorem loop_settles_text :
    bindingPairs textLoop[1]? = .ok [(Form.sym "i", .long 0)] ∧
    ∃ e c', bind (formWithin 2) .tail (.ofItems textLoop) textLoop true { options := {}, world := .initial } = (.ok e, c') ∧
      (∀ target value kind, Rebinds target value e → (c'.binding target).prim = some kind →
        kind = .long ∧ (value.prim? = some .long ∨ value.prim? = some .int) ∨
        kind = .double ∧ (value.prim? = some .double ∨ value.prim? = some .float)) ∧
      ∃ rounds, Retries (loopPass (formWithin 2) .tail [(Form.sym "i", .long 0)] [.list [Form.sym "recur", .str "s"] none]) [false]
        { options := {}, world := .initial } rounds (.ok e, c') ∧ rounds.length ≤ 2 := by
  have hpairs : bindingPairs textLoop[1]? = .ok [(Form.sym "i", .long 0)] := rfl
  obtain ⟨htakes, hrounds⟩ := loop_settles 2 .tail (.ofItems textLoop) textLoop { options := {}, world := .initial } hpairs
  refine ⟨hpairs, ?_⟩
  rcases hmade : bind (formWithin 2) .tail (.ofItems textLoop) textLoop true { options := {}, world := .initial } with ⟨result, c'⟩
  have hok : (bind (formWithin 2) .tail (.ofItems textLoop) textLoop true { options := {}, world := .initial }).1 matches .ok _ := by
    decide +kernel
  rw [hmade] at hok
  cases result with
  | ok e =>
    obtain ⟨rounds, hretries, hbound, _⟩ := hrounds.resolve_left fun h => by simp at h
    exact ⟨e, c', rfl, htakes e c' hmade, rounds, hmade ▸ hretries, hbound⟩
  | error _ => cases hok
  | cut => cases hok

end LispMachine.Analyze
