import LispMachine.Proofs.Expr.Arms
/-!
# Choices by key

A `case` finds the bucket with the key of its value by a switch, dense or sparse, and a bucket tries its clauses one
after the other.  Both kinds of switch go where the first key leads that is the key (`stepLocal_switchOver`), the dense
one because the keys are in ascending order.
-/
namespace LispMachine.Machine

open LispMachine.Emit LispMachine.Frame LispMachine.Expr

variable {S : Activation} {i : Image} {bound : Nat} {scope : List Nat} {ρ : Locals} {f g : Frame} {w w' : World}
  {loop : Option (List Nat)} {head : Label} {k p q pc' n : Nat} {st : List Slot} {dest : Dest} {hs : List Handler}

/-! ## Switches -/

/-- Where a key leads. -/
def keyTarget (keys : List (Int32 × Label)) (missed : Label) (key : Int32) : Label :=
  ((keys.find? fun k => k.1 == key).map (·.2)).getD missed

theorem lookupTarget_eq (missed : Label) (key : Int32) : ∀ keys : List (Int32 × Label),
    lookupTarget (keys.map (·.1)) (keys.map (·.2)) missed key = keyTarget keys missed key
  | [] => rfl
  | (own, l) :: keys => by
    have ih := lookupTarget_eq missed key keys
    simp only [lookupTarget, keyTarget, List.map_cons, List.findIdx?_cons, List.find?_cons] at ih ⊢
    cases own == key with
    | true => rfl
    | false =>
      simp only [Bool.false_eq_true, if_false]
      rw [← ih]
      cases List.findIdx? (fun x => x == key) (keys.map (·.1)) <;> rfl

theorem getElem?_tableTargets (keys : List (Int32 × Label)) (missed : Label) : ∀ (n : Nat) (low : Int) (j : Nat), j < n →
    (tableTargets keys missed low n)[j]? = some (((keys.find? fun k => k.1.toInt == low + j).map (·.2)).getD missed)
  | 0, _, j, h => by cases h
  | n + 1, low, 0, _ => by simp [tableTargets]
  | n + 1, low, j + 1, h => by
    rw [tableTargets, List.getElem?_cons_succ, getElem?_tableTargets keys missed n (low + 1) j (Nat.lt_of_succ_lt_succ h)]
    have he : low + 1 + (j : Int) = low + ((j + 1 : Nat) : Int) := by omega
    rw [he]

theorem length_tableTargets (keys : List (Int32 × Label)) (missed : Label) : ∀ (n : Nat) (low : Int),
    (tableTargets keys missed low n).length = n
  | 0, _ => rfl
  | n + 1, low => by rw [tableTargets, List.length_cons, length_tableTargets keys missed n]

theorem toInt_beq (a b : Int32) : (a.toInt == b.toInt) = (a == b) := by
  rw [Bool.eq_iff_iff, beq_iff_eq, beq_iff_eq, Int32.toInt_inj]

/-- A dense switch over ascending keys goes where the key leads. -/
theorem tableTarget_eq {keys : List (Int32 × Label)} {low high : Int32 × Label} (missed : Label) (key : Int32)
    (hasc : keys.Pairwise fun a b => a.1.toInt ≤ b.1.toInt) (hlow : keys.head? = some low) (hhigh : keys.getLast? = some high) :
    tableTarget low.1 (tableTargets keys missed low.1.toInt (high.1.toInt - low.1.toInt + 1).toNat) missed key =
      keyTarget keys missed key := by
  have hmin : ∀ x ∈ keys, low.1.toInt ≤ x.1.toInt := by
    intro x hx
    cases keys with
    | nil => cases hx
    | cons y ys =>
      cases hlow
      rcases List.mem_cons.1 hx with rfl | hx
      · exact Int.le_refl _
      · exact List.rel_of_pairwise_cons hasc hx
  have hmax : ∀ x ∈ keys, x.1.toInt ≤ high.1.toInt := by
    intro x hx
    obtain ⟨ys, rfl⟩ := List.getLast?_eq_some_iff.1 hhigh
    rcases List.mem_append.1 hx with hx | hx
    · exact (List.pairwise_append.1 hasc).2.2 x hx high (List.mem_singleton.2 rfl)
    · obtain rfl := List.mem_singleton.1 hx
      exact Int.le_refl _
  have outside : (key.toInt < low.1.toInt ∨ high.1.toInt < key.toInt) → keyTarget keys missed key = missed := by
    intro ho
    have hnone : (keys.find? fun k => k.1 == key) = none := by
      rw [List.find?_eq_none]
      intro x hx he
      have h₁ := hmin x hx
      have h₂ := hmax x hx
      rw [eq_of_beq he] at h₁ h₂
      omega
    rw [keyTarget, hnone]
    rfl
  simp only [tableTarget]
  split
  · rename_i hneg
    rw [outside (.inl (by omega))]
  · rename_i hneg
    by_cases hin : (key.toInt - low.1.toInt).toNat < (high.1.toInt - low.1.toInt + 1).toNat
    · rw [getElem?_tableTargets _ _ _ _ _ hin, Option.getD_some]
      have he : low.1.toInt + ((key.toInt - low.1.toInt).toNat : Int) = key.toInt := by omega
      simp only [he, toInt_beq]
      rfl
    · rw [List.getElem?_eq_none (by rw [length_tableTargets]; omega), outside (.inr (by omega))]
      rfl

theorem stepLocal_switchOver {plan : CasePlan} {keys : List (Int32 × Label)} {missed : Label} {key : Int32}
    (hasc : keys.Pairwise fun a b => a.1.toInt ≤ b.1.toInt) (hst : f.stack = .int key :: st)
    (hq : f.method.labelPc? (keyTarget keys missed key) = some q) :
    stepLocal f (switchOver plan keys missed) = .ok { f with stack := st, pc := q } := by
  unfold switchOver
  split
  · rename_i low _ high _ _ hlow hhigh
    simp only [stepLocal, pop_cons hst, Bind.bind, Except.bind, switchKey, Slot.int?]
    rw [tableTarget_eq missed key hasc hlow hhigh]
    simp only [Frame.goto, hq]
  · simp only [stepLocal, pop_cons hst, Bind.bind, Except.bind, switchKey, Slot.int?]
    rw [lookupTarget_eq]
    simp only [Frame.goto, hq]

/-! ## Keys -/

/-- Behind the code of the key: the key is on the stack, or there is none and control is elsewhere. -/
def KeyLands (bound : Nat) (f : Frame) (p q : Nat) : Option Int32 → Frame → Prop
  | some key, g => f.Comes bound p (.int key :: f.stack) g
  | none, g => f.Comes bound q f.stack g

/-- The key as the plan of the `case` masks it. -/
def maskedKey (plan : CasePlan) (key : Int32) : Int32 :=
  if plan.mask != 0 then shiftMask key plan.shift plan.mask else key

theorem reaches_mask {plan : CasePlan} {key : Int32} (bound : Nat) (w : World) (hm : g.method = i.method)
    (hst : g.stack = .int key :: st) (hs : i.Spans (if plan.mask != 0 then [.shiftMask plan.shift plan.mask] else []) g.pc p) :
    ∃ h, Reaches S.depth g w h w ∧ g.Comes bound p (.int (maskedKey plan key) :: st) h := by
  unfold maskedKey
  split at hs
  · rename_i hmask
    obtain ⟨hj, he⟩ := hs
    cases he
    rw [← hm] at hj
    rw [if_pos hmask]
    refine ⟨_, .single (goes_local hj rfl ?_), comes_to bound g _ _⟩
    simp only [stepLocal, pop_cons (f := { g with pc := g.pc + 1 }) hst, Bind.bind, Except.bind, switchKey, Slot.int?]
    rfl
  · rename_i hmask
    cases hs
    rw [if_neg hmask]
    refine ⟨g, .refl g w, ?_⟩
    have h := Comes.refl bound g
    rw [hst] at h
    exact h

theorem reaches_load {slot : Nat} {s : Slot} (bound : Nat) (w : World) (hm : f.method = i.method)
    (hl : f.locals[slot]? = some s) (hj : i.method.code[f.pc]? = some (.load slot)) :
    ∃ g, Reaches S.depth f w g w ∧ f.Comes bound (f.pc + 1) (s :: f.stack) g := by
  rw [← hm] at hj
  exact ⟨_, .single (goes_local hj rfl (stepLocal_load (f := { f with pc := f.pc + 1 }) hl)), comes_to bound f _ _⟩

theorem realizes_hashKey {plan : CasePlan} {slot : Nat} {s : Slot} (hm : f.method = i.method)
    (hl : f.locals[slot]? = some s)
    (hs : i.Spans (([.load slot, .hash] : List Instr) ++
      if plan.mask != 0 then [Instr.shiftMask plan.shift plan.mask] else []) f.pc p) :
    Realizes S.depth n f w (KeyLands bound f p q) ((pure (some (maskedKey plan s.toValue.hash)) : Run (Option Int32)) w) := by
  obtain ⟨p₁, ⟨hload, hhash, he⟩, hmask⟩ := Image.spans_append.1 hs
  cases he
  obtain ⟨g₁, hr₁, hg₁⟩ := reaches_load (S := S) bound w hm hl hload
  rw [← hm, ← hg₁.pc, ← hg₁.method] at hhash
  have hstep : stepLocal { g₁ with pc := g₁.pc + 1 } .hash =
      .ok { g₁ with pc := g₁.pc + 1, stack := .int s.toValue.hash :: f.stack } := by
    simp only [stepLocal, popValue_cons (f := { g₁ with pc := g₁.pc + 1 }) hg₁.stack]
    rfl
  have hg₂ := comes_to bound g₁ (g₁.pc + 1) (.int s.toValue.hash :: f.stack)
  rw [← hg₁.pc] at hmask
  obtain ⟨g₃, hr₃, hg₃⟩ := reaches_mask (S := S) (g := { g₁ with pc := g₁.pc + 1, stack := .int s.toValue.hash :: f.stack })
    bound w (hg₁.method.trans hm) rfl hmask
  exact .value ((hr₁.trans (.single (goes_local hhash rfl hstep))).trans hr₃) ((hg₁.trans hg₂).trans hg₃)

theorem step_instanceOf {e : Nat} {id : ClassId} {name : String} {s : Slot} (hst : f.stack = s :: st)
    (hc : f.classAt w e = .ok (id, name)) :
    step f (.instanceOf e) w = (.value (.next { f with stack := .bool (w.isInstance s.toValue id) :: st }), w) := by
  simp only [step, stepData, popValue_cons hst, Run.ofExcept_ok, pure_bind, bind_assoc, Run.world_bind, hc]
  rfl

theorem reaches_instanceOf (hr : S.Ready i bound scope ρ f w) {e : Nat} {id : ClassId} {name : String} {s : Slot}
    (hst : f.stack = s :: st) (hc : S.tables.constants[e]? = some (.type id name))
    (hj : i.method.code[f.pc]? = some (.instanceOf e)) :
    ∃ g, Reaches S.depth f w g w ∧ f.Comes bound (f.pc + 1) (.bool (w.isInstance s.toValue id) :: st) g := by
  rw [← hr.method] at hj
  have ha := (hr.moved (f.pc + 1) f.stack).classAt hc
  exact ⟨_, .single (.next hj (step_instanceOf (f := { f with pc := f.pc + 1 }) hst ha)), comes_to bound f _ _⟩

theorem reaches_jumpIfFalse {b : Bool} {l : Label} (bound : Nat) (w : World) (hm : f.method = i.method)
    (hst : f.stack = .bool b :: st) (hj : i.method.code[f.pc]? = some (.jumpIfFalse l)) (hq : i.method.labelPc? l = some q) :
    ∃ g, Reaches S.depth f w g w ∧ f.Comes bound (if b then f.pc + 1 else q) st g := by
  rw [← hm] at hj hq
  exact ⟨_, .single (goes_local hj rfl (stepLocal_jumpIfFalse (f := { f with pc := f.pc + 1 }) hst hq)), comes_to bound f _ _⟩

theorem realizes_intKey (hi : S.Installed i) {plan : CasePlan} {slot e : Nat} {s : Slot} {missed : Label} {id : ClassId}
    {name : String} (hr : S.Ready i bound scope ρ f w) (hb : slot < bound) (hl : f.locals[slot]? = some s)
    (hc : S.tables.constants[e]? = some (.type id name)) (hq : i.method.labelPc? missed = some q)
    (hs : i.Spans (([.load slot, .instanceOf e, .jumpIfFalse missed, .load slot, .unbox .int] : List Instr) ++
      if plan.mask != 0 then [Instr.shiftMask plan.shift plan.mask] else []) f.pc p) :
    Realizes S.depth n f w (KeyLands bound f p q) ((if w.isInstance s.toValue id = true then
      Run.ofExcept (Slot.unbox s.toValue .int) >>= fun u => pure (some (maskedKey plan (u.int?.getD 0))) else pure none) w) := by
  obtain ⟨p₁, ⟨hload, hinst, hjump, hload', hunbox, he⟩, hmask⟩ := Image.spans_append.1 hs
  cases he
  obtain ⟨g₁, hr₁, hg₁⟩ := reaches_load (S := S) bound w hr.method hl hload
  rw [← hg₁.pc] at hinst hjump hload' hunbox hmask
  obtain ⟨g₂, hr₂, hg₂⟩ := reaches_instanceOf (hr.comes hg₁ rfl) hg₁.stack hc hinst
  have h₂ := hg₁.trans hg₂
  rw [← hg₂.pc] at hjump hload' hunbox hmask
  obtain ⟨g₃, hr₃, hg₃⟩ := reaches_jumpIfFalse (S := S) bound w (h₂.method.trans hr.method) hg₂.stack hjump hq
  have h₃ := h₂.trans hg₃
  refine .after ((hr₁.trans hr₂).trans hr₃) ?_
  cases hinstance : w.isInstance s.toValue id with
  | false =>
    rw [hinstance] at h₃
    exact .value (.refl g₃ w) h₃
  | true =>
    rw [hinstance, if_pos rfl] at h₃
    rw [if_pos rfl]
    rw [← h₃.pc] at hload' hunbox hmask
    obtain ⟨g₄, hr₄, hg₄⟩ := reaches_load (S := S) bound w (h₃.method.trans hr.method) (h₃.holds hb hl) hload'
    have h₄ := h₃.trans hg₄
    rw [h₃.stack] at h₄
    rw [← hg₄.pc] at hunbox hmask
    have hh : g₄.method.handlers = [] := (hr.comes h₄ (v := w) rfl).handlers hi
    rw [← hr.method, ← h₄.method] at hunbox
    refine .after hr₄ ((realizes_local bound hh hunbox rfl (stepLocal_unbox .int h₄.stack)).bind
      fun u g₅ w' hu _ hg₅ => ?_)
    have h₅ := h₄.trans hg₅
    obtain ⟨m, rfl⟩ : ∃ m, u = .int m := by
      have hk : u.prim? = some .int := by
        revert hu
        cases hx : Slot.unbox s.toValue .int with
        | error e => exact fun hu => by cases hu
        | ok u' =>
          intro hu
          cases hu
          exact Host.gives_unbox _ _ u hx
      cases u with
      | int m => exact ⟨m, rfl⟩
      | _ => cases hk
    rw [← hg₅.pc] at hmask
    obtain ⟨g₆, hr₆, hg₆⟩ := reaches_mask (S := S) bound w' (h₅.method.trans hr.method) hg₅.stack hmask
    exact .value hr₆ (h₅.trans hg₆)

/-- The key of the value in the slot of a `case`. -/
theorem realizes_caseKey (hi : S.Installed i) {plan : CasePlan} {slot : Nat} {s : Slot} {missed : Label}
    (hr : S.Ready i bound scope ρ f w) (hb : slot < bound) (hl : f.locals[slot]? = some s)
    (hprov : ∀ (j : Nat) (n : Need), (keyNeeds plan)[j]? = some n → i.pool.Provides n (S.entryOf (k + j)))
    (hq : i.method.labelPc? missed = some q)
    (hs : i.Spans (keyCode plan slot missed fun j => S.entryOf (k + j)) f.pc p) :
    Realizes S.depth n f w (KeyLands bound f p q) (S.caseKey k plan s.toValue w) := by
  unfold keyCode at hs
  unfold keyNeeds at hprov
  unfold Activation.caseKey
  cases ht : plan.test with
  | int =>
    rw [ht] at hs hprov
    obtain ⟨id, name, hc⟩ := (hi.answers _ _ (hprov 0 _ rfl)).type
    simp only [Activation.type_eq (k := k) hc, Run.world_bind]
    exact realizes_intKey hi hr hb hl hc hq hs
  | hashIdentity | hashEquiv =>
    rw [ht] at hs
    exact realizes_hashKey hr.method hl hs

/-! ## Clauses -/

/-- Behind a bucket: at the end of its clause, or at the default if no clause was the right one. -/
def ClauseLands (S : Activation) (loop : Option (List Nat)) (head : Label) (bound : Nat) (f : Frame) (p q : Nat) :
    Option Landing → Frame → Prop
  | some a, g => S.Lands loop head bound f p a g
  | none, g => f.Comes bound q f.stack g

theorem ClauseLands.of_comes {o : Option Landing} {h : Frame} {r : Nat} (hf : f.Comes bound r f.stack g)
    (hl : ClauseLands S loop head bound g p q o h) : ClauseLands S loop head bound f p q o h := by
  cases o with
  | some a => exact Activation.Lands.of_comes hf hl
  | none =>
    have h := Comes.trans hf hl
    rw [hf.stack] at h
    exact h

/-- Takes the outcome of a clause to the destination. -/
def landClause (ret : Option Prim) (dest : Dest) : Option Flow → Run (Option Landing)
  | some r => do return some (← Run.ofExcept (r.land ret dest))
  | none => return none

theorem stepLocal_testInstr (test : CaseTest) {next : Label} {s : Slot} {v : Value} (hst : f.stack = .obj v :: s :: st)
    (hq : f.method.labelPc? next = some q) : stepLocal f (testInstr test next) =
      .ok { f with stack := st, pc := if Activation.isCase test s.toValue v then f.pc else q } := by
  have hobj : (Slot.obj v).toValue = v := rfl
  unfold testInstr Activation.isCase
  split
  · simp only [stepLocal, popValue_cons hst, popValue_cons (f := { f with stack := s :: st }) rfl, Bind.bind, Except.bind, hobj]
    split
    · rfl
    · simp only [Frame.goto, hq]
  · simp only [stepLocal, popValue_cons hst, popValue_cons (f := { f with stack := s :: st }) rfl, Bind.bind, Except.bind, hobj]
    split
    · rfl
    · simp only [Frame.goto, hq]

/-- The test of a clause goes on to its value, or to the next clause. -/
theorem reaches_clauseTest (hr : S.Ready i bound scope ρ f w) (test : CaseTest) {slot e : Nat} {s : Slot} {v : Value}
    {next : Label} (hl : f.locals[slot]? = some s) (hv : S.tables.constants[e]? = some v)
    (hq : i.method.labelPc? next = some q) (hs : i.Spans [.load slot, .const e, testInstr test next] f.pc p) :
    ∃ g, Reaches S.depth f w g w ∧ f.Comes bound (if Activation.isCase test s.toValue v then p else q) f.stack g := by
  obtain ⟨hload, hconst, htest, he⟩ := hs
  cases he
  obtain ⟨g₁, hr₁, hg₁⟩ := reaches_load (S := S) bound w hr.method hl hload
  have hready₁ := hr.comes hg₁ (v := w) rfl
  rw [← hready₁.method, ← hg₁.pc] at hconst htest
  rw [← hready₁.method] at hq
  have hc := step_const (f := { g₁ with pc := g₁.pc + 1 }) ((hready₁.moved (g₁.pc + 1) g₁.stack).constant hv)
  have hmoves : movesSlots (testInstr test next) = true := by
    unfold testInstr
    split <;> rfl
  have ht := stepLocal_testInstr (f := { g₁ with pc := g₁.pc + 1 + 1, stack := .obj v :: g₁.stack }) test
    (congrArg (Slot.obj v :: ·) hg₁.stack) hq
  refine ⟨_, hr₁.trans ((Reaches.single (.next hconst hc)).trans (.single (goes_local
    (f := { g₁ with pc := g₁.pc + 1, stack := .obj v :: g₁.stack }) htest hmoves ht))), hg₁.trans ?_⟩
  rw [← hg₁.pc]
  exact comes_to bound g₁ _ _

variable {test : CaseTest} {slot : Nat} {s : Slot} {missed stop : Label}

theorem realizes_entries (hi : S.Installed i) (hb : slot < bound) (hloop : Activation.Rebindable scope loop)
    (hstop : i.method.labelPc? stop = some p) (hmissed : i.method.labelPc? missed = some q) :
    ∀ {entries : List (Form × Expr)} {k : Nat} {f : Frame} {w : World} {hs : List Handler},
    (∀ e ∈ entries, S.Faithful i n e.2) → entries ≠ [] → ScopedEntries S.context S.frame bound scope loop entries →
    S.Ready i bound scope ρ f w → f.locals[slot]? = some s →
    LaidEntries (S.env head) dest test slot missed stop entries i S.entryOf k f.pc pc' hs →
    Realizes S.depth n f w (ClauseLands S loop head bound f p q)
      ((meaningEntries S n k ρ test s.toValue entries >>= landClause S.ret dest) w)
  | (constant, value) :: rest, k, f, w, hs, hes, _, hsc, hr, hl, hlaid => by
    obtain ⟨next, hnext, p₁, _, _, _, ⟨hprov, hcode, _⟩, p₂, _, _, _, hvalue, p₃, _, _, _, hexit, p₄, _, _, _, hhere, hrest⟩ :=
      hlaid
    obtain ⟨v, hv⟩ := (hi.answers _ _ (hprov 0 _ rfl)).constant
    have htarget : ∃ q', i.method.labelPc? next = some q' ∧ (rest = [] → q' = q) ∧ (rest ≠ [] → q' = p₄) := by
      cases rest with
      | nil =>
        rw [hnext rfl]
        exact ⟨q, hmissed, fun _ => rfl, fun h => absurd rfl h⟩
      | cons e rest =>
        obtain ⟨hl, he, _⟩ := hhere
        cases he
        exact ⟨_, hl, (by simp), fun _ => rfl⟩
    obtain ⟨q', hq', hlast, hmore⟩ := htarget
    obtain ⟨g, hreach, hg⟩ := reaches_clauseTest (w := w) hr test hl hv hq' hcode
    have hr' := hr.comes hg (v := w) rfl
    rw [meaningEntries, Activation.value_eq (k := k) hv]
    refine .after hreach ?_
    cases hcase : Activation.isCase test s.toValue v with
    | true =>
      rw [hcase, if_pos rfl] at hg
      rw [if_pos rfl, bind_assoc]
      rw [← hg.pc] at hvalue
      have hval := Realizes.exits hr'.method returns_leaves hexit hstop
        (hes _ List.mem_cons_self hsc.1 hloop hr' hvalue)
      have hland : ∀ x : Run Flow, (x >>= fun r => (pure (some r) >>= landClause S.ret dest : Run (Option Landing))) =
          ((x >>= fun r => Run.ofExcept (r.land S.ret dest)) >>= fun a => pure (some a)) := by
        intro x
        simp only [landClause, bind_assoc, pure_bind]
      rw [hland]
      exact hval.bind fun a h w' _ _ hh => .pure (ClauseLands.of_comes (o := some a) hg hh)
    | false =>
      rw [hcase, if_neg Bool.false_ne_true] at hg
      rw [if_neg Bool.false_ne_true]
      cases rest with
      | nil =>
        rw [hlast rfl] at hg
        rw [meaningEntries, pure_bind]
        exact .pure hg
      | cons e rest =>
        rw [hmore (by simp)] at hg
        rw [← hg.pc] at hrest
        exact (realizes_entries hi hb hloop hstop hmissed (fun e h => hes e (List.mem_cons_of_mem _ h)) (by simp) hsc.2 hr'
          (hg.holds hb hl) hrest).mono fun _ _ => ClauseLands.of_comes hg

/-- The clauses of the bucket to which the key leads. -/
theorem realizes_buckets (hi : S.Installed i) (hb : slot < bound) (hloop : Activation.Rebindable scope loop)
    (hstop : i.method.labelPc? stop = some p) (hmissed : i.method.labelPc? missed = some q)
    (hr : S.Ready i bound scope ρ f w) (hl : f.locals[slot]? = some s) {key : Int32} :
    ∀ {buckets : List (Int32 × List (Form × Expr))} {labels : List Label} {k p' : Nat} {hs : List Handler},
    (∀ b ∈ buckets, ∀ e ∈ b.2, S.Faithful i n e.2) → ScopedBuckets S.context S.frame bound scope loop buckets →
    labels.length = buckets.length →
    LaidBuckets (S.env head) dest test slot missed stop labels buckets i S.entryOf k p' pc' hs →
    i.method.labelPc? (keyTarget ((buckets.map (·.1)).zip labels) missed key) = some f.pc →
    Realizes S.depth n f w (ClauseLands S loop head bound f p q)
      ((meaningBuckets S n k ρ test s.toValue (some key) buckets >>= landClause S.ret dest) w)
  | [], labels, k, p', hs, _, _, _, _, hpc => by
    have hpc : i.method.labelPc? missed = some f.pc := hpc
    rw [hmissed] at hpc
    cases hpc
    rw [meaningBuckets, pure_bind]
    exact .pure (Comes.refl bound f)
  | (own, entries) :: rest, l :: labels, k, p', hs, hes, hsc, hlen, hlaid, hpc => by
    obtain ⟨p₁, _, _, _, ⟨hhere, he, _⟩, p₂, _, _, _, hentries, hrest⟩ := hlaid
    cases he
    rw [meaningBuckets]
    simp only [keyTarget, List.map_cons, List.zip_cons_cons, List.find?_cons] at hpc
    by_cases hkey : key = own
    · rw [hkey] at hpc
      simp only [beq_self_eq_true, Option.map_some, Option.getD_some] at hpc
      rw [show i.method.labelPc? l = some p' from hhere] at hpc
      cases hpc
      rw [if_pos (congrArg some hkey)]
      exact realizes_entries hi hb hloop hstop hmissed (hes _ List.mem_cons_self) hsc.1 hsc.2.1 hr hl hentries
    · rw [if_neg fun h => hkey (Option.some.inj h)]
      have hne : (own == key) = false := beq_eq_false_iff_ne.2 (Ne.symm hkey)
      rw [hne] at hpc
      exact realizes_buckets hi hb hloop hstop hmissed hr hl (fun b h => hes b (List.mem_cons_of_mem _ h)) hsc.2.2
        (Nat.succ.inj hlen) hrest hpc

/-- Every key leads somewhere. -/
theorem exists_keyTarget (hmissed : i.method.labelPc? missed = some q) (key : Int32) :
    ∀ {buckets : List (Int32 × List (Form × Expr))} {labels : List Label} {k p' : Nat} {hs : List Handler},
    labels.length = buckets.length →
    LaidBuckets (S.env head) dest test slot missed stop labels buckets i S.entryOf k p' pc' hs →
    ∃ r, i.method.labelPc? (keyTarget ((buckets.map (·.1)).zip labels) missed key) = some r
  | [], labels, _, _, _, _, _ => ⟨q, hmissed⟩
  | (own, entries) :: rest, l :: labels, k, p', hs, hlen, hlaid => by
    obtain ⟨p₁, _, _, _, ⟨hhere, _, _⟩, p₂, _, _, _, _, hrest⟩ := hlaid
    simp only [keyTarget, List.map_cons, List.zip_cons_cons, List.find?_cons]
    cases own == key with
    | true => exact ⟨p', hhere⟩
    | false => exact exists_keyTarget hmissed key (Nat.succ.inj hlen) hrest

/-! ## The whole form -/

theorem meaningBuckets_none (S : Activation) (n : Nat) (ρ : Locals) (test : CaseTest) (v : Value) :
    ∀ (buckets : List (Int32 × List (Form × Expr))) (k : Nat), meaningBuckets S n k ρ test v none buckets = pure none
  | [], k => by rw [meaningBuckets]
  | (own, entries) :: rest, k => by
    rw [meaningBuckets, if_neg (by simp)]
    exact meaningBuckets_none S n ρ test v rest _

theorem pairwise_zip {R : Int32 → Int32 → Prop} : ∀ {keys : List Int32} (labels : List Label), keys.Pairwise R →
    (keys.zip labels).Pairwise fun a b => R a.1 b.1
  | [], _, _ => by simp
  | _ :: _, [], _ => by simp
  | key :: keys, l :: labels, h => by
    obtain ⟨h₁, h₂⟩ := List.pairwise_cons.1 h
    rw [List.zip_cons_cons, List.pairwise_cons]
    exact ⟨fun x hx => h₁ x.1 (List.of_mem_zip hx).1, pairwise_zip labels h₂⟩

/-- The clause or the default, once the key is known. -/
theorem realizes_switched (hi : S.Installed i) {plan : CasePlan} {buckets : List (Int32 × List (Form × Expr))}
    {labels : List Label} {otherwise : Expr} {key : Int32} {hs' : List Handler} {p₁ k' : Nat}
    (hes : ∀ b ∈ buckets, ∀ e ∈ b.2, S.Faithful i n e.2) (ho : S.Faithful i n otherwise) (hb : slot < bound)
    (hloop : Activation.Rebindable scope loop) (hsc : ScopedBuckets S.context S.frame bound scope loop buckets)
    (hsco : otherwise.Scoped S.context S.frame bound scope loop)
    (hasc : buckets.Pairwise fun a b => a.1.toInt ≤ b.1.toInt) (hlen : labels.length = buckets.length)
    (hstop : i.method.labelPc? stop = some pc') (hmissed : i.method.labelPc? missed = some q)
    (hr : S.Ready i bound scope ρ f w) (hl : f.locals[slot]? = some s) (hst : f.stack = .int key :: st)
    (hswitch : i.method.code[f.pc]? = some (switchOver plan ((buckets.map (·.1)).zip labels) missed))
    (hlaid : LaidBuckets (S.env head) dest test slot missed stop labels buckets i S.entryOf k p₁ q hs)
    (hother : Laid (S.env head) dest otherwise i S.entryOf k' q pc' hs') :
    ∃ g, f.Comes bound g.pc st g ∧ Reaches S.depth f w g w ∧ Realizes S.depth n g w (S.Lands loop head bound g pc')
      (((meaningBuckets S n k ρ test s.toValue (some key) buckets >>= landClause S.ret dest) >>= fun o => o.elim
        (otherwise.meaning S n k' ρ >>= fun r => Run.ofExcept (r.land S.ret dest)) pure) w) := by
  obtain ⟨r, hr'⟩ := exists_keyTarget hmissed key hlen hlaid
  rw [← hr.method] at hswitch
  have hasc' : ((buckets.map (·.1)).zip labels).Pairwise fun a b => a.1.toInt ≤ b.1.toInt :=
    pairwise_zip (R := fun a b => a.toInt ≤ b.toInt) labels (List.pairwise_map.2 hasc)
  have hmoves : movesSlots (switchOver plan ((buckets.map (·.1)).zip labels) missed) = true := by
    unfold switchOver
    split <;> rfl
  have hgo := goes_local (d := S.depth) (w := w) hswitch hmoves
    (stepLocal_switchOver (f := { f with pc := f.pc + 1 }) hasc' hst (hr.method.symm ▸ hr'))
  have hready := hr.moved r st
  refine ⟨_, comes_to bound f r st, .single hgo, ?_⟩
  refine (realizes_buckets hi hb hloop hstop hmissed hready hl hes hsc hlen hlaid hr').bind fun o h w' _ hreach hh => ?_
  cases o with
  | some a => exact .pure hh
  | none =>
    have hh : Frame.Comes bound _ q st h := hh
    rw [← hh.pc] at hother
    exact (ho hsco hloop (hready.comes hh hreach.code_eq) hother).mono fun _ _ => .of_comes hh

theorem faithful_case (hi : S.Installed i) {value : Expr} (temp : Nat) (plan : CasePlan)
    {buckets : List (Int32 × List (Form × Expr))} {otherwise : Expr} (line : Nat) (hv : S.Faithful i n value)
    (hes : ∀ b ∈ buckets, ∀ e ∈ b.2, S.Faithful i n e.2) (ho : S.Faithful i n otherwise) :
    S.Faithful i n (.case value temp plan buckets otherwise line) := by
  intro bound scope loop head dest k ρ f w pc' hs hsc hloop hr hl
  obtain ⟨missed, stop, p₁, _, _, _, hvalue, p₂, _, _, _, ⟨hprov, ⟨hstore, hkey⟩, _⟩, labels, hlen, p₃, _, _, _,
    ⟨_, ⟨hswitch, he⟩, _⟩, p₄, _, _, _, hbuckets, p₅, _, _, _, ⟨hmissed, hp₅, _⟩, p₆, _, _, _, hother, hstop, hpc, _⟩ := hl
  cases he
  cases hp₅
  cases hpc
  obtain ⟨hscv, htemp, hasc, hscb, hsco⟩ := hsc
  rw [Expr.meaning]
  simp only [bind_assoc]
  refine (realizes_operand (q := none) hv hscv hr hvalue).bind fun s g w₁ _ hreach hg => ?_
  have hr₁ := hr.comes hg hreach.code_eq
  -- the value goes to its slot
  rw [← hr₁.method, ← hg.pc] at hstore
  have hlt : slotOf (S.env head) temp < g.locals.size := Nat.lt_of_le_of_lt htemp.within hr₁.room
  have hst := goes_local (d := S.depth) (w := w₁) hstore rfl (stepLocal_store (f := { g with pc := g.pc + 1 }) hg.stack hlt)
  have hr₂ := hr₁.introduces htemp (g.pc + 1) f.stack s
  have hg₂ := hg.trans (Activation.Ready.comes_introduces htemp g (g.pc + 1) f.stack s)
  refine .after (.single hst) ?_
  have hslot := hr₂.holds temp List.mem_cons_self
  simp only [Locals.set, if_true] at hslot
  rw [← hg.pc] at hkey
  refine Realizes.mono (P := S.Lands loop head ((S.context.binding temp).slot + 1) _ pc') ?_ fun a h ha =>
    (ha.below (Nat.le_succ_of_le htemp.above)).of_comes hg₂
  refine (realizes_caseKey hi hr₂ (Nat.lt_succ_self _) hslot hprov hmissed hkey).bind fun key g₃ w₃ _ hreach₃ hg₃ => ?_
  cases key with
  | none =>
    have hg₃ : Frame.Comes _ _ _ _ g₃ := hg₃
    rw [meaningBuckets_none, pure_bind]
    rw [← hg₃.pc] at hother
    exact (ho hsco (hloop.cons temp) (hr₂.comes hg₃ hreach₃.code_eq) hother).mono fun _ _ => .of_comes hg₃
  | some key =>
    have hg₃ : Frame.Comes _ _ _ _ g₃ := hg₃
    rw [← hg₃.pc] at hswitch
    obtain ⟨g₄, hg₄, hreach₄, h⟩ := realizes_switched hi hes ho (Nat.lt_succ_self _) (hloop.cons temp) hscb hsco hasc hlen
      hstop hmissed (hr₂.comes hg₃ hreach₃.code_eq) (hg₃.holds (Nat.lt_succ_self _) hslot) hg₃.stack hswitch hbuckets hother
    refine .after hreach₄ (.mono ?_ fun _ _ => .of_comes (hg₃.trans hg₄))
    rw [bind_assoc] at h
    refine Eq.mp (congrArg (fun x => Realizes S.depth n g₄ w₃ _ ((_ >>= x : Run Landing) w₃)) (funext fun o => ?_)) h
    cases o with
    | some r => simp only [landClause, bind_assoc, pure_bind, Option.elim_some, bind_pure]
    | none => simp only [landClause, pure_bind, Option.elim_none, Nat.add_zero]

end LispMachine.Machine
