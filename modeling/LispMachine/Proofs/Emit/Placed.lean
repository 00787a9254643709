import LispMachine.Proofs.Emit.Layout
/-!
# Emission lays code out

Wherever the emission of an expression succeeds, the code stands in the finished method as its layout
says (`places_emit`).  The proof follows the text of the emission with one rule for each of its steps.

An arm that ends in a terminal instruction gets no jump to the common exit.  That such an arm is one that
control cannot leave at its end is a matter of the state of the emission (`Halts`).
-/
namespace LispMachine.Emit

open LispMachine.Expr (needs needsOption needsAll needsPairs needsBindings needsHandlers needsBuckets needsEntries)

/-- The emission lays its code out as the region says. -/
abbrev Places (marks : List Label) (needs : List Need) (x : Emit PUnit) (A : Region) : Prop :=
  Emits marks needs x fun _ => A

section

variable {α : Type} {ms ms' : List Label} {ns ns' : List Need} {x y : Emit PUnit} {z : Emit α} {A B : Region} {R : Layout α}
  {js ks : (Nat → Nat) → List Instr}

/-! ## Regions in a row -/

theorem emits_after (hx : Places ms ns x A) (hz : Emits ms' ns' z R) (hd : ∀ l ∈ ms', l ∉ ms) :
    Emits (ms ++ ms') (ns ++ ns') (x >>= fun _ => z) fun a => .seq ns.length A (R a) :=
  (emits_bind hx (fun _ => hz) hd).mono fun _ _ _ _ _ _ _ ⟨_, p, hs₁, hs₂, hh, hA, hB⟩ => ⟨p, hs₁, hs₂, hh, hA, hB⟩

/-- The first of two regions binds no label. -/
theorem emits_then (hx : Places [] ns x A) (hz : Emits ms ns' z R) :
    Emits ms (ns ++ ns') (x >>= fun _ => z) fun a => .seq ns.length A (R a) :=
  emits_after hx hz fun _ _ h => by cases h

/-- The second of two regions needs nothing. -/
theorem emits_last (hx : Places [] ns x A) (hz : Emits ms [] z R) :
    Emits ms ns (x >>= fun _ => z) fun a => .seq ns.length A (R a) := by
  have h := emits_then hx hz
  rwa [List.append_nil] at h

/-- Binding a label in front of a region. -/
theorem emits_mark_then {l : Label} (hz : Emits ms ns z R) (hl : l ∉ ms) :
    Emits (l :: ms) ns (mark l >>= fun _ => z) fun a => .seq 0 (.here l) (R a) := by
  refine emits_after (emits_mark l) hz fun l' hl' h => ?_
  cases List.mem_singleton.1 h
  exact hl hl'

theorem emits_fresh {f : Label → Emit α} {C : Label → Layout α} (hf : ∀ l, l ∉ ms → Emits (l :: ms) ns (f l) (C l)) :
    Emits ms ns (newLabel >>= f) fun a => .fresh fun l => C l a := emits_newLabel hf

theorem emits_atLine_then (n : Nat) (hz : Emits ms ns z R) :
    Emits ms ns (atLine n >>= fun _ => z) R :=
  (emits_bind (emits_atLine n) (fun _ => hz) fun _ _ h => by cases h).mono
    fun _ _ _ _ _ _ _ ⟨_, _, _, _, hh, ⟨hp, hs⟩, hR⟩ => by
      cases hp
      cases hs
      cases hh
      exact hR

/-! ## Straight code -/

theorem provided_nil {i : Image} {e : Nat → Nat} {k : Nat} :
    ∀ (j : Nat) (n : Need), ([] : List Need)[j]? = some n → i.pool.Provides n (e (k + j)) := by
  intro j n h
  cases h

theorem places_pure : Places [] [] (pure ⟨⟩) (.code [] fun _ => []) :=
  (emits_pure _).mono fun _ _ _ _ _ _ _ h => ⟨provided_nil, h.2⟩

theorem places_op (j : Instr) : Places [] [] (op j) (.code [] fun _ => [j]) :=
  (emits_op j).mono fun _ _ _ _ _ _ _ h => ⟨provided_nil, ⟨h.1, h.2.1⟩, h.2.2⟩

theorem places_code (hx : Places [] ns x (.code ns js)) (hy : Places [] ns' y (.code ns' ks)) :
    Places [] (ns ++ ns') (x >>= fun _ => y)
      (.code (ns ++ ns') fun entry => js entry ++ ks fun j => entry (ns.length + j)) := by
  refine (emits_then hx hy).mono fun _ i e k _ _ _ h => ?_
  obtain ⟨p, _, _, hh, ⟨hp, hj, h₁⟩, ⟨hp', hk, h₂⟩⟩ := h
  cases h₁
  cases h₂
  refine ⟨fun j n hn => ?_, Image.spans_append.2 ⟨p, hj, ?_⟩, hh⟩
  · by_cases hlt : j < ns.length
    · rw [List.getElem?_append_left hlt] at hn
      exact hp j n hn
    · have hle := Nat.le_of_not_lt hlt
      rw [List.getElem?_append_right hle] at hn
      have h := hp' _ n hn
      rwa [Nat.add_assoc, Nat.add_sub_cancel' hle] at h
  · simpa only [Nat.add_assoc] using hk

/-- An instruction in front of other code. -/
theorem places_op_then (j : Instr) (hy : Places [] ns y (.code ns js)) :
    Places [] ns (op j >>= fun _ => y) (.code ns fun entry => j :: js entry) :=
  (places_code (places_op j) hy).mono fun _ _ _ _ _ _ _ h => by simpa using h

/-- Code that names the entry of a need. -/
theorem places_pooled {need : Need} {f : Pool → Nat × Pool} {g : Nat → Emit PUnit} {js : Nat → (Nat → Nat) → List Instr}
    (hf : Pool.Serves need f) (hg : ∀ n, Places [] ns (g n) (.code ns (js n))) :
    Places [] (need :: ns) (pooled f >>= g) (.code (need :: ns) fun entry => js (entry 0) fun j => entry (j + 1)) := by
  refine (emits_seq (emits_pooled hf) hg).mono fun _ i e k _ _ _ h => ?_
  obtain ⟨_, _, _, _, hh, ⟨ha, hp, hpc, hs⟩, ⟨hq, hj, h₂⟩⟩ := h
  cases ha
  cases hpc
  cases hs
  cases h₂
  refine ⟨fun j n hn => ?_, ?_, hh⟩
  · cases j with
    | zero =>
      cases hn
      exact hp
    | succ j =>
      have h := hq j n hn
      rwa [List.length_singleton, Nat.add_assoc, Nat.add_comm 1] at h
  · simpa [Nat.add_assoc, Nat.add_comm 1] using hj

theorem places_forM {α : Type} (f : α → Emit PUnit) (g : α → List Instr) : ∀ xs : List α,
    (∀ x ∈ xs, Places [] [] (f x) (.code [] fun _ => g x)) → Places [] [] (xs.forM f) (.code [] fun _ => xs.flatMap g)
  | [], _ => by
    rw [List.forM_eq_forM, List.forM_nil]
    exact places_pure
  | x :: xs, h => by
    rw [List.forM_eq_forM, List.forM_cons, List.flatMap_cons]
    exact places_code (h x List.mem_cons_self) (places_forM f g xs fun y hy => h y (List.mem_cons_of_mem x hy))

theorem serves_type (name : String) : Pool.Serves (.constant (.type name)) (·.constant (.type name)) :=
  Pool.serves_constant _

theorem places_box (kind : Option Prim) : Places [] [] (box kind) (.code [] fun _ => boxCode kind) := by
  cases kind with
  | none => exact places_pure
  | some p => exact places_op _

theorem places_unbox (kind : Option Prim) (p : Prim) :
    Places [] [] (unbox kind p) (.code [] fun _ => unboxCode kind p) := by
  cases kind with
  | none => exact places_op _
  | some own =>
    simp only [unbox, unboxCode]
    split
    · exact places_pure
    · exact places_op _

theorem places_settle (env : EmitEnv) (dest : Dest) (kind : Option Prim) :
    Places [] [] (settle env dest kind) (.code [] fun _ => settleCode env dest kind) := by
  cases dest with
  | statement => exact places_code (places_box kind) (places_op _)
  | boxed => exact places_box kind
  | unboxed p => exact places_unbox kind p
  | result =>
    simp only [settle, settleCode]
    cases env.ret with
    | some p => exact places_code (places_unbox kind p) (places_op_then _ (places_op _))
    | none => exact places_code (places_box kind) (places_op _)

/-- A last instruction, and the way to the destination. -/
theorem places_op_settle (j : Instr) (env : EmitEnv) (dest : Dest) (kind : Option Prim) :
    Places [] [] (op j >>= fun _ => settle env dest kind) (.code [] fun _ => j :: settleCode env dest kind) :=
  places_op_then j (places_settle env dest kind)

theorem places_inert {push : Emit PUnit} (env : EmitEnv) (dest : Dest) (kind : Option Prim)
    (hp : Places [] ns push (.code ns js)) :
    Places [] ns (inert env dest kind push) (.code (inertNeeds dest ns) fun entry => inertCode env dest kind (js entry)) := by
  unfold inert inertCode inertNeeds
  split
  · exact places_pure.skipping ns
  · have := places_code hp (places_settle env dest kind)
    rw [List.append_nil] at this
    exact this

/-- A value that needs nothing and has no effect. -/
theorem places_inert_op {push : Emit PUnit} {js : List Instr} (env : EmitEnv) (dest : Dest) (kind : Option Prim)
    (hp : Places [] [] push (.code [] fun _ => js)) :
    Places [] [] (inert env dest kind push) (.code [] fun _ => inertCode env dest kind js) :=
  (places_inert env dest kind hp).mono fun _ _ _ _ _ _ _ h => ⟨provided_nil, h.2⟩

/-! ## Locals -/

theorem places_pushLocal (env : EmitEnv) (r : LocalRef) :
    Places [] [] (pushLocal env r) (.given (Visible env [r]) (.code [] fun _ => localCode env [r])) := by
  unfold Visible localCode pushLocal
  simp only [List.mem_singleton, forall_eq, List.filterMap_cons, List.filterMap_nil]
  cases hj : localInstr? env r with
  | none =>
    simp only [localInstr?] at hj
    split at hj
    · cases hj
    · rename_i hm
      rw [if_neg hm]
      rw [Option.map_eq_none_iff] at hj
      rw [hj]
      exact emits_throw _ _ _ _
  | some j =>
    have hop : pushLocal env r = op j := by
      unfold pushLocal
      simp only [localInstr?] at hj
      split at hj
      · rename_i hm
        rw [if_pos hm]
        cases hj
        split
        · rfl
        · split <;> rfl
      · rename_i hm
        obtain ⟨i, hi, he⟩ := Option.map_eq_some_iff.1 hj
        rw [if_neg hm, ← he]
        simp only [hi]
        split <;> rfl
    unfold pushLocal at hop
    rw [hop]
    exact (places_op j).mono fun _ _ _ _ _ _ _ h => ⟨rfl, h⟩

theorem places_pushLocals (env : EmitEnv) : ∀ rs : List LocalRef,
    Places [] [] (pushLocals env rs) (.given (Visible env rs) (.code [] fun _ => localCode env rs))
  | [] => by
    unfold pushLocals
    rw [List.forM_eq_forM, List.forM_nil]
    refine places_pure.mono fun _ _ _ _ _ _ _ h => ⟨fun r hr => ?_, h⟩
    cases hr
  | r :: rs => by
    unfold pushLocals
    rw [List.forM_eq_forM, List.forM_cons]
    refine (emits_then (places_pushLocal env r) (places_pushLocals env rs)).mono fun _ _ _ _ _ _ _ h => ?_
    obtain ⟨p, _, _, hh, ⟨hv, _, hj, h₁⟩, ⟨hv', _, hk, h₂⟩⟩ := h
    cases h₁
    cases h₂
    refine ⟨fun r' hr => ?_, provided_nil, ?_, hh⟩
    · cases hr with
      | head => exact hv r List.mem_cons_self
      | tail _ hr => exact hv' r' hr
    · rw [show localCode env (r :: rs) = localCode env [r] ++ localCode env rs by
        simp only [localCode, ← List.filterMap_append, List.singleton_append]]
      exact Image.spans_append.2 ⟨p, hj, hk⟩

/-- A tail call empties the dead slots. -/
def clearDeadIf (env : EmitEnv) (tail : Bool) : Emit PUnit := if tail then clearDead env else pure ⟨⟩

theorem places_clearDeadIf (env : EmitEnv) (tail : Bool) :
    Places [] [] (clearDeadIf env tail) (.code [] fun _ => clearCode env tail) := by
  unfold clearDeadIf clearDead clearCode
  cases tail with
  | false => exact places_pure
  | true =>
    simp only [if_true, Bool.true_and]
    split
    · rw [List.map_eq_flatMap]
      exact places_forM _ _ _ fun s _ => places_op _
    · exact places_pure

/-- Links some of the functions of a group. -/
theorem places_linkSome (env : EmitEnv) (bindings rest : List (Nat × Expr)) :
    Places [] [] (rest.forM fun (binding, init) => do
      match init with
      | .fn _ captures _ =>
        captures.zipIdx.forM fun (capture, i) => do
          if bindings.any fun b => b.1 == capture.binding then
            op (.load (slotOf env binding))
            op (.load (slotOf env capture.binding))
            op (.initField i)
      | _ => return ⟨⟩) (.code [] fun _ => linkCode env bindings rest) := by
  induction rest with
  | nil =>
    rw [List.forM_eq_forM, List.forM_nil]
    exact places_pure
  | cons b rest ih =>
    obtain ⟨binding, init⟩ := b
    rw [List.forM_eq_forM, List.forM_cons]
    cases init with
    | fn _ captures _ =>
      refine places_code (places_forM _ _ _ fun x _ => ?_) ih
      dsimp only
      split
      · exact places_op_then _ (places_op_then _ (places_op _))
      · exact places_pure
    | _ => exact places_code places_pure ih

theorem places_linkFns (env : EmitEnv) (bindings : List (Nat × Expr)) :
    Places [] [] (linkFns env bindings) (.code [] fun _ => linkCode env bindings bindings) :=
  places_linkSome env bindings bindings

theorem places_emptyFns (env : EmitEnv) (bindings : List (Nat × Expr)) :
    Places [] [] (bindings.forM fun b => do op .nil; op (.store (slotOf env b.1)))
      (.code [] fun _ => emptyCode env bindings) :=
  places_forM _ _ _ fun _ _ => places_op_then _ (places_op _)

theorem places_rebind (env : EmitEnv) (targets : List Nat) :
    Places [] [] (targets.reverse.forM fun t => op (.store (slotOf env t))) (.code [] fun _ => rebindCode env targets) := by
  rw [rebindCode, List.map_eq_flatMap]
  exact places_forM _ _ _ fun _ _ => places_op _

/-! ## Keys of a `case` -/

theorem places_pushCaseKey (plan : CasePlan) (temp : Nat) (missed : Label) :
    Places [] (keyNeeds plan) (pushCaseKey plan temp missed) (.code (keyNeeds plan) (keyCode plan temp missed)) := by
  have hmask : Places [] [] (if plan.mask != 0 then op (.shiftMask plan.shift plan.mask) else pure ⟨⟩)
      (.code [] fun _ => if plan.mask != 0 then [.shiftMask plan.shift plan.mask] else []) := by
    split
    · exact places_op _
    · exact places_pure
  unfold pushCaseKey keyNeeds keyCode
  cases plan.test with
  | int =>
    refine (places_op_then _ (places_pooled (serves_type _) fun n => places_op_then _ (places_op_then _
      (places_op_then _ (places_op_then _ hmask)))))
  | hashIdentity => exact places_op_then _ (places_op_then _ hmask)
  | hashEquiv => exact places_op_then _ (places_op_then _ hmask)

theorem emits_newLabels {α : Type} {ms : List Label} {ns : List Need} : ∀ (n : Nat) {f : List Label → Emit α} {R : List Label → Layout α},
    (∀ ls : List Label, ls.length = n → (∀ l ∈ ls, l ∉ ms) → ls.Nodup → Emits (ls ++ ms) ns (f ls) (R ls)) →
    Emits ms ns (newLabels n >>= f) fun a i e k pc pc' hs => ∃ ls : List Label, ls.length = n ∧ R ls a i e k pc pc' hs
  | 0, f, R, hf => by
    rw [newLabels, pure_bind]
    exact (hf [] rfl (fun _ h => by cases h) .nil).mono fun _ _ _ _ _ _ _ h => ⟨[], rfl, h⟩
  | n + 1, f, R, hf => by
    rw [newLabels, bind_assoc]
    refine (emits_newLabel (R := fun l a i e k pc pc' hs =>
      ∃ ls : List Label, ls.length = n ∧ R (l :: ls) a i e k pc pc' hs) fun l hl => ?_).mono fun _ _ _ _ _ _ _ h => ?_
    · simp only [bind_assoc, pure_bind]
      refine emits_newLabels n fun ls hn hls hd => ?_
      refine emits_marking _ (hf (l :: ls) (by rw [List.length_cons, hn]) ?_ ?_) ?_
      · intro l' hl'
        cases hl' with
        | head => exact hl
        | tail _ hl' => exact fun h => hls l' hl' (List.mem_cons_of_mem l h)
      · exact List.nodup_cons.2 ⟨fun hl' => hls l hl' List.mem_cons_self, hd⟩
      · intro l' hl'
        simp only [List.mem_append, List.mem_cons] at hl' ⊢
        obtain (h | h) | h := hl'
        · exact .inr (.inl h)
        · exact .inl h
        · exact .inr (.inr h)
    · obtain ⟨l, ls, hn, hR⟩ := h
      exact ⟨l :: ls, by rw [List.length_cons, hn], hR⟩

end

/-! ## Emission without joins -/

theorem emit_cond (env : EmitEnv) (dest : Dest) (test yes no : Expr) (line : Nat) :
    emit env dest (.cond test yes no line) = (do
      let otherwise ← newLabel
      let stop ← newLabel
      atLine line
      emit env (testDest test) test
      op (testJump test otherwise)
      emit env dest yes
      exitArm dest stop
      mark otherwise
      emit env dest no
      mark stop) := by
  rw [emit]
  unfold testDest testJump
  split <;> rfl

theorem emit_invoke (env : EmitEnv) (dest : Dest) (f : Expr) (args : List Expr) (line : Nat) (tail : Bool) :
    emit env dest (.invoke f args line tail) = (do
      emit env .boxed f
      emitAll env args
      clearDeadIf env tail
      atLine line
      op (.invoke args.length)
      settle env dest none) := by
  rw [emit]
  cases tail with
  | true => rfl
  | false => simp only [clearDeadIf, pure_bind, Bool.false_eq_true, if_false]

/-- The last part of a `try` with a cleanup: what is on its way out is kept while the cleanup runs. -/
def emitCleanup (start stop : Label) (finish : Emit PUnit) (thrownSlot : Nat) (isThere : Bool)
    (ranges : List (Label × Label)) : Emit PUnit := if isThere then do
  let target ← newLabel
  handler ⟨start, stop, target, none⟩
  ranges.forM fun r => handler ⟨r.1, r.2, target, none⟩
  mark target
  op (.store thrownSlot)
  finish
  op (.load thrownSlot)
  op .throw
else pure ⟨⟩

theorem emit_attempt (env : EmitEnv) (dest : Dest) (body : Expr) (handlers : List (String × Nat × Expr))
    (cleanup : Option Expr) (resultSlot thrownSlot : Nat) :
    emit env dest (.attempt body handlers cleanup resultSlot thrownSlot) = (do
      let start ← newLabel
      let stop ← newLabel
      let done ← newLabel
      mark start
      emit env .boxed body
      op (.store resultSlot)
      mark stop
      emitOption env .statement cleanup
      op (.load resultSlot)
      settle env dest none
      exitArm dest done
      let ranges ← emitHandlers env dest (emitOption env .statement cleanup) start stop done resultSlot handlers
      emitCleanup start stop (emitOption env .statement cleanup) thrownSlot cleanup.isSome ranges
      mark done) := by
  rw [emit]
  cases cleanup with
  | none => simp only [emitCleanup, pure_bind, Option.isSome_none, Bool.false_eq_true, if_false]
  | some e => simp only [emitCleanup, bind_assoc, Option.isSome_some, if_true]

/-- The value and a constant that it is compared with. -/
def pushTest (slot : Nat) (constant : Form) : Emit PUnit := do
  op (.load slot)
  op (.const (← form constant))

theorem testInstr_not_terminal (test : CaseTest) (next : Label) : (testInstr test next).isTerminal = false := by
  unfold testInstr
  split <;> rfl

theorem places_pushTest (slot : Nat) (constant : Form) :
    Places [] [formNeed constant] (pushTest slot constant) (.code [formNeed constant] fun entry => [.load slot, .const (entry 0)]) :=
  places_op_then _ (places_pooled (Pool.serves_form constant) fun _ => places_op _)

theorem emitEntries_last (env : EmitEnv) (dest : Dest) (test : CaseTest) (slot : Nat) (missed stop : Label)
    (constant : Form) (value : Expr) :
    emitEntries env dest test slot missed stop [(constant, value)] = (do
      pushTest slot constant
      op (testInstr test missed)
      emit env dest value
      exitArm dest stop
      pure ⟨⟩) := by
  rw [emitEntries, emitEntries]
  simp only [pushTest, testInstr, List.isEmpty_nil, if_true, pure_bind, bind_assoc, Bool.not_true, Bool.false_eq_true,
    if_false]

theorem emitEntries_more (env : EmitEnv) (dest : Dest) (test : CaseTest) (slot : Nat) (missed stop : Label)
    (constant : Form) (value : Expr) (e : Form × Expr) (rest : List (Form × Expr)) :
    emitEntries env dest test slot missed stop ((constant, value) :: e :: rest) = (do
      let next ← newLabel
      pushTest slot constant
      op (testInstr test next)
      emit env dest value
      exitArm dest stop
      mark next
      emitEntries env dest test slot missed stop (e :: rest)) := by
  rw [emitEntries]
  simp only [pushTest, testInstr, List.isEmpty_cons, if_true, bind_assoc, Bool.not_false, Bool.false_eq_true, if_false]

/-! ## Where control cannot go on -/

/-- The last instruction is terminal, and no label stands behind it. -/
def ended (s : Emission) : Bool :=
  s.markedAt != some s.code.code.size && (s.code.code.back?.map Instr.isTerminal).getD false

section

variable {α β : Type} {x : Emit α} {f : α → Emit β} {P Q : Prop}

/-- If control cannot go on after the emission, that is for the given reason, or it could not before. -/
def Halts (x : Emit α) (P : Prop) : Prop :=
  ∀ (s : Emission) (a : α) (s' : Emission), x s = .ok (a, s') → ended s' = true → P ∨ ended s = true

/-- Control can go on after the emission. -/
def Resumes (x : Emit α) : Prop := ∀ (s : Emission) (a : α) (s' : Emission), x s = .ok (a, s') → ended s' = false

theorem Resumes.halts (h : Resumes x) (P : Prop) : Halts x P := by
  intro s a s' hx he
  rw [h s a s' hx] at he
  cases he

theorem Halts.mono (h : Halts x P) (hpq : P → Q) : Halts x Q := fun s a s' hx he => (h s a s' hx he).imp_left hpq

theorem halts_pure (a : α) (P : Prop) : Halts (pure a : Emit α) P := by
  intro s b s' hx he
  cases hx
  exact .inr he

theorem halts_throw (e : CompileFault) (P : Prop) : Halts (throw e : Emit α) P := fun s a s' hx _ => by cases hx

theorem halts_bind (hx : Halts x P) (hf : ∀ a, Halts (f a) Q) : Halts (x >>= f) (P ∨ Q) := by
  intro s b s' h he
  obtain ⟨a, s₁, h₁, h₂⟩ := bind_eq_ok h
  obtain hq | he₁ := hf a s₁ b s' h₂ he
  · exact .inl (.inr hq)
  · exact (hx s a s₁ h₁ he₁).imp_left .inl

theorem halts_then (hx : Halts x False) (hf : ∀ a, Halts (f a) P) : Halts (x >>= f) P :=
  (halts_bind hx hf).mono fun h => h.resolve_left id

theorem resumes_after (hf : ∀ a, Resumes (f a)) : Resumes (x >>= f) := by
  intro s b s' h
  obtain ⟨a, s₁, _, h₂⟩ := bind_eq_ok h
  exact hf a s₁ b s' h₂

theorem resumes_then (hx : Resumes x) (hf : ∀ a, Halts (f a) False) : Resumes (x >>= f) := by
  intro s b s' h
  obtain ⟨a, s₁, h₁, h₂⟩ := bind_eq_ok h
  cases he : ended s' with
  | false => rfl
  | true =>
    obtain hq | he₁ := hf a s₁ b s' h₂ he
    · exact hq.elim
    · rw [hx s a s₁ h₁] at he₁
      cases he₁

theorem resumes_op {j : Instr} (hj : j.isTerminal = false) : Resumes (op j) := by
  intro s a s' h
  cases h
  simp [ended, Assembly.emit, hj]

theorem resumes_mark (l : Label) : Resumes (mark l) := by
  intro s a s' h
  cases h
  simp [ended, Assembly.mark]

theorem halts_forM {f : α → Emit PUnit} (hf : ∀ a, Halts (f a) False) : ∀ as : List α, Halts (as.forM f) False
  | [] => by
    rw [List.forM_eq_forM, List.forM_nil]
    exact halts_pure _ _
  | a :: as => by
    rw [List.forM_eq_forM, List.forM_cons]
    exact halts_then (hf a) fun _ => halts_forM hf as

theorem halts_box (kind : Option Prim) : Halts (box kind) False := by
  cases kind with
  | none => exact halts_pure _ _
  | some p => exact (resumes_op rfl).halts _

theorem halts_unbox (kind : Option Prim) (p : Prim) : Halts (unbox kind p) False := by
  cases kind with
  | none => exact (resumes_op rfl).halts _
  | some own =>
    simp only [unbox]
    split
    · exact halts_pure _ _
    · exact (resumes_op rfl).halts _

theorem halts_settle (env : EmitEnv) {dest : Dest} (kind : Option Prim) (hd : dest ≠ .result) :
    Halts (settle env dest kind) False := by
  cases dest with
  | statement => exact (resumes_after fun _ => resumes_op rfl).halts _
  | boxed => exact halts_box kind
  | unboxed p => exact halts_unbox kind p
  | result => exact absurd rfl hd

theorem resumes_op_settle (env : EmitEnv) {dest : Dest} (kind : Option Prim) (hd : dest ≠ .result) {j : Instr}
    (hj : j.isTerminal = false) : Resumes (op j >>= fun _ => settle env dest kind) :=
  resumes_then (resumes_op hj) fun _ => halts_settle env kind hd

theorem halts_inert (env : EmitEnv) {dest : Dest} (kind : Option Prim) (hd : dest ≠ .result) {push : Emit PUnit}
    (hp : Resumes push) (P : Prop) : Halts (inert env dest kind push) P := by
  unfold inert
  split
  · exact halts_pure _ _
  · exact (resumes_then hp fun _ => halts_settle env kind hd).halts _

theorem resumes_pushLocal (env : EmitEnv) (r : LocalRef) : Resumes (pushLocal env r) := by
  unfold pushLocal
  dsimp only
  split
  · split
    · exact resumes_op rfl
    · split <;> exact resumes_op rfl
  · split
    · split <;> exact resumes_op rfl
    · exact fun s a s' h => by cases h

theorem halts_emitBindings (env : EmitEnv) (bindings : List (Nat × Expr)) : Halts (emitBindings env bindings) False := by
  induction bindings with
  | nil => exact halts_pure _ _
  | cons b rest ih =>
    rw [emitBindings]
    exact (resumes_after fun _ => resumes_then (resumes_op rfl) fun _ => ih).halts _

theorem halts_emitFns (env : EmitEnv) (bindings : List (Nat × Expr)) : Halts (emitFns env bindings) False := by
  induction bindings with
  | nil => exact halts_pure _ _
  | cons b rest ih =>
    rw [emitFns]
    exact (resumes_after fun _ => resumes_then (resumes_op rfl) fun _ => ih).halts _

theorem halts_linkFns (env : EmitEnv) (bindings : List (Nat × Expr)) : Halts (linkFns env bindings) False := by
  refine halts_forM (fun (binding, init) => ?_) _
  dsimp only
  split
  · refine halts_forM (fun (capture, i) => ?_) _
    dsimp only
    split
    · exact (resumes_after fun _ => resumes_after fun _ => resumes_op rfl).halts _
    · exact halts_pure _ _
  · exact halts_pure _ _

theorem halts_newLabel : Halts newLabel False := by
  intro s a s' h he
  cases h
  exact .inr he

mutual

/-- Control goes on after the code of an expression, unless the expression leaves. -/
theorem halts_emit (env : EmitEnv) {dest : Dest} (hd : dest ≠ .result) : ∀ e : Expr,
    Halts (emit env dest e) (e.leaves = true)
  | .nil => by
    rw [emit]
    exact halts_inert env _ hd (resumes_op rfl) _
  | .bool b => by
    rw [emit]
    split
    · exact (resumes_op rfl).halts _
    · exact halts_inert env _ hd (resumes_after fun _ => resumes_op rfl) _
  | .long n => by
    rw [emit]
    exact halts_inert env _ hd (resumes_op rfl) _
  | .double d => by
    rw [emit]
    exact halts_inert env _ hd (resumes_op rfl) _
  | .const f => by
    rw [emit]
    exact halts_inert env _ hd (resumes_after fun _ => resumes_op rfl) _
  | .type name => by
    rw [emit]
    exact halts_inert env _ hd (resumes_after fun _ => resumes_op rfl) _
  | .local r => by
    rw [emit]
    exact halts_inert env _ hd (resumes_pushLocal env r) _
  | .vector items => by
    rw [emit]
    exact (resumes_after fun _ => resumes_op_settle env _ hd rfl).halts _
  | .map pairs => by
    rw [emit]
    exact (resumes_after fun _ => resumes_op_settle env _ hd rfl).halts _
  | .set items => by
    rw [emit]
    exact (resumes_after fun _ => resumes_op_settle env _ hd rfl).halts _
  | .var v => by
    rw [emit]
    exact (resumes_after fun _ => resumes_op_settle env _ hd rfl).halts _
  | .theVar v => by
    rw [emit]
    exact (resumes_after fun _ => resumes_op_settle env _ hd rfl).halts _
  | .define v init info => by
    rw [emit]
    exact (resumes_after fun _ => resumes_after fun _ => resumes_after fun _ => resumes_op_settle env _ hd rfl).halts _
  | .assign (.var v) value => by
    rw [emit]
    exact (resumes_after fun _ => resumes_after fun _ => resumes_op_settle env _ hd rfl).halts _
  | .assign (.field b) value => by
    rw [emit]
    dsimp only
    split
    · exact halts_throw _ _
    · exact (resumes_after fun _ => resumes_after fun _ => resumes_then (resumes_op rfl) fun _ =>
        halts_then (halts_box _) fun _ => halts_settle env _ hd).halts _
  | .cond test yes no line => by
    rw [emit_cond]
    exact (resumes_after fun _ => resumes_after fun _ => resumes_after fun _ => resumes_after fun _ => resumes_after fun _ =>
      resumes_after fun _ => resumes_after fun _ => resumes_after fun _ => resumes_after fun _ => resumes_mark _).halts _
  | .seq body => by
    rw [emit]
    exact halts_emitSeq env hd body
  | .bind isLoop bindings body => by
    rw [emit]
    refine halts_then (halts_emitBindings env bindings) fun _ => ?_
    split
    · exact halts_then halts_newLabel fun _ => halts_then ((resumes_mark _).halts _) fun _ => halts_emit _ hd body
    · exact halts_emit env hd body
  | .bindFns bindings body => by
    rw [emit]
    refine halts_then (halts_forM (fun _ => (resumes_after fun _ => resumes_op rfl).halts _) _) fun _ => ?_
    exact halts_then (halts_emitFns env bindings) fun _ => halts_then (halts_linkFns env bindings) fun _ =>
      halts_emit env hd body
  | .recur targets args line => fun _ _ _ _ _ => .inl rfl
  | .fn unit captures _ => by
    rw [emit]
    exact (resumes_after fun _ => resumes_after fun _ => resumes_op_settle env _ hd rfl).halts _
  | .invoke f args line tail => by
    rw [emit_invoke]
    exact (resumes_after fun _ => resumes_after fun _ => resumes_after fun _ => resumes_after fun _ =>
      resumes_op_settle env _ hd rfl).halts _
  | .keywordInvoke k target line => by
    rw [emit]
    exact (resumes_after fun _ => resumes_after fun _ => resumes_after fun _ => resumes_op_settle env _ hd rfl).halts _
  | .protocolInvoke v args line => by
    rw [emit]
    exact (resumes_after fun _ => resumes_after fun _ => resumes_after fun _ => resumes_op_settle env _ hd rfl).halts _
  | .staticCall className name (some m) args line => by
    rw [emit]
    exact (resumes_after fun _ => resumes_after fun _ => resumes_after fun _ => resumes_op_settle env _ hd rfl).halts _
  | .staticCall className name none args line => by
    rw [emit]
    exact (resumes_after fun _ => resumes_after fun _ => resumes_after fun _ => resumes_after fun _ =>
      resumes_op_settle env _ hd rfl).halts _
  | .methodCall target name (some m) args line => by
    rw [emit]
    exact (resumes_after fun _ => resumes_after fun _ => resumes_after fun _ => resumes_after fun _ =>
      resumes_op_settle env _ hd rfl).halts _
  | .methodCall target name none args line => by
    rw [emit]
    exact (resumes_after fun _ => resumes_after fun _ => resumes_after fun _ => resumes_after fun _ =>
      resumes_op_settle env _ hd rfl).halts _
  | .staticField _ member => by
    rw [emit]
    exact (resumes_after fun _ => resumes_op_settle env _ hd rfl).halts _
  | .fieldGet target name (some f) line => by
    rw [emit]
    exact (resumes_after fun _ => resumes_after fun _ => resumes_after fun _ => resumes_op_settle env _ hd rfl).halts _
  | .fieldGet target name none line => by
    rw [emit]
    exact (resumes_after fun _ => resumes_after fun _ => resumes_after fun _ => resumes_op_settle env _ hd rfl).halts _
  | .construct className member declared args line => by
    rw [emit]
    refine (resumes_after fun _ => resumes_after fun _ => ?_).halts _
    dsimp only
    split
    · exact resumes_after fun _ => resumes_op_settle env _ hd rfl
    · cases declared <;> exact resumes_after fun _ => resumes_op_settle env _ hd rfl
  | .instanceOf className value => by
    rw [emit]
    exact (resumes_after fun _ => resumes_after fun _ => resumes_op_settle env _ hd rfl).halts _
  | .throw value => fun _ _ _ _ _ => .inl rfl
  | .attempt body handlers cleanup resultSlot thrownSlot => by
    rw [emit_attempt]
    exact (resumes_after fun _ => resumes_after fun _ => resumes_after fun _ => resumes_after fun _ => resumes_after fun _ =>
      resumes_after fun _ => resumes_after fun _ => resumes_after fun _ => resumes_after fun _ => resumes_after fun _ =>
      resumes_after fun _ => resumes_after fun _ => resumes_after fun _ => resumes_mark _).halts _
  | .case value temp plan buckets otherwise line => by
    rw [emit]
    exact (resumes_after fun _ => resumes_after fun _ => resumes_after fun _ => resumes_after fun _ => resumes_after fun _ =>
      resumes_after fun _ => resumes_after fun _ => resumes_after fun _ => resumes_after fun _ => resumes_after fun _ =>
      resumes_after fun _ => resumes_mark _).halts _
  | .deftype name unit => by
    rw [emit]
    exact (resumes_after fun _ => resumes_after fun _ => resumes_op_settle env _ hd rfl).halts _
  | .reify name unit captures line => by
    rw [emit]
    exact (resumes_after fun _ => resumes_after fun _ => resumes_after fun _ => resumes_after fun _ =>
      resumes_op_settle env _ hd rfl).halts _

theorem halts_emitSeq (env : EmitEnv) {dest : Dest} (hd : dest ≠ .result) : ∀ body : List Expr,
    Halts (emitSeq env dest body) (Expr.anyLeaves body = true)
  | [] => by
    rw [emitSeq]
    exact halts_inert env _ hd (resumes_op rfl) _
  | [e] => by
    rw [emitSeq]
    refine (halts_emit env hd e).mono fun h => ?_
    rw [Expr.anyLeaves, h, Bool.true_or]
  | e :: e' :: es => by
    rw [emitSeq]
    · refine (halts_bind (halts_emit env (by decide) e) fun _ => halts_emitSeq env hd (e' :: es)).mono fun h => ?_
      rw [Expr.anyLeaves]
      exact Bool.or_eq_true _ _ ▸ h
    · exact fun h => by cases h

end

end

/-! ## Arms -/

theorem exitArm_eq (dest : Dest) (stop : Label) (s : Emission) : exitArm dest stop s =
    (if dest != .result && !ended s then op (.jump stop) else pure ⟨⟩ : Emit PUnit) s := rfl

/-- An arm after a conditional jump. -/
theorem emits_arm {α : Type} {ms : List Label} {ns ns' : List Need} {x : Emit PUnit} {z : Emit α} {A : Region} {R : Layout α}
    {dest : Dest} {L : Bool} {j : Instr} (hj : j.isTerminal = false) (hx : Places [] ns x A)
    (hh : dest ≠ .result → Halts x (L = true)) (stop : Label) (hz : Emits ms ns' z R) :
    Emits ms (ns ++ ns') (op j >>= fun _ => x >>= fun _ => exitArm dest stop >>= fun _ => z)
      fun a => .seq 0 (.code [] fun _ => [j]) <| .seq ns.length A <| .seq 0 (.exit dest L stop) (R a) := by
  intro s a s' h hm
  -- the way out is one of two emissions, which the state decides
  have whole : ∀ y : Emit PUnit, Places [] [] y (.exit dest L stop) →
      (op j >>= fun _ => x >>= fun _ => y >>= fun _ => z) s = .ok (a, s') → _ := fun y hy h =>
    (emits_then (places_op j) (emits_then hx (emits_then hy hz))) s a s' h hm
  obtain ⟨_, s₁, h₁, h₂⟩ := bind_eq_ok h
  obtain ⟨_, s₂, hx₂, h₃⟩ := bind_eq_ok h₂
  have hrun : ∀ y : Emit PUnit, exitArm dest stop s₂ = y s₂ →
      (op j >>= fun _ => x >>= fun _ => y >>= fun _ => z) s = .ok (a, s') := by
    intro y hy
    have step : (op j >>= fun _ => x >>= fun _ => y >>= fun _ => z) s = (y >>= fun _ => z) s₂ := by
      change Except.bind (op j s) (fun r => Except.bind (x r.2) fun r => (y >>= fun _ => z) r.2) = _
      rw [h₁]
      change Except.bind (x s₁) (fun r => (y >>= fun _ => z) r.2) = _
      rw [hx₂]
      rfl
    rw [step, ← h₃]
    change Except.bind (y s₂) (fun r => z r.2) = Except.bind (exitArm dest stop s₂) (fun r => z r.2)
    rw [hy]
  have hs := exitArm_eq dest stop s₂
  split at hs
  · exact whole _ ((emits_op _).mono fun _ _ _ _ _ _ _ h => ⟨h.2.2, .inl ⟨h.1, h.2.1⟩⟩) (hrun _ hs)
  · rename_i hd
    have hleft : dest = .result ∨ L = true := by
      by_cases hr : dest = .result
      · exact .inl hr
      · refine .inr ((hh hr _ _ _ hx₂ ?_).resolve_right ?_)
        · simpa [hr] using hd
        · rw [resumes_op hj _ _ _ h₁]
          exact Bool.false_ne_true
    exact whole _ ((emits_pure _).mono fun _ _ _ _ _ _ _ h => ⟨h.2.2, .inr ⟨h.2.1, hleft⟩⟩) (hrun _ hs)

/-! ## Expressions -/

theorem Region.seq_code {n : Nat} {ns : List Need} {js : (Nat → Nat) → List Instr} {ks : List Instr} {A : Region} {i : Image}
    {e : Nat → Nat} {k pc pc' : Nat} {hs : List Handler}
    (h : Region.seq n (.code ns js) (.seq 0 (.code [] fun _ => ks) A) i e k pc pc' hs) :
    Region.seq n (.code ns fun entry => js entry ++ ks) A i e k pc pc' hs := by
  obtain ⟨p, _, _, rfl, ⟨hp, hj, rfl⟩, q, _, hs, rfl, ⟨_, hk, rfl⟩, hA⟩ := h
  exact ⟨q, [], hs, rfl, ⟨hp, Image.spans_append.2 ⟨p, hj, hk⟩, rfl⟩, hA⟩

theorem emits_handlers (start stop target : Label) (ranges : List (Label × Label)) :
    Places [] [] (handler ⟨start, stop, target, none⟩ >>= fun _ => ranges.forM fun r => handler ⟨r.1, r.2, target, none⟩)
      (.handlers start stop target ranges) := by
  have hforM : ∀ ranges : List (Label × Label), Places [] [] (ranges.forM fun r => handler ⟨r.1, r.2, target, none⟩)
      fun _ _ _ pc pc' hs => pc' = pc ∧ hs = ranges.map fun r => ⟨r.1, r.2, target, none⟩ := by
    intro ranges
    induction ranges with
    | nil =>
      rw [List.forM_eq_forM, List.forM_nil]
      exact (emits_pure _).mono fun _ _ _ _ _ _ _ h => h.2
    | cons r ranges ih =>
      rw [List.forM_eq_forM, List.forM_cons]
      refine (emits_then (emits_handler _) ih).mono fun _ _ _ _ _ _ _ h => ?_
      obtain ⟨_, _, _, rfl, ⟨rfl, rfl⟩, rfl, rfl⟩ := h
      exact ⟨rfl, rfl⟩
  refine (emits_then (emits_handler _) (hforM ranges)).mono fun _ _ _ _ _ _ _ h => ?_
  obtain ⟨_, _, _, rfl, ⟨rfl, rfl⟩, rfl, rfl⟩ := h
  exact ⟨rfl, rfl⟩

/-- The result of a `try` or of a handler is taken to its destination. -/
theorem emits_leaveTry {α : Type} {ms : List Label} {ns : List Need} {z : Emit α} {R : Layout α} (env : EmitEnv) (dest : Dest)
    (slot : Nat) (done : Label) (hz : Emits ms ns z R) :
    Emits ms ns (op (.load slot) >>= fun _ => settle env dest none >>= fun _ => exitArm dest done >>= fun _ => z)
      fun a => .seq 0 (.code [] fun _ => .load slot :: settleCode env dest none) <| .seq 0 (.exit dest false done) (R a) :=
  (emits_arm rfl (places_settle env dest none) (fun hd => (halts_settle env none hd).mono False.elim) done hz).mono
    fun _ _ _ _ _ _ _ h => Region.seq_code h

theorem places_emitCleanup {env : EmitEnv} {cleanup : Option Expr} {finish : Emit PUnit}
    (hf : Places [] (needsOption cleanup) finish (LaidOption env .statement cleanup)) (start stop : Label) (thrownSlot : Nat)
    (ranges : List (Label × Label)) :
    Places [] (needsOption cleanup) (emitCleanup start stop finish thrownSlot cleanup.isSome ranges)
      (if cleanup.isSome then .fresh fun target =>
        .seq 0 (.handlers start stop target ranges) <|
        .seq 0 (.here target) <|
        .seq 0 (.code [] fun _ => [.store thrownSlot]) <|
        .seq (needsOption cleanup).length (LaidOption env .statement cleanup) <|
        .code [] fun _ => [.load thrownSlot, .throw]
      else .code [] fun _ => []) := by
  unfold emitCleanup
  split
  · refine emits_fresh fun target _ => ?_
    have h := emits_then (emits_handlers start stop target ranges) (emits_mark_then (l := target)
      (emits_then (places_op (.store thrownSlot)) (emits_last hf (places_op_then (.load thrownSlot) (places_op .throw)))) (by simp))
    rw [bind_assoc] at h
    exact h
  · rename_i hc
    rw [Bool.not_eq_true, Option.isSome_eq_false_iff, Option.isNone_iff_eq_none] at hc
    rw [hc, needsOption]
    exact places_pure

theorem places_memberCall {env : EmitEnv} {dest : Dest} {kind : Option Prim} {need : Need} {f : Pool → Nat × Pool}
    (hf : Pool.Serves need f) (instr : Nat → Instr) :
    Places [] [need] (pooled f >>= fun n => op (instr n) >>= fun _ => settle env dest kind)
      (.code [need] fun entry => instr (entry 0) :: settleCode env dest kind) :=
  places_pooled hf fun n => places_op_settle (instr n) env dest kind

mutual

/-- **The code of an expression is laid out as `Laid` says.** -/
theorem places_emit (env : EmitEnv) (dest : Dest) : ∀ e : Expr, Places [] e.needs (emit env dest e) (Laid env dest e)
  | .nil => by
    rw [emit, needs, Laid]
    exact places_inert_op env dest none (places_op _)
  | .bool b => by
    rw [emit, needs, Laid]
    split
    · exact places_op _
    · exact places_inert_op env dest none (places_op_then _ (places_op _))
  | .long n => by
    rw [emit, needs, Laid]
    exact places_inert_op env dest _ (places_op _)
  | .double d => by
    rw [emit, needs, Laid]
    exact places_inert_op env dest _ (places_op _)
  | .const f => by
    rw [emit, needs, Laid]
    exact places_inert env dest none (places_pooled (Pool.serves_form f) fun n => places_op _)
  | .type name => by
    rw [emit, needs, Laid]
    exact places_inert env dest none (places_pooled (serves_type name) fun n => places_op _)
  | .local r => by
    rw [emit, needs, Laid]
    unfold inert inertCode
    by_cases hd : dest = .statement
    · rw [hd]
      exact places_pure.mono fun _ _ _ _ _ _ _ h => ⟨fun hn => absurd rfl hn, h⟩
    · rw [if_neg (by simpa using hd)]
      refine (emits_then (places_pushLocal env r) (places_settle env dest r.prim)).mono fun _ _ _ _ _ _ _ h => ?_
      obtain ⟨p, _, _, hh, ⟨hv, _, hj, h₁⟩, ⟨_, hk, h₂⟩⟩ := h
      cases h₁
      cases h₂
      refine ⟨fun _ => hv, provided_nil, ?_, hh⟩
      rw [if_neg (by simpa using hd)]
      exact Image.spans_append.2 ⟨p, hj, hk⟩
  | .vector items => by
    rw [emit, needs, Laid]
    exact emits_last (places_emitAll env items) (places_op_settle _ env dest none)
  | .map pairs => by
    rw [emit, needs, Laid]
    exact emits_last (places_emitPairs env pairs) (places_op_settle _ env dest none)
  | .set items => by
    rw [emit, needs, Laid]
    exact emits_last (places_emitAll env items) (places_op_settle _ env dest none)
  | .var v => by
    rw [emit, needs, Laid]
    exact places_memberCall (Pool.serves_constant _) _
  | .theVar v => by
    rw [emit, needs, Laid]
    exact places_memberCall (Pool.serves_constant _) _
  | .define v init info => by
    rw [emit, needs, Laid]
    exact emits_then (places_emitOption env .boxed init)
      (places_pooled (Pool.serves_constant _) fun n => places_memberCall (Pool.serves_form info) _)
  | .assign (.var v) value => by
    rw [emit, needs, Laid]
    refine (emits_then (places_emit env .boxed value) (places_memberCall (Pool.serves_constant _) _)).mono
      fun _ _ _ _ _ _ _ ⟨p, hs₁, hs₂, hh, hA, hB⟩ => ⟨p, hs₁, hs₂, hh, hA, rfl, hB⟩
  | .assign (.field b) value => by
    rw [emit, needs, Laid]
    dsimp only [assignCode?, targetDest, targetNeeds]
    cases hi : (env.context.object env.obj).fieldIndex? b with
    | none => exact emits_throw _ _ _ _
    | some i =>
      rw [List.append_nil]
      refine (emits_last (places_emit env _ value) (places_op_then _ (places_op_then _
        (places_code (places_box (primOf env b)) (places_settle env dest none))))).mono
        fun _ _ _ _ _ _ _ ⟨p, hs₁, hs₂, hh, hA, hB⟩ => ⟨p, hs₁, hs₂, hh, hA, rfl, hB⟩
  | .cond test yes no line => by
    rw [emit_cond, needs, Laid]
    refine emits_fresh fun otherwise _ => emits_fresh fun stop hs => emits_atLine_then line ?_
    refine emits_marking [otherwise, stop] ?_ fun l hl => by simpa [or_comm] using hl
    refine emits_then (places_emit env _ test) ?_
    refine emits_arm ?_ (places_emit env dest yes) (fun hd => halts_emit env hd yes) stop ?_
    · unfold testJump
      split <;> rfl
    · refine emits_mark_then (emits_last (places_emit env dest no) (?_ : Places [stop] [] (mark stop) _)) ?_
      · exact emits_mark stop
      · simpa [eq_comm] using hs
  | .seq body => by
    rw [emit, needs, Laid]
    exact places_emitSeq env dest body
  | .bind isLoop bindings body => by
    rw [emit, needs, Laid]
    refine emits_then (places_emitBindings env bindings) ?_
    cases isLoop with
    | true => exact emits_fresh fun head _ => emits_mark_then (places_emit _ dest body) (by simp)
    | false => exact places_emit env dest body
  | .bindFns bindings body => by
    rw [emit, needs, Laid]
    refine emits_then (places_emptyFns env bindings) (emits_then (places_emitFns env bindings) ?_)
    exact emits_then (places_linkFns env bindings) (places_emit env dest body)
  | .recur targets args line => by
    rw [emit, needs, Laid]
    refine emits_last (places_emitArgs env _ args) (emits_atLine_then line ?_)
    exact places_code (places_rebind env targets) (places_op _)
  | .fn unit captures _ => by
    rw [emit, needs, Laid]
    refine (emits_then (places_pushLocals env captures) (places_memberCall (Pool.serves_child unit) _)).mono
      fun _ _ _ _ _ _ _ ⟨p, _, _, hh, ⟨hv, _, hj, h₁⟩, ⟨hn, hk, h₂⟩⟩ => ?_
    cases h₁
    cases h₂
    exact ⟨hv, hn, Image.spans_append.2 ⟨p, hj, hk⟩, hh⟩
  | .invoke f args line tail => by
    rw [emit_invoke, needs, Laid]
    refine emits_then (places_emit env .boxed f) (emits_last (places_emitAll env args) ?_)
    exact places_code (places_clearDeadIf env tail) (emits_atLine_then line (places_op_settle _ env dest none))
  | .keywordInvoke k target line => by
    rw [emit, needs, Laid]
    exact emits_then (places_emit env .boxed target)
      (emits_atLine_then line (places_memberCall (Pool.serves_keywordSite k) _))
  | .protocolInvoke v args line => by
    rw [emit, needs, Laid]
    exact emits_then (places_emitAll env args)
      (emits_atLine_then line (places_memberCall (Pool.serves_protocolSite v.name) fun n => .protocolInvoke n args.length))
  | .staticCall className name (some m) args line => by
    rw [emit, needs, Laid]
    exact emits_then (places_emitArgs env _ args) (emits_atLine_then line
      (places_memberCall (Pool.serves_constant _) fun n => .invokeStatic n args.length))
  | .staticCall className name none args line => by
    rw [emit, needs, Laid]
    exact emits_then (places_emitArgs env _ args) (emits_atLine_then line
      (places_pooled (serves_type className) fun n =>
        places_memberCall (Pool.serves_constant _) fun k => .invokeStaticReflective n k args.length))
  | .methodCall target name (some m) args line => by
    rw [emit, needs, Laid]
    exact emits_then (places_emit env .boxed target) (emits_then (places_emitArgs env _ args)
      (emits_atLine_then line (places_memberCall (Pool.serves_constant _) fun n => .invokeVirtual n args.length)))
  | .methodCall target name none args line => by
    rw [emit, needs, Laid]
    exact emits_then (places_emit env .boxed target) (emits_then (places_emitArgs env _ args)
      (emits_atLine_then line (places_memberCall (Pool.serves_constant _) fun n => .invokeReflective n args.length)))
  | .staticField _ member => by
    rw [emit, needs, Laid]
    exact places_memberCall (Pool.serves_constant _) _
  | .fieldGet target name (some f) line => by
    rw [emit, needs, Laid]
    exact emits_then (places_emit env .boxed target)
      (emits_atLine_then line (places_memberCall (serves_type f.type) fun n => .getField n f.index))
  | .fieldGet target name none line => by
    rw [emit, needs, Laid]
    exact emits_then (places_emit env .boxed target)
      (emits_atLine_then line (places_memberCall (Pool.serves_constant _) _))
  | .construct className member declared args line => by
    rw [emit, needs, Laid]
    refine emits_then (places_emitArgs env _ args) (emits_atLine_then line ?_)
    cases hm : ctorOf member declared with
    | some m =>
      unfold ctorOf at hm
      rw [hm]
      exact places_memberCall (Pool.serves_constant _) fun n => .new n args.length
    | none =>
      unfold ctorOf at hm
      rw [hm]
      exact places_memberCall (serves_type className) fun n =>
        if declared then .newInstance n args.length else .newReflective n args.length
  | .instanceOf className value => by
    rw [emit, needs, Laid]
    exact emits_then (places_emit env .boxed value) (places_memberCall (serves_type className) _)
  | .throw value => by
    rw [emit, needs, Laid]
    exact emits_last (places_emit env .boxed value) (places_op _)
  | .attempt body handlers cleanup resultSlot thrownSlot => by
    rw [emit_attempt, needs, Laid]
    refine emits_fresh fun start _ => emits_fresh fun stop hp => emits_fresh fun done hd => ?_
    refine emits_marking [start, stop, done] ?_ fun l hl => ?_
    · refine emits_mark_then (emits_then (places_emit env .boxed body) (emits_then (places_op _) (emits_mark_then
        (emits_then (places_emitOption env .statement cleanup) (emits_leaveTry env dest resultSlot done ?_)) ?_))) ?_
      · refine (emits_bind (emits_emitHandlers env dest (places_emitOption env .statement cleanup) start stop done
          resultSlot handlers) (fun ranges => emits_last (places_emitCleanup (places_emitOption env .statement cleanup)
            start stop thrownSlot ranges) (emits_mark done)) (by simp)).mono fun _ _ _ _ _ _ _ h => ?_
        obtain ⟨ranges, p, hs₁, hs₂, hh, hA, hB⟩ := h
        exact ⟨ranges, p, hs₁, hs₂, hh, hA, hB⟩
      · simp only [List.mem_cons, not_or, List.not_mem_nil, not_false_eq_true, and_true] at hd ⊢
        exact Ne.symm hd.1
      · simp only [List.mem_cons, not_or, List.not_mem_nil, not_false_eq_true, and_true] at hp hd ⊢
        exact ⟨Ne.symm hp, Ne.symm hd.2⟩
    · simp only [List.mem_cons, List.not_mem_nil, or_false] at hl ⊢
      obtain h | h | h := hl
      · exact .inr (.inr h)
      · exact .inr (.inl h)
      · exact .inl h
  | .case value temp plan buckets otherwise line => by
    rw [emit, needs, Laid]
    refine emits_fresh fun missed _ => emits_fresh fun stop hs => emits_atLine_then line ?_
    refine emits_then (places_emit env .boxed value) ?_
    have hkey := places_op_then (.store (slotOf env temp)) (places_pushCaseKey plan (slotOf env temp) missed)
    rw [← bind_assoc]
    refine emits_then hkey (emits_newLabels buckets.length fun labels hn hl hd => ?_)
    refine emits_marking (labels ++ [missed, stop]) ?_ fun l hl => ?_
    · refine emits_then (places_op _) (emits_after
        (places_emitBuckets env dest plan.test (slotOf env temp) missed stop labels buckets hn hd)
        (emits_mark_then (emits_last (places_emit env dest otherwise) (emits_mark stop)) ?_) ?_)
      · simp only [List.mem_cons, not_or, List.not_mem_nil, not_false_eq_true, and_true] at hs ⊢
        exact Ne.symm hs
      · intro l hm hl'
        refine hl l hl' ?_
        simp only [List.mem_cons, List.not_mem_nil, or_false] at hm ⊢
        exact hm.symm
    · simp only [List.mem_append, List.mem_cons, List.not_mem_nil, or_false] at hl ⊢
      exact hl.imp_right Or.symm
  | .deftype name unit => by
    rw [emit, needs, Laid]
    exact places_pooled (Pool.serves_child unit) fun n => places_memberCall (serves_type name) _
  | .reify name unit captures line => by
    rw [emit, needs, Laid]
    refine (emits_then (places_pushLocals env captures) (places_pooled (Pool.serves_child unit) fun n =>
      places_pooled (serves_type name) fun k => emits_atLine_then line
        (places_op_settle (.newInstance k captures.length) env dest none))).mono
      fun _ _ _ _ _ _ _ ⟨p, _, _, hh, ⟨hv, _, hj, h₁⟩, ⟨hn, hk, h₂⟩⟩ => ?_
    cases h₁
    cases h₂
    exact ⟨hv, hn, Image.spans_append.2 ⟨p, hj, hk⟩, hh⟩

theorem places_emitOption (env : EmitEnv) (dest : Dest) : ∀ e : Option Expr,
    Places [] (needsOption e) (emitOption env dest e) (LaidOption env dest e)
  | some e => by
    rw [emitOption, needsOption, LaidOption]
    exact places_emit env dest e
  | none => by
    rw [emitOption, needsOption, LaidOption]
    exact places_pure

theorem places_emitAll (env : EmitEnv) : ∀ es : List Expr, Places [] (needsAll es) (emitAll env es) (LaidArgs env [] es)
  | [] => by
    rw [emitAll, needsAll, LaidArgs]
    exact places_pure
  | e :: es => by
    rw [emitAll, needsAll, LaidArgs]
    exact emits_then (places_emit env .boxed e) (places_emitAll env es)

theorem places_emitArgs (env : EmitEnv) (prims : List (Option Prim)) : ∀ es : List Expr,
    Places [] (needsAll es) (emitArgs env prims es) (LaidArgs env prims es)
  | [] => by
    rw [emitArgs, needsAll, LaidArgs]
    exact places_pure
  | e :: es => by
    rw [emitArgs, needsAll, LaidArgs]
    exact emits_then (places_emit env _ e) (places_emitArgs env prims.tail es)

theorem places_emitPairs (env : EmitEnv) : ∀ es : List (Expr × Expr),
    Places [] (needsPairs es) (emitPairs env es) (LaidPairs env es)
  | [] => by
    rw [emitPairs, needsPairs, LaidPairs]
    exact places_pure
  | (k, v) :: rest => by
    rw [emitPairs, needsPairs, LaidPairs]
    exact emits_then (places_emit env .boxed k) (emits_then (places_emit env .boxed v) (places_emitPairs env rest))

theorem places_emitSeq (env : EmitEnv) (dest : Dest) : ∀ es : List Expr,
    Places [] (needsAll es) (emitSeq env dest es) (LaidSeq env dest es)
  | [] => by
    rw [emitSeq, needsAll, LaidSeq]
    exact places_inert_op env dest none (places_op _)
  | [e] => by
    rw [emitSeq, needsAll, needsAll, LaidSeq, List.append_nil]
    exact places_emit env dest e
  | e :: e' :: es => by
    rw [emitSeq, needsAll, LaidSeq]
    · exact emits_then (places_emit env .statement e) (places_emitSeq env dest (e' :: es))
    · exact fun h => by cases h
    · exact fun h => by cases h

theorem places_emitBindings (env : EmitEnv) : ∀ bs : List (Nat × Expr),
    Places [] (needsBindings bs) (emitBindings env bs) (LaidBindings env (primOf env) bs)
  | [] => by
    rw [emitBindings, needsBindings, LaidBindings]
    exact places_pure
  | (b, init) :: rest => by
    rw [emitBindings, needsBindings, LaidBindings]
    exact emits_then (places_emit env _ init) (emits_then (places_op _) (places_emitBindings env rest))

theorem places_emitFns (env : EmitEnv) : ∀ bs : List (Nat × Expr),
    Places [] (needsBindings bs) (emitFns env bs) (LaidBindings env (fun _ => none) bs)
  | [] => by
    rw [emitFns, needsBindings, LaidBindings]
    exact places_pure
  | (b, init) :: rest => by
    rw [emitFns, needsBindings, LaidBindings]
    exact emits_then (places_emit env .boxed init) (emits_then (places_op _) (places_emitFns env rest))

theorem emits_emitHandlers (env : EmitEnv) (dest : Dest) {ns : List Need} {finish : Emit PUnit} {F : Region}
    (hf : Places [] ns finish F) (start stop done : Label) (resultSlot : Nat) : ∀ handlers : List (String × Nat × Expr),
    Emits [] (needsHandlers ns handlers) (emitHandlers env dest finish start stop done resultSlot handlers)
      fun ranges => LaidHandlers env dest ns.length F start stop done resultSlot handlers ranges
  | [] => by
    rw [emitHandlers, needsHandlers]
    refine (emits_pure _).mono fun _ _ _ _ _ _ _ h => ?_
    rw [LaidHandlers]
    exact ⟨h.1, provided_nil, h.2⟩
  | (className, b, body) :: rest => by
    rw [emitHandlers, needsHandlers]
    refine (emits_fresh fun target _ => emits_fresh fun handlerStop hp => ?_ : Emits [] _ _ fun ranges =>
      .fresh fun target => .fresh fun handlerStop =>
      .seq 0 (.handling ⟨start, stop, target, some className⟩) <|
      .seq 0 (.here target) <|
      .seq 0 (.code [] fun _ => [.store (slotOf env b)]) <|
      .seq (needs body).length (Laid env .boxed body) <|
      .seq 0 (.code [] fun _ => [.store resultSlot]) <|
      .seq 0 (.here handlerStop) <|
      .seq ns.length F <|
      .seq 0 (.code [] fun _ => .load resultSlot :: settleCode env dest none) <|
      .seq 0 (.exit dest false done) fun i e k pc pc' hs => ∃ more, ranges = (target, handlerStop) :: more ∧
        LaidHandlers env dest ns.length F start stop done resultSlot rest more i e k pc pc' hs).mono
      fun _ _ _ _ _ _ _ h => ?_
    · refine emits_marking [target, handlerStop] ?_ fun l hl => ?_
      · refine emits_then (emits_handler _) (emits_mark_then (emits_then (places_op _) (emits_then (places_emit env .boxed body)
          (emits_then (places_op _) (emits_mark_then (emits_then hf (emits_leaveTry env dest resultSlot done ?_)) (by simp))))) ?_)
        · have hrest := emits_seq (emits_emitHandlers env dest hf start stop done resultSlot rest)
            fun more => emits_pure ((target, handlerStop) :: more)
          rw [List.append_nil] at hrest
          refine hrest.mono fun _ _ _ _ _ _ _ h => ?_
          obtain ⟨more, p, hs₁, hs₂, hh, hA, ha, hp, hn⟩ := h
          cases hp
          cases hn
          rw [List.append_nil] at hh
          cases hh
          exact ⟨more, ha, hA⟩
        · simp only [List.mem_cons, not_or, List.not_mem_nil, not_false_eq_true, and_true] at hp ⊢
          exact Ne.symm hp
      · simp only [List.mem_cons, List.not_mem_nil, or_false] at hl ⊢
        exact hl.symm
    · rw [LaidHandlers]
      exact h

theorem places_emitBuckets (env : EmitEnv) (dest : Dest) (test : CaseTest) (slot : Nat) (missed stop : Label) :
    ∀ (labels : List Label) (buckets : List (Int32 × List (Form × Expr))), labels.length = buckets.length → labels.Nodup →
    Places labels (needsBuckets buckets) (emitBuckets env dest test slot missed stop labels buckets)
      (LaidBuckets env dest test slot missed stop labels buckets)
  | labels, [], hn, _ => by
    rw [List.length_nil, List.length_eq_zero_iff] at hn
    rw [hn, emitBuckets, needsBuckets, LaidBuckets]
    exact places_pure
  | [], _ :: _, hn, _ => by cases hn
  | l :: labels, (key, entries) :: rest, hn, hd => by
    rw [emitBuckets, needsBuckets, LaidBuckets]
    rw [List.nodup_cons] at hd
    exact emits_mark_then (emits_then (places_emitEntries env dest test slot missed stop entries)
      (places_emitBuckets env dest test slot missed stop labels rest (Nat.succ.inj hn) hd.2)) hd.1

theorem places_emitEntries (env : EmitEnv) (dest : Dest) (test : CaseTest) (slot : Nat) (missed stop : Label) :
    ∀ entries : List (Form × Expr), Places [] (needsEntries entries)
      (emitEntries env dest test slot missed stop entries) (LaidEntries env dest test slot missed stop entries)
  | [] => by
    rw [emitEntries, needsEntries, LaidEntries]
    exact places_pure
  | [(constant, value)] => by
    have harm := emits_then (places_pushTest slot constant) (emits_arm (testInstr_not_terminal test missed)
      (places_emit env dest value) (fun hd => halts_emit env hd value) stop (emits_then places_pure places_pure))
    rw [emitEntries_last, needsEntries, needsEntries, LaidEntries, LaidEntries]
    rw [pure_bind] at harm
    exact harm.mono fun _ _ _ _ _ _ _ h => ⟨missed, fun _ => rfl, Region.seq_code h⟩
  | (constant, value) :: e :: rest => by
    rw [emitEntries_more, needsEntries, LaidEntries]
    refine (emits_fresh fun next _ => emits_then (places_pushTest slot constant) (emits_arm (testInstr_not_terminal test next)
      (places_emit env dest value) (fun hd => halts_emit env hd value) stop (emits_mark_then
        (places_emitEntries env dest test slot missed stop (e :: rest)) (by simp)))).mono fun _ _ _ _ _ _ _ ⟨next, h⟩ => ?_
    refine ⟨next, fun hn => ?_, Region.seq_code h⟩
    cases hn

end

end LispMachine.Emit
