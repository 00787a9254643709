import LispMachine.Proofs.Emit.Steady
import LispMachine.Proofs.Expr.Fitted
/-!
# Emission keeps code steady

The code of a fitted expression is steady (`runs_emit`): it starts at some depth and leaves one more value,
or none, or does not come to its end, as its destination says.  So the methods of a unit are such as the
checker accepts (`sustained_verify`).
-/
namespace LispMachine

/-- The depth behind a value that was taken to its destination. -/
def Dest.after (d : Nat) : Dest → Option Nat
  | .statement => some d
  | .boxed | .unboxed _ => some (d + 1)
  | .result => none

@[simp] theorem Dest.after_ofPrim (d : Nat) (kind : Option Prim) : (Dest.ofPrim kind).after d = some (d + 1) := by
  cases kind <;> rfl

/-- The slots and the fields that the method may name. -/
structure EmitEnv.Within (env : EmitEnv) (b : Bounds) : Prop where
  slots : ∀ x, (env.context.binding x).method = some env.frame → (env.context.binding x).slot < b.slots
  temps : (env.context.method env.frame).maxSlot < b.slots
  fields : (env.context.object env.obj).closes.length ≤ b.fields

namespace Emit

open LispMachine.Expr (Fitted FittedOption FittedAll FittedPairs FittedSeq FittedBindings FittedHandlers FittedBuckets FittedEntries)

section

variable {b : Bounds} {env : EmitEnv} {K : List Fact} {n d : Nat} {inHandler : Bool}

theorem slot_lt (hw : env.Within b) {x : Nat} (ho : env.context.Owns ⟨some env.frame, n, inHandler⟩ x) : slotOf env x < b.slots :=
  hw.slots x (ho.method env.frame rfl)

theorem temp_lt (hw : env.Within b) {slot : Nat} (hh : env.context.Holds ⟨some env.frame, n, inHandler⟩ slot) : slot < b.slots :=
  Nat.lt_of_le_of_lt (hh.method env.frame rfl) hw.temps

/-! ## Destinations -/

theorem runs_box (kind : Option Prim) (d : Nat) : Steps b K [] (some (d + 1)) (box kind) (some (d + 1)) := by
  cases kind with
  | none => exact runs_pure _
  | some p => exact runs_plain d 1 1 rfl rfl

theorem runs_unbox (kind : Option Prim) (p : Prim) (d : Nat) :
    Steps b K [] (some (d + 1)) (unbox kind p) (some (d + 1)) := by
  cases kind with
  | none => exact runs_plain d 1 1 rfl rfl
  | some own =>
    simp only [unbox]
    split
    · exact runs_pure _
    · exact runs_plain d 1 1 rfl rfl

theorem runs_return (d : Nat) : Steps b K [] (some (d + 1)) (op .return) none :=
  runs_op (fun _ _ => Instr.fits_of_none rfl (fun _ => rfl) fun _ _ => Instr.noConfusion) (Nat.le_add_left 1 d)
    fun _ h => by cases h

theorem runs_settle (env : EmitEnv) (dest : Dest) (kind : Option Prim) (d : Nat) :
    Steps b K [] (some (d + 1)) (settle env dest kind) (dest.after d) := by
  cases dest with
  | statement =>
    exact runs_then (runs_box kind d) (runs_plain d 1 0 rfl rfl)
  | boxed => exact runs_box kind d
  | unboxed p => exact runs_unbox kind p d
  | result =>
    simp only [settle]
    cases env.ret with
    | some p => exact runs_then (runs_unbox kind p d) (runs_then (runs_box (some p) d) (runs_return d))
    | none => exact runs_then (runs_box kind d) (runs_return d)

theorem runs_inert {push : Emit PUnit} (env : EmitEnv) (dest : Dest) (kind : Option Prim) (d : Nat)
    (hp : Steps b K [] (some d) push (some (d + 1))) : Steps b K [] (some d) (inert env dest kind push) (dest.after d) := by
  unfold inert
  split
  · rename_i hd
    rw [eq_of_beq hd]
    exact runs_pure _
  · exact runs_then hp (runs_settle env dest kind d)

theorem children_constant (c : Constant) (p : Pool) : (p.constant c).2.children = p.children := by
  unfold Pool.constant
  split <;> rfl

theorem runs_constant (c : Constant) {pre : Option Nat} :
    Runs b K [] pre (pooled (·.constant c)) fun n => ([.entry (.constant c) n], pre) :=
  runs_pooled (Pool.serves_constant c) (children_constant c)

theorem runs_keywordSite (k : Keyword) {pre : Option Nat} :
    Runs b K [] pre (pooled (·.keywordSite k)) fun n => ([.entry (.keyword k) n], pre) := by
  refine runs_pooled (Pool.serves_keywordSite k) fun p => ?_
  unfold Pool.keywordSite
  split <;> rfl

theorem runs_protocolSite (m : Symbol) {pre : Option Nat} :
    Runs b K [] pre (pooled (·.protocolSite m)) fun n => ([.entry (.protocol m) n], pre) := by
  refine runs_pooled (Pool.serves_protocolSite m) fun p => ?_
  unfold Pool.protocolSite
  split <;> rfl

/-- An instruction that names an entry, in front of other code. -/
theorem runs_naming {x : Emit Nat} {z : Emit PUnit} {need : Need} {post : Option Nat} (i : Nat → Instr) (d pops : Nat)
    (hx : Runs b K [] (some (d + pops)) x fun n => ([.entry need n], some (d + pops)))
    (he : ∀ n, (i n).effect = (pops, 1) ∧ (i n).isTerminal = false ∧ (i n).targets = [])
    (hi : ∀ n p, p.Provides need n → (i n).Fits b p) (hz : Steps b K [] (some (d + 1)) z post) :
    Steps b K [] (some (d + pops)) (x >>= fun n => op (i n) >>= fun _ => z) post := by
  refine runs_with hx fun n => runs_then (runs_instr d pops 1 (he n).1 (he n).2.1 (fun l hl => ?_) fun p hp => ?_)
    (hz.knowing fun f hf => List.mem_append_right _ hf)
  · rw [(he n).2.2] at hl
    cases hl
  · exact hi n p (hp _ n List.mem_cons_self)

/-- An instruction that names a constant. -/
theorem runs_naming_constant {c : Constant} {z : Emit PUnit} {post : Option Nat} (i : Nat → Instr) (d pops : Nat)
    (he : ∀ n, (i n).effect = (pops, 1) ∧ (i n).isTerminal = false ∧ (i n).targets = [])
    (hr : ∀ n, Verify.localOf? (i n) = none ∧ (∀ u k, i n ≠ .newFn u k) ∧
      ∀ limits, Verify.references limits (i n) = [("constant", n, limits.constants)])
    (hz : Steps b K [] (some (d + 1)) z post) :
    Steps b K [] (some (d + pops)) (pooled (·.constant c) >>= fun n => op (i n) >>= fun _ => z) post :=
  runs_naming i d pops (runs_constant c) he (fun n _ hp => hp.fits_constant (hr n).1 (hr n).2.1 (hr n).2.2) hz

theorem runs_pushConstant (c : Constant) (d : Nat) :
    Steps b K [] (some d) (pooled (·.constant c) >>= fun n => op (.const n)) (some (d + 1)) :=
  runs_naming_constant .const d 0 (fun _ => ⟨rfl, rfl, rfl⟩)
    (fun _ => ⟨rfl, fun _ _ => Instr.noConfusion, fun _ => rfl⟩) (runs_pure _)

theorem runs_exitArm {dest : Dest} {stop : Label} {d : Nat} (hl : .height stop (dest.after d) ∈ K) :
    Steps b K [] (dest.after d) (exitArm dest stop) none := by
  intro s a s' D H hx hs hK hm hc
  have he := exitArm_eq dest stop s
  split at he
  · rename_i hn
    rw [he] at hx
    cases dest with
    | result => simp at hn
    | statement => exact runs_jump hl s a s' D H hx hs hK hm hc
    | boxed => exact runs_jump hl s a s' D H hx hs hK hm hc
    | unboxed p => exact runs_jump hl s a s' D H hx hs hK hm hc
  · rename_i hn
    rw [he] at hx
    -- nothing is emitted: control cannot come here
    refine (runs_pure _ : Steps b K [] none _ none) s a s' D H hx hs hK hm (.inl ?_)
    by_cases hr : dest = .result
    · subst hr
      exact hc.elim id id
    · refine hs.ended ?_
      simpa [hr] using hn

/-! ## Locals -/

theorem fieldIndex?_lt {o : ObjectFrame} {x i : Nat} (h : o.fieldIndex? x = some i) : i < o.closes.length := by
  unfold ObjectFrame.fieldIndex? at h
  exact (List.findIdx?_eq_some_iff_getElem.1 h).1

theorem runs_pushLocal (hw : env.Within b) (r : LocalRef) (d : Nat) :
    Steps b K [] (some d) (pushLocal env r) (some (d + 1)) := by
  unfold pushLocal
  dsimp only
  split
  · rename_i hm
    have hslot := hw.slots r.binding (eq_of_beq hm)
    split
    · exact runs_plain d 0 1 rfl rfl
    · split
      · exact runs_instr d 0 1 rfl rfl (fun _ h => by cases h) fun _ _ =>
          Instr.fits_of_slot rfl (fun _ => rfl) (fun _ _ => Instr.noConfusion) hslot
      · exact runs_load hslot d
  · split
    · rename_i i hi
      have hfield : i < b.fields := Nat.lt_of_lt_of_le (fieldIndex?_lt hi) hw.fields
      split
      all_goals
        refine runs_instr d 0 1 rfl rfl (fun _ h => by cases h) fun _ _ =>
          Instr.fits_of_references rfl (fun _ _ => Instr.noConfusion) fun r hr => ?_
        simp only [Verify.references, List.mem_singleton] at hr
        rw [hr]
        exact hfield
    · exact runs_throw _ _

theorem runs_pushLocals (hw : env.Within b) (rs : List LocalRef) (d : Nat) :
    Steps b K [] (some d) (pushLocals env rs) (some (d + rs.length)) := by
  induction rs generalizing d with
  | nil =>
    rw [pushLocals, List.forM_eq_forM, List.forM_nil]
    exact runs_pure _
  | cons r rs ih =>
    rw [pushLocals, List.forM_eq_forM, List.forM_cons, List.length_cons, Nat.add_comm rs.length 1, ← Nat.add_assoc]
    exact runs_then (runs_pushLocal hw r d) (ih (d + 1))

theorem deadSlots_lt (hw : env.Within b) {slot : Nat} (h : slot ∈ deadSlots env.context env.frame) : slot < b.slots := by
  unfold deadSlots at h
  simp only [List.mem_mergeSort, List.mem_eraseDups, List.mem_filter, List.mem_map, Array.mem_toList_iff, Bool.and_eq_true] at h
  obtain ⟨⟨x, ⟨⟨hx, hm, _⟩, _⟩, rfl⟩, _⟩ := h
  obtain ⟨i, hi, rfl⟩ := Array.mem_iff_getElem.1 hx
  have hb : env.context.binding i = env.context.bindings[i] := by
    simp only [Context.binding, Array.getElem?_eq_getElem hi, Option.getD_some]
  have := hw.slots i
  rw [hb] at this
  exact this (eq_of_beq hm)

theorem runs_clearDeadIf (hw : env.Within b) (tail : Bool) (d : Nat) :
    Steps b K [] (some d) (clearDeadIf env tail) (some d) := by
  unfold clearDeadIf clearDead
  split
  · split
    · refine runs_forM fun s hs => runs_instr d 0 0 rfl rfl (fun _ h => by cases h) fun _ _ => ?_
      exact Instr.fits_of_slot rfl (fun _ => rfl) (fun _ _ => Instr.noConfusion) (deadSlots_lt hw hs)
    · exact runs_pure _
  · exact runs_pure _

/-! ## Local functions and loops -/

theorem runs_emptyFns (hw : env.Within b) {bindings : List (Nat × Expr)}
    (ho : FittedBindings b.admits env.context ⟨some env.frame, n, inHandler⟩ bindings) (d : Nat) :
    Steps b K [] (some d) (bindings.forM fun x => do op .nil; op (.store (slotOf env x.1))) (some d) := by
  rw [Expr.fittedBindings_iff] at ho
  refine runs_forM fun x hx => runs_then ?_ (runs_store (slot_lt hw (ho x hx).1) d)
  exact runs_plain d 0 1 rfl rfl

theorem runs_linkFns (hw : env.Within b) {bindings : List (Nat × Expr)}
    (ho : FittedBindings b.admits env.context ⟨some env.frame, n, inHandler⟩ bindings) (d : Nat) :
    Steps b K [] (some d) (linkFns env bindings) (some d) := by
  rw [Expr.fittedBindings_iff] at ho
  have hown : ∀ x, (bindings.any fun y => y.1 == x) = true → slotOf env x < b.slots := by
    intro x hx
    obtain ⟨y, hy, he⟩ := List.any_eq_true.1 hx
    rw [← eq_of_beq he]
    exact slot_lt hw (ho y hy).1
  refine runs_forM fun x hx => ?_
  obtain ⟨binding, init⟩ := x
  cases init with
  | fn _ captures _ =>
    refine runs_forM fun y _ => ?_
    dsimp only
    split
    · rename_i hy
      refine runs_then (runs_load (slot_lt hw (ho _ hx).1) d) (runs_then (runs_load (hown _ hy) (d + 1)) ?_)
      exact runs_plain d 2 0 rfl rfl
    · exact runs_pure _
  | _ => exact runs_pure _

theorem runs_rebind (hw : env.Within b) {targets : List Nat} (ho : ∀ t ∈ targets, env.context.Owns ⟨some env.frame, n, inHandler⟩ t) (d : Nat) :
    Steps b K [] (some (d + targets.length)) (targets.reverse.forM fun t => op (.store (slotOf env t))) (some d) := by
  have h : ∀ ts : List Nat, (∀ t ∈ ts, env.context.Owns ⟨some env.frame, n, inHandler⟩ t) →
      Steps b K [] (some (d + ts.length)) (ts.forM fun t => op (.store (slotOf env t))) (some d) := by
    intro ts hts
    induction ts with
    | nil =>
      rw [List.forM_eq_forM, List.forM_nil]
      exact runs_pure _
    | cons t ts ih =>
      rw [List.forM_eq_forM, List.forM_cons]
      exact runs_then (runs_store (slot_lt hw (hts t List.mem_cons_self)) _) (ih fun t ht => hts t (List.mem_cons_of_mem _ ht))
  rw [← List.length_reverse]
  exact h _ fun t ht => ho t (List.mem_reverse.1 ht)

/-! ## Keys of a `case` -/

theorem runs_pushCaseKey {plan : CasePlan} {temp : Nat} {missed : Label} (ht : temp < b.slots)
    (hm : .height missed (some d) ∈ K) : Steps b K [] (some d) (pushCaseKey plan temp missed) (some (d + 1)) := by
  have hmask : Steps b K [] (some (d + 1)) (if plan.mask != 0 then op (.shiftMask plan.shift plan.mask) else pure ⟨⟩)
      (some (d + 1)) := by
    split
    · exact runs_plain d 1 1 rfl rfl
    · exact runs_pure _
  have hhash : Steps b K [] (some (d + 1)) (op .hash) (some (d + 1)) :=
    runs_plain d 1 1 rfl rfl
  unfold pushCaseKey
  cases plan.test with
  | int =>
    have hjump : Steps b K [] (some (d + 1)) (op (.jumpIfFalse missed)) (some d) :=
      runs_instr d 1 0 rfl rfl (fun l hl => List.mem_singleton.1 hl ▸ hm) fun _ _ =>
        Instr.fits_of_none rfl (fun _ => rfl) fun _ _ => Instr.noConfusion
    refine runs_then (runs_load ht d) (runs_naming_constant .instanceOf d 1 (fun _ => ⟨rfl, rfl, rfl⟩)
      (fun _ => ⟨rfl, fun _ _ => Instr.noConfusion, fun _ => rfl⟩) ?_)
    exact runs_then hjump (runs_then (runs_load ht d) (runs_then (runs_unbox none .int d) hmask))
  | hashIdentity => exact runs_then (runs_load ht d) (runs_then hhash hmask)
  | hashEquiv => exact runs_then (runs_load ht d) (runs_then hhash hmask)

theorem runs_switchOver {plan : CasePlan} {keys : List (Int32 × Label)} {missed : Label} (hm : .height missed (some d) ∈ K)
    (hk : ∀ l ∈ keys.map (·.2), .height l (some d) ∈ K) :
    Steps b K [] (some (d + 1)) (op (switchOver plan keys missed)) none := by
  have he : (switchOver plan keys missed).effect = (1, 0) := by
    unfold switchOver
    split <;> rfl
  have ht : (switchOver plan keys missed).isTerminal = true := by
    unfold switchOver
    split <;> rfl
  have hf : ∀ p, (switchOver plan keys missed).Fits b p := by
    intro p
    unfold switchOver
    split <;> exact Instr.fits_of_none rfl (fun _ => rfl) fun _ _ => Instr.noConfusion
  have h := runs_op (d := d + 1) (K := K) (fun p _ => hf p) (by rw [he]; exact Nat.le_add_left 1 d) fun l hl => by
    rw [he]
    rcases mem_targets_switchOver hl with rfl | hl
    · exact hm
    · exact hk l hl
  rwa [ht, if_pos rfl] at h

/-- Labels for buckets that are all reached with one depth. -/
theorem runs_newLabels {pre : Option Nat} {β : Type} {out : β → Outcome} (h : Option Nat) (n : Nat) :
    ∀ {K : List Fact} {ms : List Label} {f : List Label → Emit β},
    (∀ ls : List Label, ls.length = n → (∀ l ∈ ls, l ∉ ms) → ls.Nodup →
      ∀ K', (∀ f ∈ K, f ∈ K') → (∀ l ∈ ls, .height l h ∈ K') → Runs b K' (ls ++ ms) pre (f ls) out) →
    Runs b K ms pre (newLabels n >>= f) out := by
  induction n with
  | zero =>
    intro K ms f hf
    rw [newLabels, pure_bind]
    exact hf [] rfl (fun _ h => by cases h) .nil K (fun _ h => h) fun _ h => by cases h
  | succ n ih =>
    intro K ms f hf
    rw [newLabels, bind_assoc]
    refine runs_newLabel h fun l hl => ?_
    simp only [bind_assoc, pure_bind]
    refine ih fun ls hn hls hd K' hK hh => ?_
    refine runs_marking _ (hf (l :: ls) (by rw [List.length_cons, hn]) ?_ ?_ K' (fun f hf => hK f (List.mem_cons_of_mem _ hf)) ?_) ?_
    · intro l' hl'
      rcases List.mem_cons.1 hl' with rfl | hl'
      · exact hl
      · exact fun h => hls l' hl' (List.mem_cons_of_mem l h)
    · exact List.nodup_cons.2 ⟨fun hl' => hls l hl' List.mem_cons_self, hd⟩
    · intro l' hl'
      rcases List.mem_cons.1 hl' with rfl | hl'
      · exact hK _ List.mem_cons_self
      · exact hh l' hl'
    · intro l'
      simp only [List.mem_append, List.mem_cons]
      exact ⟨fun h => h.elim (fun h => h.elim (.inr ∘ .inl) .inl) (.inr ∘ .inr),
        fun h => h.elim (.inl ∘ .inr) fun h => h.elim (.inl ∘ .inl) .inr⟩

end

/-! ## Expressions -/

/-- An instruction that pops its operands and pushes a value, which is taken to its destination. -/
theorem runs_op_settle {b : Bounds} {env : EmitEnv} {K : List Fact} {i : Instr} (dest : Dest) (kind : Option Prim) (d pops : Nat)
    (he : i.effect = (pops, 1)) (hp : i.isPlain = true) :
    Steps b K [] (some (d + pops)) (op i >>= fun _ => settle env dest kind) (dest.after d) :=
  runs_then (runs_plain d pops 1 he hp) (runs_settle env dest kind d)

section

variable {b : Bounds} {K : List Fact} {d : Nat}

theorem after_testDest (test : Expr) (d : Nat) : (testDest test).after d = some (d + 1) := by
  unfold testDest
  split <;> rfl

theorem runs_testJump (test : Expr) {otherwise : Label} (hl : .height otherwise (some d) ∈ K) :
    Steps b K [] (some (d + 1)) (op (testJump test otherwise)) (some d) := by
  unfold testJump
  split <;> exact runs_instr d 1 0 rfl rfl (fun l h => List.mem_singleton.1 h ▸ hl) fun _ _ =>
    Instr.fits_of_none rfl (fun _ => rfl) fun _ _ => Instr.noConfusion

/-- An arm, and the way from its end to the common exit. -/
theorem runs_arm {β : Type} {ms : List Label} {pre : Option Nat} {x : Emit PUnit} {z : Emit β} {out : β → Outcome} {dest : Dest}
    {stop : Label} (hx : Steps b K [] pre x (dest.after d)) (hs : .height stop (dest.after d) ∈ K) (hz : Runs b K ms none z out) :
    Runs b K ms pre (x >>= fun _ => exitArm dest stop >>= fun _ => z) out :=
  runs_then hx (runs_then (runs_exitArm hs) hz)

/-- What is on its way out is kept while the cleanup runs. -/
theorem runs_emitCleanup {start stop : Label} {finish : Emit PUnit} {thrownSlot : Nat} {isThere : Bool} {ranges : List (Label × Label)}
    (hf : ∀ K, Steps b K [] (some 0) finish (some 0)) (ht : thrownSlot < b.slots) (ho : .ordered start stop ∈ K)
    (hr : ∀ r ∈ ranges, .ordered r.1 r.2 ∈ K) : Steps b K [] none (emitCleanup start stop finish thrownSlot isThere ranges) none := by
  unfold emitCleanup
  split
  · refine runs_newLabel (some 1) fun target _ => ?_
    refine runs_then (runs_handler (List.mem_cons_of_mem _ ho) List.mem_cons_self) (runs_then (runs_forM fun r hm => ?_) ?_)
    · exact runs_handler (List.mem_cons_of_mem _ (hr r hm)) List.mem_cons_self
    · exact runs_join (some 1) List.mem_cons_self (by simp) (runs_then (runs_store ht 0) (runs_then (hf _)
        (runs_then (runs_load ht 0) (runs_raise 0))))
  · exact runs_pure _

/-- A value is compared with a constant. -/
theorem runs_test {slot : Nat} (hs : slot < b.slots) (constant : Form) (test : CaseTest) {next : Label}
    (hn : .height next (some d) ∈ K) {z : Emit PUnit} {ms : List Label} {post : Option Nat} (hz : Steps b K ms (some d) z post) :
    Steps b K ms (some d) (pushTest slot constant >>= fun _ => op (testInstr test next) >>= fun _ => z) post := by
  refine runs_then (runs_then (runs_load hs d) (runs_pushConstant _ (d + 1))) (runs_then ?_ hz)
  unfold testInstr
  split <;> exact runs_instr d 2 0 rfl rfl (fun l h => List.mem_singleton.1 h ▸ hn) fun _ _ =>
    Instr.fits_of_none rfl (fun _ => rfl) fun _ _ => Instr.noConfusion

end

variable {b : Bounds}

mutual

/-- **The code of a fitted expression is steady.** -/
theorem runs_emit {env : EmitEnv} {n : Nat} {inHandler : Bool} (hw : env.Within b) (dest : Dest) (d : Nat) {K : List Fact} {loop : Option (List Nat)}
    {top : Bool} (hl : loop.isSome = true → .height env.loopHead (some d) ∈ K) (ht : top = true → d = 0) : ∀ e : Expr,
    Fitted b.admits env.context ⟨some env.frame, n, inHandler⟩ loop top e → Steps b K [] (some d) (emit env dest e) (dest.after d)
  | .nil, _ => by
    rw [emit]
    exact runs_inert env dest none d (runs_plain d 0 1 rfl rfl)
  | .bool v, _ => by
    rw [emit]
    split
    · rename_i hd
      rw [eq_of_beq hd]
      exact runs_plain d 0 1 rfl rfl
    · exact runs_inert env dest none d (runs_then (runs_plain d 0 1 rfl rfl) (runs_box (some .bool) d))
  | .long n, _ => by
    rw [emit]
    exact runs_inert env dest _ d (runs_plain d 0 1 rfl rfl)
  | .double v, _ => by
    rw [emit]
    exact runs_inert env dest _ d (runs_plain d 0 1 rfl rfl)
  | .const f, _ => by
    rw [emit]
    exact runs_inert env dest none d (runs_pushConstant _ d)
  | .type name, _ => by
    rw [emit]
    exact runs_inert env dest none d (runs_pushConstant _ d)
  | .local r, _ => by
    rw [emit]
    exact runs_inert env dest r.prim d (runs_pushLocal hw r d)
  | .vector items, hf => by
    rw [emit]
    exact runs_then (runs_emitAll hw d items hf) (runs_op_settle dest none d items.length rfl rfl)
  | .map pairs, hf => by
    rw [emit]
    exact runs_then (runs_emitPairs hw d pairs hf) (runs_op_settle dest none d (pairs.length * 2) rfl rfl)
  | .set items, hf => by
    rw [emit]
    exact runs_then (runs_emitAll hw d items hf) (runs_op_settle dest none d items.length rfl rfl)
  | .var v, _ => by
    rw [emit]
    exact runs_naming_constant .varGet d 0 (fun _ => ⟨rfl, rfl, rfl⟩)
      (fun _ => ⟨rfl, fun _ _ => Instr.noConfusion, fun _ => rfl⟩) (runs_settle env dest none d)
  | .theVar v, _ => by
    rw [emit]
    exact runs_naming_constant .const d 0 (fun _ => ⟨rfl, rfl, rfl⟩)
      (fun _ => ⟨rfl, fun _ _ => Instr.noConfusion, fun _ => rfl⟩) (runs_settle env dest none d)
  | .define v init info, hf => by
    rw [emit]
    have hinit : Steps b K [] (some d) (emitOption env .boxed init) (some (d + if init.isSome then 1 else 0)) := by
      cases init with
      | none =>
        rw [emitOption]
        exact runs_pure _
      | some e =>
        rw [emitOption]
        exact runs_emit hw .boxed d (fun h => by cases h) (fun h => by cases h) e hf
    refine runs_then hinit (runs_with (runs_constant _) fun i => runs_with (runs_constant _) fun j => ?_)
    refine runs_then (runs_instr d _ 1 rfl rfl (fun _ h => by cases h) fun p hp => ?_) (runs_settle env dest none d)
    refine Instr.fits_of_references rfl (fun _ _ => Instr.noConfusion) fun r hr => ?_
    simp only [Verify.references, List.mem_cons, List.not_mem_nil, or_false] at hr
    rcases hr with rfl | rfl
    · exact (hp _ i (List.mem_cons_of_mem _ List.mem_cons_self)).constant_lt
    · exact (hp _ j List.mem_cons_self).constant_lt
  | .assign (.var v) value, hf => by
    rw [emit]
    refine runs_then (runs_emit hw .boxed d (fun h => by cases h) (fun h => by cases h) value hf) ?_
    exact runs_naming_constant .varSet d 1 (fun _ => ⟨rfl, rfl, rfl⟩)
      (fun _ => ⟨rfl, fun _ _ => Instr.noConfusion, fun _ => rfl⟩) (runs_settle env dest none d)
  | .assign (.field x) value, hf => by
    rw [emit]
    dsimp only
    split
    · exact runs_throw _ _
    · rename_i i hi
      have hvalue := runs_emit hw (Dest.ofPrim (primOf env x)) d (K := K) (fun h => by cases h) (fun h => by cases h) value hf
      rw [Dest.after_ofPrim] at hvalue
      refine runs_then hvalue (runs_then (runs_plain d 1 2 rfl rfl) (runs_then ?_ (runs_then (runs_box _ d) (runs_settle env dest none d))))
      refine runs_instr (d + 1) 1 0 rfl rfl (fun _ h => by cases h) fun p _ => ?_
      refine Instr.fits_of_references rfl (fun _ _ => Instr.noConfusion) fun r hr => ?_
      simp only [Verify.references, List.mem_singleton] at hr
      rw [hr]
      exact Nat.lt_of_lt_of_le (fieldIndex?_lt hi) hw.fields
  | .cond test yes no line, hf => by
    obtain ⟨htest, hyes, hno⟩ := hf
    rw [emit_cond]
    refine runs_newLabel (some d) fun otherwise _ => runs_newLabel (dest.after d) fun stop hs => runs_then (runs_atLine line) ?_
    refine runs_marking [otherwise, stop] ?_ fun l => by simp [or_comm]
    have htest := runs_emit hw (testDest test) d (K := .height stop (dest.after d) :: .height otherwise (some d) :: K)
      (fun h => by cases h) (fun h => by cases h) test htest
    rw [after_testDest] at htest
    refine runs_then htest (runs_then (runs_testJump test (by simp)) (runs_arm ?_ List.mem_cons_self (runs_join (some d) ?_ ?_
      (runs_then ?_ (runs_markAt List.mem_cons_self)))))
    · exact runs_emit hw dest d (fun h => by simp [hl h]) ht yes hyes
    · exact List.mem_cons_of_mem _ List.mem_cons_self
    · simpa [eq_comm] using hs
    · exact runs_emit hw dest d (fun h => by simp [hl h]) ht no hno
  | .seq body, hf => by
    rw [emit]
    exact runs_emitSeq hw dest d hl ht body hf
  | .bind isLoop bindings body, hf => by
    obtain ⟨hb, hbody⟩ := hf
    rw [emit]
    refine runs_then (runs_emitBindings hw d bindings hb) ?_
    cases isLoop with
    | true =>
      refine runs_newLabel (some d) fun head _ => runs_mark_then List.mem_cons_self (by simp) ?_
      have hw' : EmitEnv.Within { env with loopHead := head } b := ⟨hw.slots, hw.temps, hw.fields⟩
      exact runs_emit hw' dest d (fun _ => List.mem_cons_self) ht body hbody
    | false => exact runs_emit hw dest d hl ht body hbody
  | .bindFns bindings body, hf => by
    obtain ⟨hb, hbody⟩ := hf
    rw [emit]
    exact runs_then (runs_emptyFns hw hb d) (runs_then (runs_emitFns hw d bindings hb) (runs_then (runs_linkFns hw hb d)
      (runs_emit hw dest d hl ht body hbody)))
  | .recur targets args line, hf => by
    obtain ⟨hloop, hn, ho, hargs⟩ := hf
    rw [emit]
    have ha := runs_emitArgs hw d (K := K) (targets.map (primOf env)) args hargs
    rw [hn] at ha
    refine runs_then ha (runs_then (runs_atLine line) (runs_then (runs_rebind hw ho d) ?_))
    exact Steps.left (runs_jump (hl (by rw [hloop]; rfl))) _
  | .fn unit captures _, hf => by
    rw [emit]
    refine runs_then (runs_pushLocals hw captures d) (runs_naming (fun n => .newFn n captures.length) d captures.length
      (runs_child hf.2.1) (fun _ => ⟨rfl, rfl, rfl⟩) (fun n p hp => hp.fits_newFn hf.1) (runs_settle env dest none d))
  | .invoke f args line tail, hf => by
    rw [emit_invoke]
    refine runs_then (runs_emit hw .boxed d (fun h => by cases h) (fun h => by cases h) f hf.2.1)
      (runs_then (runs_emitAll hw (d + 1) args hf.2.2) (runs_then (runs_clearDeadIf hw tail _) (runs_then (runs_atLine line) ?_)))
    rw [Nat.add_assoc, Nat.add_comm 1]
    exact runs_op_settle dest none d (args.length + 1) rfl rfl
  | .keywordInvoke k target line, hf => by
    rw [emit]
    refine runs_then (runs_emit hw .boxed d (fun h => by cases h) (fun h => by cases h) target hf) (runs_then (runs_atLine line) ?_)
    refine runs_naming .keywordInvoke d 1 (runs_keywordSite k) (fun _ => ⟨rfl, rfl, rfl⟩) (fun n p hp => ?_) (runs_settle env dest none d)
    refine Instr.fits_of_references rfl (fun _ _ => Instr.noConfusion) fun r hr => ?_
    simp only [Verify.references, List.mem_singleton] at hr
    rw [hr]
    exact hp.keyword_lt
  | .protocolInvoke v args line, hf => by
    rw [emit]
    refine runs_then (runs_emitAll hw d args hf) (runs_then (runs_atLine line) ?_)
    refine runs_naming (fun n => .protocolInvoke n args.length) d args.length (runs_protocolSite v.name) (fun _ => ⟨rfl, rfl, rfl⟩)
      (fun n p hp => ?_) (runs_settle env dest none d)
    refine Instr.fits_of_references rfl (fun _ _ => Instr.noConfusion) fun r hr => ?_
    simp only [Verify.references, List.mem_singleton] at hr
    rw [hr]
    exact hp.protocol_lt
  | .staticCall className name (some m) args line, hf => by
    rw [emit]
    refine runs_then (runs_emitArgs hw d _ args hf) (runs_then (runs_atLine line) ?_)
    exact runs_naming_constant (fun n => .invokeStatic n args.length) d args.length (fun _ => ⟨rfl, rfl, rfl⟩)
      (fun _ => ⟨rfl, fun _ _ => Instr.noConfusion, fun _ => rfl⟩) (runs_settle env dest _ d)
  | .staticCall className name none args line, hf => by
    rw [emit]
    refine runs_then (runs_emitArgs hw d _ args hf) (runs_then (runs_atLine line) ?_)
    refine runs_with (runs_constant _) fun i => runs_with (runs_constant _) fun j => ?_
    refine runs_then (runs_instr d args.length 1 rfl rfl (fun _ h => by cases h) fun p hp => ?_) (runs_settle env dest none d)
    refine Instr.fits_of_references rfl (fun _ _ => Instr.noConfusion) fun r hr => ?_
    simp only [Verify.references, List.mem_cons, List.not_mem_nil, or_false] at hr
    rcases hr with rfl | rfl
    · exact (hp _ i (List.mem_cons_of_mem _ List.mem_cons_self)).constant_lt
    · exact (hp _ j List.mem_cons_self).constant_lt
  | .methodCall target name member args line, hf => by
    have hargs := runs_emitArgs hw (d + 1) (K := K) (argPrims member) args hf.2
    rw [Nat.add_assoc, Nat.add_comm 1] at hargs
    cases member with
    | some m =>
      rw [emit]
      refine runs_then (runs_emit hw .boxed d (fun h => by cases h) (fun h => by cases h) target hf.1) (runs_then hargs
        (runs_then (runs_atLine line) ?_))
      exact runs_naming_constant (fun n => .invokeVirtual n args.length) d (args.length + 1) (fun _ => ⟨rfl, rfl, rfl⟩)
        (fun _ => ⟨rfl, fun _ _ => Instr.noConfusion, fun _ => rfl⟩) (runs_settle env dest _ d)
    | none =>
      rw [emit]
      refine runs_then (runs_emit hw .boxed d (fun h => by cases h) (fun h => by cases h) target hf.1) (runs_then hargs
        (runs_then (runs_atLine line) ?_))
      exact runs_naming_constant (fun n => .invokeReflective n args.length) d (args.length + 1) (fun _ => ⟨rfl, rfl, rfl⟩)
        (fun _ => ⟨rfl, fun _ _ => Instr.noConfusion, fun _ => rfl⟩) (runs_settle env dest none d)
  | .staticField _ member, _ => by
    rw [emit]
    exact runs_naming_constant .getStatic d 0 (fun _ => ⟨rfl, rfl, rfl⟩)
      (fun _ => ⟨rfl, fun _ _ => Instr.noConfusion, fun _ => rfl⟩) (runs_settle env dest _ d)
  | .fieldGet target name (some f) line, hf => by
    rw [emit]
    refine runs_then (runs_emit hw .boxed d (fun h => by cases h) (fun h => by cases h) target hf) (runs_then (runs_atLine line) ?_)
    exact runs_naming_constant (fun n => .getField n f.index) d 1 (fun _ => ⟨rfl, rfl, rfl⟩)
      (fun _ => ⟨rfl, fun _ _ => Instr.noConfusion, fun _ => rfl⟩) (runs_settle env dest _ d)
  | .fieldGet target name none line, hf => by
    rw [emit]
    refine runs_then (runs_emit hw .boxed d (fun h => by cases h) (fun h => by cases h) target hf) (runs_then (runs_atLine line) ?_)
    exact runs_naming_constant .getFieldReflective d 1 (fun _ => ⟨rfl, rfl, rfl⟩)
      (fun _ => ⟨rfl, fun _ _ => Instr.noConfusion, fun _ => rfl⟩) (runs_settle env dest none d)
  | .construct className member declared args line, hf => by
    rw [emit]
    dsimp only
    refine runs_then (runs_emitArgs hw d _ args hf) (runs_then (runs_atLine line) ?_)
    split
    · exact runs_naming_constant (fun n => .new n args.length) d args.length (fun _ => ⟨rfl, rfl, rfl⟩)
        (fun _ => ⟨rfl, fun _ _ => Instr.noConfusion, fun _ => rfl⟩) (runs_settle env dest none d)
    · cases declared
      · exact runs_naming_constant (fun n => .newReflective n args.length) d args.length (fun _ => ⟨rfl, rfl, rfl⟩)
          (fun _ => ⟨rfl, fun _ _ => Instr.noConfusion, fun _ => rfl⟩) (runs_settle env dest none d)
      · exact runs_naming_constant (fun n => .newInstance n args.length) d args.length (fun _ => ⟨rfl, rfl, rfl⟩)
          (fun _ => ⟨rfl, fun _ _ => Instr.noConfusion, fun _ => rfl⟩) (runs_settle env dest none d)
  | .instanceOf className value, hf => by
    rw [emit]
    refine runs_then (runs_emit hw .boxed d (fun h => by cases h) (fun h => by cases h) value hf) ?_
    exact runs_naming_constant .instanceOf d 1 (fun _ => ⟨rfl, rfl, rfl⟩)
      (fun _ => ⟨rfl, fun _ _ => Instr.noConfusion, fun _ => rfl⟩) (runs_settle env dest _ d)
  | .throw value, hf => by
    rw [emit]
    exact runs_then (runs_emit hw .boxed d (fun h => by cases h) (fun h => by cases h) value hf) (Steps.left (runs_raise d) _)
  | .attempt body handlers cleanup resultSlot thrownSlot, hf => by
    obtain ⟨htop, hres, hthrown, hbody, hh, hc⟩ := hf
    cases ht htop
    rw [emit_attempt]
    refine runs_newLabel none fun start _ => runs_newLabel none fun stop hp => runs_newLabel (dest.after 0) fun done hd => ?_
    refine runs_marking [start, stop, done] ?_ fun l => by simp [or_comm, or_left_comm]
    -- the ranges of the handlers are known to be in order from the moment their ends are bound
    refine runs_bind (runs_mark (h := none) (by simp) (by simp) [] (by simp)) (fun _ => ?_) ?_
    · refine runs_then (runs_emit hw .boxed 0 (fun h => by cases h) (fun h => by cases h) body hbody)
        (runs_then (runs_store (temp_lt hw hres) 0) (runs_bind (runs_mark (h := none) (by simp) (by simp) [start] (by simp)) (fun _ => ?_) ?_))
      · refine runs_then (runs_emitOption hw 0 cleanup hc) (runs_then (runs_load (temp_lt hw hres) 0)
          (runs_arm (runs_settle env dest none 0) (by simp) ?_))
        refine runs_bind (runs_emitHandlers hw dest (fun K => runs_emitOption hw 0 cleanup hc) (temp_lt hw hres) handlers hh
          (by simp) (by simp)) (fun ranges => ?_) (by simp)
        refine runs_then (runs_emitCleanup (fun K => runs_emitOption hw 0 cleanup hc) (temp_lt hw hthrown) (by simp) fun r hr => ?_)
          (Runs.dead (runs_markAt (by simp)))
        exact List.mem_append_left _ (List.mem_map.2 ⟨r, hr, rfl⟩)
      · simp only [List.mem_cons, not_or, List.not_mem_nil, or_false] at hd ⊢
        exact fun l hl => hl ▸ hd.1
    · simp only [List.mem_cons, not_or, List.not_mem_nil, or_false] at hp hd ⊢
      rintro l (rfl | rfl)
      · exact hp
      · exact hd.2
  | .case value temp plan buckets otherwise line, hf => by
    obtain ⟨hv, ho, hb, helse⟩ := hf
    have hslot := slot_lt hw ho
    rw [emit]
    refine runs_newLabel (some d) fun missed _ => runs_newLabel (dest.after d) fun stop hs => runs_then (runs_atLine line) ?_
    refine runs_then (runs_emit hw .boxed d (fun h => by cases h) (fun h => by cases h) value hv) (runs_then (runs_store hslot d)
      (runs_then (runs_pushCaseKey hslot (by simp)) (runs_newLabels (some d) buckets.length fun labels hn hls hd K' hK hh => ?_)))
    have hmissed : .height missed (some d) ∈ K' := hK _ (by simp)
    have hstop : .height stop (dest.after d) ∈ K' := hK _ (by simp)
    have hloop : loop.isSome = true → .height env.loopHead (some d) ∈ K' := fun h => hK _ (by simp [hl h])
    refine runs_marking (labels ++ [missed, stop]) ?_ fun l => by simp [or_comm]
    have hbuckets := runs_emitBuckets hw dest d plan.test hloop ht hslot hmissed hstop labels buckets hn hd hh hb
    refine runs_then (runs_switchOver hmissed fun l hl => hh l ?_) (runs_bind (Runs.dead hbuckets) (fun _ => ?_) fun l hm hl' => ?_)
    · obtain ⟨⟨k, l'⟩, hz, rfl⟩ := List.mem_map.1 hl
      exact (List.of_mem_zip hz).2
    · exact runs_mark_then hmissed (by simpa [eq_comm] using hs) (runs_then (runs_emit hw dest d hloop ht otherwise helse) (runs_markAt hstop))
    · refine hls l hl' ?_
      simpa [or_comm] using hm
  | .deftype name unit, hf => by
    rw [emit]
    refine runs_with (runs_child hf) fun _ => Runs.knowing (runs_naming_constant .const d 0 (fun _ => ⟨rfl, rfl, rfl⟩)
      (fun _ => ⟨rfl, fun _ _ => Instr.noConfusion, fun _ => rfl⟩) (runs_settle env dest none d)) fun f hf => List.mem_append_right _ hf
  | .reify name unit captures line, hf => by
    rw [emit]
    refine runs_then (runs_pushLocals hw captures d) (runs_with (runs_child hf.1) fun _ => runs_with (runs_constant _) fun n => ?_)
    refine runs_then (runs_atLine line) (runs_then (runs_instr d captures.length 1 rfl rfl (fun _ h => by cases h) fun p hp => ?_)
      (runs_settle env dest none d))
    exact (hp _ n List.mem_cons_self).fits_constant rfl (fun _ _ => Instr.noConfusion) fun _ => rfl

theorem runs_emitOption {env : EmitEnv} {n : Nat} {inHandler : Bool} (hw : env.Within b) (d : Nat) {K : List Fact} : ∀ e : Option Expr,
    FittedOption b.admits env.context ⟨some env.frame, n, inHandler⟩ e → Steps b K [] (some d) (emitOption env .statement e) (some d)
  | none, _ => by
    rw [emitOption]
    exact runs_pure _
  | some e, hf => by
    rw [emitOption]
    exact runs_emit hw .statement d (fun h => by cases h) (fun h => by cases h) e hf

theorem runs_emitArgs {env : EmitEnv} {n : Nat} {inHandler : Bool} (hw : env.Within b) (d : Nat) {K : List Fact} (prims : List (Option Prim)) : ∀ es : List Expr,
    FittedAll b.admits env.context ⟨some env.frame, n, inHandler⟩ es → Steps b K [] (some d) (emitArgs env prims es) (some (d + es.length))
  | [], _ => by
    rw [emitArgs]
    exact runs_pure _
  | e :: es, hf => by
    have he := runs_emit hw (Dest.ofPrim prims.head?.join) d (K := K) (fun h => by cases h) (fun h => by cases h) e hf.1
    rw [Dest.after_ofPrim] at he
    rw [emitArgs, List.length_cons, Nat.add_comm es.length 1, ← Nat.add_assoc]
    exact runs_then he (runs_emitArgs hw (d + 1) prims.tail es hf.2)

theorem runs_emitSeq {env : EmitEnv} {n : Nat} {inHandler : Bool} (hw : env.Within b) (dest : Dest) (d : Nat) {K : List Fact} {loop : Option (List Nat)}
    {top : Bool} (hl : loop.isSome = true → .height env.loopHead (some d) ∈ K) (ht : top = true → d = 0) : ∀ es : List Expr,
    FittedSeq b.admits env.context ⟨some env.frame, n, inHandler⟩ loop top es → Steps b K [] (some d) (emitSeq env dest es) (dest.after d)
  | [], _ => by
    rw [emitSeq]
    exact runs_inert env dest none d (runs_plain d 0 1 rfl rfl)
  | [e], hf => by
    rw [emitSeq]
    exact runs_emit hw dest d hl ht e hf
  | e :: e' :: es, hf => by
    rw [emitSeq]
    · exact runs_then (runs_emit hw .statement d (fun h => by cases h) (fun h => by cases h) e hf.1)
        (runs_emitSeq hw dest d hl ht (e' :: es) hf.2)
    · exact fun h => by cases h

theorem runs_emitBindings {env : EmitEnv} {n : Nat} {inHandler : Bool} (hw : env.Within b) (d : Nat) {K : List Fact} : ∀ bs : List (Nat × Expr),
    FittedBindings b.admits env.context ⟨some env.frame, n, inHandler⟩ bs → Steps b K [] (some d) (emitBindings env bs) (some d)
  | [], _ => by
    rw [emitBindings]
    exact runs_pure _
  | (x, init) :: rest, hf => by
    have he := runs_emit hw (Dest.ofPrim (primOf env x)) d (K := K) (fun h => by cases h) (fun h => by cases h) init hf.2.1
    rw [Dest.after_ofPrim] at he
    rw [emitBindings]
    exact runs_then he (runs_then (runs_store (slot_lt hw hf.1) d) (runs_emitBindings hw d rest hf.2.2))

theorem runs_emitFns {env : EmitEnv} {n : Nat} {inHandler : Bool} (hw : env.Within b) (d : Nat) {K : List Fact} : ∀ bs : List (Nat × Expr),
    FittedBindings b.admits env.context ⟨some env.frame, n, inHandler⟩ bs → Steps b K [] (some d) (emitFns env bs) (some d)
  | [], _ => by
    rw [emitFns]
    exact runs_pure _
  | (x, init) :: rest, hf => by
    rw [emitFns]
    exact runs_then (runs_emit hw .boxed d (fun h => by cases h) (fun h => by cases h) init hf.2.1)
      (runs_then (runs_store (slot_lt hw hf.1) d) (runs_emitFns hw d rest hf.2.2))

theorem runs_emitAll {env : EmitEnv} {n : Nat} {inHandler : Bool} (hw : env.Within b) (d : Nat) {K : List Fact} : ∀ es : List Expr,
    FittedAll b.admits env.context ⟨some env.frame, n, inHandler⟩ es → Steps b K [] (some d) (emitAll env es) (some (d + es.length))
  | [], _ => by
    rw [emitAll]
    exact runs_pure _
  | e :: es, hf => by
    rw [emitAll, List.length_cons, Nat.add_comm es.length 1, ← Nat.add_assoc]
    exact runs_then (runs_emit hw .boxed d (fun h => by cases h) (fun h => by cases h) e hf.1) (runs_emitAll hw (d + 1) es hf.2)

theorem runs_emitPairs {env : EmitEnv} {n : Nat} {inHandler : Bool} (hw : env.Within b) (d : Nat) {K : List Fact} : ∀ es : List (Expr × Expr),
    FittedPairs b.admits env.context ⟨some env.frame, n, inHandler⟩ es → Steps b K [] (some d) (emitPairs env es) (some (d + es.length * 2))
  | [], _ => by
    rw [emitPairs]
    exact runs_pure _
  | (k, v) :: rest, hf => by
    have hd : d + ((k, v) :: rest).length * 2 = d + 1 + 1 + rest.length * 2 := by
      rw [List.length_cons]
      omega
    rw [emitPairs, hd]
    exact runs_then (runs_emit hw .boxed d (fun h => by cases h) (fun h => by cases h) k hf.1)
      (runs_then (runs_emit hw .boxed (d + 1) (fun h => by cases h) (fun h => by cases h) v hf.2.1)
        (runs_emitPairs hw (d + 1 + 1) rest hf.2.2))

theorem runs_emitHandlers {env : EmitEnv} {n : Nat} {inHandler : Bool} (hw : env.Within b) (dest : Dest) {finish : Emit PUnit}
    (hfin : ∀ K, Steps b K [] (some 0) finish (some 0)) {start stop done : Label} {resultSlot : Nat} (hres : resultSlot < b.slots) :
    ∀ (handlers : List (String × Nat × Expr)) {K : List Fact}, FittedHandlers b.admits env.context ⟨some env.frame, n, inHandler⟩ handlers →
    .ordered start stop ∈ K → .height done (dest.after 0) ∈ K →
    Runs b K [] none (emitHandlers env dest finish start stop done resultSlot handlers) fun ranges =>
      (ranges.map fun r => .ordered r.1 r.2, none)
  | [], K, _, _, _ => by
    rw [emitHandlers]
    exact runs_result _ fun f hf => by cases hf
  | (className, x, body) :: rest, K, hf, ho, hd => by
    rw [emitHandlers]
    refine runs_newLabel (some 1) fun target _ => runs_newLabel none fun handlerStop hp => ?_
    refine runs_marking [target, handlerStop] ?_ fun l => by simp [or_comm]
    refine runs_then (runs_handler (by simp [ho]) (by simp)) (runs_bind (Runs.dead (runs_mark (h := some 1) (by simp) (fun _ h => h) []
      (by simp))) (fun _ => ?_) ?_)
    · refine runs_then (runs_store (slot_lt hw hf.1) 0) (runs_then (runs_emit hw .boxed 0 (fun h => by cases h) (fun h => by cases h) body hf.2.1)
        (runs_then (runs_store hres 0) (runs_bind (runs_mark (h := none) (by simp) (by simp) [target] (by simp)) (fun _ => ?_) (by simp))))
      refine runs_then (hfin _) (runs_then (runs_load hres 0) (runs_arm (runs_settle env dest none 0) (by simp [hd]) ?_))
      refine runs_with (runs_emitHandlers hw dest hfin hres rest hf.2.2 (by simp [ho]) (by simp [hd])) fun more => runs_result _ fun f hf => ?_
      rcases List.mem_cons.1 hf with rfl | hf
      · simp
      · exact List.mem_append_left _ hf
    · simpa using hp

theorem runs_emitBuckets {env : EmitEnv} {n : Nat} {inHandler : Bool} (hw : env.Within b) (dest : Dest) (d : Nat) {K : List Fact} {loop : Option (List Nat)}
    {top : Bool} (test : CaseTest) (hl : loop.isSome = true → .height env.loopHead (some d) ∈ K) (ht : top = true → d = 0)
    {slot : Nat} {missed stop : Label} (hslot : slot < b.slots) (hmissed : .height missed (some d) ∈ K)
    (hstop : .height stop (dest.after d) ∈ K) : ∀ (labels : List Label) (buckets : List (Int32 × List (Form × Expr))),
    labels.length = buckets.length → labels.Nodup → (∀ l ∈ labels, .height l (some d) ∈ K) →
    FittedBuckets b.admits env.context ⟨some env.frame, n, inHandler⟩ loop top buckets →
    Steps b K labels (some d) (emitBuckets env dest test slot missed stop labels buckets) (some d)
  | labels, [], hn, _, _, _ => by
    rw [List.length_nil, List.length_eq_zero_iff] at hn
    rw [hn, emitBuckets]
    exact runs_pure _
  | [], _ :: _, hn, _, _, _ => by cases hn
  | l :: labels, (key, entries) :: rest, hn, hd, hh, hf => by
    rw [List.nodup_cons] at hd
    rw [emitBuckets]
    exact runs_mark_then (hh l List.mem_cons_self) hd.1 (runs_then (runs_emitEntries hw dest d test hl ht hslot hmissed hstop entries hf.1)
      (runs_emitBuckets hw dest d test hl ht hslot hmissed hstop labels rest (Nat.succ.inj hn) hd.2
        (fun l hl => hh l (List.mem_cons_of_mem _ hl)) hf.2))

theorem runs_emitEntries {env : EmitEnv} {n : Nat} {inHandler : Bool} (hw : env.Within b) (dest : Dest) (d : Nat) {K : List Fact} {loop : Option (List Nat)}
    {top : Bool} (test : CaseTest) (hl : loop.isSome = true → .height env.loopHead (some d) ∈ K) (ht : top = true → d = 0)
    {slot : Nat} {missed stop : Label} (hslot : slot < b.slots) (hmissed : .height missed (some d) ∈ K)
    (hstop : .height stop (dest.after d) ∈ K) : ∀ entries : List (Form × Expr),
    FittedEntries b.admits env.context ⟨some env.frame, n, inHandler⟩ loop top entries →
    Steps b K [] (some d) (emitEntries env dest test slot missed stop entries) (some d)
  | [], _ => by
    rw [emitEntries]
    exact runs_pure _
  | [(constant, value)], hf => by
    rw [emitEntries_last]
    exact runs_test hslot constant test hmissed (runs_arm (runs_emit hw dest d hl ht value hf.1) hstop (Steps.left (runs_pure _) _))
  | (constant, value) :: e :: rest, hf => by
    rw [emitEntries_more]
    refine runs_newLabel (some d) fun next _ => runs_test hslot constant test List.mem_cons_self (runs_arm
      (runs_emit hw dest d (fun h => List.mem_cons_of_mem _ (hl h)) ht value hf.1) (List.mem_cons_of_mem _ hstop)
      (runs_join (some d) List.mem_cons_self (by simp) ?_))
    exact runs_emitEntries hw dest d test (fun h => List.mem_cons_of_mem _ (hl h)) ht hslot (List.mem_cons_of_mem _ hmissed)
      (List.mem_cons_of_mem _ hstop) (e :: rest) hf.2

end

/-! ## Methods and units -/

/-- The method is made of the code so far, in which no label is open. -/
structure Finishes (s : Emission) (m : Method) : Prop where
  code : m.code = s.code.code
  labels : m.labels = s.code.labels
  handlers : m.handlers = s.code.handlers
  closed : ∀ l : Nat, s.code.labels[l]? ≠ some none

section

variable {s : Emission} {m : Method} {depths : Nat → Option Nat} {heights : Label → Option Nat} {p : Pool}

theorem Finishes.labelPc?_eq (hm : Finishes s m) {l pc : Nat} (h : s.code.labels[l]? = some (some pc)) :
    m.labelPc? l = some pc := by rw [Method.labelPc?, hm.labels, h, Option.join_some]

theorem Finishes.bound (hm : Finishes s m) {l : Label} (hl : l < s.code.labels.size) :
    ∃ pc, s.code.labels[l]? = some (some pc) := by
  have hg := Array.getElem?_eq_getElem hl
  cases hpc : s.code.labels[l] with
  | none => exact absurd (hpc ▸ hg) (hm.closed l)
  | some pc => exact ⟨pc, hpc ▸ hg⟩

theorem inRange_of_steady (hs : s.Steady b depths heights) (hm : Finishes s m) (hp : s.pool.In p) (hslots : b.slots ≤ m.maxLocals)
    {i : Instr} (hi : i ∈ m.code.toList) : i.InRange (p.limits b.fields) m := by
  rw [hm.code] at hi
  obtain ⟨pc, hpc, rfl⟩ := Array.mem_iff_getElem.1 (Array.mem_toList_iff.1 hi)
  have hg := Array.getElem?_eq_getElem hpc
  have hfit := (hs.fits pc _ hg).grow hp
  refine ⟨fun x hx => Nat.lt_of_lt_of_le (hfit.slot x hx) hslots, hfit.tables, hfit.captured, fun l hl => ?_⟩
  obtain ⟨pc', hpc'⟩ := hm.bound (hs.known pc _ hg l hl)
  rw [hm.labelPc?_eq hpc']
  rfl

/-- The depths inside the code, if control does not run behind its end. -/
theorem balanced_of_steady (hs : s.Steady b depths heights) (hm : Finishes s m) (hentry : depths 0 = some 0)
    (hend : depths s.size = none) : m.Balanced fun pc => if pc < s.size then depths pc else none := by
  have hinside : ∀ {pc d}, pc ≤ s.size → depths pc = some d → (if pc < s.size then depths pc else none) = some d := by
    intro pc d hle hd
    rw [if_pos (Nat.lt_of_le_of_ne hle fun he => ?_), hd]
    rw [he, hend] at hd
    cases hd
  have hlabel : ∀ {l pc h}, heights l = some h → m.labelPc? l = some pc → (if pc < s.size then depths pc else none) = some h := by
    intro l pc h hh hpc
    rw [Method.labelPc?, hm.labels, Option.join_eq_some_iff] at hpc
    obtain ⟨hle, hd⟩ := hs.labels l pc hpc
    exact hinside hle (hd h hh)
  refine ⟨hinside (Nat.zero_le _) hentry, fun h hh pc hpc => hlabel (hs.handlers h (hm.handlers ▸ hh)).2.2 hpc, fun pc d hd => ?_⟩
  split at hd
  · rename_i hlt
    have hg : s.code.code[pc]? = some s.code.code[pc] := Array.getElem?_eq_getElem hlt
    obtain ⟨hpop, hjump, hfall⟩ := hs.flow pc _ d hg hd
    refine ⟨_, by rw [hm.code, hg], hpop, fun q hq => ?_⟩
    have hjumps : q ∈ ((s.code.code[pc].targets.filterMap m.labelPc?).map fun pc' =>
        (pc', d - s.code.code[pc].effect.1 + s.code.code[pc].effect.2)) → (if q.1 < s.size then depths q.1 else none) = some q.2 := by
      intro hq
      obtain ⟨pc', hpc', rfl⟩ := List.mem_map.1 hq
      obtain ⟨l, hl, hlp⟩ := List.mem_filterMap.1 hpc'
      exact hlabel (hjump l hl) hlp
    simp only [Verify.successors, List.mem_reverse] at hq
    split at hq
    · exact hjumps hq
    · rename_i hterm
      rcases List.mem_append.1 hq with hq | hq
      · exact hjumps hq
      · rw [List.mem_singleton.1 hq]
        exact hinside hlt (hfall (Bool.eq_false_iff.2 hterm))
  · cases hd

theorem sound_of_steady (hs : s.Steady b depths heights) (hm : Finishes s m) (hentry : depths 0 = some 0)
    (hend : depths s.size = none) (hp : s.pool.In p) (hslots : b.slots ≤ m.maxLocals) : m.Sound (p.limits b.fields) := by
  refine ⟨fun o ho => ?_, fun h hh => ?_, fun i hi => inRange_of_steady hs hm hp hslots hi, _, balanced_of_steady hs hm hentry hend⟩
  · rw [hm.labels] at ho
    obtain ⟨l, hl, rfl⟩ := List.mem_iff_getElem.1 ho
    rw [Array.length_toList] at hl
    obtain ⟨pc, hpc⟩ := hm.bound hl
    have hle := (hs.labels l pc hpc).1
    rw [Array.getElem?_eq_getElem hl] at hpc
    exact ⟨pc, Option.some.inj hpc, hm.code ▸ hle⟩
  · obtain ⟨⟨pc, pc', hl, hl', hle⟩, ht, _⟩ := hs.handlers h (hm.handlers ▸ hh)
    obtain ⟨pt, hpt⟩ := hm.bound ht
    simp only [Verify.handlerOk, hm.labelPc?_eq hl, hm.labelPc?_eq hl', hm.labelPc?_eq hpt, hle, decide_true]

end

/-- At the start of a method one label is bound, to the first instruction. -/
theorem steady_start {s : Emission} (hcode : s.code.code = #[]) (hlabels : s.code.labels = #[some 0]) (hh : s.code.handlers = [])
    (hu : ∀ u ∈ s.pool.children, b.admits u) : s.Steady b (fun _ => some 0) fun _ => some 0 := by
  have hsize : s.size = 0 := by rw [Emission.size, hcode]; rfl
  refine ⟨fun pc i hi => ?_, fun pc i hi => ?_, fun pc i d hi => ?_, fun l pc hl => ?_, fun he => ?_, fun h hm => ?_, hu⟩
  · simp [hcode] at hi
  · simp [hcode] at hi
  · simp [hcode] at hi
  · rw [hlabels, Array.getElem?_eq_some_iff] at hl
    obtain ⟨hl, he⟩ := hl
    cases Nat.lt_one_iff.1 hl
    cases he
    exact ⟨Nat.zero_le _, fun _ h => h⟩
  · simp [Emit.ended, hcode] at he
  · rw [hh] at hm
    cases hm

/-- The code of a method. -/
def methodBody (c : Context) (obj : Nat) (m : FnMethod) : Emit PUnit := do
  atLine m.line
  let head ← newLabel
  mark head
  emit { context := c, obj, frame := m.frame, ret := m.ret, loopHead := head } .result m.body

/-- The body of a method is emitted behind its first label. -/
theorem methodBody_eq_ok {c : Context} {obj : Nat} {m : FnMethod} {s done : Emission} (hcode : s.code.code = #[])
    (hlabels : s.code.labels = #[]) (hhandlers : s.code.handlers = []) (h : methodBody c obj m s = .ok (⟨⟩, done)) :
    ∃ s₀ : Emission, s₀.code.code = #[] ∧ s₀.code.labels = #[some 0] ∧ s₀.code.handlers = [] ∧ s₀.pool = s.pool ∧
      emit { context := c, obj, frame := m.frame, ret := m.ret, loopHead := 0 } .result m.body s₀ = .ok (⟨⟩, done) := by
  obtain ⟨_, s₁, h₁, h⟩ := bind_eq_ok h
  obtain ⟨head, s₂, h₂, h⟩ := bind_eq_ok h
  obtain ⟨_, s₃, h₃, h⟩ := bind_eq_ok h
  have hline : s₁.code.code = #[] ∧ s₁.code.labels = #[] ∧ s₁.code.handlers = [] ∧ s₁.pool = s.pool := by
    unfold atLine at h₁
    split at h₁
    · cases h₁
      obtain ⟨hc', hl', hh'⟩ := line_keeps s.code m.line
      exact ⟨hc'.trans hcode, hl'.trans hlabels, hh'.trans hhandlers, rfl⟩
    · cases h₁
      exact ⟨hcode, hlabels, hhandlers, rfl⟩
  obtain ⟨hcode, hlabels, hhandlers, hpool⟩ := hline
  cases h₂
  cases h₃
  have hhead : s₁.code.labels.size = 0 := by rw [hlabels]; rfl
  rw [hhead] at h
  refine ⟨_, ?_, ?_, ?_, ?_, h⟩
  · exact hcode
  · simp [Assembly.mark, hlabels, hcode]
  · exact hhandlers
  · exact hpool

theorem method_eq_ok {c : Context} {obj : Nat} {pool pool' : Pool} {m : FnMethod} {code : Method}
    (h : method c obj pool m = .ok (code, pool')) : ∃ s₀ done : Emission, s₀.code.code = #[] ∧ s₀.code.labels = #[some 0] ∧
      s₀.code.handlers = [] ∧ s₀.pool = pool ∧
      emit { context := c, obj, frame := m.frame, ret := m.ret, loopHead := 0 } .result m.body s₀ = .ok (⟨⟩, done) ∧
      code = (done.code.touchLocal (c.method m.frame).maxSlot).finish ∧ pool' = done.pool := by
  let start : Assembly := { Assembly.start m.name m.params.length m.rest.isSome with
    params := m.params.map fun b => (c.binding b).prim, ret := m.ret }
  change Except.bind (methodBody c obj m { pool, code := start }) (fun r =>
    .ok ((r.2.code.touchLocal (c.method m.frame).maxSlot).finish, r.2.pool)) = .ok (code, pool') at h
  cases hx : methodBody c obj m { pool, code := start } with
  | error e =>
    rw [hx] at h
    cases h
  | ok r =>
    rw [hx] at h
    cases h
    obtain ⟨s₀, hcode, hlabels, hhandlers, hpool, hemit⟩ := methodBody_eq_ok rfl rfl rfl hx
    exact ⟨s₀, r.2, hcode, hlabels, hhandlers, hpool, hemit, rfl, rfl⟩

/-- The code of the body is all the code of a method. -/
theorem laid_method {c : Context} {obj : Nat} {pool pool' : Pool} {m : FnMethod} {code : Method} (h : method c obj pool m = .ok (code, pool')) : ∃ entry,
    Laid { context := c, obj, frame := m.frame, ret := m.ret, loopHead := 0 } .result m.body ⟨code, pool'⟩ entry 0 0 code.code.size code.handlers := by
  obtain ⟨s₀, done, hcode, hlabels, hhandlers, rfl, hemit, rfl, rfl⟩ := method_eq_ok h
  obtain ⟨_, _, entries, hs, _, hh, hlaid⟩ := places_emit _ .result m.body s₀ _ done hemit fun l hl => by cases hl
  have hin : done.In ⟨(done.code.touchLocal (c.method m.frame).maxSlot).finish, done.pool⟩ := by
    refine ⟨fun pc j hj => hj, fun l pc hl => ?_, .refl _⟩
    show (done.code.labels[l]?).join = some pc
    rw [hl]
    rfl
  refine ⟨fun j => (entries[j]?.join).getD 0, ?_⟩
  have hlaid := hlaid _ hin (fun j => (entries[j]?.join).getD 0) 0 fun j e hj => by simp only [Nat.zero_add, hj, Option.join_some, Option.getD_some]
  rw [hhandlers, List.nil_append] at hh
  have hsize : s₀.size = 0 := by rw [Emission.size, hcode]; rfl
  rw [hsize] at hlaid
  subst hh
  exact hlaid

/-- The first label of a method stands in front of its first instruction. -/
theorem head_method {c : Context} {obj : Nat} {pool pool' : Pool} {m : FnMethod} {code : Method} (h : method c obj pool m = .ok (code, pool')) :
    code.labelPc? 0 = some 0 := by
  obtain ⟨s₀, done, _, hlabels, _, rfl, hemit, rfl, rfl⟩ := method_eq_ok h
  obtain ⟨hp, _⟩ := places_emit _ .result m.body s₀ _ done hemit fun l hl => by cases hl
  show (done.code.labels[0]?).join = some 0
  rw [hp.labels 0 0 (by rw [hlabels]; rfl)]
  rfl

/-- A method whose body is fitted is sound. -/
theorem sound_method {good : CompiledUnit → Prop} {c : Context} {obj : Nat} {pool pool' : Pool} {m : FnMethod} {code : Method} {loop : Option (List Nat)}
    (hc : c.Roomy) (hf : Fitted good c ⟨some m.frame, 0, false⟩ loop true m.body) (hu : ∀ u ∈ pool.children, good u)
    (h : method c obj pool m = .ok (code, pool')) :
    pool.In pool' ∧ (∀ u ∈ pool'.children, good u) ∧
      ∀ q, pool'.In q → code.Sound (q.limits (c.object obj).closes.length) := by
  obtain ⟨s₀, done, hcode, hlabels, hhandlers, rfl, hemit, rfl, rfl⟩ := method_eq_ok h
  let b : Bounds := { slots := (c.method m.frame).maxSlot + 1, fields := (c.object obj).closes.length, admits := good }
  have hw : EmitEnv.Within { context := c, obj, frame := m.frame, ret := m.ret, loopHead := 0 } b :=
    ⟨fun x hx => Nat.lt_succ_of_le (hc x m.frame hx), Nat.lt_succ_self _, Nat.le_refl _⟩
  have hhead : ∀ f ∈ [Fact.height 0 (some 0)], f.Holds (fun _ => some 0) s₀ := by
    intro f hf
    rw [List.mem_singleton.1 hf]
    exact ⟨by rw [hlabels]; exact Nat.zero_lt_one, rfl⟩
  obtain ⟨D, H, hs, hend, _, hext⟩ := runs_emit hw .result 0 (fun _ => List.mem_cons_self) (fun _ => rfl) m.body hf s₀ _ done _ _ hemit
    (steady_start hcode hlabels hhandlers hu) hhead (fun _ h => by cases h) (.inr rfl)
  -- the first label still stands in front of the first instruction
  have hfirst : done.code.labels[0]? = some (some 0) := hext.label (fun _ h => by cases h) (by rw [hlabels]; rfl)
  have hheight : H 0 = some 0 := hext.heights 0 (by rw [hlabels]; exact Nat.zero_lt_one)
  refine ⟨hext.pool, hs.units, fun q hq => sound_of_steady hs ⟨rfl, rfl, rfl, fun l hl => ?_⟩ ((hs.labels 0 0 hfirst).2 0 hheight)
    (hend.elim id id) hq (Nat.le_max_right _ _)⟩
  obtain ⟨hlt, _⟩ := hext.bound l hl
  have hzero : l = 0 := by
    rw [hlabels] at hlt
    exact Nat.lt_one_iff.1 hlt
  rw [hzero, hfirst] at hl
  cases hl

/-- The methods of a unit are emitted one after the other into one pool. -/
theorem methods_cons_eq_ok {c : Context} {obj : Nat} {pool pool' : Pool} {m : FnMethod} {ms : List FnMethod} {codes : List Method}
    (h : methods c obj pool (m :: ms) = .ok (codes, pool')) : ∃ code pool₁ rest, method c obj pool m = .ok (code, pool₁) ∧
      methods c obj pool₁ ms = .ok (rest, pool') ∧ codes = code :: rest := by
  rw [methods] at h
  cases h₁ : method c obj pool m with
  | error e =>
    rw [h₁] at h
    cases h
  | ok r =>
    rw [h₁] at h
    change Except.bind (methods c obj r.2 ms) _ = _ at h
    cases h₂ : methods c obj r.2 ms with
    | error e =>
      rw [h₂] at h
      cases h
    | ok r' =>
      rw [h₂] at h
      cases h
      exact ⟨r.1, r.2, r'.1, rfl, h₂, rfl⟩

theorem methods_of_unit {c : Context} {obj : Nat} {kind : UnitKind} {ms : List FnMethod} {u : CompiledUnit} (h : unit c obj kind ms = .ok u) :
    ∃ pool, methods c obj {} ms = .ok (u.methods, pool) := by
  change Except.bind (methods c obj {} ms) _ = _ at h
  cases hm : methods c obj {} ms with
  | error e =>
    rw [hm] at h
    cases h
  | ok r =>
    rw [hm] at h
    cases h
    exact ⟨r.2, rfl⟩

theorem sound_methods {good : CompiledUnit → Prop} {c : Context} {obj : Nat} (hc : c.Roomy) : ∀ {ms : List FnMethod} {pool pool' : Pool} {codes : List Method},
    (∀ m ∈ ms, ∃ loop, Fitted good c ⟨some m.frame, 0, false⟩ loop true m.body) → (∀ u ∈ pool.children, good u) →
    methods c obj pool ms = .ok (codes, pool') →
    pool.In pool' ∧ (∀ u ∈ pool'.children, good u) ∧
      ∀ q, pool'.In q → ∀ m ∈ codes, m.Sound (q.limits (c.object obj).closes.length)
  | [], pool, _, _, _, hu, h => by
    cases h
    exact ⟨.refl pool, hu, fun _ _ m hm => by cases hm⟩
  | m :: ms, pool, pool', codes, hf, hu, h => by
    obtain ⟨code, pool₁, rest, h₁, h₂, rfl⟩ := methods_cons_eq_ok h
    obtain ⟨loop, hm⟩ := hf m List.mem_cons_self
    obtain ⟨hp, hu, hsound⟩ := sound_method hc hm hu h₁
    obtain ⟨hp', hu', hrest⟩ := sound_methods hc (fun m hm => hf m (List.mem_cons_of_mem _ hm)) hu h₂
    refine ⟨hp.trans hp', hu', fun q hq m' hm' => ?_⟩
    rcases List.mem_cons.1 hm' with rfl | hm'
    · exact hsound q (hp'.trans hq)
    · exact hrest q hq m' hm'

/-- The children of a unit whose methods are fitted are as they are in the methods. -/
theorem sound_unit {good : CompiledUnit → Prop} {c : Context} {obj : Nat} {kind : UnitKind} {ms : List FnMethod} {u : CompiledUnit}
    (hc : c.Roomy) (hf : ∀ m ∈ ms, m.Fitted good c) (h : unit c obj kind ms = .ok u) :
    (∀ m ∈ u.methods, m.Sound u.limits) ∧ (∀ v ∈ u.children, good v) ∧ u.closed.length = (c.object obj).closes.length := by
  cases hm : methods c obj {} ms with
  | error e =>
    change Except.bind (methods c obj {} ms) _ = _ at h
    rw [hm] at h
    cases h
  | ok r =>
    change Except.bind (methods c obj {} ms) _ = _ at h
    rw [hm] at h
    cases h
    obtain ⟨_, hu, hsound⟩ := sound_methods hc hf (fun u hu => by cases hu) hm
    refine ⟨fun m hm => ?_, fun u hu' => hu u (List.mem_reverse.1 hu'), List.length_map ..⟩
    have h := hsound r.2 (.refl _) m hm
    rwa [Pool.limits, ← List.length_map] at h

/-- What holds of a unit if its methods are fitted and it holds of the units in it. -/
def Sustained (good : CompiledUnit → Prop) : Prop := ∀ (c : Context) (obj : Nat) (kind : UnitKind) (ms : List FnMethod) (u : CompiledUnit),
  c.Roomy → (∀ m ∈ ms, m.Fitted good c) → unit c obj kind ms = .ok u → good u

/-- **A unit whose methods are fitted is accepted by the checker** if the units in it are accepted. -/
theorem sustained_verify : Sustained fun u => u.verify = .ok () := by
  intro c obj kind ms u hc hf h
  obtain ⟨hmethods, hchildren, _⟩ := sound_unit hc hf h
  exact CompiledUnit.verify_of_sound hmethods hchildren

end Emit

end LispMachine
