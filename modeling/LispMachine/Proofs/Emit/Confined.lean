import LispMachine.Proofs.Emit.Enclosed
/-!
# The code of an operand keeps control

Control enters the code of an expression at its start.  If the value is not the result of the method, control
leaves the code at its end, or by an exception (`confined_laid`).  In a handler the code changes only slots
that are free: what else the method keeps in its slots is still there behind it.
-/
namespace LispMachine

/-- The label stands between two places. -/
def Method.Inside (m : Method) (lo hi : Nat) (l : Label) : Prop := ∀ pc, m.labelPc? l = some pc → lo ≤ pc ∧ pc ≤ hi

theorem Method.inside_of_eq {m : Method} {lo hi pc : Nat} {l : Label} (h : m.labelPc? l = some pc) (hlo : lo ≤ pc) (hhi : pc ≤ hi) :
    m.Inside lo hi l := by
  intro pc' h'
  rw [h] at h'
  cases h'
  exact ⟨hlo, hhi⟩

namespace Instr

/-- The instruction keeps control between two places, unless it throws.  In a handler it changes only slots that
are free. -/
structure Stays (m : Method) (lo hi : Nat) (room : Room) (j : Instr) : Prop where
  goesOn : j ≠ .return
  inside : ∀ l ∈ j.targets, m.Inside lo hi l
  spares : room.inHandler = true → ∀ slot, j.written? = some slot → room.floor ≤ slot

/-- The instruction leaves the slots alone and goes on to the next one. -/
structure Plain (j : Instr) : Prop where
  goesOn : j ≠ .return
  targets : j.targets = []
  written : j.written? = none

variable {m : Method} {lo hi : Nat} {room : Room} {j : Instr}

theorem Plain.stays (h : j.Plain) : j.Stays m lo hi room :=
  ⟨h.goesOn, fun l hl => (by rw [h.targets] at hl; cases hl), fun _ slot hs => (by rw [h.written] at hs; cases hs)⟩

theorem stays_store {slot : Nat} (h : room.inHandler = true → room.floor ≤ slot) : (Instr.store slot).Stays m lo hi room :=
  ⟨Instr.noConfusion, fun _ hl => (by cases hl), fun hh _ hs => (by cases hs; exact h hh)⟩

/-- An instruction with one label. -/
theorem stays_jumping {l : Label} (hj : j ≠ .return) (ht : j.targets = [l]) (hw : j.written? = none) (hl : m.Inside lo hi l) :
    j.Stays m lo hi room := by
  refine ⟨hj, fun l' hl' => ?_, fun _ slot hs => ?_⟩
  · rw [ht, List.mem_singleton] at hl'
    exact hl' ▸ hl
  · rw [hw] at hs
    cases hs

end Instr

namespace Emit

open LispMachine.Expr (Fitted FittedOption FittedAll FittedPairs FittedSeq FittedBindings FittedHandlers FittedBuckets FittedEntries)

section

variable {i : Image} {env : EmitEnv} {room : Room} {lo hi : Nat} {dest : Dest}

/-! ## Straight code -/

theorem plain_box (kind : Option Prim) : ∀ j ∈ boxCode kind, j.Plain := by
  intro j hj
  cases kind with
  | none => cases hj
  | some p =>
    cases List.mem_singleton.1 hj
    exact ⟨Instr.noConfusion, rfl, rfl⟩

theorem plain_unbox (kind : Option Prim) (p : Prim) : ∀ j ∈ unboxCode kind p, j.Plain := by
  intro j hj
  unfold unboxCode at hj
  split at hj
  · split at hj
    · cases hj
    · cases List.mem_singleton.1 hj
      exact ⟨Instr.noConfusion, rfl, rfl⟩
  · cases List.mem_singleton.1 hj
    exact ⟨Instr.noConfusion, rfl, rfl⟩

theorem plain_settle (env : EmitEnv) (hd : dest ≠ .result) (kind : Option Prim) : ∀ j ∈ settleCode env dest kind, j.Plain := by
  intro j hj
  cases dest with
  | statement =>
    rcases List.mem_append.1 hj with hj | hj
    · exact plain_box kind j hj
    · cases List.mem_singleton.1 hj
      exact ⟨Instr.noConfusion, rfl, rfl⟩
  | boxed => exact plain_box kind j hj
  | unboxed p => exact plain_unbox kind p j hj
  | result => exact absurd rfl hd

/-- A local that lasts is not cleared in a handler. -/
theorem stays_local {r : LocalRef} {j : Instr} {m : Method} (hm : room.method = some env.frame)
    (hr : env.context.Lasts room r.binding) (hj : localInstr? env r = some j) : j.Stays m lo hi room := by
  unfold localInstr? at hj
  dsimp only at hj
  split at hj
  · rename_i hown
    cases hj
    split
    · exact Instr.Plain.stays ⟨Instr.noConfusion, rfl, rfl⟩
    · split
      · rename_i hclear
        refine ⟨Instr.noConfusion, fun _ hl => (by cases hl), fun hh => ?_⟩
        simp [hr.used hh _ hm (eq_of_beq hown)] at hclear
      · exact Instr.Plain.stays ⟨Instr.noConfusion, rfl, rfl⟩
  · obtain ⟨n, _, rfl⟩ := Option.map_eq_some_iff.1 hj
    split <;> exact Instr.Plain.stays ⟨Instr.noConfusion, rfl, rfl⟩

theorem stays_locals {rs : List LocalRef} {m : Method} (hm : room.method = some env.frame)
    (hr : ∀ r ∈ rs, env.context.Lasts room r.binding) : ∀ j ∈ localCode env rs, j.Stays m lo hi room := by
  intro j hj
  obtain ⟨r, hmem, hj⟩ := List.mem_filterMap.1 hj
  exact stays_local hm (hr r hmem) hj

theorem plain_linkOne (env : EmitEnv) (bindings : List (Nat × Expr)) (binding : Nat) (captures : List (LocalRef × Nat)) :
    ∀ j ∈ linkOne env bindings binding captures, j.Plain := by
  intro j hj
  obtain ⟨c, _, hj⟩ := List.mem_flatMap.1 hj
  dsimp only at hj
  split at hj
  · simp only [List.mem_cons, List.not_mem_nil, or_false] at hj
    rcases hj with rfl | rfl | rfl <;> exact ⟨Instr.noConfusion, rfl, rfl⟩
  · cases hj

theorem plain_link (env : EmitEnv) (bindings : List (Nat × Expr)) : ∀ bs : List (Nat × Expr), ∀ j ∈ linkCode env bindings bs, j.Plain := by
  intro bs
  induction bs with
  | nil => exact fun j hj => by cases hj
  | cons b bs ih =>
    intro j hj
    unfold linkCode at hj
    split at hj
    · cases hj
    · rename_i he
      cases he
      rcases List.mem_append.1 hj with hj | hj
      · exact plain_linkOne env bindings _ _ j hj
      · exact ih j hj
    · rename_i he
      cases he
      exact ih j hj

theorem stays_empty {bindings : List (Nat × Expr)} {m : Method} (h : ∀ b ∈ bindings, room.floor ≤ slotOf env b.1) :
    ∀ j ∈ emptyCode env bindings, j.Stays m lo hi room := by
  intro j hj
  obtain ⟨b, hb, hj⟩ := List.mem_flatMap.1 hj
  simp only [List.mem_cons, List.not_mem_nil, or_false] at hj
  rcases hj with rfl | rfl
  · exact Instr.Plain.stays ⟨Instr.noConfusion, rfl, rfl⟩
  · exact Instr.stays_store fun _ => h b hb

theorem stays_key {plan : CasePlan} {temp : Nat} {missed : Label} {m : Method} (hm : m.Inside lo hi missed) (entry : Nat → Nat) :
    ∀ j ∈ keyCode plan temp missed entry, j.Stays m lo hi room := by
  intro j hj
  unfold keyCode at hj
  rcases List.mem_append.1 hj with hj | hj
  · split at hj <;> simp only [List.mem_cons, List.not_mem_nil, or_false] at hj
    · rcases hj with rfl | rfl | rfl | rfl | rfl
      any_goals exact Instr.Plain.stays ⟨Instr.noConfusion, rfl, rfl⟩
      exact Instr.stays_jumping Instr.noConfusion rfl rfl hm
    all_goals rcases hj with rfl | rfl <;> exact Instr.Plain.stays ⟨Instr.noConfusion, rfl, rfl⟩
  · split at hj
    · cases List.mem_singleton.1 hj
      exact Instr.Plain.stays ⟨Instr.noConfusion, rfl, rfl⟩
    · cases hj

theorem stays_switch {plan : CasePlan} {keys : List (Int32 × Label)} {missed : Label} {m : Method} (hm : m.Inside lo hi missed)
    (hk : ∀ l ∈ keys.map (·.2), m.Inside lo hi l) : (switchOver plan keys missed).Stays m lo hi room := by
  refine ⟨?_, fun l hl => (mem_targets_switchOver hl).elim (fun h => h ▸ hm) (hk l), fun _ slot hs => ?_⟩
  · unfold switchOver
    split <;> exact Instr.noConfusion
  · unfold switchOver at hs
    split at hs <;> cases hs

/-! ## Confined regions -/

/-- The region is in one piece, and its instructions keep control between the two places if it stands between
them. -/
structure Region.Confined (i : Image) (room : Room) (lo hi : Nat) (A : Region) : Prop where
  framed : A.Framed false
  stays : ∀ ⦃e : Nat → Nat⦄ ⦃k pc pc' : Nat⦄ ⦃hs : List Handler⦄, A i e k pc pc' hs → lo ≤ pc → pc' ≤ hi →
    i.Each (Instr.Stays i.method lo hi room) pc pc'

variable {A B : Region} {n : Nat} {ns : List Need} {js : (Nat → Nat) → List Instr}

open Region

theorem confined_code (h : ∀ entry, ∀ j ∈ js entry, j.Stays i.method lo hi room) : (code ns js).Confined i room lo hi := by
  refine ⟨framed_code _ _ _, ?_⟩
  rintro e k pc pc' hs ⟨_, hspans, rfl⟩ _ _
  exact hspans.each (h _)

theorem confined_seq (hA : A.Confined i room lo hi) (hB : B.Confined i room lo hi) : (seq n A B).Confined i room lo hi := by
  refine ⟨framed_seq hA.framed hB.framed, ?_⟩
  rintro e k pc pc' hs ⟨p, _, _, rfl, ha, hb⟩ hlo hhi
  have hle := hA.framed.le ha
  have hle' := hB.framed.le hb
  exact (hA.stays ha hlo (Nat.le_trans hle' hhi)).append (hB.stays hb (Nat.le_trans hlo hle) hhi)

theorem confined_given {P : Prop} (hA : A.Confined i room lo hi) : (given P A).Confined i room lo hi :=
  ⟨framed_given hA.framed, fun _ _ _ _ _ h => hA.stays h.2⟩

theorem confined_here (l : Label) : (here l).Confined i room lo hi := by
  refine ⟨framed_here l false, ?_⟩
  rintro e k pc pc' hs ⟨_, rfl, rfl⟩ _ _
  exact i.each_empty _ _

theorem confined_exit {leaves : Bool} {stop : Label} (h : i.method.Inside lo hi stop) : (exit dest leaves stop).Confined i room lo hi := by
  refine ⟨framed_exit _ _ _ false, ?_⟩
  rintro e k pc pc' hs ⟨rfl, ⟨hj, rfl⟩ | ⟨rfl, _⟩⟩ _ _
  · intro q hq hq'
    cases Nat.le_antisymm (Nat.le_of_lt_succ hq') hq
    exact ⟨_, hj, Instr.stays_jumping Instr.noConfusion rfl rfl h⟩
  · exact i.each_empty _ _

/-- An inert value. -/
theorem confined_inert (hd : dest ≠ .result) {kind : Option Prim} {push : (Nat → Nat) → List Instr}
    (h : ∀ entry, ∀ j ∈ push entry, j.Stays i.method lo hi room) :
    (code ns fun entry => inertCode env dest kind (push entry)).Confined i room lo hi := by
  refine confined_code fun entry j hj => ?_
  unfold inertCode at hj
  split at hj
  · cases hj
  · rcases List.mem_append.1 hj with hj | hj
    · exact h entry j hj
    · exact (plain_settle env hd kind j hj).stays

/-- Instructions before the value is taken to its destination. -/
theorem confined_settle (hd : dest ≠ .result) {kind : Option Prim} (h : ∀ entry, ∀ j ∈ js entry, j.Stays i.method lo hi room) :
    (code ns fun entry => js entry ++ settleCode env dest kind).Confined i room lo hi := by
  refine confined_code fun entry j hj => ?_
  rcases List.mem_append.1 hj with hj | hj
  · exact h entry j hj
  · exact (plain_settle env hd kind j hj).stays

/-- One instruction before the value is taken to its destination. -/
theorem confined_op (hd : dest ≠ .result) {kind : Option Prim} {op : (Nat → Nat) → Instr} (h : ∀ entry, (op entry).Plain) :
    (code ns fun entry => op entry :: settleCode env dest kind).Confined i room lo hi := by
  refine confined_code fun entry j hj => ?_
  rcases List.mem_cons.1 hj with rfl | hj
  · exact (h entry).stays
  · exact (plain_settle env hd kind j hj).stays

end

/-! ## The code of expressions -/

/-- What a `recur` at the end of the expression needs: the slots of the loop are free, and its start is inside. -/
def Rebinds (i : Image) (lo hi : Nat) (env : EmitEnv) (room : Room) (loop : Option (List Nat)) : Prop :=
  ∀ ts, loop = some ts → (∀ t ∈ ts, room.floor ≤ slotOf env t) ∧ i.method.Inside lo hi env.loopHead

section

variable {good : CompiledUnit → Prop} {i : Image} {lo hi : Nat} {env : EmitEnv} {room : Room} {loop : Option (List Nat)} {dest : Dest}

theorem rebinds_none : Rebinds i lo hi env room none := fun _ h => by cases h

theorem floor_le_bindings {bs : List (Nat × Expr)} (h : FittedBindings good env.context room bs) : ∀ b ∈ bs, room.floor ≤ slotOf env b.1 :=
  fun b hb => ((Expr.fittedBindings_iff bs).1 h b hb).1.free

/-- One instruction that pushes an inert value. -/
theorem confined_push {ns : List Need} (hd : dest ≠ .result) {kind : Option Prim} {op : (Nat → Nat) → Instr} (h : ∀ entry, (op entry).Plain) :
    (Region.code ns fun entry => inertCode env dest kind [op entry]).Confined i room lo hi :=
  confined_inert hd fun entry _ hj => List.mem_singleton.1 hj ▸ (h entry).stays

theorem ofPrim_ne_result (kind : Option Prim) : Dest.ofPrim kind ≠ .result := by cases kind <;> exact Dest.noConfusion

theorem testDest_ne_result (test : Expr) : testDest test ≠ .result := by
  unfold testDest
  split <;> exact Dest.noConfusion

theorem targetDest_ne_result (env : EmitEnv) (target : AssignTarget) : targetDest env target ≠ .result := by
  cases target with
  | var v => exact Dest.noConfusion
  | field b => exact ofPrim_ne_result _

theorem stays_testJump {test : Expr} {otherwise : Label} (h : i.method.Inside lo hi otherwise) :
    (testJump test otherwise).Stays i.method lo hi room := by
  unfold testJump
  split <;> exact Instr.stays_jumping Instr.noConfusion rfl rfl h

theorem stays_test {test : CaseTest} {next : Label} (h : i.method.Inside lo hi next) : (testInstr test next).Stays i.method lo hi room := by
  unfold testInstr
  split <;> exact Instr.stays_jumping Instr.noConfusion rfl rfl h

theorem plain_assign (env : EmitEnv) (target : AssignTarget) (entry : Nat → Nat) :
    ∀ j ∈ (assignCode? env target).elim [] (· entry), j.Plain := by
  intro j hj
  cases target with
  | var v =>
    cases List.mem_singleton.1 hj
    exact ⟨Instr.noConfusion, rfl, rfl⟩
  | field b =>
    cases hf : (env.context.object env.obj).fieldIndex? b with
    | none =>
      simp only [assignCode?, hf, Option.map_none, Option.elim_none] at hj
      cases hj
    | some n =>
      simp only [assignCode?, hf, Option.map_some, Option.elim_some] at hj
      rcases List.mem_append.1 hj with hj | hj
      · simp only [List.mem_cons, List.not_mem_nil, or_false] at hj
        rcases hj with rfl | rfl <;> exact ⟨Instr.noConfusion, rfl, rfl⟩
      · exact plain_box _ j hj

theorem stays_rebind {targets : List Nat} (hl : Rebinds i lo hi env room (some targets)) :
    ∀ j ∈ rebindCode env targets ++ [.jump env.loopHead], j.Stays i.method lo hi room := by
  obtain ⟨hslots, hhead⟩ := hl targets rfl
  intro j hj
  rcases List.mem_append.1 hj with hj | hj
  · obtain ⟨t, ht, rfl⟩ := List.mem_map.1 hj
    exact Instr.stays_store fun _ => hslots t (List.mem_reverse.1 ht)
  · cases List.mem_singleton.1 hj
    exact Instr.stays_jumping Instr.noConfusion rfl rfl hhead

/-- The labels of the buckets stand in front of them. -/
theorem inside_buckets {top : Bool} {test : CaseTest} {slot : Nat} {missed stop : Label} {e : Nat → Nat} :
    ∀ {labels : List Label} {bs : List (Int32 × List (Form × Expr))} {k pc pc' : Nat} {hs : List Handler},
      FittedBuckets good env.context room loop top bs → labels.length = bs.length →
      LaidBuckets env dest test slot missed stop labels bs i e k pc pc' hs → lo ≤ pc → pc' ≤ hi → ∀ l ∈ labels, i.method.Inside lo hi l
  | [], _, _, _, _, _, _, _, _, _, _, _, hl => by cases hl
  | label :: labels, (key, entries) :: bs, k, pc, pc', hs, hf, hn, h, hlo, hhi, l, hl => by
    have hframed := framed_laidBuckets dest test slot missed stop (label :: labels) ((key, entries) :: bs) hf
    have hle := hframed.le h
    rw [LaidBuckets] at h
    obtain ⟨_, _, _, rfl, ⟨hlabel, rfl, rfl⟩, p, _, _, rfl, hentries, h⟩ := h
    rcases List.mem_cons.1 hl with rfl | hl
    · exact Method.inside_of_eq hlabel hlo (Nat.le_trans hle hhi)
    · have hp := (framed_laidEntries dest test slot missed stop entries hf.1).le hentries
      exact inside_buckets hf.2 (Nat.succ.inj hn) h (Nat.le_trans hlo hp) hhi l hl

end

mutual

/-- **The code of a value that is not the result keeps control**, and in a handler it spares the slots that are
taken. -/
theorem confined_laid {good : CompiledUnit → Prop} {i : Image} {lo hi : Nat} {env : EmitEnv} {room : Room} {loop : Option (List Nat)}
    {dest : Dest} (hm : room.method = some env.frame) (hl : Rebinds i lo hi env room loop) (hd : dest ≠ .result) : ∀ e : Expr,
    Fitted good env.context room loop false e → (Laid env dest e).Confined i room lo hi
  | .nil, _ | .long _, _ | .double _, _ | .const _, _ | .type _, _ => by
    rw [Laid]
    exact confined_push hd fun _ => ⟨Instr.noConfusion, rfl, rfl⟩
  | .bool v, _ => by
    rw [Laid]
    split
    · exact confined_code fun _ j hj => List.mem_singleton.1 hj ▸ Instr.Plain.stays ⟨Instr.noConfusion, rfl, rfl⟩
    · refine confined_inert hd fun _ j hj => ?_
      simp only [List.mem_cons, List.not_mem_nil, or_false] at hj
      rcases hj with rfl | rfl <;> exact Instr.Plain.stays ⟨Instr.noConfusion, rfl, rfl⟩
  | .local r, hf => by
    rw [Laid]
    refine confined_given (confined_inert hd fun _ => stays_locals hm fun r' hr => ?_)
    cases List.mem_singleton.1 hr
    exact hf
  | .var _, _ | .theVar _, _ | .staticField _ _, _ | .deftype _ _, _ => by
    rw [Laid]
    exact confined_op hd fun _ => ⟨Instr.noConfusion, rfl, rfl⟩
  | .vector items, hf | .set items, hf => by
    rw [Laid]
    exact confined_seq (confined_laidArgs hm items hf) (confined_op hd fun _ => ⟨Instr.noConfusion, rfl, rfl⟩)
  | .map pairs, hf => by
    rw [Laid]
    exact confined_seq (confined_laidPairs hm pairs hf) (confined_op hd fun _ => ⟨Instr.noConfusion, rfl, rfl⟩)
  | .define _ init _, hf => by
    rw [Laid]
    exact confined_seq (confined_laidOption hm Dest.noConfusion init hf) (confined_op hd fun _ => ⟨Instr.noConfusion, rfl, rfl⟩)
  | .assign target value, hf => by
    rw [Laid]
    refine confined_seq (confined_laid hm rebinds_none (targetDest_ne_result env target) value hf) (confined_given ?_)
    exact confined_settle hd fun entry j hj => (plain_assign env target entry j hj).stays
  | .cond test yes no line, hf => by
    refine ⟨framed_laid dest _ hf, fun e k pc pc' hs h hlo hhi => ?_⟩
    rw [Laid] at h
    obtain ⟨otherwise, stop, p, _, _, rfl, htest, h⟩ := h
    obtain ⟨_, _, _, rfl, hjump, q, _, _, rfl, hyes, h⟩ := h
    obtain ⟨r, _, _, rfl, hexit, _, _, _, rfl, ⟨hotherwise, rfl, rfl⟩, h⟩ := h
    obtain ⟨_, _, _, rfl, hno, hstop, rfl, rfl⟩ := h
    have hp := (framed_laid (testDest test) test hf.1).le htest
    have hp' := (framed_code _ _ false).le hjump
    have hq := (framed_laid dest yes hf.2.1).le hyes
    have hr := (framed_exit dest yes.leaves stop false).le hexit
    have hn := (framed_laid dest no hf.2.2).le hno
    have ho : i.method.Inside lo hi otherwise := Method.inside_of_eq hotherwise (by omega) (by omega)
    have hs : i.method.Inside lo hi stop := Method.inside_of_eq hstop (by omega) (by omega)
    refine ((confined_laid hm rebinds_none (testDest_ne_result test) test hf.1).stays htest hlo (by omega)).append ?_
    refine ((confined_code fun _ j hj => List.mem_singleton.1 hj ▸ stays_testJump ho).stays hjump (by omega) (by omega)).append ?_
    refine ((confined_laid hm hl hd yes hf.2.1).stays hyes (by omega) (by omega)).append ?_
    refine ((confined_exit hs).stays hexit (by omega) (by omega)).append ?_
    exact (confined_laid hm hl hd no hf.2.2).stays hno (by omega) (by omega)
  | .seq body, hf => by
    rw [Laid]
    exact confined_laidSeq hm hl hd body hf
  | .bind isLoop bindings body, hf => by
    have hbindings : (LaidBindings env (primOf env) bindings).Confined i room lo hi := confined_laidBindings hm _ bindings hf.1
    refine ⟨framed_laid dest _ hf, fun e k pc pc' hs h hlo hhi => ?_⟩
    rw [Laid] at h
    obtain ⟨p, _, _, rfl, hb, h⟩ := h
    have hp := hbindings.framed.le hb
    cases isLoop with
    | false =>
      have hn := (framed_laid dest body hf.2).le h
      exact (hbindings.stays hb hlo (by omega)).append ((confined_laid hm hl hd body hf.2).stays h (by omega) hhi)
    | true =>
      obtain ⟨head, _, _, _, rfl, ⟨hhead, rfl, rfl⟩, h⟩ := h
      have hframed : (Laid { env with loopHead := head } dest body).Framed false := framed_laid dest body hf.2
      have hn := hframed.le h
      have hloop : Rebinds i lo hi { env with loopHead := head } room (some (bindings.map (·.1))) := by
        intro ts hts
        cases hts
        refine ⟨fun t ht => ?_, Method.inside_of_eq hhead (by omega) (by omega)⟩
        obtain ⟨b, hb', rfl⟩ := List.mem_map.1 ht
        exact floor_le_bindings hf.1 b hb'
      have hbody := @confined_laid good i lo hi { env with loopHead := head } room _ dest hm hloop hd body hf.2
      exact (hbindings.stays hb hlo (by omega)).append (hbody.stays h (by omega) hhi)
  | .bindFns bindings body, hf => by
    rw [Laid]
    refine confined_seq (confined_code fun _ => stays_empty (floor_le_bindings hf.1)) ?_
    refine confined_seq (confined_laidBindings hm _ bindings hf.1) (confined_seq ?_ (confined_laid hm hl hd body hf.2))
    exact confined_code fun _ j hj => (plain_link env bindings bindings j hj).stays
  | .recur targets args _, hf => by
    obtain ⟨rfl, _, _, hargs⟩ := hf
    rw [Laid]
    exact confined_seq (confined_laidArgs hm args hargs) (confined_code fun _ => stays_rebind hl)
  | .fn unit captures _, hf => by
    rw [Laid]
    refine confined_given (confined_code fun entry j hj => ?_)
    rcases List.mem_append.1 hj with hj | hj
    · exact stays_locals hm hf.2.2 j hj
    · rcases List.mem_cons.1 hj with rfl | hj
      · exact Instr.Plain.stays ⟨Instr.noConfusion, rfl, rfl⟩
      · exact (plain_settle env hd none j hj).stays
  | .reify _ unit captures _, hf => by
    rw [Laid]
    refine confined_given (confined_code fun entry j hj => ?_)
    rcases List.mem_append.1 hj with hj | hj
    · exact stays_locals hm hf.2 j hj
    · rcases List.mem_cons.1 hj with rfl | hj
      · exact Instr.Plain.stays ⟨Instr.noConfusion, rfl, rfl⟩
      · exact (plain_settle env hd none j hj).stays
  | .invoke f args _ tail, hf => by
    obtain ⟨htail, hfun, hargs⟩ := hf
    cases tail with
    | true => cases htail rfl
    | false =>
      rw [Laid]
      refine confined_seq (confined_laid hm rebinds_none Dest.noConfusion f hfun) (confined_seq (confined_laidArgs hm args hargs) ?_)
      exact confined_op hd fun _ => ⟨Instr.noConfusion, rfl, rfl⟩
  | .keywordInvoke _ value _, hf | .instanceOf _ value, hf => by
    rw [Laid]
    exact confined_seq (confined_laid hm rebinds_none Dest.noConfusion value hf) (confined_op hd fun _ => ⟨Instr.noConfusion, rfl, rfl⟩)
  | .throw value, hf => by
    rw [Laid]
    refine confined_seq (confined_laid hm rebinds_none Dest.noConfusion value hf) (confined_code fun _ j hj => ?_)
    cases List.mem_singleton.1 hj
    exact Instr.Plain.stays ⟨Instr.noConfusion, rfl, rfl⟩
  | .protocolInvoke _ args _, hf => by
    rw [Laid]
    exact confined_seq (confined_laidArgs hm args hf) (confined_op hd fun _ => ⟨Instr.noConfusion, rfl, rfl⟩)
  | .staticCall _ _ member args _, hf => by
    rw [Laid]
    refine confined_seq (confined_laidArgs hm args hf) (confined_op hd fun _ => ?_)
    cases member <;> exact ⟨Instr.noConfusion, rfl, rfl⟩
  | .methodCall target _ member args _, hf => by
    rw [Laid]
    refine confined_seq (confined_laid hm rebinds_none Dest.noConfusion target hf.1) (confined_seq (confined_laidArgs hm args hf.2) ?_)
    refine confined_op hd fun _ => ?_
    cases member <;> exact ⟨Instr.noConfusion, rfl, rfl⟩
  | .fieldGet value _ field _, hf => by
    rw [Laid]
    refine confined_seq (confined_laid hm rebinds_none Dest.noConfusion value hf) (confined_op hd fun _ => ?_)
    cases field <;> exact ⟨Instr.noConfusion, rfl, rfl⟩
  | .construct _ member declared args _, hf => by
    rw [Laid]
    refine confined_seq (confined_laidArgs hm args hf) (confined_op hd fun _ => ?_)
    cases declared <;> cases member <;> exact ⟨Instr.noConfusion, rfl, rfl⟩
  | .attempt .., hf => by cases hf.1
  | .case value temp plan buckets otherwise line, hf => by
    obtain ⟨hvalue, ho, hbuckets, helse⟩ := hf
    refine ⟨framed_laid dest _ ⟨hvalue, ho, hbuckets, helse⟩, fun e k pc pc' hs h hlo hhi => ?_⟩
    rw [Laid] at h
    obtain ⟨missed, stop, p, _, _, rfl, hval, h⟩ := h
    obtain ⟨q, _, _, rfl, hkey, labels, hlen, h⟩ := h
    obtain ⟨r, _, _, rfl, hswitch, z, _, _, rfl, hb, h⟩ := h
    obtain ⟨_, _, _, rfl, ⟨hmissed, rfl, rfl⟩, _, _, _, rfl, hother, hstop, rfl, rfl⟩ := h
    have hp := (framed_laid .boxed value hvalue).le hval
    have hq := (framed_code _ _ false).le hkey
    have hr := (framed_code _ _ false).le hswitch
    have hz := (framed_laidBuckets dest plan.test _ missed stop labels buckets hbuckets).le hb
    have hn := (framed_laid dest otherwise helse).le hother
    have hm' : i.method.Inside lo hi missed := Method.inside_of_eq hmissed (by omega) (by omega)
    have hs : i.method.Inside lo hi stop := Method.inside_of_eq hstop (by omega) (by omega)
    have hlabels : ∀ l ∈ labels, i.method.Inside lo hi l := inside_buckets hbuckets hlen hb (by omega) (by omega)
    refine ((confined_laid hm rebinds_none Dest.noConfusion value hvalue).stays hval hlo (by omega)).append ?_
    refine ((confined_code fun entry j hj => ?_).stays hkey (by omega) (by omega)).append ?_
    · rcases List.mem_cons.1 hj with rfl | hj
      · exact Instr.stays_store fun _ => ho.free
      · exact stays_key hm' entry j hj
    refine ((confined_code fun _ j hj => ?_).stays hswitch (by omega) (by omega)).append ?_
    · cases List.mem_singleton.1 hj
      refine stays_switch hm' fun l hl => ?_
      obtain ⟨⟨_, l'⟩, hz, rfl⟩ := List.mem_map.1 hl
      exact hlabels l' (List.of_mem_zip hz).2
    refine ((confined_laidBuckets hm hl hd plan.test hm' hs labels buckets hbuckets).stays hb (by omega) (by omega)).append ?_
    exact (confined_laid hm hl hd otherwise helse).stays hother (by omega) (by omega)

theorem confined_laidOption {good : CompiledUnit → Prop} {i : Image} {lo hi : Nat} {env : EmitEnv} {room : Room} {dest : Dest}
    (hm : room.method = some env.frame) (hd : dest ≠ .result) : ∀ o : Option Expr,
    FittedOption good env.context room o → (LaidOption env dest o).Confined i room lo hi
  | none, _ => by
    rw [LaidOption]
    exact confined_code fun _ _ h => by cases h
  | some e, hf => by
    rw [LaidOption]
    exact confined_laid hm rebinds_none hd e hf

theorem confined_laidArgs {good : CompiledUnit → Prop} {i : Image} {lo hi : Nat} {env : EmitEnv} {room : Room}
    (hm : room.method = some env.frame) {prims : List (Option Prim)} : ∀ es : List Expr,
    FittedAll good env.context room es → (LaidArgs env prims es).Confined i room lo hi
  | [], _ => by
    rw [LaidArgs]
    exact confined_code fun _ _ h => by cases h
  | e :: es, hf => by
    rw [LaidArgs]
    exact confined_seq (confined_laid hm rebinds_none (ofPrim_ne_result _) e hf.1) (confined_laidArgs hm es hf.2)

theorem confined_laidPairs {good : CompiledUnit → Prop} {i : Image} {lo hi : Nat} {env : EmitEnv} {room : Room}
    (hm : room.method = some env.frame) : ∀ ps : List (Expr × Expr),
    FittedPairs good env.context room ps → (LaidPairs env ps).Confined i room lo hi
  | [], _ => by
    rw [LaidPairs]
    exact confined_code fun _ _ h => by cases h
  | (k, v) :: ps, hf => by
    rw [LaidPairs]
    refine confined_seq (confined_laid hm rebinds_none Dest.noConfusion k hf.1) ?_
    exact confined_seq (confined_laid hm rebinds_none Dest.noConfusion v hf.2.1) (confined_laidPairs hm ps hf.2.2)

theorem confined_laidSeq {good : CompiledUnit → Prop} {i : Image} {lo hi : Nat} {env : EmitEnv} {room : Room} {loop : Option (List Nat)}
    {dest : Dest} (hm : room.method = some env.frame) (hl : Rebinds i lo hi env room loop) (hd : dest ≠ .result) : ∀ es : List Expr,
    FittedSeq good env.context room loop false es → (LaidSeq env dest es).Confined i room lo hi
  | [], _ => by
    rw [LaidSeq]
    exact confined_push hd fun _ => ⟨Instr.noConfusion, rfl, rfl⟩
  | [e], hf => by
    rw [LaidSeq]
    exact confined_laid hm hl hd e hf
  | e :: e' :: es, hf => by
    rw [LaidSeq]
    · exact confined_seq (confined_laid hm rebinds_none Dest.noConfusion e hf.1) (confined_laidSeq hm hl hd (e' :: es) hf.2)
    · exact List.cons_ne_nil e' es

theorem confined_laidBindings {good : CompiledUnit → Prop} {i : Image} {lo hi : Nat} {env : EmitEnv} {room : Room}
    (hm : room.method = some env.frame) (kinds : Nat → Option Prim) : ∀ bs : List (Nat × Expr),
    FittedBindings good env.context room bs → (LaidBindings env kinds bs).Confined i room lo hi
  | [], _ => by
    rw [LaidBindings]
    exact confined_code fun _ _ h => by cases h
  | (b, init) :: bs, hf => by
    rw [LaidBindings]
    refine confined_seq (confined_laid hm rebinds_none (ofPrim_ne_result _) init hf.2.1) ?_
    refine confined_seq (confined_code fun _ j hj => ?_) (confined_laidBindings hm kinds bs hf.2.2)
    cases List.mem_singleton.1 hj
    exact Instr.stays_store fun _ => hf.1.free

theorem confined_laidBuckets {good : CompiledUnit → Prop} {i : Image} {lo hi : Nat} {env : EmitEnv} {room : Room} {loop : Option (List Nat)}
    {dest : Dest} (hm : room.method = some env.frame) (hl : Rebinds i lo hi env room loop) (hd : dest ≠ .result) (test : CaseTest)
    {slot : Nat} {missed stop : Label} (hmissed : i.method.Inside lo hi missed) (hstop : i.method.Inside lo hi stop) :
    ∀ (labels : List Label) (bs : List (Int32 × List (Form × Expr))), FittedBuckets good env.context room loop false bs →
      (LaidBuckets env dest test slot missed stop labels bs).Confined i room lo hi
  | _, [], _ => by
    rw [LaidBuckets]
    exact confined_code fun _ _ h => by cases h
  | labels, (_, entries) :: bs, hf => by
    rw [LaidBuckets]
    refine confined_seq (confined_here _) (confined_seq (confined_laidEntries hm hl hd test hmissed hstop entries hf.1) ?_)
    exact confined_laidBuckets hm hl hd test hmissed hstop labels.tail bs hf.2

theorem confined_laidEntries {good : CompiledUnit → Prop} {i : Image} {lo hi : Nat} {env : EmitEnv} {room : Room} {loop : Option (List Nat)}
    {dest : Dest} (hm : room.method = some env.frame) (hl : Rebinds i lo hi env room loop) (hd : dest ≠ .result) (test : CaseTest)
    {slot : Nat} {missed stop : Label} (hmissed : i.method.Inside lo hi missed) (hstop : i.method.Inside lo hi stop) :
    ∀ es : List (Form × Expr), FittedEntries good env.context room loop false es →
      (LaidEntries env dest test slot missed stop es).Confined i room lo hi
  | [], _ => by
    rw [LaidEntries]
    exact confined_code fun _ _ h => by cases h
  | (constant, value) :: es, hf => by
    have hrest : (LaidEntries env dest test slot missed stop es).Confined i room lo hi :=
      confined_laidEntries hm hl hd test hmissed hstop es hf.2
    refine ⟨framed_laidEntries dest test slot missed stop _ hf, fun e k pc pc' hs h hlo hhi => ?_⟩
    rw [LaidEntries] at h
    obtain ⟨next, hnext, p, _, _, rfl, htest, h⟩ := h
    obtain ⟨q, _, _, rfl, hvalue, r, _, _, rfl, hexit, h⟩ := h
    obtain ⟨z, _, _, rfl, hhere, h⟩ := h
    have hp := (framed_code _ _ false).le htest
    have hq := (framed_laid dest value hf.1).le hvalue
    have hr := (framed_exit dest value.leaves stop false).le hexit
    have hz := hrest.framed.le h
    -- the test leads to the next entry, or to the default
    have hnext' : z = r ∧ i.method.Inside lo hi next := by
      cases es with
      | nil =>
        cases hnext rfl
        exact ⟨hhere.2.1, hmissed⟩
      | cons e' es => exact ⟨hhere.2.1, Method.inside_of_eq hhere.1 (by omega) (by have := hhere.2.1; omega)⟩
    obtain ⟨rfl, hinside⟩ := hnext'
    refine ((confined_code fun entry j hj => ?_).stays htest hlo (by omega)).append ?_
    · simp only [List.mem_cons, List.not_mem_nil, or_false] at hj
      rcases hj with rfl | rfl | rfl
      · exact Instr.Plain.stays ⟨Instr.noConfusion, rfl, rfl⟩
      · exact Instr.Plain.stays ⟨Instr.noConfusion, rfl, rfl⟩
      · exact stays_test hinside
    refine ((confined_laid hm hl hd value hf.1).stays hvalue (by omega) (by omega)).append ?_
    exact ((confined_exit hstop).stays hexit (by omega) (by omega)).append (hrest.stays h (by omega) hhi)

end

end Emit

end LispMachine
