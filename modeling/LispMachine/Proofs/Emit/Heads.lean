import LispMachine.Proofs.Emit.Enclosed
import LispMachine.Proofs.Emit.Sound
import LispMachine.Proofs.Expr.InPlace
/-!
# Where a `recur` jumps to

A loop starts right behind the stores of its initial values, and a method at its first instruction.  `Expr.GoesBack` says
of the code of an expression that every `recur` in it ends with a jump to the start of its loop.
-/
namespace LispMachine

/-- The code of the expression, with the slots of this context, is what stands between the two places of the method. -/
def Emit.Coded (c : Context) (m : Method) (e : Expr) (pc pc' : Nat) : Prop :=
  ∃ (env : EmitEnv) (dest : Dest) (i : Image) (entry : Nat → Nat) (k : Nat) (hs : List Handler),
    env.context = c ∧ i.method = m ∧ Emit.Laid env dest e i entry k pc pc' hs

def Expr.isLoop : Expr → Bool
  | .bind isLoop _ _ => isLoop
  | _ => false

mutual

/-- The code of the expression stands between two places of the method, and every `recur` in it ends with a jump to the start of
its loop.  The loop that the expression itself ends starts at `head`. -/
inductive Expr.GoesBack (c : Context) (m : Method) : Nat → Expr → Nat → Nat → Prop
  | recur {head pc p q : Nat} {l : Label} {targets : List Nat} {args : List Expr} {line : Nat} :
      Emit.Coded c m (.recur targets args line) pc (q + 1) → Expr.PartsGoBack c m head (Expr.recur targets args line).parts pc p → p ≤ q →
      m.code[q]? = some (.jump l) → m.labelPc? l = some head → Expr.GoesBack c m head (.recur targets args line) pc (q + 1)
  -- where the stores end the loop starts, and the body too
  | loop {head pc p pc' : Nat} {bindings : List (Nat × Expr)} {body : Expr} : Emit.Coded c m (.bind true bindings body) pc pc' →
      Expr.StoresGoBack c m head bindings pc p → Expr.GoesBack c m p body p pc' → Expr.GoesBack c m head (.bind true bindings body) pc pc'
  | node {head pc pc' : Nat} {e : Expr} : Emit.Coded c m e pc pc' → e.isRecur = false → e.isLoop = false →
      Expr.PartsGoBack c m head e.parts pc pc' → Expr.GoesBack c m head e pc pc'

/-- The code of the parts stands in this order, with other code in between. -/
inductive Expr.PartsGoBack (c : Context) (m : Method) : Nat → List (Station × Expr) → Nat → Nat → Prop
  | nil {head pc pc' : Nat} : pc ≤ pc' → Expr.PartsGoBack c m head [] pc pc'
  | cons {head pc p p' pc' : Nat} {part : Station × Expr} {parts : List (Station × Expr)} : pc ≤ p → Expr.GoesBack c m head part.2 p p' →
      Expr.PartsGoBack c m head parts p' pc' → Expr.PartsGoBack c m head (part :: parts) pc pc'

/-- The initial values stand in this order, each with the store into the slot of its local behind it and with no other code
in between. -/
inductive Expr.StoresGoBack (c : Context) (m : Method) : Nat → List (Nat × Expr) → Nat → Nat → Prop
  | nil {head pc : Nat} : Expr.StoresGoBack c m head [] pc pc
  | cons {head pc p pc' b : Nat} {init : Expr} {bindings : List (Nat × Expr)} : Expr.GoesBack c m head init pc p →
      m.code[p]? = some (.store (c.binding b).slot) → Expr.StoresGoBack c m head bindings (p + 1) pc' →
      Expr.StoresGoBack c m head ((b, init) :: bindings) pc pc'

end

namespace Emit

open LispMachine.Expr

variable {c : Context} {m : Method} {env : EmitEnv} {e : Expr} {ps qs : List (Station × Expr)} {A B : Region} {head pc p pc' n : Nat}

theorem PartsGoBack.earlier (hle : pc ≤ p) (h : PartsGoBack c m head ps p pc') : PartsGoBack c m head ps pc pc' := by
  cases h with
  | nil h => exact .nil (Nat.le_trans hle h)
  | cons h hr hs => exact .cons (Nat.le_trans hle h) hr hs

theorem PartsGoBack.append (hq : PartsGoBack c m head qs p pc') : ∀ {ps : List (Station × Expr)} {pc : Nat}, PartsGoBack c m head ps pc p →
    PartsGoBack c m head (ps ++ qs) pc pc'
  | [], _, .nil h => PartsGoBack.earlier h hq
  | _ :: _, _, .cons h hr hs => .cons h hr (PartsGoBack.append hq hs)

/-- The code of the region is that of the parts, with other code in between. -/
def Region.Covers (c : Context) (m : Method) (head : Nat) (ps : List (Station × Expr)) (A : Region) : Prop :=
  ∀ ⦃i : Image⦄ ⦃entry : Nat → Nat⦄ ⦃k pc pc' : Nat⦄ ⦃hs : List Handler⦄, i.method = m → A i entry k pc pc' hs → PartsGoBack c m head ps pc pc'

/-- The code of the region is that of the expression. -/
def Region.Runs (c : Context) (m : Method) (head : Nat) (e : Expr) (A : Region) : Prop :=
  ∀ ⦃i : Image⦄ ⦃entry : Nat → Nat⦄ ⦃k pc pc' : Nat⦄ ⦃hs : List Handler⦄, i.method = m → A i entry k pc pc' hs → e.GoesBack c m head pc pc'

open Region

theorem covers_code (ns : List Need) (js : (Nat → Nat) → List Instr) : (code ns js).Covers c m head [] :=
  fun _ _ _ _ _ _ _ h => .nil h.2.1.le

theorem covers_seq (hA : A.Covers c m head ps) (hB : B.Covers c m head qs) : (seq n A B).Covers c m head (ps ++ qs) := by
  rintro i entry k pc pc' hs hi ⟨p, _, _, _, ha, hb⟩
  exact PartsGoBack.append (hB hi hb) (hA hi ha)

/-- What comes first has no parts. -/
theorem covers_then (hA : A.Covers c m head []) (hB : B.Covers c m head ps) : (seq n A B).Covers c m head ps := covers_seq hA hB

/-- What comes last has no parts. -/
theorem covers_last (hA : A.Covers c m head ps) (hB : B.Covers c m head []) : (seq n A B).Covers c m head ps := by
  rw [← List.append_nil ps]
  exact covers_seq hA hB

theorem covers_here (l : Label) : (here l).Covers c m head [] := fun _ _ _ _ _ _ _ h => .nil (Nat.le_of_eq h.2.1.symm)

theorem covers_handling (h : Handler) : (handling h).Covers c m head [] := fun _ _ _ _ _ _ _ h => .nil (Nat.le_of_eq h.1.symm)

theorem covers_handlers (start stop target : Label) (ranges : List (Label × Label)) :
    (Region.handlers start stop target ranges).Covers c m head [] := fun _ _ _ _ _ _ _ h => .nil (Nat.le_of_eq h.1.symm)

theorem covers_exit (dest : Dest) (leaves : Bool) (stop : Label) : (exit dest leaves stop).Covers c m head [] := by
  rintro i entry k pc pc' hs _ ⟨_, ⟨_, rfl⟩ | ⟨rfl, _⟩⟩
  · exact .nil (Nat.le_succ _)
  · exact .nil (Nat.le_refl _)

theorem covers_given {P : Prop} (hA : A.Covers c m head ps) : (given P A).Covers c m head ps := fun _ _ _ _ _ _ hi h => hA hi h.2

theorem covers_fresh {A : Label → Region} (hA : ∀ l, (A l).Covers c m head ps) : (fresh A).Covers c m head ps :=
  fun _ _ _ _ _ _ hi ⟨l, h⟩ => hA l hi h

/-- The code of one part. -/
theorem covers_part (s : Station) (hA : A.Runs c m head e) : A.Covers c m head [(s, e)] :=
  fun _ _ _ _ _ _ hi h => .cons (Nat.le_refl _) (hA hi h) (.nil (Nat.le_refl _))

/-- An expression other than a `recur` or a loop. -/
theorem runs_node {dest : Dest} (hr : e.isRecur = false) (hl : e.isLoop = false) (h : (Laid env dest e).Covers env.context m head e.parts) :
    (Laid env dest e).Runs env.context m head e :=
  fun i entry k _ _ hs hi hlaid => .node ⟨env, dest, i, entry, k, hs, rfl, hi, hlaid⟩ hr hl (h hi hlaid)

/-- Where an exception leaves there is a cleanup only if the `try` has one. -/
theorem covers_rethrow {cleanup : Option Expr} {finish : Region} (hfinish : finish.Covers c m head (innerParts cleanup.toList)) (k : Nat)
    (start stop : Label) (ranges : List (Label × Label)) (thrownSlot : Nat) : (if cleanup.isSome then fresh fun target =>
      seq 0 (Region.handlers start stop target ranges) <|
      seq 0 (here target) <|
      seq 0 (code [] fun _ => [.store thrownSlot]) <|
      seq k finish <|
      code [] fun _ => [.load thrownSlot, .throw]
    else code [] fun _ => [] : Region).Covers c m head (innerParts cleanup.toList) := by
  cases cleanup with
  | none =>
    rw [Option.isSome_none, if_neg Bool.false_ne_true]
    exact covers_code _ _
  | some e =>
    rw [Option.isSome_some, if_pos rfl]
    refine covers_fresh fun target => covers_then (covers_handlers _ _ _ _) (covers_then (covers_here _) (covers_then (covers_code _ _) ?_))
    exact covers_last hfinish (covers_code _ _)

/-- Each handler is followed by the cleanup. -/
theorem covers_laidHandlers {dest : Dest} {finish : Region} {start stop done : Label} {resultSlot : Nat} (hfinish : finish.Covers env.context m head ps) :
    ∀ {hs : List (String × Nat × Expr)} {ranges : List (Label × Label)}, (∀ h ∈ hs, (Laid env .boxed h.2.2).Runs env.context m head h.2.2) →
    (LaidHandlers env dest n finish start stop done resultSlot hs ranges).Covers env.context m head (hs.flatMap fun h => (.inner, h.2.2) :: ps)
  | [], ranges, _ => by
    rw [LaidHandlers]
    exact covers_given (covers_code _ _)
  | (className, b, body) :: hs, ranges, hr => by
    rw [LaidHandlers, List.flatMap_cons, List.cons_append]
    refine covers_fresh fun target => covers_fresh fun handlerStop => covers_then (covers_handling _) (covers_then (covers_here _) ?_)
    refine covers_then (covers_code _ _) (covers_seq (covers_part _ (hr _ List.mem_cons_self)) (covers_then (covers_code _ _) ?_))
    refine covers_then (covers_here _) (covers_seq hfinish (covers_then (covers_code _ _) (covers_then (covers_exit _ _ _) ?_)))
    rintro i entry k pc pc' _ hi ⟨more, _, h⟩
    exact covers_laidHandlers hfinish (fun h hm => hr h (List.mem_cons_of_mem _ hm)) hi h

/-- A `try`, given its body, its cleanup and its handlers. -/
theorem covers_attempt {dest : Dest} {body : Expr} {handlers : List (String × Nat × Expr)} {cleanup : Option Expr}
    {resultSlot thrownSlot : Nat} (hbody : (Laid env .boxed body).Runs env.context m head body)
    (hfinish : (LaidOption env .statement cleanup).Covers env.context m head (innerParts cleanup.toList))
    (hhandlers : ∀ h ∈ handlers, (Laid env .boxed h.2.2).Runs env.context m head h.2.2) :
    (Laid env dest (.attempt body handlers cleanup resultSlot thrownSlot)).Covers env.context m head (attemptParts body handlers cleanup) := by
  rw [Laid]
  refine covers_fresh fun start => covers_fresh fun stop => covers_fresh fun done => covers_then (covers_here _) ?_
  refine covers_seq (covers_part _ hbody) (covers_then (covers_code _ _) (covers_then (covers_here _) ?_))
  refine covers_seq hfinish (covers_then (covers_code _ _) (covers_then (covers_exit _ _ _) ?_))
  rintro i entry k pc pc' hs hi ⟨ranges, h⟩
  exact covers_seq (covers_laidHandlers hfinish hhandlers) (covers_last (covers_rethrow hfinish _ _ _ _ _) (covers_here _)) hi h

mutual

/-- **Every `recur` in the code of an expression jumps to the start of its loop.** -/
theorem runs_laid {env : EmitEnv} {head : Nat} (hl : m.labelPc? env.loopHead = some head) (dest : Dest) :
    ∀ e : Expr, (Laid env dest e).Runs env.context m head e
  | .nil | .bool _ | .long _ | .double _ | .const _ | .type _ | .var _ | .theVar _ | .staticField _ _ | .deftype _ _ => by
    refine runs_node rfl rfl ?_
    rw [Laid]
    exact covers_code _ _
  | .local _ | .fn _ _ _ | .reify _ _ _ _ => by
    refine runs_node rfl rfl ?_
    rw [Laid]
    exact covers_given (covers_code _ _)
  | .vector items | .set items => by
    refine runs_node rfl rfl ?_
    rw [Laid]
    exact covers_last (covers_laidArgs hl _ items) (covers_code _ _)
  | .map pairs => by
    refine runs_node rfl rfl ?_
    rw [Laid]
    exact covers_last (covers_laidPairs hl pairs) (covers_code _ _)
  | .define _ init _ => by
    refine runs_node rfl rfl ?_
    rw [Laid]
    exact covers_last (covers_laidOption hl .boxed init) (covers_code _ _)
  | .assign target value => by
    refine runs_node rfl rfl ?_
    rw [Laid]
    exact covers_last (covers_part _ (runs_laid hl _ value)) (covers_given (covers_code _ _))
  | .throw value | .instanceOf _ value | .keywordInvoke _ value _ | .fieldGet value _ _ _ => by
    refine runs_node rfl rfl ?_
    rw [Laid]
    exact covers_last (covers_part _ (runs_laid hl .boxed value)) (covers_code _ _)
  | .protocolInvoke _ args _ | .staticCall _ _ _ args _ | .construct _ _ _ args _ => by
    refine runs_node rfl rfl ?_
    rw [Laid]
    exact covers_last (covers_laidArgs hl _ args) (covers_code _ _)
  | .recur targets args line => by
    intro i entry k pc pc' hs hi h
    have hcoded : Coded env.context m (.recur targets args line) pc pc' := ⟨env, dest, i, entry, k, hs, rfl, hi, h⟩
    rw [Laid] at h
    obtain ⟨p, _, _, _, hargs, _, hcode, _⟩ := h
    obtain ⟨q, hrebind, hjump, rfl⟩ := Image.spans_append.1 hcode
    rw [hi] at hjump
    exact .recur hcoded (covers_laidArgs hl _ args hi hargs) hrebind.le hjump hl
  | .invoke f args _ _ => by
    refine runs_node rfl rfl ?_
    rw [Laid]
    exact covers_seq (covers_part _ (runs_laid hl .boxed f)) (covers_last (covers_laidArgs hl _ args) (covers_code _ _))
  | .methodCall target _ _ args _ => by
    refine runs_node rfl rfl ?_
    rw [Laid]
    exact covers_seq (covers_part _ (runs_laid hl .boxed target)) (covers_last (covers_laidArgs hl _ args) (covers_code _ _))
  | .cond test yes no _ => by
    refine runs_node rfl rfl ?_
    rw [Laid]
    refine covers_fresh fun otherwise => covers_fresh fun stop => covers_seq (covers_part _ (runs_laid hl _ test)) ?_
    refine covers_then (covers_code _ _) (covers_seq (covers_part _ (runs_laid hl dest yes)) (covers_then (covers_exit _ _ _) ?_))
    exact covers_then (covers_here _) (covers_last (covers_part _ (runs_laid hl dest no)) (covers_here _))
  | .seq body => by
    refine runs_node rfl rfl ?_
    rw [Laid]
    exact covers_laidSeq hl dest body
  | .bind true bindings body => by
    intro i entry k pc pc' hs hi h
    have hcoded : Coded env.context m (.bind true bindings body) pc pc' := ⟨env, dest, i, entry, k, hs, rfl, hi, h⟩
    rw [Laid, if_pos rfl] at h
    obtain ⟨_, _, _, _, hstores, l, p, _, _, _, ⟨hhere, rfl, _⟩, hbody⟩ := h
    rw [hi] at hhere
    -- in the body the loop is the one that starts here
    have hhead : m.labelPc? ({ env with loopHead := l } : EmitEnv).loopHead = some p := hhere
    exact .loop hcoded (stores_laidBindings hl bindings hi hstores) (runs_laid hhead dest body hi hbody)
  | .bind false bindings body => by
    refine runs_node rfl rfl ?_
    rw [Laid, if_neg Bool.false_ne_true]
    exact covers_seq (covers_laidBindings hl _ bindings) (covers_part _ (runs_laid hl dest body))
  | .bindFns bindings body => by
    refine runs_node rfl rfl ?_
    rw [Laid]
    refine covers_then (covers_code _ _) (covers_seq (covers_laidBindings hl _ bindings) ?_)
    exact covers_then (covers_code _ _) (covers_part _ (runs_laid hl dest body))
  | .attempt body handlers cleanup resultSlot thrownSlot =>
    runs_node rfl rfl (covers_attempt (runs_laid hl .boxed body) (covers_laidOption hl .statement cleanup) (runs_laidHandlers hl handlers))
  | .case value temp plan buckets otherwise _ => by
    refine runs_node rfl rfl ?_
    rw [Laid]
    refine covers_fresh fun missed => covers_fresh fun stop => covers_seq (covers_part _ (runs_laid hl .boxed value)) ?_
    refine covers_then (covers_code _ _) ?_
    rintro i entry k pc pc' hs hi ⟨labels, _, h⟩
    refine covers_then (covers_code _ _) (covers_seq (covers_laidBuckets hl dest _ _ missed stop labels buckets) (covers_then (covers_here _) ?_)) hi h
    exact covers_last (covers_part _ (runs_laid hl dest otherwise)) (covers_here _)

theorem covers_laidOption {env : EmitEnv} {head : Nat} (hl : m.labelPc? env.loopHead = some head) (dest : Dest) : ∀ o : Option Expr,
    (LaidOption env dest o).Covers env.context m head (innerParts o.toList)
  | none => by
    rw [LaidOption]
    exact covers_code _ _
  | some e => by
    rw [LaidOption]
    exact covers_part _ (runs_laid hl dest e)

theorem covers_laidArgs {env : EmitEnv} {head : Nat} (hl : m.labelPc? env.loopHead = some head) (prims : List (Option Prim)) : ∀ es : List Expr,
    (LaidArgs env prims es).Covers env.context m head (innerParts es)
  | [] => by
    rw [LaidArgs]
    exact covers_code _ _
  | e :: es => by
    rw [LaidArgs]
    exact covers_seq (covers_part _ (runs_laid hl _ e)) (covers_laidArgs hl _ es)

theorem covers_laidPairs {env : EmitEnv} {head : Nat} (hl : m.labelPc? env.loopHead = some head) : ∀ ps : List (Expr × Expr),
    (LaidPairs env ps).Covers env.context m head (innerParts (ps.flatMap fun p => [p.1, p.2]))
  | [] => by
    rw [LaidPairs]
    exact covers_code _ _
  | (k, v) :: ps => by
    rw [LaidPairs]
    exact covers_seq (covers_part _ (runs_laid hl .boxed k)) (covers_seq (covers_part _ (runs_laid hl .boxed v)) (covers_laidPairs hl ps))

theorem covers_laidSeq {env : EmitEnv} {head : Nat} (hl : m.labelPc? env.loopHead = some head) (dest : Dest) : ∀ es : List Expr,
    (LaidSeq env dest es).Covers env.context m head (seqParts es)
  | [] => by
    rw [LaidSeq]
    exact covers_code _ _
  | [e] => by
    rw [LaidSeq]
    exact covers_part _ (runs_laid hl dest e)
  | e :: e' :: es => by
    rw [LaidSeq]
    · exact covers_seq (covers_part _ (runs_laid hl .statement e)) (covers_laidSeq hl dest (e' :: es))
    · exact List.cons_ne_nil _ _

theorem covers_laidBindings {env : EmitEnv} {head : Nat} (hl : m.labelPc? env.loopHead = some head) (kinds : Nat → Option Prim) :
    ∀ bs : List (Nat × Expr), (LaidBindings env kinds bs).Covers env.context m head (innerParts (bs.map (·.2)))
  | [] => by
    rw [LaidBindings]
    exact covers_code _ _
  | (b, init) :: bs => by
    rw [LaidBindings]
    exact covers_seq (covers_part _ (runs_laid hl _ init)) (covers_then (covers_code _ _) (covers_laidBindings hl kinds bs))

theorem stores_laidBindings {env : EmitEnv} {head : Nat} (hl : m.labelPc? env.loopHead = some head) : ∀ bs : List (Nat × Expr),
    ∀ ⦃i : Image⦄ ⦃entry : Nat → Nat⦄ ⦃k pc pc' : Nat⦄ ⦃hs : List Handler⦄, i.method = m →
      LaidBindings env (primOf env) bs i entry k pc pc' hs → StoresGoBack env.context m head bs pc pc'
  | [], i, entry, k, pc, pc', hs, _, h => by
    rw [LaidBindings] at h
    obtain ⟨-, rfl, -⟩ := h
    exact .nil
  | (b, init) :: bs, i, entry, k, pc, pc', hs, hi, h => by
    rw [LaidBindings] at h
    obtain ⟨p, _, _, _, hinit, _, _, _, _, ⟨_, ⟨hstore, rfl⟩, _⟩, hrest⟩ := h
    rw [hi] at hstore
    exact .cons (runs_laid hl _ init hi hinit) hstore (stores_laidBindings hl bs hi hrest)

theorem runs_laidHandlers {env : EmitEnv} {head : Nat} (hl : m.labelPc? env.loopHead = some head) : ∀ hs : List (String × Nat × Expr),
    ∀ h ∈ hs, (Laid env .boxed h.2.2).Runs env.context m head h.2.2
  | [] => fun _ h => by cases h
  | (_, _, body) :: hs => List.forall_mem_cons.2 ⟨runs_laid hl .boxed body, runs_laidHandlers hl hs⟩

theorem covers_laidBuckets {env : EmitEnv} {head : Nat} (hl : m.labelPc? env.loopHead = some head) (dest : Dest) (test : CaseTest) (slot : Nat)
    (missed stop : Label) : ∀ (labels : List Label) (buckets : List (Int32 × List (Form × Expr))),
    (LaidBuckets env dest test slot missed stop labels buckets).Covers env.context m head (buckets.flatMap fun b => b.2.map fun e => (.last, e.2))
  | _, [] => by
    rw [LaidBuckets]
    exact covers_code _ _
  | labels, (key, arms) :: buckets => by
    rw [LaidBuckets]
    exact covers_then (covers_here _) (covers_seq (covers_laidEntries hl dest test slot missed stop arms)
      (covers_laidBuckets hl dest test slot missed stop labels.tail buckets))

theorem covers_laidEntries {env : EmitEnv} {head : Nat} (hl : m.labelPc? env.loopHead = some head) (dest : Dest) (test : CaseTest) (slot : Nat)
    (missed stop : Label) : ∀ arms : List (Form × Expr),
    (LaidEntries env dest test slot missed stop arms).Covers env.context m head (arms.map fun e => (.last, e.2))
  | [] => by
    rw [LaidEntries]
    exact covers_code _ _
  | arm :: arms => by
    obtain ⟨constant, value⟩ := arm
    rw [LaidEntries]
    rintro i entry k pc pc' hs hi ⟨next, _, h⟩
    have hnext : (if arms.isEmpty then code [] fun _ => [] else here next : Region).Covers env.context m head [] := by
      split
      · exact covers_code _ _
      · exact covers_here next
    exact covers_then (covers_code _ _) (covers_seq (covers_part _ (runs_laid hl dest value)) (covers_then (covers_exit _ _ _)
      (covers_then hnext (covers_laidEntries hl dest test slot missed stop arms)))) hi h

end

/-! ## Methods and units -/

/-- A method is the loop that its body ends. -/
theorem goesBack_method {c : Context} {obj : Nat} {pool pool' : Pool} {m : FnMethod} {code : Method}
    (h : method c obj pool m = .ok (code, pool')) : m.body.GoesBack c code 0 0 code.code.size := by
  obtain ⟨entry, hlaid⟩ := laid_method h
  exact runs_laid (head_method h) .result m.body rfl hlaid

theorem goesBack_methods {c : Context} {obj : Nat} : ∀ {ms : List FnMethod} {pool pool' : Pool} {codes : List Method},
    methods c obj pool ms = .ok (codes, pool') →
    codes.length = ms.length ∧ ∀ p ∈ ms.zip codes, p.1.body.GoesBack c p.2 0 0 p.2.code.size
  | [], _, _, _, h => by
    cases h
    exact ⟨rfl, fun _ h => by cases h⟩
  | m :: ms, pool, pool', codes, h => by
    obtain ⟨code, pool₁, rest, h₁, h₂, rfl⟩ := methods_cons_eq_ok h
    obtain ⟨hlen, hrest⟩ := goesBack_methods h₂
    exact ⟨congrArg (· + 1) hlen, List.forall_mem_cons.2 ⟨goesBack_method h₁, hrest⟩⟩

theorem goesBack_unit {c : Context} {obj : Nat} {kind : UnitKind} {ms : List FnMethod} {u : CompiledUnit} (h : unit c obj kind ms = .ok u) :
    u.methods.length = ms.length ∧ ∀ p ∈ ms.zip u.methods, p.1.body.GoesBack c p.2 0 0 p.2.code.size := by
  obtain ⟨pool, hm⟩ := methods_of_unit h
  exact goesBack_methods hm

end Emit

end LispMachine
