import LispMachine.Emit.Unit
/-!
# Code does not depend on strict mode

Of the options emission looks at one only, whether locals are emptied at their last use.  The same expression under other
options with regard to reflection gives the same code (`unit_lenient`).
-/
namespace LispMachine

/-- The options without strict mode; the flag says whether reflection is reported. -/
def CompileOptions.lenient (o : CompileOptions) (report : Bool) : CompileOptions :=
  { o with strict := false, warnOnReflection := report }

/-- The context without strict mode. -/
def Context.lenient (c : Context) (report : Bool) : Context := { c with options := c.options.lenient report }

/-- The method without strict mode. -/
def EmitEnv.lenient (env : EmitEnv) (report : Bool) : EmitEnv := { env with context := env.context.lenient report }

namespace Emit

variable {report : Bool}

mutual

theorem emit_lenient (env : EmitEnv) (dest : Dest) : ∀ e, emit (env.lenient report) dest e = emit env dest e
  | .nil | .bool _ | .long _ | .double _ | .const _ | .type _ | .local _ | .var _ | .theVar _ | .fn .. | .staticField ..
  | .deftype .. | .reify .. => rfl
  | .vector items | .set items => by
    rw [emit, emit, emitAll_lenient env items]
    rfl
  | .map pairs => by
    rw [emit, emit, emitPairs_lenient env pairs]
    rfl
  | .define v init info => by
    rw [emit, emit, emitOption_lenient env .boxed init]
    rfl
  | .assign (.var v) value => by
    rw [emit, emit, emit_lenient env .boxed value]
    rfl
  | .assign (.field b) value => by
    simp only [emit, emit_lenient env _ value]
    rfl
  | .cond test yes no line => by
    simp only [emit, emit_lenient env _ test, emit_lenient env dest yes, emit_lenient env dest no]
  | .seq body => by
    rw [emit, emit, emitSeq_lenient env dest body]
  | .bind isLoop bindings body => by
    rw [emit, emit, emitBindings_lenient env bindings, emit_lenient env dest body]
    congr 1
    funext _
    split
    · congr 1
      funext head
      congr 1
      funext _
      exact emit_lenient { env with loopHead := head } dest body
    · rfl
  | .bindFns bindings body => by
    rw [emit, emit, emitFns_lenient env bindings, emit_lenient env dest body]
    rfl
  | .recur targets args line => by
    rw [emit, emit, emitArgs_lenient env _ args]
    rfl
  | .invoke f args line tail => by
    rw [emit, emit, emit_lenient env .boxed f, emitAll_lenient env args]
    rfl
  | .keywordInvoke k target line => by
    rw [emit, emit, emit_lenient env .boxed target]
    rfl
  | .protocolInvoke v args line => by
    rw [emit, emit, emitAll_lenient env args]
    rfl
  | .staticCall className name member args line => by
    simp only [emit, emitArgs_lenient env _ args]
    rfl
  | .methodCall target name member args line => by
    simp only [emit, emit_lenient env .boxed target, emitArgs_lenient env _ args]
    rfl
  | .fieldGet target name field line => by
    simp only [emit, emit_lenient env .boxed target]
    rfl
  | .construct className member declared args line => by
    simp only [emit, emitArgs_lenient env _ args]
    rfl
  | .instanceOf className value => by
    rw [emit, emit, emit_lenient env .boxed value]
    rfl
  | .throw value => by
    rw [emit, emit, emit_lenient env .boxed value]
  | .attempt body handlers cleanup resultSlot thrownSlot => by
    simp only [emit, emit_lenient env .boxed body, emitOption_lenient env .statement cleanup,
      emitHandlers_lenient env dest _ _ _ _ _ handlers]
    rfl
  | .case value temp plan buckets otherwise line => by
    simp only [emit, emit_lenient env .boxed value, emit_lenient env dest otherwise, emitBuckets_lenient env dest _ _ _ _ _ buckets]
    rfl

theorem emitOption_lenient (env : EmitEnv) (dest : Dest) : ∀ o, emitOption (env.lenient report) dest o = emitOption env dest o
  | some e => emit_lenient env dest e
  | none => rfl

theorem emitAll_lenient (env : EmitEnv) : ∀ es, emitAll (env.lenient report) es = emitAll env es
  | [] => rfl
  | e :: es => by
    rw [emitAll, emitAll, emit_lenient env .boxed e, emitAll_lenient env es]

theorem emitPairs_lenient (env : EmitEnv) : ∀ ps, emitPairs (env.lenient report) ps = emitPairs env ps
  | [] => rfl
  | (k, v) :: rest => by
    rw [emitPairs, emitPairs, emit_lenient env .boxed k, emit_lenient env .boxed v, emitPairs_lenient env rest]

theorem emitArgs_lenient (env : EmitEnv) (prims : List (Option Prim)) : ∀ es, emitArgs (env.lenient report) prims es = emitArgs env prims es
  | [] => rfl
  | e :: es => by
    rw [emitArgs, emitArgs, emit_lenient env _ e, emitArgs_lenient env prims.tail es]

theorem emitSeq_lenient (env : EmitEnv) (dest : Dest) : ∀ es, emitSeq (env.lenient report) dest es = emitSeq env dest es
  | [] => rfl
  | [e] => by
    rw [emitSeq, emitSeq, emit_lenient env dest e]
  | e :: e' :: es => by
    have ih := emitSeq_lenient env dest (e' :: es)
    unfold emitSeq
    rw [emit_lenient env .statement e, ih]

theorem emitBindings_lenient (env : EmitEnv) : ∀ bs, emitBindings (env.lenient report) bs = emitBindings env bs
  | [] => rfl
  | (b, init) :: rest => by
    rw [emitBindings, emitBindings, emit_lenient env _ init, emitBindings_lenient env rest]
    rfl

theorem emitFns_lenient (env : EmitEnv) : ∀ bs, emitFns (env.lenient report) bs = emitFns env bs
  | [] => rfl
  | (b, init) :: rest => by
    rw [emitFns, emitFns, emit_lenient env .boxed init, emitFns_lenient env rest]
    rfl

theorem emitHandlers_lenient (env : EmitEnv) (dest : Dest) (finish : Emit PUnit) (start stop done : Label) (resultSlot : Nat) :
    ∀ hs, emitHandlers (env.lenient report) dest finish start stop done resultSlot hs =
      emitHandlers env dest finish start stop done resultSlot hs
  | [] => rfl
  | (className, b, body) :: rest => by
    simp only [emitHandlers, emit_lenient env .boxed body, emitHandlers_lenient env dest finish start stop done resultSlot rest]
    rfl

theorem emitBuckets_lenient (env : EmitEnv) (dest : Dest) (test : CaseTest) (slot : Nat) (missed stop : Label)
    (labels : List Label) : ∀ bs, emitBuckets (env.lenient report) dest test slot missed stop labels bs =
      emitBuckets env dest test slot missed stop labels bs
  | [] => rfl
  | (_, entries) :: rest => by
    rw [emitBuckets, emitBuckets, emitEntries_lenient env dest test slot missed stop entries,
      emitBuckets_lenient env dest test slot missed stop labels.tail rest]

theorem emitEntries_lenient (env : EmitEnv) (dest : Dest) (test : CaseTest) (slot : Nat) (missed stop : Label) :
    ∀ es, emitEntries (env.lenient report) dest test slot missed stop es = emitEntries env dest test slot missed stop es
  | [] => rfl
  | (constant, value) :: rest => by
    simp only [emitEntries, emit_lenient env dest value, emitEntries_lenient env dest test slot missed stop rest]

end

theorem method_lenient (c : Context) (obj : Nat) (pool : Pool) (m : FnMethod) :
    method (c.lenient report) obj pool m = method c obj pool m := by
  unfold method
  simp only [← @emit_lenient report { context := c, obj, frame := m.frame, ret := m.ret, loopHead := _ }]
  rfl

theorem methods_lenient (c : Context) (obj : Nat) (pool : Pool) (ms : List FnMethod) :
    methods (c.lenient report) obj pool ms = methods c obj pool ms := by
  induction ms generalizing pool with
  | nil => rfl
  | cons m ms ih => simp only [methods, method_lenient, ih]

/-- **The code of a function or type is the same without strict mode.** -/
theorem unit_lenient (c : Context) (obj : Nat) (kind : UnitKind) (ms : List FnMethod) (report : Bool) :
    unit (c.lenient report) obj kind ms = unit c obj kind ms := by
  rw [unit, methods_lenient]
  rfl

end Emit

end LispMachine
