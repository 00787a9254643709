import LispMachine.Proofs.Emit.Logic
/-!
# The layout of compiled expressions

`Laid env dest e` says what the code of an expression looks like in a finished method: which
instructions stand where, where the labels in it stand, which entries of the tables it names and which
handlers it adds.  It is built from a few kinds of region, and so has one equation for every kind of
expression.

The entries are numbered by the needs of the expression (`Expr.needs`), in the order in which they are
asked for.
-/
namespace LispMachine

/-- The instructions stand one after the other between two places. -/
def Image.Spans (i : Image) : List Instr → Nat → Nat → Prop
  | [], pc, pc' => pc' = pc
  | j :: js, pc, pc' => i.method.code[pc]? = some j ∧ i.Spans js (pc + 1) pc'

theorem Image.spans_append {i : Image} : ∀ {js ks : List Instr} {pc pc' : Nat},
    i.Spans (js ++ ks) pc pc' ↔ ∃ p, i.Spans js pc p ∧ i.Spans ks p pc'
  | [], ks, pc, pc' => by simp [Image.Spans]
  | j :: js, ks, pc, pc' => by
    constructor
    · rintro ⟨hj, hs⟩
      obtain ⟨p, hjs, hks⟩ := spans_append.1 hs
      exact ⟨p, ⟨hj, hjs⟩, hks⟩
    · rintro ⟨p, ⟨hj, hjs⟩, hks⟩
      exact ⟨hj, spans_append.2 ⟨p, hjs, hks⟩⟩

namespace Emit

/-! ## Regions -/

namespace Region

/-- Instructions, which may name the entries that serve the needs from here on. -/
def code (ns : List Need) (js : (Nat → Nat) → List Instr) : Region := fun i e k pc pc' hs =>
  (∀ (j : Nat) (n : Need), ns[j]? = some n → i.pool.Provides n (e (k + j))) ∧
    i.Spans (js fun j => e (k + j)) pc pc' ∧ hs = []

/-- One region after the other; the first has so many needs. -/
def seq (n : Nat) (A B : Region) : Region := fun i e k pc pc' hs =>
  ∃ p hs₁ hs₂, hs = hs₁ ++ hs₂ ∧ A i e k pc p hs₁ ∧ B i e (k + n) p pc' hs₂

/-- The label stands here. -/
def here (l : Label) : Region := fun i _ _ pc pc' hs => i.method.labelPc? l = some pc ∧ pc' = pc ∧ hs = []

/-- An arm is left for the common exit, unless it returns or control cannot come here. -/
def exit (dest : Dest) (leaves : Bool) (stop : Label) : Region := fun i _ _ pc pc' hs => hs = [] ∧
  ((i.method.code[pc]? = some (.jump stop) ∧ pc' = pc + 1) ∨ (pc' = pc ∧ (dest = .result ∨ leaves = true)))

/-- A handler is added. -/
def handling (h : Handler) : Region := fun _ _ _ pc pc' hs => pc' = pc ∧ hs = [h]

/-- A region that exists only if something holds. -/
def given (P : Prop) (A : Region) : Region := fun i e k pc pc' hs => P ∧ A i e k pc pc' hs

/-- A region with a label of its own. -/
def fresh (A : Label → Region) : Region := fun i e k pc pc' hs => ∃ l, A l i e k pc pc' hs

end Region

/-! ## Straight code -/

def boxCode : Option Prim → List Instr
  | some p => [.box p]
  | none => []

def unboxCode (kind : Option Prim) (p : Prim) : List Instr :=
  match kind with
  | some own => if own == p then [] else [.convert own p]
  | none => [.unbox p]

def settleCode (env : EmitEnv) (dest : Dest) (kind : Option Prim) : List Instr :=
  match dest with
  | .statement => boxCode kind ++ [.pop]
  | .boxed => boxCode kind
  | .unboxed p => unboxCode kind p
  | .result =>
    match env.ret with
    | some p => unboxCode kind p ++ [.box p, .return]
    | none => boxCode kind ++ [.return]

def inertCode (env : EmitEnv) (dest : Dest) (kind : Option Prim) (push : List Instr) : List Instr :=
  if dest == .statement then [] else push ++ settleCode env dest kind

/-- The instruction that pushes a local, if the local is visible. -/
def localInstr? (env : EmitEnv) (r : LocalRef) : Option Instr :=
  let c := env.context
  let b := c.binding r.binding
  let clear := !c.options.disableLocalsClearing && b.prim.isNone && b.canBeCleared &&
    !b.usedInHandler && (c.use r.site).shouldClear
  if b.method == some env.frame then
    some (if b.slot == 0 then .loadThis else if clear then .loadClear b.slot else .load b.slot)
  else
    let o := c.object env.obj
    (o.fieldIndex? r.binding).map fun i => if clear && o.once then .loadFieldClear i else .loadField i

def localCode (env : EmitEnv) (rs : List LocalRef) : List Instr := rs.filterMap (localInstr? env)

/-- All the locals are visible. -/
def Visible (env : EmitEnv) (rs : List LocalRef) : Prop := ∀ r ∈ rs, (localInstr? env r).isSome

def clearCode (env : EmitEnv) (tail : Bool) : List Instr :=
  if tail && !env.context.options.disableLocalsClearing then (deadSlots env.context env.frame).map .clear else []

/-- The code that gives one local function the others that it captures. -/
def linkOne (env : EmitEnv) (bindings : List (Nat × Expr)) (binding : Nat) (captures : List (LocalRef × Nat)) :
    List Instr :=
  captures.flatMap fun (capture, i) =>
    if bindings.any fun b => b.1 == capture.binding then
      [.load (slotOf env binding), .load (slotOf env capture.binding), .initField i]
    else []

def linkCode (env : EmitEnv) (bindings : List (Nat × Expr)) : List (Nat × Expr) → List Instr
  | [] => []
  | (binding, .fn _ captures _) :: rest => linkOne env bindings binding captures.zipIdx ++ linkCode env bindings rest
  | _ :: rest => linkCode env bindings rest

def emptyCode (env : EmitEnv) (bindings : List (Nat × Expr)) : List Instr :=
  bindings.flatMap fun b => [.nil, .store (slotOf env b.1)]

def rebindCode (env : EmitEnv) (targets : List Nat) : List Instr := targets.reverse.map fun t => .store (slotOf env t)

def keyCode (plan : CasePlan) (temp : Nat) (missed : Label) (entry : Nat → Nat) : List Instr :=
  (match plan.test with
    | .int => [.load temp, .instanceOf (entry 0), .jumpIfFalse missed, .load temp, .unbox .int]
    | .hashIdentity | .hashEquiv => [.load temp, .hash]) ++
  if plan.mask != 0 then [.shiftMask plan.shift plan.mask] else []

def testInstr (test : CaseTest) (next : Label) : Instr :=
  if test == .hashIdentity then .jumpIfNotIdentical next else .jumpIfNotEquiv next

theorem mem_tableTargets {keys : List (Int32 × Label)} {otherwise l : Label} : ∀ {n : Nat} {low : Int},
    l ∈ tableTargets keys otherwise low n → l = otherwise ∨ l ∈ keys.map (·.2)
  | 0, _, h => by cases h
  | n + 1, low, h => by
    rw [tableTargets] at h
    rcases List.mem_cons.1 h with rfl | h
    · cases hf : keys.find? fun k => k.1.toInt == low with
      | none => exact .inl rfl
      | some k => exact .inr (List.mem_map.2 ⟨k, List.mem_of_find?_eq_some hf, rfl⟩)
    · exact mem_tableTargets h

theorem mem_targets_switchOver {plan : CasePlan} {keys : List (Int32 × Label)} {otherwise l : Label}
    (h : l ∈ (switchOver plan keys otherwise).targets) : l = otherwise ∨ l ∈ keys.map (·.2) := by
  unfold switchOver at h
  split at h <;> rcases List.mem_append.1 h with h | h
  · exact mem_tableTargets h
  · exact .inl (List.mem_singleton.1 h)
  · exact .inr h
  · exact .inl (List.mem_singleton.1 h)

/-! ## Needs -/

def formNeed (f : Form) : Need := .constant (.form (f.withInfo none))

def textNeed (s : String) : Need := .constant (.form (.str s))

def staticNeeds (className name : String) : Option HostRef → List Need
  | some m => [.constant (.host m)]
  | none => [.constant (.type className), textNeed name]

def methodNeeds (name : String) : Option HostRef → List Need
  | some m => [.constant (.host m)]
  | none => [textNeed name]

def fieldNeeds (name : String) : Option FieldRef → List Need
  | some f => [.constant (.type f.type)]
  | none => [textNeed name]

def constructNeeds (className : String) : Option HostRef → List Need
  | some m => [.constant (.host m)]
  | none => [.constant (.type className)]

def keyNeeds (plan : CasePlan) : List Need :=
  match plan.test with
  | .int => [.constant (.type numberClass)]
  | .hashIdentity | .hashEquiv => []

/-- Nothing is asked for a value that is dropped. -/
def inertNeeds (dest : Dest) (ns : List Need) : List Need := if dest == .statement then [] else ns

/-- The member that a constructor call means; declared types have none. -/
def ctorOf (member : Option HostRef) (declared : Bool) : Option HostRef := if declared then none else member

def targetNeeds : AssignTarget → List Need
  | .var v => [.constant (.var v.name)]
  | .field _ => []

end Emit

open Emit

namespace Expr

mutual

/-- What the code of an expression asks of the tables, in order. -/
def needs : Expr → List Need
  | .nil | .bool _ | .long _ | .double _ | .local _ => []
  | .const f => [formNeed f]
  | .type name => [.constant (.type name)]
  | .vector items | .set items => needsAll items
  | .map pairs => needsPairs pairs
  | .var v | .theVar v => [.constant (.var v.name)]
  | .define v init info => needsOption init ++ [.constant (.var v.name), formNeed info]
  | .assign target value => needs value ++ targetNeeds target
  | .cond test yes no _ => needs test ++ (needs yes ++ needs no)
  | .seq body => needsAll body
  | .bind _ bindings body | .bindFns bindings body => needsBindings bindings ++ needs body
  | .recur _ args _ => needsAll args
  | .fn unit _ _ => [.child unit]
  | .invoke f args _ _ => needs f ++ needsAll args
  | .keywordInvoke k target _ => needs target ++ [.keyword k]
  | .protocolInvoke v args _ => needsAll args ++ [.protocol v.name]
  | .staticCall className name member args _ => needsAll args ++ staticNeeds className name member
  | .methodCall target name member args _ => needs target ++ (needsAll args ++ methodNeeds name member)
  | .staticField _ member => [.constant (.host member)]
  | .fieldGet target name field _ => needs target ++ fieldNeeds name field
  | .construct className member declared args _ =>
    needsAll args ++ constructNeeds className (ctorOf member declared)
  | .instanceOf className value => needs value ++ [.constant (.type className)]
  | .throw value => needs value
  | .attempt body handlers cleanup _ _ =>
    needs body ++ (needsOption cleanup ++ (needsHandlers (needsOption cleanup) handlers ++ needsOption cleanup))
  | .case value _ plan buckets otherwise _ =>
    needs value ++ (keyNeeds plan ++ (needsBuckets buckets ++ needs otherwise))
  | .deftype name unit => [.child unit, .constant (.type name)]
  | .reify name unit _ _ => [.child unit, .constant (.type name)]

def needsOption : Option Expr → List Need
  | some e => needs e
  | none => []

def needsAll : List Expr → List Need
  | [] => []
  | e :: es => needs e ++ needsAll es

def needsPairs : List (Expr × Expr) → List Need
  | [] => []
  | (k, v) :: rest => needs k ++ (needs v ++ needsPairs rest)

def needsBindings : List (Nat × Expr) → List Need
  | [] => []
  | (_, init) :: rest => needs init ++ needsBindings rest

/-- Every handler is followed by the cleanup. -/
def needsHandlers (finish : List Need) : List (String × Nat × Expr) → List Need
  | [] => []
  | (_, _, body) :: rest => needs body ++ (finish ++ needsHandlers finish rest)

def needsBuckets : List (Int32 × List (Form × Expr)) → List Need
  | [] => []
  | (_, entries) :: rest => needsEntries entries ++ needsBuckets rest

def needsEntries : List (Form × Expr) → List Need
  | [] => []
  | (constant, value) :: rest => formNeed constant :: (needs value ++ needsEntries rest)

end

mutual

/-- Control never comes to the end of the expression, as far as its shape tells. -/
def leaves : Expr → Bool
  | .throw _ | .recur .. => true
  | .seq body => anyLeaves body
  | .bind _ _ body | .bindFns _ body => leaves body
  | _ => false

def anyLeaves : List Expr → Bool
  | [] => false
  | e :: es => leaves e || anyLeaves es

end

end Expr

namespace Emit

open LispMachine.Expr (needs needsOption needsAll needsPairs needsBindings needsHandlers needsBuckets)

/-! ## The layout -/

/-- A static call. -/
def staticCode (argc : Nat) : Option HostRef → (Nat → Nat) → Instr
  | some _, entry => .invokeStatic (entry 0) argc
  | none, entry => .invokeStaticReflective (entry 0) (entry 1) argc

/-- A method call. -/
def methodCode (argc : Nat) : Option HostRef → (Nat → Nat) → Instr
  | some _, entry => .invokeVirtual (entry 0) argc
  | none, entry => .invokeReflective (entry 0) argc

/-- A field access. -/
def fieldCode : Option FieldRef → (Nat → Nat) → Instr
  | some f, entry => .getField (entry 0) f.index
  | none, entry => .getFieldReflective (entry 0)

/-- A constructor call. -/
def constructCode (argc : Nat) (declared : Bool) : Option HostRef → (Nat → Nat) → Instr
  | some _, entry => .new (entry 0) argc
  | none, entry => if declared then .newInstance (entry 0) argc else .newReflective (entry 0) argc

/-- The kind of the result of a resolved member. -/
def memberKind (member : Option HostRef) : Option Prim := member.bind fun m => m.ret.prim?

/-- The destination of a value that is assigned. -/
def targetDest (env : EmitEnv) : AssignTarget → Dest
  | .var _ => .boxed
  | .field b => Dest.ofPrim (primOf env b)

/-- The assignment itself, if the target can be assigned. -/
def assignCode? (env : EmitEnv) : AssignTarget → Option ((Nat → Nat) → List Instr)
  | .var _ => some fun entry => [.varSet (entry 0)]
  | .field b => ((env.context.object env.obj).fieldIndex? b).map fun i _ =>
    [.dup, .storeField i] ++ boxCode (primOf env b)

/-- The handlers that send every exception of a `try` to its cleanup. -/
def Region.handlers (start stop target : Label) (ranges : List (Label × Label)) : Region := fun _ _ _ pc pc' hs =>
  pc' = pc ∧ hs = ⟨start, stop, target, none⟩ :: ranges.map fun r => ⟨r.1, r.2, target, none⟩

/-- The destination and the jump of a condition. -/
def testDest (test : Expr) : Dest := if test.prim? == some .bool then .unboxed .bool else .boxed

def testJump (test : Expr) (otherwise : Label) : Instr :=
  if test.prim? == some .bool then .jumpIfFalse otherwise else .jumpIfFalsy otherwise

open Region in
mutual

/-- What the code of an expression looks like. -/
def Laid (env : EmitEnv) (dest : Dest) : Expr → Region
  | .nil => code [] fun _ => inertCode env dest none [.nil]
  | .bool b => code [] fun _ =>
    if dest == .unboxed .bool then [.pushBool b] else inertCode env dest none [.pushBool b, .box .bool]
  | .long n => code [] fun _ => inertCode env dest (some .long) [.pushLong n]
  | .double d => code [] fun _ => inertCode env dest (some .double) [.pushDouble d]
  | .const f => code (inertNeeds dest [formNeed f]) fun entry => inertCode env dest none [.const (entry 0)]
  | .type name => code (inertNeeds dest [.constant (.type name)]) fun entry =>
    inertCode env dest none [.const (entry 0)]
  | .local r => given (dest ≠ .statement → Visible env [r]) <|
    code [] fun _ => inertCode env dest r.prim (localCode env [r])
  | .vector items => seq (needsAll items).length (LaidArgs env [] items) <|
    code [] fun _ => .makeVector items.length :: settleCode env dest none
  | .map pairs => seq (needsPairs pairs).length (LaidPairs env pairs) <|
    code [] fun _ => .makeMap pairs.length :: settleCode env dest none
  | .set items => seq (needsAll items).length (LaidArgs env [] items) <|
    code [] fun _ => .makeSet items.length :: settleCode env dest none
  | .var v => code [.constant (.var v.name)] fun entry => .varGet (entry 0) :: settleCode env dest none
  | .theVar v => code [.constant (.var v.name)] fun entry => .const (entry 0) :: settleCode env dest none
  | .define v init info => seq (needsOption init).length (LaidOption env .boxed init) <|
    code [.constant (.var v.name), formNeed info] fun entry => .varDef (entry 0) init.isSome (some (entry 1)) :: settleCode env dest none
  | .assign target value => seq (needs value).length (Laid env (targetDest env target) value) <|
    given (assignCode? env target).isSome <|
    code (targetNeeds target) fun entry => (assignCode? env target).elim [] (· entry) ++ settleCode env dest none
  | .cond test yes no _ => fresh fun otherwise => fresh fun stop =>
    seq (needs test).length (Laid env (testDest test) test) <|
    seq 0 (code [] fun _ => [testJump test otherwise]) <|
    seq (needs yes).length (Laid env dest yes) <|
    seq 0 (exit dest yes.leaves stop) <|
    seq 0 (here otherwise) <|
    seq (needs no).length (Laid env dest no) (here stop)
  | .seq body => LaidSeq env dest body
  | .bind isLoop bindings body => seq (needsBindings bindings).length (LaidBindings env (primOf env) bindings) <|
    if isLoop then fresh fun head => seq 0 (here head) (Laid { env with loopHead := head } dest body)
    else Laid env dest body
  | .bindFns bindings body => seq 0 (code [] fun _ => emptyCode env bindings) <|
    seq (needsBindings bindings).length (LaidBindings env (fun _ => none) bindings) <|
    seq 0 (code [] fun _ => linkCode env bindings bindings) (Laid env dest body)
  | .recur targets args _ => seq (needsAll args).length (LaidArgs env (targets.map (primOf env)) args) <|
    code [] fun _ => rebindCode env targets ++ [.jump env.loopHead]
  | .fn unit captures _ => given (Visible env captures) <| code [.child unit] fun entry =>
    localCode env captures ++ .newFn (entry 0) captures.length :: settleCode env dest none
  | .invoke f args _ tail => seq (needs f).length (Laid env .boxed f) <|
    seq (needsAll args).length (LaidArgs env [] args) <|
    code [] fun _ => clearCode env tail ++ .invoke args.length :: settleCode env dest none
  | .keywordInvoke key target _ => seq (needs target).length (Laid env .boxed target) <|
    code [.keyword key] fun entry => .keywordInvoke (entry 0) :: settleCode env dest none
  | .protocolInvoke v args _ => seq (needsAll args).length (LaidArgs env [] args) <|
    code [.protocol v.name] fun entry => .protocolInvoke (entry 0) args.length :: settleCode env dest none
  | .staticCall className name member args _ => seq (needsAll args).length (LaidArgs env (argPrims member) args) <|
    code (staticNeeds className name member) fun entry =>
      staticCode args.length member entry :: settleCode env dest (memberKind member)
  | .methodCall target name member args _ => seq (needs target).length (Laid env .boxed target) <|
    seq (needsAll args).length (LaidArgs env (argPrims member) args) <|
    code (methodNeeds name member) fun entry =>
      methodCode args.length member entry :: settleCode env dest (memberKind member)
  | .staticField _ member => code [.constant (.host member)] fun entry => .getStatic (entry 0) :: settleCode env dest member.ret.prim?
  | .fieldGet target name field _ => seq (needs target).length (Laid env .boxed target) <|
    code (fieldNeeds name field) fun entry => fieldCode field entry :: settleCode env dest (field.bind (·.prim))
  | .construct className member declared args _ =>
    seq (needsAll args).length (LaidArgs env (argPrims (ctorOf member declared)) args) <|
    code (constructNeeds className (ctorOf member declared)) fun entry =>
      constructCode args.length declared (ctorOf member declared) entry :: settleCode env dest none
  | .instanceOf className value => seq (needs value).length (Laid env .boxed value) <|
    code [.constant (.type className)] fun entry => .instanceOf (entry 0) :: settleCode env dest (some .bool)
  | .throw value => seq (needs value).length (Laid env .boxed value) (code [] fun _ => [.throw])
  | .attempt body handlers cleanup resultSlot thrownSlot =>
    fresh fun start => fresh fun stop => fresh fun done =>
    seq 0 (here start) <|
    seq (needs body).length (Laid env .boxed body) <|
    seq 0 (code [] fun _ => [.store resultSlot]) <|
    seq 0 (here stop) <|
    seq (needsOption cleanup).length (LaidOption env .statement cleanup) <|
    seq 0 (code [] fun _ => .load resultSlot :: settleCode env dest none) <|
    seq 0 (exit dest false done) fun i e k pc pc' hs => ∃ ranges,
      seq (needsHandlers (needsOption cleanup) handlers).length
        (LaidHandlers env dest (needsOption cleanup).length (LaidOption env .statement cleanup) start stop done
          resultSlot handlers ranges)
        (seq (needsOption cleanup).length
          (if cleanup.isSome then fresh fun target =>
            seq 0 (Region.handlers start stop target ranges) <|
            seq 0 (here target) <|
            seq 0 (code [] fun _ => [.store thrownSlot]) <|
            seq (needsOption cleanup).length (LaidOption env .statement cleanup) <|
            code [] fun _ => [.load thrownSlot, .throw]
          else code [] fun _ => [])
          (here done)) i e k pc pc' hs
  | .case value temp plan buckets otherwise _ => fresh fun missed => fresh fun stop =>
    seq (needs value).length (Laid env .boxed value) <|
    seq (keyNeeds plan).length (code (keyNeeds plan) fun entry =>
      .store (slotOf env temp) :: keyCode plan (slotOf env temp) missed entry) fun i e k pc pc' hs =>
    ∃ labels : List Label, labels.length = buckets.length ∧
      seq 0 (code [] fun _ => [switchOver plan ((buckets.map (·.1)).zip labels) missed])
        (seq (needsBuckets buckets).length
          (LaidBuckets env dest plan.test (slotOf env temp) missed stop labels buckets) <|
        seq 0 (here missed) <|
        seq (needs otherwise).length (Laid env dest otherwise) (here stop)) i e k pc pc' hs
  | .deftype name unit => code [.child unit, .constant (.type name)] fun entry => .const (entry 1) :: settleCode env dest none
  | .reify name unit captures _ => given (Visible env captures) <|
    code [.child unit, .constant (.type name)] fun entry => localCode env captures ++ .newInstance (entry 1) captures.length :: settleCode env dest none

def LaidOption (env : EmitEnv) (dest : Dest) : Option Expr → Region
  | some e => Laid env dest e
  | none => code [] fun _ => []

/-- All values on the stack, each unboxed if a kind is given for it. -/
def LaidArgs (env : EmitEnv) (prims : List (Option Prim)) : List Expr → Region
  | [] => code [] fun _ => []
  | e :: es => seq (needs e).length (Laid env (Dest.ofPrim prims.head?.join) e) (LaidArgs env prims.tail es)

def LaidPairs (env : EmitEnv) : List (Expr × Expr) → Region
  | [] => code [] fun _ => []
  | (k, v) :: rest => seq (needs k).length (Laid env .boxed k) <|
    seq (needs v).length (Laid env .boxed v) (LaidPairs env rest)

def LaidSeq (env : EmitEnv) (dest : Dest) : List Expr → Region
  | [] => code [] fun _ => inertCode env dest none [.nil]
  | [e] => Laid env dest e
  | e :: es => seq (needs e).length (Laid env .statement e) (LaidSeq env dest es)

/-- Locals that get their values one after the other, held as the given kinds. -/
def LaidBindings (env : EmitEnv) (kinds : Nat → Option Prim) : List (Nat × Expr) → Region
  | [] => code [] fun _ => []
  | (b, init) :: rest => seq (needs init).length (Laid env (Dest.ofPrim (kinds b)) init) <|
    seq 0 (code [] fun _ => [.store (slotOf env b)]) (LaidBindings env kinds rest)

def LaidHandlers (env : EmitEnv) (dest : Dest) (n : Nat) (finish : Region) (start stop done : Label)
    (resultSlot : Nat) : List (String × Nat × Expr) → List (Label × Label) → Region
  | [], ranges => given (ranges = []) (code [] fun _ => [])
  | (className, b, body) :: rest, ranges => fresh fun target => fresh fun handlerStop =>
    seq 0 (handling ⟨start, stop, target, some className⟩) <|
    seq 0 (here target) <|
    seq 0 (code [] fun _ => [.store (slotOf env b)]) <|
    seq (needs body).length (Laid env .boxed body) <|
    seq 0 (code [] fun _ => [.store resultSlot]) <|
    seq 0 (here handlerStop) <|
    seq n finish <|
    seq 0 (code [] fun _ => .load resultSlot :: settleCode env dest none) <|
    seq 0 (exit dest false done) fun i e k pc pc' hs => ∃ more, ranges = (target, handlerStop) :: more ∧
      LaidHandlers env dest n finish start stop done resultSlot rest more i e k pc pc' hs

def LaidBuckets (env : EmitEnv) (dest : Dest) (test : CaseTest) (slot : Nat) (missed stop : Label)
    (labels : List Label) : List (Int32 × List (Form × Expr)) → Region
  | [] => code [] fun _ => []
  | (_, entries) :: rest => seq 0 (here (labels.headD missed)) <|
    seq (Expr.needsEntries entries).length (LaidEntries env dest test slot missed stop entries) <|
    LaidBuckets env dest test slot missed stop labels.tail rest

/-- The tests of one bucket, one after the other; the last one leads to the default. -/
def LaidEntries (env : EmitEnv) (dest : Dest) (test : CaseTest) (slot : Nat) (missed stop : Label) :
    List (Form × Expr) → Region
  | [] => code [] fun _ => []
  | (constant, value) :: rest => fun i e k pc pc' hs => ∃ next : Label, (rest.isEmpty = true → next = missed) ∧
    seq 1 (code [formNeed constant] fun entry => [.load slot, .const (entry 0), testInstr test next])
      (seq (needs value).length (Laid env dest value) <|
      seq 0 (exit dest value.leaves stop) <|
      seq 0 (if rest.isEmpty then code [] fun _ => [] else here next)
        (LaidEntries env dest test slot missed stop rest)) i e k pc pc' hs

end

end Emit

end LispMachine
