import LispMachine.Analyze.Basic
import LispMachine.Emit.Unit
/-!
# Functions and types

`fn*`, `deftype*` and `reify*` each make a unit.  Every method has a frame of its own, in which slot
zero is the object; locals of the methods around it become captured fields.  The unit is emitted as
soon as its methods are analyzed, for nothing later can add to what it captures.
-/
namespace LispMachine.Analyze

def maxPrimParams : Nat := 4

def typeHint (tag : Option Symbol) : Except CompileFault (Option String × Option Prim) :=
  match tag with
  | none => .ok (none, none)
  | some s =>
    if s.isQualified then .ok (some s.render, none)
    else
      match Prim.ofName? s.name with
      | some .long => .ok (none, some .long)
      | some .double => .ok (none, some .double)
      | some _ => .error .unsupportedPrimitive
      | none => .ok (some s.render, none)

/-- A new name for a unit: the unit or namespace around it, the local name, and a number. -/
def unitName (localName : Option String) : Analysis String := do
  let c ← Analysis.read id
  let around := match c.currentObject? with
    | some o => o.name
    | none => c.world.current
  let plain := (localName.getD "fn").map fun ch => if ch == '.' || ch == '/' then '_' else ch
  return around ++ "$" ++ plain ++ "__" ++ toString (← Analysis.nextGensym)

def inMethod {α : Type} (frame : Nat) (x : Analysis α) : Analysis α := do
  let s ← Analysis.scope
  let root ← match s.clearPath with
    | some p => pure p
    | none => Analysis.addPath .path none
  Analysis.nested do
    Analysis.modifyScope fun s => {
      method := some frame, nextSlot := 1, clearPath := some root, clearRoot := some root
      methodReturn := true, env := s.env, line := s.line, column := s.column }
    x

/-- The uses by which the enclosing method loads what an object captures. -/
def captureRefs (obj : Nat) : Analysis (List LocalRef) := do
  Analysis.forList (fun b => Analysis.referenceLocal b none) ((← Analysis.read (·.object obj)).closes)

def emitUnit (obj : Nat) (kind : UnitKind) (methods : List FnMethod) : Analysis CompiledUnit := do
  Analysis.ofExcept (Emit.unit (← Analysis.read id) obj kind methods)

/-! ## Functions -/

def registerParams : List Form → Bool → List Nat → Option Nat → Analysis (List Nat × Option Nat)
  | [], variadic, fixed, rest =>
    if variadic && rest.isNone then Analysis.fail .paramsInvalid else return (fixed, rest)
  | .symbol s info :: params, variadic, fixed, rest => do
    if s.isPlain "&" then
      if variadic then Analysis.fail .paramsInvalid else registerParams params true fixed rest
    else if s.isQualified then Analysis.fail (.paramQualified s)
    else
      let (tag, prim) ← Analysis.ofExcept (typeHint (info.bind Meta.tag?))
      if variadic then
        if rest.isSome then Analysis.fail .paramsInvalid
        else if prim.isSome then Analysis.fail .variadicPrimitives
        else
          let id ← Analysis.registerLocal s tag none true
          registerParams params variadic fixed (some id)
      else
        let id ← Analysis.registerLocal s tag prim true
        registerParams params variadic (fixed ++ [id]) rest
  | _ :: _, _, _, _ => Analysis.fail .paramNotSymbol

def checkPrims (c : Context) (fixed : List Nat) (rest : Option Nat) (ret : Option Prim) :
    Except CompileFault PUnit :=
  if ret.isSome || fixed.any fun b => (c.binding b).prim.isSome then
    if rest.isSome then .error .variadicPrimitives
    else if fixed.length > maxPrimParams then .error .tooManyPrimitives
    else .ok ⟨⟩
  else .ok ⟨⟩

def checkReturn (ret had : Option Prim) : Except CompileFault PUnit :=
  match ret, had with
  | some expected, some had =>
    if expected == had then .ok ⟨⟩ else .error (.mismatchedReturn expected had)
  | _, _ => .ok ⟨⟩

def fnMethod (rec : Analyzer) (obj : Nat) (self : Option Symbol)
    (params : List Form) (info : Option Form.Info) (forms : List Form) : Analysis FnMethod := do
  let (_, ret) ← Analysis.ofExcept (typeHint (info.bind Meta.tag?))
  let s ← Analysis.scope
  let frame ← Analysis.change (·.addMethod obj s.method)
  inMethod frame do
    match self with
    | some name => let _ ← Analysis.change (·.registerThis name none)
    | none => pure ()
    let (fixed, rest) ← registerParams params false [] none
    Analysis.ofExcept (checkPrims (← Analysis.read id) fixed rest ret)
    Analysis.modifyScope fun s => { s with loopLocals := some (fixed ++ rest.toList) }
    let result ← body rec .tail forms
    Analysis.ofExcept (checkReturn ret result.localPrim?)
    return { frame, name := "invoke", params := fixed, rest, ret, body := result, line := s.line }

def fnBodies (forms : List Form) :
    Except CompileFault (List (List Form × Option Form.Info × List Form)) :=
  match forms with
  | .vector params info :: body => .ok [(params, info, body)]
  | [] => .error .paramsMissing
  | forms => forms.mapM fun
    | .list (.vector params info :: body) _ => .ok (params, info, body)
    | _ => .error .paramsMissing

/-- The number of arguments decides which body runs, so it must not be open. -/
def checkArities (ms : List FnMethod) : Except CompileFault PUnit := do
  let (fixed, variadic) ← ms.foldlM (fun (fixed, variadic) (m : FnMethod) =>
    if m.rest.isSome then
      if variadic.isSome then .error .twoVariadic else .ok (fixed, some m.params.length)
    else if fixed.contains m.params.length then .error .sameArity
    else .ok (fixed ++ [m.params.length], variadic)) (([] : List Nat), (none : Option Nat))
  match variadic with
  | some n => if fixed.any (· > n) then .error .fixedBeyondVariadic else .ok ⟨⟩
  | none => .ok ⟨⟩

def fn (rec : Analyzer) (items : List Form) : Analysis Expr := do
  let once := (items.headD .nil).flag "once"
  let (self, forms) := match items.tail with
    | .symbol s _ :: rest => (some s, rest)
    | rest => (none, rest)
  let bodies ← Analysis.ofExcept (fnBodies forms)
  let line := (← Analysis.scope).line
  let name ← unitName (self.map (·.name))
  let obj ← Analysis.change (·.addObject name .fn once)
  let methods ← Analysis.forList (fun (params, info, forms) => fnMethod rec obj self params info forms)
    bodies
  Analysis.ofExcept (checkArities methods)
  let unit ← emitUnit obj (.fn once) methods
  return .fn unit (← captureRefs obj) line

/-! ## Methods of types -/

def resolveProtocol (s : Symbol) : Analysis (Symbol × Nat) := do
  let w ← Analysis.world
  match w.resolve? s with
  | none => Analysis.fail (.unresolvedProtocol s)
  | some v =>
    match (w.var v).root with
    | some (.protocol p _) => return ((w.var v).name, p)
    | _ => Analysis.fail (.notAProtocol s)

structure TypeMethod where
  name : String
  rest : List Form

def typeMethod? : Form → Option TypeMethod
  | .list (.symbol s _ :: rest) _ => some ⟨s.name, rest⟩
  | _ => none

/-- Every method must belong to one of the protocols. -/
def checkDeclared (protocols : List (Symbol × Nat)) (methods : List TypeMethod) : Analysis PUnit := do
  let w ← Analysis.world
  methods.forM fun m =>
    if protocols.any fun p => ((w.protocols[p.2]?).getD default).hasMethod m.name then return ⟨⟩
    else Analysis.fail (.methodNotDeclared m.name)

def methodParam (method : String) (f : Form) : Except CompileFault (Symbol × Option Form.Info) :=
  match f with
  | .symbol s info =>
    if s.isQualified || s.name == "&" then .error (.methodParamsInvalid method) else .ok (s, info)
  | _ => .error (.methodParamsInvalid method)

/-- One method of a type; the first parameter is the object. -/
def typeMethod (rec : Analyzer) (obj : Nat) (parent : Option Nat) (tag : Option String)
    (m : TypeMethod) : Analysis FnMethod := do
  match m.rest with
  | .vector (this :: params) _ :: forms =>
    let line := (← Analysis.scope).line
    let frame ← Analysis.change (·.addMethod obj parent)
    inMethod frame do
      let (this, _) ← Analysis.ofExcept (methodParam m.name this)
      let _ ← Analysis.change (·.registerThis this tag)
      let args ← Analysis.forList (fun p => do
        let (s, info) ← Analysis.ofExcept (methodParam m.name p)
        Analysis.registerLocal s (tagText info) none true) params
      Analysis.modifyScope fun s => { s with loopLocals := some args }
      let result ← body rec .tail forms
      return { frame, name := m.name, params := args, rest := none, ret := none, body := result, line }
  | _ => Analysis.fail (.methodWithoutTarget m.name)

/-! ## Declared types -/

structure FieldDecl where
  name : Symbol
  tag : Option String
  capture : Capture

def fieldDecl (f : Form) : Except CompileFault FieldDecl :=
  match f with
  | .symbol s info =>
    if s.isQualified then .error (.badField f)
    else do
      let (tag, prim) ← typeHint (info.bind Meta.tag?)
      let isMutable := f.flag "unsynchronized-mutable" || f.flag "volatile-mutable"
      return ⟨s, tag, ⟨s.name, prim, isMutable⟩⟩
  | other => .error (.badField other)

/-- Sorts what follows the fields into protocols and methods. -/
def typeParts : List Form → Analysis (List (Symbol × Nat) × List TypeMethod)
  | [] => return ([], [])
  | f :: fs => do
    match f with
    | .symbol s _ =>
      let p ← resolveProtocol s
      let (protocols, methods) ← typeParts fs
      return (p :: protocols, methods)
    | f =>
      match typeMethod? f with
      | some m =>
        let (protocols, methods) ← typeParts fs
        return (protocols, m :: methods)
      | none => Analysis.fail (.badTypeMethod f)

def registerFields (obj : Nat) (fields : List FieldDecl) : Analysis PUnit :=
  fields.forM fun f => do
    let id ← Analysis.registerLocal f.name f.tag f.capture.prim false
    Analysis.modify fun c =>
      (c.modifyBinding id fun b => { b with canBeCleared := false, isMutable := f.capture.isMutable }).capture
        obj id

/-- The methods of a type see its fields and no other locals. -/
def typeMethods (rec : Analyzer) (obj : Nat) (name : String) (fields : List FieldDecl)
    (methods : List TypeMethod) : Analysis (List FnMethod) := Analysis.nested do
  let frame ← Analysis.change (·.addMethod obj none)
  Analysis.modifyScope fun s => {
    method := some frame, nextSlot := 1, line := s.line, column := s.column }
  registerFields obj fields
  Analysis.forList (typeMethod rec obj (some frame) (some name)) methods

/-- A type is declared before its methods are analyzed, so that they can refer to it. -/
def deftype (rec : Analyzer) (items : List Form) : Analysis Expr := do
  match items with
  | _ :: .symbol s _ :: rest =>
    if s.isQualified then Analysis.fail .typeNameExpected
    else
      match rest with
      | .vector fields _ :: rest =>
        let name := s.name
        let fields ← Analysis.ofExcept (fields.mapM fieldDecl)
        let (protocols, methods) ← typeParts rest
        checkDeclared protocols methods
        let _ ← Analysis.changeWorld (·.declareType name (fields.map (·.capture)) false)
        let obj ← Analysis.change (·.addObject name .type false)
        let methods ← typeMethods rec obj name fields methods
        let unit ← emitUnit obj (.type name (protocols.map (·.1))) methods
        let _ ← Analysis.load unit
        return .deftype name unit
      | _ => Analysis.fail .fieldVectorExpected
  | _ => Analysis.fail .typeNameExpected

/-! ## Anonymous types -/

/-- An instance of a new type whose fields are the locals that its methods use. -/
def reify (rec : Analyzer) (items : List Form) : Analysis Expr := do
  match items with
  | _ :: .vector protocols _ :: rest =>
    let protocols ← Analysis.forList (fun
      | .symbol s _ => resolveProtocol s
      | other => Analysis.fail (.badProtocol other)) protocols
    let methods ← Analysis.forList (fun f =>
      match typeMethod? f with
      | some m => return m
      | none => Analysis.fail (.badReifyMethod f)) rest
    checkDeclared protocols methods
    let s ← Analysis.scope
    let name ← unitName (some "reify")
    let obj ← Analysis.change (·.addObject name .reify false)
    let methods ← Analysis.forList (typeMethod rec obj s.method none) methods
    let unit ← emitUnit obj (.type name (protocols.map (·.1))) methods
    let _ ← Analysis.changeWorld (·.declareType name unit.closed true)
    let _ ← Analysis.load unit
    return .reify name unit (← captureRefs obj) s.line
  | _ => Analysis.fail .protocolVectorExpected

end LispMachine.Analyze
