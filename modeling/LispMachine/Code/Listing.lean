import LispMachine.Code.Unit
/-!
# Listings

A unit as readable text: its tables, then each method with its labels, numbered instructions and
handlers, then the units nested in it.
-/
namespace LispMachine

def labelName (l : Label) : String := "L" ++ toString l

def constName (i : Nat) : String := "#" ++ toString i

def hexDigits (n : Nat) : String := "0x" ++ String.ofList (Nat.toDigits 16 n)

namespace Instr

def render : Instr → String
  | .const i => "const " ++ constName i
  | .nil => "nil"
  | .pushBool b => "push.bool " ++ (if b then "true" else "false")
  | .pushLong n => "push.long " ++ toString n.toInt
  | .pushDouble d => "push.double " ++ Double.plain d
  | .pushInt n => "push.int " ++ toString n.toInt
  | .pop => "pop"
  | .dup => "dup"
  | .box p => "box." ++ p.name
  | .unbox p => "unbox." ++ p.name
  | .convert a b => "convert " ++ a.name ++ "->" ++ b.name
  | .load s => "load " ++ toString s
  | .loadClear s => "load.clear " ++ toString s
  | .store s => "store " ++ toString s
  | .clear s => "clear " ++ toString s
  | .loadThis => "load.this"
  | .loadField i => "field " ++ toString i
  | .loadFieldClear i => "field.clear " ++ toString i
  | .storeField i => "field.store " ++ toString i
  | .initField i => "field.init " ++ toString i
  | .varGet i => "var.get " ++ constName i
  | .varSet i => "var.set " ++ constName i
  | .varDef var init info =>
    "var.def " ++ constName var ++ (if init then " init" else "") ++
      (match info with
        | some i => " meta " ++ constName i
        | none => "")
  | .jump l => "jump " ++ labelName l
  | .jumpIfFalsy l => "jump.falsy " ++ labelName l
  | .jumpIfFalse l => "jump.false " ++ labelName l
  | .jumpIfNotEquiv l => "jump.not-equiv " ++ labelName l
  | .jumpIfNotIdentical l => "jump.not-identical " ++ labelName l
  | .hash => "hash"
  | .shiftMask shift mask => "shift-mask " ++ toString shift ++ " " ++ hexDigits mask.toNat
  | .tableSwitch low targets otherwise =>
    "tableswitch low=" ++ toString low.toInt ++ " [" ++ " ".intercalate (targets.map labelName) ++
      "] default " ++ labelName otherwise
  | .lookupSwitch keys targets otherwise =>
    "lookupswitch [" ++
      " ".intercalate ((keys.zip targets).map fun (k, l) => toString k.toInt ++ ":" ++ labelName l) ++
      "] default " ++ labelName otherwise
  | .invoke n => "invoke " ++ toString n
  | .invokeStatic m n => "invoke.static " ++ constName m ++ " " ++ toString n
  | .invokeVirtual m n => "invoke.virtual " ++ constName m ++ " " ++ toString n
  | .invokeReflective m n => "invoke.reflective " ++ constName m ++ " " ++ toString n
  | .invokeStaticReflective c m n =>
    "invoke.static-reflective " ++ constName c ++ " " ++ constName m ++ " " ++ toString n
  | .getStatic i => "get.static " ++ constName i
  | .getField t i => "get.field " ++ constName t ++ " " ++ toString i
  | .getFieldReflective i => "get.field-reflective " ++ constName i
  | .new c n => "new " ++ constName c ++ " " ++ toString n
  | .newReflective c n => "new.reflective " ++ constName c ++ " " ++ toString n
  | .newInstance c n => "new.instance " ++ constName c ++ " " ++ toString n
  | .newFn u n => "new.fn unit" ++ toString u ++ " " ++ toString n
  | .keywordInvoke s => "keyword.invoke site" ++ toString s
  | .protocolInvoke s n => "protocol.invoke site" ++ toString s ++ " " ++ toString n
  | .instanceOf i => "instance-of " ++ constName i
  | .makeVector n => "make.vector " ++ toString n
  | .makeMap n => "make.map " ++ toString n
  | .makeSet n => "make.set " ++ toString n
  | .throw => "throw"
  | .return => "return"

end Instr

def padLeft (width : Nat) (s : String) : String :=
  String.ofList (List.replicate (width - s.length) ' ') ++ s

def numbered {α : Type} : Nat → List α → List (Nat × α)
  | _, [] => []
  | i, x :: xs => (i, x) :: numbered (i + 1) xs

namespace Method

def labelsAt (m : Method) (pc : Nat) : List Label :=
  (numbered 0 m.labels.toList).filterMap fun (l, at') => if at' == some pc then some l else none

def renderHandler (h : Handler) : String :=
  "    handler [" ++ labelName h.start ++ ", " ++ labelName h.stop ++ ") -> " ++ labelName h.target ++
    " " ++ h.catches.getD "any" ++ "\n"

def renderInstr (m : Method) (pc : Nat) (i : Instr) : String :=
  String.join ((m.labelsAt pc).map fun l => "   " ++ labelName l ++ ":\n") ++
    "    " ++ padLeft 4 (toString pc) ++ "  " ++ i.render ++ "\n"

def render (m : Method) : String :=
  "  method " ++ m.name ++ " arity=" ++ toString m.arity ++ (if m.variadic then " &rest" else "") ++
    " locals=" ++ toString m.maxLocals ++ "\n" ++
    String.join ((numbered 0 m.code.toList).map fun (pc, i) => m.renderInstr pc i) ++
    String.join (m.handlers.map renderHandler)

end Method

namespace CompiledUnit

def renderHead (u : CompiledUnit) : String :=
  match u.kind with
  | .fn once => "unit " ++ u.name ++ (if once then " ^:once" else "") ++ "\n"
  | .type name protocols =>
    "type " ++ name ++ String.join (protocols.map fun p => " " ++ p.render) ++ "\n"

def renderTables (u : CompiledUnit) : String :=
  String.join ((numbered 0 u.closed).map fun (i, c) =>
    "  closed " ++ toString i ++ " " ++ c.name ++
      (match c.prim with
        | some p => " ^" ++ p.name
        | none => "") ++ "\n") ++
  String.join ((numbered 0 u.constants.toList).map fun (i, c) =>
    "  " ++ constName i ++ " = " ++ c.render ++ "\n") ++
  String.join ((numbered 0 u.keywordSites.toList).map fun (i, k) =>
    "  site" ++ toString i ++ " keyword " ++ k.render ++ "\n") ++
  String.join ((numbered 0 u.protocolSites.toList).map fun (i, s) =>
    "  site" ++ toString i ++ " protocol " ++ s.render ++ "\n")

mutual

def render : CompiledUnit → String
  | ⟨name, kind, methods, closed, constants, keywordSites, protocolSites, children⟩ =>
    let u : CompiledUnit := ⟨name, kind, methods, closed, constants, keywordSites, protocolSites, []⟩
    u.renderHead ++ u.renderTables ++ String.join (methods.map Method.render) ++ renderAll children

def renderAll : List CompiledUnit → String
  | [] => ""
  | u :: us => render u ++ renderAll us

end

end CompiledUnit

end LispMachine
