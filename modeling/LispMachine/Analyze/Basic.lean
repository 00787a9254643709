import LispMachine.Compile.Locals
import LispMachine.Compile.SpecialForm
import LispMachine.Expr.Typing
/-!
# Parts of the analysis that need no recursion

The analysis of a form calls on the analysis of its parts.  Each special form is therefore written
over an analyzer for the parts, and the knot is tied in one place.
-/
namespace LispMachine.Analyze

abbrev Analyzer := Demand → Form → Analysis Expr

/-- Analyzes forms whose values are consumed. -/
def operands (rec : Analyzer) (demand : Demand) (forms : List Form) : Analysis (List Expr) :=
  Analysis.forList (rec demand.operand) forms

def body (rec : Analyzer) (demand : Demand) (forms : List Form) : Analysis Expr := do
  match forms.getLast? with
  | none => return .nil
  | some last =>
    let leading ← Analysis.forList (rec demand.leading) forms.dropLast
    let result ← rec demand last
    return if leading.isEmpty then result else .seq (leading ++ [result])

/-- A call of a function around the form, for forms that need a method of their own.  It is called
only once, so it may give up what it captured. -/
def wrapInOnceFn (form : Form) : Form :=
  let once : Form.Info := Meta.insert {} (Form.kw "once") (.bool true)
  let place := form.line?.map fun line => Meta.ofPlace line (form.column?.getD 0)
  let fn := Form.list [.symbol (Symbol.plain "fn*") (some once), .ofVector [], form] place
  .list [fn] place

/-- A reference to a var; a hint on the symbol wins over one on the var. -/
def varRef (w : World) (id : Nat) (tag : Option String) : VarRef :=
  let v := w.var id
  let declared := match v.info.lookup "tag" with
    | some (.symbol s _) => some s.render
    | some (.str s) => some s
    | _ => none
  { name := v.name, var := id, tag := tag.or declared }

/-- The reference by which compiled code finds a member again. -/
def hostRef (className : String) (m : HostMember) : HostRef :=
  { className, member := m.name, kind := m.kind, params := m.params, ret := m.ret }

def tagText (info : Option Form.Info) : Option String := (info.bind Meta.tag?).map Symbol.render

/-- A symbol as a value: a local, a static field, a var or a class, in this order. -/
def symbol (s : Symbol) (info : Option Form.Info) : Analysis Expr := do
  let tag := tagText info
  match ← Analysis.lookupLocal? s with
  | some b => return .local (← Analysis.referenceLocal b tag)
  | none =>
    let w ← Analysis.world
    match staticOwner? w with
    | some (owner, c) =>
      match w.classes.findMembers c .staticField s.name with
      | m :: _ => return .staticField c.name (hostRef c.name m)
      | [] => Analysis.fail (.unknownStaticField s.name owner)
    | none =>
      match w.resolve? s with
      | some v =>
        if (w.var v).isMacro then Analysis.fail (.valueOfExpander (w.var v).name)
        else return .var (varRef w v tag)
      | none =>
        if !s.isQualified && (w.classes.lookup? s.name).isSome then return .type s.name
        else Analysis.fail (.unresolvedSymbol s.render)
where
  /-- The class before the slash, unless a namespace has that name. -/
  staticOwner? (w : World) : Option (String × Class) := do
    let ns ← s.ns
    if (w.findNs? ns).isSome then none
    else
      let c ← w.classes.lookup? ns
      return (ns, c)

/-! ## Constant collections -/

mutual

/-- Whether a form denotes the same whatever surrounds it, as far as its shape tells. -/
def isConstant : Form → Bool
  | .symbol .. => false
  | .list items _ => items.isEmpty
  | .vector items _ | .set items _ => areConstant items
  | .map ps _ => areConstantPairs ps
  | _ => true

def areConstant : List Form → Bool
  | [] => true
  | f :: fs => isConstant f && areConstant fs

def areConstantPairs : List (Form × Form) → Bool
  | [] => true
  | (k, v) :: rest => isConstant k && isConstant v && areConstantPairs rest

end

def repeatedKey? (seen : List Form) : List Form → Option Form
  | [] => none
  | k :: ks =>
    if !isConstant k then repeatedKey? seen ks
    else if seen.any (· == k) then some k
    else repeatedKey? (seen ++ [k]) ks

def checkKeys (keys : List Form) : Analysis PUnit :=
  match repeatedKey? [] keys with
  | some k => Analysis.fail (.duplicateKey k)
  | none => return ⟨⟩

end LispMachine.Analyze
