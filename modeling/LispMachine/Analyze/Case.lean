import LispMachine.Analyze.Basic
/-!
# Choosing by constants

The tests of a `case*` are reduced to 32-bit keys: a small integer is its own key, anything else has
its hash.  Keys in a small range become a table at once; otherwise a shift and a mask are searched
that keep the keys apart in a small range; failing that the table is sparse.  Different tests with
one key share a bucket, where they are compared one after the other.
-/
namespace LispMachine.Analyze

structure CaseConstant where
  test : Form
  clause : Nat

def maxTableSpan : Int := 8192

def maxMaskBits : Nat := 13

def isSmallInt : Form → Bool
  | .long n => n.toInt32.toInt == n.toInt
  | _ => false

def isKeywordForm : Form → Bool
  | .keyword _ => true
  | _ => false

def caseTest (tests : List Form) : CaseTest :=
  if tests.all isSmallInt then .int
  else if tests.all isKeywordForm then .hashIdentity
  else .hashEquiv

def rawKey (test : CaseTest) (f : Form) : Int32 :=
  match test, f with
  | .int, .long n => n.toInt32
  | _, f => f.hash

/-- Adds an element under its key; the keys are in ascending order. -/
def insertKeyed {α : Type} (key : Int32) (a : α) : List (Int32 × List α) → List (Int32 × List α)
  | [] => [(key, [a])]
  | (k, as) :: rest =>
    if key < k then (key, [a]) :: (k, as) :: rest
    else if key == k then (k, as ++ [a]) :: rest
    else (k, as) :: insertKeyed key a rest

def groupByKey {α : Type} (key : α → Int32) (as : List α) : List (Int32 × List α) :=
  as.foldl (fun groups a => insertKeyed (key a) a groups) []

/-- Whether ascending keys lie close together. -/
def fitsTable (keys : List Int32) : Bool :=
  match keys.head?, keys.getLast? with
  | some low, some high => high.toInt - low.toInt < maxTableSpan
  | _, _ => true

def maskKey (shift : Nat) (mask : UInt32) (key : Int32) : Int32 :=
  if mask == 0 then key else (key >>> Int32.ofNat shift) &&& mask.toInt32

def allDistinct : List Int32 → Bool
  | [] => true
  | k :: ks => !ks.contains k && allDistinct ks

/-- The smallest mask, and for it the smallest shift, that keep all keys apart. -/
def minHash? (keys : List Int32) : Option (Nat × UInt32) :=
  (List.range maxMaskBits).findSome? fun b =>
    let mask : UInt32 := UInt32.ofNat (Nat.pow 2 (b + 1) - 1)
    ((List.range 32).find? fun shift => allDistinct (keys.map (maskKey shift mask))).map (·, mask)

def casePlan (test : CaseTest) (keys : List Int32) : CasePlan :=
  if fitsTable keys then ⟨test, .compact, 0, 0⟩
  else
    match minHash? keys with
    | some (shift, mask) => ⟨test, .compact, shift, mask⟩
    | none => ⟨test, .sparse, 0, 0⟩

/-- The clauses two by two, and the default if their number is odd. -/
def caseClauses : List Form → List (Form × Form) × Option Form
  | [] => ([], none)
  | [otherwise] => ([], some otherwise)
  | test :: value :: rest =>
    let (clauses, otherwise) := caseClauses rest
    ((test, value) :: clauses, otherwise)

/-- The constants of a clause: a list gives several. -/
def clauseTests : Form → List Form
  | .list (f :: fs) _ => f :: fs
  | f => [f]

/-- All constants in order; one that equals an earlier one is an error. -/
def caseConstants (clauses : List (Form × Form)) : Except CompileFault (List CaseConstant) :=
  let all := clauses.zipIdx.flatMap fun ((test, _), i) =>
    (clauseTests test).map fun t => CaseConstant.mk (t.withInfo none) i
  all.foldlM (fun seen c =>
    if seen.any fun s => s.test == c.test then .error (.duplicateCaseTest c.test)
    else .ok (seen ++ [c])) []

/-- The default clause; without one, a miss throws. -/
def caseDefault (rec : Analyzer) (demand : Demand) (otherwise : Option Form) (temp : Symbol) :
    Analysis Expr :=
  match otherwise with
  | some f => rec demand f
  | none =>
    let message := Form.ofItems [.symbol (Symbol.qualified coreNs "str") none,
      .str "No matching clause: ", .symbol temp none]
    rec demand (.ofItems [Form.sym "throw",
      .ofItems [Form.sym "new", Form.sym "IllegalArgumentException", message]])

def insertSorted {α : Type} (e : Int32 × α) : List (Int32 × α) → List (Int32 × α)
  | [] => [e]
  | f :: rest => if e.1 < f.1 then e :: f :: rest else f :: insertSorted e rest

def sortByKey {α : Type} (es : List (Int32 × α)) : List (Int32 × α) :=
  es.foldl (fun sorted e => insertSorted e sorted) []

def case (rec : Analyzer) (demand : Demand) (form : Form) (items : List Form) : Analysis Expr := do
  if demand == .eval then rec demand (wrapInOnceFn form)
  else
    match items with
    | _ :: value :: rest =>
      let line := (← Analysis.scope).line
      let (clauses, otherwise) := caseClauses rest
      let constants ← Analysis.ofExcept (caseConstants clauses)
      Analysis.nested do
        let value ← rec demand.operand value
        let temp := Symbol.plain ("case__temp__" ++ toString (← Analysis.nextGensym))
        let binding ← Analysis.registerLocal temp none none false
        if constants.isEmpty then
          return .seq [value, ← caseDefault rec demand otherwise temp]
        else
          let test := caseTest (constants.map (·.test))
          let groups := groupByKey (fun c => rawKey test c.test) constants
          if groups.any fun g => g.2.length > 1 then
            Analysis.warn .caseCollision ("hash collision of some case test constants, " ++
              (← Analysis.read (·.options)).fileName ++ ":" ++ toString line)
          let plan := casePlan test (groups.map (·.1))
          let branch ← Analysis.addPath .branch (← Analysis.scope).clearPath
          let buckets ← Analysis.forList (fun (key, group) => do
            let entries ← Analysis.forList (fun (c : CaseConstant) => do
              let value := ((clauses[c.clause]?).map (·.2)).getD .nil
              return (c.test, ← Analysis.arm branch (rec demand value))) group
            return (maskKey plan.shift plan.mask key, entries)) groups
          let otherwise ← Analysis.arm branch (caseDefault rec demand otherwise temp)
          return .case value binding plan (sortByKey buckets) otherwise line
    | _ => Analysis.fail (.tooFewArguments "case*")

end LispMachine.Analyze
