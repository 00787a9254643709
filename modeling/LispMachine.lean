import LispMachine.Analyze.Attempt
import LispMachine.Analyze.Basic
import LispMachine.Analyze.Binding
import LispMachine.Analyze.Case
import LispMachine.Analyze.Form
import LispMachine.Analyze.Function
import LispMachine.Analyze.Member
import LispMachine.Analyze.Special
import LispMachine.CallSite
import LispMachine.Class.Id
import LispMachine.Class.Table
import LispMachine.Code.Assembly
import LispMachine.Code.Instr
import LispMachine.Code.Listing
import LispMachine.Code.Unit
import LispMachine.Code.Verify
import LispMachine.Command.Files
import LispMachine.Command.Line
import LispMachine.Command.Repl
import LispMachine.Command.Run
import LispMachine.Compile.Context
import LispMachine.Compile.Diagnostic
import LispMachine.Compile.Fault
import LispMachine.Compile.Locals
import LispMachine.Compile.Options
import LispMachine.Compile.PathTree
import LispMachine.Compile.SpecialForm
import LispMachine.Core.Collections
import LispMachine.Core.Library
import LispMachine.Double.Arithmetic
import LispMachine.Double.Decode
import LispMachine.Double.Printer
import LispMachine.Double.Reader
import LispMachine.Emit.Basic
import LispMachine.Emit.Expr
import LispMachine.Emit.Pool
import LispMachine.Emit.Unit
import LispMachine.Expand.Builtin
import LispMachine.Expand.Step
import LispMachine.Expr.Basic
import LispMachine.Expr.Eval
import LispMachine.Expr.Typing
import LispMachine.Failure
import LispMachine.Form.Basic
import LispMachine.Form.Printer
import LispMachine.Form.Reader
import LispMachine.Hash
import LispMachine.Host.Call
import LispMachine.Host.Library
import LispMachine.Host.Member
import LispMachine.Machine.Dispatch
import LispMachine.Machine.Execute
import LispMachine.Machine.Frame
import LispMachine.Machine.Step
import LispMachine.Main
import LispMachine.Numbers
import LispMachine.Prim
import LispMachine.Proofs.Analyze.Direct
import LispMachine.Proofs.Analyze.Literals
import LispMachine.Proofs.Analyze.Marks
import LispMachine.Proofs.Analyze.Rounds
import LispMachine.Proofs.Class.Ancestry
import LispMachine.Proofs.Class.Hierarchy
import LispMachine.Proofs.Code.Depths
import LispMachine.Proofs.Code.Exact
import LispMachine.Proofs.Command.Dialogue
import LispMachine.Proofs.Compile.Ancestors
import LispMachine.Proofs.Core.Collections
import LispMachine.Proofs.Core.Range
import LispMachine.Proofs.Emit.Confined
import LispMachine.Proofs.Emit.Layout
import LispMachine.Proofs.Emit.Placed
import LispMachine.Proofs.Emit.Tails
import LispMachine.Proofs.Expand.Renaming
import LispMachine.Proofs.Expr.Arms
import LispMachine.Proofs.Expr.Compiled
import LispMachine.Proofs.Expr.Missed
import LispMachine.Proofs.Form.Discards
import LispMachine.Proofs.Form.Joined
import LispMachine.Proofs.Form.RoundTrip
import LispMachine.Proofs.Machine.Activation
import LispMachine.Proofs.Machine.Attempts
import LispMachine.Proofs.Machine.Effect
import LispMachine.Proofs.Machine.Keeps
import LispMachine.Proofs.Machine.Verified
import LispMachine.Proofs.Numbers.Integers
import LispMachine.Proofs.Run.Library
import LispMachine.Proofs.Run.Preserves
import LispMachine.Proofs.Run.Tame
import LispMachine.Proofs.Session.Apart
import LispMachine.Proofs.Session.Definitions
import LispMachine.Proofs.Session.Recurs
import LispMachine.Proofs.Session.Strict
import LispMachine.Proofs.Session.Untouched
import LispMachine.Proofs.Session.Verifies
import LispMachine.Proofs.Sites.Cell
import LispMachine.Proofs.Sites.Fields
import LispMachine.Proofs.Sites.History
import LispMachine.Proofs.Sites.Latest
import LispMachine.Proofs.Value.Data
import LispMachine.Proofs.World.Bindings
import LispMachine.Proofs.World.Implementations
import LispMachine.Proofs.World.Linked
import LispMachine.Run
import LispMachine.Session
import LispMachine.Slot
import LispMachine.Symbol
import LispMachine.Text.Alphabetic
import LispMachine.Text.Blank
import LispMachine.Text.Case
import LispMachine.Text.Cased
import LispMachine.Text.CodeRange
import LispMachine.Text.Numeric
import LispMachine.Token.Basic
import LispMachine.Token.Lexer
import LispMachine.Value.Basic
import LispMachine.Value.Collection
import LispMachine.Value.Native
import LispMachine.Value.OfForm
import LispMachine.Value.Printer
import LispMachine.World.Basic
import LispMachine.World.Load
import LispMachine.World.Protocol
import LispMachine.World.Var
import LispMachine.Proofs.Analyze.Choices
