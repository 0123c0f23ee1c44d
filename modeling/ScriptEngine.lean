import ScriptEngine.Builtin
import ScriptEngine.Code
import ScriptEngine.Code.Compiler
import ScriptEngine.CommandLine
import ScriptEngine.Config
import ScriptEngine.Decimal.Dyadic
import ScriptEngine.Decimal.Layout
import ScriptEngine.Decimal.Reader
import ScriptEngine.Decimal.Shortest
import ScriptEngine.Engine
import ScriptEngine.Engine.Create
import ScriptEngine.Engine.Load
import ScriptEngine.Engine.Native
import ScriptEngine.Engine.Protected
import ScriptEngine.Environment
import ScriptEngine.Error
import ScriptEngine.Fault
import ScriptEngine.Heap
import ScriptEngine.Heap.Collect
import ScriptEngine.Heap.Operator
import ScriptEngine.Heap.Property
import ScriptEngine.Host
import ScriptEngine.Ledger
import ScriptEngine.Machine
import ScriptEngine.Main
import ScriptEngine.PropertyMap
import ScriptEngine.Repl
import ScriptEngine.Sink
import ScriptEngine.Source.Diagnostic
import ScriptEngine.Source.Span
import ScriptEngine.Source.Stream
import ScriptEngine.Text.Alphanumeric
import ScriptEngine.Text.Blank
import ScriptEngine.Text.CharRange
import ScriptEngine.Text.Lossy
import ScriptEngine.Token
import ScriptEngine.Token.Scanner
import ScriptEngine.Tree
import ScriptEngine.Tree.Held
import ScriptEngine.Tree.Parser
import ScriptEngine.Value
import ScriptEngine.Proofs.Host.Protection
import ScriptEngine.Proofs.Machine.Simulation
import ScriptEngine.Proofs.Machine.Clause
import ScriptEngine.Proofs.Tree.Nesting
import ScriptEngine.Proofs.Machine.Tower
import ScriptEngine.Proofs.Machine.Turn
import ScriptEngine.Proofs.Machine.Succession
import ScriptEngine.Proofs.Machine.Catch
import ScriptEngine.Proofs.Engine.Likeness
import ScriptEngine.Proofs.Machine.Likeness
import ScriptEngine.Proofs.Machine.Launch
import ScriptEngine.Proofs.Machine.Sweeping
import ScriptEngine.Proofs.Engine.Endurance
import ScriptEngine.Proofs.Host.Session
import ScriptEngine.Proofs.Engine.Scoping
import ScriptEngine.Proofs.Machine.Scoping
import ScriptEngine.Proofs.Host.Discipline
import ScriptEngine.Proofs.Host.Entry
import ScriptEngine.Proofs.Tree.Grammar
import ScriptEngine.Proofs.Tree.Reading
import ScriptEngine.Proofs.Host.Delivery
import ScriptEngine.Proofs.Host.Identity
import ScriptEngine.Proofs.Token.Layout
import ScriptEngine.Proofs.Token.Partition
import ScriptEngine.Proofs.Token.Respacing
import ScriptEngine.Proofs.Tree.Respacing
import ScriptEngine.Proofs.Token.Joining
import ScriptEngine.Proofs.Tree.Joining
import ScriptEngine.Proofs.Engine.Aside
import ScriptEngine.Proofs.Machine.Aside
import ScriptEngine.Proofs.Host.Accounts
import ScriptEngine.Proofs.Machine.Depth
import ScriptEngine.Proofs.Machine.Reentry
import ScriptEngine.Proofs.Heap.Descent
import ScriptEngine.Proofs.Machine.Descent
import ScriptEngine.Proofs.Heap.Outwards
import ScriptEngine.Proofs.Host.ScopeChain
import ScriptEngine.Proofs.Host.Limits
import ScriptEngine.Proofs.Heap.Currency
import ScriptEngine.Proofs.Engine.Currency
import ScriptEngine.Proofs.Machine.Currency
import ScriptEngine.Proofs.Host.ErrorText
import ScriptEngine.Proofs.Heap.Exactness
import ScriptEngine.Proofs.Code.WellFormed
import ScriptEngine.Proofs.Tree.Spelling
import ScriptEngine.Proofs.Tree.Completeness
import ScriptEngine.Proofs.Heap.Seclusion
import ScriptEngine.Proofs.Engine.Seclusion
import ScriptEngine.Proofs.Machine.Seclusion
import ScriptEngine.Proofs.Engine.Registry
import ScriptEngine.Proofs.Host.References
import ScriptEngine.Proofs.Heap.Books
import ScriptEngine.Proofs.Heap.Binding
import ScriptEngine.Proofs.Heap.Recurrence
import ScriptEngine.Proofs.Host.Evolution
import ScriptEngine.Proofs.Host.ThrowSite
import ScriptEngine.Proofs.Heap.Closures
import ScriptEngine.Proofs.Code.Forward
import ScriptEngine.Proofs.Machine.Closures
import ScriptEngine.Proofs.Machine.Countdown
import ScriptEngine.Proofs.Host.Termination
import ScriptEngine.Proofs.Tree.Node
import ScriptEngine.Proofs.Code.Legality
import ScriptEngine.Proofs.Code.Strictness
import ScriptEngine.Proofs.Token.Pointing
import ScriptEngine.Proofs.Tree.Blame
import ScriptEngine.Proofs.Tree.Pointing
import ScriptEngine.Proofs.Host.Uncaught
import ScriptEngine.Proofs.Host.EvalScope
