import StackLang.Main
import StackLang.Proofs.Token.Lexeme
import StackLang.Proofs.Token.Reading
import StackLang.Proofs.Tree.Printable
import StackLang.Proofs.Tree.RoundTrip
import StackLang.Proofs.Interpreter.Action
import StackLang.Proofs.Machine.Numbers
import StackLang.Proofs.Session.Steps
import StackLang.Proofs.Session.Typing
import StackLang.Proofs.Interpreter.Control
import StackLang.Proofs.Interpreter.Ending
import StackLang.Proofs.Session.Control
import StackLang.Proofs.Text.Cut
import StackLang.Proofs.Text.Encoding
import StackLang.Proofs.Token.Grammar
import StackLang.Proofs.Token.Cursor
import StackLang.Proofs.Token.Acceptance
import StackLang.Proofs.Tree.Acceptance
import StackLang.Proofs.Interpreter.Lockstep
import StackLang.Proofs.Output.Calls
import StackLang.Proofs.Machine.Below
import StackLang.Proofs.Interpreter.Below
import StackLang.Proofs.Token.Seam
import StackLang.Proofs.Interpreter.Sequence
import StackLang.Proofs.Interpreter.Counting
import StackLang.Proofs.Output.Flush
import StackLang.Proofs.Session.Pieces
import StackLang.Proofs.Interpreter.CallDepth
import StackLang.Proofs.Interpreter.Names
import StackLang.Proofs.Output.Delivery
import StackLang.Proofs.Output.Chunks
import StackLang.Proofs.Machine.Puts
import StackLang.Proofs.Machine.Arithmetic
import StackLang.Proofs.Interpreter.Straight
import StackLang.Proofs.Machine.Requests
import StackLang.Proofs.Interpreter.Delivery
import StackLang.Proofs.Session.Delivery
import StackLang.Proofs.Output.Aside
import StackLang.Proofs.Tree.Outline
import StackLang.Proofs.Command.Debugging
import StackLang.Proofs.Session.Tracing
import StackLang.Proofs.Interpreter.Requests
import StackLang.Proofs.Output.Events
import StackLang.Proofs.Output.Answers
import StackLang.Proofs.Output.Tally
import StackLang.Proofs.Session.Lockstep
import StackLang.Proofs.Tree.Faults
import StackLang.Proofs.Machine.Naming
import StackLang.Proofs.Session.Stages
import StackLang.Proofs.Session.Printing
import StackLang.Proofs.Command.Aside
import StackLang.Proofs.Command.Sources
import StackLang.Proofs.Command.ExitCode
import StackLang.Proofs.Command.LastLine
import StackLang.Proofs.Session.Arithmetic
import StackLang.Proofs.Tree.Extension
import StackLang.Proofs.Token.Culprit
import StackLang.Proofs.Token.Progress
import StackLang.Proofs.Source.Line
import StackLang.Proofs.Source.Caret
import StackLang.Proofs.Scope.History
import StackLang.Proofs.Output.Tee
import StackLang.Proofs.Output.FanOut
import StackLang.Proofs.Output.Rounds
import StackLang.Proofs.Session.Settings
import StackLang.Proofs.Command.Layering
import StackLang.Proofs.Log.Framing
import StackLang.Proofs.Log.Lines
import StackLang.Proofs.Output.Accounting
import StackLang.Proofs.Failure.Isolation
import StackLang.Proofs.Token.Dump
import StackLang.Proofs.Tree.Document
import StackLang.Proofs.Session.Shown
