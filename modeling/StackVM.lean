import StackVM.Main
import StackVM.Trail
import StackVM.Proofs.Codec
import StackVM.Proofs.Action
import StackVM.Proofs.Exec
import StackVM.Proofs.FailurePoint
import StackVM.Proofs.StepLimit
import StackVM.Proofs.AssemblyLines
import StackVM.Proofs.Layout
import StackVM.Proofs.Lexemes
import StackVM.Proofs.ListingText
import StackVM.Proofs.Reassembly
import StackVM.Proofs.Sequencing
import StackVM.Proofs.WellFormedRun
import StackVM.Proofs.StackFrame
import StackVM.Proofs.WordBytes
import StackVM.Proofs.AssemblyGrammar
import StackVM.Proofs.EventLog
import StackVM.Proofs.Literals
import StackVM.Proofs.CanonicalText
import StackVM.Proofs.MemoryHistory
import StackVM.Proofs.ListingTokens
import StackVM.Proofs.ListingWalk
import StackVM.Proofs.ListingRun
import StackVM.Proofs.OptionPairs
import StackVM.Proofs.FileChanges
import StackVM.Proofs.Commands
import StackVM.Proofs.RunCommand
import StackVM.Proofs.FileRoundTrip
import StackVM.Proofs.CallerContext
import StackVM.Proofs.Postfix
import StackVM.Proofs.Quotient
import StackVM.Proofs.DecodeFault
import StackVM.Proofs.AssemblyParts
import StackVM.Proofs.LetterCase
import StackVM.Proofs.LayoutEdits
import StackVM.Proofs.LineFaults
import StackVM.Proofs.PathSuffix
import StackVM.Proofs.AssembleCommand
import StackVM.Proofs.Usage
import StackVM.Proofs.OptionOrder
import StackVM.Proofs.RingExpr
import StackVM.Proofs.Spelling
import StackVM.Proofs.LoopBounds
import StackVM.Proofs.FailureText
