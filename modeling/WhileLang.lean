import WhileLang.Main
import WhileLang.Host.Disk
import WhileLang.Scenario
import WhileLang.Proofs.Engine.BigStep
import WhileLang.Proofs.Scope.Sound
import WhileLang.Proofs.Document.Alias
import WhileLang.Proofs.Document.RoundTrip
import WhileLang.Proofs.Engine.Moves
import WhileLang.Proofs.Engine.Limit
import WhileLang.Proofs.Engine.Replay
import WhileLang.Proofs.Document.Bounded
import WhileLang.Proofs.Engine.Answers
import WhileLang.Proofs.Document.Circular
import WhileLang.Proofs.Document.Grammar
import WhileLang.Proofs.Document.Yields
import WhileLang.Proofs.Document.Format
import WhileLang.Proofs.Document.Rename
import WhileLang.Proofs.Engine.Equivalent
import WhileLang.Proofs.Layout.Parse
import WhileLang.Proofs.Layout.Meaning
import WhileLang.Proofs.Layout.Expression
import WhileLang.Proofs.Engine.Depth
import WhileLang.Proofs.Command.Verdict
import WhileLang.Proofs.Document.Located
import WhileLang.Proofs.Trace.Summary
import WhileLang.Proofs.Position
import WhileLang.Proofs.Engine.Dependence
import WhileLang.Proofs.Engine.Frame
import WhileLang.Proofs.Engine.LoopFree
import WhileLang.Proofs.Engine.Regroup
import WhileLang.Proofs.Scope.Path
import WhileLang.Proofs.Scope.Wellformed
import WhileLang.Proofs.Scope.Richer
import WhileLang.Proofs.Env.History
import WhileLang.Proofs.Engine.Arithmetic
import WhileLang.Proofs.Report
import WhileLang.Proofs.Engine.Normal
