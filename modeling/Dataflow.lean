import Dataflow.Series.Named
import Dataflow.Proofs.Retry
import Dataflow.Tagged.Operator
import Dataflow.Main
import Dataflow.Proofs.Failure
import Dataflow.Proofs.Series.Lookback
import Dataflow.Proofs.Streaming.Program
import Dataflow.Proofs.Script.WellScoped
import Dataflow.Proofs.Session.Replay
import Dataflow.Proofs.Graph.Display
import Dataflow.Proofs.Definition.Sharing
import Dataflow.Proofs.Compile.Crash
import Dataflow.Proofs.Frame.Join
import Dataflow.Proofs.Connector.Lines
import Dataflow.Proofs.Connector.Records
import Dataflow.Proofs.Registry
import Dataflow.Proofs.Series.Gaps
import Dataflow.Proofs.Series.Warmup
import Dataflow.Proofs.Indicator.Safety
import Dataflow.Proofs.Script.Comment
import Dataflow.Proofs.Script.Program
import Dataflow.Proofs.Script.Literal
