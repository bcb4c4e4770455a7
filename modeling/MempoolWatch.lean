import MempoolWatch.Main
import MempoolWatch.Proofs.Call.RoundTrip
import MempoolWatch.Json.Spelling
import MempoolWatch.Params.JsonForm
import MempoolWatch.Proofs.Detection
import MempoolWatch.Proofs.Pipeline.Accounting
import MempoolWatch.Proofs.Pipeline.Permits
import MempoolWatch.Proofs.Pipeline.Liveness
import MempoolWatch.Proofs.Pipeline.Statistics
import MempoolWatch.Proofs.Subscription
import MempoolWatch.Proofs.Counters
import MempoolWatch.Proofs.Gating
import MempoolWatch.Proofs.Pipeline.Listening
import MempoolWatch.Proofs.Rpc.Agreement
import MempoolWatch.Proofs.Call.Calldata
import MempoolWatch.Proofs.Rpc.Failure
import MempoolWatch.Proofs.Pipeline.Drain
import MempoolWatch.Proofs.Estimate
import MempoolWatch.Proofs.Isolation
import MempoolWatch.Proofs.Params.Keys
import MempoolWatch.Proofs.Params.Overlay
import MempoolWatch.Proofs.Toml.Order
import MempoolWatch.Proofs.Tagger
import MempoolWatch.Proofs.Report.StatusLine
import MempoolWatch.Proofs.Report.Numbering
import MempoolWatch.Proofs.Report.Limit
import MempoolWatch.Proofs.Report.Screen
import MempoolWatch.Proofs.Pipeline.Order
import MempoolWatch.Proofs.Rpc.Answer
import MempoolWatch.Proofs.Frame
import MempoolWatch.Proofs.Identifier
import MempoolWatch.Proofs.Params.Range
import MempoolWatch.Proofs.Quantity
import MempoolWatch.Proofs.Transaction
