import FrameLog.Json.Form
import FrameLog.Main
import FrameLog.Proofs.CallGraph.ChainQuery
import FrameLog.Proofs.Join.Plain
import FrameLog.Proofs.Lookup
import FrameLog.Proofs.Query.Printing
import FrameLog.Proofs.Session
import FrameLog.Proofs.Join.Polarity
import FrameLog.Proofs.Query.Obtained
import FrameLog.Proofs.Query.Vocabulary
import FrameLog.Proofs.Session.Unrelated
import FrameLog.Proofs.Session.Schema
import FrameLog.Proofs.Session.Verdict
import FrameLog.Proofs.Text.Lines
import FrameLog.Proofs.Trace
import FrameLog.Proofs.CallGraph.Line
import FrameLog.Proofs.Trace.Evidence
import FrameLog.Proofs.Trace.Diagnosis
import FrameLog.Proofs.FactTexts
import FrameLog.Proofs.Session.Traversal
import FrameLog.Proofs.Json.RoundTrip
import FrameLog.Proofs.FactBase.Acceptance
import FrameLog.Proofs.Trace.Shape
import FrameLog.Proofs.CallGraph.Chain
import FrameLog.Proofs.Query.Conditions
import FrameLog.Proofs.Matching.Unifier
import FrameLog.Proofs.Discovery
import FrameLog.Proofs.ChainCache
import FrameLog.Proofs.Agreement.Coherence
import FrameLog.Proofs.Binding.Merging
import FrameLog.Proofs.Join.Conflict
import FrameLog.Proofs.FactBase.Filing
import FrameLog.Proofs.Query.Separators
import FrameLog.Proofs.Invocation
