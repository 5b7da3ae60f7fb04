import TcpCapture.Proofs.Connection.Eviction
import TcpCapture.Proofs.Interval.Search
import TcpCapture.Proofs.Session.Reassembly
import TcpCapture.Proofs.Session.EarlyEnd
import TcpCapture.Proofs.Session.Renumbering
import TcpCapture.Proofs.Session.Teardown
import TcpCapture.Proofs.Session.Summaries
import TcpCapture.Report.Rate
import TcpCapture.Session.Basic
import TcpCapture.Proofs.Flow.Release
import TcpCapture.Proofs.Pdu.Segmentation
import TcpCapture.Proofs.Multipath.SpanIndex
import TcpCapture.Proofs.Multipath.Placement
import TcpCapture.Proofs.Multipath.Accounting
import TcpCapture.Proofs.Multipath.Interleaving
import TcpCapture.Proofs.Session.Isolation
import TcpCapture.Proofs.Session.ArrivalOrder
import TcpCapture.Proofs.Session.Counting
import TcpCapture.Proofs.Session.SynPayload
import TcpCapture.Proofs.Session.Closed
import TcpCapture.Proofs.Flow.Tracking
import TcpCapture.Proofs.Session.Tracking
import TcpCapture.Proofs.Session.Dissection
import TcpCapture.Proofs.Multipath.Handshake
import TcpCapture.Proofs.Multipath.Tokens
import TcpCapture.Proofs.Multipath.Attachment
import TcpCapture.Proofs.Session.Subflows
import TcpCapture.Proofs.Session.Verdicts
import TcpCapture.Proofs.Flow.Skipping
import TcpCapture.Proofs.Session.ReorderLimit
import TcpCapture.Proofs.Pdu.OpenPdu
import TcpCapture.Proofs.Pdu.Tiling
import TcpCapture.Proofs.Flow.Coherence
import TcpCapture.Proofs.Flow.Duplicates
import TcpCapture.Proofs.Session.Acknowledgments
import TcpCapture.Proofs.Pdu.Alignment
import TcpCapture.Proofs.Flow.Exchange
import TcpCapture.Proofs.Flow.KeepAlive
import TcpCapture.Proofs.Flow.UnseenData
import TcpCapture.Proofs.Flow.Replay
import TcpCapture.Proofs.Session.History
import TcpCapture.Proofs.Flow.Following
import TcpCapture.Proofs.Multipath.Locality
import TcpCapture.Proofs.Multipath.Indexing
import TcpCapture.Proofs.Segment.OptionArea
import TcpCapture.Proofs.Session.OpeningSyn
import TcpCapture.Proofs.Session.RepeatedSyn
import TcpCapture.Proofs.Session.WindowScaling
import TcpCapture.Proofs.Session.Lookup
import TcpCapture.Proofs.Session.IdleTimeout
import TcpCapture.Proofs.Session.Renaming
import TcpCapture.Proofs.Pdu.RoundTrip
import TcpCapture.Proofs.Interval.WellFormed
import TcpCapture.Proofs.Interval.Height
import TcpCapture.Proofs.Interval.Iteration
import TcpCapture.Proofs.Multipath.Attribution
import TcpCapture.Proofs.Pdu.EntireSegment
import TcpCapture.Proofs.Connection.Expiry
import TcpCapture.Proofs.Pdu.StandAlone
import TcpCapture.Proofs.Report.Rates
import TcpCapture.Proofs.Multipath.Widening
import TcpCapture.Proofs.Session.Widening
import TcpCapture.Proofs.HalfTurn
import TcpCapture.Proofs.Segment.TrailingOptions
import TcpCapture.Proofs.Session.Reporting
