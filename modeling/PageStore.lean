import PageStore.Main
import PageStore.Session.Run
import PageStore.Lock.Waiting
import PageStore.Proofs.Lock.Histories
import PageStore.Proofs.Pool.Moves
import PageStore.Proofs.Page.Codec
import PageStore.Proofs.Page.Slots
import PageStore.Proofs.Page.RoundTrip
import PageStore.Proofs.Page.Format
import PageStore.Proofs.Storage.Files
import PageStore.Proofs.Pool.Requests
import PageStore.Proofs.Pool.Marks
import PageStore.Proofs.Session.Effects
import PageStore.Proofs.Session.Marks
import PageStore.Proofs.Pool.Faithful
import PageStore.Proofs.Pool.Settled
import PageStore.Proofs.Storage.Names
import PageStore.Proofs.Storage.Tables
import PageStore.Proofs.Ledger
import PageStore.Proofs.Pool.Steady
import PageStore.Proofs.Pool.Kept
import PageStore.Proofs.Session.Committed
import PageStore.Proofs.Pool.Alike
import PageStore.Proofs.Session.CacheSize
import PageStore.Proofs.Pool.Uses
import PageStore.Proofs.Pool.Calls
import PageStore.Proofs.Pool.Visible
import PageStore.Proofs.Pool.TwoPhase
import PageStore.Proofs.Scan
import PageStore.Proofs.Operator.Keeps
import PageStore.Proofs.Session.Requests
import PageStore.Proofs.Session.TwoPhase
import PageStore.Proofs.Pool.Pinned
import PageStore.Proofs.Session.Parts
import PageStore.Proofs.Session.Lengths
import PageStore.Proofs.Session.RepeatableReads
import PageStore.Proofs.Pool.Ended
import PageStore.Proofs.Pool.Failing
import PageStore.Proofs.Operator.Trees
import PageStore.Proofs.Storage.Reopening
import PageStore.Proofs.Pool.FirstFit
import PageStore.Proofs.Pool.Lengths
import PageStore.Proofs.Pool.Placing
import PageStore.Proofs.Pool.Drained
import PageStore.Proofs.Pool.Refused
import PageStore.Proofs.Page.Occupancy
import PageStore.Proofs.Pool.BeforeImages
import PageStore.Proofs.Operator.Totals
import PageStore.Proofs.Pool.Filling
import PageStore.Proofs.Operator.Inserts
import PageStore.Proofs.Storage.Registry
import PageStore.Proofs.Operator.Starts
import PageStore.Proofs.Operator.Faltering
import PageStore.Proofs.Operator.Copies
import PageStore.Proofs.Pool.Errors
import PageStore.Proofs.Operator.Endless
import PageStore.Proofs.Recency
import PageStore.Proofs.Storage.PageArray
import PageStore.Proofs.Lock.Wakeups
import PageStore.Proofs.Page.Geometry
import PageStore.Proofs.Row.Encoding
