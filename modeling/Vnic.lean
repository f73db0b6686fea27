import Vnic.Lib.StepSystem
import Vnic.Lib.Chain
import Vnic.Basic
import Vnic.Fifo
import Vnic.Memory
import Vnic.RxQueue
import Vnic.Proofs.Memory
import Vnic.Proofs.RxQueue
import Vnic.Lib.Ledger
import Vnic.Proofs.Ownership
import Vnic.RxSystem
import Vnic.Proofs.RxSystem
import Vnic.Proofs.RxPeriod
import Vnic.Link
import Vnic.TxQueue
import Vnic.Proofs.Forward
import Vnic.Lifecycle
import Vnic.Proofs.Lifecycle
import Vnic.Parser
import Vnic.Rss
import Vnic.Validate
import Vnic.Port
import Vnic.System
import Vnic.Proofs.Symmetric
import Vnic.Proofs.Port
import Vnic.Lib.Row
import Vnic.Proofs.Rows
import Vnic.Proofs.DataPath
import Vnic.Proofs.System
import Vnic.Proofs.Control
import Vnic.Proofs.Custody
import Vnic.Proofs.Accounting
import Vnic.Proofs.Parser
import Vnic.Proofs.Pipeline
import Vnic.Proofs.LinkDown
import Vnic.Proofs.Configure
import Vnic.Proofs.Burst
import Vnic.Proofs.Grammar
import Vnic.Lib.OnesComplement
import Vnic.Proofs.Filter
import Vnic.Proofs.Padding
import Vnic.Lib.BitString
import Vnic.Proofs.Toeplitz
import Vnic.LinkSystem
import Vnic.Proofs.LinkSystem
import Vnic.Proofs.LinkDepth
import Vnic.Lib.BitPoly
import Vnic.Proofs.Crc32
import Vnic.Proofs.FieldMask
import Vnic.Proofs.TxPut
import Vnic.Proofs.Ipv4Header
import Vnic.Proofs.RxDrain
import Vnic.Proofs.LinkTake
import Vnic.Proofs.ParseMac
import Vnic.Proofs.PutFailure
import Vnic.Lib.BoundedQueue
import Vnic.FifoSystem
import Vnic.Proofs.FifoSpan
import Vnic.Proofs.FifoSystem
import Vnic.Proofs.MacText
import Vnic.Lib.Register
import Vnic.Lib.SharedMutex
import Vnic.Proofs.Rcu
import Vnic.Proofs.RetaAccess
import Vnic.FifoWait
import Vnic.Proofs.FifoWait
import Vnic.Proofs.Teardown
import Vnic.Proofs.LinkTeardown
import Vnic.Proofs.FlowOrder
import Vnic.Lib.CreditQueue
import Vnic.Lib.Estate
import Vnic.RxThreads
import Vnic.Proofs.RxThreads
import Vnic.Proofs.Relay
import Vnic.Proofs.Steering
import Vnic.Leaky
import Vnic.Proofs.Leaky
