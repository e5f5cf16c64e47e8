import Xtls.Lib.Octets
import Xtls.Lib.Bpf
import Xtls.Lib.Run
import Xtls.Lib.Layout
import Xtls.Lib.Fifo
import Xtls.Lib.TailQueue
import Xtls.Lib.Walk
import Xtls.Lib.Framing
import Xtls.Lib.Endian
import Xtls.Lib.Der
import Xtls.Lib.Tls
import Xtls.Nic.Ring
import Xtls.Nic.Types
import Xtls.Nic.State
import Xtls.Nic.Pool
import Xtls.Nic.Crypto
import Xtls.Lib.Hkdf
import Xtls.Nic.Hkdf
import Xtls.Lib.KeySchedule
import Xtls.Nic.Tcp
import Xtls.Nic.Send
import Xtls.Nic.Keys
import Xtls.Nic.ServerHello
import Xtls.Nic.Unpack
import Xtls.Lib.Orbit
import Xtls.Nic.Extensions
import Xtls.Nic.ExtensionList
import Xtls.Nic.HelloBounds
import Xtls.Nic.Handle
import Xtls.Nic.Packet
import Xtls.Nic.Wire
import Xtls.Nic.System
import Xtls.Nic.Ranges
import Xtls.Nic.HashTable
import Xtls.Nic.Frame
import Xtls.Nic.Records
import Xtls.Nic.Read
import Xtls.Nic.Serve
import Xtls.Nic.Steps
import Xtls.Lib.History
import Xtls.Nic.Segments
import Xtls.Nic.TxQueue
import Xtls.Nic.Among
import Xtls.Nic.OpFacts
import Xtls.Nic.Lifetime
import Xtls.Nic.Greeting
import Xtls.Nic.Placement
import Xtls.Lib.Labelled
import Xtls.Nic.Lifecycle
import Xtls.Nic.Conduct
import Xtls.Nic.Course
import Xtls.Nic.AppData
import Xtls.Nic.SynDuplicate
import Xtls.Nic.SynCookie
import Xtls.Nic.Outgoing
import Xtls.Nic.Migration
import Xtls.Lib.Throws
import Xtls.Nic.Halts
import Xtls.Nic.Stops
import Xtls.Nic.FlightSize
import Xtls.Nic.Flight
import Xtls.Nic.ClientFlight
import Xtls.Nic.HandOff
import Xtls.Lib.Reassembly
import Xtls.Nic.Order
import Xtls.Nic.Assembly
import Xtls.Nic.Delivery
import Xtls.Nic.KeySchedule
import Xtls.Nic.Handshake
import Xtls.Nic.Packing
import Xtls.Nic.Signature
import Xtls.Nic.Nonces
import Xtls.Nic.Slots
import Xtls.Lib.Relates
import Xtls.Nic.Twin
import Xtls.Nic.TwinSend
import Xtls.Nic.TwinRead
import Xtls.Nic.TwinRun
import Xtls.Nic.SeqShift
import Xtls.Lib.Shares
import Xtls.Nic.CryptoCount
import Xtls.Nic.Workers
import Xtls.Nic.Splitting
import Xtls.Nic.DecryptBounds
import Xtls.Nic.Ledger
import Xtls.Nic.Life
import Xtls.Nic.Registry
import Xtls.Nic.MainLoop
import Xtls.Nic.Leaks
import Xtls.Nic.AuthInvariant
import Xtls.Nic.FinishedAuth
import Xtls.Lib.Ecdsa
import Xtls.Nic.CertificateKey
import Xtls.Lib.Ownership
import Xtls.Nic.Cores
import Xtls.Nic.CoreRuns
import Xtls.Nic.Custody
import Xtls.Nic.WorkerSteps
import Xtls.Nic.CoresSound
import Xtls.Nic.StateMatch
import Xtls.Nic.Completions
import Xtls.Nic.CoreSim
import Xtls.Nic.Refinement
import Xtls.Host.Meta
import Xtls.Host.Handover
import Xtls.Host.Filter
import Xtls.Host.Conn
import Xtls.Host.Response
import Xtls.Host.Request
import Xtls.Host.KeepAlive
import Xtls.Host.RecvBytes
import Xtls.Host.Thread
import Xtls.Host.Upkeep
import Xtls.Host.Outcome
import Xtls.Host.Loop
import Xtls.Host.KeyPacket
import Xtls.Host.Entries
import Xtls.Host.MigFin
import Xtls.Lib.Joint
import Xtls.Host.Protocol
import Xtls.Host.FileCache
import Xtls.Host.Frames
