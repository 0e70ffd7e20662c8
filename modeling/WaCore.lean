import WaCore.Lib.Bytes
import WaCore.Lib.Utf8
import WaCore.Lib.Parser
import WaCore.Lib.Effect
import WaCore.Binary.Token
import WaCore.Binary.Jid
import WaCore.Binary.Node
import WaCore.Binary.Decoder
import WaCore.Binary.DecoderStack
import WaCore.Binary.SkipAgree
import WaCore.Binary.Stream
import WaCore.Binary.StackUse
import WaCore.Binary.SizePlan
import WaCore.Binary.Encoder
import WaCore.Binary.ExactMarshal
import WaCore.Binary.Received
import WaCore.Binary.WireStrings
import WaCore.Binary.RoundTrip
import WaCore.AppState.Proto
import WaCore.Lib.KeyedStore
import WaCore.Lib.Lanes
import WaCore.AppState.Hash
import WaCore.AppState.Record
import WaCore.AppState.Genesis
import WaCore.AppState.Store
import WaCore.AppState.Sync
import WaCore.AppState.SyncRuns
import WaCore.AppState.Versions
import WaCore.AppState.Handback
import WaCore.AppState.HashAgreement
import WaCore.AppState.SenderReceiver
import WaCore.Binary.StreamWindow
import WaCore.Binary.StreamAgree
import WaCore.Lib.Backlog
import WaCore.Lib.Counter
import WaCore.Signal.CounterLease
import WaCore.Signal.Keys
import WaCore.Signal.GroupCipher
import WaCore.Signal.GroupReceiver
import WaCore.Signal.GroupDelivery
import WaCore.Lib.Lease
import WaCore.Signal.Ratchet
import WaCore.Signal.SessionState
import WaCore.Signal.SessionRecord
import WaCore.Signal.SessionCipher
import WaCore.Signal.SessionCheckout
import WaCore.Lib.Keeps
import WaCore.Signal.SessionFrames
import WaCore.Signal.SessionOutcomes
import WaCore.Lib.Splitter
import WaCore.Noise.Framing
import WaCore.Noise.FrameStream
import WaCore.Noise.Cipher
import WaCore.Noise.Sender
import WaCore.Noise.SenderWire
import WaCore.Lib.TokenPattern
import WaCore.Noise.Handshake
import WaCore.Noise.Responder
import WaCore.Noise.HandshakeAgree
import WaCore.Noise.Runner
import WaCore.Noise.Handover
import WaCore.Noise.Exchange
import WaCore.Noise.CertChain
import WaCore.Lib.InPlace
import WaCore.Send.Fanout
import WaCore.Send.Dm
import WaCore.Send.DmRouting
import WaCore.Signal.SenderChainDrop
import WaCore.Lib.Wire
import WaCore.Signal.RecordBytes
import WaCore.Signal.RecordRoundTrip
import WaCore.Signal.RecordReload
import WaCore.AppState.SnapshotFold
import WaCore.Signal.GroupRecords
import WaCore.Signal.GroupReplay
import WaCore.Lib.Eviction
import WaCore.Signal.SkippedKeys
import WaCore.Binary.TokenTable
import WaCore.Store.IdentityContinuity
import WaCore.Binary.TokenBuild
import WaCore.Binary.TokenLookup
import WaCore.Lib.Decimal
import WaCore.Binary.JidRoundTrip
import WaCore.Binary.JidAttributes
import WaCore.Inbound.CommitBatch
import WaCore.Inbound.DrainTasks
import WaCore.Lib.BatchQueue
import WaCore.Inbound.CommitQueue
import WaCore.Inbound.DrainOrder
import WaCore.Store.LidPnCache
import WaCore.Send.GroupRepair
import WaCore.Signal.RecordComponents
import WaCore.Signal.SessionSteps
import WaCore.Inbound.OfflinePull
import WaCore.Inbound.DispatchGate
import WaCore.Signal.FlushScheduler
import WaCore.Send.DmPlaintexts
import WaCore.Store.PersistenceManager
import WaCore.Send.ReportingToken
import WaCore.Signal.SessionAtomic
import WaCore.Lib.RankedDedup
import WaCore.HistorySync.LidMappings
import WaCore.Send.RepairContinuity
import WaCore.Signal.GroupLease
import WaCore.Voip.SplitRed
