import Tlsn.Library.Bytes
import Tlsn.Library.Assoc
import Tlsn.Library.Fault
import Tlsn.Library.Triple
import Tlsn.Library.HashTree
import Tlsn.Library.PolyHash
import Tlsn.Library.RangeSet
import Tlsn.Library.Sha256
import Tlsn.Library.Prf
import Tlsn.Library.Circuit
import Tlsn.Library.ChaCha
import Tlsn.Library.Incremental
import Tlsn.Library.Loop
import Tlsn.Library.Lucas
import Tlsn.Formats.Json
import Tlsn.Formats.Http
import Tlsn.Hmac.HmacSha256
import Tlsn.Hmac.Prf
import Tlsn.Tls.Prf
import Tlsn.Tls.LimitedCache
import Tlsn.Tls.VecBuf
import Tlsn.Tls.Record
import Tlsn.Tls.Deframer
import Tlsn.Tls.HsJoiner
import Tlsn.Tls.RustCrypto
import Tlsn.Tls.BackendLink
import Tlsn.Tls.CommonState
import Tlsn.Tls.Connection
import Tlsn.Tls.ConnectionErrors
import Tlsn.Tls.WriteAll
import Tlsn.Hmac.SessionKeys
import Tlsn.Core.Attestation
import Tlsn.Core.Commit
import Tlsn.Core.Disclosure
import Tlsn.Core.Encoder
import Tlsn.Core.EncoderAccess
import Tlsn.Core.EncodingProof
import Tlsn.Core.EncodingSoundness
import Tlsn.Core.EncodingTree
import Tlsn.Core.Hash
import Tlsn.Core.Merkle
import Tlsn.Core.Transcript
import Tlsn.Core.Serialize
import Tlsn.Core.Body
import Tlsn.Core.AttestationBuilder
import Tlsn.Core.FieldHashes
import Tlsn.Core.AttestationComplete
import Tlsn.Core.AttestationTamper
import Tlsn.Core.CompressedTranscript
import Tlsn.Core.PartialTranscript
import Tlsn.Core.Redaction
import Tlsn.Core.TranscriptProof
import Tlsn.Verifier.Config
import Tlsn.Verifier.RecordCounts
import Tlsn.Verifier.ReceivedData
import Tlsn.Common.Transcript
import Tlsn.Common.TranscriptRefs
import Tlsn.Common.ZkAes
import Tlsn.Common.RecordProof
import Tlsn.Common.RecordBinding
import Tlsn.Cipher.Vm
import Tlsn.Cipher.Allocation
import Tlsn.Cipher.Keystream
import Tlsn.MpcTls.AesCtr
import Tlsn.MpcTls.AesGcm
import Tlsn.MpcTls.Decrypt
import Tlsn.MpcTls.Encrypt
import Tlsn.MpcTls.DecryptOps
import Tlsn.MpcTls.KeystreamCalls
import Tlsn.MpcTls.KeystreamLayout
import Tlsn.MpcTls.Decode
import Tlsn.MpcTls.Error
import Tlsn.MpcTls.Ghash
import Tlsn.MpcTls.GhashField
import Tlsn.MpcTls.GhashShares
import Tlsn.MpcTls.RecordBatch
import Tlsn.MpcTls.RecordFlush
import Tlsn.MpcTls.RecordErrors
import Tlsn.MpcTls.RecordLimits
import Tlsn.MpcTls.LengthAccounting
import Tlsn.MpcTls.ErrorText
import Tlsn.MpcTls.Rejections
import Tlsn.MpcTls.RecordTranscript
import Tlsn.MpcTls.RecordRun
import Tlsn.MpcTls.RecordStart
import Tlsn.MpcTls.RecordCommit
import Tlsn.MpcTls.RecordLayer
import Tlsn.MpcTls.RecordOps
import Tlsn.MpcTls.TagInputs
import Tlsn.MpcTls.Tags
import Tlsn.MpcTls.TagsCorrect
import Tlsn.MpcTls.GhashCorrect
import Tlsn.Tls.Enums
import Tlsn.Tls.Messages
import Tlsn.MpcTls.Message
import Tlsn.MpcTls.Follower
import Tlsn.MpcTls.TranscriptCheck
import Tlsn.MpcTls.Leader
import Tlsn.MpcTls.LeaderRun
import Tlsn.MpcTls.Framing
import Tlsn.MpcTls.VmLog
import Tlsn.MpcTls.PadDraws
import Tlsn.MpcTls.PadAccounting
import Tlsn.MpcTls.PadMasks
import Tlsn.MpcTls.Unpulled
import Tlsn.MpcTls.DecryptionPaths
import Tlsn.MpcTls.RecordWaiting
import Tlsn.MpcTls.FollowerRun
import Tlsn.MpcTls.FollowerTranscript
import Tlsn.Prover.Config
import Tlsn.Prover.Prove
import Tlsn.Library.Interleaving
import Tlsn.Backend.BankService
import Tlsn.Backend.Payouts
import Tlsn.Backend.FailedPayouts
import Tlsn.Backend.WalletService
import Tlsn.Backend.FiatPayments
import Tlsn.Verifier.PlaintextRefs
import Tlsn.Verifier.Verify
import Tlsn.Core.ProofPanics
import Tlsn.Prover.Notarize
import Tlsn.Common.Encoding
import Tlsn.MpcTls.LeaderSteps
import Tlsn.MpcTls.LeaderTrace
import Tlsn.MpcTls.ReleaseOrder
import Tlsn.KeyExchange.P256
import Tlsn.KeyExchange.PointAddition
import Tlsn.KeyExchange.Exchange
import Tlsn.KeyExchange.Run
import Tlsn.KeyExchange.Steps
import Tlsn.DualExecution.Vm
import Tlsn.DualExecution.Deap
import Tlsn.DualExecution.Operations
import Tlsn.DualExecution.Mirror
import Tlsn.DualExecution.Finalize
