import Reactions.Admission.Decision
import Reactions.Admission.Secrets
import Reactions.Arithmetic.Fields
import Reactions.Arithmetic.Ladder
import Reactions.Arithmetic.Residue
import Reactions.BabyJubJub.Ciphertext
import Reactions.BabyJubJub.ElGamal
import Reactions.BabyJubJub.Generator
import Reactions.BabyJubJub.Point
import Reactions.Bn254.Curve
import Reactions.Bn254.Pairing
import Reactions.Bn254.Tower
import Reactions.Bytes.Bytes32
import Reactions.Bytes.Hex
import Reactions.Digest.KeyDerivation
import Reactions.Digest.Sha256
import Reactions.Groth16.Key
import Reactions.Groth16.KeyCache
import Reactions.Groth16.KeyDocument
import Reactions.Groth16.Proof
import Reactions.Groth16.Statement
import Reactions.Json.Magnitude
import Reactions.Json.Node
import Reactions.Json.Reader
import Reactions.Json.Record
import Reactions.Json.Text
import Reactions.Json.Value
import Reactions.Ledger.Lookup
import Reactions.Ledger.Processing
import Reactions.Main
import Reactions.Membership.Events
import Reactions.Membership.Registry
import Reactions.Merkle.Level
import Reactions.Merkle.Tree
import Reactions.Node.CommandLine
import Reactions.Node.Config
import Reactions.Node.File
import Reactions.Node.KeyFile
import Reactions.Node.Log
import Reactions.Node.PathName
import Reactions.Node.Replay
import Reactions.Node.Run
import Reactions.Poseidon.Grain
import Reactions.Poseidon.Permutation
import Reactions.Proofs.Admission.BoundStatements
import Reactions.Proofs.Admission.MemberlessFeeds
import Reactions.Proofs.Admission.RootWindow
import Reactions.Proofs.Admission.Verdict
import Reactions.Proofs.Arithmetic.Primality
import Reactions.Proofs.Arithmetic.ResidueRing
import Reactions.Proofs.BabyJubJub.Decryption
import Reactions.Proofs.BabyJubJub.Edwards
import Reactions.Proofs.BabyJubJub.GroupLaws
import Reactions.Proofs.BabyJubJub.PointGroup
import Reactions.Proofs.BabyJubJub.VoteSum
import Reactions.Proofs.Basic
import Reactions.Proofs.Bytes.CanonicalWords
import Reactions.Proofs.Bytes.Encoding
import Reactions.Proofs.Bytes.HexGrammar
import Reactions.Proofs.Bytes.HexText
import Reactions.Proofs.Groth16.CacheRoundTrip
import Reactions.Proofs.Groth16.Infinity
import Reactions.Proofs.Groth16.KeyCoordinates
import Reactions.Proofs.Groth16.KeyTriples
import Reactions.Proofs.Groth16.ProofLayout
import Reactions.Proofs.Json.ReadBack
import Reactions.Proofs.Json.RenderedText
import Reactions.Proofs.Json.Tagged
import Reactions.Proofs.Ledger.Attempt
import Reactions.Proofs.Ledger.AuditLog
import Reactions.Proofs.Ledger.AuditNumbers
import Reactions.Proofs.Ledger.Counts
import Reactions.Proofs.Ledger.History
import Reactions.Proofs.Ledger.Indexing
import Reactions.Proofs.Ledger.Outcomes
import Reactions.Proofs.Ledger.Reordering
import Reactions.Proofs.Ledger.TallySum
import Reactions.Proofs.Membership.Interleavings
import Reactions.Proofs.Membership.Outcomes
import Reactions.Proofs.Membership.RecentRoots
import Reactions.Proofs.Membership.RootHistory
import Reactions.Proofs.Membership.Witnesses
import Reactions.Proofs.Merkle.FullTree
import Reactions.Proofs.Merkle.Paths
import Reactions.Proofs.Merkle.SmallTrees
import Reactions.Proofs.Merkle.Soundness
import Reactions.Proofs.Node.Accounts
import Reactions.Proofs.Node.AdmittedVotes
import Reactions.Proofs.Node.AuditTrail
import Reactions.Proofs.Node.BuiltVerifiers
import Reactions.Proofs.Node.Clients
import Reactions.Proofs.Node.Counters
import Reactions.Proofs.Node.HandedOn
import Reactions.Proofs.Node.KeyFiles
import Reactions.Proofs.Node.LogText
import Reactions.Proofs.Node.Pipeline
import Reactions.Proofs.Node.Requests
import Reactions.Proofs.Node.Schedules
import Reactions.Proofs.Node.Tasks
import Reactions.Proofs.Poseidon.Numerals
import Reactions.Proofs.Rows.RoundTrip
import Reactions.Proofs.Store.Alone
import Reactions.Proofs.Store.AuditReads
import Reactions.Proofs.Store.Contracts
import Reactions.Proofs.Store.DueFailures
import Reactions.Proofs.Store.Endings
import Reactions.Proofs.Store.Frame
import Reactions.Proofs.Store.OwnWrites
import Reactions.Proofs.Store.PastReads
import Reactions.Proofs.Store.Retries
import Reactions.Proofs.Store.Serializability
import Reactions.Proofs.Store.TableRows
import Reactions.Proofs.Store.Times
import Reactions.Proofs.Store.Transactions
import Reactions.Proofs.Store.Transcript
import Reactions.Proofs.Text.Digits
import Reactions.Proofs.Text.Timestamps
import Reactions.Proofs.Text.Utf8
import Reactions.Rows.Identifier
import Reactions.Rows.LedgerRow
import Reactions.Rows.Member
import Reactions.Rows.MembershipEvent
import Reactions.Rows.Reaction
import Reactions.Rows.Tally
import Reactions.Rows.VoteJson
import Reactions.Store.Basic
import Reactions.Store.Program
import Reactions.Store.Retry
import Reactions.Store.Table
import Reactions.Store.UnitOfWork
import Reactions.Store.Work
import Reactions.Text.Blank
import Reactions.Text.Decimal
import Reactions.Text.Timestamp
import Reactions.Verifier.KeyRing
import Reactions.Verifier.Verdict
