import RoomLedger.Main
import RoomLedger.Proofs.SortedContents
import RoomLedger.Proofs.KeyScan
import RoomLedger.Proofs.TableContents
import RoomLedger.Proofs.DeltaTrace
import RoomLedger.Proofs.SessionStack
import RoomLedger.Proofs.SnapshotRefinement
import RoomLedger.Proofs.RecordEdits
import RoomLedger.Proofs.RuleWrites
import RoomLedger.Proofs.FailureTraces
import RoomLedger.Proofs.StoredRecords
import RoomLedger.Proofs.RecordLookups
import RoomLedger.Proofs.LedgerKeys
import RoomLedger.Proofs.GroundedWrites
import RoomLedger.Proofs.RuleSettlement
import RoomLedger.Proofs.ExactShares
import RoomLedger.Proofs.CoreSupply
import RoomLedger.Proofs.Settlement
import RoomLedger.Proofs.GenesisState
import RoomLedger.Proofs.ProperChanges
import RoomLedger.Proofs.ChainRuns
import RoomLedger.Proofs.ApprovalSafety
import RoomLedger.Proofs.SupplyConservation
import RoomLedger.Proofs.UniqueLookups
import RoomLedger.Proofs.WriteSteps
import RoomLedger.Proofs.RecordReferences
import RoomLedger.Proofs.RuleSteps
import RoomLedger.Proofs.OrderlyRules
import RoomLedger.Proofs.Transitions
import RoomLedger.Proofs.BlockHistory
import RoomLedger.Proofs.LedgerIntegrity
import RoomLedger.Proofs.ContentReads
import RoomLedger.Proofs.RoomKeys
import RoomLedger.Proofs.RoomConfinement
import RoomLedger.Proofs.RoomRules
import RoomLedger.Proofs.RoomInvariant
import RoomLedger.Proofs.AuthorizedChanges
import RoomLedger.Proofs.UniformChanges
import RoomLedger.Proofs.DecidedChanges
import RoomLedger.Proofs.FaithfulReplay
import RoomLedger.Proofs.ListingIntegrity
import RoomLedger.Proofs.PendingChanges
import RoomLedger.Proofs.BinaryReading
import RoomLedger.Proofs.BinaryForms
import RoomLedger.Proofs.StateRecovery
import RoomLedger.Proofs.OperationLineage
import RoomLedger.Proofs.KeyGrants
import RoomLedger.Proofs.KeyProvenance
import RoomLedger.Proofs.LastingRecords
import RoomLedger.Proofs.SessionStates
import RoomLedger.Proofs.HaltLatch
import RoomLedger.Proofs.SessionLife
import RoomLedger.Proofs.BlockNotices
import RoomLedger.Proofs.Replicas
import RoomLedger.Proofs.LogFrames
import RoomLedger.Proofs.CoveredChanges
import RoomLedger.Proofs.LooserLimits
import RoomLedger.Proofs.NestedSessions
import RoomLedger.Proofs.TransactionSequences
import RoomLedger.Proofs.TextReading
import RoomLedger.Proofs.TreeReading
import RoomLedger.Proofs.JsonForms
import RoomLedger.Proofs.MeasuredForms
import RoomLedger.Proofs.JsonLogs
import RoomLedger.Proofs.RecordScans
import RoomLedger.Proofs.RecordLists
import RoomLedger.Proofs.ReachedStates
import RoomLedger.Proofs.BalanceMoves
import RoomLedger.Proofs.FeePayments
import RoomLedger.Proofs.FeeCharges
import RoomLedger.Proofs.RoomRotation
import RoomLedger.Proofs.CascadingDeletes
import RoomLedger.Proofs.LenientReading
import RoomLedger.Proofs.LenientForms
import RoomLedger.Proofs.TransparentCommits
import RoomLedger.Proofs.GenesisLists
import RoomLedger.Proofs.GenesisAccounts
import RoomLedger.Proofs.ReceiptEntries
import RoomLedger.Proofs.PackedOrder
import RoomLedger.Proofs.FeeArithmetic
import RoomLedger.Proofs.IdGrammar
import RoomLedger.Proofs.NoticeDelivery
