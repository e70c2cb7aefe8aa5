import HookExecutor.Verification.Reads
import HookExecutor.Verification.Writes
import HookExecutor.Verification.Integrity
import HookExecutor.Verification.Lineage
import HookExecutor.Verification.Authentication
import HookExecutor.Verification.Invariant
import HookExecutor.Verification.Reachability
import HookExecutor.Verification.Amplification
import HookExecutor.Verification.Reissue
import HookExecutor.Verification.Sample
import HookExecutor.Verification.ReplayMemory
import HookExecutor.Verification.SignedRequests
import HookExecutor.Verification.ManagerSigning
import HookExecutor.Verification.SingleUse
import HookExecutor.Verification.Keyless
import HookExecutor.Verification.Ownership
import HookExecutor.Verification.HookCreation
import HookExecutor.Verification.Deletion
import HookExecutor.Verification.Cascade
import HookExecutor.Verification.HookEffects
import HookExecutor.Verification.KeyEffects
import HookExecutor.Verification.Runs
import HookExecutor.Verification.MasterImmutability
import HookExecutor.Verification.HookCustody
import HookExecutor.Verification.HookTakeover
import HookExecutor.Verification.RevocationParity
import HookExecutor.Verification.TwoWorlds
import HookExecutor.Verification.ExecutionOracle
import HookExecutor.Verification.DeletionCut
import HookExecutor.Verification.ElevationRace
import HookExecutor.Verification.ScopeRace
import HookExecutor.Verification.Listings
import HookExecutor.Verification.MinimalView
import HookExecutor.Verification.MasterPin
import HookExecutor.Verification.UniformRefusal
import HookExecutor.Verification.ManagerSecrets
import HookExecutor.Verification.TrashRace
import HookExecutor.Verification.HookSecrets
import HookExecutor.Verification.GrantRace
import HookExecutor.Verification.HookAbsence
import HookExecutor.Verification.TrashedHook
import HookExecutor.Verification.Freshness
import HookExecutor.Verification.IdealMemory
import HookExecutor.Verification.Budgets
import HookExecutor.Verification.ProxyTrust
import HookExecutor.Verification.UpdateAuthority
import HookExecutor.Verification.NetworkLast
import HookExecutor.Verification.UnverifiedNoise
import HookExecutor.Verification.Bindings
import HookExecutor.Verification.TrashClock
import HookExecutor.Verification.DryRun
import HookExecutor.Verification.CanonicalTemplate
import HookExecutor.Verification.HookSignatures
import HookExecutor.Verification.ArgsTemplate
import HookExecutor.Verification.Expansion
import HookExecutor.Verification.StoredContracts
import HookExecutor.Verification.TemplateAcceptance
import HookExecutor.Verification.ForbiddenSequences
import HookExecutor.Lib.JsonText
import HookExecutor.Verification.ParameterMerge
import HookExecutor.Verification.NulFreePlans
import HookExecutor.Verification.OutputCapture
import HookExecutor.Verification.ReplayBound
import HookExecutor.Verification.StoredSecrets
import HookExecutor.Verification.ParameterVariables
import HookExecutor.Verification.CallerConfinement
import HookExecutor.Lib.LexicalWalk
import HookExecutor.Verification.ScriptContainment
import HookExecutor.Forwarding
import HookExecutor.Verification.HeaderText
import HookExecutor.Verification.ClientAddress
import HookExecutor.Verification.RetentionSweeps
import HookExecutor.Lib.Paging
import HookExecutor.Verification.PagedHistory
import HookExecutor.Verification.DeletionRace
import HookExecutor.Executor.Process
import HookExecutor.Verification.Supervision
import HookExecutor.Lib.Ledger
import HookExecutor.Verification.Lifetime
import HookExecutor.Verification.ExecutionRecords
import HookExecutor.Lib.Notes
import HookExecutor.Verification.AuditTrail
import HookExecutor.Lib.Dropping
import HookExecutor.Verification.Permits
import HookExecutor.Lib.SchemaChange
import HookExecutor.Migration
import HookExecutor.Verification.Upgrade
import HookExecutor.Lib.Image
import HookExecutor.Lib.Statement
import HookExecutor.Tables
import HookExecutor.Verification.StoredTables
import HookExecutor.Verification.StoredRows
import HookExecutor.Verification.StoredStatements
import HookExecutor.Verification.StoredHistory
