import Shelterflex.Lib.Machine
import Shelterflex.Lib.Store
import Shelterflex.Lib.RewardIndex
import Shelterflex.Lib.Rounding
import Shelterflex.Lib.Session
import Shelterflex.Lib.Since
import Shelterflex.Host.Token
import Shelterflex.Host.Guards
import Shelterflex.UpgradeGovernance.Core
import Shelterflex.UpgradeGovernance.Timelock
import Shelterflex.EpochRewards.Model
import Shelterflex.EpochRewards.Ledger
import Shelterflex.EpochRewards.Operations
import Shelterflex.EpochRewards.Epochs
import Shelterflex.EpochRewards.Sealing
import Shelterflex.EpochRewards.CarryForward
import Shelterflex.EpochRewards.Solvency
import Shelterflex.Governance.Model
import Shelterflex.Governance.Operations
import Shelterflex.Governance.Proposals
import Shelterflex.Governance.Tally
import Shelterflex.Governance.VoteWeight
import Shelterflex.Governance.Outcome
import Shelterflex.StakingRewards.Model
import Shelterflex.StakingRewards.Ledger
import Shelterflex.StakingRewards.Operations
import Shelterflex.StakingRewards.Conservation
import Shelterflex.MvpStakingPool.Model
import Shelterflex.MvpStakingPool.Ledger
import Shelterflex.MvpStakingPool.Operations
import Shelterflex.MvpStakingPool.Solvency
import Shelterflex.MvpStakingPool.Partition
import Shelterflex.MvpStakingPool.Exits
import Shelterflex.MvpStakingPool.Account
import Shelterflex.MvpStakingPool.Accuracy
import Shelterflex.MvpStakingPool.Queries
import Shelterflex.DealEscrow.Model
import Shelterflex.DealEscrow.Deals
import Shelterflex.DealEscrow.PendingRelease
import Shelterflex.DealEscrow.CircuitBreaker
import Shelterflex.DealEscrow.Custody
import Shelterflex.DealEscrow.Protocol
import Shelterflex.DealEscrow.Refunds
import Shelterflex.StakingPool.Model
import Shelterflex.StakingPool.Deposits
import Shelterflex.StakingPool.Agreement
import Shelterflex.WhistleblowerRewards.Model
import Shelterflex.UpgradeGovernance.Unversioned
import Shelterflex.StakeDelegation.Model
import Shelterflex.StakeDelegation.Delegations
import Shelterflex.StakeDelegation.Book
import Shelterflex.StakeDelegation.Loops
import Shelterflex.StakeDelegation.Settlement
import Shelterflex.StakeDelegation.Restaking
import Shelterflex.StakeDelegation.Operations
import Shelterflex.StakeDelegation.Agreement
import Shelterflex.StakeDelegation.Requests
import Shelterflex.StakeDelegation.Rewards
import Shelterflex.StakeDelegation.Funding
import Shelterflex.SlashingModule.Model
import Shelterflex.SlashingModule.Docket
import Shelterflex.SlashingModule.Evidence
import Shelterflex.SlashingModule.Accounts
import Shelterflex.SlashingModule.Lifecycle
import Shelterflex.SlashingModule.Penalties
import Shelterflex.SlashingModule.Jail
import Shelterflex.SlashingModule.Pause
import Shelterflex.StakingPool.Lock
import Shelterflex.Lib.Code
import Shelterflex.Lib.Decimal
import Shelterflex.StakingPool.Receipt
import Shelterflex.BondCollateral.Model
import Shelterflex.BondCollateral.Effects
import Shelterflex.BondCollateral.Liquidation
import Shelterflex.BondCollateral.Custody
import Shelterflex.BondCollateral.Opening
import Shelterflex.BondCollateral.InspectorBonds
import Shelterflex.BondCollateral.Pause
import Shelterflex.BondCollateral.Health
import Shelterflex.RentWallet.Model
import Shelterflex.UpgradeGovernance.Versions
import Shelterflex.UpgradeGovernance.Lockout
import Shelterflex.StakingRewards.CarryForward
import Shelterflex.StakingRewards.Claimable
import Shelterflex.Lib.Release
import Shelterflex.VestingSchedule.Model
import Shelterflex.VestingSchedule.Claims
import Shelterflex.VestingSchedule.Payout
import Shelterflex.VestingSchedule.Overflow
import Shelterflex.RentSchedule.Model
import Shelterflex.RentSchedule.Authorisation
import Shelterflex.MultisigAdmin.Model
import Shelterflex.MultisigAdmin.Approvals
import Shelterflex.MultisigAdmin.Execution
import Shelterflex.MultisigAdmin.Liveness
import Shelterflex.RentToOwn.Model
import Shelterflex.RentToOwn.Deals
import Shelterflex.RentToOwn.Completion
import Shelterflex.RentToOwn.Equity
import Shelterflex.RentToOwn.Title
import Shelterflex.InspectorBond.Model
import Shelterflex.InspectorBond.Bonds
import Shelterflex.InspectorBond.Binding
import Shelterflex.InspectorBond.Accounting
import Shelterflex.InspectorBond.Configurations
import Shelterflex.RentWallet.Rejection
import Shelterflex.RentWallet.Spending
import Shelterflex.Lib.Drain
import Shelterflex.WhistleblowerRewards.Consumption
import Shelterflex.WhistleblowerRewards.Allocations
import Shelterflex.WhistleblowerRewards.Fifo
import Shelterflex.WhistleblowerRewards.HoldWindow
import Shelterflex.RentSchedule.Instalments
import Shelterflex.RentSchedule.Sorting
import Shelterflex.RentPayments.Model
import Shelterflex.RentPayments.Bookkeeping
import Shelterflex.Lib.Listing
import Shelterflex.RentPayments.Listing
import Shelterflex.RentPayments.Pagination
import Shelterflex.OraclePriceFeeds.Model
import Shelterflex.OraclePriceFeeds.Updates
import Shelterflex.OraclePriceFeeds.Deviation
import Shelterflex.OraclePriceFeeds.Median
import Shelterflex.OraclePriceFeeds.Staleness
import Shelterflex.Host.Text
import Shelterflex.TransactionReceipt.Text
import Shelterflex.TransactionReceipt.References
import Shelterflex.TransactionReceipt.Model
import Shelterflex.TransactionReceipt.Recording
import Shelterflex.TransactionReceipt.Idempotence
import Shelterflex.Lib.Fields
import Shelterflex.TransactionReceipt.Metadata
import Shelterflex.TransactionReceipt.Encoder
import Shelterflex.TransactionReceipt.Pages
import Shelterflex.TransactionReceipt.Roles
import Shelterflex.TransactionReceipt.Indexes
import Shelterflex.Lib.Expiring
import Shelterflex.Host.TtlStorage
import Shelterflex.Timelock.Model
import Shelterflex.Timelock.Queue
import Shelterflex.Timelock.Window
import Shelterflex.Timelock.EmergencyPause
import Shelterflex.SchemaRegistry.Model
import Shelterflex.SchemaRegistry.Transitions
import Shelterflex.SchemaRegistry.Migrations
import Shelterflex.Lib.Table
import Shelterflex.ContractAccess.Model
import Shelterflex.ContractAccess.Roles
import Shelterflex.ContractAccess.Consent
import Shelterflex.ContractAccess.Powers
import Shelterflex.ContractAccess.Delegations
import Shelterflex.ReentrancyGuard.Model
import Shelterflex.ReentrancyGuard.Balance
import Shelterflex.ReentrancyGuard.Steady
import Shelterflex.Lib.Unwinding
import Shelterflex.ReentrancyGuard.Isolation
import Shelterflex.DealEscrow.ChallengeWindow
import Shelterflex.DealEscrow.Migration
import Shelterflex.StakingPool.Unstaking
import Shelterflex.StakingPool.Exits
import Shelterflex.StakingPool.Operator
import Shelterflex.StakeDelegation.ProportionalSlash
import Shelterflex.StakeDelegation.Views
import Shelterflex.Host.Transaction
import Shelterflex.MultisigAdmin.Expiry
import Shelterflex.Lib.Middle
import Shelterflex.OraclePriceFeeds.Majority
import Shelterflex.TenantReputation.Model
import Shelterflex.TenantReputation.Decay
import Shelterflex.Lib.RustLexer
import Shelterflex.ModuleTreeCheck.Model
import Shelterflex.ModuleTreeCheck.Tokens
import Shelterflex.ModuleTreeCheck.Scanner
import Shelterflex.ModuleTreeCheck.Declarations
import Shelterflex.Lib.Worklist
import Shelterflex.ModuleTreeCheck.Files
import Shelterflex.ModuleTreeCheck.Reachability
import Shelterflex.ModuleTreeCheck.CrateTree
import Shelterflex.UpgradeableProxy.Model
import Shelterflex.UpgradeableProxy.Consent
import Shelterflex.UpgradeableProxy.Preservation
import Shelterflex.Lib.View
import Shelterflex.Timelock.Administration
import Shelterflex.UpgradeableProxy.Governed
import Shelterflex.AllowlistRegistry.Model
import Shelterflex.AllowlistRegistry.Members
import Shelterflex.Governance.PooledVotes
import Shelterflex.Lib.Retention
import Shelterflex.Host.StoragePolicy
import Shelterflex.DealEscrow.Progress
import Shelterflex.OraclePriceFeeds.Provenance
import Shelterflex.Lib.FairShare
import Shelterflex.StakingRewards.Accuracy
import Shelterflex.EpochRewards.Accuracy
import Shelterflex.StakeDelegation.Accuracy
import Shelterflex.TenantReputation.Ratings
