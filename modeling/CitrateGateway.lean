import CitrateGateway.Gateway.AccountNonce
import CitrateGateway.Gateway.ApiKeys
import CitrateGateway.Gateway.App
import CitrateGateway.Gateway.Backends
import CitrateGateway.Gateway.Batch
import CitrateGateway.Gateway.BatchDuty
import CitrateGateway.Gateway.BatchIds
import CitrateGateway.Gateway.BatchJson
import CitrateGateway.Gateway.BatchReads
import CitrateGateway.Gateway.BatchRows
import CitrateGateway.Gateway.BatchRuns
import CitrateGateway.Gateway.BatchSnapshots
import CitrateGateway.Gateway.BudgetRefunds
import CitrateGateway.Gateway.CivilDate
import CitrateGateway.Gateway.Conservation
import CitrateGateway.Gateway.Consumption
import CitrateGateway.Gateway.DailyQuota
import CitrateGateway.Gateway.Dispatch
import CitrateGateway.Gateway.Error
import CitrateGateway.Gateway.FailedCharge
import CitrateGateway.Gateway.Failover
import CitrateGateway.Gateway.GenerationBudget
import CitrateGateway.Gateway.Handlers
import CitrateGateway.Gateway.HeldStore
import CitrateGateway.Gateway.IssuanceLimiter
import CitrateGateway.Gateway.IssuanceLimits
import CitrateGateway.Gateway.KeyCalls
import CitrateGateway.Gateway.KeyRace
import CitrateGateway.Gateway.KeyStore
import CitrateGateway.Gateway.KeyTerms
import CitrateGateway.Gateway.KeyedRows
import CitrateGateway.Gateway.Keyless
import CitrateGateway.Gateway.Keyvault
import CitrateGateway.Gateway.Layers
import CitrateGateway.Gateway.Ledger
import CitrateGateway.Gateway.LocalProxy
import CitrateGateway.Gateway.MemberKeys
import CitrateGateway.Gateway.MemberMapping
import CitrateGateway.Gateway.Migrate
import CitrateGateway.Gateway.MigrationCrash
import CitrateGateway.Gateway.MigrationRuns
import CitrateGateway.Gateway.MigrationSteps
import CitrateGateway.Gateway.ModelBudgets
import CitrateGateway.Gateway.ModelCache
import CitrateGateway.Gateway.ModelListing
import CitrateGateway.Gateway.ModelRegistry
import CitrateGateway.Gateway.ModelSpend
import CitrateGateway.Gateway.Node
import CitrateGateway.Gateway.NonceGap
import CitrateGateway.Gateway.PoolCalldata
import CitrateGateway.Gateway.Pricing
import CitrateGateway.Gateway.ProviderGuard
import CitrateGateway.Gateway.ProxyCalls
import CitrateGateway.Gateway.ProxyForwards
import CitrateGateway.Gateway.ProxyIssuance
import CitrateGateway.Gateway.ProxyKeys
import CitrateGateway.Gateway.ProxyMetering
import CitrateGateway.Gateway.ProxyQueue
import CitrateGateway.Gateway.ProxyRequests
import CitrateGateway.Gateway.ProxySlots
import CitrateGateway.Gateway.RateLimit
import CitrateGateway.Gateway.Reconcile
import CitrateGateway.Gateway.RecoveryCount
import CitrateGateway.Gateway.ReturnDecoding
import CitrateGateway.Gateway.Rotation
import CitrateGateway.Gateway.RowKeys
import CitrateGateway.Gateway.SealedRows
import CitrateGateway.Gateway.Selection
import CitrateGateway.Gateway.Signer
import CitrateGateway.Gateway.SpendCap
import CitrateGateway.Gateway.StoreAccess
import CitrateGateway.Gateway.StoreFiles
import CitrateGateway.Gateway.StorePromise
import CitrateGateway.Gateway.StoreRuns
import CitrateGateway.Gateway.StoreScans
import CitrateGateway.Gateway.TokenEstimate
import CitrateGateway.Gateway.UnmixedStores
import CitrateGateway.Gateway.UsageRows
import CitrateGateway.Gateway.Vault
import CitrateGateway.Shared.Abi
import CitrateGateway.Shared.AbiTuple
import CitrateGateway.Shared.Base64
import CitrateGateway.Shared.Calendar
import CitrateGateway.Shared.Checked
import CitrateGateway.Shared.DurableStore
import CitrateGateway.Shared.Interp
import CitrateGateway.Shared.Linearize
import CitrateGateway.Shared.PrefixScan
import CitrateGateway.Shared.Program
import CitrateGateway.Shared.RelyGuarantee
import CitrateGateway.Shared.Rlp
import CitrateGateway.Shared.RlpDecode
import CitrateGateway.Shared.Semaphore
import CitrateGateway.Shared.StoreImage
import CitrateGateway.Shared.System
import CitrateGateway.Shared.Text
import CitrateGateway.Shared.Words
import CitrateGateway.X402.AccountNonce
import CitrateGateway.X402.Client
import CitrateGateway.X402.Digest
import CitrateGateway.X402.Handshake
import CitrateGateway.X402.HeaderCodec
import CitrateGateway.X402.Layer
import CitrateGateway.X402.Layouts
import CitrateGateway.X402.NonceIndex
import CitrateGateway.X402.NonceLedger
import CitrateGateway.X402.ReceiptPhase
import CitrateGateway.X402.RequestBinding
import CitrateGateway.X402.Requests
import CitrateGateway.X402.SettleServe
import CitrateGateway.X402.SettledEvents
import CitrateGateway.X402.Settlement
import CitrateGateway.X402.SettlementRlp
import CitrateGateway.X402.Types
