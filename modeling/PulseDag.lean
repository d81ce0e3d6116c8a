import PulseDag.Core.IdentityV2
import PulseDag.Ghostdag.KCluster
import PulseDag.Ghostdag.GlobalSelection
import PulseDag.Ledger.CoinUniqueness
import PulseDag.Ledger.FinalityBinding
import PulseDag.Ledger.MonetaryAudit
import PulseDag.Ledger.MaturePrefix
import PulseDag.Ledger.StateRoot
import PulseDag.Network.RetargetV3
import PulseDag.Network.MerkleCommitment
import PulseDag.Network.SupplyV2
import PulseDag.Storage.Reconcile
import PulseDag.Node.PeerExhaustion
import PulseDag.Node.FetchScheduler
import PulseDag.Mempool.Projection
import PulseDag.Covenant.PayStream
import PulseDag.Covenant.Multisig
import PulseDag.Covenant.Channel
import PulseDag.Script.Bytecode
import PulseDag.Wallet.CoinSelection
import PulseDag.Sync.SelectedLocator
import PulseDag.Miner.ScheduleRuns
import PulseDag.Miner.NonceSearch
import PulseDag.Wallet.JournalRuns
import PulseDag.Relay.Accounts
import PulseDag.Ledger.CommonPast
