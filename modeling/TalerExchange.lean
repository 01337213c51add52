import TalerExchange.Age.Commitment
import TalerExchange.Age.Secret
import TalerExchange.Aggregation.Ready
import TalerExchange.Amount.Failed
import TalerExchange.Amount.Sql
import TalerExchange.Amount.Grammar
import TalerExchange.Amount.Quotient
import TalerExchange.Amount.Round
import TalerExchange.Amount.Scale
import TalerExchange.Amount.Tuple
import TalerExchange.Audit.CoinSheet
import TalerExchange.Audit.Incremental
import TalerExchange.Audit.Sessions
import TalerExchange.Audit.WireFee
import TalerExchange.Coin.Client
import TalerExchange.Coin.Refund
import TalerExchange.Daemon.Aggregator
import TalerExchange.Daemon.Closer
import TalerExchange.Daemon.Transfer
import TalerExchange.Daemon.Wirewatch
import TalerExchange.Deposit.Confirmation
import TalerExchange.Gc.Reachable
import TalerExchange.History.Retry
import TalerExchange.Json.Forget
import TalerExchange.Json.Atomic
import TalerExchange.Json.Encode
import TalerExchange.Json.Path
import TalerExchange.Json.Signed
import TalerExchange.Keys.Accounts
import TalerExchange.Keys.Download
import TalerExchange.Keys.Merge
import TalerExchange.Kyc.AccountRules
import TalerExchange.Kyc.Attributes
import TalerExchange.Kyc.Authorisation
import TalerExchange.Kyc.DefaultRules
import TalerExchange.Kyc.Lock
import TalerExchange.Kyc.Outcome
import TalerExchange.Kyc.Wallet
import TalerExchange.Payto.Account
import TalerExchange.Payto.Checksum
import TalerExchange.Payto.Sound
import TalerExchange.Policy.Details
import TalerExchange.Proc.Nonces
import TalerExchange.Purse.Deposit
import TalerExchange.Purse.Fate
import TalerExchange.Purse.Quota
import TalerExchange.Replica.References
import TalerExchange.Reserve.Close
import TalerExchange.Reserve.Cost
import TalerExchange.Reserve.Extend
import TalerExchange.Reserve.Import
import TalerExchange.Reserve.Ledger
import TalerExchange.Reserve.Open
import TalerExchange.Secmod.Creation
import TalerExchange.Secmod.Framing
import TalerExchange.Secmod.Revoked
import TalerExchange.Shard.Revolving
import TalerExchange.Withdraw.Limits
import TalerExchange.Withdraw.Revealed
import TalerExchange.Withdraw.Turns
import TalerExchange.Json.Text
