import EosioSystem.RamLedger
import EosioSystem.RamDelivery
import EosioSystem.StakeLedger
import EosioSystem.PoolTallies
import EosioSystem.PoolSolvency
import EosioSystem.Refunds
import EosioSystem.ClaimLocks
import EosioSystem.NameLedger
import EosioSystem.Proxies
import EosioSystem.Rex.Books
import EosioSystem.Rex.Locking
import EosioSystem.Rex.Rent
import EosioSystem.FeeSplit
import EosioSystem.Rex.Purchases
import EosioSystem.Rex.Orders
import EosioSystem.Rex.ReturnSchedule
import EosioSystem.Library.CostCurve
import EosioSystem.Library.Ramp
import EosioSystem.PowerupFee
import EosioSystem.PowerupMarket
import EosioSystem.PowerupLedger
import EosioSystem.CoreSymbol
import EosioSystem.Rex.Loans
import EosioSystem.Backing
import EosioSystem.BackingLedger
import EosioSystem.PowerupQueue
import EosioSystem.ProducerStorage
import EosioSystem.PoolWeights
import EosioSystem.PoolRounds
import EosioSystem.BlockPay
import EosioSystem.PowerupWeights
import EosioSystem.Maintenance
import EosioSystem.PowerupBooks
import EosioSystem.Library.Ranking
import EosioSystem.Registration
import EosioSystem.Schedule
import EosioSystem.ResourceLimits
import EosioSystem.Rex.Price
import EosioSystem.Rex.Queue
import EosioSystem.VoteEvents
import EosioSystem.VoteDrift
import EosioSystem.VoteTallies
import EosioSystem.VotepayShares
