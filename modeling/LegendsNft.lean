import LegendsNft.Actor
import LegendsNft.Dated
import LegendsNft.Accounting
import LegendsNft.Checked
import LegendsNft.Table
import LegendsNft.Indexed
import LegendsNft.Sequence
import LegendsNft.Slots
import LegendsNft.Swaps
import LegendsNft.Types
import LegendsNft.Admins
import LegendsNft.Tokens
import LegendsNft.Entrepot
import LegendsNft.Ext
import LegendsNft.Canister
import LegendsNft.Proceeds
import LegendsNft.System
import LegendsNft.Moves
import LegendsNft.Lifecycle
import LegendsNft.ListingHistory
import LegendsNft.Discipline
import LegendsNft.Provenance
import LegendsNft.NoTheft
import LegendsNft.Uniqueness
import LegendsNft.Settlement
import LegendsNft.PaidInTime
import LegendsNft.PaymentAccounts
import LegendsNft.Statistics
import LegendsNft.Floor
import LegendsNft.FailedLock
import LegendsNft.OwnTransaction
import LegendsNft.Consistency
import LegendsNft.LockExclusivity
import LegendsNft.ForeignTokens
import LegendsNft.Completion
import LegendsNft.JobQueue
import LegendsNft.Drain
import LegendsNft.Assets
import LegendsNft.AssetIndex
import LegendsNft.AssetBackup
import LegendsNft.Deletion
import LegendsNft.AdminList
import LegendsNft.Collection
import LegendsNft.Shuffle
import LegendsNft.Minting
import LegendsNft.Upgrades
import LegendsNft.Draws
import LegendsNft.Reach
import LegendsNft.Reinstatement
import LegendsNft.Views
import LegendsNft.Splitting
import LegendsNft.Numerals
import LegendsNft.Stoic
import LegendsNft.Http
import LegendsNft.Uploads
import LegendsNft.Routes
import LegendsNft.Disclosure
import LegendsNft.Answers
import LegendsNft.Urls
import LegendsNft.Links
import LegendsNft.Json
import LegendsNft.Documents
import LegendsNft.Interface
import LegendsNft.Configuration
import LegendsNft.Loops
import LegendsNft.Arrays
import LegendsNft.Chaining
import LegendsNft.Sha2
import LegendsNft.Sha224
import LegendsNft.Streaming
import LegendsNft.Crc
import LegendsNft.Crc32
import LegendsNft.Hexadecimal
import LegendsNft.Whole
import LegendsNft.Bookkeeping
import LegendsNft.Escrow
import LegendsNft.Solvency
import LegendsNft.Progress
import LegendsNft.Receipts
import LegendsNft.Royalties
import LegendsNft.Handover
import LegendsNft.Pace
import LegendsNft.Sweep
import LegendsNft.Availability
