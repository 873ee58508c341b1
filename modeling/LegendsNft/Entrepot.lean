/-
**The marketplace** (`Entrepot/lib.mo`).

Each public function is written segment by segment: a function named as in the source is the code
from its start up to its first `await`, and the function with `Resume` appended is the code from
that `await` on.  A segment returns the new state and a `LegendsNft.Progress`: the value returned,
or the frame of locals its continuation needs.  Code that can trap returns in `Except Trap`.  The
log entries of `_log` and the events sent to the CAP history are not read back by the canister and
are left out.

Main definitions:

* `LegendsNft.Entrepot` — the state of `Entrepot.Factory`;
* `LegendsNft.Entrepot.list`, `LegendsNft.Entrepot.lock`, `LegendsNft.Entrepot.canSettle`,
  `LegendsNft.Entrepot.settle`, `LegendsNft.Entrepot.finalize` — the life of a sale;
* `LegendsNft.Entrepot.cronSettlements`, `LegendsNft.Entrepot.cronDisbursements`,
  `LegendsNft.Entrepot.queueLoop` — the two jobs of the heartbeat;
* `LegendsNft.Entrepot.toStable`, `LegendsNft.Entrepot.new` — the two halves of an upgrade.
-/

import LegendsNft.Checked
import LegendsNft.Table
import LegendsNft.Tokens

set_option relaxedAutoImplicit false
set_option autoImplicit false

namespace LegendsNft

/-- Time for a transaction to complete, two minutes. -/
def transactionTtl : Time := 120000000000

/-- Fees to be deducted from all marketplace sales: royalty and marketplace. -/
def fees : FeeTable :=
  [("ea6e340b18837860b1d9f353af06d459af55c74d97ef3ac024c2a42778e3e030", 2000),
   ("c7e461041c0c5800a56b64bb7cefc247abc0bbbb99bd46ff71c64e92d9f5c2f9", 1000)]

/-- The state of `Entrepot.Factory`. -/
structure Entrepot where
  /-- NFTs listed for sale. -/
  listings : Table TokenIndex Listing
  /-- Unfinalized transactions. -/
  pendingTransactions : Table TokenIndex Transaction
  /-- Incrementing transaction id. -/
  nextTxId : ℕ
  /-- Finalized transactions. -/
  transactions : Table ℕ Transaction
  usedPaymentAddresses : List (AccountIdentifier × Principal × SubAccount)
  /-- Incrementing subaccount for handling marketplace payments. -/
  nextSubAccount : ℕ
  totalVolume : UInt64
  lowestPriceSale : UInt64
  highestPriceSale : UInt64
  /-- Pending ICP disbursements from this canister. -/
  pendingDisbursements : List Disbursement
  lastDisburseCron : Time
  pendingCount : ℕ
  lastSettleCron : Time

namespace Entrepot

variable (D : Deployment)

/-! ### Internals -/

/-- `_getListing`. -/
def getListing (s : Entrepot) (index : TokenIndex) : Option Listing := s.listings.get index

/-- `_isLocked`. -/
def isLocked (s : Entrepot) (now : Time) (index : TokenIndex) : Bool :=
  match s.listings.get index with
  | some listing =>
      match listing.locked with
      | some locked => if now ≤ locked then true else false
      | none => false
  | none => false

/-- `_unpackTokenIdentifier`: the index of a token identifier of this canister. -/
def unpackTokenIdentifier (token : TokenIdentifier) : Except CommonError TokenIndex :=
  match D.decode token with
  | .ok (principal, tokenIndex) =>
      if principal ≠ D.cid then .error (.invalidToken token) else .ok tokenIndex
  | .error _ => .error (.invalidToken token)

/-- `_natToSubAccount`: the 32 bytes of a number, the most significant first, each truncated from
`n / 2 ** shift`. -/
def natToSubAccount (n : ℕ) : SubAccount :=
  (List.range 32).map fun i => UInt8.ofNat (n / 2 ^ (8 * (32 - 1 - i)))

/-- `_getNextSubAccount`. -/
def getNextSubAccount (s : Entrepot) : Entrepot × SubAccount :=
  let saOffset := 4294967296
  let s := { s with nextSubAccount := s.nextSubAccount + 1 }
  (s, natToSubAccount (saOffset + s.nextSubAccount))

/-- `_addDisbursement`. -/
def addDisbursement (s : Entrepot) (d : Disbursement) : Entrepot :=
  { s with pendingDisbursements := d :: s.pendingDisbursements }

/-! ### Listing -/

/-- The locals of a `list` call suspended in `_canSettle`. -/
structure ListFrame where
  caller : Principal
  request : ListRequest
  index : TokenIndex
  deriving DecidableEq

/-- `list`, up to `await _canSettle`. -/
def list (s : Entrepot) (tokens : Tokens) (now : Time) (caller : Principal)
    (request : ListRequest) : Except Trap (Progress (Except CommonError Unit) ListFrame) :=
  match D.decode request.token with
  | .error _ => .ok (.ret (.error (.invalidToken request.token)))
  | .ok (_, index) =>
      -- the canister of the identifier is not looked at
      match tokens.isOwner D (D.accountText caller request.from_subaccount) index with
      | .error e => .error e
      | .ok false => .ok (.ret (.error (.other "Unauthorized")))
      | .ok true =>
          if s.isLocked now index then .ok (.ret (.error (.other "Token is locked.")))
          else .ok (.await ⟨caller, request, index⟩)

/-- `list`, from `await _canSettle` on. -/
def listResume (s : Entrepot) (f : ListFrame) (r : Except CommonError Unit) :
    Entrepot × Except CommonError Unit :=
  match r with
  | .error e => (s, .error e)
  | .ok () =>
      -- neither the owner nor the lock is looked at again
      match f.request.price with
      | some price =>
          ({ s with listings := s.listings.put f.index {
              locked := none
              seller := f.caller
              subaccount := f.request.from_subaccount
              price := price } }, .ok ())
      | none => ({ s with listings := s.listings.delete f.index }, .ok ())

/-- `details`. -/
def details (s : Entrepot) (token : TokenIdentifier) :
    Except CommonError (AccountIdentifier × Option Listing) :=
  match D.decode token with
  | .error _ => .error (.invalidToken token)
  | .ok (_, index) =>
      match s.listings.get index with
      | some listing => .ok (D.accountText listing.seller listing.subaccount, some listing)
      | none => .error (.other "No such listing.")

/-- `Types.StatsResponse`. -/
structure StatsResponse where
  totalVolume : UInt64
  highestPriceSale : UInt64
  lowestPriceSale : UInt64
  floor : UInt64
  listings : ℕ
  supply : ℕ
  sales : ℕ

/-- The loop of `stats` over the prices of the listings, in the order of the entries. -/
def floorPrice (prices : List UInt64) : UInt64 :=
  prices.foldl (fun floor price => if floor = 0 ∨ price < floor then price else floor) 0

/-- `stats`. -/
def stats (s : Entrepot) (supply : UInt16) : StatsResponse :=
  { totalVolume := s.totalVolume
    highestPriceSale := s.highestPriceSale
    lowestPriceSale := s.lowestPriceSale
    floor := floorPrice (s.listings.entries.map fun a => a.2.price)
    listings := s.listings.size
    supply := supply.toNat
    sales := s.transactions.size }

/-! ### Locking -/

/-- The locals of a `lock` call suspended in `_canSettle`.  The source does not keep `expiry`, the
time it locked the listing until; it is carried along for the history. -/
structure LockFrame where
  token : TokenIdentifier
  index : TokenIndex
  listing : Listing
  buyer : AccountIdentifier
  subaccount : SubAccount
  paymentAddress : AccountIdentifier
  expiry : Time
  deriving DecidableEq

/-- The listing a suspended `lock` call has written. -/
def LockFrame.lockedListing (f : LockFrame) : Listing :=
  { subaccount := f.listing.subaccount
    price := f.listing.price
    seller := f.listing.seller
    locked := some f.expiry }

/-- `lock`, up to `await _canSettle`. -/
def lock (s : Entrepot) (now : Time) (token : TokenIdentifier) (price : UInt64)
    (buyer : AccountIdentifier) :
    Entrepot × Progress (Except CommonError AccountIdentifier) LockFrame :=
  match unpackTokenIdentifier D token with
  | .error e => (s, .ret (.error e))
  | .ok index =>
      if s.isLocked now index then (s, .ret (.error (.other "Already locked.")))
      else
        match s.listings.get index with
        | none => (s, .ret (.error (.other "No such listing.")))
        | some listing =>
            if price ≠ listing.price then
              (s, .ret (.error (.other "Incorrect listing price.")))
            else
              -- the listing is locked before `_canSettle` is awaited, and stays so if that fails
              let (s, subaccount) := s.getNextSubAccount
              let f : LockFrame := {
                token := token
                index := index
                listing := listing
                buyer := buyer
                subaccount := subaccount
                paymentAddress := D.accountText D.cid (some subaccount)
                expiry := now + transactionTtl }
              ({ s with listings := s.listings.put index f.lockedListing }, .await f)

/-- The transaction a `lock` call creates. -/
def LockFrame.transaction (f : LockFrame) (id : ℕ) (now : Time) : Transaction :=
  { id := id
    token := f.token
    memo := none
    seller := f.listing.seller
    from' := D.accountText f.listing.seller f.listing.subaccount
    to' := f.buyer
    price := f.listing.price
    initiated := now
    closed := none
    bytes := f.subaccount }

/-- `lock`, from `await _canSettle` on. -/
def lockResume (s : Entrepot) (now : Time) (f : LockFrame) (r : Except CommonError Unit) :
    Entrepot × Except CommonError AccountIdentifier :=
  match r with
  | .error e => (s, .error e)
  | .ok () =>
      ({ s with
          pendingTransactions := s.pendingTransactions.put f.index
            (f.transaction D s.nextTxId now)
          nextTxId := s.nextTxId + 1 }, .ok f.paymentAddress)

/-! ### Settling -/

/-- The locals of a `_canSettle` call suspended in `settle`. -/
structure CanSettleFrame where
  index : TokenIndex
  deriving DecidableEq

/-- `_canSettle`, up to `await settle`.  The canister of the identifier is not looked at. -/
def canSettle (s : Entrepot) (token : TokenIdentifier) :
    Progress (Except CommonError Unit) CanSettleFrame :=
  match D.decode token with
  | .error _ => .ret (.error (.invalidToken token))
  | .ok (_, index) =>
      match s.pendingTransactions.get index with
      | some _ => .await ⟨index⟩
      | none => .ret (.ok ())

/-- `_canSettle`, from `await settle` on. -/
def canSettleResume (s : Entrepot) (f : CanSettleFrame) (r : Except CommonError Unit) :
    Except CommonError Unit :=
  match r with
  | .ok () => .error (.other "Listing has been sold.")
  | .error _ =>
      match s.listings.get f.index with
      | none => .error (.other "Listing as sold")
      | some _ => .ok ()

/-- The locals of a `settle` call suspended in `account_balance`. -/
structure SettleFrame where
  index : TokenIndex
  transaction : Transaction
  deriving DecidableEq

/-- `settle`, up to `await account_balance`. -/
def settle (s : Entrepot) (token : TokenIdentifier) :
    Progress (Except CommonError Unit) SettleFrame :=
  match unpackTokenIdentifier D token with
  | .error e => .ret (.error e)
  | .ok index =>
      match s.pendingTransactions.get index with
      | some transaction => .await ⟨index, transaction⟩
      | none => .ret (.error (.other "No such pending transaction."))

/-- The loop over the fee table: one disbursement for each recipient, taken off the remainder. -/
def payFees (index : TokenIndex) (bytes : SubAccount) (funds : UInt64) :
    Entrepot → UInt64 → FeeTable → Except Trap (Entrepot × UInt64)
  | s, remaining, [] => .ok (s, remaining)
  | s, remaining, (recipient, pct) :: table => do
      let product ← orTrap .overflow (Checked.mul funds pct)
      let amount := product / 100000
      let remaining' ← orTrap .overflow (Checked.sub remaining amount)
      payFees index bytes funds (s.addDisbursement ⟨index, recipient, bytes, amount⟩) remaining'
        table

/-- `balance.e8s - (10_000 * (1 + Nat64.fromNat(fees.size())))`. -/
def saleFunds (table : FeeTable) (balance : UInt64) : Except Trap UInt64 := do
  let size ← orTrap .losesPrecision (Checked.ofNat table.length)
  let transfers ← orTrap .overflow (Checked.add 1 size)
  let ledgerFees ← orTrap .overflow (Checked.mul 10000 transfers)
  orTrap .overflow (Checked.sub balance ledgerFees)

/-- The disbursements of a sale. -/
def scheduleDisbursements (table : FeeTable) (s : Entrepot) (f : SettleFrame) (balance : UInt64) :
    Except Trap Entrepot := do
  let funds ← saleFunds table balance
  let (s, remaining) ← payFees f.index f.transaction.bytes funds s funds table
  pure (s.addDisbursement ⟨f.index, f.transaction.from', f.transaction.bytes, remaining⟩)

/-- `transactions.put`.  The keys are hashed by `Nat32.fromNat`, which traps on a large id. -/
def putTransaction (s : Entrepot) (t : Transaction) : Except Trap Entrepot :=
  if t.id < 2 ^ 32 then .ok { s with transactions := s.transactions.put t.id t }
  else .error .losesPrecision

/-- The sales statistics after a sale. -/
def countSale (s : Entrepot) (price : UInt64) : Except Trap Entrepot := do
  let volume ← orTrap .overflow (Checked.add s.totalVolume price)
  pure { s with
    totalVolume := volume
    lowestPriceSale := if price < s.lowestPriceSale then price else s.lowestPriceSale
    highestPriceSale := if s.highestPriceSale < price then price else s.highestPriceSale }

/-- `settle` of a transaction whose payment has arrived, up to `await _Cap.insert`. -/
def finalize (table : FeeTable) (s : Entrepot) (tokens : Tokens) (now : Time) (f : SettleFrame)
    (balance : UInt64) : Except Trap (Entrepot × Tokens) := do
  let s ← scheduleDisbursements table s f balance
  let s ← s.putTransaction { f.transaction with closed := some now }
  let s := { s with pendingTransactions := s.pendingTransactions.delete f.index }
  let s ← s.countSale f.transaction.price
  let tokens ← tokens.transfer D now f.index f.transaction.from' f.transaction.to'
  pure ({ s with listings := s.listings.delete f.index }, tokens)

/-- `settle` of a transaction whose payment has not arrived: past its lock it is given up. -/
def giveUp (s : Entrepot) (now : Time) (f : SettleFrame) : Entrepot :=
  if s.isLocked now f.index then s
  else { s with pendingTransactions := s.pendingTransactions.delete f.index }

/-- `settle`, from `await account_balance` on; a sale goes on to await the CAP insertion. -/
def settleResume (s : Entrepot) (tokens : Tokens) (now : Time) (f : SettleFrame)
    (balance : UInt64) :
    Except Trap (Entrepot × Tokens × Progress (Except CommonError Unit) Unit) :=
  if balance < f.transaction.price then
    .ok (s.giveUp now f, tokens, .ret (.error (.other "Insufficient funds sent.")))
  else
    -- the pending transaction is the one read before the await
    match finalize D fees s tokens now f balance with
    | .error e => .error e
    | .ok (s, tokens) => .ok (s, tokens, .await ())

/-! ### The heartbeat -/

def settleInterval : Time := 15000000000

/-- `cronSettlements`: the token identifiers of the `settle` calls it sends. -/
def cronSettlements (s : Entrepot) (now : Time) : Entrepot × List TokenIdentifier :=
  if now - s.lastSettleCron < settleInterval then (s, [])
  else
    ({ s with lastSettleCron := now }, s.pendingTransactions.entries.map fun e => e.2.token)

def disburseInterval : Time := 5000000000

/-- The locals of a `cronDisbursements` run suspended in `nns.transfer`. -/
structure QueueFrame where
  job : Disbursement
  failed : List Disbursement
  deriving DecidableEq

/-- The `queue` loop of `cronDisbursements`, from the point where `pendingDisbursements` still
holds `jobs`: the next job is popped and submitted; a job whose address does not decode is put
aside, `pendingCount` being raised and lowered again; when no job is left the jobs put aside are
queued again. -/
def queueLoop (s : Entrepot) :
    List Disbursement → List Disbursement → Entrepot × Progress Unit QueueFrame
  | [], failed => ({ s with pendingDisbursements := failed }, .ret ())
  | job :: remaining, failed =>
      match D.hexDecode job.address with
      | .ok _ =>
          ({ s with
              pendingDisbursements := remaining
              pendingCount := s.pendingCount + 1 }, .await ⟨job, failed⟩)
      | .error _ => queueLoop s remaining (job :: failed)

/-- `cronDisbursements`, up to its first `await nns.transfer`. -/
def cronDisbursements (s : Entrepot) (now : Time) : Entrepot × Progress Unit QueueFrame :=
  if s.pendingDisbursements.length = 0 then (s, .ret ())
  else if now - s.lastDisburseCron < disburseInterval then (s, .ret ())
  else queueLoop D { s with lastDisburseCron := now } s.pendingDisbursements []

/-- Whether a job is put aside to be tried again, given the ledger's answer; `none` is a rejected
call.  The other failures drop the job. -/
def retries : Option TransferResult → Bool
  | some (.ok _) => false
  | some (.err (.insufficientFunds _)) => false
  | some (.err (.txDuplicate _)) => false
  | some (.err (.txTooOld _)) => false
  | some (.err (.badFee _)) => true
  | some (.err .txCreatedInFuture) => true
  | none => true

/-- `cronDisbursements`, from an `await nns.transfer` on. -/
def cronDisbursementsResume (s : Entrepot) (f : QueueFrame) (reply : Option TransferResult) :
    Except Trap (Entrepot × Progress Unit QueueFrame) :=
  if s.pendingCount = 0 then .error .underflow
  else
    let failed := if retries reply then f.job :: f.failed else f.failed
    let s := { s with pendingCount := s.pendingCount - 1 }
    .ok (queueLoop D s s.pendingDisbursements failed)

/-! ### Admin -/

/-- `deleteDisbursementJob`. -/
def deleteDisbursementJob (s : Entrepot) (isAdmin : Bool) (token : TokenIndex)
    (address : AccountIdentifier) (amount : UInt64) : Except Trap Entrepot :=
  if isAdmin then
    .ok { s with pendingDisbursements := s.pendingDisbursements.filter fun d =>
      token != d.index || address != d.address || amount != d.amount }
  else .error .assertion

/-- `deleteListing`. -/
def deleteListing (s : Entrepot) (isAdmin : Bool) (index : TokenIndex) : Except Trap Entrepot :=
  if isAdmin then .ok { s with listings := s.listings.delete index } else .error .assertion

/-! ### Upgrades -/

/-- The fields of `toStable`, and of the state the constructor is given. -/
structure Stable where
  listings : List (TokenIndex × Listing)
  transactions : List (ℕ × Transaction)
  pendingTransactions : List (TokenIndex × Transaction)
  usedPaymentAddresses : List (AccountIdentifier × Principal × SubAccount)
  totalVolume : UInt64
  lowestPriceSale : UInt64
  highestPriceSale : UInt64
  nextSubAccount : ℕ
  pendingDisbursements : List Disbursement

/-- `toStable`. -/
def toStable (s : Entrepot) : Stable :=
  { listings := s.listings.entries
    transactions := s.transactions.entries
    pendingTransactions := s.pendingTransactions.entries
    usedPaymentAddresses := s.usedPaymentAddresses
    totalVolume := s.totalVolume
    lowestPriceSale := s.lowestPriceSale
    highestPriceSale := s.highestPriceSale
    nextSubAccount := s.nextSubAccount
    pendingDisbursements := s.pendingDisbursements }

/-- `Types.Backup`: any part of the stable state. -/
structure Backup where
  listings : Option (List (TokenIndex × Listing))
  transactions : Option (List (ℕ × Transaction))
  pendingTransactions : Option (List (TokenIndex × Transaction))
  usedPaymentAddresses : Option (List (AccountIdentifier × Principal × SubAccount))
  totalVolume : Option UInt64
  lowestPriceSale : Option UInt64
  highestPriceSale : Option UInt64
  nextSubAccount : Option ℕ
  pendingDisbursements : Option (List Disbursement)

/-- `_restore`.  The listings are replaced; the two maps of transactions and the used payment
addresses are added to. -/
def restore (s : Entrepot) (backup : Backup) : Entrepot :=
  { s with
    listings := match backup.listings with
      | some x => Table.empty.putAll x
      | none => s.listings
    -- no backup of a marketplace has an id of 2 ^ 32 or more, at which `transactions.put` traps:
    -- a sale with such an id has trapped in `putTransaction`
    transactions := match backup.transactions with
      | some x => s.transactions.putAll x
      | none => s.transactions
    pendingTransactions := match backup.pendingTransactions with
      | some x => s.pendingTransactions.putAll x
      | none => s.pendingTransactions
    usedPaymentAddresses := match backup.usedPaymentAddresses with
      | some x => s.usedPaymentAddresses ++ x
      | none => s.usedPaymentAddresses
    totalVolume := backup.totalVolume.getD s.totalVolume
    lowestPriceSale := backup.lowestPriceSale.getD s.lowestPriceSale
    highestPriceSale := backup.highestPriceSale.getD s.highestPriceSale
    nextSubAccount := backup.nextSubAccount.getD s.nextSubAccount
    pendingDisbursements := backup.pendingDisbursements.getD s.pendingDisbursements }

/-- `restore`, of an admin. -/
def adminRestore (s : Entrepot) (isAdmin : Bool) (backup : Backup) : Except Trap Entrepot :=
  if isAdmin then .ok (s.restore backup) else .error .assertion

/-- The backup with every field of a stable state. -/
def Stable.backup (state : Stable) : Backup :=
  { listings := some state.listings
    transactions := some state.transactions
    pendingTransactions := some state.pendingTransactions
    usedPaymentAddresses := some state.usedPaymentAddresses
    totalVolume := some state.totalVolume
    lowestPriceSale := some state.lowestPriceSale
    highestPriceSale := some state.highestPriceSale
    nextSubAccount := some state.nextSubAccount
    pendingDisbursements := some state.pendingDisbursements }

/-- The fields of `Entrepot.Factory` as declared, before the constructor restores them. -/
def declared (state : Stable) : Entrepot :=
  { listings := Table.empty
    pendingTransactions := Table.empty
    nextTxId := 0
    transactions := Table.empty
    usedPaymentAddresses := []
    nextSubAccount := state.nextSubAccount
    totalVolume := state.totalVolume
    lowestPriceSale := state.lowestPriceSale
    highestPriceSale := state.highestPriceSale
    pendingDisbursements := []
    lastDisburseCron := 0
    pendingCount := 0
    lastSettleCron := 0 }

/-- The constructor of `Entrepot.Factory`. -/
def new (state : Stable) : Entrepot :=
  (declared state).restore {
    listings := some state.listings
    transactions := some state.transactions
    pendingTransactions := some state.pendingTransactions
    usedPaymentAddresses := some state.usedPaymentAddresses
    totalVolume := some state.totalVolume
    lowestPriceSale := some state.lowestPriceSale
    highestPriceSale := some state.highestPriceSale
    nextSubAccount := some state.nextSubAccount
    pendingDisbursements := some state.pendingDisbursements }

/-- The stable variables of a fresh canister. -/
def Stable.initial : Stable :=
  { listings := []
    transactions := []
    pendingTransactions := []
    usedPaymentAddresses := []
    totalVolume := 0
    lowestPriceSale := 0
    highestPriceSale := 0
    nextSubAccount := 0
    pendingDisbursements := [] }

end Entrepot

end LegendsNft
