/-
**The public interface of the canister** (`main.mo`).

`LegendsNft/Collection.lean` has the methods that write to the market, the tokens and the admin
list.  Here are all update methods of the actor, over the whole of its state: the assets, the
records of the old public sale, the table of rarities, the root of the CAP history and the heartbeat
as well.
Each administrative method asserts somewhere that its caller is an admin, in the actor or in the
module it calls, before it writes or awaits anything.

Six methods await another canister: `init` the handshake with the CAP router, `balance` and
`nnsTransfer` the ledger, and the three methods for the launchpad its canister.  What these pass on
and nothing here reads is left out: the memo of a transfer, the data of an event and the account to
withdraw to.  A query discards what it writes.  The metrics every method captures are those of a
package and are left out.

Main definitions:

* `LegendsNft.PublicSale` — the records of the old public sale;
* `LegendsNft.Interface.State` — **the state of the actor**;
* `LegendsNft.Interface.Input`, `LegendsNft.Interface.call` — the methods;
* `LegendsNft.Interface.program` — **the whole canister as an actor**.
-/

import LegendsNft.Assets
import LegendsNft.Collection
import LegendsNft.Hexadecimal

set_option relaxedAutoImplicit false
set_option autoImplicit false

namespace LegendsNft

/-! ### The old public sale -/

namespace PublicSale

abbrev TxId := UInt32

/-- `PublicSale.Purchase`. -/
structure Purchase where
  id : TxId
  buyer : Principal
  buyerAccount : Text
  token : TokenIndex
  price : UInt64
  memo : UInt64
  lockedAt : Time
  closedAt : Time
  blockheight : UInt64
  deriving DecidableEq, Repr

/-- `PublicSale.NNSTransaction`. -/
structure NNSTransaction where
  from' : Text
  amount : UInt64
  timestamp : Time
  memo : UInt64
  blockheight : UInt64
  deriving DecidableEq, Repr

/-- `PublicSale.Refund`, with its two transactions. -/
structure Refund where
  id : TxId
  buyer : Text
  original : NNSTransaction
  refund : NNSTransaction
  deriving DecidableEq, Repr

end PublicSale

/-- The state of `PublicSale.Factory`. -/
structure PublicSale where
  purchases : Table PublicSale.TxId PublicSale.Purchase
  refunds : Table PublicSale.TxId PublicSale.Refund

namespace PublicSale

/-- The fields of `toStable`. -/
structure Stable where
  purchases : List (TxId × Purchase)
  refunds : List (TxId × Refund)

/-- A backup: either of the two lists may be missing. -/
structure Backup where
  purchases : Option (List (TxId × Purchase))
  refunds : Option (List (TxId × Refund))

/-- `toStable`. -/
def toStable (s : PublicSale) : Stable :=
  { purchases := s.purchases.entries
    refunds := s.refunds.entries }

/-- `_restore`. -/
def restore (s : PublicSale) (backup : Backup) : PublicSale :=
  { purchases := match backup.purchases with
      | some x => s.purchases.putAll x
      | none => s.purchases
    refunds := match backup.refunds with
      | some x => s.refunds.putAll x
      | none => s.refunds }

/-- `restore`, of an admin. -/
def adminRestore (s : PublicSale) (isAdmin : Bool) (backup : Backup) : Except Trap PublicSale :=
  if isAdmin then .ok (s.restore backup) else .error .assertion

/-- The constructor. -/
def new (state : Stable) : PublicSale :=
  (⟨Table.empty, Table.empty⟩ : PublicSale).restore ⟨some state.purchases, some state.refunds⟩

end PublicSale

/-! ### The ledger and the launchpad, for admins -/

/-- `transfer` of `NNS/lib.mo`, up to `await nns.transfer`. -/
def Nns.transfer (isAdmin : Bool) (amount : UInt64) (to' : Text) :
    Except Trap (Progress TransferResult UInt64) :=
  if isAdmin then
    match Hex.decode to' with
    | .error trap => .error trap
    | .ok (.ok _) => .ok (.await amount)
    -- an address that cannot be decoded is reported as a transaction of the future
    | .ok (.error _) => .ok (.ret (.err .txCreatedInFuture))
  else .error .assertion

namespace Bazaar

/-- `launchpadEventCreate`, up to `await lp.createEvent`. -/
def launchpadEventCreate (isAdmin : Bool) : Except Trap Unit := Assets.authorized isAdmin ()

/-- `launchpadEventUpdate`, up to `await lp.updateEvent`. -/
def launchpadEventUpdate (isAdmin : Bool) : Except Trap Unit := Assets.authorized isAdmin ()

/-- `withdrawAll`, up to `await lp.balance`. -/
def withdrawAll (isAdmin : Bool) : Except Trap Unit := Assets.authorized isAdmin ()

end Bazaar

/-! ### The heartbeat -/

/-- The stable variables of the heartbeat. -/
structure Heartbeat where
  intervalSeconds : ℕ
  lastBeat : Time
  on : Bool
  deriving DecidableEq, Repr

namespace Heartbeat

/-- `heartbeat`, up to the jobs it awaits. -/
def beat (h : Heartbeat) (now : Time) : Heartbeat :=
  if h.on = false then h
  else if now - h.lastBeat < h.intervalSeconds * 1000000000 then h
  else { h with lastBeat := now }

/-- `heartbeatSetInterval`. -/
def setInterval (h : Heartbeat) (isAdmin : Bool) (i : ℕ) : Except Trap Heartbeat :=
  Assets.authorized isAdmin { h with intervalSeconds := i }

/-- `heartbeatSwitch`. -/
def switch (h : Heartbeat) (isAdmin : Bool) (on : Bool) : Except Trap Heartbeat :=
  Assets.authorized isAdmin { h with on := on }

end Heartbeat

namespace Interface

/-! ### The state of the actor -/

/-- The state of `LegendsNFT`, with the ledger and the clock. -/
structure State where
  world : World
  assets : Assets
  publicSale : PublicSale
  nri : List (Text × Float)
  /-- The copy of the HTTP handler. -/
  handlerNri : List (Text × Float)
  capRoot : Option Text
  heartbeat : Heartbeat

namespace State

variable (s : State)

/-- `_Admins._isAdmin(caller)`. -/
def isAdmin (caller : Principal) : Bool := s.world.canister.admins.isAdmin caller

/-- The state with another world. -/
def setWorld (world : World) : State := { s with world := world }

/-- The state with another asset store. -/
def setAssets (assets : Assets) : State := { s with assets := assets }

/-- The state with another public sale. -/
def setPublicSale (publicSale : PublicSale) : State := { s with publicSale := publicSale }

/-- The state with another heartbeat. -/
def setHeartbeat (heartbeat : Heartbeat) : State := { s with heartbeat := heartbeat }

/-- `configureNri` writes both tables of rarities. -/
def configureNri (isAdmin : Bool) (data : List (Text × Float)) : Except Trap State :=
  Assets.authorized isAdmin { s with nri := data, handlerNri := data }

end State

/-! ### Calls and continuations -/

/-- A suspended continuation, or a message the canister has sent to itself. -/
inductive Task
  | collection (k : Collection.Task)
  /-- `init` awaits `_Cap.handshake`. -/
  | handshake
  /-- `balance` awaits `nns.account_balance`. -/
  | balance
  /-- `nnsTransfer` awaits `nns.transfer`. -/
  | nnsTransfer (amount : UInt64)
  /-- `withdrawAll` awaits `lp.balance`. -/
  | launchpadBalance
  /-- A method awaits the launchpad and returns what it answers. -/
  | launchpad

/-- What may happen without a suspended continuation being woken. -/
inductive Input
  | collection (i : Collection.Input)
  /-- The heartbeat; the jobs it awaits are inputs of the market. -/
  | heartbeat
  /-- A query but `assetsRestore`. -/
  | query (caller : Principal)
  | heartbeatSetInterval (caller : Principal) (i : ℕ)
  | heartbeatSwitch (caller : Principal) (on : Bool)
  | collectCanisterMetrics (caller : Principal)
  | init (caller : Principal)
  | configureNri (caller : Principal) (data : List (Text × Float))
  | upload (caller : Principal) (bytes : List Blob)
  | uploadFinalize (caller : Principal) (contentType : Text) (meta' : Meta)
  | uploadClear (caller : Principal)
  | purgeAssets (caller : Principal) (confirm : Text) (tag : Option Text)
  | assetsDelete (caller : Principal) (filename : Text)
  | assetsRestore (caller : Principal) (backup : Assets.State)
  | assetsTag (caller : Principal) (files : List (Text × List Text))
  | configureColors (caller : Principal) (colors : List Color)
  | configureStockColors (caller : Principal) (colors : List Color)
  | readLedger (caller : Principal)
  | tokensRestore (caller : Principal) (backup : Tokens.Stable)
  | balance (caller : Principal)
  | nnsTransfer (caller : Principal) (amount : UInt64) (to' : Text)
  | entrepotRestore (caller : Principal) (backup : Entrepot.Backup)
  | deleteListing (caller : Principal) (index : TokenIndex)
  | allowance (caller : Principal)
  | approve (caller : Principal)
  | publicSaleRestore (caller : Principal) (backup : PublicSale.Backup)
  | launchpadEventCreate (caller : Principal)
  | launchpadEventUpdate (caller : Principal) (index : ℕ)
  | withdrawAll (caller : Principal)

/-- How a suspended continuation is woken. -/
inductive Wake
  | collection (r : Collection.Wake)
  /-- The handshake returns the root of the CAP history. -/
  | root (root : Option Text)
  /-- The ledger executes the transfer it was asked for. -/
  | execute (r : TransferResult)
  /-- The reply it waits for is delivered. -/
  | reply
  /-- The call it waits for is rejected. -/
  | reject

/-! ### The segments -/

/-- The outcome of a segment of the canister. -/
abbrev Step := Actor.Outcome State Task Collection.Event

/-- A segment of the collection, in the whole state. -/
def ofCollection (s : State) (o : Collection.Step) : Step :=
  ⟨s.setWorld o.state, o.spawned.map .collection, o.events⟩

/-- A segment that traps or returns without an effect. -/
def idle (s : State) : Step := ⟨s, [], []⟩

/-- A segment that writes what a module computes, unless the module traps. -/
def commit {α : Type} (s : State) (r : Except Trap α) (write : α → State) : Step :=
  match r with
  | .error _ => idle s
  | .ok a => ⟨write a, [], []⟩

/-- A segment that awaits another canister, unless it traps. -/
def suspend (s : State) (r : Except Trap Unit) (k : Task) : Step :=
  match r with
  | .error _ => idle s
  | .ok () => ⟨s, [k], []⟩

/-- A method that writes to the asset store. -/
def commitAssets (s : State) (c : Assets.Call) : Step := commit s (s.assets.handle c) s.setAssets

/-- A method that writes to the marketplace. -/
def commitEntrepot (s : State) (r : Except Trap Entrepot) : Step :=
  commit s r fun e => s.setWorld (s.world.setEntrepot e)

variable (H : Collection.Host)

/-- The first segment of a call. -/
def call (s : State) : Input → Option Step
  | .collection i => (Collection.call H s.world i).map (ofCollection s)
  | .heartbeat => some ⟨s.setHeartbeat (s.heartbeat.beat s.world.now), [], []⟩
  | .query _ => some (idle s)
  | .heartbeatSetInterval caller i =>
      some (commit s (s.heartbeat.setInterval (s.isAdmin caller) i) s.setHeartbeat)
  | .heartbeatSwitch caller on =>
      some (commit s (s.heartbeat.switch (s.isAdmin caller) on) s.setHeartbeat)
  | .collectCanisterMetrics _ => some (idle s)
  | .init caller => some (suspend s (Assets.authorized (s.isAdmin caller) ()) .handshake)
  | .configureNri caller data => some (commit s (s.configureNri (s.isAdmin caller) data) id)
  | .upload caller bytes => some (commitAssets s (.upload (s.isAdmin caller) bytes))
  | .uploadFinalize caller contentType meta' =>
      some (commitAssets s (.uploadFinalize (s.isAdmin caller) contentType meta'))
  | .uploadClear caller => some (commitAssets s (.uploadClear (s.isAdmin caller)))
  | .purgeAssets caller confirm tag =>
      some (commitAssets s (.purge (s.isAdmin caller) confirm tag))
  | .assetsDelete caller filename => some (commitAssets s (.delete (s.isAdmin caller) filename))
  -- declared as a query: what it restores is discarded
  | .assetsRestore _ _ => some (idle s)
  | .assetsTag caller files => some (commitAssets s (.tag (s.isAdmin caller) files))
  | .configureColors caller colors =>
      some (commitAssets s (.configureColors (s.isAdmin caller) colors))
  | .configureStockColors caller colors =>
      some (commitAssets s (.configureStockColors (s.isAdmin caller) colors))
  | .readLedger _ => some (idle s)
  | .tokensRestore caller backup =>
      some (commit s (s.world.tokens.adminRestore (s.isAdmin caller) backup)
        fun r => s.setWorld (s.world.setTokens r.1))
  | .balance _ => some ⟨s, [.balance], []⟩
  | .nnsTransfer caller amount to' =>
      match Nns.transfer (s.isAdmin caller) amount to' with
      | .error _ => some (idle s)
      | .ok (.ret _) => some (idle s)
      | .ok (.await amount) => some ⟨s, [.nnsTransfer amount], []⟩
  | .entrepotRestore caller backup =>
      some (commitEntrepot s (s.world.entrepot.adminRestore (s.isAdmin caller) backup))
  | .deleteListing caller index =>
      some (commitEntrepot s (s.world.entrepot.deleteListing (s.isAdmin caller) index))
  -- allowances are disabled, and approvals are not recorded
  | .allowance _ => some (idle s)
  | .approve _ => some (idle s)
  | .publicSaleRestore caller backup =>
      some (commit s (s.publicSale.adminRestore (s.isAdmin caller) backup) s.setPublicSale)
  | .launchpadEventCreate caller =>
      some (suspend s (Bazaar.launchpadEventCreate (s.isAdmin caller)) .launchpad)
  | .launchpadEventUpdate caller _ =>
      some (suspend s (Bazaar.launchpadEventUpdate (s.isAdmin caller)) .launchpad)
  | .withdrawAll caller =>
      some (suspend s (Bazaar.withdrawAll (s.isAdmin caller)) .launchpadBalance)

/-- The segment a suspended continuation runs when it is woken. -/
def resume (s : State) : Task → Wake → Option Step
  | .collection k, .collection r => (Collection.resume H s.world k r).map (ofCollection s)
  | .handshake, .root root => some ⟨{ s with capRoot := root }, [], []⟩
  | .balance, .reply => some (idle s)
  | .nnsTransfer amount, .execute r =>
      some ⟨s.setWorld { s.world with
        ledger := debit s.world.ledger ⟨0, "", defaultSubAccount, amount⟩ r }, [], []⟩
  | .launchpadBalance, .reply => some ⟨s, [.launchpad], []⟩
  | .launchpad, .reply => some (idle s)
  | .handshake, .reject => some (idle s)
  | .balance, .reject => some (idle s)
  | .nnsTransfer _, .reject => some (idle s)
  | .launchpadBalance, .reject => some (idle s)
  | .launchpad, .reject => some (idle s)
  | _, _ => none

/-- An upgrade: each module is constructed anew from what it has saved. -/
def upgrade (s : State) (supply : UInt16) : Except Trap State := do
  let canister ← s.world.canister.upgrade supply
  let assets ← Assets.new s.assets.backup
  pure {
    world := { s.world with canister := canister }
    assets := assets
    publicSale := PublicSale.new s.publicSale.toStable
    nri := s.nri
    handlerNri := s.nri
    capRoot := s.capRoot
    heartbeat := s.heartbeat }

/-- An upgrade, if no constructor traps. -/
def restart (s : State) (supply : UInt16) : Option Step :=
  match upgrade s supply with
  | .error _ => none
  | .ok s => some ⟨s, [], [.market .upgraded]⟩

/-- **The whole canister as an actor.** -/
def program : Actor.Program State Task Input Wake UInt16 Collection.Event :=
  { call := call H
    resume := resume H
    restart := restart }

/-- A configuration of the canister. -/
abbrev Config := Actor.Config State Task Collection.Event

/-- A condition on the segments of a run of the canister. -/
abbrev Guard := Actor.Guard State Task Input Wake UInt16 Collection.Event

/-- What starts a segment of the canister. -/
abbrev Source := Actor.Source Task Input Wake

end Interface

end LegendsNft
