/-
**The canister as an asynchronous actor, with its ledger and its clock.**

The segments of `LegendsNft/Entrepot.lean` and `LegendsNft/Ext.lean` are put together into one
`Actor.Program`.  An `await` of a local function sends the canister a message that runs the body of
the function later, so every `await` of the source is a suspension here: between `list` and the
body of `_canSettle`, between that and the body of `settle`, between the query to the ledger, the
ledger's answer and the resumption of `settle`, and between each of the returns.  The scheduler may
run anything in between.  A segment that traps leaves the state as it was, and its callers, which
catch nothing, end with it.

The world around the canister is part of the state: the balances of the canister's subaccounts on
the ledger, which anyone may pay into, and the clock.  The balance a `settle` call is given is read
off the ledger at a moment of its own between the call and the reply.

The history records what happened; no segment reads it.

Main definitions:

* `LegendsNft.World` — the canister, the ledger and the clock;
* `LegendsNft.Task` — the suspended continuations;
* `LegendsNft.Input`, `LegendsNft.Wake`, `LegendsNft.Event` — the calls, the ways a continuation is
  woken, and the events of the history;
* `LegendsNft.program` — **the canister as an actor**;
* `LegendsNft.Initial` — the configuration of a fresh canister.
-/

import LegendsNft.Actor
import LegendsNft.Canister

set_option relaxedAutoImplicit false
set_option autoImplicit false

namespace LegendsNft

open Entrepot

/-! ### The world -/

/-- The canister, the balances of its subaccounts on the ledger, and the clock. -/
structure World where
  canister : Canister
  ledger : SubAccount → ℕ
  now : Time

namespace World

/-- The marketplace of the canister. -/
def entrepot (w : World) : Entrepot := w.canister.entrepot

/-- The ownership ledger of the canister. -/
def tokens (w : World) : Tokens := w.canister.tokens

/-- The world with another marketplace state. -/
def setEntrepot (w : World) (s : Entrepot) : World :=
  { w with canister := { w.canister with entrepot := s } }

/-- The world with another ownership ledger. -/
def setTokens (w : World) (t : Tokens) : World :=
  { w with canister := { w.canister with tokens := t } }

section Projections

variable (w : World) (s : Entrepot) (t : Tokens)

@[simp] theorem entrepot_setEntrepot : (w.setEntrepot s).entrepot = s := rfl
@[simp] theorem tokens_setEntrepot : (w.setEntrepot s).tokens = w.tokens := rfl
@[simp] theorem ledger_setEntrepot : (w.setEntrepot s).ledger = w.ledger := rfl
@[simp] theorem now_setEntrepot : (w.setEntrepot s).now = w.now := rfl
@[simp] theorem entrepot_setTokens : (w.setTokens t).entrepot = w.entrepot := rfl
@[simp] theorem tokens_setTokens : (w.setTokens t).tokens = t := rfl
@[simp] theorem ledger_setTokens : (w.setTokens t).ledger = w.ledger := rfl
@[simp] theorem now_setTokens : (w.setTokens t).now = w.now := rfl
@[simp] theorem entrepot_mk (c : Canister) (l : SubAccount → ℕ) (n : Time) :
    (World.mk c l n).entrepot = c.entrepot := rfl
@[simp] theorem tokens_mk (c : Canister) (l : SubAccount → ℕ) (n : Time) :
    (World.mk c l n).tokens = c.tokens := rfl

end Projections

end World

/-! ### Suspended continuations -/

/-- Who awaits `_canSettle`. -/
inductive Waiter
  | list (f : ListFrame)
  | lock (f : LockFrame)
  deriving DecidableEq

/-- Who awaits `settle`: `_canSettle`, or nobody in this canister. -/
inductive SettleWaiter
  | direct
  | canSettle (f : CanSettleFrame) (w : Waiter)
  deriving DecidableEq

/-- A suspended continuation, or a message the canister has sent to itself. -/
inductive Task
  /-- `_canSettle` has been called and has not begun. -/
  | canSettle (token : TokenIdentifier) (w : Waiter)
  /-- `_canSettle` has returned. -/
  | canSettled (r : Except CommonError Unit) (w : Waiter)
  /-- `settle` has been called and has not begun. -/
  | settle (token : TokenIdentifier) (w : SettleWaiter)
  /-- `settle` has returned to `_canSettle`. -/
  | settled (r : Except CommonError Unit) (f : CanSettleFrame) (w : Waiter)
  /-- `settle` awaits `account_balance`, which the ledger has not answered. -/
  | balance (f : SettleFrame) (w : SettleWaiter)
  /-- `settle` awaits `account_balance`, which the ledger has answered. -/
  | reported (f : SettleFrame) (balance : UInt64) (w : SettleWaiter)
  /-- `settle` has made a sale and awaits `_Cap.insert`. -/
  | insert (w : SettleWaiter)
  /-- `Ext.transfer` awaits `_Cap.insert`. -/
  | insertTransfer (index : TokenIndex)
  /-- `cronDisbursements` awaits `nns.transfer`, which the ledger has not executed. -/
  | transfer (f : QueueFrame)
  /-- `cronDisbursements` awaits `nns.transfer`, which the ledger has executed or rejected. -/
  | transferred (f : QueueFrame) (reply : Option TransferResult)

/-- The continuation that takes the value `settle` returns. -/
def SettleWaiter.deliver (r : Except CommonError Unit) : SettleWaiter → List Task
  | .direct => []
  | .canSettle f w => [.settled r f w]

/-! ### Calls, wake-ups and events -/

/-- What may happen without a suspended continuation being woken. -/
inductive Input
  /-- Time passes. -/
  | tick (time : Time)
  /-- Somebody pays into a subaccount of the canister. -/
  | deposit (bytes : SubAccount) (amount : ℕ)
  | mint (caller : Principal) (to' : User)
  | list (caller : Principal) (request : ListRequest)
  | lock (caller : Principal) (token : TokenIdentifier) (price : UInt64)
      (buyer : AccountIdentifier)
  | settle (caller : Principal) (token : TokenIdentifier)
  | transfer (caller : Principal) (request : Ext.TransferRequest)
  | cronSettlements
  | cronDisbursements
  | deleteDisbursementJob (caller : Principal) (token : TokenIndex) (address : AccountIdentifier)
      (amount : UInt64)

/-- Whether a call belongs to the market: anything but the two that touch the queue of
disbursements. -/
def Input.isMarket : Input → Bool
  | .cronDisbursements => false
  | .deleteDisbursementJob _ _ _ _ => false
  | _ => true

/-- Whether a call is a `lock` call. -/
def Input.isLock : Input → Bool
  | .lock _ _ _ _ => true
  | _ => false

/-- How a suspended continuation is woken. -/
inductive Wake
  /-- The message or the reply it waits for is delivered. -/
  | run
  /-- The ledger reads the balance it asked for. -/
  | report
  /-- The ledger executes the transfer it asked for. -/
  | execute (r : TransferResult)
  /-- The call it waits for is rejected. -/
  | reject

/-- The events of the history. -/
inductive Event
  /-- `list` has written a listing at this price. -/
  | listed (f : ListFrame) (price : UInt64)
  /-- `list` has deleted a listing. -/
  | delisted (f : ListFrame)
  /-- `lock` has locked a listing and awaits `_canSettle`. -/
  | lockBegan (f : LockFrame)
  /-- `lock` has created a transaction and returned `#ok`. -/
  | locked (index : TokenIndex) (t : Transaction) (expiry : Time)
  /-- The ledger has read the balance of a subaccount. -/
  | reported (bytes : SubAccount) (balance : UInt64) (time : Time)
  /-- `settle` has found too small a balance. -/
  | gaveUp (f : SettleFrame) (balance : UInt64)
  /-- `settle` has finalized a transaction, with these disbursements. -/
  | finalized (f : SettleFrame) (balance : UInt64) (jobs : List Disbursement)
  /-- The ledger has acknowledged the transfer of a job. -/
  | acknowledged (job : Disbursement)
  /-- A job has been dropped after this answer. -/
  | dropped (job : Disbursement) (reply : Option TransferResult)
  /-- `deleteDisbursementJob` has removed jobs. -/
  | deleted (jobs : List Disbursement)
  /-- The canister has been upgraded. -/
  | upgraded
  deriving DecidableEq

/-! ### The segments -/

/-- The outcome of a segment of the canister in this world. -/
abbrev Step := Actor.Outcome World Task Event

/-- A segment that traps or returns without an effect. -/
def World.idle (w : World) : Step := ⟨w, [], []⟩

/-- The jobs a segment has queued: the front of the new queue. -/
def queuedJobs (s s' : Entrepot) : List Disbursement :=
  s'.pendingDisbursements.take (s'.pendingDisbursements.length - s.pendingDisbursements.length)

/-- The outcome of a segment of `cronDisbursements`. -/
def queueOutcome (w : World) (es : List Event) : Entrepot × Progress Unit QueueFrame → Step
  | (s, .ret ()) => ⟨w.setEntrepot s, [], es⟩
  | (s, .await f) => ⟨w.setEntrepot s, [.transfer f], es⟩

/-- What becomes of the job of a `cronDisbursements` run, given the ledger's answer. -/
def answered (job : Disbursement) : Option TransferResult → List Event
  | some (.ok _) => [.acknowledged job]
  | reply => if retries reply then [] else [.dropped job reply]

/-- The ledger's side of a transfer: an executed transfer debits the amount and the fee. -/
def debit (ledger : SubAccount → ℕ) (job : Disbursement) : TransferResult → SubAccount → ℕ
  | .ok _ => Function.update ledger job.bytes (ledger job.bytes - (job.amount.toNat + 10000))
  | .err _ => ledger

/-- The first segment of a call. -/
def call (D : Deployment) (w : World) : Input → Option Step
  | .tick time => if w.now ≤ time then some ⟨{ w with now := time }, [], []⟩ else none
  | .deposit bytes amount =>
      some ⟨{ w with ledger := Function.update w.ledger bytes (w.ledger bytes + amount) }, [], []⟩
  | .mint caller to' =>
      match w.tokens.mint D w.now caller (w.canister.admins.isAdmin caller) to' with
      | .error _ => some w.idle
      | .ok (tokens, _) => some ⟨w.setTokens tokens, [], []⟩
  | .list caller request =>
      match w.entrepot.list D w.tokens w.now caller request with
      | .error _ => some w.idle
      | .ok (.ret _) => some w.idle
      | .ok (.await f) => some ⟨w, [.canSettle request.token (.list f)], []⟩
  | .lock _ token price buyer =>
      match w.entrepot.lock D w.now token price buyer with
      | (s, .ret _) => some ⟨w.setEntrepot s, [], []⟩
      | (s, .await f) => some ⟨w.setEntrepot s, [.canSettle token (.lock f)], [.lockBegan f]⟩
  | .settle _ token => some ⟨w, [.settle token .direct], []⟩
  | .transfer caller request =>
      match Ext.transfer D w.entrepot w.tokens w.now caller request with
      | .error _ => some w.idle
      | .ok (tokens, .ret _) => some ⟨w.setTokens tokens, [], []⟩
      | .ok (tokens, .await index) => some ⟨w.setTokens tokens, [.insertTransfer index], []⟩
  | .cronSettlements =>
      let (s, tokens) := w.entrepot.cronSettlements w.now
      some ⟨w.setEntrepot s, tokens.map fun token => .settle token .direct, []⟩
  | .cronDisbursements => some (queueOutcome w [] (w.entrepot.cronDisbursements D w.now))
  | .deleteDisbursementJob caller token address amount =>
      match w.entrepot.deleteDisbursementJob (w.canister.admins.isAdmin caller) token address
        amount with
      | .error _ => some w.idle
      | .ok s => some ⟨w.setEntrepot s, [], [.deleted (w.entrepot.pendingDisbursements.filter
          fun d => !(token != d.index || address != d.address || amount != d.amount))]⟩

/-- The segment a suspended continuation runs when it is woken. -/
def resume (D : Deployment) (w : World) : Task → Wake → Option Step
  | .canSettle token k, .run =>
      match w.entrepot.canSettle D token with
      | .ret r => some ⟨w, [.canSettled r k], []⟩
      | .await f => some ⟨w, [.settle token (.canSettle f k)], []⟩
  | .canSettled r (.list f), .run =>
      match w.entrepot.listResume f r with
      | (s, .error _) => some ⟨w.setEntrepot s, [], []⟩
      | (s, .ok ()) =>
          match f.request.price with
          | some price => some ⟨w.setEntrepot s, [], [.listed f price]⟩
          | none => some ⟨w.setEntrepot s, [], [.delisted f]⟩
  | .canSettled r (.lock f), .run =>
      match w.entrepot.lockResume D w.now f r with
      | (s, .error _) => some ⟨w.setEntrepot s, [], []⟩
      | (s, .ok _) => some ⟨w.setEntrepot s, [],
          [.locked f.index (f.transaction D w.entrepot.nextTxId w.now) f.expiry]⟩
  -- the body of `settle` reads the pending transaction when its message is handled
  | .settle token k, .run =>
      match w.entrepot.settle D token with
      | .ret r => some ⟨w, k.deliver r, []⟩
      | .await f => some ⟨w, [.balance f k], []⟩
  | .settled r f k, .run => some ⟨w, [.canSettled (w.entrepot.canSettleResume f r) k], []⟩
  | .balance f k, .report =>
      match Checked.ofNat (w.ledger f.transaction.bytes) with
      | none => none
      | some balance => some ⟨w, [.reported f balance k],
          [.reported f.transaction.bytes balance w.now]⟩
  | .reported f balance k, .run =>
      match w.entrepot.settleResume D w.tokens w.now f balance with
      -- a trap rolls the segment back, and whoever waits for `settle` ends with it
      | .error _ => some w.idle
      | .ok (s, tokens, .ret r) =>
          some ⟨(w.setEntrepot s).setTokens tokens, k.deliver r, [.gaveUp f balance]⟩
      | .ok (s, tokens, .await ()) =>
          some ⟨(w.setEntrepot s).setTokens tokens, [.insert k],
            [.finalized f balance (queuedJobs w.entrepot s)]⟩
  | .insert k, .run => some ⟨w, k.deliver (.ok ()), []⟩
  | .insertTransfer _, .run => some w.idle
  | .transfer f, .execute r =>
      some ⟨{ w with ledger := debit w.ledger f.job r }, [.transferred f (some r)], []⟩
  | .transfer f, .reject => some ⟨w, [.transferred f none], []⟩
  | .transferred f reply, .run =>
      match w.entrepot.cronDisbursementsResume D f reply with
      | .error _ => some w.idle
      | .ok outcome => some (queueOutcome w (answered f.job reply) outcome)
  -- only `cronDisbursements` catches a rejected call
  | .canSettle _ _, .reject => some w.idle
  | .settle _ _, .reject => some w.idle
  | .balance _ _, .reject => some w.idle
  | .insert _, .reject => some w.idle
  | .insertTransfer _, .reject => some w.idle
  | _, _ => none

/-- An upgrade, if no constructor traps. -/
def restart (w : World) (supply : UInt16) : Option Step :=
  match w.canister.upgrade supply with
  | .error _ => none
  | .ok c => some ⟨{ w with canister := c }, [], [.upgraded]⟩

/-- **The canister as an actor.** -/
def program (D : Deployment) : Actor.Program World Task Input Wake UInt16 Event :=
  { call := call D
    resume := resume D
    restart := restart }

/-- A configuration of the canister. -/
abbrev Config := Actor.Config World Task Event

/-- A condition on the segments of a run of the canister. -/
abbrev Guard := Actor.Guard World Task Input Wake UInt16 Event

/-- A configuration of the freshly installed canister. -/
def Initial (c : Config) : Prop :=
  (∃ creator supply, c.state.canister = Canister.fresh creator supply) ∧
    c.pool = [] ∧ c.history = []

/-- At first the marketplace is empty. -/
theorem Initial.entrepot {c : Config} (hc : Initial c) :
    c.state.entrepot = Entrepot.new Entrepot.Stable.initial := by
  obtain ⟨⟨creator, supply, hcan⟩, -, -⟩ := hc
  rw [World.entrepot, hcan]
  rfl

end LegendsNft
