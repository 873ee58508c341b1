/-
**What one segment can do.**

Every segment of the canister, whatever started it, makes one of the moves listed here.  A move
names everything the segment reads and writes — the guards it has passed, the new state, the
continuations it leaves behind and its events — so that an invariant is proved by one case analysis
over the moves, and no segment is unfolded again.

Main definitions:

* `LegendsNft.Task.waiter`, `LegendsNft.Task.held`, `LegendsNft.Task.run` — the `list` or `lock`
  call, the pending transaction and the queue run a continuation carries;
* `LegendsNft.QueueRun` — what one pass of the `queue` loop does;
* `LegendsNft.Move` — **the moves**.

Main results:

* `LegendsNft.Entrepot.queueLoop_cases` — the loop of `cronDisbursements`;
* `LegendsNft.move_of_segment` — **every segment makes a move**;
* `LegendsNft.invariant_of_moves`, `LegendsNft.local_of_moves`, `LegendsNft.multiset_of_moves`,
  `LegendsNft.balanced_of_moves` — the rules of `LegendsNft/Actor.lean` and
  `LegendsNft/Accounting.lean` in terms of moves.
-/

import LegendsNft.Accounting
import LegendsNft.Proceeds
import LegendsNft.System

set_option relaxedAutoImplicit false
set_option autoImplicit false

namespace LegendsNft

open Entrepot

variable {D : Deployment}

/-! ### What a continuation carries -/

/-- The call that awaits `_canSettle` behind a `settle`. -/
def SettleWaiter.waiter : SettleWaiter → Option Waiter
  | .direct => none
  | .canSettle _ w => some w

namespace Task

/-- The suspended `list` or `lock` call at the end of a chain of continuations. -/
def waiter : Task → Option Waiter
  | .canSettle _ w => some w
  | .canSettled _ w => some w
  | .settle _ k => k.waiter
  | .settled _ _ w => some w
  | .balance _ k => k.waiter
  | .reported _ _ k => k.waiter
  | .insert k => k.waiter
  | .insertTransfer _ => none
  | .transfer _ => none
  | .transferred _ _ => none

/-- The pending transaction a `settle` call has read. -/
def held : Task → Option SettleFrame
  | .balance f _ => some f
  | .reported f _ _ => some f
  | _ => none

/-- The locals of a suspended run of `cronDisbursements`. -/
def run : Task → Option QueueFrame
  | .transfer f => some f
  | .transferred f _ => some f
  | _ => none

end Task

/-- A continuation of these waiters that carries neither a transaction nor a queue run. -/
structure Task.Relays (w : Option Waiter) (k : Task) : Prop where
  waiter : k.waiter = w
  held : k.held = none
  run : k.run = none

theorem SettleWaiter.relays_of_mem_deliver {k : SettleWaiter} {r : Except CommonError Unit}
    {k' : Task} (h : k' ∈ k.deliver r) : k'.Relays k.waiter := by
  cases k with
  | direct => simp [deliver] at h
  | canSettle f w =>
      rw [deliver, List.mem_singleton] at h
      subst h
      exact ⟨rfl, rfl, rfl⟩

theorem SettleWaiter.length_deliver_le (k : SettleWaiter) (r : Except CommonError Unit) :
    (k.deliver r).length ≤ 1 := by
  cases k <;> simp [deliver]

/-! ### The queue -/

/-- The two states agree on everything a sale depends on. -/
structure SameMarket (s s' : Entrepot) : Prop where
  listings : s'.listings = s.listings
  pendingTransactions : s'.pendingTransactions = s.pendingTransactions
  nextTxId : s'.nextTxId = s.nextTxId
  transactions : s'.transactions = s.transactions
  nextSubAccount : s'.nextSubAccount = s.nextSubAccount
  totalVolume : s'.totalVolume = s.totalVolume
  lowestPriceSale : s'.lowestPriceSale = s.lowestPriceSale
  highestPriceSale : s'.highestPriceSale = s.highestPriceSale
  usedPaymentAddresses : s'.usedPaymentAddresses = s.usedPaymentAddresses

/-- One pass of the `queue` loop over these jobs: either none of them can be submitted and all are
queued again, or one of them is, the others being split between the queue and the run. -/
inductive QueueRun (jobs : Multiset Disbursement) (s s' : Entrepot) : List Task → Prop
  | finished (market : SameMarket s s') (count : s'.pendingCount = s.pendingCount)
      (split : (s'.pendingDisbursements : Multiset Disbursement) = jobs) : QueueRun jobs s s' []
  | submitted (f : QueueFrame) (market : SameMarket s s')
      (count : s'.pendingCount = s.pendingCount + 1)
      (split : (s'.pendingDisbursements + f.job ::ₘ f.failed : Multiset Disbursement) = jobs) :
      QueueRun jobs s s' [.transfer f]

namespace QueueRun

variable {jobs : Multiset Disbursement} {s s' : Entrepot} {ks : List Task}

theorem market (h : QueueRun jobs s s' ks) : SameMarket s s' := by
  cases h <;> assumption

theorem waiter_eq_none (h : QueueRun jobs s s' ks) {k : Task} (hk : k ∈ ks) :
    k.waiter = none ∧ k.held = none := by
  cases h with
  | finished => simp at hk
  | submitted f =>
      rw [List.mem_singleton] at hk
      subst hk
      exact ⟨rfl, rfl⟩

end QueueRun

/-- **The queue loop**: it ends when no job is left, having put all of them aside, or at the first
job it can submit. -/
theorem Entrepot.queueLoop_cases (D : Deployment) (s : Entrepot)
    (jobs failed : List Disbursement) :
    (∃ rest, queueLoop D s jobs failed = ({ s with pendingDisbursements := rest }, .ret ()) ∧
      rest.Perm (jobs ++ failed)) ∨
    (∃ job rest failed', queueLoop D s jobs failed =
        ({ s with pendingDisbursements := rest, pendingCount := s.pendingCount + 1 },
          .await ⟨job, failed'⟩) ∧
      (rest ++ job :: failed').Perm (jobs ++ failed)) := by
  -- a job that cannot be submitted moves to the jobs put aside, up to a permutation
  induction jobs generalizing failed with
  | nil => exact Or.inl ⟨failed, rfl, List.Perm.refl _⟩
  | cons job jobs ih =>
      rw [queueLoop]
      cases D.hexDecode job.address with
      | ok b =>
          refine Or.inr ⟨job, jobs, failed, rfl, ?_⟩
          exact List.perm_middle
      | error e =>
          have hperm : (jobs ++ job :: failed).Perm (job :: jobs ++ failed) := List.perm_middle
          rcases ih (job :: failed) with ⟨rest, heq, hp⟩ | ⟨job', rest, failed', heq, hp⟩
          · exact Or.inl ⟨rest, heq, hp.trans hperm⟩
          · exact Or.inr ⟨job', rest, failed', heq, hp.trans hperm⟩

/-- The outcome of a pass of the loop. -/
theorem exists_queueRun (D : Deployment) (w : World) (s : Entrepot)
    (jobs failed : List Disbursement) (es : List Event) :
    ∃ s' ks, queueOutcome w es (queueLoop D s jobs failed) = ⟨w.setEntrepot s', ks, es⟩ ∧
      QueueRun (jobs + failed : Multiset Disbursement) s s' ks := by
  rcases queueLoop_cases D s jobs failed with ⟨rest, heq, hp⟩ | ⟨job, rest, failed', heq, hp⟩
  · refine ⟨{ s with pendingDisbursements := rest }, [], ?_,
      .finished ⟨rfl, rfl, rfl, rfl, rfl, rfl, rfl, rfl, rfl⟩ rfl (Multiset.coe_eq_coe.2 hp)⟩
    rw [heq]
    rfl
  · refine ⟨{ s with pendingDisbursements := rest, pendingCount := s.pendingCount + 1 },
      [.transfer ⟨job, failed'⟩], ?_,
      .submitted _ ⟨rfl, rfl, rfl, rfl, rfl, rfl, rfl, rfl, rfl⟩ rfl (Multiset.coe_eq_coe.2 hp)⟩
    rw [heq]
    rfl

/-! ### The moves -/

/-- What starts a segment of the canister. -/
abbrev Source := Actor.Source Task Input Wake

/-- The state after the first segment of a `lock` call. -/
def Entrepot.lockedBy (s : Entrepot) (f : LockFrame) : Entrepot :=
  { s with
    nextSubAccount := s.nextSubAccount + 1
    listings := s.listings.put f.index f.lockedListing }

/-- The state after `list` has written its listing. -/
def Entrepot.listedBy (s : Entrepot) (f : ListFrame) (price : UInt64) : Entrepot :=
  { s with listings := s.listings.put f.index {
      locked := none
      seller := f.caller
      subaccount := f.request.from_subaccount
      price := price } }

/-- The state after `lock` has created its transaction. -/
def Entrepot.created (s : Entrepot) (f : LockFrame) (t : Transaction) : Entrepot :=
  { s with
    pendingTransactions := s.pendingTransactions.put f.index t
    nextTxId := s.nextTxId + 1 }

/-- **The moves**: what a segment started by this source can do in this world. -/
inductive Move (D : Deployment) (w : World) : Source → Step → Prop
  /-- The segment traps or returns without an effect. -/
  | idle {src : Source}
      (run : ∀ k ∈ Actor.Source.task src, k.run ≠ none → w.entrepot.pendingCount = 0) :
      Move D w src w.idle
  /-- A message is passed on between the functions of the canister. -/
  | relay {k : Task} {ks : List Task} (run : k.run = none) (length : ks.length ≤ 1)
      (relays : ∀ k' ∈ ks, k'.Relays k.waiter) : Move D w (.resume k .run) ⟨w, ks, []⟩
  | tick {time : Time} (later : w.now ≤ time) :
      Move D w (.call (.tick time)) ⟨{ w with now := time }, [], []⟩
  | deposit {bytes : SubAccount} {amount : ℕ} :
      Move D w (.call (.deposit bytes amount))
        ⟨{ w with ledger := Function.update w.ledger bytes (w.ledger bytes + amount) }, [], []⟩
  | mint {caller : Principal} {to' : User} {tokens : Tokens} {r : Except Text ℕ}
      (minted : w.tokens.mint D w.now caller (w.canister.admins.isAdmin caller) to' =
        .ok (tokens, r)) :
      Move D w (.call (.mint caller to')) ⟨w.setTokens tokens, [], []⟩
  | listBegan {caller : Principal} {request : ListRequest} {p : Principal} {index : TokenIndex}
      (decoded : D.decode request.token = .ok (p, index))
      (owns : w.tokens.Owns D (D.accountText caller request.from_subaccount) index)
      (unlocked : w.entrepot.isLocked w.now index = false) :
      Move D w (.call (.list caller request))
        ⟨w, [.canSettle request.token (.list ⟨caller, request, index⟩)], []⟩
  | lockBegan {caller : Principal} {token : TokenIdentifier} {price : UInt64}
      {buyer : AccountIdentifier} {f : LockFrame}
      (unlocked : w.entrepot.isLocked w.now f.index = false)
      (listed : w.entrepot.listings.get f.index = some f.listing)
      (price_eq : price = f.listing.price) (token_eq : f.token = token) (buyer_eq : f.buyer = buyer)
      (subaccount_eq : f.subaccount =
        natToSubAccount (4294967296 + (w.entrepot.nextSubAccount + 1)))
      (expiry_eq : f.expiry = w.now + transactionTtl) :
      Move D w (.call (.lock caller token price buyer))
        ⟨w.setEntrepot (w.entrepot.lockedBy f), [.canSettle token (.lock f)], [.lockBegan f]⟩
  /-- Messages to `settle` are sent, by a caller or by `cronSettlements`. -/
  | sent {i : Input} {s : Entrepot} {tokens : List TokenIdentifier}
      (market : SameMarket w.entrepot s)
      (queue : s.pendingDisbursements = w.entrepot.pendingDisbursements)
      (count : s.pendingCount = w.entrepot.pendingCount) :
      Move D w (.call i) ⟨w.setEntrepot s, tokens.map fun token => .settle token .direct, []⟩
  | extTransfer {caller : Principal} {request : Ext.TransferRequest} {p : Principal}
      {index : TokenIndex} {tokens : Tokens}
      (decoded : D.decode request.token = .ok (p, index))
      (owner : ∃ a, w.tokens.ownerOf index = some a ∧
        D.upper a = D.upper (D.accountText caller request.subaccount))
      (unlisted : w.entrepot.listings.get index = none)
      (transferred : w.tokens.transfer D w.now index
        (D.upper (D.accountText caller request.subaccount)) (D.upper (D.userAccount request.to')) =
          .ok tokens) :
      Move D w (.call (.transfer caller request)) ⟨w.setTokens tokens, [.insertTransfer index], []⟩
  | queueStart {s : Entrepot} {ks : List Task}
      (pass : QueueRun w.entrepot.pendingDisbursements w.entrepot s ks) :
      Move D w (.call .cronDisbursements) ⟨w.setEntrepot s, ks, []⟩
  | queueStep {f : QueueFrame} {reply : Option TransferResult} {n : ℕ} {s : Entrepot}
      {ks : List Task} (count : w.entrepot.pendingCount = n + 1)
      (pass : QueueRun (w.entrepot.pendingDisbursements +
          (if retries reply then f.job :: f.failed else f.failed : List Disbursement))
        { w.entrepot with pendingCount := n } s ks) :
      Move D w (.resume (.transferred f reply) .run) ⟨w.setEntrepot s, ks, answered f.job reply⟩
  | deleted {caller : Principal} {token : TokenIndex} {address : AccountIdentifier}
      {amount : UInt64} (p : Disbursement → Bool) :
      Move D w (.call (.deleteDisbursementJob caller token address amount))
        ⟨w.setEntrepot { w.entrepot with
            pendingDisbursements := w.entrepot.pendingDisbursements.filter p }, [],
          [.deleted (w.entrepot.pendingDisbursements.filter fun d => !p d)]⟩
  | listed {f : ListFrame} {price : UInt64} (price_eq : f.request.price = some price) :
      Move D w (.resume (.canSettled (.ok ()) (.list f)) .run)
        ⟨w.setEntrepot (w.entrepot.listedBy f price), [], [.listed f price]⟩
  | delisted {f : ListFrame} (price_eq : f.request.price = none) :
      Move D w (.resume (.canSettled (.ok ()) (.list f)) .run)
        ⟨w.setEntrepot { w.entrepot with listings := w.entrepot.listings.delete f.index }, [],
          [.delisted f]⟩
  | locked {f : LockFrame} {t : Transaction}
      (created : t = f.transaction D w.entrepot.nextTxId w.now) :
      Move D w (.resume (.canSettled (.ok ()) (.lock f)) .run)
        ⟨w.setEntrepot (w.entrepot.created f t), [], [.locked f.index t f.expiry]⟩
  /-- `settle` reads the pending transaction and asks the ledger. -/
  | read {token : TokenIdentifier} {k : SettleWaiter} {f : SettleFrame}
      (pending : w.entrepot.pendingTransactions.get f.index = some f.transaction) :
      Move D w (.resume (.settle token k) .run) ⟨w, [.balance f k], []⟩
  | report {f : SettleFrame} {k : SettleWaiter} {balance : UInt64}
      (balance_eq : balance.toNat = w.ledger f.transaction.bytes) :
      Move D w (.resume (.balance f k) .report)
        ⟨w, [.reported f balance k], [.reported f.transaction.bytes balance w.now]⟩
  | gaveUp {f : SettleFrame} {balance : UInt64} {k : SettleWaiter} {r : Except CommonError Unit}
      (unpaid : balance < f.transaction.price) :
      Move D w (.resume (.reported f balance k) .run)
        ⟨w.setEntrepot (w.entrepot.giveUp w.now f), k.deliver r, [.gaveUp f balance]⟩
  | finalized {f : SettleFrame} {balance : UInt64} {k : SettleWaiter} {s : Entrepot}
      {tokens : Tokens} {jobs : List Disbursement} (paid : f.transaction.price ≤ balance)
      (sale : Sale fees w.entrepot s w.now f balance jobs)
      (transferred : w.tokens.transfer D w.now f.index f.transaction.from' f.transaction.to' =
        .ok tokens) :
      Move D w (.resume (.reported f balance k) .run)
        ⟨(w.setEntrepot s).setTokens tokens, [.insert k], [.finalized f balance jobs]⟩
  | executed {f : QueueFrame} {r : TransferResult} :
      Move D w (.resume (.transfer f) (.execute r))
        ⟨{ w with ledger := debit w.ledger f.job r }, [.transferred f (some r)], []⟩
  | rejected {f : QueueFrame} :
      Move D w (.resume (.transfer f) .reject) ⟨w, [.transferred f none], []⟩

/-! ### Every segment makes a move -/

theorem Move.idle_of_run {w : World} {src : Source}
    (h : ∀ k ∈ Actor.Source.task src, k.run = none) : Move D w src w.idle :=
  .idle fun k hk hrun => absurd (h k hk) hrun

theorem Move.idle_call (w : World) (i : Input) : Move D w (.call i) w.idle :=
  .idle_of_run fun _ hk => absurd hk (Multiset.notMem_zero _)

/-- A `list` call that goes on has found its caller to own the token, and the token unlocked. -/
theorem list_eq_await {s : Entrepot} {tokens : Tokens} {now : Time} {caller : Principal}
    {request : ListRequest} {f : ListFrame}
    (h : s.list D tokens now caller request = .ok (.await f)) :
    ∃ p index, D.decode request.token = .ok (p, index) ∧
      tokens.Owns D (D.accountText caller request.from_subaccount) index ∧
      s.isLocked now index = false ∧ f = ⟨caller, request, index⟩ := by
  unfold list at h
  cases hd : D.decode request.token with
  | error e => simp [hd] at h
  | ok pi =>
      obtain ⟨p, index⟩ := pi
      simp only [hd] at h
      cases ho : tokens.isOwner D (D.accountText caller request.from_subaccount) index with
      | error e => simp [ho] at h
      | ok b =>
          cases b with
          | false => simp [ho] at h
          | true =>
              cases hl : s.isLocked now index with
              | true => simp [ho, hl] at h
              | false =>
                  simp only [ho, hl, Bool.false_eq_true, if_false, Except.ok.injEq,
                    Progress.await.injEq] at h
                  exact ⟨p, index, rfl, Tokens.isOwner_eq_true.1 ho, hl, h.symm⟩

/-- A `lock` call that goes on has found an unlocked listing at its price, and has locked it. -/
theorem lock_eq_await {s s' : Entrepot} {now : Time} {token : TokenIdentifier} {price : UInt64}
    {buyer : AccountIdentifier} {f : LockFrame}
    (h : s.lock D now token price buyer = (s', .await f)) :
    s.isLocked now f.index = false ∧ s.listings.get f.index = some f.listing ∧
      price = f.listing.price ∧ f.token = token ∧ f.buyer = buyer ∧
      f.subaccount = natToSubAccount (4294967296 + (s.nextSubAccount + 1)) ∧
      f.expiry = now + transactionTtl ∧ s' = s.lockedBy f := by
  unfold lock at h
  cases hu : unpackTokenIdentifier D token with
  | error e => simp [hu] at h
  | ok index =>
      cases hl : s.isLocked now index with
      | true => simp [hu, hl] at h
      | false =>
          cases hg : s.listings.get index with
          | none => simp [hu, hl, hg] at h
          | some listing =>
              by_cases hp : price = listing.price
              · simp only [hu, hl, hg, hp, Bool.false_eq_true, if_false, ne_eq, not_true_eq_false,
                  getNextSubAccount, Prod.mk.injEq, Progress.await.injEq] at h
                obtain ⟨rfl, rfl⟩ := h
                exact ⟨hl, hg, hp, rfl, rfl, rfl, rfl, rfl⟩
              · simp [hu, hl, hg, hp] at h

/-- A `lock` call that returns at once leaves the state as it was. -/
theorem lock_eq_ret {s s' : Entrepot} {now : Time} {token : TokenIdentifier} {price : UInt64}
    {buyer : AccountIdentifier} {r : Except CommonError AccountIdentifier}
    (h : s.lock D now token price buyer = (s', .ret r)) : s' = s := by
  unfold lock at h
  cases hu : unpackTokenIdentifier D token with
  | error e =>
      simp only [hu, Prod.mk.injEq] at h
      exact h.1.symm
  | ok index =>
      simp only [hu] at h
      split at h
      · cases h
        rfl
      · split at h
        · cases h
          rfl
        · split at h
          · cases h
            rfl
          · simp at h

/-- What a token transfer through the EXT interface has checked before it goes on. -/
theorem transfer_eq_await {s : Entrepot} {tokens tokens' : Tokens} {now : Time}
    {caller : Principal} {request : Ext.TransferRequest} {index : TokenIndex}
    (h : Ext.transfer D s tokens now caller request = .ok (tokens', .await index)) :
    ∃ p, D.decode request.token = .ok (p, index) ∧
      (∃ a, tokens.ownerOf index = some a ∧
        D.upper a = D.upper (D.accountText caller request.subaccount)) ∧
      s.listings.get index = none ∧
      tokens.transfer D now index (D.upper (D.accountText caller request.subaccount))
        (D.upper (D.userAccount request.to')) = .ok tokens' := by
  unfold Ext.transfer at h
  cases hd : D.decode request.token with
  | error e => simp [hd] at h
  | ok pi =>
      obtain ⟨p, i⟩ := pi
      cases hg : tokens.getOwner i.toNat with
      | error e => simp [hd, hg] at h
      | ok o =>
          cases o with
          | none => simp [hd, hg] at h
          | some token =>
              simp only [hd, hg] at h
              have howner : tokens.ownerOf i = some token.owner := by
                unfold Tokens.getOwner at hg
                unfold Tokens.ownerOf
                cases hl : tokens.ledger[i.toNat]? with
                | none => simp [hl] at hg
                | some o =>
                    simp only [hl, Except.ok.injEq] at hg
                    subst hg
                    rfl
              by_cases h₁ : D.upper token.owner = D.upper (D.userAccount request.from')
              · by_cases h₂ : D.upper (D.userAccount request.from') =
                  D.upper (D.accountText caller request.subaccount)
                · cases hl : s.listings.get i with
                  | some listing => simp [h₁, h₂, getListing, hl] at h
                  | none =>
                      cases ht : tokens.transfer D now i
                        (D.upper (D.accountText caller request.subaccount))
                        (D.upper (D.userAccount request.to')) with
                      | error e => simp [h₁, h₂, getListing, hl, ht] at h
                      | ok tokens₁ =>
                          simp only [h₁, h₂, getListing, hl, ht, ne_eq, not_true_eq_false,
                            if_false, Option.isSome_none, Bool.false_eq_true, Except.ok.injEq,
                            Prod.mk.injEq, Progress.await.injEq] at h
                          obtain ⟨rfl, rfl⟩ := h
                          exact ⟨p, rfl, ⟨_, howner, h₁.trans h₂⟩, hl, ht⟩
                · simp [h₁, h₂] at h
              · simp [h₁] at h

/-- A token transfer that returns at once leaves the ledger as it was. -/
theorem transfer_eq_ret {s : Entrepot} {tokens tokens' : Tokens} {now : Time}
    {caller : Principal} {request : Ext.TransferRequest} {r : Except Ext.TransferFailure ℕ}
    (h : Ext.transfer D s tokens now caller request = .ok (tokens', .ret r)) :
    tokens' = tokens := by
  unfold Ext.transfer at h
  cases hd : D.decode request.token with
  | error e =>
      simp only [hd, Except.ok.injEq, Prod.mk.injEq] at h
      exact h.1.symm
  | ok pi =>
      obtain ⟨p, i⟩ := pi
      cases hg : tokens.getOwner i.toNat with
      | error e => simp [hd, hg] at h
      | ok o =>
          cases o with
          | none =>
              simp only [hd, hg, Except.ok.injEq, Prod.mk.injEq] at h
              exact h.1.symm
          | some token =>
              simp only [hd, hg] at h
              by_cases h₁ : D.upper token.owner = D.upper (D.userAccount request.from')
              · by_cases h₂ : D.upper (D.userAccount request.from') =
                  D.upper (D.accountText caller request.subaccount)
                · cases hl : s.listings.get i with
                  | some listing =>
                      simp [h₁, h₂, getListing, hl] at h
                      exact h.1.symm
                  | none =>
                      cases ht : tokens.transfer D now i
                        (D.upper (D.accountText caller request.subaccount))
                        (D.upper (D.userAccount request.to')) with
                      | error e => simp [h₁, h₂, getListing, hl, ht] at h
                      | ok tokens₁ => simp [h₁, h₂, getListing, hl, ht] at h
                · simp [h₁, h₂] at h
                  exact h.1.symm
              · simp [h₁] at h
                exact h.1.symm

/-- **Every call makes a move.** -/
theorem move_of_call {w : World} {i : Input} {o : Step} (h : call D w i = some o) :
    Move D w (.call i) o := by
  cases i with
  | tick time =>
      rw [call] at h
      split at h
      · cases h
        exact .tick ‹_›
      · simp at h
  | deposit bytes amount =>
      cases h
      exact .deposit
  | mint caller to' =>
      rw [call] at h
      split at h
      · cases h
        exact .idle_call w _
      · rename_i tokens r hm
        cases h
        exact .mint hm
  | list caller request =>
      rw [call] at h
      split at h
      · cases h
        exact .idle_call w _
      · cases h
        exact .idle_call w _
      · rename_i f hf
        cases h
        obtain ⟨p, index, hd, ho, hl, rfl⟩ := list_eq_await hf
        exact .listBegan hd ho hl
  | lock caller token price buyer =>
      rw [call] at h
      split at h
      · rename_i s r hs
        cases h
        rw [lock_eq_ret hs]
        exact .idle_call w _
      · rename_i s f hs
        cases h
        obtain ⟨hl, hg, hp, ht, hb, hsub, he, rfl⟩ := lock_eq_await hs
        exact .lockBegan hl hg hp ht hb hsub he
  | settle caller token =>
      cases h
      have hmove : Move D w (.call (.settle caller token)) ⟨w.setEntrepot w.entrepot,
          [token].map fun token => .settle token .direct, []⟩ :=
        .sent ⟨rfl, rfl, rfl, rfl, rfl, rfl, rfl, rfl, rfl⟩ rfl rfl
      exact hmove
  | transfer caller request =>
      rw [call] at h
      split at h
      · cases h
        exact .idle_call w _
      · rename_i tokens r ht
        cases h
        rw [transfer_eq_ret ht]
        exact .idle_call w _
      · rename_i tokens index ht
        cases h
        obtain ⟨p, hd, ho, hl, ht⟩ := transfer_eq_await ht
        exact .extTransfer hd ho hl ht
  | cronSettlements =>
      cases hs : w.entrepot.cronSettlements w.now with
      | mk s tokens =>
          simp only [call, hs, Option.some_inj] at h
          subst h
          unfold cronSettlements at hs
          split at hs
          · cases hs
            exact .sent ⟨rfl, rfl, rfl, rfl, rfl, rfl, rfl, rfl, rfl⟩ rfl rfl
          · cases hs
            exact .sent ⟨rfl, rfl, rfl, rfl, rfl, rfl, rfl, rfl, rfl⟩ rfl rfl
  | cronDisbursements =>
      rw [call] at h
      unfold cronDisbursements at h
      split at h
      · cases h
        exact .idle_call w _
      · split at h
        · cases h
          exact .idle_call w _
        · obtain ⟨s', ks, heq, hrun⟩ := exists_queueRun D w
            { w.entrepot with lastDisburseCron := w.now } w.entrepot.pendingDisbursements [] []
          rw [heq] at h
          cases h
          rw [Multiset.coe_nil, Multiset.add_zero] at hrun
          refine .queueStart ?_
          cases hrun with
          | finished hm hc hs =>
              exact .finished ⟨hm.1, hm.2, hm.3, hm.4, hm.5, hm.6, hm.7, hm.8, hm.9⟩ hc hs
          | submitted f hm hc hs =>
              exact .submitted f ⟨hm.1, hm.2, hm.3, hm.4, hm.5, hm.6, hm.7, hm.8, hm.9⟩ hc hs
  | deleteDisbursementJob caller token address amount =>
      rw [call] at h
      unfold deleteDisbursementJob at h
      split at h
      · cases h
        exact .idle_call w _
      · rename_i s hs
        split at hs
        · cases hs
          cases h
          exact .deleted _
        · simp at hs

/-- A `settle` call that goes on has read the transaction pending at its index. -/
theorem settle_eq_await {s : Entrepot} {token : TokenIdentifier} {f : SettleFrame}
    (h : s.settle D token = .await f) :
    s.pendingTransactions.get f.index = some f.transaction := by
  unfold settle at h
  split at h
  · simp at h
  · split at h
    · rename_i transaction ht
      cases h
      exact ht
    · simp at h

/-- The front of the queue after a sale is what the sale has queued. -/
theorem queuedJobs_eq {s s' : Entrepot} {now : Time} {f : SettleFrame} {balance : UInt64}
    {jobs : List Disbursement} (h : Sale fees s s' now f balance jobs) :
    queuedJobs s s' = jobs := by
  rw [queuedJobs, h.pendingDisbursements, List.length_append, Nat.add_sub_cancel,
    List.take_left]

/-- One message is passed on. -/
theorem Move.relay_one {w : World} {k k' : Task} (hrun : k.run = none)
    (h : k'.Relays k.waiter) : Move D w (.resume k .run) ⟨w, [k'], []⟩ :=
  .relay hrun (le_refl 1) fun _ hmem => List.mem_singleton.1 hmem ▸ h

/-- A result of `settle` is delivered. -/
theorem Move.relay_deliver {w : World} {k : Task} {k' : SettleWaiter}
    {r : Except CommonError Unit} (hrun : k.run = none) (hw : k.waiter = k'.waiter) :
    Move D w (.resume k .run) ⟨w, k'.deliver r, []⟩ :=
  .relay hrun (k'.length_deliver_le r) fun _ hmem =>
    hw ▸ SettleWaiter.relays_of_mem_deliver hmem

/-- **Every resumption makes a move.** -/
theorem move_of_resume {w : World} {k : Task} {r : Wake} {o : Step}
    (h : resume D w k r = some o) : Move D w (.resume k r) o := by
  have idle : k.run = none → Move D w (.resume k r) w.idle := by
    intro hk
    refine .idle_of_run ?_
    intro k' hk'
    rw [Multiset.mem_singleton.1 hk']
    exact hk
  cases k with
  | canSettle token k =>
      cases r with
      | run =>
          rw [resume] at h
          split at h
          · cases h
            exact .relay_one rfl ⟨rfl, rfl, rfl⟩
          · cases h
            exact .relay_one rfl ⟨rfl, rfl, rfl⟩
      | reject =>
          cases h
          exact idle rfl
      | report => simp [resume] at h
      | execute r => simp [resume] at h
  | canSettled r' k =>
      cases r with
      | run =>
          cases k with
          | list f =>
              cases r' with
              | error e =>
                  cases h
                  exact idle rfl
              | ok u =>
                  cases hp : f.request.price with
                  | some price =>
                      simp only [resume, listResume, hp, Option.some_inj] at h
                      subst h
                      exact .listed hp
                  | none =>
                      simp only [resume, listResume, hp, Option.some_inj] at h
                      subst h
                      exact .delisted hp
          | lock f =>
              cases r' with
              | error e =>
                  cases h
                  exact idle rfl
              | ok u =>
                  cases h
                  exact .locked rfl
      | reject => cases k <;> simp [resume] at h
      | report => cases k <;> simp [resume] at h
      | execute r => cases k <;> simp [resume] at h
  | settle token k =>
      cases r with
      | run =>
          rw [resume] at h
          split at h
          · cases h
            exact .relay_deliver rfl rfl
          · rename_i f hf
            cases h
            exact .read (settle_eq_await hf)
      | reject =>
          cases h
          exact idle rfl
      | report => simp [resume] at h
      | execute r => simp [resume] at h
  | settled r' f k =>
      cases r with
      | run =>
          cases h
          exact .relay_one rfl ⟨rfl, rfl, rfl⟩
      | reject => simp [resume] at h
      | report => simp [resume] at h
      | execute r => simp [resume] at h
  | balance f k =>
      cases r with
      | run => simp [resume] at h
      | reject =>
          cases h
          exact idle rfl
      | report =>
          rw [resume] at h
          split at h
          · simp at h
          · rename_i balance hb
            cases h
            exact .report (Checked.ofNat_eq_some.1 hb)
      | execute r => simp [resume] at h
  | reported f balance k =>
      cases r with
      | run =>
          rw [resume] at h
          unfold settleResume at h
          by_cases hlt : balance < f.transaction.price
          · simp only [hlt, if_true, Option.some_inj] at h
            subst h
            exact .gaveUp hlt
          · cases hf : finalize D fees w.entrepot w.tokens w.now f balance with
            | error e =>
                -- the whole settlement is undone
                simp only [hlt, hf, if_false, Option.some_inj] at h
                subst h
                exact idle rfl
            | ok st =>
                obtain ⟨s, tokens⟩ := st
                simp only [hlt, hf, if_false, Option.some_inj] at h
                subst h
                obtain ⟨jobs, hsale, ht⟩ := sale_of_finalize hf
                rw [queuedJobs_eq hsale]
                exact .finalized (UInt64.not_lt.1 hlt) hsale ht
      | reject => simp [resume] at h
      | report => simp [resume] at h
      | execute r => simp [resume] at h
  | insert k =>
      cases r with
      | run =>
          cases h
          exact .relay_deliver rfl rfl
      | reject =>
          cases h
          exact idle rfl
      | report => simp [resume] at h
      | execute r => simp [resume] at h
  | insertTransfer index =>
      cases r with
      | run =>
          cases h
          exact idle rfl
      | reject =>
          cases h
          exact idle rfl
      | report => simp [resume] at h
      | execute r => simp [resume] at h
  | transfer f =>
      cases r with
      | run => simp [resume] at h
      | reject =>
          cases h
          exact .rejected
      | report => simp [resume] at h
      | execute r =>
          cases h
          exact .executed
  | transferred f reply =>
      cases r with
      | run =>
          rw [resume] at h
          unfold cronDisbursementsResume at h
          cases hc : w.entrepot.pendingCount with
          | zero =>
              -- `pendingCount -= 1` underflows
              simp only [hc, if_true, Option.some_inj] at h
              subst h
              exact .idle fun _ _ _ => hc
          | succ n =>
              obtain ⟨s', ks, heq, hrun⟩ := exists_queueRun D w
                { w.entrepot with pendingCount := n } w.entrepot.pendingDisbursements
                (if retries reply then f.job :: f.failed else f.failed) (answered f.job reply)
              simp only [hc, Nat.succ_ne_zero, if_false, Nat.add_sub_cancel, heq,
                Option.some_inj] at h
              subst h
              exact .queueStep hc hrun
      | reject => simp [resume] at h
      | report => simp [resume] at h
      | execute r => simp [resume] at h

/-- **Every segment makes a move.** -/
theorem move_of_segment {w : World} {src : Source} {o : Step}
    (h : (program D).segment w src = some o) : Move D w src o := by
  cases src with
  | call i => exact move_of_call h
  | resume k r => exact move_of_resume h

/-! ### Invariant rules -/

theorem restart_eq_some {w : World} {supply : UInt16} {o : Step}
    (h : restart w supply = some o) :
    ∃ c, w.canister.upgrade supply = .ok c ∧ o = ⟨{ w with canister := c }, [], [.upgraded]⟩ := by
  unfold restart at h
  split at h
  · simp at h
  · rename_i c hc
    cases h
    exact ⟨c, hc, rfl⟩

variable {G : Guard}

/-- **Invariants of the pool as a multiset**, move by move. -/
theorem multiset_of_moves {J : World → List Event → Multiset Task → Prop}
    (hmove : ∀ c src m o, (c.pool : Multiset Task) = Actor.Source.task src + m →
      J c.state c.history (Actor.Source.task src + m) → G.segment c src → Move D c.state src o →
      J o.state (o.events ++ c.history) (m + o.spawned))
    (hupgrade : ∀ c supply canister, J c.state c.history c.pool → G.restart c supply →
      c.state.canister.upgrade supply = .ok canister →
      J { c.state with canister := canister } (.upgraded :: c.history) 0)
    {c c' : Config} (h : Actor.Run (program D) G c c') (hc : J c.state c.history c.pool) :
    J c'.state c'.history c'.pool := by
  refine h.multiset_induct (fun c src m o hpool hJ hg ho =>
    hmove c src m o hpool hJ hg (move_of_segment ho)) ?_ hc
  intro c supply o hJ hg ho
  obtain ⟨canister, hup, rfl⟩ := restart_eq_some ho
  exact hupgrade c supply canister hJ hg hup

/-- **The thread-modular rule**, move by move. -/
theorem local_of_moves {I : World → List Event → Prop} {K : World → List Event → Task → Prop}
    (hmove : ∀ c src o, I c.state c.history →
      (∀ k ∈ Actor.Source.task src, k ∈ c.pool ∧ K c.state c.history k) → G.segment c src →
      Move D c.state src o → o.Keeps I K c.state c.history)
    (hupgrade : ∀ c supply canister, I c.state c.history → G.restart c supply →
      c.state.canister.upgrade supply = .ok canister →
      I { c.state with canister := canister } (.upgraded :: c.history)) :
    (program D).Local G I K where
  segment := fun c src o hI hK hg ho => hmove c src o hI hK hg (move_of_segment ho)
  restart := by
    intro c supply o hI hg ho
    obtain ⟨canister, hup, rfl⟩ := restart_eq_some ho
    exact ⟨hupgrade c supply canister hI hg hup, by simp⟩

/-- **Invariants of the state and the history**, move by move. -/
theorem invariant_of_moves {I : World → List Event → Prop}
    (hmove : ∀ c src o, I c.state c.history → (∀ k ∈ Actor.Source.task src, k ∈ c.pool) →
      G.segment c src → Move D c.state src o → I o.state (o.events ++ c.history))
    (hupgrade : ∀ c supply canister, I c.state c.history → G.restart c supply →
      c.state.canister.upgrade supply = .ok canister →
      I { c.state with canister := canister } (.upgraded :: c.history))
    {c c' : Config} (h : Actor.Run (program D) G c c') (hc : I c.state c.history) :
    I c'.state c'.history := by
  refine multiset_of_moves (J := fun w h _ => I w h) ?_ hupgrade h hc
  intro c src m o hpool hI hg ho
  refine hmove c src o hI ?_ hg ho
  intro k hk
  have hmem := Multiset.mem_add.2 (Or.inl hk : k ∈ Actor.Source.task src ∨ k ∈ m)
  exact Multiset.mem_coe.1 (hpool ▸ hmem)

/-- **Accounts**, move by move. -/
theorem balanced_of_moves {M : Type} [AddCommMonoid M] (A : Actor.Account World Task Event M)
    (hmove : ∀ c src o, (∀ k ∈ Actor.Source.task src, k ∈ c.pool) → G.segment c src →
      Move D c.state src o → A.Balanced c.state (Actor.Source.task src) o)
    (hupgrade : ∀ c supply canister, G.restart c supply →
      c.state.canister.upgrade supply = .ok canister →
      A.Balanced c.state c.pool ⟨{ c.state with canister := canister }, [], [.upgraded]⟩)
    {c c' : Config} (h : Actor.Run (program D) G c c') :
    A.total c.state c.history c.pool + A.gains c'.history =
      A.total c'.state c'.history c'.pool + A.gains c.history := by
  refine Actor.Run.balanced A (fun c src o hsrc hg ho =>
    hmove c src o hsrc hg (move_of_segment ho)) ?_ h
  intro c supply o hg ho
  obtain ⟨canister, hup, rfl⟩ := restart_eq_some ho
  exact hupgrade c supply canister hg hup

end LegendsNft
