/-
**Identifiers of other canisters.**

A token identifier names a canister and an index.  `lock` and `settle` unpack it with
`_unpackTokenIdentifier`, which compares the canister with their own; `list`, `details`,
`_canSettle` and the methods of the EXT interface decode it and drop the canister.  So an
identifier that does not decode is rejected everywhere, and one that decodes to another canister
only by `lock` and `settle`.  The two meet in `_canSettle`, which takes any error of `settle` for a
token without a payment: with a foreign identifier the owner relists a token whose buyer has paid.

Main definitions:

* `LegendsNft.RejectsToken` — every function rejects the identifier and leaves the state alone.

Main results:

* `LegendsNft.lock_settle_reject_foreign` — `lock` and `settle` reject every foreign identifier;
* `LegendsNft.foreign_rejected_iff` — **a foreign identifier is rejected everywhere exactly when it
  does not decode**;
* `LegendsNft.relisted_while_paid` — a foreign identifier relists a token whose buyer has paid.
-/

import LegendsNft.Discipline

set_option relaxedAutoImplicit false
set_option autoImplicit false

namespace LegendsNft

open Entrepot

variable {D : Deployment}

/-- The identifier does not decode, or decodes to another canister. -/
def Foreign (D : Deployment) (token : TokenIdentifier) : Prop :=
  ∀ p index, D.decode token = .ok (p, index) → p ≠ D.cid

/-- Every function that takes a token identifier rejects this one before it awaits or writes
anything. -/
structure RejectsToken (D : Deployment) (w : World) (caller : Principal)
    (token : TokenIdentifier) : Prop where
  list : ∀ request : ListRequest, request.token = token →
    w.entrepot.list D w.tokens w.now caller request = .ok (.ret (.error (.invalidToken token)))
  details : w.entrepot.details D token = .error (.invalidToken token)
  lock : ∀ price buyer, w.entrepot.lock D w.now token price buyer =
    (w.entrepot, .ret (.error (.invalidToken token)))
  settle : w.entrepot.settle D token = .ret (.error (.invalidToken token))
  transfer : ∀ request : Ext.TransferRequest, request.token = token →
    Ext.transfer D w.entrepot w.tokens w.now caller request =
      .ok (w.tokens, .ret (.error (.invalidToken token)))
  bearer : Ext.bearer D w.tokens token = .ok (.error (.invalidToken token))
  metadata : Ext.metadata D w.tokens token = .ok (.error (.invalidToken token))

theorem unpackTokenIdentifier_foreign {token : TokenIdentifier} (h : Foreign D token) :
    unpackTokenIdentifier D token = .error (.invalidToken token) := by
  unfold unpackTokenIdentifier
  cases hd : D.decode token with
  | error e => rfl
  | ok pi =>
      obtain ⟨p, index⟩ := pi
      exact if_pos (h p index hd)

/-- The two functions that compare the canister reject every foreign identifier. -/
theorem lock_settle_reject_foreign {token : TokenIdentifier} (h : Foreign D token) (w : World)
    (price : UInt64) (buyer : AccountIdentifier) :
    w.entrepot.lock D w.now token price buyer =
        (w.entrepot, .ret (.error (.invalidToken token))) ∧
      w.entrepot.settle D token = .ret (.error (.invalidToken token)) := by
  constructor
  · rw [Entrepot.lock, unpackTokenIdentifier_foreign h]
  · rw [Entrepot.settle, unpackTokenIdentifier_foreign h]

/-- `details` answers anything but `#InvalidToken` to an identifier that decodes. -/
theorem details_of_decode {s : Entrepot} {token : TokenIdentifier} {p : Principal}
    {index : TokenIndex} (hd : D.decode token = .ok (p, index)) :
    s.details D token ≠ .error (.invalidToken token) := by
  unfold Entrepot.details
  simp only [hd]
  cases s.listings.get index <;> simp

/-- **A foreign identifier is rejected everywhere, by every caller and in every state, exactly when
it does not decode.** -/
theorem foreign_rejected_iff {token : TokenIdentifier} (h : Foreign D token) (w : World)
    (caller : Principal) : RejectsToken D w caller token ↔ ∃ e, D.decode token = .error e := by
  constructor
  · intro hr
    cases hd : D.decode token with
    | error e => exact ⟨e, rfl⟩
    | ok pi => exact absurd hr.details (details_of_decode hd)
  · rintro ⟨e, he⟩
    constructor
    · rintro request rfl
      simp [Entrepot.list, he]
    · simp [Entrepot.details, he]
    · exact fun price buyer => (lock_settle_reject_foreign h w price buyer).1
    · exact (lock_settle_reject_foreign h w 0 "").2
    · rintro request rfl
      simp [Ext.transfer, he]
    · simp [Ext.bearer, he]
    · simp [Ext.metadata, he]

/-- The identifier `"f0"` of the small deployment names another canister. -/
theorem foreign_sample : Foreign .sample "f0" := by
  intro p index hd
  have hp : (.ok (⟨[9]⟩, 0) : Except Text (Principal × TokenIndex)) = .ok (p, index) := hd
  cases hp
  decide

/-- An identifier that does not decode, and one of another canister. -/
theorem foreign_rejected_iff_sample :
    RejectsToken .sample Config.sample.state ⟨[1]⟩ "x" ∧
      ¬ RejectsToken .sample Config.sample.state ⟨[1]⟩ "f0" := by
  have hx : Foreign .sample "x" := by
    intro p index hd
    simp [Deployment.sample] at hd
  refine ⟨(foreign_rejected_iff hx _ _).2 ⟨_, rfl⟩, ?_⟩
  intro hr
  obtain ⟨e, he⟩ := (foreign_rejected_iff foreign_sample _ _).1 hr
  cases (he : (.ok (⟨[9]⟩, 0) : Except Text (Principal × TokenIndex)) = .error e)

/-- A lock whose buyer has paid, and has not settled before the lock expired. -/
def paidExpired : List Choice := Choice.paidLock ++ [.call (.tick 120000000001)]

/-- The seller lists the token again, under an identifier of another canister. -/
def relist : List Choice :=
  [.call (.list ⟨[1]⟩ ⟨none, some 90000, "f0"⟩), .resume 0 .run, .resume 0 .run, .resume 0 .run,
    .resume 0 .run]

/-- **A foreign identifier relists a token whose buyer has paid**: `list` and `details` take it, and
the listing is overwritten while the funded transaction is still pending. -/
theorem relisted_while_paid : ∃ c c', Foreign .sample "f0" ∧ sampleRun paidExpired = some c ∧
    c.state.entrepot.pendingTransactions.get 0 = some firstTransaction ∧
    firstTransaction.price.toNat ≤ c.state.ledger firstTransaction.bytes ∧
    c.state.entrepot.details .sample "f0" ≠ .error (.invalidToken "f0") ∧
    (program .sample).exec c relist = some c' ∧
    c'.state.entrepot.pendingTransactions.get 0 = some firstTransaction ∧
    (c.state.entrepot.listings.get 0).map Listing.price = some 40000 ∧
    (c'.state.entrepot.listings.get 0).map Listing.price = some 90000 := by
  obtain ⟨c, hc, c', hc', hpend, hpaid, hpend', hprice, hprice'⟩ :=
    (by decide : ∃ c ∈ sampleRun paidExpired, ∃ c' ∈ (program .sample).exec c relist,
      c.state.entrepot.pendingTransactions.get 0 = some firstTransaction ∧
      firstTransaction.price.toNat ≤ c.state.ledger firstTransaction.bytes ∧
      c'.state.entrepot.pendingTransactions.get 0 = some firstTransaction ∧
      (c.state.entrepot.listings.get 0).map Listing.price = some 40000 ∧
      (c'.state.entrepot.listings.get 0).map Listing.price = some 90000)
  exact ⟨c, c', foreign_sample, hc, hpend, hpaid, details_of_decode (p := ⟨[9]⟩) rfl, hc', hpend',
    hprice, hprice'⟩

end LegendsNft
