/-
**No listing is ever stuck.**

A lock that is not paid must not keep a token from the market, or from its owner.  Here it is shown
that it does not: whatever is suspended, as soon as the lock has run out another buyer can lock the
listing, pay it and become the owner; or the owner can delete the listing and transfer the token.
The earlier transaction may still be pending then.  `_canSettle` tries to settle it, finds that it
has not been paid, and lets the call go on; so what is asked is only that it has not been paid after
all.  It is said which calls this takes and who makes them; nothing else is called.

Main definitions:

* `LegendsNft.Interface.Locked` — what a `lock` call of a buyer leads to;
* `LegendsNft.Interface.withdrawal` — the calls with which an owner withdraws a token.

Main results:

* `LegendsNft.Heartbeats.exists_canSettle` — **`_canSettle` lets a call go on** past an unpaid
  transaction;
* `LegendsNft.Interface.exists_lock`, `LegendsNft.Interface.exists_delisting`,
  `LegendsNft.Interface.exists_withdrawal` — a lock, a deleted listing, a transfer;
* `LegendsNft.Interface.listing_can_be_bought` — **a listing can always be bought, and paid out**;
* `LegendsNft.Interface.listing_can_be_withdrawn` — **a listing can always be withdrawn**.
-/

import LegendsNft.Progress

set_option relaxedAutoImplicit false
set_option autoImplicit false

namespace LegendsNft

open Entrepot

variable {D : Deployment}

/-! ### The first segment -/

/-- A listing is not locked after its lock has run out. -/
theorem Entrepot.isLocked_eq_false {s : Entrepot} {now : Time} {index : TokenIndex}
    {listing : Listing} (hlisted : s.listings.get index = some listing)
    (hpast : ∀ e ∈ listing.locked, e < now) : s.isLocked now index = false := by
  unfold isLocked
  cases hlocked : listing.locked with
  | none => simp only [hlisted, hlocked]
  | some e =>
      simp only [hlisted, hlocked]
      exact if_neg (not_le.2 (hpast e hlocked))

/-- What is locked is listed. -/
theorem Entrepot.exists_listing_of_isLocked {s : Entrepot} {now : Time} {index : TokenIndex}
    (h : s.isLocked now index = true) : ∃ listing, s.listings.get index = some listing := by
  cases hlisted : s.listings.get index with
  | none => simp [isLocked, hlisted] at h
  | some listing => exact ⟨listing, rfl⟩

/-- A listing is locked for some time after a `lock` call. -/
theorem Entrepot.isLocked_lockedBy {s : Entrepot} {now : Time} {f : LockFrame}
    (hexpiry : f.expiry = now + transactionTtl) : (s.lockedBy f).isLocked now f.index = true := by
  have hlisted : (s.lockedBy f).listings.get f.index = some f.lockedListing :=
    Table.get_put_self ..
  unfold isLocked
  simp only [hlisted, LockFrame.lockedListing, hexpiry]
  refine if_pos ?_
  exact le_add_of_nonneg_right (by decide)

/-- A token of the canister is decoded to its index. -/
theorem Entrepot.decode_of_unpack {token : TokenIdentifier} {index : TokenIndex}
    (h : unpackTokenIdentifier D token = .ok index) : D.decode token = .ok (D.cid, index) := by
  unfold unpackTokenIdentifier at h
  split at h
  · rename_i principal tokenIndex hdecode
    split at h
    · cases h
    · rename_i hcid
      cases h
      rw [hdecode, not_not.1 hcid]
  · cases h

/-- A `lock` call at the price of an unlocked listing goes on. -/
theorem Entrepot.exists_lock {s : Entrepot} {now : Time} {token : TokenIdentifier}
    {index : TokenIndex} {listing : Listing} (buyer : AccountIdentifier)
    (htoken : unpackTokenIdentifier D token = .ok index)
    (hlisted : s.listings.get index = some listing) (hunlocked : s.isLocked now index = false) :
    ∃ f, s.lock D now token listing.price buyer = (s.lockedBy f, .await f) ∧ f.index = index ∧
      f.listing = listing := by
  refine ⟨⟨token, index, listing, buyer, natToSubAccount (4294967296 + (s.nextSubAccount + 1)),
    D.accountText D.cid (some (natToSubAccount (4294967296 + (s.nextSubAccount + 1)))),
    now + transactionTtl⟩, ?_, rfl, rfl⟩
  simp only [lock, htoken, hunlocked, hlisted, Bool.false_eq_true, if_false, ne_eq,
    not_true_eq_false, getNextSubAccount]
  rfl

/-- An `Ext.transfer` of an owner who is not listed succeeds. -/
theorem Ext.exists_transfer {s : Entrepot} {tokens : Tokens} (now : Time) {caller : Principal}
    {request : Ext.TransferRequest} {p : Principal} {index : TokenIndex}
    (hdecode : D.decode request.token = .ok (p, index))
    (hown : tokens.Owns D (D.accountText caller request.subaccount) index)
    (hfrom : D.upper (D.userAccount request.from') =
      D.upper (D.accountText caller request.subaccount))
    (hunlisted : s.listings.get index = none) :
    ∃ tokens', Ext.transfer D s tokens now caller request = .ok (tokens', .await index) ∧
      ∀ i, tokens'.ownerOf i = if i = index then some (D.upper (D.userAccount request.to'))
        else tokens.ownerOf i := by
  obtain ⟨owner, howner, hsame⟩ := hown
  have hcaller : tokens.Owns D (D.upper (D.accountText caller request.subaccount)) index :=
    ⟨owner, howner, (D.upper_upper _).trans hsame⟩
  obtain ⟨tokens', ht⟩ : ∃ tokens', tokens.transfer D now index
      (D.upper (D.accountText caller request.subaccount))
      (D.upper (D.userAccount request.to')) = .ok tokens' := Tokens.transfer_isOk_iff.2 hcaller
  obtain ⟨token, hslot, hupper, -⟩ := Tokens.transfer_eq_ok ht
  have hget : tokens.getOwner index.toNat = .ok (some token) := by
    simp only [Tokens.getOwner, hslot]
  rw [D.upper_upper] at hupper
  refine ⟨tokens', ?_, Tokens.ownerOf_of_transfer ht⟩
  simp [Ext.transfer, hdecode, hget, hfrom, hupper.symm, getListing, hunlisted, ht]

namespace Heartbeats

variable {H : Collection.Host} {s : Interface.State} {p : List Task} {h : List Event} {m : ℕ}

/-! ### Past an unpaid transaction -/

/-- **`_canSettle` lets a call go on**, if the token is listed and what is pending has not been
paid; what is pending is given up, unless the listing is locked. -/
theorem exists_canSettle {token : TokenIdentifier} {index : TokenIndex} {listing : Listing}
    (k : Waiter) (hm : m ≤ p.length) (htoken : unpackTokenIdentifier H.deployment token = .ok index)
    (hlisted : s.world.entrepot.listings.get index = some listing)
    (hunpaid : ∀ t, s.world.entrepot.pendingTransactions.get index = some t →
      s.world.ledger t.bytes < t.price.toNat) :
    ∃ e h', e.listings = s.world.entrepot.listings ∧
      (s.world.entrepot.isLocked s.world.now index = true → e = s.world.entrepot) ∧
      Serves H m ⟨s, p ++ [marketTask (.canSettle token k)], h⟩ []
        ⟨s.setWorld (s.world.setEntrepot e), p ++ [marketTask (.canSettled (.ok ()) k)], h'⟩ := by
  have hdecode := decode_of_unpack htoken
  cases hpending : s.world.entrepot.pendingTransactions.get index with
  | none =>
      have hread : LegendsNft.resume H.deployment s.world (.canSettle token k) .run =
          some ⟨s.world, [.canSettled (.ok ()) k], []⟩ := by
        simp only [LegendsNft.resume, canSettle, hdecode, hpending]
      exact ⟨s.world.entrepot, h, rfl, fun _ => rfl,
        run_last hm hread (truthful_of_silent rfl rfl) (.refl _)⟩
  | some t =>
      have hfew := hunpaid t hpending
      have hlt := Checked.toNat_lt t.price
      have hbalance : (UInt64.ofNat (s.world.ledger t.bytes)).toNat = s.world.ledger t.bytes :=
        Checked.toNat_ofNat (by omega)
      generalize UInt64.ofNat (s.world.ledger t.bytes) = b at hbalance
      have hless : b < t.price := UInt64.lt_iff_toNat_lt.2 (hbalance ▸ hfew)
      let e : Entrepot := s.world.entrepot.giveUp s.world.now ⟨index, t⟩
      have hlistings : e.listings = s.world.entrepot.listings := by
        change (s.world.entrepot.giveUp s.world.now ⟨index, t⟩).listings = _
        unfold giveUp
        split <;> rfl
      let x : SettleWaiter := .canSettle ⟨index⟩ k
      let r : Except CommonError Unit := .error (.other "Insufficient funds sent.")
      -- `_canSettle` calls `settle`, which asks for the balance and finds it too small
      have hcall : LegendsNft.resume H.deployment s.world (.canSettle token k) .run =
          some ⟨s.world, [.settle token x], []⟩ := by
        simp only [LegendsNft.resume, canSettle, hdecode, hpending, x]
      have hsettled : LegendsNft.resume H.deployment s.world (.reported ⟨index, t⟩ b x) .run =
          some ⟨s.world.setEntrepot e, [.settled r ⟨index⟩ k], [.gaveUp ⟨index, t⟩ b]⟩ := by
        simp only [LegendsNft.resume, settleResume, if_pos hless]
        rfl
      have hreturn : LegendsNft.resume H.deployment (s.world.setEntrepot e)
          (.settled r ⟨index⟩ k) .run =
            some ⟨s.world.setEntrepot e, [.canSettled (.ok ()) k], []⟩ := by
        have hlisted' : e.listings.get index = some listing := by
          rw [hlistings]
          exact hlisted
        simp only [LegendsNft.resume, World.entrepot_setEntrepot, canSettleResume, r, hlisted']
      refine ⟨e, marketEvent (.gaveUp ⟨index, t⟩ b) ::
        marketEvent (.reported t.bytes b s.world.now) :: h, hlistings, fun hlocked => ?_, ?_⟩
      · exact if_pos hlocked
      refine run_last hm hcall (truthful_of_silent rfl rfl) ?_
      refine run_reported (q := []) hm htoken hpending hbalance ?_
      rw [List.append_nil]
      refine run_last hm hsettled (truthful_of_answer ?_ rfl) ?_
      · rintro ⟨y, hy, hcompletes, -⟩
        cases hy
        exact absurd hless (UInt64.not_lt.2 hcompletes.1)
      exact run_last hm hreturn (truthful_of_silent rfl rfl) (.refl _)

/-- A `lock` call that has begun creates its transaction. -/
theorem exists_transaction {f : LockFrame} (hm : m ≤ p.length)
    (htoken : unpackTokenIdentifier H.deployment f.token = .ok f.index)
    (hlocked : s.world.entrepot.isLocked s.world.now f.index = true)
    (hunpaid : ∀ t, s.world.entrepot.pendingTransactions.get f.index = some t →
      s.world.ledger t.bytes < t.price.toNat) :
    ∃ h', Serves H m ⟨s, p ++ [marketTask (.canSettle f.token (.lock f))], h⟩ []
      ⟨s.setWorld (s.world.setEntrepot
        (s.world.entrepot.lockResume H.deployment s.world.now f (.ok ())).1), p, h'⟩ := by
  obtain ⟨listing, hlisted⟩ := exists_listing_of_isLocked hlocked
  obtain ⟨e, h₁, -, hkept, hrun⟩ :=
    exists_canSettle (h := h) (.lock f) hm htoken hlisted hunpaid
  rw [hkept hlocked] at hrun
  refine ⟨marketEvent (.locked f.index
    (f.transaction H.deployment s.world.entrepot.nextTxId s.world.now) f.expiry) :: h₁,
    hrun.trans (run_last (r := .run) hm rfl (truthful_of_silent rfl rfl) ?_)⟩
  exact (List.append_nil p).symm ▸ .refl _

/-- A `list` call without a price that has begun deletes the listing. -/
theorem exists_delisting {f : ListFrame} {listing : Listing} (hm : m ≤ p.length)
    (hprice : f.request.price = none)
    (htoken : unpackTokenIdentifier H.deployment f.request.token = .ok f.index)
    (hlisted : s.world.entrepot.listings.get f.index = some listing)
    (hunpaid : ∀ t, s.world.entrepot.pendingTransactions.get f.index = some t →
      s.world.ledger t.bytes < t.price.toNat) :
    ∃ e h', e.listings = s.world.entrepot.listings.delete f.index ∧
      Serves H m ⟨s, p ++ [marketTask (.canSettle f.request.token (.list f))], h⟩ []
        ⟨s.setWorld (s.world.setEntrepot e), p, h'⟩ := by
  obtain ⟨e, h₁, hlistings, -, hrun⟩ :=
    exists_canSettle (h := h) (.list f) hm htoken hlisted hunpaid
  have hdelist : LegendsNft.resume H.deployment (s.world.setEntrepot e)
      (.canSettled (.ok ()) (.list f)) .run =
        some ⟨s.world.setEntrepot { e with listings := e.listings.delete f.index }, [],
          [.delisted f]⟩ := by
    simp only [LegendsNft.resume, listResume, hprice]
    rfl
  refine ⟨{ e with listings := e.listings.delete f.index }, marketEvent (.delisted f) :: h₁,
    congrArg (Table.delete · f.index) hlistings,
    hrun.trans (run_last hm hdelist (truthful_of_silent rfl rfl) ?_)⟩
  exact (List.append_nil p).symm ▸ .refl _

end Heartbeats

namespace Interface

variable {H : Collection.Host} {c₀ c : Config}

/-! ### Serving one call -/

/-- A call of the market may be made at any time. -/
theorem exists_call {i : LegendsNft.Input} {o : LegendsNft.Step}
    (ho : LegendsNft.call H.deployment c.state.world i = some o) :
    ∃ h, Serves H c [i]
      ⟨c.state.setWorld o.state, c.pool ++ o.spawned.map fun k => .collection (.market k), h⟩ := by
  have hcall : (program H).call c.state (.collection (.market i)) = some (ofCollection c.state
      (Collection.ofMarket (Collection.returned H.deployment c.state.world i) o)) := by
    change Interface.call H c.state (.collection (.market i)) = _
    rw [Interface.call, Collection.call, ho]
    rfl
  have htasks : (ofCollection c.state (Collection.ofMarket
      (Collection.returned H.deployment c.state.world i) o)).spawned =
    o.spawned.map fun k => Task.collection (.market k) := List.map_map
  refine ⟨(ofCollection c.state (Collection.ofMarket
    (Collection.returned H.deployment c.state.world i) o)).events ++ c.history, ?_⟩
  rw [← htasks]
  exact Actor.Serves.call_behind rfl hcall calm_of_call (.refl _)

/-- A call of the market that nothing comes between. -/
theorem exists_served {i : LegendsNft.Input} {w : World} {k : LegendsNft.Task}
    {es : List LegendsNft.Event} {P : State → Prop}
    (ho : LegendsNft.call H.deployment c.state.world i = some ⟨w, [k], es⟩)
    (hserve : ∀ h, ∃ s h', P s ∧ Heartbeats.Serves H c.pool.length
      ⟨c.state.setWorld w, c.pool.map .canister ++ [Heartbeats.marketTask k], h⟩ []
      ⟨s, c.pool.map .canister, h'⟩) :
    ∃ c', Serves H c [i] c' ∧ c'.pool = c.pool ∧ P c'.state := by
  obtain ⟨h, hcall⟩ := exists_call ho
  obtain ⟨s, h', hP, hrun⟩ := hserve (h.map .canister)
  -- the call goes on in the canister with its heartbeat
  have hbuilt : Heartbeats.Serves H c.pool.length
    (Heartbeats.lift ⟨c.state.setWorld w, c.pool, h⟩ [Heartbeats.marketTask k]) [] _ := hrun
  have hcalm := serves_of_calm (c := ⟨c.state.setWorld w, c.pool, h⟩) hbuilt
  have hserves : Serves H c [i] _ := Actor.Serves.trans hcall hcalm
  exact ⟨_, hserves, Heartbeats.filterMap_canister c.pool, hP⟩

/-- Any lock runs out. -/
theorem exists_unlocked (listing : Listing) : ∃ c' time, Serves H c [.tick time] c' ∧
    c'.pool = c.pool ∧ c'.state.world.canister = c.state.world.canister ∧
      c'.state.world.ledger = c.state.world.ledger ∧
      ∀ e ∈ listing.locked, e < c'.state.world.now := by
  obtain ⟨time, hle, hpast⟩ : ∃ time, c.state.world.now ≤ time ∧
      ∀ e ∈ listing.locked, e < time := by
    cases hlocked : listing.locked with
    | none => exact ⟨_, le_refl _, fun e he => absurd he (Option.not_mem_none _)⟩
    | some expiry =>
        refine ⟨max c.state.world.now (expiry + 1), le_max_left _ _, fun e he => ?_⟩
        cases he
        exact lt_of_lt_of_le (Int.lt_succ expiry) (le_max_right _ _)
  have htick : LegendsNft.call H.deployment c.state.world (.tick time) =
      some ⟨{ c.state.world with now := time }, [], []⟩ := if_pos hle
  obtain ⟨h, hrun⟩ := exists_call htick
  exact ⟨_, time, hrun, List.append_nil _, rfl, rfl, hpast⟩

/-! ### A purchase -/

/-- What a `lock` call of a buyer leads to. -/
structure Locked (D : Deployment) (w w' : World) (index : TokenIndex) (listing : Listing)
    (buyer : AccountIdentifier) (t : Transaction) : Prop where
  pending : w'.entrepot.pendingTransactions.get index = some t
  id : t.id = w.entrepot.nextTxId
  seller : t.from' = D.accountText listing.seller listing.subaccount
  buyer : t.to' = buyer
  price : t.price = listing.price
  bytes : t.bytes = natToSubAccount (4294967296 + (w.entrepot.nextSubAccount + 1))
  tokens : w'.tokens = w.tokens
  ledger : w'.ledger = w.ledger
  totalVolume : w'.entrepot.totalVolume = w.entrepot.totalVolume
  nextSubAccount : w'.entrepot.nextSubAccount = w.entrepot.nextSubAccount + 1

/-- **A listing can be locked**, if it is not locked and what is pending has not been paid. -/
theorem exists_lock {token : TokenIdentifier} {index : TokenIndex} {listing : Listing}
    (caller : Principal) (buyer : AccountIdentifier)
    (htoken : unpackTokenIdentifier H.deployment token = .ok index)
    (hlisted : c.state.world.entrepot.listings.get index = some listing)
    (hpast : ∀ e ∈ listing.locked, e < c.state.world.now)
    (hunpaid : ∀ t, c.state.world.entrepot.pendingTransactions.get index = some t →
      c.state.world.ledger t.bytes < t.price.toNat) :
    ∃ c', Serves H c [.lock caller token listing.price buyer] c' ∧ c'.pool = c.pool ∧
      ∃ t, Locked H.deployment c.state.world c'.state.world index listing buyer t := by
  obtain ⟨f, hlock, rfl, rfl⟩ := Entrepot.exists_lock buyer htoken hlisted
    (isLocked_eq_false hlisted hpast)
  obtain ⟨-, -, -, rfl, rfl, hbytes, hexpiry, -⟩ := lock_eq_await hlock
  have hcall : LegendsNft.call H.deployment c.state.world
      (.lock caller f.token f.listing.price f.buyer) =
        some ⟨c.state.world.setEntrepot (c.state.world.entrepot.lockedBy f),
          [.canSettle f.token (.lock f)], [.lockBegan f]⟩ := by
    simp only [LegendsNft.call, hlock]
  refine exists_served (P := fun s => ∃ t, Locked H.deployment c.state.world s.world f.index
    f.listing f.buyer t) hcall fun h => ?_
  obtain ⟨h', hrun⟩ := Heartbeats.exists_transaction (H := H) (f := f)
    (s := c.state.setWorld (c.state.world.setEntrepot (c.state.world.entrepot.lockedBy f)))
    (p := c.pool.map .canister) (h := h) (List.length_map _).ge htoken (isLocked_lockedBy hexpiry)
    hunpaid
  refine ⟨_, h', ?_, hrun⟩
  exact ⟨f.transaction H.deployment c.state.world.entrepot.nextTxId c.state.world.now,
    Table.get_put_self .., rfl, rfl, rfl, rfl, hbytes, rfl, rfl, rfl, rfl⟩

/-- A payment account can be filled up. -/
theorem exists_payment {bytes : SubAccount} {balance : ℕ}
    (hle : c.state.world.ledger bytes ≤ balance) :
    ∃ c', Serves H c [.deposit bytes (balance - c.state.world.ledger bytes)] c' ∧
      c'.pool = c.pool ∧ c'.state.world.entrepot = c.state.world.entrepot ∧
      c'.state.world.tokens = c.state.world.tokens ∧ c'.state.world.ledger bytes = balance := by
  obtain ⟨h, hrun⟩ := exists_call (c := c)
    (i := .deposit bytes (balance - c.state.world.ledger bytes)) rfl
  refine ⟨_, hrun, List.append_nil _, rfl, rfl, ?_⟩
  exact (Function.update_self ..).trans (Nat.add_sub_cancel' hle)

/-- **A listing can always be bought, and paid out.**  From every configuration of every run of the
whole canister in which no admin restores the marketplace, no transaction is settled a second time
and no upgrade cuts off a run of the queue, whatever is suspended: as soon as the lock of a listing
has run out, a buyer can lock it, pay its price into the new subaccount and have it settled by
anybody; then the buyer is the owner, and one call of `cronDisbursements`, with a ledger that
answers truthfully, pays the whole price to the seller and the recipients of the fees, but for the
jobs whose address cannot be decoded.  The price can be split, the next id is a key, the volume does
not overflow, the seller owns the token, and there is no more than the price in the new subaccount.
The last lock may have left a transaction behind; it must not have been paid. -/
theorem listing_can_be_bought (hc₀ : Initial c₀)
    (h : Actor.Run (program H) (unrestored H ((soldOnce H.deployment).and betweenRuns)) c₀ c)
    (hbound : c.state.world.entrepot.nextSubAccount + 1 < counterBound)
    {token : TokenIdentifier} {index : TokenIndex} {listing : Listing} (buyer : AccountIdentifier)
    (caller caller' : Principal) (htoken : unpackTokenIdentifier H.deployment token = .ok index)
    (hlisted : c.state.world.entrepot.listings.get index = some listing)
    (hown : c.state.world.tokens.Owns H.deployment
      (H.deployment.accountText listing.seller listing.subaccount) index)
    (hprice : 30000 ≤ listing.price.toNat ∧ (listing.price.toNat - 30000) * 2000 < 2 ^ 64)
    (hid : c.state.world.entrepot.nextTxId < 2 ^ 32)
    (hvolume : c.state.world.entrepot.totalVolume.toNat + listing.price.toNat < 2 ^ 64)
    (hunpaid : ∀ t, c.state.world.entrepot.pendingTransactions.get index = some t →
      c.state.world.ledger t.bytes < t.price.toNat)
    (hfresh : c.state.world.ledger (natToSubAccount
      (4294967296 + (c.state.world.entrepot.nextSubAccount + 1))) ≤ listing.price.toNat) :
    ∃ c' t jobs unlocked due, Serves H c
        [.tick unlocked, .lock caller token listing.price buyer,
          .deposit t.bytes (listing.price.toNat - c.state.world.ledger t.bytes),
          .settle caller' token, .tick due, .cronDisbursements] c' ∧
      c'.pool = c.pool ∧ c'.state.world.tokens.ownerOf index = some buyer ∧ t.to' = buyer ∧
      t.from' = H.deployment.accountText listing.seller listing.subaccount ∧
      ⟨⟨index, t⟩, listing.price, jobs⟩ ∈ settlements (market c').history ∧
      (jobs.map cost).sum = listing.price.toNat ∧
      (∀ d ∈ jobs, Decodes H.deployment d = true → d ∈ acknowledged (market c').history) ∧
      ∀ d ∈ c'.state.world.entrepot.pendingDisbursements, Decodes H.deployment d = false := by
  obtain ⟨c₁, unlocked, hrun₁, hpool₁, hcanister, hsame, hpast⟩ :=
    exists_unlocked (H := H) (c := c) listing
  have hentrepot : c₁.state.world.entrepot = c.state.world.entrepot :=
    congrArg Canister.entrepot hcanister
  have htokens₁ : c₁.state.world.tokens = c.state.world.tokens :=
    congrArg Canister.tokens hcanister
  rw [← hentrepot] at hlisted hid hvolume hunpaid hfresh
  rw [← hsame] at hunpaid hfresh ⊢
  obtain ⟨c₂, hrun₂, hpool₂, t, hlocked⟩ := exists_lock caller buyer htoken hlisted hpast hunpaid
  rw [← hlocked.ledger] at ⊢ hfresh
  rw [← hlocked.bytes] at hfresh
  obtain ⟨c₃, hrun₃, hpool₃, hentrepot₃, htokens₃, hledger⟩ := exists_payment (H := H) hfresh
  have hserves₁₃ := (hrun₁.trans hpool₁ hrun₂).trans (hpool₂.trans hpool₁) hrun₃
  have hpool₁₃ : c₃.pool = c.pool := hpool₃.trans (hpool₂.trans hpool₁)
  have hbound₃ : c₃.state.world.entrepot.nextSubAccount < counterBound := by
    rw [hentrepot₃, hlocked.nextSubAccount, hentrepot]
    exact hbound
  have hpending : c₃.state.world.entrepot.pendingTransactions.get index = some t := by
    rw [hentrepot₃]
    exact hlocked.pending
  have hcompletes : Completes H.deployment c₃.state.world ⟨index, t⟩ listing.price := by
    refine ⟨?_, hprice, hlocked.id ▸ hid, ?_, ?_⟩
    · rw [hlocked.price]
      exact UInt64.le_refl _
    · rw [hentrepot₃, hlocked.totalVolume, hlocked.price]
      exact hvolume
    · rw [htokens₃, hlocked.tokens, htokens₁, hlocked.seller]
      exact hown
  have hnew := unsettled_of_run (fun _ _ hg => And.right hg) hc₀ (h.trans hserves₁₃.run)
    hbound₃ index t hpending
  obtain ⟨c₄, jobs, hrun₄, hpool₄, hqueue, howner, hsettled, hsum, hcount⟩ :=
    exists_settlement caller' htoken hpending hledger.symm hcompletes hnew
  have hserves := hserves₁₃.trans hpool₁₃ hrun₄
  obtain ⟨c₅, due, hrun₅, hpool₅, htokens₅, hsales, hpaid, hrest⟩ :=
    exists_payout hc₀ (h.trans hserves.run) (hcount ▸ hbound₃)
  refine ⟨c₅, t, jobs, unlocked, due, hserves.trans (hpool₄.trans hpool₁₃) hrun₅,
    hpool₅.trans (hpool₄.trans hpool₁₃), ?_, hlocked.buyer, hlocked.seller, hsales _ hsettled,
    hsum, fun d hd => hpaid d ?_, hrest⟩
  · rw [htokens₅, howner, hlocked.buyer]
  · rw [hqueue]
    exact List.mem_append_left _ hd

/-- A purchase that is never paid. -/
def unpaidPurchase : List Choice :=
  (LegendsNft.Choice.mint ⟨[1]⟩ ++ LegendsNft.Choice.list ⟨[1]⟩ 40000 ++
    LegendsNft.Choice.lock 40000 "C").map ofChoice

/-- After a purchase that is never paid the token can be bought by another buyer. -/
theorem listing_can_be_bought_sample : ∃ c c',
    (program .sample).exec Config.sample unpaidPurchase = some c ∧
    (∃ bytes amount unlocked due, Serves .sample c [.tick unlocked, .lock ⟨[]⟩ "t0" 40000 "D",
      .deposit bytes amount, .settle ⟨[]⟩ "t0", .tick due, .cronDisbursements] c') ∧
    c.state.world.tokens.ownerOf 0 = some "B" ∧ c'.state.world.tokens.ownerOf 0 = some "D" := by
  obtain ⟨c, hc, hallow, hbound, howner, hpending, hunpaid, listing, hlisted, hown, hprice, hid,
      hvolume, hfresh, hforty⟩ := (by decide :
    ∃ c ∈ (program .sample).exec Config.sample unpaidPurchase,
      (unrestored .sample ((soldOnce Collection.Host.sample.deployment).and betweenRuns)).AllowsAll
        (program .sample) Config.sample unpaidPurchase ∧
      c.state.world.entrepot.nextSubAccount < 4 ∧ c.state.world.tokens.ownerOf 0 = some "B" ∧
      c.state.world.entrepot.pendingTransactions.get 0 = some firstTransaction ∧
      c.state.world.ledger firstTransaction.bytes < firstTransaction.price.toNat ∧
      ∃ listing ∈ c.state.world.entrepot.listings.get 0,
        c.state.world.tokens.Owns Collection.Host.sample.deployment
          (Collection.Host.sample.deployment.accountText listing.seller listing.subaccount) 0 ∧
        (30000 ≤ listing.price.toNat ∧ (listing.price.toNat - 30000) * 2000 < 2 ^ 64) ∧
        c.state.world.entrepot.nextTxId < 2 ^ 32 ∧
        c.state.world.entrepot.totalVolume.toNat + listing.price.toNat < 2 ^ 64 ∧
        c.state.world.ledger (natToSubAccount
          (4294967296 + (c.state.world.entrepot.nextSubAccount + 1))) ≤ listing.price.toNat ∧
        listing.price = 40000)
  have htoken : unpackTokenIdentifier Collection.Host.sample.deployment "t0" = .ok 0 := by decide
  obtain ⟨c', t, jobs, unlocked, due, hrun, -, hbuyer, -⟩ := listing_can_be_bought
    Config.initial_sample (Actor.run_of_exec hallow hc) (by
      unfold counterBound
      omega) "D" ⟨[]⟩ ⟨[]⟩ htoken hlisted hown hprice hid hvolume (by
      intro t ht
      rw [hpending] at ht
      cases ht
      exact hunpaid) hfresh
  rw [hforty] at hrun
  exact ⟨c, c', hc, ⟨_, _, _, _, hrun⟩, howner, hbuyer⟩

/-! ### A withdrawal -/

/-- **A listing can be deleted** by the owner, if it is not locked and what is pending has not been
paid. -/
theorem exists_delisting (request : ListRequest) {caller : Principal} {index : TokenIndex}
    {listing : Listing} (hprice : request.price = none)
    (htoken : unpackTokenIdentifier H.deployment request.token = .ok index)
    (hown : c.state.world.tokens.Owns H.deployment
      (H.deployment.accountText caller request.from_subaccount) index)
    (hlisted : c.state.world.entrepot.listings.get index = some listing)
    (hpast : ∀ e ∈ listing.locked, e < c.state.world.now)
    (hunpaid : ∀ t, c.state.world.entrepot.pendingTransactions.get index = some t →
      c.state.world.ledger t.bytes < t.price.toNat) :
    ∃ c', Serves H c [.list caller request] c' ∧ c'.pool = c.pool ∧
      c'.state.world.tokens = c.state.world.tokens ∧
      c'.state.world.entrepot.listings.get index = none := by
  let f : ListFrame := ⟨caller, request, index⟩
  have hlist : c.state.world.entrepot.list H.deployment c.state.world.tokens c.state.world.now
      caller request = .ok (.await f) := by
    simp only [Entrepot.list, decode_of_unpack htoken, Tokens.isOwner_eq_true.2 hown,
      isLocked_eq_false hlisted hpast, Bool.false_eq_true, if_false, f]
  have hcall : LegendsNft.call H.deployment c.state.world (.list caller request) =
      some ⟨c.state.world, [.canSettle request.token (.list f)], []⟩ := by
    simp only [LegendsNft.call, hlist]
  refine exists_served (P := fun s => s.world.tokens = c.state.world.tokens ∧
    s.world.entrepot.listings.get index = none) hcall fun h => ?_
  obtain ⟨e, h', hlistings, hrun⟩ := Heartbeats.exists_delisting (H := H) (f := f)
    (s := c.state.setWorld c.state.world) (p := c.pool.map .canister) (h := h)
    (List.length_map _).ge hprice htoken hlisted hunpaid
  refine ⟨_, h', ?_, hrun⟩
  refine ⟨rfl, ?_⟩
  change e.listings.get index = none
  rw [hlistings]
  exact Table.get_delete_self ..

/-- **A token can be transferred** by its owner, if it is not listed. -/
theorem exists_withdrawal {caller : Principal} {request : Ext.TransferRequest} {index : TokenIndex}
    (htoken : unpackTokenIdentifier H.deployment request.token = .ok index)
    (hown : c.state.world.tokens.Owns H.deployment
      (H.deployment.accountText caller request.subaccount) index)
    (hfrom : H.deployment.upper (H.deployment.userAccount request.from') =
      H.deployment.upper (H.deployment.accountText caller request.subaccount))
    (hunlisted : c.state.world.entrepot.listings.get index = none) :
    ∃ c', Serves H c [.transfer caller request] c' ∧ c'.pool = c.pool ∧
      c'.state.world.entrepot.listings.get index = none ∧
      ∀ i, c'.state.world.tokens.ownerOf i = if i = index then
        some (H.deployment.upper (H.deployment.userAccount request.to'))
          else c.state.world.tokens.ownerOf i := by
  obtain ⟨tokens, ht, howner⟩ := Ext.exists_transfer c.state.world.now
    (decode_of_unpack htoken) hown hfrom hunlisted
  have hcall : LegendsNft.call H.deployment c.state.world (.transfer caller request) =
      some ⟨c.state.world.setTokens tokens, [.insertTransfer index], []⟩ := by
    simp only [LegendsNft.call, ht]
  refine exists_served (P := fun s => s.world.entrepot.listings.get index = none ∧
    ∀ i, s.world.tokens.ownerOf i = if i = index then _
      else c.state.world.tokens.ownerOf i) hcall fun h => ?_
  refine ⟨c.state.setWorld (c.state.world.setTokens tokens), h, ⟨hunlisted, howner⟩,
    Heartbeats.run_last (r := .run) (List.length_map _).ge rfl
      (truthful_of_silent rfl rfl) ?_⟩
  exact (List.append_nil _).symm ▸ .refl _

/-- The calls with which an owner withdraws a token: if it is listed, once its lock has run out, a
`list` call without a price, and then the transfer. -/
def withdrawal (caller : Principal) (request : Ext.TransferRequest) (unlocked : Time) :
    Option Listing → List LegendsNft.Input
  | none => [.transfer caller request]
  | some _ => [.tick unlocked, .list caller ⟨request.subaccount, none, request.token⟩,
      .transfer caller request]

/-- **A listing can always be withdrawn.**  From every configuration of the whole canister, whatever
is suspended and whoever has locked the listing: if what is pending has not been paid, the owner of
a token can delete its listing as soon as the lock has run out, and transfer the token to any
account.  The owner makes these calls and nobody makes another, no other token changes hands, and at
the end the token is not listed. -/
theorem listing_can_be_withdrawn {caller : Principal} {request : Ext.TransferRequest}
    {index : TokenIndex}
    (htoken : unpackTokenIdentifier H.deployment request.token = .ok index)
    (hown : c.state.world.tokens.Owns H.deployment
      (H.deployment.accountText caller request.subaccount) index)
    (hfrom : H.deployment.upper (H.deployment.userAccount request.from') =
      H.deployment.upper (H.deployment.accountText caller request.subaccount))
    (hunpaid : ∀ t, c.state.world.entrepot.pendingTransactions.get index = some t →
      c.state.world.ledger t.bytes < t.price.toNat) :
    ∃ c' unlocked, Serves H c
        (withdrawal caller request unlocked (c.state.world.entrepot.listings.get index)) c' ∧
      c'.pool = c.pool ∧ c'.state.world.entrepot.listings.get index = none ∧
      ∀ i, c'.state.world.tokens.ownerOf i = if i = index then
        some (H.deployment.upper (H.deployment.userAccount request.to'))
          else c.state.world.tokens.ownerOf i := by
  cases hlisted : c.state.world.entrepot.listings.get index with
  | none =>
      obtain ⟨c', hrun, hrest⟩ := exists_withdrawal htoken hown hfrom hlisted
      exact ⟨c', c.state.world.now, hrun, hrest⟩
  | some listing =>
      obtain ⟨c₁, unlocked, hrun₁, hpool₁, hcanister, hledger, hpast⟩ :=
        exists_unlocked (H := H) (c := c) listing
      have hentrepot : c₁.state.world.entrepot = c.state.world.entrepot :=
        congrArg Canister.entrepot hcanister
      have htokens : c₁.state.world.tokens = c.state.world.tokens :=
        congrArg Canister.tokens hcanister
      rw [← hentrepot] at hlisted hunpaid
      rw [← hledger] at hunpaid
      rw [← htokens] at hown ⊢
      obtain ⟨c₂, hrun₂, hpool₂, hsame, hunlisted⟩ := exists_delisting
        ⟨request.subaccount, none, request.token⟩ rfl htoken hown hlisted hpast hunpaid
      rw [← hsame] at hown ⊢
      obtain ⟨c₃, hrun₃, hpool₃, hrest⟩ := exists_withdrawal htoken hown hfrom hunlisted
      have hpool := hpool₂.trans hpool₁
      exact ⟨c₃, unlocked, (hrun₁.trans hpool₁ hrun₂).trans hpool hrun₃, hpool₃.trans hpool, hrest⟩

/-- The owner of the first token gives it away. -/
def gift : Ext.TransferRequest := ⟨.principal ⟨[1]⟩, .address "D", "t0", none⟩

/-- After a purchase that is never paid the owner can give the token away. -/
theorem listing_can_be_withdrawn_sample : ∃ c c',
    (program .sample).exec Config.sample unpaidPurchase = some c ∧
    (∃ unlocked, Serves .sample c
      [.tick unlocked, .list ⟨[1]⟩ ⟨none, none, "t0"⟩, .transfer ⟨[1]⟩ gift] c') ∧
    c.state.world.tokens.ownerOf 0 = some "B" ∧ c'.state.world.tokens.ownerOf 0 = some "D" := by
  let D : Deployment := Collection.Host.sample.deployment
  obtain ⟨c, hc, howner, hown, hpending, hunpaid, hsome⟩ := (by decide :
    ∃ c ∈ (program .sample).exec Config.sample unpaidPurchase,
      c.state.world.tokens.ownerOf 0 = some "B" ∧
      c.state.world.tokens.Owns Collection.Host.sample.deployment
        (Collection.Host.sample.deployment.accountText ⟨[1]⟩ gift.subaccount) 0 ∧
      c.state.world.entrepot.pendingTransactions.get 0 = some firstTransaction ∧
      c.state.world.ledger firstTransaction.bytes < firstTransaction.price.toNat ∧
      (c.state.world.entrepot.listings.get 0).isSome = true)
  obtain ⟨listing, hlisted⟩ := Option.isSome_iff_exists.1 hsome
  have htoken : unpackTokenIdentifier D gift.token = .ok 0 := by decide
  have hfrom : D.upper (D.userAccount gift.from') =
    D.upper (D.accountText ⟨[1]⟩ gift.subaccount) := by decide
  have hto : some (D.upper (D.userAccount gift.to')) = some "D" := by decide
  obtain ⟨c', unlocked, hrun, -, -, howners⟩ := listing_can_be_withdrawn htoken hown hfrom (by
    intro t ht
    rw [hpending] at ht
    cases ht
    exact hunpaid)
  rw [hlisted] at hrun
  exact ⟨c, c', hc, ⟨unlocked, hrun⟩, howner, (howners 0).trans ((if_pos rfl).trans hto)⟩

end Interface

end LegendsNft
