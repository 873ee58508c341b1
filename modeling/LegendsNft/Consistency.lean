/-
**The marketplace and the ownership ledger agree.**

A listing should be by the owner of the token, and a pending transaction from the owner.  Three
segments can break this.  `list` checks the owner before it awaits `_canSettle` and writes the
listing after; `lock` reads the listing before the same `await` and writes the pending transaction
after; and `Ext.transfer` looks at the listings only, not at the pending transactions.

In the runs in which the owner has not changed across the two awaits, and a token with a pending
transaction is not transferred away, the three maps agree in every state, so the ownership assertion
of a settlement of a pending transaction does not fail.

Main definitions:

* `LegendsNft.Consistent` — the invariant;
* `LegendsNft.ownersStay` — the condition on runs.

Main results:

* `LegendsNft.market_consistent` — **the invariant holds in every state of such a run**;
* `LegendsNft.market_inconsistent` — a run outside the condition that breaks it.
-/

import LegendsNft.Discipline

set_option relaxedAutoImplicit false
set_option autoImplicit false

namespace LegendsNft

open Entrepot

variable {D : Deployment} {G : Guard} {c₀ c : Config}

/-- Listings are by owners, and pending transactions from owners. -/
structure Consistent (D : Deployment) (w : World) : Prop where
  listing : ∀ i l, w.entrepot.listings.get i = some l →
    w.tokens.Owns D (D.accountText l.seller l.subaccount) i
  pending : ∀ i t, w.entrepot.pendingTransactions.get i = some t → w.tokens.Owns D t.from' i

/-- A token with a pending transaction goes to the account the transaction is from, if anywhere. -/
def KeepsPending (D : Deployment) (c : Config) : Input → Prop
  | .transfer caller request =>
      match D.decode request.token with
      | .error _ => True
      | .ok (_, index) =>
          c.state.tokens.Owns D (D.accountText caller request.subaccount) index →
          c.state.entrepot.listings.get index = none →
          ∀ t ∈ c.state.entrepot.pendingTransactions.get index,
            D.upper t.from' = D.upper (D.userAccount request.to')
  | _ => True

instance (c : Config) (i : Input) : Decidable (KeepsPending D c i) := by
  unfold KeepsPending
  split
  · split <;> infer_instance
  · infer_instance

/-- The condition for consistency: when `list` resumes to write a listing its caller still owns the
token; when `lock` resumes to write its transaction the seller of its listing does; and a token that
is not listed but has a pending transaction is not transferred to another account. -/
abbrev ownersStay (D : Deployment) : Discipline where
  call := KeepsPending D
  list := fun c f => f.request.price ≠ none →
    c.state.tokens.Owns D (D.accountText f.caller f.request.from_subaccount) f.index
  lock := fun c f =>
    c.state.tokens.Owns D (D.accountText f.listing.seller f.listing.subaccount) f.index
  settle := fun _ _ _ => True
  upgrade := fun _ => True

instance (D : Deployment) : (ownersStay D).Checkable :=
  ⟨inferInstance, inferInstance, inferInstance, inferInstance, inferInstance⟩

/-- A move that meets the condition keeps the owner of whatever stays on the market. -/
theorem owns_step {src : Source} {o : Step} (hg : (ownersStay D).guard.segment c src)
    (hm : Move D c.state src o) {i : TokenIndex} {a : AccountIdentifier}
    (hown : c.state.tokens.Owns D a i)
    (hmarket : o.state.entrepot.listings.get i ≠ none ∨
      ∃ t, o.state.entrepot.pendingTransactions.get i = some t ∧ t.from' = a) :
    o.state.tokens.Owns D a i := by
  obtain ⟨b, hb, hab⟩ := hown
  rcases hm.owner_cases hb with
    hsame | ⟨caller, request, rfl, ht, hentrepot, hnew⟩ | ⟨f, _, _, rfl, hi, -, -, -, hl, hp⟩
  · exact ⟨b, hsame, hab⟩
  · -- a transfer needs the token unlisted, and the condition covers a pending transaction
    rcases hmarket with hlisted | ⟨t, hpend, rfl⟩
    · rw [hentrepot] at hlisted
      exact absurd ht.unlisted hlisted
    · obtain ⟨p, hdec⟩ := ht.decoded
      rw [hentrepot] at hpend
      have hkeep : KeepsPending D c (.transfer caller request) := hg
      simp only [KeepsPending, hdec] at hkeep
      refine ⟨_, hnew, ?_⟩
      rw [D.upper_upper]
      exact hkeep ht.owns ht.unlisted t hpend
  · -- a sale takes the token off the market
    rcases hmarket with hlisted | ⟨t, hpend, -⟩
    · exact absurd hl hlisted
    · rw [hp] at hpend
      simp at hpend

/-- **One step**: a move that meets the condition preserves the invariant. -/
theorem Consistent.step {src : Source} {o : Step} (hC : Consistent D c.state)
    (hg : (ownersStay D).guard.segment c src) (hm : Move D c.state src o) :
    Consistent D o.state where
  listing := by
    intro i l hl
    have hmarket : o.state.entrepot.listings.get i ≠ none ∨
        ∃ t, o.state.entrepot.pendingTransactions.get i = some t ∧
          t.from' = D.accountText l.seller l.subaccount := Or.inl (by simp [hl])
    rcases hm.listing_cases hl with ⟨l', hl', hsame⟩ | ⟨f, price, rfl, rfl, hprice, -, rfl⟩
    · refine owns_step hg hm ?_ hmarket
      rw [← hsame.seller, ← hsame.subaccount]
      exact hC.listing i l' hl'
    · have hprice' : f.request.price ≠ none := by simp [hprice]
      exact owns_step hg hm (hg hprice') hmarket
  pending := by
    intro i t ht
    rcases hm.pending_cases ht with hold | ⟨f, rfl, rfl, htr, -⟩
    · exact owns_step hg hm (hC.pending i t hold) (Or.inr ⟨t, ht, rfl⟩)
    · have hfrom : D.accountText f.listing.seller f.listing.subaccount = t.from' := by
        rw [htr]
        rfl
      refine owns_step hg hm ?_ (Or.inr ⟨t, ht, rfl⟩)
      rw [← hfrom]
      exact hg

/-- An upgrade keeps the three maps. -/
theorem Consistent.upgrade {w : World} (hC : Consistent D w) {canister : Canister}
    {supply : UInt16} (hup : w.canister.upgrade supply = .ok canister) :
    Consistent D { w with canister := canister } := by
  have howns {a : AccountIdentifier} {i : TokenIndex} (h : w.tokens.Owns D a i) :
      canister.tokens.Owns D a i := by
    obtain ⟨b, hb, hab⟩ := h
    exact ⟨b, (Canister.ownerOf_upgrade hup i).trans hb, hab⟩
  constructor
  · intro i l hl
    rw [World.entrepot_mk, Canister.get_listings_upgrade hup] at hl
    exact howns (hC.listing i l hl)
  · intro i t ht
    rw [World.entrepot_mk, Canister.get_pendingTransactions_upgrade hup] at ht
    exact howns (hC.pending i t ht)

theorem Initial.consistent (hc : Initial c) : Consistent D c.state := by
  constructor
  · intro i l hl
    rw [hc.entrepot] at hl
    cases (hl : (none : Option Listing) = some l)
  · intro i t ht
    rw [hc.entrepot] at ht
    cases (ht : (none : Option Transaction) = some t)

/-- **The marketplace and the ownership ledger agree.**  In every state, each listing is by an
owner, each pending transaction is from an owner, and the ownership assertion in the settlement of
a pending transaction succeeds. -/
theorem market_consistent (hc₀ : Initial c₀)
    (h : Actor.Run (program D) (ownersStay D).guard c₀ c) :
    (∀ i l, c.state.entrepot.listings.get i = some l →
      c.state.tokens.isOwner D (D.accountText l.seller l.subaccount) i = .ok true) ∧
    (∀ i t, c.state.entrepot.pendingTransactions.get i = some t →
      c.state.tokens.isOwner D t.from' i = .ok true) ∧
    ∀ f balance k, .reported f balance k ∈ c.pool →
      c.state.entrepot.pendingTransactions.get f.index = some f.transaction →
      ∃ tokens, c.state.tokens.transfer D c.state.now f.index f.transaction.from'
        f.transaction.to' = .ok tokens := by
  have hC : Consistent D c.state := by
    refine invariant_of_moves (I := fun w _ => Consistent D w) ?_ ?_ h hc₀.consistent
    · exact fun c src o hC _ hg hm => hC.step hg hm
    · exact fun c supply canister hC _ hup => hC.upgrade hup
  exact ⟨fun i l hl => Tokens.isOwner_eq_true.2 (hC.listing i l hl),
    fun i t ht => Tokens.isOwner_eq_true.2 (hC.pending i t ht),
    fun f _ _ _ hp => Tokens.transfer_isOk_iff.2 (hC.pending f.index f.transaction hp)⟩

/-- A run that satisfies the condition. -/
theorem market_consistent_sample : ∃ c, sampleRun Choice.paidLock = some c ∧
    c.state.entrepot.listings.get 0 ≠ none ∧ c.state.entrepot.pendingTransactions.get 0 ≠ none ∧
    ∀ i t, c.state.entrepot.pendingTransactions.get i = some t →
      c.state.tokens.isOwner .sample t.from' i = .ok true := by
  obtain ⟨c, hc, hlisted, hpend⟩ := (by decide : ∃ c ∈ sampleRun Choice.paidLock,
    c.state.entrepot.listings.get 0 ≠ none ∧ c.state.entrepot.pendingTransactions.get 0 ≠ none)
  have hallowed : (ownersStay .sample).guard.AllowsAll (program .sample) Config.sample
      Choice.paidLock := by decide
  exact ⟨c, hc, hlisted, hpend,
    (market_consistent Config.initial_sample (Actor.run_of_exec hallowed hc)).2.1⟩

/-- The owner gives its token away while its `list` call awaits `_canSettle`. -/
def givenAway : List Choice :=
  Choice.mint ⟨[1]⟩ ++ [.call (.list ⟨[1]⟩ ⟨none, some 40000, "t0"⟩),
    .call (.transfer ⟨[1]⟩ ⟨.principal ⟨[1]⟩, .principal ⟨[2]⟩, "t0", none⟩),
    .resume 0 .run, .resume 1 .run]

/-- The listing of the account that gave the token away. -/
def strayListing : Listing := ⟨none, 40000, ⟨[1]⟩, none⟩

/-- The transaction a lock on that listing creates. -/
def strayTransaction : Transaction :=
  { id := 0
    token := "t0"
    memo := none
    from' := "B"
    to' := "D"
    seller := ⟨[1]⟩
    price := 40000
    initiated := 0
    closed := none
    bytes := natToSubAccount 4294967297 }

/-- A lock on the listing, paid. -/
def strayLock : List Choice := .resume 0 .run :: Choice.lock 40000 "D" ++ Choice.pay 1 40000

/-- **A listing can be by somebody who does not own the token**, and then a lock on it creates a
pending transaction whose settlement fails its ownership assertion. -/
theorem market_inconsistent : ∃ c c', sampleRun givenAway = some c ∧
    c.state.entrepot.listings.get 0 = some strayListing ∧
    c.state.tokens.isOwner .sample (Deployment.sample.accountText strayListing.seller
      strayListing.subaccount) 0 = .ok false ∧
    (program .sample).exec c strayLock = some c' ∧
    c'.state.entrepot.pendingTransactions.get 0 = some strayTransaction ∧
    c'.state.tokens.isOwner .sample strayTransaction.from' 0 = .ok false ∧
    strayTransaction.price.toNat ≤ c'.state.ledger strayTransaction.bytes ∧
    c'.state.tokens.transfer .sample c'.state.now 0 strayTransaction.from' strayTransaction.to' =
      .error .assertion := by
  obtain ⟨c, hc, c', hc', hlisting, howner, hpending⟩ := (by decide : ∃ c ∈ sampleRun givenAway,
    ∃ c' ∈ (program .sample).exec c strayLock,
      c.state.entrepot.listings.get 0 = some strayListing ∧
      c.state.tokens.isOwner .sample (Deployment.sample.accountText strayListing.seller
        strayListing.subaccount) 0 = .ok false ∧
      c'.state.entrepot.pendingTransactions.get 0 = some strayTransaction ∧
      c'.state.tokens.isOwner .sample strayTransaction.from' 0 = .ok false ∧
      strayTransaction.price.toNat ≤ c'.state.ledger strayTransaction.bytes ∧
      c'.state.tokens.transfer .sample c'.state.now 0 strayTransaction.from'
        strayTransaction.to' = .error .assertion)
  exact ⟨c, c', hc, hlisting, howner, hc', hpending⟩

end LegendsNft
