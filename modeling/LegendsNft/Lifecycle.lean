/-
**The life of a sale in the history, and what a move does to it.**

A sale leaves two events behind: `lock` creates its transaction, `settle` finalizes it.  This module
reads them off the history, and sorts the moves by what they do to each of the three maps a sale
goes through: the pending transactions, the listings, and the owners of the tokens.

Main definitions:

* `LegendsNft.Creation`, `LegendsNft.created` — the transactions created so far;
* `LegendsNft.Settlement`, `LegendsNft.settlements`, `LegendsNft.pushed` — the sales made so far and
  the disbursements they have queued;
* `LegendsNft.Quiet` — a segment that neither touches the pending transactions nor makes a sale.

Main results:

* `LegendsNft.Move.life` — a move is quiet, creates a transaction, gives one up, or makes a sale;
* `LegendsNft.Move.listing_cases`, `LegendsNft.Move.pending_cases` — where a listing and a pending
  transaction come from;
* `LegendsNft.Move.owner_cases` — **who can change the owner of a token**;
* `LegendsNft.Move.held_cases`, `LegendsNft.Move.waiter_cases`, `LegendsNft.Move.reply_cases` —
  where what a continuation carries comes from.
-/

import LegendsNft.Moves

set_option relaxedAutoImplicit false
set_option autoImplicit false

namespace LegendsNft

open Entrepot

variable {D : Deployment}

/-! ### Reading the history -/

/-- A transaction created by `lock` at an index, with the time its lock expires. -/
structure Creation where
  index : TokenIndex
  transaction : Transaction
  expiry : Time
  deriving DecidableEq

/-- A sale: the frame of the `settle` call, the balance it was given and the jobs it queued. -/
structure Settlement where
  frame : SettleFrame
  balance : UInt64
  jobs : List Disbursement
  deriving DecidableEq

/-- A balance the ledger has reported. -/
structure Report where
  bytes : SubAccount
  balance : UInt64
  time : Time
  deriving DecidableEq

namespace Event

/-- The transaction an event creates. -/
def creation : Event → Option Creation
  | .locked index t expiry => some ⟨index, t, expiry⟩
  | _ => none

/-- The sale an event records. -/
def settlement : Event → Option Settlement
  | .finalized f balance jobs => some ⟨f, balance, jobs⟩
  | _ => none

/-- The balance an event reports. -/
def report : Event → Option Report
  | .reported bytes balance time => some ⟨bytes, balance, time⟩
  | _ => none

end Event

/-- The transactions created so far, the latest first. -/
def created (h : List Event) : List Creation := h.filterMap Event.creation

/-- The sales made so far, the latest first. -/
def settlements (h : List Event) : List Settlement := h.filterMap Event.settlement

/-- The balances reported so far, the latest first. -/
def reports (h : List Event) : List Report := h.filterMap Event.report

/-- The disbursements queued so far. -/
def pushed (h : List Event) : List Disbursement := (settlements h).flatMap Settlement.jobs

theorem mem_created {h : List Event} {i : TokenIndex} {t : Transaction} {e : Time} :
    ⟨i, t, e⟩ ∈ created h ↔ .locked i t e ∈ h := by
  rw [created, List.mem_filterMap]
  constructor
  · rintro ⟨ev, hmem, hev⟩
    cases ev <;> simp only [Event.creation, Option.some_inj, Creation.mk.injEq, reduceCtorEq] at hev
    obtain ⟨rfl, rfl, rfl⟩ := hev
    exact hmem
  · exact fun hmem => ⟨_, hmem, rfl⟩

theorem mem_settlements {h : List Event} {f : SettleFrame} {b : UInt64}
    {jobs : List Disbursement} : ⟨f, b, jobs⟩ ∈ settlements h ↔ .finalized f b jobs ∈ h := by
  rw [settlements, List.mem_filterMap]
  constructor
  · rintro ⟨ev, hmem, hev⟩
    cases ev <;>
      simp only [Event.settlement, Option.some_inj, Settlement.mk.injEq, reduceCtorEq] at hev
    obtain ⟨rfl, rfl, rfl⟩ := hev
    exact hmem
  · exact fun hmem => ⟨_, hmem, rfl⟩

/-! ### The four kinds of moves -/

/-- A segment that leaves the pending transactions and the sales history as they are. -/
structure Quiet (w : World) (o : Step) : Prop where
  pendingTransactions : o.state.entrepot.pendingTransactions = w.entrepot.pendingTransactions
  transactions : o.state.entrepot.transactions = w.entrepot.transactions
  nextTxId : o.state.entrepot.nextTxId = w.entrepot.nextTxId
  totalVolume : o.state.entrepot.totalVolume = w.entrepot.totalVolume
  lowestPriceSale : o.state.entrepot.lowestPriceSale = w.entrepot.lowestPriceSale
  highestPriceSale : o.state.entrepot.highestPriceSale = w.entrepot.highestPriceSale
  events : ∀ e ∈ o.events, e.creation = none ∧ e.settlement = none

namespace Quiet

variable {w : World} {o : Step}

theorem created_append (h : Quiet w o) (es : List Event) :
    created (o.events ++ es) = created es := by
  rw [created, List.filterMap_append, List.filterMap_eq_nil_iff.2 fun e he => (h.events e he).1]
  rfl

theorem settlements_append (h : Quiet w o) (es : List Event) :
    settlements (o.events ++ es) = settlements es := by
  rw [settlements, List.filterMap_append,
    List.filterMap_eq_nil_iff.2 fun e he => (h.events e he).2]
  rfl

theorem of_sameMarket {s : Entrepot} {ks : List Task} {es : List Event}
    (h : SameMarket w.entrepot s) (hes : ∀ e ∈ es, e.creation = none ∧ e.settlement = none) :
    Quiet w ⟨w.setEntrepot s, ks, es⟩ :=
  ⟨h.pendingTransactions, h.transactions, h.nextTxId, h.totalVolume, h.lowestPriceSale,
    h.highestPriceSale, hes⟩

end Quiet

theorem quiet_answered {job : Disbursement} {reply : Option TransferResult} {e : Event}
    (h : e ∈ answered job reply) : e.creation = none ∧ e.settlement = none := by
  unfold answered at h
  split at h
  · rw [List.mem_singleton] at h
    subst h
    exact ⟨rfl, rfl⟩
  · split at h
    · simp at h
    · rw [List.mem_singleton] at h
      subst h
      exact ⟨rfl, rfl⟩

/-- **The four kinds of moves**: a quiet one, the creation of a transaction, giving one up, and a
sale. -/
theorem Move.life {w : World} {src : Source} {o : Step} (h : Move D w src o) :
    Quiet w o ∨
    (∃ f t, src = .resume (.canSettled (.ok ()) (.lock f)) .run ∧
      t = f.transaction D w.entrepot.nextTxId w.now ∧
      o = ⟨w.setEntrepot (w.entrepot.created f t), [], [.locked f.index t f.expiry]⟩) ∨
    (∃ f balance k r, src = .resume (.reported f balance k) .run ∧
      balance < f.transaction.price ∧
      o = ⟨w.setEntrepot (w.entrepot.giveUp w.now f), k.deliver r, [.gaveUp f balance]⟩) ∨
    (∃ f balance k s tokens jobs, src = .resume (.reported f balance k) .run ∧
      f.transaction.price ≤ balance ∧ Sale fees w.entrepot s w.now f balance jobs ∧
      w.tokens.transfer D w.now f.index f.transaction.from' f.transaction.to' = .ok tokens ∧
      o = ⟨(w.setEntrepot s).setTokens tokens, [.insert k], [.finalized f balance jobs]⟩) := by
  have hnil : ∀ e ∈ ([] : List Event), e.creation = none ∧ e.settlement = none := by simp
  cases h with
  | idle | relay | tick | deposit | mint | listBegan | extTransfer | read | executed | rejected =>
      exact Or.inl ⟨rfl, rfl, rfl, rfl, rfl, rfl, hnil⟩
  | lockBegan | deleted | listed | delisted | report =>
      exact Or.inl ⟨rfl, rfl, rfl, rfl, rfl, rfl, by simp [Event.creation, Event.settlement]⟩
  | sent market => exact Or.inl (.of_sameMarket market hnil)
  | queueStart pass => exact Or.inl (.of_sameMarket pass.market hnil)
  | queueStep count pass =>
      have hm := pass.market
      exact Or.inl (.of_sameMarket ⟨hm.1, hm.2, hm.3, hm.4, hm.5, hm.6, hm.7, hm.8, hm.9⟩
        fun e he => quiet_answered he)
  | locked ht => exact Or.inr (Or.inl ⟨_, _, rfl, ht, rfl⟩)
  | gaveUp hlt => exact Or.inr (Or.inr (Or.inl ⟨_, _, _, _, rfl, hlt, rfl⟩))
  | finalized hle hsale ht =>
      exact Or.inr (Or.inr (Or.inr ⟨_, _, _, _, _, _, rfl, hle, hsale, ht, rfl⟩))

/-! ### Owners -/

/-- A token transfer through the EXT interface, with what it has checked. -/
structure ExtTransfer (D : Deployment) (w : World) (i : TokenIndex) (caller : Principal)
    (request : Ext.TransferRequest) : Prop where
  decoded : ∃ p, D.decode request.token = .ok (p, i)
  owns : w.tokens.Owns D (D.accountText caller request.subaccount) i
  unlisted : w.entrepot.listings.get i = none

/-- **Who can change the owner of a token**: its owner, through the EXT interface, or a sale whose
transaction is from its owner, which takes the token off the market. -/
theorem Move.owner_cases {w : World} {src : Source} {o : Step} (h : Move D w src o)
    {i : TokenIndex} {a : AccountIdentifier} (ha : w.tokens.ownerOf i = some a) :
    o.state.tokens.ownerOf i = some a ∨
    (∃ caller request, src = .call (.transfer caller request) ∧
      ExtTransfer D w i caller request ∧ o.state.entrepot = w.entrepot ∧
      o.state.tokens.ownerOf i = some (D.upper (D.userAccount request.to'))) ∨
    (∃ f balance k, src = .resume (.reported f balance k) .run ∧ f.index = i ∧
      f.transaction.price ≤ balance ∧ w.tokens.Owns D f.transaction.from' i ∧
      o.state.tokens.ownerOf i = some f.transaction.to' ∧
      o.state.entrepot.listings.get i = none ∧
      o.state.entrepot.pendingTransactions.get i = none) := by
  cases h with
  | idle | relay | tick | deposit | listBegan | read | executed | rejected | lockBegan | deleted
  | listed | delisted | report | sent | queueStart | queueStep | locked | gaveUp =>
      exact Or.inl ha
  | mint hm => exact Or.inl (Tokens.ownerOf_of_mint hm ha)
  | @extTransfer caller request p index tokens hd ho hl ht =>
      by_cases hi : i = index
      · subst hi
        obtain ⟨b, hb, hab⟩ := ho
        refine Or.inr (Or.inl ⟨_, _, rfl, ⟨⟨_, hd⟩, ⟨b, hb, hab.symm⟩, hl⟩, rfl, ?_⟩)
        exact (Tokens.ownerOf_of_transfer ht i).trans (if_pos rfl)
      · left
        exact (Tokens.ownerOf_of_transfer ht i).trans ((if_neg hi).trans ha)
  | @finalized f balance k s tokens jobs hle hsale ht =>
      by_cases hi : i = f.index
      · subst hi
        refine Or.inr (Or.inr ⟨f, _, _, rfl, rfl, hle, Tokens.transfer_isOk_iff.1 ⟨_, ht⟩, ?_, ?_,
          ?_⟩)
        · exact (Tokens.ownerOf_of_transfer ht f.index).trans (if_pos rfl)
        · rw [World.entrepot_setTokens, World.entrepot_setEntrepot, hsale.listings,
            Table.get_delete_self]
        · rw [World.entrepot_setTokens, World.entrepot_setEntrepot, hsale.pendingTransactions,
            Table.get_delete_self]
      · left
        exact (Tokens.ownerOf_of_transfer ht i).trans ((if_neg hi).trans ha)

/-! ### Listings -/

/-- The two listings have one seller and one price. -/
structure SameSale (l l' : Listing) : Prop where
  seller : l'.seller = l.seller
  subaccount : l'.subaccount = l.subaccount
  price : l'.price = l.price

/-- **Where a listing comes from**: it was there before, perhaps without its lock, or `list` has
just written it. -/
theorem Move.listing_cases {w : World} {src : Source} {o : Step} (h : Move D w src o)
    {i : TokenIndex} {l : Listing} (hl : o.state.entrepot.listings.get i = some l) :
    (∃ l', w.entrepot.listings.get i = some l' ∧ SameSale l l') ∨
    (∃ f price, src = .resume (.canSettled (.ok ()) (.list f)) .run ∧ f.index = i ∧
      f.request.price = some price ∧ o.events = [.listed f price] ∧
      l = ⟨none, price, f.caller, f.request.from_subaccount⟩) := by
  have old (hold : w.entrepot.listings.get i = some l) :
      ∃ l', w.entrepot.listings.get i = some l' ∧ SameSale l l' := ⟨l, hold, rfl, rfl, rfl⟩
  cases h with
  | idle | relay | tick | deposit | mint | listBegan | extTransfer | read | report | executed
  | rejected | deleted | locked => exact Or.inl (old hl)
  | sent market => exact Or.inl (old (by simpa [market.listings] using hl))
  | queueStart pass => exact Or.inl (old (by simpa [pass.market.listings] using hl))
  | queueStep count pass =>
      have hs := pass.market.listings
      exact Or.inl (old (by simpa [hs] using hl))
  | gaveUp =>
      refine Or.inl (old ?_)
      rw [World.entrepot_setEntrepot, giveUp] at hl
      split at hl <;> exact hl
  | @lockBegan _ _ _ _ f _ hg =>
      rcases Table.get_of_get_put hl with ⟨rfl, rfl⟩ | ⟨-, hl⟩
      · exact Or.inl ⟨f.listing, hg, rfl, rfl, rfl⟩
      · exact Or.inl (old hl)
  | @listed f price hp =>
      rcases Table.get_of_get_put hl with ⟨rfl, rfl⟩ | ⟨-, hl⟩
      · exact Or.inr ⟨f, price, rfl, rfl, hp, rfl, rfl⟩
      · exact Or.inl (old hl)
  | delisted => exact Or.inl (old (Table.get_of_get_delete hl).2)
  | finalized hle hsale =>
      refine Or.inl (old ?_)
      rw [World.entrepot_setTokens, World.entrepot_setEntrepot, hsale.listings] at hl
      exact (Table.get_of_get_delete hl).2

/-- **Where a pending transaction comes from**: it was there before, or `lock` has just created
it. -/
theorem Move.pending_cases {w : World} {src : Source} {o : Step} (h : Move D w src o)
    {i : TokenIndex} {t : Transaction}
    (ht : o.state.entrepot.pendingTransactions.get i = some t) :
    w.entrepot.pendingTransactions.get i = some t ∨
    (∃ f, src = .resume (.canSettled (.ok ()) (.lock f)) .run ∧ f.index = i ∧
      t = f.transaction D w.entrepot.nextTxId w.now ∧ o.events = [.locked i t f.expiry]) := by
  rcases h.life with hq | ⟨f, t', rfl, rfl, rfl⟩ | ⟨f, b, k, r, rfl, -, rfl⟩ |
    ⟨f, b, k, s, tokens, jobs, rfl, -, hsale, -, rfl⟩
  · rw [hq.pendingTransactions] at ht
    exact Or.inl ht
  · rcases Table.get_of_get_put ht with ⟨rfl, rfl⟩ | ⟨-, ht⟩
    · exact Or.inr ⟨f, rfl, rfl, rfl, rfl⟩
    · exact Or.inl ht
  · rw [World.entrepot_setEntrepot, giveUp] at ht
    split at ht
    · exact Or.inl ht
    · exact Or.inl (Table.get_of_get_delete ht).2
  · rw [World.entrepot_setTokens, World.entrepot_setEntrepot, hsale.pendingTransactions] at ht
    exact Or.inl (Table.get_of_get_delete ht).2

/-! ### The clock and the ledger -/

theorem Move.now_le {w : World} {src : Source} {o : Step} (h : Move D w src o) :
    w.now ≤ o.state.now := by
  cases h with
  | tick hle => exact hle
  | _ => exact le_refl _

/-- A balance is reported at the moment it is read. -/
theorem Move.report_cases {w : World} {src : Source} {o : Step} (h : Move D w src o)
    {es : List Event} {r : Report} (hr : r ∈ reports (o.events ++ es)) :
    r ∈ reports es ∨ (r.time = w.now ∧ r.balance.toNat = w.ledger r.bytes) := by
  rw [reports, List.filterMap_append, List.mem_append] at hr
  rcases hr with hr | hr
  · obtain ⟨e, he, her⟩ := List.mem_filterMap.1 hr
    cases h with
    | report hb =>
        rw [List.mem_singleton] at he
        subst he
        cases her
        exact Or.inr ⟨rfl, hb⟩
    | @queueStep f reply =>
        unfold answered at he
        split at he
        · cases List.mem_singleton.1 he
          simp [Event.report] at her
        · split at he
          · simp at he
          · cases List.mem_singleton.1 he
            simp [Event.report] at her
    | idle | relay | tick | deposit | mint | listBegan | extTransfer | read | executed | rejected
    | sent | queueStart => simp [World.idle] at he
    | lockBegan | deleted | listed | delisted | locked | gaveUp | finalized =>
        cases List.mem_singleton.1 he
        simp [Event.report] at her
  · exact Or.inl hr

/-- Without runs of the queue, jobs stay queued, balances stay on the ledger, and no run begins. -/
theorem Move.market_mono {w : World} {src : Source} {o : Step} (h : Move D w src o)
    (hcall : ∀ i, src = .call i → i.isMarket = true)
    (hrun : ∀ k ∈ Actor.Source.task src, k.run = none) :
    (∀ d ∈ w.entrepot.pendingDisbursements, d ∈ o.state.entrepot.pendingDisbursements) ∧
      (∀ b, w.ledger b ≤ o.state.ledger b) ∧ ∀ k ∈ o.spawned, k.run = none := by
  cases h with
  | queueStart => simpa [Input.isMarket] using hcall _ rfl
  | deleted => simpa [Input.isMarket] using hcall _ rfl
  | queueStep | executed | rejected =>
      simpa [Task.run] using hrun _ (Multiset.mem_singleton_self _)
  | idle | tick | mint | listed | delisted | locked =>
      exact ⟨fun _ hd => hd, fun _ => le_refl _, by simp [World.idle]⟩
  | extTransfer | listBegan | lockBegan | read | report =>
      exact ⟨fun _ hd => hd, fun _ => le_refl _, by simp [Task.run]⟩
  | relay _ _ hrel => exact ⟨fun _ hd => hd, fun _ => le_refl _, fun k hk => (hrel k hk).run⟩
  | @deposit bytes amount =>
      refine ⟨fun _ hd => hd, ?_, by simp⟩
      intro b
      by_cases hb : b = bytes
      · subst hb
        simp
      · simp [Function.update_of_ne hb]
  | sent _ hq => exact ⟨fun _ hd => by simpa [hq] using hd, fun _ => le_refl _, by simp [Task.run]⟩
  | gaveUp =>
      refine ⟨?_, fun _ => le_refl _, fun k hk => (SettleWaiter.relays_of_mem_deliver hk).run⟩
      intro d hd
      rw [World.entrepot_setEntrepot, giveUp]
      split <;> exact hd
  | finalized _ hsale =>
      refine ⟨?_, fun _ => le_refl _, by simp [Task.run]⟩
      intro d hd
      rw [World.entrepot_setTokens, World.entrepot_setEntrepot, hsale.pendingDisbursements]
      exact List.mem_append_right _ hd

/-! ### Where what a continuation carries comes from -/

/-- The balance a `settle` call has been given. -/
def Task.reply : Task → Option (SettleFrame × UInt64)
  | .reported f b _ => some (f, b)
  | _ => none

/-- A transaction that a new continuation holds has just been read, or has been read by the
continuation that is now told the balance. -/
theorem Move.held_cases {w : World} {src : Source} {o : Step} (h : Move D w src o) {k : Task}
    (hk : k ∈ o.spawned) {f : SettleFrame} (hf : k.held = some f) :
    o.state = w ∧
      ((∃ token k', src = .resume (.settle token k') .run ∧ k = .balance f k' ∧
        w.entrepot.pendingTransactions.get f.index = some f.transaction) ∨
      ∃ k' balance, src = .resume (.balance f k') .report ∧ k = .reported f balance k' ∧
        .reported f.transaction.bytes balance w.now ∈ o.events) := by
  cases h with
  | idle | tick | deposit | mint | deleted | listed | delisted | locked => simp [World.idle] at hk
  | listBegan | lockBegan | extTransfer | executed | rejected | finalized =>
      rw [List.mem_singleton] at hk
      subst hk
      simp [Task.held] at hf
  | relay hrun hlen hrel =>
      rw [(hrel k hk).held] at hf
      simp at hf
  | sent =>
      obtain ⟨token, -, rfl⟩ := List.mem_map.1 hk
      simp [Task.held] at hf
  | queueStart pass =>
      rw [(pass.waiter_eq_none hk).2] at hf
      simp at hf
  | queueStep count pass =>
      rw [(pass.waiter_eq_none hk).2] at hf
      simp at hf
  | read hp =>
      rw [List.mem_singleton] at hk
      subst hk
      cases hf
      exact ⟨rfl, Or.inl ⟨_, _, rfl, rfl, hp⟩⟩
  | report hb =>
      rw [List.mem_singleton] at hk
      subst hk
      cases hf
      exact ⟨rfl, Or.inr ⟨_, _, rfl, rfl, List.mem_singleton_self _⟩⟩
  | gaveUp hlt =>
      rw [(SettleWaiter.relays_of_mem_deliver hk).held] at hf
      simp at hf

/-- A call a continuation carries was carried before, or has just begun. -/
theorem Move.waiter_cases {w : World} {src : Source} {o : Step} (h : Move D w src o) {k : Task}
    (hk : k ∈ o.spawned) {x : Waiter} (hx : k.waiter = some x) :
    (∃ k' ∈ Actor.Source.task src, k'.waiter = some x) ∨
      (∃ caller request index, x = .list ⟨caller, request, index⟩ ∧
        src = .call (.list caller request) ∧
        w.tokens.Owns D (D.accountText caller request.from_subaccount) index) ∨
      (∃ f, x = .lock f ∧ .lockBegan f ∈ o.events) := by
  cases h with
  | idle | tick | deposit | mint | deleted | listed | delisted | locked => simp [World.idle] at hk
  | extTransfer | executed | rejected =>
      rw [List.mem_singleton] at hk
      subst hk
      simp [Task.waiter] at hx
  | listBegan hd ho hl =>
      rw [List.mem_singleton] at hk
      subst hk
      cases hx
      exact Or.inr (Or.inl ⟨_, _, _, rfl, rfl, ho⟩)
  | lockBegan =>
      rw [List.mem_singleton] at hk
      subst hk
      cases hx
      exact Or.inr (Or.inr ⟨_, rfl, List.mem_singleton_self _⟩)
  | relay hrun hlen hrel =>
      exact Or.inl ⟨_, Multiset.mem_singleton_self _, (hrel k hk).waiter ▸ hx⟩
  | sent =>
      obtain ⟨token, -, rfl⟩ := List.mem_map.1 hk
      simp [Task.waiter, SettleWaiter.waiter] at hx
  | queueStart pass =>
      rw [(pass.waiter_eq_none hk).1] at hx
      simp at hx
  | queueStep count pass =>
      rw [(pass.waiter_eq_none hk).1] at hx
      simp at hx
  | read | report | finalized =>
      rw [List.mem_singleton] at hk
      subst hk
      exact Or.inl ⟨_, Multiset.mem_singleton_self _, hx⟩
  | gaveUp hlt =>
      exact Or.inl ⟨_, Multiset.mem_singleton_self _,
        (SettleWaiter.relays_of_mem_deliver hk).waiter.symm.trans hx⟩

/-- A balance a continuation has been given was read off the ledger. -/
theorem Move.reply_cases {w : World} {src : Source} {o : Step} (h : Move D w src o) {k : Task}
    (hk : k ∈ o.spawned) {f : SettleFrame} {balance : UInt64}
    (hf : k.reply = some (f, balance)) :
    .reported f.transaction.bytes balance w.now ∈ o.events := by
  have hheld : k.held = some f := by
    cases k <;> simp_all [Task.reply, Task.held]
  rcases (h.held_cases hk hheld).2 with ⟨token, k', -, rfl, -⟩ | ⟨k', balance', -, rfl, hev⟩
  · cases hf
  · cases hf
    exact hev

end LegendsNft
