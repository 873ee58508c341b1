/-
**What the marketplace tells of its sales** (`Entrepot/lib.mo`).

A seller is told the payment subaccounts of his sales, anyone the completed transactions and the
listings, an admin the pending transactions and the raw tables.  None of these lists is kept as
such: they are scans of the tables, keyed by transaction ids that start anew with every upgrade.
Still none of them invents anything, in any run: what is shown leads back to the `list` call of its
seller and to its sale, no subaccount is told to two sellers or twice to one, and the times shown
are those of the past.

Main definitions:

* `LegendsNft.Entrepot.payments`, `LegendsNft.Entrepot.readTransactions`,
  `LegendsNft.Entrepot.getListings` — the public queries;
* `LegendsNft.Entrepot.readPending`, `LegendsNft.Entrepot.paymentsRaw`,
  `LegendsNft.Entrepot.disbursements`, `LegendsNft.Entrepot.disbursementQueueSize`,
  `LegendsNft.Entrepot.disbursementPendingCount` — those of an admin.

Main results:

* `LegendsNft.Interface.receipts_of_run` — **nothing that is shown is invented**.
-/

import LegendsNft.Bookkeeping

set_option relaxedAutoImplicit false
set_option autoImplicit false

namespace LegendsNft

namespace Entrepot

/-! ### The queries -/

/-- `Entrepot.EntrepotTransaction`. -/
structure EntrepotTransaction where
  token : TokenIdentifier
  seller : Principal
  price : UInt64
  buyer : AccountIdentifier
  time : Time
  deriving DecidableEq, Repr

/-- `Entrepot.ExtListing`. -/
structure ExtListing where
  locked : Option Time
  price : UInt64
  seller : Principal
  deriving DecidableEq, Repr

/-- `Entrepot.Metadata`, of which only this case is used. -/
inductive Metadata
  | nonfungible (metadata : Option Blob)
  deriving DecidableEq, Repr

variable (s : Entrepot)

/-- `payments`. -/
def payments (caller : Principal) : Option (List SubAccount) :=
  some (s.transactions.entries.filterMap fun e =>
    if e.2.seller = caller then some e.2.bytes else none)

/-- `readTransactions`. -/
def readTransactions : List EntrepotTransaction :=
  s.transactions.entries.map fun e => {
    buyer := e.2.to'
    price := e.2.price
    seller := e.2.seller
    time := match e.2.closed with
      | some t => t
      | none => e.2.initiated
    token := e.2.token }

/-- `getListings`. -/
def getListings : List (TokenIndex × ExtListing × Metadata) :=
  s.listings.entries.map fun e => (e.1, {
    locked := e.2.locked
    seller := e.2.seller
    price := e.2.price }, .nonfungible none)

/-- `readPending`. -/
def readPending (isAdmin : Bool) : Except Trap (List (TokenIndex × Transaction)) :=
  if isAdmin then .ok s.pendingTransactions.entries else .error .assertion

/-- `paymentsRaw`. -/
def paymentsRaw (isAdmin : Bool) : Except Trap (List (ℕ × Transaction)) :=
  if isAdmin then .ok s.transactions.entries else .error .assertion

/-- `disbursements`. -/
def disbursements (isAdmin : Bool) : Except Trap (List Disbursement) :=
  if isAdmin then .ok s.pendingDisbursements else .error .assertion

/-- `disbursementQueueSize`. -/
def disbursementQueueSize (isAdmin : Bool) : Except Trap ℕ :=
  if isAdmin then .ok s.pendingDisbursements.length else .error .assertion

/-- `disbursementPendingCount`. -/
def disbursementPendingCount (isAdmin : Bool) : Except Trap ℕ :=
  if isAdmin then .ok s.pendingCount else .error .assertion

end Entrepot

open Entrepot

/-! ### What is shown -/

/-- What the queries of the marketplace show, against the history. -/
structure Receipts (w : World) (h : List Event) : Prop where
  /-- A seller is told a payment subaccount once. -/
  once : ∀ p bs, w.entrepot.payments p = some bs → bs.Nodup
  /-- No two sellers are told the same. -/
  separate : ∀ p q bs bs' b, w.entrepot.payments p = some bs → w.entrepot.payments q = some bs' →
    b ∈ bs → b ∈ bs' → p = q
  /-- He has listed the token at the price it was sold for. -/
  payment : ∀ p bs b, w.entrepot.payments p = some bs → b ∈ bs → ∃ s ∈ settlements h,
    s.transaction.bytes = b ∧ ∃ f, .listed f s.transaction.price ∈ h ∧ f.caller = p ∧
      f.index = s.frame.index
  /-- A completed transaction is that of a sale, closed between its beginning and now. -/
  transaction : ∀ r ∈ w.entrepot.readTransactions, ∃ s ∈ settlements h,
    r.token = s.transaction.token ∧ r.seller = s.transaction.seller ∧
    r.price = s.transaction.price ∧ r.buyer = s.transaction.to' ∧
    s.transaction.initiated ≤ r.time ∧ r.time ≤ w.now
  /-- A listing was made by its seller. -/
  listing : ∀ x ∈ w.entrepot.getListings, ∃ f, .listed f x.2.1.price ∈ h ∧
    f.caller = x.2.1.seller ∧ f.index = x.1
  /-- A pending transaction was created by a `lock` call. -/
  pending : ∀ xs, w.entrepot.readPending true = .ok xs → ∀ x ∈ xs, ∃ e, .locked x.1 x.2 e ∈ h ∧
    x.2.initiated ≤ w.now
  /-- A raw entry is the transaction of a sale, under its id, closed between its beginning and
  now. -/
  raw : ∀ xs, w.entrepot.paymentsRaw true = .ok xs → ∀ x ∈ xs, ∃ s ∈ settlements h,
    s.transaction.id = x.1 ∧ ∃ time, x.2 = { s.transaction with closed := some time } ∧
      s.transaction.initiated ≤ time ∧ time ≤ w.now
  /-- A job of the queue is that of a sale, paid from the subaccount of the sale. -/
  job : ∀ ds, w.entrepot.disbursements true = .ok ds →
    w.entrepot.disbursementQueueSize true = .ok ds.length ∧
    ∀ d ∈ ds, ∃ s ∈ settlements h, d ∈ s.jobs ∧ d.bytes = s.transaction.bytes

namespace Bookkeeping

variable {D : Deployment} {w : World} {h : List Event} {m : Multiset Task}

/-- A transaction goes back to a `list` call of its seller. -/
theorem listed_of_locked (hB : Bookkeeping D w h m) {i : TokenIndex} {t : Transaction} {e : Time}
    (ht : .locked i t e ∈ h) :
    ∃ f, .listed f t.price ∈ h ∧ f.caller = t.seller ∧ f.index = i := by
  obtain ⟨f, hf, hi, -, htr⟩ := hB.provenance.creation _ (mem_created.2 ht)
  obtain ⟨g, hg, hgi, hcaller, -⟩ := hB.provenance.lock f hf
  refine ⟨g, ?_, ?_, hgi.trans hi⟩
  · rw [show t.price = f.listing.price from congrArg Transaction.price htr]
    exact hg
  · rw [show t.seller = f.listing.seller from congrArg Transaction.seller htr]
    exact hcaller

/-- An entry is that of a sale, with the transaction of a `lock` call. -/
theorem sale_of_entry (hB : Bookkeeping D w h m) {id : ℕ} {t : Transaction}
    (ht : (id, t) ∈ w.entrepot.transactions.entries) :
    ∃ s ∈ settlements h, s.transaction.id = id ∧ (∃ e, .locked s.frame.index s.transaction e ∈ h) ∧
      ∃ time, t = { s.transaction with closed := some time } ∧
        s.transaction.initiated ≤ time ∧ time ≤ w.now := by
  obtain ⟨s, hs, hid, time, htime⟩ := hB.entries id t (Table.mem_entries.1 ht)
  exact ⟨s, hs, hid, hB.provenance.sale s.frame s.balance s.jobs (mem_settlements.1 hs), time,
    htime⟩

/-- The bytes of an entry determine its id and its seller. -/
theorem entry_inj (hB : Bookkeeping D w h m) {id id' : ℕ} {t t' : Transaction}
    (ht : (id, t) ∈ w.entrepot.transactions.entries)
    (ht' : (id', t') ∈ w.entrepot.transactions.entries) (hbytes : t.bytes = t'.bytes) :
    id = id' ∧ t.seller = t'.seller := by
  obtain ⟨s, -, rfl, ⟨e, he⟩, time, rfl, -⟩ := hB.sale_of_entry ht
  obtain ⟨s', -, rfl, ⟨e', he'⟩, time', rfl, -⟩ := hB.sale_of_entry ht'
  have heq : s.transaction = s'.transaction := hB.eq_of_bytes he he' hbytes
  have hseller : s.transaction.seller = s'.transaction.seller := congrArg Transaction.seller heq
  exact ⟨congrArg Transaction.id heq, hseller⟩

theorem mem_payments {p : Principal} {bs : List SubAccount}
    (hbs : w.entrepot.payments p = some bs) {b : SubAccount} (hb : b ∈ bs) :
    ∃ id t, (id, t) ∈ w.entrepot.transactions.entries ∧ t.seller = p ∧ t.bytes = b := by
  cases hbs
  obtain ⟨x, hx, hxb⟩ := List.mem_filterMap.1 hb
  by_cases hp : x.2.seller = p
  · rw [if_pos hp] at hxb
    exact ⟨x.1, x.2, hx, hp, Option.some_inj.1 hxb⟩
  · rw [if_neg hp] at hxb
    cases hxb

/-- No subaccount is told twice. -/
theorem nodup_payments (hB : Bookkeeping D w h m) {p : Principal} {bs : List SubAccount}
    (hbs : w.entrepot.payments p = some bs) : bs.Nodup := by
  cases hbs
  have hkeys := w.entrepot.transactions.nodup_keys_entries
  rw [List.Nodup, List.pairwise_map] at hkeys
  refine List.pairwise_filterMap.2 (hkeys.imp_of_mem ?_)
  intro x y hx hy hne b hb b' hb' heq
  have hbytes (z : ℕ × Transaction) (c : SubAccount)
      (hc : c ∈ if z.2.seller = p then some z.2.bytes else none) : z.2.bytes = c := by
    by_cases hp : z.2.seller = p
    · rw [if_pos hp] at hc
      exact Option.some_inj.1 hc
    · rw [if_neg hp] at hc
      cases hc
  exact hne (hB.entry_inj hx hy ((hbytes x b hb).trans (heq.trans (hbytes y b' hb').symm))).1

/-- **Nothing that is shown is invented.** -/
theorem receipts (hB : Bookkeeping D w h m) : Receipts w h where
  once := fun p bs hbs => hB.nodup_payments hbs
  separate := by
    intro p q bs bs' b hbs hbs' hb hb'
    obtain ⟨id, t, ht, rfl, hbytes⟩ := mem_payments hbs hb
    obtain ⟨id', t', ht', rfl, hbytes'⟩ := mem_payments hbs' hb'
    exact (hB.entry_inj ht ht' (hbytes.trans hbytes'.symm)).2
  payment := by
    intro p bs b hbs hb
    obtain ⟨id, t, ht, rfl, rfl⟩ := mem_payments hbs hb
    obtain ⟨s, hs, -, ⟨e, he⟩, time, rfl, -⟩ := hB.sale_of_entry ht
    exact ⟨s, hs, rfl, hB.listed_of_locked he⟩
  transaction := by
    intro r hr
    obtain ⟨x, hx, rfl⟩ := List.mem_map.1 hr
    obtain ⟨s, hs, -, -, time, htime, hle, hnow⟩ := hB.sale_of_entry hx
    refine ⟨s, hs, ?_⟩
    rw [htime]
    exact ⟨rfl, rfl, rfl, rfl, hle, hnow⟩
  listing := by
    intro x hx
    obtain ⟨y, hy, rfl⟩ := List.mem_map.1 hx
    obtain ⟨f, hf, hi, hc, -⟩ := hB.provenance.listing y.1 y.2 (Table.mem_entries.1 hy)
    exact ⟨f, hf, hc, hi⟩
  pending := by
    intro xs hxs x hx
    cases hxs
    obtain ⟨e, he⟩ := hB.provenance.pending x.1 x.2 (Table.mem_entries.1 hx)
    exact ⟨e, he, hB.dated _ (mem_created.2 he)⟩
  raw := by
    intro xs hxs x hx
    cases hxs
    obtain ⟨s, hs, hid, -, hclosed⟩ := hB.sale_of_entry hx
    exact ⟨s, hs, hid, hclosed⟩
  job := by
    intro ds hds
    cases hds
    refine ⟨rfl, fun d hd => ?_⟩
    obtain ⟨s, hs, hjob⟩ := hB.exists_sale (Multiset.mem_add.2 (Or.inl (Multiset.mem_coe.2 hd)))
    exact ⟨s, hs, hjob, (hB.mem_jobs hs hjob).1⟩

end Bookkeeping

namespace Interface

variable {H : Collection.Host} {c₀ c : Config}

/-- **What the marketplace tells of its sales is real**, in every run of the whole canister in which
no admin restores the marketplace, upgrades between two runs of the queue included; and the count of
pending disbursements is that of the transfers whose reply is awaited. -/
theorem receipts_of_run (hc₀ : Initial c₀)
    (h : Actor.Run (program H) (unrestored H betweenRuns) c₀ c)
    (hbound : c.state.world.entrepot.nextSubAccount < counterBound) :
    Receipts c.state.world (market c).history ∧
      c.state.world.entrepot.disbursementPendingCount true =
        .ok (submitted (market c).pool).card := by
  have hB := books_of_run (fun _ _ hg => hg) hc₀ h hbound
  refine ⟨hB.receipts, ?_⟩
  rw [submitted, Multiset.card_map, ← (hB.counted : _ = _)]
  rfl

/-- The seller of a token that has been sold is told one subaccount. -/
theorem receipts_of_run_sample : ∃ c, (program .sample).exec Config.sample
      (disbursing.map ofChoice) = some c ∧
    c.state.world.entrepot.payments ⟨[1]⟩ = some [firstTransaction.bytes] ∧
    c.state.world.entrepot.disbursementPendingCount true = .ok 1 ∧
    Receipts c.state.world (market c).history := by
  obtain ⟨c, hc, hallow, hbound, hpayments, hcount⟩ := (by decide :
    ∃ c ∈ (program .sample).exec Config.sample (disbursing.map ofChoice),
      (unrestored .sample betweenRuns).AllowsAll (program .sample) Config.sample
        (disbursing.map ofChoice) ∧
      c.state.world.entrepot.nextSubAccount < 4 ∧
      c.state.world.entrepot.payments ⟨[1]⟩ = some [firstTransaction.bytes] ∧
      c.state.world.entrepot.pendingCount = 1)
  have hreceipts := (receipts_of_run Config.initial_sample (Actor.run_of_exec hallow hc) (by
    unfold counterBound
    omega)).1
  exact ⟨c, hc, hpayments, congrArg Except.ok hcount, hreceipts⟩

end Interface

end LegendsNft
