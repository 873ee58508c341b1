/-
**What a sale pays out.**

`settle` turns the balance of a payment subaccount into disbursements: it sets the ledger fees of
all the transfers aside, gives each entry of the fee table its share rounded down, and the rest to
the seller.  This module says what that computation returns and when it returns at all, and from it
what a completed sale does to the state of the marketplace.

Main definitions:

* `LegendsNft.Entrepot.feeJob`, `LegendsNft.Entrepot.saleJobs` — the disbursements of a sale;
* `LegendsNft.Entrepot.Sale` — what a completed sale does to the state.

Main results:

* `LegendsNft.Entrepot.payFees_eq_ok`, `LegendsNft.Entrepot.saleFunds_eq_ok` — when the two parts
  of the computation return, and with what;
* `LegendsNft.Entrepot.sum_saleJobs` — **the disbursements and their ledger fees are the balance**;
* `LegendsNft.Entrepot.sale_of_finalize`, `LegendsNft.Entrepot.exists_finalize` — a settlement that
  completes is a sale, and when it completes.
-/

import LegendsNft.Entrepot

set_option relaxedAutoImplicit false
set_option autoImplicit false

namespace LegendsNft

namespace Entrepot

variable {D : Deployment}

/-! ### The fee loop -/

/-- The state with jobs put in front of the queue. -/
def queue (s : Entrepot) (jobs : List Disbursement) : Entrepot :=
  { s with pendingDisbursements := jobs ++ s.pendingDisbursements }

/-- The disbursement of one entry of the fee table. -/
def feeJob (f : SettleFrame) (funds : UInt64) (e : AccountIdentifier × UInt64) : Disbursement :=
  ⟨f.index, e.1, f.transaction.bytes, UInt64.ofNat (funds.toNat * e.2.toNat / 100000)⟩

theorem toNat_share {funds pct product : UInt64} (h : product.toNat = funds.toNat * pct.toNat) :
    (product / 100000).toNat = funds.toNat * pct.toNat / 100000 := by
  rw [UInt64.toNat_div, h]
  rfl

theorem toNat_amount_feeJob {f : SettleFrame} {funds : UInt64} {e : AccountIdentifier × UInt64}
    (h : funds.toNat * e.2.toNat < 2 ^ 64) :
    (feeJob f funds e).amount.toNat = funds.toNat * e.2.toNat / 100000 :=
  Checked.toNat_ofNat (lt_of_le_of_lt (Nat.div_le_self _ _) h)

theorem feeJob_eq {f : SettleFrame} {funds pct product : UInt64} {recipient : AccountIdentifier}
    (h : product.toNat = funds.toNat * pct.toNat) : feeJob f funds (recipient, pct) =
      ⟨f.index, recipient, f.transaction.bytes, product / 100000⟩ := by
  have hlt : funds.toNat * pct.toNat < 2 ^ 64 := h ▸ Checked.toNat_lt product
  have hamount := (toNat_amount_feeJob (f := f) (e := (recipient, pct)) hlt).trans
    (toNat_share h).symm
  exact congrArg (Disbursement.mk f.index recipient f.transaction.bytes)
    (UInt64.toNat_inj.1 hamount)

/-- **The fee loop** returns when no product overflows and the shares do not exceed the remainder;
it has then queued one disbursement for each entry, the last one in front. -/
theorem payFees_eq_ok {f : SettleFrame} {funds remaining remaining' : UInt64} {table : FeeTable}
    {s s' : Entrepot} :
    payFees f.index f.transaction.bytes funds s remaining table = .ok (s', remaining') ↔
      (∀ e ∈ table, funds.toNat * e.2.toNat < 2 ^ 64) ∧
      s' = s.queue (table.map (feeJob f funds)).reverse ∧
      remaining'.toNat + (table.map fun e => funds.toNat * e.2.toNat / 100000).sum =
        remaining.toNat := by
  induction table generalizing s remaining with
  | nil =>
      simp only [payFees, Except.ok.injEq, Prod.mk.injEq, List.map_nil, List.sum_nil]
      constructor
      · rintro ⟨rfl, rfl⟩
        simp [queue]
      · rintro ⟨-, rfl, h⟩
        exact ⟨rfl, UInt64.toNat_inj.1 (by omega)⟩
  | cons e table ih =>
      obtain ⟨recipient, pct⟩ := e
      simp only [payFees, bind_eq_ok, orTrap_eq_ok, ih, Checked.mul_eq_some, Checked.sub_eq_some,
        addDisbursement, queue, List.map_cons, List.sum_cons, List.reverse_cons, List.append_assoc,
        List.forall_mem_cons, List.singleton_append]
      constructor
      · rintro ⟨product, hp, rest, hr, hfit, hs, hsum⟩
        have hlt : funds.toNat * pct.toNat < 2 ^ 64 := hp ▸ Checked.toNat_lt product
        rw [toNat_share hp] at hr
        exact ⟨⟨hlt, hfit⟩, by rw [hs, feeJob_eq hp], by omega⟩
      · rintro ⟨⟨hlt, hfit⟩, hs, hsum⟩
        have hp : (UInt64.ofNat (funds.toNat * pct.toNat)).toNat = funds.toNat * pct.toNat :=
          Checked.toNat_ofNat hlt
        have hle := Checked.toNat_lt remaining
        refine ⟨_, hp, UInt64.ofNat (remaining.toNat - funds.toNat * pct.toNat / 100000), ?_,
          hfit, ?_, ?_⟩
        · rw [toNat_share hp, Checked.toNat_ofNat (by omega)]
          omega
        · rw [hs, feeJob_eq hp]
        · rw [Checked.toNat_ofNat (by omega)]
          omega

/-- The loop never underflows when the parts of the table do not exceed the whole. -/
theorem exists_payFees {f : SettleFrame} {funds : UInt64} {table : FeeTable} {s : Entrepot}
    (htable : (table.map fun e => e.2.toNat).sum ≤ 100000)
    (hfit : ∀ e ∈ table, funds.toNat * e.2.toNat < 2 ^ 64) :
    ∃ s' remaining, payFees f.index f.transaction.bytes funds s funds table =
      .ok (s', remaining) := by
  have hle := Checked.sum_shares_le funds.toNat (by omega) htable
  rw [List.map_map] at hle
  have hlt := Checked.toNat_lt funds
  refine ⟨_, UInt64.ofNat (funds.toNat - (table.map fun e =>
    funds.toNat * e.2.toNat / 100000).sum), payFees_eq_ok.2 ⟨hfit, rfl, ?_⟩⟩
  rw [Checked.toNat_ofNat (by omega)]
  exact Nat.sub_add_cancel hle

/-! ### The disbursements of a sale -/

/-- The funds of a sale are what the balance leaves after one ledger fee for each transfer. -/
theorem saleFunds_eq_ok {table : FeeTable} {balance funds : UInt64} :
    saleFunds table balance = .ok funds ↔
      funds.toNat + 10000 * (1 + table.length) = balance.toNat := by
  simp only [saleFunds, bind_eq_ok, orTrap_eq_ok, Checked.ofNat_eq_some, Checked.add_eq_some,
    Checked.mul_eq_some, Checked.sub_eq_some]
  have h1 : (1 : UInt64).toNat = 1 := rfl
  have h2 : (10000 : UInt64).toNat = 10000 := rfl
  rw [h1, h2]
  constructor
  · rintro ⟨size, hsize, transfers, htransfers, ledgerFees, hfees, h⟩
    rw [hfees, htransfers, hsize] at h
    exact h
  · intro h
    have hlt := Checked.toNat_lt balance
    have hfit : ∀ n, n ≤ balance.toNat → (UInt64.ofNat n).toNat = n :=
      fun n hn => Checked.toNat_ofNat (lt_of_le_of_lt hn hlt)
    have hsize := hfit table.length (by omega)
    have htransfers := hfit (1 + table.length) (by omega)
    have hfees := hfit (10000 * (1 + table.length)) (by omega)
    exact ⟨_, hsize, _, by rw [htransfers, hsize], _, by rw [hfees, htransfers], by omega⟩

/-- The disbursements of a sale, the latest first. -/
def saleJobs (table : FeeTable) (f : SettleFrame) (funds remaining : UInt64) :
    List Disbursement :=
  ⟨f.index, f.transaction.from', f.transaction.bytes, remaining⟩ ::
    (table.map (feeJob f funds)).reverse

/-- The amounts of a sale are those the settlement of this balance computes. -/
structure IsSplit (table : FeeTable) (balance funds remaining : UInt64) : Prop where
  fits : ∀ e ∈ table, funds.toNat * e.2.toNat < 2 ^ 64
  funds_eq : funds.toNat + 10000 * (1 + table.length) = balance.toNat
  remaining_eq : remaining.toNat + (table.map fun e => funds.toNat * e.2.toNat / 100000).sum =
    funds.toNat

/-- What the settlement of a balance queues. -/
theorem scheduleDisbursements_eq_ok {table : FeeTable} {s s' : Entrepot} {f : SettleFrame}
    {balance : UInt64} :
    scheduleDisbursements table s f balance = .ok s' ↔
      ∃ funds remaining, IsSplit table balance funds remaining ∧
        s' = s.queue (saleJobs table f funds remaining) := by
  simp only [scheduleDisbursements, bind_eq_ok, saleFunds_eq_ok, Prod.exists, payFees_eq_ok,
    pure, Except.pure, Except.ok.injEq]
  constructor
  · rintro ⟨funds, hfunds, s₁, remaining, ⟨hfit, rfl, hsum⟩, rfl⟩
    exact ⟨funds, remaining, ⟨hfit, hfunds, hsum⟩, rfl⟩
  · rintro ⟨funds, remaining, ⟨hfit, hfunds, hsum⟩, rfl⟩
    exact ⟨funds, hfunds, _, remaining, ⟨hfit, rfl, hsum⟩, rfl⟩

@[simp] theorem length_saleJobs (table : FeeTable) (f : SettleFrame) (funds remaining : UInt64) :
    (saleJobs table f funds remaining).length = table.length + 1 := by
  simp [saleJobs]

/-- Every disbursement of a sale is paid from the payment subaccount. -/
theorem mem_saleJobs {table : FeeTable} {f : SettleFrame} {funds remaining : UInt64}
    {d : Disbursement} (h : d ∈ saleJobs table f funds remaining) :
    d.index = f.index ∧ d.bytes = f.transaction.bytes := by
  rcases List.mem_cons.1 h with rfl | h
  · exact ⟨rfl, rfl⟩
  · obtain ⟨e, -, rfl⟩ := List.mem_map.1 (List.mem_reverse.1 h)
    exact ⟨rfl, rfl⟩

/-- What executing a disbursement costs its subaccount: the amount and the ledger fee. -/
def cost (d : Disbursement) : ℕ := d.amount.toNat + 10000

theorem sum_cost_feeJobs {table : FeeTable} (f : SettleFrame) {funds : UInt64}
    (hfit : ∀ e ∈ table, funds.toNat * e.2.toNat < 2 ^ 64) :
    ((table.map (feeJob f funds)).map cost).sum =
      (table.map fun e => funds.toNat * e.2.toNat / 100000).sum + 10000 * table.length := by
  induction table with
  | nil => rfl
  | cons e table ih =>
      have hrest := ih fun e' he' => hfit e' (List.mem_cons_of_mem e he')
      simp only [List.map_cons, List.sum_cons, List.length_cons, hrest, cost,
        toNat_amount_feeJob (hfit e (List.mem_cons_self ..))]
      omega

/-- **The disbursements of a sale and their ledger fees add up to the balance.** -/
theorem sum_saleJobs {table : FeeTable} {balance funds remaining : UInt64} (f : SettleFrame)
    (h : IsSplit table balance funds remaining) :
    ((saleJobs table f funds remaining).map cost).sum = balance.toNat := by
  have hfees := sum_cost_feeJobs f h.fits
  have hfunds := h.funds_eq
  have hremaining := h.remaining_eq
  simp only [saleJobs, List.map_cons, List.sum_cons, List.map_reverse, List.sum_reverse, hfees,
    cost]
  omega

/-! ### A completed sale -/

/-- What a completed sale does to the state of the marketplace. -/
structure Sale (table : FeeTable) (s s' : Entrepot) (now : Time) (f : SettleFrame)
    (balance : UInt64) (jobs : List Disbursement) : Prop where
  listings : s'.listings = s.listings.delete f.index
  pendingTransactions : s'.pendingTransactions = s.pendingTransactions.delete f.index
  transactions : s'.transactions =
    s.transactions.put f.transaction.id { f.transaction with closed := some now }
  pendingDisbursements : s'.pendingDisbursements = jobs ++ s.pendingDisbursements
  nextTxId : s'.nextTxId = s.nextTxId
  nextSubAccount : s'.nextSubAccount = s.nextSubAccount
  pendingCount : s'.pendingCount = s.pendingCount
  usedPaymentAddresses : s'.usedPaymentAddresses = s.usedPaymentAddresses
  totalVolume : s'.totalVolume.toNat = s.totalVolume.toNat + f.transaction.price.toNat
  lowestPriceSale : s'.lowestPriceSale =
    if f.transaction.price < s.lowestPriceSale then f.transaction.price else s.lowestPriceSale
  highestPriceSale : s'.highestPriceSale =
    if s.highestPriceSale < f.transaction.price then f.transaction.price else s.highestPriceSale
  id_lt : f.transaction.id < 2 ^ 32
  jobs : ∃ funds remaining, IsSplit table balance funds remaining ∧
    jobs = saleJobs table f funds remaining

namespace Sale

variable {table : FeeTable} {s s' : Entrepot} {now : Time} {f : SettleFrame} {balance : UInt64}
  {jobs : List Disbursement}

theorem length_jobs (h : Sale table s s' now f balance jobs) : jobs.length = table.length + 1 := by
  obtain ⟨_, _, -, rfl⟩ := h.jobs
  exact length_saleJobs ..

theorem mem_jobs (h : Sale table s s' now f balance jobs) {d : Disbursement} (hd : d ∈ jobs) :
    d.index = f.index ∧ d.bytes = f.transaction.bytes := by
  obtain ⟨_, _, -, rfl⟩ := h.jobs
  exact mem_saleJobs hd

theorem sum_jobs (h : Sale table s s' now f balance jobs) :
    (jobs.map cost).sum = balance.toNat := by
  obtain ⟨_, _, hsplit, rfl⟩ := h.jobs
  exact sum_saleJobs f hsplit

end Sale

theorem countSale_eq_ok {s s' : Entrepot} {price : UInt64} :
    s.countSale price = .ok s' ↔ ∃ volume, volume.toNat = s.totalVolume.toNat + price.toNat ∧
      s' = { s with
        totalVolume := volume
        lowestPriceSale := if price < s.lowestPriceSale then price else s.lowestPriceSale
        highestPriceSale := if s.highestPriceSale < price then price else s.highestPriceSale } := by
  simp only [countSale, bind_eq_ok, orTrap_eq_ok, Checked.add_eq_some, pure, Except.pure,
    Except.ok.injEq]
  constructor
  · rintro ⟨volume, hv, rfl⟩
    exact ⟨volume, hv, rfl⟩
  · rintro ⟨volume, hv, rfl⟩
    exact ⟨volume, hv, rfl⟩

/-- **A settlement that completes is a sale**, and its ownership assertion has succeeded. -/
theorem sale_of_finalize {table : FeeTable} {s s' : Entrepot} {tokens tokens' : Tokens}
    {now : Time} {f : SettleFrame} {balance : UInt64}
    (h : finalize D table s tokens now f balance = .ok (s', tokens')) :
    ∃ jobs, Sale table s s' now f balance jobs ∧
      tokens.transfer D now f.index f.transaction.from' f.transaction.to' = .ok tokens' := by
  simp only [finalize, bind_eq_ok, pure, Except.pure, Except.ok.injEq, Prod.mk.injEq,
    scheduleDisbursements_eq_ok, countSale_eq_ok] at h
  obtain ⟨s₁, ⟨funds, remaining, hsplit, rfl⟩, s₂, hput, s₃, ⟨volume, hvolume, rfl⟩, _, ht, rfl,
    rfl⟩ := h
  unfold putTransaction at hput
  split at hput
  · rename_i hid
    rw [Except.ok.injEq] at hput
    subst hput
    exact ⟨_, ⟨rfl, rfl, rfl, rfl, rfl, rfl, rfl, rfl, hvolume, rfl, rfl, hid, funds, remaining,
      hsplit, rfl⟩, ht⟩
  · simp at hput

/-- **When a settlement completes**: the amounts split, the id is a key, the volume fits and the
seller owns the token. -/
theorem exists_finalize {table : FeeTable} {s : Entrepot} {tokens : Tokens} {now : Time}
    {f : SettleFrame} {balance : UInt64} {funds remaining : UInt64}
    (hsplit : IsSplit table balance funds remaining) (hid : f.transaction.id < 2 ^ 32)
    (hvolume : s.totalVolume.toNat + f.transaction.price.toNat < 2 ^ 64)
    (hown : tokens.Owns D f.transaction.from' f.index) :
    ∃ s' tokens', finalize D table s tokens now f balance = .ok (s', tokens') := by
  obtain ⟨tokens', ht⟩ :
      ∃ tokens', tokens.transfer D now f.index f.transaction.from' f.transaction.to' =
        .ok tokens' := Tokens.transfer_isOk_iff.2 hown
  have hv := Checked.toNat_ofNat hvolume
  simp only [finalize, bind_eq_ok, pure, Except.pure, Except.ok.injEq, Prod.mk.injEq,
    scheduleDisbursements_eq_ok, countSale_eq_ok]
  exact ⟨_, tokens', _, ⟨funds, remaining, hsplit, rfl⟩, _, if_pos hid, _, ⟨_, hv, rfl⟩, tokens',
    ht, rfl, rfl⟩

end Entrepot

end LegendsNft
