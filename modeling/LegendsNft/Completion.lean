/-
**When a paid transaction completes.**

`settle` compares the balance with the price only.  What follows subtracts the ledger fees of three
transfers and multiplies what is left by the share of each recipient, in 64-bit arithmetic that
traps; a balance below the fees underflows and a balance near the upper end overflows, whatever the
price.  A trap undoes the settlement, and nothing but another payment can change its outcome.

This module gives the exact range of balances for which the arithmetic goes through.

Main definitions:

* `LegendsNft.Completes` — when a settlement completes, in a world.

Main results:

* `LegendsNft.exists_isSplit_fees` — the range, for the fee table of the canister;
* `LegendsNft.completes_of_sale`, `LegendsNft.resume_of_completes` — it is exact;
* `LegendsNft.settle_completes_iff` — **a paid transaction completes exactly in that range**;
* `LegendsNft.settle_traps` — a run in which a paid transaction never completes.
-/

import LegendsNft.Discipline

set_option relaxedAutoImplicit false
set_option autoImplicit false

namespace LegendsNft

open Entrepot

variable {D : Deployment}

/-! ### The range of balances -/

/-- **The range of balances that split**: at least the fees of three transfers, and not so large
that the share of the first recipient overflows. -/
theorem exists_isSplit_fees {balance : UInt64} :
    (∃ funds remaining, IsSplit fees balance funds remaining) ↔
      30000 ≤ balance.toNat ∧ (balance.toNat - 30000) * 2000 < 2 ^ 64 := by
  have hlen : fees.length = 2 := rfl
  constructor
  · rintro ⟨funds, remaining, h⟩
    have hfunds := h.funds_eq
    have hfit := h.fits _ (List.mem_cons_self ..)
    have hpct : (2000 : UInt64).toNat = 2000 := rfl
    rw [hlen] at hfunds
    simp only [hpct] at hfit
    have heq : balance.toNat - 30000 = funds.toNat := by omega
    exact ⟨by omega, heq ▸ hfit⟩
  · -- the funds are what the fees of three transfers leave, and the larger share is the royalty
    rintro ⟨hlow, hhigh⟩
    have hlt := Checked.toNat_lt balance
    have hfunds : (UInt64.ofNat (balance.toNat - 30000)).toNat = balance.toNat - 30000 :=
      Checked.toNat_ofNat (by omega)
    have hfit : ∀ e ∈ fees, (UInt64.ofNat (balance.toNat - 30000)).toNat * e.2.toNat < 2 ^ 64 := by
      intro e he
      have hpct : e.2.toNat ≤ 2000 := by
        simp only [fees, List.mem_cons, List.not_mem_nil, or_false] at he
        rcases he with rfl | rfl <;> decide
      rw [hfunds]
      exact lt_of_le_of_lt (Nat.mul_le_mul_left _ hpct) hhigh
    have hshares := Checked.sum_shares_le (UInt64.ofNat (balance.toNat - 30000)).toNat
      (by omega : 0 < 100000) (by decide : (fees.map fun e => e.2.toNat).sum ≤ 100000)
    rw [List.map_map] at hshares
    refine ⟨_, UInt64.ofNat ((UInt64.ofNat (balance.toNat - 30000)).toNat -
      (fees.map fun e => (UInt64.ofNat (balance.toNat - 30000)).toNat * e.2.toNat / 100000).sum),
      hfit, ?_, ?_⟩
    · rw [hlen, hfunds]
      omega
    · rw [Checked.toNat_ofNat (by omega)]
      exact Nat.sub_add_cancel hshares

/-! ### The traps -/

/-- The fee loop fails by overflow or underflow only. -/
theorem payFees_eq_error {index : TokenIndex} {bytes : SubAccount} {funds remaining : UInt64}
    {table : FeeTable} {s : Entrepot} {e : Trap}
    (h : payFees index bytes funds s remaining table = .error e) : e = .overflow := by
  induction table generalizing s remaining with
  | nil => simp [payFees] at h
  | cons entry table ih =>
      rw [payFees, bind_eq_error] at h
      rcases h with h | ⟨product, -, h⟩
      · exact (orTrap_eq_error.1 h).2.symm
      · rcases bind_eq_error.1 h with h | ⟨rest, -, h⟩
        · exact (orTrap_eq_error.1 h).2.symm
        · exact ih h

/-- The disbursements fail by overflow or underflow only. -/
theorem scheduleDisbursements_eq_error {s : Entrepot} {f : SettleFrame} {balance : UInt64}
    {e : Trap} (h : scheduleDisbursements fees s f balance = .error e) : e = .overflow := by
  have hsize : orTrap .losesPrecision (Checked.ofNat fees.length) = .ok 2 := rfl
  rw [scheduleDisbursements, bind_eq_error] at h
  rcases h with h | ⟨funds, -, h⟩
  · rw [saleFunds, hsize] at h
    rcases bind_eq_error.1 h with h | ⟨size, -, h⟩
    · simp at h
    · rcases bind_eq_error.1 h with h | ⟨transfers, -, h⟩
      · exact (orTrap_eq_error.1 h).2.symm
      · rcases bind_eq_error.1 h with h | ⟨ledgerFees, -, h⟩
        · exact (orTrap_eq_error.1 h).2.symm
        · exact (orTrap_eq_error.1 h).2.symm
  · rcases bind_eq_error.1 h with h | ⟨r, -, h⟩
    · exact payFees_eq_error h
    · simp [pure, Except.pure] at h

/-- A token transfer does not fail by overflow. -/
theorem transfer_ne_overflow {t : Tokens} {now : Time} {i : TokenIndex}
    {a b : AccountIdentifier} : t.transfer D now i a b ≠ .error .overflow := by
  intro h
  unfold Tokens.transfer at h
  have hget : ∀ e, t.getOwner i.toNat = .error e → e = .outOfBounds := by
    intro e he
    unfold Tokens.getOwner at he
    split at he <;> simp_all
  cases ho : t.isOwner D a i with
  | error e =>
      simp only [ho, Except.error.injEq] at h
      subst h
      unfold Tokens.isOwner at ho
      split at ho
      · rename_i e he
        cases ho
        simpa using hget _ he
      · simp at ho
      · simp at ho
  | ok b =>
      cases b with
      | false => simp [ho] at h
      | true =>
          simp only [ho] at h
          split at h
          · rename_i e he
            cases h
            simpa using hget _ he
          · simp at h

/-- A balance that does not split makes the settlement trap. -/
theorem finalize_of_not_isSplit {s : Entrepot} {tokens : Tokens} {now : Time} {f : SettleFrame}
    {balance : UInt64} (h : ¬ ∃ funds remaining, IsSplit fees balance funds remaining) :
    finalize D fees s tokens now f balance = .error .overflow := by
  rw [finalize, bind_eq_error]
  left
  cases hs : scheduleDisbursements fees s f balance with
  | error e => rw [scheduleDisbursements_eq_error hs]
  | ok s' =>
      obtain ⟨funds, remaining, hsplit, -⟩ := scheduleDisbursements_eq_ok.1 hs
      exact absurd ⟨funds, remaining, hsplit⟩ h

/-- A balance that splits leaves nothing to overflow but the volume. -/
theorem finalize_ne_overflow {s : Entrepot} {tokens : Tokens} {now : Time} {f : SettleFrame}
    {balance : UInt64} (h : ∃ funds remaining, IsSplit fees balance funds remaining)
    (hvolume : s.totalVolume.toNat + f.transaction.price.toNat < 2 ^ 64) :
    finalize D fees s tokens now f balance ≠ .error .overflow := by
  obtain ⟨funds, remaining, hsplit⟩ := h
  -- step by step through `finalize`: only the volume could overflow, and it fits
  intro hf
  rw [finalize, scheduleDisbursements_eq_ok.2 ⟨funds, remaining, hsplit, rfl⟩] at hf
  rcases bind_eq_error.1 hf with hf | ⟨_, hs, hf⟩
  · simp at hf
  cases hs
  rcases bind_eq_error.1 hf with hf | ⟨s₂, hput, hf⟩
  · unfold putTransaction at hf
    split at hf <;> simp at hf
  have hvol : s₂.totalVolume = s.totalVolume := by
    unfold putTransaction at hput
    split at hput
    · cases hput
      rfl
    · simp at hput
  rcases bind_eq_error.1 hf with hf | ⟨s₃, -, hf⟩
  · unfold countSale at hf
    rcases bind_eq_error.1 hf with hf | ⟨_, -, hf⟩
    · have hnone := (orTrap_eq_error.1 hf).1
      rw [Checked.add_eq_none] at hnone
      simp only [hvol] at hnone
      omega
    · simp [pure, Except.pure] at hf
  rcases bind_eq_error.1 hf with hf | ⟨_, -, hf⟩
  · exact transfer_ne_overflow hf
  · simp [pure, Except.pure] at hf

/-! ### The settlement -/

/-- Past the comparison with the price, a settlement is its finalization. -/
theorem settleResume_of_paid {s : Entrepot} {tokens : Tokens} {now : Time} {f : SettleFrame}
    {balance : UInt64} (hpaid : f.transaction.price ≤ balance) :
    settleResume D s tokens now f balance =
      match finalize D fees s tokens now f balance with
      | .error e => .error e
      | .ok (s', tokens') => .ok (s', tokens', .await ()) := by
  unfold settleResume
  exact if_neg (UInt64.not_lt.2 hpaid)

theorem settleResume_eq_error {s : Entrepot} {tokens : Tokens} {now : Time} {f : SettleFrame}
    {balance : UInt64} {e : Trap} (hpaid : f.transaction.price ≤ balance) :
    settleResume D s tokens now f balance = .error e ↔
      finalize D fees s tokens now f balance = .error e := by
  rw [settleResume_of_paid hpaid]
  cases finalize D fees s tokens now f balance <;> simp

theorem settleResume_eq_await {s s' : Entrepot} {tokens tokens' : Tokens} {now : Time}
    {f : SettleFrame} {balance : UInt64} (hpaid : f.transaction.price ≤ balance) :
    settleResume D s tokens now f balance = .ok (s', tokens', .await ()) ↔
      finalize D fees s tokens now f balance = .ok (s', tokens') := by
  rw [settleResume_of_paid hpaid]
  cases finalize D fees s tokens now f balance <;> simp [Prod.ext_iff]

/-- A settlement of this balance completes: it pays the price, it splits, the id is a key, the
volume does not overflow and the seller owns the token. -/
def Completes (D : Deployment) (w : World) (f : SettleFrame) (b : UInt64) : Prop :=
  f.transaction.price ≤ b ∧ (30000 ≤ b.toNat ∧ (b.toNat - 30000) * 2000 < 2 ^ 64) ∧
    f.transaction.id < 2 ^ 32 ∧
    w.entrepot.totalVolume.toNat + f.transaction.price.toNat < 2 ^ 64 ∧
    w.tokens.Owns D f.transaction.from' f.index

instance (w : World) (f : SettleFrame) (b : UInt64) : Decidable (Completes D w f b) :=
  inferInstanceAs (Decidable (_ ∧ (_ ∧ _) ∧ _ ∧ _ ∧ _))

theorem completes_of_sale {w : World} {s : Entrepot} {f : SettleFrame} {b : UInt64}
    {jobs : List Disbursement} (hpaid : f.transaction.price ≤ b)
    (hown : w.tokens.Owns D f.transaction.from' f.index)
    (hsale : Sale fees w.entrepot s w.now f b jobs) : Completes D w f b := by
  obtain ⟨funds, remaining, hsplit, -⟩ := hsale.jobs
  refine ⟨hpaid, exists_isSplit_fees.1 ⟨funds, remaining, hsplit⟩, hsale.id_lt, ?_, hown⟩
  rw [← hsale.totalVolume]
  exact Checked.toNat_lt _

/-- A settlement that completes makes its sale when it is resumed. -/
theorem resume_of_completes {w : World} {f : SettleFrame} {b : UInt64} (k : SettleWaiter)
    (h : Completes D w f b) : ∃ s tokens jobs, Sale fees w.entrepot s w.now f b jobs ∧
      resume D w (.reported f b k) .run =
        some ⟨(w.setEntrepot s).setTokens tokens, [.insert k], [.finalized f b jobs]⟩ := by
  obtain ⟨hpaid, hrange, hid, hvolume, hown⟩ := h
  obtain ⟨funds, remaining, hsplit⟩ := exists_isSplit_fees.2 hrange
  obtain ⟨s, tokens, hfin⟩ :
      ∃ s tokens, finalize D fees w.entrepot w.tokens w.now f b = .ok (s, tokens) :=
    exists_finalize hsplit hid hvolume hown
  obtain ⟨jobs, hsale, -⟩ := sale_of_finalize hfin
  refine ⟨s, tokens, jobs, hsale, ?_⟩
  simp only [resume, (settleResume_eq_await hpaid).2 hfin, queuedJobs_eq hsale]

/-- A settlement that is paid and does not complete traps. -/
theorem resume_of_not_completes {w : World} {f : SettleFrame} {b : UInt64} {k : SettleWaiter}
    (hpaid : f.transaction.price ≤ b) (h : ¬ Completes D w f b) :
    resume D w (.reported f b k) .run = some w.idle := by
  cases hfin : finalize D fees w.entrepot w.tokens w.now f b with
  | error e => simp only [resume, (settleResume_eq_error hpaid).2 hfin]
  | ok st =>
      obtain ⟨jobs, hsale, ht⟩ := sale_of_finalize hfin
      exact absurd (completes_of_sale hpaid (Tokens.transfer_isOk_iff.1 ⟨_, ht⟩) hsale) h

/-- **A paid transaction completes exactly when its balance pays the ledger fees and its shares do
not overflow.**  The arithmetic of the settlement goes through in that range only; and where the
seller still owns the token, the sale is made. -/
theorem settle_completes_iff {s : Entrepot} {tokens : Tokens} {now : Time} {f : SettleFrame}
    {balance : UInt64} (hpaid : f.transaction.price ≤ balance)
    (hvolume : s.totalVolume.toNat + f.transaction.price.toNat < 2 ^ 64) :
    (settleResume D s tokens now f balance ≠ .error .overflow ↔
      30000 ≤ balance.toNat ∧ (balance.toNat - 30000) * 2000 < 2 ^ 64) ∧
    (f.transaction.id < 2 ^ 32 → tokens.Owns D f.transaction.from' f.index →
      ((∃ s' tokens', settleResume D s tokens now f balance = .ok (s', tokens', .await ())) ↔
        30000 ≤ balance.toNat ∧ (balance.toNat - 30000) * 2000 < 2 ^ 64)) := by
  simp only [← exists_isSplit_fees, ne_eq, settleResume_eq_error hpaid, settleResume_eq_await hpaid]
  constructor
  · constructor
    · intro h
      by_contra hsplit
      exact h (finalize_of_not_isSplit hsplit)
    · exact fun hsplit => finalize_ne_overflow hsplit hvolume
  · intro hid hown
    constructor
    · rintro ⟨s', tokens', h⟩
      by_contra hsplit
      rw [finalize_of_not_isSplit hsplit] at h
      simp at h
    · rintro ⟨funds, remaining, hsplit⟩
      exact exists_finalize hsplit hid hvolume hown

/-- The sale of the first lock, paid with its price. -/
theorem settle_completes_iff_sample : ∃ c, sampleRun Choice.paidLock = some c ∧
    ∃ s' tokens', settleResume .sample c.state.entrepot c.state.tokens c.state.now
      ⟨0, firstTransaction⟩ 40000 = .ok (s', tokens', .await ()) := by
  obtain ⟨c, hc, hvolume, hown⟩ := (by decide : ∃ c ∈ sampleRun Choice.paidLock,
    c.state.entrepot.totalVolume.toNat + firstTransaction.price.toNat < 2 ^ 64 ∧
      c.state.tokens.Owns .sample firstTransaction.from' 0)
  exact ⟨c, hc, ((settle_completes_iff (by decide) hvolume).2 (by decide) hown).2 (by decide)⟩

/-- A listing at a price below the ledger fees, locked and paid. -/
def cheapSale : List Choice :=
  Choice.mint ⟨[1]⟩ ++ Choice.list ⟨[1]⟩ 1 ++ Choice.lock 1 "C" ++ Choice.pay 1 1 ++ Choice.settle

/-- **A paid transaction can trap**: `list` and `lock` accept a price of one unit, the buyer pays
it, and the subtraction of the ledger fees underflows. -/
theorem settle_traps : ∃ c, sampleRun cheapSale = some c ∧
    c.state.entrepot.pendingTransactions.get 0 = some { firstTransaction with price := 1 } ∧
    (⟨0, { firstTransaction with price := 1 }⟩, 1) ∈ c.pool.filterMap Task.reply ∧
    settleResume .sample c.state.entrepot c.state.tokens c.state.now
      ⟨0, { firstTransaction with price := 1 }⟩ 1 = .error .overflow := by
  obtain ⟨c, hc, hpend, hpool⟩ := (by decide : ∃ c ∈ sampleRun cheapSale,
    c.state.entrepot.pendingTransactions.get 0 = some { firstTransaction with price := 1 } ∧
      (⟨0, { firstTransaction with price := 1 }⟩, 1) ∈ c.pool.filterMap Task.reply)
  refine ⟨c, hc, hpend, hpool, (settleResume_eq_error (by decide)).2 (finalize_of_not_isSplit ?_)⟩
  rw [exists_isSplit_fees]
  decide

end LegendsNft
