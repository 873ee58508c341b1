/-
**What everybody is paid.**

A sale divides its proceeds, the balance it was given less one ledger fee for each transfer: every
entry of the fee table gets its part, rounded down, and the seller gets the rest.  The code does not
keep this as an account of anybody; it queues jobs, submits them in runs that overlap, and forgets
them.  Still the account can be read off the history: of what the sales owe an account, what has not
been paid to it is queued, held, dropped or deleted, whatever the order of the calls and whatever
the ledger answers.

Main definitions:

* `LegendsNft.payTo` — what jobs pay to an account;
* `LegendsNft.entitlement` — what a sale owes an account.

Main results:

* `LegendsNft.payTo_saleJobs` — the jobs of a sale pay what it owes;
* `LegendsNft.Interface.royalties_paid` — **what everybody is paid**, in every run of the whole
  canister.
-/

import LegendsNft.Solvency

set_option relaxedAutoImplicit false
set_option autoImplicit false

namespace LegendsNft

open Entrepot

/-! ### What jobs pay -/

/-- What jobs pay to an account. -/
def payTo (a : AccountIdentifier) (jobs : Multiset Disbursement) : ℕ :=
  ((jobs.filter fun d => d.address = a).map fun d => d.amount.toNat).sum

section PayTo

variable {a : AccountIdentifier}

theorem payTo_add (jobs jobs' : Multiset Disbursement) :
    payTo a (jobs + jobs') = payTo a jobs + payTo a jobs' := by
  rw [payTo, Multiset.filter_add, Multiset.map_add, Multiset.sum_add]
  rfl

theorem payTo_cons (d : Disbursement) (jobs : Multiset Disbursement) :
    payTo a (d ::ₘ jobs) = (if d.address = a then d.amount.toNat else 0) + payTo a jobs := by
  rw [payTo, Multiset.filter_cons]
  split
  · rw [Multiset.singleton_add, Multiset.map_cons, Multiset.sum_cons]
    rfl
  · rw [Multiset.zero_add, Nat.zero_add]
    rfl

/-- What is queued by sales pays what each of them pays. -/
theorem payTo_pushed (h : List Event) :
    payTo a (pushed h) = ((settlements h).map fun s => payTo a s.jobs).sum := by
  rw [pushed]
  induction settlements h with
  | nil => rfl
  | cons s rest ih =>
      rw [List.flatMap_cons, ← Multiset.coe_add, payTo_add, ih, List.map_cons, List.sum_cons]

end PayTo

/-! ### What a sale owes -/

/-- What a sale has to share: the balance, less the ledger fee of each transfer. -/
def Settlement.proceeds (s : Settlement) : ℕ := s.balance.toNat - 10000 * (1 + fees.length)

/-- The part of an entry of the fee table, rounded down. -/
def Settlement.royalty (s : Settlement) (e : AccountIdentifier × UInt64) : ℕ :=
  s.proceeds * e.2.toNat / 100000

/-- **What a sale owes an account**: its parts, and the rest if it is the seller's. -/
def entitlement (a : AccountIdentifier) (s : Settlement) : ℕ :=
  ((fees.filter fun e => e.1 = a).map s.royalty).sum +
    if s.transaction.from' = a then s.proceeds - (fees.map s.royalty).sum else 0

/-- The fee jobs of a sale pay the parts of the table. -/
theorem payTo_feeJobs {a : AccountIdentifier} (f : SettleFrame) {funds : UInt64} {table : FeeTable}
    (hfit : ∀ e ∈ table, funds.toNat * e.2.toNat < 2 ^ 64) :
    payTo a (table.map (feeJob f funds) : List Disbursement) =
      ((table.filter fun e => e.1 = a).map fun e => funds.toNat * e.2.toNat / 100000).sum := by
  induction table with
  | nil => rfl
  | cons e table ih =>
      rw [List.map_cons, ← Multiset.cons_coe, payTo_cons,
        toNat_amount_feeJob (hfit e (List.mem_cons_self ..)),
        ih fun e' he' => hfit e' (List.mem_cons_of_mem e he'), List.filter_cons]
      by_cases ha : e.1 = a
      · rw [if_pos (decide_eq_true ha), if_pos (show (feeJob f funds e).address = a from ha)]
        rfl
      · rw [if_neg (show ¬ (feeJob f funds e).address = a from ha), Nat.zero_add,
          if_neg (by simpa using ha)]

/-- **The jobs of a sale pay what it owes.** -/
theorem payTo_saleJobs (a : AccountIdentifier) {s : Settlement} {funds remaining : UInt64}
    (hsplit : IsSplit fees s.balance funds remaining)
    (hjobs : s.jobs = saleJobs fees s.frame funds remaining) :
    payTo a s.jobs = entitlement a s := by
  have hproceeds : s.proceeds = funds.toNat :=
    Nat.sub_eq_of_eq_add hsplit.funds_eq.symm
  have hroyalty : s.royalty = fun e => funds.toNat * e.2.toNat / 100000 := by
    funext e
    rw [Settlement.royalty, hproceeds]
  have hrest : remaining.toNat = s.proceeds - (fees.map s.royalty).sum := by
    rw [hproceeds, hroyalty]
    exact (Nat.sub_eq_of_eq_add hsplit.remaining_eq.symm).symm
  rw [hjobs, saleJobs, ← Multiset.cons_coe, payTo_cons, Multiset.coe_reverse,
    payTo_feeJobs s.frame hsplit.fits, entitlement, hroyalty, Nat.add_comm, ← hroyalty, ← hrest]
  rfl

namespace Interface

variable {H : Collection.Host} {c₀ c : Config}

/-- **What everybody is paid.**  In every run of the whole canister in which no admin restores the
marketplace, whatever the ledger answers and upgrades between two runs of the queue included: what
the sales owe an account is what the ledger has acknowledged to have paid it, together with what is
still queued or held for it, and with what has been dropped or deleted. -/
theorem royalties_paid (hc₀ : Initial c₀)
    (h : Actor.Run (program H) (unrestored H betweenRuns) c₀ c)
    (hbound : c.state.world.entrepot.nextSubAccount < counterBound) (a : AccountIdentifier) :
    ((settlements (market c).history).map (entitlement a)).sum =
      payTo a (acknowledged (market c).history) + payTo a (jobsLeft (market c)) +
        payTo a (jobsLost (market c)) := by
  have hB := books_of_run (fun _ _ hg => hg) hc₀ h hbound
  have hsales : (settlements (market c).history).map (entitlement a) =
      (settlements (market c).history).map fun s => payTo a s.jobs := by
    refine List.map_congr_left fun s hs => ?_
    obtain ⟨funds, remaining, hsplit, hjobs⟩ := hB.sales s hs
    exact (payTo_saleJobs a hsplit hjobs).symm
  have haccount : (pushed (market c).history : Multiset Disbursement) = jobsLeft (market c) +
      (acknowledged (market c).history + dropped (market c).history +
        LegendsNft.deleted (market c).history) := hB.account
  rw [hsales, ← payTo_pushed, haccount, jobsLost]
  simp only [payTo_add]
  omega

/-- Of a sale of four ledger fees, the first account of the table is owed a fiftieth of what the
fees leave, and is paid it. -/
theorem royalties_paid_sample : ∃ c, (program .sample).exec Config.sample drainedSale = some c ∧
    ((settlements (market c).history).map
      (entitlement "ea6e340b18837860b1d9f353af06d459af55c74d97ef3ac024c2a42778e3e030")).sum = 200 ∧
    payTo "ea6e340b18837860b1d9f353af06d459af55c74d97ef3ac024c2a42778e3e030"
      (acknowledged (market c).history) = 200 := by
  obtain ⟨c, hc, hallow, hbound, hpaid, hqueue, hpool, hlost⟩ := (by decide :
    ∃ c ∈ (program .sample).exec Config.sample drainedSale,
      (unrestored .sample betweenRuns).AllowsAll (program .sample) Config.sample drainedSale ∧
      c.state.world.entrepot.nextSubAccount < 4 ∧
      payTo "ea6e340b18837860b1d9f353af06d459af55c74d97ef3ac024c2a42778e3e030"
        (acknowledged (market c).history) = 200 ∧
      c.state.world.entrepot.pendingDisbursements = [] ∧ (market c).pool.length = 0 ∧
      dropped (market c).history ++ LegendsNft.deleted (market c).history = [])
  have haccount := royalties_paid Config.initial_sample (Actor.run_of_exec hallow hc) (by
    unfold counterBound
    omega) "ea6e340b18837860b1d9f353af06d459af55c74d97ef3ac024c2a42778e3e030"
  have hleft : jobsLeft (market c) = 0 := by
    rw [jobsLeft, List.length_eq_zero_iff.1 hpool]
    exact congrArg (fun jobs : List Disbursement => (jobs : Multiset Disbursement) + 0) hqueue
  have hnone : jobsLost (market c) = 0 := by
    rw [jobsLost, Multiset.coe_add, hlost, Multiset.coe_nil]
  rw [hleft, hnone, hpaid] at haccount
  exact ⟨c, hc, haccount, hpaid⟩

end Interface

end LegendsNft
