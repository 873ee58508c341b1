/-
**The books of the whole canister.**

What the invariants of the market say of one configuration: where its listings and transactions come
from, that every payment subaccount has been taken once, and where the jobs are that have ever been
pushed.  Together they are kept by every move, by every upgrade between two runs of the queue and by
every method outside the market, so that they hold in every run of the whole canister in which no
admin restores the marketplace.

From them follows where the money of the canister goes.  A payment subaccount is debited for jobs of
a sale that it was taken for, each of them executed once, and these pay its seller and the accounts
of the fee table; the account of the canister itself is debited for what an admin withdraws, and for
nothing else.

Main definitions:

* `LegendsNft.Bookkeeping` — the invariant of the state, the history and the pool.

Main results:

* `LegendsNft.Bookkeeping.move`, `LegendsNft.Bookkeeping.upgrade` — one step of the market;
* `LegendsNft.Interface.books_of_run` — **the books of every run of the whole canister**;
* `LegendsNft.Interface.exists_withdrawer` — a withdrawal is submitted by a call of an admin;
* `LegendsNft.Interface.funds_segregated` — **where the money of the canister goes**.
-/

import LegendsNft.Drain
import LegendsNft.PaymentAccounts
import LegendsNft.Whole

set_option relaxedAutoImplicit false
set_option autoImplicit false

namespace LegendsNft

open Entrepot

variable {D : Deployment}

/-! ### The invariant -/

/-- What the books of the market say of a configuration. -/
structure Bookkeeping (D : Deployment) (w : World) (h : List Event) (m : Multiset Task) : Prop where
  provenance : Provenance D w h
  sourced : ∀ k ∈ m, Sourced h k
  subaccounts : Subaccounts w h m
  counted : Counted w m
  account : (pushed h : Multiset Disbursement) = jobAccount.total w h m
  sales : ∀ s ∈ settlements h, ∃ funds remaining, IsSplit fees s.balance funds remaining ∧
    s.jobs = saleJobs fees s.frame funds remaining
  dated : ∀ x ∈ created h, x.transaction.initiated ≤ w.now
  entries : ∀ id t, w.entrepot.transactions.get id = some t → ∃ s ∈ settlements h,
    s.transaction.id = id ∧ ∃ time, t = { s.transaction with closed := some time } ∧
      s.transaction.initiated ≤ time ∧ time ≤ w.now

namespace Bookkeeping

section Step

variable {d : Config} {src : Source} {m : Multiset Task} {o : Step}

/-- A move keeps the books, as long as the counter of subaccounts has not grown too large. -/
theorem move (hB : Bookkeeping D d.state d.history (Actor.Source.task src + m))
    (hlt : o.state.entrepot.nextSubAccount < counterBound) (hm : Move D d.state src o) :
    Bookkeeping D o.state (o.events ++ d.history) (m + o.spawned) := by
  have hsrc : ∀ k ∈ Actor.Source.task src, Sourced d.history k :=
    fun k hk => hB.sourced k (Multiset.mem_add.2 (Or.inl hk))
  have hcount : ∀ k ∈ Actor.Source.task src, k.run ≠ none →
      d.state.entrepot.pendingCount ≠ 0 :=
    fun k hk => hB.counted.pendingCount_ne_zero (Multiset.mem_add.2 (Or.inl hk))
  have hbalance := hm.balance hcount
  constructor
  · exact ⟨fun _ _ => hB.provenance.listing_step hm, fun _ => hB.provenance.lock_step hm,
      fun _ => hB.provenance.creation_step hm hsrc, fun _ _ => hB.provenance.pending_step hm,
      fun _ _ _ => hB.provenance.sale_step hm hsrc⟩
  · intro k hk
    rcases Multiset.mem_add.1 hk with hk | hk
    · exact (hB.sourced k (Multiset.mem_add.2 (Or.inr hk))).append _
    · exact Sourced.spawned hB.provenance hm hsrc (by simpa using hk)
  · refine hB.subaccounts.step (fun _ => ?_) hm
    unfold counterBound at hlt
    omega
  · exact hbalance.counted hB.counted
  · -- what the segment pushes is what it adds to the account
    have htotal := Actor.Account.Balanced.total_eq (A := jobAccount) hbalance.jobs m d.history
    rw [← htotal, ← hB.account, pushed_append, ← Multiset.coe_add, Multiset.add_comm]
    rfl
  · intro s hs
    rcases hm.sale_cases d.history with
      ⟨-, hset⟩ | ⟨f, b, k, s', tokens, jobs, rfl, -, -, hsale, rfl⟩
    · rw [hset] at hs
      exact hB.sales s hs
    · rcases List.mem_cons.1 hs with rfl | hs
      · exact hsale.jobs
      · exact hB.sales s hs
  · intro x hx
    rcases hm.life with hq | ⟨f, t, rfl, rfl, rfl⟩ | ⟨f, b, k, r, rfl, -, rfl⟩ |
      ⟨f, b, k, s, tokens, jobs, rfl, -, -, -, rfl⟩
    · rw [hq.created_append] at hx
      exact le_trans (hB.dated x hx) hm.now_le
    · rcases List.mem_cons.1 hx with rfl | hx
      · exact le_refl _
      · exact hB.dated x hx
    · exact hB.dated x hx
    · exact hB.dated x hx
  · intro id t ht
    rcases hm.sale_cases d.history with
      ⟨hsame, hset⟩ | ⟨f, b, k, s', tokens, jobs, rfl, -, -, hsale, rfl⟩
    · rw [hsame.transactions] at ht
      rw [hset]
      obtain ⟨s, hs, hid, time, htime, hle, hnow⟩ := hB.entries id t ht
      exact ⟨s, hs, hid, time, htime, hle, le_trans hnow hm.now_le⟩
    · rw [World.entrepot_setTokens, World.entrepot_setEntrepot, hsale.transactions] at ht
      rcases Table.get_of_get_put ht with ⟨rfl, rfl⟩ | ⟨-, ht⟩
      · -- a sale is closed now, and its transaction was created before
        obtain ⟨e, he⟩ := (hsrc _ (Multiset.mem_singleton_self _)).held f rfl
        exact ⟨⟨f, b, jobs⟩, List.mem_cons_self .., rfl, d.state.now, rfl,
          hB.dated _ (mem_created.2 he), le_refl _⟩
      · obtain ⟨s, hs, hid⟩ := hB.entries id t ht
        exact ⟨s, List.mem_cons_of_mem _ hs, hid⟩

end Step

section Upgrade

variable {w : World} {h : List Event} {m : Multiset Task}

/-- An upgrade keeps the books, when no run of the queue is suspended. -/
theorem upgrade (hB : Bookkeeping D w h m) (hruns : ∀ k ∈ m, k.run = none) {canister : Canister}
    {supply : UInt16} (hup : w.canister.upgrade supply = .ok canister) :
    Bookkeeping D { w with canister := canister } (.upgraded :: h) 0 := by
  obtain ⟨hqueue, hcount⟩ := Canister.pendingDisbursements_upgrade hup
  have hheld : heldJobs m = 0 := by rw [heldJobs, runs_eq_zero hruns, Multiset.zero_bind]
  have haccount := hB.account
  refine ⟨hB.provenance.upgrade hup, fun _ hk => absurd hk (Multiset.notMem_zero _),
    hB.subaccounts.upgrade hup, hcount, ?_, hB.sales, hB.dated, fun id t ht =>
      hB.entries id t ((Canister.get_transactions_upgrade hup id).symm.trans ht)⟩
  rw [Actor.Account.total] at haccount ⊢
  have hstate : jobAccount.state { w with canister := canister } = jobAccount.state w :=
    congrArg (fun jobs : List Disbursement => (jobs : Multiset Disbursement)) hqueue
  have htasks : jobAccount.tasks m = jobAccount.tasks 0 := hheld
  rw [hstate, ← htasks]
  exact haccount

/-- The books of the fresh canister are empty. -/
theorem initial {c : Config} (hc : Initial c) : Bookkeeping D c.state c.history c.pool := by
  have hprov := hc.provenance (D := D)
  have hqueue : c.state.entrepot.pendingDisbursements = [] := by
    rw [hc.entrepot]
    rfl
  have hcount : c.state.entrepot.pendingCount = 0 := by
    rw [hc.entrepot]
    rfl
  refine ⟨hprov, ?_, ?_, ?_, ?_, ?_, ?_, ?_⟩
  · rw [hc.2.1]
    exact fun _ hk => absurd hk (Multiset.notMem_zero _)
  · rw [hc.2.1, hc.2.2]
    exact ⟨List.nodup_nil, by simp [taken], le_refl _⟩
  · rw [hc.2.1]
    exact hcount
  · rw [hc.2.1, hc.2.2]
    exact (congrArg (fun jobs : List Disbursement => (jobs : Multiset Disbursement) + 0 + 0)
      hqueue).symm
  · rw [hc.2.2]
    exact fun _ hs => absurd hs List.not_mem_nil
  · rw [hc.2.2]
    exact fun _ hx => absurd hx List.not_mem_nil
  · intro id t ht
    have hnone : c.state.entrepot.transactions.get id = none := by
      rw [hc.entrepot]
      rfl
    rw [hnone] at ht
    cases ht

end Upgrade

/-! ### What the books say of a job -/

section Jobs

variable {w : World} {h : List Event} {m : Multiset Task}

/-- A transaction that has been created has a payment subaccount that was taken for it. -/
theorem taken_of_locked (hB : Bookkeeping D w h m) {i : TokenIndex} {t : Transaction} {e : Time}
    (ht : .locked i t e ∈ h) : t.bytes ∈ taken h := by
  have hpaid : t.bytes ∈ paid h := List.mem_map.2 ⟨⟨i, t, e⟩, mem_created.2 ht, rfl⟩
  refine Multiset.mem_coe.1 (Multiset.mem_of_le hB.subaccounts.once ?_)
  exact Multiset.mem_add.2 (Or.inl (Multiset.mem_coe.2 hpaid))

/-- A payment subaccount is not the default one. -/
theorem ne_default (hB : Bookkeeping D w h m)
    (hlt : w.entrepot.nextSubAccount < counterBound) {b : SubAccount} (hb : b ∈ taken h) :
    b ≠ defaultSubAccount := by
  obtain ⟨n, hn, rfl⟩ := hB.subaccounts.issued b hb
  exact natToSubAccount_ne_default (by omega)

/-- The payment subaccount determines the creation. -/
theorem creation_eq (hB : Bookkeeping D w h m) {i i' : TokenIndex} {t t' : Transaction}
    {e e' : Time} (ht : .locked i t e ∈ h) (ht' : .locked i' t' e' ∈ h)
    (hbytes : t.bytes = t'.bytes) : (⟨i, t, e⟩ : Creation) = ⟨i', t', e'⟩ :=
  List.inj_on_of_nodup_map hB.subaccounts.nodup_paid (mem_created.2 ht) (mem_created.2 ht') hbytes

/-- The payment subaccount determines the transaction. -/
theorem eq_of_bytes (hB : Bookkeeping D w h m) {i i' : TokenIndex} {t t' : Transaction}
    {e e' : Time} (ht : .locked i t e ∈ h) (ht' : .locked i' t' e' ∈ h)
    (hbytes : t.bytes = t'.bytes) : t = t' :=
  congrArg Creation.transaction (hB.creation_eq ht ht' hbytes)

/-- A job that is queued or held has been pushed by a sale. -/
theorem exists_sale (hB : Bookkeeping D w h m) {d : Disbursement}
    (hd : d ∈ (w.entrepot.pendingDisbursements : Multiset Disbursement) + heldJobs m) :
    ∃ s ∈ settlements h, d ∈ s.jobs := by
  have hpushed : d ∈ (pushed h : Multiset Disbursement) := by
    rw [hB.account]
    exact Multiset.mem_add.2 (Or.inl hd)
  exact List.mem_flatMap.1 (Multiset.mem_coe.1 hpushed)

/-- A job of a sale is paid from the subaccount of its transaction, to its seller or to an account
of the fee table. -/
theorem mem_jobs (hB : Bookkeeping D w h m) {s : Settlement} (hs : s ∈ settlements h)
    {d : Disbursement} (hd : d ∈ s.jobs) : d.bytes = s.transaction.bytes ∧
      (d.address = s.transaction.from' ∨ d.address ∈ fees.map Prod.fst) := by
  obtain ⟨funds, remaining, -, hjobs⟩ := hB.sales s hs
  rw [hjobs] at hd
  refine ⟨(mem_saleJobs hd).2, ?_⟩
  rcases List.mem_cons.1 hd with rfl | hd
  · exact Or.inl rfl
  · obtain ⟨e, he, rfl⟩ := List.mem_map.1 (List.mem_reverse.1 hd)
    exact Or.inr (List.mem_map_of_mem he)

/-- No job is paid from the default subaccount. -/
theorem bytes_ne_default (hB : Bookkeeping D w h m)
    (hlt : w.entrepot.nextSubAccount < counterBound) {d : Disbursement}
    (hd : d ∈ (w.entrepot.pendingDisbursements : Multiset Disbursement) + heldJobs m) :
    d.bytes ≠ defaultSubAccount := by
  obtain ⟨s, hs, hds⟩ := hB.exists_sale hd
  obtain ⟨e, he⟩ := hB.provenance.sale s.frame s.balance s.jobs (mem_settlements.1 hs)
  rw [(hB.mem_jobs hs hds).1]
  exact hB.ne_default hlt (hB.taken_of_locked he)

/-- The jobs of a sale cost the balance it was given. -/
theorem sum_jobs (hB : Bookkeeping D w h m) {s : Settlement} (hs : s ∈ settlements h) :
    (s.jobs.map cost).sum = s.balance.toNat := by
  obtain ⟨funds, remaining, hsplit, hjobs⟩ := hB.sales s hs
  rw [hjobs]
  exact sum_saleJobs s.frame hsplit

/-- A job that has been acknowledged or executed counts among those pushed. -/
theorem paid_le_pushed (hB : Bookkeeping D w h m) :
    acknowledged h + executedJobs m ≤ (pushed h : Multiset Disbursement) := by
  rw [hB.account, Multiset.le_iff_count]
  intro d
  have hle := Multiset.le_iff_count.1
    (le_trans (executedJobs_le_submitted m) (submitted_le_heldJobs m)) d
  have hcount : (jobAccount.total w h m).count d =
      (w.entrepot.pendingDisbursements : Multiset Disbursement).count d + (heldJobs m).count d +
        ((acknowledged h : Multiset Disbursement).count d +
          (dropped h : Multiset Disbursement).count d +
            (deleted h : Multiset Disbursement).count d) := by
    rw [← Multiset.count_add, ← Multiset.count_add, ← Multiset.count_add, ← Multiset.count_add]
    rfl
  rw [hcount, Multiset.count_add]
  omega

end Jobs

end Bookkeeping

/-! ### What lowers a balance -/

section Debits

variable {w : World} {sa : SubAccount}

/-- Only an executed transfer from an account lowers its balance. -/
theorem debit_lt {ledger : SubAccount → ℕ} {job : Disbursement} {r : TransferResult}
    (h : debit ledger job r sa < ledger sa) :
    ∃ block, r = .ok block ∧ sa = job.bytes ∧ debit ledger job r sa = ledger sa - cost job := by
  cases r with
  | err e => exact absurd h (lt_irrefl _)
  | ok block =>
      by_cases hsa : sa = job.bytes
      · subst hsa
        refine ⟨block, rfl, rfl, ?_⟩
        rw [debit, Function.update_self, cost]
      · rw [debit, Function.update_of_ne hsa] at h
        exact absurd h (lt_irrefl _)

/-- A move that lowers the balance of an account has a job executed. -/
theorem Move.exists_executed {src : Source} {o : Step} (hm : Move D w src o)
    (hlt : o.state.ledger sa < w.ledger sa) :
    ∃ f block, src = .resume (.transfer f) (.execute (.ok block)) ∧ f.job.bytes = sa ∧
      o.state.ledger sa = w.ledger sa - cost f.job := by
  cases hm with
  | @executed f r =>
      obtain ⟨block, rfl, hsa, heq⟩ := debit_lt hlt
      exact ⟨f, block, rfl, hsa.symm, heq⟩
  | @deposit bytes amount =>
      -- a deposit raises one balance
      have hle : w.ledger sa ≤ Function.update w.ledger bytes (w.ledger bytes + amount) sa := by
        by_cases hsa : sa = bytes
        · subst hsa
          rw [Function.update_self]
          exact Nat.le_add_right _ _
        · rw [Function.update_of_ne hsa]
      exact absurd hlt (Nat.not_lt_of_le hle)
  | _ => exact absurd hlt (lt_irrefl _)

end Debits

namespace Interface

variable {H : Collection.Host} {G : LegendsNft.Guard} {c₀ c : Config}

/-- A method outside the market keeps the counter of subaccounts. -/
theorem Aside.nextSubAccount {s : State} {src : Source} {w : World} (ha : Aside s src w) :
    w.entrepot.nextSubAccount = s.world.entrepot.nextSubAccount := by
  cases ha with
  | kept entrepot => rw [entrepot]
  | unlisted => rfl
  | withdrawn => rfl

/-- The books are stable under the methods outside the market. -/
theorem Aside.bookkeeping {s : State} {src : Source} {w : World} {h : List Event}
    {m : Multiset LegendsNft.Task} (ha : Aside s src w) (hB : Bookkeeping D s.world h m) :
    Bookkeeping D w h m := by
  cases ha with
  | kept entrepot _ now =>
      obtain ⟨hprov, hsrc, hsub, hcount, haccount, hsales, hdated, hentries⟩ := hB
      refine ⟨⟨?_, hprov.lock, hprov.creation, ?_, hprov.sale⟩, hsrc, ⟨hsub.nodup, ?_, hsub.once⟩,
        ?_, ?_, hsales, ?_, ?_⟩
      · rw [entrepot]
        exact hprov.listing
      · rw [entrepot]
        exact hprov.pending
      · rw [entrepot]
        exact hsub.issued
      · rw [Counted, entrepot]
        exact hcount
      · rw [haccount, Actor.Account.total, Actor.Account.total]
        exact congrArg (fun e : Entrepot => (e.pendingDisbursements : Multiset Disbursement) +
          heldJobs m + finished h) entrepot.symm
      · rw [now]
        exact hdated
      · rw [entrepot, now]
        exact hentries
  | unlisted =>
      obtain ⟨hprov, hsrc, hsub, hcount, haccount, hsales, hdated, hentries⟩ := hB
      refine ⟨⟨?_, hprov.lock, hprov.creation, hprov.pending, hprov.sale⟩, hsrc,
        ⟨hsub.nodup, hsub.issued, hsub.once⟩, hcount, haccount, hsales,
        hdated, hentries⟩
      -- a listing that is left was there before
      intro i l hl
      exact hprov.listing i l (Table.get_of_get_delete hl).2
  | withdrawn =>
      exact ⟨⟨hB.provenance.listing, hB.provenance.lock, hB.provenance.creation,
        hB.provenance.pending, hB.provenance.sale⟩, hB.sourced, ⟨hB.subaccounts.nodup,
        hB.subaccounts.issued, hB.subaccounts.once⟩, hB.counted, hB.account, hB.sales,
        hB.dated, hB.entries⟩

/-- **The books of every run of the whole canister**, as long as the counter of subaccounts has not
grown too large. -/
theorem books_of_run (hG : ∀ d u, G.restart d u → ∀ k ∈ d.pool, k.run = none)
    (hc₀ : Initial c₀) (h : Actor.Run (program H) (unrestored H G) c₀ c)
    (hlt : c.state.world.entrepot.nextSubAccount < counterBound) :
    Bookkeeping H.deployment (market c).state (market c).history (market c).pool := by
  refine multiset_of_turns (J := fun w h m => w.entrepot.nextSubAccount < counterBound →
    Bookkeeping H.deployment w h m) ?_ ?_ ?_ h (fun _ => .initial hc₀.market) hlt
  · intro d src m o _ hJ _ hm hlt
    have hle := hm.nextSubAccount_le
    exact (hJ (by omega)).move hlt hm
  · intro s src w h m hJ ha hlt
    rw [ha.nextSubAccount] at hlt
    exact ha.bookkeeping (hJ hlt)
  · intro d supply canister hJ hg hup hlt
    rw [World.entrepot_mk, Canister.nextSubAccount_upgrade hup] at hlt
    exact (hJ hlt).upgrade (fun k hk => hG d supply hg k (Multiset.mem_coe.1 hk)) hup

/-! ### Who withdraws -/

/-- Who asks for a withdrawal. -/
def Input.withdrawer : Input → Option Principal
  | .nnsTransfer caller _ _ => some caller
  | _ => none

/-- A continuation of `nnsTransfer`. -/
def Task.isWithdrawal : Task → Bool
  | .nnsTransfer _ => true
  | _ => false

variable {s : State}

theorem spawned_commit {α : Type} (s : State) (r : Except Trap α) (write : α → State) :
    (commit s r write).spawned = [] := by
  cases r <;> rfl

theorem isWithdrawal_of_suspend {r : Except Trap Unit} {k k' : Task} (hk : k.isWithdrawal = false)
    (hk' : k' ∈ (suspend s r k).spawned) : k'.isWithdrawal = false := by
  cases r with
  | error e => exact absurd hk' List.not_mem_nil
  | ok a =>
      rw [List.mem_singleton.1 hk']
      exact hk

theorem isWithdrawal_of_collection {o : Collection.Step} {k : Task}
    (hk : k ∈ (ofCollection s o).spawned) : k.isWithdrawal = false := by
  obtain ⟨k', -, rfl⟩ := List.mem_map.1 hk
  rfl

/-- A withdrawal is submitted by a call of an admin. -/
theorem isWithdrawal_of_call {i : Input} {o : Step} (h : call H s i = some o)
    (hi : ∀ p ∈ i.withdrawer, s.isAdmin p = false) {k : Task} (hk : k ∈ o.spawned) :
    k.isWithdrawal = false := by
  cases i with
  | collection i =>
      obtain ⟨o', -, rfl⟩ := Option.map_eq_some_iff.1 h
      exact isWithdrawal_of_collection hk
  | nnsTransfer caller amount to' =>
      rw [call, hi caller rfl] at h
      cases h
      exact absurd hk List.not_mem_nil
  | init | launchpadEventCreate | launchpadEventUpdate | withdrawAll =>
      cases h
      exact isWithdrawal_of_suspend rfl hk
  | balance =>
      cases h
      rw [List.mem_singleton.1 hk]
      rfl
  | heartbeat | query | collectCanisterMetrics | assetsRestore | readLedger | allowance
  | approve =>
      cases h
      exact absurd hk List.not_mem_nil
  | heartbeatSetInterval | heartbeatSwitch | upload | uploadFinalize | uploadClear | purgeAssets
  | assetsDelete | assetsTag | configureColors | configureStockColors | tokensRestore
  | publicSaleRestore | configureNri | entrepotRestore | deleteListing =>
      cases h
      simp [commitAssets, commitEntrepot, spawned_commit] at hk

theorem isWithdrawal_of_resume {k : Task} {r : Wake} {o : Step} (h : resume H s k r = some o)
    {k' : Task} (hk : k' ∈ o.spawned) : k'.isWithdrawal = false := by
  unfold resume at h
  split at h
  · obtain ⟨o', -, rfl⟩ := Option.map_eq_some_iff.1 h
    exact isWithdrawal_of_collection hk
  · cases h
    exact absurd hk List.not_mem_nil
  · cases h
    exact absurd hk List.not_mem_nil
  · cases h
    exact absurd hk List.not_mem_nil
  · cases h
    rw [List.mem_singleton.1 hk]
    rfl
  all_goals
    cases h <;> exact absurd hk List.not_mem_nil

/-- A transfer that the ledger is asked for is one of an admin, of this amount. -/
theorem transfer_eq_await {isAdmin : Bool} {amount amount' : UInt64} {to' : Text}
    (h : Nns.transfer isAdmin amount to' = .ok (.await amount')) :
    isAdmin = true ∧ amount' = amount := by
  unfold Nns.transfer at h
  split at h
  · rename_i hadmin
    split at h <;> cases h
    exact ⟨hadmin, rfl⟩
  · cases h

/-- **A withdrawal is submitted by a call of an admin.** -/
theorem Input.eq_nnsTransfer {i : Input} {o : Step} {amount : UInt64} (h : call H s i = some o)
    (hk : .nnsTransfer amount ∈ o.spawned) :
    ∃ caller to', i = .nnsTransfer caller amount to' ∧ s.isAdmin caller = true := by
  by_cases hnone : ∀ p ∈ i.withdrawer, s.isAdmin p = false
  · cases isWithdrawal_of_call h hnone hk
  · obtain ⟨p, hp, hadmin⟩ : ∃ p, p ∈ i.withdrawer ∧ s.isAdmin p = true := by
      simpa using hnone
    cases i with
    | nnsTransfer caller amount' to' =>
        rw [call] at h
        split at h
        · cases h
          exact absurd hk List.not_mem_nil
        · cases h
          exact absurd hk List.not_mem_nil
        · rename_i hawait
          obtain ⟨-, rfl⟩ := transfer_eq_await hawait
          cases h
          cases List.mem_singleton.1 hk
          cases hp
          exact ⟨_, _, rfl, hadmin⟩
    | _ => exact absurd hp (Option.not_mem_none _)

/-- **In every run, a withdrawal that is suspended was submitted by a call of an admin.** -/
theorem exists_withdrawer {A : Guard} (hc₀ : Initial c₀) (h : Actor.Run (program H) A c₀ c)
    {amount : UInt64} (hk : .nnsTransfer amount ∈ c.pool) :
    ∃ d d' caller to', Actor.Run (program H) A c₀ d ∧ d.state.isAdmin caller = true ∧
      (program H).step d (.call (.nnsTransfer caller amount to')) = some d' ∧
      Actor.Run (program H) A d' c := by
  have hnew : .nnsTransfer amount ∉ c₀.pool := hc₀.2.1 ▸ List.not_mem_nil
  obtain ⟨d, a, d', hd, hs, hd', hbefore, hafter⟩ := h.exists_spawn hk hnew
  rcases Actor.Program.step_cases hs with
    ⟨i, o, rfl, ho, rfl⟩ | ⟨n, r, k, o, rfl, -, ho, rfl⟩ | ⟨u, o, rfl, ho, rfl⟩
  · obtain ⟨caller, to', rfl, hadmin⟩ :=
      Input.eq_nnsTransfer ho ((List.mem_append.1 hafter).resolve_left hbefore)
    exact ⟨d, _, caller, to', hd, hadmin, hs, hd'⟩
  · rcases List.mem_append.1 hafter with hafter | hafter
    · exact absurd (List.mem_of_mem_eraseIdx hafter) hbefore
    · cases isWithdrawal_of_resume ho hafter
  · change restart d.state u = some o at ho
    unfold restart at ho
    split at ho <;> cases ho
    exact absurd hafter List.not_mem_nil

/-! ### What debits an account -/

/-- A segment that lowers the balance of an account on the ledger has a transfer executed that was
submitted to the ledger: one that an admin has asked for, or the one of a job. -/
inductive Debits (s : State) (sa : SubAccount) (o : Step) : Source → Prop
  | withdrawal {amount block : UInt64} (default : sa = defaultSubAccount) :
      Debits s sa o (.resume (.nnsTransfer amount) (.execute (.ok block)))
  | job {f : QueueFrame} {block : UInt64} (bytes : f.job.bytes = sa)
      (debited : o.state.world.ledger sa = s.world.ledger sa - cost f.job) :
      Debits s sa o (.resume (.collection (.market (.transfer f)))
        (.collection (.market (.execute (.ok block)))))

variable {sa : SubAccount}

/-- Aside of the market, a withdrawal lowers the balance of the canister's own account. -/
theorem Aside.exists_withdrawal {src : Source} {w : World} (ha : Aside s src w)
    (hlt : w.ledger sa < s.world.ledger sa) : sa = defaultSubAccount ∧
      ∃ amount block, src = .resume (.nnsTransfer amount) (.execute (.ok block)) := by
  cases ha with
  | kept _ ledger =>
      rw [ledger] at hlt
      exact absurd hlt (lt_irrefl _)
  | unlisted => exact absurd hlt (lt_irrefl _)
  | withdrawn =>
      obtain ⟨block, rfl, hsa, -⟩ := debit_lt hlt
      exact ⟨hsa, _, block, rfl⟩

/-- **Every segment that lowers a balance has a submitted transfer executed.** -/
theorem Turn.debits {src : Source} {o : Step} (ht : Turn H s src o)
    (hlt : o.state.world.ledger sa < s.world.ledger sa) : Debits s sa o src := by
  cases ht with
  | @move src' hsrc hm =>
      obtain ⟨f, block, rfl, hbytes, heq⟩ := Move.exists_executed hm hlt
      unfold marketSource at hsrc
      split at hsrc <;> cases hsrc
      exact .job hbytes heq
  | aside _ ha =>
      obtain ⟨hsa, amount, block, rfl⟩ := ha.exists_withdrawal hlt
      exact .withdrawal hsa
  | restored _ _ houtcome =>
      subst houtcome
      exact absurd hlt (lt_irrefl _)

/-- A step that lowers a balance wakes the continuation of a submitted transfer. -/
theorem step_debits {c c' : Config} {a : Actor.Act Input Wake UInt16}
    (hs : (program H).step c a = some c')
    (hlt : c'.state.world.ledger sa < c.state.world.ledger sa) :
    ∃ n k r o, a = .resume n r ∧ c.pool[n]? = some k ∧ o.state = c'.state ∧
      Debits c.state sa o (.resume k r) := by
  rcases Actor.Program.step_cases hs with
    ⟨i, o, rfl, ho, rfl⟩ | ⟨n, r, k, o, rfl, hk, ho, rfl⟩ | ⟨u, o, rfl, ho, rfl⟩
  · have hd := Turn.debits (turn_of_segment (show (program H).segment _ (.call i) = _ from ho)) hlt
    cases hd
  · exact ⟨n, k, r, o, rfl, hk, rfl,
      Turn.debits (turn_of_segment (show (program H).segment _ (.resume k r) = _ from ho)) hlt⟩
  · obtain ⟨canister, -, ho'⟩ := restart_eq_some ho
    have hledger : o.state.world.ledger = c.state.world.ledger := by
      rw [show o.state.world = _ from congrArg Actor.Outcome.state ho']
    rw [hledger] at hlt
    exact absurd hlt (lt_irrefl _)

/-- A submitted job is held. -/
theorem mem_jobsLeft {f : QueueFrame} (h : .collection (.market (.transfer f)) ∈ c.pool) :
    f.job ∈ jobsLeft (market c) := by
  have hmem : .transfer f ∈ (market c).pool := List.mem_filterMap.2 ⟨_, h, rfl⟩
  refine Multiset.mem_add.2 (Or.inr ?_)
  have hle := executedJobs_add_le_heldJobs (Multiset.mem_coe.2 hmem)
  exact Multiset.mem_of_le (le_trans (Multiset.le_add_left _ _) hle) (Multiset.mem_singleton_self _)

/-- **Where the money of the canister goes.**  In every run of the whole canister in which no admin
restores the marketplace, upgrades between two runs of the queue included: a job that is queued or
held was queued by a sale, is paid from the subaccount of that sale, which is not the account of the
canister, and goes to its seller or to an account of the fee table; the jobs of a sale cost the
balance it was given; a job is executed at most as often as it has been queued; and whatever lowers
a balance on the ledger is the execution of a submitted transfer, of such a job and by its cost, or
of a withdrawal from the account of the canister that an admin has asked for in the run. -/
theorem funds_segregated (hc₀ : Initial c₀)
    (h : Actor.Run (program H) (unrestored H betweenRuns) c₀ c)
    (hbound : c.state.world.entrepot.nextSubAccount < counterBound) :
    (∀ d ∈ jobsLeft (market c), ∃ s ∈ settlements (market c).history, d ∈ s.jobs ∧
      d.bytes = s.transaction.bytes ∧ d.bytes ≠ defaultSubAccount ∧
      (d.address = s.transaction.from' ∨ d.address ∈ fees.map Prod.fst)) ∧
    (∀ s ∈ settlements (market c).history, (s.jobs.map cost).sum = s.balance.toNat) ∧
    acknowledged (market c).history + executedJobs (market c).pool ≤
      (pushed (market c).history : Multiset Disbursement) ∧
    ∀ a c' sa, (program H).step c a = some c' →
      c'.state.world.ledger sa < c.state.world.ledger sa →
      (sa = defaultSubAccount ∧ ∃ n amount block, a = .resume n (.execute (.ok block)) ∧
        c.pool[n]? = some (.nnsTransfer amount) ∧ ∃ d d' caller to',
          Actor.Run (program H) (unrestored H betweenRuns) c₀ d ∧
          d.state.isAdmin caller = true ∧
          (program H).step d (.call (.nnsTransfer caller amount to')) = some d' ∧
          Actor.Run (program H) (unrestored H betweenRuns) d' c) ∨
      ∃ n f block, a = .resume n (.collection (.market (.execute (.ok block)))) ∧
        c.pool[n]? = some (.collection (.market (.transfer f))) ∧
        f.job ∈ jobsLeft (market c) ∧ f.job.bytes = sa ∧
        c'.state.world.ledger sa = c.state.world.ledger sa - cost f.job := by
  have hB := books_of_run (fun _ _ hg => hg) hc₀ h hbound
  refine ⟨?_, fun s hs => hB.sum_jobs hs, hB.paid_le_pushed, ?_⟩
  · intro d hd
    obtain ⟨s, hs, hds⟩ := hB.exists_sale hd
    obtain ⟨hbytes, haddress⟩ := hB.mem_jobs hs hds
    exact ⟨s, hs, hds, hbytes, hB.bytes_ne_default hbound hd, haddress⟩
  · intro a c' sa hs hlt
    obtain ⟨n, k, r, o, rfl, hk, ho, hd⟩ := step_debits hs hlt
    cases hd with
    | withdrawal hsa =>
        exact Or.inl ⟨hsa, n, _, _, rfl, hk,
          exists_withdrawer hc₀ h (List.mem_of_getElem? hk)⟩
    | job hbytes heq =>
        rw [ho] at heq
        exact Or.inr ⟨n, _, _, rfl, hk, mem_jobsLeft (List.mem_of_getElem? hk), hbytes, heq⟩

/-- In a run of the whole canister, a sale whose last but one disbursement is executed. -/
theorem funds_segregated_sample : ∃ c c', (program .sample).exec Config.sample
      (disbursing.map ofChoice) = some c ∧
    (program .sample).step c (.resume 0 (.collection (.market (.execute (.ok 2))))) = some c' ∧
    c'.state.world.ledger firstTransaction.bytes < c.state.world.ledger firstTransaction.bytes ∧
    ∃ d ∈ jobsLeft (market c), d.bytes = firstTransaction.bytes ∧
      (d.address = "B" ∨ d.address ∈ fees.map Prod.fst) ∧
      c'.state.world.ledger firstTransaction.bytes =
        c.state.world.ledger firstTransaction.bytes - cost d := by
  obtain ⟨c, hc, hallow, hbound, c', hc', hlt, hsettle⟩ := (by decide :
    ∃ c ∈ (program .sample).exec Config.sample (disbursing.map ofChoice),
      (unrestored .sample betweenRuns).AllowsAll (program .sample) Config.sample
        (disbursing.map ofChoice) ∧
      c.state.world.entrepot.nextSubAccount < 4 ∧
      ∃ c' ∈ (program .sample).step c (.resume 0 (.collection (.market (.execute (.ok 2))))),
        c'.state.world.ledger firstTransaction.bytes <
          c.state.world.ledger firstTransaction.bytes ∧
        ∀ s ∈ settlements (market c).history, s.transaction.from' = "B")
  have hrun := Actor.run_of_exec hallow hc
  obtain ⟨hjobs, -, -, hsteps⟩ := funds_segregated Config.initial_sample hrun (by
    unfold counterBound
    omega)
  refine ⟨c, c', hc, hc', hlt, ?_⟩
  rcases hsteps _ c' _ hc' hlt with ⟨hdefault, -⟩ | ⟨n, f, block, -, -, hf, hbytes, heq⟩
  · exact absurd hdefault (by decide)
  · obtain ⟨s, hs, -, -, -, haddress⟩ := hjobs f.job hf
    rw [hsettle s hs] at haddress
    exact ⟨f.job, hf, hbytes, haddress, heq⟩

/-! ### The account of the canister -/

/-- No admin withdraws anything. -/
def noWithdrawals : Guard where
  call := fun c i => ∀ p ∈ i.withdrawer, c.state.isAdmin p = false
  resume := fun _ _ _ => True
  restart := fun _ _ => True

instance (c : Config) (i : Input) : Decidable (noWithdrawals.call c i) :=
  inferInstanceAs (Decidable (∀ p ∈ i.withdrawer, c.state.isAdmin p = false))

instance (c : Config) (k : Task) (r : Wake) : Decidable (noWithdrawals.resume c k r) :=
  isTrue trivial

instance (c : Config) (u : UInt16) : Decidable (noWithdrawals.restart c u) := isTrue trivial

/-- The counter of subaccounts is never taken back. -/
theorem nextSubAccount_le_of_run (h : Actor.Run (program H) (unrestored H G) c₀ c) :
    c₀.state.world.entrepot.nextSubAccount ≤ c.state.world.entrepot.nextSubAccount := by
  refine multiset_of_turns (J := fun w _ _ =>
    c₀.state.world.entrepot.nextSubAccount ≤ w.entrepot.nextSubAccount) ?_ ?_ ?_ h (le_refl _)
  · exact fun d src m o _ hJ _ hm => le_trans hJ hm.nextSubAccount_le
  · intro s src w h m hJ ha
    rw [ha.nextSubAccount]
    exact hJ
  · intro d supply canister hJ _ hup
    change _ ≤ canister.entrepot.nextSubAccount
    rw [Canister.nextSubAccount_upgrade hup]
    exact hJ

theorem allows_of_and {G' : Guard} {a : Actor.Act Input Wake UInt16}
    (ha : ((unrestored H G).and G').Allows c a) : (unrestored H G).Allows c a := by
  cases a with
  | call i => exact ha.1
  | resume n r => exact fun k hk => (ha k hk).1
  | restart u => exact ha.1

/-- Without a call of an admin, no withdrawal is submitted. -/
theorem isWithdrawal_of_step {c' : Config} {a : Actor.Act Input Wake UInt16}
    (hc : ∀ k ∈ c.pool, k.isWithdrawal = false)
    (ha : ((unrestored H G).and noWithdrawals).Allows c a)
    (hs : (program H).step c a = some c') : ∀ k ∈ c'.pool, k.isWithdrawal = false := by
  rcases Actor.Program.step_cases hs with
    ⟨i, o, rfl, ho, rfl⟩ | ⟨n, r, k, o, rfl, -, ho, rfl⟩ | ⟨u, o, rfl, ho, rfl⟩
  · intro k hk
    rcases List.mem_append.1 hk with hk | hk
    · exact hc k hk
    · exact isWithdrawal_of_call ho ha.2 hk
  · intro k hk
    rcases List.mem_append.1 hk with hk | hk
    · exact hc k (List.mem_of_mem_eraseIdx hk)
    · exact isWithdrawal_of_resume ho hk
  · change restart c.state u = some o at ho
    unfold restart at ho
    split at ho <;> cases ho
    exact List.forall_mem_nil _

/-- **The account of the canister is its own.**  As long as no admin withdraws anything, nothing
that anyone does lowers the balance of the account of the canister: no sale, no run of the queue, no
upgrade and no method of the interface, in any order. -/
theorem own_account_kept {c₁ : Config} (hc₀ : Initial c₀)
    (h₁ : Actor.Run (program H) (unrestored H betweenRuns) c₀ c₁)
    (hpool : ∀ k ∈ c₁.pool, k.isWithdrawal = false)
    (h : Actor.Run (program H) ((unrestored H betweenRuns).and noWithdrawals) c₁ c)
    (hbound : c.state.world.entrepot.nextSubAccount < counterBound) :
    c₁.state.world.ledger defaultSubAccount ≤ c.state.world.ledger defaultSubAccount := by
  refine (h.induct (I := fun d => (∀ k ∈ d.pool, k.isWithdrawal = false) ∧
    Actor.Run (program H) (unrestored H betweenRuns) c₀ d ∧
    (d.state.world.entrepot.nextSubAccount < counterBound →
      c₁.state.world.ledger defaultSubAccount ≤ d.state.world.ledger defaultSubAccount))
    ?_ ⟨hpool, h₁, fun _ => le_refl _⟩).2.2 hbound
  rintro d a d' ⟨hd, hrun, hle⟩ ha hs
  have hwithin := allows_of_and ha
  refine ⟨isWithdrawal_of_step hd ha hs, hrun.tail a hwithin hs, fun hlt' => ?_⟩
  have hlt := lt_of_le_of_lt
    (nextSubAccount_le_of_run ((Actor.Run.refl d).tail a hwithin hs)) hlt'
  refine le_trans (hle hlt) (Nat.le_of_not_lt fun hdebit => ?_)
  obtain ⟨n, k, r, o, rfl, hk, -, hdebits⟩ := step_debits hs hdebit
  cases hdebits with
  | withdrawal => exact absurd (hd _ (List.mem_of_getElem? hk)) (by simp [Task.isWithdrawal])
  | job hbytes =>
      have hB := books_of_run (fun _ _ hg => hg) hc₀ hrun hlt
      exact hB.bytes_ne_default hlt (mem_jobsLeft (List.mem_of_getElem? hk)) hbytes

/-- The account of the canister is paid into, and then a token is sold and paid out. -/
theorem own_account_kept_sample : ∃ c₁ c, (program .sample).exec Config.sample
      [.call (.collection (.market (.deposit defaultSubAccount 7)))] = some c₁ ∧
    (program .sample).exec c₁ (disbursing.map ofChoice) = some c ∧
    acknowledged (market c).history ≠ [] ∧ 7 ≤ c.state.world.ledger defaultSubAccount := by
  obtain ⟨c₁, hc₁, hallow₁, hpool, hseven, c, hc, hallow, hbound, hack⟩ := (by decide :
    ∃ c₁ ∈ (program .sample).exec Config.sample
        [.call (.collection (.market (.deposit defaultSubAccount 7)))],
      (unrestored .sample betweenRuns).AllowsAll (program .sample) Config.sample
        [.call (.collection (.market (.deposit defaultSubAccount 7)))] ∧
      (∀ k ∈ c₁.pool, k.isWithdrawal = false) ∧
      c₁.state.world.ledger defaultSubAccount = 7 ∧
      ∃ c ∈ (program .sample).exec c₁ (disbursing.map ofChoice),
        ((unrestored .sample betweenRuns).and noWithdrawals).AllowsAll (program .sample) c₁
          (disbursing.map ofChoice) ∧
        c.state.world.entrepot.nextSubAccount < 4 ∧ acknowledged (market c).history ≠ [])
  have hle := own_account_kept Config.initial_sample (Actor.run_of_exec hallow₁ hc₁) hpool
    (Actor.run_of_exec hallow hc) (by
      unfold counterBound
      omega)
  exact ⟨c₁, c, hc₁, hc, hack, hseven ▸ hle⟩

end Interface

end LegendsNft
