/-
**The proceeds of a sale drain its payment subaccount.**

`settle` splits the balance of a payment subaccount into jobs, setting one ledger fee aside for
each; `cronDisbursements`, written separately, submits each job with a fee of its own.  The two
agree: the amounts and fees of the jobs are the balance, and as long as nothing else is paid into
the subaccount or queued for it, what it holds is what its jobs that are still to be executed cost.
So the ledger always finds the funds for the next one, and when all are executed nothing is left.

Main definitions:

* `LegendsNft.owed` — what jobs cost a subaccount;
* `LegendsNft.executedJobs` — the jobs the ledger has executed, the reply being on its way;
* `LegendsNft.Answers`, `LegendsNft.draining` — the answers of the ledger, and the condition on
  runs;
* `LegendsNft.ledgerAccount` — the account of a subaccount.

Main results:

* `LegendsNft.ledger_of_run` — the balance and what has been paid out of it are constant;
* `LegendsNft.funds_of_run` — **what a subaccount holds is what its jobs cost**;
* `LegendsNft.proceeds_drain` — **the proceeds are conserved, and drain the subaccount**.
-/

import LegendsNft.JobQueue
import Mathlib.Algebra.BigOperators.Group.Multiset.Basic

set_option relaxedAutoImplicit false
set_option autoImplicit false

namespace LegendsNft

open Entrepot

variable {D : Deployment} {sa : SubAccount} {c₀ c : Config}

/-! ### What jobs cost -/

/-- What executing these jobs costs a subaccount. -/
def owed (sa : SubAccount) (jobs : Multiset Disbursement) : ℕ :=
  ((jobs.filter fun d => d.bytes = sa).map cost).sum

@[simp] theorem owed_add (jobs jobs' : Multiset Disbursement) :
    owed sa (jobs + jobs') = owed sa jobs + owed sa jobs' := by
  simp [owed, Multiset.filter_add]

theorem owed_eq_zero {jobs : Multiset Disbursement} (h : ∀ d ∈ jobs, d.bytes ≠ sa) :
    owed sa jobs = 0 := by
  rw [owed, Multiset.filter_eq_nil.2 h]
  rfl

theorem owed_eq_sum {jobs : Multiset Disbursement} (h : ∀ d ∈ jobs, d.bytes = sa) :
    owed sa jobs = (jobs.map cost).sum := by
  rw [owed, Multiset.filter_eq_self.2 h]

theorem owed_singleton (d : Disbursement) :
    owed sa {d} = if d.bytes = sa then cost d else 0 := by
  rw [owed, Multiset.filter_singleton]
  split <;> simp

theorem owed_le_of_le (sa : SubAccount) {jobs jobs' : Multiset Disbursement} (h : jobs ≤ jobs') :
    owed sa jobs ≤ owed sa jobs' := by
  obtain ⟨rest, rfl⟩ := Multiset.le_iff_exists_add.1 h
  rw [owed_add]
  exact Nat.le_add_right _ _

/-! ### The jobs that have been executed -/

/-- The job the ledger has executed, the reply being on its way. -/
def Task.executed : Task → Option Disbursement
  | .transferred f (some (.ok _)) => some f.job
  | _ => none

/-- The jobs the ledger has executed, the replies being on their way. -/
def executedJobs (m : Multiset Task) : Multiset Disbursement := m.filterMap Task.executed

@[simp] theorem executedJobs_add (m m' : Multiset Task) :
    executedJobs (m + m') = executedJobs m + executedJobs m' :=
  Multiset.filterMap_add ..

@[simp] theorem executedJobs_singleton (k : Task) :
    executedJobs {k} = (k.executed.elim 0 fun d => {d}) := by
  rw [executedJobs, ← Multiset.cons_zero, Multiset.filterMap_cons]
  cases k.executed <;> rfl

theorem submitted_cons (k : Task) (m : Multiset Task) :
    submitted (k ::ₘ m) = (k.run.elim 0 fun f => {f.job}) + submitted m := by
  rw [submitted, submitted, ← Multiset.singleton_add, runs_add, runs_singleton, Multiset.map_add]
  cases k.run <;> simp

/-- A job is executed while its run is suspended. -/
theorem executedJobs_le_submitted (m : Multiset Task) : executedJobs m ≤ submitted m := by
  induction m using Multiset.induction_on with
  | empty => exact le_refl _
  | cons k m ih =>
      rw [submitted_cons, ← Multiset.singleton_add, executedJobs_add, executedJobs_singleton]
      refine add_le_add ?_ ih
      cases k with
      | transferred f reply => rcases reply with - | ⟨b | e⟩ <;> simp [Task.executed, Task.run]
      | _ => exact Multiset.zero_le _

/-- A job that has not been executed is held besides those that have. -/
theorem executedJobs_add_le_heldJobs {f : QueueFrame} {m : Multiset Task} (h : .transfer f ∈ m) :
    executedJobs m + {f.job} ≤ heldJobs m := by
  refine le_trans ?_ (submitted_le_heldJobs m)
  obtain ⟨m, rfl⟩ := Multiset.exists_cons_of_mem h
  rw [submitted_cons, ← Multiset.singleton_add, executedJobs_add, executedJobs_singleton]
  simpa [Task.executed, Task.run, Multiset.add_comm] using executedJobs_le_submitted m

theorem executedJobs_eq_zero {m : Multiset Task} (h : runs m = 0) : executedJobs m = 0 := by
  refine Multiset.le_zero.1 (le_trans (executedJobs_le_submitted m) ?_)
  rw [submitted, h]
  exact le_refl _

/-! ### The ledger -/

/-- The subaccount a call pays into. -/
def Input.deposits : Input → Option SubAccount
  | .deposit bytes _ => some bytes
  | _ => none

/-- A `settle` call is about to make a sale that is paid from this subaccount. -/
def Settles (D : Deployment) (w : World) (sa : SubAccount) (k : Task) : Prop :=
  ∃ x ∈ k.reply, x.1.transaction.bytes = sa ∧ x.1.transaction.price ≤ x.2 ∧
    w.tokens.Owns D x.1.transaction.from' x.1.index

instance (D : Deployment) (w : World) (sa : SubAccount) (k : Task) :
    Decidable (Settles D w sa k) :=
  inferInstanceAs (Decidable (∃ x ∈ k.reply, x.1.transaction.bytes = sa ∧
    x.1.transaction.price ≤ x.2 ∧ w.tokens.Owns D x.1.transaction.from' x.1.index))

/-- **The answers of the ledger**: it executes a transfer only if the funds cover the amount and the
fee, and finds them insufficient only if they do not. -/
def Answers (funds : ℕ) (job : Disbursement) : TransferResult → Prop
  | .ok _ => cost job ≤ funds
  | .err (.insufficientFunds _) => funds < cost job
  | .err _ => True

instance (funds : ℕ) (job : Disbursement) : ∀ r, Decidable (Answers funds job r)
  | .ok _ => inferInstanceAs (Decidable (cost job ≤ funds))
  | .err (.insufficientFunds _) => inferInstanceAs (Decidable (funds < cost job))
  | .err (.badFee _) => isTrue trivial
  | .err (.txTooOld _) => isTrue trivial
  | .err .txCreatedInFuture => isTrue trivial
  | .err (.txDuplicate _) => isTrue trivial

/-- The job a continuation has submitted and the ledger has not answered. -/
def Task.unanswered : Task → Option Disbursement
  | .transfer f => some f.job
  | _ => none

/-- The answer of the ledger. -/
def Wake.answer : Wake → Option TransferResult
  | .execute r => some r
  | _ => none

/-- The ledger answers a transfer truthfully. -/
def Truthful (ledger : SubAccount → ℕ) (k : Task) (r : Wake) : Prop :=
  ∀ job ∈ k.unanswered, ∀ a ∈ r.answer, Answers (ledger job.bytes) job a

instance (ledger : SubAccount → ℕ) (k : Task) (r : Wake) : Decidable (Truthful ledger k r) :=
  inferInstanceAs (Decidable (∀ job ∈ k.unanswered, ∀ a ∈ r.answer,
    Answers (ledger job.bytes) job a))

/-- The condition for draining a subaccount: nothing is paid into it, nothing else is settled from
it, the ledger is truthful, and no run of the queue is cut off by an upgrade. -/
def draining (D : Deployment) (sa : SubAccount) : Guard where
  call := fun _ i => i.deposits ≠ some sa
  resume := fun c k r => ¬ Settles D c.state sa k ∧ Truthful c.state.ledger k r
  restart := betweenRuns.restart

instance (c : Config) (i : Input) : Decidable ((draining D sa).call c i) :=
  inferInstanceAs (Decidable (i.deposits ≠ some sa))

instance (c : Config) (k : Task) (r : Wake) : Decidable ((draining D sa).resume c k r) :=
  inferInstanceAs (Decidable (¬ Settles D c.state sa k ∧ Truthful c.state.ledger k r))

instance (c : Config) (u : UInt16) : Decidable ((draining D sa).restart c u) :=
  inferInstanceAs (Decidable (betweenRuns.restart c u))

/-- An executed transfer takes the amount and the fee out of its subaccount. -/
theorem debit_add_owed {ledger : SubAccount → ℕ} {job : Disbursement} (block : UInt64)
    (h : cost job ≤ ledger job.bytes) :
    debit ledger job (.ok block) sa + owed sa {job} = ledger sa := by
  rw [owed_singleton]
  split
  · rename_i hsa
    subst hsa
    rw [debit, Function.update_self]
    exact Nat.sub_add_cancel h
  · rename_i hsa
    rw [debit, Function.update_of_ne (Ne.symm hsa)]
    rfl

/-- A pass of the queue loop has nothing executed. -/
theorem QueueRun.executedJobs_eq_zero {jobs : Multiset Disbursement} {s s' : Entrepot}
    {ks : List Task} (h : QueueRun jobs s s' ks) : executedJobs ks = 0 := by
  cases h <;> rfl

theorem acknowledged_answered (job : Disbursement) (failed : List Disbursement)
    (reply : Option TransferResult) :
    (acknowledged (answered job reply) : Multiset Disbursement) =
      executedJobs {.transferred ⟨job, failed⟩ reply} := by
  rw [executedJobs_singleton]
  rcases reply with - | ⟨b | ⟨e | e | e | - | e⟩⟩ <;> rfl

/-- **One segment**: what leaves a subaccount has been paid out. -/
theorem Move.ledger_balance {w : World} {src : Source} {o : Step} (h : Move D w src o)
    (hcount : ∀ k ∈ Actor.Source.task src, k.run ≠ none → w.entrepot.pendingCount ≠ 0)
    (hcall : ∀ i, src = .call i → i.deposits ≠ some sa)
    (hresume : ∀ k r, src = .resume k r → Truthful w.ledger k r) :
    o.state.ledger sa + owed sa (acknowledged o.events + executedJobs o.spawned) =
      w.ledger sa + owed sa (executedJobs (Actor.Source.task src)) := by
  cases h with
  | idle run =>
      rw [executedJobs_eq_zero (runs_of_idle hcount run)]
      rfl
  | relay hrun _ hrel =>
      rw [executedJobs_eq_zero (runs_of_relays hrel), Actor.Source.task,
        executedJobs_eq_zero (by simp [hrun] : runs {_} = 0)]
      rfl
  | tick | mint | listBegan | lockBegan | extTransfer | listed | delisted | locked | read
  | report | deleted | finalized | rejected => rfl
  | @deposit bytes amount =>
      have hne : sa ≠ bytes := fun heq => hcall _ rfl (congrArg some heq.symm)
      exact congrArg (· + 0) (Function.update_of_ne hne _ _)
  | sent =>
      rw [executedJobs_eq_zero runs_of_sent]
      rfl
  | gaveUp =>
      rw [executedJobs_eq_zero (runs_of_relays fun _ hk => SettleWaiter.relays_of_mem_deliver hk)]
      rfl
  | queueStart pass =>
      rw [pass.executedJobs_eq_zero]
      rfl
  | @queueStep f reply n s ks hn pass =>
      -- an executed job is acknowledged
      rw [pass.executedJobs_eq_zero, Multiset.add_zero, acknowledged_answered f.job f.failed]
      rfl
  | @executed f r =>
      cases r with
      | err e => rfl
      | ok block =>
          -- the job is paid out now and acknowledged when the run resumes
          have hfunds : cost f.job ≤ w.ledger f.job.bytes := hresume _ _ rfl _ rfl _ rfl
          exact (congrArg _ (congrArg _ (Multiset.zero_add _))).trans (debit_add_owed block hfunds)

/-- A segment queues no job of a subaccount that nothing is settled from. -/
theorem Move.owed_pushed {w : World} {src : Source} {o : Step} (h : Move D w src o)
    (hsettles : ∀ k r, src = .resume k r → ¬ Settles D w sa k) :
    owed sa (pushed o.events) = 0 := by
  rcases h.life with hq | ⟨f, t, rfl, -, rfl⟩ | ⟨f, b, k, r, rfl, -, rfl⟩ |
    ⟨f, b, k, s, tokens, jobs, rfl, hle, hsale, ht, rfl⟩
  · have hnil : settlements (o.events ++ []) = [] := hq.settlements_append []
    rw [List.append_nil] at hnil
    rw [pushed, hnil]
    rfl
  · rfl
  · rfl
  · rw [pushed_finalized]
    refine owed_eq_zero ?_
    intro d hd
    rw [(hsale.mem_jobs hd).2]
    exact fun heq => hsettles _ _ rfl ⟨_, rfl, heq, hle, Tokens.transfer_isOk_iff.1 ⟨_, ht⟩⟩

/-! ### Runs -/

/-- The account of a subaccount: what it holds and what the ledger has taken out of it, whether the
reply is on its way or has been read.  Nothing comes in. -/
def ledgerAccount (sa : SubAccount) : Actor.Account World Task Event ℕ where
  state w := w.ledger sa
  tasks m := owed sa (executedJobs m)
  gains _ := 0
  expenses h := owed sa (acknowledged h)
  tasks_add m m' := by rw [executedJobs_add, owed_add]
  gains_append _ _ := rfl
  expenses_append es h := by
    rw [acknowledged, List.filterMap_append, ← Multiset.coe_add, owed_add]
    rfl

/-- **The balance of a subaccount and what has been paid out of it are constant.** -/
theorem ledger_of_run (hcount : Counted c₀.state c₀.pool)
    (h : Actor.Run (program D) (draining D sa) c₀ c) :
    (ledgerAccount sa).total c.state c.history c.pool =
      (ledgerAccount sa).total c₀.state c₀.history c₀.pool := by
  refine (balanced_of_moves (ledgerAccount sa) ?_ ?_
    (h.assume fun d hd => counted_of_run hcount hd)).symm
  · intro c src o hsrc hg hm
    obtain ⟨hc, hg⟩ := Actor.Guard.segment_assuming.1 hg
    have hcall : ∀ i, src = .call i → i.deposits ≠ some sa := by
      rintro i rfl
      exact hg
    have hresume : ∀ k r, src = .resume k r → Truthful c.state.ledger k r := by
      rintro k r rfl
      exact hg.2
    have hstep := hm.ledger_balance
      (fun k hk => hc.pendingCount_ne_zero (Multiset.mem_coe.2 (hsrc k hk))) hcall hresume
    rw [owed_add, ← Nat.add_assoc, Nat.add_right_comm] at hstep
    exact hstep.symm
  · -- the replies on their way would be lost with the pool
    rintro c supply canister ⟨-, hg⟩ hup
    have hnone : owed sa (executedJobs c.pool) = 0 := by
      rw [executedJobs_eq_zero (runs_eq_zero fun k hk => hg k hk)]
      rfl
    exact congrArg (fun out => c.state.ledger sa + out + 0) hnone

/-- Nothing is queued for the subaccount meanwhile. -/
theorem owed_pushed_of_run (h : Actor.Run (program D) (draining D sa) c₀ c) :
    owed sa (pushed c.history) = owed sa (pushed c₀.history) := by
  refine invariant_of_moves
    (I := fun _ h => owed sa (pushed h) = owed sa (pushed c₀.history)) ?_ ?_ h rfl
  · intro c src o hpushed _ hg hm
    have hsettles : ∀ k r, src = .resume k r → ¬ Settles D c.state sa k := by
      rintro k r rfl
      exact hg.1
    rw [pushed_append, ← Multiset.coe_add, owed_add, hm.owed_pushed hsettles, Nat.zero_add]
    exact hpushed
  · exact fun _ _ _ hpushed _ _ => hpushed

/-- The jobs of a configuration that are still queued or held by a run. -/
def jobsLeft (c : Config) : Multiset Disbursement :=
  c.state.entrepot.pendingDisbursements + heldJobs c.pool

/-- The jobs that have been given up. -/
def jobsLost (c : Config) : Multiset Disbursement := dropped c.history + deleted c.history

/-- **What a subaccount holds is what its jobs cost**: those that are left and have not been
executed, and those that have been given up on the way. -/
theorem funds_of_run (hcount : Counted c₀.state c₀.pool)
    (hfunds : c₀.state.ledger sa + owed sa (executedJobs c₀.pool) = owed sa (jobsLeft c₀))
    (h : Actor.Run (program D) (draining D sa) c₀ c) :
    c.state.ledger sa + owed sa (executedJobs c.pool) + owed sa (jobsLost c₀) =
      owed sa (jobsLeft c) + owed sa (jobsLost c) := by
  -- nothing is queued meanwhile, and what has been acknowledged has been paid out
  have hledger := ledger_of_run hcount h
  have hpushed := owed_pushed_of_run h
  have hjobs := congrArg (owed sa) (balance_of_run (fun _ _ hg => hg) hcount h)
  simp only [Actor.Account.total, ledgerAccount, jobAccount, finished, jobsLeft, jobsLost,
    owed_add] at hjobs hfunds hledger ⊢
  omega

/-- The funds suffice for every transfer that has been submitted. -/
theorem cost_le_ledger (hcount : Counted c₀.state c₀.pool)
    (hfunds : c₀.state.ledger sa + owed sa (executedJobs c₀.pool) = owed sa (jobsLeft c₀))
    (hlost : owed sa (jobsLost c₀) = 0) (h : Actor.Run (program D) (draining D sa) c₀ c)
    {f : QueueFrame} (hf : .transfer f ∈ c.pool) (hsa : f.job.bytes = sa) :
    cost f.job ≤ c.state.ledger sa := by
  have hrun := funds_of_run hcount hfunds h
  have hheld := owed_le_of_le sa (executedJobs_add_le_heldJobs (Multiset.mem_coe.2 hf))
  rw [owed_add, owed_singleton, if_pos hsa] at hheld
  rw [jobsLeft, owed_add] at hrun
  omega

/-! ### The proceeds of a sale -/

/-- **The proceeds of a sale are conserved, and drain the payment subaccount.**  For every fee table
whose shares do not exceed the whole, the remainder of the seller never underflows, and a settlement
that completes queues one job for each entry of the table and one for the seller, whose amounts and
ledger fees add up to the balance.  If the subaccount holds that balance and has no other jobs, then
in every run without further deposits and settlements, whatever the order of the jobs, the retries
and the jobs of other subaccounts, the ledger has the funds for every transfer, and when all the
jobs have been executed the subaccount is empty. -/
theorem proceeds_drain {table : FeeTable}
    (htable : (table.map fun e => e.2.toNat).sum ≤ 100000) {s s' : Entrepot}
    {tokens tokens' : Tokens} {now : Time} {f : SettleFrame} {balance : UInt64}
    (h : finalize D table s tokens now f balance = .ok (s', tokens')) :
    (∀ funds : UInt64, (∀ e ∈ table, funds.toNat * e.2.toNat < 2 ^ 64) →
      ∃ r, payFees f.index f.transaction.bytes funds s funds table = .ok r) ∧
    ∃ jobs, s'.pendingDisbursements = jobs ++ s.pendingDisbursements ∧
      jobs.length = table.length + 1 ∧ (∀ d ∈ jobs, d.bytes = f.transaction.bytes) ∧
      (jobs.map cost).sum = balance.toNat ∧
      ∀ c₀ c : Config, c₀.state.entrepot = s' → Counted c₀.state c₀.pool →
        c₀.state.ledger f.transaction.bytes = balance.toNat →
        (∀ d ∈ s.pendingDisbursements, d.bytes ≠ f.transaction.bytes) →
        (∀ d ∈ heldJobs c₀.pool + jobsLost c₀, d.bytes ≠ f.transaction.bytes) →
        Actor.Run (program D) (draining D f.transaction.bytes) c₀ c →
        (∀ g : QueueFrame, .transfer g ∈ c.pool → g.job.bytes = f.transaction.bytes →
          cost g.job ≤ c.state.ledger f.transaction.bytes) ∧
        ((∀ d ∈ jobsLeft c + jobsLost c, d.bytes ≠ f.transaction.bytes) →
          c.state.ledger f.transaction.bytes = 0) := by
  obtain ⟨jobs, hsale, -⟩ := sale_of_finalize h
  refine ⟨?_, jobs, hsale.pendingDisbursements, hsale.length_jobs,
    fun d hd => (hsale.mem_jobs hd).2, hsale.sum_jobs, ?_⟩
  · intro funds hfit
    obtain ⟨s', remaining, hs⟩ := exists_payFees htable hfit
    exact ⟨_, hs⟩
  intro c₀ c hs hcount hledger hqueue hother hrun
  have hheld : owed f.transaction.bytes (heldJobs c₀.pool) = 0 :=
    owed_eq_zero fun d hd => hother d (Multiset.mem_add.2 (Or.inl hd))
  have hlost : owed f.transaction.bytes (jobsLost c₀) = 0 :=
    owed_eq_zero fun d hd => hother d (Multiset.mem_add.2 (Or.inr hd))
  have hexecuted := owed_le_of_le f.transaction.bytes
    (le_trans (executedJobs_le_submitted (c₀.pool : Multiset Task)) (submitted_le_heldJobs _))
  have hjobs : owed f.transaction.bytes (jobs : Multiset Disbursement) = balance.toNat := by
    rw [owed_eq_sum fun d hd => (hsale.mem_jobs (Multiset.mem_coe.1 hd)).2]
    simpa using hsale.sum_jobs
  have hold : owed f.transaction.bytes (s.pendingDisbursements : Multiset Disbursement) = 0 :=
    owed_eq_zero fun d hd => hqueue d (Multiset.mem_coe.1 hd)
  have hfunds : c₀.state.ledger f.transaction.bytes +
      owed f.transaction.bytes (executedJobs c₀.pool) =
        owed f.transaction.bytes (jobsLeft c₀) := by
    rw [jobsLeft, hs, hsale.pendingDisbursements, ← Multiset.coe_add, owed_add, owed_add]
    omega
  refine ⟨fun g hg hsa => cost_le_ledger hcount hfunds hlost hrun hg hsa, ?_⟩
  intro hnone
  have hend := funds_of_run hcount hfunds hrun
  have hzero := owed_eq_zero hnone
  rw [owed_add] at hzero
  omega

/-- The three disbursements of a sale, the second one after a failure. -/
def drain : List Choice :=
  [.call (.tick 5000000000), .call .cronDisbursements, .resume 0 (.execute (.ok 1)),
    .resume 0 .run, .resume 0 (.execute (.err (.badFee 10000))), .resume 0 .run,
    .resume 0 (.execute (.ok 2)), .resume 0 .run, .call (.tick 10000000000),
    .call .cronDisbursements, .resume 0 (.execute (.ok 3)), .resume 0 .run]

/-- The configuration after a completed settlement, nothing being suspended. -/
def Config.settled (c : Config) (r : Entrepot × Tokens) : Config :=
  ⟨(c.state.setEntrepot r.1).setTokens r.2, [], []⟩

/-- The settlement of the first lock. -/
def firstSettlement (c : Config) : Option (Entrepot × Tokens) :=
  (finalize .sample fees c.state.entrepot c.state.tokens c.state.now ⟨0, firstTransaction⟩
    40000).toOption

/-- The sale of the first lock drains its payment subaccount. -/
theorem proceeds_drain_sample : ∃ c r d, sampleRun Choice.paidLock = some c ∧
    firstSettlement c = some r ∧ (program .sample).exec (c.settled r) drain = some d ∧
    d.state.ledger firstTransaction.bytes = 0 := by
  obtain ⟨c, hc, r, hr, d, hd, hallowed, hledger, hqueue, hcount, hleft, hpool, hdropped,
    hdeleted⟩ := (by decide : ∃ c ∈ sampleRun Choice.paidLock, ∃ r ∈ firstSettlement c,
      ∃ d ∈ (program .sample).exec (c.settled r) drain,
        (draining .sample firstTransaction.bytes).AllowsAll (program .sample) (c.settled r) drain ∧
        c.state.ledger firstTransaction.bytes = 40000 ∧
        c.state.entrepot.pendingDisbursements = [] ∧ r.1.pendingCount = 0 ∧
        d.state.entrepot.pendingDisbursements = [] ∧ d.pool.length = 0 ∧
        dropped d.history = [] ∧ deleted d.history = [])
  have hnone : jobsLeft d + jobsLost d = 0 := by
    rw [jobsLeft, jobsLost, hleft, List.length_eq_zero_iff.1 hpool, hdropped, hdeleted]
    rfl
  have hf : finalize .sample fees c.state.entrepot c.state.tokens c.state.now
      ⟨0, firstTransaction⟩ 40000 = .ok (r.1, r.2) := by
    unfold firstSettlement at hr
    cases hfin : finalize .sample fees c.state.entrepot c.state.tokens c.state.now
      ⟨0, firstTransaction⟩ 40000 with
    | error e => simp [hfin, Except.toOption] at hr
    | ok r' => simpa [hfin, Except.toOption] using hr
  obtain ⟨-, jobs, -, -, -, -, hrun⟩ := proceeds_drain (by decide) hf
  have hdrained := (hrun (c.settled r) d rfl hcount hledger (by simp [hqueue])
    (fun _ h => absurd h (Multiset.notMem_zero _)) (Actor.run_of_exec hallowed hd)).2
  exact ⟨c, r, d, hc, hr, hd, hdrained (by simp [hnone])⟩

end LegendsNft
