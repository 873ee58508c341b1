/-
**The canister is an escrow, and solvent.**

`LegendsNft/Drain.lean` follows one subaccount from its settlement on, given that the ledger is
truthful and that nothing else happens to it.  Here are all subaccounts at once, in every run of the
whole canister in which no admin restores the marketplace, no transaction is settled a second time
and no upgrade cuts off a run of the queue.  Each step of such a run is a walk of an escrow
(`LegendsNft/Escrow.lean`), where the ledger holds the money and a job is due until it is executed,
and the labels of the walk are read off the call, the reply and the events of the step: a deposit
deposits, a sale promises its jobs, an executed transfer pays one, and a job that is dropped or
deleted is cancelled.  An escrow is solvent, so that what a subaccount holds covers all its jobs
that have not been executed, wherever they are.  Nothing has to be assumed of the ledger, for it is
never asked for a transfer that the subaccount cannot cover, and nothing of the deposits, which only
help.

A settlement queues jobs that cost what the ledger has reported, and until then the subaccount of
the transaction has no other jobs, so that it still holds at least that.  This is where settling
twice is no step of an escrow.

Main definitions:

* `LegendsNft.soldOnce` — the condition: no transaction is settled a second time;
* `LegendsNft.truthful` — the condition on the ledger;
* `LegendsNft.escrow` — a configuration of the market as a state of an escrow;
* `LegendsNft.Event.action`, `LegendsNft.Interface.actions` — what an event, and a step, does to the
  escrow.

Main results:

* `LegendsNft.Move.escrow_events` — the events of a move are a walk of the escrow;
* `LegendsNft.Interface.escrow_of_segment`, `LegendsNft.Interface.refines_escrow` — **every step of
  the whole canister is the walk of the escrow that it shows**;
* `LegendsNft.Interface.transfers_covered` — **every transfer is covered**;
* `LegendsNft.Interface.proceeds_paid` — **what becomes of the proceeds**.
-/

import LegendsNft.Bookkeeping
import LegendsNft.Escrow

set_option relaxedAutoImplicit false
set_option autoImplicit false

namespace LegendsNft

open Entrepot

variable {D : Deployment}

/-! ### The condition -/

/-- A `settle` call is about to complete a transaction that has been settled already. -/
def Resells (D : Deployment) (c : Config) (k : Task) : Prop :=
  ∃ x ∈ k.reply, Completes D c.state x.1 x.2 ∧
    x.1.transaction ∈ (settlements c.history).map Settlement.transaction

instance (D : Deployment) (c : Config) (k : Task) : Decidable (Resells D c k) :=
  inferInstanceAs (Decidable (∃ x ∈ k.reply, Completes D c.state x.1 x.2 ∧
    x.1.transaction ∈ (settlements c.history).map Settlement.transaction))

theorem not_resells_of_reply {c : Config} {k : Task} (h : k.reply = none) : ¬ Resells D c k := by
  rintro ⟨x, hx, -⟩
  rw [h] at hx
  cases hx

/-- No transaction is settled a second time. -/
def soldOnce (D : Deployment) : Guard where
  call := fun _ _ => True
  resume := fun c k _ => ¬ Resells D c k
  restart := fun _ _ => True

instance (c : Config) (i : Input) : Decidable ((soldOnce D).call c i) := isTrue trivial

instance (c : Config) (k : Task) (r : Wake) : Decidable ((soldOnce D).resume c k r) :=
  inferInstanceAs (Decidable (¬ Resells D c k))

instance (c : Config) (u : UInt16) : Decidable ((soldOnce D).restart c u) := isTrue trivial

/-! ### The escrow of the market -/

/-- A job is paid from the subaccount it carries. -/
def terms : Escrow.Terms SubAccount Disbursement := ⟨Disbursement.bytes, cost⟩

/-- **The market as an escrow**: the ledger holds the money, and due are the jobs that have not been
executed. -/
def escrow (w : World) (m : Multiset Task) : Escrow.State SubAccount Disbursement :=
  ⟨w.ledger, w.entrepot.pendingDisbursements + heldJobs m - executedJobs m⟩

/-- What an event is to the escrow: a sale promises its jobs, and jobs that are dropped or deleted
are cancelled. -/
def Event.action : Event → Option (Escrow.Action SubAccount Disbursement)
  | .finalized f _ jobs => some (.promise f.transaction.bytes jobs)
  | .dropped job _ => some (.cancel {job})
  | .deleted jobs => some (.cancel jobs)
  | _ => none

section Due

variable {w : World} {h : List Event} {m : Multiset Task}

theorem due_add_executedJobs (w : World) (m : Multiset Task) :
    (escrow w m).due + executedJobs m = w.entrepot.pendingDisbursements + heldJobs m :=
  Multiset.sub_add_cancel (le_trans
    (le_trans (executedJobs_le_submitted m) (submitted_le_heldJobs m)) (Multiset.le_add_left _ _))

theorem due_le (w : World) (m : Multiset Task) :
    (escrow w m).due ≤ w.entrepot.pendingDisbursements + heldJobs m :=
  Multiset.sub_le_self _ _

/-- A submitted job is due. -/
theorem mem_due {f : QueueFrame} (hf : .transfer f ∈ m) : f.job ∈ (escrow w m).due := by
  have hle := executedJobs_add_le_heldJobs hf
  have hdue := due_add_executedJobs w m
  refine Multiset.count_pos.1 ?_
  have h₁ := Multiset.le_iff_count.1 hle f.job
  have h₂ := congrArg (Multiset.count f.job) hdue
  simp only [Multiset.count_add, Multiset.count_singleton_self] at h₁ h₂
  omega

/-- What is left to pay for a transaction has been queued by settling it. -/
theorem Bookkeeping.bytes_ne (hB : Bookkeeping D w h m) {i : TokenIndex} {t : Transaction}
    {e : Time} (ht : .locked i t e ∈ h) (hnew : t ∉ (settlements h).map Settlement.transaction) :
    ∀ d ∈ (w.entrepot.pendingDisbursements : Multiset Disbursement) + heldJobs m,
      d.bytes ≠ t.bytes := by
  intro d hd heq
  obtain ⟨s, hs, hds⟩ := hB.exists_sale hd
  obtain ⟨e', he'⟩ := hB.provenance.sale s.frame s.balance s.jobs (mem_settlements.1 hs)
  have hbytes := (hB.mem_jobs hs hds).1
  exact hnew (List.mem_map.2 ⟨s, hs, hB.eq_of_bytes he' ht (hbytes.symm.trans heq)⟩)

theorem Bookkeeping.bytes_ne_of_due (hB : Bookkeeping D w h m) {i : TokenIndex} {t : Transaction}
    {e : Time} (ht : .locked i t e ∈ h) (hnew : t ∉ (settlements h).map Settlement.transaction) :
    ∀ d ∈ (escrow w m).due, d.bytes ≠ t.bytes :=
  fun d hd => hB.bytes_ne ht hnew d (Multiset.mem_of_le (due_le w m) hd)

end Due

theorem Task.eq_reported_of_reply {k : Task} {f : SettleFrame} {b : UInt64}
    (h : k.reply = some (f, b)) : ∃ k', k = .reported f b k' := by
  cases k with
  | reported f' b' k' =>
      cases h
      exact ⟨k', rfl⟩
  | _ => cases h

theorem Task.held_of_reply {k : Task} {f : SettleFrame} {b : UInt64}
    (h : k.reply = some (f, b)) : k.held = some f := by
  obtain ⟨k', rfl⟩ := Task.eq_reported_of_reply h
  rfl

theorem settlements_append (es h : List Event) :
    settlements (es ++ h) = settlements es ++ settlements h := List.filterMap_append

/-! ### One move -/

/-- The job that the ledger executes. -/
def executes : Source → Multiset Disbursement
  | .resume k (.execute (.ok _)) => k.unanswered.elim 0 fun d => {d}
  | _ => 0

section Step

variable {w : World} {src : Source} {o : Step}

/-- A segment that does not get past the counter executes nothing. -/
theorem executes_of_idle
    (hcount : ∀ k ∈ Actor.Source.task src, k.run ≠ none → w.entrepot.pendingCount ≠ 0)
    (hidle : ∀ k ∈ Actor.Source.task src, k.run ≠ none → w.entrepot.pendingCount = 0) :
    executes src = 0 := by
  unfold executes
  split
  · rename_i k block
    cases k with
    | transfer f =>
        have hrun : (Task.transfer f).run ≠ none := Option.some_ne_none f
        exact absurd (hidle _ (Multiset.mem_singleton_self _) hrun)
          (hcount _ (Multiset.mem_singleton_self _) hrun)
    | _ => rfl
  · rfl

/-- A job that is executed will be acknowledged. -/
theorem Move.executed_balance (hm : Move D w src o)
    (hcount : ∀ k ∈ Actor.Source.task src, k.run ≠ none → w.entrepot.pendingCount ≠ 0) :
    acknowledged o.events + executedJobs o.spawned =
      executedJobs (Actor.Source.task src) + executes src := by
  cases hm with
  | idle run =>
      rw [executedJobs_eq_zero (runs_of_idle hcount run), executes_of_idle hcount run]
      rfl
  | relay hrun _ hrel =>
      rw [executedJobs_eq_zero (runs_of_relays hrel), Actor.Source.task,
        executedJobs_eq_zero (by simp [hrun] : runs {_} = 0)]
      rfl
  | tick | deposit | mint | listBegan | lockBegan | extTransfer | listed | delisted | locked | read
  | report | deleted | finalized | rejected => rfl
  | sent =>
      rw [executedJobs_eq_zero runs_of_sent]
      rfl
  | gaveUp =>
      rw [executedJobs_eq_zero (runs_of_relays fun _ hk => SettleWaiter.relays_of_mem_deliver hk)]
      rfl
  | queueStart pass =>
      rw [pass.executedJobs_eq_zero]
      rfl
  | @queueStep f reply n s ks hn pass =>
      rw [pass.executedJobs_eq_zero, acknowledged_answered f.job f.failed]
      rfl
  | @executed f r =>
      cases r with
      | err e => rfl
      | ok block => exact Multiset.zero_add _

/-- **What a move does to what is due**: it promises the jobs it queues, and takes out what it has
executed, dropped or deleted. -/
theorem Move.due_balance (hm : Move D w src o) (m : Multiset Task)
    (hcount : ∀ k ∈ Actor.Source.task src, k.run ≠ none → w.entrepot.pendingCount ≠ 0) :
    (escrow o.state (m + o.spawned)).due + executes src +
        (dropped o.events + LegendsNft.deleted o.events) =
      pushed o.events + (escrow w (Actor.Source.task src + m)).due := by
  have hjobs := (hm.balance hcount).jobs
  have hexecuted := hm.executed_balance hcount
  have hold := due_add_executedJobs w (Actor.Source.task src + m)
  have hnew := due_add_executedJobs o.state (m + o.spawned)
  rw [finished] at hjobs
  rw [executedJobs_add, heldJobs_add] at hold hnew
  ext d
  have h₁ := congrArg (Multiset.count d) hjobs
  have h₂ := congrArg (Multiset.count d) hexecuted
  have h₃ := congrArg (Multiset.count d) hold
  have h₄ := congrArg (Multiset.count d) hnew
  simp only [Multiset.count_add] at h₁ h₂ h₃ h₄ ⊢
  omega

/-- **What a move does to the balances**: nothing, or it deposits, or has a job executed. -/
theorem Move.ledger_cases (hm : Move D w src o)
    (hcount : ∀ k ∈ Actor.Source.task src, k.run ≠ none → w.entrepot.pendingCount ≠ 0) :
    (o.state.ledger = w.ledger ∧ executes src = 0) ∨
    (∃ sa n, src = .call (.deposit sa n) ∧
      o = ⟨{ w with ledger := Function.update w.ledger sa (w.ledger sa + n) }, [], []⟩) ∨
    ∃ f block, src = .resume (.transfer f) (.execute (.ok block)) ∧
      o.state.ledger = debit w.ledger f.job (.ok block) ∧ o.events = [] := by
  cases hm with
  | idle run => exact Or.inl ⟨rfl, executes_of_idle hcount run⟩
  | deposit => exact Or.inr (Or.inl ⟨_, _, rfl, rfl⟩)
  | @executed f r =>
      cases r with
      | ok block => exact Or.inr (Or.inr ⟨f, block, rfl, rfl, rfl⟩)
      | err e => exact Or.inl ⟨rfl, rfl⟩
  | _ => exact Or.inl ⟨rfl, rfl⟩

/-- **What the events of a move are to the escrow**: none of its jobs is concerned, or some are
cancelled, or those of a sale are promised. -/
theorem Move.action_cases (hm : Move D w src o) :
    (o.events.filterMap Event.action = [] ∧ pushed o.events = [] ∧
      (dropped o.events + LegendsNft.deleted o.events : Multiset Disbursement) = 0) ∨
    (∃ jobs, o.events.filterMap Event.action = [.cancel jobs] ∧ pushed o.events = [] ∧
      (dropped o.events + LegendsNft.deleted o.events : Multiset Disbursement) = jobs) ∨
    ∃ f b k s jobs, src = .resume (.reported f b k) .run ∧ f.transaction.price ≤ b ∧
      w.tokens.Owns D f.transaction.from' f.index ∧ Sale fees w.entrepot s w.now f b jobs ∧
      o.events = [.finalized f b jobs] := by
  cases hm with
  | finalized paid sale transferred =>
      exact Or.inr (Or.inr ⟨_, _, _, _, _, rfl, paid, Tokens.transfer_isOk_iff.1 ⟨_, transferred⟩,
        sale, rfl⟩)
  | deleted =>
      refine Or.inr (Or.inl ⟨_, rfl, rfl, ?_⟩)
      rw [show dropped _ = [] from rfl, LegendsNft.deleted, List.flatMap_singleton]
      exact Multiset.zero_add _
  | @queueStep f reply =>
      -- a job is dropped on three answers of the ledger
      rcases reply with - | block | ⟨e | e | e | - | e⟩
      · exact Or.inl ⟨rfl, rfl, rfl⟩
      · exact Or.inl ⟨rfl, rfl, rfl⟩
      · exact Or.inl ⟨rfl, rfl, rfl⟩
      · exact Or.inr (Or.inl ⟨{f.job}, rfl, rfl, rfl⟩)
      · exact Or.inr (Or.inl ⟨{f.job}, rfl, rfl, rfl⟩)
      · exact Or.inl ⟨rfl, rfl, rfl⟩
      · exact Or.inr (Or.inl ⟨{f.job}, rfl, rfl, rfl⟩)
  | _ => exact Or.inl ⟨rfl, rfl, rfl⟩

end Step

/-- What has been reported of a transaction that has not been settled is still there. -/
def Reported (w : World) (h : List Event) (m : Multiset Task) : Prop :=
  ∀ k ∈ m, ∀ f b, k.reply = some (f, b) →
    f.transaction ∉ (settlements h).map Settlement.transaction →
      b.toNat ≤ w.ledger f.transaction.bytes

theorem escrow_eq {w : World} {m : Multiset Task} {balance : SubAccount → ℕ}
    {due : Multiset Disbursement} (hbalance : w.ledger = balance) (hdue : (escrow w m).due = due) :
    escrow w m = ⟨balance, due⟩ := by
  rw [← hbalance, ← hdue]
  rfl

section Escrow

variable {d : Config} {src : Source} {m : Multiset Task} {o : Step}

/-- **A move that leaves the balances alone** does with the escrow what its events say, when it
settles no transaction a second time. -/
theorem Move.escrow_events (hm : Move D d.state src o)
    (hB : Bookkeeping D d.state d.history (Actor.Source.task src + m))
    (hR : Reported d.state d.history (Actor.Source.task src + m))
    (hsold : ∀ k r, src = .resume k r → ¬ Resells D d k)
    (hledger : o.state.ledger = d.state.ledger) (hnone : executes src = 0) :
    Escrow.Run terms (escrow d.state (Actor.Source.task src + m))
      (o.events.filterMap Event.action) (escrow o.state (m + o.spawned)) := by
  have hdue := hm.due_balance m fun k hk =>
    hB.counted.pendingCount_ne_zero (Multiset.mem_add.2 (Or.inl hk))
  rw [hnone, Multiset.add_zero] at hdue
  rcases hm.action_cases with ⟨hact, hpushed, hlost⟩ | ⟨jobs, hact, hpushed, hlost⟩ |
    ⟨f, b, k, s, jobs, rfl, hpaid, hown, hsale, hevents⟩
  · rw [hpushed, hlost, Multiset.coe_nil, Multiset.zero_add, Multiset.add_zero] at hdue
    rw [hact, escrow_eq hledger hdue]
    exact .refl _
  · rw [hpushed, hlost, Multiset.coe_nil, Multiset.zero_add] at hdue
    rw [hact, escrow_eq hledger rfl]
    exact .single (.cancel (hdue.symm.trans (Multiset.add_comm _ _)))
  · -- the subaccount of the transaction has no other jobs, and holds what has been reported
    have hmem : .reported f b k ∈
        Actor.Source.task (.resume (.reported f b k) .run : Source) + m :=
      Multiset.mem_add.2 (Or.inl (Multiset.mem_singleton_self _))
    have hnew : f.transaction ∉ (settlements d.history).map Settlement.transaction :=
      fun hold => hsold _ _ rfl ⟨(f, b), rfl, completes_of_sale hpaid hown hsale, hold⟩
    obtain ⟨e, he⟩ := (hB.sourced _ hmem).held f rfl
    have hlost : (dropped o.events + LegendsNft.deleted o.events : Multiset Disbursement) = 0 := by
      rw [hevents]
      rfl
    rw [hlost, hevents, pushed_finalized, Multiset.add_zero] at hdue
    rw [escrow_eq hledger hdue, hevents]
    have hsum : ((jobs : Multiset Disbursement).map cost).sum = b.toNat := by
      simpa using hsale.sum_jobs
    exact .single (.promise (fun j hj => (hsale.mem_jobs (Multiset.mem_coe.1 hj)).2)
      (hB.bytes_ne_of_due he hnew) (le_trans (le_of_eq hsum) (hR _ hmem f b rfl hnew)))

/-- **An executed transfer** pays its job. -/
theorem Move.escrow_pay {f : QueueFrame} {block : UInt64}
    (hm : Move D d.state (.resume (.transfer f) (.execute (.ok block))) o)
    (hB : Bookkeeping D d.state d.history ({.transfer f} + m))
    (hledger : o.state.ledger = debit d.state.ledger f.job (.ok block)) (hevents : o.events = []) :
    Escrow.Step terms (escrow d.state ({.transfer f} + m)) (.pay f.job)
      (escrow o.state (m + o.spawned)) := by
  have hdue := hm.due_balance m fun k hk =>
    hB.counted.pendingCount_ne_zero (Multiset.mem_add.2 (Or.inl hk))
  have hjob : (escrow d.state ({.transfer f} + m)).due =
      f.job ::ₘ (escrow o.state (m + o.spawned)).due := by
    rw [hevents] at hdue
    rw [← Multiset.singleton_add, Multiset.add_comm {f.job}]
    exact ((Multiset.add_zero _).symm.trans (hdue.trans (Multiset.zero_add _))).symm
  rw [escrow_eq hledger rfl]
  exact .pay hjob

/-- A move keeps the escrow solvent, when it settles no transaction a second time. -/
theorem Move.solvent (hm : Move D d.state src o)
    (hB : Bookkeeping D d.state d.history (Actor.Source.task src + m))
    (hR : Reported d.state d.history (Actor.Source.task src + m))
    (hsold : ∀ k r, src = .resume k r → ¬ Resells D d k)
    (hS : Escrow.Solvent terms (escrow d.state (Actor.Source.task src + m))) :
    Escrow.Solvent terms (escrow o.state (m + o.spawned)) := by
  rcases hm.ledger_cases fun k hk =>
      hB.counted.pendingCount_ne_zero (Multiset.mem_add.2 (Or.inl hk)) with
    ⟨hledger, hnone⟩ | ⟨sa, n, rfl, rfl⟩ | ⟨f, block, rfl, hledger, hevents⟩
  · exact (hm.escrow_events hB hR hsold hledger hnone).solvent hS
  · rw [Actor.Source.task, Multiset.zero_add] at hS
    rw [Multiset.coe_nil, Multiset.add_zero]
    exact (Escrow.Step.deposit (escrow d.state m) sa n).solvent hS
  · exact (hm.escrow_pay hB hledger hevents).solvent hS

/-- What has been reported is not paid out. -/
theorem Reported.move (hB : Bookkeeping D d.state d.history (Actor.Source.task src + m))
    (hR : Reported d.state d.history (Actor.Source.task src + m)) (hm : Move D d.state src o) :
    Reported o.state (o.events ++ d.history) (m + o.spawned) := by
  intro k hk f b hreply hnew
  rw [settlements_append, List.map_append, List.mem_append, not_or] at hnew
  rcases Multiset.mem_add.1 hk with hk | hk
  · -- only a job of a sale of this transaction could have been executed
    have hmem : k ∈ Actor.Source.task src + m := Multiset.mem_add.2 (Or.inr hk)
    refine le_trans (hR k hmem f b hreply hnew.2) (Nat.le_of_not_lt fun hlt => ?_)
    obtain ⟨g, block, rfl, hbytes, -⟩ := hm.exists_executed hlt
    obtain ⟨e, he⟩ := (hB.sourced k hmem).held f (Task.held_of_reply hreply)
    exact hB.bytes_ne_of_due he hnew.2 g.job
      (mem_due (Multiset.mem_add.2 (Or.inl (Multiset.mem_singleton_self _)))) hbytes
  · -- what has just been reported is there
    have hev := hm.reply_cases (by simpa using hk) hreply
    have hstate := (hm.held_cases (by simpa using hk) (Task.held_of_reply hreply)).1
    have hreport : ⟨f.transaction.bytes, b, d.state.now⟩ ∈ reports (o.events ++ []) := by
      rw [List.append_nil]
      exact List.mem_filterMap.2 ⟨_, hev, rfl⟩
    rcases hm.report_cases hreport with hnil | ⟨-, hbalance⟩
    · exact absurd hnil List.not_mem_nil
    · rw [hstate]
      exact le_of_eq hbalance

end Escrow

/-- An upgrade between two runs of the queue leaves the escrow as it is. -/
theorem escrow_upgrade {w : World} {m : Multiset Task} (hruns : ∀ k ∈ m, k.run = none)
    {canister : Canister} {supply : UInt16} (hup : w.canister.upgrade supply = .ok canister) :
    escrow { w with canister := canister } 0 = escrow w m := by
  have hnone := runs_eq_zero hruns
  have hheld : heldJobs m = 0 := by rw [heldJobs, hnone, Multiset.zero_bind]
  refine escrow_eq rfl ?_
  change (canister.entrepot.pendingDisbursements + 0 - 0 : Multiset Disbursement) =
    w.entrepot.pendingDisbursements + heldJobs m - executedJobs m
  rw [hheld, executedJobs_eq_zero hnone, (Canister.pendingDisbursements_upgrade hup).1]
  rfl

/-- In a solvent escrow, every subaccount covers its jobs that have not been executed. -/
theorem owed_le_of_solvent {w : World} {m : Multiset Task}
    (h : Escrow.Solvent terms (escrow w m)) (sa : SubAccount) :
    owed sa (w.entrepot.pendingDisbursements + heldJobs m) ≤
      w.ledger sa + owed sa (executedJobs m) := by
  rw [← due_add_executedJobs, owed_add]
  exact Nat.add_le_add_right (h sa) _

namespace Interface

variable {H : Collection.Host} {c₀ c : Config}

/-- A method outside the market does nothing with the escrow, or an admin withdraws from an account
that owes nothing. -/
theorem Aside.escrow_cases {s : State} {src : Source} {w : World} {h : List Event}
    {m : Multiset LegendsNft.Task} (ha : Aside s src w) (hB : Bookkeeping D s.world h m)
    (hlt : s.world.entrepot.nextSubAccount < counterBound) :
    escrow w m = escrow s.world m ∨
    ∃ amount block, src = .resume (.nnsTransfer amount) (.execute (.ok block)) ∧
      Escrow.Step terms (escrow s.world m)
        (.withdraw defaultSubAccount (cost ⟨0, "", defaultSubAccount, amount⟩)) (escrow w m) := by
  cases ha with
  | kept entrepot ledger =>
      refine Or.inl (escrow_eq ledger ?_)
      exact congrArg (fun e : Entrepot =>
        (e.pendingDisbursements + heldJobs m - executedJobs m : Multiset Disbursement)) entrepot
  | unlisted => exact Or.inl rfl
  | @withdrawn amount r =>
      cases r with
      | err e => exact Or.inl rfl
      | ok block =>
          refine Or.inr ⟨amount, block, rfl, .withdraw _ fun j hj => ?_⟩
          exact hB.bytes_ne_default hlt (Multiset.mem_of_le (due_le _ _) hj)

theorem Aside.reported {s : State} {src : Source} {w : World} {h : List Event}
    {m : Multiset LegendsNft.Task} (ha : Aside s src w) (hB : Bookkeeping D s.world h m)
    (hlt : s.world.entrepot.nextSubAccount < counterBound) (hR : Reported s.world h m) :
    Reported w h m := by
  intro k hk f b hreply hnew
  refine le_trans (hR k hk f b hreply hnew) (Nat.le_of_not_lt fun hdebit => ?_)
  obtain ⟨e, he⟩ := (hB.sourced k hk).held f (Task.held_of_reply hreply)
  exact hB.ne_default hlt (hB.taken_of_locked he) (ha.exists_withdrawal hdebit).1

/-- Nothing is due from the fresh canister. -/
theorem due_initial (hc₀ : Initial c₀) : (escrow (market c₀).state (market c₀).pool).due = 0 := by
  have hqueue : (market c₀).state.entrepot.pendingDisbursements = [] := by
    rw [hc₀.market.entrepot]
    rfl
  rw [escrow, hqueue, hc₀.market.2.1]
  rfl

/-- What the steps of the escrow rest on, and that it is solvent. -/
structure Custody (D : Deployment) (w : World) (h : List LegendsNft.Event)
    (m : Multiset LegendsNft.Task) : Prop where
  bookkeeping : Bookkeeping D w h m
  reported : Reported w h m
  solvent : Escrow.Solvent terms (escrow w m)

/-- The condition on a segment of the market says that it settles nothing a second time. -/
theorem not_resells_of_segment {D : Deployment} {d : LegendsNft.Config} {src : LegendsNft.Source}
    (hg : ((soldOnce D).and betweenRuns).segment d src) :
    ∀ k r, src = .resume k r → ¬ Resells D d k := by
  rintro k r rfl
  exact hg.1

/-- A run of the whole canister keeps the custody. -/
theorem custody_of_run (hc₀ : Initial c₀)
    (h : Actor.Run (program H) (unrestored H ((soldOnce H.deployment).and betweenRuns)) c₀ c)
    (hlt : c.state.world.entrepot.nextSubAccount < counterBound) :
    Custody H.deployment (market c).state (market c).history (market c).pool := by
  refine multiset_of_turns (J := fun w h m => w.entrepot.nextSubAccount < counterBound →
    Custody H.deployment w h m) ?_ ?_ ?_ h (fun _ => ⟨.initial hc₀.market, ?_, fun sa => ?_⟩) hlt
  · intro d src m o _ hJ hg hm hlt
    have hle := hm.nextSubAccount_le
    obtain ⟨hB, hR, hS⟩ := hJ (by omega)
    exact ⟨hB.move hlt hm, hR.move hB hm, hm.solvent hB hR (not_resells_of_segment hg) hS⟩
  · intro s src w h m hJ ha hlt
    rw [ha.nextSubAccount] at hlt
    obtain ⟨hB, hR, hS⟩ := hJ hlt
    refine ⟨ha.bookkeeping hB, ha.reported hB hlt hR, ?_⟩
    rcases ha.escrow_cases hB hlt with heq | ⟨amount, block, -, hstep⟩
    · rw [heq]
      exact hS
    · exact hstep.solvent hS
  · intro d supply canister hJ hg hup hlt
    rw [World.entrepot_mk, Canister.nextSubAccount_upgrade hup] at hlt
    obtain ⟨hB, -, hS⟩ := hJ hlt
    have hruns : ∀ k ∈ (d.pool : Multiset LegendsNft.Task), k.run = none :=
      fun k hk => hg.2 k (Multiset.mem_coe.1 hk)
    refine ⟨hB.upgrade hruns hup, fun _ hk => absurd hk (Multiset.notMem_zero _), ?_⟩
    rw [escrow_upgrade hruns hup]
    exact hS
  · rw [hc₀.market.2.1]
    exact fun _ hk => absurd hk List.not_mem_nil
  · rw [due_initial hc₀]
    exact Nat.zero_le _

/-- **The escrow of the canister is solvent** in every run. -/
theorem solvent_of_run (hc₀ : Initial c₀)
    (h : Actor.Run (program H) (unrestored H ((soldOnce H.deployment).and betweenRuns)) c₀ c)
    (hlt : c.state.world.entrepot.nextSubAccount < counterBound) :
    Escrow.Solvent terms (escrow (market c).state (market c).pool) :=
  (custody_of_run hc₀ h hlt).solvent

/-! ### Step by step -/

/-- What a source is to the escrow: a deposit, a job that is paid, or a withdrawal. -/
def sourceActions : Source → List (Escrow.Action SubAccount Disbursement)
  | .call (.collection (.market (.deposit bytes n))) => [.deposit bytes n]
  | .resume (.collection (.market (.transfer f))) (.collection (.market (.execute (.ok _)))) =>
      [.pay f.job]
  | .resume (.nnsTransfer amount) (.execute (.ok _)) =>
      [.withdraw defaultSubAccount (cost ⟨0, "", defaultSubAccount, amount⟩)]
  | _ => []

/-- **What a step does with the escrow**, read off what starts its segment and off its events; an
upgrade does nothing. -/
def actions : Option Source → List Collection.Event → List (Escrow.Action SubAccount Disbursement)
  | some src, es => sourceActions src ++ (es.filterMap marketEvent).filterMap Event.action
  | none, _ => []

theorem sourceActions_cases (src : Source) : sourceActions src = [] ∨
    (∃ bytes n, src = .call (.collection (.market (.deposit bytes n)))) ∨
    (∃ f block, src = .resume (.collection (.market (.transfer f)))
      (.collection (.market (.execute (.ok block))))) ∨
    ∃ amount block, src = .resume (.nnsTransfer amount) (.execute (.ok block)) := by
  unfold sourceActions
  split
  · exact Or.inr (Or.inl ⟨_, _, rfl⟩)
  · exact Or.inr (Or.inr (Or.inl ⟨_, _, rfl⟩))
  · exact Or.inr (Or.inr (Or.inr ⟨_, _, rfl⟩))
  · exact Or.inl rfl

/-- **A segment does with the escrow what its source and its events say.** -/
theorem escrow_of_segment {d : Config} {src : Source} {m : Multiset LegendsNft.Task} {o : Step}
    (hB : Bookkeeping H.deployment (market d).state (market d).history
      (src.task.filterMap Task.market + m))
    (hR : Reported (market d).state (market d).history (src.task.filterMap Task.market + m))
    (hlt : d.state.world.entrepot.nextSubAccount < counterBound)
    (hg : (unrestored H ((soldOnce H.deployment).and betweenRuns)).segment d src)
    (ho : (program H).segment d.state src = some o) :
    Escrow.Run terms (escrow d.state.world (src.task.filterMap Task.market + m))
      (actions (some src) o.events)
      (escrow o.state.world (m + (o.spawned.filterMap Task.market : List LegendsNft.Task))) := by
  rcases sourceActions_cases src with
    hnil | ⟨bytes, n, rfl⟩ | ⟨f, block, rfl⟩ | ⟨amount, block, rfl⟩
  · rw [actions, hnil, List.nil_append]
    cases turn_of_segment ho with
    | @move src' hsrc hm =>
        rw [task_of_marketSource hsrc] at hB hR ⊢
        rcases hm.ledger_cases fun k hk =>
            hB.counted.pendingCount_ne_zero (Multiset.mem_add.2 (Or.inl hk)) with
          ⟨hledger, hnone⟩ | ⟨sa, n, rfl, -⟩ | ⟨f, block, rfl, -⟩
        · exact Move.escrow_events (d := market d) hm hB hR
            (not_resells_of_segment (segment_of_unrestored hg hsrc)) hledger hnone
        all_goals
          -- such a source has an action
          unfold marketSource at hsrc
          split at hsrc <;> cases hsrc
          cases hnil
    | aside hsrc ha hspawned hevents =>
        rw [filterMap_task_eq_zero hsrc, Multiset.zero_add] at hB ⊢
        rw [hspawned, hevents, Multiset.coe_nil, Multiset.add_zero]
        rcases ha.escrow_cases hB hlt with heq | ⟨amount, block, rfl, -⟩
        · rw [heq]
          exact .refl _
        · cases hnil
    | restored hsrc hadmin =>
        subst hsrc
        exact absurd (hadmin.symm.trans (hg.2 _ rfl)) (by decide)
  · cases ho
    have hstep := Escrow.Step.deposit (T := terms) (escrow d.state.world m) bytes n
    rw [show Actor.Source.task _ = 0 from rfl, Multiset.filterMap_zero, Multiset.zero_add]
    exact .single ((Multiset.add_zero m).symm ▸ hstep)
  · cases ho
    exact .single (Move.escrow_pay (d := market d) .executed hB rfl rfl)
  · cases ho
    have htask : (Actor.Source.resume (.nnsTransfer amount) (.execute (.ok block)) :
        Source).task.filterMap Task.market = 0 := rfl
    rw [htask, Multiset.zero_add] at hB ⊢
    have hstep : Escrow.Step terms (escrow d.state.world m)
        (.withdraw defaultSubAccount (cost ⟨0, "", defaultSubAccount, amount⟩)) _ :=
      .withdraw _ fun j hj => hB.bytes_ne_default hlt (Multiset.mem_of_le (due_le _ _) hj)
    exact .single ((Multiset.add_zero m).symm ▸ hstep)

theorem exists_transfer {k : Task} (h : (k.market.bind LegendsNft.Task.unanswered).isSome = true) :
    ∃ f, k = .collection (.market (.transfer f)) := by
  cases k with
  | collection k =>
      cases k with
      | market k =>
          cases k with
          | transfer f => exact ⟨f, rfl⟩
          | _ => cases h
      | _ => cases h
  | _ => cases h

/-- A step of the canister does with the escrow what its source and its events say. -/
theorem escrow_of_step {c' : Config} {a : Actor.Act Input Wake UInt16} (hc₀ : Initial c₀)
    (h : Actor.Run (program H) (unrestored H ((soldOnce H.deployment).and betweenRuns)) c₀ c)
    (ha : (unrestored H ((soldOnce H.deployment).and betweenRuns)).Allows c a)
    (hs : (program H).step c a = some c')
    (hlt : c.state.world.entrepot.nextSubAccount < counterBound) :
    ∃ es, c'.history = es ++ c.history ∧
      Escrow.Run terms (escrow (market c).state (market c).pool) (actions (c.source a) es)
        (escrow (market c').state (market c').pool) := by
  obtain ⟨hB, hR, -⟩ := custody_of_run hc₀ h hlt
  have hcoe (l : List Task) : (l.filterMap Task.market : Multiset LegendsNft.Task) =
      (l : Multiset Task).filterMap Task.market := rfl
  rcases Actor.Program.step_cases hs with
    ⟨i, o, rfl, ho, rfl⟩ | ⟨n, r, k, o, rfl, hk, ho, rfl⟩ | ⟨u, o, rfl, ho, rfl⟩
  · refine ⟨o.events, rfl, ?_⟩
    have hpool : ((market c).pool : Multiset LegendsNft.Task) =
        (Actor.Source.call i : Source).task.filterMap Task.market + (market c).pool :=
      (Multiset.zero_add _).symm
    have hnew : (market ⟨o.state, c.pool ++ o.spawned, o.events ++ c.history⟩).pool =
        (market c).pool ++ o.spawned.filterMap Task.market := List.filterMap_append
    rw [hpool] at hB hR ⊢
    rw [hnew, ← Multiset.coe_add]
    exact escrow_of_segment hB hR hlt ha (show (program H).segment _ (.call i) = _ from ho)
  · refine ⟨o.events, rfl, ?_⟩
    have hpool : ((market c).pool : Multiset LegendsNft.Task) =
        (Actor.Source.resume k r : Source).task.filterMap Task.market +
          ((c.pool.eraseIdx n).filterMap Task.market : List LegendsNft.Task) := by
      rw [hcoe, ← Multiset.filterMap_add, Actor.Source.task, Multiset.singleton_add,
        ← Actor.Run.pool_eq_cons hk]
      rfl
    have hnew : (market ⟨o.state, c.pool.eraseIdx n ++ o.spawned, o.events ++ c.history⟩).pool =
        (c.pool.eraseIdx n).filterMap Task.market ++ o.spawned.filterMap Task.market :=
      List.filterMap_append
    rw [hpool] at hB hR ⊢
    rw [hnew, ← Multiset.coe_add, Actor.Config.source, hk]
    exact escrow_of_segment hB hR hlt (ha k hk)
      (show (program H).segment _ (.resume k r) = _ from ho)
  · refine ⟨o.events, rfl, ?_⟩
    obtain ⟨canister, hup, ho'⟩ := restart_eq_some ho
    have hworld : o.state.world = { c.state.world with canister := canister } :=
      congrArg Actor.Outcome.state ho'
    have hspawned : o.spawned.filterMap Task.market = [] := congrArg Actor.Outcome.spawned ho'
    have heq : escrow o.state.world (o.spawned.filterMap Task.market : List LegendsNft.Task) =
        escrow (market c).state (market c).pool := by
      rw [hworld, hspawned]
      exact escrow_upgrade (fun k hk => ha.2 k (Multiset.mem_coe.1 hk)) hup
    change Escrow.Run terms _ [] (escrow o.state.world (o.spawned.filterMap Task.market :
      List LegendsNft.Task))
    rw [heq]
    exact .refl _

/-- **The canister is an escrow.**  From every configuration of every run of the whole canister in
which no transaction is settled a second time, no admin restores the marketplace and no upgrade cuts
off a run of the queue, every further step of this kind does with the escrow what it says: a deposit
deposits its amount, a sale promises its jobs from the subaccount of its transaction, which has no
others and covers them, an executed transfer pays its job, jobs that are dropped or deleted are
cancelled, an executed withdrawal takes money out of the account of the canister, which owes
nothing, and any other step does nothing.  These actions determine what becomes of the escrow. -/
theorem refines_escrow {c' : Config} {a : Actor.Act Input Wake UInt16} (hc₀ : Initial c₀)
    (h : Actor.Run (program H) (unrestored H ((soldOnce H.deployment).and betweenRuns)) c₀ c)
    (ha : (unrestored H ((soldOnce H.deployment).and betweenRuns)).Allows c a)
    (hs : (program H).step c a = some c')
    (hbound : c.state.world.entrepot.nextSubAccount < counterBound) :
    (escrow (market c₀).state (market c₀).pool).due = 0 ∧
    ∃ es, c'.history = es ++ c.history ∧
      Escrow.Run terms (escrow (market c).state (market c).pool) (actions (c.source a) es)
        (escrow (market c').state (market c').pool) ∧
      ∀ e, Escrow.Run terms (escrow (market c).state (market c).pool) (actions (c.source a) es) e →
        e = escrow (market c').state (market c').pool := by
  obtain ⟨es, hes, hrun⟩ := escrow_of_step hc₀ h ha hs hbound
  exact ⟨due_initial hc₀, es, hes, hrun, fun e he => he.eq hrun⟩

/-- After the first disbursement of a sale the second one is executed: its job is paid. -/
theorem refines_escrow_sample : ∃ c c' f, (program .sample).exec Config.sample
      (disbursing.map ofChoice) = some c ∧
    (program .sample).step c (.resume 0 (.collection (.market (.execute (.ok 2))))) = some c' ∧
    Escrow.Run terms (escrow (market c).state (market c).pool) [.pay (QueueFrame.job f)]
      (escrow (market c').state (market c').pool) := by
  obtain ⟨c, hc, hallow, hbound, c', hc', hnew, k, hk, hsome⟩ := (by decide :
    ∃ c ∈ (program .sample).exec Config.sample (disbursing.map ofChoice),
      (unrestored .sample ((soldOnce Collection.Host.sample.deployment).and
        betweenRuns)).AllowsAll (program .sample) Config.sample (disbursing.map ofChoice) ∧
      c.state.world.entrepot.nextSubAccount < 4 ∧
      ∃ c' ∈ (program .sample).step c (.resume 0 (.collection (.market (.execute (.ok 2))))),
        c'.history.length = c.history.length ∧
        ∃ k ∈ c.pool[0]?, (k.market.bind LegendsNft.Task.unanswered).isSome = true)
  obtain ⟨f, rfl⟩ := exists_transfer hsome
  obtain ⟨-, es, hes, hrun, -⟩ := refines_escrow Config.initial_sample
    (Actor.run_of_exec hallow hc) (a := .resume 0 (.collection (.market (.execute (.ok 2))))) (by
      intro k' hk'
      cases hk.symm.trans hk'
      refine fun src hsrc => ?_
      cases hsrc
      exact ⟨not_resells_of_reply rfl, trivial⟩) hc' (by
    unfold counterBound
    omega)
  refine ⟨c, c', f, hc, hc', ?_⟩
  have hnil : es = [] := by
    have hlen := congrArg List.length hes
    rw [List.length_append] at hlen
    exact List.length_eq_zero_iff.1 (by omega)
  rw [hnil, Actor.Config.source, hk] at hrun
  exact hrun

/-- **Every transfer is covered.**  In every run of the whole canister in which no transaction is
settled a second time, no admin restores the marketplace and no upgrade cuts off a run of the queue,
every subaccount covers its jobs that have not been executed, so that the ledger is never asked for
a transfer it has to refuse for want of funds. -/
theorem transfers_covered (hc₀ : Initial c₀)
    (h : Actor.Run (program H) (unrestored H ((soldOnce H.deployment).and betweenRuns)) c₀ c)
    (hbound : c.state.world.entrepot.nextSubAccount < counterBound) :
    (∀ sa, owed sa (jobsLeft (market c)) ≤
      c.state.world.ledger sa + owed sa (executedJobs (market c).pool)) ∧
    ∀ f, .collection (.market (.transfer f)) ∈ c.pool →
      cost f.job ≤ c.state.world.ledger f.job.bytes := by
  have hS := solvent_of_run hc₀ h hbound
  refine ⟨owed_le_of_solvent hS, fun f hf => hS.cost_le (mem_due ?_)⟩
  exact Multiset.mem_coe.2 (List.mem_filterMap.2 ⟨_, hf, rfl⟩)

/-- The second disbursement of a sale has been submitted, and is covered. -/
theorem transfers_covered_sample : ∃ c f, (program .sample).exec Config.sample
      (disbursing.map ofChoice) = some c ∧ .collection (.market (.transfer f)) ∈ c.pool ∧
    cost f.job ≤ c.state.world.ledger f.job.bytes := by
  obtain ⟨c, hc, hallow, hbound, k, hk, hsome⟩ := (by decide :
    ∃ c ∈ (program .sample).exec Config.sample (disbursing.map ofChoice),
      (unrestored .sample ((soldOnce Collection.Host.sample.deployment).and betweenRuns)).AllowsAll
        (program .sample) Config.sample (disbursing.map ofChoice) ∧
      c.state.world.entrepot.nextSubAccount < 4 ∧
      ∃ k ∈ c.pool, (k.market.bind LegendsNft.Task.unanswered).isSome = true)
  obtain ⟨f, rfl⟩ := exists_transfer hsome
  have hcovered := (transfers_covered Config.initial_sample (Actor.run_of_exec hallow hc) (by
    unfold counterBound
    omega)).2 f hk
  exact ⟨c, f, hc, hk, hcovered⟩

end Interface

/-! ### What becomes of a job -/

/-- The answers to a transfer that carries no date: it is neither too old nor a duplicate. -/
def Undated : TransferResult → Prop
  | .err (.txTooOld _) => False
  | .err (.txDuplicate _) => False
  | _ => True

instance : ∀ r, Decidable (Undated r)
  | .ok _ => isTrue trivial
  | .err (.badFee _) => isTrue trivial
  | .err (.insufficientFunds _) => isTrue trivial
  | .err (.txTooOld _) => isFalse id
  | .err .txCreatedInFuture => isTrue trivial
  | .err (.txDuplicate _) => isFalse id

/-- The ledger is truthful, and answers as it does to transfers without a date. -/
def truthful : Guard where
  call := fun _ _ => True
  resume := fun c k r => Truthful c.state.ledger k r ∧ ∀ a ∈ r.answer, Undated a
  restart := fun _ _ => True

instance (c : Config) (i : Input) : Decidable (truthful.call c i) := isTrue trivial

instance (c : Config) (k : Task) (r : Wake) : Decidable (truthful.resume c k r) :=
  inferInstanceAs (Decidable (Truthful c.state.ledger k r ∧ ∀ a ∈ r.answer, Undated a))

instance (c : Config) (u : UInt16) : Decidable (truthful.restart c u) := isTrue trivial

/-- The answer that a continuation carries does not drop its job. -/
def Task.Spares : Task → Prop
  | .transferred f reply => dropped (answered f.job reply) = []
  | _ => True

theorem Task.spares_of_run {k : Task} (h : k.run = none) : k.Spares := by
  cases k with
  | transferred f reply => cases h
  | _ => trivial

/-- A covered transfer without a date is not dropped. -/
theorem dropped_answered {funds : ℕ} {job : Disbursement} {r : TransferResult}
    (hcovered : cost job ≤ funds) (hanswer : Answers funds job r) (hdate : Undated r) :
    dropped (answered job (some r)) = [] := by
  rcases r with block | ⟨e | e | e | - | e⟩
  · rfl
  · rfl
  · exact absurd hanswer (Nat.not_lt_of_le hcovered)
  · exact absurd hdate id
  · rfl
  · exact absurd hdate id

section Step

variable {w : World} {src : Source} {o : Step}

theorem Move.dropped_eq_nil (hm : Move D w src o)
    (hsrc : ∀ k ∈ Actor.Source.task src, k.Spares) : dropped o.events = [] := by
  cases hm with
  | queueStep => exact hsrc _ (Multiset.mem_singleton_self _)
  | _ => rfl

theorem QueueRun.spares {jobs : Multiset Disbursement} {s s' : Entrepot} {ks : List Task}
    (h : QueueRun jobs s s' ks) {k : Task} (hk : k ∈ ks) : k.Spares := by
  cases h with
  | finished => exact absurd hk List.not_mem_nil
  | submitted f =>
      rw [List.mem_singleton.1 hk]
      trivial

/-- What a move adds to the pool drops nothing, given the answers of the ledger. -/
theorem Move.spares (hm : Move D w src o)
    (hanswer : ∀ f r, src = .resume (.transfer f) (.execute r) →
      dropped (answered f.job (some r)) = []) {k : Task} (hk : k ∈ o.spawned) : k.Spares := by
  cases hm with
  | executed =>
      rw [List.mem_singleton.1 hk]
      exact hanswer _ _ rfl
  | rejected =>
      rw [List.mem_singleton.1 hk]
      rfl
  | queueStart pass => exact pass.spares hk
  | queueStep _ pass => exact pass.spares hk
  | relay _ _ hrel => exact Task.spares_of_run (hrel k hk).run
  | gaveUp => exact Task.spares_of_run (SettleWaiter.relays_of_mem_deliver hk).run
  | sent =>
      obtain ⟨token, -, rfl⟩ := List.mem_map.1 hk
      trivial
  | idle | tick | deposit | mint | deleted | listed | delisted | locked =>
      exact absurd hk List.not_mem_nil
  | listBegan | lockBegan | extTransfer | read | report | finalized =>
      rw [List.mem_singleton.1 hk]
      trivial

end Step

namespace Interface

variable {H : Collection.Host} {c₀ c : Config}

theorem soldOnce_of_truthful
    (h : Actor.Run (program H)
      (unrestored H (truthful.and ((soldOnce H.deployment).and betweenRuns))) c₀ c) :
    Actor.Run (program H) (unrestored H ((soldOnce H.deployment).and betweenRuns)) c₀ c := by
  refine unrestored_mono (fun d src hg => ?_) (fun d u hg => ?_) h
  · exact (Actor.Guard.segment_and.1 hg).2
  · exact And.right hg

/-- No job is dropped. -/
theorem dropped_of_run (hc₀ : Initial c₀)
    (h : Actor.Run (program H)
      (unrestored H (truthful.and ((soldOnce H.deployment).and betweenRuns))) c₀ c)
    (hlt : c.state.world.entrepot.nextSubAccount < counterBound) :
    dropped (market c).history = [] := by
  refine (multiset_of_turns (J := fun w h m => w.entrepot.nextSubAccount < counterBound →
    dropped h = [] ∧ ∀ k ∈ m, k.Spares) ?_ ?_ ?_ (unrestored_assume (J := fun d =>
      d.state.entrepot.nextSubAccount < counterBound →
        Escrow.Solvent terms (escrow d.state d.pool))
      (fun d hd => solvent_of_run hc₀ (soldOnce_of_truthful hd)) h) ?_ hlt).1
  · intro d src m o hpool hJ hg hm hlt
    have hle := hm.nextSubAccount_le
    obtain ⟨hnil, hspares⟩ := hJ (by omega)
    obtain ⟨hsolvent, hg⟩ := Actor.Guard.segment_assuming.1 hg
    have hS := hsolvent (by omega)
    have hsrc : ∀ k ∈ Actor.Source.task src, k.Spares :=
      fun k hk => hspares k (Multiset.mem_add.2 (Or.inl hk))
    refine ⟨?_, fun k hk => ?_⟩
    · rw [dropped, List.filterMap_append, ← dropped, ← dropped, hm.dropped_eq_nil hsrc, hnil]
      rfl
    · rcases Multiset.mem_add.1 hk with hk | hk
      · exact hspares k (Multiset.mem_add.2 (Or.inr hk))
      · refine hm.spares ?_ (Multiset.mem_coe.1 hk)
        rintro f r rfl
        have hmem : Task.transfer f ∈ (d.pool : Multiset LegendsNft.Task) := by
          rw [hpool]
          exact Multiset.mem_add.2 (Or.inl (Multiset.mem_singleton_self _))
        exact dropped_answered (hS.cost_le (mem_due hmem)) (hg.1.1 _ rfl _ rfl) (hg.1.2 _ rfl)
  · intro s src w h m hJ ha hlt
    rw [ha.nextSubAccount] at hlt
    exact hJ hlt
  · intro d supply canister hJ _ hup hlt
    rw [World.entrepot_mk, Canister.nextSubAccount_upgrade hup] at hlt
    exact ⟨(hJ hlt).1, fun _ hk => absurd hk (Multiset.notMem_zero _)⟩
  · intro _
    rw [hc₀.market.2.1, hc₀.market.2.2]
    exact ⟨rfl, fun _ hk => absurd hk (Multiset.notMem_zero _)⟩

/-- **What becomes of the proceeds.**  In a run as above with a ledger that answers truthfully, and
as it does to transfers without a date, no job is ever dropped: what has been queued has been paid,
has been deleted by an admin, or is still queued or held, and then it is covered. -/
theorem proceeds_paid (hc₀ : Initial c₀)
    (h : Actor.Run (program H)
      (unrestored H (truthful.and ((soldOnce H.deployment).and betweenRuns))) c₀ c)
    (hbound : c.state.world.entrepot.nextSubAccount < counterBound) :
    (pushed (market c).history : Multiset Disbursement) =
      jobsLeft (market c) + acknowledged (market c).history + deleted (market c).history ∧
    ∀ sa, owed sa (jobsLeft (market c)) ≤
      c.state.world.ledger sa + owed sa (executedJobs (market c).pool) := by
  have hsold := soldOnce_of_truthful h
  have hB := books_of_run (fun _ _ hg => And.right hg) hc₀ hsold hbound
  have hnone := dropped_of_run hc₀ h hbound
  refine ⟨?_, owed_le_of_solvent (solvent_of_run hc₀ hsold hbound)⟩
  have haccount : (pushed (market c).history : Multiset Disbursement) = jobsLeft (market c) +
      (acknowledged (market c).history + dropped (market c).history +
        deleted (market c).history) := hB.account
  rw [haccount, hnone, Multiset.coe_nil, Multiset.add_zero, Multiset.add_assoc]

/-- A sale and its disbursements. -/
def drainedSale : List Choice :=
  (LegendsNft.Choice.mint ⟨[1]⟩ ++ LegendsNft.Choice.sale ⟨[1]⟩ 1 40000 "C" ++ drain).map ofChoice

/-- All three disbursements of a sale are paid, the second one after a wrong fee. -/
theorem proceeds_paid_sample : ∃ c, (program .sample).exec Config.sample drainedSale = some c ∧
    (pushed (market c).history).length = 3 ∧
    (pushed (market c).history : Multiset Disbursement) = acknowledged (market c).history := by
  obtain ⟨c, hc, hallow, hbound, hlen, hqueue, hpool, hdeleted⟩ := (by decide :
    ∃ c ∈ (program .sample).exec Config.sample drainedSale,
      (unrestored .sample (truthful.and ((soldOnce Collection.Host.sample.deployment).and
        betweenRuns))).AllowsAll (program .sample) Config.sample drainedSale ∧
      c.state.world.entrepot.nextSubAccount < 4 ∧ (pushed (market c).history).length = 3 ∧
      c.state.world.entrepot.pendingDisbursements = [] ∧ (market c).pool.length = 0 ∧
      deleted (market c).history = [])
  have hpaid := (proceeds_paid Config.initial_sample (Actor.run_of_exec hallow hc) (by
    unfold counterBound
    omega)).1
  have hleft : jobsLeft (market c) = 0 := by
    rw [jobsLeft, List.length_eq_zero_iff.1 hpool]
    exact congrArg (fun jobs : List Disbursement => (jobs : Multiset Disbursement) + 0) hqueue
  rw [hleft, hdeleted, Multiset.zero_add, Multiset.coe_nil, Multiset.add_zero] at hpaid
  exact ⟨c, hc, hlen, hpaid⟩

end Interface

end LegendsNft
