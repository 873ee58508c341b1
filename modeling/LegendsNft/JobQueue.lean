/-
**No disbursement is lost or duplicated.**

The jobs of the queue are spread over the state, the locals of the suspended runs of
`cronDisbursements`, and the past: a run takes one job after the other out of the shared list, keeps
the one it has submitted and those it has put aside in its locals, and puts the latter back at its
end.  Several runs overlap, `settle` pushes jobs and an administrator deletes some in between.

The account is kept as multisets of jobs.  One segment moves jobs from one place to another, and a
run of the canister is a sequence of such transfers, so that what has been pushed is always what is
in one of the places.

Main definitions:

* `LegendsNft.acknowledged`, `LegendsNft.dropped`, `LegendsNft.deleted` — the jobs that have left
  the queue, read off the history;
* `LegendsNft.runs`, `LegendsNft.submitted`, `LegendsNft.heldJobs` — the suspended runs of a pool,
  the jobs they have submitted, and all the jobs they hold;
* `LegendsNft.jobAccount` — **the account of the jobs**;
* `LegendsNft.betweenRuns` — the condition on upgrades.

Main results:

* `LegendsNft.Move.balance` — **one segment moves jobs, and neither loses nor makes any**;
* `LegendsNft.counted_of_run`, `LegendsNft.balance_of_run` — the counter and the account of a run;
* `LegendsNft.jobs_conserved` — **the account from the installation on**.
-/

import LegendsNft.Discipline
import Mathlib.Data.Multiset.Bind

set_option relaxedAutoImplicit false
set_option autoImplicit false

namespace LegendsNft

open Entrepot

variable {D : Deployment} {c₀ c : Config}

/-! ### Where the jobs are -/

namespace Event

/-- The job an event acknowledges. -/
def acknowledgement : Event → Option Disbursement
  | .acknowledged job => some job
  | _ => none

/-- The job an event drops on one of the three errors that give a transfer up.  A job that is
dropped on any other answer is missing from the account. -/
def drop : Event → Option Disbursement
  | .dropped job (some (.err (.insufficientFunds _))) => some job
  | .dropped job (some (.err (.txDuplicate _))) => some job
  | .dropped job (some (.err (.txTooOld _))) => some job
  | _ => none

/-- The jobs an event deletes. -/
def deletion : Event → List Disbursement
  | .deleted jobs => jobs
  | _ => []

end Event

/-- The jobs the ledger has acknowledged. -/
def acknowledged (h : List Event) : List Disbursement := h.filterMap Event.acknowledgement

/-- The jobs dropped on `InsufficientFunds`, `TxDuplicate` or `TxTooOld`. -/
def dropped (h : List Event) : List Disbursement := h.filterMap Event.drop

/-- The jobs an administrator has deleted. -/
def deleted (h : List Event) : List Disbursement := h.flatMap Event.deletion

/-- The jobs that have left the queue. -/
def finished (h : List Event) : Multiset Disbursement := acknowledged h + dropped h + deleted h

/-- The jobs a run of `cronDisbursements` holds: the one it has submitted and those it has put
aside. -/
def Entrepot.QueueFrame.jobs (f : QueueFrame) : Multiset Disbursement := f.job ::ₘ f.failed

/-- The suspended runs of `cronDisbursements`. -/
def runs (m : Multiset Task) : Multiset QueueFrame := m.filterMap Task.run

/-- The jobs whose reply from the ledger is awaited. -/
def submitted (m : Multiset Task) : Multiset Disbursement := (runs m).map QueueFrame.job

/-- The jobs the suspended runs hold. -/
def heldJobs (m : Multiset Task) : Multiset Disbursement := (runs m).bind QueueFrame.jobs

theorem pushed_append (es h : List Event) : pushed (es ++ h) = pushed es ++ pushed h := by
  rw [pushed, settlements, List.filterMap_append, List.flatMap_append]
  rfl

theorem finished_append (es h : List Event) : finished (es ++ h) = finished es + finished h := by
  simp only [finished, acknowledged, dropped, deleted, List.filterMap_append, List.flatMap_append,
    ← Multiset.coe_add]
  ac_rfl

@[simp] theorem runs_add (m m' : Multiset Task) : runs (m + m') = runs m + runs m' :=
  Multiset.filterMap_add ..

@[simp] theorem runs_zero : runs 0 = 0 := rfl

@[simp] theorem heldJobs_add (m m' : Multiset Task) :
    heldJobs (m + m') = heldJobs m + heldJobs m' := by
  simp [heldJobs]

@[simp] theorem runs_singleton (k : Task) : runs {k} = (k.run.elim 0 fun f => {f}) := by
  rw [runs, ← Multiset.cons_zero, Multiset.filterMap_cons]
  cases k.run <;> rfl

theorem runs_eq_zero {m : Multiset Task} (h : ∀ k ∈ m, k.run = none) : runs m = 0 := by
  refine Multiset.eq_zero_of_forall_notMem ?_
  intro f hf
  obtain ⟨k, hk, hkf⟩ := (Multiset.mem_filterMap _ _).1 hf
  rw [h k hk] at hkf
  simp at hkf

/-- A submitted job is held. -/
theorem submitted_le_heldJobs (m : Multiset Task) : submitted m ≤ heldJobs m := by
  rw [submitted, heldJobs]
  induction runs m using Multiset.induction_on with
  | empty => simp
  | cons f fs ih =>
      rw [Multiset.map_cons, Multiset.cons_bind, QueueFrame.jobs, Multiset.cons_add,
        Multiset.cons_le_cons_iff]
      exact le_trans ih (Multiset.le_add_left _ _)

/-! ### One segment -/

/-- What a segment does to the account: jobs move between the queue, the suspended runs and the
past, and the counter of submitted jobs follows. -/
structure Balance (w : World) (src : Source) (o : Step) : Prop where
  jobs : (w.entrepot.pendingDisbursements : Multiset Disbursement) +
      heldJobs (Actor.Source.task src) + pushed o.events =
    o.state.entrepot.pendingDisbursements + heldJobs o.spawned + finished o.events
  count : o.state.entrepot.pendingCount + (runs (Actor.Source.task src)).card =
    w.entrepot.pendingCount + (runs o.spawned).card

namespace Balance

variable {w : World} {src : Source} {o : Step}

/-- A segment that neither resumes nor suspends a run. -/
theorem of_runs_eq_zero (hsrc : runs (Actor.Source.task src) = 0) (ho : runs o.spawned = 0)
    (hjobs : (w.entrepot.pendingDisbursements + pushed o.events : Multiset Disbursement) =
      o.state.entrepot.pendingDisbursements + finished o.events)
    (hcount : o.state.entrepot.pendingCount = w.entrepot.pendingCount) : Balance w src o where
  jobs := by simpa [heldJobs, hsrc, ho] using hjobs
  count := by simp [hsrc, ho, hcount]

/-- A segment that has nothing to do with the queue. -/
theorem of_same (hsrc : runs (Actor.Source.task src) = 0) (ho : runs o.spawned = 0)
    (hjobs : o.state.entrepot.pendingDisbursements = w.entrepot.pendingDisbursements)
    (hcount : o.state.entrepot.pendingCount = w.entrepot.pendingCount)
    (hpushed : pushed o.events = []) (hfinished : finished o.events = 0) : Balance w src o :=
  of_runs_eq_zero hsrc ho (by rw [hjobs, hpushed, hfinished, Multiset.coe_nil]) hcount

end Balance

/-- A pass of the loop keeps the jobs it is given, and counts the one it submits. -/
theorem QueueRun.balance {jobs : Multiset Disbursement} {s s' : Entrepot} {ks : List Task}
    (h : QueueRun jobs s s' ks) :
    (s'.pendingDisbursements + heldJobs ks : Multiset Disbursement) = jobs ∧
      s'.pendingCount = s.pendingCount + (runs ks).card := by
  cases h with
  | finished _ hcount hsplit => simp [heldJobs, hsplit, hcount]
  | submitted f _ hcount hsplit =>
      rw [Multiset.coe_singleton, heldJobs, runs_singleton]
      exact ⟨by simpa [Task.run, QueueFrame.jobs] using hsplit, hcount⟩

theorem pushed_finalized (f : SettleFrame) (balance : UInt64) (jobs : List Disbursement) :
    pushed [.finalized f balance jobs] = jobs := by
  simp [pushed, settlements, Event.settlement]

theorem finished_deleted (jobs : List Disbursement) : finished [.deleted jobs] = jobs := by
  have hjobs : deleted [.deleted jobs] = jobs := List.append_nil jobs
  rw [finished, hjobs]
  exact Multiset.zero_add _

theorem pushed_answered (job : Disbursement) (reply : Option TransferResult) :
    pushed (answered job reply) = [] := by
  unfold answered
  split
  · rfl
  · split <;> rfl

/-- The job that has been answered is put aside, or leaves the queue. -/
theorem finished_answered (job : Disbursement) (failed : List Disbursement)
    (reply : Option TransferResult) :
    ((if retries reply then job :: failed else failed : List Disbursement) :
      Multiset Disbursement) + finished (answered job reply) = job ::ₘ failed := by
  have hone (es : List Event) (h : finished es = {job}) :
      (failed : Multiset Disbursement) + finished es = job ::ₘ failed := by
    rw [h, Multiset.add_comm, Multiset.singleton_add]
  -- a rejected call, then `#Ok` and the five errors
  rcases reply with - | ⟨b | ⟨e | e | e | - | e⟩⟩
  · simp [retries, answered, finished, acknowledged, dropped, deleted]
  all_goals first
    | exact hone _ rfl
    | simp [retries, answered, finished, acknowledged, dropped, deleted]

/-- Messages of the market carry no run. -/
theorem runs_of_relays {ks : List Task} {x : Option Waiter} (h : ∀ k ∈ ks, k.Relays x) :
    runs ks = 0 :=
  runs_eq_zero fun k hk => (h k (Multiset.mem_coe.1 hk)).run

theorem runs_of_sent {tokens : List TokenIdentifier} :
    runs (tokens.map fun token => Task.settle token .direct : List Task) = 0 := by
  refine runs_eq_zero ?_
  intro k hk
  obtain ⟨token, -, rfl⟩ := List.mem_map.1 (Multiset.mem_coe.1 hk)
  rfl

/-- A run that has been counted does not trap when it is woken. -/
theorem runs_of_idle {w : World} {src : Source}
    (hcount : ∀ k ∈ Actor.Source.task src, k.run ≠ none → w.entrepot.pendingCount ≠ 0)
    (hidle : ∀ k ∈ Actor.Source.task src, k.run ≠ none → w.entrepot.pendingCount = 0) :
    runs (Actor.Source.task src) = 0 := by
  refine runs_eq_zero ?_
  intro k hk
  by_contra hrun
  exact hcount k hk hrun (hidle k hk hrun)

/-- **One segment moves jobs, and neither loses nor makes any.** -/
theorem Move.balance {w : World} {src : Source} {o : Step} (h : Move D w src o)
    (hcount : ∀ k ∈ Actor.Source.task src, k.run ≠ none → w.entrepot.pendingCount ≠ 0) :
    Balance w src o := by
  cases h with
  | idle run => exact .of_same (runs_of_idle hcount run) rfl rfl rfl rfl rfl
  | relay hrun _ hrel =>
      exact .of_same (by simp [Actor.Source.task, hrun]) (runs_of_relays hrel) rfl rfl rfl rfl
  | tick | deposit | mint | listBegan | lockBegan | extTransfer | listed | delisted | locked | read
  | report => exact .of_same rfl rfl rfl rfl rfl rfl
  | sent _ hq hc => exact .of_same rfl runs_of_sent hq hc rfl rfl
  | gaveUp =>
      refine .of_same rfl (runs_of_relays fun _ hk => SettleWaiter.relays_of_mem_deliver hk) ?_ ?_
        rfl rfl
      · rw [World.entrepot_setEntrepot, giveUp]
        split <;> rfl
      · rw [World.entrepot_setEntrepot, giveUp]
        split <;> rfl
  | @finalized f balance k s tokens jobs _ hsale =>
      refine .of_runs_eq_zero rfl rfl ?_ hsale.pendingCount
      rw [pushed_finalized, World.entrepot_setTokens, World.entrepot_setEntrepot,
        hsale.pendingDisbursements, ← Multiset.coe_add, Multiset.add_comm]
      exact (Multiset.add_zero _).symm
  | @deleted caller token address amount p =>
      refine .of_runs_eq_zero rfl rfl ?_ rfl
      rw [finished_deleted, World.entrepot_setEntrepot, Multiset.coe_add]
      exact (Multiset.add_zero _).trans
        (Multiset.coe_eq_coe.2 (List.filter_append_perm p _).symm)
  | queueStart pass =>
      obtain ⟨hjobs, hc⟩ := pass.balance
      refine ⟨?_, hc⟩
      rw [World.entrepot_setEntrepot, hjobs]
      exact Multiset.add_zero _
  | @queueStep f reply n s ks hn pass =>
      obtain ⟨hjobs, hc⟩ := pass.balance
      constructor
      · have hpushed : pushed (answered f.job reply) = [] := pushed_answered f.job reply
        have hheld : heldJobs {.transferred f reply} = f.jobs := by simp [heldJobs, Task.run]
        rw [Actor.Source.task, hpushed, hheld, World.entrepot_setEntrepot, hjobs, QueueFrame.jobs,
          ← finished_answered f.job f.failed reply, Multiset.coe_nil, Multiset.add_zero,
          Multiset.add_assoc]
      · rw [World.entrepot_setEntrepot, hc, hn]
        exact Nat.add_right_comm n _ 1
  | executed | rejected => exact ⟨rfl, rfl⟩

/-! ### The account of a run -/

/-- The condition on upgrades: no run of `cronDisbursements` is suspended. -/
def betweenRuns : Guard :=
  ⟨fun _ _ => True, fun _ _ _ => True, fun c _ => ∀ k ∈ c.pool, k.run = none⟩

instance (c : Config) (i : Input) : Decidable (betweenRuns.call c i) := isTrue trivial

instance (c : Config) (k : Task) (r : Wake) : Decidable (betweenRuns.resume c k r) := isTrue trivial

instance (c : Config) (u : UInt16) : Decidable (betweenRuns.restart c u) :=
  inferInstanceAs (Decidable (∀ k ∈ c.pool, k.run = none))

/-- The account of the jobs: they are queued or held by a suspended run, come in when they are
pushed, and go out when they are acknowledged, dropped or deleted. -/
def jobAccount : Actor.Account World Task Event (Multiset Disbursement) where
  state w := w.entrepot.pendingDisbursements
  tasks := heldJobs
  gains h := pushed h
  expenses := finished
  tasks_add := heldJobs_add
  gains_append es h := by rw [pushed_append, Multiset.coe_add]
  expenses_append := finished_append

/-- The counter of submitted jobs counts the suspended runs. -/
def Counted (w : World) (m : Multiset Task) : Prop :=
  w.entrepot.pendingCount = (runs m).card

/-- A segment of a counted run passes the test of the counter. -/
theorem Counted.pendingCount_ne_zero {w : World} {m : Multiset Task} (h : Counted w m) {k : Task}
    (hk : k ∈ m) (hrun : k.run ≠ none) : w.entrepot.pendingCount ≠ 0 := by
  obtain ⟨f, hf⟩ := Option.ne_none_iff_exists'.1 hrun
  have hmem : f ∈ runs m := (Multiset.mem_filterMap _ _).2 ⟨k, hk, hf⟩
  rw [Counted] at h
  rw [h]
  exact Nat.ne_of_gt (Multiset.card_pos_iff_exists_mem.2 ⟨f, hmem⟩)

theorem Balance.counted {w : World} {src : Source} {o : Step} {m : Multiset Task}
    (hb : Balance w src o) (hc : Counted w (Actor.Source.task src + m)) :
    Counted o.state (m + o.spawned) := by
  have hcount := hb.count
  rw [Counted, runs_add, Multiset.card_add] at hc ⊢
  omega

/-- The counter stays right along a run. -/
theorem counted_of_run {G : Guard} (hcount : Counted c₀.state c₀.pool)
    (h : Actor.Run (program D) G c₀ c) : Counted c.state c.pool := by
  refine multiset_of_moves (J := fun w _ m => Counted w m) ?_ ?_ h hcount
  · intro c src m o _ hc _ hm
    have hsrc := fun k hk => hc.pendingCount_ne_zero (k := k) (Multiset.mem_add.2 (Or.inl hk))
    exact (hm.balance hsrc).counted hc
  · intro c supply canister _ _ hup
    exact (Canister.pendingDisbursements_upgrade hup).2

/-- **The account of a run**: the jobs pushed meanwhile are those that have been added to the queue,
to the suspended runs and to the past. -/
theorem balance_of_run {G : Guard} (hG : ∀ c u, G.restart c u → ∀ k ∈ c.pool, k.run = none)
    (hcount : Counted c₀.state c₀.pool) (h : Actor.Run (program D) G c₀ c) :
    jobAccount.total c₀.state c₀.history c₀.pool + pushed c.history =
      jobAccount.total c.state c.history c.pool + pushed c₀.history := by
  refine balanced_of_moves jobAccount ?_ ?_ (h.assume fun d hd => counted_of_run hcount hd)
  · intro c src o hsrc hg hm
    have hc := (Actor.Guard.segment_assuming.1 hg).1
    exact (hm.balance fun k hk => hc.pendingCount_ne_zero (Multiset.mem_coe.2 (hsrc k hk))).jobs
  · -- no run is suspended, so nothing is lost with the pool
    rintro c supply canister ⟨-, hg⟩ hup
    have hqueue := (Canister.pendingDisbursements_upgrade hup).1
    have hruns : runs c.pool = 0 := runs_eq_zero fun k hk => hG c supply hg k hk
    have hheld : heldJobs c.pool = 0 := by rw [heldJobs, hruns, Multiset.zero_bind]
    have hjobs : jobAccount.state c.state =
        jobAccount.state { c.state with canister := canister } :=
      congrArg (fun jobs : List Disbursement => (jobs : Multiset Disbursement)) hqueue.symm
    rw [Actor.Account.Balanced, hjobs]
    exact congrArg (fun held => jobAccount.state { c.state with canister := canister } + held + 0)
      hheld

/-- **The disbursement queue neither loses nor duplicates a job.**  In every run from the
installation on, whatever the calls, the order of the resumptions and the answers of the ledger, the
jobs ever pushed are those in the queue, those held by a suspended run, those acknowledged, those
dropped on one of the three errors that give a transfer up, and those deleted; the copies of a job
that are acknowledged or submitted do not exceed the copies pushed, so that no job is submitted
again after it has been acknowledged; and `pendingCount` is the number of jobs whose reply is
awaited. -/
theorem jobs_conserved (hc₀ : Initial c₀) (h : Actor.Run (program D) betweenRuns c₀ c) :
    (pushed c.history : Multiset Disbursement) =
      c.state.entrepot.pendingDisbursements + heldJobs c.pool + acknowledged c.history +
        dropped c.history + deleted c.history ∧
    acknowledged c.history + submitted c.pool ≤ (pushed c.history : Multiset Disbursement) ∧
    c.state.entrepot.pendingCount = (submitted c.pool).card := by
  obtain ⟨hempty, hnone, hcount⟩ : jobAccount.total c₀.state c₀.history c₀.pool = 0 ∧
      pushed c₀.history = [] ∧ Counted c₀.state c₀.pool := by
    obtain ⟨⟨_, _, hfresh⟩, hpool, hhist⟩ := hc₀
    have hqueue : c₀.state.entrepot.pendingDisbursements = [] := by
      rw [World.entrepot, hfresh]
      rfl
    rw [hpool, hhist, Counted, World.entrepot, hfresh]
    exact ⟨congrArg (fun jobs : List Disbursement => (jobs : Multiset Disbursement) + 0 + 0) hqueue,
      rfl, rfl⟩
  have hjobs : (pushed c.history : Multiset Disbursement) =
      c.state.entrepot.pendingDisbursements + heldJobs c.pool + finished c.history := by
    have hrun := balance_of_run (fun _ _ hg => hg) hcount h
    rw [hempty, hnone, Multiset.zero_add, Multiset.coe_nil, Multiset.add_zero] at hrun
    exact hrun
  rw [finished] at hjobs
  refine ⟨?_, ?_, ?_⟩
  · rw [hjobs]
    ac_rfl
  · rw [hjobs, Multiset.le_iff_count]
    intro d
    have hle := Multiset.le_iff_count.1 (submitted_le_heldJobs (c.pool : Multiset Task)) d
    simp only [Multiset.count_add]
    omega
  · rw [submitted, Multiset.card_map]
    exact counted_of_run hcount h

/-- A sale whose first disbursement has been acknowledged, the second being submitted. -/
def disbursing : List Choice :=
  Choice.mint ⟨[1]⟩ ++ Choice.sale ⟨[1]⟩ 1 40000 "C" ++
    [.call (.tick 5000000000), .call .cronDisbursements, .resume 0 (.execute (.ok 1)),
      .resume 0 .run]

/-- Of the three disbursements of a sale, one has been acknowledged, one is submitted and one is
queued. -/
theorem jobs_conserved_sample : ∃ c, sampleRun disbursing = some c ∧
    c.state.entrepot.pendingCount = (submitted c.pool).card ∧
    c.state.entrepot.pendingCount = 1 ∧ (pushed c.history).length = 3 ∧
    (acknowledged c.history).length = 1 ∧ c.state.entrepot.pendingDisbursements.length = 1 := by
  obtain ⟨c, hc, hplaces⟩ := (by decide : ∃ c ∈ sampleRun disbursing,
    c.state.entrepot.pendingCount = 1 ∧ (pushed c.history).length = 3 ∧
      (acknowledged c.history).length = 1 ∧ c.state.entrepot.pendingDisbursements.length = 1)
  have hallowed : betweenRuns.AllowsAll (program .sample) Config.sample disbursing := by decide
  exact ⟨c, hc, (jobs_conserved Config.initial_sample (Actor.run_of_exec hallowed hc)).2.2,
    hplaces⟩

end LegendsNft
