/-
**The money can always come out.**

Safety says that no transfer lacks funds; it does not say that there is ever a transfer.  Here the
converse is shown: nothing that can happen leaves the canister in a state from which a payment is
stuck.  From every configuration of every run in which no admin restores the marketplace, no
transaction is settled a second time and no upgrade cuts off a run of the queue, one round of the
queue pays all that is queued, and one `settle` call before it completes a purchase that has been
paid, provided that its balance can be split.  The answers this takes of the ledger are truthful
ones, since the canister is solvent.  The exceptions are jobs whose address cannot be decoded: they
are put back in the queue, for ever.

These runs are built, not taken apart, and it is said which calls are made in them.  They are built
in the canister with its heartbeat, behind whatever else is suspended there, and then serve the same
calls in the canister that it refines.

Main definitions:

* `LegendsNft.Decodes` — the address of a job can be decoded;
* `LegendsNft.Heartbeats.calm` — no transaction is settled again, and the ledger is truthful;
* `LegendsNft.Heartbeats.Round`, `LegendsNft.Heartbeats.lift` — what a round of the queue does, and
  a configuration of the canister with messages of its heartbeat;
* `LegendsNft.Interface.Serves` — a run that serves these calls of the market.

Main results:

* `LegendsNft.Heartbeats.exists_round`, `LegendsNft.Heartbeats.exists_sale` — a round of the queue,
  a settlement;
* `LegendsNft.Interface.unsettled_of_run` — what is pending has not been settled;
* `LegendsNft.Interface.queue_drains` — **the queue can always be drained**;
* `LegendsNft.Interface.purchase_completes` — **a purchase that has been paid can always be
  completed**.
-/

import LegendsNft.Completion
import LegendsNft.Heartbeats
import LegendsNft.Service
import LegendsNft.Solvency

set_option relaxedAutoImplicit false
set_option autoImplicit false

namespace LegendsNft

open Entrepot

variable {D : Deployment}

/-! ### A pass of the queue -/

/-- A continuation that waits for nothing of the ledger may be woken. -/
theorem truthful_of_answer {c : Config} {k : Task} {r : Wake} (hk : ¬ Resells D c k)
    (hr : r.answer = none) : ((soldOnce D).and truthful).resume c k r := by
  refine ⟨hk, fun _ _ a ha => ?_, fun a ha => ?_⟩
  · rw [hr] at ha
    cases ha
  · rw [hr] at ha
    cases ha

/-- So may a continuation that has been told no balance either. -/
theorem truthful_of_silent {c : Config} {k : Task} {r : Wake} (hk : k.reply = none)
    (hr : r.answer = none) : ((soldOnce D).and truthful).resume c k r :=
  truthful_of_answer (not_resells_of_reply hk) hr

/-- The address of a job can be decoded. -/
def Decodes (D : Deployment) (d : Disbursement) : Bool :=
  match D.hexDecode d.address with
  | .ok _ => true
  | .error _ => false

theorem queueLoop_of_not_decodes {s : Entrepot} {job : Disbursement}
    {remaining failed : List Disbursement} (h : Decodes D job = false) :
    queueLoop D s (job :: remaining) failed = queueLoop D s remaining (job :: failed) := by
  unfold Decodes at h
  cases hd : D.hexDecode job.address with
  | ok blob => simp [hd] at h
  | error e => simp only [queueLoop, hd]

theorem queueLoop_of_decodes {s : Entrepot} {job : Disbursement}
    {remaining failed : List Disbursement} (h : Decodes D job = true) :
    queueLoop D s (job :: remaining) failed =
      ({ s with pendingDisbursements := remaining, pendingCount := s.pendingCount + 1 },
        .await ⟨job, failed⟩) := by
  unfold Decodes at h
  cases hd : D.hexDecode job.address with
  | error e => simp [hd] at h
  | ok blob => simp only [queueLoop, hd]

/-- When it is time, `cronDisbursements` runs the queue. -/
theorem cronDisbursements_eq {s : Entrepot} {now : Time} {job : Disbursement}
    {rest : List Disbursement} (hqueue : s.pendingDisbursements = job :: rest)
    (hdue : disburseInterval ≤ now - s.lastDisburseCron) :
    s.cronDisbursements D now =
      queueLoop D { s with lastDisburseCron := now } (job :: rest) [] := by
  unfold cronDisbursements
  rw [hqueue, if_neg (by simp), if_neg (not_lt.2 hdue)]

theorem acknowledged_map (jobs : List Disbursement) (h : List Event) :
    acknowledged (jobs.map .acknowledged ++ h) = jobs ++ acknowledged h := by
  rw [acknowledged, List.filterMap_append, List.filterMap_map]
  exact congrArg (· ++ acknowledged h) List.filterMap_some

namespace Heartbeats

variable {H : Collection.Host} {s : Interface.State} {p q : List Task} {h : List Event}
  {d : Config} {m : ℕ} {as : List Interface.Input}

/-! ### Building a run -/

/-- No transaction is settled a second time, no admin restores the marketplace, and the ledger
answers truthfully. -/
def calm (H : Collection.Host) : Guard :=
  within H (Interface.unrestored H ((soldOnce H.deployment).and truthful))

/-- A calm run in which the canister shows these calls, and which leaves the first `m` continuations
alone. -/
abbrev Serves (H : Collection.Host) (m : ℕ) (c : Config) (as : List Interface.Input) (d : Config) :
    Prop :=
  Actor.Serves (program H) (calm H) (refinement H).called m c as d

/-- A continuation of the market may be woken where the market allows it. -/
theorem calm_of_market {c : Config} {k : Task} {r : Wake} {k' : LegendsNft.Task}
    {r' : LegendsNft.Wake}
    (hshown : shown k r = some (.resume (.collection (.market k')) (.collection (.market r'))))
    (hallow : ((soldOnce H.deployment).and truthful).resume (Interface.market (canister c)) k' r') :
    (calm H).resume c k r := by
  intro src hsrc
  have heq : some src = _ := hsrc.symm.trans hshown
  cases heq
  intro src' hsrc'
  cases hsrc'
  exact hallow

/-- The canister at another time. -/
def later (s : Interface.State) (time : Time) : Interface.State :=
  s.setWorld { s.world with now := time }

/-- A run that begins with time passing. -/
theorem run_tick {time : Time} (hle : s.world.now ≤ time)
    (hrun : Serves H m ⟨later s time, p, h⟩ as d) :
    Serves H m ⟨s, p, h⟩ (.collection (.market (.tick time)) :: as) d := by
  have hcall : (program H).call s (.canister (.collection (.market (.tick time)))) =
      some ⟨later s time, [], []⟩ := by
    change (Interface.call H s (.collection (.market (.tick time)))).map ofCanister = _
    rw [Interface.call, Collection.call, LegendsNft.call, if_pos hle]
    rfl
  refine .call_behind rfl hcall (fun i hi => ?_) ((List.append_nil p).symm ▸ hrun)
  cases hi
  refine ⟨fun _ hsrc => ?_, fun _ hp => absurd hp (Option.not_mem_none _)⟩
  cases hsrc
  exact ⟨trivial, trivial⟩

/-- The jobs may begin at any time. -/
theorem calm_of_job {c : Config} {k : Task} {r : Wake} {i : LegendsNft.Input}
    (hshown : shown k r = some (.call (.collection (.market i)))) : (calm H).resume c k r := by
  intro src hsrc
  have heq : some src = _ := hsrc.symm.trans hshown
  cases heq
  refine ⟨fun src' hsrc' => ?_, fun _ hp => absurd hp (Option.not_mem_none _)⟩
  cases hsrc'
  exact ⟨trivial, trivial⟩

/-! ### A round of the queue -/

/-- The canister after a pass of the loop. -/
def afterPass (s : Interface.State) (p : List Task) (r : Entrepot × Progress Unit QueueFrame)
    (h : List Event) : Config :=
  ⟨(queueOutcome s [] r).state, p ++ (queueOutcome s [] r).spawned, h⟩

/-- A pass writes the state of the marketplace and nothing else. -/
theorem afterPass_eq (s : Interface.State) (e : Entrepot)
    (r : Entrepot × Progress Unit QueueFrame) (es : List Event) :
    (⟨(queueOutcome (s.setWorld (s.world.setEntrepot e)) es r).state,
      p ++ (queueOutcome (s.setWorld (s.world.setEntrepot e)) es r).spawned,
      (queueOutcome (s.setWorld (s.world.setEntrepot e)) es r).events ++ h⟩ : Config) =
      afterPass s p r (es ++ h) := by
  rcases r with ⟨e', - | f⟩ <;> rfl

/-- A job is submitted, executed and acknowledged. -/
theorem run_execute {e : Entrepot} {job : Disbursement} {remaining failed : List Disbursement}
    (hm : m ≤ p.length) (hdecodes : Decodes H.deployment job = true)
    (hcost : cost job ≤ s.world.ledger job.bytes)
    (hrun : Serves H m
      (afterPass (s.setWorld { s.world with ledger := debit s.world.ledger job (.ok 0) }) p
        (queueLoop H.deployment { e with pendingDisbursements := remaining } remaining failed)
        (marketEvent (.acknowledged job) :: h)) as d) :
    Serves H m (afterPass s p (queueLoop H.deployment e (job :: remaining) failed) h) as d := by
  rw [queueLoop_of_decodes hdecodes]
  refine .resume_last (r := .execute (.ok 0)) rfl hm rfl (calm_of_market rfl ⟨?_, ?_, ?_⟩) ?_
  · exact not_resells_of_reply rfl
  · intro job' hjob a ha
    cases hjob
    cases ha
    exact hcost
  · intro a ha
    cases ha
    trivial
  refine .resume_last (r := .run)
    (o := queueOutcome _ [marketEvent (.acknowledged job)] _) rfl hm rfl
    (calm_of_market rfl (truthful_of_silent rfl rfl)) ?_
  exact (afterPass_eq (s.setWorld { s.world with ledger := debit s.world.ledger job (.ok 0) })
    _ _ [marketEvent (.acknowledged job)]).symm ▸ hrun

/-- The canister with this marketplace, this queue and these balances. -/
def atRest (s : Interface.State) (e : Entrepot) (jobs : List Disbursement)
    (ledger : SubAccount → ℕ) : Interface.State :=
  s.setWorld { s.world.setEntrepot { e with pendingDisbursements := jobs } with ledger := ledger }

/-- The acknowledgements of jobs. -/
def acknowledgements (jobs : List Disbursement) : List Event :=
  jobs.map fun job => marketEvent (.acknowledged job)

/-- **The loop of the queue, with a ledger that executes every transfer**: the jobs are paid in
order, and those whose address cannot be decoded are put back. -/
theorem exists_drain (jobs failed : List Disbursement) {s : Interface.State} {e : Entrepot}
    {h : List Event} (hm : m ≤ p.length)
    (hcovered : ∀ sa, owed sa (jobs : Multiset Disbursement) ≤ s.world.ledger sa) :
    ∃ ledger, (∀ sa, ledger sa +
        owed sa (jobs.filter (Decodes H.deployment) : List Disbursement) = s.world.ledger sa) ∧
      Serves H m (afterPass s p (queueLoop H.deployment e jobs failed) h) []
        ⟨atRest s e ((jobs.filter fun d => !Decodes H.deployment d).reverse ++ failed) ledger,
          p ++ [.disbursed],
          acknowledgements (jobs.filter (Decodes H.deployment)).reverse ++ h⟩ := by
  induction jobs generalizing s e failed h with
  | nil => exact ⟨s.world.ledger, fun sa => rfl, .refl _⟩
  | cons job rest ih =>
      rw [← Multiset.cons_coe, ← Multiset.singleton_add] at hcovered
      cases hd : Decodes H.deployment job with
      | false =>
          have hpaid : (job :: rest).filter (Decodes H.deployment) =
            rest.filter (Decodes H.deployment) := List.filter_cons_of_neg (by simp [hd])
          have hback : ((job :: rest).filter fun d => !Decodes H.deployment d) =
              job :: rest.filter fun d => !Decodes H.deployment d :=
            List.filter_cons_of_pos (by simp [hd])
          obtain ⟨ledger, hledger, hrun⟩ := ih (job :: failed) (e := e) (h := h)
            fun sa => le_trans (owed_le_of_le sa (Multiset.le_add_left _ _)) (hcovered sa)
          refine ⟨ledger, ?_, ?_⟩
          · rw [hpaid]
            exact hledger
          · rw [hpaid, hback, List.reverse_cons, List.append_assoc, queueLoop_of_not_decodes hd]
            exact hrun
      | true =>
          have hpaid : (job :: rest).filter (Decodes H.deployment) =
            job :: rest.filter (Decodes H.deployment) := List.filter_cons_of_pos hd
          have hback : ((job :: rest).filter fun d => !Decodes H.deployment d) =
              rest.filter fun d => !Decodes H.deployment d :=
            List.filter_cons_of_neg (by simp [hd])
          have hcost : cost job ≤ s.world.ledger job.bytes := by
            have hle := hcovered job.bytes
            rw [owed_add, owed_singleton, if_pos rfl] at hle
            exact le_trans (Nat.le_add_right _ _) hle
          have hdebit : ∀ sa, debit s.world.ledger job (.ok 0) sa + owed sa {job} =
            s.world.ledger sa := fun sa => debit_add_owed 0 hcost
          obtain ⟨ledger, hledger, hrun⟩ := ih failed
            (s := s.setWorld { s.world with ledger := debit s.world.ledger job (.ok 0) })
            (e := { e with pendingDisbursements := rest })
            (h := marketEvent (.acknowledged job) :: h) fun sa => by
              have hle := hcovered sa
              have heq := hdebit sa
              rw [owed_add] at hle
              change _ ≤ debit s.world.ledger job (.ok 0) sa
              omega
          refine ⟨ledger, fun sa => ?_, ?_⟩
          · have heq := hdebit sa
            have hrest : ledger sa +
                owed sa (rest.filter (Decodes H.deployment) : List Disbursement) =
              debit s.world.ledger job (.ok 0) sa := hledger sa
            rw [hpaid, ← Multiset.cons_coe, ← Multiset.singleton_add, owed_add]
            omega
          · rw [hpaid, hback, List.reverse_cons, acknowledgements, List.map_append,
              List.append_assoc]
            exact run_execute hm hd hcost hrun

/-- What a round of the queue does: the jobs whose address can be decoded are paid. -/
structure Round (D : Deployment) (w w' : World) : Prop where
  queue : w'.entrepot.pendingDisbursements =
    (w.entrepot.pendingDisbursements.filter fun d => !Decodes D d).reverse
  ledger : ∀ sa, w'.ledger sa +
    owed sa (w.entrepot.pendingDisbursements.filter (Decodes D) : List Disbursement) = w.ledger sa
  tokens : w'.tokens = w.tokens
  pendingTransactions : w'.entrepot.pendingTransactions = w.entrepot.pendingTransactions
  totalVolume : w'.entrepot.totalVolume = w.entrepot.totalVolume
  nextSubAccount : w'.entrepot.nextSubAccount = w.entrepot.nextSubAccount
  lastSettleCron : w'.entrepot.lastSettleCron = w.entrepot.lastSettleCron
  now : w'.now = w.now

/-- **A round of the queue**: when it is time, `cronDisbursements` runs, and the ledger executes
every transfer. -/
theorem exists_round (hm : m ≤ p.length)
    (hcovered : ∀ sa, owed sa (s.world.entrepot.pendingDisbursements : Multiset Disbursement) ≤
      s.world.ledger sa)
    (hdue : disburseInterval ≤ s.world.now - s.world.entrepot.lastDisburseCron) :
    ∃ w, Round H.deployment s.world w ∧
      Serves H m ⟨s, p ++ [.cronDisbursements], h⟩ [.collection (.market .cronDisbursements)]
        ⟨s.setWorld w, p ++ [.disbursed], acknowledgements
          (s.world.entrepot.pendingDisbursements.filter (Decodes H.deployment)).reverse ++
            .cronDisbursements :: h⟩ := by
  have hbegin {d : Config} (hrun : Serves H m
      (afterPass s p (s.world.entrepot.cronDisbursements H.deployment s.world.now)
        (.cronDisbursements :: h)) [] d) :
      Serves H m ⟨s, p ++ [.cronDisbursements], h⟩ [.collection (.market .cronDisbursements)] d :=
    .handle_last (r := .run) (o := queueOutcome s [.cronDisbursements] _) rfl hm rfl
      (calm_of_job rfl) ((afterPass_eq s s.world.entrepot _ [.cronDisbursements]).symm ▸ hrun)
  cases hqueue : s.world.entrepot.pendingDisbursements with
  | nil =>
      refine ⟨s.world, ⟨hqueue ▸ rfl, fun sa => hqueue ▸ rfl, rfl, rfl, rfl, rfl, rfl, rfl⟩,
        hbegin ?_⟩
      unfold cronDisbursements
      rw [hqueue, List.length_nil, if_pos rfl]
      exact .refl _
  | cons job rest =>
      rw [hqueue] at hcovered
      obtain ⟨ledger, hledger, hrun⟩ := exists_drain (H := H) (p := p) (job :: rest) []
        (e := { s.world.entrepot with lastDisburseCron := s.world.now })
        (h := .cronDisbursements :: h) hm hcovered
      rw [List.append_nil, ← cronDisbursements_eq hqueue hdue] at hrun
      refine ⟨(atRest s { s.world.entrepot with lastDisburseCron := s.world.now }
        ((job :: rest).filter fun d => !Decodes H.deployment d).reverse ledger).world, ?_,
        hbegin hrun⟩
      exact ⟨hqueue ▸ rfl, hqueue ▸ hledger, rfl, rfl, rfl, rfl, rfl, rfl⟩

/-! ### A settlement -/

/-- A continuation of the market. -/
def marketTask (k : LegendsNft.Task) : Task := .canister (.collection (.market k))

/-- What the market sees of the history. -/
def marketHistory (h : List Event) : List LegendsNft.Event :=
  (h.filterMap view.event).filterMap Interface.marketEvent

theorem marketHistory_append (es h : List Event) :
    marketHistory (es ++ h) = marketHistory es ++ marketHistory h := by
  rw [marketHistory, List.filterMap_append, List.filterMap_append]
  rfl

theorem marketHistory_acknowledgements (jobs : List Disbursement) :
    marketHistory (acknowledgements jobs) = jobs.map .acknowledged := by
  have hshown : (acknowledgements jobs).filterMap view.event =
      jobs.map fun job => Collection.Event.market (.acknowledged job) := by
    rw [acknowledgements, List.filterMap_map]
    exact congrFun List.filterMap_eq_map jobs
  rw [marketHistory, hshown, List.filterMap_map]
  exact congrFun List.filterMap_eq_map jobs

/-- A run that begins with a segment of the market. -/
theorem run_market {k : LegendsNft.Task} {r : LegendsNft.Wake} {o : LegendsNft.Step}
    (hm : m ≤ p.length) (ho : LegendsNft.resume H.deployment s.world k r = some o)
    (hallow : ((soldOnce H.deployment).and truthful).resume ⟨s.world, [], marketHistory h⟩ k r)
    (hrun : Serves H m ⟨s.setWorld o.state, p ++ q ++ o.spawned.map marketTask,
      o.events.map marketEvent ++ h⟩ as d) :
    Serves H m ⟨s, p ++ marketTask k :: q, h⟩ as d := by
  have hresume : (program H).resume s (marketTask k) (.canister (.collection (.market r))) =
      some ⟨s.setWorld o.state, o.spawned.map marketTask, o.events.map marketEvent⟩ := by
    change (Interface.resume H s (.collection (.market k)) (.collection (.market r))).map
      ofCanister = _
    simp only [Interface.resume, Collection.resume, ho, Option.map_some, ofCanister,
      Interface.ofCollection, Collection.ofMarket, List.nil_append, List.map_map]
    rfl
  exact .resume_at rfl hm hresume (calm_of_market rfl hallow) hrun

/-- A run that goes on with the last continuation, of the market. -/
theorem run_last {k : LegendsNft.Task} {r : LegendsNft.Wake} {o : LegendsNft.Step}
    (hm : m ≤ p.length) (ho : LegendsNft.resume H.deployment s.world k r = some o)
    (hallow : ((soldOnce H.deployment).and truthful).resume ⟨s.world, [], marketHistory h⟩ k r)
    (hrun : Serves H m ⟨s.setWorld o.state, p ++ o.spawned.map marketTask,
      o.events.map marketEvent ++ h⟩ as d) :
    Serves H m ⟨s, p ++ [marketTask k], h⟩ as d :=
  run_market hm ho hallow ((List.append_nil p).symm ▸ hrun)

/-- A run that begins with a call of `settle` being handled, and the ledger telling it the balance
of the transaction that is pending. -/
theorem run_reported {token : TokenIdentifier} {index : TokenIndex} {t : Transaction} {b : UInt64}
    {x : SettleWaiter} (hm : m ≤ p.length)
    (htoken : unpackTokenIdentifier H.deployment token = .ok index)
    (hpending : s.world.entrepot.pendingTransactions.get index = some t)
    (hbalance : b.toNat = s.world.ledger t.bytes)
    (hrun : Serves H m ⟨s, p ++ q ++ [marketTask (.reported ⟨index, t⟩ b x)],
      marketEvent (.reported t.bytes b s.world.now) :: h⟩ as d) :
    Serves H m ⟨s, p ++ marketTask (.settle token x) :: q, h⟩ as d := by
  have hread : LegendsNft.resume H.deployment s.world (.settle token x) .run =
      some ⟨s.world, [.balance ⟨index, t⟩ x], []⟩ := by
    simp only [LegendsNft.resume, settle, htoken, hpending]
  have hreport : LegendsNft.resume H.deployment s.world (.balance ⟨index, t⟩ x) .report =
      some ⟨s.world, [.reported ⟨index, t⟩ b x], [.reported t.bytes b s.world.now]⟩ := by
    simp only [LegendsNft.resume, Checked.ofNat_eq_some.2 hbalance]
  have hm' : m ≤ (p ++ q).length := by
    rw [List.length_append]
    exact Nat.le_add_right_of_le hm
  refine run_market hm hread (truthful_of_silent rfl rfl) ?_
  exact run_last hm' hreport (truthful_of_silent rfl rfl) hrun

/-- **A settlement**: a message to `settle` is handled, the ledger tells the balance, and the sale
is made. -/
theorem exists_sale {token : TokenIdentifier} {index : TokenIndex} {t : Transaction} {b : UInt64}
    (hm : m ≤ p.length) (htoken : unpackTokenIdentifier H.deployment token = .ok index)
    (hpending : s.world.entrepot.pendingTransactions.get index = some t)
    (hbalance : b.toNat = s.world.ledger t.bytes)
    (hcompletes : Completes H.deployment s.world ⟨index, t⟩ b)
    (hnew : t ∉ (settlements (marketHistory h)).map Settlement.transaction) :
    ∃ e tokens jobs, Sale fees s.world.entrepot e s.world.now ⟨index, t⟩ b jobs ∧
      s.world.tokens.transfer H.deployment s.world.now index t.from' t.to' = .ok tokens ∧
      Serves H m ⟨s, p ++ settleTask token :: q, h⟩ []
        ⟨s.setWorld ((s.world.setEntrepot e).setTokens tokens), p ++ q,
          marketEvent (.finalized ⟨index, t⟩ b jobs) ::
            marketEvent (.reported t.bytes b s.world.now) :: h⟩ := by
  obtain ⟨e, tokens, jobs, hsale, hres⟩ := resume_of_completes .direct hcompletes
  have htransfer : s.world.tokens.transfer H.deployment s.world.now index t.from' t.to' =
      .ok tokens := by
    -- a sale is the only move that is not quiet here
    rcases (move_of_resume hres).life with hq | ⟨f, x, heq, -⟩ | ⟨f, x, k, r, heq, -, ho⟩ |
      ⟨f, x, k, e', tokens', jobs', heq, -, -, ht, ho⟩
    · have hnone := (hq.events _ (List.mem_singleton_self _)).2
      cases hnone
    · cases heq
    · cases congrArg Actor.Outcome.events ho
    · cases heq
      have htokens : tokens = tokens' :=
        congrArg (fun o : LegendsNft.Step => o.state.tokens) ho
      exact htokens ▸ ht
  refine ⟨e, tokens, jobs, hsale, htransfer, ?_⟩
  have hm' : m ≤ (p ++ q).length := by
    rw [List.length_append]
    exact Nat.le_add_right_of_le hm
  refine run_reported hm htoken hpending hbalance ?_
  refine run_last hm' hres (truthful_of_answer ?_ rfl) ?_
  · rintro ⟨x, hx, -, hold⟩
    cases hx
    exact hnew hold
  refine run_last (k := .insert .direct) (r := .run) hm' rfl (truthful_of_silent rfl rfl) ?_
  exact (List.append_nil (p ++ q)).symm ▸ .refl _

/-! ### Runs of the canister -/

/-- A configuration of the canister, with messages of its heartbeat. -/
def lift (c : Interface.Config) (ks : List Task) : Config :=
  ⟨c.state, c.pool.map .canister ++ ks, c.history.map .canister⟩

theorem filterMap_canister (ks : List Interface.Task) :
    (ks.map Task.canister).filterMap view.task = ks := by
  rw [List.filterMap_map]
  exact List.filterMap_some

theorem canister_lift (c : Interface.Config) (ks : List Task) :
    canister (lift c ks) = ⟨c.state, c.pool ++ ks.filterMap view.task, c.history⟩ := by
  have hhistory : (c.history.map Event.canister).filterMap view.event = c.history := by
    rw [List.filterMap_map]
    exact List.filterMap_some
  rw [canister, Actor.View.config, lift, List.filterMap_append, filterMap_canister, hhistory]
  rfl

theorem marketHistory_lift (c : Interface.Config) :
    marketHistory (c.history.map .canister) = (Interface.market c).history :=
  congrArg (fun d : Interface.Config => (Interface.market d).history) (canister_lift c [])

end Heartbeats

/-! ### What is pending has not been settled -/

/-- A pending transaction has not been settled. -/
def Unsettled (w : World) (h : List Event) : Prop :=
  ∀ i t, w.entrepot.pendingTransactions.get i = some t →
    t ∉ (settlements h).map Settlement.transaction

/-- A settled transaction has been created. -/
theorem Bookkeeping.exists_locked {w : World} {h : List Event} {m : Multiset Task}
    (hB : Bookkeeping D w h m) {t : Transaction}
    (ht : t ∈ (settlements h).map Settlement.transaction) : ∃ i e, .locked i t e ∈ h := by
  obtain ⟨s, hs, rfl⟩ := List.mem_map.1 ht
  obtain ⟨e, he⟩ := hB.provenance.sale s.frame s.balance s.jobs (mem_settlements.1 hs)
  exact ⟨_, e, he⟩

/-- A move settles what is pending only by taking it off. -/
theorem Unsettled.move {d : Config} {src : Source} {m : Multiset Task} {o : Step}
    (hB : Bookkeeping D d.state d.history (Actor.Source.task src + m))
    (hlt : o.state.entrepot.nextSubAccount < counterBound) (hU : Unsettled d.state d.history)
    (hm : Move D d.state src o) : Unsettled o.state (o.events ++ d.history) := by
  intro i t ht
  rcases hm.sale_cases d.history with
    ⟨-, hset⟩ | ⟨f, b, k, s, tokens, jobs, rfl, -, -, hsale, rfl⟩
  · rw [hset]
    rcases hm.pending_cases ht with hold | ⟨f, -, -, -, hevents⟩
    · exact hU i t hold
    · -- a new transaction has a subaccount of its own
      intro hsettled
      obtain ⟨i', e, he⟩ := hB.exists_locked hsettled
      have hnodup := (hB.move hlt hm).subaccounts.nodup_paid
      rw [hevents] at hnodup
      exact (List.nodup_cons.1 hnodup).1 (List.mem_map.2 ⟨_, mem_created.2 he, rfl⟩)
  · rw [World.entrepot_setTokens, World.entrepot_setEntrepot, hsale.pendingTransactions] at ht
    obtain ⟨hne, hold⟩ := Table.get_of_get_delete ht
    intro hsettled
    rcases List.mem_cons.1 hsettled with rfl | hsettled
    · -- the transaction that is sold was locked for its own token
      obtain ⟨e, he⟩ := hB.provenance.pending i _ hold
      obtain ⟨e', he'⟩ := (hB.sourced _ (Multiset.mem_add.2
        (Or.inl (Multiset.mem_singleton_self _)))).held f rfl
      exact hne (congrArg Creation.index (hB.creation_eq he he' rfl))
    · exact hU i t hold hsettled

namespace Interface

variable {H : Collection.Host} {c₀ c : Config}

/-- In every run, what is pending has not been settled. -/
theorem unsettled_of_run {G : LegendsNft.Guard}
    (hG : ∀ d u, G.restart d u → ∀ k ∈ d.pool, k.run = none) (hc₀ : Initial c₀)
    (h : Actor.Run (program H) (unrestored H G) c₀ c)
    (hlt : c.state.world.entrepot.nextSubAccount < counterBound) :
    Unsettled (market c).state (market c).history := by
  refine (multiset_of_turns (J := fun w h m => w.entrepot.nextSubAccount < counterBound →
    Bookkeeping H.deployment w h m ∧ Unsettled w h) ?_ ?_ ?_ h (fun _ =>
      ⟨.initial hc₀.market, ?_⟩) hlt).2
  · intro d src m o _ hJ _ hm hlt
    have hle := hm.nextSubAccount_le
    obtain ⟨hB, hU⟩ := hJ (by omega)
    exact ⟨hB.move hlt hm, hU.move hB hlt hm⟩
  · intro s src w h m hJ ha hlt
    rw [ha.nextSubAccount] at hlt
    obtain ⟨hB, hU⟩ := hJ hlt
    refine ⟨ha.bookkeeping hB, fun i t ht => hU i t ?_⟩
    cases ha with
    | kept entrepot =>
        rw [entrepot] at ht
        exact ht
    | unlisted => exact ht
    | withdrawn => exact ht
  · intro d supply canister hJ hg hup hlt
    rw [World.entrepot_mk, Canister.nextSubAccount_upgrade hup] at hlt
    obtain ⟨hB, hU⟩ := hJ hlt
    refine ⟨hB.upgrade (fun k hk => hG d supply hg k (Multiset.mem_coe.1 hk)) hup,
      fun i t ht => ?_⟩
    rw [World.entrepot_mk, Canister.get_pendingTransactions_upgrade hup] at ht
    exact hU i t ht
  · rw [hc₀.market.2.2]
    exact fun _ _ _ hold => absurd hold List.not_mem_nil

/-- In every run, the subaccounts cover the queue. -/
theorem owed_queue_le (hc₀ : Initial c₀)
    (h : Actor.Run (program H) (unrestored H ((soldOnce H.deployment).and betweenRuns)) c₀ c)
    (hlt : c.state.world.entrepot.nextSubAccount < counterBound) (sa : SubAccount) :
    owed sa (c.state.world.entrepot.pendingDisbursements : Multiset Disbursement) ≤
      c.state.world.ledger sa := by
  have hcovered := owed_le_of_solvent (solvent_of_run hc₀ h hlt) sa
  have hexecuted := owed_le_of_le sa (le_trans
    (executedJobs_le_submitted ((market c).pool : Multiset LegendsNft.Task))
    (submitted_le_heldJobs _))
  rw [owed_add] at hcovered
  have hle : owed sa (c.state.world.entrepot.pendingDisbursements : Multiset Disbursement) +
      owed sa (heldJobs (market c).pool) ≤
        c.state.world.ledger sa + owed sa (executedJobs (market c).pool) := hcovered
  omega

/-! ### Serving calls of the market -/

/-- A run that serves these calls of the market: they are made in this order, nobody calls anything
else, the canister is not upgraded, what was suspended is left alone, no transaction is settled a
second time, and the ledger answers truthfully. -/
def Serves (H : Collection.Host) (c : Config) (is : List LegendsNft.Input) (c' : Config) : Prop :=
  Actor.Serves (program H) (unrestored H ((soldOnce H.deployment).and truthful))
    Actor.Source.called c.pool.length c (is.map fun i => .collection (.market i)) c'

/-- Calls that are served one after the other. -/
theorem Serves.trans {c' c'' : Config} {is is' : List LegendsNft.Input} (h : Serves H c is c')
    (hpool : c'.pool = c.pool) (h' : Serves H c' is' c'') : Serves H c (is ++ is') c'' := by
  unfold Serves at h h' ⊢
  rw [hpool] at h'
  rw [List.map_append]
  exact Actor.Serves.trans h h'

/-- What is served may happen where transactions are settled once. -/
theorem segment_of_truthful {d : Config} (src : Source)
    (h : (unrestored H ((soldOnce H.deployment).and truthful)).segment d src) :
    (unrestored H ((soldOnce H.deployment).and betweenRuns)).segment d src := by
  have hmarket {src' : LegendsNft.Source}
      (hg : ((soldOnce H.deployment).and truthful).segment (market d) src') :
      ((soldOnce H.deployment).and betweenRuns).segment (market d) src' := by
    cases src' with
    | call i => exact ⟨hg.1, trivial⟩
    | resume k r => exact ⟨hg.1, trivial⟩
  cases src with
  | call i => exact ⟨fun src' hsrc => hmarket (h.1 src' hsrc), h.2⟩
  | resume k r => exact fun src' hsrc => hmarket (h src' hsrc)

/-- **What serves calls is a run** in which no transaction is settled a second time. -/
theorem Serves.run {c' : Config} {is : List LegendsNft.Input} (h : Serves H c is c') :
    Actor.Run (program H) (unrestored H ((soldOnce H.deployment).and betweenRuns)) c c' :=
  Actor.Serves.run (fun _ i hg => segment_of_truthful (.call i) hg)
    (fun _ k r hg => segment_of_truthful (.resume k r) hg) h

/-- A run that is built in the canister with its heartbeat serves the same calls in the canister. -/
theorem serves_of_calm {ks : List Heartbeats.Task} {d : Heartbeats.Config} {as : List Input}
    (h : Heartbeats.Serves H c.pool.length (Heartbeats.lift c ks) as d) :
    Actor.Serves (program H) (unrestored H ((soldOnce H.deployment).and truthful))
      Actor.Source.called c.pool.length
      ⟨c.state, c.pool ++ ks.filterMap Heartbeats.view.task, c.history⟩ as
      (Heartbeats.canister d) := by
  have hlength : c.pool.length ≤ (Heartbeats.lift c ks).pool.length := by
    rw [Heartbeats.lift, List.length_append, List.length_map]
    exact Nat.le_add_right ..
  have hserves := Actor.Refinement.serves h hlength
  have hposition : (Heartbeats.refinement H).position (Heartbeats.lift c ks).pool c.pool.length =
      c.pool.length := by
    have htake : (c.pool.map Heartbeats.Task.canister ++ ks).take c.pool.length =
        c.pool.map .canister := List.take_left' (List.length_map _)
    rw [Actor.View.position, Heartbeats.lift, htake]
    exact congrArg List.length (Heartbeats.filterMap_canister c.pool)
  rw [hposition, show (Heartbeats.refinement H).config (Heartbeats.lift c ks) = _ from
    Heartbeats.canister_lift c ks] at hserves
  exact hserves

/-- A call of the market is allowed. -/
theorem calm_of_call {i : LegendsNft.Input} :
    (unrestored H ((soldOnce H.deployment).and truthful)).call c (.collection (.market i)) := by
  refine ⟨fun src hsrc => ?_, fun _ hp => absurd hp (Option.not_mem_none _)⟩
  cases hsrc
  exact ⟨trivial, trivial⟩

/-! ### A round of the queue -/

/-- A round of the queue, in the canister. -/
theorem exists_round (hcovered : ∀ sa,
      owed sa (c.state.world.entrepot.pendingDisbursements : Multiset Disbursement) ≤
        c.state.world.ledger sa) :
    ∃ c' time, Serves H c [.tick time, .cronDisbursements] c' ∧ c'.pool = c.pool ∧
      (market c').history = (c.state.world.entrepot.pendingDisbursements.filter
        (Decodes H.deployment)).reverse.map .acknowledged ++ (market c).history ∧
      Heartbeats.Round H.deployment { c.state.world with now := time } c'.state.world := by
  let time : Time := max c.state.world.now
    (c.state.world.entrepot.lastDisburseCron + disburseInterval)
  obtain ⟨w, hround, hrun⟩ := Heartbeats.exists_round (H := H) (m := c.pool.length)
    (s := Heartbeats.later c.state time) (p := c.pool.map .canister)
    (h := c.history.map .canister) (List.length_map _).ge hcovered
    (le_sub_iff_add_le'.2 (le_max_right _ _))
  have hbuilt : Heartbeats.Serves H c.pool.length (Heartbeats.lift c [.cronDisbursements])
      ([.tick time, .cronDisbursements].map fun i => .collection (.market i)) _ :=
    Heartbeats.run_tick (le_max_left _ _) hrun
  have hserves := serves_of_calm hbuilt
  rw [show [Heartbeats.Task.cronDisbursements].filterMap Heartbeats.view.task = [] from rfl,
    List.append_nil] at hserves
  refine ⟨_, time, hserves, ?_, ?_, hround⟩
  · exact (congrArg Actor.Config.pool (Heartbeats.canister_lift c [.disbursed])).trans
      (List.append_nil _)
  · refine (Heartbeats.marketHistory_append _ _).trans ?_
    rw [Heartbeats.marketHistory_acknowledgements]
    exact congrArg (_ ++ ·) (Heartbeats.marketHistory_lift c)

/-- **The queue can always be drained.**  From every configuration of every run of the whole
canister in which no admin restores the marketplace, no transaction is settled a second time and no
upgrade cuts off a run of the queue: as soon as it is time, one call of `cronDisbursements`, with a
ledger that answers truthfully, pays every queued job whose address can be decoded, in the order of
the queue, and puts the others back.  Nothing else is called, and whatever else is suspended stays
suspended. -/
theorem queue_drains (hc₀ : Initial c₀)
    (h : Actor.Run (program H) (unrestored H ((soldOnce H.deployment).and betweenRuns)) c₀ c)
    (hbound : c.state.world.entrepot.nextSubAccount < counterBound) :
    ∃ c' time, Serves H c [.tick time, .cronDisbursements] c' ∧ c'.pool = c.pool ∧
      c'.state.world.entrepot.pendingDisbursements =
        (c.state.world.entrepot.pendingDisbursements.filter
          fun d => !Decodes H.deployment d).reverse ∧
      acknowledged (market c').history =
        (c.state.world.entrepot.pendingDisbursements.filter (Decodes H.deployment)).reverse ++
          acknowledged (market c).history ∧
      c'.state.world.tokens = c.state.world.tokens := by
  obtain ⟨c', time, hrun, hpool, hhistory, hround⟩ := exists_round (owed_queue_le hc₀ h hbound)
  refine ⟨c', time, hrun, hpool, hround.queue, ?_, hround.tokens⟩
  rw [hhistory, acknowledged_map]

/-- After a sale the three disbursements can be drained. -/
theorem queue_drains_sample : ∃ c c', (program .sample).exec Config.sample
      ((LegendsNft.Choice.mint ⟨[1]⟩ ++ LegendsNft.Choice.sale ⟨[1]⟩ 1 40000 "C").map ofChoice) =
        some c ∧
    (∃ time, Serves .sample c [.tick time, .cronDisbursements] c') ∧
    c'.state.world.entrepot.pendingDisbursements = [] ∧
    (acknowledged (market c').history).length = 3 := by
  obtain ⟨c, hc, hallow, hbound, hundecodable, hlength⟩ := (by decide :
    ∃ c ∈ (program .sample).exec Config.sample
        ((LegendsNft.Choice.mint ⟨[1]⟩ ++ LegendsNft.Choice.sale ⟨[1]⟩ 1 40000 "C").map ofChoice),
      (unrestored .sample ((soldOnce Collection.Host.sample.deployment).and betweenRuns)).AllowsAll
        (program .sample) Config.sample ((LegendsNft.Choice.mint ⟨[1]⟩ ++
          LegendsNft.Choice.sale ⟨[1]⟩ 1 40000 "C").map ofChoice) ∧
      c.state.world.entrepot.nextSubAccount < 4 ∧
      (c.state.world.entrepot.pendingDisbursements.filter
        fun d => !Decodes Collection.Host.sample.deployment d).reverse = [] ∧
      ((c.state.world.entrepot.pendingDisbursements.filter
        (Decodes Collection.Host.sample.deployment)).reverse ++
          acknowledged (market c).history).length = 3)
  obtain ⟨c', time, hrun, -, hqueue, hhistory, -⟩ :=
    queue_drains Config.initial_sample (Actor.run_of_exec hallow hc) (by
      unfold counterBound
      omega)
  exact ⟨c, c', hc, ⟨time, hrun⟩, hqueue.trans hundecodable, hhistory ▸ hlength⟩

/-! ### A purchase -/

/-- A settlement, in the canister. -/
theorem exists_settlement {token : TokenIdentifier} {index : TokenIndex} {t : Transaction}
    {b : UInt64} (caller : Principal)
    (htoken : unpackTokenIdentifier H.deployment token = .ok index)
    (hpending : c.state.world.entrepot.pendingTransactions.get index = some t)
    (hbalance : b.toNat = c.state.world.ledger t.bytes)
    (hcompletes : Completes H.deployment c.state.world ⟨index, t⟩ b)
    (hnew : t ∉ (settlements (market c).history).map Settlement.transaction) :
    ∃ c' jobs, Serves H c [.settle caller token] c' ∧
      c'.pool = c.pool ∧ c'.state.world.entrepot.pendingDisbursements =
        jobs ++ c.state.world.entrepot.pendingDisbursements ∧
      c'.state.world.tokens.ownerOf index = some t.to' ∧
      ⟨⟨index, t⟩, b, jobs⟩ ∈ settlements (market c').history ∧
      (jobs.map cost).sum = b.toNat ∧ c'.state.world.entrepot.nextSubAccount =
        c.state.world.entrepot.nextSubAccount := by
  obtain ⟨e, tokens, jobs, hsale, htransfer, hrun⟩ := Heartbeats.exists_sale (s := c.state)
    (m := c.pool.length) (p := c.pool.map .canister) (q := []) (h := c.history.map .canister)
    (List.length_map _).ge htoken hpending hbalance hcompletes
    (Heartbeats.marketHistory_lift c ▸ hnew)
  have hbuilt : Heartbeats.Serves H c.pool.length
    (Heartbeats.lift c [Heartbeats.settleTask token]) [] _ := hrun
  have hserves : Serves H c [.settle caller token] _ :=
    .call_behind (i := .collection (.market (.settle caller token))) rfl rfl calm_of_call
      (serves_of_calm hbuilt)
  refine ⟨_, jobs, hserves, ?_, hsale.pendingDisbursements, ?_, ?_, hsale.sum_jobs,
    hsale.nextSubAccount⟩
  · exact (congrArg Actor.Config.pool (Heartbeats.canister_lift c [])).trans (List.append_nil _)
  · exact (Tokens.ownerOf_of_transfer htransfer index).trans (if_pos rfl)
  · exact List.mem_cons_self ..

/-- A round of the queue pays what has been queued, and forgets no sale. -/
theorem exists_payout (hc₀ : Initial c₀)
    (h : Actor.Run (program H) (unrestored H ((soldOnce H.deployment).and betweenRuns)) c₀ c)
    (hbound : c.state.world.entrepot.nextSubAccount < counterBound) :
    ∃ c' time, Serves H c [.tick time, .cronDisbursements] c' ∧ c'.pool = c.pool ∧
      c'.state.world.tokens = c.state.world.tokens ∧
      (∀ s ∈ settlements (market c).history, s ∈ settlements (market c').history) ∧
      (∀ d ∈ c.state.world.entrepot.pendingDisbursements, Decodes H.deployment d = true →
        d ∈ acknowledged (market c').history) ∧
      ∀ d ∈ c'.state.world.entrepot.pendingDisbursements, Decodes H.deployment d = false := by
  obtain ⟨c', time, hrun, hpool, hhistory, hround⟩ := exists_round (owed_queue_le hc₀ h hbound)
  have hqueue : c'.state.world.entrepot.pendingDisbursements =
      (c.state.world.entrepot.pendingDisbursements.filter
        fun d => !Decodes H.deployment d).reverse := hround.queue
  refine ⟨c', time, hrun, hpool, hround.tokens, fun s hs => ?_, fun d hd hdecodes => ?_,
    fun d hd => ?_⟩
  · rw [hhistory, mem_settlements]
    exact List.mem_append_right _ (mem_settlements.1 hs)
  · rw [hhistory, acknowledged_map]
    exact List.mem_append_left _
      (List.mem_reverse.2 (List.mem_filter.2 ⟨hd, hdecodes⟩))
  · rw [hqueue] at hd
    simpa using (List.mem_filter.1 (List.mem_reverse.1 hd)).2

/-- **A purchase that has been paid can always be completed, and paid out.**  From every
configuration of every run of the whole canister in which no admin restores the marketplace, no
transaction is settled a second time and no upgrade cuts off a run of the queue: if a transaction is
pending, its subaccount holds the price and a balance that can be split, its id is a key, the volume
does not overflow, and its seller owns the token, then one `settle` call of anybody and, as soon as
it is time, one call of `cronDisbursements`, with a ledger that answers truthfully, make the buyer
the owner and pay out the proceeds, but for the jobs whose address cannot be decoded.  Nothing else
is called, and whatever else is suspended stays suspended. -/
theorem purchase_completes (hc₀ : Initial c₀)
    (h : Actor.Run (program H) (unrestored H ((soldOnce H.deployment).and betweenRuns)) c₀ c)
    (hbound : c.state.world.entrepot.nextSubAccount < counterBound) {token : TokenIdentifier}
    {index : TokenIndex} {t : Transaction} {b : UInt64} (caller : Principal)
    (htoken : unpackTokenIdentifier H.deployment token = .ok index)
    (hpending : c.state.world.entrepot.pendingTransactions.get index = some t)
    (hbalance : b.toNat = c.state.world.ledger t.bytes)
    (hcompletes : Completes H.deployment c.state.world ⟨index, t⟩ b) :
    ∃ c' time jobs, Serves H c [.settle caller token, .tick time, .cronDisbursements] c' ∧
      c'.pool = c.pool ∧ c'.state.world.tokens.ownerOf index = some t.to' ∧
      ⟨⟨index, t⟩, b, jobs⟩ ∈ settlements (market c').history ∧ (jobs.map cost).sum = b.toNat ∧
      (∀ d ∈ jobs, Decodes H.deployment d = true → d ∈ acknowledged (market c').history) ∧
      ∀ d ∈ c'.state.world.entrepot.pendingDisbursements, Decodes H.deployment d = false := by
  have hnew := unsettled_of_run (fun _ _ hg => And.right hg) hc₀ h hbound index t hpending
  obtain ⟨c₁, jobs, hrun₁, hpool₁, hqueue₁, howner, hsettled, hsum, hbound₁⟩ :=
    exists_settlement caller htoken hpending hbalance hcompletes hnew
  obtain ⟨c₂, time, hrun₂, hpool₂, htokens, hsales, hpaid, hrest⟩ :=
    exists_payout hc₀ (h.trans hrun₁.run) (hbound₁ ▸ hbound)
  refine ⟨c₂, time, jobs, hrun₁.trans hpool₁ hrun₂, hpool₂.trans hpool₁, htokens ▸ howner,
    hsales _ hsettled, hsum, fun d hd => hpaid d ?_, hrest⟩
  rw [hqueue₁]
  exact List.mem_append_left _ hd

/-- The first lock, once it is paid, can be completed. -/
theorem purchase_completes_sample : ∃ c c', (program .sample).exec Config.sample
      (LegendsNft.Choice.paidLock.map ofChoice) = some c ∧
    (∃ time, Serves .sample c [.settle ⟨[]⟩ "t0", .tick time, .cronDisbursements] c') ∧
    c.state.world.tokens.ownerOf 0 = some "B" ∧ c'.state.world.tokens.ownerOf 0 = some "C" := by
  obtain ⟨c, hc, hallow, hbound, howner, hpending, hbalance, hcompletes⟩ := (by decide :
    ∃ c ∈ (program .sample).exec Config.sample (LegendsNft.Choice.paidLock.map ofChoice),
      (unrestored .sample ((soldOnce Collection.Host.sample.deployment).and betweenRuns)).AllowsAll
        (program .sample) Config.sample (LegendsNft.Choice.paidLock.map ofChoice) ∧
      c.state.world.entrepot.nextSubAccount < 4 ∧ c.state.world.tokens.ownerOf 0 = some "B" ∧
      c.state.world.entrepot.pendingTransactions.get 0 = some firstTransaction ∧
      (40000 : UInt64).toNat = c.state.world.ledger firstTransaction.bytes ∧
      Completes Collection.Host.sample.deployment c.state.world ⟨0, firstTransaction⟩ 40000)
  have htoken : unpackTokenIdentifier Collection.Host.sample.deployment "t0" = .ok 0 := by decide
  obtain ⟨c', time, jobs, hrun, -, hbuyer, -⟩ :=
    purchase_completes Config.initial_sample (Actor.run_of_exec hallow hc) (by
      unfold counterBound
      omega) ⟨[]⟩ htoken hpending hbalance hcompletes
  exact ⟨c, c', hc, ⟨time, hrun⟩, howner, hbuyer⟩

end Interface

end LegendsNft
