/-
**Money for tokens.**

A payment account is filled by a buyer and emptied by the queue.  Between the two stands the sale:
nothing takes money out of a payment account unless a transaction with this account has been
settled, and that settlement handed the token over, from the seller, who owned it, to the buyer.
What is paid in vain is never refunded, but it is never spent on anything else either.

Main definitions:

* `LegendsNft.Handover` — a sale, seen from the two worlds around it.

Main results:

* `LegendsNft.Interface.exists_handover` — every sale of a run was a handover in some step of it;
* `LegendsNft.Interface.paid_for_token` — **money leaves a payment account only for its token**.
-/

import LegendsNft.Bookkeeping

set_option relaxedAutoImplicit false
set_option autoImplicit false

namespace LegendsNft

open Entrepot

variable {D : Deployment}

/-- **A sale, seen from the two worlds around it**: the balance covers the price, the seller owns
the token before, and the buyer after. -/
structure Handover (D : Deployment) (w w' : World) (s : Settlement) : Prop where
  paid : s.transaction.price ≤ s.balance
  seller : w.tokens.Owns D s.transaction.from' s.frame.index
  buyer : w'.tokens.ownerOf s.frame.index = some s.transaction.to'

/-- A move that adds a sale to the history is a handover. -/
theorem Move.handover {w : World} {src : Source} {o : Step} {h : List Event} {s : Settlement}
    (hm : Move D w src o) (hafter : s ∈ settlements (o.events ++ h)) (hbefore : s ∉ settlements h) :
    Handover D w o.state s := by
  rcases hm.life with hq | ⟨f, t, rfl, rfl, rfl⟩ | ⟨f, b, k, r, rfl, -, rfl⟩ |
    ⟨f, b, k, s', tokens, jobs, rfl, hpaid, hsale, ht, rfl⟩
  · rw [hq.settlements_append] at hafter
    exact absurd hafter hbefore
  · exact absurd hafter hbefore
  · exact absurd hafter hbefore
  · rcases List.mem_cons.1 hafter with rfl | hafter
    · refine ⟨hpaid, Tokens.transfer_isOk_iff.1 ⟨_, ht⟩, ?_⟩
      rw [World.tokens_setTokens, Tokens.ownerOf_of_transfer ht, if_pos rfl]
      rfl
    · exact absurd hafter hbefore

namespace Interface

variable {H : Collection.Host} {G : LegendsNft.Guard} {c₀ c : Config}

/-- A sale is an event of the canister. -/
theorem mem_settlements_market {s : Settlement} : s ∈ settlements (market c).history ↔
    .market (.finalized s.frame s.balance s.jobs) ∈ c.history := by
  rw [mem_settlements]
  constructor
  · intro h
    obtain ⟨x, hx, heq⟩ := List.mem_filterMap.1 h
    unfold marketEvent at heq
    split at heq <;> cases heq
    exact hx
  · exact fun h => List.mem_filterMap.2 ⟨_, h, rfl⟩

/-- A segment that adds a sale to the history is a handover. -/
theorem handover_of_segment {d : Config} (src : Source) {o : Step} {s : Settlement}
    (hg : (unrestored H G).segment d src) (ho : (program H).segment d.state src = some o)
    (hbefore : s ∉ settlements (market d).history)
    (hafter : s ∈ settlements ((o.events ++ d.history).filterMap marketEvent)) :
    Handover H.deployment d.state.world o.state.world s := by
  rw [List.filterMap_append] at hafter
  cases turn_of_segment ho with
  | move hsrc hm => exact hm.handover hafter hbefore
  | aside _ _ _ hevents =>
      rw [hevents] at hafter
      exact absurd hafter hbefore
  | restored hsrc hadmin =>
      subst hsrc
      exact absurd (hadmin.symm.trans (hg.2 _ rfl)) (by decide)

/-- **Every sale of a run was a handover** in some step of it. -/
theorem exists_handover (hc₀ : c₀.history = []) (h : Actor.Run (program H) (unrestored H G) c₀ c)
    {s : Settlement} (hs : s ∈ settlements (market c).history) :
    ∃ d a d', Actor.Run (program H) (unrestored H G) c₀ d ∧ (program H).step d a = some d' ∧
      Actor.Run (program H) (unrestored H G) d' c ∧
      s ∉ settlements (market d).history ∧ s ∈ settlements (market d').history ∧
      Handover H.deployment d.state.world d'.state.world s := by
  obtain ⟨d, a, d', hd, ha, hstep, hrest, hbefore, hafter⟩ :=
    h.exists_origin (mem_settlements_market.1 hs) (hc₀ ▸ List.not_mem_nil)
  have hbefore' := mt mem_settlements_market.1 hbefore
  have hafter' := mem_settlements_market.2 hafter
  refine ⟨d, a, d', hd, hstep, hrest, hbefore', hafter', ?_⟩
  rcases Actor.Program.step_cases hstep with
    ⟨i, o, rfl, ho, rfl⟩ | ⟨n, r, k, o, rfl, hk, ho, rfl⟩ | ⟨u, o, rfl, ho, rfl⟩
  · exact handover_of_segment (.call i) ha ho hbefore' hafter'
  · exact handover_of_segment (.resume k r) (ha k hk) ho hbefore' hafter'
  · obtain ⟨canister, -, ho'⟩ := restart_eq_some ho
    have hevents : o.events.filterMap marketEvent = [.upgraded] :=
      congrArg Actor.Outcome.events ho'
    have hsettled : s ∈ settlements ((o.events ++ d.history).filterMap marketEvent) := hafter'
    rw [List.filterMap_append, hevents] at hsettled
    exact absurd hsettled hbefore'

/-- A balance that has been lowered has been lowered after a sale of its subaccount. -/
theorem exists_sale_of_lt {c₁ : Config} {sa : SubAccount} (hc₀ : Initial c₀)
    (h₁ : Actor.Run (program H) (unrestored H betweenRuns) c₀ c₁)
    (h : Actor.Run (program H) (unrestored H betweenRuns) c₁ c)
    (hbound : c.state.world.entrepot.nextSubAccount < counterBound)
    (hsa : sa ≠ defaultSubAccount)
    (hlt : c.state.world.ledger sa < c₁.state.world.ledger sa) :
    ∃ d s, Actor.Run (program H) (unrestored H betweenRuns) c₀ d ∧
      Actor.Run (program H) (unrestored H betweenRuns) d c ∧
      s ∈ settlements (market d).history ∧ s.transaction.bytes = sa := by
  induction h with
  | refl => exact absurd hlt (lt_irrefl _)
  | @tail d d' a hd ha hs ih =>
      have hstep := (Actor.Run.refl d).tail a ha hs
      have hle := nextSubAccount_le_of_run hstep
      rcases Nat.lt_or_ge (d.state.world.ledger sa) (c₁.state.world.ledger sa) with hold | hold
      · obtain ⟨e, s, he, hrest, hes⟩ := ih (by omega) hold
        exact ⟨e, s, he, hrest.trans hstep, hes⟩
      · -- this step executes a job, and a sale has queued it
        obtain ⟨n, k, r, o, rfl, hk, -, hdebits⟩ := step_debits hs (lt_of_lt_of_le hlt hold)
        cases hdebits with
        | withdrawal hdefault => exact absurd hdefault hsa
        | job hbytes =>
            have hB := books_of_run (fun _ _ hg => hg) hc₀ (h₁.trans hd) (by omega)
            obtain ⟨s, hsale, hjob⟩ := hB.exists_sale (mem_jobsLeft (List.mem_of_getElem? hk))
            exact ⟨d, s, h₁.trans hd, hstep, hsale, (hB.mem_jobs hsale hjob).1 ▸ hbytes⟩

/-- **Money leaves a payment account only for its token.**  In every run of the whole canister in
which no admin restores the marketplace, whatever the ledger answers and upgrades between two runs
of the queue included: if the balance of a subaccount, not that of the canister, is lower at the end
than at some moment of the run, then some step of the run made a sale with it that is not in the
history before; the balance it was settled with covered the price, the seller owned the token, and
the step made the buyer its owner. -/
theorem paid_for_token {c₁ : Config} {sa : SubAccount} (hc₀ : Initial c₀)
    (h₁ : Actor.Run (program H) (unrestored H betweenRuns) c₀ c₁)
    (h : Actor.Run (program H) (unrestored H betweenRuns) c₁ c)
    (hbound : c.state.world.entrepot.nextSubAccount < counterBound)
    (hsa : sa ≠ defaultSubAccount)
    (hlt : c.state.world.ledger sa < c₁.state.world.ledger sa) :
    ∃ d a d' s, Actor.Run (program H) (unrestored H betweenRuns) c₀ d ∧
      (program H).step d a = some d' ∧ Actor.Run (program H) (unrestored H betweenRuns) d' c ∧
      s ∉ settlements (market d).history ∧ s ∈ settlements (market d').history ∧
      s.transaction.bytes = sa ∧ Handover H.deployment d.state.world d'.state.world s := by
  obtain ⟨e, s, he, hrest, hs, hbytes⟩ := exists_sale_of_lt hc₀ h₁ h hbound hsa hlt
  obtain ⟨d, a, d', hd, hstep, hafter, hnew, hsettled, hhandover⟩ := exists_handover hc₀.2.2 he hs
  exact ⟨d, a, d', s, hd, hstep, hafter.trans hrest, hnew, hsettled, hbytes, hhandover⟩

/-- What is left of a sale when it is paid: the settlement and the disbursements. -/
def settledAndDrained : List Choice :=
  LegendsNft.Choice.settle.map ofChoice ++
    (.resume 0 .run :: .resume 0 .run :: drain : List LegendsNft.Choice).map ofChoice

/-- The first payment account is emptied, after a sale with its subaccount. -/
theorem paid_for_token_sample : ∃ (c₁ c d d' : Config) (s : Settlement),
    (program .sample).exec Config.sample (LegendsNft.Choice.paidLock.map ofChoice) = some c₁ ∧
    (program .sample).exec c₁ settledAndDrained = some c ∧
    c.state.world.ledger firstTransaction.bytes < c₁.state.world.ledger firstTransaction.bytes ∧
    Actor.Run (program .sample) (unrestored .sample betweenRuns) d' c ∧
    s ∉ settlements (market d).history ∧ s ∈ settlements (market d').history ∧
    s.transaction.bytes = firstTransaction.bytes ∧
    Handover Collection.Host.sample.deployment d.state.world d'.state.world s := by
  obtain ⟨c₁, hc₁, hallow₁, c, hc, hallow, hbound, hlt⟩ := (by decide :
    ∃ c₁ ∈ (program .sample).exec Config.sample (LegendsNft.Choice.paidLock.map ofChoice),
      (unrestored .sample betweenRuns).AllowsAll (program .sample) Config.sample
        (LegendsNft.Choice.paidLock.map ofChoice) ∧
      ∃ c ∈ (program .sample).exec c₁ settledAndDrained,
        (unrestored .sample betweenRuns).AllowsAll (program .sample) c₁ settledAndDrained ∧
        c.state.world.entrepot.nextSubAccount < 4 ∧
        c.state.world.ledger firstTransaction.bytes <
          c₁.state.world.ledger firstTransaction.bytes)
  obtain ⟨d, a, d', s, -, -, hrest, hsale⟩ := paid_for_token Config.initial_sample
    (Actor.run_of_exec hallow₁ hc₁) (Actor.run_of_exec hallow hc) (by
      unfold counterBound
      omega) (by decide) hlt
  exact ⟨c₁, c, d, d', s, hc₁, hc, hlt, hrest, hsale⟩

end Interface

end LegendsNft
