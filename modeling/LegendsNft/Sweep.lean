/-
**The heartbeat settles what has been paid.**

Nobody has to call `settle`.  A beat runs the queue of disbursements and then sends a `settle`
message for every pending transaction, with the token identifier that its `lock` call was given.
Here it is shown that these messages find their transactions, and that two beats are enough: the
first settles every transaction that has been paid, and the second pays out the proceeds.

The sweep is a chain of settlements in one state that changes from one to the next.  What a
settlement leaves alone, the entries, the owners and the balances of the other transactions, is what
the rest of the chain rests on.

Main definitions:

* `LegendsNft.Ready` — what a pending transaction takes to be settled;
* `LegendsNft.Heartbeats.Settleable`, `LegendsNft.Heartbeats.Swept` — what a sweep asks of the
  transactions it settles, and what it has done;
* `LegendsNft.Heartbeats.beating` — the calls of a beat.

Main results:

* `LegendsNft.Interface.unpack_of_pending` — the token identifier of a pending transaction is that
  of its index;
* `LegendsNft.Heartbeats.exists_sweep` — the `settle` messages of a beat;
* `LegendsNft.Heartbeats.heartbeat_settles` — **two beats settle and pay out everything that has
  been paid**.
-/

import LegendsNft.ListingHistory
import LegendsNft.Progress

set_option relaxedAutoImplicit false
set_option autoImplicit false

namespace LegendsNft

open Entrepot

variable {D : Deployment}

/-! ### The token of a transaction -/

/-- A `lock` call that goes on has decoded its token. -/
theorem Entrepot.unpack_of_lock {s s' : Entrepot} {now : Time} {token : TokenIdentifier}
    {price : UInt64} {buyer : AccountIdentifier} {f : LockFrame}
    (h : s.lock D now token price buyer = (s', .await f)) :
    unpackTokenIdentifier D f.token = .ok f.index := by
  have htoken : f.token = token := (lock_eq_await h).2.2.2.1
  rw [htoken]
  unfold lock at h
  cases hu : unpackTokenIdentifier D token with
  | error e => simp [hu] at h
  | ok index =>
      simp only [hu] at h
      split at h
      · cases congrArg Prod.snd h
      · split at h
        · cases congrArg Prod.snd h
        · split at h
          · cases congrArg Prod.snd h
          · have hframe := congrArg Prod.snd h
            cases hframe
            rfl

/-- A `lock` call begins in a call of `lock`. -/
theorem Move.source_of_lockBegan {w : World} {src : Source} {o : Step} (hm : Move D w src o)
    {f : LockFrame} (hf : .lockBegan f ∈ o.events) :
    ∃ caller token price buyer, src = .call (.lock caller token price buyer) := by
  cases hm with
  | lockBegan => exact ⟨_, _, _, _, rfl⟩
  | queueStep =>
      have hnone := listingIndex_answered hf
      simp [Event.listingIndex] at hnone
  | _ => simp [World.idle] at hf

namespace Interface

variable {H : Collection.Host} {G : LegendsNft.Guard} {c₀ c : Config}

/-- Where a `lock` call begins, its token has been decoded. -/
theorem unpack_of_segment {s : State} (src : Source) {o : Step}
    (ho : (program H).segment s src = some o) {f : LockFrame}
    (hf : .lockBegan f ∈ o.events.filterMap marketEvent) :
    unpackTokenIdentifier H.deployment f.token = .ok f.index := by
  cases turn_of_segment ho with
  | aside _ _ _ hevents =>
      rw [hevents] at hf
      exact absurd hf List.not_mem_nil
  | restored hsrc hadmin houtcome =>
      subst houtcome
      exact absurd hf List.not_mem_nil
  | move hsrc hm =>
      obtain ⟨caller, token, price, buyer, rfl⟩ := hm.source_of_lockBegan hf
      unfold marketSource at hsrc
      split at hsrc
      · cases hsrc
        obtain ⟨o₁, ho₁, rfl⟩ := Option.map_eq_some_iff.1 ho
        obtain ⟨o₂, ho₂, rfl⟩ := Option.map_eq_some_iff.1 ho₁
        have hmarket : .lockBegan f ∈ (marketStep (ofCollection s (Collection.ofMarket
            (Collection.returned H.deployment s.world _) o₂))).events := hf
        rw [marketStep_ofMarket fun e he => marketEvent_returned he] at hmarket
        simp only [LegendsNft.call] at ho₂
        split at ho₂
        · cases ho₂
          exact absurd hmarket List.not_mem_nil
        · rename_i s' f' hlock
          cases ho₂
          cases List.mem_singleton.1 hmarket
          exact unpack_of_lock hlock
      · cases hsrc
      · cases hsrc
      · cases hsrc

/-- In every run, a `lock` call that has begun has decoded its token. -/
theorem unpack_of_run {A : Guard} (hc₀ : Initial c₀) (h : Actor.Run (program H) A c₀ c)
    {f : LockFrame} (hf : .lockBegan f ∈ (market c).history) :
    unpackTokenIdentifier H.deployment f.token = .ok f.index := by
  obtain ⟨x, hx, hshown⟩ := List.mem_filterMap.1 hf
  have hnew : x ∉ c₀.history := hc₀.2.2 ▸ List.not_mem_nil
  obtain ⟨d, a, d', -, -, hstep, -, hbefore, hafter⟩ := h.exists_origin hx hnew
  rcases Actor.Program.step_cases hstep with
    ⟨i, o, rfl, ho, rfl⟩ | ⟨n, r, k, o, rfl, -, ho, rfl⟩ | ⟨u, o, rfl, ho, rfl⟩
  · have hevent := (List.mem_append.1 hafter).resolve_right hbefore
    exact unpack_of_segment (.call i) ho (List.mem_filterMap.2 ⟨x, hevent, hshown⟩)
  · have hevent := (List.mem_append.1 hafter).resolve_right hbefore
    exact unpack_of_segment (.resume k r) ho (List.mem_filterMap.2 ⟨x, hevent, hshown⟩)
  · obtain ⟨canister, -, ho'⟩ := restart_eq_some ho
    have hevents : o.events.filterMap marketEvent = [.upgraded] :=
      congrArg Actor.Outcome.events ho'
    have hevent := (List.mem_append.1 hafter).resolve_right hbefore
    have hmem : .lockBegan f ∈ o.events.filterMap marketEvent :=
      List.mem_filterMap.2 ⟨x, hevent, hshown⟩
    rw [hevents] at hmem
    cases List.mem_singleton.1 hmem

/-- **The token identifier of a pending transaction is that of its index**, so that a `settle`
message finds it. -/
theorem unpack_of_pending (hc₀ : Initial c₀)
    (h : Actor.Run (program H) (unrestored H ((soldOnce H.deployment).and betweenRuns)) c₀ c)
    (hlt : c.state.world.entrepot.nextSubAccount < counterBound) {i : TokenIndex} {t : Transaction}
    (ht : c.state.world.entrepot.pendingTransactions.get i = some t) :
    unpackTokenIdentifier H.deployment t.token = .ok i := by
  have hB := books_of_run (fun _ _ hg => And.right hg) hc₀ h hlt
  obtain ⟨e, he⟩ := hB.provenance.pending i t ht
  obtain ⟨f, hf, hindex, -, htransaction⟩ := hB.provenance.creation _ (mem_created.2 he)
  have htoken : t.token = f.token := congrArg Transaction.token htransaction
  have hunpack := unpack_of_run hc₀ h hf
  rw [htoken, hunpack]
  exact congrArg Except.ok hindex

end Interface

/-! ### What is ready -/

/-- A pending transaction is ready to be settled: its subaccount holds the price and a balance that
can be split, its id is a key, and its seller owns the token. -/
def Ready (D : Deployment) (w : World) (i : TokenIndex) (t : Transaction) : Prop :=
  t.price.toNat ≤ w.ledger t.bytes ∧
    (30000 ≤ w.ledger t.bytes ∧ (w.ledger t.bytes - 30000) * 2000 < 2 ^ 64) ∧
    t.id < 2 ^ 32 ∧ w.tokens.Owns D t.from' i

instance (w : World) (i : TokenIndex) (t : Transaction) : Decidable (Ready D w i t) :=
  inferInstanceAs (Decidable (_ ∧ (_ ∧ _) ∧ _ ∧ _))

/-- Being ready is a matter of one balance and one owner. -/
theorem Ready.congr {w w' : World} {i : TokenIndex} {t : Transaction} (h : Ready D w i t)
    (hledger : w'.ledger t.bytes = w.ledger t.bytes)
    (howner : w'.tokens.ownerOf i = w.tokens.ownerOf i) : Ready D w' i t := by
  unfold Ready Tokens.Owns at *
  rw [hledger, howner]
  exact h

/-- What is ready completes, unless the volume overflows. -/
theorem Ready.exists_completes {w : World} {i : TokenIndex} {t : Transaction} (h : Ready D w i t)
    (hvolume : w.entrepot.totalVolume.toNat + t.price.toNat < 2 ^ 64) :
    ∃ b : UInt64, b.toNat = w.ledger t.bytes ∧ Completes D w ⟨i, t⟩ b := by
  obtain ⟨hprice, ⟨hlow, hhigh⟩, hid, hown⟩ := h
  have hfits : w.ledger t.bytes < 2 ^ 64 := by omega
  refine ⟨UInt64.ofNat (w.ledger t.bytes), Checked.toNat_ofNat hfits, ?_⟩
  refine ⟨UInt64.le_iff_toNat_le.2 ?_, ?_, hid, hvolume, hown⟩
  · rw [Checked.toNat_ofNat hfits]
    exact hprice
  · rw [Checked.toNat_ofNat hfits]
    exact ⟨hlow, hhigh⟩

namespace Heartbeats

variable {H : Collection.Host}

/-! ### A sweep -/

/-- What a sweep asks of the transactions it settles. -/
structure Settleable (D : Deployment) (w : World) (h : List LegendsNft.Event)
    (es : List (TokenIndex × Transaction)) : Prop where
  token : ∀ e ∈ es, unpackTokenIdentifier D e.2.token = .ok e.1
  pending : ∀ e ∈ es, w.entrepot.pendingTransactions.get e.1 = some e.2
  unsettled : ∀ e ∈ es, e.2 ∉ (settlements h).map Settlement.transaction
  keys : (es.map Prod.fst).Nodup
  volume : w.entrepot.totalVolume.toNat + (es.map fun e => e.2.price.toNat).sum < 2 ^ 64

/-- What a sweep has done. -/
structure Swept (D : Deployment) (w w' : World) (h h' : List LegendsNft.Event)
    (es : List (TokenIndex × Transaction)) : Prop where
  sold : ∀ e ∈ es, Ready D w e.1 e.2 → ∃ b jobs, ⟨⟨e.1, e.2⟩, b, jobs⟩ ∈ settlements h' ∧
    b.toNat = w.ledger e.2.bytes ∧ (jobs.map cost).sum = b.toNat ∧
    jobs.Sublist w'.entrepot.pendingDisbursements ∧ w'.tokens.ownerOf e.1 = some e.2.to'
  owners : ∀ i, i ∉ es.map Prod.fst → w'.tokens.ownerOf i = w.tokens.ownerOf i
  queue : w.entrepot.pendingDisbursements.Sublist w'.entrepot.pendingDisbursements
  settled : ∀ x ∈ settlements h, x ∈ settlements h'
  paid : acknowledged h' = acknowledged h
  nextSubAccount : w'.entrepot.nextSubAccount = w.entrepot.nextSubAccount

section Sale

variable {D : Deployment} {w : World} {h : List LegendsNft.Event} {i : TokenIndex} {t : Transaction}
  {es : List (TokenIndex × Transaction)} {b : UInt64} {e : Entrepot} {tokens : Tokens}
  {jobs : List Disbursement}

theorem Settleable.tail (hes : Settleable D w h ((i, t) :: es)) : Settleable D w h es where
  token := fun e he => hes.token e (List.mem_cons_of_mem _ he)
  pending := fun e he => hes.pending e (List.mem_cons_of_mem _ he)
  unsettled := fun e he => hes.unsettled e (List.mem_cons_of_mem _ he)
  keys := (List.nodup_cons.1 hes.keys).2
  volume := by
    have hvolume := hes.volume
    rw [List.map_cons, List.sum_cons] at hvolume
    omega

theorem Settleable.volume_head (hes : Settleable D w h ((i, t) :: es)) :
    w.entrepot.totalVolume.toNat + t.price.toNat < 2 ^ 64 := by
  have hvolume := hes.volume
  rw [List.map_cons, List.sum_cons, ← Nat.add_assoc] at hvolume
  exact lt_of_le_of_lt (Nat.le_add_right _ _) hvolume

theorem Settleable.ne (hes : Settleable D w h ((i, t) :: es)) {e : TokenIndex × Transaction}
    (he : e ∈ es) : e.1 ≠ i := by
  intro heq
  have hmem : e.1 ∈ es.map Prod.fst := List.mem_map_of_mem he
  exact (List.nodup_cons.1 hes.keys).1 (heq ▸ hmem)

/-- A sale leaves the other transactions as they are. -/
theorem Settleable.sale (hes : Settleable D w h ((i, t) :: es))
    (hsale : Sale fees w.entrepot e w.now ⟨i, t⟩ b jobs) :
    Settleable D ((w.setEntrepot e).setTokens tokens)
      (.finalized ⟨i, t⟩ b jobs :: .reported t.bytes b w.now :: h) es where
  token := hes.tail.token
  pending := by
    intro e' he'
    rw [World.entrepot_setTokens, World.entrepot_setEntrepot, hsale.pendingTransactions,
      Table.get_delete_of_ne _ (hes.ne he')]
    exact hes.tail.pending e' he'
  unsettled := by
    intro e' he' hsettled
    rcases List.mem_cons.1 hsettled with heq | hsettled
    · -- its token is that of another index
      have htoken := hes.token (i, t) (List.mem_cons_self ..)
      have htoken' := hes.tail.token e' he'
      rw [show e'.2 = t from heq, htoken] at htoken'
      cases htoken'
      exact hes.ne he' rfl
    · exact hes.tail.unsettled e' he' hsettled
  keys := hes.tail.keys
  volume := by
    have hvolume := hes.volume
    rw [List.map_cons, List.sum_cons, ← Nat.add_assoc] at hvolume
    rw [World.entrepot_setTokens, World.entrepot_setEntrepot, hsale.totalVolume]
    exact hvolume

/-- What is ready stays ready when another transaction is sold. -/
theorem Settleable.ready (hes : Settleable D w h ((i, t) :: es))
    (ht : w.tokens.transfer D w.now i t.from' t.to' = .ok tokens) {e' : TokenIndex × Transaction}
    (he' : e' ∈ es) (hready : Ready D w e'.1 e'.2) :
    Ready D ((w.setEntrepot e).setTokens tokens) e'.1 e'.2 := by
  refine hready.congr rfl ?_
  rw [World.tokens_setTokens, Tokens.ownerOf_of_transfer ht, if_neg (hes.ne he')]

/-- A sale before a sweep. -/
theorem Swept.sale {w' : World} {h' : List LegendsNft.Event}
    (hes : Settleable D w h ((i, t) :: es)) (hbalance : b.toNat = w.ledger t.bytes)
    (hsale : Sale fees w.entrepot e w.now ⟨i, t⟩ b jobs)
    (ht : w.tokens.transfer D w.now i t.from' t.to' = .ok tokens)
    (hswept : Swept D ((w.setEntrepot e).setTokens tokens) w'
      (.finalized ⟨i, t⟩ b jobs :: .reported t.bytes b w.now :: h) h' es) :
    Swept D w w' h h' ((i, t) :: es) := by
  have howner := Tokens.ownerOf_of_transfer ht
  have hqueue : (jobs ++ w.entrepot.pendingDisbursements).Sublist
      w'.entrepot.pendingDisbursements := by
    rw [← hsale.pendingDisbursements]
    exact hswept.queue
  constructor
  · intro e' he' hready
    rcases List.mem_cons.1 he' with rfl | he'
    · refine ⟨b, jobs, hswept.settled _ (List.mem_cons_self ..), hbalance, hsale.sum_jobs,
        (List.sublist_append_left ..).trans hqueue, ?_⟩
      rw [hswept.owners i (List.nodup_cons.1 hes.keys).1, World.tokens_setTokens, howner,
        if_pos rfl]
    · exact hswept.sold e' he' (hes.ready ht he' hready)
  · intro j hj
    rw [List.map_cons, List.mem_cons, not_or] at hj
    rw [hswept.owners j hj.2, World.tokens_setTokens, howner, if_neg hj.1]
  · exact (List.sublist_append_right ..).trans hqueue
  · exact fun x hx => hswept.settled x (List.mem_cons_of_mem _ hx)
  · exact hswept.paid
  · exact hswept.nextSubAccount.trans hsale.nextSubAccount

/-- A transaction that is not ready is left alone. -/
theorem Swept.skip {w' : World} {h' : List LegendsNft.Event} (hready : ¬ Ready D w i t)
    (hswept : Swept D w w' h h' es) : Swept D w w' h h' ((i, t) :: es) where
  sold := by
    intro e he hready'
    rcases List.mem_cons.1 he with rfl | he
    · exact absurd hready' hready
    · exact hswept.sold e he hready'
  owners := fun j hj => hswept.owners j fun hmem => hj (List.mem_cons_of_mem _ hmem)
  queue := hswept.queue
  settled := hswept.settled
  paid := hswept.paid
  nextSubAccount := hswept.nextSubAccount

end Sale

/-- **A sweep**: the messages to `settle` that are ready are handled one after the other, and the
others are left suspended. -/
theorem exists_sweep (es : List (TokenIndex × Transaction)) {s : Interface.State} {p : List Task}
    {h : List Event} {m : ℕ} (hm : m ≤ p.length)
    (hes : Settleable H.deployment s.world (marketHistory h) es) :
    ∃ w p' h', Swept H.deployment s.world w (marketHistory h) (marketHistory h') es ∧
      Serves H m ⟨s, p ++ es.map fun e => settleTask e.2.token, h⟩ []
        ⟨s.setWorld w, p', h'⟩ := by
  induction es generalizing s p h with
  | nil =>
      refine ⟨s.world, p, h, ⟨fun e he => absurd he List.not_mem_nil, fun _ _ => rfl,
        List.Sublist.refl _, fun _ hx => hx, rfl, rfl⟩, ?_⟩
      rw [List.map_nil, List.append_nil]
      exact .refl _
  | cons e es ih =>
      obtain ⟨i, t⟩ := e
      by_cases hready : Ready H.deployment s.world i t
      · obtain ⟨b, hbalance, hcompletes⟩ := hready.exists_completes hes.volume_head
        obtain ⟨e, tokens, jobs, hsale, ht, hrun⟩ := exists_sale (p := p)
          (q := es.map fun e => settleTask e.2.token) hm
          (hes.token _ (List.mem_cons_self ..)) (hes.pending _ (List.mem_cons_self ..)) hbalance
          hcompletes (hes.unsettled _ (List.mem_cons_self ..))
        obtain ⟨w, p', h', hswept, hrest⟩ := ih
          (s := s.setWorld ((s.world.setEntrepot e).setTokens tokens)) (p := p)
          (h := marketEvent (.finalized ⟨i, t⟩ b jobs) ::
            marketEvent (.reported t.bytes b s.world.now) :: h) hm (hes.sale hsale)
        exact ⟨w, p', h', .sale hes hbalance hsale ht hswept, hrun.trans hrest⟩
      · have hm' : m ≤ (p ++ [settleTask t.token]).length := by
          rw [List.length_append]
          exact Nat.le_add_right_of_le hm
        obtain ⟨w, p', h', hswept, hrun⟩ := ih (p := p ++ [settleTask t.token]) hm' hes.tail
        rw [List.append_assoc] at hrun
        exact ⟨w, p', h', hswept.skip hready, hrun⟩

/-! ### A beat -/

/-- The canister after a beat at another time. -/
def beaten (s : Interface.State) (time : Time) : Interface.State :=
  (later s time).setHeartbeat { s.heartbeat with lastBeat := time }

/-- The calls of a beat at some time: its jobs are calls that the canister makes itself. -/
def beating (time : Time) (jobs : List LegendsNft.Input) : List Interface.Input :=
  .collection (.market (.tick time)) :: .heartbeat :: jobs.map fun i => .collection (.market i)

/-- A run that begins with time passing, and a beat. -/
theorem run_beat {s : Interface.State} {p : List Task} {h : List Event} {d : Config} {time : Time}
    {m : ℕ} {as : List Interface.Input} (hle : s.world.now ≤ time) (hon : s.heartbeat.on = true)
    (hdue : s.heartbeat.intervalSeconds * 1000000000 ≤ time - s.heartbeat.lastBeat)
    (hrun : Serves H m ⟨beaten s time, p ++ [.cronDisbursements], .beat time :: h⟩ as d) :
    Serves H m ⟨s, p, h⟩ (.collection (.market (.tick time)) :: .heartbeat :: as) d := by
  have hcall : (program H).call (later s time) .heartbeat =
      some ⟨beaten s time, [.cronDisbursements], [.beat time]⟩ := by
    have hon' : ¬ (later s time).heartbeat.on = false := by
      change ¬ s.heartbeat.on = false
      rw [hon]
      decide
    change call H (later s time) .heartbeat = _
    rw [call, if_neg hon']
    exact if_neg (not_lt.2 hdue)
  refine run_tick hle (.call_behind rfl hcall (fun i hi => ?_) hrun)
  cases hi
  exact ⟨fun src hsrc => absurd hsrc (Option.not_mem_none _),
    fun _ hp => absurd hp (Option.not_mem_none _)⟩

/-- **A beat, and its round of the queue**: after some time all jobs are due. -/
theorem exists_beat {c : Config} {m : ℕ} (hm : m ≤ c.pool.length)
    (hon : c.state.heartbeat.on = true)
    (hcovered : ∀ sa, owed sa (c.state.world.entrepot.pendingDisbursements :
      Multiset Disbursement) ≤ c.state.world.ledger sa) :
    ∃ s h time, Round H.deployment { c.state.world with now := time } s.world ∧
      s.heartbeat.on = true ∧
      settleInterval ≤ s.world.now - s.world.entrepot.lastSettleCron ∧
      marketHistory h = (c.state.world.entrepot.pendingDisbursements.filter
        (Decodes H.deployment)).reverse.map .acknowledged ++ marketHistory c.history ∧
      Serves H m c (beating time [.cronDisbursements]) ⟨s, c.pool ++ [.disbursed], h⟩ := by
  let time : Time := max (max c.state.world.now
      (c.state.heartbeat.lastBeat + c.state.heartbeat.intervalSeconds * 1000000000))
    (max (c.state.world.entrepot.lastDisburseCron + disburseInterval)
      (c.state.world.entrepot.lastSettleCron + settleInterval))
  have hnow : c.state.world.now ≤ time := le_trans (le_max_left _ _) (le_max_left _ _)
  have hbeat : c.state.heartbeat.lastBeat + c.state.heartbeat.intervalSeconds * 1000000000 ≤ time :=
    le_trans (le_max_right _ _) (le_max_left _ _)
  have hdisburse : c.state.world.entrepot.lastDisburseCron + disburseInterval ≤ time :=
    le_trans (le_max_left _ _) (le_max_right _ _)
  have hsettle : c.state.world.entrepot.lastSettleCron + settleInterval ≤ time :=
    le_trans (le_max_right _ _) (le_max_right _ _)
  obtain ⟨w, hround, hrun⟩ := exists_round (H := H)
    (s := beaten c.state time) (p := c.pool) (h := .beat time :: c.history) hm hcovered
    (le_sub_iff_add_le'.2 hdisburse)
  refine ⟨(beaten c.state time).setWorld w, _, time, hround, hon, ?_, ?_,
    run_beat hnow hon (le_sub_iff_add_le'.2 hbeat) hrun⟩
  · change settleInterval ≤ w.now - w.entrepot.lastSettleCron
    rw [hround.now, hround.lastSettleCron]
    exact le_sub_iff_add_le'.2 hsettle
  · rw [marketHistory_append, marketHistory_acknowledgements]
    rfl

/-- The canister after `cronSettlements`. -/
def settling (s : Interface.State) : Interface.State :=
  s.setWorld (s.world.setEntrepot { s.world.entrepot with lastSettleCron := s.world.now })

/-- A run that begins with the `settle` messages of a beat. -/
theorem run_settlements {s : Interface.State} {p : List Task} {h : List Event} {d : Config}
    {m : ℕ} {as : List Interface.Input} (hm : m ≤ p.length)
    (hdue : settleInterval ≤ s.world.now - s.world.entrepot.lastSettleCron)
    (hrun : Serves H m ⟨settling s,
      p ++ s.world.entrepot.pendingTransactions.entries.map fun e => settleTask e.2.token,
      .cronSettlements :: h⟩ as d) :
    Serves H m ⟨s, p ++ [.disbursed], h⟩ (.collection (.market .cronSettlements) :: as) d := by
  refine .resume_last (r := .run) (o := ⟨s, [.cronSettlements], []⟩) rfl hm rfl ?_ ?_
  · intro src hsrc
    cases hsrc
  refine .handle_last (r := .run) (o := ⟨settling s,
      s.world.entrepot.pendingTransactions.entries.map fun e => settleTask e.2.token,
      [.cronSettlements]⟩) rfl hm ?_ (calm_of_job rfl) hrun
  change resume H s .cronSettlements .run = _
  simp only [resume, cronSettlements, if_neg (not_lt.2 hdue), List.map_map]
  rfl

/-- A round of the queue leaves alone what is ready, since nothing is queued for it. -/
theorem ready_of_round {D : Deployment} {w w' : World} {h : List LegendsNft.Event}
    {m : Multiset LegendsNft.Task} {time : Time} {i : TokenIndex} {t : Transaction}
    (hB : Bookkeeping D w h m) (hU : Unsettled w h) (hround : Round D { w with now := time } w')
    (ht : w.entrepot.pendingTransactions.get i = some t) (hready : Ready D w i t) :
    w'.ledger t.bytes = w.ledger t.bytes ∧ Ready D w' i t := by
  obtain ⟨e, he⟩ := hB.provenance.pending i t ht
  have howed : owed t.bytes
      (w.entrepot.pendingDisbursements.filter (Decodes D) : List Disbursement) = 0 := by
    refine owed_eq_zero fun d hd => hB.bytes_ne he (hU i t ht) d ?_
    exact Multiset.mem_add.2 (Or.inl (List.mem_of_mem_filter (Multiset.mem_coe.1 hd)))
  have hledger : w'.ledger t.bytes = w.ledger t.bytes := by
    have hsum : w'.ledger t.bytes + owed t.bytes
        (w.entrepot.pendingDisbursements.filter (Decodes D) : List Disbursement) =
      w.ledger t.bytes := hround.ledger t.bytes
    rw [howed] at hsum
    exact hsum
  refine ⟨hledger, hready.congr hledger ?_⟩
  rw [hround.tokens]
  rfl

/-! ### Two beats -/

section Beats

variable {c₀ c : Config}

/-- **What serves calls is a run** in which no transaction is settled a second time. -/
theorem run_of_serves {m : ℕ} {as : List Interface.Input} {d : Config}
    (h : Serves H m c as d) :
    Actor.Run (program H)
      (within H (Interface.unrestored H ((soldOnce H.deployment).and betweenRuns))) c d := by
  refine Actor.Serves.run (fun c i hg i' hi => ?_) (fun c k r hg src hsrc => ?_) h
  · exact Interface.segment_of_truthful (.call i') (hg i' hi)
  · exact Interface.segment_of_truthful src (hg src hsrc)

/-- **A beat, its round of the queue and its sweep.** -/
theorem exists_settling (hc₀ : Interface.Initial (canister c₀))
    (h : Actor.Run (program H)
      (within H (Interface.unrestored H ((soldOnce H.deployment).and betweenRuns))) c₀ c)
    (hbound : c.state.world.entrepot.nextSubAccount < counterBound)
    (hvolume : c.state.world.entrepot.totalVolume.toNat +
      (c.state.world.entrepot.pendingTransactions.entries.map fun e => e.2.price.toNat).sum <
        2 ^ 64)
    (hon : c.state.heartbeat.on = true) :
    ∃ d time, Serves H c.pool.length c (beating time [.cronDisbursements, .cronSettlements]) d ∧
      d.state.heartbeat.on = true ∧
      d.state.world.entrepot.nextSubAccount = c.state.world.entrepot.nextSubAccount ∧
      (∀ i t, c.state.world.entrepot.pendingTransactions.get i = some t →
        Ready H.deployment c.state.world i t →
        ∃ b jobs, ⟨⟨i, t⟩, b, jobs⟩ ∈ settlements (marketHistory d.history) ∧
          b.toNat = c.state.world.ledger t.bytes ∧ (jobs.map cost).sum = b.toNat ∧
          jobs.Sublist d.state.world.entrepot.pendingDisbursements ∧
          d.state.world.tokens.ownerOf i = some t.to') ∧
      acknowledged (marketHistory d.history) =
        (c.state.world.entrepot.pendingDisbursements.filter (Decodes H.deployment)).reverse ++
          acknowledged (marketHistory c.history) := by
  have hcanister := refines_canister h
  have hB := Interface.books_of_run (fun _ _ hg => And.right hg) hc₀ hcanister hbound
  have hU := Interface.unsettled_of_run (fun _ _ hg => And.right hg) hc₀ hcanister hbound
  obtain ⟨s, h₁, time, hround, hon₁, hdue, hhistory, hbeat⟩ :=
    exists_beat (le_refl _) hon (Interface.owed_queue_le hc₀ hcanister hbound)
  -- the messages of the sweep find what is pending after the round
  have hcanister₁ := hcanister.trans (refines_canister (run_of_serves hbeat))
  have hbound₁ : s.world.entrepot.nextSubAccount < counterBound := hround.nextSubAccount ▸ hbound
  have hsettleable : Settleable H.deployment (settling s).world
      (marketHistory (.cronSettlements :: h₁))
      s.world.entrepot.pendingTransactions.entries := by
    constructor
    · exact fun e he => Interface.unpack_of_pending hc₀ hcanister₁ hbound₁ (Table.mem_entries.1 he)
    · exact fun e he => Table.mem_entries.1 he
    · exact fun e he => Interface.unsettled_of_run (fun _ _ hg => And.right hg) hc₀ hcanister₁
        hbound₁ e.1 e.2 (Table.mem_entries.1 he)
    · exact Table.nodup_keys_entries _
    · change s.world.entrepot.totalVolume.toNat +
        (s.world.entrepot.pendingTransactions.entries.map fun e => e.2.price.toNat).sum < 2 ^ 64
      rw [hround.totalVolume, hround.pendingTransactions]
      exact hvolume
  obtain ⟨w, p', h₂, hswept, hsweep⟩ :=
    exists_sweep (H := H) (s := settling s) (p := c.pool) _ (le_refl _) hsettleable
  refine ⟨_, time, hbeat.trans (run_settlements (le_refl _) hdue hsweep), hon₁,
    hswept.nextSubAccount.trans hround.nextSubAccount, fun i t ht hready => ?_, ?_⟩
  · obtain ⟨hledger, hready₁⟩ := ready_of_round hB hU hround ht hready
    obtain ⟨b, jobs, hsettled, hbalance, hrest⟩ := hswept.sold (i, t)
      (Table.mem_entries.2 (by rw [hround.pendingTransactions]; exact ht)) hready₁
    exact ⟨b, jobs, hsettled, hbalance.trans hledger, hrest⟩
  · have hpaid : acknowledged (marketHistory h₂) = acknowledged (marketHistory h₁) := hswept.paid
    rw [hpaid, hhistory, acknowledged_map]

/-- **Two beats settle and pay out everything that has been paid.**  From every configuration of
every run of the canister with its heartbeat in which no admin restores the marketplace, no
transaction is settled a second time and no upgrade cuts off a run of the queue: if the heartbeat is
on, there is a run in which nobody calls anything, time passes, the heart beats twice, runs its jobs
and the ledger answers truthfully, at whose end every pending transaction that was ready belongs to
its buyer, its whole balance has been split, and the jobs of its sale and those that were queued
have been paid.  Only jobs whose address cannot be decoded are left in the queue. -/
theorem heartbeat_settles (hc₀ : Interface.Initial (canister c₀))
    (h : Actor.Run (program H)
      (within H (Interface.unrestored H ((soldOnce H.deployment).and betweenRuns))) c₀ c)
    (hbound : c.state.world.entrepot.nextSubAccount < counterBound)
    (hvolume : c.state.world.entrepot.totalVolume.toNat +
      (c.state.world.entrepot.pendingTransactions.entries.map fun e => e.2.price.toNat).sum <
        2 ^ 64)
    (hon : c.state.heartbeat.on = true) :
    ∃ c' first second, Serves H c.pool.length c
        (beating first [.cronDisbursements, .cronSettlements] ++
          beating second [.cronDisbursements]) c' ∧
      (∀ i t, c.state.world.entrepot.pendingTransactions.get i = some t →
        Ready H.deployment c.state.world i t →
        c'.state.world.tokens.ownerOf i = some t.to' ∧
        ∃ b jobs, ⟨⟨i, t⟩, b, jobs⟩ ∈ settlements (marketHistory c'.history) ∧
          b.toNat = c.state.world.ledger t.bytes ∧ (jobs.map cost).sum = b.toNat ∧
          ((jobs.filter (Decodes H.deployment) : List Disbursement) : Multiset Disbursement) ≤
            acknowledged (marketHistory c'.history)) ∧
      ((c.state.world.entrepot.pendingDisbursements.filter (Decodes H.deployment) :
        List Disbursement) : Multiset Disbursement) + acknowledged (marketHistory c.history) ≤
          acknowledged (marketHistory c'.history) ∧
      ∀ d ∈ c'.state.world.entrepot.pendingDisbursements, Decodes H.deployment d = false := by
  obtain ⟨d, first, hserves, hon', hcount, hsold, hacknowledged⟩ :=
    exists_settling hc₀ h hbound hvolume hon
  have hcovered := Interface.owed_queue_le hc₀
    (refines_canister (h.trans (run_of_serves hserves))) (hcount ▸ hbound)
  -- the second beat pays out the proceeds
  obtain ⟨s, h₁, second, hround, -, -, hhistory, hbeat⟩ :=
    exists_beat (H := H) (hserves.take_pool (le_refl _)).2 hon' hcovered
  have hpaid : (acknowledged (marketHistory h₁) : Multiset Disbursement) =
      (d.state.world.entrepot.pendingDisbursements.filter (Decodes H.deployment) :
        List Disbursement) +
      ((c.state.world.entrepot.pendingDisbursements.filter (Decodes H.deployment) :
        List Disbursement) + acknowledged (marketHistory c.history)) := by
    rw [hhistory, acknowledged_map, hacknowledged]
    simp only [← Multiset.coe_add, Multiset.coe_reverse]
  refine ⟨_, first, second, hserves.trans hbeat, fun i t ht hready => ?_, ?_, fun j hj => ?_⟩
  · obtain ⟨b, jobs, hsettled, hbalance, hsum, hqueue, howner⟩ := hsold i t ht hready
    refine ⟨?_, b, jobs, ?_, hbalance, hsum, ?_⟩
    · rw [show s.world.tokens = d.state.world.tokens from hround.tokens]
      exact howner
    · rw [hhistory, mem_settlements]
      exact List.mem_append_right _ (mem_settlements.1 hsettled)
    · rw [hpaid]
      exact le_trans (Multiset.coe_le.2 (hqueue.filter _).subperm) (Multiset.le_add_right _ _)
  · rw [hpaid]
    exact Multiset.le_add_left _ _
  · rw [show s.world.entrepot.pendingDisbursements = _ from hround.queue] at hj
    simpa using (List.mem_filter.1 (List.mem_reverse.1 hj)).2

end Beats

/-- A choice of a scheduler of the canister whose jobs run freely. -/
def ofChoice : Interface.Choice → Choice
  | .call i => .call (.canister i)
  | .resume n r => .resume n (.canister r)
  | .restart u => .restart u

/-- A purchase that has been paid, which nobody settles. -/
def paidPurchase : List Choice :=
  (LegendsNft.Choice.paidLock.map Interface.ofChoice).map ofChoice

/-- Two beats complete the first purchase. -/
theorem heartbeat_settles_sample : ∃ c c',
    (program .sample).exec Config.sample paidPurchase = some c ∧
    (∃ first second, Serves .sample c.pool.length c
      (beating first [.cronDisbursements, .cronSettlements] ++
        beating second [.cronDisbursements]) c') ∧
    c.state.world.tokens.ownerOf 0 = some "B" ∧ c'.state.world.tokens.ownerOf 0 = some "C" ∧
    c'.state.world.entrepot.pendingDisbursements.filter
      (Decodes Collection.Host.sample.deployment) = [] := by
  obtain ⟨c, hc, hallow, hbound, hvolume, hon, howner, hpending, hready⟩ := (by decide :
    ∃ c ∈ (program .sample).exec Config.sample paidPurchase,
      (within .sample (Interface.unrestored .sample
        ((soldOnce Collection.Host.sample.deployment).and betweenRuns))).AllowsAll
          (program .sample) Config.sample paidPurchase ∧
      c.state.world.entrepot.nextSubAccount < 4 ∧
      c.state.world.entrepot.totalVolume.toNat +
        (c.state.world.entrepot.pendingTransactions.entries.map fun e => e.2.price.toNat).sum <
          2 ^ 64 ∧
      c.state.heartbeat.on = true ∧ c.state.world.tokens.ownerOf 0 = some "B" ∧
      c.state.world.entrepot.pendingTransactions.get 0 = some firstTransaction ∧
      Ready Collection.Host.sample.deployment c.state.world 0 firstTransaction)
  have hinitial : Interface.Initial (canister Config.sample) := Interface.Config.initial_sample
  obtain ⟨c', first, second, hserves, hsold, -, hqueue⟩ := heartbeat_settles hinitial
    (Actor.run_of_exec hallow hc) (by
      unfold counterBound
      omega) hvolume hon
  refine ⟨c, c', hc, ⟨first, second, hserves⟩, howner,
    (hsold 0 firstTransaction hpending hready).1, ?_⟩
  exact List.filter_eq_nil_iff.2 fun d hd => by simp [hqueue d hd]

end Heartbeats

end LegendsNft
