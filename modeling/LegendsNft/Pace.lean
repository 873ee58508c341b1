/-
**The pace of the heartbeat.**

Two jobs run in the canister without anybody calling them, and each of their runs costs cycles.
What limits them is the interval of the heartbeat, which is kept in a stable variable together with
the time of the last beat; the limits within the jobs are forgotten by an upgrade.  As long as no
admin sets a shorter interval, two beats are that far apart, whoever calls what in between and
however often the canister is upgraded, and the jobs run once a beat at most.

Main definitions:

* `LegendsNft.Heartbeats.Pulse` — what a segment does to the heartbeat;
* `LegendsNft.Heartbeats.Paced` — the pace of the beats and of the jobs.

Main results:

* `LegendsNft.Heartbeats.pulse_of_segment` — every segment is one of these;
* `LegendsNft.Heartbeats.Paced.segment`, `LegendsNft.Heartbeats.paced_of_run` — each segment, and
  every run, keeps the pace;
* `LegendsNft.Heartbeats.heartbeat_paced` — **the jobs keep the pace of the heartbeat**.
-/

import LegendsNft.Heartbeats

set_option relaxedAutoImplicit false
set_option autoImplicit false

namespace LegendsNft

open Entrepot

namespace Heartbeats

variable {H : Collection.Host}

/-! ### What a segment does to the heartbeat -/

/-- How far a beat has come. -/
inductive Stage
  /-- `cronDisbursements` has been called. -/
  | called
  /-- `cronDisbursements` has begun, and `cronSettlements` has not. -/
  | begun
  deriving DecidableEq

/-- How far the beat of a continuation has come. -/
def Task.stage : Task → Option Stage
  | .canister _ => none
  | .cronDisbursements => some .called
  | .transfer _ | .transferred _ _ | .disbursed | .cronSettlements => some .begun

/-- The events of the heartbeat. -/
def Event.isBeat : Event → Bool
  | .canister _ => false
  | .beat _ | .cronDisbursements | .cronSettlements => true

/-- A segment that is no beat keeps the time of the last one; the interval is set by admins. -/
structure Steady (s s' : Interface.State) (src : Source) : Prop where
  lastBeat : s'.heartbeat.lastBeat = s.heartbeat.lastBeat
  interval : s'.heartbeat.intervalSeconds = s.heartbeat.intervalSeconds ∨
    ∃ caller, s.isAdmin caller = true ∧
      src = .call (.canister (.heartbeatSetInterval caller s'.heartbeat.intervalSeconds))

/-- **What a segment does to the heartbeat.** -/
inductive Pulse (s : Interface.State) : Source → Step → Prop
  | beat (due : s.heartbeat.lastBeat + s.heartbeat.intervalSeconds * 1000000000 ≤ s.world.now) :
      Pulse s (.call .heartbeat) ⟨s.setHeartbeat { s.heartbeat with lastBeat := s.world.now },
        [.cronDisbursements], [.beat s.world.now]⟩
  | disburse {o : Step} {k : Task} (heartbeat : o.state.heartbeat = s.heartbeat)
      (spawned : o.spawned = [k]) (stage : k.stage = some .begun)
      (events : o.events = [.cronDisbursements]) : Pulse s (.resume .cronDisbursements .run) o
  | goOn {k k' : Task} {r : Wake} {o : Step} (heartbeat : o.state.heartbeat = s.heartbeat)
      (source : k.stage = some .begun) (spawned : o.spawned = [k'])
      (stage : k'.stage = some .begun) (events : ∀ e ∈ o.events, e.isBeat = false) :
      Pulse s (.resume k r) o
  | settle {o : Step} (heartbeat : o.state.heartbeat = s.heartbeat)
      (spawned : ∀ k ∈ o.spawned, k.stage = none) (events : o.events = [.cronSettlements]) :
      Pulse s (.resume .cronSettlements .run) o
  /-- Nothing is called, though a beat may end here. -/
  | aside {src : Source} {o : Step} (steady : Steady s o.state src)
      (spawned : ∀ k ∈ o.spawned, k.stage = none) (events : ∀ e ∈ o.events, e.isBeat = false) :
      Pulse s src o

section Pulse

variable {s : Interface.State}

theorem Pulse.ofCanister {src : Source} {o : Interface.Step} (h : Steady s o.state src) :
    Pulse s src (ofCanister o) := by
  refine .aside h ?_ ?_
  · intro k hk
    obtain ⟨k', -, rfl⟩ := List.mem_map.1 hk
    rfl
  · intro e he
    obtain ⟨e', -, rfl⟩ := List.mem_map.1 he
    rfl

theorem Pulse.idle (src : Source) : Pulse s src (idle s) :=
  .aside ⟨rfl, Or.inl rfl⟩ (List.forall_mem_nil _) (List.forall_mem_nil _)

theorem steady_of_eq {s' : Interface.State} {src : Source} (h : s'.heartbeat = s.heartbeat) :
    Steady s s' src :=
  ⟨congrArg Heartbeat.lastBeat h, Or.inl (congrArg Heartbeat.intervalSeconds h)⟩

theorem heartbeat_commit {α : Type} (r : Except Trap α) {write : α → Interface.State}
    (h : ∀ a, (write a).heartbeat = s.heartbeat) :
    (Interface.commit s r write).state.heartbeat = s.heartbeat := by
  cases r with
  | error e => rfl
  | ok a => exact h a

theorem heartbeat_suspend (r : Except Trap Unit) (k : Interface.Task) :
    (Interface.suspend s r k).state.heartbeat = s.heartbeat := by
  cases r with
  | error e => rfl
  | ok u => rfl

/-- A method of the canister that is no job keeps the heartbeat, or an admin sets it. -/
theorem steady_of_call {i : Interface.Input} {o : Interface.Step} (hi : isJob i = false)
    (h : Interface.call H s i = some o) : Steady s o.state (.call (.canister i)) := by
  cases i with
  | heartbeat => cases hi
  | heartbeatSetInterval caller n =>
      cases h
      cases hadmin : s.isAdmin caller with
      | true => exact ⟨rfl, Or.inr ⟨caller, hadmin, rfl⟩⟩
      | false => exact ⟨rfl, Or.inl rfl⟩
  | heartbeatSwitch caller on =>
      cases h
      cases hadmin : s.isAdmin caller with
      | true => exact ⟨rfl, Or.inl rfl⟩
      | false => exact ⟨rfl, Or.inl rfl⟩
  | collection i =>
      obtain ⟨o', -, rfl⟩ := Option.map_eq_some_iff.1 h
      exact ⟨rfl, Or.inl rfl⟩
  | query | collectCanisterMetrics | assetsRestore | readLedger | balance | allowance | approve =>
      cases h
      exact ⟨rfl, Or.inl rfl⟩
  | upload | uploadFinalize | uploadClear | purgeAssets | assetsDelete | assetsTag
  | configureColors | configureStockColors | tokensRestore | entrepotRestore | deleteListing
  | publicSaleRestore =>
      cases h
      exact steady_of_eq (heartbeat_commit _ fun _ => rfl)
  | init | launchpadEventCreate | launchpadEventUpdate | withdrawAll =>
      cases h
      exact steady_of_eq (heartbeat_suspend _ _)
  | configureNri caller data =>
      cases h
      cases hadmin : s.isAdmin caller with
      | true => exact ⟨rfl, Or.inl rfl⟩
      | false => exact ⟨rfl, Or.inl rfl⟩
  | nnsTransfer caller amount to' =>
      rw [Interface.call] at h
      split at h <;> cases h <;> exact ⟨rfl, Or.inl rfl⟩

/-- A continuation of the canister keeps the heartbeat. -/
theorem heartbeat_of_resume {k : Interface.Task} {r : Interface.Wake} {o : Interface.Step}
    (h : Interface.resume H s k r = some o) : o.state.heartbeat = s.heartbeat := by
  unfold Interface.resume at h
  split at h
  · obtain ⟨o', -, rfl⟩ := Option.map_eq_some_iff.1 h
    rfl
  all_goals
    cases h <;> rfl

theorem pulse_of_call {i : Input} {o : Step} (h : call H s i = some o) :
    Pulse s (.call i) o := by
  cases i with
  | heartbeat =>
      rw [call] at h
      split at h
      · cases h
        exact .idle _
      · split at h
        · cases h
          exact .idle _
        · rename_i hdue
          cases h
          exact .beat (le_sub_iff_add_le'.1 (not_lt.1 hdue))
  | canister i =>
      rw [call] at h
      split at h
      · cases h
      · rename_i hjob
        obtain ⟨o', ho', rfl⟩ := Option.map_eq_some_iff.1 h
        exact .ofCanister (steady_of_call (Bool.eq_false_iff.2 hjob) ho')

/-- A segment of the queue is followed by another one, or by the return to `heartbeat`. -/
theorem spawned_queueOutcome (es : List Event) (r : Entrepot × Progress Unit QueueFrame) :
    (queueOutcome s es r).state.heartbeat = s.heartbeat ∧ (queueOutcome s es r).events = es ∧
      ∃ k, (queueOutcome s es r).spawned = [k] ∧ k.stage = some .begun := by
  rcases r with ⟨e, - | f⟩
  · exact ⟨rfl, rfl, _, rfl, rfl⟩
  · exact ⟨rfl, rfl, _, rfl, rfl⟩

theorem pulse_of_resume {k : Task} {r : Wake} {o : Step} (h : resume H s k r = some o) :
    Pulse s (.resume k r) o := by
  unfold resume at h
  split at h
  · obtain ⟨o', ho', rfl⟩ := Option.map_eq_some_iff.1 h
    exact .ofCanister (steady_of_eq (heartbeat_of_resume ho'))
  · cases h
    obtain ⟨hheartbeat, hevents, k, hspawned, hstage⟩ := spawned_queueOutcome (s := s) _ _
    exact .disburse hheartbeat hspawned hstage hevents
  · cases h
    exact .goOn rfl rfl rfl rfl (List.forall_mem_nil _)
  · cases h
    exact .goOn rfl rfl rfl rfl (List.forall_mem_nil _)
  · split at h
    · cases h
      exact .idle _
    · cases h
      obtain ⟨hheartbeat, hevents, k, hspawned, hstage⟩ := spawned_queueOutcome (s := s) _ _
      refine .goOn hheartbeat rfl hspawned hstage ?_
      rw [hevents]
      intro e he
      obtain ⟨e', -, rfl⟩ := List.mem_map.1 he
      rfl
  · cases h
    exact .goOn rfl rfl rfl rfl (List.forall_mem_nil _)
  · cases h
    refine .settle rfl ?_ rfl
    intro k hk
    obtain ⟨token, -, rfl⟩ := List.mem_map.1 hk
    rfl
  · cases h
    exact .idle _
  · cases h
    exact .idle _
  · cases h

/-- **Every segment is one of these.** -/
theorem pulse_of_segment {src : Source} {o : Step} (h : (program H).segment s src = some o) :
    Pulse s src o := by
  cases src with
  | call i => exact pulse_of_call h
  | resume k r => exact pulse_of_resume h

end Pulse

/-! ### The pace -/

/-- The times of the beats, the latest first. -/
def beats (h : List Event) : List Time :=
  h.filterMap fun e => match e with
    | .beat time => some time
    | _ => none

/-- How often the body of `cronDisbursements` has begun. -/
def disbursementRuns (h : List Event) : ℕ :=
  (h.filter fun e => match e with
    | .cronDisbursements => true
    | _ => false).length

/-- How often the body of `cronSettlements` has run. -/
def settlementRuns (h : List Event) : ℕ :=
  (h.filter fun e => match e with
    | .cronSettlements => true
    | _ => false).length

/-- How many beats have come so far and no further. -/
def countAt (stage : Stage) (m : Multiset Task) : ℕ := m.countP fun k => k.stage = some stage

/-- **The pace**: the interval is at least so many seconds, two beats are that far apart, and the
jobs have run once a beat at most. -/
structure Paced (n : ℕ) (s : Interface.State) (h : List Event) (m : Multiset Task) : Prop where
  interval : n ≤ s.heartbeat.intervalSeconds
  beats_le : ∀ time ∈ beats h, time ≤ s.heartbeat.lastBeat
  spaced : (beats h).Pairwise fun later earlier : Time => earlier + n * 1000000000 ≤ later
  disbursements : disbursementRuns h + countAt .called m ≤ (beats h).length
  settlements : settlementRuns h + countAt .begun m ≤ disbursementRuns h

/-- Who sets which interval. -/
def Input.interval : Input → Option (Principal × ℕ)
  | .canister (.heartbeatSetInterval caller i) => some (caller, i)
  | _ => none

/-- No admin sets an interval below so many seconds. -/
def slow (n : ℕ) : Guard where
  call := fun c i => ∀ p ∈ i.interval, c.state.isAdmin p.1 = true → n ≤ p.2
  resume := fun _ _ _ => True
  restart := fun _ _ => True

instance (n : ℕ) (c : Config) (i : Input) : Decidable ((slow n).call c i) :=
  inferInstanceAs (Decidable (∀ p ∈ i.interval, c.state.isAdmin p.1 = true → n ≤ p.2))

instance (n : ℕ) (c : Config) (k : Task) (r : Wake) : Decidable ((slow n).resume c k r) :=
  inferInstanceAs (Decidable True)

instance (n : ℕ) (c : Config) (u : UInt16) : Decidable ((slow n).restart c u) :=
  inferInstanceAs (Decidable True)

section Counts

variable {es h : List Event}

theorem beats_append_of_quiet (hes : ∀ e ∈ es, e.isBeat = false) : beats (es ++ h) = beats h := by
  have hnone : beats es = [] := by
    refine List.filterMap_eq_nil_iff.2 fun e he => ?_
    cases e with
    | canister e => rfl
    | _ => cases hes _ he
  rw [beats, List.filterMap_append, ← beats, ← beats, hnone, List.nil_append]

theorem disbursementRuns_append_of_quiet (hes : ∀ e ∈ es, e.isBeat = false) :
    disbursementRuns (es ++ h) = disbursementRuns h := by
  have hnone : disbursementRuns es = 0 := by
    refine List.length_eq_zero_iff.2 (List.filter_eq_nil_iff.2 fun e he => ?_)
    cases e with
    | canister e => simp
    | _ => cases hes _ he
  rw [disbursementRuns, List.filter_append, List.length_append, ← disbursementRuns,
    ← disbursementRuns, hnone, Nat.zero_add]

theorem settlementRuns_append_of_quiet (hes : ∀ e ∈ es, e.isBeat = false) :
    settlementRuns (es ++ h) = settlementRuns h := by
  have hnone : settlementRuns es = 0 := by
    refine List.length_eq_zero_iff.2 (List.filter_eq_nil_iff.2 fun e he => ?_)
    cases e with
    | canister e => simp
    | _ => cases hes _ he
  rw [settlementRuns, List.filter_append, List.length_append, ← settlementRuns, ← settlementRuns,
    hnone, Nat.zero_add]

theorem countAt_add (stage : Stage) (m m' : Multiset Task) :
    countAt stage (m + m') = countAt stage m + countAt stage m' := Multiset.countP_add ..

theorem countAt_singleton (stage : Stage) (k : Task) :
    countAt stage {k} = if k.stage = some stage then 1 else 0 := by
  rw [countAt, ← Multiset.cons_zero, Multiset.countP_cons, Multiset.countP_zero, Nat.zero_add]

theorem countAt_eq_zero {stage : Stage} {ks : List Task} (h : ∀ k ∈ ks, k.stage = none) :
    countAt stage (ks : Multiset Task) = 0 := by
  refine Multiset.countP_eq_zero.2 fun k hk => ?_
  rw [h k (Multiset.mem_coe.1 hk)]
  exact (Option.some_ne_none stage).symm

end Counts

section Pace

variable {n : ℕ} {d : Config} {src : Source} {m : Multiset Task} {o : Step}

/-- What begins no job keeps the pace, as long as no more beats are under way. -/
theorem Paced.of_quiet {s s' : Interface.State} {es h : List Event} {m' : Multiset Task}
    (hP : Paced n s h m) (hinterval : n ≤ s'.heartbeat.intervalSeconds)
    (hlast : s'.heartbeat.lastBeat = s.heartbeat.lastBeat) (hevents : ∀ e ∈ es, e.isBeat = false)
    (hcount : ∀ stage, countAt stage m' ≤ countAt stage m) : Paced n s' (es ++ h) m' where
  interval := hinterval
  beats_le := by
    rw [beats_append_of_quiet hevents, hlast]
    exact hP.beats_le
  spaced := by
    rw [beats_append_of_quiet hevents]
    exact hP.spaced
  disbursements := by
    rw [disbursementRuns_append_of_quiet hevents, beats_append_of_quiet hevents]
    exact le_trans (Nat.add_le_add_left (hcount .called) _) hP.disbursements
  settlements := by
    rw [disbursementRuns_append_of_quiet hevents, settlementRuns_append_of_quiet hevents]
    exact le_trans (Nat.add_le_add_left (hcount .begun) _) hP.settlements

/-- **A segment keeps the pace.** -/
theorem Paced.segment (hP : Paced n d.state d.history (src.task + m))
    (hslow : (slow n).segment d src) (hpulse : Pulse d.state src o) :
    Paced n o.state (o.events ++ d.history) (m + o.spawned) := by
  have hdisbursements := hP.disbursements
  have hsettlements := hP.settlements
  cases hpulse with
  | beat due =>
      have hfar : ∀ time ∈ beats d.history, time + n * 1000000000 ≤ d.state.world.now := by
        intro time htime
        have hle := hP.beats_le time htime
        have hinterval : (n : Time) ≤ d.state.heartbeat.intervalSeconds :=
          Int.ofNat_le.2 hP.interval
        refine le_trans (add_le_add hle ?_) due
        exact Int.mul_le_mul_of_nonneg_right hinterval (by decide)
      have hspawned : ∀ stage, countAt stage (m + ([Task.cronDisbursements] : List Task)) =
          countAt stage m + if some Stage.called = some stage then 1 else 0 :=
        fun stage => by rw [Multiset.coe_singleton, countAt_add, countAt_singleton, Task.stage]
      rw [Actor.Source.task, Multiset.zero_add] at hdisbursements hsettlements
      refine ⟨hP.interval, ?_, List.pairwise_cons.2 ⟨hfar, hP.spaced⟩, ?_, ?_⟩
      · intro time htime
        rcases List.mem_cons.1 htime with rfl | htime
        · exact le_refl _
        · exact le_trans (le_add_of_nonneg_right (Int.natCast_nonneg _)) (hfar time htime)
      · rw [hspawned, if_pos rfl]
        exact Nat.add_le_add_right hdisbursements 1
      · rw [hspawned, if_neg (by decide)]
        exact hsettlements
  | @disburse o k heartbeat spawned stage events =>
      -- the beat has come further: one body more has begun
      rw [Actor.Source.task, countAt_add, countAt_singleton, Task.stage] at hdisbursements
      rw [Actor.Source.task, countAt_add, countAt_singleton, Task.stage] at hsettlements
      rw [if_pos rfl] at hdisbursements
      rw [if_neg (by decide)] at hsettlements
      have hspawned : ∀ stage, countAt stage (m + o.spawned) =
          countAt stage m + if some Stage.begun = some stage then 1 else 0 := fun stage' => by
        rw [spawned, Multiset.coe_singleton, countAt_add, countAt_singleton, stage]
      refine ⟨heartbeat ▸ hP.interval, ?_, ?_, ?_, ?_⟩
      · rw [events, heartbeat]
        exact hP.beats_le
      · rw [events]
        exact hP.spaced
      · rw [hspawned, events, if_neg (by decide)]
        change disbursementRuns d.history + 1 + _ ≤ (beats d.history).length
        omega
      · rw [hspawned, events, if_pos rfl]
        change settlementRuns d.history + _ ≤ disbursementRuns d.history + 1
        omega
  | goOn heartbeat source spawned stage events =>
      refine hP.of_quiet (heartbeat ▸ hP.interval) (heartbeat ▸ rfl) events fun stage' => ?_
      rw [spawned, Multiset.coe_singleton, Actor.Source.task, countAt_add, countAt_add,
        countAt_singleton, countAt_singleton, stage, source, Nat.add_comm]
  | settle heartbeat spawned events =>
      rw [Actor.Source.task, countAt_add, countAt_singleton, Task.stage] at hdisbursements
      rw [Actor.Source.task, countAt_add, countAt_singleton, Task.stage] at hsettlements
      rw [if_neg (by decide)] at hdisbursements
      rw [if_pos rfl] at hsettlements
      refine ⟨heartbeat ▸ hP.interval, ?_, ?_, ?_, ?_⟩
      · rw [events, heartbeat]
        exact hP.beats_le
      · rw [events]
        exact hP.spaced
      · rw [countAt_add, countAt_eq_zero spawned, events]
        change disbursementRuns d.history + _ ≤ (beats d.history).length
        omega
      · rw [countAt_add, countAt_eq_zero spawned, events]
        change settlementRuns d.history + 1 + _ ≤ disbursementRuns d.history
        omega
  | aside steady spawned events =>
      refine hP.of_quiet ?_ steady.lastBeat events fun stage' => ?_
      · rcases steady.interval with heq | ⟨caller, hadmin, rfl⟩
        · rw [heq]
          exact hP.interval
        · exact hslow _ rfl hadmin
      · rw [countAt_add, countAt_add, countAt_eq_zero spawned]
        exact Nat.le_add_left _ _

end Pace

/-! ### The clock -/

theorem now_of_aside {s : Interface.State} {src : Interface.Source} {w : World}
    (h : Interface.Aside s src w) : w.now = s.world.now := by
  cases h with
  | kept _ _ now => exact now
  | unlisted => rfl
  | withdrawn => rfl

/-- No step of the canister sets the clock back. -/
theorem now_le_of_canister_step {c c' : Interface.Config}
    {a : Actor.Act Interface.Input Interface.Wake UInt16}
    (hs : (Interface.program H).step c a = some c') :
    c.state.world.now ≤ c'.state.world.now := by
  have hturn (src : Interface.Source) {o : Interface.Step}
      (ho : (Interface.program H).segment c.state src = some o) :
      c.state.world.now ≤ o.state.world.now := by
    cases Interface.turn_of_segment ho with
    | move hsrc hm => exact hm.now_le
    | aside _ ha => exact (now_of_aside ha).ge
    | restored _ _ houtcome =>
        subst houtcome
        exact le_refl _
  rcases Actor.Program.step_cases hs with
    ⟨i, o, rfl, ho, rfl⟩ | ⟨k, r, n, o, rfl, -, ho, rfl⟩ | ⟨u, o, rfl, ho, rfl⟩
  · exact hturn (.call i) ho
  · exact hturn (.resume _ _) ho
  · obtain ⟨canister, -, ho'⟩ := Interface.restart_eq_some ho
    rw [show o.state.world = _ from congrArg Actor.Outcome.state ho']

/-- No run of the canister sets the clock back. -/
theorem now_le_of_canister_run {G : Interface.Guard} {c c' : Interface.Config}
    (h : Actor.Run (Interface.program H) G c c') : c.state.world.now ≤ c'.state.world.now := by
  induction h with
  | refl => exact le_refl _
  | tail a _ _ hs ih => exact le_trans ih (now_le_of_canister_step hs)

/-- No step sets the clock back. -/
theorem now_le_of_step {c c' : Config} {a : Actor.Act Input Wake UInt16}
    (hs : (program H).step c a = some c') : c.state.world.now ≤ c'.state.world.now := by
  have hany : ((refinement H).guard .any).Allows c a := by
    cases a with
    | call i => exact fun _ _ => trivial
    | resume n r =>
        intro k _ src _
        cases src with
        | call i => trivial
        | resume k r => trivial
    | restart u => trivial
  exact now_le_of_canister_run (Actor.Refinement.run ((Actor.Run.refl c).tail a hany hs))

/-- Moments that are far apart take a while. -/
theorem length_mul_le {δ a b : ℤ} {l : List ℤ} (ha : ∀ x ∈ l, a ≤ x) (hb : ∀ x ∈ l, x ≤ b)
    (hl : l.Pairwise fun later earlier => earlier + δ ≤ later) (hab : a ≤ b) :
    ((l.length - 1 : ℕ) : ℤ) * δ ≤ b - a := by
  induction l generalizing b with
  | nil =>
      rw [List.length_nil, Nat.zero_sub, Nat.cast_zero, zero_mul]
      omega
  | cons x l ih =>
      obtain ⟨hx, hl⟩ := List.pairwise_cons.1 hl
      have hxb := hb x (List.mem_cons_self ..)
      cases l with
      | nil =>
          rw [List.length_singleton, Nat.sub_self, Nat.cast_zero, zero_mul]
          omega
      | cons y l =>
          -- the moments before the last one are at least one interval before it
          have hay := ha y (List.mem_cons_of_mem _ (List.mem_cons_self ..))
          have hyx := hx y (List.mem_cons_self ..)
          have hle := ih (fun z hz => ha z (List.mem_cons_of_mem _ hz))
            (fun z hz => Int.le_sub_right_of_add_le (hx z hz)) hl (by omega)
          have hlength : (((x :: y :: l).length - 1 : ℕ) : ℤ) * δ =
              (((y :: l).length - 1 : ℕ) : ℤ) * δ + δ := by
            rw [List.length_cons, List.length_cons, Nat.add_sub_cancel, Nat.add_sub_cancel,
              Nat.cast_add, Nat.cast_one, add_mul, one_mul]
          omega

/-- The clock, and the beats by it. -/
structure Clocked (start : Time) (s : Interface.State) (h : List Event) : Prop where
  start_le : start ≤ s.world.now
  beats_mem : ∀ time ∈ beats h, start ≤ time ∧ time ≤ s.world.now

variable {n : ℕ} {c₀ c : Config}

/-- A beat is at the time of its segment. -/
theorem mem_beats_of_pulse {s : Interface.State} {src : Source} {o : Step} {h : List Event}
    {time : Time} (hp : Pulse s src o) (ht : time ∈ beats (o.events ++ h)) :
    time = s.world.now ∨ time ∈ beats h := by
  cases hp with
  | beat => exact List.mem_cons.1 ht
  | disburse _ _ _ events =>
      rw [events] at ht
      exact Or.inr ht
  | goOn _ _ _ _ events =>
      rw [beats_append_of_quiet events] at ht
      exact Or.inr ht
  | settle _ _ events =>
      rw [events] at ht
      exact Or.inr ht
  | aside _ _ events =>
      rw [beats_append_of_quiet events] at ht
      exact Or.inr ht

/-- What an upgrade keeps of the heartbeat: everything but the beats that are under way. -/
theorem heartbeat_of_restart {s : Interface.State} {u : UInt16} {o : Step}
    (h : restart s u = some o) : o.state.heartbeat = s.heartbeat ∧ o.spawned = [] ∧
      ∀ e ∈ o.events, e.isBeat = false := by
  obtain ⟨o', ho', rfl⟩ := Option.map_eq_some_iff.1 h
  unfold Interface.restart at ho'
  split at ho'
  · cases ho'
  · rename_i s' hup
    cases ho'
    refine ⟨?_, rfl, fun e he => ?_⟩
    · obtain ⟨canister, -, hup⟩ := bind_eq_ok.1 hup
      obtain ⟨assets, -, hup⟩ := bind_eq_ok.1 hup
      cases hup
      rfl
    · rw [List.mem_singleton.1 he]
      rfl

/-- **Every run keeps the pace.** -/
theorem paced_of_run (hpool : c₀.pool = []) (hhistory : c₀.history = [])
    (hn : n ≤ c₀.state.heartbeat.intervalSeconds) (h : Actor.Run (program H) (slow n) c₀ c) :
    Paced n c.state c.history c.pool := by
  refine h.multiset_induct (J := fun s h m => Paced n s h m) ?_ ?_ ?_
  · intro d src m o _ hP hslow ho
    exact hP.segment hslow (pulse_of_segment ho)
  · intro d u o hP _ ho
    obtain ⟨hheartbeat, hspawned, hevents⟩ := heartbeat_of_restart ho
    refine hP.of_quiet (hheartbeat ▸ hP.interval) (hheartbeat ▸ rfl) hevents fun stage => ?_
    rw [hspawned]
    exact Nat.zero_le _
  · rw [hpool, hhistory]
    exact ⟨hn, List.forall_mem_nil _, List.Pairwise.nil, Nat.zero_le _, Nat.zero_le _⟩

/-- In every run, the beats are by the clock. -/
theorem clocked_of_run {G : Guard} (hhistory : c₀.history = [])
    (h : Actor.Run (program H) G c₀ c) :
    Clocked c₀.state.world.now c.state c.history := by
  refine h.induct (I := fun d => Clocked c₀.state.world.now d.state d.history) ?_ ?_
  · intro d a d' hC _ hs
    have hle := now_le_of_step hs
    refine ⟨le_trans hC.start_le hle, fun time htime => ?_⟩
    have hold : time = d.state.world.now ∨ time ∈ beats d.history := by
      rcases Actor.Program.step_cases hs with
        ⟨i, o, rfl, ho, rfl⟩ | ⟨k, r, n, o, rfl, -, ho, rfl⟩ | ⟨u, o, rfl, ho, rfl⟩
      · exact mem_beats_of_pulse (pulse_of_call ho) htime
      · exact mem_beats_of_pulse (pulse_of_resume ho) htime
      · rw [beats_append_of_quiet (heartbeat_of_restart ho).2.2] at htime
        exact Or.inr htime
    rcases hold with rfl | hold
    · exact ⟨hC.start_le, hle⟩
    · exact ⟨(hC.beats_mem time hold).1, le_trans (hC.beats_mem time hold).2 hle⟩
  · rw [hhistory]
    exact ⟨le_refl _, List.forall_mem_nil _⟩

/-- **The jobs keep the pace of the heartbeat.**  In every run of the canister with its heartbeat,
whatever anyone calls, whatever the ledger answers and however often the canister is upgraded: as
long as no admin sets an interval below `n` seconds, any two beats are `n` seconds apart, so that
there is one beat more at most than such intervals fit into the time of the run;
`cronDisbursements` runs at most once a beat, and `cronSettlements` at most once for each of these
runs. -/
theorem heartbeat_paced (hpool : c₀.pool = []) (hhistory : c₀.history = [])
    (hn : n ≤ c₀.state.heartbeat.intervalSeconds) (h : Actor.Run (program H) (slow n) c₀ c) :
    ((beats c.history).Pairwise fun later earlier : Time => earlier + n * 1000000000 ≤ later) ∧
      (((beats c.history).length - 1 : ℕ) : Time) * (n * 1000000000) ≤
        c.state.world.now - c₀.state.world.now ∧
      settlementRuns c.history ≤ disbursementRuns c.history ∧
      disbursementRuns c.history ≤ (beats c.history).length := by
  have hP := paced_of_run hpool hhistory hn h
  have hC := clocked_of_run hhistory h
  refine ⟨hP.spaced, length_mul_le (fun t ht => (hC.beats_mem t ht).1)
    (fun t ht => (hC.beats_mem t ht).2) hP.spaced hC.start_le, ?_, ?_⟩
  · exact le_trans (Nat.le_add_right _ _) hP.settlements
  · exact le_trans (Nat.le_add_right _ _) hP.disbursements

/-- Two beats in ten seconds. -/
theorem heartbeat_paced_sample : ∃ c, (program .sample).exec Config.sample twoBeats = some c ∧
    beats c.history = [10000000000, 5000000000] ∧ settlementRuns c.history = 2 ∧
    (((beats c.history).length - 1 : ℕ) : Time) * ((5 : ℕ) * 1000000000) ≤
      c.state.world.now - Config.sample.state.world.now := by
  obtain ⟨c, hc, hallow, hbeats, hruns⟩ := (by decide :
    ∃ c ∈ (program .sample).exec Config.sample twoBeats,
      (slow 5).AllowsAll (program .sample) Config.sample twoBeats ∧
      beats c.history = [10000000000, 5000000000] ∧ settlementRuns c.history = 2)
  have hinterval : 5 ≤ Config.sample.state.heartbeat.intervalSeconds := by decide
  have hpaced := heartbeat_paced rfl rfl hinterval (Actor.run_of_exec hallow hc)
  exact ⟨c, hc, hbeats, hruns, hpaced.2.1⟩

end Heartbeats

end LegendsNft
