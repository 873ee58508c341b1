/-
**The canister as its heartbeat drives it.**

In `LegendsNft/Interface.lean` the scheduler may run the two jobs of the marketplace,
`cronDisbursements` and `cronSettlements`, whenever it likes.  In `main.mo` nothing but the
heartbeat calls them: a beat that is due takes down the time, calls `cronDisbursements`, and when
that has returned, `cronSettlements`.  Here is the canister with its real heartbeat.  Each of these
calls is a message the canister sends to itself, and the return of the first is another one, so that
several beats may be under way at once.

It refines the canister whose jobs run freely, so what has been shown of that holds here.  What it
has on top, the pace of the beats, is in `LegendsNft/Pace.lean`.

Main definitions:

* `LegendsNft.Heartbeats.program` — **the canister with its heartbeat**;
* `LegendsNft.Heartbeats.refinement` — the canister it refines.

Main results:

* `LegendsNft.Heartbeats.refines_canister` — **its runs are runs of the canister with free jobs**.
-/

import LegendsNft.Configuration
import LegendsNft.JobQueue
import LegendsNft.Refinement
import LegendsNft.Whole

set_option relaxedAutoImplicit false
set_option autoImplicit false

namespace LegendsNft

open Entrepot

namespace Heartbeats

/-! ### Calls, continuations and events -/

/-- A suspended continuation, or a message the canister has sent to itself. -/
inductive Task
  /-- Anything but the heartbeat and the jobs it calls. -/
  | canister (k : Interface.Task)
  /-- `heartbeat` has called `cronDisbursements`, which has not begun. -/
  | cronDisbursements
  /-- `cronDisbursements` awaits `nns.transfer`, which the ledger has not executed. -/
  | transfer (f : QueueFrame)
  /-- `cronDisbursements` awaits `nns.transfer`, which the ledger has executed or rejected. -/
  | transferred (f : QueueFrame) (reply : Option TransferResult)
  /-- `cronDisbursements` has returned to `heartbeat`. -/
  | disbursed
  /-- `heartbeat` has called `cronSettlements`, which has not begun. -/
  | cronSettlements

/-- What may happen without a suspended continuation being woken. -/
inductive Input
  | heartbeat
  | canister (i : Interface.Input)

/-- The heartbeat and its jobs, which nobody else calls. -/
def isJob : Interface.Input → Bool
  | .heartbeat => true
  | .collection (.market .cronDisbursements) => true
  | .collection (.market .cronSettlements) => true
  | _ => false

/-- How a suspended continuation is woken. -/
inductive Wake
  | canister (r : Interface.Wake)
  /-- The message or the reply it waits for is delivered. -/
  | run
  /-- The ledger executes the transfer it was asked for. -/
  | execute (r : TransferResult)
  /-- The call it waits for is rejected. -/
  | reject

/-- The events of the history. -/
inductive Event
  | canister (e : Collection.Event)
  /-- A beat was due, at this time. -/
  | beat (time : Time)
  /-- The body of `cronDisbursements` has begun. -/
  | cronDisbursements
  /-- The body of `cronSettlements` has run. -/
  | cronSettlements

/-! ### The segments -/

/-- The outcome of a segment of the canister with its heartbeat. -/
abbrev Step := Actor.Outcome Interface.State Task Event

/-- A segment of the canister that has nothing to do with the heartbeat. -/
def ofCanister (o : Interface.Step) : Step :=
  ⟨o.state, o.spawned.map .canister, o.events.map .canister⟩

/-- A segment that traps or returns without an effect. -/
def idle (s : Interface.State) : Step := ⟨s, [], []⟩

/-- The outcome of a segment of `cronDisbursements`, which returns to `heartbeat`. -/
def queueOutcome (s : Interface.State) (es : List Event) :
    Entrepot × Progress Unit QueueFrame → Step
  | (e, .ret ()) => ⟨s.setWorld (s.world.setEntrepot e), [.disbursed], es⟩
  | (e, .await f) => ⟨s.setWorld (s.world.setEntrepot e), [.transfer f], es⟩

/-- The continuation that a message to `settle` is. -/
def settleTask (token : TokenIdentifier) : Task :=
  .canister (.collection (.market (.settle token .direct)))

/-- An event of the market. -/
def marketEvent (e : LegendsNft.Event) : Event := .canister (.market e)

variable (H : Collection.Host)

/-- The first segment of a call. -/
def call (s : Interface.State) : Input → Option Step
  | .heartbeat =>
      if s.heartbeat.on = false then some (idle s)
      else if s.world.now - s.heartbeat.lastBeat < s.heartbeat.intervalSeconds * 1000000000 then
        some (idle s)
      else some ⟨s.setHeartbeat { s.heartbeat with lastBeat := s.world.now },
        [.cronDisbursements], [.beat s.world.now]⟩
  | .canister i => if isJob i then none else (Interface.call H s i).map ofCanister

/-- The segment a suspended continuation runs when it is woken. -/
def resume (s : Interface.State) : Task → Wake → Option Step
  | .canister k, .canister r => (Interface.resume H s k r).map ofCanister
  | .cronDisbursements, .run =>
      some (queueOutcome s [.cronDisbursements]
        (s.world.entrepot.cronDisbursements H.deployment s.world.now))
  | .transfer f, .execute r =>
      some ⟨s.setWorld { s.world with ledger := debit s.world.ledger f.job r },
        [.transferred f (some r)], []⟩
  | .transfer f, .reject => some ⟨s, [.transferred f none], []⟩
  | .transferred f reply, .run =>
      match s.world.entrepot.cronDisbursementsResume H.deployment f reply with
      -- a trap ends the beat as well
      | .error _ => some (idle s)
      | .ok outcome => some (queueOutcome s ((answered f.job reply).map marketEvent) outcome)
  | .disbursed, .run => some ⟨s, [.cronSettlements], []⟩
  | .cronSettlements, .run =>
      let (e, tokens) := s.world.entrepot.cronSettlements s.world.now
      some ⟨s.setWorld (s.world.setEntrepot e), tokens.map settleTask, [.cronSettlements]⟩
  | .cronDisbursements, .reject => some (idle s)
  | .cronSettlements, .reject => some (idle s)
  | _, _ => none

/-- An upgrade, if no constructor traps; the beats that are under way end with it. -/
def restart (s : Interface.State) (supply : UInt16) : Option Step :=
  (Interface.restart s supply).map ofCanister

/-- **The canister with its heartbeat.** -/
def program : Actor.Program Interface.State Task Input Wake UInt16 Event :=
  { call := call H
    resume := resume H
    restart := restart }

/-- A configuration of the canister with its heartbeat. -/
abbrev Config := Actor.Config Interface.State Task Event

/-- A condition on the segments of a run of the canister with its heartbeat. -/
abbrev Guard := Actor.Guard Interface.State Task Input Wake UInt16 Event

/-- What starts a segment of the canister with its heartbeat. -/
abbrev Source := Actor.Source Task Input Wake

/-! ### The canister it refines -/

/-- A run of the queue is one of the market; the messages of the heartbeat are not shown. -/
def view : Actor.View Interface.State Task Event Interface.State Interface.Task
    Collection.Event where
  state := id
  task := fun k => match k with
    | .canister k => some k
    | .transfer f => some (.collection (.market (.transfer f)))
    | .transferred f reply => some (.collection (.market (.transferred f reply)))
    | _ => none
  event := fun e => match e with
    | .canister e => some e
    | _ => none

/-- A call of the heartbeat is a call of the heartbeat alone. -/
def Input.shown : Input → Interface.Input
  | .heartbeat => .heartbeat
  | .canister i => i

/-- What starts the segment that is shown: the jobs are calls there. -/
def shown : Task → Wake → Option Interface.Source
  | .canister k, .canister r => some (.resume k r)
  | .cronDisbursements, .run => some (.call (.collection (.market .cronDisbursements)))
  | .transfer f, .execute r =>
      some (.resume (.collection (.market (.transfer f))) (.collection (.market (.execute r))))
  | .transfer f, .reject =>
      some (.resume (.collection (.market (.transfer f))) (.collection (.market .reject)))
  | .transferred f reply, .run =>
      some (.resume (.collection (.market (.transferred f reply))) (.collection (.market .run)))
  | .cronSettlements, .run => some (.call (.collection (.market .cronSettlements)))
  | _, _ => none

section Refinement

variable {H} {s : Interface.State}

theorem outcome_ofCanister (o : Interface.Step) : view.outcome (ofCanister o) = o := by
  have htasks : (o.spawned.map Task.canister).filterMap view.task = o.spawned := by
    rw [List.filterMap_map]
    exact List.filterMap_some
  have hevents : (o.events.map Event.canister).filterMap view.event = o.events := by
    rw [List.filterMap_map]
    exact List.filterMap_some
  rw [Actor.View.outcome, ofCanister, htasks, hevents]
  rfl

/-- A segment of `cronDisbursements` is one of the market, but for its return. -/
theorem outcome_queueOutcome {es : List Event} {es' : List LegendsNft.Event}
    (hes : es.filterMap view.event = es'.map .market) (r : Entrepot × Progress Unit QueueFrame) :
    view.outcome (queueOutcome s es r) =
      Interface.ofCollection s
        (Collection.ofMarket [] (LegendsNft.queueOutcome s.world es' r)) := by
  rcases r with ⟨e, - | f⟩
  · exact congrArg (Actor.Outcome.mk (s.setWorld (s.world.setEntrepot e)) []) hes
  · exact congrArg (Actor.Outcome.mk (s.setWorld (s.world.setEntrepot e))
      [Interface.Task.collection (.market (.transfer f))]) hes

/-- A message to `settle` is shown as one. -/
theorem filterMap_settleTask (tokens : List TokenIdentifier) :
    (tokens.map settleTask).filterMap view.task =
      tokens.map fun token => Interface.Task.collection (.market (.settle token .direct)) := by
  rw [List.filterMap_map]
  exact congrFun List.filterMap_eq_map tokens

theorem filterMap_marketEvent (es : List LegendsNft.Event) :
    (es.map marketEvent).filterMap view.event = es.map .market := by
  rw [List.filterMap_map]
  exact congrFun List.filterMap_eq_map es

theorem call_shown {i : Input} {o : Step} (h : call H s i = some o) :
    Interface.call H s i.shown = some (view.outcome o) := by
  cases i with
  | heartbeat =>
      simp only [Input.shown, Interface.call, Heartbeat.beat]
      rw [call] at h
      split at h
      · rename_i hoff
        cases h
        rw [if_pos hoff]
        rfl
      · rename_i hoff
        rw [if_neg hoff]
        split at h
        · rename_i hearly
          cases h
          rw [if_pos hearly]
          rfl
        · rename_i hearly
          cases h
          rw [if_neg hearly]
          rfl
  | canister i =>
      rw [call] at h
      split at h
      · cases h
      · obtain ⟨o', ho', rfl⟩ := Option.map_eq_some_iff.1 h
        rw [outcome_ofCanister]
        exact ho'

theorem resume_shown {k : Task} {r : Wake} {o : Step} (h : resume H s k r = some o) :
    view.Woken (Interface.program H) s k o (shown k r) := by
  unfold resume at h
  split at h
  · obtain ⟨o', ho', rfl⟩ := Option.map_eq_some_iff.1 h
    exact ⟨rfl, (outcome_ofCanister o').symm ▸ ho'⟩
  · cases h
    have hnil : ([] : List Event).filterMap view.event = [] := rfl
    exact ⟨rfl, congrArg some (outcome_queueOutcome hnil _).symm⟩
  · cases h
    exact ⟨rfl, rfl⟩
  · cases h
    exact ⟨rfl, rfl⟩
  · rename_i f reply
    refine ⟨rfl, ?_⟩
    change Interface.resume H s (.collection (.market (.transferred f reply)))
      (.collection (.market .run)) = _
    cases hres : s.world.entrepot.cronDisbursementsResume H.deployment f reply with
    | error e =>
        simp only [hres] at h
        cases h
        simp only [Interface.resume, Collection.resume, LegendsNft.resume, hres]
        rfl
    | ok outcome =>
        simp only [hres] at h
        cases h
        simp only [Interface.resume, Collection.resume, LegendsNft.resume, hres]
        exact congrArg some (outcome_queueOutcome (filterMap_marketEvent _) outcome).symm
  · cases h
    exact ⟨rfl, rfl⟩
  · cases h
    refine ⟨rfl, congrArg some ?_⟩
    rw [Actor.View.outcome, filterMap_settleTask]
    simp only [Interface.ofCollection, Collection.ofMarket, List.map_map]
    rfl
  · cases h
    exact ⟨rfl, rfl⟩
  · cases h
    exact ⟨rfl, rfl⟩
  · cases h

end Refinement

/-- **The canister whose jobs run freely**, seen in the canister with its heartbeat. -/
def refinement : Actor.Refinement (program H) (Interface.program H) where
  toView := view
  input := fun i => some i.shown
  wake := shown
  call := fun _ _ _ ho => call_shown ho
  resume := fun _ _ _ _ ho => resume_shown ho
  restart := by
    intro s u o ho
    obtain ⟨o', ho', rfl⟩ := Option.map_eq_some_iff.1 ho
    exact (outcome_ofCanister o').symm ▸ ho'

/-- The canister that a configuration shows. -/
def canister (c : Config) : Interface.Config := view.config c

/-- A condition on the segments of the canister that are shown. -/
abbrev within (G : Interface.Guard) : Guard := (refinement H).guard G

instance {G : LegendsNft.Guard} [∀ c i, Decidable (G.call c i)]
    [∀ c k r, Decidable (G.resume c k r)] [∀ c u, Decidable (G.restart c u)] (c : Config)
    (as : List (Actor.Act Input Wake UInt16)) :
    Decidable ((within H (Interface.unrestored H G)).AllowsAll (program H) c as) :=
  Actor.Guard.decidableAllowsAll as c


variable {H}

/-- **The runs of the canister with its heartbeat are runs of the canister whose jobs run freely**,
for every condition on the segments of the latter. -/
theorem refines_canister {G : Interface.Guard} {c c' : Config}
    (h : Actor.Run (program H) (within H G) c c') :
    Actor.Run (Interface.program H) G (canister c) (canister c') :=
  Actor.Refinement.run h

/-- A fresh canister with its heartbeat. -/
def Config.sample : Config := ⟨Interface.Config.sample.state, [], []⟩

/-- The choices of a scheduler of the canister with its heartbeat. -/
abbrev Choice := Actor.Act Input Wake UInt16

/-- Time passes. -/
def tick (time : Time) : Choice := .call (.canister (.collection (.market (.tick time))))

/-- A beat whose jobs find nothing to do. -/
def emptyBeat : List Choice := [.call .heartbeat, .resume 0 .run, .resume 0 .run, .resume 0 .run]

/-- Two beats, and one that is not due. -/
def twoBeats : List Choice :=
  tick 5000000000 :: emptyBeat ++ tick 9999999999 :: .call .heartbeat :: tick 10000000000 ::
    emptyBeat

/-- Two beats, seen by the canister. -/
theorem refines_canister_sample : ∃ c, (program .sample).exec Config.sample twoBeats = some c ∧
    c.state.heartbeat.lastBeat = 10000000000 ∧
    Actor.Run (Interface.program .sample) (Interface.unrestored .sample betweenRuns)
      Interface.Config.sample (canister c) := by
  obtain ⟨c, hc, hallow, hlast⟩ := (by decide :
    ∃ c ∈ (program .sample).exec Config.sample twoBeats,
      (within .sample (Interface.unrestored .sample betweenRuns)).AllowsAll (program .sample)
        Config.sample twoBeats ∧
      c.state.heartbeat.lastBeat = 10000000000)
  exact ⟨c, hc, hlast, refines_canister (Actor.run_of_exec hallow hc)⟩

end Heartbeats

end LegendsNft
