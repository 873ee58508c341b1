/-
**The market inside the whole canister.**

The market of `LegendsNft/System.lean` is a part of the actor of `LegendsNft/Interface.lean`.
Between two of its segments the canister may run any other method: the launchpad may mint, an admin
may delete a listing or pay out of the account of the canister, the metadata may be shuffled, the
assets replaced.  What has been proved of one move of the market carries over to the whole canister
as soon as it is stable under what these other methods do to the world of the market, which is
little: they write to the owners and the admins, delete a listing, or debit the default account.
The exception is `entrepotRestore`, with which an admin writes the marketplace itself.

Main definitions:

* `LegendsNft.Interface.market` — the market of a configuration of the canister;
* `LegendsNft.Interface.Aside` — what a method outside the market does to its world;
* `LegendsNft.Interface.unrestored` — a condition on the segments of the market, and no restoring.

Main results:

* `LegendsNft.Interface.turn_of_segment` — **every segment is a move of the market, or aside of it,
  or restores it**;
* `LegendsNft.Interface.multiset_of_turns` — **the rule of moves for runs of the whole canister**.
-/

import LegendsNft.Configuration

set_option relaxedAutoImplicit false
set_option autoImplicit false

namespace LegendsNft

namespace Interface

/-! ### The market of a configuration -/

/-- The continuation of the market that a continuation of the canister is. -/
def Task.market : Task → Option LegendsNft.Task
  | .collection (.market k) => some k
  | _ => none

/-- The event of the market that an event of the canister is. -/
def marketEvent : Collection.Event → Option LegendsNft.Event
  | .market e => some e
  | _ => none

/-- **The market of a configuration of the canister.** -/
def market (c : Config) : LegendsNft.Config :=
  ⟨c.state.world, c.pool.filterMap Task.market, c.history.filterMap marketEvent⟩

/-- The outcome of a segment of the canister, for its market. -/
def marketStep (o : Step) : LegendsNft.Step :=
  ⟨o.state.world, o.spawned.filterMap Task.market, o.events.filterMap marketEvent⟩

/-- The market segment that a source starts: the launchpad mints in the name of the canister. -/
def marketSource (H : Collection.Host) : Source → Option LegendsNft.Source
  | .call (.collection (.market i)) => some (.call i)
  | .resume (.collection (.market k)) (.collection (.market r)) => some (.resume k r)
  | .resume (.collection (.mint to')) (.collection .run) =>
      some (.call (.mint H.deployment.cid (.principal to')))
  | _ => none

theorem filterMap_market_ofMarket (ks : List LegendsNft.Task) :
    ((ks.map Collection.Task.market).map Task.collection).filterMap Task.market = ks := by
  rw [List.map_map, List.filterMap_map]
  exact List.filterMap_some

theorem filterMap_marketEvent (es : List LegendsNft.Event) :
    (es.map Collection.Event.market).filterMap marketEvent = es := by
  rw [List.filterMap_map]
  exact List.filterMap_some

/-! ### Turns -/

/-- What a method outside the market does to the world of the market. -/
inductive Aside (s : State) : Source → World → Prop
  /-- The tokens, the admins and what the market does not read may be written. -/
  | kept {src : Source} {w : World} (entrepot : w.entrepot = s.world.entrepot)
      (ledger : w.ledger = s.world.ledger) (now : w.now = s.world.now) : Aside s src w
  /-- An admin deletes a listing. -/
  | unlisted {caller : Principal} {index : TokenIndex} (admin : s.isAdmin caller = true) :
      Aside s (.call (.deleteListing caller index)) (s.world.setEntrepot
        { s.world.entrepot with listings := s.world.entrepot.listings.delete index })
  /-- The ledger answers a transfer from the account of the canister. -/
  | withdrawn {amount : UInt64} {r : TransferResult} :
      Aside s (.resume (.nnsTransfer amount) (.execute r))
        { s.world with ledger := debit s.world.ledger ⟨0, "", defaultSubAccount, amount⟩ r }

/-- A segment of the canister, as its market sees it. -/
inductive Turn (H : Collection.Host) (s : State) (src : Source) (o : Step) : Prop
  /-- The segment is a move of the market. -/
  | move {src' : LegendsNft.Source} (source : marketSource H src = some src')
      (move : Move H.deployment s.world src' (marketStep o))
  /-- The segment is aside of the market. -/
  | aside (source : ∀ k ∈ src.task, k.market = none) (aside : Aside s src o.state.world)
      (spawned : o.spawned.filterMap Task.market = [])
      (events : o.events.filterMap marketEvent = [])
  /-- An admin restores the marketplace from a backup. -/
  | restored {caller : Principal} {backup : Entrepot.Backup}
      (source : src = .call (.entrepotRestore caller backup)) (admin : s.isAdmin caller = true)
      (outcome : o =
        ⟨s.setWorld (s.world.setEntrepot (s.world.entrepot.restore backup)), [], []⟩)

variable {H : Collection.Host} {s : State}

theorem Turn.kept {src : Source} {o : Step} (hsrc : ∀ k ∈ src.task, k.market = none)
    (hentrepot : o.state.world.entrepot = s.world.entrepot)
    (hledger : o.state.world.ledger = s.world.ledger) (hnow : o.state.world.now = s.world.now)
    (hspawned : ∀ k ∈ o.spawned, k.market = none)
    (hevents : ∀ e ∈ o.events, marketEvent e = none) : Turn H s src o :=
  .aside hsrc (.kept hentrepot hledger hnow) (List.filterMap_eq_nil_iff.2 hspawned)
    (List.filterMap_eq_nil_iff.2 hevents)

/-- A segment without an effect. -/
theorem Turn.idle {src : Source} (hsrc : ∀ k ∈ src.task, k.market = none) :
    Turn H s src (idle s) :=
  .kept hsrc rfl rfl rfl (List.forall_mem_nil _) (List.forall_mem_nil _)

/-- A call that writes what a module computes, outside the market. -/
theorem Turn.commit {α : Type} {i : Input} {r : Except Trap α} {write : α → State}
    (hentrepot : ∀ a, (write a).world.entrepot = s.world.entrepot)
    (hledger : ∀ a, (write a).world.ledger = s.world.ledger)
    (hnow : ∀ a, (write a).world.now = s.world.now) :
    Turn H s (.call i) (commit s r write) := by
  have hsrc : ∀ k ∈ Actor.Source.task (.call i : Source), k.market = none :=
    fun _ hk => absurd hk (Multiset.notMem_zero _)
  cases r with
  | error e => exact Turn.idle hsrc
  | ok a =>
      exact .kept hsrc (hentrepot a) (hledger a) (hnow a) (List.forall_mem_nil _)
        (List.forall_mem_nil _)

/-- A call that awaits another canister. -/
theorem Turn.suspend {i : Input} {r : Except Trap Unit} {k : Task} (hk : k.market = none) :
    Turn H s (.call i) (suspend s r k) := by
  have hsrc : ∀ k ∈ Actor.Source.task (.call i : Source), k.market = none :=
    fun _ hk => absurd hk (Multiset.notMem_zero _)
  cases r with
  | error e => exact Turn.idle hsrc
  | ok a =>
      refine .kept hsrc rfl rfl rfl ?_ (List.forall_mem_nil _)
      rintro k' hk'
      rw [List.mem_singleton.1 hk']
      exact hk

/-! ### Every segment takes a turn -/

/-- A segment of the market, in the collection and in the whole state. -/
theorem marketStep_ofMarket {es : List Collection.Event} (hes : ∀ e ∈ es, marketEvent e = none)
    (o : LegendsNft.Step) : marketStep (ofCollection s (Collection.ofMarket es o)) = o := by
  have hevents :
      (es ++ o.events.map Collection.Event.market).filterMap marketEvent = o.events := by
    rw [List.filterMap_append, List.filterMap_eq_nil_iff.2 hes, filterMap_marketEvent,
      List.nil_append]
  simp only [marketStep, ofCollection, Collection.ofMarket, filterMap_market_ofMarket, hevents]
  rfl

theorem marketEvent_returned {D : Deployment} {w : World} {i : LegendsNft.Input}
    {e : Collection.Event} (he : e ∈ Collection.returned D w i) : marketEvent e = none := by
  unfold Collection.returned at he
  split at he
  · split at he
    · rw [List.mem_singleton.1 he]
      rfl
    · simp at he
  · simp at he

/-- A call of the collection. -/
theorem turn_of_collection_call {i : Collection.Input} {o : Collection.Step}
    (h : Collection.call H s.world i = some o) :
    Turn H s (.call (.collection i)) (ofCollection s o) := by
  have hsrc (i : Input) : ∀ k ∈ Actor.Source.task (.call i : Source), k.market = none :=
    fun _ hk => absurd hk (Multiset.notMem_zero _)
  cases i with
  | market i =>
      obtain ⟨o', ho', rfl⟩ := Option.map_eq_some_iff.1 h
      refine .move (show marketSource H _ = some (.call i) from rfl) ?_
      rw [marketStep_ofMarket fun e he => marketEvent_returned he]
      exact move_of_call ho'
  | launchpadMint caller to' =>
      rw [Collection.call] at h
      split at h <;> cases h <;>
        exact .kept (hsrc _) rfl rfl rfl (by simp [Task.market, ofCollection, Collection.idle])
          (by simp [ofCollection, Collection.idle])
  | configureMetadata caller conf =>
      rw [Collection.call] at h
      split at h <;> cases h <;>
        exact .kept (hsrc _) rfl rfl rfl (List.forall_mem_nil _) (List.forall_mem_nil _)
  | shuffleMetadata caller =>
      rw [Collection.call] at h
      split at h <;> cases h <;>
        exact .kept (hsrc _) rfl rfl rfl (by simp [Task.market, ofCollection, Collection.idle])
          (by simp [ofCollection, Collection.idle])
  | addAdmin caller p =>
      rw [Collection.call] at h
      split at h <;> cases h <;>
        exact .kept (hsrc _) rfl rfl rfl (List.forall_mem_nil _) (List.forall_mem_nil _)
  | removeAdmin caller p =>
      rw [Collection.call] at h
      split at h <;> cases h <;>
        exact .kept (hsrc _) rfl rfl rfl (List.forall_mem_nil _) (List.forall_mem_nil _)

/-- A resumption of the collection. -/
theorem turn_of_collection_resume {k : Collection.Task} {r : Collection.Wake}
    {o : Collection.Step} (h : Collection.resume H s.world k r = some o) :
    Turn H s (.resume (.collection k) (.collection r)) (ofCollection s o) := by
  have hsrc {k : Task} {r : Wake} (hk : k.market = none) :
      ∀ k' ∈ Actor.Source.task (.resume k r : Source), k'.market = none := by
    intro k' hk'
    rw [Multiset.mem_singleton.1 hk']
    exact hk
  unfold Collection.resume at h
  split at h
  · rename_i k r
    obtain ⟨o', ho', rfl⟩ := Option.map_eq_some_iff.1 h
    refine .move (show marketSource H _ = some (.resume k r) from rfl) ?_
    rw [marketStep_ofMarket (List.forall_mem_nil _)]
    exact move_of_resume ho'
  · rename_i to'
    refine .move (show marketSource H _ =
      some (.call (.mint H.deployment.cid (.principal to'))) from rfl) ?_
    split at h
    · cases h
      exact .idle_call _ _
    · rename_i hm
      cases h
      exact .mint hm
  · cases h
    exact .kept (hsrc rfl) rfl rfl rfl (List.forall_mem_nil _) (by simp [marketEvent, ofCollection])
  · split at h <;> cases h <;>
      exact .kept (hsrc rfl) rfl rfl rfl (List.forall_mem_nil _)
        (by simp [marketEvent, ofCollection, Collection.idle])
  · cases h
    exact .kept (hsrc rfl) rfl rfl rfl (List.forall_mem_nil _) (List.forall_mem_nil _)
  · cases h
    exact .kept (hsrc rfl) rfl rfl rfl (List.forall_mem_nil _) (List.forall_mem_nil _)
  · cases h

theorem turn_of_call {i : Input} {o : Step} (h : call H s i = some o) :
    Turn H s (.call i) o := by
  have hsrc (i : Input) : ∀ k ∈ Actor.Source.task (.call i : Source), k.market = none :=
    fun _ hk => absurd hk (Multiset.notMem_zero _)
  cases i with
  | collection i =>
      obtain ⟨o', ho', rfl⟩ := Option.map_eq_some_iff.1 h
      exact turn_of_collection_call ho'
  | heartbeat =>
      cases h
      exact .kept (hsrc _) rfl rfl rfl (List.forall_mem_nil _) (List.forall_mem_nil _)
  | query | collectCanisterMetrics | assetsRestore | readLedger | allowance | approve =>
      cases h
      exact .idle (hsrc _)
  | heartbeatSetInterval | heartbeatSwitch | upload | uploadFinalize | uploadClear | purgeAssets
  | assetsDelete | assetsTag | configureColors | configureStockColors | tokensRestore
  | publicSaleRestore =>
      cases h
      exact .commit (fun _ => rfl) (fun _ => rfl) (fun _ => rfl)
  | configureNri caller data =>
      cases h
      unfold State.configureNri Assets.authorized
      split
      · exact .kept (hsrc _) rfl rfl rfl (List.forall_mem_nil _) (List.forall_mem_nil _)
      · exact .idle (hsrc _)
  | init | launchpadEventCreate | launchpadEventUpdate | withdrawAll =>
      cases h
      exact .suspend rfl
  | balance =>
      cases h
      exact .kept (hsrc _) rfl rfl rfl (by simp [Task.market]) (List.forall_mem_nil _)
  | nnsTransfer caller amount to' =>
      rw [call] at h
      split at h <;> cases h
      · exact .idle (hsrc _)
      · exact .idle (hsrc _)
      · exact .kept (hsrc _) rfl rfl rfl (by simp [Task.market]) (List.forall_mem_nil _)
  | entrepotRestore caller backup =>
      cases h
      cases hadmin : s.isAdmin caller with
      | true => exact .restored rfl hadmin rfl
      | false => exact .idle (hsrc _)
  | deleteListing caller index =>
      cases h
      cases hadmin : s.isAdmin caller with
      | true => exact .aside (hsrc _) (.unlisted hadmin) rfl rfl
      | false => exact .idle (hsrc _)

theorem turn_of_resume {k : Task} {r : Wake} {o : Step} (h : resume H s k r = some o) :
    Turn H s (.resume k r) o := by
  have hsrc {k : Task} {r : Wake} (hk : k.market = none) :
      ∀ k' ∈ Actor.Source.task (.resume k r : Source), k'.market = none := by
    intro k' hk'
    rw [Multiset.mem_singleton.1 hk']
    exact hk
  unfold resume at h
  split at h
  · obtain ⟨o', ho', rfl⟩ := Option.map_eq_some_iff.1 h
    exact turn_of_collection_resume ho'
  · -- the handshake returns the root of the history
    cases h
    exact .kept (hsrc rfl) rfl rfl rfl (List.forall_mem_nil _) (List.forall_mem_nil _)
  · cases h
    exact .idle (hsrc rfl)
  · cases h
    exact .aside (hsrc rfl) .withdrawn rfl rfl
  · cases h
    exact .kept (hsrc rfl) rfl rfl rfl (by simp [Task.market]) (List.forall_mem_nil _)
  all_goals
    cases h <;> exact .idle (hsrc rfl)

/-- **Every segment is a move of the market, or aside of it, or restores it.** -/
theorem turn_of_segment {src : Source} {o : Step} (h : (program H).segment s src = some o) :
    Turn H s src o := by
  cases src with
  | call i => exact turn_of_call h
  | resume k r => exact turn_of_resume h

/-! ### Runs of the whole canister -/

/-- Who asks for the marketplace to be restored. -/
def Input.restorer : Input → Option Principal
  | .entrepotRestore caller _ => some caller
  | _ => none

/-- A condition on the segments of the market, in a run of the whole canister in which no admin
restores the marketplace from a backup. -/
def unrestored (H : Collection.Host) (G : LegendsNft.Guard) : Guard where
  call := fun c i => (∀ src ∈ marketSource H (.call i), G.segment (market c) src) ∧
    ∀ p ∈ i.restorer, c.state.isAdmin p = false
  resume := fun c k r => ∀ src ∈ marketSource H (.resume k r), G.segment (market c) src
  restart := fun c u => G.restart (market c) u

variable {G : LegendsNft.Guard}

section Decidable

variable [∀ c i, Decidable (G.call c i)] [∀ c k r, Decidable (G.resume c k r)]
  [∀ c u, Decidable (G.restart c u)]

instance (c : LegendsNft.Config) : ∀ src, Decidable (G.segment c src)
  | .call i => inferInstanceAs (Decidable (G.call c i))
  | .resume k r => inferInstanceAs (Decidable (G.resume c k r))

instance (c : Config) (i : Input) : Decidable ((unrestored H G).call c i) :=
  inferInstanceAs (Decidable ((∀ src ∈ marketSource H (.call i), G.segment (market c) src) ∧
    ∀ p ∈ i.restorer, c.state.isAdmin p = false))

instance (c : Config) (k : Task) (r : Wake) : Decidable ((unrestored H G).resume c k r) :=
  inferInstanceAs (Decidable (∀ src ∈ marketSource H (.resume k r), G.segment (market c) src))

instance (c : Config) (u : UInt16) : Decidable ((unrestored H G).restart c u) :=
  inferInstanceAs (Decidable (G.restart (market c) u))

instance (c : Config) (as : List (Actor.Act Input Wake UInt16)) :
    Decidable ((unrestored H G).AllowsAll (program H) c as) :=
  Actor.Guard.decidableAllowsAll as c

end Decidable

/-- The condition holds of the segment of the market. -/
theorem segment_of_unrestored {c : Config} {src : Source} {src' : LegendsNft.Source}
    (h : (unrestored H G).segment c src) (hsrc : marketSource H src = some src') :
    G.segment (market c) src' := by
  cases src with
  | call i => exact h.1 src' hsrc
  | resume k r => exact h src' hsrc

/-- A stronger condition on the market is a stronger condition on the canister. -/
theorem unrestored_mono {G' : LegendsNft.Guard}
    (hsegment : ∀ d src, G.segment d src → G'.segment d src)
    (hrestart : ∀ d u, G.restart d u → G'.restart d u) {c c' : Config}
    (h : Actor.Run (program H) (unrestored H G) c c') :
    Actor.Run (program H) (unrestored H G') c c' := by
  refine h.mono ?_
  intro d a ha
  cases a with
  | call i => exact ⟨fun src hsrc => hsegment _ src (ha.1 src hsrc), ha.2⟩
  | resume n r => exact fun k hk src hsrc => hsegment _ src (ha k hk src hsrc)
  | restart u => exact hrestart _ u ha

/-- **What holds of the market in every reached configuration may be assumed of its segments.** -/
theorem unrestored_assume {J : LegendsNft.Config → Prop} {c c' : Config}
    (hJ : ∀ d, Actor.Run (program H) (unrestored H G) c d → J (market d))
    (h : Actor.Run (program H) (unrestored H G) c c') :
    Actor.Run (program H) (unrestored H (G.assuming J)) c c' := by
  refine (h.assume hJ).mono ?_
  intro d a ha
  cases a with
  | call i =>
      exact ⟨fun src hsrc => Actor.Guard.segment_assuming.2 ⟨ha.1, ha.2.1 src hsrc⟩, ha.2.2⟩
  | resume n r =>
      exact fun k hk src hsrc =>
        Actor.Guard.segment_assuming.2 ⟨(ha k hk).1, (ha k hk).2 src hsrc⟩
  | restart u => exact ha

/-- The continuation of the market that a segment takes out of the pool. -/
theorem task_of_marketSource {src : Source} {src' : LegendsNft.Source}
    (h : marketSource H src = some src') :
    src.task.filterMap Task.market = Actor.Source.task src' := by
  unfold marketSource at h
  split at h <;> cases h <;> rfl

theorem filterMap_task_eq_zero {m : Multiset Task} (h : ∀ k ∈ m, k.market = none) :
    m.filterMap Task.market = 0 := by
  refine Multiset.eq_zero_of_forall_notMem ?_
  intro k' hk'
  obtain ⟨k, hk, heq⟩ := (Multiset.mem_filterMap _ _).1 hk'
  rw [h k hk] at heq
  cases heq

/-- An upgrade of the canister is one of its market. -/
theorem restart_eq_some {u : UInt16} {o : Step} (h : restart s u = some o) :
    ∃ canister, s.world.canister.upgrade u = .ok canister ∧
      marketStep o = ⟨{ s.world with canister := canister }, [], [.upgraded]⟩ := by
  unfold restart upgrade at h
  cases hup : s.world.canister.upgrade u with
  | error e =>
      rw [hup] at h
      cases h
  | ok canister =>
      rw [hup] at h
      cases hassets : Assets.new s.assets.backup with
      | error e =>
          rw [hassets] at h
          cases h
      | ok assets =>
          rw [hassets] at h
          cases h
          exact ⟨canister, rfl, rfl⟩

/-- **The rule of moves for runs of the whole canister**: what each move and each upgrade of the
market preserves, and what is stable under the other methods, holds along the run. -/
theorem multiset_of_turns {J : World → List LegendsNft.Event → Multiset LegendsNft.Task → Prop}
    (hmove : ∀ (d : LegendsNft.Config) src m o,
      (d.pool : Multiset LegendsNft.Task) = Actor.Source.task src + m →
      J d.state d.history (Actor.Source.task src + m) → G.segment d src →
      Move H.deployment d.state src o → J o.state (o.events ++ d.history) (m + o.spawned))
    (haside : ∀ s src w h m, J s.world h m → Aside s src w → J w h m)
    (hupgrade : ∀ (d : LegendsNft.Config) supply canister, J d.state d.history d.pool →
      G.restart d supply → d.state.canister.upgrade supply = .ok canister →
      J { d.state with canister := canister } (.upgraded :: d.history) 0)
    {c c' : Config} (h : Actor.Run (program H) (unrestored H G) c c')
    (hc : J (market c).state (market c).history (market c).pool) :
    J (market c').state (market c').history (market c').pool := by
  have hcoe (l : List Task) : (l.filterMap Task.market : Multiset LegendsNft.Task) =
      (l : Multiset Task).filterMap Task.market := rfl
  rw [market, hcoe] at hc ⊢
  refine h.multiset_induct (J := fun s h m =>
    J s.world (h.filterMap marketEvent) (m.filterMap Task.market)) ?_ ?_ hc
  · intro c src m o hpool hJ hg ho
    have hmarket : ((market c).pool : Multiset LegendsNft.Task) =
        src.task.filterMap Task.market + m.filterMap Task.market := by
      rw [← Multiset.filterMap_add, ← hpool]
      rfl
    rw [List.filterMap_append, Multiset.filterMap_add, ← hcoe]
    rw [Multiset.filterMap_add] at hJ
    cases turn_of_segment ho with
    | @move src' hsrc hm =>
        rw [task_of_marketSource hsrc] at hJ hmarket
        exact hmove (market c) src' _ _ hmarket hJ (segment_of_unrestored hg hsrc) hm
    | aside hsrc ha hspawned hevents =>
        rw [filterMap_task_eq_zero hsrc, Multiset.zero_add] at hJ
        rw [hspawned, hevents, Multiset.coe_nil, Multiset.add_zero, List.nil_append]
        exact haside c.state src _ _ _ hJ ha
    | restored hsrc hadmin =>
        subst hsrc
        exact absurd (hadmin.symm.trans (hg.2 _ rfl)) (by decide)
  · intro c u o hJ hg ho
    obtain ⟨canister, hup, ho'⟩ := restart_eq_some ho
    have hres := hupgrade (market c) u canister hJ hg hup
    have hworld : o.state.world = { c.state.world with canister := canister } :=
      congrArg Actor.Outcome.state ho'
    have hspawned : o.spawned.filterMap Task.market = [] := congrArg Actor.Outcome.spawned ho'
    have hevents : o.events.filterMap marketEvent = [.upgraded] :=
      congrArg Actor.Outcome.events ho'
    rw [List.filterMap_append, ← hcoe, hspawned, hevents, hworld]
    exact hres

/-- A configuration of the freshly installed canister. -/
def Initial (c : Config) : Prop := LegendsNft.Initial ⟨c.state.world, [], []⟩ ∧
  c.pool = [] ∧ c.history = []

theorem Initial.market {c : Config} (h : Initial c) : LegendsNft.Initial (market c) := by
  rw [Interface.market, h.2.1, h.2.2]
  exact h.1

theorem Config.initial_sample : Initial Config.sample :=
  ⟨LegendsNft.Config.initial_sample, rfl, rfl⟩

end Interface

end LegendsNft
