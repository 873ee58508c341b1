/-
**What outsiders cannot change.**

An outsider is a caller that is no admin, not the launchpad and not the canister itself.  Whatever
outsiders call, and however their calls interleave with each other, with the heartbeat and with the
answers of other canisters, the configuration of the canister stays: the admin list, the assets and
the upload buffer, the metadata, which tokens are minted, the settings of the heartbeat, the tables
of rarities and the records of the public sale.  What they move is the market and the owners of
minted tokens.

Main definitions:

* `LegendsNft.Interface.State.Kept` — two states with the same configuration;
* `LegendsNft.Collection.Outsider`, `LegendsNft.Interface.outsiders` — the guard: every caller is an
  outsider;
* `LegendsNft.Interface.Task.Configures` — a continuation that writes to the configuration.

Main results:

* `LegendsNft.World.kept_of_call`, `LegendsNft.World.kept_of_resume` — the segments of the market;
* `LegendsNft.Interface.configuration_kept` — **no run of outsiders changes the configuration**.
-/

import LegendsNft.Interface

set_option relaxedAutoImplicit false
set_option autoImplicit false

namespace LegendsNft

/-! ### The segments of the market -/

/-- The creation times of the tokens, slot by slot: which tokens are minted, and since when. -/
def Tokens.minted (t : Tokens) : List (Option Time) := t.ledger.map (Option.map Token.createdAt)

/-- A transfer writes another owner into the slot of a minted token. -/
theorem Tokens.minted_of_transfer {t t' : Tokens} {D : Deployment} {now : Time} {i : TokenIndex}
    {a b : AccountIdentifier} (h : t.transfer D now i a b = .ok t') : t'.minted = t.minted := by
  obtain ⟨token, hslot, -, rfl⟩ := transfer_eq_ok h
  obtain ⟨hi, -⟩ := List.getElem?_eq_some_iff.1 hslot
  rw [minted, minted, write, List.map_set]
  refine List.ext_getElem? fun j => ?_
  by_cases hj : i.toNat = j
  · subst hj
    rw [List.getElem?_set_self (by simpa using hi), List.getElem?_map, hslot]
    rfl
  · rw [List.getElem?_set_ne hj]

namespace World

open Entrepot

/-- Two worlds with the same configuration: they differ in the market, the owners of minted tokens,
the ledger and the clock only. -/
structure Kept (w w' : World) : Prop where
  admins : w'.canister.admins = w.canister.admins
  supply : w'.canister.supply = w.canister.supply
  metadata : w'.tokens.metadata = w.tokens.metadata
  isShuffled : w'.tokens.isShuffled = w.tokens.isShuffled
  minted : w'.tokens.minted = w.tokens.minted
  usedPaymentAddresses : w'.entrepot.usedPaymentAddresses = w.entrepot.usedPaymentAddresses

theorem Kept.refl (w : World) : w.Kept w := ⟨rfl, rfl, rfl, rfl, rfl, rfl⟩

theorem Kept.trans {w w' w'' : World} (h : w.Kept w') (h' : w'.Kept w'') : w.Kept w'' where
  admins := h'.admins.trans h.admins
  supply := h'.supply.trans h.supply
  metadata := h'.metadata.trans h.metadata
  isShuffled := h'.isShuffled.trans h.isShuffled
  minted := h'.minted.trans h.minted
  usedPaymentAddresses := h'.usedPaymentAddresses.trans h.usedPaymentAddresses

variable {D : Deployment} {w : World}

/-- No move adds a used payment address. -/
theorem usedPaymentAddresses_of_move {src : LegendsNft.Source} {o : Step} (h : Move D w src o) :
    o.state.entrepot.usedPaymentAddresses = w.entrepot.usedPaymentAddresses := by
  cases h with
  | sent market => exact market.usedPaymentAddresses
  | queueStart pass => exact pass.market.usedPaymentAddresses
  | queueStep _ pass => exact pass.market.usedPaymentAddresses
  | finalized _ sale => exact sale.usedPaymentAddresses
  | gaveUp =>
      change (Entrepot.giveUp _ _ _).usedPaymentAddresses = _
      unfold giveUp
      split <;> rfl
  | _ => rfl

theorem kept_of_transfer {tokens : Tokens} {i : TokenIndex} {a b : AccountIdentifier}
    (h : w.tokens.transfer D w.now i a b = .ok tokens) {s : Entrepot}
    (hs : s.usedPaymentAddresses = w.entrepot.usedPaymentAddresses) :
    w.Kept ((w.setEntrepot s).setTokens tokens) := by
  have hminted := Tokens.minted_of_transfer h
  obtain ⟨token, -, -, rfl⟩ := Tokens.transfer_eq_ok h
  exact ⟨rfl, rfl, rfl, rfl, hminted, hs⟩

/-- **A move of the market** other than a mint keeps the configuration. -/
theorem kept_of_move {src : LegendsNft.Source} {o : Step} (h : Move D w src o)
    (hmint : ∀ caller to', src ≠ .call (.mint caller to')) : w.Kept o.state := by
  have hused := usedPaymentAddresses_of_move h
  cases h with
  | mint minted => exact absurd rfl (hmint _ _)
  | extTransfer decoded owner unlisted transferred => exact kept_of_transfer transferred hused
  | finalized paid sale transferred => exact kept_of_transfer transferred hused
  | _ => exact ⟨rfl, rfl, rfl, rfl, rfl, hused⟩

theorem kept_of_call {i : Input} {o : Step} (h : call D w i = some o)
    (hmint : ∀ caller to', i = .mint caller to' →
      w.canister.admins.isAdmin caller = false ∧ caller ≠ D.cid) : w.Kept o.state := by
  by_cases hi : ∃ caller to', i = .mint caller to'
  · obtain ⟨caller, to', rfl⟩ := hi
    obtain ⟨hadmin, hcid⟩ := hmint caller to' rfl
    have htrap : w.tokens.mint D w.now caller (w.canister.admins.isAdmin caller) to' =
        .error .assertion := by
      rw [hadmin, Tokens.mint, if_neg (by simpa using hcid)]
    rw [call, htrap] at h
    cases h
    exact .refl w
  · refine kept_of_move (move_of_call h) ?_
    rintro caller to' heq
    cases heq
    exact hi ⟨caller, to', rfl⟩

theorem kept_of_resume {k : Task} {r : Wake} {o : Step} (h : resume D w k r = some o) :
    w.Kept o.state :=
  kept_of_move (move_of_resume h) (by simp)

end World

/-- A beat changes no setting of the heartbeat. -/
theorem Heartbeat.intervalSeconds_beat (h : Heartbeat) (now : Time) :
    (h.beat now).intervalSeconds = h.intervalSeconds := by
  unfold beat
  split
  · rfl
  · split
    · rfl
    · rfl

theorem Heartbeat.on_beat (h : Heartbeat) (now : Time) : (h.beat now).on = h.on := by
  unfold beat
  split
  · rfl
  · split
    · rfl
    · rfl

/-! ### Callers -/

/-- The caller of a method of the market. -/
def Input.caller? : Input → Option Principal
  | .tick _ => none
  | .deposit _ _ => none
  | .mint caller _ => some caller
  | .list caller _ => some caller
  | .lock caller _ _ _ => some caller
  | .settle caller _ => some caller
  | .transfer caller _ => some caller
  | .cronSettlements => none
  | .cronDisbursements => none
  | .deleteDisbursementJob caller _ _ _ => some caller

namespace Collection

/-- The caller of a method of the collection. -/
def Input.caller? : Input → Option Principal
  | .market i => i.caller?
  | .launchpadMint caller _ => some caller
  | .configureMetadata caller _ => some caller
  | .shuffleMetadata caller => some caller
  | .addAdmin caller _ => some caller
  | .removeAdmin caller _ => some caller

/-- A continuation that mints or shuffles. -/
def Task.Configures : Task → Prop
  | .mint _ => True
  | .shuffle => True
  | _ => False

/-- Neither an admin nor the launchpad nor the canister itself. -/
structure Outsider (H : Host) (w : World) (p : Principal) : Prop where
  isAdmin : w.canister.admins.isAdmin p = false
  launchpad : p ≠ H.launchpad
  cid : p ≠ H.deployment.cid

instance (H : Host) (w : World) (p : Principal) : Decidable (Outsider H w p) :=
  decidable_of_iff (w.canister.admins.isAdmin p = false ∧ p ≠ H.launchpad ∧ p ≠ H.deployment.cid)
    ⟨fun h => ⟨h.1, h.2.1, h.2.2⟩, fun h => ⟨h.isAdmin, h.launchpad, h.cid⟩⟩

variable {H : Host} {w : World}

/-- A segment that leaves the configuration alone now and later. -/
structure Harmless (w : World) (o : Step) : Prop where
  kept : w.Kept o.state
  spawned : ∀ k ∈ o.spawned, ¬k.Configures

theorem harmless_idle (w : World) : Harmless w (idle w) :=
  ⟨.refl w, List.forall_mem_nil _⟩

theorem harmless_ofMarket {es : List Event} {o : LegendsNft.Step} (h : w.Kept o.state) :
    Harmless w (ofMarket es o) where
  kept := h
  spawned := by
    intro k hk
    obtain ⟨k', -, rfl⟩ := List.mem_map.1 hk
    exact id

theorem harmless_of_call {i : Input} {o : Step} (h : call H w i = some o)
    (hi : ∀ p ∈ i.caller?, Outsider H w p) : Harmless w o := by
  cases i with
  | market i =>
      obtain ⟨o', ho', rfl⟩ := Option.map_eq_some_iff.1 h
      refine harmless_ofMarket (World.kept_of_call ho' ?_)
      rintro caller to' rfl
      have hp := hi caller rfl
      exact ⟨hp.isAdmin, hp.cid⟩
  | launchpadMint caller to' =>
      rw [call, Bazaar.launchpadMint, if_neg (hi caller rfl).launchpad] at h
      cases h
      exact harmless_idle w
  | configureMetadata caller conf =>
      rw [call, (hi caller rfl).isAdmin] at h
      cases h
      exact harmless_idle w
  | shuffleMetadata caller =>
      have htrap : w.tokens.shuffleMetadata H.cid false = .error .assertion := by
        unfold Tokens.shuffleMetadata
        split
        · rfl
        · rfl
      rw [call, (hi caller rfl).isAdmin, htrap] at h
      cases h
      exact harmless_idle w
  | addAdmin caller p =>
      rw [call, Admins.addAdmin, (hi caller rfl).isAdmin] at h
      cases h
      exact harmless_idle w
  | removeAdmin caller p =>
      rw [call, Admins.removeAdmin, (hi caller rfl).isAdmin] at h
      cases h
      exact harmless_idle w

theorem harmless_of_resume {k : Task} {r : Wake} {o : Step} (h : resume H w k r = some o)
    (hk : ¬k.Configures) : Harmless w o := by
  cases k with
  | market k =>
      cases r with
      | market r =>
          obtain ⟨o', ho', rfl⟩ := Option.map_eq_some_iff.1 h
          exact harmless_ofMarket (World.kept_of_resume ho')
      | run => cases h
      | random seed => cases h
      | reject => cases h
  | mint to' => exact absurd trivial hk
  | minted r' =>
      cases r with
      | run =>
          cases h
          exact ⟨.refl w, List.forall_mem_nil _⟩
      | market r => cases h
      | random seed => cases h
      | reject => cases h
  | shuffle => exact absurd trivial hk

end Collection

namespace Interface

open Collection (Outsider)

/-- The caller of a method. -/
def Input.caller? : Input → Option Principal
  | .collection i => i.caller?
  | .heartbeat => none
  | .query caller => some caller
  | .heartbeatSetInterval caller _ => some caller
  | .heartbeatSwitch caller _ => some caller
  | .collectCanisterMetrics caller => some caller
  | .init caller => some caller
  | .configureNri caller _ => some caller
  | .upload caller _ => some caller
  | .uploadFinalize caller _ _ => some caller
  | .uploadClear caller => some caller
  | .purgeAssets caller _ _ => some caller
  | .assetsDelete caller _ => some caller
  | .assetsRestore caller _ => some caller
  | .assetsTag caller _ => some caller
  | .configureColors caller _ => some caller
  | .configureStockColors caller _ => some caller
  | .readLedger caller => some caller
  | .tokensRestore caller _ => some caller
  | .balance caller => some caller
  | .nnsTransfer caller _ _ => some caller
  | .entrepotRestore caller _ => some caller
  | .deleteListing caller _ => some caller
  | .allowance caller => some caller
  | .approve caller => some caller
  | .publicSaleRestore caller _ => some caller
  | .launchpadEventCreate caller => some caller
  | .launchpadEventUpdate caller _ => some caller
  | .withdrawAll caller => some caller

/-- The methods of this module that assert that their caller is an admin. -/
def Input.isAdministrative : Input → Bool
  | .collection _ => false
  | .heartbeat => false
  | .query _ => false
  | .assetsRestore _ _ => false
  | .readLedger _ => false
  | .balance _ => false
  | .allowance _ => false
  | .approve _ => false
  | _ => true

variable {H : Collection.Host} {s : State}

/-- **An administrative method called by anybody but an admin** has no effect. -/
theorem call_of_not_admin {i : Input} (hi : i.isAdministrative = true)
    (hcaller : ∀ p ∈ i.caller?, s.isAdmin p = false) : call H s i = some (idle s) := by
  cases i with
  | collection i => cases hi
  | heartbeat => cases hi
  | query caller => cases hi
  | assetsRestore caller backup => cases hi
  | readLedger caller => cases hi
  | balance caller => cases hi
  | allowance caller => cases hi
  | approve caller => cases hi
  | collectCanisterMetrics caller => rfl
  | _ =>
      rw [call, hcaller _ rfl]
      rfl

/-! ### Runs of outsiders -/

/-- Two states with the same configuration. -/
structure State.Kept (s s' : State) : Prop where
  world : s.world.Kept s'.world
  assets : s'.assets = s.assets
  publicSale : s'.publicSale = s.publicSale
  nri : s'.nri = s.nri
  handlerNri : s'.handlerNri = s.handlerNri
  capRoot : s'.capRoot = s.capRoot
  intervalSeconds : s'.heartbeat.intervalSeconds = s.heartbeat.intervalSeconds
  on : s'.heartbeat.on = s.heartbeat.on

theorem State.Kept.refl (s : State) : s.Kept s := ⟨.refl _, rfl, rfl, rfl, rfl, rfl, rfl, rfl⟩

theorem State.Kept.trans {s s' s'' : State} (h : s.Kept s') (h' : s'.Kept s'') : s.Kept s'' where
  world := h.world.trans h'.world
  assets := h'.assets.trans h.assets
  publicSale := h'.publicSale.trans h.publicSale
  nri := h'.nri.trans h.nri
  handlerNri := h'.handlerNri.trans h.handlerNri
  capRoot := h'.capRoot.trans h.capRoot
  intervalSeconds := h'.intervalSeconds.trans h.intervalSeconds
  on := h'.on.trans h.on

/-- A continuation that writes to the configuration: of `init`, of a shuffle, or of a mint. -/
def Task.Configures : Task → Prop
  | .collection k => k.Configures
  | .handshake => True
  | _ => False

/-- A segment that leaves the configuration alone now and later. -/
structure Harmless (s : State) (o : Step) : Prop where
  kept : s.Kept o.state
  spawned : ∀ k ∈ o.spawned, ¬k.Configures

theorem harmless_idle (s : State) : Harmless s (idle s) := ⟨.refl s, List.forall_mem_nil _⟩

theorem harmless_ofCollection {o : Collection.Step} (h : Collection.Harmless s.world o) :
    Harmless s (ofCollection s o) where
  kept := ⟨h.kept, rfl, rfl, rfl, rfl, rfl, rfl, rfl⟩
  spawned := by
    intro k hk
    obtain ⟨k', hk', rfl⟩ := List.mem_map.1 hk
    exact h.spawned k' hk'

theorem harmless_of_call {i : Input} {o : Step} (h : call H s i = some o)
    (hi : ∀ p ∈ i.caller?, Outsider H s.world p) : Harmless s o := by
  by_cases hadmin : i.isAdministrative = true
  · rw [call_of_not_admin hadmin fun p hp => (hi p hp).isAdmin] at h
    cases h
    exact harmless_idle s
  · cases i with
    | collection i =>
        obtain ⟨o', ho', rfl⟩ := Option.map_eq_some_iff.1 h
        exact harmless_ofCollection (Collection.harmless_of_call ho' hi)
    | heartbeat =>
        cases h
        refine ⟨⟨.refl _, rfl, rfl, rfl, rfl, rfl, ?_, ?_⟩, List.forall_mem_nil _⟩
        · exact s.heartbeat.intervalSeconds_beat _
        · exact s.heartbeat.on_beat _
    | balance caller =>
        cases h
        exact ⟨.refl s, by simp [Task.Configures]⟩
    | query caller =>
        cases h
        exact harmless_idle s
    | assetsRestore caller backup =>
        cases h
        exact harmless_idle s
    | readLedger caller =>
        cases h
        exact harmless_idle s
    | allowance caller =>
        cases h
        exact harmless_idle s
    | approve caller =>
        cases h
        exact harmless_idle s
    | _ => exact absurd rfl hadmin

theorem harmless_of_resume {k : Task} {r : Wake} {o : Step} (h : resume H s k r = some o)
    (hk : ¬k.Configures) : Harmless s o := by
  unfold resume at h
  split at h
  · obtain ⟨o', ho', rfl⟩ := Option.map_eq_some_iff.1 h
    exact harmless_ofCollection (Collection.harmless_of_resume ho' hk)
  · exact absurd trivial hk
  · cases h
    exact harmless_idle s
  · cases h
    exact ⟨⟨⟨rfl, rfl, rfl, rfl, rfl, rfl⟩, rfl, rfl, rfl, rfl, rfl, rfl, rfl⟩,
      List.forall_mem_nil _⟩
  · cases h
    exact ⟨.refl s, by simp [Task.Configures]⟩
  all_goals
    cases h
  all_goals
    exact harmless_idle s

/-- Every caller is an outsider, and the canister is not upgraded. -/
def outsiders (H : Collection.Host) : Guard where
  call := fun c i => ∀ p ∈ i.caller?, Outsider H c.state.world p
  resume := fun _ _ _ => True
  restart := fun _ _ => False

instance (c : Config) (i : Input) : Decidable ((outsiders H).call c i) :=
  inferInstanceAs (Decidable (∀ p ∈ i.caller?, Outsider H c.state.world p))

instance (c : Config) (k : Task) (r : Wake) : Decidable ((outsiders H).resume c k r) :=
  isTrue trivial

instance (c : Config) (supply : UInt16) : Decidable ((outsiders H).restart c supply) :=
  isFalse id

/-- **A segment of a run of outsiders** leaves the configuration alone. -/
theorem harmless_of_segment {c : Config} {src : Source} {o : Step}
    (h : (program H).segment c.state src = some o) (hg : (outsiders H).segment c src)
    (hsrc : ∀ k ∈ src.task, ¬k.Configures) : Harmless c.state o := by
  cases src with
  | call i => exact harmless_of_call h hg
  | resume k r => exact harmless_of_resume h (hsrc k (Multiset.mem_singleton_self k))

/-- **No run of outsiders changes the configuration**, if no method of an admin or of the launchpad
that writes to it is still suspended at the start. -/
theorem configuration_kept {c c' : Config} (h : Actor.Run (program H) (outsiders H) c c')
    (hpool : ∀ k ∈ c.pool, ¬k.Configures) : c.state.Kept c'.state := by
  have hlocal : (program H).Local (outsiders H) (fun s _ => c.state.Kept s)
      (fun _ _ k => ¬k.Configures) := by
    constructor
    · intro d src o hd hsrc hg ho
      have hharmless := harmless_of_segment ho hg fun k hk => (hsrc k hk).2
      exact ⟨hd.trans hharmless.kept, hharmless.spawned, fun k hk => hk⟩
    · intro d supply o _ hg
      exact absurd hg id
  exact (h.local_induct hlocal (.refl _) hpool).1

/-- The freshly installed canister, with three tokens to mint. -/
def Config.sample : Config where
  state := {
    world := Collection.Config.sample.state
    assets := Assets.empty
    publicSale := .new ⟨[], []⟩
    nri := []
    handlerNri := []
    capRoot := none
    heartbeat := ⟨5, 0, true⟩ }
  pool := []
  history := []

/-- The choices of a scheduler of the canister. -/
abbrev Choice := Actor.Act Input Wake UInt16

/-- A choice of a scheduler of the market. -/
def ofChoice : LegendsNft.Choice → Choice
  | .call i => .call (.collection (.market i))
  | .resume n r => .resume n (.collection (.market r))
  | .restart supply => .restart supply

/-- The first token is minted to a user. -/
def oneMint : List Choice := (LegendsNft.Choice.mint ⟨[1]⟩).map ofChoice

/-- The user lists it, tries to configure the canister and to mint, and the heart beats. -/
def userCalls : List Choice :=
  (LegendsNft.Choice.list ⟨[1]⟩ 40000).map ofChoice ++
    [.call (.upload ⟨[1]⟩ [[1]]), .call (.heartbeatSwitch ⟨[1]⟩ false),
      .call (.collection (.launchpadMint ⟨[1]⟩ ⟨[1]⟩)), .call .heartbeat]

theorem configuration_kept_sample : ∃ c c',
    (program .sample).exec Config.sample oneMint = some c ∧
      (program .sample).exec c userCalls = some c' ∧
      (c'.state.world.entrepot.getListing 0).isSome ∧ c.state.Kept c'.state := by
  obtain ⟨c, hc, hpool, hallow, c', hc', hlisted⟩ := (by decide :
    ∃ c ∈ (program .sample).exec Config.sample oneMint, c.pool.isEmpty = true ∧
      (outsiders .sample).AllowsAll (program .sample) c userCalls ∧
      ∃ c' ∈ (program .sample).exec c userCalls, (c'.state.world.entrepot.getListing 0).isSome)
  have hrun := Actor.run_of_exec hallow hc'
  refine ⟨c, c', hc, hc', hlisted, configuration_kept hrun ?_⟩
  rw [List.isEmpty_iff.1 hpool]
  exact List.forall_mem_nil _

end Interface

end LegendsNft
