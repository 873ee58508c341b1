/-
**The whole collection as an actor.**

`LegendsNft/System.lean` has the calls that make the market; this module adds those that write to
the admin list and to the metadata, and the launchpad's way to mint (`main.mo`, `bazaar/lib.mo`).
Two of them suspend: `launchpadMint` awaits the `mint` of the canister itself, and
`shuffleMetadata` awaits the random seed of the management canister.  The segments of the market
are those of `LegendsNft.program`, with their continuations and events embedded.

What an upgrade and the ownership ledger see of a segment is little: the tokens are minted,
transferred, configured, shuffled, or left alone.

Main definitions:

* `LegendsNft.Bazaar.launchpadTotalAvailable`, `LegendsNft.Bazaar.launchpadMint` — the launchpad;
* `LegendsNft.Collection.Host` — what this part of the canister is linked against;
* `LegendsNft.Collection.program` — **the collection as an actor**;
* `LegendsNft.Collection.deeds`, `LegendsNft.Collection.Writes` — what the history records of the
  tokens, and what a segment does to them.

Main results:

* `LegendsNft.Collection.writes_of_segment` — **every segment makes one of these writes**;
* `LegendsNft.Collection.invariant_of_writes` — invariants of the tokens and the history, write by
  write.
-/

import LegendsNft.Discipline

set_option relaxedAutoImplicit false
set_option autoImplicit false

namespace LegendsNft

/-! ### The launchpad -/

namespace Bazaar

/-- The error of `Interface.MintError` this canister returns. -/
inductive MintError
  | noneAvailable
  deriving DecidableEq

/-- `launchpadTotalAvailable`; the index of the event is not looked at. -/
def launchpadTotalAvailable (tokens : Tokens) (supply : UInt16) : Except Trap ℕ :=
  (tokens.getUnminted supply).map List.length

/-- `launchpadMint`, up to `await mint`: only the launchpad may call it. -/
def launchpadMint (launchpad caller : Principal) : Except Trap Unit :=
  if caller = launchpad then .ok () else .error .assertion

/-- `launchpadMint`, from `await mint` on. -/
def launchpadMintResume : Except Text ℕ → Except MintError ℕ
  | .ok t => .ok t
  | .error _ => .error .noneAvailable

end Bazaar

namespace Collection

/-! ### Calls, continuations and events -/

/-- What the canister is linked against, the launchpad included. -/
structure Host where
  deployment : Deployment
  /-- `Principal.toText(state.cid)`. -/
  cid : Text
  /-- The principal of the launchpad canister, `LAUNCHPAD_ID`. -/
  launchpad : Principal

/-- A suspended continuation, or a message the canister has sent to itself. -/
inductive Task
  | market (k : LegendsNft.Task)
  /-- `launchpadMint` has called `mint`, which has not begun. -/
  | mint (to' : Principal)
  /-- `mint` has returned to `launchpadMint`. -/
  | minted (r : Except Text ℕ)
  /-- `shuffleMetadata` awaits `Random.blob`. -/
  | shuffle

/-- What may happen without a suspended continuation being woken. -/
inductive Input
  | market (i : LegendsNft.Input)
  | launchpadMint (caller to' : Principal)
  | configureMetadata (caller : Principal) (conf : List Metadata)
  | shuffleMetadata (caller : Principal)
  | addAdmin (caller p : Principal)
  | removeAdmin (caller p : Principal)

/-- How a suspended continuation is woken. -/
inductive Wake
  | market (r : LegendsNft.Wake)
  /-- The message or the reply it waits for is delivered. -/
  | run
  /-- The random seed arrives. -/
  | random (seed : Blob)
  /-- The call it waits for is rejected. -/
  | reject

/-- The events of the history. -/
inductive Event
  | market (e : LegendsNft.Event)
  /-- `mint` has returned. -/
  | minted (r : Except Text ℕ)
  /-- `launchpadMint` has returned. -/
  | launchpadMinted (r : Except Bazaar.MintError ℕ)
  /-- The metadata has been shuffled. -/
  | shuffled

/-! ### The segments -/

/-- The outcome of a segment of the collection. -/
abbrev Step := Actor.Outcome World Task Event

/-- The outcome of a segment of the market, with these events of the collection after its own. -/
def ofMarket (es : List Event) (o : LegendsNft.Step) : Step :=
  ⟨o.state, o.spawned.map .market, es ++ o.events.map .market⟩

/-- A segment that traps or returns without an effect. -/
def idle (w : World) : Step := ⟨w, [], []⟩

/-- The world with other admins. -/
def setAdmins (w : World) (admins : Admins) : World :=
  { w with canister := { w.canister with admins := admins } }

/-- What `mint` returns, as an event; other calls of the market have none. -/
def returned (D : Deployment) (w : World) : LegendsNft.Input → List Event
  | .mint caller to' =>
      match w.tokens.mint D w.now caller (w.canister.admins.isAdmin caller) to' with
      | .ok (_, r) => [.minted r]
      | .error _ => []
  | _ => []

variable (H : Host)

/-- The first segment of a call. -/
def call (w : World) : Input → Option Step
  | .market i => (LegendsNft.call H.deployment w i).map (ofMarket (returned H.deployment w i))
  | .launchpadMint caller to' =>
      match Bazaar.launchpadMint H.launchpad caller with
      | .error _ => some (idle w)
      | .ok () => some ⟨w, [.mint to'], []⟩
  | .configureMetadata caller conf =>
      match w.tokens.configureMetadata w.canister.supply (w.canister.admins.isAdmin caller)
          conf with
      | .error _ => some (idle w)
      | .ok (tokens, _) => some ⟨w.setTokens tokens, [], []⟩
  | .shuffleMetadata caller =>
      match w.tokens.shuffleMetadata H.cid (w.canister.admins.isAdmin caller) with
      | .error _ => some (idle w)
      | .ok () => some ⟨w, [.shuffle], []⟩
  | .addAdmin caller p =>
      match w.canister.admins.addAdmin caller p with
      | .error _ => some (idle w)
      | .ok admins => some ⟨setAdmins w admins, [], []⟩
  | .removeAdmin caller p =>
      match w.canister.admins.removeAdmin caller p with
      | .error _ => some (idle w)
      | .ok admins => some ⟨setAdmins w admins, [], []⟩

/-- The segment a suspended continuation runs when it is woken. -/
def resume (w : World) : Task → Wake → Option Step
  | .market k, .market r => (LegendsNft.resume H.deployment w k r).map (ofMarket [])
  | .mint to', .run =>
      match w.tokens.mint H.deployment w.now H.deployment.cid
        (w.canister.admins.isAdmin H.deployment.cid) (.principal to') with
      | .error _ => some (idle w)
      | .ok (tokens, r) => some ⟨w.setTokens tokens, [.minted r], [.minted r]⟩
  | .minted r, .run => some ⟨w, [], [.launchpadMinted (Bazaar.launchpadMintResume r)]⟩
  | .shuffle, .random seed =>
      match w.tokens.shuffleResume seed with
      | .error _ => some (idle w)
      | .ok tokens => some ⟨w.setTokens tokens, [], [.shuffled]⟩
  | .mint _, .reject => some (idle w)
  | .shuffle, .reject => some (idle w)
  | _, _ => none

/-- An upgrade, if no constructor traps. -/
def restart (w : World) (supply : UInt16) : Option Step :=
  (LegendsNft.restart w supply).map (ofMarket [])

/-- **The collection as an actor.** -/
def program : Actor.Program World Task Input Wake UInt16 Event :=
  { call := call H
    resume := resume H
    restart := restart }

/-- A configuration of the collection. -/
abbrev Config := Actor.Config World Task Event

/-- A condition on the segments of a run of the collection. -/
abbrev Guard := Actor.Guard World Task Input Wake UInt16 Event

/-- What starts a segment of the collection. -/
abbrev Source := Actor.Source Task Input Wake

/-- A configuration of the freshly installed collection. -/
def Initial (c : Config) : Prop :=
  (∃ creator supply, c.state.canister = Canister.fresh creator supply) ∧
    c.pool = [] ∧ c.history = []

/-! ### What a segment does to the tokens -/

/-- What the history records of the tokens: a result of `mint`, or a shuffle. -/
inductive Deed
  | minted (r : Except Text ℕ)
  | shuffled
  deriving DecidableEq

/-- The deed an event records. -/
def Event.deed? : Event → Option Deed
  | .minted r => some (.minted r)
  | .shuffled => some .shuffled
  | _ => none

/-- The deeds of a history, the latest first. -/
def deeds (h : List Event) : List Deed := h.filterMap Event.deed?

theorem deeds_append (h h' : List Event) : deeds (h ++ h') = deeds h ++ deeds h' :=
  List.filterMap_append

@[simp] theorem deeds_map_market (es : List LegendsNft.Event) : deeds (es.map .market) = [] := by
  rw [deeds, List.filterMap_map]
  exact List.filterMap_eq_nil_iff.2 fun e _ => rfl

/-- **What a segment does to the tokens**, and what it records of it. -/
inductive Writes (H : Host) (w : World) : Source → Tokens → List Deed → Prop
  | kept {src : Source} : Writes H w src w.tokens []
  | minted {src : Source} {caller : Principal} {isAdmin : Bool} {to' : User} {tokens : Tokens}
      {r : Except Text ℕ}
      (minted : w.tokens.mint H.deployment w.now caller isAdmin to' = .ok (tokens, r)) :
      Writes H w src tokens [.minted r]
  | transferred {src : Source} {i : TokenIndex} {a b : AccountIdentifier} {tokens : Tokens}
      (transferred : w.tokens.transfer H.deployment w.now i a b = .ok tokens) :
      Writes H w src tokens []
  | configured {caller : Principal} {conf : List Metadata} {tokens : Tokens} {isAdmin : Bool}
      {r : Except Text Unit} (configured :
        w.tokens.configureMetadata w.canister.supply isAdmin conf = .ok (tokens, r)) :
      Writes H w (.call (.configureMetadata caller conf)) tokens []
  | shuffled {seed : Blob} {tokens : Tokens} (shuffled : w.tokens.shuffleResume seed = .ok tokens) :
      Writes H w (.resume .shuffle (.random seed)) tokens [.shuffled]

variable {H}

/-- A segment of the market keeps the supply and the admins, and does not touch the metadata. -/
theorem writes_of_move {w : World} {src : LegendsNft.Source} {o : LegendsNft.Step} {src' : Source}
    (hsrc : ∀ caller to', src ≠ .call (.mint caller to'))
    (h : LegendsNft.Move H.deployment w src o) :
    Writes H w src' o.state.tokens [] ∧ o.state.canister.supply = w.canister.supply := by
  cases h with
  | mint minted => exact absurd rfl (hsrc _ _)
  | extTransfer decoded owner unlisted transferred => exact ⟨.transferred transferred, rfl⟩
  | finalized paid sale transferred => exact ⟨.transferred transferred, rfl⟩
  | idle => exact ⟨.kept, rfl⟩
  | relay => exact ⟨.kept, rfl⟩
  | tick => exact ⟨.kept, rfl⟩
  | deposit => exact ⟨.kept, rfl⟩
  | listBegan => exact ⟨.kept, rfl⟩
  | lockBegan => exact ⟨.kept, rfl⟩
  | sent => exact ⟨.kept, rfl⟩
  | queueStart => exact ⟨.kept, rfl⟩
  | queueStep => exact ⟨.kept, rfl⟩
  | deleted => exact ⟨.kept, rfl⟩
  | listed => exact ⟨.kept, rfl⟩
  | delisted => exact ⟨.kept, rfl⟩
  | locked => exact ⟨.kept, rfl⟩
  | read => exact ⟨.kept, rfl⟩
  | report => exact ⟨.kept, rfl⟩
  | gaveUp => exact ⟨.kept, rfl⟩
  | executed => exact ⟨.kept, rfl⟩
  | rejected => exact ⟨.kept, rfl⟩

theorem writes_of_call {w : World} {i : Input} {o : Step} (h : call H w i = some o) :
    Writes H w (.call i) o.state.tokens (deeds o.events) ∧
      o.state.canister.supply = w.canister.supply := by
  cases i with
  | market i =>
      obtain ⟨o', ho', rfl⟩ := Option.map_eq_some_iff.1 h
      have hmove := move_of_call ho'
      by_cases hmint : ∃ caller to', i = .mint caller to'
      · obtain ⟨caller, to', rfl⟩ := hmint
        cases hm : w.tokens.mint H.deployment w.now caller (w.canister.admins.isAdmin caller)
            to' with
        | error e =>
            simp only [LegendsNft.call, hm, Option.some_inj] at ho'
            subst ho'
            simp only [ofMarket, returned, hm]
            exact ⟨.kept, rfl⟩
        | ok p =>
            simp only [LegendsNft.call, hm, Option.some_inj] at ho'
            subst ho'
            simp only [ofMarket, returned, hm]
            exact ⟨.minted hm, rfl⟩
      · have hret : returned H.deployment w i = [] := by
          cases i <;> first | rfl | exact absurd ⟨_, _, rfl⟩ hmint
        simp only [ofMarket, hret, List.nil_append, deeds_map_market]
        refine writes_of_move ?_ hmove
        rintro caller to' heq
        cases heq
        exact hmint ⟨caller, to', rfl⟩
  | launchpadMint caller to' =>
      rw [call] at h
      split at h
      · cases h
        exact ⟨.kept, rfl⟩
      · cases h
        exact ⟨.kept, rfl⟩
  | configureMetadata caller conf =>
      rw [call] at h
      split at h
      · cases h
        exact ⟨.kept, rfl⟩
      · rename_i hconf
        cases h
        exact ⟨.configured hconf, rfl⟩
  | shuffleMetadata caller =>
      rw [call] at h
      split at h
      · cases h
        exact ⟨.kept, rfl⟩
      · cases h
        exact ⟨.kept, rfl⟩
  | addAdmin caller p =>
      rw [call] at h
      split at h
      · cases h
        exact ⟨.kept, rfl⟩
      · cases h
        exact ⟨.kept, rfl⟩
  | removeAdmin caller p =>
      rw [call] at h
      split at h
      · cases h
        exact ⟨.kept, rfl⟩
      · cases h
        exact ⟨.kept, rfl⟩

theorem writes_of_resume {w : World} {k : Task} {r : Wake} {o : Step}
    (h : resume H w k r = some o) :
    Writes H w (.resume k r) o.state.tokens (deeds o.events) ∧
      o.state.canister.supply = w.canister.supply := by
  unfold resume at h
  split at h
  · obtain ⟨o', ho', rfl⟩ := Option.map_eq_some_iff.1 h
    simp only [ofMarket, List.nil_append, deeds_map_market]
    refine writes_of_move ?_ (move_of_resume ho')
    simp
  · split at h
    · cases h
      exact ⟨.kept, rfl⟩
    · rename_i hm
      cases h
      exact ⟨.minted hm, rfl⟩
  · cases h
    exact ⟨.kept, rfl⟩
  · split at h
    · cases h
      exact ⟨.kept, rfl⟩
    · rename_i hs
      cases h
      exact ⟨.shuffled hs, rfl⟩
  · cases h
    exact ⟨.kept, rfl⟩
  · cases h
    exact ⟨.kept, rfl⟩
  · cases h

/-- **Every segment makes one of these writes**, and keeps the supply. -/
theorem writes_of_segment {w : World} {src : Source} {o : Step}
    (h : (program H).segment w src = some o) :
    Writes H w src o.state.tokens (deeds o.events) ∧
      o.state.canister.supply = w.canister.supply := by
  cases src with
  | call i => exact writes_of_call h
  | resume k r => exact writes_of_resume h

/-- What an upgrade leaves of the tokens. -/
theorem tokens_of_restart {w : World} {supply : UInt16} {o : Step} (h : restart w supply = some o) :
    Tokens.new supply w.canister.preupgrade.tokens = .ok o.state.tokens ∧
      o.state.canister.supply = supply ∧ deeds o.events = [] := by
  obtain ⟨o', ho', rfl⟩ := Option.map_eq_some_iff.1 h
  obtain ⟨c, hc, rfl⟩ := restart_eq_some ho'
  exact ⟨(Canister.upgrade_eq_ok hc).1, Canister.supply_upgrade hc, rfl⟩

variable {G : Guard}

/-- **Invariants of the tokens, the supply and the deeds**, write by write. -/
theorem invariant_of_writes {I : Tokens → UInt16 → List Deed → Prop}
    (hwrite : ∀ c src tokens ds, I c.state.tokens c.state.canister.supply (deeds c.history) →
      G.segment c src → Writes H c.state src tokens ds →
      I tokens c.state.canister.supply (ds ++ deeds c.history))
    (hupgrade : ∀ c supply tokens, I c.state.tokens c.state.canister.supply (deeds c.history) →
      G.restart c supply → Tokens.new supply c.state.canister.preupgrade.tokens = .ok tokens →
      I tokens supply (deeds c.history))
    {c c' : Config} (h : Actor.Run (program H) G c c')
    (hc : I c.state.tokens c.state.canister.supply (deeds c.history)) :
    I c'.state.tokens c'.state.canister.supply (deeds c'.history) := by
  refine h.multiset_induct
    (J := fun w h _ => I w.tokens w.canister.supply (deeds h)) ?_ ?_ hc
  · intro c src m o _ hI hg ho
    obtain ⟨hw, hsupply⟩ := writes_of_segment ho
    rw [deeds_append, hsupply]
    exact hwrite c src _ _ hI hg hw
  · intro c supply o hI hg ho
    obtain ⟨hnew, hsupply, hdeeds⟩ := tokens_of_restart ho
    rw [deeds_append, hdeeds, hsupply, List.nil_append]
    exact hupgrade c supply _ hI hg hnew

/-! ### The size of the ledger -/

/-- A write keeps the number of slots. -/
theorem Writes.length_ledger {w : World} {src : Source} {tokens : Tokens}
    {ds : List Deed} (h : Writes H w src tokens ds) :
    tokens.ledger.length = w.tokens.ledger.length := by
  cases h with
  | kept => rfl
  | minted minted =>
      rcases Tokens.mint_eq_ok minted with ⟨i, -, -, rfl⟩ | ⟨-, -, rfl⟩
      · exact Tokens.length_ledger_write ..
      · rfl
  | transferred transferred =>
      obtain ⟨token, -, -, rfl⟩ := Tokens.transfer_eq_ok transferred
      exact Tokens.length_ledger_write ..
  | configured configured => rw [(Tokens.configureMetadata_eq_ok configured).2.2]
  | shuffled shuffled => rw [(Tokens.shuffleResume_eq_ok shuffled).2]

/-- The ledger has a slot for each token of the supply. -/
theorem length_ledger_of_run {c₀ c : Config} (h₀ : Initial c₀)
    (h : Actor.Run (program H) G c₀ c) :
    c.state.tokens.ledger.length = c.state.canister.supply.toNat := by
  refine invariant_of_writes (I := fun tokens supply _ => tokens.ledger.length = supply.toNat)
    ?_ ?_ h ?_
  · intro c src tokens ds hI _ hw
    exact hw.length_ledger.trans hI
  · intro c supply tokens hI _ hnew
    rw [Canister.tokens_preupgrade hI] at hnew
    obtain ⟨hle, hledger, -, -⟩ := Tokens.new_eq_ok hnew
    rw [hledger, List.length_append, List.length_replicate]
    omega
  · obtain ⟨⟨creator, supply, hfresh⟩, -, -⟩ := h₀
    rw [World.tokens, hfresh]
    exact List.length_replicate

/-! ### Sample runs -/

/-- The host of the sample runs. -/
def Host.sample : Host := ⟨.sample, "c", ⟨[8]⟩⟩

/-- A fresh collection of three tokens. -/
def Config.sample : Config :=
  ⟨⟨Canister.fresh ⟨[7]⟩ 3, fun _ => 0, 0⟩, [], []⟩

theorem Config.initial_sample : Initial Config.sample := ⟨⟨⟨[7]⟩, 3, rfl⟩, rfl, rfl⟩

/-- The choices of a scheduler of the collection. -/
abbrev Choice := Actor.Act Input Wake UInt16

/-- A choice of a scheduler of the market. -/
def ofChoice : LegendsNft.Choice → Choice
  | .call i => .call (.market i)
  | .resume n r => .resume n (.market r)
  | .restart supply => .restart supply

/-- The configuration a list of choices leads to. -/
def sampleRun (as : List Choice) : Option Config :=
  (program .sample).exec Config.sample as

end Collection

end LegendsNft
