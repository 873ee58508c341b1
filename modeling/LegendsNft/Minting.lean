/-
**Minting.**

Tokens are minted from the front of the ledger, by the admins and by the launchpad.  Whatever else
happens in between, the minted slots are the first `k`, where `k` is the number of mints that
returned an index, and the next mint returns `k`, as long as `k` is below the supply.  The scans of
the ledger are read off this one fact, and an upgrade, which can only add empty slots at the end,
keeps it.

Main definitions:

* `LegendsNft.Collection.mintedIndices` — the indices that `mint` has returned;
* `LegendsNft.Collection.MintedTo` — the invariant;
* `LegendsNft.Collection.Minting` — what it says about the functions of the source;
* `LegendsNft.Collection.replies` — what `launchpadMint` has returned.

Main results:

* `LegendsNft.Tokens.collect_eq` — the scans of the ledger;
* `LegendsNft.Collection.Writes.mintedTo` — every write keeps the invariant;
* `LegendsNft.Collection.replies_le_results` — the launchpad is told what `mint` returned, once;
* `LegendsNft.Collection.minting_of_run` — **minting is collision-free and bounded by the supply**.
-/

import Mathlib.Algebra.Order.Group.Multiset
import LegendsNft.Collection
import LegendsNft.Slots

set_option relaxedAutoImplicit false
set_option autoImplicit false

namespace LegendsNft

/-! ### The scans of the ledger -/

namespace Tokens

/-- The two scans of a ledger whose first `k` slots are minted. -/
theorem scans_of_filledTo {t : Tokens} {supply : UInt16} {k : ℕ}
    (hsize : t.ledger.length = supply.toNat) (h : Slots.FilledTo k t.ledger) :
    t.getMinted supply = .ok ((List.range k).map UInt32.ofNat) ∧
      t.getUnminted supply =
        .ok ((List.range' k (supply.toNat - k)).map UInt32.ofNat) := by
  constructor
  · have hfilter := h.filter_isSome
    rw [List.range_eq_range', hsize] at hfilter
    rw [t.getMinted_eq hsize.ge]
    exact congrArg (fun l => Except.ok (l.map UInt32.ofNat)) hfilter
  · have hscan := t.collect_eq (fun token => token.isNone) 0 supply.toNat (by simp [hsize])
    have hfilter := h.filter_isNone
    rw [List.range_eq_range', hsize] at hfilter
    rw [getUnminted, hscan]
    exact congrArg (fun l => Except.ok (l.map UInt32.ofNat)) hfilter

end Tokens

namespace Collection

variable {H : Host}

/-! ### The invariant -/

/-- The index a mint has returned. -/
def Deed.index? : Deed → Option ℕ
  | .minted (.ok i) => some i
  | _ => none

/-- The indices that `mint` has returned, the latest first. -/
def mintedIndices (ds : List Deed) : List ℕ := ds.filterMap Deed.index?

/-- The first `k` slots of a ledger of the size of the supply are minted, in the order of the
mints that returned an index. -/
structure MintedTo (k : ℕ) (tokens : Tokens) (supply : UInt16) (ds : List Deed) : Prop where
  size : tokens.ledger.length = supply.toNat
  filled : Slots.FilledTo k tokens.ledger
  indices : mintedIndices ds = (List.range k).reverse

/-- What a mint does to the minted slots. -/
theorem MintedTo.mint {k : ℕ} {tokens tokens' : Tokens} {supply : UInt16} {ds : List Deed}
    (h : MintedTo k tokens supply ds) {D : Deployment} {now : Time} {caller : Principal}
    {isAdmin : Bool} {to' : User} {r : Except Text ℕ}
    (hm : tokens.mint D now caller isAdmin to' = .ok (tokens', r)) :
    ∃ k', k ≤ k' ∧ MintedTo k' tokens' supply (.minted r :: ds) := by
  have hfind := h.filled.findIdx?_isNone
  rcases Tokens.mint_eq_ok hm with ⟨i, hi, rfl, rfl⟩ | ⟨-, rfl, rfl⟩
  · rw [hi] at hfind
    split_ifs at hfind with hk
    cases hfind
    refine ⟨k + 1, Nat.le_succ k, ?_, h.filled.set_next hk _, ?_⟩
    · rw [Tokens.length_ledger_write, h.size]
    · rw [List.range_succ, List.reverse_append, ← h.indices]
      rfl
  · exact ⟨k, le_refl k, h.size, h.filled, h.indices⟩

/-- **Every write** keeps the minted slots, and may mint the next one. -/
theorem Writes.mintedTo {w : World} {src : Source} {tokens : Tokens} {supply : UInt16}
    {ds ds₀ : List Deed} {k : ℕ} (hw : Writes H w src tokens ds)
    (h : MintedTo k w.tokens supply ds₀) :
    ∃ k', k ≤ k' ∧ MintedTo k' tokens supply (ds ++ ds₀) := by
  cases hw with
  | kept => exact ⟨k, le_refl k, h⟩
  | minted minted => exact h.mint minted
  | transferred transferred =>
      obtain ⟨token, hslot, -, rfl⟩ := Tokens.transfer_eq_ok transferred
      have hlt := (h.filled.exists_iff _).1 ⟨token, hslot⟩
      exact ⟨k, le_refl k, (Tokens.length_ledger_write ..).trans h.size,
        h.filled.set_filled hlt _, h.indices⟩
  | configured configured =>
      have hledger := (Tokens.configureMetadata_eq_ok configured).2.2
      exact ⟨k, le_refl k, hledger ▸ h.size, hledger ▸ h.filled, h.indices⟩
  | shuffled shuffled =>
      have hledger := (Tokens.shuffleResume_eq_ok shuffled).2
      exact ⟨k, le_refl k, hledger ▸ h.size, hledger ▸ h.filled, h.indices⟩

/-- An upgrade adds empty slots at the end. -/
theorem MintedTo.upgrade {k : ℕ} {c : Canister} {supply : UInt16} {ds : List Deed}
    (h : MintedTo k c.tokens c.supply ds) {tokens : Tokens}
    (hnew : Tokens.new supply c.preupgrade.tokens = .ok tokens) : MintedTo k tokens supply ds := by
  rw [Canister.tokens_preupgrade h.size] at hnew
  obtain ⟨hle, hledger, -, -⟩ := Tokens.new_eq_ok hnew
  refine ⟨?_, ?_, h.indices⟩
  · rw [hledger, List.length_append, List.length_replicate]
    omega
  · rw [hledger]
    exact h.filled.append_empty _

/-- Along a run the minted slots stay minted. -/
theorem mintedTo_of_run {G : Guard} {c c' : Config} (h : Actor.Run (program H) G c c') {k : ℕ}
    (hc : MintedTo k c.state.tokens c.state.canister.supply (deeds c.history)) :
    ∃ k', k ≤ k' ∧ MintedTo k' c'.state.tokens c'.state.canister.supply (deeds c'.history) := by
  refine invariant_of_writes (I := fun tokens supply ds => ∃ k', k ≤ k' ∧
    MintedTo k' tokens supply ds) ?_ ?_ h ⟨k, le_refl k, hc⟩
  · rintro d src tokens ds ⟨k₁, hk₁, hd⟩ - hw
    obtain ⟨k₂, hk₂, hd'⟩ := hw.mintedTo hd
    exact ⟨k₂, le_trans hk₁ hk₂, hd'⟩
  · rintro d supply tokens ⟨k₁, hk₁, hd⟩ - hnew
    exact ⟨k₁, hk₁, hd.upgrade hnew⟩

theorem mintedTo_initial {c : Config} (h : Initial c) :
    MintedTo 0 c.state.tokens c.state.canister.supply (deeds c.history) := by
  obtain ⟨⟨creator, supply, hfresh⟩, -, hhistory⟩ := h
  rw [World.tokens, hfresh, hhistory]
  exact ⟨List.length_replicate, Slots.filledTo_zero _, rfl⟩

/-! ### What the launchpad is told -/

/-- What `mint` has returned. -/
def mintResults (h : List Event) : Multiset (Except Text ℕ) :=
  (h.filterMap fun e => match e with
    | .minted r => some r
    | _ => none : List (Except Text ℕ))

/-- What `launchpadMint` has returned. -/
def replies (h : List Event) : Multiset (Except Bazaar.MintError ℕ) :=
  (h.filterMap fun e => match e with
    | .launchpadMinted r => some r
    | _ => none : List (Except Bazaar.MintError ℕ))

/-- The results of `mint` on their way to `launchpadMint`. -/
def underway (m : Multiset Task) : Multiset (Except Text ℕ) :=
  m.filterMap fun k => match k with
    | .minted r => some r
    | _ => none

theorem mintResults_append (h h' : List Event) :
    mintResults (h ++ h') = mintResults h + mintResults h' := by
  rw [mintResults, List.filterMap_append, ← Multiset.coe_add]
  rfl

theorem replies_append (h h' : List Event) : replies (h ++ h') = replies h + replies h' := by
  rw [replies, List.filterMap_append, ← Multiset.coe_add]
  rfl

theorem underway_add (m m' : Multiset Task) : underway (m + m') = underway m + underway m' :=
  Multiset.filterMap_add _ _ _

/-- The market tells the launchpad nothing. -/
theorem silent_ofMarket (es : List Event) (o : LegendsNft.Step) (h : replies es = 0) :
    replies (ofMarket es o).events + (underway (ofMarket es o).spawned).map
      Bazaar.launchpadMintResume = 0 := by
  have hevents : replies (o.events.map .market) = 0 := by
    rw [replies, List.filterMap_map, Multiset.coe_eq_zero]
    exact List.filterMap_eq_nil_iff.2 fun e _ => rfl
  have hspawned : underway (o.spawned.map Task.market : Multiset Task) = 0 := by
    rw [underway, Multiset.filterMap_coe, List.filterMap_map, Multiset.coe_eq_zero]
    exact List.filterMap_eq_nil_iff.2 fun k _ => rfl
  rw [ofMarket, replies_append, h, hevents, hspawned]
  rfl

theorem replies_returned (D : Deployment) (w : World) (i : LegendsNft.Input) :
    replies (returned D w i) = 0 := by
  unfold returned
  split
  · split <;> rfl
  · rfl

/-- A segment tells the launchpad, or sends on its way, only what it takes from the pool or what
`mint` returns in it. -/
theorem replies_of_segment {w : World} {src : Source} {o : Step}
    (h : (program H).segment w src = some o) :
    replies o.events + (underway o.spawned).map Bazaar.launchpadMintResume ≤
      (underway src.task + mintResults o.events).map Bazaar.launchpadMintResume := by
  have silent : replies o.events + (underway o.spawned).map Bazaar.launchpadMintResume = 0 →
      replies o.events + (underway o.spawned).map Bazaar.launchpadMintResume ≤
        (underway src.task + mintResults o.events).map Bazaar.launchpadMintResume := by
    intro hzero
    rw [hzero]
    exact Multiset.zero_le _
  cases src with
  | call i =>
      change call H w i = some o at h
      unfold call at h
      split at h
      · obtain ⟨o', -, rfl⟩ := Option.map_eq_some_iff.1 h
        exact silent (silent_ofMarket _ _ (replies_returned _ _ _))
      all_goals
        split at h
        · cases h
          exact silent rfl
        · cases h
          exact silent rfl
  | resume k r =>
      change resume H w k r = some o at h
      unfold resume at h
      split at h
      · obtain ⟨o', -, rfl⟩ := Option.map_eq_some_iff.1 h
        exact silent (silent_ofMarket _ _ rfl)
      · split at h
        · cases h
          exact silent rfl
        · -- `mint` returns to `launchpadMint`
          cases h
          exact le_of_eq rfl
      · -- `launchpadMint` returns
        cases h
        exact le_of_eq rfl
      · split at h
        · cases h
          exact silent rfl
        · cases h
          exact silent rfl
      · cases h
        exact silent rfl
      · cases h
        exact silent rfl
      · cases h

/-- What a step takes over from the elements under way, it takes from a balance that has them. -/
theorem add_le_add_of_swap {α : Type} {a b c d e f g : Multiset α} (h : a + b ≤ c + d)
    (h' : e + (c + f) ≤ g) : a + e + (f + b) ≤ d + g := by
  calc a + e + (f + b) = a + b + (e + f) := by ac_rfl
    _ ≤ c + d + (e + f) := Multiset.add_le_add_iff_right.2 h
    _ = d + (e + (c + f)) := by ac_rfl
    _ ≤ d + g := Multiset.add_le_add_iff_left.2 h'

/-- **The launchpad is told what `mint` returned**, each result at most once. -/
theorem replies_le_results {G : Guard} {c₀ c : Config} (h₀ : Initial c₀)
    (h : Actor.Run (program H) G c₀ c) :
    replies c.history ≤ (mintResults c.history).map Bazaar.launchpadMintResume := by
  have hle : replies c.history + (underway c.pool).map Bazaar.launchpadMintResume ≤
      (mintResults c.history).map Bazaar.launchpadMintResume := by
    refine h.multiset_induct (J := fun _ h m =>
      replies h + (underway m).map Bazaar.launchpadMintResume ≤
        (mintResults h).map Bazaar.launchpadMintResume) ?_ ?_ ?_
    · intro c src m o _ hJ _ ho
      have hseg := replies_of_segment ho
      rw [underway_add, Multiset.map_add] at hJ
      rw [Multiset.map_add] at hseg
      rw [replies_append, mintResults_append, underway_add, Multiset.map_add, Multiset.map_add]
      exact add_le_add_of_swap hseg hJ
    · intro c supply o hJ _ ho
      obtain ⟨o', ho', rfl⟩ := Option.map_eq_some_iff.1 ho
      obtain ⟨canister, -, rfl⟩ := restart_eq_some ho'
      change replies c.history + 0 ≤ _
      rw [add_zero]
      exact le_trans (Multiset.le_add_right _ _) hJ
    · rw [h₀.2.1, h₀.2.2]
      exact Multiset.zero_le _
  exact le_trans (Multiset.le_add_right _ _) hle

/-! ### Whole runs -/

/-- **What minting amounts to** after `k` successful mints. -/
structure Minting (H : Host) (c : Config) (k : ℕ) : Prop where
  /-- The successful mints have returned `0`, `1`, …, `k - 1`, in this order. -/
  indices : mintedIndices (deeds c.history) = (List.range k).reverse
  le_supply : k ≤ c.state.canister.supply.toNat
  /-- The minted slots are the first `k`. -/
  slots : ∀ i : ℕ, (∃ token, c.state.tokens.ledger[i]? = some (some token)) ↔ i < k
  getMinted : c.state.tokens.getMinted c.state.canister.supply =
    .ok ((List.range k).map UInt32.ofNat)
  getUnminted : c.state.tokens.getUnminted c.state.canister.supply =
    .ok ((List.range' k (c.state.canister.supply.toNat - k)).map UInt32.ofNat)
  available : Bazaar.launchpadTotalAvailable c.state.tokens c.state.canister.supply =
    .ok (c.state.canister.supply.toNat - k)
  /-- The next mint returns `k`, unless no token is available. -/
  mint : ∀ now caller isAdmin to', isAdmin || caller == H.deployment.cid →
    ∃ tokens, c.state.tokens.mint H.deployment now caller isAdmin to' = .ok (tokens,
      if c.state.canister.supply.toNat - k = 0 then .error "No more supply." else .ok k)
  /-- The launchpad has been told an index only if a mint has returned it, and once. -/
  replies_ok : ∀ i, (replies c.history).count (.ok i) ≤ (mintResults c.history).count (.ok i)
  /-- It has been told that none is available only as often as a mint has failed. -/
  replies_error : (replies c.history).count (.error .noneAvailable) ≤
    (mintResults c.history).countP fun r => r.toOption = none

/-- An index the launchpad is told is one that `mint` has returned. -/
theorem launchpadMintResume_eq_ok {r : Except Text ℕ} {i : ℕ} :
    .ok i = Bazaar.launchpadMintResume r ↔ .ok i = r := by
  cases r <;> simp [Bazaar.launchpadMintResume]

/-- The launchpad is told of a failure when `mint` has failed. -/
theorem launchpadMintResume_eq_error {r : Except Text ℕ} :
    .error .noneAvailable = Bazaar.launchpadMintResume r ↔ r.toOption = none := by
  cases r <;> simp [Bazaar.launchpadMintResume, Except.toOption]

/-- The first `k` slots being minted is all there is to know. -/
theorem MintedTo.minting {c : Config} {k : ℕ}
    (h : MintedTo k c.state.tokens c.state.canister.supply (deeds c.history))
    (hreplies : replies c.history ≤ (mintResults c.history).map Bazaar.launchpadMintResume) :
    Minting H c k := by
  obtain ⟨hminted, hunminted⟩ := Tokens.scans_of_filledTo h.size h.filled
  refine ⟨h.indices, h.size ▸ h.filled.le, h.filled.exists_iff, hminted, hunminted, ?_, ?_, ?_, ?_⟩
  · rw [Bazaar.launchpadTotalAvailable, hunminted]
    simp [Except.map]
  · intro now caller isAdmin to' hauth
    rw [Tokens.mint_eq hauth, h.filled.findIdx?_isNone, h.size]
    by_cases hk : k < c.state.canister.supply.toNat
    · have hleft : ¬c.state.canister.supply.toNat - k = 0 := by omega
      simp [hk, hleft]
    · have hleft : c.state.canister.supply.toNat - k = 0 := by omega
      simp [hk, hleft]
  · intro i
    have hcount := Multiset.count_le_of_le (.ok i) hreplies
    rw [Multiset.count_map, ← Multiset.countP_eq_card_filter] at hcount
    simpa only [launchpadMintResume_eq_ok, Multiset.count] using hcount
  · have hcount := Multiset.count_le_of_le (.error .noneAvailable) hreplies
    rw [Multiset.count_map, ← Multiset.countP_eq_card_filter] at hcount
    simpa only [launchpadMintResume_eq_error] using hcount

/-- **Minting is collision-free and bounded by the supply**, along every run of the collection, and
a minted slot stays minted. -/
theorem minting_of_run {c₀ c c' : Config} (h₀ : Initial c₀)
    (h : Actor.Run (program H) .any c₀ c) (h' : Actor.Run (program H) .any c c') :
    Minting H c (mintedIndices (deeds c.history)).length ∧
      ∀ i : ℕ, (∃ token, c.state.tokens.ledger[i]? = some (some token)) →
        ∃ token, c'.state.tokens.ledger[i]? = some (some token) := by
  obtain ⟨k, -, hk⟩ := mintedTo_of_run h (mintedTo_initial h₀)
  obtain ⟨k', hle, hk'⟩ := mintedTo_of_run h' hk
  have hlength : (mintedIndices (deeds c.history)).length = k := by
    rw [hk.indices, List.length_reverse, List.length_range]
  refine ⟨hlength ▸ hk.minting (replies_le_results h₀ h), ?_⟩
  intro i hi
  rw [hk.filled.exists_iff] at hi
  rw [hk'.filled.exists_iff]
  exact Nat.lt_of_lt_of_le hi hle

/-- An admin mints, the launchpad mints, and the canister is upgraded to a larger supply. -/
def twoMints : List Choice :=
  [.call (.market (.mint ⟨[7]⟩ (.principal ⟨[1]⟩))), .call (.launchpadMint ⟨[8]⟩ ⟨[2]⟩),
    .resume 0 .run, .resume 0 .run, .restart 4]

theorem minting_of_run_sample : ∃ c, sampleRun twoMints = some c ∧
    Bazaar.launchpadTotalAvailable c.state.tokens c.state.canister.supply = .ok 2 := by
  obtain ⟨c, hc, hlength, hsupply⟩ := (by decide : ∃ c ∈ sampleRun twoMints,
    (mintedIndices (deeds c.history)).length = 2 ∧ c.state.canister.supply.toNat = 4)
  have hrun : Actor.Run (program .sample) .any Config.sample c :=
    Actor.run_of_exec (Actor.Guard.any_allowsAll _ _) hc
  have havailable := (minting_of_run Config.initial_sample hrun (.refl c)).1.available
  rw [hlength, hsupply] at havailable
  exact ⟨c, hc, havailable⟩

end Collection

end LegendsNft
