/-
**The shuffle of the metadata.**

`shuffleMetadata` checks that the metadata has not been shuffled, then awaits the random seed, then
permutes the metadata and sets the flag without checking again.  Two calls that await their seeds
at the same time shuffle twice.  So the metadata is frozen from the first shuffle on in the runs in
which no seed arrives for a shuffle once the flag is set; everything else — configuring, minting,
transfers, sales and upgrades — leaves shuffled metadata alone.

Main definitions:

* `LegendsNft.Collection.once` — the guard: a seed arrives before the flag is set.

Main results:

* `LegendsNft.Collection.Writes.frozen` — what a write does to shuffled metadata;
* `LegendsNft.Collection.metadata_frozen` — **shuffled metadata never changes again**.
-/

import LegendsNft.Collection

set_option relaxedAutoImplicit false
set_option autoImplicit false

namespace LegendsNft

namespace Collection

variable {H : Host}

/-- Waking this continuation is not the arrival of a seed for a shuffle after the flag is set. -/
def FirstShuffle (c : Config) : Task → Wake → Prop
  | .shuffle, .random _ => c.state.tokens.isShuffled = false
  | _, _ => True

/-- A seed arrives for a shuffle only while the metadata is not shuffled. -/
def once : Guard where
  call := fun _ _ => True
  resume := FirstShuffle
  restart := fun _ _ => True

instance (c : Config) (i : Input) : Decidable (once.call c i) := isTrue trivial

instance (c : Config) (supply : UInt16) : Decidable (once.restart c supply) := isTrue trivial

instance (c : Config) : ∀ k r, Decidable (once.resume c k r)
  | .shuffle, .random _ => inferInstanceAs (Decidable (c.state.tokens.isShuffled = false))
  | .shuffle, .run => isTrue trivial
  | .shuffle, .reject => isTrue trivial
  | .shuffle, .market _ => isTrue trivial
  | .market _, _ => isTrue trivial
  | .mint _, _ => isTrue trivial
  | .minted _, _ => isTrue trivial

/-- The number of shuffles. -/
def shuffles (ds : List Deed) : ℕ := ds.count .shuffled

/-- The tokens are shuffled, with this metadata, by this many shuffles. -/
structure FrozenAt (metadata : List Metadata) (n : ℕ) (tokens : Tokens) (ds : List Deed) :
    Prop where
  flag : tokens.isShuffled = true
  metadata : tokens.metadata = metadata
  count : shuffles ds = n

/-- **Shuffled metadata** is kept by every write but another shuffle. -/
theorem Writes.frozen {w : World} {src : Source} {tokens : Tokens} {ds ds₀ : List Deed}
    {metadata : List Metadata} {n : ℕ} (h : Writes H w src tokens ds)
    (hw : FrozenAt metadata n w.tokens ds₀)
    (hsrc : ∀ seed, src ≠ .resume .shuffle (.random seed)) :
    FrozenAt metadata n tokens (ds ++ ds₀) := by
  cases h with
  | kept => exact hw
  | @minted _ _ _ _ _ r minted =>
      have hcount : shuffles (.minted r :: ds₀) = n :=
        (List.count_cons_of_ne (by simp)).trans hw.count
      rcases Tokens.mint_eq_ok minted with ⟨i, -, -, rfl⟩ | ⟨-, -, rfl⟩
      · exact ⟨hw.flag, hw.metadata, hcount⟩
      · exact ⟨hw.flag, hw.metadata, hcount⟩
  | transferred transferred =>
      obtain ⟨token, -, -, rfl⟩ := Tokens.transfer_eq_ok transferred
      exact ⟨hw.flag, hw.metadata, hw.count⟩
  | configured configured =>
      -- the flag is checked in the segment that writes
      have hflag := (Tokens.configureMetadata_eq_ok configured).1
      rw [hw.flag] at hflag
      cases hflag
  | shuffled shuffled => exact absurd rfl (hsrc _)

/-- **Shuffled metadata never changes again** in a run in which no seed arrives for a shuffle once
the flag is set: the flag stays set, the metadata stays, and there is no other shuffle. -/
theorem metadata_frozen {c c' : Config} (hs : c.state.tokens.isShuffled = true)
    (h : Actor.Run (program H) once c c') :
    c'.state.tokens.isShuffled = true ∧ c'.state.tokens.metadata = c.state.tokens.metadata ∧
      shuffles (deeds c'.history) = shuffles (deeds c.history) := by
  have hfrozen : FrozenAt c.state.tokens.metadata (shuffles (deeds c.history)) c'.state.tokens
      (deeds c'.history) := by
    refine invariant_of_writes (I := fun tokens _ ds =>
      FrozenAt c.state.tokens.metadata (shuffles (deeds c.history)) tokens ds) ?_ ?_ h
      ⟨hs, rfl, rfl⟩
    · intro d src tokens ds hd hg hw
      refine hw.frozen hd ?_
      rintro seed rfl
      have hflag : d.state.tokens.isShuffled = false := hg
      rw [hd.flag] at hflag
      cases hflag
    · intro d supply tokens hd _ hnew
      obtain ⟨-, -, hmetadata, hshuffled⟩ := Tokens.new_eq_ok hnew
      obtain ⟨hm, hf⟩ := Canister.metadata_extendTokens d.state.canister.supply
        d.state.canister.tokens.toStable
      exact ⟨(hshuffled.trans hf).trans hd.flag, (hmetadata.trans hm).trans hd.metadata, hd.count⟩
  exact ⟨hfrozen.flag, hfrozen.metadata, hfrozen.count⟩

/-- Metadata with a name in place of each of its parts. -/
def sampleMetadata (name : Text) : Metadata := ⟨name, name, name, name, name, name⟩

/-- The metadata is configured, and an admin asks for two shuffles; the seed of the first one
arrives. -/
def twoShuffles : List Choice :=
  [.call (.configureMetadata ⟨[7]⟩ (["a", "b", "c"].map sampleMetadata)),
    .call (.shuffleMetadata ⟨[7]⟩), .call (.shuffleMetadata ⟨[7]⟩), .resume 0 (.random [1])]

/-- The first shuffle, the call for the second one being rejected. -/
theorem metadata_frozen_sample : ∃ c c', sampleRun twoShuffles = some c ∧
    Actor.Run (program .sample) once c c' ∧ c'.pool = [] ∧
    c'.state.tokens.metadata = c.state.tokens.metadata := by
  obtain ⟨c, hc, c', hc', hs, hpool, hallowed⟩ :=
    (by decide : ∃ c ∈ sampleRun twoShuffles, ∃ c' ∈ (program .sample).exec c
      [.resume 0 .reject], c.state.tokens.isShuffled = true ∧ c'.pool.length = 0 ∧
        once.AllowsAll (program .sample) c [.resume 0 .reject])
  have hrun := Actor.run_of_exec hallowed hc'
  exact ⟨c, c', hc, hrun, List.length_eq_zero_iff.1 hpool, (metadata_frozen hs hrun).2.1⟩

/-- **A second shuffle**: its seed arrives when the metadata is shuffled, and permutes it again. -/
theorem shuffled_twice : ∃ c c', sampleRun twoShuffles = some c ∧
    (program .sample).exec c [.resume 0 (.random [2])] = some c' ∧
    c.state.tokens.isShuffled = true ∧
    c'.state.tokens.metadata ≠ c.state.tokens.metadata := by
  obtain ⟨c, hc, c', hc', hs, hne⟩ :=
    (by decide : ∃ c ∈ sampleRun twoShuffles, ∃ c' ∈ (program .sample).exec c
      [.resume 0 (.random [2])], c.state.tokens.isShuffled = true ∧
        c'.state.tokens.metadata ≠ c.state.tokens.metadata)
  exact ⟨c, c', hc, hc', hs, hne⟩

end Collection

end LegendsNft
