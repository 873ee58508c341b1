/-
**The shuffle as a sequence of draws.**

The loop of `shuffleMetadata` goes down the slots.  At each slot that is not minted it draws a slot
at or below it and exchanges the records of the two; a minted slot is passed over.  The draws depend
on the seed and on which slots are minted, not on the metadata.  A draw stays below the slots that
are left, so the loop neither traps nor loses a record.  What it does not look at is whether the
slot it draws is minted: a minted slot keeps its record exactly when it is not drawn, or happens to
receive an equal one.

Main definitions:

* `LegendsNft.Tokens.draws` — the exchanges of the loop;
* `LegendsNft.Tokens.Spares` — no draw takes the record of a minted slot away for good.

Main results:

* `LegendsNft.Tokens.shuffleLoop_eq` — the loop makes the exchanges of its draws;
* `LegendsNft.Tokens.shuffle_permutes` — **the shuffle is a permutation, and does not trap**;
* `LegendsNft.Tokens.shuffle_keeps_iff` — **the shuffles that leave minted tokens alone**.
-/

import LegendsNft.Shuffle
import LegendsNft.Swaps

set_option relaxedAutoImplicit false
set_option autoImplicit false

namespace LegendsNft

namespace Tokens

/-! ### The draws -/

/-- The exchanges of the loop from `currentIndex` on: the slot and the one it draws. -/
def draws (ledger : List (Option Token)) (randomNumber : UInt8) : ℕ → List (ℕ × ℕ)
  | 0 => []
  | 1 => []
  | currentIndex + 2 =>
      match ledger[currentIndex + 1]? with
      | some none =>
          (currentIndex + 1, pick (prng randomNumber) (currentIndex + 2)) ::
            draws ledger (prng randomNumber) (currentIndex + 1)
      | _ => draws ledger randomNumber (currentIndex + 1)

/-- A pseudo random number lies between 0 and 99. -/
theorem toNat_prng_lt (current : UInt8) : (prng current).toNat < 100 := by
  rw [prng, UInt8.toNat_mod]
  exact Nat.mod_lt _ (by decide)

/-- So it is the same as a signed number. -/
theorem toInt_prng (current : UInt8) : (prng current).toInt8.toInt = (prng current).toNat := by
  have hlt := toNat_prng_lt current
  have hmod : ((prng current).toNat : ℤ).bmod 256 = (prng current).toNat := by
    rw [Int.bmod_eq_of_le] <;> omega
  rw [UInt8.toInt8, Int8.toInt, Int8.toBitVec, BitVec.toInt_eq_toNat_bmod]
  exact hmod

theorem pick_eq (current : UInt8) (currentIndex : ℕ) :
    pick (prng current) currentIndex = (prng current).toNat * currentIndex / 100 := by
  rw [pick, toInt_prng, ← Int.natCast_mul]
  exact Int.natAbs_natCast ((prng current).toNat * currentIndex / 100)

/-- **A draw lies below the slots that are left**, which the loop asserts. -/
theorem pick_lt (current : UInt8) {currentIndex : ℕ} (h : 0 < currentIndex) :
    pick (prng current) currentIndex < currentIndex := by
  rw [pick_eq, Nat.div_lt_iff_lt_mul (by decide), Nat.mul_comm currentIndex]
  exact Nat.mul_lt_mul_of_pos_right (toNat_prng_lt current) h

theorem exchange_eq {l : List Metadata} {i j : ℕ} (hi : i < l.length) (hj : j < l.length) :
    exchange l i j = .ok (Swaps.swap l (i, j)) := by
  rw [exchange, Swaps.swap_of_lt hi hj, List.getElem?_eq_getElem hi, List.getElem?_eq_getElem hj]
  rfl

/-- Every exchange is at a slot that is not minted. -/
theorem unminted_of_mem_draws {ledger : List (Option Token)} {randomNumber : UInt8} {n : ℕ}
    {p : ℕ × ℕ} (h : p ∈ draws ledger randomNumber n) : ledger[p.1]? = some none := by
  induction n generalizing randomNumber with
  | zero => simp [draws] at h
  | succ n ih =>
      cases n with
      | zero => simp [draws] at h
      | succ n =>
          rw [draws] at h
          split at h
          · rename_i hempty
            rcases List.mem_cons.1 h with rfl | h
            · exact hempty
            · exact ih h
          · exact ih h

/-- The exchanges lie below `currentIndex`, and go down. -/
theorem draws_descending (ledger : List (Option Token)) (randomNumber : UInt8) (n : ℕ) :
    Swaps.Below n (draws ledger randomNumber n) ∧
      Swaps.Descending (draws ledger randomNumber n) := by
  induction n generalizing randomNumber with
  | zero => exact ⟨by simp [Swaps.Below, draws], ⟨by simp [draws], by simp [draws]⟩⟩
  | succ n ih =>
      cases n with
      | zero => exact ⟨by simp [Swaps.Below, draws], ⟨by simp [draws], by simp [draws]⟩⟩
      | succ n =>
          rw [draws]
          split
          · obtain ⟨hbelow, hdesc⟩ := ih (prng randomNumber)
            have hpick := pick_lt randomNumber (Nat.succ_pos (n + 1))
            refine ⟨?_, hdesc.cons (Nat.le_of_lt_succ hpick) hbelow⟩
            intro p hp
            rcases List.mem_cons.1 hp with rfl | hp
            · exact ⟨Nat.lt_succ_self _, hpick⟩
            · exact hbelow.mono (Nat.le_succ _) p hp
          · obtain ⟨hbelow, hdesc⟩ := ih randomNumber
            exact ⟨hbelow.mono (Nat.le_succ _), hdesc⟩

/-- **The loop makes the exchanges of its draws**: no access of it is out of bounds, and no
assertion fails. -/
theorem shuffleLoop_eq (ledger : List (Option Token)) (randomNumber : UInt8)
    (shuffled : List Metadata) {n : ℕ} (hpos : 0 < n) (hledger : n ≤ ledger.length)
    (hlen : n ≤ shuffled.length) : shuffleLoop ledger randomNumber shuffled n =
      .ok (Swaps.swapAll shuffled (draws ledger randomNumber n)) := by
  induction n generalizing randomNumber shuffled with
  | zero => cases hpos
  | succ n ih =>
      cases n with
      | zero => rfl
      | succ n =>
          rw [shuffleLoop, draws, List.getElem?_eq_getElem (by omega : n + 1 < ledger.length)]
          cases ledger[n + 1] with
          | some token => exact ih randomNumber shuffled (Nat.succ_pos n) (by omega) (by omega)
          | none =>
              have hpick : pick (prng randomNumber) (n + 2) < n + 2 :=
                pick_lt randomNumber (Nat.succ_pos (n + 1))
              have hswap : (Swaps.swap shuffled
                  (n + 1, pick (prng randomNumber) (n + 2))).length = shuffled.length :=
                (Swaps.swap_perm shuffled _).length_eq
              simp only [if_pos hpick, exchange_eq (by omega : n + 1 < shuffled.length)
                (by omega : pick (prng randomNumber) (n + 2) < shuffled.length)]
              exact ih (prng randomNumber) _ (Nat.succ_pos n) (by omega) (by omega)

/-- What the shuffle does, when there is a slot for each record. -/
theorem shuffleResume_eq {t : Tokens} (b : UInt8) (seed : Blob)
    (hlen : t.metadata.length = t.ledger.length) (hpos : 0 < t.ledger.length) :
    t.shuffleResume (b :: seed) = .ok { t with
      metadata := Swaps.swapAll t.metadata (draws t.ledger b t.ledger.length)
      isShuffled := true } := by
  have hloop := shuffleLoop_eq t.ledger b t.metadata hpos (le_refl _)
    (le_of_eq hlen.symm)
  rw [shuffleResume, hlen, List.head?_cons, orTrap]
  exact bind_eq_ok.2 ⟨b, rfl, bind_eq_ok.2 ⟨_, hloop, rfl⟩⟩

/-- **The shuffle is a permutation, and does not trap**, whatever is minted and whatever the
seed. -/
theorem shuffle_permutes {t : Tokens} (b : UInt8) (seed : Blob)
    (hlen : t.metadata.length = t.ledger.length) (hpos : 0 < t.ledger.length) :
    ∃ t', t.shuffleResume (b :: seed) = .ok t' ∧ t'.metadata.Perm t.metadata ∧
      t'.isShuffled = true ∧ t'.ledger = t.ledger :=
  ⟨_, shuffleResume_eq b seed hlen hpos, Swaps.swapAll_perm _ _, rfl, rfl⟩

/-- Three slots, the first of them minted. -/
def sampleShuffle : Tokens where
  ledger := [some ⟨0, "aa", "N/A"⟩, none, none]
  metadata := [⟨"fate", "round", "copper", "white", "", ""⟩,
    ⟨"bordered", "thin", "gold", "black", "", ""⟩, ⟨"worn", "staggered", "silver", "blue", "", ""⟩]
  isShuffled := false
  size_lt := by decide

theorem shuffle_permutes_sample : ∃ t', sampleShuffle.shuffleResume [0] = .ok t' ∧
    t'.metadata.Perm sampleShuffle.metadata ∧ t'.isShuffled = true ∧
      t'.ledger = sampleShuffle.ledger :=
  shuffle_permutes 0 [] rfl (by decide)

/-! ### Minted tokens -/

/-- The tokens that are minted before keep their records. -/
def KeepsMinted (t t' : Tokens) : Prop :=
  ∀ (i : ℕ) (token : Token), t.ledger[i]? = some (some token) → t'.metadata[i]? = t.metadata[i]?

/-- No minted slot is drawn. -/
def Undrawn (ledger : List (Option Token)) (b : UInt8) : Prop :=
  ∀ p ∈ draws ledger b ledger.length, ledger[p.2]? = some none

instance (ledger : List (Option Token)) (b : UInt8) : Decidable (Undrawn ledger b) :=
  inferInstanceAs (Decidable (∀ p ∈ draws ledger b ledger.length, ledger[p.2]? = some none))

/-- A minted slot is drawn only where the draws bring it an equal record from elsewhere. -/
def Spares (t : Tokens) (b : UInt8) : Prop :=
  ∀ p ∈ draws t.ledger b t.ledger.length, ∀ token, t.ledger[p.2]? = some (some token) →
    t.metadata[Swaps.origin (draws t.ledger b t.ledger.length) p.2]? = t.metadata[p.2]?

/-- A minted slot that is not drawn keeps its place. -/
theorem origin_draws_eq_self_iff {ledger : List (Option Token)} {b : UInt8} {n i : ℕ}
    {token : Token} (h : ledger[i]? = some (some token)) :
    Swaps.origin (draws ledger b n) i = i ↔ ∀ p ∈ draws ledger b n, p.2 ≠ i := by
  refine (draws_descending ledger b n).2.origin_eq_self_iff ?_
  intro p hp heq
  have hempty := unminted_of_mem_draws hp
  rw [heq, h] at hempty
  cases hempty

/-- The minted tokens keep their records where the draws spare them. -/
theorem keepsMinted_iff_spares {t t' : Tokens} {b : UInt8}
    (hbelow : Swaps.Below t.metadata.length (draws t.ledger b t.ledger.length))
    (h : t'.metadata = Swaps.swapAll t.metadata (draws t.ledger b t.ledger.length)) :
    KeepsMinted t t' ↔ Spares t b := by
  have hafter (i : ℕ) : t'.metadata[i]? =
      t.metadata[Swaps.origin (draws t.ledger b t.ledger.length) i]? := by
    rw [h, Swaps.getElem?_swapAll hbelow]
  constructor
  · intro hkeeps p hp token htoken
    rw [← hafter]
    exact hkeeps p.2 token htoken
  · intro hspares i token htoken
    rw [hafter]
    by_cases hdrawn : ∃ p ∈ draws t.ledger b t.ledger.length, p.2 = i
    · obtain ⟨p, hp, rfl⟩ := hdrawn
      exact hspares p hp token htoken
    · rw [(origin_draws_eq_self_iff htoken).2 fun p hp heq => hdrawn ⟨p, hp, heq⟩]

/-- Where the records differ, the draws spare the minted tokens by not picking them. -/
theorem spares_iff_undrawn {t : Tokens} {b : UInt8} (hlen : t.metadata.length = t.ledger.length)
    (hnodup : t.metadata.Nodup) : Spares t b ↔ Undrawn t.ledger b := by
  constructor
  · intro hspares p hp
    have hlt := ((draws_descending t.ledger b t.ledger.length).1 p hp).2
    rw [List.getElem?_eq_getElem hlt]
    cases htoken : t.ledger[p.2] with
    | none => rfl
    | some token =>
        have hminted : t.ledger[p.2]? = some (some token) := by
          rw [List.getElem?_eq_getElem hlt, htoken]
        have heq := (List.getElem?_inj (hlen ▸ hlt) hnodup).1 (hspares p hp token hminted).symm
        exact absurd rfl ((origin_draws_eq_self_iff hminted).1 heq.symm p hp)
  · intro hundrawn p hp token htoken
    rw [hundrawn p hp] at htoken
    cases htoken

/-- **The shuffles that leave minted tokens alone**: those whose draws pick no minted slot or, where
records repeat, bring each that they pick an equal record. -/
theorem shuffle_keeps_iff {t t' : Tokens} {b : UInt8} {seed : Blob}
    (hlen : t.metadata.length = t.ledger.length) (h : t.shuffleResume (b :: seed) = .ok t') :
    (KeepsMinted t t' ↔ Spares t b) ∧
      (t.metadata.Nodup → (KeepsMinted t t' ↔ Undrawn t.ledger b)) := by
  have hpos : 0 < t.ledger.length := by
    by_contra hpos
    have hzero : t.metadata.length = 0 := by omega
    rw [shuffleResume, hzero] at h
    cases h
  obtain ⟨hbelow, -⟩ := draws_descending t.ledger b t.ledger.length
  have hmetadata : t'.metadata = Swaps.swapAll t.metadata (draws t.ledger b t.ledger.length) := by
    rw [shuffleResume_eq b seed hlen hpos] at h
    cases h
    rfl
  have hiff := keepsMinted_iff_spares (hlen ▸ hbelow) hmetadata
  exact ⟨hiff, fun hnodup => hiff.trans (spares_iff_undrawn hlen hnodup)⟩

theorem shuffle_keeps_iff_sample : ∃ t', sampleShuffle.shuffleResume [4] = .ok t' ∧
    KeepsMinted sampleShuffle t' := by
  obtain ⟨t', h⟩ : ∃ t', sampleShuffle.shuffleResume [4] = .ok t' := ⟨_, rfl⟩
  exact ⟨t', h, ((shuffle_keeps_iff rfl h).2 (by decide)).2 (by decide)⟩

/-- The last slot draws the minted one, and takes its record. -/
theorem shuffle_takes_minted : ∃ t', sampleShuffle.shuffleResume [2] = .ok t' ∧
    sampleShuffle.metadata.length = sampleShuffle.ledger.length ∧
      ¬ KeepsMinted sampleShuffle t' := by
  refine ⟨_, rfl, rfl, ?_⟩
  intro hkeeps
  exact absurd (hkeeps 0 _ rfl) (by decide)

end Tokens

end LegendsNft
