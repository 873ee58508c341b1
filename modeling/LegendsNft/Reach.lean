/-
**Which slots a record can reach in the shuffle.**

When nothing is minted, the draws of `shuffleMetadata` depend on the number of slots and on the
first byte of the seed, and so does where each record goes.  A record that reaches a slot for some
byte also does so with fewer slots, as long as there are enough for both: the rounds of the loop at
the upper slots either take a record up for good or leave it alone, and the random number they hand
on is a byte like any other.  So what is out of reach stays out of reach with more slots.

With twelve slots every record reaches every slot.  With thirteen, no byte brings the fifth record
to the seventh slot, and so it is with any larger supply.

Main definitions:

* `LegendsNft.Tokens.origins` — where the record in a slot has come from, by the first byte;
* `LegendsNft.Tokens.Reaches` — some byte brings a record to a slot;
* `LegendsNft.Tokens.FairInReach` — the shuffle can bring every record to every slot.

Main results:

* `LegendsNft.Tokens.Reaches.of_le` — **what is reached is reached with fewer slots**;
* `LegendsNft.Tokens.fairInReach_iff` — **the supplies whose shuffle is fair in reach**.
-/

import LegendsNft.Draws

set_option relaxedAutoImplicit false
set_option autoImplicit false

namespace LegendsNft

namespace Tokens

/-! ### The random numbers -/

/-- The pseudo random number after another one, as a natural number. -/
def nextNumber (x : ℕ) : ℕ := (x * 109 + 57) % 256 % 100

theorem nextNumber_lt (x : ℕ) : nextNumber x < 100 := Nat.mod_lt _ (by decide)

/-- The multiplier and the increment count modulo 256. -/
theorem toNat_prng (current : UInt8) : (prng current).toNat = nextNumber current.toNat := by
  have hall : ∀ x < 256, (prng (UInt8.ofNat x)).toNat = nextNumber x := by decide +kernel
  have hcurrent := hall current.toNat current.toNat_lt
  rwa [UInt8.ofNat_toNat] at hcurrent

/-! ### Where the records come from -/

/-- The slot that the record in slot `i` has come from, when `n` slots are shuffled from the random
number `x` on and none of them is minted. -/
def origins (x : ℕ) : ℕ → ℕ → ℕ
  | 0, i => i
  | 1, i => i
  | n + 2, i =>
      Equiv.swap (n + 1) (nextNumber x * (n + 2) / 100) (origins (nextNumber x) (n + 1) i)

/-- **The draws of unminted slots** bring the records from there. -/
theorem origin_draws {ledger : List (Option Token)} (randomNumber : UInt8) {n : ℕ}
    (h : ∀ i < n, ledger[i]? = some none) (i : ℕ) :
    Swaps.origin (draws ledger randomNumber n) i = origins randomNumber.toNat n i := by
  induction n generalizing randomNumber with
  | zero => rfl
  | succ n ih =>
      cases n with
      | zero => rfl
      | succ n =>
          have hrest := ih (prng randomNumber) fun j hj => h j (Nat.lt_succ_of_lt hj)
          rw [draws, h (n + 1) (Nat.lt_succ_self _)]
          simp only [Swaps.origin, Equiv.Perm.mul_apply, hrest, pick_eq, toNat_prng, origins]

/-- A record comes from one of the slots that are shuffled. -/
theorem origins_lt {x n i : ℕ} (hx : x < 256) (hi : i < n) : origins x n i < n := by
  have hempty : ∀ j < n, (List.replicate n (none : Option Token))[j]? = some none := by
    intro j hj
    rw [List.getElem?_replicate, if_pos hj]
  have hbyte : (UInt8.ofNat x).toNat = x := UInt8.toNat_ofNat_of_lt' hx
  have horigin := origin_draws (UInt8.ofNat x) hempty i
  rw [hbyte] at horigin
  rw [← horigin]
  exact Swaps.origin_lt (draws_descending _ _ n).1 hi

/-- Some byte brings the record of slot `j` to slot `i` when `n` slots are shuffled. -/
def Reaches (n i j : ℕ) : Prop := ∃ x < 256, origins x n i = j

/-- One round: a record that reaches a slot below the last one is not taken up in the first
round. -/
theorem Reaches.of_succ {n i j : ℕ} (h : Reaches (n + 1) i j) (hi : i < n) (hj : j < n) :
    Reaches n i j := by
  obtain ⟨x, hx, hreach⟩ := h
  cases n with
  | zero => cases hi
  | succ n =>
      have hnext : nextNumber x < 256 := (nextNumber_lt x).trans (by decide)
      have hlt : origins (nextNumber x) (n + 1) i < n + 1 := origins_lt hnext hi
      refine ⟨nextNumber x, hnext, ?_⟩
      rw [origins, Equiv.swap_apply_def, if_neg (Nat.ne_of_lt hlt)] at hreach
      split_ifs at hreach
      · -- the record drawn is in the last slot for good
        exact absurd hreach (Nat.ne_of_gt hj)
      · exact hreach

/-- **What is reached is reached with fewer slots**, as long as there are both slots. -/
theorem Reaches.of_le {m n i j : ℕ} (h : Reaches n i j) (hmn : m ≤ n) (hi : i < m) (hj : j < m) :
    Reaches m i j := by
  induction n, hmn using Nat.le_induction with
  | base => exact h
  | succ n hmn ih => exact ih (h.of_succ (by omega) (by omega))

/-- With twelve slots every record reaches every slot. -/
theorem reaches_twelve {i j : ℕ} (hi : i < 12) (hj : j < 12) : Reaches 12 i j := by
  have hall : ((List.range 12).all fun i => (List.range 12).all fun j =>
      (List.range 256).any fun x => origins x 12 i = j) = true := by decide +kernel
  have hany := List.all_eq_true.1 (List.all_eq_true.1 hall i (List.mem_range.2 hi)) j
    (List.mem_range.2 hj)
  obtain ⟨x, hx, hreach⟩ := List.any_eq_true.1 hany
  exact ⟨x, List.mem_range.1 hx, of_decide_eq_true hreach⟩

/-- With thirteen slots or more no byte brings the fifth record to the seventh slot. -/
theorem not_reaches {n : ℕ} (hn : 13 ≤ n) : ¬ Reaches n 6 4 := by
  have hall : ∀ x < 256, origins x 13 6 ≠ 4 := by decide +kernel
  intro h
  obtain ⟨x, hx, hreach⟩ := h.of_le hn (by decide) (by decide)
  exact hall x hx hreach

/-! ### The shuffle -/

/-- The shuffle is fair in reach: for every record and every slot there is a first byte of the seed
for which the record ends in the slot. -/
def FairInReach (t : Tokens) : Prop :=
  ∀ r ∈ t.metadata, ∀ s < t.metadata.length, ∃ b, ∀ seed, ∃ t',
    t.shuffleResume (b :: seed) = .ok t' ∧ t'.metadata[s]? = some r

/-- Where the records come from in a shuffle of unminted slots. -/
theorem shuffleResume_unminted {t : Tokens} (b : UInt8) (seed : Blob)
    (hlen : t.metadata.length = t.ledger.length) (hpos : 0 < t.ledger.length)
    (hempty : ∀ token ∈ t.ledger, token = none) :
    ∃ t', t.shuffleResume (b :: seed) = .ok t' ∧
      ∀ s, t'.metadata[s]? = t.metadata[origins b.toNat t.ledger.length s]? := by
  refine ⟨_, shuffleResume_eq b seed hlen hpos, ?_⟩
  intro s
  have hunminted : ∀ i < t.ledger.length, t.ledger[i]? = some none := by
    intro i hi
    rw [List.getElem?_eq_getElem hi, hempty _ (List.getElem_mem hi)]
  have hbelow : Swaps.Below t.metadata.length (draws t.ledger b t.ledger.length) :=
    hlen ▸ (draws_descending t.ledger b t.ledger.length).1
  rw [Swaps.getElem?_swapAll hbelow, origin_draws b hunminted]

/-- Where the records differ, the shuffle is fair in reach when every slot reaches every other. -/
theorem fairInReach_iff_reaches {t : Tokens} (hlen : t.metadata.length = t.ledger.length)
    (hempty : ∀ token ∈ t.ledger, token = none) (hnodup : t.metadata.Nodup) :
    FairInReach t ↔ ∀ i < t.ledger.length, ∀ j < t.ledger.length, Reaches t.ledger.length i j := by
  constructor
  · intro hfair i hi j hj
    have hj' : j < t.metadata.length := hlen ▸ hj
    obtain ⟨b, hb⟩ := hfair t.metadata[j] (List.getElem_mem hj') i (hlen ▸ hi)
    obtain ⟨t', hresume, hslot⟩ := hb []
    obtain ⟨t'', hresume', horigin⟩ := shuffleResume_unminted b [] hlen (by omega) hempty
    rw [hresume, Except.ok.injEq] at hresume'
    subst hresume'
    have hlt := origins_lt b.toNat_lt hi
    rw [horigin, ← List.getElem?_eq_getElem hj'] at hslot
    exact ⟨b.toNat, b.toNat_lt, (List.getElem?_inj (hlen ▸ hlt) hnodup).1 hslot⟩
  · intro hreach r hr s hs
    obtain ⟨j, hj, rfl⟩ := List.getElem_of_mem hr
    obtain ⟨x, hx, hxj⟩ := hreach s (hlen ▸ hs) j (hlen ▸ hj)
    refine ⟨UInt8.ofNat x, ?_⟩
    intro seed
    obtain ⟨t', hresume, horigin⟩ :=
      shuffleResume_unminted (UInt8.ofNat x) seed hlen (by omega) hempty
    refine ⟨t', hresume, ?_⟩
    have hbyte : (UInt8.ofNat x).toNat = x := UInt8.toNat_ofNat_of_lt' hx
    rw [horigin, hbyte, hxj, List.getElem?_eq_getElem hj]

/-- **The supplies whose shuffle is fair in reach**, when nothing is minted and the records differ:
those of up to twelve tokens. -/
theorem fairInReach_iff {t : Tokens} (hlen : t.metadata.length = t.ledger.length)
    (hempty : ∀ token ∈ t.ledger, token = none) (hnodup : t.metadata.Nodup) :
    FairInReach t ↔ t.ledger.length ≤ 12 := by
  rw [fairInReach_iff_reaches hlen hempty hnodup]
  constructor
  · intro hreach
    by_contra hlarge
    exact not_reaches (by omega) (hreach 6 (by omega) 4 (by omega))
  · intro hsmall i hi j hj
    exact (reaches_twelve (by omega) (by omega)).of_le hsmall hi hj

/-- An unminted supply whose legends differ in their backs. -/
def unminted (backs : List Text) (hlt : backs.length < 2 ^ 16) : Tokens where
  ledger := backs.map fun _ => none
  metadata := backs.map fun back => ⟨back, "round", "copper", "white", "", ""⟩
  isShuffled := false
  size_lt := by rwa [List.length_map]

/-- Three of them. -/
def threeUnminted : Tokens := unminted ["fate", "bordered", "worn"] (by decide)

theorem fairInReach_iff_sample : FairInReach threeUnminted :=
  (fairInReach_iff rfl (by decide) (by decide)).2 (by decide)

/-- And thirteen. -/
def thirteenUnminted : Tokens :=
  unminted ["a", "b", "c", "d", "e", "f", "g", "h", "i", "j", "k", "l", "m"] (by decide)

/-- **No seed brings the fifth of thirteen legends to the seventh slot**, though nothing is minted
and the legends differ. -/
theorem legend_excluded : thirteenUnminted.ledger.length = 13 ∧
    (∀ token ∈ thirteenUnminted.ledger, token = none) ∧ thirteenUnminted.metadata.Nodup ∧
    (∀ b seed t', thirteenUnminted.shuffleResume (b :: seed) = .ok t' →
      t'.metadata[6]? ≠ thirteenUnminted.metadata[4]?) ∧ ¬ FairInReach thirteenUnminted := by
  have hempty : ∀ token ∈ thirteenUnminted.ledger, token = none := by decide
  have hnodup : thirteenUnminted.metadata.Nodup := by decide
  refine ⟨rfl, hempty, hnodup, ?_, ?_⟩
  · intro b seed t' hresume hslot
    obtain ⟨t'', hresume', horigin⟩ := shuffleResume_unminted b seed rfl (by decide) hempty
    rw [hresume, Except.ok.injEq] at hresume'
    subst hresume'
    rw [horigin] at hslot
    have hlt := origins_lt b.toNat_lt (by decide : 6 < 13)
    exact not_reaches (le_refl 13)
      ⟨b.toNat, b.toNat_lt, (List.getElem?_inj hlt hnodup).1 hslot⟩
  · rw [fairInReach_iff_reaches rfl hempty hnodup]
    intro hreach
    exact not_reaches (le_refl 13) (hreach 6 (by decide) 4 (by decide))

end Tokens

end LegendsNft
