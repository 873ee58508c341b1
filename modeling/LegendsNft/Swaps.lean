/-
**Lists under sequences of exchanges.**

A sequence of exchanges of two entries permutes a list, and the permutation does not depend on the
entries: what is found at a position afterwards was at its *origin* before.  In a descending
sequence, as that of a Fisher–Yates shuffle, an exchange at a position comes after all those at
higher positions; there a position that is not exchanged itself keeps its entry, whatever the
entries are, exactly when no exchange picks it.

Main definitions:

* `Swaps.swap`, `Swaps.swapAll` — one exchange, and a sequence of them;
* `Swaps.origin` — where the entry at a position has come from;
* `Swaps.Descending` — the exchanges go down the list.

Main results:

* `Swaps.swapAll_perm` — exchanges permute the list;
* `Swaps.getElem?_swapAll` — **the entries after the exchanges**, by their origin;
* `Swaps.Descending.origin_eq_self_iff` — **the positions that keep their entry**.
-/

import Mathlib.Algebra.Group.End
import Mathlib.Data.List.Perm.Basic
import Mathlib.Logic.Equiv.Basic

set_option relaxedAutoImplicit false
set_option autoImplicit false

universe u

namespace Swaps

variable {α : Type u}

/-- The list with two entries exchanged; a position outside the list leaves it alone. -/
def swap (l : List α) (p : ℕ × ℕ) : List α :=
  match l[p.1]?, l[p.2]? with
  | some x, some y => (l.set p.1 y).set p.2 x
  | _, _ => l

/-- The list after a sequence of exchanges. -/
def swapAll (l : List α) (ps : List (ℕ × ℕ)) : List α := ps.foldl swap l

/-- The position that the entry at a position has come from. -/
def origin : List (ℕ × ℕ) → Equiv.Perm ℕ
  | [] => 1
  | p :: ps => Equiv.swap p.1 p.2 * origin ps

/-- Both positions of every exchange lie below a bound. -/
def Below (n : ℕ) (ps : List (ℕ × ℕ)) : Prop := ∀ p ∈ ps, p.1 < n ∧ p.2 < n

theorem Below.mono {n m : ℕ} {ps : List (ℕ × ℕ)} (h : Below n ps) (hnm : n ≤ m) : Below m ps :=
  fun p hp => ⟨Nat.lt_of_lt_of_le (h p hp).1 hnm, Nat.lt_of_lt_of_le (h p hp).2 hnm⟩

/-! ### One exchange -/

theorem swap_of_lt {l : List α} {p : ℕ × ℕ} (h₁ : p.1 < l.length) (h₂ : p.2 < l.length) :
    swap l p = (l.set p.1 l[p.2]).set p.2 l[p.1] := by
  rw [swap, List.getElem?_eq_getElem h₁, List.getElem?_eq_getElem h₂]

theorem swap_perm (l : List α) (p : ℕ × ℕ) : (swap l p).Perm l := by
  by_cases h : p.1 < l.length ∧ p.2 < l.length
  · rw [swap_of_lt h.1 h.2]
    exact List.set_set_perm h.1 h.2
  · rw [swap]
    split
    · rename_i h₁ h₂
      exact absurd ⟨(List.getElem?_eq_some_iff.1 h₁).1, (List.getElem?_eq_some_iff.1 h₂).1⟩ h
    · exact List.Perm.refl l

theorem getElem?_swap {l : List α} {p : ℕ × ℕ} (h₁ : p.1 < l.length) (h₂ : p.2 < l.length)
    (i : ℕ) : (swap l p)[i]? = l[Equiv.swap p.1 p.2 i]? := by
  rw [swap_of_lt h₁ h₂]
  by_cases hi₂ : i = p.2
  · subst hi₂
    rw [Equiv.swap_apply_right, List.getElem?_set_self (by simpa using h₂),
      List.getElem?_eq_getElem h₁]
  · rw [List.getElem?_set_ne (Ne.symm hi₂)]
    by_cases hi₁ : i = p.1
    · subst hi₁
      rw [Equiv.swap_apply_left, List.getElem?_set_self h₁, List.getElem?_eq_getElem h₂]
    · rw [List.getElem?_set_ne (Ne.symm hi₁), Equiv.swap_apply_of_ne_of_ne hi₁ hi₂]

/-! ### Sequences of exchanges -/

theorem swapAll_perm (l : List α) (ps : List (ℕ × ℕ)) : (swapAll l ps).Perm l := by
  induction ps generalizing l with
  | nil => exact List.Perm.refl l
  | cons p ps ih => exact (ih (swap l p)).trans (swap_perm l p)

/-- **The entries after the exchanges.** -/
theorem getElem?_swapAll {l : List α} {ps : List (ℕ × ℕ)} (h : Below l.length ps) (i : ℕ) :
    (swapAll l ps)[i]? = l[origin ps i]? := by
  induction ps generalizing l with
  | nil => rfl
  | cons p ps ih =>
      obtain ⟨h₁, h₂⟩ := h p (List.mem_cons_self ..)
      have hlen : (swap l p).length = l.length := (swap_perm l p).length_eq
      have htail : Below (swap l p).length ps := by
        rw [hlen]
        exact fun q hq => h q (List.mem_cons_of_mem p hq)
      rw [swapAll, List.foldl_cons, ← swapAll, ih htail, getElem?_swap h₁ h₂]
      rfl

/-- Exchanges below a bound move no entry across it. -/
theorem origin_lt {n : ℕ} {ps : List (ℕ × ℕ)} (h : Below n ps) {i : ℕ} (hi : i < n) :
    origin ps i < n := by
  induction ps with
  | nil => exact hi
  | cons p ps ih =>
      have hrest := ih fun q hq => h q (List.mem_cons_of_mem p hq)
      obtain ⟨h₁, h₂⟩ := h p (List.mem_cons_self ..)
      rw [origin, Equiv.Perm.mul_apply, Equiv.swap_apply_def]
      split_ifs
      · exact h₂
      · exact h₁
      · exact hrest

/-! ### Descending sequences -/

/-- Each exchange picks a position at or below its own, and those after it are below its own. -/
structure Descending (ps : List (ℕ × ℕ)) : Prop where
  le : ∀ p ∈ ps, p.2 ≤ p.1
  pairwise : ps.Pairwise fun p q => q.1 < p.1

theorem Descending.cons {p : ℕ × ℕ} {ps : List (ℕ × ℕ)} (h : Descending ps) (hle : p.2 ≤ p.1)
    (hbelow : Below p.1 ps) : Descending (p :: ps) where
  le := by
    intro q hq
    rcases List.mem_cons.1 hq with rfl | hq
    · exact hle
    · exact h.le q hq
  pairwise := List.pairwise_cons.2 ⟨fun q hq => (hbelow q hq).1, h.pairwise⟩

theorem Descending.tail {p : ℕ × ℕ} {ps : List (ℕ × ℕ)} (h : Descending (p :: ps)) :
    Descending ps ∧ Below p.1 ps := by
  obtain ⟨hlt, hpairwise⟩ := List.pairwise_cons.1 h.pairwise
  refine ⟨⟨fun q hq => h.le q (List.mem_cons_of_mem p hq), hpairwise⟩, ?_⟩
  intro q hq
  exact ⟨hlt q hq, Nat.lt_of_le_of_lt (h.le q (List.mem_cons_of_mem p hq)) (hlt q hq)⟩

/-- **A position that is not exchanged itself keeps its entry** exactly when no exchange picks
it. -/
theorem Descending.origin_eq_self_iff {ps : List (ℕ × ℕ)} (h : Descending ps) {i : ℕ}
    (hi : ∀ p ∈ ps, p.1 ≠ i) : origin ps i = i ↔ ∀ p ∈ ps, p.2 ≠ i := by
  induction ps with
  | nil => simp [origin]
  | cons p ps ih =>
      obtain ⟨htail, hbelow⟩ := h.tail
      have hrest := ih htail fun q hq => hi q (List.mem_cons_of_mem p hq)
      have hp : p.1 ≠ i := hi p (List.mem_cons_self ..)
      rw [origin, Equiv.Perm.mul_apply, List.forall_mem_cons, ← hrest, Equiv.swap_apply_eq_iff]
      by_cases hpick : p.2 = i
      · -- the exchange takes the entry up, and no later one reaches it there
        have hlt : i < p.1 := by
          have hle := h.le p (List.mem_cons_self ..)
          omega
        have hne : origin ps i ≠ p.1 := Nat.ne_of_lt (origin_lt hbelow hlt)
        simp [hpick, hne]
      · rw [Equiv.swap_apply_of_ne_of_ne hp.symm fun h => hpick h.symm]
        simp [hpick]

end Swaps
