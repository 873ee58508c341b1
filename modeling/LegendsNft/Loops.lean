/-
**Loops that may fail.**

A loop over an interval of natural numbers whose body may fail, or an array tabulated by a function
that may fail, is a fold in the exception monad.  What is proved of one is an invariant: it holds
at first, and a pass whose start satisfies it does not fail and leaves it satisfied.

Main definitions:

* `Loops.interval` — the numbers from one up to an integer, both included.

Main results:

* `Loops.foldlM_range'`, `Loops.foldlM_interval` — **the rule of a loop with an invariant**;
* `Loops.mapM_eq_ok` — a tabulation none of whose entries fails.
-/

import Mathlib.Data.Int.Notation
import Mathlib.Data.List.Basic

set_option relaxedAutoImplicit false
set_option autoImplicit false

universe u v w

namespace Loops

variable {ε : Type u} {σ : Type v} {α : Type w}

/-- The numbers from `first` up to `last`, both included; none if `last` is below `first`. -/
def interval (first : ℕ) (last : ℤ) : List ℕ := List.range' first (last + 1 - first).toNat

theorem interval_zero (last : ℕ) : interval 0 last = List.range (last + 1) := by
  have hsize : ((last : ℤ) + 1 - (0 : ℕ)).toNat = last + 1 := by omega
  rw [interval, hsize, List.range_eq_range']

/-- **The rule of a loop**: an invariant that no pass fails to keep holds at the end, and the loop
does not fail. -/
theorem foldlM_range' {P : ℕ → σ → Prop} {f : σ → ℕ → Except ε σ} {first n : ℕ} {s : σ}
    (h : P first s)
    (hstep : ∀ i s, first ≤ i → i < first + n → P i s → ∃ s', f s i = .ok s' ∧ P (i + 1) s') :
    ∃ s', (List.range' first n).foldlM f s = .ok s' ∧ P (first + n) s' := by
  induction n generalizing first s with
  | zero => exact ⟨s, rfl, h⟩
  | succ n ih =>
      obtain ⟨s₁, hs₁, h₁⟩ := hstep first s (Nat.le_refl _) (by omega) h
      obtain ⟨s', hs', h'⟩ := ih h₁ fun i s hi hlt => hstep i s (by omega) (by omega)
      refine ⟨s', ?_, by rwa [Nat.add_right_comm] at h'⟩
      rw [List.range'_succ, List.foldlM_cons, hs₁]
      exact hs'

/-- The rule for a loop over an interval. -/
theorem foldlM_interval {P : ℕ → σ → Prop} {f : σ → ℕ → Except ε σ} (first : ℕ) (last : ℤ) (s : σ)
    (hle : first ≤ last + 1) (h : P first s)
    (hstep : ∀ i s, first ≤ i → i ≤ last → P i s → ∃ s', f s i = .ok s' ∧ P (i + 1) s') :
    ∃ s', (interval first last).foldlM f s = .ok s' ∧ P (last + 1).toNat s' := by
  obtain ⟨s', hs', h'⟩ := foldlM_range' (n := (last + 1 - first).toNat) h
    fun i s hi hlt => hstep i s hi (by omega)
  have hend : first + (last + 1 - first).toNat = (last + 1).toNat := by omega
  rw [hend] at h'
  exact ⟨s', hs', h'⟩

/-- A tabulation none of whose entries fails. -/
theorem mapM_eq_ok {f : ℕ → Except ε α} {g : ℕ → α} {l : List ℕ} (h : ∀ i ∈ l, f i = .ok (g i)) :
    l.mapM f = .ok (l.map g) := by
  induction l with
  | nil => rfl
  | cons i l ih =>
      have hrest := ih fun j hj => h j (List.mem_cons_of_mem i hj)
      rw [List.mapM_cons, h i List.mem_cons_self, hrest]
      rfl

end Loops
