/-
**Fixed-width arithmetic that traps.**

Unsigned 64-bit addition, subtraction and multiplication that fail instead of wrapping around, as
`Option`-valued functions, with the one lemma each of them needs: it returns `c` exactly when the
same equation holds between natural numbers.

Main results:

* `Checked.add_eq_some`, `Checked.sub_eq_some`, `Checked.mul_eq_some`, `Checked.ofNat_eq_some` —
  when an operation succeeds, and with what;
* `Checked.add_eq_none` — when an addition fails;
* `Checked.sum_shares_le` — shares rounded down never exceed the amount they are taken of.
-/

import Mathlib.Data.UInt

set_option relaxedAutoImplicit false
set_option autoImplicit false

namespace Checked

/-- A natural number as a 64-bit one, if it fits. -/
def ofNat (n : ℕ) : Option UInt64 := if n < 2 ^ 64 then some (UInt64.ofNat n) else none

/-- Addition, failing on overflow. -/
def add (a b : UInt64) : Option UInt64 := ofNat (a.toNat + b.toNat)

/-- Subtraction, failing on underflow. -/
def sub (a b : UInt64) : Option UInt64 := if b ≤ a then some (a - b) else none

/-- Multiplication, failing on overflow. -/
def mul (a b : UInt64) : Option UInt64 := ofNat (a.toNat * b.toNat)

theorem toNat_lt (a : UInt64) : a.toNat < 2 ^ 64 := a.toNat_lt

theorem toNat_ofNat {n : ℕ} (h : n < 2 ^ 64) : (UInt64.ofNat n).toNat = n :=
  UInt64.toNat_ofNat_of_lt' h

theorem ofNat_eq_some {n : ℕ} {c : UInt64} : ofNat n = some c ↔ c.toNat = n := by
  unfold ofNat
  constructor
  · intro h
    split at h
    · rename_i hn
      rw [Option.some_inj] at h
      rw [← h, toNat_ofNat hn]
    · simp at h
  · rintro rfl
    rw [if_pos (toNat_lt c), UInt64.ofNat_toNat]

theorem ofNat_eq_none {n : ℕ} : ofNat n = none ↔ 2 ^ 64 ≤ n := by
  simp [ofNat]

theorem add_eq_some {a b c : UInt64} : add a b = some c ↔ c.toNat = a.toNat + b.toNat :=
  ofNat_eq_some

theorem add_eq_none {a b : UInt64} : add a b = none ↔ 2 ^ 64 ≤ a.toNat + b.toNat :=
  ofNat_eq_none

theorem mul_eq_some {a b c : UInt64} : mul a b = some c ↔ c.toNat = a.toNat * b.toNat :=
  ofNat_eq_some

theorem sub_eq_some {a b c : UInt64} : sub a b = some c ↔ c.toNat + b.toNat = a.toNat := by
  unfold sub
  constructor
  · intro h
    split at h
    · rename_i hle
      rw [Option.some_inj] at h
      rw [← h, UInt64.toNat_sub_of_le _ _ hle]
      have := UInt64.le_iff_toNat_le.1 hle
      omega
    · simp at h
  · intro h
    have hle : b ≤ a := UInt64.le_iff_toNat_le.2 (by omega)
    rw [if_pos hle, Option.some_inj]
    apply UInt64.toNat_inj.1
    rw [UInt64.toNat_sub_of_le _ _ hle]
    omega

/-! ### Shares rounded down -/

/-- The scaled shares of `f` are at most `f` times the sum of the parts. -/
theorem mul_sum_shares_le (f d : ℕ) (ps : List ℕ) :
    d * (ps.map fun p => f * p / d).sum ≤ f * ps.sum := by
  induction ps with
  | nil => simp
  | cons p ps ih =>
      rw [List.map_cons, List.sum_cons, List.sum_cons, Nat.mul_add, Nat.mul_add]
      exact Nat.add_le_add (Nat.mul_div_le (f * p) d) ih

/-- **Shares rounded down never exceed the amount**, when the parts do not exceed the whole. -/
theorem sum_shares_le (f : ℕ) {d : ℕ} {ps : List ℕ} (hd : 0 < d) (h : ps.sum ≤ d) :
    (ps.map fun p => f * p / d).sum ≤ f := by
  refine Nat.le_of_mul_le_mul_left ?_ hd
  calc d * (ps.map fun p => f * p / d).sum ≤ f * ps.sum := mul_sum_shares_le f d ps
    _ ≤ f * d := Nat.mul_le_mul_left f h
    _ = d * f := Nat.mul_comm f d

end Checked
