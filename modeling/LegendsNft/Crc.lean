/-
**Cyclic redundancy checks as remainders of polynomials.**

Words and messages are read as polynomials over the field of two elements, the first bit being the
coefficient of the highest power; of a word, and of each byte of a message, the lowest bit comes
first.  One shift of a register multiplies it by the indeterminate, modulo a generator of one degree
more than the register has bits; so a register that takes a byte at a time, by a table of eight
shifts, computes a remainder.

Two messages of one length have one remainder exactly when the generator divides their sum.  It
divides no nonzero polynomial of smaller degree, nor, its constant coefficient being one, any power
of the indeterminate times such a polynomial: an error within a window of the width of the register
is always detected.

Main definitions:

* `Crc.ofBits`, `Crc.bits` — bits as a polynomial, and the bits of a word;
* `Crc.generator`, `Crc.shift` — the generator of a register, and one shift;
* `Crc.byte`, `Crc.run` — a byte at a time.

Main results:

* `Crc.mk_shift`, `Crc.mk_byte` — **a shift and a byte**, modulo the generator;
* `Crc.ofBits_run` — **the remainder of a message**;
* `Crc.run_eq_iff_dvd` — the errors that are not detected;
* `Crc.run_ne_of_burst` — **bursts are detected**.
-/

import Mathlib.Algebra.CharP.Two
import Mathlib.Algebra.Field.ZMod
import Mathlib.RingTheory.AdjoinRoot

set_option relaxedAutoImplicit false
set_option autoImplicit false

namespace Crc

open Polynomial

/-! ### Bits as polynomials -/

/-- The polynomial of some bits, the first bit being the coefficient of the highest power. -/
noncomputable def ofBits : List Bool → (ZMod 2)[X]
  | [] => 0
  | b :: bits => (if b then X ^ bits.length else 0) + ofBits bits

theorem ofBits_append (l l' : List Bool) :
    ofBits (l ++ l') = X ^ l'.length * ofBits l + ofBits l' := by
  induction l with
  | nil => simp [ofBits]
  | cons b l ih =>
      rw [List.cons_append, ofBits, ih, ofBits, List.length_append]
      cases b
      · simp
      · simp only [if_true, pow_add]
        ring

@[simp] theorem ofBits_replicate_false (n : ℕ) : ofBits (List.replicate n false) = 0 := by
  induction n with
  | zero => rfl
  | succ n ih => simp [List.replicate_succ, ofBits, ih]

theorem degree_ofBits_lt (l : List Bool) : (ofBits l).degree < l.length := by
  induction l with
  | nil => simp [ofBits]
  | cons b l ih =>
      have hlt : (l.length : WithBot ℕ) < (l.length + 1 : ℕ) := by exact_mod_cast Nat.lt_succ_self _
      rw [ofBits, List.length_cons]
      refine lt_of_le_of_lt (degree_add_le _ _) (max_lt ?_ (ih.trans hlt))
      cases b
      · simp
      · rw [if_pos rfl, degree_X_pow]
        exact hlt

/-- Exclusive or is addition. -/
theorem ofBits_zipWith_xor {l l' : List Bool} (h : l.length = l'.length) :
    ofBits (List.zipWith xor l l') = ofBits l + ofBits l' := by
  induction l generalizing l' with
  | nil =>
      obtain rfl : l' = [] := List.length_eq_zero_iff.1 h.symm
      simp [ofBits]
  | cons b l ih =>
      cases l' with
      | nil => simp at h
      | cons b' l' =>
          have hlen : l.length = l'.length := by simpa using h
          have hself : ∀ p : (ZMod 2)[X], p + p = 0 := fun p => CharTwo.add_self_eq_zero p
          rw [List.zipWith_cons_cons, ofBits, ofBits, ofBits, ih hlen, List.length_zipWith, ← hlen,
            Nat.min_self]
          -- the powers of the first bits cancel when both bits are set
          cases b <;> cases b' <;> simp only [Bool.xor_false, Bool.xor_true, Bool.not_false,
            Bool.not_true, if_true, Bool.false_eq_true, if_false]
          · ring
          · ring
          · ring
          · linear_combination -hself (X ^ l.length)

/-- Bits are told by their polynomial. -/
theorem eq_of_ofBits_eq {l l' : List Bool} (h : l.length = l'.length) (heq : ofBits l = ofBits l') :
    l = l' := by
  induction l generalizing l' with
  | nil => exact (List.length_eq_zero_iff.1 h.symm).symm
  | cons b l ih =>
      cases l' with
      | nil => simp at h
      | cons b' l' =>
          have hlen : l.length = l'.length := by simpa using h
          -- the first bits are the coefficients of the highest power
          have hcoeff := congrArg (fun p => coeff p l.length) heq
          have hl := coeff_eq_zero_of_degree_lt (degree_ofBits_lt l)
          have hl' := coeff_eq_zero_of_degree_lt (degree_ofBits_lt l')
          rw [← hlen] at hl'
          have hb : b = b' := by
            have hone : (0 : ZMod 2) ≠ 1 := by decide
            cases b <;> cases b' <;> simp [ofBits, hl, hl', ← hlen, hone, hone.symm] at hcoeff ⊢
          subst hb
          rw [ofBits, ofBits, ← hlen] at heq
          rw [ih hlen (add_left_cancel heq)]

/-! ### Words -/

variable {w : ℕ}

/-- The bits of a word, the lowest first. -/
def bits (x : BitVec w) : List Bool := (List.range w).map x.getLsbD

@[simp] theorem length_bits (x : BitVec w) : (bits x).length = w := by simp [bits]

theorem getElem_bits (x : BitVec w) (i : ℕ) (h : i < (bits x).length) :
    (bits x)[i] = x.getLsbD i := by
  simp [bits]

theorem eq_of_bits_eq {x y : BitVec w} (h : bits x = bits y) : x = y := by
  refine BitVec.eq_of_getLsbD_eq fun i hi => ?_
  have hx : i < (bits x).length := by simpa using hi
  have hy : i < (bits y).length := by simpa using hi
  rw [← getElem_bits x i hx, ← getElem_bits y i hy]
  simp only [h]

theorem bits_xor (x y : BitVec w) : bits (x ^^^ y) = List.zipWith xor (bits x) (bits y) := by
  refine List.ext_getElem (by simp) ?_
  intro i h₁ h₂
  rw [List.getElem_zipWith, getElem_bits, getElem_bits, getElem_bits, BitVec.getLsbD_xor]

/-- A shift drops the lowest bits. -/
theorem bits_ushiftRight (x : BitVec w) {k : ℕ} (h : k ≤ w) :
    bits (x >>> k) = (bits x).drop k ++ List.replicate k false := by
  refine List.ext_getElem (by simp [h]) ?_
  intro i h₁ h₂
  have hi : i < w := by simpa using h₁
  rw [getElem_bits, BitVec.getLsbD_ushiftRight]
  by_cases hk : k + i < w
  · rw [List.getElem_append_left (by simp; omega), List.getElem_drop, getElem_bits]
  · rw [List.getElem_append_right (by simp; omega), List.getElem_replicate,
      BitVec.getLsbD_of_ge _ _ (by omega)]

/-- A wider word has more bits at its end. -/
theorem bits_setWidth {n : ℕ} (x : BitVec n) (h : n ≤ w) :
    bits (x.setWidth w) = bits x ++ List.replicate (w - n) false := by
  refine List.ext_getElem (by simp [h]) ?_
  intro i h₁ h₂
  have hi : i < w := by simpa using h₁
  rw [getElem_bits, BitVec.getLsbD_setWidth]
  by_cases hn : i < n
  · rw [List.getElem_append_left (by simpa using hn), getElem_bits]
    simp [hi]
  · rw [List.getElem_append_right (by simp; omega), List.getElem_replicate,
      BitVec.getLsbD_of_ge _ _ (by omega)]
    simp

/-- The bits of the lower part of a word. -/
theorem bits_setWidth_le (x : BitVec w) {n : ℕ} (h : n ≤ w) :
    bits (x.setWidth n) = (bits x).take n := by
  refine List.ext_getElem (by simp [h]) ?_
  intro i h₁ h₂
  have hi : i < n := by simpa using h₁
  rw [getElem_bits, BitVec.getLsbD_setWidth, List.getElem_take, getElem_bits]
  simp [hi]

theorem ofBits_xor (x y : BitVec w) :
    ofBits (bits (x ^^^ y)) = ofBits (bits x) + ofBits (bits y) := by
  rw [bits_xor, ofBits_zipWith_xor (by simp)]

/-! ### The register -/

/-- One shift of the register. -/
def shift (poly c : BitVec w) : BitVec w :=
  if c.getLsbD 0 then (c >>> 1) ^^^ poly else c >>> 1

/-- Several shifts of the register. -/
def shifts (poly : BitVec w) : ℕ → BitVec w → BitVec w
  | 0, c => c
  | n + 1, c => shifts poly n (shift poly c)

/-- A byte: the register is shifted by eight bits, and what falls out selects from a table. -/
def byte (poly : BitVec w) (c : BitVec w) (b : BitVec 8) : BitVec w :=
  shifts poly 8 (((c ^^^ b.setWidth w).setWidth 8).setWidth w) ^^^ (c >>> 8)

/-- The register after some bytes. -/
def run (poly : BitVec w) (c : BitVec w) (bytes : List (BitVec 8)) : BitVec w :=
  bytes.foldl (byte poly) c

/-- The bits of a message. -/
def message (bytes : List (BitVec 8)) : List Bool := bytes.flatMap bits

theorem length_message (bytes : List (BitVec 8)) : (message bytes).length = 8 * bytes.length := by
  induction bytes with
  | nil => rfl
  | cons b bytes ih =>
      rw [message, List.flatMap_cons, List.length_append, length_bits, List.length_cons]
      rw [message] at ih
      omega

/-- **The generator** of a register. -/
noncomputable def generator (poly : BitVec w) : (ZMod 2)[X] := X ^ w + ofBits (bits poly)

variable {poly : BitVec w}

theorem degree_ofBits_bits_lt (x : BitVec w) : (ofBits (bits x)).degree < w := by
  simpa using degree_ofBits_lt (bits x)

theorem monic_generator : (generator poly).Monic := monic_X_pow_add (degree_ofBits_bits_lt poly)

theorem degree_generator : (generator poly).degree = w := by
  rw [generator, degree_add_eq_left_of_degree_lt, degree_X_pow]
  rw [degree_X_pow]
  exact degree_ofBits_bits_lt poly

/-- **One shift** multiplies by the indeterminate. -/
theorem ofBits_shift (hw : 0 < w) (c : BitVec w) :
    ofBits (bits (shift poly c)) =
      X * ofBits (bits c) + if c.getLsbD 0 then generator poly else 0 := by
  obtain ⟨n, rfl⟩ : ∃ n, w = n + 1 := ⟨w - 1, by omega⟩
  have hcons : bits c = c.getLsbD 0 :: (bits c).drop 1 := by
    have hpos : 0 < (bits c).length := by simp
    rw [← getElem_bits c 0 hpos, List.getElem_cons_drop]
    rfl
  have hlen : ((bits c).drop 1).length = n := by simp
  have hshift : ofBits (bits (c >>> 1)) = X * ofBits ((bits c).drop 1) := by
    rw [bits_ushiftRight c (by omega), ofBits_append, ofBits_replicate_false]
    simp
  have hself : (X : (ZMod 2)[X]) ^ (n + 1) + X ^ (n + 1) = 0 := CharTwo.add_self_eq_zero _
  rw [shift]
  conv_rhs => rw [hcons, ofBits, hlen]
  cases hb : c.getLsbD 0
  · simpa using hshift
  · simp only [if_true, ofBits_xor, hshift, generator]
    linear_combination -hself

/-- **One shift**, modulo the generator. -/
theorem mk_shift (hw : 0 < w) (c : BitVec w) :
    AdjoinRoot.mk (generator poly) (ofBits (bits (shift poly c))) =
      AdjoinRoot.mk (generator poly) (X * ofBits (bits c)) := by
  rw [AdjoinRoot.mk_eq_mk, ofBits_shift hw]
  split_ifs
  · simp
  · simp

theorem mk_shifts (hw : 0 < w) (n : ℕ) (c : BitVec w) :
    AdjoinRoot.mk (generator poly) (ofBits (bits (shifts poly n c))) =
      AdjoinRoot.mk (generator poly) (X ^ n * ofBits (bits c)) := by
  induction n generalizing c with
  | zero => simp [shifts]
  | succ n ih => rw [shifts, ih, map_mul, mk_shift hw, ← map_mul, pow_succ, mul_assoc]

/-- **A byte**, modulo the generator: the register and the byte move eight places up. -/
theorem mk_byte (hw : 8 ≤ w) (c : BitVec w) (b : BitVec 8) :
    AdjoinRoot.mk (generator poly) (ofBits (bits (byte poly c b))) =
      AdjoinRoot.mk (generator poly) (X ^ 8 * ofBits (bits c) + X ^ w * ofBits (bits b)) := by
  obtain ⟨x, hx⟩ : ∃ x, x = c ^^^ b.setWidth w := ⟨_, rfl⟩
  have hpow : (X : (ZMod 2)[X]) ^ 8 * X ^ (w - 8) = X ^ w := by
    rw [← pow_add, Nat.add_sub_cancel' hw]
  -- what falls out of the register, and what stays
  have hhigh : c >>> 8 = x >>> 8 := by
    have hzero : (b.setWidth w) >>> 8 = 0#w := by
      refine BitVec.eq_of_getLsbD_eq fun i _ => ?_
      simp
    rw [hx, BitVec.ushiftRight_xor_distrib, hzero, BitVec.xor_zero]
  have hlow : ofBits (bits ((x.setWidth 8).setWidth w)) =
      X ^ (w - 8) * ofBits ((bits x).take 8) := by
    rw [bits_setWidth _ hw, bits_setWidth_le _ hw, ofBits_append, ofBits_replicate_false]
    simp
  have hrest : ofBits (bits (x >>> 8)) = X ^ 8 * ofBits ((bits x).drop 8) := by
    rw [bits_ushiftRight x hw, ofBits_append, ofBits_replicate_false]
    simp
  have hsplit : ofBits (bits x) = X ^ (w - 8) * ofBits ((bits x).take 8) +
      ofBits ((bits x).drop 8) := by
    conv_lhs => rw [← List.take_append_drop 8 (bits x)]
    rw [ofBits_append]
    simp
  have hsum : ofBits (bits x) = ofBits (bits c) + X ^ (w - 8) * ofBits (bits b) := by
    rw [hx, ofBits_xor, bits_setWidth b hw, ofBits_append, ofBits_replicate_false]
    simp
  rw [byte, ← hx, hhigh, ofBits_xor, map_add, mk_shifts (by omega), ← map_add, hlow, hrest,
    ← mul_add, ← hsplit, hsum, mul_add, ← mul_assoc, hpow]

theorem mk_run (hw : 8 ≤ w) (c : BitVec w) (bytes : List (BitVec 8)) :
    AdjoinRoot.mk (generator poly) (ofBits (bits (run poly c bytes))) =
      AdjoinRoot.mk (generator poly)
        (X ^ (8 * bytes.length) * ofBits (bits c) + X ^ w * ofBits (message bytes)) := by
  induction bytes generalizing c with
  | nil => simp [run, message, ofBits]
  | cons b bytes ih =>
      have hmessage : ofBits (message (b :: bytes)) =
          X ^ (8 * bytes.length) * ofBits (bits b) + ofBits (message bytes) := by
        rw [← length_message, ← ofBits_append]
        rfl
      have hstep : run poly c (b :: bytes) = run poly (byte poly c b) bytes := rfl
      have hplaces : X ^ (8 * bytes.length) * (X ^ 8 * ofBits (bits c) + X ^ w * ofBits (bits b)) +
          X ^ w * ofBits (message bytes) =
          X ^ (8 * (bytes.length + 1)) * ofBits (bits c) +
            X ^ w * (X ^ (8 * bytes.length) * ofBits (bits b) + ofBits (message bytes)) := by
        rw [Nat.mul_succ, pow_add]
        ring
      rw [hstep, ih, map_add, map_mul, mk_byte hw, ← map_mul, ← map_add, hmessage, List.length_cons,
        hplaces]

/-- **The remainder of a message**: the register, read as a polynomial, is the remainder of what it
held at first and of the message, each moved up by what comes after it. -/
theorem ofBits_run (hw : 8 ≤ w) (c : BitVec w) (bytes : List (BitVec 8)) :
    ofBits (bits (run poly c bytes)) =
      (X ^ (8 * bytes.length) * ofBits (bits c) + X ^ w * ofBits (message bytes)) %ₘ
        generator poly := by
  have hdvd := AdjoinRoot.mk_eq_mk.1 (@mk_run w poly hw c bytes)
  have hdeg : (ofBits (bits (run poly c bytes))).degree < (generator poly).degree := by
    rw [degree_generator]
    exact degree_ofBits_bits_lt _
  rw [← modByMonic_eq_zero_iff_dvd monic_generator, sub_modByMonic, sub_eq_zero,
    (modByMonic_eq_self_iff monic_generator).2 hdeg] at hdvd
  exact hdvd

/-! ### Errors -/

/-- The generator has no factor in common with the indeterminate. -/
theorem isCoprime_generator_X (hw : 0 < w) (hmsb : poly.getLsbD (w - 1) = true) :
    IsCoprime (generator poly) X := by
  obtain ⟨n, rfl⟩ : ∃ n, w = n + 1 := ⟨w - 1, by omega⟩
  -- the constant coefficient of the generator is one
  obtain ⟨q, hq⟩ : ∃ q, generator poly = q * X + 1 := by
    have hbits : bits poly = (bits poly).take n ++ [true] := by
      conv_lhs => rw [← List.take_append_drop n (bits poly)]
      rw [List.drop_eq_getElem_cons (by simp), getElem_bits]
      simp at hmsb
      simp [hmsb]
    refine ⟨X ^ n + ofBits ((bits poly).take n), ?_⟩
    rw [generator]
    conv_lhs => rw [hbits, ofBits_append]
    simp [ofBits, pow_succ]
    ring
  refine ⟨1, -q, ?_⟩
  rw [hq]
  ring

/-- **The errors that are not detected** are the multiples of the generator. -/
theorem run_eq_iff_dvd (hw : 8 ≤ w) (hmsb : poly.getLsbD (w - 1) = true) (c : BitVec w)
    {bytes bytes' : List (BitVec 8)} (hlen : bytes.length = bytes'.length) :
    run poly c bytes = run poly c bytes' ↔
      generator poly ∣ ofBits (message bytes) - ofBits (message bytes') := by
  have hcop : IsCoprime (generator poly) (X ^ w) :=
    (isCoprime_generator_X (by omega) hmsb).pow_right
  have hiff : run poly c bytes = run poly c bytes' ↔
      ofBits (bits (run poly c bytes)) = ofBits (bits (run poly c bytes')) :=
    ⟨fun h => by rw [h], fun h => eq_of_bits_eq (eq_of_ofBits_eq (by simp) h)⟩
  have hsub : X ^ (8 * bytes.length) * ofBits (bits c) + X ^ w * ofBits (message bytes) -
      (X ^ (8 * bytes'.length) * ofBits (bits c) + X ^ w * ofBits (message bytes')) =
      X ^ w * (ofBits (message bytes) - ofBits (message bytes')) := by
    rw [hlen]
    ring
  rw [hiff, ofBits_run hw, ofBits_run hw, ← sub_eq_zero, ← sub_modByMonic,
    modByMonic_eq_zero_iff_dvd monic_generator, hsub]
  exact ⟨hcop.dvd_of_dvd_mul_left, fun h => Dvd.dvd.mul_left h _⟩

/-- **Bursts are detected**: two messages that differ, but only within a window of the width of the
register, leave different registers. -/
theorem run_ne_of_burst (hw : 8 ≤ w) (hmsb : poly.getLsbD (w - 1) = true) (c : BitVec w)
    {bytes bytes' : List (BitVec 8)} {p x y q : List Bool} (h : message bytes = p ++ x ++ q)
    (h' : message bytes' = p ++ y ++ q) (hlen : x.length = y.length) (hx : x.length ≤ w)
    (hne : x ≠ y) : run poly c bytes ≠ run poly c bytes' := by
  have hsize : bytes.length = bytes'.length := by
    have hl := length_message bytes
    have hl' := length_message bytes'
    rw [h, List.length_append, List.length_append] at hl
    rw [h', List.length_append, List.length_append] at hl'
    omega
  have hsub : ofBits (message bytes) - ofBits (message bytes') =
      X ^ q.length * ofBits (List.zipWith xor x y) := by
    rw [h, h', ofBits_append, ofBits_append, ofBits_append, ofBits_append, hlen,
      ofBits_zipWith_xor hlen, ← CharTwo.sub_eq_add (ofBits x)]
    ring
  rw [ne_eq, run_eq_iff_dvd hw hmsb c hsize, hsub]
  intro hdvd
  have hcop : IsCoprime (generator poly) (X ^ q.length) :=
    (isCoprime_generator_X (by omega) hmsb).pow_right
  have hburst := hcop.dvd_of_dvd_mul_left hdvd
  -- a multiple of the generator of smaller degree is zero
  have hzero : ofBits (List.zipWith xor x y) = 0 := by
    by_contra hnz
    refine absurd (degree_le_of_dvd hburst hnz) (not_le_of_gt ?_)
    rw [degree_generator]
    refine lt_of_lt_of_le (degree_ofBits_lt _) ?_
    rw [List.length_zipWith, ← hlen, Nat.min_self]
    exact_mod_cast hx
  rw [ofBits_zipWith_xor hlen, ← CharTwo.sub_eq_add, sub_eq_zero] at hzero
  exact hne (eq_of_ofBits_eq hlen hzero)

end Crc
