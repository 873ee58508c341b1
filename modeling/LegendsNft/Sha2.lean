/-
**The SHA-2 functions on 32-bit words.**

A message is padded to a whole number of blocks of 64 bytes: a one bit, as few zero bits as are
needed, and the length of the message in bits as a 64-bit number.  The blocks are absorbed by a
compression function that expands a block to a schedule of 64 words and mixes them into eight
working variables, one in each round.  The hash is the first words of the last state.

Numbers are written big-endian.  The initial state, the constants of the rounds and the number of
words kept are parameters.

No padded message is a suffix of another, so that two messages with one hash meet in some block, or
end in two states that agree in the words that are kept.

Main definitions:

* `Sha2.toBytes`, `Sha2.fromBytes` — big-endian numbers;
* `Sha2.schedule`, `Sha2.rounds`, `Sha2.compress` — the compression function;
* `Sha2.pad`, `Sha2.hash` — **the hash of a message**.

Main results:

* `Sha2.fromBytes_toBytes` — bytes are read back;
* `Sha2.eq_of_pad_suffix` — **no padded message is a suffix of another**;
* `Sha2.hash_eq_iff` — **when two messages have one hash**.
-/

import LegendsNft.Chaining
import Mathlib.Data.UInt

set_option relaxedAutoImplicit false
set_option autoImplicit false

namespace Sha2

/-! ### Big-endian numbers -/

/-- The last `k` bytes of a number. -/
def toBytes : ℕ → ℕ → List UInt8
  | 0, _ => []
  | k + 1, n => UInt8.ofNat (n / 256 ^ k) :: toBytes k n

/-- The number some bytes write. -/
def fromBytes : List UInt8 → ℕ
  | [] => 0
  | b :: bytes => b.toNat * 256 ^ bytes.length + fromBytes bytes

@[simp] theorem length_toBytes (k n : ℕ) : (toBytes k n).length = k := by
  induction k with
  | zero => rfl
  | succ k ih => rw [toBytes, List.length_cons, ih]

/-- **Bytes are read back.** -/
theorem fromBytes_toBytes (k n : ℕ) : fromBytes (toBytes k n) = n % 256 ^ k := by
  induction k with
  | zero => rw [pow_zero, Nat.mod_one]; rfl
  | succ k ih =>
      have hbyte : (UInt8.ofNat (n / 256 ^ k)).toNat = n / 256 ^ k % 256 := UInt8.toNat_ofNat'
      rw [toBytes, fromBytes, ih, length_toBytes, hbyte, pow_succ, Nat.mod_mul, Nat.mul_comm,
        Nat.add_comm]

/-- The bytes in increasing order of their positions. -/
theorem toBytes_eq_map (k n : ℕ) :
    toBytes k n = (List.range k).map fun i => UInt8.ofNat (n / 256 ^ (k - 1 - i)) := by
  induction k with
  | zero => rfl
  | succ k ih =>
      rw [toBytes, ih, List.range_succ_eq_map, List.map_cons, List.map_map]
      congr 1
      refine List.map_congr_left fun i _ => ?_
      rw [Function.comp_apply, show k + 1 - 1 - (i + 1) = k - 1 - i by omega]

/-- The last bytes of a number do not depend on the bytes before them. -/
theorem toBytes_mod {k j : ℕ} (h : k ≤ j) (n : ℕ) : toBytes k (n % 256 ^ j) = toBytes k n := by
  induction k with
  | zero => rfl
  | succ k ih =>
      obtain ⟨i, rfl⟩ := Nat.exists_eq_add_of_le h
      have hdigit : n % 256 ^ (k + 1 + i) / 256 ^ k % 256 = n / 256 ^ k % 256 := by
        rw [Nat.add_assoc, Nat.pow_add, Nat.mod_mul_right_div_self, Nat.pow_add]
        exact Nat.mod_mul_right_mod ..
      have hbyte : UInt8.ofNat (n % 256 ^ (k + 1 + i) / 256 ^ k) = UInt8.ofNat (n / 256 ^ k) :=
        UInt8.toNat_inj.1 (by rw [UInt8.toNat_ofNat', UInt8.toNat_ofNat']; exact hdigit)
      rw [toBytes, toBytes, ih (by omega), hbyte]

/-! ### The compression function -/

/-- Rotation to the right. -/
def rotr (x : UInt32) (k : ℕ) : UInt32 := ⟨x.toBitVec.rotateRight k⟩

def ch (x y z : UInt32) : UInt32 := (x &&& y) ^^^ (~~~x &&& z)

def maj (x y z : UInt32) : UInt32 := (x &&& y) ^^^ (x &&& z) ^^^ (y &&& z)

def bigSigma0 (x : UInt32) : UInt32 := rotr x 2 ^^^ rotr x 13 ^^^ rotr x 22

def bigSigma1 (x : UInt32) : UInt32 := rotr x 6 ^^^ rotr x 11 ^^^ rotr x 25

def sigma0 (x : UInt32) : UInt32 := rotr x 7 ^^^ rotr x 18 ^^^ (x >>> 3)

def sigma1 (x : UInt32) : UInt32 := rotr x 17 ^^^ rotr x 19 ^^^ (x >>> 10)

/-- The word of a block at a position. -/
def word (block : List UInt8) (t : ℕ) : UInt32 :=
  UInt32.ofNat (fromBytes ((block.drop (4 * t)).take 4))

/-- **The message schedule**: sixteen words of the block, and a recurrence. -/
def schedule (block : List UInt8) (t : ℕ) : UInt32 :=
  if t < 16 then word block t
  else sigma1 (schedule block (t - 2)) + schedule block (t - 7) + sigma0 (schedule block (t - 15)) +
    schedule block (t - 16)
termination_by t

theorem schedule_of_lt {block : List UInt8} {t : ℕ} (h : t < 16) :
    schedule block t = word block t := by
  rw [schedule, if_pos h]

theorem schedule_of_le {block : List UInt8} {t : ℕ} (h : 16 ≤ t) :
    schedule block t = sigma1 (schedule block (t - 2)) + schedule block (t - 7) +
      sigma0 (schedule block (t - 15)) + schedule block (t - 16) := by
  conv_lhs => rw [schedule, if_neg (Nat.not_lt_of_le h)]

/-- The working variables. -/
structure Working where
  a : UInt32
  b : UInt32
  c : UInt32
  d : UInt32
  e : UInt32
  f : UInt32
  g : UInt32
  h : UInt32
  deriving DecidableEq

/-- A round, with its constant and its word of the schedule. -/
def round (v : Working) (k w : UInt32) : Working :=
  let t1 := v.h + bigSigma1 v.e + ch v.e v.f v.g + k + w
  let t2 := bigSigma0 v.a + maj v.a v.b v.c
  { a := t1 + t2, b := v.a, c := v.b, d := v.c, e := v.d + t1, f := v.e, g := v.f, h := v.g }

/-- The first rounds. -/
def rounds (k w : ℕ → UInt32) : ℕ → Working → Working
  | 0, v => v
  | n + 1, v => round (rounds k w n v) (k n) (w n)

/-- A state of eight words. -/
abbrev State := Vector UInt32 8

/-- The working variables at the start of a block. -/
def State.working (s : State) : Working := ⟨s[0], s[1], s[2], s[3], s[4], s[5], s[6], s[7]⟩

/-- The state after a block, given the working variables at its end. -/
def State.add (s : State) (v : Working) : State :=
  #v[s[0] + v.a, s[1] + v.b, s[2] + v.c, s[3] + v.d, s[4] + v.e, s[5] + v.f, s[6] + v.g, s[7] + v.h]

/-- **The compression function.** -/
def compress (k : ℕ → UInt32) (s : State) (block : List UInt8) : State :=
  s.add (rounds k (schedule block) 64 s.working)

/-! ### Padding and hashing -/

/-- The number of zero bytes between the one bit and the length. -/
def zeros (n : ℕ) : ℕ := (119 - n % 64) % 64

/-- The padding of a message of `n` bytes. -/
def padding (n : ℕ) : List UInt8 := 0x80 :: List.replicate (zeros n) 0 ++ toBytes 8 (8 * n)

/-- **The padded message.** -/
def pad (m : List UInt8) : List UInt8 := m ++ padding m.length

/-- The state after a padded message. -/
def finalState (k : ℕ → UInt32) (iv : State) (m : List UInt8) : State :=
  Chaining.absorb 64 (compress k) iv (pad m)

/-- The bytes of the first words of a state. -/
def digest (words : ℕ) (s : State) : List UInt8 :=
  (s.toList.take words).flatMap fun x => toBytes 4 x.toNat

/-- **The hash of a message.** -/
def hash (k : ℕ → UInt32) (iv : State) (words : ℕ) (m : List UInt8) : List UInt8 :=
  digest words (finalState k iv m)

theorem length_padding (n : ℕ) : (padding n).length = zeros n + 9 := by
  rw [padding, List.length_append, List.length_cons, List.length_replicate, length_toBytes]

/-- A padded message consists of full blocks. -/
theorem dvd_length_pad (m : List UInt8) : 64 ∣ (pad m).length := by
  rw [pad, List.length_append, length_padding, zeros]
  omega

theorem length_digest {words : ℕ} (h : words ≤ 8) (s : State) :
    (digest words s).length = 4 * words := by
  have hbytes : ∀ x : UInt32, (toBytes 4 x.toNat).length = 4 := fun x => length_toBytes 4 _
  rw [digest, List.length_flatMap]
  simp only [hbytes, List.map_const', List.length_take, Vector.length_toList,
    List.sum_replicate_nat, Nat.min_eq_left h, Nat.mul_comm]

/-- The bytes of words tell the words. -/
theorem flatMap_toBytes_injective {l l' : List UInt32}
    (h : (l.flatMap fun x => toBytes 4 x.toNat) = l'.flatMap fun x => toBytes 4 x.toNat) :
    l = l' := by
  induction l generalizing l' with
  | nil =>
      cases l' with
      | nil => rfl
      | cons y l' =>
          have hlen := congrArg List.length h
          simp at hlen
          omega
  | cons x l ih =>
      cases l' with
      | nil =>
          have hlen := congrArg List.length h
          simp at hlen
      | cons y l' =>
          rw [List.flatMap_cons, List.flatMap_cons] at h
          obtain ⟨hhead, htail⟩ := List.append_inj h (by simp)
          have hnum := congrArg fromBytes hhead
          have hx : x.toNat < 256 ^ 4 := x.toNat_lt
          have hy : y.toNat < 256 ^ 4 := y.toNat_lt
          rw [fromBytes_toBytes, fromBytes_toBytes, Nat.mod_eq_of_lt hx, Nat.mod_eq_of_lt hy]
            at hnum
          rw [UInt32.toNat_inj.1 hnum, ih htail]

/-- **No padded message is a suffix of another**, as long as the length in bits fits. -/
theorem eq_of_pad_suffix {m m' : List UInt8} (hm : m.length < 2 ^ 61) (hm' : m'.length < 2 ^ 61)
    (h : pad m <:+ pad m') : m = m' := by
  -- the last eight bytes are the lengths
  have hlen : m.length = m'.length := by
    have hlast (l : List UInt8) : toBytes 8 (8 * l.length) <:+ pad l :=
      (List.suffix_append _ _).trans (List.suffix_append _ _)
    have hsuffix := List.suffix_of_suffix_length_le ((hlast m).trans h) (hlast m') (by simp)
    have hbytes := congrArg fromBytes (hsuffix.eq_of_length (by simp))
    rw [fromBytes_toBytes, fromBytes_toBytes, Nat.mod_eq_of_lt (by omega),
      Nat.mod_eq_of_lt (by omega)] at hbytes
    omega
  have hpad : pad m = pad m' := by
    refine h.eq_of_length ?_
    rw [pad, pad, List.length_append, List.length_append, length_padding, length_padding, hlen]
  exact (List.append_inj hpad hlen).1

/-- **When two messages have one hash**: they collide, or the last states differ in words that are
not kept. -/
theorem hash_eq_iff {k : ℕ → UInt32} {iv : State} {words : ℕ} {m m' : List UInt8}
    (hm : m.length < 2 ^ 61) (hm' : m'.length < 2 ^ 61) (hne : m ≠ m') :
    hash k iv words m = hash k iv words m' ↔
      Chaining.Collide 64 (compress k) iv (pad m) (pad m') ∨
      (finalState k iv m ≠ finalState k iv m' ∧
        (finalState k iv m).toList.take words = (finalState k iv m').toList.take words) := by
  constructor
  · intro h
    by_cases hstate : finalState k iv m = finalState k iv m'
    · rcases Chaining.collide_or_suffix (by omega) (dvd_length_pad m) (dvd_length_pad m') hstate
        with hcol | hsuffix | hsuffix
      · exact Or.inl hcol
      · exact absurd (eq_of_pad_suffix hm hm' hsuffix) hne
      · exact absurd (eq_of_pad_suffix hm' hm hsuffix) hne.symm
    · exact Or.inr ⟨hstate, flatMap_toBytes_injective h⟩
  · rintro (hcol | ⟨-, hwords⟩)
    · have hstate : finalState k iv m = finalState k iv m' := hcol.absorb_eq (by omega)
      rw [hash, hash, hstate]
    · rw [hash, hash, digest, digest, hwords]

end Sha2
