/-
**Token indices in paths** (`Http/lib.mo`).

`natFromText` reads a text from its most significant digit on, with an exponent that starts at the
size of the text and is decremented at each digit.  The exponent is always the number of characters
that are left, so it never goes below zero, and what is read is the base-10 value of the text.

Main definitions:

* `LegendsNft.Http.digitFromChar`, `LegendsNft.Http.natFromText` — the source's functions;
* `LegendsNft.Http.numeral` — the decimal texts of a number, with leading zeros.

Main results:

* `LegendsNft.Http.natFromText_eq` — **what is read**, and no trap;
* `LegendsNft.Http.natFromText_numeral` — every decimal text of a number is read as that number;
* `LegendsNft.Http.natFromText_parses` — **the decimal numerals are what is read**.
-/

import LegendsNft.Types

set_option relaxedAutoImplicit false
set_option autoImplicit false

namespace LegendsNft

namespace Http

/-- `digitFromChar`. -/
def digitFromChar : Char → Option ℕ
  | '0' => some 0
  | '1' => some 1
  | '2' => some 2
  | '3' => some 3
  | '4' => some 4
  | '5' => some 5
  | '6' => some 6
  | '7' => some 7
  | '8' => some 8
  | '9' => some 9
  | _ => none

/-- The loop of `natFromText` over the characters that are left. -/
def natFromChars (exponent number : ℕ) : List Char → Except Trap (Option ℕ)
  | [] => .ok (some number)
  | char :: chars =>
      match digitFromChar char with
      | some digit =>
          if exponent = 0 then .error .underflow
          else natFromChars (exponent - 1) (number + digit * 10 ^ (exponent - 1)) chars
      | none => .ok none

/-- `natFromText`. -/
def natFromText (text : Text) : Except Trap (Option ℕ) := natFromChars text.length 0 text.toList

/-! ### What is read -/

theorem digitFromChar_of_isDigit {c : Char} (h : c.isDigit) :
    digitFromChar c = some (c.toNat - '0'.toNat) := by
  obtain ⟨hge, hle⟩ := Char.isDigit_iff_toNat.1 h
  have hdigit : ∀ n, n < 10 → digitFromChar (Char.ofNat (48 + n)) = some n := by decide
  have hge : 48 ≤ c.toNat := hge
  have hle : c.toNat ≤ 57 := hle
  have hread := hdigit (c.toNat - 48) (by omega)
  rwa [Nat.add_sub_cancel' hge, Char.ofNat_toNat] at hread

theorem digitFromChar_of_not_isDigit {c : Char} (h : ¬ c.isDigit) : digitFromChar c = none := by
  unfold digitFromChar
  split <;> first
    | rfl
    | exact absurd rfl h

/-- The loop, while the exponent is the number of characters that are left. -/
theorem natFromChars_eq (number : ℕ) (cs : List Char) : natFromChars cs.length number cs =
    .ok (if cs.all Char.isDigit then some (number + Nat.ofDigitChars 10 cs 0) else none) := by
  induction cs generalizing number with
  | nil => rfl
  | cons c cs ih =>
      rw [natFromChars]
      by_cases h : c.isDigit
      · rw [digitFromChar_of_isDigit h, List.length_cons]
        have hvalue : Nat.ofDigitChars 10 (c :: cs) 0 =
            (c.toNat - '0'.toNat) * 10 ^ cs.length + Nat.ofDigitChars 10 cs 0 := by
          rw [Nat.ofDigitChars_cons, Nat.ofDigitChars_eq_ofDigitChars_zero, Nat.mul_zero,
            Nat.zero_add, Nat.mul_comm]
        simp only [Nat.succ_ne_zero, if_false, Nat.add_sub_cancel, ih, hvalue, List.all_cons, h,
          Bool.true_and, Nat.add_assoc]
      · rw [digitFromChar_of_not_isDigit h]
        simp [h]

/-- **What is read** is the value of a text of digits; no other text is read, and no text traps. -/
theorem natFromText_eq (text : Text) : natFromText text =
    .ok (if text.toList.all Char.isDigit then some (Nat.ofDigitChars 10 text.toList 0)
      else none) := by
  rw [natFromText, ← String.length_toList, natFromChars_eq, Nat.zero_add]

/-! ### Decimal texts -/

/-- The decimal text of a number with leading zeros. -/
def numeral (zeros n : ℕ) : Text := String.ofList (List.replicate zeros '0' ++ Nat.toDigits 10 n)

theorem isDigit_of_mem_numeral {zeros n : ℕ} {c : Char} (h : c ∈ (numeral zeros n).toList) :
    c.isDigit := by
  rw [numeral, String.toList_ofList, List.mem_append] at h
  rcases h with h | h
  · rw [List.eq_of_mem_replicate h]
    rfl
  · exact Nat.isDigit_of_mem_toDigits (by decide) (by decide) h

theorem numeral_ne_nil (zeros n : ℕ) : (numeral zeros n).toList ≠ [] := by
  rw [numeral, String.toList_ofList]
  exact List.append_ne_nil_of_right_ne_nil _ Nat.toDigits_ne_nil

/-- **Every decimal text** of a number is read as that number. -/
theorem natFromText_numeral (zeros n : ℕ) : natFromText (numeral zeros n) = .ok (some n) := by
  have hdigits : (numeral zeros n).toList.all Char.isDigit = true :=
    List.all_eq_true.2 fun c hc => isDigit_of_mem_numeral hc
  rw [natFromText_eq, if_pos hdigits, numeral, String.toList_ofList, Nat.ofDigitChars_append]
  simp

/-- Leading zeros are read as nothing. -/
theorem natFromText_zeros (zeros : ℕ) (text : Text) :
    natFromText (String.ofList (List.replicate zeros '0') ++ text) = natFromText text := by
  have hzeros : (List.replicate zeros '0').all Char.isDigit = true :=
    List.all_eq_true.2 fun c hc => by
      rw [List.eq_of_mem_replicate hc]
      rfl
  rw [natFromText_eq, natFromText_eq, String.toList_append, String.toList_ofList, List.all_append,
    hzeros, Bool.true_and, Nat.ofDigitChars_append]
  simp

/-- **The decimal numerals are what is read**: a text of digits is read as its value in base 10, any
other text as null, and none traps.  So the text of a number is read as the number, with leading
zeros or without. -/
theorem natFromText_parses (text : Text) (n zeros : ℕ) :
    ((∀ c ∈ text.toList, c.isDigit) →
      natFromText text = .ok (some (Nat.ofDigitChars 10 text.toList 0))) ∧
    ((∃ c ∈ text.toList, ¬ c.isDigit) → natFromText text = .ok none) ∧
    natFromText (toString n) = .ok (some n) ∧
    natFromText (String.ofList (List.replicate zeros '0') ++ text) = natFromText text := by
  refine ⟨?_, ?_, ?_, natFromText_zeros zeros text⟩
  · intro hdigits
    rw [natFromText_eq, if_pos (List.all_eq_true.2 hdigits)]
  · rintro ⟨c, hc, hdigit⟩
    rw [natFromText_eq, if_neg]
    intro hall
    exact hdigit (List.all_eq_true.1 hall c hc)
  · have htext : toString n = numeral 0 n := rfl
    rw [htext, natFromText_numeral]

end Http

end LegendsNft
