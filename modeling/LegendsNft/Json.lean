/-
**Reading JSON.**

A reader of JSON texts: values, strings with their escapes, numbers as they are written, and objects
with their members in order.  Characters between quotes read as themselves exactly when none of them
is a quote, a backslash or a control character; so a writer that puts texts between quotes as they
are is right on these *plain* texts and on no others.  The rules below carry this from the strings
up: a piece of text *reads* as a value, on a condition, when the reader gives this value and leaves
what follows the piece on that condition only.

Main definitions:

* `Json.Value` — the values;
* `Json.value`, `Json.elements`, `Json.members` — the reader, with a bound on the nesting;
* `Json.Parses` — the text is that of a value;
* `Json.Reads` — a piece of text reads as a value on a condition.

Main results:

* `Json.chars_eq_self_iff` — **a text between quotes reads as itself** exactly when it is plain;
* `Json.Reads.array`, `Json.Reads.object` and the rules for their parts;
* `Json.Parses.unique` — a text is that of one value only.
-/

import Mathlib.Data.List.Infix

set_option relaxedAutoImplicit false
set_option autoImplicit false

universe u

namespace Json

/-- The values; a number is kept as it is written. -/
inductive Value
  | null
  | bool (b : Bool)
  | number (t : List Char)
  | string (t : List Char)
  | array (vs : List Value)
  | object (ms : List (List Char × Value))

/-! ### Strings -/

/-- The value of a hexadecimal digit. -/
def hexDigit (c : Char) : Option ℕ :=
  if '0' ≤ c ∧ c ≤ '9' then some (c.toNat - '0'.toNat)
  else if 'a' ≤ c ∧ c ≤ 'f' then some (c.toNat - 'a'.toNat + 10)
  else if 'A' ≤ c ∧ c ≤ 'F' then some (c.toNat - 'A'.toNat + 10)
  else none

/-- The value of four hexadecimal digits at the front. -/
def hex4 : List Char → Option ℕ
  | a :: b :: c :: d :: _ => do
      let a ← hexDigit a
      let b ← hexDigit b
      let c ← hexDigit c
      let d ← hexDigit d
      pure (((a * 16 + b) * 16 + c) * 16 + d)
  | _ => none

/-- The character of an escape by its code units, and how many characters the escape takes after
the backslash; a surrogate needs its partner. -/
def unicode (l : List Char) : Option (Char × ℕ) :=
  (hex4 l).bind fun high =>
    if 0xD800 ≤ high ∧ high < 0xDC00 then
      match l.drop 4 with
      | '\\' :: 'u' :: l' =>
          (hex4 l').bind fun low =>
            if 0xDC00 ≤ low ∧ low < 0xE000 then
              some (Char.ofNat (0x10000 + (high - 0xD800) * 0x400 + (low - 0xDC00)), 11)
            else none
      | _ => none
    else if 0xDC00 ≤ high ∧ high < 0xE000 then none
    else some (Char.ofNat high, 5)

/-- The character of an escape, and how many characters the escape takes after the backslash. -/
def escape : List Char → Option (Char × ℕ)
  | '"' :: _ => some ('"', 1)
  | '\\' :: _ => some ('\\', 1)
  | '/' :: _ => some ('/', 1)
  | 'b' :: _ => some (Char.ofNat 8, 1)
  | 'f' :: _ => some (Char.ofNat 12, 1)
  | 'n' :: _ => some ('\n', 1)
  | 'r' :: _ => some ('\r', 1)
  | 't' :: _ => some ('\t', 1)
  | 'u' :: l => unicode l
  | _ => none

/-- The characters up to the closing quote, and what is left, when so many characters of an escape
are still to be passed over. -/
def chars : ℕ → List Char → Option (List Char × List Char)
  | _, [] => none
  | n + 1, _ :: l => chars n l
  | 0, c :: l =>
      if c = '"' then some ([], l)
      else if c = '\\' then
        match escape l with
        | some (c, n) => (chars n l).map fun p => (c :: p.1, p.2)
        | none => none
      else if c.toNat < 32 then none
      else (chars 0 l).map fun p => (c :: p.1, p.2)

/-! ### Numbers -/

/-- At least one digit, and digits only. -/
def isDigits (l : List Char) : Bool := !l.isEmpty && l.all Char.isDigit

/-- What is left after a sign, if there is one. -/
def unsigned : List Char → List Char
  | '+' :: l => l
  | '-' :: l => l
  | l => l

/-- An exponent, or nothing. -/
def isExponent : List Char → Bool
  | [] => true
  | e :: l => (e = 'e' || e = 'E') && isDigits (unsigned l)

/-- A fraction, if there is one, and what may follow it. -/
def isFraction : List Char → Bool
  | '.' :: l => isDigits (l.takeWhile Char.isDigit) && isExponent (l.dropWhile Char.isDigit)
  | l => isExponent l

/-- A number without its sign: no zero stands in front of other digits. -/
def isMagnitude : List Char → Bool
  | '0' :: l => isFraction l
  | l => isDigits (l.takeWhile Char.isDigit) && isFraction (l.dropWhile Char.isDigit)

/-- A number. -/
def isNumber : List Char → Bool
  | '-' :: l => isMagnitude l
  | l => isMagnitude l

/-- The characters of numbers. -/
def isNumberChar (c : Char) : Bool :=
  c.isDigit || c = '-' || c = '+' || c = '.' || c = 'e' || c = 'E'

/-- The number at the front: all characters there that can be part of one. -/
def number (l : List Char) : Option (Value × List Char) :=
  if isNumber (l.takeWhile isNumberChar) then
    some (.number (l.takeWhile isNumberChar), l.dropWhile isNumberChar)
  else none

/-! ### Values -/

/-- The blanks between tokens. -/
def isBlank (c : Char) : Bool := c = ' ' || c = '\t' || c = '\n' || c = '\r'

/-- What is left after some blanks. -/
def skip (l : List Char) : List Char := l.dropWhile isBlank

/-- A word or a number at the front. -/
def atom : List Char → Option (Value × List Char)
  | 'n' :: 'u' :: 'l' :: 'l' :: l => some (.null, l)
  | 't' :: 'r' :: 'u' :: 'e' :: l => some (.bool true, l)
  | 'f' :: 'a' :: 'l' :: 's' :: 'e' :: l => some (.bool false, l)
  | l => number l

/-- What comes after an item of a list: a comma and the rest of it, or its end. -/
def more {α : Type} (close : Char) (rest : List Char → Option (List α × List Char)) (a : α)
    (l : List Char) : Option (List α × List Char) :=
  match skip l with
  | [] => none
  | c :: l =>
      if c = ',' then (rest l).map fun p => (a :: p.1, p.2)
      else if c = close then some ([a], l)
      else none

/-- A text between quotes, a colon and a value. -/
def keyed (read : List Char → Option (Value × List Char)) (l : List Char) :
    Option ((List Char × Value) × List Char) :=
  match skip l with
  | '"' :: l =>
      (chars 0 l).bind fun key =>
        match skip key.2 with
        | ':' :: l => (read l).map fun p => ((key.1, p.1), p.2)
        | _ => none
  | _ => none

mutual

/-- The value at the front, and what is left. -/
def value : ℕ → List Char → Option (Value × List Char)
  | 0, _ => none
  | n + 1, l =>
      match skip l with
      | [] => none
      | c :: l =>
          if c = '"' then (chars 0 l).map fun p => (.string p.1, p.2)
          else if c = '[' then
            if (skip l).head? = some ']' then some (.array [], (skip l).tail)
            else (elements n l).map fun p => (.array p.1, p.2)
          else if c = '\x7b' then
            if (skip l).head? = some '\x7d' then some (.object [], (skip l).tail)
            else (members n l).map fun p => (.object p.1, p.2)
          else atom (c :: l)

/-- The elements of an array up to the closing bracket, and what is left. -/
def elements : ℕ → List Char → Option (List Value × List Char)
  | 0, _ => none
  | n + 1, l => (value n l).bind fun p => more ']' (elements n) p.1 p.2

/-- The members of an object up to the closing brace, and what is left. -/
def members : ℕ → List Char → Option (List (List Char × Value) × List Char)
  | 0, _ => none
  | n + 1, l => (keyed (value n) l).bind fun p => more '\x7d' (members n) p.1 p.2

end

/-- The text is that of a value, with blanks around it. -/
def Parses (t : List Char) (v : Value) : Prop := ∃ n l, value n t = some (v, l) ∧ skip l = []

/-! ### Texts between quotes -/

/-- A character that stands for itself between quotes. -/
def IsPlain (c : Char) : Prop := c ≠ '"' ∧ c ≠ '\\' ∧ 32 ≤ c.toNat

/-- A text that reads as itself between quotes. -/
def Plain (t : List Char) : Prop := ∀ c ∈ t, IsPlain c

instance (c : Char) : Decidable (IsPlain c) :=
  inferInstanceAs (Decidable (c ≠ '"' ∧ c ≠ '\\' ∧ 32 ≤ c.toNat))

instance (t : List Char) : Decidable (Plain t) := List.decidableBAll IsPlain t

theorem plain_append {t t' : List Char} : Plain (t ++ t') ↔ Plain t ∧ Plain t' :=
  List.forall_mem_append

theorem hexDigit_quote : hexDigit '"' = none := by decide

/-- Four digits are there, and no quote is among them. -/
theorem hex4_front {l : List Char} {n : ℕ} (h : hex4 l = some n) :
    4 ≤ l.length ∧ '"' ∉ l.take 4 := by
  rcases l with - | ⟨a, - | ⟨b, - | ⟨c, - | ⟨d, l⟩⟩⟩⟩ <;> simp only [hex4, reduceCtorEq] at h
  simp only [bind, Option.bind_eq_some_iff] at h
  obtain ⟨_, ha, _, hb, _, hc, _, hd, -⟩ := h
  refine ⟨by simp, ?_⟩
  have hne {x : Char} {k : ℕ} (hx : hexDigit x = some k) : '"' ≠ x := by
    rintro rfl
    rw [hexDigit_quote] at hx
    cases hx
  simp [hne ha, hne hb, hne hc, hne hd]

theorem unicode_front {l : List Char} {c : Char} {k : ℕ} (h : unicode l = some (c, k)) :
    1 ≤ k ∧ k ≤ l.length + 1 ∧ '"' ∉ l.take (k - 1) := by
  obtain ⟨high, hhigh, h⟩ := Option.bind_eq_some_iff.1 h
  obtain ⟨hlen, hquote⟩ := hex4_front hhigh
  split at h
  · split at h
    · rename_i l' hdrop
      obtain ⟨low, hlow, h⟩ := Option.bind_eq_some_iff.1 h
      obtain ⟨hlen', hquote'⟩ := hex4_front hlow
      split at h
      swap
      · cases h
      simp only [Option.some.injEq, Prod.mk.injEq] at h
      obtain ⟨-, rfl⟩ := h
      -- the two escapes stand one after the other
      have hsplit : l = l.take 4 ++ '\\' :: 'u' :: l' := by rw [← hdrop, List.take_append_drop]
      have hfour : (l.take 4).length = 4 := List.length_take_of_le hlen
      have hlength := congrArg List.length hsplit
      rw [List.length_append, hfour, List.length_cons, List.length_cons] at hlength
      refine ⟨by omega, by omega, ?_⟩
      rw [hsplit, List.take_append, hfour, List.take_of_length_le (by omega)]
      simp [hquote, hquote']
    · cases h
  · split at h
    · cases h
    · cases h
      exact ⟨by omega, by omega, hquote⟩

/-- An escape other than that of a quote has no quote in it. -/
theorem escape_front {l : List Char} {c : Char} {k : ℕ} (h : escape l = some (c, k)) :
    c = '"' ∨ 1 ≤ k ∧ k ≤ l.length ∧ '"' ∉ l.take k := by
  unfold escape at h
  split at h
  all_goals first
    | (cases h; exact .inl rfl)
    | (cases h; exact .inr ⟨by simp, by simp, by simp⟩)
    | skip
  · obtain ⟨hpos, hlen, hquote⟩ := unicode_front h
    obtain ⟨m, rfl⟩ := Nat.exists_eq_add_of_le' hpos
    refine .inr ⟨hpos, by simpa using hlen, ?_⟩
    simpa using hquote
  · cases h

/-- What is read of the characters before the first quote, some of which are passed over: not more
of them, and all only if they are plain; or the result has a quote before the first one. -/
theorem chars_front {a b out rest : List Char} {k : ℕ} (ha : '"' ∉ a) (hk : k ≤ a.length)
    (h : chars k (a ++ '"' :: b) = some (out, rest)) :
    out.length + k ≤ a.length ∧ (out.length = a.length → Plain a ∧ out = a ∧ rest = b) ∨
      ∃ i < a.length, out[i]? = some '"' := by
  induction a generalizing k out with
  | nil =>
      obtain rfl : k = 0 := Nat.le_zero.1 hk
      simp only [List.nil_append, chars, if_true, Option.some.injEq, Prod.mk.injEq] at h
      obtain ⟨rfl, rfl⟩ := h
      exact .inl ⟨Nat.le_refl _, fun _ => ⟨List.forall_mem_nil _, rfl, rfl⟩⟩
  | cons c a ih =>
      rw [List.mem_cons, not_or] at ha
      obtain ⟨hc, ha⟩ := ha
      cases k with
      | succ k =>
          -- a character of an escape
          rcases ih ha (Nat.le_of_succ_le_succ hk) h with ⟨hlen, -⟩ | ⟨i, hi, hout⟩
          · refine .inl ⟨by rw [List.length_cons]; omega, fun heq => ?_⟩
            rw [List.length_cons] at heq
            omega
          · exact .inr ⟨i, Nat.lt_succ_of_lt hi, hout⟩
      | zero =>
          rw [List.cons_append, chars, if_neg (Ne.symm hc)] at h
          by_cases hslash : c = '\\'
          · rw [if_pos hslash] at h
            split at h
            · rename_i e n hescape
              obtain ⟨p, hp, hout⟩ := Option.map_eq_some_iff.1 h
              cases hout
              rcases escape_front hescape with rfl | ⟨hpos, hlen, hquote⟩
              · exact .inr ⟨0, Nat.succ_pos _, rfl⟩
              · -- the escape ends before the first quote
                have hn : n ≤ a.length := by
                  by_contra hgt
                  have hmem : '"' ∈ (a ++ '"' :: b).take n := by
                    rw [List.take_append]
                    obtain ⟨m, hm⟩ := Nat.exists_eq_add_of_lt (not_le.1 hgt)
                    refine List.mem_append_right _ ?_
                    rw [hm, Nat.add_assoc, Nat.add_sub_cancel_left, List.take_succ_cons]
                    exact List.mem_cons_self ..
                  exact hquote hmem
                rcases ih ha hn hp with ⟨hlen, -⟩ | ⟨i, hi, hi'⟩
                · refine .inl ⟨by simp only [List.length_cons]; omega, fun heq => ?_⟩
                  simp only [List.length_cons] at heq
                  omega
                · exact .inr ⟨i + 1, Nat.succ_lt_succ hi, hi'⟩
            · cases h
          · rw [if_neg hslash] at h
            split_ifs at h with hcontrol
            obtain ⟨p, hp, hout⟩ := Option.map_eq_some_iff.1 h
            cases hout
            rcases ih ha (Nat.zero_le _) hp with ⟨hlen, hall⟩ | ⟨i, hi, hi'⟩
            · refine .inl ⟨Nat.succ_le_succ hlen, fun heq => ?_⟩
              obtain ⟨hplain, hout, hrest⟩ := hall (Nat.succ_inj.1 heq)
              exact ⟨List.forall_mem_cons.2 ⟨⟨Ne.symm hc, hslash, not_lt.1 hcontrol⟩, hplain⟩,
                by rw [hout], hrest⟩
            · exact .inr ⟨i + 1, Nat.succ_lt_succ hi, hi'⟩

theorem chars_of_plain {t : List Char} (h : Plain t) (rest : List Char) :
    chars 0 (t ++ '"' :: rest) = some (t, rest) := by
  induction t with
  | nil => simp [chars]
  | cons c t ih =>
      obtain ⟨⟨hquote, hslash, hcontrol⟩, ht⟩ := List.forall_mem_cons.1 h
      rw [List.cons_append, chars, if_neg hquote, if_neg hslash, if_neg (not_lt.2 hcontrol), ih ht]
      rfl

/-- **A text between quotes reads as itself** exactly when it is plain. -/
theorem chars_eq_self_iff {t rest r : List Char} :
    chars 0 (t ++ '"' :: rest) = some (t, r) ↔ Plain t ∧ r = rest := by
  constructor
  · intro h
    -- the first quote, of the text or after it
    obtain ⟨a, b, hsplit, ha⟩ := List.eq_append_cons_of_mem
      (List.mem_append_right t (List.mem_cons_self (a := '"') (l := rest)))
    obtain ⟨bs, rfl⟩ : ∃ bs, t = a ++ bs := by
      rcases List.append_eq_append_iff.1 hsplit with ⟨as, rfl, has⟩ | ⟨bs, hbs, -⟩
      · cases as with
        | nil => exact ⟨[], by simp⟩
        | cons c as =>
            obtain rfl : '"' = c := (List.cons.inj has).1
            exact absurd (by simp) ha
      · exact ⟨bs, hbs⟩
    rw [hsplit] at h
    rcases chars_front ha (Nat.zero_le _) h with ⟨hlen, hall⟩ | ⟨i, hi, hout⟩
    · rw [List.length_append] at hlen
      obtain rfl : bs = [] := List.length_eq_zero_iff.1 (by omega)
      rw [List.append_nil] at hall hsplit ⊢
      obtain ⟨hplain, -, rfl⟩ := hall rfl
      exact ⟨hplain, (List.cons.inj (List.append_cancel_left hsplit)).2.symm⟩
    · rw [List.getElem?_append_left hi] at hout
      exact absurd (List.mem_of_getElem? hout) ha
  · rintro ⟨ht, rfl⟩
    exact chars_of_plain ht r

/-! ### Blanks and numbers -/

/-- Nothing but blanks. -/
def Blank (w : List Char) : Prop := ∀ c ∈ w, isBlank c = true

instance (w : List Char) : Decidable (Blank w) := List.decidableBAll (fun c => isBlank c = true) w

theorem skip_append {w : List Char} (h : Blank w) (l : List Char) : skip (w ++ l) = skip l := by
  induction w with
  | nil => rfl
  | cons c w ih =>
      obtain ⟨hc, hw⟩ := List.forall_mem_cons.1 h
      rw [List.cons_append, skip, List.dropWhile_cons_of_pos hc]
      exact ih hw

theorem skip_cons {c : Char} (h : isBlank c = false) (l : List Char) : skip (c :: l) = c :: l := by
  rw [skip, List.dropWhile_cons_of_neg (by simp [h])]

theorem skip_append_cons {w : List Char} (h : Blank w) {c : Char} (hc : isBlank c = false)
    (l : List Char) : skip (w ++ c :: l) = c :: l := by
  rw [skip_append h, skip_cons hc]

theorem skip_of_blank {w : List Char} (h : Blank w) : skip w = [] := by
  rw [← List.append_nil w, skip_append h]
  rfl

theorem value_append {w : List Char} (h : Blank w) (n : ℕ) (l : List Char) :
    value n (w ++ l) = value n l := by
  cases n with
  | zero => rfl
  | succ n => rw [value, value, skip_append h]

theorem elements_append {w : List Char} (h : Blank w) (n : ℕ) (l : List Char) :
    elements n (w ++ l) = elements n l := by
  cases n with
  | zero => rfl
  | succ n => rw [elements, elements, value_append h]

theorem keyed_append {read : List Char → Option (Value × List Char)} {w : List Char}
    (h : Blank w) (l : List Char) : keyed read (w ++ l) = keyed read l := by
  rw [keyed, keyed, skip_append h]

/-- No number goes on here. -/
def Delimited (l : List Char) : Prop := l.takeWhile isNumberChar = []

theorem delimited_cons {c : Char} (h : isNumberChar c = false) (l : List Char) :
    Delimited (c :: l) := List.takeWhile_cons_of_neg (by simp [h])

theorem delimited_append {w l : List Char} (h : Blank w) (hl : Delimited l) :
    Delimited (w ++ l) := by
  cases w with
  | nil => exact hl
  | cons c w =>
      have hc : isNumberChar c = false := by
        have hblank := (List.forall_mem_cons.1 h).1
        simp only [isBlank, Bool.or_eq_true, decide_eq_true_eq] at hblank
        rcases hblank with ((rfl | rfl) | rfl) | rfl <;> decide
      exact delimited_cons hc _

theorem takeWhile_all (l : List Char) : ∀ c ∈ l.takeWhile Char.isDigit, isNumberChar c = true := by
  intro c hc
  have hdigit : c.isDigit = true := List.all_eq_true.1 List.all_takeWhile c hc
  simp [isNumberChar, hdigit]

theorem isDigits_chars {l : List Char} (h : isDigits l = true) :
    ∀ c ∈ l, isNumberChar c = true := by
  intro c hc
  rw [isDigits, Bool.and_eq_true, List.all_eq_true] at h
  simp [isNumberChar, h.2 c hc]

theorem unsigned_chars {l : List Char} (h : ∀ c ∈ unsigned l, isNumberChar c = true) :
    ∀ c ∈ l, isNumberChar c = true := by
  unfold unsigned at h
  split at h
  · exact List.forall_mem_cons.2 ⟨by decide, h⟩
  · exact List.forall_mem_cons.2 ⟨by decide, h⟩
  · exact h

theorem isExponent_chars {l : List Char} (h : isExponent l = true) :
    ∀ c ∈ l, isNumberChar c = true := by
  cases l with
  | nil => exact List.forall_mem_nil _
  | cons e l =>
      rw [isExponent, Bool.and_eq_true] at h
      obtain ⟨he, h⟩ := h
      refine List.forall_mem_cons.2 ⟨?_, unsigned_chars (isDigits_chars h)⟩
      simp only [Bool.or_eq_true, decide_eq_true_eq] at he
      rcases he with rfl | rfl <;> decide

theorem isFraction_chars {l : List Char} (h : isFraction l = true) :
    ∀ c ∈ l, isNumberChar c = true := by
  unfold isFraction at h
  split at h
  · rename_i l
    rw [Bool.and_eq_true] at h
    refine List.forall_mem_cons.2 ⟨by decide, ?_⟩
    rw [← List.takeWhile_append_dropWhile (p := Char.isDigit) (l := l)]
    exact List.forall_mem_append.2 ⟨takeWhile_all l, isExponent_chars h.2⟩
  · exact isExponent_chars h

theorem isMagnitude_chars {l : List Char} (h : isMagnitude l = true) :
    ∀ c ∈ l, isNumberChar c = true := by
  unfold isMagnitude at h
  split at h
  · exact List.forall_mem_cons.2 ⟨by decide, isFraction_chars h⟩
  · rw [Bool.and_eq_true] at h
    rw [← List.takeWhile_append_dropWhile (p := Char.isDigit) (l := l)]
    exact List.forall_mem_append.2 ⟨takeWhile_all l, isFraction_chars h.2⟩

/-- A number is written with the characters of numbers. -/
theorem isNumber_chars {l : List Char} (h : isNumber l = true) :
    ∀ c ∈ l, isNumberChar c = true := by
  unfold isNumber at h
  split at h
  · exact List.forall_mem_cons.2 ⟨by decide, isMagnitude_chars h⟩
  · exact isMagnitude_chars h

theorem number_append {t : List Char} (h : isNumber t = true) {rest : List Char}
    (hrest : Delimited rest) : number (t ++ rest) = some (.number t, rest) := by
  have hall := isNumber_chars h
  have htake : (t ++ rest).takeWhile isNumberChar = t := by
    rw [List.takeWhile_append_of_pos hall, hrest, List.append_nil]
  have hdrop : (t ++ rest).dropWhile isNumberChar = rest := by
    have hsplit := List.takeWhile_append_dropWhile (p := isNumberChar) (l := t ++ rest)
    rw [htake] at hsplit
    exact List.append_cancel_left hsplit
  rw [number, htake, hdrop, if_pos h]

/-! ### Pieces of text -/

/-- The piece of text reads as a value on a condition: the reader gives this value only if the
condition holds, and then leaves what follows the piece; and it does give it then. -/
structure Reads {α : Type} (p : ℕ → List Char → Option (α × List Char)) (t : List Char) (v : α)
    (P : Prop) : Prop where
  sound : ∀ n rest r, Delimited rest → p n (t ++ rest) = some (v, r) → P ∧ r = rest
  complete : P → ∃ N, ∀ n, N ≤ n → ∀ rest, Delimited rest → p n (t ++ rest) = some (v, rest)

theorem Reads.congr {α : Type} {p : ℕ → List Char → Option (α × List Char)} {t : List Char}
    {v : α} {P Q : Prop} (h : Reads p t v P) (hPQ : P ↔ Q) : Reads p t v Q where
  sound n rest r hrest hr := (h.sound n rest r hrest hr).imp_left hPQ.1
  complete hQ := h.complete (hPQ.2 hQ)

/-- A piece that is always read. -/
theorem Reads.of_eq {t : List Char} {v : Value}
    (h : ∀ n rest, Delimited rest → value (n + 1) (t ++ rest) = some (v, rest)) :
    Reads value t v True := by
  refine ⟨fun n rest r hrest hr => ?_, fun _ => ⟨1, fun n hn rest hrest => ?_⟩⟩
  · cases n with
    | zero => cases hr
    | succ n =>
        rw [h n rest hrest] at hr
        cases hr
        exact ⟨trivial, rfl⟩
  · obtain ⟨m, rfl⟩ := Nat.exists_eq_add_of_le' hn
    exact h m rest hrest

/-- Blanks in front of a piece. -/
theorem Reads.blank {α : Type} {p : ℕ → List Char → Option (α × List Char)} {t w : List Char}
    {v : α} {P : Prop} (h : Reads p t v P) (hp : ∀ n l, p n (w ++ l) = p n l) :
    Reads p (w ++ t) v P where
  sound n rest r hrest hr := by
    rw [List.append_assoc, hp] at hr
    exact h.sound n rest r hrest hr
  complete hP := by
    obtain ⟨N, hN⟩ := h.complete hP
    refine ⟨N, fun n hn rest hrest => ?_⟩
    rw [List.append_assoc, hp, hN n hn rest hrest]

/-- **A text between quotes.** -/
theorem Reads.string (t : List Char) : Reads value ('"' :: (t ++ ['"'])) (.string t) (Plain t) := by
  have hvalue (n : ℕ) (rest : List Char) : value (n + 1) ('"' :: (t ++ ['"']) ++ rest) =
      (chars 0 (t ++ '"' :: rest)).map fun p => (.string p.1, p.2) := by
    rw [List.cons_append, List.append_assoc, List.singleton_append, value, skip_cons (by decide)]
    exact if_pos rfl
  refine ⟨fun n rest r _ hr => ?_, fun ht => ⟨1, fun n hn rest _ => ?_⟩⟩
  · cases n with
    | zero => cases hr
    | succ n =>
        rw [hvalue] at hr
        obtain ⟨⟨out, l⟩, hp, hout⟩ := Option.map_eq_some_iff.1 hr
        simp only [Prod.mk.injEq, Value.string.injEq] at hout
        obtain ⟨rfl, rfl⟩ := hout
        exact chars_eq_self_iff.1 hp
  · obtain ⟨m, rfl⟩ := Nat.exists_eq_add_of_le' hn
    rw [hvalue, chars_of_plain ht]
    rfl

/-- A character of numbers begins no other token. -/
theorem number_head {c : Char} (h : isNumberChar c = true) : isBlank c = false ∧ c ≠ '"' ∧
    c ≠ '[' ∧ c ≠ '\x7b' ∧ c ≠ 'n' ∧ c ≠ 't' ∧ c ≠ 'f' := by
  refine ⟨?_, ?_, ?_, ?_, ?_, ?_, ?_⟩
  · refine eq_false_of_ne_true fun hblank => ?_
    simp only [isBlank, Bool.or_eq_true, decide_eq_true_eq] at hblank
    rcases hblank with ((rfl | rfl) | rfl) | rfl <;> exact absurd h (by decide)
  all_goals
    rintro rfl
    exact absurd h (by decide)

/-- **A number.** -/
theorem Reads.number {t : List Char} (h : isNumber t = true) :
    Reads value t (.number t) True := by
  refine .of_eq fun n rest hrest => ?_
  cases t with
  | nil => cases h
  | cons c t =>
      obtain ⟨hblank, hquote, hbracket, hbrace, hn, ht, hf⟩ :=
        number_head (List.forall_mem_cons.1 (isNumber_chars h)).1
      have hatom : atom (c :: (t ++ rest)) = Json.number (c :: (t ++ rest)) := by
        unfold atom
        split
        · rename_i heq
          exact absurd (List.cons.inj heq).1 hn
        · rename_i heq
          exact absurd (List.cons.inj heq).1 ht
        · rename_i heq
          exact absurd (List.cons.inj heq).1 hf
        · rfl
      rw [List.cons_append, value, skip_cons hblank]
      simp only [if_neg hquote, if_neg hbracket, if_neg hbrace]
      rw [hatom, ← List.cons_append, number_append h hrest]

/-! ### Lists of items -/

section

variable {α : Type} {close : Char} {rest : List Char → Option (List α × List Char)}

theorem more_comma {w : List Char} (hw : Blank w) (a : α) (l : List Char) :
    more close rest a (w ++ ',' :: l) = (rest l).map fun p => (a :: p.1, p.2) := by
  rw [more, skip_append_cons hw (by decide)]
  exact if_pos rfl

theorem more_close {w : List Char} (hw : Blank w) (hclose : isBlank close = false)
    (hcomma : close ≠ ',') (a : α) (l : List Char) :
    more close rest a (w ++ close :: l) = some ([a], l) := by
  rw [more, skip_append_cons hw hclose]
  exact (if_neg hcomma).trans (if_pos rfl)

/-- The item is the first one of the list. -/
theorem more_head {a b : α} {l r : List Char} {as : List α}
    (h : more close rest a l = some (b :: as, r)) : a = b := by
  rw [more] at h
  split at h
  · cases h
  · split_ifs at h
    · obtain ⟨p, -, hp⟩ := Option.map_eq_some_iff.1 h
      exact (List.cons.inj (Prod.mk.inj hp).1).1
    · simp only [Option.some.injEq, Prod.mk.injEq, List.cons.injEq] at h
      exact h.1.1

end

/-- A reader of items separated by commas, up to a closing character. -/
structure IsList {α : Type} (item : ℕ → List Char → Option (α × List Char))
    (list : ℕ → List Char → Option (List α × List Char)) (close : Char) : Prop where
  zero : ∀ l, list 0 l = none
  succ : ∀ n l, list (n + 1) l = (item n l).bind fun p => more close (list n) p.1 p.2
  not_blank : isBlank close = false
  not_number : isNumberChar close = false
  not_comma : close ≠ ','

theorem isList_elements : IsList value elements ']' where
  zero _ := rfl
  succ _ _ := by rw [elements]
  not_blank := by decide
  not_number := by decide
  not_comma := by decide

theorem isList_members : IsList (fun n => keyed (value n)) members '\x7d' where
  zero _ := rfl
  succ _ _ := by rw [members]
  not_blank := by decide
  not_number := by decide
  not_comma := by decide

section

variable {α : Type} {item : ℕ → List Char → Option (α × List Char)}
  {list : ℕ → List Char → Option (List α × List Char)} {close : Char} {t w : List Char} {a : α}
  {P : Prop}

/-- **The last item** of a list. -/
theorem Reads.last (hlist : IsList item list close) (h : Reads item t a P) (hw : Blank w) :
    Reads list (t ++ (w ++ [close])) [a] P := by
  have htext (rest : List Char) : t ++ (w ++ [close]) ++ rest = t ++ (w ++ close :: rest) := by
    simp
  have hdelim (rest : List Char) : Delimited (w ++ close :: rest) :=
    delimited_append hw (delimited_cons hlist.not_number rest)
  refine ⟨fun n rest r hrest hr => ?_, fun hP => ?_⟩
  · cases n with
    | zero =>
        rw [hlist.zero] at hr
        cases hr
    | succ n =>
        rw [htext, hlist.succ] at hr
        obtain ⟨⟨a', l⟩, ha, hr⟩ := Option.bind_eq_some_iff.1 hr
        obtain rfl := more_head hr
        obtain ⟨hP, rfl⟩ := h.sound n _ l (hdelim rest) ha
        rw [more_close hw hlist.not_blank hlist.not_comma] at hr
        cases hr
        exact ⟨hP, rfl⟩
  · obtain ⟨N, hN⟩ := h.complete hP
    refine ⟨N + 1, fun n hn rest hrest => ?_⟩
    obtain ⟨m, rfl⟩ := Nat.exists_eq_add_of_le' hn
    have ha := hN (m + N) (Nat.le_add_left N m) _ (hdelim rest)
    rw [htext, ← Nat.add_assoc, hlist.succ, ha]
    exact more_close hw hlist.not_blank hlist.not_comma a rest

/-- **An item before others.** -/
theorem Reads.cons {t' : List Char} {as : List α} {Q : Prop} (hlist : IsList item list close)
    (h : Reads item t a P) (hw : Blank w) (h' : Reads list t' as Q) :
    Reads list (t ++ (w ++ ',' :: t')) (a :: as) (P ∧ Q) := by
  have htext (rest : List Char) :
      t ++ (w ++ ',' :: t') ++ rest = t ++ (w ++ ',' :: (t' ++ rest)) := by simp
  have hdelim (rest : List Char) : Delimited (w ++ ',' :: rest) :=
    delimited_append hw (delimited_cons (by decide) rest)
  refine ⟨fun n rest r hrest hr => ?_, ?_⟩
  · cases n with
    | zero =>
        rw [hlist.zero] at hr
        cases hr
    | succ n =>
        rw [htext, hlist.succ] at hr
        obtain ⟨⟨a', l⟩, ha, hr⟩ := Option.bind_eq_some_iff.1 hr
        obtain rfl := more_head hr
        obtain ⟨hP, rfl⟩ := h.sound n _ l (hdelim _) ha
        rw [more_comma hw] at hr
        obtain ⟨⟨as', l⟩, has, hr⟩ := Option.map_eq_some_iff.1 hr
        simp only [Prod.mk.injEq, List.cons.injEq, true_and] at hr
        obtain ⟨rfl, rfl⟩ := hr
        obtain ⟨hQ, hl⟩ := h'.sound n rest l hrest has
        exact ⟨⟨hP, hQ⟩, hl⟩
  · rintro ⟨hP, hQ⟩
    obtain ⟨N, hN⟩ := h.complete hP
    obtain ⟨N', hN'⟩ := h'.complete hQ
    refine ⟨max N N' + 1, fun n hn rest hrest => ?_⟩
    obtain ⟨m, rfl⟩ := Nat.exists_eq_add_of_le' hn
    have ha := hN (m + max N N') (by omega) _ (hdelim (t' ++ rest))
    have has := hN' (m + max N N') (by omega) rest hrest
    rw [htext, ← Nat.add_assoc, hlist.succ, ha]
    refine (more_comma hw a (t' ++ rest)).trans ?_
    rw [has]
    rfl

end

/-! ### Arrays and objects -/

/-- **A member**: a key between quotes, a colon and a value. -/
theorem Reads.keyed {key w t : List Char} {v : Value} {P : Prop} (hkey : Plain key)
    (hw : Blank w) (h : Reads value t v P) :
    Reads (fun n => Json.keyed (value n)) ('"' :: (key ++ '"' :: (w ++ ':' :: t))) (key, v) P := by
  have hvalue (n : ℕ) (rest : List Char) :
      Json.keyed (value n) ('"' :: (key ++ '"' :: (w ++ ':' :: t)) ++ rest) =
        (value n (t ++ rest)).map fun p => ((key, p.1), p.2) := by
    have htext : '"' :: (key ++ '"' :: (w ++ ':' :: t)) ++ rest =
        '"' :: (key ++ '"' :: (w ++ ':' :: (t ++ rest))) := by simp
    rw [htext, Json.keyed, skip_cons (by decide)]
    refine (congrArg (Option.bind · _) (chars_of_plain hkey _)).trans ?_
    change (match skip (w ++ ':' :: (t ++ rest)) with
      | ':' :: l => (value n l).map fun (p : Value × List Char) => ((key, p.1), p.2)
      | _ => none) = _
    rw [skip_append_cons hw (by decide)]
    rfl
  refine ⟨fun n rest r hrest hr => ?_, fun hP => ?_⟩
  · rw [hvalue] at hr
    obtain ⟨⟨v', l⟩, hv, hr⟩ := Option.map_eq_some_iff.1 hr
    simp only [Prod.mk.injEq, true_and] at hr
    obtain ⟨rfl, rfl⟩ := hr
    exact h.sound n rest l hrest hv
  · obtain ⟨N, hN⟩ := h.complete hP
    refine ⟨N, fun n hn rest hrest => ?_⟩
    rw [hvalue, hN n hn rest hrest]
    rfl

theorem skip_append_of_cons {t l : List Char} {c : Char} (h : skip t = c :: l)
    (rest : List Char) : skip (t ++ rest) = c :: (l ++ rest) := by
  rw [skip] at h ⊢
  rw [List.dropWhile_append, h]
  rfl

/-- A value that begins with an opening character and has something in it. -/
theorem Reads.opened {α : Type} {p : ℕ → List Char → Option (List α × List Char)}
    {f : List α → Value} {first close : Char} (hf : ∀ as as', f as = f as' → as = as')
    (hvalue : ∀ n l, (skip l).head? ≠ some close →
      value (n + 1) (first :: l) = (p n l).map fun q => (f q.1, q.2))
    {t : List Char} {as : List α} {P : Prop} (h : Reads p t as P) {c : Char} {l : List Char}
    (hc : skip t = c :: l) (hclose : c ≠ close) : Reads value (first :: t) (f as) P := by
  have hvalue (n : ℕ) (rest : List Char) : value (n + 1) (first :: t ++ rest) =
      (p n (t ++ rest)).map fun q => (f q.1, q.2) := by
    refine hvalue n (t ++ rest) ?_
    rw [skip_append_of_cons hc]
    simpa using hclose
  refine ⟨fun n rest r hrest hr => ?_, fun hP => ?_⟩
  · cases n with
    | zero => cases hr
    | succ n =>
        rw [hvalue] at hr
        obtain ⟨⟨as', r'⟩, has, hr⟩ := Option.map_eq_some_iff.1 hr
        simp only [Prod.mk.injEq] at hr
        obtain ⟨has', rfl⟩ := hr
        obtain rfl := hf _ _ has'
        exact h.sound n rest r' hrest has
  · obtain ⟨N, hN⟩ := h.complete hP
    refine ⟨N + 1, fun n hn rest hrest => ?_⟩
    obtain ⟨m, rfl⟩ := Nat.exists_eq_add_of_le' hn
    rw [← Nat.add_assoc, hvalue, hN (m + N) (Nat.le_add_left N m) rest hrest]
    rfl

/-- **An array** of some elements. -/
theorem Reads.array {t : List Char} {vs : List Value} {P : Prop} (h : Reads elements t vs P)
    {c : Char} {l : List Char} (hc : skip t = c :: l) (hclose : c ≠ ']') :
    Reads value ('[' :: t) (.array vs) P := by
  refine h.opened (fun _ _ heq => Value.array.inj heq) (fun n l hne => ?_) hc hclose
  rw [value, skip_cons (by decide)]
  exact (if_neg (by decide)).trans ((if_pos rfl).trans (if_neg hne))

/-- **An object** of some members. -/
theorem Reads.object {t : List Char} {ms : List (List Char × Value)} {P : Prop}
    (h : Reads members t ms P) {c : Char} {l : List Char} (hc : skip t = c :: l)
    (hclose : c ≠ '\x7d') : Reads value ('\x7b' :: t) (.object ms) P := by
  refine h.opened (fun _ _ heq => Value.object.inj heq) (fun n l hne => ?_) hc hclose
  rw [value, skip_cons (by decide)]
  exact (if_neg (by decide)).trans ((if_neg (by decide)).trans ((if_pos rfl).trans (if_neg hne)))

/-- The array of no elements. -/
theorem Reads.empty {w : List Char} (hw : Blank w) :
    Reads value ('[' :: (w ++ [']'])) (.array []) True := by
  refine .of_eq fun n rest _ => ?_
  have hskip : skip (w ++ [']'] ++ rest) = ']' :: rest := by
    rw [List.append_assoc, List.singleton_append, skip_append_cons hw (by decide)]
  rw [List.cons_append, value, skip_cons (by decide)]
  refine (if_neg (by decide)).trans ((if_pos rfl).trans ?_)
  rw [hskip]
  rfl

/-- The items of a list one after the other, with blanks before the first one and after each
comma. -/
def listed {β : Type u} (first sep : List Char) (text : β → List Char) : List β → List Char
  | [] => []
  | x :: xs => first ++ (text x ++ xs.flatMap fun y => ',' :: (sep ++ text y))

theorem Reads.items {β : Type u} {text : β → List Char} {doc : β → Value} {P : β → Prop}
    {sep w : List Char} (hsep : Blank sep) (hw : Blank w) (x : β) (xs : List β)
    (h : ∀ y ∈ x :: xs, Reads value (text y) (doc y) (P y)) :
    Reads elements ((text x ++ xs.flatMap fun y => ',' :: (sep ++ text y)) ++ (w ++ [']']))
      ((x :: xs).map doc) (∀ y ∈ x :: xs, P y) := by
  induction xs generalizing x with
  | nil =>
      have hlast := (h x (List.mem_cons_self ..)).last isList_elements hw
      simpa using hlast
  | cons y xs ih =>
      obtain ⟨hx, hxs⟩ := List.forall_mem_cons.1 h
      have hrest := (ih y hxs).blank fun n l => elements_append hsep n l
      have hall := hx.cons isList_elements (List.forall_mem_nil _ : Blank []) hrest
      rw [List.forall_mem_cons]
      simpa using hall

/-- **An array of a list.** -/
theorem Reads.listed {β : Type u} {text : β → List Char} {doc : β → Value} {P : β → Prop}
    (pre first sep post : List Char) (hblank : Blank pre ∧ Blank first ∧ Blank sep ∧ Blank post)
    (xs : List β) (h : ∀ x ∈ xs, Reads value (text x) (doc x) (P x))
    (hopen : ∀ x ∈ xs, ∃ c l, skip (text x) = c :: l ∧ c ≠ ']') :
    Reads value ('[' :: (pre ++ (Json.listed first sep text xs ++ (post ++ [']']))))
      (.array (xs.map doc)) (∀ x ∈ xs, P x) := by
  obtain ⟨hpre, hfirst, hsep, hpost⟩ := hblank
  have hfront : Blank (pre ++ first) := List.forall_mem_append.2 ⟨hpre, hfirst⟩
  cases xs with
  | nil =>
      have hall : Blank (pre ++ post) := List.forall_mem_append.2 ⟨hpre, hpost⟩
      have hempty := (Reads.empty hall).congr (Q := ∀ x ∈ ([] : List β), P x) (by simp)
      simpa [Json.listed] using hempty
  | cons x xs =>
      have hitems := (Reads.items hsep hpost x xs h).blank fun n l => elements_append hfront n l
      obtain ⟨c, l, hc, hclose⟩ := hopen x (List.mem_cons_self ..)
      have hskip := skip_append_of_cons hc
        ((xs.flatMap fun y => ',' :: (sep ++ text y)) ++ (post ++ [']']))
      rw [← List.append_assoc, ← skip_append hfront] at hskip
      simpa [Json.listed] using hitems.array hskip hclose

/-- A member of an object as it is written: some blanks, the key between quotes, some blanks and a
colon, and a piece that reads as the value on a condition. -/
structure Member where
  pre : List Char
  key : List Char
  mid : List Char
  text : List Char
  value : Value
  cond : Prop

/-- The member is written well. -/
structure Member.Good (m : Member) : Prop where
  blank : Blank m.pre ∧ Blank m.mid
  plain : Plain m.key
  reads : Reads Json.value m.text m.value m.cond

/-- A member. -/
def Member.piece (m : Member) : List Char :=
  m.pre ++ ('"' :: (m.key ++ '"' :: (m.mid ++ ':' :: m.text)))

/-- The members of an object. -/
def written (post : List Char) (m : Member) : List Member → List Char
  | [] => m.piece ++ (post ++ ['\x7d'])
  | m' :: ms => m.piece ++ ',' :: written post m' ms

theorem Member.Good.reads_piece {m : Member} (h : m.Good) :
    Reads (fun n => Json.keyed (Json.value n)) m.piece (m.key, m.value) m.cond :=
  (h.reads.keyed h.plain h.blank.2).blank fun _ l => keyed_append h.blank.1 l

/-- **An object of some members.** -/
theorem Reads.written (post : List Char) (hpost : Blank post) (m : Member) (ms : List Member)
    (h : ∀ m' ∈ m :: ms, m'.Good) :
    Reads Json.value ('\x7b' :: Json.written post m ms)
      (.object ((m :: ms).map fun m => (m.key, m.value))) (∀ m' ∈ m :: ms, m'.cond) := by
  have hmembers : Reads members (Json.written post m ms) ((m :: ms).map fun m => (m.key, m.value))
      (∀ m' ∈ m :: ms, m'.cond) := by
    induction ms generalizing m with
    | nil =>
        have hlast := (h m (List.mem_cons_self ..)).reads_piece.last isList_members hpost
        simpa [Json.written] using hlast
    | cons m' ms ih =>
        obtain ⟨hm, hms⟩ := List.forall_mem_cons.1 h
        have hall := hm.reads_piece.cons isList_members (List.forall_mem_nil _ : Blank [])
          (ih m' hms)
        rw [List.forall_mem_cons]
        simpa [Json.written] using hall
  have hgood := h m (List.mem_cons_self ..)
  obtain ⟨l, hl⟩ : ∃ l, Json.written post m ms = m.pre ++ '"' :: l := by
    cases ms with
    | nil => exact ⟨_, by rw [Json.written, Member.piece, List.append_assoc, List.cons_append]⟩
    | cons m' ms =>
        exact ⟨_, by rw [Json.written, Member.piece, List.append_assoc, List.cons_append]⟩
  refine hmembers.object (c := '"') (l := l) ?_ (by decide)
  rw [hl, skip_append_cons hgood.blank.1 (by decide)]

/-- The word for nothing. -/
theorem Reads.null : Reads value ['n', 'u', 'l', 'l'] .null True := by
  refine .of_eq fun n rest _ => ?_
  rw [value]
  rfl

/-! ### Whole texts -/

/-- **A text that is a piece with blanks after it.** -/
theorem Reads.parses_iff {t w : List Char} {v : Value} {P : Prop} (h : Reads value t v P)
    (hw : Blank w) : Parses (t ++ w) v ↔ P := by
  have hdelim : Delimited w := by
    have hnil := delimited_append hw (l := []) rfl
    rwa [List.append_nil] at hnil
  constructor
  · rintro ⟨n, l, hl, -⟩
    exact (h.sound n w l hdelim hl).1
  · intro hP
    obtain ⟨N, hN⟩ := h.complete hP
    exact ⟨N, w, hN N (Nat.le_refl N) w hdelim, skip_of_blank hw⟩

theorem more_mono {α : Type} {close : Char}
    {rest rest' : List Char → Option (List α × List Char)}
    (hrest : ∀ l r, rest l = some r → rest' l = some r) {a : α} {l : List Char}
    {r : List α × List Char} (h : more close rest a l = some r) :
    more close rest' a l = some r := by
  rw [more] at h ⊢
  split
  · rename_i heq
    rw [heq] at h
    cases h
  · rename_i c l' heq
    rw [heq] at h
    simp only at h
    split_ifs at h ⊢
    · obtain ⟨p, hp, rfl⟩ := Option.map_eq_some_iff.1 h
      rw [hrest _ _ hp]
      rfl
    · exact h

theorem keyed_mono {read read' : List Char → Option (Value × List Char)}
    (hread : ∀ l r, read l = some r → read' l = some r) {l : List Char}
    {r : (List Char × Value) × List Char} (h : keyed read l = some r) :
    keyed read' l = some r := by
  unfold keyed at h ⊢
  split at h
  · obtain ⟨key, hkey, h⟩ := Option.bind_eq_some_iff.1 h
    refine Option.bind_eq_some_iff.2 ⟨key, hkey, ?_⟩
    split at h
    · obtain ⟨p, hp, rfl⟩ := Option.map_eq_some_iff.1 h
      rw [hread _ _ hp]
      rfl
    · cases h
  · cases h

/-- A larger bound reads the same. -/
theorem read_succ (n : ℕ) : (∀ l r, value n l = some r → value (n + 1) l = some r) ∧
    (∀ l r, elements n l = some r → elements (n + 1) l = some r) ∧
    ∀ l r, members n l = some r → members (n + 1) l = some r := by
  induction n with
  | zero => refine ⟨?_, ?_, ?_⟩ <;> exact fun _ _ h => nomatch h
  | succ n ih =>
      obtain ⟨hvalue, helements, hmembers⟩ := ih
      refine ⟨fun l r h => ?_, fun l r h => ?_, fun l r h => ?_⟩
      · rw [value] at h ⊢
        split
        · rename_i heq
          rw [heq] at h
          cases h
        · rename_i c l' heq
          rw [heq] at h
          simp only at h
          split_ifs at h ⊢
          · exact h
          · exact h
          · obtain ⟨p, hp, rfl⟩ := Option.map_eq_some_iff.1 h
            rw [helements _ _ hp]
            rfl
          · exact h
          · obtain ⟨p, hp, rfl⟩ := Option.map_eq_some_iff.1 h
            rw [hmembers _ _ hp]
            rfl
          · exact h
      · rw [elements] at h ⊢
        obtain ⟨p, hp, h⟩ := Option.bind_eq_some_iff.1 h
        exact Option.bind_eq_some_iff.2 ⟨p, hvalue _ _ hp, more_mono helements h⟩
      · rw [members] at h ⊢
        obtain ⟨p, hp, h⟩ := Option.bind_eq_some_iff.1 h
        exact Option.bind_eq_some_iff.2 ⟨p, keyed_mono hvalue hp, more_mono hmembers h⟩

theorem value_mono {n m : ℕ} (h : n ≤ m) {l : List Char} {r : Value × List Char}
    (hr : value n l = some r) : value m l = some r := by
  induction h with
  | refl => exact hr
  | step _ ih => exact (read_succ _).1 l r ih

/-- **A text is that of one value only.** -/
theorem Parses.unique {t : List Char} {v v' : Value} (h : Parses t v) (h' : Parses t v') :
    v = v' := by
  obtain ⟨n, l, hl, -⟩ := h
  obtain ⟨m, l', hl', -⟩ := h'
  have hboth := value_mono (le_max_left n m) hl
  rw [value_mono (le_max_right n m) hl'] at hboth
  exact (Prod.mk.inj (Option.some.inj hboth)).1.symm

end Json
