/-
**Hexadecimal texts** (`NNS/Hex.mo`).

A byte is written as two of sixteen symbols, with capital letters.  The decoder takes two characters
for each byte, as many times as half the size of the text, rounded up; a character that is no symbol
is reported, unless the text ends before its pair does.  So it accepts exactly the texts the encoder
writes, and a text with small letters is not one of them.

Main definitions:

* `LegendsNft.Hex.encode`, `LegendsNft.Hex.decode` — the source's functions;
* `LegendsNft.Hex.pairs` — the characters of the complete pairs of a text.

Main results:

* `LegendsNft.Hex.encode_eq` — what is written, and no trap;
* `LegendsNft.Hex.decode_eq` — what is read, and no trap;
* `LegendsNft.Hex.decode_inverts` — **the decoder inverts the encoder, and only that**.
-/

import LegendsNft.Arrays

set_option relaxedAutoImplicit false
set_option autoImplicit false

namespace LegendsNft

namespace Hex

/-! ### The source's functions -/

def base : UInt8 := 0x10

def symbols : List Char := [
  '0', '1', '2', '3', '4', '5', '6', '7',
  '8', '9', 'A', 'B', 'C', 'D', 'E', 'F']

/-- `DecodeError`. -/
inductive DecodeError
  | msg (message : Text)
  deriving DecidableEq

/-- `encodeW8`. -/
def encodeW8 (w8 : UInt8) : Except Trap Text := do
  let c1 ← fetch symbols (w8 / base).toNat
  let c2 ← fetch symbols (w8 % base).toNat
  pure (String.singleton c1 ++ String.singleton c2)

/-- `encode`. -/
def encode (array : List UInt8) : Except Trap Text :=
  array.foldlM (fun accum w8 => do pure (accum ++ (← encodeW8 w8))) ""

/-- A number as a `Nat8`; one that does not fit traps. -/
def natToNat8 (n : ℕ) : Except Trap UInt8 :=
  if n < 256 then .ok (UInt8.ofNat n) else .error .overflow

/-- The loop of `decodeW4` over the positions of the symbols. -/
def findSymbol (char : Char) : List ℕ → Except Trap (Except DecodeError UInt8)
  | [] => .ok (.error (.msg ("Unexpected character: " ++ String.singleton char)))
  | i :: positions => do
      let symbol ← fetch symbols i
      if symbol = char then do
        let w4 ← natToNat8 i
        pure (.ok w4)
      else findSymbol char positions

/-- `decodeW4`. -/
def decodeW4 (char : Char) : Except Trap (Except DecodeError UInt8) :=
  findSymbol char (Loops.interval 0 15)

/-- `parse`: the next two characters, with the characters that are left. -/
def parse : List Char → Except Trap (Except DecodeError UInt8 × List Char)
  | c1 :: c2 :: next => do
      match ← decodeW4 c1 with
      | .error e => pure (.error e, next)
      | .ok x1 =>
          match ← decodeW4 c2 with
          | .error e => pure (.error e, next)
          | .ok x2 => do
              let product ← natToNat8 (x1.toNat * base.toNat)
              let w8 ← natToNat8 (product.toNat + x2.toNat)
              pure (.ok w8, next)
  | _ => pure (.error (.msg "Not enough input!"), [])

/-- The `while` loop of `decode`.  Each pass but the last raises `i`, so that `n` passes are
enough. -/
def decodeLoop {n : ℕ} :
    ℕ → ℕ → List Char → Vector UInt8 n → Except Trap (Except DecodeError (Vector UInt8 n))
  | 0, _, _, array => .ok (.ok array)
  | passes + 1, i, next, array =>
      if i ≠ n then do
        match ← parse next with
        | (.ok w8, next) => decodeLoop passes (i + 1) next (← store array i w8)
        | (.error err, _) => pure (.error err)
      else .ok (.ok array)

/-- `decode`. -/
def decode (text : Text) : Except Trap (Except DecodeError (List UInt8)) := do
  let n := text.length / 2 + text.length % 2
  match ← decodeLoop n 0 text.toList (Vector.replicate n 0) with
  | .ok array => pure (.ok array.toList)
  | .error err => pure (.error err)

/-! ### One byte -/

/-- The two symbols of a byte. -/
def digits (b : UInt8) : List Char :=
  [symbols[b.toNat / 16]?.getD '0', symbols[b.toNat % 16]?.getD '0']

theorem encodeW8_eq (b : UInt8) : encodeW8 b = .ok (String.ofList (digits b)) := by
  have hb : b.toNat < 256 := b.toNat_lt
  have hhigh : (b / base).toNat = b.toNat / 16 := rfl
  have hlow : (b % base).toNat = b.toNat % 16 := rfl
  have hfetch {i : ℕ} (hi : i < 16) : fetch symbols i = .ok (symbols[i]?.getD '0') := by
    have hlt : i < symbols.length := hi
    rw [fetch_of_lt hlt, List.getElem?_eq_getElem hlt, Option.getD_some]
  rw [encodeW8, bind_eq_ok, hhigh, hlow]
  refine ⟨_, hfetch (by omega), ?_⟩
  rw [hfetch (by omega)]
  refine congrArg Except.ok (String.toList_injective ?_)
  simp [digits]

/-- **What is written**, and no trap. -/
theorem encode_eq (array : List UInt8) :
    encode array = .ok (String.ofList (array.flatMap digits)) := by
  have hfold (accum : Text) : array.foldlM (fun accum w8 => do pure (accum ++ (← encodeW8 w8)))
      accum = Except.ok (accum ++ String.ofList (array.flatMap digits)) := by
    induction array generalizing accum with
    | nil =>
        refine congrArg Except.ok (String.toList_injective ?_)
        simp
    | cons b array ih =>
        rw [List.foldlM_cons, encodeW8_eq]
        refine (ih _).trans (congrArg Except.ok (String.toList_injective ?_))
        simp
  refine (hfold "").trans (congrArg Except.ok (String.toList_injective ?_))
  simp

/-- The value of a symbol. -/
def value (c : Char) : Option UInt8 :=
  ((List.range 16).find? fun i => symbols[i]? == some c).map UInt8.ofNat

/-- The report of a character that is no symbol. -/
def unexpected (c : Char) : DecodeError :=
  .msg ("Unexpected character: " ++ String.singleton c)

/-- The report of a text that ends too early. -/
def notEnough : DecodeError := .msg "Not enough input!"

/-- **One character** is found among the symbols, or reported. -/
theorem decodeW4_eq (c : Char) :
    decodeW4 c = .ok (match value c with
      | some x => .ok x
      | none => .error (unexpected c)) := by
  have hloop (l : List ℕ) (hl : ∀ i ∈ l, i < 16) :
      findSymbol c l = .ok (match (l.find? fun i => symbols[i]? == some c).map UInt8.ofNat with
        | some x => .ok x
        | none => .error (unexpected c)) := by
    induction l with
    | nil => rfl
    | cons i l ih =>
        have hi : i < symbols.length := hl i List.mem_cons_self
        have hget : symbols[i]? = some symbols[i] := List.getElem?_eq_getElem hi
        have hpass : findSymbol c (i :: l) = if symbols[i] = c then
            natToNat8 i >>= fun w4 => pure (.ok w4) else findSymbol c l := by
          rw [findSymbol, fetch_of_lt hi]
          rfl
        rw [hpass, List.find?_cons, hget]
        by_cases hc : symbols[i] = c
        · have hnat : natToNat8 i = .ok (UInt8.ofNat i) := if_pos (Nat.lt_trans hi (by decide))
          have hbeq : (some symbols[i] == some c) = true := by simpa using hc
          rw [if_pos hc, hnat, hbeq]
          rfl
        · have hbeq : (some symbols[i] == some c) = false := by simpa using hc
          rw [if_neg hc, hbeq]
          exact ih fun j hj => hl j (List.mem_cons_of_mem i hj)
  have hpositions : Loops.interval 0 15 = List.range 16 := Loops.interval_zero 15
  rw [decodeW4, hpositions]
  exact hloop _ fun i hi => List.mem_range.1 hi

theorem value_symbols : ∀ i < 16, value (symbols[i]?.getD '0') = some (UInt8.ofNat i) := by decide

/-- A value is that of one symbol. -/
theorem value_eq_some {c : Char} {x : UInt8} (h : value c = some x) :
    x.toNat < 16 ∧ symbols[x.toNat]?.getD '0' = c := by
  obtain ⟨i, hi, rfl⟩ := Option.map_eq_some_iff.1 h
  have hlt : i < 16 := List.mem_range.1 (List.mem_of_find?_eq_some hi)
  have hsymbol := List.find?_some hi
  have htoNat : (UInt8.ofNat i).toNat = i := UInt8.toNat_ofNat_of_lt' (by change i < 256; omega)
  rw [htoNat]
  exact ⟨hlt, by rw [eq_of_beq hsymbol, Option.getD_some]⟩

theorem value_eq_none {c : Char} : value c = none ↔ c ∉ symbols := by
  rw [value, Option.map_eq_none_iff, List.find?_eq_none]
  constructor
  · intro h hc
    obtain ⟨i, hi, heq⟩ := List.mem_iff_getElem.1 hc
    refine h i (List.mem_range.2 hi) ?_
    rw [List.getElem?_eq_getElem hi, heq]
    exact beq_self_eq_true _
  · intro h i _ hsymbol
    exact h (List.mem_of_getElem? (eq_of_beq hsymbol))

/-! ### The text -/

/-- What the characters of a text are read as. -/
def read : List Char → Except DecodeError (List UInt8)
  | c1 :: c2 :: next =>
      match value c1 with
      | none => .error (unexpected c1)
      | some x1 =>
          match value c2 with
          | none => .error (unexpected c2)
          | some x2 => (read next).map (UInt8.ofNat (x1.toNat * 16 + x2.toNat) :: ·)
  | [_] => .error notEnough
  | [] => .ok []

/-- Two characters do not overflow a byte. -/
theorem parse_eq (c1 c2 : Char) (next : List Char) :
    parse (c1 :: c2 :: next) = .ok (match value c1 with
      | none => .error (unexpected c1)
      | some x1 =>
          match value c2 with
          | none => .error (unexpected c2)
          | some x2 => .ok (UInt8.ofNat (x1.toNat * 16 + x2.toNat)), next) := by
  rw [parse, decodeW4_eq, decodeW4_eq]
  cases h1 : value c1 with
  | none => rfl
  | some x1 =>
      cases h2 : value c2 with
      | none => rfl
      | some x2 =>
          have hx1 := (value_eq_some h1).1
          have hx2 := (value_eq_some h2).1
          have hproduct : natToNat8 (x1.toNat * base.toNat) = .ok (UInt8.ofNat (x1.toNat * 16)) :=
            if_pos (by change x1.toNat * 16 < 256; omega)
          have htoNat : (UInt8.ofNat (x1.toNat * 16)).toNat = x1.toNat * 16 :=
            UInt8.toNat_ofNat_of_lt' (by change _ < 256; omega)
          have hsum : natToNat8 ((UInt8.ofNat (x1.toNat * 16)).toNat + x2.toNat) =
              .ok (UInt8.ofNat (x1.toNat * 16 + x2.toNat)) := by
            rw [htoNat]
            exact if_pos (by omega)
          change natToNat8 _ >>= _ = _
          rw [hproduct]
          change natToNat8 _ >>= _ = _
          rw [hsum]
          rfl

/-- A pass of the loop over two more characters. -/
theorem decodeLoop_pair {n passes i : ℕ} (c1 c2 : Char) (next : List Char) (array : Vector UInt8 n)
    (hi : i < n) (hpasses : n ≤ i + passes) :
    ∃ passes', n ≤ i + 1 + passes' ∧ decodeLoop passes i (c1 :: c2 :: next) array =
      match (match value c1 with
        | none => .error (unexpected c1)
        | some x1 =>
            match value c2 with
            | none => .error (unexpected c2)
            | some x2 => .ok (UInt8.ofNat (x1.toNat * 16 + x2.toNat)) :
              Except DecodeError UInt8) with
      | .ok w8 => decodeLoop passes' (i + 1) next (array.set i w8)
      | .error err => .ok (.error err) := by
  obtain ⟨passes, rfl⟩ : ∃ k, passes = k + 1 := ⟨passes - 1, by omega⟩
  refine ⟨passes, by omega, ?_⟩
  rw [decodeLoop, if_pos (by omega), parse_eq]
  cases value c1 with
  | none => rfl
  | some x1 =>
      cases value c2 with
      | none => rfl
      | some x2 =>
          change store array i _ >>= _ = _
          rw [store_of_lt hi]
          rfl

/-- **The loop** reads the characters that are left into the array from `i` on. -/
theorem decodeLoop_eq {n passes i : ℕ} (l : List Char) (array : Vector UInt8 n)
    (hn : n = i + (l.length / 2 + l.length % 2)) (hpasses : n ≤ i + passes) :
    (decodeLoop passes i l array).map (·.map Vector.toList) =
      .ok ((read l).map (array.toList.take i ++ ·)) := by
  induction l using read.induct generalizing passes i array with
  | case1 c1 c2 next h1 =>
      obtain ⟨passes', -, heq⟩ := decodeLoop_pair c1 c2 next array (i := i)
        (by simp at hn; omega) hpasses
      rw [heq, read, h1]
      rfl
  | case2 c1 c2 next x1 h1 h2 =>
      obtain ⟨passes', -, heq⟩ := decodeLoop_pair c1 c2 next array (i := i)
        (by simp at hn; omega) hpasses
      rw [heq, read, h1, h2]
      rfl
  | case3 c1 c2 next x1 h1 x2 h2 ih =>
      have hi : i < n := by simp at hn; omega
      obtain ⟨passes', hle, heq⟩ := decodeLoop_pair c1 c2 next array hi hpasses
      have hrest := @ih passes' (i + 1) (array.set i (UInt8.ofNat (x1.toNat * 16 + x2.toNat)))
        (by simp at hn; omega) hle
      rw [heq, read, h1, h2]
      refine hrest.trans ?_
      -- the byte just written is the last of the first `i + 1`
      rw [Vector.toList_set, List.take_succ_eq_append_getElem (by simpa using hi),
        List.take_set_of_le (Nat.le_refl _), List.getElem_set_self]
      cases read next with
      | error e => rfl
      | ok bytes => simp [Except.map]
  | case4 c =>
      obtain ⟨passes, rfl⟩ : ∃ k, passes = k + 1 := ⟨passes - 1, by simp at hn; omega⟩
      rw [decodeLoop, if_pos (by simp at hn; omega)]
      rfl
  | case5 =>
      have hi : i = n := by simpa using hn.symm
      subst hi
      have hdone : decodeLoop passes i [] array = .ok (.ok array) := by
        cases passes with
        | zero => rfl
        | succ passes => rw [decodeLoop, if_neg (by simp)]
      rw [hdone, read]
      change Except.ok (Except.ok array.toList) = Except.ok (Except.ok (array.toList.take i ++ []))
      rw [List.append_nil, List.take_of_length_le (by simp)]

/-- **What is read**, and no trap. -/
theorem decode_eq (text : Text) : decode text = .ok (read text.toList) := by
  have hloop := decodeLoop_eq (i := 0) text.toList
    (Vector.replicate (text.length / 2 + text.length % 2) 0)
    (by rw [Nat.zero_add, String.length_toList])
    (show _ ≤ 0 + (text.length / 2 + text.length % 2) by rw [Nat.zero_add])
  rw [List.take_zero] at hloop
  have hid : (read text.toList).map ([] ++ ·) = read text.toList := by
    cases read text.toList <;> rfl
  rw [hid] at hloop
  rw [decode, ← hloop]
  cases decodeLoop (text.length / 2 + text.length % 2) 0 text.toList
    (Vector.replicate (text.length / 2 + text.length % 2) 0) with
  | error e => rfl
  | ok r => cases r <;> rfl

/-! ### The texts that are accepted -/

/-- The value of two symbols of a byte. -/
theorem value_digits (b : UInt8) : ∃ c1 c2, digits b = [c1, c2] ∧
    value c1 = some (UInt8.ofNat (b.toNat / 16)) ∧
    value c2 = some (UInt8.ofNat (b.toNat % 16)) := by
  have hb : b.toNat < 256 := b.toNat_lt
  exact ⟨_, _, rfl, value_symbols _ (by omega), value_symbols _ (by omega)⟩

theorem read_digits (b : UInt8) (next : List Char) :
    read (digits b ++ next) = (read next).map (b :: ·) := by
  have hb : b.toNat < 256 := b.toNat_lt
  obtain ⟨c1, c2, hdigits, h1, h2⟩ := value_digits b
  have hhigh : (UInt8.ofNat (b.toNat / 16)).toNat = b.toNat / 16 :=
    UInt8.toNat_ofNat_of_lt' (by change _ < 256; omega)
  have hlow : (UInt8.ofNat (b.toNat % 16)).toNat = b.toNat % 16 :=
    UInt8.toNat_ofNat_of_lt' (by change _ < 256; omega)
  have hbyte : UInt8.ofNat (b.toNat / 16 * 16 + b.toNat % 16) = b := by
    rw [Nat.div_add_mod', UInt8.ofNat_toNat]
  rw [hdigits, List.cons_append, List.cons_append, List.nil_append, read, h1]
  simp only [h2, hhigh, hlow, hbyte]

/-- **What is accepted** is what the encoder writes. -/
theorem read_eq_ok {l : List Char} {bytes : List UInt8} :
    read l = .ok bytes ↔ l = bytes.flatMap digits := by
  constructor
  · intro h
    induction l using read.induct generalizing bytes with
    | case1 c1 c2 next h1 => simp [read, h1] at h
    | case2 c1 c2 next x1 h1 h2 => simp [read, h1, h2] at h
    | case3 c1 c2 next x1 h1 x2 h2 ih =>
        rw [read, h1] at h
        simp only [h2] at h
        obtain ⟨rest, hrest, rfl⟩ := map_eq_ok.1 h
        obtain ⟨hx1, hc1⟩ := value_eq_some h1
        obtain ⟨hx2, hc2⟩ := value_eq_some h2
        have htoNat : (UInt8.ofNat (x1.toNat * 16 + x2.toNat)).toNat = x1.toNat * 16 + x2.toNat :=
          UInt8.toNat_ofNat_of_lt' (by change _ < 256; omega)
        have hdiv : (x1.toNat * 16 + x2.toNat) / 16 = x1.toNat := by omega
        have hmod : (x1.toNat * 16 + x2.toNat) % 16 = x2.toNat := by omega
        rw [List.flatMap_cons, ← ih hrest, digits, htoNat, hdiv, hmod, hc1, hc2]
        rfl
    | case4 c => simp [read] at h
    | case5 =>
        cases h
        rfl
  · rintro rfl
    induction bytes with
    | nil => rfl
    | cons b bytes ih =>
        rw [List.flatMap_cons, read_digits, ih]
        rfl

/-- The characters of the complete pairs of a text. -/
def pairs (l : List Char) : List Char := l.take (2 * (l.length / 2))

theorem pairs_cons_cons (c1 c2 : Char) (l : List Char) :
    pairs (c1 :: c2 :: l) = c1 :: c2 :: pairs l := by
  have hlen : 2 * ((c1 :: c2 :: l).length / 2) = 2 * (l.length / 2) + 1 + 1 := by
    rw [List.length_cons, List.length_cons]
    omega
  rw [pairs, hlen, List.take_succ_cons, List.take_succ_cons, pairs]

/-- **What is reported**: the first character of a pair that is no symbol, or an incomplete pair. -/
theorem read_eq_error {l : List Char} {e : DecodeError} :
    read l = .error e ↔ (∃ c, (pairs l).find? (fun c => decide (c ∉ symbols)) = some c ∧
      e = unexpected c) ∨ ((∀ c ∈ pairs l, c ∈ symbols) ∧ l.length % 2 = 1 ∧ e = notEnough) := by
  induction l using read.induct with
  | case1 c1 c2 next h1 =>
      have hc1 := value_eq_none.1 h1
      rw [read, h1, pairs_cons_cons, List.find?_cons, decide_eq_true hc1]
      simp [hc1, eq_comm]
  | case2 c1 c2 next x1 h1 h2 =>
      have hc1 : c1 ∈ symbols := by
        by_contra hc
        rw [value_eq_none.2 hc] at h1
        cases h1
      have hc2 := value_eq_none.1 h2
      rw [read, h1, pairs_cons_cons, List.find?_cons, List.find?_cons]
      simp [h2, hc1, hc2, eq_comm]
  | case3 c1 c2 next x1 h1 x2 h2 ih =>
      have hc {c : Char} {x : UInt8} (hx : value c = some x) : c ∈ symbols := by
        by_contra hc
        rw [value_eq_none.2 hc] at hx
        cases hx
      have hmap : (read next).map (UInt8.ofNat (x1.toNat * 16 + x2.toNat) :: ·) = .error e ↔
          read next = .error e := by
        cases read next <;> simp [Except.map]
      rw [read, h1, pairs_cons_cons, List.find?_cons, List.find?_cons]
      simp only [h2, hmap, ih, hc h1, hc h2, List.length_cons, List.mem_cons, forall_eq_or_imp,
        true_and, not_true_eq_false, decide_false, Nat.add_assoc, Nat.add_mod_right]
  | case4 c => simp [read, pairs, eq_comm]
  | case5 => simp [read, pairs]

/-- **The decoder inverts the encoder, and only that.**  Neither of them traps: every array is
encoded as some text, and the text is decoded to the array again.  A text is decoded to the bytes
that are encoded as that text, if there are any.  Otherwise the first character of a complete pair
that is not one of the sixteen symbols is reported, or, if there is none, that the text has an odd
number of characters. -/
theorem decode_inverts :
    (∀ bytes, ∃ text, encode bytes = .ok text ∧ decode text = .ok (.ok bytes)) ∧
    ∀ text, (∃ r, decode text = .ok r) ∧
      (∀ bytes, decode text = .ok (.ok bytes) ↔ encode bytes = .ok text) ∧
      ∀ e, decode text = .ok (.error e) ↔
        (∃ c, (pairs text.toList).find? (fun c => decide (c ∉ symbols)) = some c ∧
          e = .msg ("Unexpected character: " ++ String.singleton c)) ∨
        ((∀ c ∈ pairs text.toList, c ∈ symbols) ∧ text.length % 2 = 1 ∧
          e = .msg "Not enough input!") := by
  have hbytes (text : Text) (bytes : List UInt8) :
      decode text = .ok (.ok bytes) ↔ encode bytes = .ok text := by
    rw [decode_eq, encode_eq, Except.ok.injEq, Except.ok.injEq, read_eq_ok]
    constructor
    · intro h
      rw [← h, String.ofList_toList]
    · rintro rfl
      rw [String.toList_ofList]
  refine ⟨fun bytes => ?_, fun text => ⟨⟨_, decode_eq text⟩, hbytes text, fun e => ?_⟩⟩
  · exact ⟨_, encode_eq bytes, (hbytes _ bytes).2 (encode_eq bytes)⟩
  · rw [decode_eq, Except.ok.injEq, read_eq_error, String.length_toList]
    rfl

/-- A text with a small letter. -/
example : decode "a0" = .ok (.error (unexpected 'a')) := by decide

end Hex

end LegendsNft
