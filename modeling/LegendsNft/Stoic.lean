/-
**Decoding token identifiers** (`Integrations/Stoic/lib.mo`).

A token identifier is the text of a principal whose bytes are a domain separator, the canister and
the index in four bytes, the most significant first.  `decodeToken` counts the bytes with 8-bit
counters: a first loop compares the first four with the separator, a second one sorts the others
into those of the canister and those of the index, and the index is put together from its last byte
on.  A principal has at most 29 bytes, so no counter overflows.

Main definitions:

* `LegendsNft.Stoic.decodeToken` — the source's function;
* `LegendsNft.Stoic.ofBytes` — what it makes of the bytes;
* `LegendsNft.Stoic.tokenBytes` — the bytes of a token identifier.

Main results:

* `LegendsNft.Stoic.decodeToken_eq` — **what is decoded**, and no trap but of `Principal.fromText`;
* `LegendsNft.Stoic.ofBytes_tokenBytes` — the index of a token identifier;
* `LegendsNft.Stoic.decodeToken_inverts` — **decoding inverts the encoding of tokens**, and takes
  the bytes of every other principal for a canister.
-/

import LegendsNft.Types

set_option relaxedAutoImplicit false
set_option autoImplicit false

namespace LegendsNft

/-- An 8-bit number, or an overflow. -/
def nat8 (n : ℕ) : Except Trap UInt8 :=
  if n < 2 ^ 8 then .ok (UInt8.ofNat n) else .error .overflow

/-- A 32-bit number, or an overflow. -/
def nat32 (n : ℕ) : Except Trap UInt32 :=
  if n < 2 ^ 32 then .ok (UInt32.ofNat n) else .error .overflow

/-- A difference of 8-bit numbers, or an underflow. -/
def sub8 (a b : UInt8) : Except Trap UInt8 := if b ≤ a then .ok (a - b) else .error .underflow

namespace Stoic

/-- `Stoic.Token`. -/
structure Token where
  index : TokenIndex
  canister : Blob
  deriving DecidableEq, Repr

/-- The domain separator, `"\x0Atid"`. -/
def tds : Blob := [10, 116, 105, 100]

/-- The first loop of `decodeToken`: the number of bytes, or nothing if the first four differ from
the domain separator, upon which the call returns. -/
def checkTds (length : UInt8) (tdscheck : Blob) : Blob → Except Trap (Option UInt8)
  | [] => .ok (some length)
  | b :: bytes => do
      let length ← nat8 (length.toNat + 1)
      let tdscheck := if length ≤ 4 then tdscheck ++ [b] else tdscheck
      if length = 4 ∧ tdscheck ≠ tds then pure none else checkTds length tdscheck bytes

/-- The second loop of `decodeToken`: the bytes of the canister and those of the index. -/
def splitToken (length index : UInt8) (canister token_index : Blob) :
    Blob → Except Trap (Blob × Blob)
  | [] => .ok (canister, token_index)
  | b :: bytes => do
      let index ← nat8 (index.toNat + 1)
      if 5 ≤ index then
        let border ← sub8 length 4
        if index ≤ border then splitToken length index (canister ++ [b]) token_index bytes
        else splitToken length index canister (token_index ++ [b]) bytes
      else splitToken length index canister token_index bytes

/-- A step of the fold of `bytestonat32`, with the counter `index` of the shift. -/
def addByte (u8 : UInt8) (index accum : UInt32) : Except Trap (UInt32 × UInt32) := do
  let index ← nat32 (index.toNat + 1)
  let shift ← nat32 ((index.toNat - 1) * 8)
  let accum ← nat32 (accum.toNat + (u8.toUInt32 <<< shift).toNat)
  pure (index, accum)

/-- The fold of `bytestonat32`, from the last byte on. -/
def addBytes : Blob → Except Trap (UInt32 × UInt32)
  | [] => .ok (0, 0)
  | u8 :: b => do
      let (index, accum) ← addBytes b
      addByte u8 index accum

/-- `bytestonat32`. -/
def bytestonat32 (b : Blob) : Except Trap UInt32 := (addBytes b).map Prod.snd

/-- `decodeToken`; `Principal.fromText` traps at a text that is not that of a principal. -/
def decodeToken (fromText : Text → Option Principal) (tid : Text) : Except Trap Token := do
  let principal ← orTrap .assertion (fromText tid)
  let bytes := principal.bytes
  match ← checkTds 0 [] bytes with
  | none => pure { index := 0, canister := bytes }
  | some length =>
      let (canister, token_index) ← splitToken length 0 [] [] bytes
      let index ← bytestonat32 token_index
      pure { index := index, canister := canister }

/-! ### What is decoded -/

/-- The value of some bytes, the most significant first. -/
def value : Blob → ℕ
  | [] => 0
  | b :: bytes => b.toNat * 256 ^ bytes.length + value bytes

/-- What `decodeToken` makes of the bytes of a principal. -/
def ofBytes (bytes : Blob) : Token :=
  if 4 ≤ bytes.length ∧ bytes.take 4 ≠ tds then ⟨0, bytes⟩
  else ⟨UInt32.ofNat (value (bytes.drop (max 4 (bytes.length - 4)))),
    (bytes.take (bytes.length - 4)).drop 4⟩

theorem nat8_of_lt {n : ℕ} (h : n < 2 ^ 8) : nat8 n = .ok (UInt8.ofNat n) := if_pos h

theorem nat32_of_lt {n : ℕ} (h : n < 2 ^ 32) : nat32 n = .ok (UInt32.ofNat n) := if_pos h

theorem toNat_ofNat8 {n : ℕ} (h : n < 2 ^ 8) : (UInt8.ofNat n).toNat = n :=
  UInt8.toNat_ofNat_of_lt' h

theorem toNat_ofNat32 {n : ℕ} (h : n < 2 ^ 32) : (UInt32.ofNat n).toNat = n :=
  UInt32.toNat_ofNat_of_lt' h

theorem value_lt (bytes : Blob) : value bytes < 256 ^ bytes.length := by
  induction bytes with
  | nil => exact Nat.one_pos
  | cons b bytes ih =>
      have hb : b.toNat ≤ 255 := Nat.le_of_lt_succ b.toNat_lt
      calc value (b :: bytes) < b.toNat * 256 ^ bytes.length + 256 ^ bytes.length :=
            Nat.add_lt_add_left ih _
        _ = (b.toNat + 1) * 256 ^ bytes.length := by rw [Nat.add_mul, Nat.one_mul]
        _ ≤ 256 * 256 ^ bytes.length := Nat.mul_le_mul_right _ (Nat.succ_le_succ hb)
        _ = 256 ^ (b :: bytes).length := by rw [List.length_cons, Nat.pow_succ, Nat.mul_comm]

/-- A byte moved to its place. -/
theorem toNat_shift (b : UInt8) {k : ℕ} (hk : k < 4) :
    (b.toUInt32 <<< UInt32.ofNat (k * 8)).toNat = b.toNat * 256 ^ k := by
  have hb := b.toNat_lt
  have hshift : (UInt32.ofNat (k * 8)).toNat = k * 8 := toNat_ofNat32 (by omega)
  have hpow : 2 ^ (k * 8) = 256 ^ k := by rw [Nat.mul_comm, Nat.pow_mul]
  have hmod : k * 8 % 32 = k * 8 := Nat.mod_eq_of_lt (by omega)
  rw [UInt32.toNat_shiftLeft, hshift, hmod, Nat.shiftLeft_eq, hpow, UInt8.toNat_toUInt32]
  have hle : 256 ^ k ≤ 256 ^ 3 := Nat.pow_le_pow_right (by decide) (by omega)
  refine Nat.mod_eq_of_lt ?_
  calc b.toNat * 256 ^ k ≤ 255 * 256 ^ 3 := Nat.mul_le_mul (by omega) hle
    _ < 2 ^ 32 := by decide

theorem addByte_eq (b : UInt8) {k accum : ℕ} (hk : k < 4) (haccum : accum < 256 ^ k) :
    addByte b (UInt32.ofNat k) (UInt32.ofNat accum) =
      .ok (UInt32.ofNat (k + 1), UInt32.ofNat (b.toNat * 256 ^ k + accum)) := by
  have hpow : 256 ^ k * 256 ≤ 2 ^ 32 := by
    rw [← Nat.pow_succ]
    exact (Nat.pow_le_pow_right (by decide) hk).trans (by decide)
  have hb := b.toNat_lt
  have hsum : b.toNat * 256 ^ k + accum < 2 ^ 32 := by
    calc b.toNat * 256 ^ k + accum < b.toNat * 256 ^ k + 256 ^ k := Nat.add_lt_add_left haccum _
      _ = (b.toNat + 1) * 256 ^ k := by rw [Nat.add_mul, Nat.one_mul]
      _ ≤ 256 * 256 ^ k := Nat.mul_le_mul_right _ (by omega)
      _ ≤ 2 ^ 32 := by rwa [Nat.mul_comm]
  have hk' : (UInt32.ofNat k).toNat = k := toNat_ofNat32 (by omega)
  have hk'' : (UInt32.ofNat (k + 1)).toNat = k + 1 := toNat_ofNat32 (by omega)
  have haccum' : (UInt32.ofNat accum).toNat = accum := toNat_ofNat32 (by omega)
  simp only [addByte, hk', haccum', bind_eq_ok]
  refine ⟨UInt32.ofNat (k + 1), nat32_of_lt (by omega), UInt32.ofNat (k * 8), ?_, ?_⟩
  · rw [hk'', Nat.add_sub_cancel]
    exact nat32_of_lt (by omega)
  · rw [toNat_shift b hk, Nat.add_comm accum]
    exact ⟨_, nat32_of_lt hsum, rfl⟩

theorem addBytes_eq {bytes : Blob} (h : bytes.length ≤ 4) :
    addBytes bytes = .ok (UInt32.ofNat bytes.length, UInt32.ofNat (value bytes)) := by
  induction bytes with
  | nil => rfl
  | cons b bytes ih =>
      rw [List.length_cons] at h
      exact bind_eq_ok.2 ⟨_, ih (by omega), addByte_eq b (by omega) (value_lt bytes)⟩

/-- **The index** is the value of its bytes. -/
theorem bytestonat32_eq {bytes : Blob} (h : bytes.length ≤ 4) :
    bytestonat32 bytes = .ok (UInt32.ofNat (value bytes)) := by
  rw [bytestonat32, addBytes_eq h]
  rfl

/-- The first loop, after some bytes. -/
theorem checkTds_eq {bytes : Blob} (pre : Blob) (h : (pre ++ bytes).length < 2 ^ 8) :
    checkTds (UInt8.ofNat pre.length) (pre.take 4) bytes =
      .ok (if pre.length < 4 ∧ 4 ≤ (pre ++ bytes).length ∧ (pre ++ bytes).take 4 ≠ tds then none
        else some (UInt8.ofNat (pre ++ bytes).length)) := by
  induction bytes generalizing pre with
  | nil =>
      rw [checkTds, List.append_nil, if_neg (by omega)]
  | cons b bytes ih =>
      have hassoc : pre ++ b :: bytes = (pre ++ [b]) ++ bytes := by simp
      have hlen : (pre ++ b :: bytes).length = pre.length + 1 + bytes.length := by
        rw [hassoc, List.length_append, List.length_append, List.length_singleton]
      have hpre : (UInt8.ofNat pre.length).toNat = pre.length :=
        toNat_ofNat8 (by omega)
      have hnext : (UInt8.ofNat (pre.length + 1)).toNat = pre.length + 1 :=
        toNat_ofNat8 (by omega)
      have hle : UInt8.ofNat (pre.length + 1) ≤ 4 ↔ pre.length < 4 := by
        rw [UInt8.le_iff_toNat_le, hnext]
        exact Iff.rfl
      have heq : UInt8.ofNat (pre.length + 1) = 4 ↔ pre.length = 3 := by
        rw [← UInt8.toNat_inj, hnext]
        exact Nat.succ_inj
      have htake : (if UInt8.ofNat (pre.length + 1) ≤ 4 then pre.take 4 ++ [b] else pre.take 4) =
          (pre ++ [b]).take 4 := by
        split_ifs with hl
        · rw [hle] at hl
          rw [List.take_of_length_le (by omega), List.take_of_length_le (by simp; omega)]
        · rw [hle] at hl
          rw [List.take_append_of_le_length (by omega)]
      have hrest := ih (pre ++ [b]) (by rwa [← hassoc])
      rw [List.length_append, List.length_singleton, ← hassoc] at hrest
      rw [checkTds, hpre, bind_eq_ok]
      refine ⟨_, nat8_of_lt (by omega), ?_⟩
      simp only [htake, heq]
      by_cases hthree : pre.length = 3
      · have hfour : (pre ++ b :: bytes).take 4 = (pre ++ [b]).take 4 := by
          rw [hassoc, List.take_append_of_le_length (by simp; omega)]
        by_cases htds : (pre ++ [b]).take 4 ≠ tds
        · rw [if_pos ⟨hthree, htds⟩, if_pos ⟨by omega, by omega, hfour ▸ htds⟩]
          rfl
        · rw [if_neg (fun h => htds h.2), hrest, if_neg (by omega),
            if_neg (fun h => htds (hfour ▸ h.2.2))]
      · rw [if_neg (fun h => hthree h.1), hrest]
        have hiff : pre.length + 1 < 4 ↔ pre.length < 4 := by omega
        simp only [hiff]

/-- The bytes of the canister among these, when there are `n` altogether. -/
def canisterPart (n : ℕ) (bytes : Blob) : Blob := (bytes.take (n - 4)).drop 4

/-- The bytes of the index among these, when there are `n` altogether. -/
def indexPart (n : ℕ) (bytes : Blob) : Blob := bytes.drop (max 4 (n - 4))

/-- The second loop, after some bytes. -/
theorem splitToken_eq {n : ℕ} (hn : n < 2 ^ 8) {bytes : Blob} (pre : Blob)
    (h : (pre ++ bytes).length = n) :
    splitToken (UInt8.ofNat n) (UInt8.ofNat pre.length) (canisterPart n pre) (indexPart n pre)
      bytes = .ok (canisterPart n (pre ++ bytes), indexPart n (pre ++ bytes)) := by
  induction bytes generalizing pre with
  | nil => rw [splitToken, List.append_nil]
  | cons b bytes ih =>
      have hassoc : pre ++ b :: bytes = (pre ++ [b]) ++ bytes := by simp
      have hlen : pre.length + 1 + bytes.length = n := by
        rw [← h, hassoc, List.length_append, List.length_append, List.length_singleton]
      have hpre : (UInt8.ofNat pre.length).toNat = pre.length := toNat_ofNat8 (by omega)
      have hnext : (UInt8.ofNat (pre.length + 1)).toNat = pre.length + 1 := toNat_ofNat8 (by omega)
      have hn' : (UInt8.ofNat n).toNat = n := toNat_ofNat8 hn
      have hfive : 5 ≤ UInt8.ofNat (pre.length + 1) ↔ 4 ≤ pre.length := by
        rw [UInt8.le_iff_toNat_le, hnext]
        exact Nat.succ_le_succ_iff
      have hrest := ih (pre ++ [b]) (by rwa [← hassoc])
      rw [List.length_append, List.length_singleton, ← hassoc] at hrest
      rw [splitToken, hpre, bind_eq_ok]
      refine ⟨_, nat8_of_lt (by omega), ?_⟩
      by_cases hfour : 4 ≤ pre.length
      · have hfour' : (4 : UInt8) ≤ UInt8.ofNat n := by
          rw [UInt8.le_iff_toNat_le, hn']
          exact le_trans hfour (by omega)
        have hborder : (UInt8.ofNat n - 4).toNat = n - 4 := by
          rw [UInt8.toNat_sub_of_le _ _ hfour', hn']
          rfl
        have hle : UInt8.ofNat (pre.length + 1) ≤ UInt8.ofNat n - 4 ↔ pre.length + 1 ≤ n - 4 := by
          rw [UInt8.le_iff_toNat_le, hnext, hborder]
        rw [if_pos (hfive.2 hfour), bind_eq_ok]
        refine ⟨_, if_pos hfour', ?_⟩
        by_cases hcanister : pre.length + 1 ≤ n - 4
        · -- the byte belongs to the canister
          have hc : canisterPart n (pre ++ [b]) = canisterPart n pre ++ [b] := by
            rw [canisterPart, canisterPart, List.take_of_length_le (by simp; omega),
              List.take_of_length_le (by omega), List.drop_append_of_le_length hfour]
          have hi : indexPart n (pre ++ [b]) = indexPart n pre := by
            rw [indexPart, indexPart, List.drop_eq_nil_of_le (by simp; omega),
              List.drop_eq_nil_of_le (by omega)]
          rw [if_pos (hle.2 hcanister), ← hc, ← hi]
          exact hrest
        · have hc : canisterPart n (pre ++ [b]) = canisterPart n pre := by
            rw [canisterPart, canisterPart, List.take_append_of_le_length (by omega)]
          have hi : indexPart n (pre ++ [b]) = indexPart n pre ++ [b] := by
            rw [indexPart, indexPart, List.drop_append_of_le_length (by omega)]
          rw [if_neg (fun h => hcanister (hle.1 h)), ← hc, ← hi]
          exact hrest
      · have hc : canisterPart n (pre ++ [b]) = canisterPart n pre := by
          rw [canisterPart, canisterPart, List.drop_eq_nil_of_le (by simp; omega),
            List.drop_eq_nil_of_le (by simp; omega)]
        have hi : indexPart n (pre ++ [b]) = indexPart n pre := by
          rw [indexPart, indexPart, List.drop_eq_nil_of_le (by simp; omega),
            List.drop_eq_nil_of_le (by omega)]
        rw [if_neg (fun h => hfour (hfive.1 h)), ← hc, ← hi]
        exact hrest

/-- **What is decoded**: the only trap is that of `Principal.fromText`. -/
theorem decodeToken_eq {fromText : Text → Option Principal} {tid : Text} {p : Principal}
    (h : fromText tid = some p) (hlen : p.bytes.length < 2 ^ 8) :
    decodeToken fromText tid = .ok (ofBytes p.bytes) := by
  have hcheck := checkTds_eq [] hlen
  have hsplit := splitToken_eq hlen [] rfl
  have hindex : (indexPart p.bytes.length p.bytes).length ≤ 4 := by
    rw [indexPart, List.length_drop]
    omega
  simp only [canisterPart, indexPart, List.nil_append, List.length_nil, List.take_nil,
    List.drop_nil, Nat.zero_lt_succ, true_and] at hcheck hsplit
  rw [decodeToken, h, bind_eq_ok]
  refine ⟨p, rfl, bind_eq_ok.2 ⟨_, hcheck, ?_⟩⟩
  rw [ofBytes]
  split_ifs
  · rfl
  · exact bind_eq_ok.2 ⟨_, hsplit, bind_eq_ok.2 ⟨_, bytestonat32_eq hindex, rfl⟩⟩

/-! ### Token identifiers -/

/-- The four bytes of an index, the most significant first. -/
def bigEndian (i : TokenIndex) : Blob :=
  [UInt8.ofNat (i.toNat / 256 ^ 3), UInt8.ofNat (i.toNat / 256 ^ 2), UInt8.ofNat (i.toNat / 256),
    UInt8.ofNat i.toNat]

/-- The bytes of the principal that stands for a token. -/
def tokenBytes (canister : Principal) (i : TokenIndex) : Blob :=
  tds ++ canister.bytes ++ bigEndian i

theorem value_bigEndian (i : TokenIndex) : value (bigEndian i) = i.toNat := by
  have hi : i.toNat < 4294967296 := i.toNat_lt
  simp only [bigEndian, value, List.length_cons, List.length_nil, UInt8.toNat_ofNat']
  omega

/-- **The index and the canister of a token identifier.** -/
theorem ofBytes_tokenBytes (canister : Principal) (i : TokenIndex) :
    ofBytes (tokenBytes canister i) = ⟨i, canister.bytes⟩ := by
  have hlen : (tokenBytes canister i).length = canister.bytes.length + 8 := by
    simp [tokenBytes, tds, bigEndian]
  have hfront : (tds ++ canister.bytes).length = canister.bytes.length + 4 := by
    simp [tds]
  have htds : (tokenBytes canister i).take 4 = tds := rfl
  have hindex : (tokenBytes canister i).drop (canister.bytes.length + 4) = bigEndian i := by
    rw [tokenBytes, ← hfront, List.drop_left]
  have hcanister : ((tokenBytes canister i).take (canister.bytes.length + 4)).drop 4 =
      canister.bytes := by
    rw [tokenBytes, ← hfront, List.take_left]
    rfl
  have hborder : canister.bytes.length + 8 - 4 = canister.bytes.length + 4 := rfl
  rw [ofBytes, if_neg (fun h => h.2 htds), hlen, hborder, max_eq_right (by omega), hindex,
    hcanister, value_bigEndian, UInt32.ofNat_toNat]

theorem length_tokenBytes (canister : Principal) (i : TokenIndex) :
    (tokenBytes canister i).length = canister.bytes.length + 8 := by
  simp [tokenBytes, tds, bigEndian]

/-- **Decoding inverts the encoding of tokens**: the text of a token is decoded to its canister and
its index.  No text of a principal traps, and bytes that begin otherwise are a canister, with the
index zero. -/
theorem decodeToken_inverts (fromText : Text → Option Principal) (tid : Text) :
    (∀ canister i, canister.bytes.length ≤ 21 →
      fromText tid = some ⟨tokenBytes canister i⟩ →
        decodeToken fromText tid = .ok ⟨i, canister.bytes⟩) ∧
    ∀ p, p.bytes.length ≤ 29 → fromText tid = some p →
      (∃ token, decodeToken fromText tid = .ok token) ∧
        (4 ≤ p.bytes.length → p.bytes.take 4 ≠ tds →
          decodeToken fromText tid = .ok ⟨0, p.bytes⟩) := by
  constructor
  · intro canister i hlen h
    have hbytes : (tokenBytes canister i).length < 2 ^ 8 := by
      rw [length_tokenBytes]
      omega
    rw [decodeToken_eq h hbytes, ofBytes_tokenBytes]
  · intro p hlen h
    have hdecode := decodeToken_eq h (hlen.trans_lt (by decide))
    refine ⟨⟨_, hdecode⟩, ?_⟩
    intro hfour hprefix
    rw [hdecode, ofBytes, if_pos ⟨hfour, hprefix⟩]

/-- A canister. -/
def sampleCanister : Principal := ⟨[0, 0, 0, 0, 1, 48, 2, 48, 1, 1]⟩

/-- The texts of a canister and of one of its tokens. -/
def sampleFromText : Text → Option Principal
  | "nges7-giaaa-aaaaj-qaiya-cai" => some sampleCanister
  | "mtdog-hakor-uwiaa-aaaaa-cmacg-aaqca-aaaeb-a" => some ⟨tokenBytes sampleCanister 258⟩
  | _ => none

theorem decodeToken_inverts_sample :
    decodeToken sampleFromText "mtdog-hakor-uwiaa-aaaaa-cmacg-aaqca-aaaeb-a" =
      .ok ⟨258, sampleCanister.bytes⟩ ∧
    decodeToken sampleFromText "nges7-giaaa-aaaaj-qaiya-cai" = .ok ⟨0, sampleCanister.bytes⟩ :=
  ⟨(decodeToken_inverts sampleFromText _).1 sampleCanister 258 (by decide) rfl,
    ((decodeToken_inverts sampleFromText _).2 sampleCanister (by decide) rfl).2 (by decide)
      (by decide)⟩

end Stoic

end LegendsNft
