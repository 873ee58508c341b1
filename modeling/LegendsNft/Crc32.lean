/-
**The CRC-32 checksum** (`NNS/CRC32.mo`).

The checksum of an array is computed a byte at a time from a table of 256 words.  Each entry of the
table is eight shifts of its index, so that no index falls outside the table and the checksum is
the remainder of `LegendsNft/Crc.lean` for the polynomial `0xedb88320`, with the register and the
result complemented.

Main definitions:

* `LegendsNft.Crc32.crc32Table`, `LegendsNft.Crc32.ofBlob`, `LegendsNft.Crc32.ofArray` — the
  source's table and functions.

Main results:

* `LegendsNft.Crc32.step_eq` — **one byte**;
* `LegendsNft.Crc32.ofArray_remainder` — **the checksum is a remainder**;
* `LegendsNft.Crc32.ofArray_ne_of_burst` — **which errors are detected**.
-/

import LegendsNft.Arrays
import LegendsNft.Crc

set_option relaxedAutoImplicit false
set_option autoImplicit false

namespace LegendsNft

namespace Crc32

open Polynomial

/-! ### The checksum -/

def crc32Table : List UInt32 := [
  0x00000000, 0x77073096, 0xee0e612c, 0x990951ba, 0x076dc419, 0x706af48f,
  0xe963a535, 0x9e6495a3, 0x0edb8832, 0x79dcb8a4, 0xe0d5e91e, 0x97d2d988,
  0x09b64c2b, 0x7eb17cbd, 0xe7b82d07, 0x90bf1d91, 0x1db71064, 0x6ab020f2,
  0xf3b97148, 0x84be41de, 0x1adad47d, 0x6ddde4eb, 0xf4d4b551, 0x83d385c7,
  0x136c9856, 0x646ba8c0, 0xfd62f97a, 0x8a65c9ec, 0x14015c4f, 0x63066cd9,
  0xfa0f3d63, 0x8d080df5, 0x3b6e20c8, 0x4c69105e, 0xd56041e4, 0xa2677172,
  0x3c03e4d1, 0x4b04d447, 0xd20d85fd, 0xa50ab56b, 0x35b5a8fa, 0x42b2986c,
  0xdbbbc9d6, 0xacbcf940, 0x32d86ce3, 0x45df5c75, 0xdcd60dcf, 0xabd13d59,
  0x26d930ac, 0x51de003a, 0xc8d75180, 0xbfd06116, 0x21b4f4b5, 0x56b3c423,
  0xcfba9599, 0xb8bda50f, 0x2802b89e, 0x5f058808, 0xc60cd9b2, 0xb10be924,
  0x2f6f7c87, 0x58684c11, 0xc1611dab, 0xb6662d3d, 0x76dc4190, 0x01db7106,
  0x98d220bc, 0xefd5102a, 0x71b18589, 0x06b6b51f, 0x9fbfe4a5, 0xe8b8d433,
  0x7807c9a2, 0x0f00f934, 0x9609a88e, 0xe10e9818, 0x7f6a0dbb, 0x086d3d2d,
  0x91646c97, 0xe6635c01, 0x6b6b51f4, 0x1c6c6162, 0x856530d8, 0xf262004e,
  0x6c0695ed, 0x1b01a57b, 0x8208f4c1, 0xf50fc457, 0x65b0d9c6, 0x12b7e950,
  0x8bbeb8ea, 0xfcb9887c, 0x62dd1ddf, 0x15da2d49, 0x8cd37cf3, 0xfbd44c65,
  0x4db26158, 0x3ab551ce, 0xa3bc0074, 0xd4bb30e2, 0x4adfa541, 0x3dd895d7,
  0xa4d1c46d, 0xd3d6f4fb, 0x4369e96a, 0x346ed9fc, 0xad678846, 0xda60b8d0,
  0x44042d73, 0x33031de5, 0xaa0a4c5f, 0xdd0d7cc9, 0x5005713c, 0x270241aa,
  0xbe0b1010, 0xc90c2086, 0x5768b525, 0x206f85b3, 0xb966d409, 0xce61e49f,
  0x5edef90e, 0x29d9c998, 0xb0d09822, 0xc7d7a8b4, 0x59b33d17, 0x2eb40d81,
  0xb7bd5c3b, 0xc0ba6cad, 0xedb88320, 0x9abfb3b6, 0x03b6e20c, 0x74b1d29a,
  0xead54739, 0x9dd277af, 0x04db2615, 0x73dc1683, 0xe3630b12, 0x94643b84,
  0x0d6d6a3e, 0x7a6a5aa8, 0xe40ecf0b, 0x9309ff9d, 0x0a00ae27, 0x7d079eb1,
  0xf00f9344, 0x8708a3d2, 0x1e01f268, 0x6906c2fe, 0xf762575d, 0x806567cb,
  0x196c3671, 0x6e6b06e7, 0xfed41b76, 0x89d32be0, 0x10da7a5a, 0x67dd4acc,
  0xf9b9df6f, 0x8ebeeff9, 0x17b7be43, 0x60b08ed5, 0xd6d6a3e8, 0xa1d1937e,
  0x38d8c2c4, 0x4fdff252, 0xd1bb67f1, 0xa6bc5767, 0x3fb506dd, 0x48b2364b,
  0xd80d2bda, 0xaf0a1b4c, 0x36034af6, 0x41047a60, 0xdf60efc3, 0xa867df55,
  0x316e8eef, 0x4669be79, 0xcb61b38c, 0xbc66831a, 0x256fd2a0, 0x5268e236,
  0xcc0c7795, 0xbb0b4703, 0x220216b9, 0x5505262f, 0xc5ba3bbe, 0xb2bd0b28,
  0x2bb45a92, 0x5cb36a04, 0xc2d7ffa7, 0xb5d0cf31, 0x2cd99e8b, 0x5bdeae1d,
  0x9b64c2b0, 0xec63f226, 0x756aa39c, 0x026d930a, 0x9c0906a9, 0xeb0e363f,
  0x72076785, 0x05005713, 0x95bf4a82, 0xe2b87a14, 0x7bb12bae, 0x0cb61b38,
  0x92d28e9b, 0xe5d5be0d, 0x7cdcefb7, 0x0bdbdf21, 0x86d3d2d4, 0xf1d4e242,
  0x68ddb3f8, 0x1fda836e, 0x81be16cd, 0xf6b9265b, 0x6fb077e1, 0x18b74777,
  0x88085ae6, 0xff0f6a70, 0x66063bca, 0x11010b5c, 0x8f659eff, 0xf862ae69,
  0x616bffd3, 0x166ccf45, 0xa00ae278, 0xd70dd2ee, 0x4e048354, 0x3903b3c2,
  0xa7672661, 0xd06016f7, 0x4969474d, 0x3e6e77db, 0xaed16a4a, 0xd9d65adc,
  0x40df0b66, 0x37d83bf0, 0xa9bcae53, 0xdebb9ec5, 0x47b2cf7f, 0x30b5ffe9,
  0xbdbdf21c, 0xcabac28a, 0x53b39330, 0x24b4a3a6, 0xbad03605, 0xcdd70693,
  0x54de5729, 0x23d967bf, 0xb3667a2e, 0xc4614ab8, 0x5d681b02, 0x2a6f2b94,
  0xb40bbe37, 0xc30c8ea1, 0x5a05df1b, 0x2d02ef8d]

def seed : UInt32 := 0xffffffff

/-- The body of the loop of `ofBlob`. -/
def step (crc : UInt32) (b : UInt8) : Except Trap UInt32 := do
  let entry ← fetch crc32Table ((crc ^^^ UInt32.ofNat b.toNat) &&& 0xff).toNat
  pure (entry ^^^ (crc >>> 8))

/-- `ofBlob`. -/
def ofBlob (blob : Blob) : Except Trap UInt32 := do
  let crc ← blob.foldlM step seed
  pure (crc ^^^ seed)

/-- `ofArray`. -/
def ofArray (arr : List UInt8) : Except Trap UInt32 := ofBlob arr

/-! ### The register -/

/-- The polynomial of the register, without its highest power. -/
def poly : BitVec 32 := 0xedb88320

/-- The entries of the table are eight shifts of their indices. -/
theorem crc32Table_eq {i : ℕ} (h : i < 256) :
    crc32Table[i]? = some ⟨Crc.shifts poly 8 (BitVec.ofNat 32 i)⟩ := by
  have hall : ((List.range 256).all fun i =>
      crc32Table[i]? == some ⟨Crc.shifts poly 8 (BitVec.ofNat 32 i)⟩) = true := by
    decide +kernel
  exact eq_of_beq (List.all_eq_true.1 hall i (List.mem_range.2 h))

/-- The index into the table is the low byte of the register and the byte. -/
theorem toNat_index (crc : UInt32) (b : UInt8) :
    ((crc ^^^ UInt32.ofNat b.toNat) &&& 0xff).toNat =
      ((crc.toBitVec ^^^ b.toBitVec.setWidth 32).setWidth 8).toNat := by
  have hbyte : (UInt32.ofNat b.toNat).toBitVec = b.toBitVec.setWidth 32 := by
    apply BitVec.eq_of_toNat_eq
    rw [BitVec.toNat_setWidth]
    rfl
  have hmask : (0xff : UInt32).toNat = 2 ^ 8 - 1 := rfl
  rw [UInt32.toNat_and, hmask, Nat.and_two_pow_sub_one_eq_mod, BitVec.toNat_setWidth, ← hbyte]
  rfl

/-- **One byte** does not trap, and moves the register by eight shifts. -/
theorem step_eq (crc : UInt32) (b : UInt8) :
    step crc b = .ok ⟨Crc.byte poly crc.toBitVec b.toBitVec⟩ := by
  have hlt := ((crc.toBitVec ^^^ b.toBitVec.setWidth 32).setWidth 8).isLt
  have hentry := crc32Table_eq (toNat_index crc b ▸ hlt)
  rw [step, bind_eq_ok]
  refine ⟨_, fetch_eq_ok.2 hentry, ?_⟩
  rw [toNat_index, BitVec.ofNat_toNat]
  rfl

theorem foldlM_step (arr : List UInt8) (crc : UInt32) :
    arr.foldlM step crc = .ok ⟨Crc.run poly crc.toBitVec (arr.map UInt8.toBitVec)⟩ := by
  induction arr generalizing crc with
  | nil => rfl
  | cons b arr ih =>
      rw [List.foldlM_cons, step_eq]
      exact ih _

theorem ofArray_eq (arr : List UInt8) :
    ofArray arr = .ok (⟨Crc.run poly seed.toBitVec (arr.map UInt8.toBitVec)⟩ ^^^ seed) := by
  rw [ofArray, ofBlob, foldlM_step]
  rfl

/-- The bits of an array, in the order in which they pass the register. -/
def message (arr : List UInt8) : List Bool := Crc.message (arr.map UInt8.toBitVec)

/-- **The generator polynomial.** -/
theorem generator_poly : Crc.generator poly =
    X ^ 32 + X ^ 26 + X ^ 23 + X ^ 22 + X ^ 16 + X ^ 12 + X ^ 11 + X ^ 10 + X ^ 8 + X ^ 7 + X ^ 5 +
      X ^ 4 + X ^ 2 + X + 1 := by
  have hbits : Crc.bits poly = [
      false, false, false, false, false, true, false, false,
      true, true, false, false, false, false, false, true,
      false, false, false, true, true, true, false, true,
      true, false, true, true, false, true, true, true] := by
    decide
  rw [Crc.generator, hbits]
  simp only [Crc.ofBits, List.length_cons, List.length_nil, if_true, Bool.false_eq_true, if_false]
  ring

/-- **The checksum is a remainder.**  For every array, the function does not trap; and its result,
complemented, is the remainder of the bits of the array, behind 32 ones, by the generator. -/
theorem ofArray_remainder (arr : List UInt8) : ∃ crc, ofArray arr = .ok crc ∧
    Crc.ofBits (Crc.bits (crc ^^^ seed).toBitVec) =
      (X ^ 32 * Crc.ofBits (message arr) +
        X ^ (8 * arr.length) * Crc.ofBits (List.replicate 32 true)) %ₘ
      (X ^ 32 + X ^ 26 + X ^ 23 + X ^ 22 + X ^ 16 + X ^ 12 + X ^ 11 + X ^ 10 + X ^ 8 + X ^ 7 +
        X ^ 5 + X ^ 4 + X ^ 2 + X + 1) := by
  refine ⟨_, ofArray_eq arr, ?_⟩
  have hseed : Crc.bits seed.toBitVec = List.replicate 32 true := by decide
  have hcomplement (x : UInt32) : x ^^^ seed ^^^ seed = x := by
    rw [UInt32.xor_assoc, UInt32.xor_self, UInt32.xor_zero]
  rw [hcomplement, Crc.ofBits_run (by decide), List.length_map, hseed, generator_poly, add_comm]
  rfl

/-- **Which errors are detected.**  The checksums of two arrays of one length are the same exactly
when the generator divides the difference of their bits; and they are different when the bits
differ, but only within a window of 32. -/
theorem ofArray_ne_of_burst (arr arr' : List UInt8) (hlen : arr.length = arr'.length) :
    (ofArray arr = ofArray arr' ↔ Crc.generator poly ∣
      Crc.ofBits (message arr) - Crc.ofBits (message arr')) ∧
    ∀ p x y q, message arr = p ++ x ++ q → message arr' = p ++ y ++ q → x.length = y.length →
      x.length ≤ 32 → x ≠ y → ofArray arr ≠ ofArray arr' := by
  have hiff : ofArray arr = ofArray arr' ↔ Crc.run poly seed.toBitVec (arr.map UInt8.toBitVec) =
      Crc.run poly seed.toBitVec (arr'.map UInt8.toBitVec) := by
    rw [ofArray_eq, ofArray_eq, Except.ok.injEq, UInt32.xor_left_inj]
    exact ⟨fun h => UInt32.ofBitVec.inj h, fun h => by rw [h]⟩
  have hmsb : poly.getLsbD (32 - 1) = true := by decide
  refine ⟨?_, ?_⟩
  · rw [hiff, Crc.run_eq_iff_dvd (by decide) hmsb _ (by simpa using hlen)]
    rfl
  · intro p x y q h h' hxy hx hne
    rw [ne_eq, hiff]
    exact Crc.run_ne_of_burst (by decide) hmsb _ h h' hxy hx hne

/-- Two arrays that differ in their second byte. -/
theorem ofArray_ne_of_burst_sample : ofArray [1, 2, 3] ≠ ofArray [1, 5, 3] :=
  (ofArray_ne_of_burst [1, 2, 3] [1, 5, 3] rfl).2 (message [1]) (message [2]) (message [5])
    (message [3]) (by decide) (by decide) (by decide) (by decide) (by decide)

/-- The checksum of the nine digits. -/
example : ofArray [0x31, 0x32, 0x33, 0x34, 0x35, 0x36, 0x37, 0x38, 0x39] = .ok 0xcbf43926 := by
  decide +kernel

end Crc32

end LegendsNft
