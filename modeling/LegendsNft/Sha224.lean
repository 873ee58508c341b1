/-
**The SHA-224 digest** (`NNS/SHA224.mo`).

A digest holds eight words, a buffer of 64 bytes of which `nx` wait for the rest of their block, and
the number of bytes written so far.  `write` fills up the buffer first, then takes the full blocks
of what is left, and puts the remainder into the buffer; `sum` writes the padding and returns the
first seven words.  The loops are those of the source, with every read, write and subtraction
checked.

Main definitions:

* `LegendsNft.Sha224.K`, `LegendsNft.Sha224.S` — the constants;
* `LegendsNft.Sha224.Digest` — the state of a digest;
* `LegendsNft.Sha224.block` — the compression of full blocks;
* `LegendsNft.Sha224.Digest.write`, `LegendsNft.Sha224.Digest.sum`,
  `LegendsNft.Sha224.Digest.reset` — the methods;
* `LegendsNft.Sha224.sha224` — **the hash**.
-/

import LegendsNft.Arrays
import LegendsNft.Sha2

set_option relaxedAutoImplicit false
set_option autoImplicit false

namespace LegendsNft

namespace Sha224

/-! ### Constants -/

def K : List UInt32 := [
  0x428a2f98, 0x71374491, 0xb5c0fbcf, 0xe9b5dba5,
  0x3956c25b, 0x59f111f1, 0x923f82a4, 0xab1c5ed5,
  0xd807aa98, 0x12835b01, 0x243185be, 0x550c7dc3,
  0x72be5d74, 0x80deb1fe, 0x9bdc06a7, 0xc19bf174,
  0xe49b69c1, 0xefbe4786, 0x0fc19dc6, 0x240ca1cc,
  0x2de92c6f, 0x4a7484aa, 0x5cb0a9dc, 0x76f988da,
  0x983e5152, 0xa831c66d, 0xb00327c8, 0xbf597fc7,
  0xc6e00bf3, 0xd5a79147, 0x06ca6351, 0x14292967,
  0x27b70a85, 0x2e1b2138, 0x4d2c6dfc, 0x53380d13,
  0x650a7354, 0x766a0abb, 0x81c2c92e, 0x92722c85,
  0xa2bfe8a1, 0xa81a664b, 0xc24b8b70, 0xc76c51a3,
  0xd192e819, 0xd6990624, 0xf40e3585, 0x106aa070,
  0x19a4c116, 0x1e376c08, 0x2748774c, 0x34b0bcb5,
  0x391c0cb3, 0x4ed8aa4a, 0x5b9cca4f, 0x682e6ff3,
  0x748f82ee, 0x78a5636f, 0x84c87814, 0x8cc70208,
  0x90befffa, 0xa4506ceb, 0xbef9a3f7, 0xc67178f2]

def S : Vector UInt32 8 := #v[
  0xc1059ed8, 0x367cd507, 0x3070dd17, 0xf70e5939,
  0xffc00b31, 0x68581511, 0x64f98fa7, 0xbefa4fa4]

/-- `rot`, that is `Nat32.bitrotRight`. -/
def rot (x k : UInt32) : UInt32 := ⟨x.toBitVec.rotateRight k.toNat⟩

/-! ### Blocks -/

/-- `Nat32.fromIntWrap(Nat8.toNat(b))`. -/
def widen (b : UInt8) : UInt32 := UInt32.ofNat b.toNat

/-- The loop over the first sixteen words of `w`. -/
def loadWords (p : List UInt8) (w : Vector UInt32 64) : Except Trap (Vector UInt32 64) :=
  (Loops.interval 0 15).foldlM (fun w i => do
    let j := i * 4
    let b0 ← fetch p (j + 0)
    let b1 ← fetch p (j + 1)
    let b2 ← fetch p (j + 2)
    let b3 ← fetch p (j + 3)
    store w i (widen b0 <<< 24 ||| widen b1 <<< 16 ||| widen b2 <<< 8 ||| widen b3 <<< 0)) w

/-- The loop over the other words of `w`. -/
def extendWords (w : Vector UInt32 64) : Except Trap (Vector UInt32 64) :=
  (Loops.interval 16 63).foldlM (fun w i => do
    let v1 ← fetch w.toList (← natSub i 2)
    let v2 ← fetch w.toList (← natSub i 15)
    let t1 := rot v1 17 ^^^ rot v1 19 ^^^ (v1 >>> 10)
    let t2 := rot v2 7 ^^^ rot v2 18 ^^^ (v2 >>> 3)
    let w7 ← fetch w.toList (← natSub i 7)
    let w16 ← fetch w.toList (← natSub i 16)
    store w i (t1 + w7 + t2 + w16)) w

/-- The body of the loop over the rounds. -/
def mix (v : Sha2.Working) (k w : UInt32) : Sha2.Working :=
  let t1 := rot v.e 6 ^^^ rot v.e 11 ^^^ rot v.e 25
  let t1 := t1 + (((v.e &&& v.f) ^^^ (~~~v.e &&& v.g)) + v.h + k + w)
  let t2 := rot v.a 2 ^^^ rot v.a 13 ^^^ rot v.a 22
  let t2 := t2 + ((v.a &&& v.b) ^^^ (v.a &&& v.c) ^^^ (v.b &&& v.c))
  { h := v.g
    g := v.f
    f := v.e
    e := v.d + t1
    d := v.c
    c := v.b
    b := v.a
    a := t1 + t2 }

/-- The loop over the rounds. -/
def mixWords (w : Vector UInt32 64) (v : Sha2.Working) : Except Trap Sha2.Working :=
  (Loops.interval 0 63).foldlM (fun v i => do
    let k ← fetch K i
    let w ← fetch w.toList i
    pure (mix v k w)) v

/-- One pass of the `while` loop of `block`, up to the last assignment. -/
def blockPass (s : Vector UInt32 8) (w : Vector UInt32 64) (p : List UInt8) :
    Except Trap (Vector UInt32 8 × Vector UInt32 64) := do
  let w ← loadWords p w
  let w ← extendWords w
  let v ← mixWords w
    ⟨s.get 0, s.get 1, s.get 2, s.get 3, s.get 4, s.get 5, s.get 6, s.get 7⟩
  pure (#v[s.get 0 + v.a, s.get 1 + v.b, s.get 2 + v.c, s.get 3 + v.d, s.get 4 + v.e,
    s.get 5 + v.f, s.get 6 + v.g, s.get 7 + v.h], w)

/-- The `while` loop of `block`.  The array `w` is allocated once and written anew in each pass.
Each pass drops 64 bytes, so that as many passes as there are bytes are enough. -/
def blockLoop : ℕ → Vector UInt32 8 → Vector UInt32 64 → List UInt8 → Except Trap (Vector UInt32 8)
  | 0, s, _, _ => .ok s
  | passes + 1, s, w, p =>
      if 64 ≤ p.length then do
        let (s, w) ← blockPass s w p
        blockLoop passes s w (← suffixFrom p 64)
      else .ok s

/-- `block`. -/
def block (s : Vector UInt32 8) (data : List UInt8) : Except Trap (Vector UInt32 8) :=
  blockLoop data.length s (Vector.replicate 64 0) data

/-! ### Digests -/

/-- The state of `Digest`. -/
structure Digest where
  s : Vector UInt32 8
  x : Vector UInt8 64
  nx : ℕ
  len : UInt64

namespace Digest

/-- `Digest()`. -/
def new : Digest := ⟨S, Vector.replicate 64 0, 0, 0⟩

/-- `reset`. -/
def reset (d : Digest) : Digest := { d with s := S, nx := 0, len := 0 }

/-- `write`: a full buffer is a block. -/
def flush (d : Digest) : Except Trap Digest :=
  if d.nx = 64 then do
    let s ← block d.s d.x.toList
    pure { d with s := s, nx := 0 }
  else pure d

/-- `write`, the first branch: the buffer, if there is something in it, is filled up. -/
def fillBuffer (d : Digest) (p : List UInt8) : Except Trap (Digest × List UInt8) :=
  if d.nx > 0 then do
    let n := min p.length (← natSub 64 d.nx)
    -- the last index is an integer: with nothing to copy the loop is empty
    let x ← copyInto d.x d.nx p (n - 1)
    let d ← flush { d with x := x, nx := d.nx + n }
    pure (d, ← suffixFrom p n)
  else pure (d, p)

/-- `write`, the second branch: the full blocks of what is left. -/
def fullBlocks (d : Digest) (p : List UInt8) : Except Trap (Digest × List UInt8) :=
  if p.length ≥ 64 then do
    let n := (UInt64.ofNat p.length &&& ~~~63).toNat
    let buf ← tabulate n (fetch p)
    let s ← block d.s buf
    pure ({ d with s := s }, ← suffixFrom p n)
  else pure (d, p)

/-- `write`, the third branch: the remainder goes into the buffer. -/
def keepRest (d : Digest) (p : List UInt8) : Except Trap Digest :=
  if p.length > 0 then do
    let x ← copyInto d.x 0 p (p.length - 1)
    pure { d with x := x, nx := p.length }
  else pure d

/-- `write`. -/
def write (d : Digest) (data : List UInt8) : Except Trap Digest := do
  let d := { d with len := d.len + UInt64.ofNat data.length }
  let (d, p) ← d.fillBuffer data
  let (d, p) ← d.fullBlocks p
  d.keepRest p

/-- The padding `sum` writes first: a byte `0x80` and zeros. -/
def marker (len : UInt64) : Except Trap (List UInt8) := do
  let t := len.toNat % 64
  let m ← if 56 > t then natSub 56 t else natSub 120 t
  let buf := List.replicate m 0
  pure (if m > 0 then buf.set 0 0x80 else buf)

/-- The length `sum` writes then, in bits. -/
def lengthBytes (len : UInt64) : List UInt8 :=
  let n := len <<< 3
  (List.range 8).map fun i => UInt8.ofNat (n >>> (56 - 8 * UInt64.ofNat i)).toNat

/-- The bytes `sum` returns. -/
def output (s : Vector UInt32 8) : List UInt8 :=
  (s.toList.take 7).flatMap fun word =>
    (List.range 4).map fun j => UInt8.ofNat (word >>> (24 - 8 * UInt32.ofNat j)).toNat

/-- `sum`. -/
def sum (d : Digest) : Except Trap (Digest × List UInt8) := do
  let n := d.len
  let d ← d.write (← marker n)
  let d ← d.write (lengthBytes n)
  pure (d, output d.s)

/-- Some calls of `write`. -/
def writes (d : Digest) (chunks : List (List UInt8)) : Except Trap Digest := chunks.foldlM write d

end Digest

/-- `sha224`. -/
def sha224 (data : List UInt8) : Except Trap (List UInt8) := do
  let digest ← Digest.new.write data
  let (_, hash) ← digest.sum
  pure hash

end Sha224

end LegendsNft
