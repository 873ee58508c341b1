/-
**The SHA-224 digest computes the SHA-224 hash** (`NNS/SHA224.mo`).

The loops of `block` are the compression function of `LegendsNft/Sha2.lean`, block by block.  After
some calls of `write` a digest stands for what has been written: its words are the state after the
full blocks, and its buffer holds the rest.  A call of `write` passes through three stages, in which
part of the data is still to be written; what a digest and this part stand for together does not
change.  So the hash does not depend on how the data is cut into pieces, and no piece makes `write`
trap.

Main definitions:

* `LegendsNft.Sha224.Digest.Holds` — **the message a digest stands for**;
* `LegendsNft.Sha224.Digest.Awaits` — the same while part of the message is still to be written.

Main results:

* `LegendsNft.Sha224.block_eq` — `block` absorbs the full blocks;
* `LegendsNft.Sha224.Digest.Holds.write` — **one call of `write`**;
* `LegendsNft.Sha224.sha224_eq` — the hash of an array;
* `LegendsNft.Sha224.writes_then_sum` — **the hash of what is written in pieces**;
* `LegendsNft.Sha224.sha224_eq_iff` — **when two arrays have one hash**.
-/

import LegendsNft.Sha224

set_option relaxedAutoImplicit false
set_option autoImplicit false

namespace LegendsNft

namespace Sha224

/-- The constant of a round. -/
def roundConstant (t : ℕ) : UInt32 := K[t]?.getD 0

/-- The compression function with the constants of the source. -/
abbrev compress : Sha2.State → List UInt8 → Sha2.State := Sha2.compress roundConstant

/-! ### One block -/

/-- Four bytes in their places. -/
theorem or_places {a b c d : ℕ} (hb : b < 2 ^ 8) (hc : c < 2 ^ 8) (hd : d < 2 ^ 8) :
    2 ^ 24 * a ||| 2 ^ 16 * b ||| 2 ^ 8 * c ||| d =
      2 ^ 24 * a + 2 ^ 16 * b + 2 ^ 8 * c + d := by
  have e1 : 2 ^ 24 * a + 2 ^ 16 * b = 2 ^ 16 * (2 ^ 8 * a + b) := by omega
  have e2 : 2 ^ 16 * (2 ^ 8 * a + b) + 2 ^ 8 * c = 2 ^ 8 * (2 ^ 16 * a + 2 ^ 8 * b + c) := by omega
  -- each byte is below the place of the one before it
  rw [← Nat.two_pow_add_eq_or_of_lt (by omega) a, e1, ← Nat.two_pow_add_eq_or_of_lt (by omega), e2,
    ← Nat.two_pow_add_eq_or_of_lt hd]

/-- The four bytes of a word, shifted into place. -/
theorem widen_eq (b0 b1 b2 b3 : UInt8) :
    widen b0 <<< 24 ||| widen b1 <<< 16 ||| widen b2 <<< 8 ||| widen b3 <<< 0 =
      UInt32.ofNat (Sha2.fromBytes [b0, b1, b2, b3]) := by
  have h0 : b0.toNat < 2 ^ 8 := b0.toNat_lt
  have h1 : b1.toNat < 2 ^ 8 := b1.toNat_lt
  have h2 : b2.toNat < 2 ^ 8 := b2.toNat_lt
  have h3 : b3.toNat < 2 ^ 8 := b3.toNat_lt
  have hshift (b : UInt8) (k : UInt32) (hk : k.toNat ≤ 24) :
      (widen b <<< k).toNat = 2 ^ k.toNat * b.toNat := by
    have hb : b.toNat < 2 ^ 8 := b.toNat_lt
    have hle : 2 ^ k.toNat * b.toNat ≤ 2 ^ 24 * b.toNat :=
      Nat.mul_le_mul_right _ (Nat.pow_le_pow_right (by omega) hk)
    rw [UInt32.toNat_shiftLeft, Nat.mod_eq_of_lt (a := k.toNat) (by omega), Nat.shiftLeft_eq, widen,
      UInt32.toNat_ofNat', Nat.mod_eq_of_lt (a := b.toNat) (by omega), Nat.mul_comm]
    exact Nat.mod_eq_of_lt (by omega)
  have hplaces := or_places (a := b0.toNat) h1 h2 h3
  apply UInt32.toNat_inj.1
  rw [UInt32.toNat_or, UInt32.toNat_or, UInt32.toNat_or, hshift b0 24 (by decide),
    hshift b1 16 (by decide), hshift b2 8 (by decide), hshift b3 0 (by decide),
    UInt32.toNat_ofNat']
  simp only [Sha2.fromBytes, List.length_cons, List.length_nil]
  simp at hplaces ⊢
  omega

theorem mix_eq (v : Sha2.Working) (k w : UInt32) : mix v k w = Sha2.round v k w := by
  have e1 : ∀ x, rot x 6 ^^^ rot x 11 ^^^ rot x 25 = Sha2.bigSigma1 x := fun x => rfl
  have e0 : ∀ x, rot x 2 ^^^ rot x 13 ^^^ rot x 22 = Sha2.bigSigma0 x := fun x => rfl
  have hch : ∀ x y z, (x &&& y) ^^^ (~~~x &&& z) = Sha2.ch x y z := fun x y z => rfl
  have hmaj : ∀ x y z, (x &&& y) ^^^ (x &&& z) ^^^ (y &&& z) = Sha2.maj x y z := fun x y z => rfl
  have ht : ∀ a b c d e : UInt32, a + (b + c + d + e) = c + a + b + d + e := by
    intros
    ac_rfl
  simp only [mix, Sha2.round, e1, e0, hch, hmaj, ht]

/-- The first words of `w` are those of a schedule. -/
def Scheduled (W : ℕ → UInt32) (n : ℕ) (w : Vector UInt32 64) : Prop :=
  ∀ t < n, w.toList[t]? = some (W t)

theorem Scheduled.fetch {W : ℕ → UInt32} {n : ℕ} {w : Vector UInt32 64} (h : Scheduled W n w)
    {t : ℕ} (ht : t < n) : fetch w.toList t = .ok (W t) := fetch_eq_ok.2 (h t ht)

/-- Writing the next word. -/
theorem Scheduled.store {W : ℕ → UInt32} {n : ℕ} {w : Vector UInt32 64} (h : Scheduled W n w)
    (hn : n < 64) {a : UInt32} (ha : a = W n) :
    ∃ w', store w n a = .ok w' ∧ Scheduled W (n + 1) w' := by
  refine ⟨w.set n a, store_of_lt hn a, ?_⟩
  intro t ht
  rw [Vector.toList_set]
  by_cases htn : t = n
  · subst htn
    rw [List.getElem?_set_self (by simpa), ha]
  · rw [List.getElem?_set_ne (Ne.symm htn)]
    exact h t (by omega)

/-- The word of a block, by its four bytes. -/
theorem word_eq {p : List UInt8} {i : ℕ} (h : i * 4 + 3 < p.length) :
    Sha2.word p i = UInt32.ofNat (Sha2.fromBytes
      [p[i * 4 + 0], p[i * 4 + 1], p[i * 4 + 2], p[i * 4 + 3]]) := by
  have htake : (p.drop (4 * i)).take 4 =
      [p[i * 4 + 0], p[i * 4 + 1], p[i * 4 + 2], p[i * 4 + 3]] := by
    refine List.ext_getElem (by simp; omega) ?_
    intro j h₁ h₂
    have hj : j < 4 := by simpa using h₂
    have hcases : j = 0 ∨ j = 1 ∨ j = 2 ∨ j = 3 := by omega
    rcases hcases with rfl | rfl | rfl | rfl <;> simp [Nat.mul_comm]
  rw [Sha2.word, htake]

/-- The words of a block do not depend on what comes after it. -/
theorem schedule_take {p : List UInt8} (t : ℕ) :
    Sha2.schedule (p.take 64) t = Sha2.schedule p t := by
  induction t using Nat.strongRecOn with
  | ind t ih =>
      rcases Nat.lt_or_ge t 16 with ht | ht
      · rw [Sha2.schedule_of_lt ht, Sha2.schedule_of_lt ht, Sha2.word, Sha2.word, List.drop_take,
          List.take_take, Nat.min_eq_left (by omega)]
      · rw [Sha2.schedule_of_le ht, Sha2.schedule_of_le ht, ih (t - 2) (by omega),
          ih (t - 7) (by omega), ih (t - 15) (by omega), ih (t - 16) (by omega)]

/-- **The first loop** loads the words of the block. -/
theorem loadWords_eq {p : List UInt8} (hp : 64 ≤ p.length) (w : Vector UInt32 64) :
    ∃ w', loadWords p w = .ok w' ∧ Scheduled (Sha2.schedule p) 16 w' := by
  refine Loops.foldlM_interval (P := fun i w => Scheduled (Sha2.schedule p) i w) 0 15 w (by omega)
    (fun t ht => absurd ht (Nat.not_lt_zero t)) ?_
  intro i w _ hi hw
  obtain ⟨w', hstore, hw'⟩ := hw.store (by omega) (a := widen p[i * 4 + 0] <<< 24 |||
    widen p[i * 4 + 1] <<< 16 ||| widen p[i * 4 + 2] <<< 8 ||| widen p[i * 4 + 3] <<< 0) (by
      rw [widen_eq, Sha2.schedule_of_lt (by omega), word_eq (by omega)])
  refine ⟨w', ?_, hw'⟩
  simp only [bind_eq_ok]
  exact ⟨_, fetch_of_lt (by omega), _, fetch_of_lt (by omega), _, fetch_of_lt (by omega), _,
    fetch_of_lt (by omega), hstore⟩

/-- **The second loop** extends them by the recurrence. -/
theorem extendWords_eq {p : List UInt8} {w : Vector UInt32 64}
    (h : Scheduled (Sha2.schedule p) 16 w) :
    ∃ w', extendWords w = .ok w' ∧ Scheduled (Sha2.schedule p) 64 w' := by
  refine Loops.foldlM_interval (P := fun i w => Scheduled (Sha2.schedule p) i w) 16 63 w
    (by omega) h ?_
  intro i w hge hi hw
  obtain ⟨w', hstore, hw'⟩ := hw.store (by omega)
    (a := Sha2.sigma1 (Sha2.schedule p (i - 2)) + Sha2.schedule p (i - 7) +
      Sha2.sigma0 (Sha2.schedule p (i - 15)) + Sha2.schedule p (i - 16))
    (Sha2.schedule_of_le hge).symm
  refine ⟨w', ?_, hw'⟩
  simp only [bind_eq_ok]
  exact ⟨_, natSub_of_le (by omega), _, hw.fetch (by omega), _, natSub_of_le (by omega), _,
    hw.fetch (by omega), _, natSub_of_le (by omega), _, hw.fetch (by omega), _,
    natSub_of_le (by omega), _, hw.fetch (by omega), hstore⟩

/-- **The third loop** runs the rounds. -/
theorem mixWords_eq {W : ℕ → UInt32} {w : Vector UInt32 64} (h : Scheduled W 64 w)
    (v : Sha2.Working) : mixWords w v = .ok (Sha2.rounds roundConstant W 64 v) := by
  obtain ⟨v', hv', rfl⟩ := Loops.foldlM_interval (ε := Trap) 0 63 v
    (P := fun i v' => v' = Sha2.rounds roundConstant W i v)
    (f := fun v i => do
      let k ← fetch K i
      let w ← fetch w.toList i
      pure (mix v k w)) (by omega) rfl (by
      rintro i v' - hi rfl
      refine ⟨_, ?_, rfl⟩
      have hk : fetch K i = .ok (roundConstant i) := by
        have hle : i ≤ 63 := by omega
        have hlt : i < K.length := Nat.lt_of_le_of_lt hle (by decide)
        rw [fetch_of_lt hlt, roundConstant, List.getElem?_eq_getElem hlt, Option.getD_some]
      rw [Sha2.rounds, ← mix_eq]
      exact bind_eq_ok.2 ⟨_, hk, bind_eq_ok.2 ⟨_, h.fetch (by omega), rfl⟩⟩)
  exact hv'

/-- **One pass of `block`** is the compression function on the first block. -/
theorem blockPass_eq {p : List UInt8} (hp : 64 ≤ p.length) (s : Vector UInt32 8)
    (w : Vector UInt32 64) : ∃ w', blockPass s w p = .ok (compress s (p.take 64), w') := by
  obtain ⟨w₁, hload, h₁⟩ := loadWords_eq hp w
  obtain ⟨w₂, hextend, h₂⟩ := extendWords_eq h₁
  have hschedule : Sha2.schedule (p.take 64) = Sha2.schedule p := funext schedule_take
  refine ⟨w₂, ?_⟩
  rw [compress, Sha2.compress, hschedule]
  exact bind_eq_ok.2 ⟨_, hload, bind_eq_ok.2 ⟨_, hextend, bind_eq_ok.2 ⟨_, mixWords_eq h₂ _, rfl⟩⟩⟩

theorem blockLoop_eq {passes : ℕ} {p : List UInt8} (h : p.length / 64 ≤ passes)
    (s : Vector UInt32 8) (w : Vector UInt32 64) :
    blockLoop passes s w p = .ok (Chaining.absorb 64 compress s p) := by
  induction passes generalizing p s w with
  | zero =>
      rw [blockLoop, Chaining.absorb_of_lt (by omega)]
  | succ passes ih =>
      rw [blockLoop]
      split_ifs with hp
      · obtain ⟨w', hpass⟩ := blockPass_eq hp s w
        have hsplit : Chaining.absorb 64 compress s p =
            Chaining.absorb 64 compress (compress s (p.take 64)) (p.drop 64) := by
          rw [← Chaining.absorb_block_append (by omega) (by simpa using hp), List.take_append_drop]
        rw [hsplit, ← ih (by rw [List.length_drop]; omega) _ w']
        simp only [hpass, suffixFrom_eq hp]
        rfl
      · rw [Chaining.absorb_of_lt (by omega)]

/-- **`block` absorbs the full blocks.** -/
theorem block_eq (s : Vector UInt32 8) (p : List UInt8) :
    block s p = .ok (Chaining.absorb 64 compress s p) :=
  blockLoop_eq (Nat.div_le_self _ _) s _

/-! ### What a digest stands for -/

namespace Digest

/-- The bytes of the buffer that wait for the rest of their block. -/
def pending (d : Digest) : List UInt8 := d.x.toList.take d.nx

/-- **The message a digest stands for.** -/
structure Holds (d : Digest) (m : List UInt8) : Prop where
  s : d.s = Chaining.absorb 64 compress S m
  pending : d.pending = Chaining.rest 64 m
  nx : d.nx = m.length % 64
  len : d.len = UInt64.ofNat m.length

/-- The message a digest stands for, together with the data `p` that is still to be written. -/
structure Awaits (d : Digest) (p m : List UInt8) : Prop where
  absorb : Chaining.absorb 64 compress d.s (d.pending ++ p) = Chaining.absorb 64 compress S m
  rest : Chaining.rest 64 (d.pending ++ p) = Chaining.rest 64 m
  nx : d.nx ≤ 64
  len : d.len = UInt64.ofNat m.length

theorem length_pending {d : Digest} (h : d.nx ≤ 64) : d.pending.length = d.nx := by
  rw [pending, List.length_take, Vector.length_toList, Nat.min_eq_left h]

theorem pending_of_nx_eq_zero {d : Digest} (h : d.nx = 0) : d.pending = [] := by
  rw [pending, h, List.take_zero]

theorem holds_new : new.Holds [] := ⟨by simp [new], by simp [pending, new], rfl, rfl⟩

/-- A digest that has been reset is as good as new. -/
theorem holds_reset (d : Digest) : d.reset.Holds [] :=
  ⟨by simp [reset], by simp [pending, reset], rfl, rfl⟩

theorem Holds.nx_lt {d : Digest} {m : List UInt8} (h : d.Holds m) : d.nx < 64 := by
  rw [h.nx]
  exact Nat.mod_lt _ (by omega)

/-- A digest, when data is about to be written. -/
theorem Holds.awaits {d : Digest} {m : List UInt8} (h : d.Holds m) (data : List UInt8) :
    Awaits { d with len := d.len + UInt64.ofNat data.length } data (m ++ data) where
  absorb := by
    change Chaining.absorb 64 compress d.s (d.pending ++ data) = _
    rw [h.s, h.pending, ← Chaining.absorb_append (by omega)]
  rest := by
    change Chaining.rest 64 (d.pending ++ data) = _
    rw [h.pending, ← Chaining.rest_append (by omega)]
  nx := Nat.le_of_lt h.nx_lt
  len := by
    change d.len + _ = _
    rw [h.len, List.length_append, UInt64.ofNat_add]

/-- Bytes that move from the data into the buffer change nothing. -/
theorem Awaits.move {d d' : Digest} {p p' m : List UInt8} (h : d.Awaits p m) (hs : d'.s = d.s)
    (hbytes : d'.pending ++ p' = d.pending ++ p) (hnx : d'.nx ≤ 64) (hlen : d'.len = d.len) :
    d'.Awaits p' m where
  absorb := by rw [hs, hbytes, h.absorb]
  rest := by rw [hbytes, h.rest]
  nx := hnx
  len := by rw [hlen, h.len]

/-- A full buffer is a block. -/
theorem Awaits.flush {d : Digest} {p m : List UInt8} (h : d.Awaits p m) :
    ∃ d', d.flush = .ok d' ∧ d'.Awaits p m ∧ d'.nx < 64 ∧ (d'.nx = 0 ∨ d'.nx = d.nx) := by
  rw [Digest.flush]
  split_ifs with hfull
  · have hlen : d.pending.length = 64 := by rw [length_pending h.nx, hfull]
    have hx : d.x.toList = d.pending := by
      rw [pending, List.take_of_length_le (by simp [hfull])]
    refine ⟨{ d with s := compress d.s d.pending, nx := 0 }, ?_, ?_, by simp, Or.inl rfl⟩
    · rw [bind_eq_ok]
      exact ⟨_, block_eq _ _, by rw [hx, Chaining.absorb_block (by omega) hlen]; rfl⟩
    · have hnil : pending { d with s := compress d.s d.pending, nx := 0 } = [] :=
        pending_of_nx_eq_zero rfl
      refine ⟨?_, ?_, by simp, h.len⟩
      · rw [hnil, ← h.absorb, Chaining.absorb_block_append (by omega) hlen]
        rfl
      · have hdvd : 64 ∣ d.pending.length := by rw [hlen]
        rw [hnil, ← h.rest, Chaining.rest_append_of_dvd (by omega) hdvd]
        rfl
  · have := h.nx
    exact ⟨d, rfl, h, by omega, Or.inr rfl⟩

/-- **The first stage**: the buffer is filled up, or everything is in it. -/
theorem Awaits.fillBuffer {d : Digest} {p m : List UInt8} (h : d.Awaits p m) (hnx : d.nx < 64) :
    ∃ d' p', d.fillBuffer p = .ok (d', p') ∧ d'.Awaits p' m ∧ d'.nx < 64 ∧
      (d'.nx = 0 ∨ p' = []) ∧ p'.length ≤ p.length := by
  rw [Digest.fillBuffer]
  split_ifs with hpos
  · obtain ⟨n, hn⟩ : ∃ n, n = min p.length (64 - d.nx) := ⟨_, rfl⟩
    obtain ⟨x', hx', htake⟩ := copyInto_eq d.x d.nx p n (by omega) (by omega)
    -- the bytes that were waiting, with the new ones behind them
    have hmoved : Awaits { d with x := x', nx := d.nx + n } (p.drop n) m := by
      refine h.move rfl ?_ (by simp only; omega) rfl
      change x'.toList.take (d.nx + n) ++ _ = _
      rw [htake, List.append_assoc, List.take_append_drop]
      rfl
    obtain ⟨d', hflush, h', hlt, hempty⟩ := hmoved.flush
    refine ⟨d', p.drop n, ?_, h', hlt, ?_, by simp⟩
    · simp only [bind_eq_ok, natSub_of_le (Nat.le_of_lt hnx), Except.ok.injEq, exists_eq_left',
        ← hn, suffixFrom_eq (show n ≤ p.length by omega)]
      exact ⟨_, hx', _, hflush, rfl⟩
    · rcases hempty with hzero | hsame
      · exact Or.inl hzero
      · -- the data is too short to fill the buffer
        have hshort : d'.nx = d.nx + n := hsame
        exact Or.inr (List.drop_eq_nil_of_le (by omega))
  · exact ⟨d, p, rfl, h, hnx, Or.inl (by omega), Nat.le_refl _⟩

/-- The length of the full blocks of some data, computed with a mask. -/
theorem mask_eq {n : ℕ} (h : n < 2 ^ 64) :
    (UInt64.ofNat n &&& ~~~63).toNat = 64 * (n / 64) := by
  have hmask : (~~~63 : UInt64).toNat = 2 ^ 6 * (2 ^ 58 - 1) := by decide
  have hshift : 64 * (n / 64) = 2 ^ 6 * (n >>> 6) := by rw [Nat.shiftRight_eq_div_pow]; rfl
  rw [UInt64.toNat_and, hmask, UInt64.toNat_ofNat_of_lt' h, hshift]
  apply Nat.eq_of_testBit_eq
  intro i
  simp only [Nat.testBit_and, Nat.testBit_two_pow_mul, Nat.testBit_two_pow_sub_one,
    Nat.testBit_shiftRight]
  by_cases hi : 6 ≤ i
  · by_cases hlt : i - 6 < 58
    · simp [hi, hlt]
    · have hzero : n.testBit i = false :=
        Nat.testBit_lt_two_pow (Nat.lt_of_lt_of_le h (Nat.pow_le_pow_right (by omega) (by omega)))
      simp [hi, hlt, hzero]
  · simp [hi]

/-- **The second stage**: full blocks are taken from the data. -/
theorem Awaits.fullBlocks {d : Digest} {p m : List UInt8} (h : d.Awaits p m)
    (hp : p.length < 2 ^ 64) (hempty : d.nx = 0 ∨ p = []) :
    ∃ d' p', d.fullBlocks p = .ok (d', p') ∧ d'.Awaits p' m ∧ d'.nx = d.nx ∧ p'.length < 64 ∧
      (d'.nx = 0 ∨ p' = []) := by
  rw [Digest.fullBlocks]
  split_ifs with hfull
  · obtain ⟨n, hn⟩ : ∃ n, n = 64 * (p.length / 64) := ⟨_, rfl⟩
    have hle : n ≤ p.length := by
      rw [hn]
      exact Nat.mul_div_le _ _
    have hnx : d.nx = 0 := hempty.resolve_right (by rintro rfl; simp at hfull)
    have hnil : d.pending = [] := pending_of_nx_eq_zero hnx
    have htabulate := tabulate_fetch p 0 n (by omega)
    have hdvd : 64 ∣ (p.take n).length := by
      rw [List.length_take, Nat.min_eq_left hle, hn]
      exact Nat.dvd_mul_right _ _
    refine ⟨{ d with s := Chaining.absorb 64 compress d.s (p.take n) }, p.drop n, ?_, ?_, rfl, ?_,
      Or.inl hnx⟩
    · simp only [Nat.zero_add, List.drop_zero] at htabulate
      simp only [bind_eq_ok, mask_eq hp, ← hn, suffixFrom_eq hle, Except.ok.injEq, exists_eq_left',
        htabulate]
      exact ⟨_, block_eq _ _, rfl⟩
    · refine ⟨?_, ?_, h.nx, h.len⟩
      · rw [← h.absorb, hnil, List.nil_append]
        change Chaining.absorb 64 compress _ (d.pending ++ p.drop n) = _
        rw [hnil, List.nil_append, ← Chaining.absorb_append_of_dvd (by omega) hdvd,
          List.take_append_drop]
      · rw [← h.rest, hnil, List.nil_append]
        change Chaining.rest 64 (d.pending ++ p.drop n) = _
        rw [hnil, List.nil_append, ← Chaining.rest_append_of_dvd (by omega) hdvd,
          List.take_append_drop]
    · rw [List.length_drop]
      omega
  · exact ⟨d, p, rfl, h, rfl, by omega, hempty⟩

/-- **The third stage**: the remainder goes into the buffer. -/
theorem Awaits.keepRest {d : Digest} {p m : List UInt8} (h : d.Awaits p m) (hnx : d.nx < 64)
    (hp : p.length < 64) (hempty : d.nx = 0 ∨ p = []) :
    ∃ d', d.keepRest p = .ok d' ∧ d'.Awaits [] m ∧ d'.nx < 64 := by
  rw [Digest.keepRest]
  split_ifs with hpos
  · have hzero : d.nx = 0 := hempty.resolve_right (by rintro rfl; simp at hpos)
    obtain ⟨x', hx', htake⟩ := copyInto_eq d.x 0 p p.length (Nat.le_refl _) (by omega)
    rw [Nat.zero_add, List.take_zero, List.nil_append, List.take_length] at htake
    refine ⟨{ d with x := x', nx := p.length }, ?_, ?_, hp⟩
    · rw [bind_eq_ok]
      exact ⟨_, hx', rfl⟩
    · refine h.move rfl ?_ (Nat.le_of_lt hp) rfl
      change x'.toList.take p.length ++ [] = _
      rw [htake, pending_of_nx_eq_zero hzero, List.append_nil, List.nil_append]
  · have hnil : p = [] := List.length_eq_zero_iff.1 (by omega)
    subst hnil
    exact ⟨d, rfl, h, hnx⟩

/-- A digest with nothing left to write holds the message. -/
theorem Awaits.holds {d : Digest} {m : List UInt8} (h : d.Awaits [] m) (hnx : d.nx < 64) :
    d.Holds m := by
  have hlt : d.pending.length < 64 := by rw [length_pending h.nx]; exact hnx
  have hrest : d.pending = Chaining.rest 64 m := by
    rw [← h.rest, List.append_nil, Chaining.rest_of_lt hlt]
  refine ⟨?_, hrest, ?_, h.len⟩
  · rw [← h.absorb, List.append_nil, Chaining.absorb_of_lt hlt]
  · rw [← Chaining.length_rest, ← hrest, length_pending h.nx]

/-- **One call of `write`** adds the data to the message. -/
theorem Holds.write {d : Digest} {m : List UInt8} (h : d.Holds m) (data : List UInt8)
    (hsize : data.length < 2 ^ 64) :
    ∃ d', d.write data = .ok d' ∧ d'.Holds (m ++ data) := by
  obtain ⟨d₁, p₁, hfill, h₁, hlt₁, hempty₁, hle⟩ := (h.awaits data).fillBuffer h.nx_lt
  obtain ⟨d₂, p₂, hblocks, h₂, hnx₂, hlt₂, hempty₂⟩ := h₁.fullBlocks (by omega) hempty₁
  obtain ⟨d₃, hkeep, h₃, hlt₃⟩ := h₂.keepRest (by omega) hlt₂ hempty₂
  refine ⟨d₃, ?_, h₃.holds hlt₃⟩
  simp only [Digest.write, bind_eq_ok]
  exact ⟨_, hfill, _, hblocks, hkeep⟩

/-- **Any pieces** are accepted, one after the other. -/
theorem Holds.writes {d : Digest} {m : List UInt8} (h : d.Holds m) {chunks : List (List UInt8)}
    (hsize : ∀ c ∈ chunks, c.length < 2 ^ 64) :
    ∃ d', d.writes chunks = .ok d' ∧ d'.Holds (m ++ chunks.flatten) := by
  induction chunks generalizing d m with
  | nil => exact ⟨d, rfl, by simpa using h⟩
  | cons c chunks ih =>
      obtain ⟨d₁, hwrite, h₁⟩ := h.write c (hsize c List.mem_cons_self)
      obtain ⟨d', hd', h'⟩ := ih h₁ fun c' hc' => hsize c' (List.mem_cons_of_mem c hc')
      refine ⟨d', ?_, by simpa using h'⟩
      rw [Digest.writes, List.foldlM_cons, hwrite]
      exact hd'

/-! ### The hash -/

/-- The padding up to the length. -/
theorem marker_eq (n : ℕ) :
    marker (UInt64.ofNat n) = .ok (0x80 :: List.replicate (Sha2.zeros n) 0) := by
  have hmod : (UInt64.ofNat n).toNat % 64 = n % 64 := by
    rw [UInt64.toNat_ofNat']
    omega
  have hset (m : ℕ) (hm : m = Sha2.zeros n + 1) :
      (if m > 0 then (List.replicate m (0 : UInt8)).set 0 0x80 else List.replicate m 0) =
        0x80 :: List.replicate (Sha2.zeros n) 0 := by
    rw [hm, if_pos (Nat.succ_pos _), List.replicate_succ, List.set_cons_zero]
  rw [marker, hmod]
  split_ifs with ht
  · rw [bind_eq_ok]
    exact ⟨_, natSub_of_le (by omega), congrArg Except.ok (hset _ (by rw [Sha2.zeros]; omega))⟩
  · rw [bind_eq_ok]
    exact ⟨_, natSub_of_le (by omega), congrArg Except.ok (hset _ (by rw [Sha2.zeros]; omega))⟩

/-- The length, in bits. -/
theorem lengthBytes_eq (n : ℕ) : lengthBytes (UInt64.ofNat n) = Sha2.toBytes 8 (8 * n) := by
  have hbits : (UInt64.ofNat n <<< 3).toNat = 8 * n % 256 ^ 8 := by
    rw [UInt64.toNat_shiftLeft, UInt64.toNat_ofNat', Nat.shiftLeft_eq]
    change n % 2 ^ 64 * 2 ^ 3 % 2 ^ 64 = 8 * n % 2 ^ 64
    omega
  rw [← Sha2.toBytes_mod (Nat.le_refl 8), ← hbits, Sha2.toBytes_eq_map, lengthBytes]
  refine List.map_congr_left fun i hi => ?_
  have hshift : ∀ i < 8, (56 - 8 * UInt64.ofNat i).toNat % 64 = 8 * (8 - 1 - i) := by decide
  rw [UInt64.toNat_shiftRight, hshift i (List.mem_range.1 hi), Nat.shiftRight_eq_div_pow,
    Nat.pow_mul]

/-- The bytes of the first seven words. -/
theorem output_eq (s : Vector UInt32 8) : output s = Sha2.digest 7 s := by
  rw [output, Sha2.digest]
  refine List.flatMap_congr fun x _ => ?_
  rw [Sha2.toBytes_eq_map]
  refine List.map_congr_left fun i hi => ?_
  have hshift : ∀ i < 4, (24 - 8 * UInt32.ofNat i).toNat % 32 = 8 * (4 - 1 - i) := by decide
  rw [UInt32.toNat_shiftRight, hshift i (List.mem_range.1 hi), Nat.shiftRight_eq_div_pow,
    Nat.pow_mul]

/-- **`sum`** returns the hash of the message. -/
theorem Holds.sum {d : Digest} {m : List UInt8} (h : d.Holds m) :
    ∃ d', d.sum = .ok (d', Sha2.hash roundConstant S 7 m) := by
  have hzeros : Sha2.zeros m.length < 64 := Nat.mod_lt _ (by omega)
  obtain ⟨d₁, hw₁, h₁⟩ := h.write (0x80 :: List.replicate (Sha2.zeros m.length) 0)
    (by rw [List.length_cons, List.length_replicate]; omega)
  obtain ⟨d₂, hw₂, h₂⟩ := h₁.write (Sha2.toBytes 8 (8 * m.length))
    (by rw [Sha2.length_toBytes]; omega)
  refine ⟨d₂, ?_⟩
  rw [Digest.sum, h.len, lengthBytes_eq]
  simp only [bind_eq_ok]
  refine ⟨_, marker_eq _, _, hw₁, _, hw₂, ?_⟩
  rw [output_eq, h₂.s, List.append_assoc]
  rfl

end Digest

open Digest

/-- The hash of an array that is written at once. -/
theorem sha224_eq {data : List UInt8} (h : data.length < 2 ^ 64) :
    sha224 data = .ok (Sha2.hash roundConstant S 7 data) := by
  obtain ⟨d, hwrite, hd⟩ := holds_new.write data h
  obtain ⟨d', hsum⟩ := hd.sum
  rw [sha224, bind_eq_ok]
  refine ⟨d, hwrite, ?_⟩
  rw [hsum]
  rfl

/-- **A digest computes the SHA-224 hash of what is written to it, in whatever pieces.**  After a
reset, whatever it held before, a digest accepts every sequence of pieces, empty ones included; and
then `sum` returns the 28 bytes of the hash of the concatenation, as `sha224` does for the whole
array. -/
theorem writes_then_sum (d : Digest) (chunks : List (List UInt8))
    (hsize : ∀ c ∈ chunks, c.length < 2 ^ 64) :
    ∃ d' d'' hash, d.reset.writes chunks = .ok d' ∧ d'.sum = .ok (d'', hash) ∧
      hash = Sha2.hash roundConstant S 7 chunks.flatten ∧ hash.length = 28 ∧
      (chunks.flatten.length < 2 ^ 64 → sha224 chunks.flatten = .ok hash) := by
  obtain ⟨d', hd', hholds⟩ := (holds_reset d).writes hsize
  obtain ⟨d'', hsum⟩ := hholds.sum
  exact ⟨d', d'', _, hd', hsum, rfl, Sha2.length_digest (by omega) _, sha224_eq⟩

/-- Three pieces, the second of them empty behind a part of a block. -/
theorem writes_then_sum_sample :
    ∃ d' d'' hash, Digest.new.reset.writes [[97], [], [98, 99]] = .ok d' ∧
      d'.sum = .ok (d'', hash) ∧ hash.length = 28 := by
  have hsize : ∀ c ∈ [[97], [], [98, 99]], (c : List UInt8).length < 2 ^ 64 := by decide
  obtain ⟨d', d'', hash, hd', hsum, -, hlength, -⟩ := writes_then_sum Digest.new _ hsize
  exact ⟨d', d'', hash, hd', hsum, hlength⟩

/-- The hash of a text of three bytes. -/
example : sha224 [97, 98, 99] = .ok [
    0x23, 0x09, 0x7d, 0x22, 0x34, 0x05, 0xd8, 0x22, 0x86, 0x42, 0xa4, 0x77, 0xbd, 0xa2, 0x55, 0xb3,
    0x2a, 0xad, 0xbc, 0xe4, 0xbd, 0xa0, 0xb3, 0xf7, 0xe3, 0x6c, 0x9d, 0xa7] := by
  decide +kernel

/-- **When two arrays have one hash.**  The hashes of two different arrays are the same exactly when
the padded arrays have a common end behind two blocks that take two states to the same one, the
states or the blocks being different, or when the last states differ in the eighth word only. -/
theorem sha224_eq_iff (data data' : List UInt8) (h : data.length < 2 ^ 61)
    (h' : data'.length < 2 ^ 61) (hne : data ≠ data') :
    sha224 data = sha224 data' ↔
      Chaining.Collide 64 compress S (Sha2.pad data) (Sha2.pad data') ∨
      (Sha2.finalState roundConstant S data ≠ Sha2.finalState roundConstant S data' ∧
        (Sha2.finalState roundConstant S data).toList.take 7 =
          (Sha2.finalState roundConstant S data').toList.take 7) := by
  rw [sha224_eq (by omega), sha224_eq (by omega), Except.ok.injEq]
  exact Sha2.hash_eq_iff h h' hne

/-- The empty array and the array of one zero do not collide. -/
theorem sha224_eq_iff_sample :
    ¬ Chaining.Collide 64 compress S (Sha2.pad []) (Sha2.pad [0]) := by
  have hne : sha224 [] ≠ sha224 [0] := by decide +kernel
  intro hcol
  exact hne ((sha224_eq_iff [] [0] (by decide) (by decide) (by decide)).2 (Or.inl hcol))

end Sha224

end LegendsNft
