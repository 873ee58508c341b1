/-
**Iterated compression functions.**

A compression function takes a state and a block of `b` letters to a state.  A message is absorbed
block by block; what does not fill a block is left over, and waits for more of the message.  So a
message may be absorbed in pieces, as long as what is left of one piece is put in front of the next.

An absorbed message whose length is a multiple of `b` leaves nothing over.  Two such messages that
end in the same state meet somewhere on the way, where two different arguments of the compression
function have the same value, unless one of them is a suffix of the other.  A padding none of whose
words is a suffix of another therefore turns a collision of the iterated function into one of the
compression function.

Main definitions:

* `Chaining.absorb`, `Chaining.rest` — the state after the full blocks of a message, and what is
  left of it;
* `Chaining.Collide` — two messages that meet.

Main results:

* `Chaining.absorb_append`, `Chaining.rest_append` — **absorption in pieces**;
* `Chaining.collide_or_suffix` — **two messages that end in the same state**.
-/

import Mathlib.Data.List.Basic

set_option relaxedAutoImplicit false
set_option autoImplicit false

universe u v

namespace Chaining

variable {α : Type u} {σ : Type v} {b : ℕ} {step : σ → List α → σ}

/-! ### Absorbing a message -/

/-- The state after the first `n` blocks of a message. -/
def blocks (b : ℕ) (step : σ → List α → σ) : ℕ → σ → List α → σ
  | 0, s, _ => s
  | n + 1, s, m => blocks b step n (step s (m.take b)) (m.drop b)

/-- The state after the full blocks of a message. -/
def absorb (b : ℕ) (step : σ → List α → σ) (s : σ) (m : List α) : σ :=
  blocks b step (m.length / b) s m

/-- What is left of a message after its full blocks. -/
def rest (b : ℕ) (m : List α) : List α := m.drop (b * (m.length / b))

theorem length_rest (m : List α) : (rest b m).length = m.length % b := by
  rw [rest, List.length_drop, Nat.mod_eq_sub_mul_div]

/-- The first blocks do not depend on what comes after them. -/
theorem blocks_append {n : ℕ} {m : List α} (h : b * n ≤ m.length) (s : σ) (l : List α) :
    blocks b step n s (m ++ l) = blocks b step n s m := by
  induction n generalizing s m with
  | zero => rfl
  | succ n ih =>
      rw [Nat.mul_succ] at h
      rw [blocks, blocks, List.take_append_of_le_length (by omega),
        List.drop_append_of_le_length (by omega)]
      exact ih (by rw [List.length_drop]; omega) _

/-- The first blocks, and the blocks after them. -/
theorem blocks_add (n k : ℕ) (s : σ) (m : List α) :
    blocks b step (n + k) s m = blocks b step k (blocks b step n s m) (m.drop (b * n)) := by
  induction n generalizing s m with
  | zero => simp [blocks]
  | succ n ih =>
      rw [Nat.succ_add, blocks, ih, blocks, List.drop_drop, Nat.mul_succ, Nat.add_comm b]

theorem absorb_of_lt {m : List α} (h : m.length < b) (s : σ) : absorb b step s m = s := by
  rw [absorb, Nat.div_eq_of_lt h]
  rfl

theorem rest_of_lt {m : List α} (h : m.length < b) : rest b m = m := by
  rw [rest, Nat.div_eq_of_lt h]
  rfl

@[simp] theorem absorb_nil (s : σ) : absorb b step s [] = s := by
  simp [absorb, blocks]

@[simp] theorem rest_nil : rest b ([] : List α) = [] := by
  simp [rest]

/-- The number of full blocks of a message in two pieces. -/
theorem length_append_div (hb : 0 < b) (m l : List α) :
    (m ++ l).length / b = m.length / b + (rest b m ++ l).length / b := by
  have hm : m.length + l.length = m.length % b + l.length + b * (m.length / b) := by
    have := Nat.mod_add_div m.length b
    omega
  rw [List.length_append, List.length_append, length_rest, hm, Nat.add_mul_div_left _ _ hb,
    Nat.add_comm]

/-- The full blocks of a message may be dropped before something is added to it. -/
theorem drop_append_eq (m l : List α) :
    (m ++ l).drop (b * (m.length / b)) = rest b m ++ l := by
  rw [rest, List.drop_append_of_le_length (Nat.mul_div_le m.length b)]

/-- **Absorption in pieces**: what is left of one piece is put in front of the next. -/
theorem absorb_append (hb : 0 < b) (s : σ) (m l : List α) :
    absorb b step s (m ++ l) = absorb b step (absorb b step s m) (rest b m ++ l) := by
  rw [absorb, length_append_div hb, blocks_add, blocks_append (Nat.mul_div_le m.length b),
    drop_append_eq]
  rfl

/-- What is left of a message in two pieces. -/
theorem rest_append (hb : 0 < b) (m l : List α) : rest b (m ++ l) = rest b (rest b m ++ l) := by
  rw [rest, length_append_div hb, Nat.mul_add, ← List.drop_drop, drop_append_eq]
  rfl

/-! ### Messages that consist of full blocks -/

theorem rest_of_dvd {m : List α} (h : b ∣ m.length) : rest b m = [] := by
  rw [rest, Nat.mul_div_cancel' h, List.drop_length]

theorem absorb_append_of_dvd (hb : 0 < b) {m : List α} (h : b ∣ m.length) (s : σ) (l : List α) :
    absorb b step s (m ++ l) = absorb b step (absorb b step s m) l := by
  rw [absorb_append hb, rest_of_dvd h, List.nil_append]

theorem rest_append_of_dvd (hb : 0 < b) {m : List α} (h : b ∣ m.length) (l : List α) :
    rest b (m ++ l) = rest b l := by
  rw [rest_append hb, rest_of_dvd h, List.nil_append]

theorem absorb_block (hb : 0 < b) {m : List α} (h : m.length = b) (s : σ) :
    absorb b step s m = step s m := by
  rw [absorb, h, Nat.div_self hb, blocks, blocks, ← h, List.take_length]

theorem absorb_block_append (hb : 0 < b) {x : List α} (h : x.length = b) (s : σ) (m : List α) :
    absorb b step s (x ++ m) = absorb b step (step s x) m := by
  rw [absorb_append_of_dvd hb (h ▸ Nat.dvd_refl _), absorb_block hb h]

/-- A nonempty message of full blocks ends in one. -/
theorem exists_last_block (hb : 0 < b) {m : List α} (h : b ∣ m.length) (hm : m ≠ []) :
    ∃ l x, m = l ++ x ∧ x.length = b ∧ b ∣ l.length ∧ l.length < m.length := by
  have hle : b ≤ m.length := Nat.le_of_dvd (List.length_pos_iff.2 hm) h
  refine ⟨m.take (m.length - b), m.drop (m.length - b), (List.take_append_drop _ _).symm, ?_, ?_,
    ?_⟩
  · rw [List.length_drop]
    omega
  · rw [List.length_take, Nat.min_eq_left (Nat.sub_le _ _)]
    exact Nat.dvd_sub h (Nat.dvd_refl b)
  · rw [List.length_take]
    omega

/-! ### Collisions -/

/-- Two messages collide: they have a common end, behind two blocks that take two states to the same
one, the states or the blocks being different. -/
def Collide (b : ℕ) (step : σ → List α → σ) (s : σ) (m m' : List α) : Prop :=
  ∃ l x l' x' t, m = l ++ x ++ t ∧ m' = l' ++ x' ++ t ∧ x.length = b ∧ x'.length = b ∧
    b ∣ l.length ∧ b ∣ l'.length ∧ (absorb b step s l, x) ≠ (absorb b step s l', x') ∧
    step (absorb b step s l) x = step (absorb b step s l') x'

/-- Messages that collide end in the same state. -/
theorem Collide.absorb_eq (hb : 0 < b) {s : σ} {m m' : List α} (h : Collide b step s m m') :
    absorb b step s m = absorb b step s m' := by
  obtain ⟨l, x, l', x', t, rfl, rfl, hx, hx', hl, hl', -, hstep⟩ := h
  rw [List.append_assoc, absorb_append_of_dvd hb hl, absorb_block_append hb hx, hstep,
    List.append_assoc, absorb_append_of_dvd hb hl', absorb_block_append hb hx']

theorem Collide.append {s : σ} {m m' : List α} (h : Collide b step s m m') (t : List α) :
    Collide b step s (m ++ t) (m' ++ t) := by
  obtain ⟨l, x, l', x', u, rfl, rfl, hrest⟩ := h
  exact ⟨l, x, l', x', u ++ t, List.append_assoc .., List.append_assoc .., hrest⟩

/-- **Two messages that end in the same state** collide, or one of them is a suffix of the other. -/
theorem collide_or_suffix (hb : 0 < b) {s : σ} {m m' : List α} (hm : b ∣ m.length)
    (hm' : b ∣ m'.length) (h : absorb b step s m = absorb b step s m') :
    Collide b step s m m' ∨ m <:+ m' ∨ m' <:+ m := by
  induction hn : m.length using Nat.strongRecOn generalizing m m' with
  | ind n ih =>
      by_cases hnil : m = []
      · exact Or.inr (Or.inl (hnil ▸ List.nil_suffix))
      by_cases hnil' : m' = []
      · exact Or.inr (Or.inr (hnil' ▸ List.nil_suffix))
      obtain ⟨l, x, rfl, hx, hl, hlt⟩ := exists_last_block hb hm hnil
      obtain ⟨l', x', rfl, hx', hl', -⟩ := exists_last_block hb hm' hnil'
      rw [absorb_append_of_dvd hb hl, absorb_append_of_dvd hb hl', absorb_block hb hx,
        absorb_block hb hx'] at h
      -- the last blocks and the states before them are the same, or they collide
      by_cases hsame : (absorb b step s l, x) = (absorb b step s l', x')
      · obtain ⟨hstate, rfl⟩ := Prod.mk.injEq .. ▸ hsame
        rcases ih _ (hn ▸ hlt) hl hl' hstate rfl with hcol | ⟨t, ht⟩ | ⟨t, ht⟩
        · exact Or.inl (hcol.append x)
        · exact Or.inr (Or.inl ⟨t, by rw [← ht, List.append_assoc]⟩)
        · exact Or.inr (Or.inr ⟨t, by rw [← ht, List.append_assoc]⟩)
      · exact Or.inl ⟨l, x, l', x', [], by simp, by simp, hx, hx', hl, hl', hsame, h⟩

end Chaining
