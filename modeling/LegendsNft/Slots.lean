/-
**Lists of slots that are filled from the front.**

A list of slots, each empty or filled, is filled up to `k` when exactly its first `k` slots are.
Then the first empty slot is the one at `k`, filling it moves the border by one, and overwriting a
filled slot or adding empty ones at the end does not move it.

Main definitions:

* `Slots.FilledTo` — exactly the first `k` slots are filled.

Main results:

* `Slots.FilledTo.findIdx?_isNone` — the first empty slot;
* `Slots.FilledTo.set_next`, `Slots.FilledTo.set_filled`, `Slots.FilledTo.append_empty` — the
  writers;
* `Slots.FilledTo.filter_isSome`, `Slots.FilledTo.filter_isNone` — the positions of the filled and
  of the empty slots.
-/

import Mathlib.Data.List.Basic

set_option relaxedAutoImplicit false
set_option autoImplicit false

universe u

namespace Slots

variable {α : Type u} {k : ℕ} {l : List (Option α)}

/-- Exactly the first `k` slots are filled. -/
structure FilledTo (k : ℕ) (l : List (Option α)) : Prop where
  le : k ≤ l.length
  isSome_iff : ∀ i o, l[i]? = some o → (o.isSome ↔ i < k)

theorem filledTo_zero (n : ℕ) : FilledTo 0 (List.replicate n (none : Option α)) where
  le := Nat.zero_le _
  isSome_iff := by
    intro i o h
    rw [List.getElem?_replicate] at h
    split_ifs at h
    cases h
    simp

/-- The positions up to and from a border. -/
theorem range_eq_append {n : ℕ} (h : k ≤ n) :
    List.range n = List.range k ++ List.range' k (n - k) := by
  obtain ⟨m, rfl⟩ := Nat.exists_eq_add_of_le h
  rw [Nat.add_sub_cancel_left, List.range_eq_range', List.range_eq_range',
    ← List.range'_append_1, Nat.zero_add]

namespace FilledTo

/-- The filled slots, by their contents. -/
theorem exists_iff (h : FilledTo k l) (i : ℕ) : (∃ a, l[i]? = some (some a)) ↔ i < k := by
  constructor
  · rintro ⟨a, ha⟩
    exact (h.isSome_iff i _ ha).1 rfl
  · intro hi
    obtain ⟨o, ho⟩ : ∃ o, l[i]? = some o :=
      ⟨_, List.getElem?_eq_getElem (Nat.lt_of_lt_of_le hi h.le)⟩
    obtain ⟨a, rfl⟩ := Option.isSome_iff_exists.1 ((h.isSome_iff i o ho).2 hi)
    exact ⟨a, ho⟩

/-- **The first empty slot** is the one at the border. -/
theorem findIdx?_isNone (h : FilledTo k l) :
    l.findIdx? (fun o => o.isNone) = if k < l.length then some k else none := by
  split_ifs with hk
  · rw [List.findIdx?_eq_some_iff_getElem]
    refine ⟨hk, ?_, ?_⟩
    · have hempty := h.isSome_iff k _ (List.getElem?_eq_getElem hk)
      simpa using hempty
    · intro j hj
      have hfilled := h.isSome_iff j _ (List.getElem?_eq_getElem (Nat.lt_trans hj hk))
      simpa [hj, Option.isSome_iff_ne_none] using hfilled
  · rw [List.findIdx?_eq_none_iff]
    intro o ho
    obtain ⟨i, hi⟩ := List.mem_iff_getElem?.1 ho
    have hlt := (List.getElem?_eq_some_iff.1 hi).1
    have hfilled := (h.isSome_iff i o hi).2 (by omega)
    simpa [Option.isSome_iff_ne_none] using hfilled

/-- **Filling the slot at the border.** -/
theorem set_next (h : FilledTo k l) (hk : k < l.length) (a : α) :
    FilledTo (k + 1) (l.set k (some a)) where
  le := by
    rw [List.length_set]
    omega
  isSome_iff := by
    intro i o ho
    by_cases hi : k = i
    · subst hi
      rw [List.getElem?_set_self hk, Option.some_inj] at ho
      subst ho
      simp
    · rw [List.getElem?_set_ne hi] at ho
      rw [h.isSome_iff i o ho]
      omega

/-- **Overwriting a filled slot.** -/
theorem set_filled (h : FilledTo k l) {i : ℕ} (hi : i < k) (a : α) :
    FilledTo k (l.set i (some a)) where
  le := by
    rw [List.length_set]
    exact h.le
  isSome_iff := by
    intro j o ho
    by_cases hij : i = j
    · subst hij
      rw [List.getElem?_set_self (Nat.lt_of_lt_of_le hi h.le), Option.some_inj] at ho
      subst ho
      simpa using hi
    · rw [List.getElem?_set_ne hij] at ho
      exact h.isSome_iff j o ho

/-- **Adding empty slots at the end.** -/
theorem append_empty (h : FilledTo k l) (n : ℕ) : FilledTo k (l ++ List.replicate n none) where
  le := by
    rw [List.length_append]
    exact Nat.le_trans h.le (Nat.le_add_right _ _)
  isSome_iff := by
    intro i o ho
    rcases Nat.lt_or_ge i l.length with hi | hi
    · rw [List.getElem?_append_left hi] at ho
      exact h.isSome_iff i o ho
    · rw [List.getElem?_append_right hi, List.getElem?_replicate] at ho
      split_ifs at ho
      cases ho
      have hle := h.le
      simp
      omega

/-- The contents of a position, empty past the end. -/
theorem isSome_join (h : FilledTo k l) (i : ℕ) : (l[i]?).join.isSome ↔ i < k := by
  cases ho : l[i]? with
  | none =>
      have hlen := List.getElem?_eq_none_iff.1 ho
      have hle := h.le
      simp
      omega
  | some o => exact h.isSome_iff i o ho

/-- **The positions of the filled slots.** -/
theorem filter_isSome (h : FilledTo k l) :
    (List.range l.length).filter (fun i => (l[i]?).join.isSome) = List.range k := by
  rw [range_eq_append h.le, List.filter_append, List.filter_eq_self.2, List.filter_eq_nil_iff.2,
    List.append_nil]
  · intro i hi
    have hki := (List.mem_range'_1.1 hi).1
    rw [h.isSome_join]
    omega
  · intro i hi
    exact (h.isSome_join i).2 (List.mem_range.1 hi)

/-- **The positions of the empty slots.** -/
theorem filter_isNone (h : FilledTo k l) :
    (List.range l.length).filter (fun i => (l[i]?).join.isNone) =
      List.range' k (l.length - k) := by
  rw [range_eq_append h.le, List.filter_append, List.filter_eq_nil_iff.2, List.filter_eq_self.2,
    List.nil_append]
  · intro i hi
    have hki := (List.mem_range'_1.1 hi).1
    have hsome := h.isSome_join i
    rw [← Option.not_isSome, Bool.not_eq_true', Bool.eq_false_iff, ne_eq, hsome]
    omega
  · intro i hi
    have hsome := (h.isSome_join i).2 (List.mem_range.1 hi)
    rw [← Option.not_isSome, hsome]
    simp

end FilledTo

end Slots
