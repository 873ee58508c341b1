/-
**Arrays and natural numbers that trap.**

Reading or writing an array outside its bounds traps, and so does a subtraction of natural numbers
that would go below zero.  A mutable array of a fixed size is a vector, and the array given to a
function is a list.

Main definitions:

* `LegendsNft.fetch`, `LegendsNft.store`, `LegendsNft.natSub` — the operations;
* `LegendsNft.tabulate`, `LegendsNft.suffixFrom` — `Array.tabulate`, and the tail of an array it is
  used for;
* `LegendsNft.copyInto` — the loop that copies an array into a buffer.

Main results:

* `LegendsNft.suffixFrom_eq`, `LegendsNft.copyInto_eq` — what they compute within bounds.
-/

import LegendsNft.Loops
import LegendsNft.Types

set_option relaxedAutoImplicit false
set_option autoImplicit false

namespace LegendsNft

variable {α : Type}

/-- `p[i]`. -/
def fetch (p : List α) (i : ℕ) : Except Trap α := orTrap .outOfBounds p[i]?

/-- `x[i] := a`. -/
def store {n : ℕ} (x : Vector α n) (i : ℕ) (a : α) : Except Trap (Vector α n) :=
  if h : i < n then .ok (x.set i a) else .error .outOfBounds

/-- `a - b`. -/
def natSub (a b : ℕ) : Except Trap ℕ := if b ≤ a then .ok (a - b) else .error .underflow

/-- `Array.tabulate(size, f)`. -/
def tabulate (size : ℕ) (f : ℕ → Except Trap α) : Except Trap (List α) := (List.range size).mapM f

/-- `Array.tabulate(p.size() - n, func (i) { p[n + i] })`. -/
def suffixFrom (p : List α) (n : ℕ) : Except Trap (List α) := do
  let size ← natSub p.length n
  tabulate size fun i => fetch p (n + i)

/-- `for (i in Iter.range(0, last)) x[offset + i] := p[i]`. -/
def copyInto {n : ℕ} (x : Vector α n) (offset : ℕ) (p : List α) (last : ℤ) :
    Except Trap (Vector α n) :=
  (Loops.interval 0 last).foldlM (fun x i => do store x (offset + i) (← fetch p i)) x

theorem fetch_eq_ok {p : List α} {i : ℕ} {a : α} : fetch p i = .ok a ↔ p[i]? = some a :=
  orTrap_eq_ok

theorem fetch_of_lt {p : List α} {i : ℕ} (h : i < p.length) : fetch p i = .ok p[i] :=
  fetch_eq_ok.2 (List.getElem?_eq_getElem h)

theorem store_of_lt {n : ℕ} {x : Vector α n} {i : ℕ} (h : i < n) (a : α) :
    store x i a = .ok (x.set i a) := dif_pos h

theorem natSub_of_le {a b : ℕ} (h : b ≤ a) : natSub a b = .ok (a - b) := if_pos h

/-- A tabulated part of an array. -/
theorem tabulate_fetch (p : List α) (n size : ℕ) (h : n + size ≤ p.length) :
    (tabulate size fun i => fetch p (n + i)) = .ok ((p.drop n).take size) := by
  cases p with
  | nil =>
      have hsize : size = 0 := by simp at h; omega
      subst hsize
      rfl
  | cons a p =>
      rw [tabulate, Loops.mapM_eq_ok (g := fun i => (a :: p)[n + i]?.getD a)]
      · congr 1
        refine List.ext_getElem (by simp at h ⊢; omega) ?_
        intro i h₁ h₂
        have hi : i < size := by simpa using h₁
        rw [List.getElem_map, List.getElem_range, List.getElem_take, List.getElem_drop,
          List.getElem?_eq_getElem (by omega), Option.getD_some]
      · intro i hi
        have hlt : n + i < (a :: p).length := by
          have := List.mem_range.1 hi
          omega
        rw [fetch_of_lt hlt, List.getElem?_eq_getElem hlt, Option.getD_some]

/-- The tail of an array. -/
theorem suffixFrom_eq {p : List α} {n : ℕ} (h : n ≤ p.length) :
    suffixFrom p n = .ok (p.drop n) := by
  rw [suffixFrom, bind_eq_ok]
  refine ⟨_, natSub_of_le h, ?_⟩
  rw [tabulate_fetch p n _ (by omega), List.take_of_length_le (by rw [List.length_drop])]

/-- **Copying the first elements of an array into a buffer** replaces what is there from the offset
on, and keeps what is before it; where there is nothing to copy the loop is empty. -/
theorem copyInto_eq {n : ℕ} (x : Vector α n) (offset : ℕ) (p : List α) (size : ℕ)
    (hp : size ≤ p.length) (hx : offset + size ≤ n) :
    ∃ x', copyInto x offset p (size - 1) = .ok x' ∧
      x'.toList.take (offset + size) = x.toList.take offset ++ p.take size := by
  -- after `i` passes the first `i` elements have been copied
  obtain ⟨x', hx', htake⟩ := Loops.foldlM_interval (ε := Trap) 0 (size - 1) x
    (P := fun i (y : Vector α n) =>
      y.toList.take (offset + i) = x.toList.take offset ++ p.take i)
    (f := fun x i => do store x (offset + i) (← fetch p i)) (by omega) (by simp) (by
      intro i y _ hi hy
      have hip : i < p.length := by omega
      have hin : offset + i < n := by omega
      refine ⟨y.set (offset + i) p[i], ?_, ?_⟩
      · rw [bind_eq_ok]
        exact ⟨_, fetch_of_lt hip, store_of_lt hin _⟩
      · rw [Vector.toList_set, ← Nat.add_assoc, List.take_succ_eq_append_getElem (by simpa),
          List.take_set_of_le (Nat.le_refl _), hy, List.getElem_set_self,
          List.take_succ_eq_append_getElem hip, List.append_assoc])
  have hend : ((size : ℤ) - 1 + 1).toNat = size := by omega
  rw [hend] at htake
  exact ⟨x', hx', htake⟩

end LegendsNft
