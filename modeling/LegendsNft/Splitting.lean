/-
**Splitting a list at a pattern.**

A list is cut at the occurrences of a non-empty pattern, from the left and without overlaps, into
fields; the fields that are not empty are its tokens.  Where the pattern does not occur the list is
one field; a part in front of an occurrence that no earlier occurrence reaches is cut off as the
first one.  Whether a pattern occurs in a list that begins with a known part is decided by that
part and by the rest, when no occurrence can lie across the border.

Main definitions:

* `Splitting.contains` — the pattern occurs in the list;
* `Splitting.fields`, `Splitting.tokens` — the parts between the occurrences.

Main results:

* `Splitting.contains_append_of_clash` — no occurrence lies across the border;
* `Splitting.fields_append` — **cutting at the first occurrence**;
* `Splitting.fields_of_not_contains` — a list without occurrences.
-/

import Mathlib.Data.List.Infix

set_option relaxedAutoImplicit false
set_option autoImplicit false

universe u

namespace Splitting

variable {α : Type u} [DecidableEq α]

/-! ### Occurrences -/

/-- The pattern occurs in the list. -/
def contains (p : List α) : List α → Bool
  | [] => p.isEmpty
  | a :: l => p.isPrefixOf (a :: l) || contains p l

theorem contains_iff {p l : List α} : contains p l = true ↔ p <:+: l := by
  induction l with
  | nil => simp [contains]
  | cons a l ih => simp [contains, ih, List.infix_cons_iff]

/-- The elements of a pattern that occurs are in the list. -/
theorem mem_of_contains {p l : List α} (h : contains p l = true) {a : α} (ha : a ∈ p) : a ∈ l :=
  (contains_iff.1 h).subset ha

/-- A pattern with an element that is not in the list does not occur. -/
theorem contains_eq_false {p l : List α} {a : α} (ha : a ∈ p) (hl : a ∉ l) :
    contains p l = false := by
  cases h : contains p l with
  | false => rfl
  | true => exact absurd (mem_of_contains h ha) hl

theorem contains_append_left {p l : List α} (h : contains p l = true) (l' : List α) :
    contains p (l ++ l') = true :=
  contains_iff.2 ((contains_iff.1 h).trans (List.prefix_append l l').isInfix)

/-- No occurrence of the pattern begins in the list, whatever follows it: a suffix of the list and
the pattern differ somewhere. -/
def Clash (p l : List α) : Prop := ∀ s ∈ l.tails, s ≠ [] → ¬ s <+: p ∧ ¬ p <+: s

instance (p l : List α) : Decidable (Clash p l) :=
  inferInstanceAs (Decidable (∀ s ∈ l.tails, s ≠ [] → ¬ s <+: p ∧ ¬ p <+: s))

/-- **No occurrence lies across the border** of a list that clashes with the pattern. -/
theorem contains_append_of_clash {p l : List α} (h : Clash p l) (l' : List α) :
    contains p (l ++ l') = contains p l' := by
  induction l with
  | nil => rfl
  | cons a l ih =>
      have htail : Clash p l := fun s hs => h s (by simp [hs])
      have hhead := h (a :: l) (by simp) (by simp)
      have hprefix : ¬ p <+: a :: l ++ l' := by
        intro hp
        rcases List.prefix_or_prefix_of_prefix hp (List.prefix_append (a :: l) l') with hp | hp
        · exact hhead.2 hp
        · exact hhead.1 hp
      rw [← ih htail, List.cons_append, contains]
      simpa using fun hp => absurd hp hprefix

/-! ### Fields -/

/-- The fields of a list, when so many elements of an occurrence are still to be passed over and
this much of the current field has been read. -/
def fieldsFrom (p : List α) : ℕ → List α → List α → List (List α)
  | _, field, [] => [field]
  | 0, field, a :: l =>
      if p.isPrefixOf (a :: l) then field :: fieldsFrom p (p.length - 1) [] l
      else fieldsFrom p 0 (field ++ [a]) l
  | n + 1, field, _ :: l => fieldsFrom p n field l

/-- The parts of a list between the occurrences of a pattern. -/
def fields (p l : List α) : List (List α) := fieldsFrom p 0 [] l

/-- The parts that are not empty. -/
def tokens (p l : List α) : List (List α) := (fields p l).filter fun f => !f.isEmpty

/-- Passing over elements. -/
theorem fieldsFrom_append_length (p field l l' : List α) :
    fieldsFrom p l.length field (l ++ l') = fieldsFrom p 0 field l' := by
  induction l with
  | nil => rfl
  | cons a l ih => exact ih

theorem fieldsFrom_of_not_contains {p l : List α} (h : contains p l = false) (field : List α) :
    fieldsFrom p 0 field l = [field ++ l] := by
  induction l generalizing field with
  | nil => simp [fieldsFrom]
  | cons a l ih =>
      rw [contains, Bool.or_eq_false_iff] at h
      rw [fieldsFrom, if_neg (by simp [h.1]), ih h.2, List.append_assoc, List.singleton_append]

/-- **A list without occurrences** is one field. -/
theorem fields_of_not_contains {p l : List α} (h : contains p l = false) : fields p l = [l] :=
  fieldsFrom_of_not_contains h []

/-- No occurrence of the pattern begins in the list before one that follows it. -/
def Before (p l : List α) : Prop := ∀ s ∈ l.tails, s ≠ [] → ¬ p <+: s ++ p

instance (p l : List α) : Decidable (Before p l) :=
  inferInstanceAs (Decidable (∀ s ∈ l.tails, s ≠ [] → ¬ p <+: s ++ p))

theorem fieldsFrom_append {p l : List α} (hp : p ≠ []) (h : Before p l) (field l' : List α) :
    fieldsFrom p 0 field (l ++ p ++ l') = (field ++ l) :: fields p l' := by
  induction l generalizing field with
  | nil =>
      cases p with
      | nil => exact absurd rfl hp
      | cons b p =>
          have hprefix : (b :: p).isPrefixOf (b :: (p ++ l')) = true := by
            rw [List.isPrefixOf_iff_prefix]
            exact List.prefix_append (b :: p) l'
          rw [List.nil_append, List.cons_append, fieldsFrom, if_pos hprefix, List.append_nil,
            List.length_cons, Nat.add_sub_cancel, fieldsFrom_append_length, fields]
  | cons a l ih =>
      have htail : Before p l := fun s hs => h s (by simp [hs])
      have hhead := h (a :: l) (by simp) (by simp)
      have hprefix : ¬ p <+: a :: (l ++ p ++ l') := by
        intro hpre
        -- the occurrence would end before what follows
        have hfront : a :: l ++ p <+: a :: (l ++ p ++ l') := by simp
        refine hhead (List.prefix_of_prefix_length_le hpre hfront ?_)
        rw [List.length_append]
        exact Nat.le_add_left _ _
      rw [List.cons_append, List.cons_append, fieldsFrom, if_neg (by simpa using hprefix),
        ih htail, List.append_assoc, List.singleton_append]

/-- **Cutting at the first occurrence.** -/
theorem fields_append {p l : List α} (hp : p ≠ []) (h : Before p l) (l' : List α) :
    fields p (l ++ p ++ l') = l :: fields p l' := by
  rw [fields, fieldsFrom_append hp h, List.nil_append]

theorem tokens_append {p l : List α} (hp : p ≠ []) (h : Before p l) (l' : List α) :
    tokens p (l ++ p ++ l') = (if l = [] then [] else [l]) ++ tokens p l' := by
  rw [tokens, fields_append hp h, List.filter_cons, tokens]
  cases l <;> simp

theorem tokens_of_not_contains {p l : List α} (h : contains p l = false) :
    tokens p l = if l = [] then [] else [l] := by
  rw [tokens, fields_of_not_contains h, List.filter_cons]
  cases l <;> simp

/-! ### Patterns of one element -/

theorem contains_singleton {a : α} {l : List α} : contains [a] l = false ↔ a ∉ l := by
  rw [← Bool.not_eq_true, contains_iff, List.singleton_infix_iff]

omit [DecidableEq α] in
theorem before_singleton {a : α} {l : List α} (h : a ∉ l) : Before [a] l := by
  intro s hs hne hpre
  cases s with
  | nil => exact hne rfl
  | cons b s =>
      obtain rfl : a = b := by simpa using hpre
      exact h (((List.mem_tails _ _).1 hs).subset (List.mem_cons_self ..))

/-- A list of which nothing is left by cutting at an element. -/
theorem fieldsFrom_singleton_eq_nil {a : α} {field l : List α} :
    (∀ f ∈ fieldsFrom [a] 0 field l, f = []) ↔ field = [] ∧ ∀ b ∈ l, b = a := by
  induction l generalizing field with
  | nil => simp [fieldsFrom]
  | cons b l ih =>
      by_cases hb : b = a
      · have hcut : fieldsFrom [a] 0 field (b :: l) = field :: fieldsFrom [a] 0 [] l := by
          simp [fieldsFrom, hb]
        rw [hcut, List.forall_mem_cons, ih, List.forall_mem_cons]
        simp [hb]
      · have hread : fieldsFrom [a] 0 field (b :: l) = fieldsFrom [a] 0 (field ++ [b]) l := by
          simp [fieldsFrom, Ne.symm hb]
        rw [hread, ih, List.forall_mem_cons]
        simp [hb]

/-- **Nothing is left** of a list that is made of the pattern only. -/
theorem tokens_singleton_eq_nil {a : α} {l : List α} : tokens [a] l = [] ↔ ∀ b ∈ l, b = a := by
  have hempty : tokens [a] l = [] ↔ ∀ f ∈ fieldsFrom [a] 0 [] l, f = [] := by
    simp [tokens, fields]
  rw [hempty, fieldsFrom_singleton_eq_nil, and_iff_right rfl]

/-- The elements of the fields are those of the list. -/
theorem mem_of_mem_fieldsFrom {p field l f : List α} {n : ℕ} {b : α}
    (hf : f ∈ fieldsFrom p n field l) (hb : b ∈ f) : b ∈ field ∨ b ∈ l := by
  induction l generalizing n field with
  | nil =>
      rw [fieldsFrom, List.mem_singleton] at hf
      exact .inl (hf ▸ hb)
  | cons a l ih =>
      cases n with
      | zero =>
          rw [fieldsFrom] at hf
          split_ifs at hf
          · rcases List.mem_cons.1 hf with rfl | hf
            · exact .inl hb
            · have hrest := ih hf
              simp only [List.not_mem_nil, false_or] at hrest
              exact .inr (List.mem_cons_of_mem a hrest)
          · rcases ih hf with hfield | hrest
            · rcases List.mem_append.1 hfield with hfield | hlast
              · exact .inl hfield
              · exact .inr (List.mem_singleton.1 hlast ▸ List.mem_cons_self ..)
            · exact .inr (List.mem_cons_of_mem a hrest)
      | succ n => exact (ih hf).imp_right (List.mem_cons_of_mem a)

theorem mem_of_mem_tokens {p l f : List α} (hf : f ∈ tokens p l) {b : α} (hb : b ∈ f) :
    b ∈ l := by
  have hrest := mem_of_mem_fieldsFrom (List.mem_of_mem_filter hf) hb
  simpa using hrest

theorem notMem_of_mem_fieldsFrom_singleton {a : α} {field l f : List α} (hfield : a ∉ field)
    (hf : f ∈ fieldsFrom [a] 0 field l) : a ∉ f := by
  induction l generalizing field with
  | nil =>
      rw [fieldsFrom, List.mem_singleton] at hf
      exact hf ▸ hfield
  | cons b l ih =>
      by_cases hb : b = a
      · have hcut : fieldsFrom [a] 0 field (b :: l) = field :: fieldsFrom [a] 0 [] l := by
          simp [fieldsFrom, hb]
        rw [hcut, List.mem_cons] at hf
        rcases hf with rfl | hf
        · exact hfield
        · exact ih (List.not_mem_nil) hf
      · have hread : fieldsFrom [a] 0 field (b :: l) = fieldsFrom [a] 0 (field ++ [b]) l := by
          simp [fieldsFrom, Ne.symm hb]
        rw [hread] at hf
        exact ih (by simp [hfield, Ne.symm hb]) hf

/-- No part has the element that was cut at. -/
theorem notMem_of_mem_tokens_singleton {a : α} {l f : List α} (hf : f ∈ tokens [a] l) : a ∉ f :=
  notMem_of_mem_fieldsFrom_singleton List.not_mem_nil (List.mem_of_mem_filter hf)

/-- **Cutting at a single element.** -/
theorem tokens_cons_of_notMem {a : α} {l : List α} (h : a ∉ l) (l' : List α) :
    tokens [a] (l ++ a :: l') = (if l = [] then [] else [l]) ++ tokens [a] l' := by
  have hcut := tokens_append (p := [a]) (by simp) (before_singleton h) l'
  rwa [List.append_assoc, List.singleton_append] at hcut

theorem tokens_of_notMem {a : α} {l : List α} (h : a ∉ l) :
    tokens [a] l = if l = [] then [] else [l] :=
  tokens_of_not_contains (contains_singleton.2 h)

end Splitting
