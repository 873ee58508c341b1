/-
**Finite maps as association lists.**

A table is an association list without repeated keys — Mathlib's `AList` — under the operations of
a mutable hash map: `get`, `put`, `delete`, `size` and the list of `entries`.  The order of the
entries is the list's own; a client that must not depend on it quantifies over its permutations.

Main results:

* `Table.get_put`, `Table.get_delete` — reading after writing;
* `Table.size_put_of_none`, `Table.entries_put_of_none` — a fresh key adds one entry;
* `Table.map_entries_put_perm` — overwriting keeps the other entries;
* `Table.get_putAll_entries`, `Table.size_putAll_entries` — writing the entries of a table
  into an empty one gives the same table, as a map and in size;
* `Table.putAll_entries_perm_iff` — when writing them into another table does;
* `Table.exists_of_perm` — every order of the entries is that of a table with the same values.
-/

import Mathlib.Data.List.AList

set_option relaxedAutoImplicit false
set_option autoImplicit false

universe u v

/-- A finite map from `κ` to `α`. -/
structure Table (κ : Type u) (α : Type v) : Type (max u v) where
  toAList : AList (fun _ : κ => α)

namespace Table

variable {κ : Type u} {α : Type v}

/-- The table without entries. -/
def empty : Table κ α := ⟨∅⟩

/-- The entries, each key once. -/
def entries (t : Table κ α) : List (κ × α) := t.toAList.entries.map fun e => (e.1, e.2)

/-- The number of entries. -/
def size (t : Table κ α) : ℕ := t.toAList.entries.length

@[simp] theorem size_empty : (empty : Table κ α).size = 0 := rfl

@[simp] theorem length_entries (t : Table κ α) : t.entries.length = t.size := by
  simp [entries, size]

theorem nodup_keys_entries (t : Table κ α) : (t.entries.map Prod.fst).Nodup := by
  have h : t.entries.map Prod.fst = t.toAList.keys := by
    simp [entries, AList.keys, List.keys, Function.comp_def]
  rw [h]
  exact t.toAList.keys_nodup

variable [DecidableEq κ]

/-- The value of a key. -/
def get (t : Table κ α) (k : κ) : Option α := t.toAList.lookup k

/-- The table with one key written. -/
def put (t : Table κ α) (k : κ) (a : α) : Table κ α := ⟨t.toAList.insert k a⟩

/-- The table with one key deleted. -/
def delete (t : Table κ α) (k : κ) : Table κ α := ⟨t.toAList.erase k⟩

/-- A list of entries written one after the other. -/
def putAll (t : Table κ α) (es : List (κ × α)) : Table κ α :=
  es.foldl (fun t e => t.put e.1 e.2) t

/-! ### Reading after writing -/

@[simp] theorem get_empty (k : κ) : (empty : Table κ α).get k = none := rfl

@[simp] theorem get_put_self (t : Table κ α) (k : κ) (a : α) : (t.put k a).get k = some a :=
  AList.lookup_insert t.toAList

theorem get_put_of_ne (t : Table κ α) {k k' : κ} (a : α) (h : k' ≠ k) :
    (t.put k a).get k' = t.get k' := AList.lookup_insert_ne h

theorem get_put (t : Table κ α) (k k' : κ) (a : α) :
    (t.put k a).get k' = if k' = k then some a else t.get k' := by
  by_cases h : k' = k
  · rw [h, if_pos rfl, get_put_self]
  · rw [if_neg h, get_put_of_ne t a h]

@[simp] theorem get_delete_self (t : Table κ α) (k : κ) : (t.delete k).get k = none :=
  AList.lookup_erase k t.toAList

theorem get_delete_of_ne (t : Table κ α) {k k' : κ} (h : k' ≠ k) :
    (t.delete k).get k' = t.get k' := AList.lookup_erase_ne h

theorem get_delete (t : Table κ α) (k k' : κ) :
    (t.delete k).get k' = if k' = k then none else t.get k' := by
  by_cases h : k' = k
  · rw [h, if_pos rfl, get_delete_self]
  · rw [if_neg h, get_delete_of_ne t h]

/-- What a deletion leaves was there before, at another key. -/
theorem get_of_get_delete {t : Table κ α} {k k' : κ} {a : α} (h : (t.delete k).get k' = some a) :
    k' ≠ k ∧ t.get k' = some a := by
  rw [get_delete] at h
  split at h
  · simp at h
  · exact ⟨‹_›, h⟩

/-- What is found after a write is the value written, or was there before at another key. -/
theorem get_of_get_put {t : Table κ α} {k k' : κ} {a b : α} (h : (t.put k a).get k' = some b) :
    (k' = k ∧ b = a) ∨ (k' ≠ k ∧ t.get k' = some b) := by
  rw [get_put] at h
  split at h
  · exact Or.inl ⟨‹_›, (Option.some_inj.1 h).symm⟩
  · exact Or.inr ⟨‹_›, h⟩

/-! ### Entries and size -/

theorem mem_entries {t : Table κ α} {k : κ} {a : α} : (k, a) ∈ t.entries ↔ t.get k = some a := by
  rw [get, ← Option.mem_def, AList.mem_lookup_iff, entries, List.mem_map]
  constructor
  · rintro ⟨⟨k', a'⟩, he, heq⟩
    cases heq
    exact he
  · exact fun h => ⟨⟨k, a⟩, h, rfl⟩

theorem get_eq_none {t : Table κ α} {k : κ} : t.get k = none ↔ k ∉ t.entries.map Prod.fst := by
  rw [Option.eq_none_iff_forall_ne_some, List.mem_map]
  constructor
  · rintro h ⟨⟨k', a⟩, he, rfl⟩
    exact h a (mem_entries.1 he)
  · exact fun h a ha => h ⟨(k, a), mem_entries.2 ha, rfl⟩

theorem size_put_of_none {t : Table κ α} {k : κ} (a : α) (h : t.get k = none) :
    (t.put k a).size = t.size + 1 := by
  have hk : k ∉ t.toAList := AList.lookup_eq_none.1 h
  rw [size, put, AList.entries_insert_of_notMem hk, List.length_cons, size]

/-- A fresh key comes in front. -/
theorem entries_put_of_none {t : Table κ α} {k : κ} (a : α) (h : t.get k = none) :
    (t.put k a).entries = (k, a) :: t.entries := by
  have hk : k ∉ t.toAList := AList.lookup_eq_none.1 h
  rw [entries, put, AList.entries_insert_of_notMem hk, List.map_cons, ← entries]

/-- Overwriting an entry by one with the same image keeps the images, up to their order. -/
theorem map_entries_put_perm {β : Type*} {t : Table κ α} {k : κ} {a b : α} (h : t.get k = some b)
    {g : α → β} (hg : g a = g b) :
    ((t.put k a).entries.map fun e => g e.2).Perm (t.entries.map fun e => g e.2) := by
  have hk : k ∈ t.toAList.entries.keys := AList.lookup_isSome.1 (Option.isSome_of_eq_some h)
  -- the old entry lies somewhere in the list, and goes
  obtain ⟨b', l₁, l₂, -, hl, herase⟩ := List.exists_of_kerase hk
  have hmem : (⟨k, b'⟩ : Sigma fun _ : κ => α) ∈ t.toAList.entries := by
    rw [hl]
    exact List.mem_append_right l₁ (List.mem_cons_self ..)
  have hb : b' = b := by
    have hget : t.get k = some b' := AList.mem_lookup_iff.2 hmem
    exact Option.some_inj.1 (hget.symm.trans h)
  subst hb
  rw [hl] at herase
  simp only [entries, put, AList.entries_insert, herase, hl, List.map_map, List.map_cons,
    List.map_append, Function.comp_def, hg]
  exact List.perm_middle.symm

/-! ### Writing a list of entries -/

theorem get_putAll_of_notMem (es : List (κ × α)) (t : Table κ α) {k : κ}
    (h : k ∉ es.map Prod.fst) : (t.putAll es).get k = t.get k := by
  induction es generalizing t with
  | nil => rfl
  | cons e es ih =>
      rw [List.map_cons, List.mem_cons, not_or] at h
      rw [putAll, List.foldl_cons, ← putAll, ih _ h.2, get_put_of_ne t e.2 h.1]

theorem get_putAll_of_mem (es : List (κ × α)) (t : Table κ α) (hes : (es.map Prod.fst).Nodup)
    {k : κ} {a : α} (h : (k, a) ∈ es) : (t.putAll es).get k = some a := by
  induction es generalizing t with
  | nil => simp at h
  | cons e es ih =>
      rw [List.map_cons, List.nodup_cons] at hes
      rw [putAll, List.foldl_cons, ← putAll]
      rcases List.mem_cons.1 h with rfl | h
      · rw [get_putAll_of_notMem es _ hes.1, get_put_self]
      · exact ih _ hes.2 h

theorem size_putAll (es : List (κ × α)) (t : Table κ α) (hes : (es.map Prod.fst).Nodup)
    (ht : ∀ e ∈ es, t.get e.1 = none) : (t.putAll es).size = t.size + es.length := by
  induction es generalizing t with
  | nil => rfl
  | cons e es ih =>
      rw [List.map_cons, List.nodup_cons] at hes
      rw [putAll, List.foldl_cons, ← putAll, ih _ hes.2 ?_,
        size_put_of_none e.2 (ht e (List.mem_cons_self ..)), List.length_cons]
      · omega
      · intro e' he'
        have hne : e'.1 ≠ e.1 := fun heq => hes.1 (heq ▸ List.mem_map_of_mem he')
        rw [get_put_of_ne t e.2 hne]
        exact ht e' (List.mem_cons_of_mem e he')

/-- **Writing the entries of one table into another**: its values come first. -/
theorem get_putAll_entries_or (t t' : Table κ α) (k : κ) :
    (t'.putAll t.entries).get k = (t.get k).or (t'.get k) := by
  cases h : t.get k with
  | none => rw [get_putAll_of_notMem _ _ (get_eq_none.1 h), Option.none_or]
  | some a => exact get_putAll_of_mem _ _ t.nodup_keys_entries (mem_entries.2 h)

/-- **Copying a table through its entries** keeps every value. -/
theorem get_putAll_entries (t : Table κ α) (k : κ) :
    ((empty : Table κ α).putAll t.entries).get k = t.get k := by
  rw [get_putAll_entries_or, get_empty, Option.or_none]

/-- Tables with the same values have the same entries, up to their order. -/
theorem entries_perm_iff {t t' : Table κ α} :
    t.entries.Perm t'.entries ↔ ∀ k, t.get k = t'.get k := by
  have hmem : t.entries.Perm t'.entries ↔ ∀ e, e ∈ t.entries ↔ e ∈ t'.entries :=
    List.perm_ext_iff_of_nodup (List.Nodup.of_map _ t.nodup_keys_entries)
      (List.Nodup.of_map _ t'.nodup_keys_entries)
  rw [hmem]
  constructor
  · intro h k
    refine Option.ext fun a => ?_
    rw [← mem_entries, ← mem_entries, h]
  · rintro h ⟨k, a⟩
    rw [mem_entries, mem_entries, h]

/-- Every list of entries without repeated keys is that of a table. -/
theorem exists_entries_eq {es : List (κ × α)} (h : (es.map Prod.fst).Nodup) :
    ∃ t : Table κ α, t.entries = es := by
  induction es with
  | nil => exact ⟨empty, rfl⟩
  | cons e es ih =>
      rw [List.map_cons, List.nodup_cons] at h
      obtain ⟨t, rfl⟩ := ih h.2
      exact ⟨t.put e.1 e.2, entries_put_of_none e.2 (get_eq_none.2 h.1)⟩

/-- **Every order of the entries** is that of a table with the same values. -/
theorem exists_of_perm {t : Table κ α} {es : List (κ × α)} (h : es.Perm t.entries) :
    ∃ t' : Table κ α, t'.entries = es ∧ ∀ k, t'.get k = t.get k := by
  obtain ⟨t', rfl⟩ := exists_entries_eq
    ((h.map Prod.fst).nodup_iff.2 t.nodup_keys_entries)
  exact ⟨t', rfl, entries_perm_iff.1 h⟩

/-- Writing the entries of one table into another gives the first one exactly where the other has
no further keys. -/
theorem putAll_entries_perm_iff {t t' : Table κ α} :
    (t'.putAll t.entries).entries.Perm t.entries ↔ ∀ k, t.get k = none → t'.get k = none := by
  rw [entries_perm_iff]
  refine forall_congr' fun k => ?_
  rw [get_putAll_entries_or]
  cases t.get k <;> simp

/-- Copying a table through its entries keeps its size. -/
theorem size_putAll_entries (t : Table κ α) :
    ((empty : Table κ α).putAll t.entries).size = t.size := by
  rw [size_putAll _ _ t.nodup_keys_entries fun e _ => get_empty e.1]
  simp

end Table
