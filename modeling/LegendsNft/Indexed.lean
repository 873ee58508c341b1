/-
**Lists with an index by key.**

A list of items is read by key through an index of positions.  Storing an item writes it over the
item of its key, or appends it; a position past the end of the list makes reading and storing fail.
The index is *sound* when every position it gives is that of an item with the key, and *exact* when
in addition every item is indexed; a list that is only ever stored into is exact, and replaying any
list into an empty one leaves the last item of each key.

Main definitions:

* `Indexed`, `Indexed.find`, `Indexed.store`, `Indexed.storeAll` — the list and its operations;
* `Indexed.lastOf` — the last item of a key;
* `Indexed.Sound`, `Indexed.Exact` — what the index may say, and what it must say.

Main results:

* `Indexed.Sound.store` — reading after storing, with no failure;
* `Indexed.Sound.set`, `Indexed.Sound.delete` — overwriting an item, and forgetting a key;
* `Indexed.Exact.mem_items`, `Indexed.Exact.find_eq` — the items of an exact list are what it
  finds;
* `Indexed.exists_replay` — **replaying a list leaves the last item of each key**.
-/

import LegendsNft.Table

set_option relaxedAutoImplicit false
set_option autoImplicit false

universe u v

/-- A list of items and an index of positions by key. -/
structure Indexed (κ : Type u) (α : Type v) where
  index : Table κ ℕ
  items : List α

namespace Indexed

variable {κ : Type u} {α : Type v}

/-- The empty list, with nothing indexed. -/
def empty : Indexed κ α := ⟨Table.empty, []⟩

variable [DecidableEq κ]

/-- The item of a key, if the key is indexed; a position past the end is a failure. -/
def find (s : Indexed κ α) (k : κ) : Option (Option α) :=
  match s.index.get k with
  | some i => (s.items[i]?).map some
  | none => some none

variable (key : α → κ)

/-- An item written over the item of its key, or appended. -/
def store (s : Indexed κ α) (a : α) : Option (Indexed κ α) :=
  match s.index.get (key a) with
  | some i => if i < s.items.length then some { s with items := s.items.set i a } else none
  | none => some ⟨s.index.put (key a) s.items.length, s.items ++ [a]⟩

/-- A list of items stored one after the other. -/
def storeAll (s : Indexed κ α) : List α → Option (Indexed κ α)
  | [] => some s
  | a :: l => (s.store key a).bind fun s' => s'.storeAll l

/-- The last item of a key. -/
def lastOf (k : κ) (l : List α) : Option α := l.reverse.find? fun a => key a = k

theorem lastOf_cons (k : κ) (a : α) (l : List α) :
    lastOf key k (a :: l) = (lastOf key k l).or (if key a = k then some a else none) := by
  rw [lastOf, List.reverse_cons, List.find?_append, ← lastOf, List.find?_singleton]
  simp

theorem key_of_lastOf {key : α → κ} {k : κ} {a : α} {l : List α} (h : lastOf key k l = some a) :
    key a = k := by
  simpa using List.find?_some h

theorem mem_of_lastOf {key : α → κ} {k : κ} {a : α} {l : List α} (h : lastOf key k l = some a) :
    a ∈ l := List.mem_reverse.1 (List.mem_of_find?_eq_some h)

theorem lastOf_eq_none {key : α → κ} {k : κ} {l : List α} :
    lastOf key k l = none ↔ ∀ a ∈ l, key a ≠ k := by
  simp [lastOf]

/-! ### Sound and exact indexes -/

/-- The index is sound: its positions are those of items with their keys. -/
def Sound (s : Indexed κ α) : Prop :=
  ∀ k i, s.index.get k = some i → ∃ a, s.items[i]? = some a ∧ key a = k

/-- The index is exact: it is sound, and every item is indexed at its position. -/
structure Exact (s : Indexed κ α) : Prop where
  sound : s.Sound key
  indexed : ∀ i a, s.items[i]? = some a → s.index.get (key a) = some i

theorem exact_empty : (empty : Indexed κ α).Exact key where
  sound := by
    intro k i h
    simp [empty] at h
  indexed := by
    intro i a h
    simp [empty] at h

variable {key}

theorem find_of_get_eq_none {s : Indexed κ α} {k : κ} (h : s.index.get k = none) :
    s.find k = some none := by
  simp [find, h]

theorem find_of_get_eq_some {s : Indexed κ α} {k : κ} {i : ℕ} (h : s.index.get k = some i) :
    s.find k = (s.items[i]?).map some := by
  simp [find, h]

/-- Nothing is found, without a failure, exactly under the keys that are not indexed. -/
theorem find_eq_some_none {s : Indexed κ α} {k : κ} :
    s.find k = some none ↔ s.index.get k = none := by
  cases h : s.index.get k with
  | none => simp [find_of_get_eq_none h]
  | some i => simp [find_of_get_eq_some h]

/-- Reading a sound list does not fail. -/
theorem Sound.exists_find {s : Indexed κ α} (hs : s.Sound key) (k : κ) :
    ∃ o, s.find k = some o := by
  cases hget : s.index.get k with
  | none => exact ⟨none, find_of_get_eq_none hget⟩
  | some i =>
      obtain ⟨a, ha, -⟩ := hs k i hget
      exact ⟨some a, by rw [find_of_get_eq_some hget, ha, Option.map_some]⟩

/-- What a sound list finds has the key it was asked for. -/
theorem Sound.key_of_find {s : Indexed κ α} (hs : s.Sound key) {k : κ} {a : α}
    (h : s.find k = some (some a)) : key a = k := by
  cases hget : s.index.get k with
  | none => simp [find_of_get_eq_none hget] at h
  | some i =>
      obtain ⟨b, hb, hkey⟩ := hs k i hget
      rw [find_of_get_eq_some hget, hb, Option.map_some, Option.some_inj, Option.some_inj] at h
      exact h ▸ hkey

/-- The items after storing one. -/
theorem mem_of_store {s s' : Indexed κ α} {a b : α} (h : s.store key a = some s')
    (hb : b ∈ s'.items) : b = a ∨ b ∈ s.items := by
  rw [Indexed.store] at h
  split at h
  · split_ifs at h
    cases h
    exact (List.mem_or_eq_of_mem_set hb).symm
  · cases h
    rcases List.mem_append.1 hb with hb | hb
    · exact Or.inr hb
    · exact Or.inl (List.mem_singleton.1 hb)

/-- **Overwriting an item** by one of its key: the other keys find what they found. -/
theorem Sound.set {s : Indexed κ α} (hs : s.Sound key) {i : ℕ} {a b : α}
    (ha : s.items[i]? = some a) (hkey : key b = key a) :
    ({ s with items := s.items.set i b } : Indexed κ α).Sound key ∧
      ∀ k, k ≠ key a → ({ s with items := s.items.set i b } : Indexed κ α).find k = s.find k := by
  obtain ⟨hi, -⟩ := List.getElem?_eq_some_iff.1 ha
  constructor
  · intro k j hj
    obtain ⟨c, hc, hk⟩ := hs k j hj
    by_cases hij : i = j
    · subst hij
      rw [ha, Option.some_inj] at hc
      exact ⟨b, List.getElem?_set_self hi, hkey.trans (hc ▸ hk)⟩
    · exact ⟨c, (List.getElem?_set_ne hij).trans hc, hk⟩
  · intro k hk
    cases hget : s.index.get k with
    | none => simp only [find, hget]
    | some j =>
        have hij : i ≠ j := by
          rintro rfl
          obtain ⟨c, hc, hck⟩ := hs k i hget
          rw [ha, Option.some_inj] at hc
          exact hk (hck.symm.trans (congrArg key hc.symm))
        have hnew := find_of_get_eq_some (s := { s with items := s.items.set i b }) hget
        rw [hnew, find_of_get_eq_some hget, List.getElem?_set_ne hij]

/-- **Forgetting a key.** -/
theorem Sound.delete {s : Indexed κ α} (hs : s.Sound key) (k : κ) :
    ({ s with index := s.index.delete k } : Indexed κ α).Sound key ∧
      ∀ k', ({ s with index := s.index.delete k } : Indexed κ α).find k' =
        if k' = k then some none else s.find k' := by
  constructor
  · intro k' i hi
    exact hs k' i (Table.get_of_get_delete hi).2
  · intro k'
    split_ifs with h
    · exact find_of_get_eq_none (by rw [h, Table.get_delete_self])
    · simp only [find, Table.get_delete_of_ne _ h]

/-- **Reading after storing**: a sound list stores every item, and finds it. -/
theorem Sound.store {s : Indexed κ α} (hs : s.Sound key) (a : α) :
    ∃ s', s.store key a = some s' ∧ s'.Sound key ∧
      ∀ k, s'.find k = if k = key a then some (some a) else s.find k := by
  cases hget : s.index.get (key a) with
  | some i =>
      obtain ⟨b, hb, hkey⟩ := hs _ i hget
      obtain ⟨hi, -⟩ := List.getElem?_eq_some_iff.1 hb
      obtain ⟨hsound, hother⟩ := hs.set hb hkey.symm
      refine ⟨_, by simp only [Indexed.store, hget, if_pos hi], hsound, ?_⟩
      intro k
      split_ifs with hk
      · subst hk
        have hnew := find_of_get_eq_some (s := { s with items := s.items.set i a }) hget
        rw [hnew, List.getElem?_set_self hi]
        rfl
      · exact hother k (hkey.symm ▸ hk)
  | none =>
      refine ⟨⟨s.index.put (key a) s.items.length, s.items ++ [a]⟩, ?_, ?_, ?_⟩
      · simp only [Indexed.store, hget]
      · intro k i hi
        rcases Table.get_of_get_put hi with ⟨rfl, rfl⟩ | ⟨-, hi⟩
        · exact ⟨a, by simp, rfl⟩
        · obtain ⟨b, hb, hk⟩ := hs k i hi
          exact ⟨b, (List.getElem?_append_left (List.getElem?_eq_some_iff.1 hb).1).trans hb, hk⟩
      · intro k
        split_ifs with hk
        · subst hk
          simp [find]
        · -- the positions of the other keys lie before the new item
          simp only [find, Table.get_put_of_ne _ _ hk]
          cases hk' : s.index.get k with
          | none => rfl
          | some j =>
              obtain ⟨b, hb, -⟩ := hs k j hk'
              have hj := (List.getElem?_eq_some_iff.1 hb).1
              simp only [List.getElem?_append_left hj]

/-- Storing keeps an index exact. -/
theorem Exact.store {s s' : Indexed κ α} (hs : s.Exact key) {a : α}
    (h : s.store key a = some s') : s'.Exact key := by
  obtain ⟨t, ht, hsound, -⟩ := hs.sound.store a
  rw [h, Option.some_inj] at ht
  refine ⟨ht ▸ hsound, ?_⟩
  clear ht hsound
  intro j b hb
  cases hget : s.index.get (key a) with
  | some i =>
      obtain ⟨c, hc, hkey⟩ := hs.sound _ i hget
      obtain ⟨hi, -⟩ := List.getElem?_eq_some_iff.1 hc
      simp only [Indexed.store, hget, if_pos hi, Option.some_inj] at h
      subst h
      by_cases hij : i = j
      · subst hij
        rw [List.getElem?_set_self hi, Option.some_inj] at hb
        exact hb ▸ hget
      · rw [List.getElem?_set_ne hij] at hb
        exact hs.indexed j b hb
  | none =>
      simp only [Indexed.store, hget, Option.some_inj] at h
      subst h
      rcases Nat.lt_or_ge j s.items.length with hj | hj
      · rw [List.getElem?_append_left hj] at hb
        have hold := hs.indexed j b hb
        have hne : key b ≠ key a := by
          intro heq
          rw [heq, hget] at hold
          simp at hold
        exact (Table.get_put_of_ne _ _ hne).trans hold
      · rw [List.getElem?_append_right hj] at hb
        obtain ⟨hlt, heq⟩ := List.getElem?_eq_some_iff.1 hb
        have hzero : j - s.items.length = 0 := by simpa using hlt
        have hb' : b = a := by simp [← heq]
        have hj' : j = s.items.length := by omega
        rw [hb', hj']
        exact Table.get_put_self _ _ _

/-- The items of an exact list are what it finds. -/
theorem Exact.mem_items {s : Indexed κ α} (hs : s.Exact key) {a : α} :
    a ∈ s.items ↔ s.find (key a) = some (some a) := by
  constructor
  · intro h
    obtain ⟨i, hi⟩ := List.mem_iff_getElem?.1 h
    rw [find_of_get_eq_some (hs.indexed i a hi), hi]
    rfl
  · intro h
    cases hget : s.index.get (key a) with
    | none => simp [find, hget] at h
    | some i =>
        rw [find_of_get_eq_some hget] at h
        obtain ⟨b, hb, hba⟩ := Option.map_eq_some_iff.1 h
        rw [Option.some_inj] at hba
        exact List.mem_of_getElem? (hba ▸ hb)

/-- An exact list finds the last item of each key, which is the only one. -/
theorem Exact.find_eq {s : Indexed κ α} (hs : s.Exact key) (k : κ) :
    s.find k = some (lastOf key k s.items) := by
  cases hlast : lastOf key k s.items with
  | some a => exact key_of_lastOf hlast ▸ hs.mem_items.1 (mem_of_lastOf hlast)
  | none =>
      refine find_of_get_eq_none ?_
      rw [Option.eq_none_iff_forall_ne_some]
      intro i hi
      obtain ⟨a, ha, hk⟩ := hs.sound k i hi
      exact lastOf_eq_none.1 hlast a (List.mem_of_getElem? ha) hk

/-! ### Storing a list of items -/

/-- A sound list stores every list of items, and finds the last of each key. -/
theorem Sound.storeAll {s : Indexed κ α} (hs : s.Sound key) (l : List α) :
    ∃ s', s.storeAll key l = some s' ∧ s'.Sound key ∧ (s.Exact key → s'.Exact key) ∧
      ∀ k, s'.find k = (lastOf key k l).elim (s.find k) fun a => some (some a) := by
  induction l generalizing s with
  | nil => exact ⟨s, rfl, hs, id, fun _ => rfl⟩
  | cons a l ih =>
      obtain ⟨t, ht, hsound, hfind⟩ := hs.store a
      obtain ⟨s', hs', hsound', hexact, hfind'⟩ := ih hsound
      refine ⟨s', ?_, hsound', fun h => hexact (h.store ht), ?_⟩
      · rw [Indexed.storeAll, ht]
        exact hs'
      · intro k
        rw [hfind', hfind, lastOf_cons]
        cases lastOf key k l with
        | some b => rfl
        | none =>
            by_cases hk : key a = k
            · simp [hk]
            · simp [hk, Ne.symm hk]

/-- **Replaying a list** into an empty one leaves the last item of each key, and nothing else. -/
theorem exists_replay (key : α → κ) (l : List α) :
    ∃ s, (empty : Indexed κ α).storeAll key l = some s ∧ s.Exact key ∧
      (∀ k, s.find k = some (lastOf key k l)) ∧
      ∀ a, a ∈ s.items ↔ lastOf key (key a) l = some a := by
  obtain ⟨s, hs, -, hexact, hfind⟩ := (exact_empty key).sound.storeAll l
  have hlast : ∀ k, s.find k = some (lastOf key k l) := by
    intro k
    rw [hfind, find_of_get_eq_none (s := empty) rfl]
    cases lastOf key k l <;> rfl
  refine ⟨s, hs, hexact (exact_empty key), hlast, ?_⟩
  intro a
  rw [(hexact (exact_empty key)).mem_items, hlast, Option.some_inj]

end Indexed
