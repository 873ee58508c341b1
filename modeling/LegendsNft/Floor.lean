/-
**The floor price.**

`stats` goes through the listings in the order in which the hash map enumerates them, and lowers the
floor to each price below it.  The floor starts at zero, which stands for no price yet, and a floor
of zero is replaced by whatever price comes next.  So a listing at the price zero is forgotten at
the next one: the floor is zero exactly when the last price is, and otherwise it is the minimum only
where no price is zero.

The order is that of the hash map, and the same listings can be enumerated in any.  All orders give
the minimum exactly when no listing is at the price zero, or all are; and otherwise two orders give
two floors.

Main definitions:

* `LegendsNft.Entrepot.listingPrices`, `LegendsNft.Entrepot.lowestListing` — the prices of the
  listings, as they are enumerated, and their minimum;
* `LegendsNft.Entrepot.SameListings` — the same listings, in any order.

Main results:

* `LegendsNft.Entrepot.floorPrice_eq_min_iff` — the orders in which the floor is the minimum;
* `LegendsNft.Entrepot.floor_iff` — **the listings whose floor is the minimum in every order**.
-/

import LegendsNft.Statistics

set_option relaxedAutoImplicit false
set_option autoImplicit false

namespace LegendsNft

namespace Entrepot

/-! ### The loop -/

theorem floorPrice_append_singleton (l : List UInt64) (p : UInt64) :
    floorPrice (l ++ [p]) = if floorPrice l = 0 ∨ p < floorPrice l then p else floorPrice l := by
  rw [floorPrice, List.foldl_append, ← floorPrice]
  rfl

/-- The floor is one of the prices. -/
theorem floorPrice_mem {l : List UInt64} (h : l ≠ []) : floorPrice l ∈ l := by
  induction l using List.reverseRecOn with
  | nil => exact absurd rfl h
  | append_singleton l p ih =>
      rw [floorPrice_append_singleton]
      split_ifs with hp
      · exact List.mem_append_right l (List.mem_singleton_self p)
      · refine List.mem_append_left [p] (ih ?_)
        rintro rfl
        exact hp (Or.inl rfl)

/-- Where no price is zero, the floor is below all of them. -/
theorem floorPrice_le {l : List UInt64} (h : 0 ∉ l) {p : UInt64} (hp : p ∈ l) :
    floorPrice l ≤ p := by
  induction l using List.reverseRecOn with
  | nil => simp at hp
  | append_singleton l q ih =>
      rw [List.mem_append, not_or] at h
      rw [floorPrice_append_singleton]
      rcases List.mem_append.1 hp with hp | hp
      · have hle := ih h.1 hp
        have hne : floorPrice l ≠ 0 := by
          intro hzero
          exact h.1 (hzero ▸ floorPrice_mem (List.ne_nil_of_mem hp))
        split_ifs with hq
        · exact UInt64.le_trans (UInt64.le_of_lt (hq.resolve_left hne)) hle
        · exact hle
      · obtain rfl := List.mem_singleton.1 hp
        split_ifs with hq
        · exact UInt64.le_refl p
        · exact UInt64.not_lt.1 fun hlt => hq (Or.inr hlt)

/-- The floor is zero exactly when the last price is. -/
theorem floorPrice_eq_zero_iff {l : List UInt64} :
    floorPrice l = 0 ↔ l = [] ∨ l.getLast? = some 0 := by
  cases l using List.reverseRecOn with
  | nil => simp [floorPrice]
  | append_singleton l p =>
      rw [floorPrice_append_singleton]
      split_ifs with hp
      · simp
      · rw [not_or] at hp
        have hne : p ≠ 0 := by
          rintro rfl
          exact hp.2 (UInt64.pos_iff_ne_zero.2 hp.1)
        simp [hp.1, hne]

/-- **The orders in which the floor is the minimum**: those in which no price is zero, or the last
one is. -/
theorem floorPrice_eq_min_iff (l : List UInt64) :
    (floorPrice l).toNat = (l.map UInt64.toNat).min?.getD 0 ↔
      (0 ∈ l → l.getLast? = some 0) := by
  by_cases hzero : 0 ∈ l
  · have hmin : (l.map UInt64.toNat).min?.getD 0 = 0 :=
      min?_getD_eq_zero.2 (Or.inr (List.mem_map.2 ⟨0, hzero, rfl⟩))
    have hne : l ≠ [] := List.ne_nil_of_mem hzero
    rw [hmin, ← UInt64.toNat_zero, UInt64.toNat_inj, floorPrice_eq_zero_iff]
    simp [hne, hzero]
  · refine iff_of_true ?_ fun h => absurd h hzero
    cases l with
    | nil => rfl
    | cons p l =>
        have hmem := floorPrice_mem (List.cons_ne_nil p l)
        have hmin : ((p :: l).map UInt64.toNat).min? = some (floorPrice (p :: l)).toNat := by
          refine List.min?_eq_some_iff.2 ⟨List.mem_map_of_mem hmem, ?_⟩
          intro n hn
          obtain ⟨q, hq, rfl⟩ := List.mem_map.1 hn
          exact UInt64.le_iff_toNat_le.1 (floorPrice_le hzero hq)
        rw [hmin, Option.getD_some]

/-! ### The listings -/

/-- The prices of the listings, as they are enumerated. -/
def listingPrices (s : Entrepot) : List UInt64 := s.listings.entries.map fun a => a.2.price

/-- The lowest price of the listings, zero if there are none. -/
def lowestListing (s : Entrepot) : ℕ := (s.listingPrices.map UInt64.toNat).min?.getD 0

/-- The same listings, in any order. -/
def SameListings (s s' : Entrepot) : Prop := ∀ i, s'.listings.get i = s.listings.get i

theorem SameListings.prices_perm {s s' : Entrepot} (h : SameListings s s') :
    s'.listingPrices.Perm s.listingPrices := (Table.entries_perm_iff.2 h).map _

/-- Every listing is the last one in some order. -/
theorem exists_getLast? {s : Entrepot} {p : UInt64} (hp : p ∈ s.listingPrices) :
    ∃ s', SameListings s s' ∧ s'.listingPrices.getLast? = some p := by
  obtain ⟨e, he, rfl⟩ := List.mem_map.1 hp
  have hperm : (s.listings.entries.erase e ++ [e]).Perm s.listings.entries :=
    (List.perm_append_singleton e _).trans (List.perm_cons_erase he).symm
  obtain ⟨t, ht, hsame⟩ := Table.exists_of_perm hperm
  refine ⟨{ s with listings := t }, hsame, ?_⟩
  rw [listingPrices, ht, List.map_append, List.map_singleton, List.getLast?_concat]

/-- The floor is zero when the last listing has the price zero, and only then. -/
theorem floor_eq_zero_iff {s : Entrepot} {supply : UInt16} {p : UInt64}
    (hp : s.listingPrices.getLast? = some p) : (s.stats supply).floor = 0 ↔ p = 0 := by
  have hne : s.listingPrices ≠ [] := by
    intro hnil
    rw [hnil] at hp
    cases hp
  rw [stats, ← listingPrices, floorPrice_eq_zero_iff, hp]
  simp [hne]

/-- The same listings have the same minimum. -/
theorem SameListings.lowestListing_eq {s s' : Entrepot} (h : SameListings s s') :
    s'.lowestListing = s.lowestListing := by
  have hperm := h.prices_perm.map UInt64.toNat
  rw [lowestListing, lowestListing]
  cases hmin : (s.listingPrices.map UInt64.toNat).min? with
  | none =>
      rw [List.min?_eq_none_iff] at hmin
      rw [hmin] at hperm
      rw [hperm.eq_nil]
      rfl
  | some n =>
      obtain ⟨hmem, hle⟩ := List.min?_eq_some_iff.1 hmin
      have hmin' : (s'.listingPrices.map UInt64.toNat).min? = some n :=
        List.min?_eq_some_iff.2 ⟨hperm.mem_iff.2 hmem, fun m hm => hle m (hperm.mem_iff.1 hm)⟩
      rw [hmin']

/-- No listing is at the price zero, or all are. -/
def ZeroApart (s : Entrepot) : Prop := 0 ∉ s.listingPrices ∨ ∀ p ∈ s.listingPrices, p = 0

/-- Where no listing is at the price zero, or all are, the last of them is if any is. -/
theorem ZeroApart.getLast? {s : Entrepot} (h : ZeroApart s) (hzero : 0 ∈ s.listingPrices) :
    s.listingPrices.getLast? = some 0 := by
  rcases h with hnone | hall
  · exact absurd hzero hnone
  · have hlast := List.getLast?_eq_some_getLast (List.ne_nil_of_mem hzero)
    rw [hlast, hall _ (List.getLast_mem _)]

theorem SameListings.zeroApart {s s' : Entrepot} (h : SameListings s s') (hs : ZeroApart s) :
    ZeroApart s' := by
  rcases hs with hnone | hall
  · exact Or.inl fun hzero => hnone (h.prices_perm.mem_iff.1 hzero)
  · exact Or.inr fun p hp => hall p (h.prices_perm.mem_iff.1 hp)

/-- Where some but not all listings are at the price zero, two orders give two floors. -/
theorem exists_floors {s : Entrepot} (h : ¬ ZeroApart s) (supply : UInt16) :
    ∃ s₁ s₂, SameListings s s₁ ∧ SameListings s s₂ ∧ (s₁.stats supply).floor = 0 ∧
      (s₂.stats supply).floor ≠ 0 := by
  rw [ZeroApart, not_or, not_not] at h
  obtain ⟨hzero, hsome⟩ := h
  simp only [not_forall] at hsome
  obtain ⟨p, hp, hne⟩ := hsome
  obtain ⟨s₁, hsame₁, hlast₁⟩ := exists_getLast? hzero
  obtain ⟨s₂, hsame₂, hlast₂⟩ := exists_getLast? hp
  exact ⟨s₁, s₂, hsame₁, hsame₂, (floor_eq_zero_iff hlast₁).2 rfl,
    fun hfloor => hne ((floor_eq_zero_iff hlast₂).1 hfloor)⟩

/-- The floor of a state is the minimum exactly when the last listing it enumerates is at the price
zero, if any is. -/
theorem floor_eq_lowestListing_iff (s : Entrepot) (supply : UInt16) :
    (s.stats supply).floor.toNat = s.lowestListing ↔
      (0 ∈ s.listingPrices → s.listingPrices.getLast? = some 0) :=
  floorPrice_eq_min_iff s.listingPrices

theorem SameListings.floor_eq {s s' : Entrepot} (h : SameListings s s') (hs : ZeroApart s)
    (supply : UInt16) : (s'.stats supply).floor.toNat = s.lowestListing := by
  rw [(floor_eq_lowestListing_iff s' supply).2 (h.zeroApart hs).getLast?, h.lowestListing_eq]

/-- **The listings whose floor is the minimum in every order** in which they may be enumerated are
those of which none is at the price zero, or all are; and only for these the floor does not depend
on the order. -/
theorem floor_iff (s : Entrepot) (supply : UInt16) :
    ((s.stats supply).floor.toNat = s.lowestListing ↔
      (0 ∈ s.listingPrices → s.listingPrices.getLast? = some 0)) ∧
    ((∀ s', SameListings s s' → (s'.stats supply).floor.toNat = s.lowestListing) ↔
      ZeroApart s) ∧
    ((∀ s', SameListings s s' → (s'.stats supply).floor = (s.stats supply).floor) ↔
      ZeroApart s) := by
  refine ⟨floor_eq_lowestListing_iff s supply, ⟨?_, ?_⟩, ⟨?_, ?_⟩⟩
  · intro hall
    by_contra hapart
    obtain ⟨s₁, s₂, hsame₁, hsame₂, hfloor₁, hfloor₂⟩ := exists_floors hapart supply
    refine hfloor₂ (UInt64.toNat_inj.1 ?_)
    rw [hall s₂ hsame₂, ← hall s₁ hsame₁, hfloor₁]
  · exact fun hapart s' hsame => hsame.floor_eq hapart supply
  · intro hall
    by_contra hapart
    obtain ⟨s₁, s₂, hsame₁, hsame₂, hfloor₁, hfloor₂⟩ := exists_floors hapart supply
    exact hfloor₂ ((hall s₂ hsame₂).trans ((hall s₁ hsame₁).symm.trans hfloor₁))
  · intro hapart s' hsame
    have hself : SameListings s s := fun i => rfl
    refine UInt64.toNat_inj.1 ?_
    rw [hsame.floor_eq hapart, hself.floor_eq hapart]

/-- A `list` call that has been allowed to settle. -/
def listAt (s : Entrepot) (index : TokenIndex) (price : UInt64) : Entrepot :=
  (s.listResume ⟨⟨[1]⟩, ⟨none, some price, ""⟩, index⟩ (.ok ())).1

/-- A market without listings. -/
def unlisted : Entrepot := Entrepot.new Entrepot.Stable.initial

/-- **A listing at the price zero is forgotten**: two tokens are listed at 0 and at 50000, and the
floor is 0 in one order and 50000 in the other. -/
theorem floor_depends_on_order :
    SameListings ((unlisted.listAt 0 0).listAt 1 50000) ((unlisted.listAt 1 50000).listAt 0 0) ∧
      (((unlisted.listAt 0 0).listAt 1 50000).stats 2).floor = 0 ∧
      (((unlisted.listAt 1 50000).listAt 0 0).stats 2).floor = 50000 ∧
      ((unlisted.listAt 1 50000).listAt 0 0).lowestListing = 0 := by
  refine ⟨?_, by decide, by decide, by decide⟩
  intro i
  simp only [listAt, listResume, Table.get_put]
  split_ifs with h₀ h₁
  · rw [h₀] at h₁
    cases h₁
  · rfl
  · rfl
  · rfl

end Entrepot

end LegendsNft
