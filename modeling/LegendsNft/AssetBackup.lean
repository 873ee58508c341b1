/-
**Copies of the asset store.**

An upgrade constructs the store anew from its backup, and an admin can restore a backup into an
empty one.  Both replay the records of the buffer, so what the copies find under a name is the last
record of the buffer with the name, and the records left are those that are the last of their name.

A store is told apart from its copies by what it finds otherwise, by a record that is not the last
of its name, and by stock colors, which `restore` does not read.  So the copies are faithful along a
sequence of calls exactly when no call makes such a difference: no name is deleted that the buffer
has a record of, since the tombstone is found again in the copies; no tag is purged from a store
with records; and no stock colors are configured.

Main definitions:

* `LegendsNft.Assets.SameAssets`, `LegendsNft.Assets.RoundTrips` — the copies answer as the store
  does;
* `LegendsNft.Assets.Preserving` — the condition on a call.

Main results:

* `LegendsNft.Assets.roundTrips_iff` — which stores have faithful copies;
* `LegendsNft.Assets.Backed.call` — every preserving call keeps the index exact;
* `LegendsNft.Assets.copies_iff` — **the copies are faithful along a sequence of calls exactly when
  every call is preserving**.
-/

import LegendsNft.AssetIndex

set_option relaxedAutoImplicit false
set_option autoImplicit false

namespace LegendsNft

namespace Assets

/-! ### The copies -/

/-- Two stores answer alike: by name, by tag, and with the same colors. -/
structure SameAssets (s s' : Assets) : Prop where
  byName : ∀ f, s'.getAssetByName f = s.getAssetByName f
  byTag : ∀ t r, r ∈ s'.findAllTag t ↔ r ∈ s.findAllTag t
  colors : s'.getColors = s.getColors
  stockColors : s'.getStockColors = s.getStockColors

/-- Both copies of a store answer as the store does: the one constructed anew from its backup, and
the one restored from its backup in an empty store. -/
structure RoundTrips (s : Assets) : Prop where
  new : ∃ s', Assets.new s.backup = .ok s' ∧ SameAssets s s'
  restore : ∃ s', empty.restore s.backup = .ok s' ∧ SameAssets s s'

/-- The last record of a name. -/
abbrev lastNamed (f : Text) (l : List Record) : Option Record := Indexed.lastOf Record.filename f l

/-- Replaying some records in a store without records. -/
theorem exists_putAssets (s : Assets) (hs : s.indexed = Indexed.empty) (records : List Record) :
    ∃ l, s.putAssets records = .ok (s.withIndexed l) ∧ l.Exact Record.filename ∧
      (∀ f, l.find f = some (lastNamed f records)) ∧
      ∀ r, r ∈ l.items ↔ lastNamed r.filename records = some r := by
  obtain ⟨l, hl, hexact, hfind, hmem⟩ := Indexed.exists_replay Record.filename records
  refine ⟨l, ?_, hexact, hfind, hmem⟩
  rw [putAssets_eq, hs, hl]
  rfl

theorem mem_findAllTag {s : Assets} {t : Text} {r : Record} :
    r ∈ s.findAllTag t ↔ r ∈ s.assets ∧ assetHasTag r t := List.mem_filter

/-- A replay of the records of a store answers as the store does when the store finds the last
record of each name, and has no other record with a tag. -/
theorem sameAssets_iff {s : Assets} {l : Indexed Text Record}
    (hfind : ∀ f, l.find f = some (lastNamed f s.assets))
    (hmem : ∀ r, r ∈ l.items ↔ lastNamed r.filename s.assets = some r) (stockColors : List Color) :
    SameAssets s ⟨[], l.index, l.items, s.colors, stockColors⟩ ↔
      (∀ f, s.getAssetByName f = .ok (lastNamed f s.assets)) ∧
      (∀ r ∈ s.assets, ∀ t, assetHasTag r t → lastNamed r.filename s.assets = some r) ∧
      s.stockColors = stockColors := by
  have hget : ∀ f, (⟨[], l.index, l.items, s.colors, stockColors⟩ : Assets).getAssetByName f =
      .ok (lastNamed f s.assets) := by
    intro f
    exact getAssetByName_eq_ok.2 (hfind f)
  constructor
  · intro h
    refine ⟨fun f => (h.byName f).symm.trans (hget f), ?_, h.stockColors.symm⟩
    intro r hr t ht
    exact (hmem r).1 (mem_findAllTag.1 ((h.byTag t r).2 (mem_findAllTag.2 ⟨hr, ht⟩))).1
  · rintro ⟨hname, htag, hstock⟩
    refine ⟨fun f => (hget f).trans (hname f).symm, ?_, rfl, hstock.symm⟩
    intro t r
    rw [mem_findAllTag, mem_findAllTag]
    constructor
    · rintro ⟨hr, ht⟩
      exact ⟨Indexed.mem_of_lastOf ((hmem r).1 hr), ht⟩
    · rintro ⟨hr, ht⟩
      exact ⟨(hmem r).2 (htag r hr t ht), ht⟩

/-- **Which stores have faithful copies**: those that find the last record of each name, have no
other record with a tag, and have no stock colors. -/
theorem roundTrips_iff (s : Assets) :
    RoundTrips s ↔ (∀ f, s.getAssetByName f = .ok (lastNamed f s.assets)) ∧
      (∀ r ∈ s.assets, ∀ t, assetHasTag r t → lastNamed r.filename s.assets = some r) ∧
      s.stockColors = [] := by
  obtain ⟨l, hput, -, hfind, hmem⟩ := exists_putAssets
    { empty with colors := s.colors, stockColors := s.stockColors } rfl s.assets
  obtain ⟨l', hput', -, hfind', hmem'⟩ := exists_putAssets empty rfl s.assets
  have hnew : Assets.new s.backup =
      .ok ⟨[], l.index, l.items, s.colors, s.stockColors⟩ := bind_eq_ok.2 ⟨_, hput, rfl⟩
  have hrestore : empty.restore s.backup = .ok ⟨[], l'.index, l'.items, s.colors, []⟩ :=
    bind_eq_ok.2 ⟨_, hput', rfl⟩
  constructor
  · rintro ⟨-, s', hs', hsame⟩
    rw [hrestore, Except.ok.injEq] at hs'
    subst hs'
    exact (sameAssets_iff hfind' hmem' []).1 hsame
  · rintro ⟨hname, htag, hstock⟩
    exact ⟨⟨_, hnew, (sameAssets_iff hfind hmem _).2 ⟨hname, htag, rfl⟩⟩,
      ⟨_, hrestore, (sameAssets_iff hfind' hmem' []).2 ⟨hname, htag, hstock⟩⟩⟩

/-! ### The invariant -/

/-- Every record is in the index, and there are no stock colors. -/
structure Backed (s : Assets) : Prop where
  exact : s.indexed.Exact Record.filename
  stockColors : s.stockColors = []

theorem backed_empty : Backed empty := ⟨Indexed.exact_empty _, rfl⟩

/-- A store with an exact index and no stock colors has faithful copies. -/
theorem Backed.roundTrips {s : Assets} (h : Backed s) : RoundTrips s := by
  have hfind := h.exact.find_eq
  rw [roundTrips_iff]
  refine ⟨fun f => getAssetByName_eq_ok.2 (hfind f), ?_, h.stockColors⟩
  intro r hr t _
  have hmem := h.exact.mem_items.1 hr
  rw [hfind, Option.some_inj] at hmem
  exact hmem

theorem Backed.putAsset {s s' : Assets} (h : Backed s) {r : Record} (hs' : s.putAsset r = .ok s') :
    Backed s' := by
  obtain ⟨l, hput, -, hexact, -⟩ := exists_putAsset h.exact.sound r
  rw [hput, Except.ok.injEq] at hs'
  subst hs'
  exact ⟨hexact h.exact, h.stockColors⟩

theorem Backed.putAssets {s s' : Assets} (h : Backed s) {records : List Record}
    (hs' : s.putAssets records = .ok s') : Backed s' := by
  induction records generalizing s with
  | nil =>
      obtain rfl : s = s' := by simpa [Assets.putAssets] using hs'
      exact h
  | cons r records ih =>
      obtain ⟨t, hput, hs'⟩ := bind_eq_ok.1 hs'
      exact ih (h.putAsset hput) hs'

theorem Backed.tagFiles {s s' : Assets} (h : Backed s) {files : List (Text × List Text)}
    (hs' : s.tagFiles files = .ok s') : Backed s' := by
  have hstep : ∀ s, Backed s → ∀ f tags, ∃ found, s.getAssetByName f = .ok found ∧
      ∀ asset, found = some asset → ∃ s', s.putAsset (retag asset tags) = .ok s' ∧ Backed s' := by
    intro s h f tags
    obtain ⟨found, hfound⟩ := h.exact.sound.exists_find f
    refine ⟨found, getAssetByName_eq_ok.2 hfound, ?_⟩
    intro asset _
    obtain ⟨l, hput, -⟩ := exists_putAsset h.exact.sound (retag asset tags)
    exact ⟨_, hput, h.putAsset hput⟩
  obtain ⟨t, ht, hbacked⟩ := exists_tagFiles hstep h files
  rw [hs', Except.ok.injEq] at ht
  exact ht ▸ hbacked

/-! ### Deleting and purging -/

/-- Burying a name keeps the names of the buffer. -/
theorem map_filename_bury (f : Text) (l : List Record) :
    (bury f l).map Record.filename = l.map Record.filename := by
  induction l with
  | nil => rfl
  | cons a l ih =>
      rw [bury]
      split_ifs
      · rfl
      · rw [List.map_cons, ih, List.map_cons]

theorem bury_of_notMem {f : Text} {l : List Record} (h : ∀ r ∈ l, r.filename ≠ f) :
    bury f l = l := by
  induction l with
  | nil => rfl
  | cons a l ih =>
      rw [List.forall_mem_cons] at h
      rw [bury, if_neg (by exact h.1), ih h.2]

/-- A buffer with a record of a name has a last record of the name. -/
theorem exists_lastNamed {f : Text} {l : List Record} (h : f ∈ l.map Record.filename) :
    ∃ r, lastNamed f l = some r := by
  rw [← Option.isSome_iff_exists, Option.isSome_iff_ne_none, ne_eq, Indexed.lastOf_eq_none]
  obtain ⟨r, hr, hf⟩ := List.mem_map.1 h
  intro hall
  exact hall r hr hf

/-- The condition on a call: no name is deleted that the buffer has a record of, no tag is purged
from a store with records, and no stock colors are configured. -/
def Preserving (s : Assets) : Call → Prop
  | .delete true filename => ∀ r ∈ s.assets, r.filename ≠ filename
  | .purge true confirm (some _) => confirm = confirmation → s.assets = []
  | .configureStockColors true newColors => newColors = []
  | _ => True

/-- An exact index of no records stays exact through the purge of a tag. -/
theorem Backed.purgeTag {s : Assets} (h : Backed s) (hnil : s.assets = []) (tag : Text) :
    Backed (s.purgeTag tag) := by
  obtain ⟨buffer, files, assets, colors, stockColors⟩ := s
  obtain rfl : assets = [] := hnil
  exact h

theorem Backed.purgeAll {s : Assets} (h : Backed s) : Backed s.purgeAll where
  exact := by
    refine ⟨?_, ?_⟩
    · intro f i hi
      rw [indexed, get_files_purgeAll] at hi
      simp at hi
    · intro i r hr
      simp [indexed, Assets.purgeAll] at hr
  stockColors := h.stockColors

/-- Deleting a name that the buffer has no record of. -/
theorem Backed.delete {s : Assets} (h : Backed s) {filename : Text}
    (hne : ∀ r ∈ s.assets, r.filename ≠ filename) :
    Backed { s with files := s.files.delete filename, assets := bury filename s.assets } where
  exact := by
    rw [bury_of_notMem hne]
    refine ⟨(h.exact.sound.delete filename).1, ?_⟩
    intro i r hr
    have hkept := Table.get_delete_of_ne s.files (hne r (List.mem_of_getElem? hr))
    exact hkept.trans (h.exact.indexed i r hr)
  stockColors := h.stockColors

/-- A call keeps a property when it does so whenever it does not trap. -/
theorem call_induction {P : Assets → Prop} {s : Assets} {c : Call} (h : P s)
    (hok : ∀ s', s.handle c = .ok s' → P s') : P (s.call c) := by
  rw [call]
  split
  · rename_i s' hs'
    exact hok s' hs'
  · exact h

/-- **Every preserving call** keeps the index exact and leaves no stock colors. -/
theorem Backed.call {s : Assets} (h : Backed s) {c : Call} (hc : s.Preserving c) :
    Backed (s.call c) := by
  refine call_induction h ?_
  intro s' hs'
  cases c with
  | restore backup =>
      obtain ⟨t, hput, hs'⟩ := bind_eq_ok.1 hs'
      cases hs'
      exact ⟨(h.putAssets hput).exact, (h.putAssets hput).stockColors⟩
  | upload isAdmin bytes =>
      obtain ⟨rfl, rfl⟩ := authorized_eq_ok.1 hs'
      exact ⟨h.exact, h.stockColors⟩
  | uploadClear isAdmin =>
      obtain ⟨rfl, rfl⟩ := authorized_eq_ok.1 hs'
      exact ⟨h.exact, h.stockColors⟩
  | configureColors isAdmin newColors =>
      obtain ⟨rfl, rfl⟩ := authorized_eq_ok.1 hs'
      exact ⟨h.exact, h.stockColors⟩
  | configureStockColors isAdmin newColors =>
      obtain ⟨rfl, rfl⟩ := authorized_eq_ok.1 hs'
      exact ⟨h.exact, hc⟩
  | tag isAdmin files =>
      obtain ⟨-, -, hs'⟩ := bind_eq_ok.1 hs'
      exact h.tagFiles hs'
  | uploadFinalize isAdmin contentType meta' =>
      obtain ⟨⟨t, r⟩, hfin, rfl⟩ := map_eq_ok.1 hs'
      obtain ⟨-, -, hfin⟩ := bind_eq_ok.1 hfin
      obtain ⟨t', hput, hfin⟩ := bind_eq_ok.1 hfin
      cases hfin
      exact ⟨(h.putAsset hput).exact, (h.putAsset hput).stockColors⟩
  | delete isAdmin filename =>
      obtain ⟨⟨t, r⟩, hdel, rfl⟩ := map_eq_ok.1 hs'
      obtain ⟨_, hadmin, hrest⟩ := bind_eq_ok.1 hdel
      obtain ⟨rfl, -⟩ := authorized_eq_ok.1 hadmin
      cases hrest
      exact h.delete hc
  | purge isAdmin confirm tag =>
      obtain ⟨⟨t, r⟩, hpurge, rfl⟩ := map_eq_ok.1 hs'
      obtain ⟨_, hadmin, hrest⟩ := bind_eq_ok.1 hpurge
      obtain ⟨rfl, -⟩ := authorized_eq_ok.1 hadmin
      split_ifs at hrest with hconfirm
      · cases hrest
        exact h
      · rw [ne_eq, not_not] at hconfirm
        cases tag with
        | none =>
            cases hrest
            exact h.purgeAll
        | some tag =>
            cases hrest
            exact h.purgeTag (hc hconfirm) tag

/-! ### The condition is exact -/

/-- Deleting a name that the buffer has a record of leaves a tombstone, which only the copies
find. -/
theorem not_roundTrips_delete {s : Assets} {filename : Text}
    (hmem : filename ∈ s.assets.map Record.filename) :
    ¬RoundTrips (s.call (.delete true filename)) := by
  intro h
  rw [← map_filename_bury filename] at hmem
  obtain ⟨r, hr⟩ := exists_lastNamed hmem
  have hfind : (s.call (.delete true filename)).getAssetByName filename = .ok none :=
    getAssetByName_of_get_files (Table.get_delete_self ..)
  have hlast := ((roundTrips_iff _).1 h).1 filename
  rw [hfind, Except.ok.injEq] at hlast
  exact absurd (hlast.trans hr) (by simp)

/-- The purge of a tag leaves the index of a store with records wrong about each of them. -/
theorem not_roundTrips_purgeTag {s : Assets} (hs : RoundTrips s) {r : Record} (hr : r ∈ s.assets)
    (tag : Text) : ¬RoundTrips (s.purgeTag tag) := by
  intro h
  have hold := ((roundTrips_iff _).1 hs).1 r.filename
  have hnew := ((roundTrips_iff _).1 h).1 r.filename
  obtain ⟨r₀, hlast⟩ := exists_lastNamed (List.mem_map_of_mem hr)
  rw [hlast] at hold
  cases hi : s.files.get r.filename with
  | none =>
      rw [getAssetByName_of_get_files hi] at hold
      simp at hold
  | some i =>
      by_cases hkept : ∃ r' ∈ s.assets, !assetHasTag r' tag ∧ r'.filename = r.filename
      · -- a record of the name is kept, and not found
        have hget : (s.purgeTag tag).files.get r.filename = none := by
          rw [get_files_purgeTag, if_pos hkept]
        obtain ⟨r', hr', htag, hname⟩ := hkept
        have hmem : r' ∈ (s.purgeTag tag).assets := List.mem_filter.2 ⟨hr', htag⟩
        obtain ⟨r₁, hlast'⟩ := exists_lastNamed (List.mem_map_of_mem hmem)
        rw [hname] at hlast'
        rw [getAssetByName_of_get_files hget, hlast'] at hnew
        simp at hnew
      · -- no record of the name is kept, and one is found
        have hget : (s.purgeTag tag).files.get r.filename = some i := by
          rw [get_files_purgeTag, if_neg hkept, hi]
        have hnone : lastNamed r.filename (s.purgeTag tag).assets = none := by
          rw [Indexed.lastOf_eq_none]
          intro r' hr' hname
          obtain ⟨hr', htag⟩ := List.mem_filter.1 hr'
          exact hkept ⟨r', hr', htag, hname⟩
        have hfind := getAssetByName_eq_ok.1 hnew
        rw [Indexed.find_of_get_eq_some hget, hnone] at hfind
        simp at hfind

/-- A call between two stores with faithful copies was preserving. -/
theorem preserving_of_roundTrips {s : Assets} (h : RoundTrips s) {c : Call}
    (hc : RoundTrips (s.call c)) : s.Preserving c := by
  unfold Preserving
  split
  · rename_i filename
    intro r hr hname
    exact not_roundTrips_delete (hname ▸ List.mem_map_of_mem hr) hc
  · rename_i confirm tag
    rintro rfl
    rw [List.eq_nil_iff_forall_not_mem]
    intro r hr
    exact not_roundTrips_purgeTag h hr tag hc
  · exact ((roundTrips_iff _).1 hc).2.2
  · trivial

/-! ### Copies along a sequence of calls -/

/-- **The copies of the store are faithful** along a sequence of calls exactly when every call is
preserving. -/
theorem copies_iff (cs : List Call) :
    (∀ pre, pre <+: cs → RoundTrips (after pre)) ↔
      ∀ pre c, pre ++ [c] <+: cs → (after pre).Preserving c := by
  refine Sequence.forall_prefix_iff (I := fun pre => Backed (after pre)) backed_empty ?_ ?_ ?_ cs
  · intro pre c h hc
    rw [after, Sequence.after_append_singleton]
    exact h.call hc
  · intro pre h
    exact h.roundTrips
  · intro pre c h hc
    rw [after, Sequence.after_append_singleton] at hc
    exact preserving_of_roundTrips h hc

/-- An asset is uploaded and deleted. -/
def sampleDelete : List Call :=
  [.uploadFinalize true "image/png" (sampleMeta "a" "x"), .delete true "a"]

/-- A stock color is configured. -/
def sampleStock : List Call :=
  [.configureStockColors true [⟨"white", "#fff", "#fff", "#fff", "#fff"⟩]]

/-- After an upgrade the deleted asset is found again, and restoring a backup forgets the stock
colors. -/
theorem copies_differ :
    (after sampleDelete).getAssetByName "a" = .ok none ∧
      (new (after sampleDelete).backup >>= fun s => s.getAssetByName "a") =
        .ok (some (tombstone ⟨⟨"image/png", []⟩, sampleMeta "a" "x"⟩)) ∧
      ¬RoundTrips (after sampleDelete) ∧ ¬RoundTrips (after sampleStock) := by
  refine ⟨by decide, by decide, ?_, ?_⟩
  · intro h
    have ha := ((roundTrips_iff _).1 h).1 "a"
    revert ha
    decide
  · intro h
    have hstock := ((roundTrips_iff _).1 h).2.2
    revert hstock
    decide

end Assets

end LegendsNft
