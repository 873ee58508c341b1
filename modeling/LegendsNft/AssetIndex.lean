/-
**The filename index of the asset store.**

What the store is for is a catalogue: the record last stored under each name, unless it was removed
since.  Every call of the store is a step of the catalogue, and a store represents a catalogue when
every name finds the record of the catalogue, without a trap.

The step of the store that does not keep this is the purge of a tag.  Its callback is told which
records are *kept*, and takes the names of these out of the index; the names of the records that go
stay in it, at positions of the buffer as it was.  So the store represents the catalogue along a
sequence of calls exactly when every purge of a tag that is carried out is *harmless*: every name in
the index is that of a record with the tag, and the buffer has another record of that name, without
the tag — a leftover of `delete`.

Main definitions:

* `LegendsNft.Catalogue`, `LegendsNft.Catalogue.step` — the catalogue and what a call does to it;
* `LegendsNft.Assets.Consistent` — the store answers as the catalogue does;
* `LegendsNft.Assets.Harmless` — the condition on a call.

Main results:

* `LegendsNft.Assets.represents_call` — every harmless call keeps the store and the catalogue
  together;
* `LegendsNft.Assets.consistent_iff` — **the index is consistent along a sequence of calls exactly
  when its purges are harmless**.
-/

import LegendsNft.Assets

set_option relaxedAutoImplicit false
set_option autoImplicit false

namespace LegendsNft

/-! ### The catalogue -/

/-- The record last stored under each name and not removed since; `pending` are the bytes for the
next one. -/
structure Catalogue where
  pending : List Blob
  record : Text → Option Record
  named : ∀ f r, record f = some r → r.filename = f

namespace Catalogue

/-- The catalogue without records. -/
def nil : Catalogue where
  pending := []
  record := fun _ => none
  named := by simp

/-- A record stored under its name. -/
def store (m : Catalogue) (r : Record) : Catalogue where
  pending := m.pending
  record := Function.update m.record r.filename (some r)
  named := by
    intro f r' h
    rw [Function.update_apply] at h
    split_ifs at h with hf
    · rw [hf, ← Option.some_inj.1 h]
    · exact m.named f r' h

theorem record_store (m : Catalogue) (r : Record) (f : Text) :
    (m.store r).record f = if f = r.filename then some r else m.record f :=
  Function.update_apply ..

/-- The records that `p` keeps. -/
def filter (m : Catalogue) (p : Record → Bool) : Catalogue where
  pending := m.pending
  record := fun f => (m.record f).filter p
  named := by
    intro f r h
    exact m.named f r (Option.filter_eq_some_iff.1 h).1

theorem record_filter (m : Catalogue) (p : Record → Bool) (f : Text) :
    (m.filter p).record f = (m.record f).filter p := rfl

/-- A record with other tags, if there is one of the name. -/
def retag (m : Catalogue) (f : Text) (tags : List Text) : Catalogue :=
  match m.record f with
  | some r => m.store (Assets.retag r tags)
  | none => m

/-- What a call does to the catalogue. -/
def step (m : Catalogue) : Assets.Call → Catalogue
  | .upload true bytes => { m with pending := m.pending ++ bytes }
  | .uploadFinalize true contentType meta' =>
      { m.store ⟨⟨contentType, m.pending⟩, meta'⟩ with pending := [] }
  | .uploadClear true => { m with pending := [] }
  | .purge true confirm tag =>
      if confirm = Assets.confirmation then
        match tag with
        | some tag => m.filter fun r => !Assets.assetHasTag r tag
        | none => m.filter fun _ => false
      else m
  | .delete true filename => m.filter fun r => r.filename ≠ filename
  | .tag true files => files.foldl (fun m e => m.retag e.1 e.2) m
  | .restore backup => backup.assets.foldl store m
  | _ => m

/-- The catalogue after some calls. -/
def after (cs : List Assets.Call) : Catalogue := Sequence.after step nil cs

end Catalogue

namespace Assets

/-! ### Consistency -/

/-- The store answers as the catalogue does: reading never traps, what is read has the name asked
for, and it is the record of the catalogue. -/
structure Consistent (s : Assets) (m : Catalogue) : Prop where
  answers : ∀ f, s.getAssetByName f = .ok (m.record f)
  named : ∀ f r, s.getAssetByName f = .ok (some r) → r.filename = f

/-- The store represents the catalogue. -/
structure Represents (s : Assets) (m : Catalogue) : Prop where
  answers : ∀ f, s.getAssetByName f = .ok (m.record f)
  buffer : s.buffer = m.pending

theorem Represents.consistent {s : Assets} {m : Catalogue} (h : Represents s m) :
    Consistent s m where
  answers := h.answers
  named := by
    intro f r hr
    rw [h.answers f] at hr
    exact m.named f r (by simpa using hr)

theorem represents_empty : Represents empty Catalogue.nil := ⟨fun _ => rfl, rfl⟩

/-- A name that the index has is answered with the record at its position. -/
theorem record_of_get_files {s : Assets} {m : Catalogue}
    (h : ∀ f, s.getAssetByName f = .ok (m.record f)) {f : Text} {i : ℕ}
    (hi : s.files.get f = some i) :
    ∃ r, s.assets[i]? = some r ∧ m.record f = some r ∧ r.filename = f := by
  have hf := getAssetByName_eq_ok.1 (h f)
  rw [Indexed.find_of_get_eq_some hi] at hf
  obtain ⟨r, hr, hm⟩ := Option.map_eq_some_iff.1 hf
  exact ⟨r, hr, hm.symm, m.named f r hm.symm⟩

/-- The index of a store that answers as a catalogue does is sound. -/
theorem sound_of_answers {s : Assets} {m : Catalogue}
    (h : ∀ f, s.getAssetByName f = .ok (m.record f)) : s.indexed.Sound Record.filename := by
  intro f i hi
  obtain ⟨r, hr, -, hname⟩ := record_of_get_files h hi
  exact ⟨r, hr, hname⟩

/-- **Storing a record** keeps the store and the catalogue together. -/
theorem Represents.store {s : Assets} {m : Catalogue} (h : Represents s m) (r : Record) :
    ∃ s', s.putAsset r = .ok s' ∧ Represents s' (m.store r) := by
  obtain ⟨l, hput, -, -, hfind⟩ := exists_putAsset (sound_of_answers h.answers) r
  refine ⟨_, hput, ?_, h.buffer⟩
  intro f
  rw [getAssetByName_eq_ok, indexed_withIndexed, hfind, Catalogue.record_store]
  split_ifs
  · rfl
  · exact getAssetByName_eq_ok.1 (h.answers f)

theorem Represents.tagFiles {s : Assets} {m : Catalogue} (h : Represents s m)
    (files : List (Text × List Text)) :
    ∃ s', s.tagFiles files = .ok s' ∧
      Represents s' (files.foldl (fun m e => m.retag e.1 e.2) m) := by
  induction files generalizing s m with
  | nil => exact ⟨s, rfl, h⟩
  | cons e files ih =>
      obtain ⟨f, tags⟩ := e
      have hget := h.answers f
      cases hm : m.record f with
      | none =>
          obtain ⟨s', hs', hrep⟩ := ih h
          rw [hm] at hget
          refine ⟨s', bind_eq_ok.2 ⟨none, hget, hs'⟩, ?_⟩
          simpa only [List.foldl_cons, Catalogue.retag, hm] using hrep
      | some r =>
          rw [hm] at hget
          obtain ⟨t, hput, ht⟩ := h.store (retag r tags)
          obtain ⟨s', hs', hrep⟩ := ih ht
          refine ⟨s', bind_eq_ok.2 ⟨some r, hget, bind_eq_ok.2 ⟨t, hput, hs'⟩⟩, ?_⟩
          simpa only [List.foldl_cons, Catalogue.retag, hm] using hrep

theorem Represents.putAssets {s : Assets} {m : Catalogue} (h : Represents s m)
    (records : List Record) :
    ∃ s', s.putAssets records = .ok s' ∧ Represents s' (records.foldl Catalogue.store m) := by
  induction records generalizing s m with
  | nil => exact ⟨s, rfl, h⟩
  | cons r records ih =>
      obtain ⟨t, hput, ht⟩ := h.store r
      obtain ⟨s', hs', hrep⟩ := ih ht
      exact ⟨s', bind_eq_ok.2 ⟨t, hput, hs'⟩, hrep⟩

/-! ### Purging -/

/-- The names that a list of records takes out of an index. -/
theorem get_foldl_delete {α : Type} (p : α → Bool) (name : α → Text) (l : List α)
    (files : Table Text ℕ) (f : Text) :
    (l.foldl (fun files a => if p a then files.delete (name a) else files) files).get f =
      if ∃ a ∈ l, p a ∧ name a = f then none else files.get f := by
  induction l generalizing files with
  | nil => simp
  | cons a l ih =>
      rw [List.foldl_cons, ih]
      by_cases hp : p a <;> by_cases hf : name a = f
      · simp [hp, hf]
      · simp [hp, hf, Table.get_delete, Ne.symm hf]
      · simp [hp]
      · simp [hp]

/-- After the purge of a tag the index has the names it had, less those of the records kept. -/
theorem get_files_purgeTag (s : Assets) (tag f : Text) :
    (s.purgeTag tag).files.get f =
      if ∃ r ∈ s.assets, !assetHasTag r tag ∧ r.filename = f then none else s.files.get f :=
  get_foldl_delete (fun r => !assetHasTag r tag) Record.filename s.assets s.files f

/-- After the purge of everything the index is empty. -/
theorem get_files_purgeAll (s : Assets) (f : Text) : s.purgeAll.files.get f = none := by
  have h := get_foldl_delete (fun _ => true) Prod.fst s.files.entries s.files f
  simp only [if_true, true_and] at h
  rw [purgeAll, h]
  split_ifs with hf
  · rfl
  · rw [Table.get_eq_none, List.mem_map]
    rintro ⟨e, he, hef⟩
    exact hf ⟨e, he, hef⟩

/-- Every name in the index is that of a record with the tag, and the buffer has another record of
the name without it. -/
def PurgeHarmless (s : Assets) (tag : Text) : Prop :=
  ∀ f i, s.files.get f = some i →
    (∃ r, s.assets[i]? = some r ∧ assetHasTag r tag) ∧
      ∃ r ∈ s.assets, r.filename = f ∧ ¬assetHasTag r tag

/-- A name that the index does not have is answered with null. -/
theorem getAssetByName_of_get_files {s : Assets} {f : Text} (h : s.files.get f = none) :
    s.getAssetByName f = .ok none :=
  getAssetByName_eq_ok.2 (Indexed.find_of_get_eq_none h)

theorem record_of_get_files_eq_none {s : Assets} {m : Catalogue}
    (h : ∀ f, s.getAssetByName f = .ok (m.record f)) {f : Text} (hi : s.files.get f = none) :
    m.record f = none := by
  have hf := h f
  rw [getAssetByName_of_get_files hi] at hf
  simpa using hf.symm

/-- **The purge of a tag** keeps the answers of the catalogue exactly when it is harmless. -/
theorem answers_purgeTag_iff {s : Assets} {m : Catalogue}
    (h : ∀ f, s.getAssetByName f = .ok (m.record f)) (tag : Text) :
    (∀ f, (s.purgeTag tag).getAssetByName f =
      .ok ((m.filter fun r => !assetHasTag r tag).record f)) ↔ s.PurgeHarmless tag := by
  constructor
  · intro hnew f i hi
    obtain ⟨r, hr, hm, hname⟩ := record_of_get_files h hi
    have hf := hnew f
    rw [Catalogue.record_filter, hm] at hf
    have htag : assetHasTag r tag := by
      by_contra htag
      -- a record that is kept is not found any more
      have hkept : ∃ r ∈ s.assets, !assetHasTag r tag ∧ r.filename = f :=
        ⟨r, List.mem_of_getElem? hr, by simpa using htag, hname⟩
      have hnone : (s.purgeTag tag).files.get f = none := by
        rw [get_files_purgeTag, if_pos hkept]
      rw [getAssetByName_of_get_files hnone] at hf
      simp [Option.filter_some, htag] at hf
    refine ⟨⟨r, hr, htag⟩, ?_⟩
    by_contra hkept
    -- the name of a record that goes stays in the index
    have hold : (s.purgeTag tag).files.get f = some i := by
      rw [get_files_purgeTag, if_neg, hi]
      rintro ⟨r', hr', htag', hname'⟩
      exact hkept ⟨r', hr', hname', by simpa using htag'⟩
    have hfind := getAssetByName_eq_ok.1 hf
    rw [Indexed.find_of_get_eq_some hold] at hfind
    simp [Option.filter_some, htag] at hfind
  · intro hharmless f
    cases hi : s.files.get f with
    | none =>
        have hm := record_of_get_files_eq_none h hi
        have hnone : (s.purgeTag tag).files.get f = none := by
          rw [get_files_purgeTag, hi, ite_self]
        rw [getAssetByName_of_get_files hnone, Catalogue.record_filter, hm]
        rfl
    | some i =>
        obtain ⟨⟨r, hr, htag⟩, r', hr', hname', htag'⟩ := hharmless f i hi
        obtain ⟨r₀, hr₀, hm, -⟩ := record_of_get_files h hi
        rw [hr, Option.some_inj] at hr₀
        subst hr₀
        have hnone : (s.purgeTag tag).files.get f = none := by
          rw [get_files_purgeTag, if_pos ⟨r', hr', by simpa using htag', hname'⟩]
        rw [getAssetByName_of_get_files hnone, Catalogue.record_filter, hm]
        simp [Option.filter_some, htag]

/-- The purge of everything leaves the empty catalogue. -/
theorem answers_purgeAll (s : Assets) (m : Catalogue) (f : Text) :
    s.purgeAll.getAssetByName f = .ok ((m.filter fun _ => false).record f) := by
  rw [getAssetByName_of_get_files (get_files_purgeAll s f)]
  simp [Catalogue.filter]

/-! ### Deleting -/

/-- Burying the first record of a name: the other positions keep their record, and the position of
another name keeps it too. -/
theorem getElem?_bury {filename : Text} {l : List Record} {i : ℕ} {r : Record}
    (h : l[i]? = some r) (hr : r.filename ≠ filename) : (bury filename l)[i]? = some r := by
  induction l generalizing i with
  | nil => simp at h
  | cons a l ih =>
      rw [bury]
      cases i with
      | zero =>
          obtain rfl : a = r := by simpa using h
          rw [if_neg (by exact hr)]
          rfl
      | succ i =>
          rw [List.getElem?_cons_succ] at h
          split_ifs
          · simpa using h
          · simpa using ih h

/-- **Deleting a name** keeps the answers of the catalogue. -/
theorem answers_delete {s : Assets} {m : Catalogue}
    (h : ∀ f, s.getAssetByName f = .ok (m.record f)) (filename : Text) (f : Text) :
    ({ s with files := s.files.delete filename, assets := bury filename s.assets } :
      Assets).getAssetByName f = .ok ((m.filter fun r => r.filename ≠ filename).record f) := by
  by_cases hf : f = filename
  · subst hf
    rw [getAssetByName_of_get_files (Table.get_delete_self ..), Catalogue.record_filter]
    cases hm : m.record f with
    | none => rfl
    | some r => simp [Option.filter_some, m.named f r hm]
  · have hget : (s.files.delete filename).get f = s.files.get f := Table.get_delete_of_ne _ hf
    cases hi : s.files.get f with
    | none =>
        have hm := record_of_get_files_eq_none h hi
        rw [getAssetByName_of_get_files (hget.trans hi), Catalogue.record_filter, hm]
        rfl
    | some i =>
        obtain ⟨r, hr, hm, hname⟩ := record_of_get_files h hi
        have hb : (bury filename s.assets)[i]? = some r := getElem?_bury hr (hname ▸ hf)
        have hkept : (some r).filter (fun r => r.filename ≠ filename) = some r :=
          Option.filter_eq_some_iff.2 ⟨rfl, by simpa [hname] using hf⟩
        rw [getAssetByName_eq_ok, Catalogue.record_filter, hm, hkept]
        exact (Indexed.find_of_get_eq_some (hget.trans hi)).trans (by simp [indexed, hb])

/-! ### Calls -/

/-- A call is harmless when it is not a purge of a tag that is carried out, or a harmless one. -/
def Harmless (s : Assets) : Call → Prop
  | .purge true confirm (some tag) => confirm = confirmation → s.PurgeHarmless tag
  | _ => True

/-- **Every harmless call** keeps the store and the catalogue together. -/
theorem represents_call {s : Assets} {m : Catalogue} (h : Represents s m) {c : Call}
    (hc : s.Harmless c) : Represents (s.call c) (m.step c) := by
  cases c with
  | upload isAdmin bytes =>
      cases isAdmin with
      | false => exact h
      | true => exact ⟨h.answers, congrArg (· ++ bytes) h.buffer⟩
  | uploadFinalize isAdmin contentType meta' =>
      cases isAdmin with
      | false => exact h
      | true =>
          obtain ⟨s', hput, hs'⟩ := h.store ⟨⟨contentType, s.buffer⟩, meta'⟩
          rw [call_uploadFinalize hput, Catalogue.step, ← h.buffer]
          exact ⟨hs'.answers, rfl⟩
  | uploadClear isAdmin =>
      cases isAdmin with
      | false => exact h
      | true => exact ⟨h.answers, rfl⟩
  | purge isAdmin confirm tag =>
      cases isAdmin with
      | false => exact h
      | true =>
          by_cases hconfirm : confirm = confirmation
          · subst hconfirm
            cases tag with
            | none => exact ⟨answers_purgeAll s m, h.buffer⟩
            | some tag => exact ⟨(answers_purgeTag_iff h.answers tag).2 (hc rfl), h.buffer⟩
          · have hhandle : s.handle (.purge true confirm tag) = .ok s := by
              simp [handle, purge, authorized, hconfirm, bind, Except.bind, Except.map, pure,
                Except.pure]
            rw [call_of_ok hhandle]
            simpa only [Catalogue.step, if_neg hconfirm] using h
  | delete isAdmin filename =>
      cases isAdmin with
      | false => exact h
      | true => exact ⟨answers_delete h.answers filename, h.buffer⟩
  | tag isAdmin files =>
      cases isAdmin with
      | false => exact h
      | true =>
          obtain ⟨s', htag, hs'⟩ := h.tagFiles files
          rw [call_tag htag]
          exact hs'
  | configureColors isAdmin newColors =>
      cases isAdmin with
      | false => exact h
      | true => exact ⟨h.answers, h.buffer⟩
  | configureStockColors isAdmin newColors =>
      cases isAdmin with
      | false => exact h
      | true => exact ⟨h.answers, h.buffer⟩
  | restore backup =>
      obtain ⟨s', hput, hs'⟩ := h.putAssets backup.assets
      have hhandle : s.handle (.restore backup) = .ok { s' with colors := backup.colors } :=
        bind_eq_ok.2 ⟨s', hput, rfl⟩
      rw [call_of_ok hhandle]
      exact ⟨hs'.answers, hs'.buffer⟩

/-- A call after which the store still answers as the catalogue does was harmless. -/
theorem harmless_of_consistent {s : Assets} {m : Catalogue} (h : Consistent s m) {c : Call}
    (hc : Consistent (s.call c) (m.step c)) : s.Harmless c := by
  unfold Harmless
  split
  · rename_i confirm tag
    rintro rfl
    exact (answers_purgeTag_iff h.answers tag).1 hc.answers
  · trivial

/-! ### The index along a sequence of calls -/

/-- **The index of filenames is consistent** along a sequence of calls exactly when its purges are
harmless. -/
theorem consistent_iff (cs : List Call) :
    (∀ pre, pre <+: cs → Consistent (after pre) (Catalogue.after pre)) ↔
      ∀ pre c, pre ++ [c] <+: cs → (after pre).Harmless c := by
  refine Sequence.forall_prefix_iff (I := fun pre => Represents (after pre) (Catalogue.after pre))
    represents_empty ?_ ?_ ?_ cs
  · intro pre c h hc
    rw [after, Catalogue.after, Sequence.after_append_singleton, Sequence.after_append_singleton]
    exact represents_call h hc
  · intro pre h
    exact h.consistent
  · intro pre c h hc
    rw [after, Catalogue.after, Sequence.after_append_singleton,
      Sequence.after_append_singleton] at hc
    exact harmless_of_consistent h hc

/-- A record as an admin uploads it, with one tag. -/
def sampleMeta (filename tag : Text) : Meta :=
  { tags := [tag], filename := filename, name := filename, description := "" }

/-- Two assets are uploaded, and those with the tag of the first are purged. -/
def samplePurge : List Call :=
  [.uploadFinalize true "image/png" (sampleMeta "a" "x"),
    .uploadFinalize true "image/png" (sampleMeta "b" "y"),
    .purge true confirmation (some "x")]

/-- The asset that is kept is not found by its name any more, and the name of the other one finds
it. -/
theorem purge_confuses_names :
    (after samplePurge).getAssetByName "b" = .ok none ∧
      (after samplePurge).getAssetByName "a" =
        .ok (some ⟨⟨"image/png", []⟩, sampleMeta "b" "y"⟩) ∧
      (Catalogue.after samplePurge).record "a" = none ∧
      ¬Consistent (after samplePurge) (Catalogue.after samplePurge) := by
  refine ⟨by decide, by decide, by decide, ?_⟩
  intro h
  have hb := h.answers "b"
  revert hb
  decide

end Assets

end LegendsNft
