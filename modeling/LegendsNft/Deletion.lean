/-
**Deleted assets.**

`delete` takes a name out of the index and writes a tombstone over the first record of the buffer
with that name.  The tombstone keeps the name, and two things follow.  A file that is uploaded again
is appended, behind its tombstone, so a second `delete` overwrites the tombstone and leaves the
record with its payload and its tags in the buffer.  And an upgrade replays the buffer, tombstones
included, so that the name is found again.

Along a sequence of calls and upgrades the deleted files stay deleted exactly when every `delete` is
called while the records of its name behind the first are blank, and every upgrade happens while the
buffer has no record of a deleted name.

Main definitions:

* `LegendsNft.Assets.Edit`, `LegendsNft.Assets.edited` — the calls and upgrades, and the store after
  some of them;
* `LegendsNft.Assets.deleted` — the files that are deleted then;
* `LegendsNft.Assets.StaysDeleted` — what is asked of a deleted file;
* `LegendsNft.Assets.Thorough` — the condition on a call or an upgrade.

Main results:

* `LegendsNft.Assets.Forgotten.edit` — every thorough step keeps the deleted files out;
* `LegendsNft.Assets.stays_deleted_iff` — **the runs along which deleted files stay deleted**.
-/

import LegendsNft.AssetBackup

set_option relaxedAutoImplicit false
set_option autoImplicit false

namespace LegendsNft

/-- A record without a payload and without tags. -/
def Record.Blank (r : Record) : Prop := r.asset.payload = [] ∧ r.meta'.tags = []

instance (r : Record) : Decidable r.Blank := inferInstanceAs (Decidable (_ ∧ _))

namespace Assets

/-! ### Calls and upgrades -/

/-- A call that writes or deletes single files, or an upgrade; `isAdmin` tells whether the caller is
an admin then. -/
inductive Edit
  | upload (isAdmin : Bool) (bytes : List Blob)
  | uploadClear (isAdmin : Bool)
  | uploadFinalize (isAdmin : Bool) (contentType : Text) (meta' : Meta)
  | tag (isAdmin : Bool) (files : List (Text × List Text))
  | delete (isAdmin : Bool) (filename : Text)
  | upgrade

/-- The store after an upgrade, constructed from its backup. -/
def upgraded (s : Assets) : Assets :=
  match new s.backup with
  | .ok s' => s'
  | .error _ => s

/-- The store after a call or an upgrade. -/
def edit (s : Assets) : Edit → Assets
  | .upload isAdmin bytes => s.call (.upload isAdmin bytes)
  | .uploadClear isAdmin => s.call (.uploadClear isAdmin)
  | .uploadFinalize isAdmin contentType meta' =>
      s.call (.uploadFinalize isAdmin contentType meta')
  | .tag isAdmin files => s.call (.tag isAdmin files)
  | .delete isAdmin filename => s.call (.delete isAdmin filename)
  | .upgrade => s.upgraded

/-- The store after some calls and upgrades. -/
def edited (s : Assets) (es : List Edit) : Assets := Sequence.after edit s es

/-- The step deletes a file. -/
def Edit.deletes (f : Text) : Edit → Bool
  | .delete true filename => filename = f
  | _ => false

/-- The step uploads a file. -/
def Edit.uploads (f : Text) : Edit → Bool
  | .uploadFinalize true _ meta' => meta'.filename = f
  | _ => false

/-- A file has been deleted, and not uploaded since. -/
def deleted (es : List Edit) (f : Text) : Prop :=
  (es.reverse.find? fun e => e.deletes f || e.uploads f).any (Edit.deletes f)

instance (es : List Edit) (f : Text) : Decidable (deleted es f) :=
  inferInstanceAs (Decidable (_ = true))

theorem not_deleted_nil (f : Text) : ¬ deleted [] f := Bool.false_ne_true

theorem deleted_append_singleton {es : List Edit} {e : Edit} {f : Text} :
    deleted (es ++ [e]) f ↔ e.deletes f ∨ deleted es f ∧ ¬ e.uploads f := by
  rw [deleted, List.reverse_append, List.reverse_singleton, List.singleton_append,
    List.find?_cons]
  cases hd : e.deletes f with
  | true => simp [hd]
  | false =>
      cases hu : e.uploads f with
      | true => simp [hd]
      | false => simp [deleted]

/-! ### What is asked -/

/-- A file stays deleted: it is not found by its name, and no record of that name with a payload or
with tags is found by tags or listed. -/
structure StaysDeleted (s : Assets) (f : Text) : Prop where
  byName : s.getAssetByName f = .ok none
  findTag : ∀ tag r, s.findTag tag = some r → r.filename = f → r.Blank
  findTags : ∀ tags r, s.findTags tags = some r → r.filename = f → r.Blank
  findAllTag : ∀ tag, ∀ r ∈ s.findAllTag tag, r.filename = f → r.Blank
  getManifest : ∀ r ∈ s.getManifest, r.filename = f → r.Blank

/-- All of it is about the records of the buffer. -/
theorem staysDeleted_iff {s : Assets} {f : Text} : StaysDeleted s f ↔
    s.indexed.find f = some none ∧ ∀ r ∈ s.assets, r.filename = f → r.Blank := by
  rw [← getAssetByName_eq_ok]
  constructor
  · exact fun h => ⟨h.byName, h.getManifest⟩
  · rintro ⟨hname, hblank⟩
    refine ⟨hname, ?_, ?_, ?_, hblank⟩
    · exact fun tag r hr => hblank r (List.mem_of_find?_eq_some hr)
    · exact fun tags r hr => hblank r (List.mem_of_find?_eq_some hr)
    · exact fun tag r hr => hblank r (List.mem_of_mem_filter hr)

/-- The condition on a step: a file is deleted while the records of its name behind the first are
blank, and an upgrade happens while the buffer has no record of a deleted name. -/
def Thorough (s : Assets) (gone : Text → Prop) : Edit → Prop
  | .delete true f => ∀ r ∈ (s.assets.filter fun r => r.filename = f).tail, r.Blank
  | .upgrade => ∀ r ∈ s.assets, ¬ gone r.filename
  | _ => True

instance (s : Assets) (gone : Text → Prop) [DecidablePred gone] :
    ∀ e, Decidable (s.Thorough gone e)
  | .delete true f => inferInstanceAs
      (Decidable (∀ r ∈ (s.assets.filter fun r => r.filename = f).tail, r.Blank))
  | .upgrade => inferInstanceAs (Decidable (∀ r ∈ s.assets, ¬ gone r.filename))
  | .delete false _ => isTrue trivial
  | .upload _ _ => isTrue trivial
  | .uploadClear _ => isTrue trivial
  | .uploadFinalize _ _ _ => isTrue trivial
  | .tag _ _ => isTrue trivial

/-! ### The invariant -/

/-- The files that are gone are not in the index, and their records are blank. -/
structure Forgotten (s : Assets) (gone : Text → Prop) : Prop where
  sound : s.indexed.Sound Record.filename
  unindexed : ∀ f, gone f → s.indexed.find f = some none
  blank : ∀ r ∈ s.assets, gone r.filename → r.Blank

variable {s s' : Assets} {gone gone' : Text → Prop}

theorem Forgotten.mono (h : Forgotten s gone) (hle : ∀ f, gone' f → gone f) :
    Forgotten s gone' where
  sound := h.sound
  unindexed := fun f hf => h.unindexed f (hle f hf)
  blank := fun r hr hf => h.blank r hr (hle r.filename hf)

/-- Only the records and their index matter. -/
theorem Forgotten.congr (h : Forgotten s gone) (hs : s'.indexed = s.indexed) :
    Forgotten s' gone where
  sound := hs ▸ h.sound
  unindexed := hs ▸ h.unindexed
  blank := by
    have hassets : s'.assets = s.assets := congrArg Indexed.items hs
    rw [hassets]
    exact h.blank

theorem Forgotten.staysDeleted (h : Forgotten s gone) {f : Text} (hf : gone f) :
    StaysDeleted s f := by
  refine staysDeleted_iff.2 ⟨h.unindexed f hf, ?_⟩
  rintro r hr rfl
  exact h.blank r hr hf

/-- **Storing a record** of a file that is not gone. -/
theorem Forgotten.putAsset (h : Forgotten s gone) {r : Record} (hr : ¬ gone r.filename) :
    ∃ s', s.putAsset r = .ok s' ∧ Forgotten s' gone := by
  obtain ⟨l, hl, hsound, hfind⟩ := h.sound.store r
  refine ⟨s.withIndexed l, ?_, hsound, ?_, ?_⟩
  · rw [putAsset_eq, hl]
    rfl
  · intro f hf
    have hne : f ≠ r.filename := by
      rintro rfl
      exact hr hf
    rw [indexed_withIndexed, hfind, if_neg hne]
    exact h.unindexed f hf
  · intro r' hr' hf
    rcases Indexed.mem_of_store hl hr' with rfl | hmem
    · exact absurd hf hr
    · exact h.blank r' hmem hf

/-- Tagging files passes over those that are gone. -/
theorem Forgotten.tagFiles (h : Forgotten s gone) (files : List (Text × List Text)) :
    ∃ s', s.tagFiles files = .ok s' ∧ Forgotten s' gone := by
  refine exists_tagFiles (P := fun s => Forgotten s gone) ?_ h files
  intro s h f tags
  obtain ⟨found, hfound⟩ := h.sound.exists_find f
  refine ⟨found, getAssetByName_eq_ok.2 hfound, ?_⟩
  rintro r rfl
  have hname : r.filename = f := h.sound.key_of_find hfound
  refine h.putAsset ?_
  intro hgone
  have hnone := h.unindexed r.filename hgone
  rw [hname, hfound] at hnone
  cases hnone

/-! ### Deleting -/

/-- The records of a name after the first of them has been buried. -/
theorem forall_bury_iff {f : Text} {l : List Record} :
    (∀ r ∈ bury f l, r.filename = f → r.Blank) ↔
      ∀ r ∈ (l.filter fun r => r.filename = f).tail, r.Blank := by
  induction l with
  | nil => simp [bury]
  | cons a l ih =>
      by_cases ha : a.filename = f
      · have hbury : bury f (a :: l) = tombstone a :: l := by
          rw [bury, if_pos (by exact ha)]
        have hblank : (tombstone a).Blank := ⟨rfl, rfl⟩
        rw [hbury, List.forall_mem_cons, List.filter_cons_of_pos (by simpa using ha)]
        simp [hblank]
      · have hbury : bury f (a :: l) = a :: bury f l := by
          rw [bury, if_neg (by exact ha)]
        rw [hbury, List.forall_mem_cons, List.filter_cons_of_neg (by simpa using ha), ih]
        simp [ha]

/-- Burying a name leaves the records of the other names. -/
theorem mem_of_mem_bury {f : Text} {l : List Record} {r : Record} (h : r ∈ bury f l)
    (hr : r.filename ≠ f) : r ∈ l := by
  induction l with
  | nil => simp [bury] at h
  | cons a l ih =>
      rw [bury] at h
      split_ifs at h with ha
      · rcases List.mem_cons.1 h with rfl | h
        · exact absurd ha hr
        · exact List.mem_cons_of_mem a h
      · rcases List.mem_cons.1 h with rfl | h
        · exact List.mem_cons_self ..
        · exact List.mem_cons_of_mem a (ih h)

/-- **Deleting a file** whose records behind the first are blank. -/
theorem Forgotten.delete (h : Forgotten s gone) {f : Text}
    (hf : ∀ r ∈ (s.assets.filter fun r => r.filename = f).tail, r.Blank) :
    Forgotten { s with files := s.files.delete f, assets := bury f s.assets }
      fun g => g = f ∨ gone g where
  sound := by
    intro g i hi
    obtain ⟨hne, hi⟩ := Table.get_of_get_delete hi
    obtain ⟨r, hr, hname⟩ := h.sound g i hi
    exact ⟨r, getElem?_bury hr (hname ▸ hne), hname⟩
  unindexed := by
    intro g hg
    rw [Indexed.find_eq_some_none]
    by_cases hgf : g = f
    · rw [hgf]
      exact Table.get_delete_self ..
    · have hget := Indexed.find_eq_some_none.1 (h.unindexed g (hg.resolve_left hgf))
      exact (Table.get_delete_of_ne _ hgf).trans hget
  blank := by
    intro r hr hg
    by_cases hrf : r.filename = f
    · exact forall_bury_iff.2 hf r hr hrf
    · exact h.blank r (mem_of_mem_bury hr hrf) (hg.resolve_left hrf)

/-! ### Upgrades -/

/-- The store constructed from some records finds the last of each name, and has no others. -/
theorem exists_new (state : State) : ∃ s, new state = .ok s ∧
    s.indexed.Sound Record.filename ∧
    (∀ f, s.indexed.find f = some (lastNamed f state.assets)) ∧
    ∀ r ∈ s.assets, r ∈ state.assets := by
  obtain ⟨l, hput, hexact, hfind, hmem⟩ := exists_putAssets
    { empty with colors := state.colors, stockColors := state.stockColors } rfl state.assets
  refine ⟨_, bind_eq_ok.2 ⟨_, hput, rfl⟩, hexact.sound, hfind, ?_⟩
  exact fun r hr => Indexed.mem_of_lastOf ((hmem r).1 hr)

theorem exists_upgraded (s : Assets) : s.upgraded.indexed.Sound Record.filename ∧
    (∀ f, s.upgraded.indexed.find f = some (lastNamed f s.assets)) ∧
    ∀ r ∈ s.upgraded.assets, r ∈ s.assets := by
  obtain ⟨s', hs', h⟩ := exists_new s.backup
  rw [upgraded, hs']
  exact h

/-- **An upgrade** while the buffer has no record of a file that is gone. -/
theorem Forgotten.upgraded (h : ∀ r ∈ s.assets, ¬ gone r.filename) :
    Forgotten s.upgraded gone := by
  obtain ⟨hsound, hfind, hmem⟩ := exists_upgraded s
  refine ⟨hsound, ?_, ?_⟩
  · intro f hf
    have hnone : lastNamed f s.assets = none := by
      rw [Indexed.lastOf_eq_none]
      rintro r hr rfl
      exact h r hr hf
    rw [hfind, hnone]
  · exact fun r hr hf => absurd hf (h r (hmem r hr))

/-! ### Whole runs -/

/-- **Every thorough step** keeps the deleted files out. -/
theorem Forgotten.edit {es : List Edit} (h : Forgotten s (deleted es)) {e : Edit}
    (he : s.Thorough (deleted es) e) : Forgotten (s.edit e) (deleted (es ++ [e])) := by
  have hsame (hd : ∀ f, e.deletes f = false) (f : Text) (hf : deleted (es ++ [e]) f) :
      deleted es f := by
    rcases deleted_append_singleton.1 hf with hdel | ⟨hdel, -⟩
    · rw [hd f] at hdel
      cases hdel
    · exact hdel
  cases e with
  | upload isAdmin bytes =>
      have hmono := h.mono (hsame fun _ => rfl)
      cases isAdmin <;> exact hmono.congr rfl
  | uploadClear isAdmin =>
      have hmono := h.mono (hsame fun _ => rfl)
      cases isAdmin <;> exact hmono.congr rfl
  | uploadFinalize isAdmin contentType meta' =>
      have hmono := h.mono (hsame fun _ => rfl)
      cases isAdmin with
      | false => exact hmono
      | true =>
          have hkept : ¬ deleted (es ++ [.uploadFinalize true contentType meta'])
              meta'.filename := by
            intro hgone
            rcases deleted_append_singleton.1 hgone with hdel | ⟨-, hup⟩
            · cases hdel
            · exact hup (decide_eq_true rfl)
          obtain ⟨t, hput, ht⟩ := hmono.putAsset (r := ⟨⟨contentType, s.buffer⟩, meta'⟩) hkept
          rw [Assets.edit, call_uploadFinalize hput]
          exact ht.congr rfl
  | tag isAdmin files =>
      have hmono := h.mono (hsame fun _ => rfl)
      cases isAdmin with
      | false => exact hmono
      | true =>
          obtain ⟨t, htag, ht⟩ := hmono.tagFiles files
          rw [Assets.edit, call_tag htag]
          exact ht
  | delete isAdmin filename =>
      cases isAdmin with
      | false => exact h.mono (hsame fun _ => rfl)
      | true =>
          refine (h.delete he).mono ?_
          intro f hf
          rcases deleted_append_singleton.1 hf with hdel | ⟨hdel, -⟩
          · exact Or.inl (of_decide_eq_true hdel).symm
          · exact Or.inr hdel
  | upgrade => exact (Forgotten.upgraded he).mono (hsame fun _ => rfl)

/-- A step after which the deleted files stay deleted was thorough. -/
theorem thorough_of_staysDeleted {es : List Edit} {e : Edit}
    (h : ∀ f, deleted (es ++ [e]) f → StaysDeleted (s.edit e) f) :
    s.Thorough (deleted es) e := by
  unfold Thorough
  split
  · rename_i f
    have hdel : deleted (es ++ [.delete true f]) f :=
      deleted_append_singleton.2 (Or.inl (decide_eq_true rfl))
    exact forall_bury_iff.1 (h f hdel).getManifest
  · intro r hr hgone
    have hdel : deleted (es ++ [.upgrade]) r.filename :=
      deleted_append_singleton.2 (Or.inr ⟨hgone, Bool.false_ne_true⟩)
    obtain ⟨-, hfind, -⟩ := exists_upgraded s
    have hname := (staysDeleted_iff.1 (h r.filename hdel)).1
    rw [Assets.edit, hfind, Option.some_inj, Indexed.lastOf_eq_none] at hname
    exact hname r hr rfl
  · trivial

/-- **The runs along which deleted files stay deleted**: those in which every `delete` and every
upgrade is thorough. -/
theorem stays_deleted_iff {state : State} (hs : new state = .ok s) (es : List Edit) :
    (∀ pre, pre <+: es → ∀ f, deleted pre f → StaysDeleted (s.edited pre) f) ↔
      ∀ pre e, pre ++ [e] <+: es → (s.edited pre).Thorough (deleted pre) e := by
  refine Sequence.forall_prefix_iff (I := fun pre => Forgotten (s.edited pre) (deleted pre))
    ?_ ?_ ?_ ?_ es
  · obtain ⟨s', hs', hsound, -⟩ := exists_new state
    rw [hs, Except.ok.injEq] at hs'
    subst hs'
    exact ⟨hsound, fun f hf => absurd hf (not_deleted_nil f),
      fun r _ hf => absurd hf (not_deleted_nil r.filename)⟩
  · intro pre e h he
    rw [edited, Sequence.after_append_singleton]
    exact h.edit he
  · exact fun pre h f hf => h.staysDeleted hf
  · intro pre e _ h
    rw [edited, Sequence.after_append_singleton] at h
    exact thorough_of_staysDeleted h

/-- An asset is uploaded, deleted, and uploaded again; there is an upgrade, and the asset is deleted
again. -/
def sampleThorough : List Edit :=
  [.upload true [[1]], .uploadFinalize true "image/png" (sampleMeta "a" "x"), .delete true "a",
    .upload true [[2]], .uploadFinalize true "image/png" (sampleMeta "a" "x"), .upgrade,
    .delete true "a"]

theorem stays_deleted_iff_sample :
    (∀ pre e, pre ++ [e] <+: sampleThorough → (empty.edited pre).Thorough (deleted pre) e) ∧
      StaysDeleted (empty.edited sampleThorough) "a" := by
  have hnew : new ⟨[], [], []⟩ = .ok empty := rfl
  have hthorough : ∀ pre e, pre ++ [e] <+: sampleThorough →
      (empty.edited pre).Thorough (deleted pre) e :=
    Sequence.forall_append_singleton_prefix.2 (by decide)
  exact ⟨hthorough, (stays_deleted_iff hnew sampleThorough).2 hthorough _ (List.prefix_refl _) "a"
    (by decide)⟩

/-- An asset is uploaded and deleted, and there is an upgrade. -/
def deleteUpgrade : List Edit :=
  [.upload true [[1]], .uploadFinalize true "image/png" (sampleMeta "a" "x"), .delete true "a",
    .upgrade]

/-- An asset is uploaded and deleted twice. -/
def deleteTwice : List Edit :=
  [.upload true [[1]], .uploadFinalize true "image/png" (sampleMeta "a" "x"), .delete true "a",
    .upload true [[2]], .uploadFinalize true "image/png" (sampleMeta "a" "x"), .delete true "a"]

/-- **Deleted assets come back**: the upgrade finds the tombstone by its name, and the second
`delete` leaves the second upload under its tag. -/
theorem deleted_comes_back :
    deleted deleteUpgrade "a" ∧
      (empty.edited deleteUpgrade).getAssetByName "a" =
        .ok (some (tombstone ⟨⟨"image/png", [[1]]⟩, sampleMeta "a" "x"⟩)) ∧
      deleted deleteTwice "a" ∧
      (empty.edited deleteTwice).findTag "x" =
        some ⟨⟨"image/png", [[2]]⟩, sampleMeta "a" "x"⟩ ∧
      ¬ StaysDeleted (empty.edited deleteUpgrade) "a" ∧
      ¬ StaysDeleted (empty.edited deleteTwice) "a" := by
  have hname : (empty.edited deleteUpgrade).getAssetByName "a" =
      .ok (some (tombstone ⟨⟨"image/png", [[1]]⟩, sampleMeta "a" "x"⟩)) := by decide
  have htag : (empty.edited deleteTwice).findTag "x" =
      some ⟨⟨"image/png", [[2]]⟩, sampleMeta "a" "x"⟩ := by decide
  refine ⟨by decide, hname, by decide, htag, ?_, ?_⟩
  · intro h
    rw [h.byName] at hname
    cases hname
  · intro h
    have hblank := h.findTag _ _ htag rfl
    revert hblank
    decide

end Assets

end LegendsNft
