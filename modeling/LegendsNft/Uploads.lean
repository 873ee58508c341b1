/-
**Uploading an asset in chunks.**

One buffer serves all files: `upload` appends chunks to it, `uploadFinalize` stores what it holds
under a name and empties it, and `uploadClear` only empties it.  So the payload of an asset is made
of the chunks uploaded since the buffer was last emptied before its last finalization; and since
then only `tag` has touched the record, which keeps everything but the tags.

Main definitions:

* `LegendsNft.Assets.Call.Uploading` — the calls that neither remove records nor bring other ones;
* `LegendsNft.Assets.chunksSinceClear` — the chunks in the buffer;
* `LegendsNft.Assets.latestTags` — the tags a file was given last.

Main results:

* `LegendsNft.Catalogue.pending_run` — the buffer after some calls;
* `LegendsNft.Catalogue.record_run` — what later calls do to a record;
* `LegendsNft.Assets.upload_lossless` — **the body served for a file is what was uploaded for it**.
-/

import LegendsNft.AssetIndex
import LegendsNft.Http
import Mathlib.Data.List.DropRight

set_option relaxedAutoImplicit false
set_option autoImplicit false

namespace LegendsNft

namespace Assets

/-! ### What a call uploads, finalizes and tags -/

namespace Call

/-- The call does not remove records, and does not bring those of a backup. -/
def Uploading : Call → Prop
  | .purge _ _ _ => False
  | .delete _ _ => False
  | .restore _ => False
  | _ => True

instance : ∀ c : Call, Decidable c.Uploading
  | .purge _ _ _ => isFalse id
  | .delete _ _ => isFalse id
  | .restore _ => isFalse id
  | .upload _ _ => isTrue trivial
  | .uploadFinalize _ _ _ => isTrue trivial
  | .uploadClear _ => isTrue trivial
  | .tag _ _ => isTrue trivial
  | .configureColors _ _ => isTrue trivial
  | .configureStockColors _ _ => isTrue trivial

/-- The chunks that a call appends to the buffer. -/
def chunks : Call → List Blob
  | .upload true bytes => bytes
  | _ => []

/-- The call empties the buffer. -/
def clears : Call → Bool
  | .uploadFinalize true _ _ => true
  | .uploadClear true => true
  | _ => false

/-- The call finalizes a file. -/
def finalizes (f : Text) : Call → Bool
  | .uploadFinalize true _ meta' => meta'.filename = f
  | _ => false

/-- The tags that a call gives to files. -/
def tagged : Call → List (Text × List Text)
  | .tag true files => files
  | _ => []

theorem finalizes_eq_true {f : Text} {c : Call} : c.finalizes f = true ↔
    ∃ contentType meta', c = .uploadFinalize true contentType meta' ∧ meta'.filename = f := by
  unfold finalizes
  split
  · simp
  · rename_i h
    constructor
    · intro hfalse
      cases hfalse
    · rintro ⟨contentType, meta', rfl, -⟩
      exact absurd rfl (h contentType meta')

theorem Uploading.harmless {c : Call} (h : c.Uploading) (s : Assets) : s.Harmless c := by
  cases c with
  | purge isAdmin confirm tag => exact absurd h id
  | _ => trivial

end Call

/-- The chunks uploaded since the buffer was last emptied. -/
def chunksSinceClear (cs : List Call) : List Blob :=
  (cs.rtakeWhile fun c => !c.clears).flatMap Call.chunks

theorem chunksSinceClear_append_singleton (cs : List Call) (c : Call) :
    chunksSinceClear (cs ++ [c]) =
      if c.clears then [] else chunksSinceClear cs ++ c.chunks := by
  rw [chunksSinceClear, List.rtakeWhile_concat]
  cases c.clears <;> simp [chunksSinceClear]

/-- The tags that a file was given last, or those it had. -/
def latestTags (f : Text) (tags : List Text) (es : List (Text × List Text)) : List Text :=
  ((Indexed.lastOf Prod.fst f es).map Prod.snd).getD tags

theorem latestTags_cons (f : Text) (tags : List Text) (e : Text × List Text)
    (es : List (Text × List Text)) :
    latestTags f tags (e :: es) = latestTags f (if e.1 = f then e.2 else tags) es := by
  rw [latestTags, latestTags, Indexed.lastOf_cons]
  cases Indexed.lastOf Prod.fst f es with
  | some e' => rfl
  | none => split_ifs <;> rfl

theorem latestTags_append (f : Text) (tags : List Text) (es es' : List (Text × List Text)) :
    latestTags f tags (es ++ es') = latestTags f (latestTags f tags es) es' := by
  induction es generalizing tags with
  | nil => rfl
  | cons e es ih => rw [List.cons_append, latestTags_cons, latestTags_cons, ih]

end Assets

/-! ### The catalogue along an upload session -/

namespace Catalogue

open Assets

theorem pending_retag (m : Catalogue) (f : Text) (tags : List Text) :
    (m.retag f tags).pending = m.pending := by
  rw [retag]
  cases m.record f <;> rfl

theorem pending_retags (m : Catalogue) (es : List (Text × List Text)) :
    (es.foldl (fun m e => m.retag e.1 e.2) m).pending = m.pending := by
  induction es generalizing m with
  | nil => rfl
  | cons e es ih => rw [List.foldl_cons, ih, pending_retag]

/-- A call without an effect on the catalogue, on the buffer or on the tags. -/
structure Idle (c : Call) : Prop where
  step : ∀ m : Catalogue, m.step c = m
  chunks : c.chunks = []
  clears : c.clears = false
  tagged : c.tagged = []

/-- **The calls of an upload session**: those of admins, and others without an effect. -/
theorem uploading_cases {c : Call} (hc : c.Uploading) :
    Idle c ∨ (∃ bytes, c = .upload true bytes) ∨ c = .uploadClear true ∨
      (∃ contentType meta', c = .uploadFinalize true contentType meta') ∨
      ∃ files, c = .tag true files := by
  cases c with
  | purge isAdmin confirm tag => exact absurd hc id
  | delete isAdmin filename => exact absurd hc id
  | restore backup => exact absurd hc id
  | configureColors isAdmin newColors => exact Or.inl ⟨fun _ => rfl, rfl, rfl, rfl⟩
  | configureStockColors isAdmin newColors => exact Or.inl ⟨fun _ => rfl, rfl, rfl, rfl⟩
  | upload isAdmin bytes =>
      cases isAdmin with
      | false => exact Or.inl ⟨fun _ => rfl, rfl, rfl, rfl⟩
      | true => exact Or.inr (Or.inl ⟨bytes, rfl⟩)
  | uploadClear isAdmin =>
      cases isAdmin with
      | false => exact Or.inl ⟨fun _ => rfl, rfl, rfl, rfl⟩
      | true => exact Or.inr (Or.inr (Or.inl rfl))
  | uploadFinalize isAdmin contentType meta' =>
      cases isAdmin with
      | false => exact Or.inl ⟨fun _ => rfl, rfl, rfl, rfl⟩
      | true => exact Or.inr (Or.inr (Or.inr (Or.inl ⟨contentType, meta', rfl⟩)))
  | tag isAdmin files =>
      cases isAdmin with
      | false => exact Or.inl ⟨fun _ => rfl, rfl, rfl, rfl⟩
      | true => exact Or.inr (Or.inr (Or.inr (Or.inr ⟨files, rfl⟩)))

/-- What a call does to the buffer. -/
theorem pending_step (m : Catalogue) {c : Call} (hc : c.Uploading) :
    (m.step c).pending = if c.clears then [] else m.pending ++ c.chunks := by
  rcases uploading_cases hc with
    hidle | ⟨bytes, rfl⟩ | rfl | ⟨contentType, meta', rfl⟩ | ⟨files, rfl⟩
  · rw [hidle.step, hidle.clears, hidle.chunks]
    exact (List.append_nil _).symm
  · rfl
  · rfl
  · rfl
  · exact (pending_retags m files).trans (List.append_nil _).symm

/-- **The buffer** holds the chunks uploaded since it was last emptied. -/
theorem pending_run {m : Catalogue} (hm : m.pending = []) {cs : List Call}
    (hcs : ∀ c ∈ cs, c.Uploading) :
    (Sequence.after step m cs).pending = chunksSinceClear cs := by
  induction cs using List.reverseRecOn with
  | nil => exact hm
  | append_singleton cs c ih =>
      have hrest := ih fun d hd => hcs d (List.mem_append_left [c] hd)
      have hc : c.Uploading := hcs c (List.mem_append_right cs (List.mem_singleton_self c))
      rw [Sequence.after_append_singleton, pending_step _ hc, hrest,
        chunksSinceClear_append_singleton]

/-- Giving tags to a file changes the tags of its record, and no other record. -/
theorem record_retag {m : Catalogue} {r : Record} {tags : List Text}
    (h : m.record r.filename = some (Assets.retag r tags)) (e : Text × List Text) :
    (m.retag e.1 e.2).record r.filename =
      some (Assets.retag r (if e.1 = r.filename then e.2 else tags)) := by
  rw [retag]
  cases hr : m.record e.1 with
  | none =>
      have hne : e.1 ≠ r.filename := by
        intro heq
        rw [heq, h] at hr
        cases hr
      rw [if_neg hne]
      exact h
  | some r' =>
      have hname : (Assets.retag r' e.2).filename = e.1 := m.named e.1 r' hr
      simp only [record_store, hname]
      by_cases heq : e.1 = r.filename
      · rw [heq, h] at hr
        cases hr
        rw [if_pos heq.symm, if_pos heq]
        rfl
      · rw [if_neg (Ne.symm heq), if_neg heq]
        exact h

theorem record_retags {m : Catalogue} {r : Record} {tags : List Text}
    (h : m.record r.filename = some (Assets.retag r tags)) (es : List (Text × List Text)) :
    (es.foldl (fun m e => m.retag e.1 e.2) m).record r.filename =
      some (Assets.retag r (latestTags r.filename tags es)) := by
  induction es generalizing m tags with
  | nil => exact h
  | cons e es ih => rw [List.foldl_cons, ih (record_retag h e), latestTags_cons]

/-- What a call does to a record that it does not finalize. -/
theorem record_step {m : Catalogue} {r : Record} {tags : List Text}
    (h : m.record r.filename = some (Assets.retag r tags)) {c : Call} (hc : c.Uploading)
    (hfinal : ¬ c.finalizes r.filename) :
    (m.step c).record r.filename =
      some (Assets.retag r (latestTags r.filename tags c.tagged)) := by
  rcases uploading_cases hc with
    hidle | ⟨bytes, rfl⟩ | rfl | ⟨contentType, meta', rfl⟩ | ⟨files, rfl⟩
  · rw [hidle.step, hidle.tagged]
    exact h
  · exact h
  · exact h
  · have hne : r.filename ≠ meta'.filename := by
      intro heq
      exact hfinal (decide_eq_true heq.symm)
    exact (m.record_store _ _).trans ((if_neg hne).trans h)
  · exact record_retags h files

/-- **What later calls do to a record**: they give it the tags of the latest of them. -/
theorem record_run {m : Catalogue} {r : Record} {tags : List Text}
    (h : m.record r.filename = some (Assets.retag r tags)) {cs : List Call}
    (hcs : ∀ c ∈ cs, c.Uploading) (hfinal : ∀ c ∈ cs, ¬ c.finalizes r.filename) :
    (Sequence.after step m cs).record r.filename =
      some (Assets.retag r (latestTags r.filename tags (cs.flatMap Call.tagged))) := by
  induction cs generalizing m tags with
  | nil => exact h
  | cons c cs ih =>
      rw [List.forall_mem_cons] at hcs hfinal
      rw [List.flatMap_cons, latestTags_append]
      exact ih (record_step h hcs.1 hfinal.1) hcs.2 hfinal.2

end Catalogue

namespace Assets

/-! ### The store along an upload session -/

/-- The store constructed from any state represents a catalogue with nothing in the buffer. -/
theorem exists_represents_new (state : State) :
    ∃ s m, new state = .ok s ∧ Represents s m ∧ m.pending = [] := by
  have hstart : Represents { empty with colors := state.colors, stockColors := state.stockColors }
      Catalogue.nil := ⟨fun _ => rfl, rfl⟩
  obtain ⟨s, hput, hs⟩ := hstart.putAssets state.assets
  refine ⟨_, _, bind_eq_ok.2 ⟨s, hput, rfl⟩, ⟨hs.answers, hs.buffer⟩, ?_⟩
  have hpending (records : List Record) (m : Catalogue) :
      (records.foldl Catalogue.store m).pending = m.pending := by
    induction records generalizing m with
    | nil => rfl
    | cons r records ih => exact ih (m.store r)
  exact hpending state.assets Catalogue.nil

/-- The store and the catalogue stay together along an upload session. -/
theorem Represents.run {s : Assets} {m : Catalogue} (h : Represents s m) {cs : List Call}
    (hcs : ∀ c ∈ cs, c.Uploading) :
    Represents (Sequence.after call s cs) (Sequence.after Catalogue.step m cs) := by
  induction cs generalizing s m with
  | nil => exact h
  | cons c cs ih =>
      rw [List.forall_mem_cons] at hcs
      exact ih (represents_call h (hcs.1.harmless s)) hcs.2

theorem flattenPayload_eq (payload : List Blob) : flattenPayload payload = payload.flatten := by
  have hfold (acc : Blob) : payload.foldl (fun a b => a ++ b) acc = acc ++ payload.flatten := by
    induction payload generalizing acc with
    | nil => exact (List.append_nil acc).symm
    | cons b payload ih => rw [List.foldl_cons, ih, List.flatten_cons, List.append_assoc]
  exact hfold []

/-- The last finalization of a file. -/
theorem exists_last_finalize {cs : List Call} {f : Text} (h : ∃ c ∈ cs, c.finalizes f) :
    ∃ before contentType meta' later,
      cs = before ++ .uploadFinalize true contentType meta' :: later ∧ meta'.filename = f ∧
        ∀ c ∈ later, ¬ c.finalizes f := by
  obtain ⟨c, hc, hf⟩ := h
  obtain ⟨d, hd⟩ := Option.isSome_iff_exists.1
    (List.find?_isSome.2 ⟨c, List.mem_reverse.2 hc, hf⟩)
  obtain ⟨hfinal, later, before, hsplit, hlater⟩ := List.find?_eq_some_iff_append.1 hd
  obtain ⟨contentType, meta', rfl, hname⟩ := Call.finalizes_eq_true.1 hfinal
  refine ⟨before.reverse, contentType, meta', later.reverse, ?_, hname, ?_⟩
  · have hreverse := congrArg List.reverse hsplit
    simpa using hreverse
  · intro e he
    simpa using hlater e (List.mem_reverse.1 he)

/-- **The body served for a file is what was uploaded for it**: the chunks since the buffer was last
emptied before the last finalization of the file, in order.  Its type, name and description are
those of that finalization, and its tags those that it was given last. -/
theorem upload_lossless {state : State} {s : Assets} (hs : new state = .ok s) {cs : List Call}
    (hcs : ∀ c ∈ cs, c.Uploading) {f : Text} (hf : ∃ c ∈ cs, c.finalizes f) :
    ∃ before contentType meta' later,
      cs = before ++ .uploadFinalize true contentType meta' :: later ∧ meta'.filename = f ∧
        (∀ c ∈ later, ¬ c.finalizes f) ∧
      ∃ r, (Sequence.after call s cs).getAssetByName f = .ok (some r) ∧
        (Http.renderAsset r).body = (chunksSinceClear before).flatten ∧
        r.asset.contentType = contentType ∧ r.meta'.name = meta'.name ∧
        r.meta'.description = meta'.description ∧
        r.meta'.tags = latestTags f meta'.tags (later.flatMap Call.tagged) := by
  obtain ⟨before, contentType, meta', later, rfl, rfl, hlater⟩ := exists_last_finalize hf
  obtain ⟨s', m, hs', hrep, hpending⟩ := exists_represents_new state
  rw [hs, Except.ok.injEq] at hs'
  subst hs'
  have hbefore : ∀ c ∈ before, c.Uploading := fun c hc => hcs c (List.mem_append_left _ hc)
  have hafter : ∀ c ∈ later, c.Uploading := fun c hc =>
    hcs c (List.mem_append_right before (List.mem_cons_of_mem _ hc))
  refine ⟨before, contentType, meta', later, rfl, rfl, hlater, ?_⟩
  -- what the last finalization stores
  let r : Record := ⟨⟨contentType, chunksSinceClear before⟩, meta'⟩
  let m' := (Sequence.after Catalogue.step m before).step (.uploadFinalize true contentType meta')
  have hstored : m'.record r.filename = some (retag r meta'.tags) := by
    have hchunks := Catalogue.pending_run hpending hbefore
    simp only [m', Catalogue.step, hchunks]
    exact (Catalogue.record_store _ r r.filename).trans (if_pos rfl)
  have hrecord := Catalogue.record_run hstored hafter hlater
  have hsplit : Sequence.after Catalogue.step m
      (before ++ .uploadFinalize true contentType meta' :: later) =
      Sequence.after Catalogue.step m' later := by
    rw [Sequence.after, List.foldl_append, List.foldl_cons]
    rfl
  have hanswer := (hrep.run hcs).answers meta'.filename
  rw [hsplit] at hanswer
  refine ⟨retag r (latestTags r.filename meta'.tags (later.flatMap Call.tagged)), ?_, ?_, rfl, rfl,
    rfl, rfl⟩
  · exact hanswer.trans (congrArg Except.ok hrecord)
  · exact flattenPayload_eq (chunksSinceClear before)

/-- Two files are uploaded, the first of them in two steps and then again, and tagged. -/
def sampleSession : List Call :=
  [.upload true [[1, 2], [3]], .upload true [[4]],
    .uploadFinalize true "image/png" (sampleMeta "a" "x"),
    .upload true [[5]], .uploadClear true, .upload true [[6]],
    .uploadFinalize true "text/css" (sampleMeta "b" "y"),
    .upload true [[7], [], [8, 9]], .uploadFinalize true "image/svg+xml" (sampleMeta "a" "z"),
    .tag true [("a", ["u"]), ("b", []), ("a", ["v", "w"])]]

theorem upload_lossless_sample : ∃ r,
    (Sequence.after call empty sampleSession).getAssetByName "a" = .ok (some r) ∧
      (Http.renderAsset r).body = [7, 8, 9] ∧ r.asset.contentType = "image/svg+xml" ∧
      r.meta'.tags = ["v", "w"] := by
  have hnew : new ⟨[], [], []⟩ = .ok empty := rfl
  obtain ⟨-, -, -, -, -, -, -, r, hr, -⟩ :=
    upload_lossless (f := "a") hnew (by decide : ∀ c ∈ sampleSession, c.Uploading) (by decide)
  refine ⟨r, hr, ?_⟩
  -- the store is evaluated, and so is its record
  have hget : (Sequence.after call empty sampleSession).getAssetByName "a" =
      .ok (some ⟨⟨"image/svg+xml", [[7], [], [8, 9]]⟩, ⟨["v", "w"], "a", "a", ""⟩⟩) := by decide
  rw [hget, Except.ok.injEq, Option.some_inj] at hr
  subst hr
  decide

end Assets

end LegendsNft
