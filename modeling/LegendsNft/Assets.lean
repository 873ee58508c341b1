/-
**The asset store** (`Assets/lib.mo`, `Buffer.mo`).

Assets are records in a buffer, with an index from filenames to positions.  The functions are
written as in the source; those of the admin interface are told whether the caller is an admin, and
a call that traps leaves the store as it was.  Of the mutable buffer only its contents are kept, and
a position past its end traps.

Main definitions:

* `LegendsNft.Record`, `LegendsNft.Assets` — the records and the store;
* `LegendsNft.Assets.putAsset`, `LegendsNft.Assets.getAssetByName` — writing and reading by name;
* `LegendsNft.Assets.purge`, `LegendsNft.Assets.delete`, `LegendsNft.Assets.tag` — the other
  writers;
* `LegendsNft.Assets.backup`, `LegendsNft.Assets.restore`, `LegendsNft.Assets.new` — the copies;
* `LegendsNft.Assets.Call`, `LegendsNft.Assets.after` — the calls, and the store after some calls.

Main results:

* `LegendsNft.Assets.putAsset_eq`, `LegendsNft.Assets.getAssetByName_eq` — the store is a list with
  an index by filename.
-/

import LegendsNft.Indexed
import LegendsNft.Sequence
import LegendsNft.Types

set_option relaxedAutoImplicit false
set_option autoImplicit false

namespace LegendsNft

/-- `Assets.Asset`. -/
structure Asset where
  contentType : Text
  payload : List Blob
  deriving DecidableEq, Repr

/-- `Assets.Meta`. -/
structure Meta where
  tags : List Text
  filename : Text
  name : Text
  description : Text
  deriving DecidableEq, Repr

/-- `Assets.Record`. -/
structure Record where
  asset : Asset
  meta' : Meta
  deriving DecidableEq, Repr

/-- The name a record is stored under. -/
def Record.filename (r : Record) : Text := r.meta'.filename

/-- `Assets.Color`. -/
structure Color where
  name : Text
  base : Text
  specular : Text
  emissive : Text
  background : Text
  deriving DecidableEq, Repr

/-- The state of `Assets.Assets`. -/
structure Assets where
  /-- The upload buffer, for adding additional assets. -/
  buffer : List Blob
  /-- A denormalized hashmap for looking up assets. -/
  files : Table Text ℕ
  assets : List Record
  colors : List Color
  stockColors : List Color

namespace Assets

/-- A store with nothing in it. -/
def empty : Assets := ⟨[], Table.empty, [], [], []⟩

/-! ### Internals -/

/-- `_putAsset`: writes a new asset to state, including the denormalized index. -/
def putAsset (s : Assets) (record : Record) : Except Trap Assets :=
  match s.files.get record.meta'.filename with
  | some i =>
      if i < s.assets.length then .ok { s with assets := s.assets.set i record }
      else .error .outOfBounds
  | none =>
      .ok { s with
        files := s.files.put record.meta'.filename s.assets.length
        assets := s.assets ++ [record] }

/-- `_assetHasTag`. -/
def assetHasTag (asset : Record) (tag : Text) : Bool := asset.meta'.tags.any fun t => t == tag

/-- `_findAllTag`. -/
def findAllTag (s : Assets) (tag : Text) : List Record :=
  s.assets.filter fun asset => assetHasTag asset tag

/-- `_findTag`: the first asset with a tag. -/
def findTag (s : Assets) (tag : Text) : Option Record :=
  s.assets.find? fun asset => assetHasTag asset tag

/-- `_findTags`: the first asset with all of the tags. -/
def findTags (s : Assets) (tags : List Text) : Option Record :=
  s.assets.find? fun asset => tags.all fun tag => assetHasTag asset tag

/-- `_flattenPayload`: a list of blobs as one blob. -/
def flattenPayload (payload : List Blob) : Blob := payload.foldl (fun a b => a ++ b) []

/-! ### Copies -/

/-- `Types.State`. -/
structure State where
  assets : List Record
  colors : List Color
  stockColors : List Color
  deriving DecidableEq, Repr

/-- The loop of `restore`. -/
def putAssets (s : Assets) : List Record → Except Trap Assets
  | [] => .ok s
  | asset :: rest => s.putAsset asset >>= fun s => s.putAssets rest

/-- `restore`. -/
def restore (s : Assets) (backup : State) : Except Trap Assets := do
  let s ← s.putAssets backup.assets
  -- the stock colors of the backup are not read
  pure { s with colors := backup.colors }

/-- `backup`. -/
def backup (s : Assets) : State :=
  { assets := s.assets
    colors := s.colors
    stockColors := s.stockColors }

/-- The constructor. -/
def new (state : State) : Except Trap Assets :=
  restore { empty with colors := state.colors, stockColors := state.stockColors } state

/-! ### Public API -/

/-- `getAssetByName`. -/
def getAssetByName (s : Assets) (filename : Text) : Except Trap (Option Record) :=
  match s.files.get filename with
  | some index => (orTrap .outOfBounds s.assets[index]?).map some
  | none => .ok none

/-- `getManifest`. -/
def getManifest (s : Assets) : List Record := s.assets

/-- `getColors`. -/
def getColors (s : Assets) : List Color := s.colors

/-- `getStockColors`. -/
def getStockColors (s : Assets) : List Color := s.stockColors

/-! ### Admin API -/

/-- `assert(state._Admins._isAdmin(caller))`. -/
def authorized {α : Type} (isAdmin : Bool) (a : α) : Except Trap α :=
  if isAdmin then .ok a else .error .assertion

theorem authorized_eq_ok {α : Type} {isAdmin : Bool} {a b : α} :
    authorized isAdmin a = .ok b ↔ isAdmin = true ∧ a = b := by
  cases isAdmin <;> simp [authorized]

/-- `upload`. -/
def upload (s : Assets) (isAdmin : Bool) (bytes : List Blob) : Except Trap Assets :=
  authorized isAdmin { s with buffer := s.buffer ++ bytes }

/-- `uploadFinalize`. -/
def uploadFinalize (s : Assets) (isAdmin : Bool) (contentType : Text) (meta' : Meta) :
    Except Trap (Assets × Except Text Unit) := do
  authorized isAdmin ()
  let s ← s.putAsset {
    asset := { contentType := contentType, payload := s.buffer }
    meta' := meta' }
  pure ({ s with buffer := [] }, .ok ())

/-- `uploadClear`. -/
def uploadClear (s : Assets) (isAdmin : Bool) : Except Trap Assets :=
  authorized isAdmin { s with buffer := [] }

/-- `Buffer.filterSelf`: the callback is told of each element whether it is kept. -/
def filterSelf {α σ : Type} (f : α → Bool) (g : σ → Bool → α → σ) (s : σ) (xs : List α) :
    List α × σ :=
  (xs.filter f, xs.foldl (fun s x => g s (f x) x) s)

/-- The text `purge` asks for. -/
def confirmation : Text := "DELETE ALL ASSETS"

/-- `purge` of the assets with a tag. -/
def purgeTag (s : Assets) (tag : Text) : Assets :=
  let (assets, files) := filterSelf (fun r => !assetHasTag r tag)
    -- the name of a record that is kept leaves the index
    (fun files b r => if b then files.delete r.meta'.filename else files) s.files s.assets
  { s with assets := assets, files := files }

/-- `purge` of all assets. -/
def purgeAll (s : Assets) : Assets :=
  { s with
    assets := []
    files := s.files.entries.foldl (fun files e => files.delete e.1) s.files }

/-- `purge`. -/
def purge (s : Assets) (isAdmin : Bool) (confirm : Text) (tag : Option Text) :
    Except Trap (Assets × Except Text Unit) := do
  authorized isAdmin ()
  if confirm ≠ confirmation then
    pure (s, .error
      "Please confirm your intention to delete all assets by typing in \"DELETE ALL ASSETS\"")
  else
    match tag with
    | some tag => pure (s.purgeTag tag, .ok ())
    | none => pure (s.purgeAll, .ok ())

/-- What `delete` leaves in the place of a record. -/
def tombstone (asset : Record) : Record :=
  { asset := { contentType := "", payload := [] }
    meta' := { description := "", filename := asset.meta'.filename, name := "", tags := [] } }

/-- The loop of `delete`: the first record with the name is overwritten. -/
def bury (filename : Text) : List Record → List Record
  | [] => []
  | asset :: rest =>
      if asset.meta'.filename = filename then tombstone asset :: rest
      else asset :: bury filename rest

/-- `delete`. -/
def delete (s : Assets) (isAdmin : Bool) (filename : Text) :
    Except Trap (Assets × Except Text Unit) := do
  authorized isAdmin ()
  pure ({ s with files := s.files.delete filename, assets := bury filename s.assets }, .ok ())

/-- A record with other tags. -/
def retag (asset : Record) (tags : List Text) : Record :=
  { asset := asset.asset
    meta' := {
      filename := asset.meta'.filename
      name := asset.meta'.name
      description := asset.meta'.description
      tags := tags } }

/-- The loop of `tag`. -/
def tagFiles (s : Assets) : List (Text × List Text) → Except Trap Assets
  | [] => .ok s
  | (file, tags) :: rest =>
      s.getAssetByName file >>= fun found =>
        match found with
        | some asset => s.putAsset (retag asset tags) >>= fun s => s.tagFiles rest
        | none => s.tagFiles rest

/-- `tag`. -/
def tag (s : Assets) (isAdmin : Bool) (files : List (Text × List Text)) : Except Trap Assets := do
  authorized isAdmin ()
  s.tagFiles files

/-- `configureColors`. -/
def configureColors (s : Assets) (isAdmin : Bool) (newColors : List Color) : Except Trap Assets :=
  authorized isAdmin { s with colors := newColors }

/-- `configureStockColors`. -/
def configureStockColors (s : Assets) (isAdmin : Bool) (newColors : List Color) :
    Except Trap Assets :=
  authorized isAdmin { s with stockColors := newColors }

/-! ### Sequences of calls -/

/-- A call that writes to the store; `isAdmin` tells whether its caller is an admin then. -/
inductive Call
  | upload (isAdmin : Bool) (bytes : List Blob)
  | uploadFinalize (isAdmin : Bool) (contentType : Text) (meta' : Meta)
  | uploadClear (isAdmin : Bool)
  | purge (isAdmin : Bool) (confirm : Text) (tag : Option Text)
  | delete (isAdmin : Bool) (filename : Text)
  | tag (isAdmin : Bool) (files : List (Text × List Text))
  | configureColors (isAdmin : Bool) (newColors : List Color)
  | configureStockColors (isAdmin : Bool) (newColors : List Color)
  | restore (backup : State)

/-- What a call does to the store, if it does not trap. -/
def handle (s : Assets) : Call → Except Trap Assets
  | .upload isAdmin bytes => s.upload isAdmin bytes
  | .uploadFinalize isAdmin contentType meta' =>
      (s.uploadFinalize isAdmin contentType meta').map Prod.fst
  | .uploadClear isAdmin => s.uploadClear isAdmin
  | .purge isAdmin confirm tag => (s.purge isAdmin confirm tag).map Prod.fst
  | .delete isAdmin filename => (s.delete isAdmin filename).map Prod.fst
  | .tag isAdmin files => s.tag isAdmin files
  | .configureColors isAdmin newColors => s.configureColors isAdmin newColors
  | .configureStockColors isAdmin newColors => s.configureStockColors isAdmin newColors
  | .restore backup => s.restore backup

/-- The store after a call: a call that traps is rolled back. -/
def call (s : Assets) (c : Call) : Assets :=
  match s.handle c with
  | .ok s' => s'
  | .error _ => s

theorem call_of_ok {s s' : Assets} {c : Call} (h : s.handle c = .ok s') : s.call c = s' := by
  rw [call, h]

/-- Finalizing an upload stores the buffer as a record, and empties it. -/
theorem call_uploadFinalize {s s' : Assets} {contentType : Text} {meta' : Meta}
    (h : s.putAsset ⟨⟨contentType, s.buffer⟩, meta'⟩ = .ok s') :
    s.call (.uploadFinalize true contentType meta') = { s' with buffer := [] } := by
  have hfinal : s.uploadFinalize true contentType meta' = .ok ({ s' with buffer := [] }, .ok ()) :=
    bind_eq_ok.2 ⟨(), rfl, bind_eq_ok.2 ⟨s', h, rfl⟩⟩
  exact call_of_ok (map_eq_ok.2 ⟨_, hfinal, rfl⟩)

theorem call_tag {s s' : Assets} {files : List (Text × List Text)}
    (h : s.tagFiles files = .ok s') : s.call (.tag true files) = s' := call_of_ok h

/-- A property is kept by the loop of `tag` when every file can be looked up and retagged. -/
theorem exists_tagFiles {P : Assets → Prop}
    (hstep : ∀ s, P s → ∀ f tags, ∃ found, s.getAssetByName f = .ok found ∧
      ∀ asset, found = some asset → ∃ s', s.putAsset (retag asset tags) = .ok s' ∧ P s')
    {s : Assets} (h : P s) (files : List (Text × List Text)) :
    ∃ s', s.tagFiles files = .ok s' ∧ P s' := by
  induction files generalizing s with
  | nil => exact ⟨s, rfl, h⟩
  | cons e files ih =>
      obtain ⟨f, tags⟩ := e
      obtain ⟨found, hget, hfound⟩ := hstep s h f tags
      cases found with
      | none =>
          obtain ⟨s', hs', hP⟩ := ih h
          exact ⟨s', bind_eq_ok.2 ⟨none, hget, hs'⟩, hP⟩
      | some asset =>
          obtain ⟨t, hput, ht⟩ := hfound asset rfl
          obtain ⟨s', hs', hP⟩ := ih ht
          exact ⟨s', bind_eq_ok.2 ⟨some asset, hget, bind_eq_ok.2 ⟨t, hput, hs'⟩⟩, hP⟩

/-- The store after some calls, from the empty one on. -/
def after (cs : List Call) : Assets := Sequence.after call empty cs

/-! ### The store as an indexed list -/

/-- The records with their index. -/
def indexed (s : Assets) : Indexed Text Record := ⟨s.files, s.assets⟩

/-- The store with another indexed list. -/
def withIndexed (s : Assets) (l : Indexed Text Record) : Assets :=
  { s with files := l.index, assets := l.items }

@[simp] theorem indexed_withIndexed (s : Assets) (l : Indexed Text Record) :
    (s.withIndexed l).indexed = l := rfl

theorem putAsset_eq (s : Assets) (record : Record) :
    s.putAsset record =
      (orTrap .outOfBounds (s.indexed.store Record.filename record)).map s.withIndexed := by
  cases hget : s.files.get record.meta'.filename with
  | none =>
      simp [putAsset, Indexed.store, indexed, Record.filename, hget, withIndexed, orTrap,
        Except.map]
  | some i =>
      by_cases hi : i < s.assets.length
      · simp [putAsset, Indexed.store, indexed, Record.filename, hget, hi, withIndexed, orTrap,
          Except.map]
      · simp [putAsset, Indexed.store, indexed, Record.filename, hget, hi, orTrap, Except.map]

theorem getAssetByName_eq (s : Assets) (filename : Text) :
    s.getAssetByName filename = orTrap .outOfBounds (s.indexed.find filename) := by
  cases hget : s.files.get filename with
  | none => simp [getAssetByName, Indexed.find, indexed, hget, orTrap]
  | some i =>
      cases hr : s.assets[i]? <;>
        simp [getAssetByName, Indexed.find, indexed, hget, hr, orTrap, Except.map]

/-- Reading succeeds exactly when the index gives a position of the buffer. -/
theorem getAssetByName_eq_ok {s : Assets} {filename : Text} {r : Option Record} :
    s.getAssetByName filename = .ok r ↔ s.indexed.find filename = some r := by
  rw [getAssetByName_eq, orTrap_eq_ok]

/-- A sound store writes every record. -/
theorem exists_putAsset {s : Assets} (hs : s.indexed.Sound Record.filename) (record : Record) :
    ∃ l, s.putAsset record = .ok (s.withIndexed l) ∧ l.Sound Record.filename ∧
      (s.indexed.Exact Record.filename → l.Exact Record.filename) ∧
      ∀ f, l.find f = if f = record.filename then some (some record) else s.indexed.find f := by
  obtain ⟨l, hl, hsound, hfind⟩ := hs.store record
  refine ⟨l, ?_, hsound, fun h => h.store hl, hfind⟩
  rw [putAsset_eq, hl]
  rfl

/-- The loop of `restore` stores the records one after the other. -/
theorem putAssets_eq (s : Assets) (records : List Record) :
    s.putAssets records =
      (orTrap .outOfBounds (s.indexed.storeAll Record.filename records)).map s.withIndexed := by
  induction records generalizing s with
  | nil => rfl
  | cons record records ih =>
      rw [putAssets, putAsset_eq, Indexed.storeAll]
      cases s.indexed.store Record.filename record with
      | none => rfl
      | some l =>
          change (s.withIndexed l).putAssets records = _
          rw [ih]
          rfl

end Assets

end LegendsNft
