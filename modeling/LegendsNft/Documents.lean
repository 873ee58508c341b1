/-
**The JSON documents of the manifests.**

The two manifests are written by concatenation: texts are put between quotes as they are, and the
items of a list are separated by a test whether anything has been written yet.  The separators are
right, as no item is empty, and so are the documents, on plain texts: those without quotes,
backslashes and control characters.  Any other text is not escaped, and the document is then not
that of the manifest.

Main definitions:

* `LegendsNft.Http.assetsDocument`, `LegendsNft.Http.manifestDocument` — the documents that are
  meant;
* `LegendsNft.Http.PlainRecord`, `LegendsNft.Http.PlainManifest` — the texts need no escapes;
* `LegendsNft.Http.Decodes` — the body of a response is the text of a document.

Main results:

* `LegendsNft.Http.assets_parse_iff`, `LegendsNft.Http.manifest_parses_iff` — the two writers;
* `LegendsNft.Http.documents_iff` — **the bodies that decode to their input**;
* `LegendsNft.Http.description_decoded_otherwise` — a description that is lost.
-/

import LegendsNft.Http
import LegendsNft.Json

set_option relaxedAutoImplicit false
set_option autoImplicit false

universe u

namespace LegendsNft

namespace Http

open Json (Plain Blank Reads Member Value)

/-! ### Lists -/

theorem append_ne_empty {a b : Text} (h : a ≠ "" ∨ b ≠ "") : a ++ b ≠ "" := by
  intro hempty
  rw [← String.toList_eq_nil_iff, String.toList_append, List.append_eq_nil_iff,
    String.toList_eq_nil_iff, String.toList_eq_nil_iff] at hempty
  rcases h with ha | hb
  · exact ha hempty.1
  · exact hb hempty.2

/-- What comes after a list that has been begun. -/
theorem toList_foldl {β : Type u} {first sep : Text} {item : β → Text}
    {step : Text → β → Text}
    (hstep : ∀ a b, step a b = a ++ ((if a = "" then first else "," ++ sep) ++ item b))
    (bs : List β) {a : Text} (ha : a ≠ "") : (bs.foldl step a).toList =
      a.toList ++ bs.flatMap fun b => ',' :: (sep.toList ++ (item b).toList) := by
  induction bs generalizing a with
  | nil => simp
  | cons b bs ih =>
      have hnext : step a b ≠ "" := by
        rw [hstep]
        exact append_ne_empty (.inl ha)
      rw [List.foldl_cons, ih hnext, hstep, if_neg ha]
      simp [String.toList_append]

/-- **A list that is written by testing whether anything has been written**, when no item is
empty. -/
theorem toList_listed {β : Type u} (first sep : Text) {item : β → Text} (hitem : ∀ b, item b ≠ "")
    {step : Text → β → Text}
    (hstep : ∀ a b, step a b = a ++ ((if a = "" then first else "," ++ sep) ++ item b))
    (bs : List β) : (bs.foldl step "").toList =
      Json.listed first.toList sep.toList (fun b => (item b).toList) bs := by
  cases bs with
  | nil => rfl
  | cons b bs =>
      have hfirst : step "" b ≠ "" := by
        rw [hstep]
        exact append_ne_empty (.inr (append_ne_empty (.inr (hitem b))))
      rw [List.foldl_cons, toList_foldl hstep bs hfirst, hstep, if_pos rfl]
      simp [Json.listed, String.toList_append]

/-! ### Texts -/

/-- A text between quotes. -/
def quoted (t : Text) : Text := "\"" ++ t ++ "\""

theorem toList_quoted (t : Text) : (quoted t).toList = '"' :: (t.toList ++ ['"']) := by
  simp only [quoted, String.toList_append, List.append_assoc]
  rfl

theorem quoted_ne_empty (t : Text) : quoted t ≠ "" := by
  rw [ne_eq, ← String.toList_eq_nil_iff, toList_quoted]
  simp

/-- A value after a space. -/
theorem reads_spaced {t : List Char} {v : Value} {P : Prop} (h : Reads Json.value t v P) :
    Reads Json.value (' ' :: t) v P :=
  h.blank (w := [' ']) fun n l => Json.value_append (by decide) n l

theorem reads_quoted (t : Text) :
    Reads Json.value (quoted t).toList (.string t.toList) (Plain t.toList) := by
  rw [toList_quoted]
  exact .string _

/-- A member whose value is a text after this beginning. -/
def textMember (pre key mid front t : Text) : Member where
  pre := pre.toList
  key := key.toList
  mid := mid.toList
  text := ' ' :: (quoted (front ++ t)).toList
  value := .string (front ++ t).toList
  cond := Plain t.toList

theorem textMember_good {pre key mid front : Text} (t : Text)
    (h : (Blank pre.toList ∧ Blank mid.toList) ∧ Plain key.toList ∧ Plain front.toList :=
      by decide) : (textMember pre key mid front t).Good where
  blank := h.1
  plain := h.2.1
  reads := by
    refine (reads_spaced (reads_quoted (front ++ t))).congr ?_
    rw [String.toList_append, Json.plain_append]
    exact and_iff_right h.2.2

/-! ### The asset manifest -/

/-- What the manifest says of an asset. -/
def assetDocument (r : Record) : Value :=
  .object [
    ("filename".toList, .string r.meta'.filename.toList),
    ("url".toList, .string ("/assets/" ++ r.meta'.filename).toList),
    ("description".toList, .string r.meta'.description.toList),
    ("tags".toList, .array (r.meta'.tags.map fun tag => .string tag.toList))]

/-- The document of some assets. -/
def assetsDocument (assets : List Record) : Value := .array (assets.map assetDocument)

/-- The texts of the asset that the manifest shows are plain. -/
def PlainRecord (r : Record) : Prop :=
  Plain r.meta'.filename.toList ∧ Plain r.meta'.description.toList ∧
    ∀ tag ∈ r.meta'.tags, Plain tag.toList

/-- An item of the list. -/
def assetText (b : Record) : Text :=
  "\x7b\n" ++
    "\t\t\"filename\": \"" ++ b.meta'.filename ++ "\",\n" ++
    "\t\t\"url\": \"/assets/" ++ b.meta'.filename ++ "\",\n" ++
    "\t\t\"description\": \"" ++ b.meta'.description ++ "\",\n" ++
    "\t\t\"tags\": [" ++ tagsAsJson b.meta'.tags ++ "]\n" ++
  "\t\x7d"

/-- The member with the tags. -/
def tagsMember (tags : List Text) : Member where
  pre := "\n\t\t".toList
  key := "tags".toList
  mid := []
  text := ' ' :: '[' :: ((tagsAsJson tags).toList ++ [']'])
  value := .array (tags.map fun tag => .string tag.toList)
  cond := ∀ tag ∈ tags, Plain tag.toList

theorem toList_tagsAsJson (tags : List Text) : (tagsAsJson tags).toList =
    Json.listed "".toList " ".toList (fun tag => (quoted tag).toList) tags := by
  rw [tagsAsJson]
  refine toList_listed "" " " quoted_ne_empty (fun a b => ?_) tags
  rw [show "," ++ " " = ", " by decide]
  simp only [quoted, String.append_assoc]

theorem tagsMember_good (tags : List Text) : (tagsMember tags).Good where
  blank := show Blank "\n\t\t".toList ∧ Blank [] by decide
  plain := show Plain "tags".toList by decide
  reads := by
    have hlist := Reads.listed [] "".toList " ".toList [] (by decide) tags
      (fun tag _ => reads_quoted tag) fun tag _ => ⟨'"', _, by
        rw [toList_quoted, Json.skip_cons (by decide)], by decide⟩
    rw [tagsMember, toList_tagsAsJson]
    exact reads_spaced hlist

/-- The members of an asset after the first one. -/
def assetMembers (b : Record) : List Member :=
  [textMember "\n\t\t" "url" "" "/assets/" b.meta'.filename,
    textMember "\n\t\t" "description" "" "" b.meta'.description, tagsMember b.meta'.tags]

theorem toList_assetText (b : Record) : (assetText b).toList =
    '\x7b' :: Json.written "\n\t".toList (textMember "\n\t\t" "filename" "" "" b.meta'.filename)
      (assetMembers b) := by
  unfold assetText
  simp only [assetMembers, Json.written, Member.piece, textMember, tagsMember, toList_quoted,
    String.toList_append, String.reduceToList]
  simp only [List.append_assoc, List.cons_append, List.nil_append]

theorem reads_assetText (b : Record) :
    Reads Json.value (assetText b).toList (assetDocument b) (PlainRecord b) := by
  have hgood : ∀ m ∈ textMember "\n\t\t" "filename" "" "" b.meta'.filename :: assetMembers b,
      m.Good := by
    simp only [assetMembers, List.forall_mem_cons]
    exact ⟨textMember_good _, textMember_good _,
      textMember_good _, tagsMember_good _, List.forall_mem_nil _⟩
  have hobject := Reads.written "\n\t".toList (by decide) _ _ hgood
  rw [← toList_assetText] at hobject
  refine hobject.congr ?_
  simp only [assetMembers, List.forall_mem_cons, textMember, tagsMember, PlainRecord]
  constructor
  · rintro ⟨hfilename, -, hdescription, htags, -⟩
    exact ⟨hfilename, hdescription, htags⟩
  · rintro ⟨hfilename, hdescription, htags⟩
    exact ⟨hfilename, hfilename, hdescription, htags, List.forall_mem_nil _⟩

theorem assetText_ne_empty (b : Record) : assetText b ≠ "" := by
  rw [ne_eq, ← String.toList_eq_nil_iff, toList_assetText]
  exact List.cons_ne_nil _ _

theorem toList_assetsAsJson (assets : List Record) : (assetsAsJson assets).toList =
    Json.listed "\t".toList " ".toList (fun b => (assetText b).toList) assets := by
  rw [assetsAsJson]
  refine toList_listed "\t" " " assetText_ne_empty (fun a b => ?_) assets
  rw [show "," ++ " " = ", " by decide]
  unfold assetText
  simp only [String.append_assoc]

/-- A manifest of assets that are each the text of a document. -/
theorem assets_parse_of_reads (assets : List Record) {doc : Record → Value} {P : Record → Prop}
    (h : ∀ b ∈ assets, Reads Json.value (assetText b).toList (doc b) (P b)) :
    Json.Parses ("[\n" ++ assetsAsJson assets ++ "\n]").toList (.array (assets.map doc)) ↔
      ∀ b ∈ assets, P b := by
  have hlist := Reads.listed ['\n'] "\t".toList " ".toList ['\n'] (by decide) assets h
    fun b _ => ⟨'\x7b', _, by rw [toList_assetText, Json.skip_cons (by decide)], by decide⟩
  have hparses := hlist.parses_iff (w := []) (List.forall_mem_nil _)
  rw [← toList_assetsAsJson, List.append_nil] at hparses
  have htext : ("[\n" ++ assetsAsJson assets ++ "\n]").toList =
      '[' :: (['\n'] ++ ((assetsAsJson assets).toList ++ (['\n'] ++ [']']))) := by
    simp only [String.toList_append, String.reduceToList, List.cons_append, List.nil_append]
  rw [htext]
  exact hparses

/-- **The asset manifest is the text of its document** exactly when its texts are plain. -/
theorem assets_parse_iff (assets : List Record) :
    Json.Parses ("[\n" ++ assetsAsJson assets ++ "\n]").toList (assetsDocument assets) ↔
      ∀ b ∈ assets, PlainRecord b :=
  assets_parse_of_reads assets fun b _ => reads_assetText b

/-! ### The legend manifest -/

/-- A member whose value is a number. -/
def numberMember (pre key mid t : Text) : Member where
  pre := pre.toList
  key := key.toList
  mid := mid.toList
  text := ' ' :: t.toList
  value := .number t.toList
  cond := True

theorem numberMember_good {pre key mid t : Text} (hnumber : Json.isNumber t.toList = true)
    (h : (Blank pre.toList ∧ Blank mid.toList) ∧ Plain key.toList := by decide) :
    (numberMember pre key mid t).Good where
  blank := h.1
  plain := h.2
  reads := reads_spaced (Reads.number hnumber)

/-- A member whose value is an object. -/
def objectMember (pre key mid post : Text) (m : Member) (ms : List Member) : Member where
  pre := pre.toList
  key := key.toList
  mid := mid.toList
  text := ' ' :: '\x7b' :: Json.written post.toList m ms
  value := .object ((m :: ms).map fun m => (m.key, m.value))
  cond := ∀ m' ∈ m :: ms, m'.cond

theorem objectMember_good {pre key mid post : Text} {m : Member} {ms : List Member}
    (hgood : ∀ m' ∈ m :: ms, m'.Good)
    (h : (Blank pre.toList ∧ Blank mid.toList) ∧ Plain key.toList ∧ Blank post.toList :=
      by decide) : (objectMember pre key mid post m ms).Good where
  blank := h.1
  plain := h.2.1
  reads := reads_spaced (Reads.written _ h.2.2 m ms hgood)

/-- The text of a mask that may be missing. -/
def maskText : Option Text → Text
  | some mask => quoted ("/assets/" ++ mask)
  | none => "null"

/-- What the manifest says of a mask that may be missing. -/
def maskDocument : Option Text → Value
  | some mask => .string ("/assets/" ++ mask).toList
  | none => .null

/-- The member with the mask. -/
def maskMember (mask : Option Text) : Member where
  pre := "\n\t\t".toList
  key := "mask".toList
  mid := "       ".toList
  text := ' ' :: (maskText mask).toList
  value := maskDocument mask
  cond := ∀ t ∈ mask.toList, Plain t.toList

/-- The member with the layers. -/
def layersMember (layers : List Text) : Member where
  pre := "\n\t\t".toList
  key := "layers".toList
  mid := "     ".toList
  text := ' ' :: '[' :: ('\n' :: ((layersAsJson layers).toList ++ ['\n', '\t', '\t', ']']))
  value := .array (layers.map fun layer => .string ("/assets/" ++ layer).toList)
  cond := ∀ layer ∈ layers, Plain layer.toList

/-- A file between quotes. -/
theorem reads_file (t : Text) : Reads Json.value (quoted ("/assets/" ++ t)).toList
    (.string ("/assets/" ++ t).toList) (Plain t.toList) := by
  refine (reads_quoted _).congr ?_
  rw [String.toList_append, Json.plain_append]
  exact and_iff_right (by decide)

theorem maskMember_good (mask : Option Text) : (maskMember mask).Good where
  blank := show Blank "\n\t\t".toList ∧ Blank "       ".toList by decide
  plain := show Plain "mask".toList by decide
  reads := by
    have hread : Reads Json.value (maskText mask).toList (maskDocument mask)
        (∀ t ∈ mask.toList, Plain t.toList) := by
      cases mask with
      | none => exact Reads.null.congr (by simp)
      | some t => exact (reads_file t).congr (by simp)
    exact reads_spaced hread

theorem toList_layersAsJson (layers : List Text) : (layersAsJson layers).toList =
    Json.listed "\t\t\t".toList "\n\t\t\t".toList
      (fun layer => (quoted ("/assets/" ++ layer)).toList) layers := by
  rw [layersAsJson]
  refine toList_listed "\t\t\t" "\n\t\t\t" (fun layer => quoted_ne_empty _) (fun a b => ?_) layers
  rw [show "," ++ "\n\t\t\t" = ",\n\t\t\t" by decide,
    show "\"/assets/" = "\"" ++ "/assets/" by decide]
  simp only [quoted, String.append_assoc]

theorem layersMember_good (layers : List Text) : (layersMember layers).Good where
  blank := show Blank "\n\t\t".toList ∧ Blank "     ".toList by decide
  plain := show Plain "layers".toList by decide
  reads := by
    have hlist := Reads.listed ['\n'] "\t\t\t".toList "\n\t\t\t".toList ['\n', '\t', '\t']
      (by decide) layers (fun layer _ => reads_file layer) fun layer _ => ⟨'"', _, by
        rw [toList_quoted, Json.skip_cons (by decide)], by decide⟩
    rw [layersMember, toList_layersAsJson]
    exact reads_spaced hlist

/-- The URL of a file. -/
def fileDocument (t : Text) : Value := .string ("/assets/" ++ t).toList

/-- The document of a legend manifest; the file of the normal map stands twice in it. -/
def manifestDocument (H : Host) (m : LegendManifest) : Value :=
  .object [
    ("back".toList, .string m.back.toList),
    ("border".toList, .string m.border.toList),
    ("ink".toList, .string m.ink.toList),
    ("mask".toList, .string m.mask.toList),
    ("stock".toList, .string m.stock.toList),
    ("nri".toList, .object [
      ("back".toList, .number (H.floatText m.nri.back).toList),
      ("border".toList, .number (H.floatText m.nri.border).toList),
      ("ink".toList, .number (H.floatText m.nri.ink).toList),
      ("avg".toList, .number (H.floatText m.nri.avg).toList)]),
    ("maps".toList, .object [
      ("normal".toList, fileDocument m.maps.normal),
      ("back".toList, fileDocument m.maps.back),
      ("border".toList, fileDocument m.maps.border),
      ("mask".toList, maskDocument m.maps.mask),
      ("normal".toList, fileDocument m.maps.normal),
      ("layers".toList, .array (m.maps.layers.map fileDocument))]),
    ("colors".toList, .object [
      ("base".toList, .string m.colors.base.toList),
      ("specular".toList, .string m.colors.specular.toList),
      ("emissive".toList, .string m.colors.emissive.toList),
      ("background".toList, .string m.colors.background.toList)]),
    ("stock".toList, .object [
      ("base".toList, .string m.stockColors.base.toList),
      ("specular".toList, .string m.stockColors.specular.toList),
      ("emissive".toList, .string m.stockColors.emissive.toList)]),
    ("views".toList, .object [
      ("flat".toList, .string m.views.flat.toList),
      ("sideBySide".toList, .string m.views.sideBySide.toList),
      ("animated".toList, .string m.views.animated.toList),
      ("interactive".toList, .string m.views.interactive.toList)])]

/-- The texts of a manifest. -/
def manifestTexts (m : LegendManifest) : List Text :=
  [m.back, m.border, m.ink, m.mask, m.stock, m.maps.normal, m.maps.back, m.maps.border] ++
    m.maps.mask.toList ++ m.maps.layers ++
    [m.colors.base, m.colors.specular, m.colors.emissive, m.colors.background,
      m.stockColors.base, m.stockColors.specular, m.stockColors.emissive,
      m.views.flat, m.views.sideBySide, m.views.animated, m.views.interactive]

/-- The texts of the manifest are plain. -/
def PlainManifest (m : LegendManifest) : Prop := ∀ t ∈ manifestTexts m, Plain t.toList

section

variable (H : Host) (m : LegendManifest)

/-- The traits. -/
def traitsText : Text :=
  "\t\"back\"     : \"" ++ m.back ++ "\",\n" ++
  "\t\"border\"   : \"" ++ m.border ++ "\",\n" ++
  "\t\"ink\"      : \"" ++ m.ink ++ "\",\n" ++
  "\t\"mask\"     : \"" ++ m.mask ++ "\",\n" ++
  "\t\"stock\"    : \"" ++ m.stock ++ "\",\n"

/-- The rarities. -/
def nriText : Text :=
  "\t\"nri\"      : \x7b\n" ++
    "\t\t\"back\"       : " ++ H.floatText m.nri.back ++ ",\n" ++
    "\t\t\"border\"     : " ++ H.floatText m.nri.border ++ ",\n" ++
    "\t\t\"ink\"        : " ++ H.floatText m.nri.ink ++ ",\n" ++
    "\t\t\"avg\"        : " ++ H.floatText m.nri.avg ++ "\n" ++
  "\t\x7d,\n"

def nriMember : Member :=
  objectMember "\n\t" "nri" "      " "\n\t"
    (numberMember "\n\t\t" "back" "       " (H.floatText m.nri.back))
    [numberMember "\n\t\t" "border" "     " (H.floatText m.nri.border),
      numberMember "\n\t\t" "ink" "        " (H.floatText m.nri.ink),
      numberMember "\n\t\t" "avg" "        " (H.floatText m.nri.avg)]

/-- The files. -/
def mapsText : Text :=
  "\t\"maps\"     : \x7b\n" ++
    "\t\t\"normal\"     : \"/assets/" ++ m.maps.normal ++ "\",\n" ++
    "\t\t\"back\"       : \"/assets/" ++ m.maps.back ++ "\",\n" ++
    "\t\t\"border\"     : \"/assets/" ++ m.maps.border ++ "\",\n" ++
    "\t\t\"mask\"       : " ++ maskText m.maps.mask ++ ",\n" ++
    "\t\t\"normal\"     : \"/assets/" ++ m.maps.normal ++ "\",\n" ++
    "\t\t\"layers\"     : [\n" ++
      layersAsJson m.maps.layers ++ "\n" ++
    "\t\t]\n" ++
  "\t\x7d,\n"

def mapsMember : Member :=
  objectMember "\n\t" "maps" "     " "\n\t"
    (textMember "\n\t\t" "normal" "     " "/assets/" m.maps.normal)
    [textMember "\n\t\t" "back" "       " "/assets/" m.maps.back,
      textMember "\n\t\t" "border" "     " "/assets/" m.maps.border,
      maskMember m.maps.mask,
      textMember "\n\t\t" "normal" "     " "/assets/" m.maps.normal,
      layersMember m.maps.layers]

/-- The colors. -/
def colorsText : Text :=
  "\t\"colors\": \x7b\n" ++
    "\t\t\"base\"       : \"" ++ m.colors.base ++ "\",\n" ++
    "\t\t\"specular\"   : \"" ++ m.colors.specular ++ "\",\n" ++
    "\t\t\"emissive\"   : \"" ++ m.colors.emissive ++ "\",\n" ++
    "\t\t\"background\" : \"" ++ m.colors.background ++ "\"\n" ++
  "\t\x7d,\n"

def colorsMember : Member :=
  objectMember "\n\t" "colors" "" "\n\t"
    (textMember "\n\t\t" "base" "       " "" m.colors.base)
    [textMember "\n\t\t" "specular" "   " "" m.colors.specular,
      textMember "\n\t\t" "emissive" "   " "" m.colors.emissive,
      textMember "\n\t\t" "background" " " "" m.colors.background]

/-- The stock colors. -/
def stockText : Text :=
  "\t\"stock\": \x7b\n" ++
    "\t\t\"base\"       : \"" ++ m.stockColors.base ++ "\",\n" ++
    "\t\t\"specular\"   : \"" ++ m.stockColors.specular ++ "\",\n" ++
    "\t\t\"emissive\"   : \"" ++ m.stockColors.emissive ++ "\"\n" ++
  "\t\x7d,\n"

def stockMember : Member :=
  objectMember "\n\t" "stock" "" "\n\t"
    (textMember "\n\t\t" "base" "       " "" m.stockColors.base)
    [textMember "\n\t\t" "specular" "   " "" m.stockColors.specular,
      textMember "\n\t\t" "emissive" "   " "" m.stockColors.emissive]

/-- The views, and the end of the document. -/
def viewsText : Text :=
  "\t\"views\": \x7b\n" ++
    "\t\t\"flat\"       : \"" ++ m.views.flat ++ "\",\n" ++
    "\t\t\"sideBySide\" : \"" ++ m.views.sideBySide ++ "\",\n" ++
    "\t\t\"animated\"   : \"" ++ m.views.animated ++ "\",\n" ++
    "\t\t\"interactive\": \"" ++ m.views.interactive ++ "\"\n" ++
  "\t\x7d\n" ++
  "\n\x7d"

def viewsMember : Member :=
  objectMember "\n\t" "views" "" "\n\t"
    (textMember "\n\t\t" "flat" "       " "" m.views.flat)
    [textMember "\n\t\t" "sideBySide" " " "" m.views.sideBySide,
      textMember "\n\t\t" "animated" "   " "" m.views.animated,
      textMember "\n\t\t" "interactive" "" "" m.views.interactive]

/-- The manifest is made of these parts. -/
theorem manifestAsJson_eq : manifestAsJson H m = "\x7b\n" ++ traitsText m ++ nriText H m ++
    mapsText m ++ colorsText m ++ stockText m ++ viewsText m := by
  have hnone (front : Text) : front ++ maskText none ++ ",\n" = front ++ "null,\n" := by
    rw [String.append_assoc]
    rfl
  have hsome (front mask : Text) : front ++ maskText (some mask) ++ ",\n" =
      front ++ "\"/assets/" ++ mask ++ "\",\n" := by
    rw [maskText, quoted, show "\"/assets/" = "\"" ++ "/assets/" by decide,
      show "\",\n" = "\"" ++ ",\n" by decide]
    simp only [String.append_assoc]
  unfold manifestAsJson traitsText nriText mapsText colorsText stockText viewsText
  cases m.maps.mask with
  | none => simp only [← String.append_assoc, hnone]
  | some mask => simp only [← String.append_assoc, hsome]

/-! Each part but the last one is written as members and a comma. -/

theorem traits_written (rest : List Char) : '\n' :: ((traitsText m).toList ++ rest) =
    (textMember "\n\t" "back" "     " "" m.back).piece ++ ',' ::
      ((textMember "\n\t" "border" "   " "" m.border).piece ++ ',' ::
        ((textMember "\n\t" "ink" "      " "" m.ink).piece ++ ',' ::
          ((textMember "\n\t" "mask" "     " "" m.mask).piece ++ ',' ::
            ((textMember "\n\t" "stock" "    " "" m.stock).piece ++ ',' :: '\n' :: rest)))) := by
  unfold traitsText
  simp only [Member.piece, textMember, toList_quoted, String.toList_append, String.reduceToList]
  simp only [List.append_assoc, List.cons_append, List.nil_append]

theorem nri_written (rest : List Char) : '\n' :: ((nriText H m).toList ++ rest) =
    (nriMember H m).piece ++ ',' :: '\n' :: rest := by
  unfold nriText nriMember
  simp only [objectMember, numberMember, Json.written, Member.piece, String.toList_append,
    String.reduceToList]
  simp only [List.append_assoc, List.cons_append, List.nil_append]

set_option maxRecDepth 1000 in
theorem maps_written (rest : List Char) : '\n' :: ((mapsText m).toList ++ rest) =
    (mapsMember m).piece ++ ',' :: '\n' :: rest := by
  unfold mapsText mapsMember
  simp only [objectMember, maskMember, layersMember, textMember, Json.written, Member.piece,
    toList_quoted, String.toList_append, String.reduceToList]
  simp only [List.append_assoc, List.cons_append, List.nil_append]

theorem colors_written (rest : List Char) : '\n' :: ((colorsText m).toList ++ rest) =
    (colorsMember m).piece ++ ',' :: '\n' :: rest := by
  unfold colorsText colorsMember
  simp only [objectMember, textMember, Json.written, Member.piece, toList_quoted,
    String.toList_append, String.reduceToList]
  simp only [List.append_assoc, List.cons_append, List.nil_append]

theorem stock_written (rest : List Char) : '\n' :: ((stockText m).toList ++ rest) =
    (stockMember m).piece ++ ',' :: '\n' :: rest := by
  unfold stockText stockMember
  simp only [objectMember, textMember, Json.written, Member.piece, toList_quoted,
    String.toList_append, String.reduceToList]
  simp only [List.append_assoc, List.cons_append, List.nil_append]

theorem views_written : '\n' :: (viewsText m).toList =
    (viewsMember m).piece ++ ("\n\n".toList ++ ['\x7d']) := by
  unfold viewsText viewsMember
  simp only [objectMember, textMember, Json.written, Member.piece, toList_quoted,
    String.toList_append, String.reduceToList]
  simp only [List.append_assoc, List.cons_append, List.nil_append]

/-- The members of a manifest after the first one. -/
def manifestMembers : List Member :=
  [textMember "\n\t" "border" "   " "" m.border, textMember "\n\t" "ink" "      " "" m.ink,
    textMember "\n\t" "mask" "     " "" m.mask, textMember "\n\t" "stock" "    " "" m.stock,
    nriMember H m, mapsMember m, colorsMember m, stockMember m, viewsMember m]

theorem toList_manifestAsJson : (manifestAsJson H m).toList =
    '\x7b' :: Json.written "\n\n".toList (textMember "\n\t" "back" "     " "" m.back)
      (manifestMembers H m) := by
  have hopen (rest : List Char) : "\x7b\n".toList ++ rest = '\x7b' :: '\n' :: rest := by
    simp only [String.reduceToList, List.cons_append, List.nil_append]
  rw [manifestAsJson_eq]
  simp only [String.toList_append, List.append_assoc]
  rw [hopen, traits_written, nri_written, maps_written, colors_written, stock_written,
    views_written]
  simp only [manifestMembers, Json.written]

theorem manifest_good
    (hnri : ∀ x ∈ [m.nri.back, m.nri.border, m.nri.ink, m.nri.avg],
      Json.isNumber (H.floatText x).toList = true) :
    ∀ m' ∈ textMember "\n\t" "back" "     " "" m.back :: manifestMembers H m, m'.Good := by
  have hnumbers : (nriMember H m).Good := by
    simp only [List.forall_mem_cons] at hnri
    obtain ⟨hback, hborder, hink, havg, -⟩ := hnri
    refine objectMember_good ?_
    simp only [List.forall_mem_cons]
    exact ⟨numberMember_good hback, numberMember_good hborder,
      numberMember_good hink, numberMember_good havg,
      List.forall_mem_nil _⟩
  have hmaps : (mapsMember m).Good := by
    refine objectMember_good ?_
    simp only [List.forall_mem_cons]
    exact ⟨textMember_good _, textMember_good _,
      textMember_good _, maskMember_good _, textMember_good _,
      layersMember_good _, List.forall_mem_nil _⟩
  have hcolors : (colorsMember m).Good := by
    refine objectMember_good ?_
    simp only [List.forall_mem_cons]
    exact ⟨textMember_good _, textMember_good _,
      textMember_good _, textMember_good _, List.forall_mem_nil _⟩
  have hstock : (stockMember m).Good := by
    refine objectMember_good ?_
    simp only [List.forall_mem_cons]
    exact ⟨textMember_good _, textMember_good _,
      textMember_good _, List.forall_mem_nil _⟩
  have hviews : (viewsMember m).Good := by
    refine objectMember_good ?_
    simp only [List.forall_mem_cons]
    exact ⟨textMember_good _, textMember_good _,
      textMember_good _, textMember_good _, List.forall_mem_nil _⟩
  simp only [manifestMembers, List.forall_mem_cons]
  exact ⟨textMember_good _, textMember_good _,
    textMember_good _, textMember_good _, textMember_good _,
    hnumbers, hmaps, hcolors, hstock, hviews, List.forall_mem_nil _⟩

theorem manifest_cond :
    (∀ m' ∈ textMember "\n\t" "back" "     " "" m.back :: manifestMembers H m, m'.cond) ↔
      PlainManifest m := by
  simp only [manifestMembers, nriMember, mapsMember, colorsMember, stockMember, viewsMember,
    objectMember, numberMember, textMember, maskMember, layersMember, PlainManifest, manifestTexts,
    List.forall_mem_cons, List.forall_mem_append, List.not_mem_nil, IsEmpty.forall_iff,
    implies_true, and_true, true_and]
  constructor
  · rintro ⟨hback, hborder, hink, hmask, hstock, ⟨hnormal, hmback, hmborder, hmmask, -, hlayers⟩,
      hcolors, hstocks, hviews⟩
    exact ⟨⟨⟨⟨hback, hborder, hink, hmask, hstock, hnormal, hmback, hmborder⟩, hmmask⟩,
      hlayers⟩, hcolors.1, hcolors.2.1, hcolors.2.2.1, hcolors.2.2.2, hstocks.1, hstocks.2.1,
      hstocks.2.2, hviews⟩
  · rintro ⟨⟨⟨⟨hback, hborder, hink, hmask, hstock, hnormal, hmback, hmborder⟩, hmmask⟩,
      hlayers⟩, hbase, hspecular, hemissive, hground, hsbase, hsspecular, hsemissive, hviews⟩
    exact ⟨hback, hborder, hink, hmask, hstock,
      ⟨hnormal, hmback, hmborder, hmmask, hnormal, hlayers⟩,
      ⟨hbase, hspecular, hemissive, hground⟩, ⟨hsbase, hsspecular, hsemissive⟩, hviews⟩

/-- **A legend manifest is the text of its document** exactly when its texts are plain. -/
theorem manifest_parses_iff
    (hnri : ∀ x ∈ [m.nri.back, m.nri.border, m.nri.ink, m.nri.avg],
      Json.isNumber (H.floatText x).toList = true) :
    Json.Parses (manifestAsJson H m).toList (manifestDocument H m) ↔ PlainManifest m := by
  have hobject := Reads.written "\n\n".toList (by decide) _ _ (manifest_good H m hnri)
  rw [← toList_manifestAsJson] at hobject
  have hparses := hobject.parses_iff (w := []) (List.forall_mem_nil _)
  rw [List.append_nil, manifest_cond] at hparses
  exact hparses

end

/-! ### The bodies -/

theorem decodeUtf8_encodeUtf8 (t : Text) : decodeUtf8 (encodeUtf8 t) = some t := by
  have hbytes : (⟨(encodeUtf8 t).toArray⟩ : ByteArray) = t.toUTF8 := by
    simp [encodeUtf8]
  rw [decodeUtf8, hbytes, String.fromUTF8?]
  exact dif_pos t.isValidUTF8

/-- The body of the response is the text of this document. -/
def Decodes (r : Response) (v : Value) : Prop :=
  ∃ t, decodeUtf8 r.body = some t ∧ Json.Parses t.toList v

theorem decodes_iff {r : Response} {t : Text} (h : r.body = encodeUtf8 t) (v : Value) :
    Decodes r v ↔ Json.Parses t.toList v := by
  rw [Decodes, h, decodeUtf8_encodeUtf8]
  constructor
  · rintro ⟨t', ht, hparses⟩
    rw [Option.some.inj ht]
    exact hparses
  · intro hparses
    exact ⟨t, rfl, hparses⟩

/-- A body is the text of one document only. -/
theorem Decodes.unique {r : Response} {v v' : Value} (h : Decodes r v) (h' : Decodes r v') :
    v = v' := by
  obtain ⟨t, ht, hparses⟩ := h
  obtain ⟨t', ht', hparses'⟩ := h'
  rw [ht] at ht'
  rw [← Option.some.inj ht'] at hparses'
  exact hparses.unique hparses'

/-- A member of an object. -/
def field (key : Text) : Value → Option Value
  | .object ms => ms.lookup key.toList
  | _ => none

/-- The `maps.layers` of a document. -/
def layersOf (v : Value) : Option Value := (field "maps" v).bind (field "layers")

theorem layersOf_manifestDocument (H : Host) (m : LegendManifest) :
    layersOf (manifestDocument H m) = some (.array (m.maps.layers.map fileDocument)) := by
  simp [layersOf, field, manifestDocument, List.lookup_cons]

/-- **The bodies that decode to their input** are those of plain texts: both manifests, and the
layers of a legend. -/
theorem documents_iff (s : Site) (path : Option Text) (H : Host) (m : LegendManifest)
    (hnri : ∀ x ∈ [m.nri.back, m.nri.border, m.nri.ink, m.nri.avg],
      Json.isNumber (H.floatText x).toList = true) :
    (∃ r, httpAssetManifest s path = .ok r ∧
      (Decodes r (assetsDocument s.assets.assets) ↔ ∀ b ∈ s.assets.assets, PlainRecord b)) ∧
    (Decodes (manifestResponse H (.ok m)) (manifestDocument H m) ↔ PlainManifest m) ∧
    (PlainManifest m → ∃ v, Decodes (manifestResponse H (.ok m)) v ∧
      layersOf v = some (.array (m.maps.layers.map fileDocument))) := by
  have hassets : ∃ r, httpAssetManifest s path = .ok r ∧
      (Decodes r (assetsDocument s.assets.assets) ↔ ∀ b ∈ s.assets.assets, PlainRecord b) := by
    refine ⟨_, rfl, ?_⟩
    rw [decodes_iff rfl]
    exact assets_parse_iff _
  have hmanifest : Decodes (manifestResponse H (.ok m)) (manifestDocument H m) ↔
      PlainManifest m := by
    rw [decodes_iff rfl]
    exact manifest_parses_iff H m hnri
  exact ⟨hassets, hmanifest, fun hm => ⟨_, hmanifest.2 hm, layersOf_manifestDocument H m⟩⟩

/-! ### Sample manifests -/

/-- A manifest with this layer. -/
def manifestWithLayer (layer : Text) : LegendManifest where
  back := "a"
  border := "a"
  ink := "a"
  mask := "a"
  stock := "a"
  nri := ⟨0, 0, 0, 0⟩
  maps := ⟨"n", [layer], "b", "c", none⟩
  colors := ⟨"", "", "", ""⟩
  stockColors := ⟨"", "", ""⟩
  views := ⟨"f", "s", "v", "i"⟩

theorem documents_iff_sample : ∃ v,
    Decodes (manifestResponse .sample (.ok (manifestWithLayer "l"))) v ∧
      layersOf v = some (.array [.string "/assets/l".toList]) := by
  have hnumber : Json.isNumber "0".toList = true := by decide
  refine (documents_iff (.sample none []) none .sample (manifestWithLayer "l")
    fun _ _ => hnumber).2.2 ?_
  unfold PlainManifest
  decide

/-- An asset with this description. -/
def describedAsset (description : Text) : Record := ⟨⟨"", []⟩, ⟨[], "a", "a", description⟩⟩

/-- The site has this asset only. -/
def Site.described (description : Text) : Site where
  assets := ((Assets.empty.putAsset (describedAsset description)).toOption).getD Assets.empty
  tokens := (Site.sample none []).tokens
  entrepot := (Site.sample none []).entrepot
  supply := 1
  nri := []

/-- A backslash and a letter, as they are read. -/
def lostMember : Member where
  pre := "\n\t\t".toList
  key := "description".toList
  mid := []
  text := ' ' :: (quoted "\\n").toList
  value := .string "\n".toList
  cond := True

theorem lostMember_good : lostMember.Good where
  blank := show Blank "\n\t\t".toList ∧ Blank [] by decide
  plain := show Plain "description".toList by decide
  reads := by
    have hread : Reads Json.value (quoted "\\n").toList (.string "\n".toList) True := by
      rw [toList_quoted]
      refine .of_eq fun n rest _ => ?_
      rw [Json.value]
      rfl
    exact reads_spaced hread

/-- The description of a backslash and a letter is read as a line break. -/
theorem lost_parses : Json.Parses ("[\n" ++ assetsAsJson [describedAsset "\\n"] ++ "\n]").toList
    (assetsDocument [describedAsset "\n"]) := by
  have hgood : ∀ m ∈ [textMember "\n\t\t" "filename" "" "" "a",
      textMember "\n\t\t" "url" "" "/assets/" "a", lostMember, tagsMember []], m.Good := by
    simp only [List.forall_mem_cons]
    exact ⟨textMember_good _, textMember_good _, lostMember_good,
      tagsMember_good _, List.forall_mem_nil _⟩
  have hobject := Reads.written "\n\t".toList (by decide) _ _ hgood
  have htext : (assetText (describedAsset "\\n")).toList =
      '\x7b' :: Json.written "\n\t".toList (textMember "\n\t\t" "filename" "" "" "a")
        [textMember "\n\t\t" "url" "" "/assets/" "a", lostMember, tagsMember []] :=
    toList_assetText _
  rw [← htext] at hobject
  have hread : ∀ b ∈ [describedAsset "\\n"], Reads Json.value (assetText b).toList
      (assetDocument (describedAsset "\n")) True := by
    simp only [List.forall_mem_cons]
    refine ⟨hobject.congr ?_, List.forall_mem_nil _⟩
    simp only [List.forall_mem_cons, textMember, tagsMember, lostMember]
    exact iff_of_true ⟨by decide, by decide, trivial, List.forall_mem_nil _,
      List.forall_mem_nil _⟩ trivial
  exact (assets_parse_of_reads _ hread).2 fun _ _ => trivial

/-- **A description that is lost**: the body is that of another asset, whose description is a line
break, and not that of its own. -/
theorem description_decoded_otherwise : ∃ r,
    httpAssetManifest (.described "\\n") none = .ok r ∧
      (∀ v, Decodes r v ↔ v = assetsDocument [describedAsset "\n"]) ∧
      ¬ Decodes r (assetsDocument (Site.described "\\n").assets.assets) := by
  obtain ⟨r, hr, hbody⟩ : ∃ r, httpAssetManifest (.described "\\n") none = .ok r ∧
      r.body = encodeUtf8 ("[\n" ++ assetsAsJson [describedAsset "\\n"] ++ "\n]") := ⟨_, rfl, rfl⟩
  refine ⟨r, hr, fun v => ?_, fun h => ?_⟩
  · have hlost := (decodes_iff hbody _).2 lost_parses
    constructor
    · exact fun hv => hv.unique hlost
    · rintro rfl
      exact hlost
  · rw [decodes_iff hbody] at h
    have hplain := (assets_parse_iff _).1 h (describedAsset "\\n") (List.mem_cons_self ..)
    exact absurd hplain.2.1 (by decide)

end Http

end LegendsNft
