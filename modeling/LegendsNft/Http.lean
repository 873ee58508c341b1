/-
**The HTTP interface** (`Http/lib.mo`).

`request` dispatches on the URL: on the query keywords of the wallets first, then on the segments of
the path.  The handlers of the legends look an index up in the ledger, serve the blank asset if it
is not minted, and search the assets by tags made of the metadata otherwise.  A read past the end of
an array traps.  Of a request only the URL is read; `streaming_strategy` is always null in a
response and is left out.

Main definitions:

* `LegendsNft.Http.Host`, `LegendsNft.Http.Site` — what the handler is linked against and what it
  reads;
* `LegendsNft.Http.renderManifest`, `LegendsNft.Http.manifestAsJson`,
  `LegendsNft.Http.assetsAsJson` — the manifests;
* `LegendsNft.Http.request` — **the router**.
-/

import LegendsNft.Assets
import LegendsNft.Entrepot
import LegendsNft.Numerals
import LegendsNft.Splitting
import LegendsNft.Stoic

set_option relaxedAutoImplicit false
set_option autoImplicit false

namespace LegendsNft

namespace Http

/-! ### Responses, texts and what the handler reads -/

/-- `Types.Response`. -/
structure Response where
  body : Blob
  headers : List (Text × Text)
  status_code : UInt16
  deriving DecidableEq, Repr

/-- The lower-case letters begin with `a`. -/
theorem le_val_of_isLower {c : Char} (h : c.isLower = true) : 'a'.val ≤ c.val := by
  have hrange : (decide (c.val ≥ 'a'.val) && decide (c.val ≤ 'z'.val)) = true := h
  exact of_decide_eq_true (Bool.and_eq_true_iff.1 hrange).1

/-- What the handler is linked against. -/
structure Host where
  /-- The canister's own principal. -/
  cid : Principal
  /-- `Principal.fromText`, which traps at a text that is not that of a principal. -/
  fromText : Text → Option Principal
  /-- A principal has at most 29 bytes. -/
  length_fromText : ∀ t p, fromText t = some p → p.bytes.length ≤ 29
  /-- `Ext.TokenIdentifier.encode`. -/
  encode : Principal → TokenIndex → TokenIdentifier
  /-- `AccountBlob.toText` of `AccountBlob.fromPrincipal`. -/
  accountText : Principal → Option SubAccount → AccountIdentifier
  /-- `Prim.charToLower`. -/
  charToLower : Char → Char
  /-- A lower-case letter is its own lower case. -/
  charToLower_of_isLower : ∀ c : Char, c.isLower → charToLower c = c
  /-- `Float.toText`. -/
  floatText : Float → Text
  /-- `Cycles.balance`. -/
  balance : ℕ

/-- What the handler reads: the other modules, the supply, and the table of rarities. -/
structure Site where
  assets : Assets
  tokens : Tokens
  entrepot : Entrepot
  supply : UInt16
  nri : List (Text × Float)

/-- `Text.encodeUtf8`. -/
def encodeUtf8 (t : Text) : Blob := t.toUTF8.data.toList

/-- `Text.decodeUtf8`. -/
def decodeUtf8 (b : Blob) : Option Text := String.fromUTF8? ⟨b.toArray⟩

/-- `Text.contains(t, #text(p))`. -/
def contains (t p : Text) : Bool := Splitting.contains p.toList t.toList

/-- `Text.tokens(t, #text(p))`. -/
def tokens (t p : Text) : List Text := (Splitting.tokens p.toList t.toList).map String.ofList

/-- `http404`. -/
def http404 (msg : Option Text) : Response :=
  { body := encodeUtf8 (msg.getD "Not found.")
    headers := [("Content-Type", "text/plain")]
    status_code := 404 }

variable (H : Host) (s : Site)

/-- `Text.map(·, Prim.charToLower)`. -/
def lower (t : Text) : Text := String.ofList (t.toList.map H.charToLower)

/-! ### Renderers -/

/-- `renderAsset`. -/
def renderAsset (asset : Record) : Response :=
  { body := Assets.flattenPayload asset.asset.payload
    headers := [
      ("Content-Type", asset.asset.contentType),
      ("Access-Control-Allow-Origin", "*"),
      ("legends-filename", asset.meta'.filename)]
    status_code := 200 }

/-- `renderAssetWithTags`. -/
def renderAssetWithTags (tags : List Text) : Response :=
  match s.assets.findTags tags with
  | some asset => renderAsset asset
  | none => http404 (some "Missing preview asset.")

/-- The tags a preview of this kind is searched by. -/
def previewTags (kind : Text) (legend : Metadata) : List Text :=
  ["preview", kind, "back-" ++ legend.back, "border-" ++ legend.border, "ink-" ++ legend.ink,
    "mask-" ++ legend.mask, "stock-" ++ legend.stock]

/-- `_Tokens._getMetadata`. -/
def getMetadata (index : ℕ) : Except Trap Metadata :=
  orTrap .outOfBounds s.tokens.metadata[index]?

/-- `mintedOr404`. -/
def mintedOr404 (index : ℕ) : Except Trap (Option Response) :=
  match s.tokens.getOwner index with
  | .error e => .error e
  | .ok (some _) => .ok none
  | .ok none => .ok (some (renderAssetWithTags s ["blank"]))

/-- `renderLegendPreview`. -/
def renderLegendPreview (index : ℕ) : Except Trap Response := do
  match ← mintedOr404 s index with
  | some err => pure err
  | none =>
      match s.assets.findTag "preview-app" with
      | none => pure (http404 (some "Missing preview app."))
      | some a =>
          let app := (decodeUtf8 (Assets.flattenPayload a.asset.payload)).getD ""
          pure {
            body := encodeUtf8 ("<!doctype html>" ++ "<html>" ++ app ++
              "<script>window.legendIndex = " ++ toString index ++ "</script>" ++ "</html>")
            headers := [("Content-Type", "text/html"), ("Cache-Control", "max-age=31536000")]
            status_code := 200 }

/-! ### Manifests -/

/-- The rarities of a `LegendManifest`. -/
structure ManifestNri where
  back : Float
  border : Float
  ink : Float
  avg : Float

/-- The files of a `LegendManifest`. -/
structure ManifestMaps where
  normal : Text
  layers : List Text
  back : Text
  border : Text
  mask : Option Text
  deriving DecidableEq, Repr

/-- The colors of a `LegendManifest`. -/
structure ManifestColors where
  base : Text
  specular : Text
  emissive : Text
  background : Text
  deriving DecidableEq, Repr

/-- The stock colors of a `LegendManifest`. -/
structure ManifestStock where
  base : Text
  specular : Text
  emissive : Text
  deriving DecidableEq, Repr

/-- The views of a `LegendManifest`. -/
structure ManifestViews where
  flat : Text
  sideBySide : Text
  animated : Text
  interactive : Text
  deriving DecidableEq, Repr

/-- `AssetTypes.LegendManifest`. -/
structure LegendManifest where
  back : Text
  border : Text
  ink : Text
  mask : Text
  stock : Text
  nri : ManifestNri
  maps : ManifestMaps
  colors : ManifestColors
  stockColors : ManifestStock
  views : ManifestViews

/-- The rarity of a trait, zero if the table does not have it. -/
def findNri (trait : Text) : Float :=
  match s.nri.find? fun e => e.1 == trait with
  | some (_, i) => i
  | none => 0.0

/-- An asset that a manifest cannot do without. -/
def required (tags : List Text) (message : Text) : Except Text Record :=
  match s.assets.findTags tags with
  | some a => .ok a
  | none => .error message

/-- The color of a name, the last one in the list, or black. -/
def inkColors (ink : Text) : ManifestColors :=
  s.assets.getColors.foldl
    (fun map color =>
      if color.name = ink then
        ⟨color.base, color.specular, color.emissive, color.background⟩
      else map)
    ⟨"#000000", "#000000", "#000000", "#000000"⟩

/-- The stock color of a name, the last one in the list, or black. -/
def stockColors (stock : Text) : ManifestStock :=
  s.assets.getStockColors.foldl
    (fun map color =>
      if color.name = stock then ⟨color.base, color.specular, color.emissive⟩ else map)
    ⟨"#000000", "#000000", "#000000"⟩

/-- The manifest of a legend with this token identifier. -/
def legendManifest (tokenId : TokenIdentifier) (legend : Metadata) :
    Except Text LegendManifest := do
  let nriBack := findNri s ("back-" ++ legend.back)
  let nriBorder := findNri s ("border-" ++ legend.border)
  let nriInk := findNri s ("ink-" ++ legend.ink)
  let normal ← required s ["normal", legend.normal] ("Missing normal asset: " ++ legend.normal)
  let layers := (s.assets.findAllTag "layer").map Record.filename
  let back ← required s ["back", legend.back] ("Missing back asset: " ++ legend.back)
  let border ← required s ["border", legend.border] ("Missing border asset: " ++ legend.border)
  let mask := (s.assets.findTags ["mask", legend.mask]).map Record.filename
  let _ ← required s ["preview", "flat"] "Missing flat asset."
  let _ ← required s ["preview", "side-by-side", "back-" ++ legend.back,
    "border-" ++ legend.border, "ink-" ++ legend.ink] "Missing static preview asset."
  let _ ← required s ["preview", "animated"] "Missing animated preview asset."
  pure {
    back := legend.back
    border := legend.border
    ink := legend.ink
    mask := legend.mask
    stock := legend.stock
    nri := ⟨nriBack, nriBorder, nriInk, (nriBack + nriBorder + nriInk) / 3⟩
    maps := ⟨normal.filename, layers, back.filename, border.filename, mask⟩
    colors := inkColors s legend.ink
    stockColors := stockColors s legend.stock
    views := {
      flat := "?type=card-art&tokenid=" ++ tokenId
      sideBySide := "?type=thumbnail&tokenid=" ++ tokenId
      animated := "?type=animated&tokenid=" ++ tokenId
      interactive := "?tokenid=" ++ tokenId } }

/-- `renderManifest`. -/
def renderManifest (index : ℕ) : Except Trap (Except Text LegendManifest) := do
  let i ← nat32 index
  let legend ← getMetadata s index
  pure (legendManifest s (H.encode H.cid i) legend)

/-- The list of layers of `manifestAsJson`. -/
def layersAsJson (layers : List Text) : Text :=
  layers.foldl
    (fun a b =>
      let comma := if a = "" then "\t\t\t" else ",\n\t\t\t"
      a ++ comma ++ "\"/assets/" ++ b ++ "\"")
    ""

/-- `manifestAsJson`. -/
def manifestAsJson (manifest : LegendManifest) : Text :=
  "\x7b\n" ++
    "\t\"back\"     : \"" ++ manifest.back ++ "\",\n" ++
    "\t\"border\"   : \"" ++ manifest.border ++ "\",\n" ++
    "\t\"ink\"      : \"" ++ manifest.ink ++ "\",\n" ++
    "\t\"mask\"     : \"" ++ manifest.mask ++ "\",\n" ++
    "\t\"stock\"    : \"" ++ manifest.stock ++ "\",\n" ++
    "\t\"nri\"      : \x7b\n" ++
      "\t\t\"back\"       : " ++ H.floatText manifest.nri.back ++ ",\n" ++
      "\t\t\"border\"     : " ++ H.floatText manifest.nri.border ++ ",\n" ++
      "\t\t\"ink\"        : " ++ H.floatText manifest.nri.ink ++ ",\n" ++
      "\t\t\"avg\"        : " ++ H.floatText manifest.nri.avg ++ "\n" ++
    "\t\x7d,\n" ++
    "\t\"maps\"     : \x7b\n" ++
      "\t\t\"normal\"     : \"/assets/" ++ manifest.maps.normal ++ "\",\n" ++
      "\t\t\"back\"       : \"/assets/" ++ manifest.maps.back ++ "\",\n" ++
      "\t\t\"border\"     : \"/assets/" ++ manifest.maps.border ++ "\",\n" ++
      "\t\t\"mask\"       : " ++ (match manifest.maps.mask with
        | some mask => "\"/assets/" ++ mask ++ "\",\n"
        | none => "null,\n") ++
      "\t\t\"normal\"     : \"/assets/" ++ manifest.maps.normal ++ "\",\n" ++
      "\t\t\"layers\"     : [\n" ++
        layersAsJson manifest.maps.layers ++ "\n" ++
      "\t\t]\n" ++
    "\t\x7d,\n" ++
    "\t\"colors\": \x7b\n" ++
      "\t\t\"base\"       : \"" ++ manifest.colors.base ++ "\",\n" ++
      "\t\t\"specular\"   : \"" ++ manifest.colors.specular ++ "\",\n" ++
      "\t\t\"emissive\"   : \"" ++ manifest.colors.emissive ++ "\",\n" ++
      "\t\t\"background\" : \"" ++ manifest.colors.background ++ "\"\n" ++
    "\t\x7d,\n" ++
    "\t\"stock\": \x7b\n" ++
      "\t\t\"base\"       : \"" ++ manifest.stockColors.base ++ "\",\n" ++
      "\t\t\"specular\"   : \"" ++ manifest.stockColors.specular ++ "\",\n" ++
      "\t\t\"emissive\"   : \"" ++ manifest.stockColors.emissive ++ "\"\n" ++
    "\t\x7d,\n" ++
    "\t\"views\": \x7b\n" ++
      "\t\t\"flat\"       : \"" ++ manifest.views.flat ++ "\",\n" ++
      "\t\t\"sideBySide\" : \"" ++ manifest.views.sideBySide ++ "\",\n" ++
      "\t\t\"animated\"   : \"" ++ manifest.views.animated ++ "\",\n" ++
      "\t\t\"interactive\": \"" ++ manifest.views.interactive ++ "\"\n" ++
    "\t\x7d\n" ++
  "\n\x7d"

/-- The list of tags of `httpAssetManifest`. -/
def tagsAsJson (tags : List Text) : Text :=
  tags.foldl
    (fun a b =>
      let comma := if a = "" then "" else ", "
      a ++ comma ++ "\"" ++ b ++ "\"")
    ""

/-- The list of assets of `httpAssetManifest`. -/
def assetsAsJson (assets : List Record) : Text :=
  assets.foldl
    (fun a b =>
      let comma := if a = "" then "\t" else ", "
      a ++ comma ++ "\x7b\n" ++
        "\t\t\"filename\": \"" ++ b.meta'.filename ++ "\",\n" ++
        "\t\t\"url\": \"/assets/" ++ b.meta'.filename ++ "\",\n" ++
        "\t\t\"description\": \"" ++ b.meta'.description ++ "\",\n" ++
        "\t\t\"tags\": [" ++ tagsAsJson b.meta'.tags ++ "]\n" ++
      "\t\x7d")
    ""

/-! ### Path handlers -/

/-- `httpAssetManifest`. -/
def httpAssetManifest (_path : Option Text) : Except Trap Response :=
  .ok {
    body := encodeUtf8 ("[\n" ++ assetsAsJson s.assets.getManifest ++ "\n]")
    headers := [("Content-Type", "application/json")]
    status_code := 200 }

/-- `httpAssetFilename`. -/
def httpAssetFilename (path : Option Text) : Except Trap Response :=
  match path with
  | some path => do
      match ← s.assets.getAssetByName path with
      | some asset => pure (renderAsset asset)
      | none => pure (http404 (some "Asset not found."))
  | none => httpAssetManifest s path

/-- A manifest, or why there is none, as a response. -/
def manifestResponse : Except Text LegendManifest → Response
  | .ok manifest => {
      body := encodeUtf8 (manifestAsJson H manifest)
      headers := [("Content-Type", "application/json"), ("Access-Control-Allow-Origin", "*")]
      status_code := 200 }
  | .error m => {
      body := encodeUtf8 m
      headers := [("Content-Type", "application/json"), ("Access-Control-Allow-Origin", "*")]
      status_code := 500 }

/-- The index in a segment of the path. -/
def pathIndex : Option Text → Except Trap (Option ℕ)
  | some path => natFromText path
  | none => .ok none

/-- `httpLegendManifest`. -/
def httpLegendManifest (path : Option Text) : Except Trap Response := do
  match ← pathIndex path with
  | some i =>
      match ← mintedOr404 s i with
      | some err => pure err
      | none =>
          let manifest ← renderManifest H s i
          pure (manifestResponse H manifest)
  | none => pure (http404 (some "Invalid index."))

/-- `httpLegend`. -/
def httpLegend (path : Option Text) : Except Trap Response := do
  match ← pathIndex path with
  | some i =>
      match ← mintedOr404 s i with
      | some err => pure err
      | none => renderLegendPreview s i
  | none => pure (http404 (some "Bad index."))

/-- A preview of this kind by the index in the path. -/
def httpPreview (kind : Text) (path : Option Text) : Except Trap Response := do
  match ← pathIndex path with
  | some i =>
      match ← mintedOr404 s i with
      | some err => pure err
      | none =>
          let legend ← getMetadata s i
          pure (renderAssetWithTags s (previewTags kind legend))
  | none => pure (http404 (some "Invalid index."))

/-- `httpSideBySidePreview`. -/
def httpSideBySidePreview : Option Text → Except Trap Response := httpPreview s "side-by-side"

/-- `httpAnimatedPreview`. -/
def httpAnimatedPreview : Option Text → Except Trap Response := httpPreview s "animated"

/-- `httpIndex`. -/
def httpIndex : Except Trap Response := do
  let minted ← s.tokens.getMinted s.supply
  let stats := s.entrepot.stats s.supply
  pure {
    body := encodeUtf8 ("Saga Legend #1: The Fool NFT Canister\n" ++
      "---\n" ++
      "# Minted NFTs: " ++ toString minted.length ++ "\n" ++
      "Cycle Balance: " ++ toString (H.balance / 1000000000000) ++ "T\n" ++
      "---\n" ++
      "# Marketplace Listings: " ++ toString stats.listings ++ "\n" ++
      "# Marketplace Sales: " ++ toString stats.sales ++ "\n" ++
      "Marketplace Sale Volume: " ++ toString stats.totalVolume.toNat ++ "\n" ++
      "Marketplace Largest Sale: " ++ toString stats.highestPriceSale.toNat ++ "\n" ++
      "Marketplace Smallest Sale: " ++ toString stats.lowestPriceSale.toNat ++ "\n" ++
      "Marketplace Floor Price: " ++ toString stats.floor.toNat ++ "\n")
    headers := [("Content-Type", "text/plain")]
    status_code := 200 }

/-- A plain text that any site may read. -/
def plainText (t : Text) : Response :=
  { body := encodeUtf8 t
    headers := [("Content-Type", "text/plain"), ("Access-Control-Allow-Origin", "*")]
    status_code := 200 }

/-- `httpSupply`. -/
def httpSupply (_path : Option Text) : Except Trap Response :=
  .ok (plainText (toString s.supply.toNat))

/-- `httpAddress`. -/
def httpAddress (_path : Option Text) : Except Trap Response :=
  .ok (plainText (H.accountText H.cid none))

/-- `httpEXT`. -/
def httpEXT (url : Text) : Except Trap Response := do
  let tokenId ← orTrap .outOfBounds (tokens url "tokenid=")[1]?
  let token ← Stoic.decodeToken H.fromText tokenId
  let index := token.index.toNat
  match ← mintedOr404 s index with
  | some err => pure err
  | none =>
      if contains url "type=card-art" then pure (renderAssetWithTags s ["preview", "flat"])
      else do
        let legend ← getMetadata s index
        if contains url "type=animated" then
          pure (renderAssetWithTags s (previewTags "animated" legend))
        else if !contains url "type=thumbnail" then renderLegendPreview s index
        else pure (renderAssetWithTags s (previewTags "side-by-side" legend))

/-- `httpTokenIndex`; whether the token is minted is not looked at. -/
def httpTokenIndex (url : Text) : Except Trap Response := do
  let index ← orTrap .outOfBounds (tokens url "tokenindex=")[1]?
  match ← natFromText index with
  | some i =>
      let legend ← getMetadata s i
      pure (renderAssetWithTags s (previewTags "side-by-side" legend))
  | none => pure (http404 (some "No token at that index."))

/-- `httpLegendRootView`, of the parts of the segment between its dots. -/
def httpLegendRootView (parts : List Text) : Except Trap Response := do
  let name ← orTrap .outOfBounds parts[0]?
  match ← natFromText name with
  | some index =>
      match ← mintedOr404 s index with
      | some err => pure err
      | none =>
          let legend ← getMetadata s index
          if parts.length = 1 then renderLegendPreview s index
          else do
            let extension ← orTrap .outOfBounds parts[1]?
            if lower H extension = "webm" then
              pure (renderAssetWithTags s (previewTags "animated" legend))
            else if lower H extension = "webp" then
              pure (renderAssetWithTags s (previewTags "side-by-side" legend))
            else if lower H extension = "json" then do
              let manifest ← renderManifest H s index
              pure (manifestResponse H manifest)
            else pure (http404 none)
  | none => pure (http404 none)

/-! ### The router -/

/-- `paths`. -/
def paths : List (Text × (Option Text → Except Trap Response)) :=
  [("asset", httpAssetFilename s),
   ("assets", httpAssetFilename s),
   ("asset-manifest", httpAssetManifest s),
   ("legend-manifest", httpLegendManifest H s),
   ("legend", httpLegend s),
   ("side-by-side-preview", httpSideBySidePreview s),
   ("animated-preview", httpAnimatedPreview s),
   ("supply", httpSupply s),
   ("address", httpAddress H)]

/-- The handler of a segment of the path. -/
def handlerOf (key : Text) : Option (Option Text → Except Trap Response) :=
  ((paths H s).find? fun e => key == e.1).map Prod.snd

/-- **`request`**, of the URL. -/
def request (url : Text) : Except Trap Response :=
  if contains url "tokenid" then httpEXT H s url
  else if contains url "tokenindex" then httpTokenIndex s url
  else
    match tokens url "/" with
    | [] => httpIndex H s
    | [key] =>
        match handlerOf H s key with
        | some handler => handler none
        | none => httpLegendRootView H s (tokens key ".")
    | key :: path :: _ =>
        match handlerOf H s key with
        | some handler => handler (some path)
        -- the handlers are looked through a second time, with the same result
        | none => .ok (http404 (some "Path not found."))

/-! ### A sample site -/

/-- A canister. -/
def sampleCid : Principal := ⟨[0, 0, 0, 0, 1, 48, 2, 48, 1, 1]⟩

/-- Its first tokens, by their texts. -/
def sampleTexts : List (Text × Principal) :=
  [("spj3g-4ikor-uwiaa-aaaaa-cmacg-aaqca-aaaaa-a", ⟨Stoic.tokenBytes sampleCid 0⟩),
   ("4tkih-zykor-uwiaa-aaaaa-cmacg-aaqca-aaaaa-q", ⟨Stoic.tokenBytes sampleCid 1⟩)]

/-- A host that knows the texts of these tokens only. -/
def Host.sample : Host where
  cid := sampleCid
  fromText := fun t => (sampleTexts.find? fun e => e.1 == t).map Prod.snd
  length_fromText := by
    intro t p h
    obtain ⟨e, he, rfl⟩ := Option.map_eq_some_iff.1 h
    have hall : ∀ e ∈ sampleTexts, e.2.bytes.length ≤ 29 := by decide
    exact hall e (List.mem_of_find?_eq_some he)
  encode := fun cid i =>
    ((sampleTexts.find? fun e => e.2.bytes == Stoic.tokenBytes cid i).map Prod.fst).getD ""
  accountText := fun _ _ => ""
  charToLower := Char.toLower
  charToLower_of_isLower := by
    intro c hc
    have hupper : ¬ (c.val ≥ 'A'.val ∧ c.val ≤ 'Z'.val) := fun h =>
      absurd (UInt32.le_trans (le_val_of_isLower hc) h.2) (by decide)
    exact dif_neg hupper
  floatText := fun _ => "0"
  balance := 0

/-- A token of an account. -/
def sampleToken : Token := ⟨0, "a", "N/A"⟩

/-- A legend whose traits have this name. -/
def sampleLegend (name : Text) : Metadata := ⟨name, name, name, name, name, name⟩

/-- A site with one token and these assets, by name and tags. -/
def Site.sample (slot : Option Token) (assets : List (Text × List Text)) : Site where
  assets := assets.foldl
    (fun a e => (a.putAsset ⟨⟨"text/plain", []⟩, ⟨e.2, e.1, e.1, ""⟩⟩).toOption.getD a)
    Assets.empty
  tokens := ⟨[slot], [sampleLegend "a"], true, show 1 < 2 ^ 16 by decide⟩
  entrepot := Entrepot.new Entrepot.Stable.initial
  supply := 1
  nri := []

end Http

end LegendsNft
