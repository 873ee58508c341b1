/-
**Routes: what a URL asks for.**

The router and the handlers of `LegendsNft/Http.lean` mix reading the URL with reading the site.
Here the two are taken apart.  A route says which token is to be shown in which view, or which other
page is meant; it is read off the URL alone, with the traps that a URL can cause.  The response to a
route is read off the site, and a request is one after the other.  So what holds of every request
is proved once for each kind of route.

Main definitions:

* `LegendsNft.Http.View`, `LegendsNft.Http.Route` — the views of a token, and the pages;
* `LegendsNft.Http.route` — the route of a URL;
* `LegendsNft.Http.respond` — the response of a site.

Main results:

* `LegendsNft.Http.request_eq` — **a request is a route and its response**.
-/

import LegendsNft.Http

set_option relaxedAutoImplicit false
set_option autoImplicit false

namespace LegendsNft

namespace Http

/-- The views of a token. -/
inductive View
  | flat
  /-- The threejs app. -/
  | app
  | preview (kind : Text)
  | manifest
  /-- An extension that is not known. -/
  | unknown
  deriving DecidableEq

/-- What a URL asks for. -/
inductive Route
  /-- A view of a token; `reads` tells whether the metadata is read in any case. -/
  | view (reads : Bool) (v : View) (i : ℕ)
  /-- The still preview of a token that need not be minted. -/
  | tokenIndex (i : ℕ)
  | asset (filename : Text)
  | assetManifest
  | index
  | supply
  | address
  | notFound (msg : Option Text)
  deriving DecidableEq

variable (H : Host) (s : Site)

/-! ### Reading the URL -/

/-- The view of a wallet's query. -/
def queryView (url : Text) : Bool × View :=
  if contains url "type=card-art" then (false, .flat)
  else if contains url "type=animated" then (true, .preview "animated")
  else if !contains url "type=thumbnail" then (true, .app)
  else (true, .preview "side-by-side")

/-- The view of the parts of a segment: an index and an extension. -/
def rootView : List Text → View
  | _ :: extension :: _ =>
      if lower H extension = "webm" then .preview "animated"
      else if lower H extension = "webp" then .preview "side-by-side"
      else if lower H extension = "json" then .manifest
      else .unknown
  | _ => .app

/-- The route of a segment of the path that is no handler's. -/
def rootRoute (parts : List Text) : Except Trap Route := do
  let name ← orTrap .outOfBounds parts[0]?
  match ← natFromText name with
  | some i => pure (.view true (rootView H parts) i)
  | none => pure (.notFound none)

/-- The route of a view by the index in the path. -/
def indexRoute (v : View) (message : Text) (path : Option Text) : Except Trap Route := do
  match ← pathIndex path with
  | some i => pure (.view false v i)
  | none => pure (.notFound (some message))

/-- The route of an asset. -/
def assetRoute : Option Text → Except Trap Route
  | some path => .ok (.asset path)
  | none => .ok .assetManifest

/-- The routes of the handlers. -/
def routes : List (Text × (Option Text → Except Trap Route)) :=
  [("asset", assetRoute),
   ("assets", assetRoute),
   ("asset-manifest", fun _ => .ok .assetManifest),
   ("legend-manifest", indexRoute .manifest "Invalid index."),
   ("legend", indexRoute .app "Bad index."),
   ("side-by-side-preview", indexRoute (.preview "side-by-side") "Invalid index."),
   ("animated-preview", indexRoute (.preview "animated") "Invalid index."),
   ("supply", fun _ => .ok .supply),
   ("address", fun _ => .ok .address)]

/-- The route of a segment of the path. -/
def routeOf (key : Text) : Option (Option Text → Except Trap Route) :=
  (routes.find? fun e => key == e.1).map Prod.snd

/-- The route of a wallet's query. -/
def queryRoute (url : Text) : Except Trap Route := do
  let tokenId ← orTrap .outOfBounds (tokens url "tokenid=")[1]?
  let token ← Stoic.decodeToken H.fromText tokenId
  pure (.view (queryView url).1 (queryView url).2 token.index.toNat)

/-- The route of a query by index. -/
def tokenIndexRoute (url : Text) : Except Trap Route := do
  let index ← orTrap .outOfBounds (tokens url "tokenindex=")[1]?
  match ← natFromText index with
  | some i => pure (.tokenIndex i)
  | none => pure (.notFound (some "No token at that index."))

/-- The route of a path, by its segments. -/
def pathRoute : List Text → Except Trap Route
  | [] => .ok .index
  | [key] =>
      match routeOf key with
      | some handler => handler none
      | none => rootRoute H (tokens key ".")
  | key :: path :: _ =>
      match routeOf key with
      | some handler => handler (some path)
      | none => .ok (.notFound (some "Path not found."))

/-- **The route of a URL.** -/
def route (url : Text) : Except Trap Route :=
  if contains url "tokenid" then queryRoute H url
  else if contains url "tokenindex" then tokenIndexRoute url
  else pathRoute H (tokens url "/")

/-! ### Reading the site -/

/-- A view of a token that is minted. -/
def showView : View → ℕ → Except Trap Response
  | .flat, _ => .ok (renderAssetWithTags s ["preview", "flat"])
  | .app, i => renderLegendPreview s i
  | .preview kind, i => do
      let legend ← getMetadata s i
      pure (renderAssetWithTags s (previewTags kind legend))
  | .manifest, i => do
      let manifest ← renderManifest H s i
      pure (manifestResponse H manifest)
  | .unknown, _ => .ok (http404 none)

/-- The view of a token, if it is minted. -/
def respondView (reads : Bool) (v : View) (i : ℕ) : Except Trap Response := do
  match ← mintedOr404 s i with
  | some err => pure err
  | none =>
      if reads then
        let _ ← getMetadata s i
        showView H s v i
      else showView H s v i

/-- **The response to a route.** -/
def respond : Route → Except Trap Response
  | .view reads v i => respondView H s reads v i
  | .tokenIndex i => showView H s (.preview "side-by-side") i
  | .asset filename => httpAssetFilename s (some filename)
  | .assetManifest => httpAssetManifest s none
  | .index => httpIndex H s
  | .supply => httpSupply s none
  | .address => httpAddress H none
  | .notFound msg => .ok (http404 msg)

/-- The handlers' names are made of letters and dashes. -/
theorem chars_of_routeOf {key : Text} {handler : Option Text → Except Trap Route}
    (h : routeOf key = some handler) :
    key.toList ≠ [] ∧ ∀ c ∈ key.toList, c.isLower = true ∨ c = '-' := by
  obtain ⟨e, he, rfl⟩ := Option.map_eq_some_iff.1 h
  have hkey := List.find?_some he
  simp only [beq_iff_eq] at hkey
  subst hkey
  have hall : ∀ e ∈ routes.map Prod.fst,
      e.toList ≠ [] ∧ e.toList.all (fun c => c.isLower || c == '-') = true := by decide
  obtain ⟨hne, hchars⟩ := hall e.1 (List.mem_map_of_mem (List.mem_of_find?_eq_some he))
  refine ⟨hne, fun c hc => ?_⟩
  have hc := List.all_eq_true.1 hchars c hc
  rwa [Bool.or_eq_true, beq_iff_eq] at hc

/-- A segment with another character is no handler's. -/
theorem routeOf_eq_none {key : Text} {c : Char} (hc : c ∈ key.toList)
    (h : ¬ (c.isLower = true ∨ c = '-')) : routeOf key = none := by
  cases hroute : routeOf key with
  | none => rfl
  | some handler => exact absurd ((chars_of_routeOf hroute).2 c hc) h

/-! ### A request is a route and its response -/

variable {H s}

/-- Reading the metadata twice is reading it once. -/
theorem read_read {α : Type} {i : ℕ} (k : Metadata → Except Trap α) :
    (getMetadata s i >>= fun _ => getMetadata s i >>= k) = getMetadata s i >>= k := by
  cases getMetadata s i <;> rfl

theorem indexRoute_bind (v : View) (message : Text) (path : Option Text) :
    (indexRoute v message path >>= respond H s) = (do
      match ← pathIndex path with
      | some i => respondView H s false v i
      | none => pure (http404 (some message))) := by
  rw [indexRoute, bind_assoc]
  cases pathIndex path with
  | error e => rfl
  | ok o => cases o <;> rfl

theorem httpLegend_eq (path : Option Text) :
    httpLegend s path = indexRoute .app "Bad index." path >>= respond H s := by
  rw [indexRoute_bind]
  rfl

theorem httpPreview_eq (kind : Text) (path : Option Text) :
    httpPreview s kind path =
      indexRoute (.preview kind) "Invalid index." path >>= respond H s := by
  rw [indexRoute_bind]
  rfl

theorem httpLegendManifest_eq (path : Option Text) :
    httpLegendManifest H s path = indexRoute .manifest "Invalid index." path >>= respond H s := by
  rw [indexRoute_bind]
  rfl

theorem httpAssetFilename_eq (path : Option Text) :
    httpAssetFilename s path = assetRoute path >>= respond H s := by
  cases path <;> rfl

/-- The handlers are those of the routes. -/
theorem paths_eq : paths H s = routes.map fun e => (e.1, fun path => e.2 path >>= respond H s) := by
  simp only [paths, routes, List.map_cons, List.map_nil, ← httpLegend_eq, ← httpPreview_eq,
    ← httpLegendManifest_eq, ← httpAssetFilename_eq]
  rfl

theorem handlerOf_eq (key : Text) :
    handlerOf H s key = (routeOf key).map fun handler path => handler path >>= respond H s := by
  rw [handlerOf, routeOf, paths_eq, List.find?_map, Option.map_map, Option.map_map]
  rfl

theorem httpEXT_eq (url : Text) : httpEXT H s url = queryRoute H url >>= respond H s := by
  rw [httpEXT, queryRoute, bind_assoc]
  refine bind_congr fun tokenId => ?_
  rw [bind_assoc]
  refine bind_congr fun token => ?_
  refine bind_congr fun minted => ?_
  cases minted with
  | some err => rfl
  | none =>
      cases hflat : contains url "type=card-art" with
      | true =>
          simp only [queryView, hflat]
          rfl
      | false =>
          cases hanimated : contains url "type=animated" with
          | true =>
              simp only [queryView, hflat, hanimated]
              exact (read_read _).symm
          | false =>
              cases hthumbnail : contains url "type=thumbnail" with
              | true =>
                  simp only [queryView, hflat, hanimated, hthumbnail]
                  exact (read_read _).symm
              | false =>
                  simp only [queryView, hflat, hanimated, hthumbnail]
                  rfl

theorem httpTokenIndex_eq (url : Text) :
    httpTokenIndex s url = tokenIndexRoute url >>= respond H s := by
  rw [httpTokenIndex, tokenIndexRoute, bind_assoc]
  refine bind_congr fun index => ?_
  rw [bind_assoc]
  refine bind_congr fun o => ?_
  cases o <;> rfl

theorem httpLegendRootView_eq (parts : List Text) :
    httpLegendRootView H s parts = rootRoute H parts >>= respond H s := by
  cases parts with
  | nil => rfl
  | cons name parts =>
      rw [httpLegendRootView, rootRoute, bind_assoc]
      refine bind_congr fun name => ?_
      rw [bind_assoc]
      refine bind_congr fun o => ?_
      cases o with
      | none => rfl
      | some i =>
          refine bind_congr fun minted => ?_
          cases minted with
          | some err => rfl
          | none =>
              cases parts with
              | nil => rfl
              | cons extension parts =>
                  have hlength (name : Text) : ¬ (name :: extension :: parts).length = 1 := by simp
                  by_cases hwebm : lower H extension = "webm"
                  · simp only [rootView, if_pos hwebm]
                    refine (bind_congr fun legend => ?_).trans (read_read _).symm
                    rw [if_neg (hlength _)]
                    exact if_pos hwebm
                  by_cases hwebp : lower H extension = "webp"
                  · simp only [rootView, if_neg hwebm, if_pos hwebp]
                    refine (bind_congr fun legend => ?_).trans (read_read _).symm
                    rw [if_neg (hlength _)]
                    exact (if_neg hwebm).trans (if_pos hwebp)
                  by_cases hjson : lower H extension = "json"
                  · simp only [rootView, if_neg hwebm, if_neg hwebp, if_pos hjson]
                    refine bind_congr fun legend => ?_
                    rw [if_neg (hlength _)]
                    exact (if_neg hwebm).trans ((if_neg hwebp).trans (if_pos hjson))
                  · simp only [rootView, if_neg hwebm, if_neg hwebp, if_neg hjson]
                    refine bind_congr fun legend => ?_
                    rw [if_neg (hlength _)]
                    exact (if_neg hwebm).trans ((if_neg hwebp).trans (if_neg hjson))

/-- **A request is a route and its response.** -/
theorem request_eq (url : Text) : request H s url = route H url >>= respond H s := by
  rw [request, route]
  split_ifs
  · exact httpEXT_eq url
  · exact httpTokenIndex_eq url
  · rcases tokens url "/" with - | ⟨key, - | ⟨path, rest⟩⟩
    · rfl
    · simp only [pathRoute, handlerOf_eq]
      cases routeOf key with
      | none => exact httpLegendRootView_eq _
      | some handler => rfl
    · simp only [pathRoute, handlerOf_eq]
      cases routeOf key <;> rfl

/-! ### Views of minted tokens -/

/-- The token is minted. -/
def Minted (s : Site) (i : ℕ) : Prop := ∃ token, s.tokens.ledger[i]? = some (some token)

theorem mintedOr404_of_minted {i : ℕ} (h : Minted s i) : mintedOr404 s i = .ok none := by
  obtain ⟨token, h⟩ := h
  simp [mintedOr404, Tokens.getOwner, h]

theorem mintedOr404_of_unminted {i : ℕ} (h : s.tokens.ledger[i]? = some none) :
    mintedOr404 s i = .ok (some (renderAssetWithTags s ["blank"])) := by
  simp [mintedOr404, Tokens.getOwner, h]

theorem mintedOr404_of_ge {i : ℕ} (h : s.tokens.ledger.length ≤ i) :
    mintedOr404 s i = .error .outOfBounds := by
  simp [mintedOr404, Tokens.getOwner, List.getElem?_eq_none h]

theorem getMetadata_eq_ok {i : ℕ} {legend : Metadata} :
    getMetadata s i = .ok legend ↔ s.tokens.metadata[i]? = some legend :=
  orTrap_eq_ok

/-- **A minted token is shown**; that its metadata is read first makes no difference. -/
theorem respondView_of_minted {i : ℕ} {legend : Metadata} (h : Minted s i)
    (hlegend : s.tokens.metadata[i]? = some legend) (reads : Bool) (v : View) :
    respondView H s reads v i = showView H s v i := by
  rw [respondView, mintedOr404_of_minted h]
  cases reads with
  | false => rfl
  | true =>
      change (getMetadata s i >>= fun _ => showView H s v i) = _
      rw [getMetadata_eq_ok.2 hlegend]
      rfl

theorem respondView_of_unminted {i : ℕ} (h : s.tokens.ledger[i]? = some none) (reads : Bool)
    (v : View) : respondView H s reads v i = .ok (renderAssetWithTags s ["blank"]) := by
  rw [respondView, mintedOr404_of_unminted h]
  rfl

theorem respondView_of_ge {i : ℕ} (h : s.tokens.ledger.length ≤ i) (reads : Bool) (v : View) :
    respondView H s reads v i = .error .outOfBounds := by
  rw [respondView, mintedOr404_of_ge h]
  rfl

/-- A preview is searched by the traits of the legend. -/
theorem showView_preview {i : ℕ} {legend : Metadata}
    (hlegend : s.tokens.metadata[i]? = some legend) (kind : Text) :
    showView H s (.preview kind) i = .ok (renderAssetWithTags s (previewTags kind legend)) := by
  rw [showView, getMetadata_eq_ok.2 hlegend]
  rfl

end Http

end LegendsNft
