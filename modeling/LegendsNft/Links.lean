/-
**The links of a legend manifest.**

A manifest names the files a legend is made of and the views of its token.  It is only rendered when
the store has the files, a flat preview, some side-by-side preview of the legend and some animated
preview; the mask and the stock of the legend, the traits of the animated preview and the app of the
interactive view are not looked for.  So the files and the flat preview are always served, and the
other views are when the store has what their routes search for.

Main definitions:

* `LegendsNft.Http.links` — the URLs that a manifest leads to;
* `LegendsNft.Http.Findable`, `LegendsNft.Http.Addressable` — what is assumed of the store;
* `LegendsNft.Http.Complete` — the store has all views of a token.

Main results:

* `LegendsNft.Http.served_file` — the files of a manifest are served;
* `LegendsNft.Http.links_served_iff` — **the links of a manifest are served** when the views are
  there.
-/

import LegendsNft.Urls

set_option relaxedAutoImplicit false
set_option autoImplicit false

namespace LegendsNft

namespace Http

variable {H : Host} {s : Site}

/-! ### Links -/

/-- The files named in a manifest. -/
def ManifestMaps.files (maps : ManifestMaps) : List Text :=
  maps.normal :: maps.back :: maps.border :: (maps.layers ++ maps.mask.toList)

/-- The views named in a manifest. -/
def ManifestViews.urls (views : ManifestViews) : List Text :=
  [views.flat, views.sideBySide, views.animated, views.interactive]

/-- The URLs that a manifest leads to. -/
def links (m : LegendManifest) : List Text :=
  (m.views.urls.map fun view => "/" ++ view) ++ m.maps.files.map fun file => "/assets/" ++ file

/-- The URL has a response of status 200. -/
def Served (H : Host) (s : Site) (url : Text) : Prop :=
  ∃ r, request H s url = .ok r ∧ r.status_code = 200

/-! ### The store -/

/-- Every asset with tags is found by its name.  An asset that has been deleted has left a record
without tags. -/
def Findable (a : Assets) : Prop :=
  ∀ asset ∈ a.assets, asset.meta'.tags ≠ [] →
    ∃ asset', a.getAssetByName asset.filename = .ok (some asset')

/-- An exact index finds every asset. -/
theorem findable_of_exact {a : Assets} (h : a.indexed.Exact Record.filename) : Findable a := by
  intro asset hasset _
  obtain ⟨i, hi⟩ := List.getElem?_of_mem hasset
  have hget := h.indexed i asset hi
  refine ⟨asset, Assets.getAssetByName_eq_ok.2 ?_⟩
  rw [Indexed.find_of_get_eq_some hget]
  exact congrArg (Option.map some) hi

/-- The names of the assets with tags can be part of a URL. -/
def Addressable (a : Assets) : Prop :=
  ∀ asset ∈ a.assets, asset.meta'.tags ≠ [] → '/' ∉ asset.filename.toList ∧
    contains asset.filename "tokenid" = false ∧ contains asset.filename "tokenindex" = false

/-- The store has the views of a token that its manifest does not look for. -/
def Complete (s : Site) (i : ℕ) : Prop :=
  ∃ legend, s.tokens.metadata[i]? = some legend ∧
    s.assets.findTags (previewTags "side-by-side" legend) ≠ none ∧
    s.assets.findTags (previewTags "animated" legend) ≠ none ∧
    s.assets.findTag "preview-app" ≠ none

/-- What has a tag is found by it only if it has tags. -/
theorem tags_ne_nil {asset : Record} {tag : Text} (h : Assets.assetHasTag asset tag = true) :
    asset.meta'.tags ≠ [] := by
  intro hnil
  rw [Assets.assetHasTag, hnil] at h
  cases h

/-- What is found by its tags is an asset with tags. -/
theorem mem_of_findTags {a : Assets} {tag : Text} {tags : List Text} {asset : Record}
    (h : a.findTags (tag :: tags) = some asset) : asset ∈ a.assets ∧ asset.meta'.tags ≠ [] := by
  have hall := List.find?_some h
  rw [List.all_cons, Bool.and_eq_true] at hall
  exact ⟨List.mem_of_find?_eq_some h, tags_ne_nil hall.1⟩

/-! ### Files -/

/-- The URL of a file. -/
theorem route_file {filename : Text} (hslash : '/' ∉ filename.toList)
    (hid : contains filename "tokenid" = false)
    (hindex : contains filename "tokenindex" = false) : route H ("/assets/" ++ filename) =
      .ok (if filename = "" then .assetManifest else .asset filename) := by
  have hnoid : contains ("/assets/" ++ filename) "tokenid" = false :=
    contains_query hid (by decide)
  have hnoindex : contains ("/assets/" ++ filename) "tokenindex" = false :=
    contains_query hindex (by decide)
  rw [route, hnoid, hnoindex]
  change pathRoute H (tokens ("/assets/" ++ filename) "/") = _
  by_cases hempty : filename = ""
  · subst hempty
    rfl
  · have hsegments := tokens_segments "assets" (by decide) (by decide) hempty hslash
    rw [show "/" ++ "assets" ++ "/" = "/assets/" by decide] at hsegments
    rw [hsegments, if_neg hempty]
    rfl

/-- An asset that is found by its name is served. -/
theorem served_file (hfind : Findable s.assets) (haddress : Addressable s.assets) {asset : Record}
    (hasset : asset ∈ s.assets.assets) (htags : asset.meta'.tags ≠ []) :
    Served H s ("/assets/" ++ asset.filename) := by
  obtain ⟨hslash, hid, hindex⟩ := haddress asset hasset htags
  obtain ⟨asset', hget⟩ := hfind asset hasset htags
  rw [Served, request_eq, route_file hslash hid hindex]
  split_ifs
  · exact ⟨_, rfl, rfl⟩
  · refine ⟨renderAsset asset', ?_, rfl⟩
    change httpAssetFilename s (some asset.filename) = _
    exact bind_eq_ok.2 ⟨_, hget, rfl⟩

/-! ### Manifests -/

theorem required_eq_ok {tags : List Text} {message : Text} {asset : Record} :
    required s tags message = .ok asset ↔ s.assets.findTags tags = some asset := by
  rw [required]
  cases s.assets.findTags tags <;> simp

/-- What a manifest is made of. -/
theorem legendManifest_eq_ok {T : TokenIdentifier} {legend : Metadata} {m : LegendManifest}
    (h : legendManifest s T legend = .ok m) :
    (∀ file ∈ m.maps.files, ∃ asset, (asset ∈ s.assets.assets ∧ asset.meta'.tags ≠ []) ∧
        asset.filename = file) ∧
      s.assets.findTags ["preview", "flat"] ≠ none ∧
      m.views = ⟨"?type=card-art&tokenid=" ++ T, "?type=thumbnail&tokenid=" ++ T,
        "?type=animated&tokenid=" ++ T, "?tokenid=" ++ T⟩ := by
  obtain ⟨normal, hnormal, h⟩ := bind_eq_ok.1 h
  obtain ⟨back, hback, h⟩ := bind_eq_ok.1 h
  obtain ⟨border, hborder, h⟩ := bind_eq_ok.1 h
  obtain ⟨flat, hflat, h⟩ := bind_eq_ok.1 h
  obtain ⟨side, -, h⟩ := bind_eq_ok.1 h
  obtain ⟨animated, -, h⟩ := bind_eq_ok.1 h
  obtain rfl := Except.ok.inj h
  rw [required_eq_ok] at hnormal hback hborder hflat
  refine ⟨?_, ?_, rfl⟩
  · intro file hfile
    simp only [ManifestMaps.files, List.mem_cons, List.mem_append, List.mem_map,
      Option.mem_toList, Option.map_eq_some_iff] at hfile
    rcases hfile with rfl | rfl | rfl | ⟨layer, hlayer, rfl⟩ | ⟨mask, hmask, rfl⟩
    · exact ⟨normal, mem_of_findTags hnormal, rfl⟩
    · exact ⟨back, mem_of_findTags hback, rfl⟩
    · exact ⟨border, mem_of_findTags hborder, rfl⟩
    · obtain ⟨hmem, htag⟩ := List.mem_filter.1 hlayer
      exact ⟨layer, ⟨hmem, tags_ne_nil htag⟩, rfl⟩
    · exact ⟨mask, mem_of_findTags hmask, rfl⟩
  · rw [hflat]
    exact Option.some_ne_none flat

/-! ### Views -/

/-- A search is served when it finds an asset. -/
theorem renderAssetWithTags_ok {tags : List Text} :
    (renderAssetWithTags s tags).status_code = 200 ↔ s.assets.findTags tags ≠ none := by
  rw [renderAssetWithTags]
  cases s.assets.findTags tags with
  | none => exact iff_of_false (show ¬ (404 : UInt16) = 200 by decide) (fun h => h rfl)
  | some asset => exact iff_of_true rfl (Option.some_ne_none asset)

/-- The app of a token is served when the store has it. -/
theorem showView_app_ok {i : ℕ} (hminted : Minted s i) :
    (∃ r, showView H s .app i = .ok r ∧ r.status_code = 200) ↔
      s.assets.findTag "preview-app" ≠ none := by
  rw [showView, renderLegendPreview, mintedOr404_of_minted hminted]
  cases hfind : s.assets.findTag "preview-app" with
  | none =>
      refine iff_of_false ?_ (fun h => h rfl)
      rintro ⟨r, hr, hstatus⟩
      obtain rfl : http404 (some "Missing preview app.") = r := Except.ok.inj hr
      exact absurd hstatus (by decide)
  | some asset => exact iff_of_true ⟨_, rfl, rfl⟩ (Option.some_ne_none asset)

section

variable {i : ℕ} {legend : Metadata} (hminted : Minted s i)
  (hlegend : s.tokens.metadata[i]? = some legend)
include hminted hlegend

/-- The URL of a view of a minted token is served when the view is. -/
theorem served_view_iff {url : Text} {reads : Bool} {v : View}
    (hroute : route H url = .ok (.view reads v i)) :
    Served H s url ↔ ∃ r, showView H s v i = .ok r ∧ r.status_code = 200 := by
  rw [Served, request_eq, hroute]
  change (∃ r, respondView H s reads v i = .ok r ∧ r.status_code = 200) ↔ _
  rw [respondView_of_minted hminted hlegend]

theorem served_preview_iff {url kind : Text} {reads : Bool}
    (hroute : route H url = .ok (.view reads (.preview kind) i)) :
    Served H s url ↔ s.assets.findTags (previewTags kind legend) ≠ none := by
  rw [served_view_iff hminted hlegend hroute, showView_preview hlegend]
  simp only [Except.ok.injEq, exists_eq_left', renderAssetWithTags_ok]

end

/-- **The links of a manifest are served** exactly when the store has all views of the token. -/
theorem links_served_iff {i : ℕ} {m : LegendManifest} (hfind : Findable s.assets)
    (haddress : Addressable s.assets) (hminted : Minted s i)
    (hT : TokenText H i (H.encode H.cid (UInt32.ofNat i)))
    (hrender : renderManifest H s i = .ok (.ok m)) :
    (∀ link ∈ links m, Served H s link) ↔ Complete s i := by
  have hi : i < 2 ^ 32 := by
    obtain ⟨token, htoken⟩ := hminted
    exact (List.getElem?_eq_some_iff.1 htoken).1.trans (s.tokens.size_lt.trans (by decide))
  obtain ⟨n, hn, hrender⟩ := bind_eq_ok.1 hrender
  obtain ⟨legend, hlegend, hrender⟩ := bind_eq_ok.1 hrender
  obtain rfl : UInt32.ofNat i = n := Except.ok.inj ((Stoic.nat32_of_lt hi).symm.trans hn)
  rw [getMetadata_eq_ok] at hlegend
  obtain ⟨hfiles, hflat, hviews⟩ := legendManifest_eq_ok (Except.ok.inj hrender)
  generalize H.encode H.cid (UInt32.ofNat i) = T at hT hviews
  have hflat : Served H s ("/?type=card-art&tokenid=" ++ T) :=
    (served_view_iff hminted hlegend (route_query_flat hT hi)).2
      ⟨_, rfl, renderAssetWithTags_ok.2 hflat⟩
  have hside := served_preview_iff hminted hlegend (route_query_thumbnail hT hi)
  have hanimated := served_preview_iff hminted hlegend (route_query_animated hT hi)
  have happ := (served_view_iff hminted hlegend (route_query_app hT hi)).trans
    (showView_app_ok hminted)
  have hserved : ∀ file ∈ m.maps.files, Served H s ("/assets/" ++ file) := by
    intro file hfile
    obtain ⟨asset, ⟨hasset, htags⟩, rfl⟩ := hfiles file hfile
    exact served_file hfind haddress hasset htags
  have hlinks : (∀ link ∈ links m, Served H s link) ↔
      Served H s ("/?type=thumbnail&tokenid=" ++ T) ∧
        Served H s ("/?type=animated&tokenid=" ++ T) ∧ Served H s ("/?tokenid=" ++ T) := by
    have hslash (t : Text) : "/" ++ (t ++ T) = "/" ++ t ++ T := (String.append_assoc ..).symm
    simp only [links, hviews, ManifestViews.urls, List.forall_mem_append, List.forall_mem_map,
      List.forall_mem_cons, hslash]
    constructor
    · rintro ⟨⟨-, hside, hanimated, happ, -⟩, -⟩
      exact ⟨hside, hanimated, happ⟩
    · rintro ⟨hside, hanimated, happ⟩
      exact ⟨⟨hflat, hside, hanimated, happ, fun _ h => nomatch h⟩, hserved⟩
  rw [hlinks, hside, hanimated, happ, Complete]
  constructor
  · exact fun h => ⟨legend, hlegend, h⟩
  · rintro ⟨legend', hlegend', h⟩
    obtain rfl := Option.some_inj.1 (hlegend.symm.trans hlegend')
    exact h

/-! ### Sample stores -/

/-- The files of a legend, a flat and a side-by-side preview, and an app; and an animated preview
with these tags. -/
def sampleFiles (animated : List Text) : List (Text × List Text) :=
  [("n", ["normal", "a"]), ("b", ["back", "a"]), ("c", ["border", "a"]), ("l", ["layer"]),
    ("f", ["preview", "flat"]), ("s", previewTags "side-by-side" (sampleLegend "a")),
    ("v", animated), ("app", ["preview-app"])]

/-- A site with these files, and a minted token. -/
def Site.withAnimated (animated : List Text) : Site :=
  .sample (some sampleToken) (sampleFiles animated)

/-- The animated preview of the legend. -/
def animatedA : List Text := previewTags "animated" (sampleLegend "a")

theorem links_served_iff_sample : ∃ m,
    renderManifest .sample (Site.withAnimated animatedA) 0 = .ok (.ok m) ∧
      ∀ link ∈ links m, Served .sample (Site.withAnimated animatedA) link := by
  have hfind : ∀ asset ∈ (Site.withAnimated animatedA).assets.assets,
      ∃ asset' ∈ (Site.withAnimated animatedA).assets.assets,
        (Site.withAnimated animatedA).assets.getAssetByName asset.filename = .ok (some asset') := by
    decide
  refine ⟨_, rfl, (links_served_iff (i := 0) ?_ ?_ ⟨sampleToken, rfl⟩ ?_ rfl).2 ?_⟩
  · intro asset hasset _
    obtain ⟨asset', -, hget⟩ := hfind asset hasset
    exact ⟨asset', hget⟩
  · unfold Addressable
    decide
  · exact tokenText_sample
  · exact ⟨sampleLegend "a", rfl, by decide, by decide, by decide⟩

/-- An animated preview of another legend. -/
def animatedB : List Text := ["preview", "animated", "back-b"]

/-- **A manifest with a missing view**: the animated preview is that of another legend. -/
theorem manifest_links_missing : ∃ m,
    renderManifest .sample (Site.withAnimated animatedB) 0 = .ok (.ok m) ∧
      ¬ ∀ link ∈ links m, Served .sample (Site.withAnimated animatedB) link := by
  refine ⟨_, rfl, fun h => ?_⟩
  have hstatus : (request .sample (Site.withAnimated animatedB)
      "/?type=animated&tokenid=spj3g-4ikor-uwiaa-aaaaa-cmacg-aaqca-aaaaa-a").map
        Response.status_code = .ok 404 := by decide
  obtain ⟨r, hr, hok⟩ := h
    "/?type=animated&tokenid=spj3g-4ikor-uwiaa-aaaaa-cmacg-aaqca-aaaaa-a"
    (.tail _ (.tail _ (.head _)))
  rw [hr] at hstatus
  exact absurd (hok.symm.trans (Except.ok.inj hstatus)) (by decide)

end Http

end LegendsNft
