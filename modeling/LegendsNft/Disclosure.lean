/-
**What HTTP tells of legends that are not minted.**

The metadata of a token is to stay unknown until it is minted.  Every view of a token looks at the
ledger before it looks at the metadata, so two sites that differ in the metadata of unminted tokens
only give the same response — but for the query `tokenindex`, which serves the still preview of any
token.  It tells the metadata of an unminted one as soon as the store has a preview that some legend
would be shown by.

Main definitions:

* `LegendsNft.Http.AgreeOnMinted` — two arrays of metadata that agree on what is minted;
* `LegendsNft.Http.Discloses` — the URL asks for the preview of an unminted token that may exist.

Main results:

* `LegendsNft.Http.hides_of_not_discloses` — the other URLs tell nothing;
* `LegendsNft.Http.hides_unminted_iff` — **the URLs that tell nothing of unminted legends**;
* `LegendsNft.Http.preview_discloses` — an unminted legend recognised by its preview.
-/

import LegendsNft.Routes
import Mathlib.Algebra.Order.BigOperators.Group.List
import Mathlib.Algebra.Order.Ring.Nat

set_option relaxedAutoImplicit false
set_option autoImplicit false

namespace LegendsNft

namespace Http

/-- The site with other metadata. -/
def Site.withMetadata (s : Site) (metadata : List Metadata) : Site :=
  { s with tokens := { s.tokens with metadata := metadata } }

/-- The two arrays have the same metadata for every token that is minted. -/
def AgreeOnMinted (ledger : List (Option Token)) (metadata metadata' : List Metadata) : Prop :=
  ∀ (i : ℕ) (token : Token), ledger[i]? = some (some token) → metadata[i]? = metadata'[i]?

/-- The site answers the URL in the same way whatever the metadata of the unminted tokens. -/
def Hides (H : Host) (s : Site) (url : Text) : Prop :=
  ∀ metadata metadata' : List Metadata, metadata.length = s.supply.toNat →
    metadata'.length = s.supply.toNat → AgreeOnMinted s.tokens.ledger metadata metadata' →
    request H (s.withMetadata metadata) url = request H (s.withMetadata metadata') url

/-- The URL asks for the preview of an unminted token by its index, and some asset is the preview of
some legend. -/
def Discloses (s : Site) (url : Text) : Prop :=
  contains url "tokenid" = false ∧ contains url "tokenindex" = true ∧
    ∃ text i, (tokens url "tokenindex=")[1]? = some text ∧ natFromText text = .ok (some i) ∧
      s.tokens.ledger[i]? = some none ∧
      ∃ asset ∈ s.assets.assets, ∃ legend : Metadata,
        ∀ tag ∈ previewTags "side-by-side" legend, Assets.assetHasTag asset tag = true

variable {H : Host} {s : Site}

/-! ### Which URLs are queries by index -/

theorem pathRoute_ne_tokenIndex (path : List Text) (i : ℕ) :
    pathRoute H path ≠ .ok (.tokenIndex i) := by
  have hindex (v : View) (message : Text) (p : Option Text) :
      indexRoute v message p ≠ .ok (.tokenIndex i) := by
    intro h
    obtain ⟨o, -, h⟩ := bind_eq_ok.1 h
    cases o <;> cases h
  have hroot (parts : List Text) : rootRoute H parts ≠ .ok (.tokenIndex i) := by
    intro h
    obtain ⟨name, -, h⟩ := bind_eq_ok.1 h
    obtain ⟨o, -, h⟩ := bind_eq_ok.1 h
    cases o <;> cases h
  have hroutes (key : Text) (handler : Option Text → Except Trap Route)
      (h : routeOf key = some handler) (p : Option Text) : handler p ≠ .ok (.tokenIndex i) := by
    obtain ⟨e, he, rfl⟩ := Option.map_eq_some_iff.1 h
    have hmem := List.mem_of_find?_eq_some he
    simp only [routes, List.mem_cons, List.not_mem_nil, or_false] at hmem
    rcases hmem with rfl | rfl | rfl | rfl | rfl | rfl | rfl | rfl | rfl
    all_goals first
      | exact hindex _ _ p
      | cases p <;> simp [assetRoute]
  rcases path with - | ⟨key, - | ⟨path, rest⟩⟩
  · simp [pathRoute]
  · rw [pathRoute]
    cases h : routeOf key with
    | none => exact hroot _
    | some handler => exact hroutes key handler h none
  · rw [pathRoute]
    cases h : routeOf key with
    | none => simp
    | some handler => exact hroutes key handler h (some path)

/-- A URL is a query by index exactly when it has the keyword and a number after it. -/
theorem route_eq_tokenIndex {url : Text} {i : ℕ} : route H url = .ok (.tokenIndex i) ↔
    contains url "tokenid" = false ∧ contains url "tokenindex" = true ∧
      ∃ text, (tokens url "tokenindex=")[1]? = some text ∧ natFromText text = .ok (some i) := by
  rw [route]
  cases hid : contains url "tokenid" with
  | true =>
      simp only [if_true, Bool.true_eq_false, false_and, iff_false]
      intro h
      obtain ⟨tokenId, -, h⟩ := bind_eq_ok.1 h
      obtain ⟨token, -, h⟩ := bind_eq_ok.1 h
      cases h
  | false =>
      cases hindex : contains url "tokenindex" with
      | false => simpa using pathRoute_ne_tokenIndex _ i
      | true =>
          simp only [Bool.false_eq_true, if_false, if_true, true_and, tokenIndexRoute, bind_eq_ok,
            orTrap_eq_ok]
          refine exists_congr fun text => and_congr_right fun _ => ?_
          constructor
          · rintro ⟨o, ho, h⟩
            cases o with
            | none => cases h
            | some j =>
                cases h
                exact ho
          · exact fun h => ⟨_, h, rfl⟩

/-! ### Views of minted tokens -/

theorem showView_congr {metadata metadata' : List Metadata} {i : ℕ}
    (h : metadata[i]? = metadata'[i]?) (v : View) :
    showView H (s.withMetadata metadata) v i = showView H (s.withMetadata metadata') v i := by
  have hget : getMetadata (s.withMetadata metadata) i = getMetadata (s.withMetadata metadata') i :=
    congrArg (orTrap .outOfBounds) h
  cases v with
  | flat => rfl
  | app => rfl
  | unknown => rfl
  | preview kind =>
      rw [showView, showView, hget]
      rfl
  | manifest =>
      rw [showView, showView, renderManifest, renderManifest, hget]
      rfl

/-- A view of a token tells nothing of unminted ones. -/
theorem respondView_congr {metadata metadata' : List Metadata}
    (h : AgreeOnMinted s.tokens.ledger metadata metadata') (reads : Bool) (v : View) (i : ℕ) :
    respondView H (s.withMetadata metadata) reads v i =
      respondView H (s.withMetadata metadata') reads v i := by
  have hminted : mintedOr404 (s.withMetadata metadata) i =
      mintedOr404 (s.withMetadata metadata') i := rfl
  rw [respondView, respondView, hminted]
  cases hslot : s.tokens.ledger[i]? with
  | none => simp [mintedOr404, Tokens.getOwner, Site.withMetadata, hslot, bind, Except.bind]
  | some o =>
      cases o with
      | none => simp [mintedOr404, Tokens.getOwner, Site.withMetadata, hslot, bind, Except.bind]
      | some token =>
          have hi := h i token hslot
          have hget : getMetadata (s.withMetadata metadata) i =
              getMetadata (s.withMetadata metadata') i := congrArg (orTrap .outOfBounds) hi
          rw [showView_congr hi, hget]

/-! ### Previews of tokens that need not be minted -/

/-- An asset is found by some tags when one carries them. -/
theorem findTags_eq_none {a : Assets} {tags : List Text} : a.findTags tags = none ↔
    ∀ asset ∈ a.assets, ¬ ∀ tag ∈ tags, Assets.assetHasTag asset tag = true := by
  simp [Assets.findTags]

/-- Some legend has no preview in the store. -/
theorem exists_findTags_eq_none (a : Assets) (kind : Text) : ∃ legend : Metadata,
    a.findTags (previewTags kind legend) = none := by
  -- a text that is longer than all tags together
  let tags := a.assets.flatMap fun asset => asset.meta'.tags
  let back := String.ofList (List.replicate (tags.map String.length).sum 'a')
  refine ⟨⟨back, "", "", "", "", ""⟩, ?_⟩
  rw [findTags_eq_none]
  intro asset hasset hall
  have hback : Assets.assetHasTag asset ("back-" ++ back) = true :=
    hall _ (by simp [previewTags])
  obtain ⟨tag, htag, heq⟩ := List.any_eq_true.1 hback
  obtain rfl := eq_of_beq heq
  have hmem : "back-" ++ back ∈ tags := List.mem_flatMap.2 ⟨asset, hasset, htag⟩
  have hle := List.le_sum_of_mem (List.mem_map_of_mem (f := String.length) hmem)
  have hlength : ("back-" ++ back).length = 5 + (tags.map String.length).sum := by
    rw [String.length_append, String.length_ofList (l := List.replicate _ _),
      List.length_replicate]
    rfl
  omega

/-- The still preview of a legend for which the store has none. -/
theorem showView_preview_of_none {metadata : List Metadata} {i : ℕ} {legend : Metadata}
    {kind : Text} (hget : metadata[i]? = some legend)
    (h : s.assets.findTags (previewTags kind legend) = none) :
    showView H (s.withMetadata metadata) (.preview kind) i =
      .ok (http404 (some "Missing preview asset.")) := by
  rw [showView_preview hget]
  change Except.ok (renderAssetWithTags s (previewTags kind legend)) = _
  rw [renderAssetWithTags, h]

/-- The still preview of a legend for which the store has one. -/
theorem showView_preview_of_some {metadata : List Metadata} {i : ℕ} {legend : Metadata}
    {kind : Text} {asset : Record} (hget : metadata[i]? = some legend)
    (h : s.assets.findTags (previewTags kind legend) = some asset) :
    showView H (s.withMetadata metadata) (.preview kind) i = .ok (renderAsset asset) := by
  rw [showView_preview hget]
  change Except.ok (renderAssetWithTags s (previewTags kind legend)) = _
  rw [renderAssetWithTags, h]

/-! ### Requests -/

theorem discloses_iff {url : Text} : Discloses s url ↔
    ∃ i, route H url = .ok (.tokenIndex i) ∧ s.tokens.ledger[i]? = some none ∧
      ∃ legend, s.assets.findTags (previewTags "side-by-side" legend) ≠ none := by
  have hfound (legend : Metadata) : s.assets.findTags (previewTags "side-by-side" legend) ≠ none ↔
      ∃ asset ∈ s.assets.assets,
        ∀ tag ∈ previewTags "side-by-side" legend, Assets.assetHasTag asset tag = true := by
    rw [ne_eq, findTags_eq_none]
    push Not
    rfl
  simp only [route_eq_tokenIndex, Discloses, hfound]
  constructor
  · rintro ⟨hid, hindex, text, i, htext, hi, hslot, asset, hasset, legend, hall⟩
    exact ⟨i, ⟨hid, hindex, text, htext, hi⟩, hslot, legend, asset, hasset, hall⟩
  · rintro ⟨i, ⟨hid, hindex, text, htext, hi⟩, hslot, legend, asset, hasset, hall⟩
    exact ⟨hid, hindex, text, i, htext, hi, hslot, asset, hasset, legend, hall⟩

/-- **The other URLs tell nothing** of unminted legends. -/
theorem hides_of_not_discloses (hledger : s.tokens.ledger.length = s.supply.toNat) {url : Text}
    (h : ¬ Discloses s url) : Hides H s url := by
  intro metadata metadata' hlen hlen' hagree
  rw [request_eq, request_eq]
  cases hroute : route H url with
  | error e => rfl
  | ok r =>
      change respond H _ r = respond H _ r
      cases r with
      | view reads v i => exact respondView_congr hagree reads v i
      | asset filename => rfl
      | assetManifest => rfl
      | supply => rfl
      | address => rfl
      | notFound msg => rfl
      | index =>
          have hminted : (s.withMetadata metadata).tokens.getMinted s.supply =
              (s.withMetadata metadata').tokens.getMinted s.supply :=
            ((s.withMetadata metadata).tokens.getMinted_eq hledger.ge).trans
              ((s.withMetadata metadata').tokens.getMinted_eq hledger.ge).symm
          simp only [respond, httpIndex]
          exact congrArg (· >>= _) hminted
      | tokenIndex i =>
          change showView H _ (.preview "side-by-side") i =
            showView H _ (.preview "side-by-side") i
          cases hslot : s.tokens.ledger[i]? with
          | none =>
              -- both arrays end before the index
              have hge : s.supply.toNat ≤ i := by
                rw [← hledger]
                exact List.getElem?_eq_none_iff.1 hslot
              refine showView_congr ?_ _
              rw [List.getElem?_eq_none (hlen.trans_le hge),
                List.getElem?_eq_none (hlen'.trans_le hge)]
          | some o =>
              cases o with
              | some token => exact showView_congr (hagree i token hslot) _
              | none =>
                  have hnone (legend : Metadata) :
                      s.assets.findTags (previewTags "side-by-side" legend) = none := by
                    by_contra hsome
                    exact h (discloses_iff.2 ⟨i, hroute, hslot, legend, hsome⟩)
                  have hlt : i < s.supply.toNat := by
                    rw [← hledger]
                    exact (List.getElem?_eq_some_iff.1 hslot).1
                  rw [showView_preview_of_none (List.getElem?_eq_getElem (hlen.symm ▸ hlt))
                      (hnone _),
                    showView_preview_of_none (List.getElem?_eq_getElem (hlen'.symm ▸ hlt))
                      (hnone _)]

/-- **The URLs that tell nothing of unminted legends** are all but the queries by index of an
unminted token, while the store has the preview of some legend. -/
theorem hides_unminted_iff (hledger : s.tokens.ledger.length = s.supply.toNat) (url : Text) :
    Hides H s url ↔ ¬ Discloses s url := by
  refine ⟨?_, hides_of_not_discloses hledger⟩
  intro hhides hdiscloses
  obtain ⟨i, hroute, hslot, legend, hfound⟩ := (discloses_iff (H := H)).1 hdiscloses
  obtain ⟨asset, hasset⟩ := Option.ne_none_iff_exists'.1 hfound
  obtain ⟨legend', hnone⟩ := exists_findTags_eq_none s.assets "side-by-side"
  have hlt : i < s.supply.toNat := by
    rw [← hledger]
    exact (List.getElem?_eq_some_iff.1 hslot).1
  let base := List.replicate s.supply.toNat legend
  have hget : base[i]? = some legend := by
    rw [List.getElem?_replicate, if_pos hlt]
  have hget' : (base.set i legend')[i]? = some legend' := by
    rw [List.getElem?_set_self (by simpa [base] using hlt)]
  have hagree : AgreeOnMinted s.tokens.ledger base (base.set i legend') := by
    intro j token hj
    have hne : i ≠ j := by
      rintro rfl
      rw [hslot] at hj
      cases hj
    rw [List.getElem?_set_ne hne]
  have hsame := hhides base (base.set i legend') (by simp [base]) (by simp [base]) hagree
  rw [request_eq, request_eq, hroute] at hsame
  have hsame : showView H (s.withMetadata base) (.preview "side-by-side") i =
      showView H (s.withMetadata (base.set i legend')) (.preview "side-by-side") i := hsame
  rw [showView_preview_of_some hget hasset, showView_preview_of_none hget' hnone,
    Except.ok.injEq] at hsame
  exact absurd (congrArg Response.status_code hsame) (by simp [renderAsset, http404])

/-! ### Sample sites -/

/-- One legend has a preview. -/
def samplePreviews : List (Text × List Text) :=
  [("a.webp", previewTags "side-by-side" (sampleLegend "a"))]

theorem hides_unminted_iff_sample : Hides .sample (.sample none samplePreviews) "/legend/0" :=
  (hides_unminted_iff rfl "/legend/0").2 fun h => Bool.false_ne_true h.2.1

/-- **A preview tells which legend is not minted yet.** -/
theorem preview_discloses : ¬ Hides .sample (.sample none samplePreviews) "/?tokenindex=0" := by
  intro h
  have hsame := h [sampleLegend "a"] [sampleLegend "b"] rfl rfl (by
    intro i token hi
    cases i <;> cases hi)
  have hstatus := congrArg (fun r => r.toOption.map Response.status_code) hsame
  exact absurd hstatus (by decide)

end Http

end LegendsNft
