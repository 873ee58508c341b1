/-
**Which reads are answered.**

An index that is read from a URL or from a token identifier goes into the arrays of the ledger and
of the metadata without a check, and the parts of a text are taken by their position.  So a read
traps at an index from the supply on, at a query without a value, at a text that is not that of a
principal, and at a path that is made of dots.  The query `tokenindex` moreover shows a token that
is not minted, and a query whose principal is not a token identifier shows the token of the index
that is decoded in its place.

Main definitions:

* `LegendsNft.Http.Answers` — the URL has a response, and nothing is shown where nothing is asked
  for;
* `LegendsNft.Http.Safe` — the condition on the URL and the site;
* `LegendsNft.Ext.Refuses` — a read by an identifier of no minted token is refused.

Main results:

* `LegendsNft.Http.route_isOk_iff` — the URLs that can be read;
* `LegendsNft.Http.answers_iff` — **the URLs that are answered**;
* `LegendsNft.Http.reads_answered_iff` — with the reads by token identifiers.
-/

import LegendsNft.Discipline
import LegendsNft.Routes

set_option relaxedAutoImplicit false
set_option autoImplicit false

namespace LegendsNft

namespace Http

variable {H : Host} {s : Site}

/-! ### What a URL is about -/

/-- The URL asks for the token with this index. -/
def Addresses (H : Host) (url : Text) (i : ℕ) : Prop :=
  (∃ reads v, route H url = .ok (.view reads v i)) ∨ route H url = .ok (.tokenIndex i)

/-- A wallet's query without a token identifier. -/
def MalformedId (H : Host) (url : Text) : Prop :=
  contains url "tokenid" = true ∧ ∀ text p, (tokens url "tokenid=")[1]? = some text →
    H.fromText text = some p → ∀ canister i, p.bytes ≠ Stoic.tokenBytes canister i

/-- A query by index without a number. -/
def MalformedIndex (url : Text) : Prop :=
  contains url "tokenid" = false ∧ contains url "tokenindex" = true ∧
    ∀ text i, (tokens url "tokenindex=")[1]? = some text → natFromText text ≠ .ok (some i)

/-- A path made of separators; with slashes only it is the path of the index page. -/
def Separators (url : Text) : Prop := '.' ∈ url.toList ∧ ∀ c ∈ url.toList, c = '/' ∨ c = '.'

/-- The blank asset, or a response of status 4xx. -/
def Declines (s : Site) (r : Response) : Prop :=
  r = renderAssetWithTags s ["blank"] ∨ 400 ≤ r.status_code ∧ r.status_code < 500

/-- The URL is about a token that is not minted, or about none. -/
def Vacant (H : Host) (s : Site) (url : Text) : Prop :=
  (∃ i, Addresses H url i ∧ ¬ Minted s i) ∨ MalformedId H url ∨ MalformedIndex url ∨ Separators url

/-- The URL has a response, one that declines if there is nothing to show. -/
def Answers (H : Host) (s : Site) (url : Text) : Prop :=
  ∃ r, request H s url = .ok r ∧ (Vacant H s url → Declines s r)

/-! ### The condition -/

/-- The URL has the parts that are read by their position. -/
def Readable (H : Host) (url : Text) : Prop :=
  if contains url "tokenid" then
    ∃ text p, (tokens url "tokenid=")[1]? = some text ∧ H.fromText text = some p
  else if contains url "tokenindex" then ∃ text, (tokens url "tokenindex=")[1]? = some text
  else ∀ key, tokens url "/" = [key] → ∃ c ∈ key.toList, c ≠ '.'

/-- An asset with these tags that does not look like the blank one. -/
def Shows (s : Site) (tags : List Text) : Prop :=
  ∃ asset, s.assets.findTags tags = some asset ∧
    renderAsset asset ≠ renderAssetWithTags s ["blank"]

/-- What the assets have for a view of a token, or a manifest. -/
def Offers (s : Site) : View → ℕ → Prop
  | .flat, _ => Shows s ["preview", "flat"]
  | .app, _ => s.assets.findTag "preview-app" ≠ none
  | .preview kind, i => ∃ legend, s.tokens.metadata[i]? = some legend ∧
      Shows s (previewTags kind legend)
  | .manifest, _ => True
  | .unknown, _ => False

/-- The condition on the URL and the site. -/
structure Safe (H : Host) (s : Site) (url : Text) : Prop where
  /-- The URL can be read. -/
  readable : Readable H url
  /-- The index is below the supply. -/
  within : ∀ i, Addresses H url i → i < s.supply.toNat
  /-- The asset is in the buffer. -/
  stored : ∀ filename i, route H url = .ok (.asset filename) →
    s.assets.files.get filename = some i → i < s.assets.assets.length
  /-- An unminted token has no preview. -/
  hidden : ∀ i, route H url = .ok (.tokenIndex i) → ¬ Minted s i →
    ¬ Offers s (.preview "side-by-side") i
  /-- The token that is decoded from another principal has no view. -/
  genuine : MalformedId H url → ∀ reads v i, route H url = .ok (.view reads v i) →
    Minted s i → ¬ Offers s v i

/-! ### Reading the URL -/

theorem exists_natFromText (text : Text) : ∃ o, natFromText text = .ok o :=
  ⟨_, natFromText_eq text⟩

theorem exists_indexRoute (v : View) (message : Text) (path : Option Text) :
    ∃ r, indexRoute v message path = .ok r := by
  have hindex : ∃ o, pathIndex path = .ok o := by
    cases path with
    | none => exact ⟨none, rfl⟩
    | some text => exact exists_natFromText text
  obtain ⟨o, ho⟩ := hindex
  rw [indexRoute, ho]
  cases o with
  | none => exact ⟨_, rfl⟩
  | some i => exact ⟨_, rfl⟩

/-- The handlers read every path. -/
theorem exists_of_routeOf {key : Text} {handler : Option Text → Except Trap Route}
    (h : routeOf key = some handler) (path : Option Text) : ∃ r, handler path = .ok r := by
  obtain ⟨e, he, rfl⟩ := Option.map_eq_some_iff.1 h
  have hmem := List.mem_of_find?_eq_some he
  simp only [routes, List.mem_cons, List.not_mem_nil, or_false] at hmem
  rcases hmem with rfl | rfl | rfl | rfl | rfl | rfl | rfl | rfl | rfl
  all_goals first
    | exact exists_indexRoute _ _ path
    | exact ⟨_, rfl⟩
    | cases path <;> exact ⟨_, rfl⟩

/-- A segment of dots is no handler's. -/
theorem routeOf_dots {key : Text} (h : ∀ c ∈ key.toList, c = '.') : routeOf key = none := by
  cases hroute : routeOf key with
  | none => rfl
  | some handler =>
      obtain ⟨hne, hall⟩ := chars_of_routeOf hroute
      obtain ⟨c, hc⟩ := List.exists_mem_of_ne_nil _ hne
      exact absurd (h c hc ▸ hall c hc) (by decide)

theorem tokens_dot_eq_nil {key : Text} : tokens key "." = [] ↔ ∀ c ∈ key.toList, c = '.' := by
  rw [tokens, List.map_eq_nil_iff]
  exact Splitting.tokens_singleton_eq_nil

/-- The part of a segment before its first dot is there unless it has dots only. -/
theorem exists_rootRoute_iff {key : Text} :
    (∃ r, rootRoute H (tokens key ".") = .ok r) ↔ ∃ c ∈ key.toList, c ≠ '.' := by
  have hdots : (∃ c ∈ key.toList, c ≠ '.') ↔ tokens key "." ≠ [] := by
    rw [ne_eq, tokens_dot_eq_nil]
    push Not
    rfl
  rw [hdots]
  cases htokens : tokens key "." with
  | nil => simp [rootRoute, orTrap, bind, Except.bind]
  | cons name parts =>
      obtain ⟨o, ho⟩ := exists_natFromText name
      have hroot : ∃ r, rootRoute H (name :: parts) = .ok r := by
        refine (exists_congr fun r => bind_eq_ok).2 ?_
        cases o with
        | none => exact ⟨_, name, rfl, bind_eq_ok.2 ⟨_, ho, rfl⟩⟩
        | some i => exact ⟨_, name, rfl, bind_eq_ok.2 ⟨_, ho, rfl⟩⟩
      simpa using hroot

theorem exists_pathRoute_iff {path : List Text} : (∃ r, pathRoute H path = .ok r) ↔
    ∀ key, path = [key] → ∃ c ∈ key.toList, c ≠ '.' := by
  rcases path with - | ⟨key, - | ⟨path, rest⟩⟩
  · simp [pathRoute]
  · simp only [List.cons.injEq, and_true, forall_eq']
    rw [pathRoute]
    cases hroute : routeOf key with
    | none => exact exists_rootRoute_iff
    | some handler =>
        refine iff_of_true (exists_of_routeOf hroute none) ?_
        by_contra hdots
        push Not at hdots
        rw [routeOf_dots hdots] at hroute
        cases hroute
  · refine iff_of_true ?_ (by simp)
    rw [pathRoute]
    cases hroute : routeOf key with
    | none => exact ⟨_, rfl⟩
    | some handler => exact exists_of_routeOf hroute (some path)

/-- A wallet's query is decoded when its value is the text of a principal. -/
theorem queryRoute_eq_ok {url : Text} {r : Route} : queryRoute H url = .ok r ↔
    ∃ text p, (tokens url "tokenid=")[1]? = some text ∧ H.fromText text = some p ∧
      r = .view (queryView url).1 (queryView url).2 (Stoic.ofBytes p.bytes).index.toNat := by
  rw [queryRoute, bind_eq_ok]
  refine exists_congr fun text => ?_
  rw [orTrap_eq_ok, bind_eq_ok]
  cases hp : H.fromText text with
  | none => simp [Stoic.decodeToken, hp, orTrap, bind, Except.bind]
  | some p =>
      have hlen : p.bytes.length < 2 ^ 8 :=
        (H.length_fromText text p hp).trans_lt (by decide)
      simp only [Stoic.decodeToken_eq hp hlen, Except.ok.injEq, exists_eq_left', Option.some.injEq,
        exists_and_left]
      refine and_congr_right fun _ => ?_
      exact ⟨fun h => (Except.ok.inj h).symm, fun h => h ▸ rfl⟩

/-- **The URLs that can be read.** -/
theorem route_isOk_iff {url : Text} : (∃ r, route H url = .ok r) ↔ Readable H url := by
  rw [route, Readable]
  split_ifs
  · simp only [queryRoute_eq_ok]
    constructor
    · rintro ⟨r, text, p, htext, hp, -⟩
      exact ⟨text, p, htext, hp⟩
    · rintro ⟨text, p, htext, hp⟩
      exact ⟨_, text, p, htext, hp, rfl⟩
  · simp only [tokenIndexRoute, bind_eq_ok, orTrap_eq_ok]
    constructor
    · rintro ⟨r, text, htext, -⟩
      exact ⟨text, htext⟩
    · rintro ⟨text, htext⟩
      obtain ⟨o, ho⟩ := exists_natFromText text
      cases o with
      | none => exact ⟨_, text, htext, _, ho, rfl⟩
      | some i => exact ⟨_, text, htext, _, ho, rfl⟩
  · exact exists_pathRoute_iff

/-! ### The routes of malformed URLs -/

theorem route_of_malformedId {url : Text} (h : MalformedId H url) {r : Route}
    (hr : route H url = .ok r) : ∃ reads v i, r = .view reads v i := by
  rw [route, if_pos h.1, queryRoute_eq_ok] at hr
  obtain ⟨text, p, -, -, rfl⟩ := hr
  exact ⟨_, _, _, rfl⟩

theorem route_of_malformedIndex {url : Text} (h : MalformedIndex url) {r : Route}
    (hr : route H url = .ok r) : ∃ msg, r = .notFound msg := by
  obtain ⟨hid, hindex, hvalue⟩ := h
  rw [route, if_neg (by simp [hid]), if_pos hindex, tokenIndexRoute, bind_eq_ok] at hr
  obtain ⟨text, htext, hr⟩ := hr
  obtain ⟨o, ho, hr⟩ := bind_eq_ok.1 hr
  cases o with
  | none => exact ⟨_, (Except.ok.inj hr).symm⟩
  | some i => exact absurd ho (hvalue text i (orTrap_eq_ok.1 htext))

theorem route_of_separators {url : Text} (h : Separators url) {r : Route}
    (hr : route H url = .ok r) : ∃ msg, r = .notFound msg := by
  obtain ⟨hdot, hall⟩ := h
  have hletter {c : Char} (hc : c ≠ '/' ∧ c ≠ '.') : c ∉ url.toList := by
    intro hmem
    rcases hall c hmem with hslash | hdot
    · exact hc.1 hslash
    · exact hc.2 hdot
  have hid : contains url "tokenid" = false :=
    Splitting.contains_eq_false (a := 't') (by decide) (hletter (by decide))
  have hindex : contains url "tokenindex" = false :=
    Splitting.contains_eq_false (a := 't') (by decide) (hletter (by decide))
  -- the segments are made of dots
  have hsegment : ∀ key ∈ tokens url "/", ∀ c ∈ key.toList, c = '.' := by
    intro key hkey c hc
    obtain ⟨part, hpart, rfl⟩ := List.mem_map.1 hkey
    rw [String.toList_ofList] at hc
    rcases hall c (Splitting.mem_of_mem_tokens hpart hc) with rfl | hdot
    · exact absurd hc (Splitting.notMem_of_mem_tokens_singleton hpart)
    · exact hdot
  rw [route, if_neg (by simp [hid]), if_neg (by simp [hindex])] at hr
  rcases hpath : tokens url "/" with - | ⟨key, - | ⟨path, rest⟩⟩
  · have hslash : ∀ c ∈ url.toList, c = '/' := by
      rw [tokens, List.map_eq_nil_iff] at hpath
      exact Splitting.tokens_singleton_eq_nil.1 hpath
    exact absurd (hslash '.' hdot) (by decide)
  · obtain ⟨c, hc, hne⟩ := exists_pathRoute_iff.1 ⟨r, hr⟩ key hpath
    exact absurd (hsegment key (by simp [hpath]) c hc) hne
  · rw [hpath, pathRoute, routeOf_dots (hsegment key (by simp [hpath]))] at hr
    exact ⟨_, (Except.ok.inj hr).symm⟩

/-! ### Responses that decline -/

theorem declines_http404 (msg : Option Text) : Declines s (http404 msg) :=
  .inr (show (400 : UInt16) ≤ 404 ∧ (404 : UInt16) < 500 by decide)

/-- A search declines when it finds nothing but the blank asset. -/
theorem declines_renderAssetWithTags {tags : List Text} :
    Declines s (renderAssetWithTags s tags) ↔ ¬ Shows s tags := by
  cases hfind : s.assets.findTags tags with
  | none =>
      have hrender : renderAssetWithTags s tags = http404 (some "Missing preview asset.") := by
        rw [renderAssetWithTags, hfind]
      rw [hrender]
      exact iff_of_true (declines_http404 _) (by simp [Shows, hfind])
  | some asset =>
      have hrender : renderAssetWithTags s tags = renderAsset asset := by
        rw [renderAssetWithTags, hfind]
      rw [hrender, Declines, Shows, hfind]
      have hstatus : ¬ (400 ≤ (renderAsset asset).status_code ∧
          (renderAsset asset).status_code < 500) := by simp [renderAsset]
      simp [hstatus]

/-- A response with two headers is no asset's. -/
theorem not_declines {r : Response} (hheaders : r.headers.length = 2)
    (hstatus : r.status_code = 200 ∨ r.status_code = 500) : ¬ Declines s r := by
  rintro (rfl | ⟨hge, hlt⟩)
  · rw [renderAssetWithTags] at hheaders
    split at hheaders
    · cases hheaders
    · cases hheaders
  · rcases hstatus with hok | herror
    · rw [hok] at hge
      exact absurd hge (by decide)
    · rw [herror] at hlt
      exact absurd hlt (by decide)

theorem not_declines_manifestResponse (m : Except Text LegendManifest) :
    ¬ Declines s (manifestResponse H m) := by
  cases m with
  | ok manifest => exact not_declines rfl (.inl rfl)
  | error message => exact not_declines rfl (.inr rfl)

/-- **What is shown of a minted token**: the view is declined when the assets do not have it. -/
theorem exists_showView {i : ℕ} (hminted : Minted s i) (hi : i < s.tokens.metadata.length)
    (hlt : i < 2 ^ 32) (v : View) :
    ∃ r, showView H s v i = .ok r ∧ (Declines s r ↔ ¬ Offers s v i) := by
  have hlegend := List.getElem?_eq_getElem hi
  cases v with
  | flat => exact ⟨_, rfl, declines_renderAssetWithTags⟩
  | unknown => exact ⟨_, rfl, iff_of_true (declines_http404 none) (fun h => h)⟩
  | preview kind =>
      refine ⟨_, showView_preview hlegend kind, declines_renderAssetWithTags.trans (not_congr ?_)⟩
      simp [Offers, hlegend]
  | app =>
      rw [showView, renderLegendPreview, mintedOr404_of_minted hminted]
      cases hfind : s.assets.findTag "preview-app" with
      | none =>
          refine ⟨_, rfl, iff_of_true (declines_http404 _) ?_⟩
          simp [Offers, hfind]
      | some asset =>
          refine ⟨_, rfl, iff_of_false (not_declines rfl (.inl rfl)) ?_⟩
          simp [Offers, hfind]
  | manifest =>
      have hrender : renderManifest H s i = .ok (legendManifest s (H.encode H.cid (UInt32.ofNat i))
          s.tokens.metadata[i]) := by
        refine bind_eq_ok.2 ⟨_, Stoic.nat32_of_lt hlt, bind_eq_ok.2 ⟨_, ?_, rfl⟩⟩
        exact getMetadata_eq_ok.2 hlegend
      rw [showView, hrender]
      exact ⟨_, rfl, iff_of_false (not_declines_manifestResponse _) (fun h => h trivial)⟩

/-! ### Requests -/

/-- The slots of the ledger: none, an empty one, or a token. -/
theorem slot_cases (hledger : s.tokens.ledger.length = s.supply.toNat) (i : ℕ) :
    s.supply.toNat ≤ i ∨ i < s.supply.toNat ∧ s.tokens.ledger[i]? = some none ∨
      i < s.supply.toNat ∧ Minted s i := by
  rw [← hledger]
  cases hslot : s.tokens.ledger[i]? with
  | none => exact .inl (List.getElem?_eq_none_iff.1 hslot)
  | some o =>
      have hlt := (List.getElem?_eq_some_iff.1 hslot).1
      cases o with
      | none => exact .inr (.inl ⟨hlt, rfl⟩)
      | some token => exact .inr (.inr ⟨hlt, token, hslot⟩)

theorem not_minted {i : ℕ} (h : s.tokens.ledger[i]? = some none) : ¬ Minted s i := by
  rintro ⟨token, htoken⟩
  rw [h] at htoken
  cases htoken

/-- An asset is read when the index by name points into the buffer. -/
theorem exists_httpAssetFilename_iff {filename : Text} :
    (∃ r, httpAssetFilename s (some filename) = .ok r) ↔
      ∀ i, s.assets.files.get filename = some i → i < s.assets.assets.length := by
  have hread : (∃ r, httpAssetFilename s (some filename) = .ok r) ↔
      ∃ o, s.assets.getAssetByName filename = .ok o := by
    simp only [httpAssetFilename, bind_eq_ok]
    constructor
    · rintro ⟨r, o, ho, -⟩
      exact ⟨o, ho⟩
    · rintro ⟨o, ho⟩
      cases o with
      | none => exact ⟨_, none, ho, rfl⟩
      | some asset => exact ⟨_, some asset, ho, rfl⟩
  rw [hread, Assets.getAssetByName]
  cases hget : s.assets.files.get filename with
  | none => simp
  | some i =>
      cases hrecord : s.assets.assets[i]? with
      | none =>
          refine iff_of_false ?_ ?_
          · simp only [hrecord]
            rintro ⟨o, ho⟩
            cases ho
          · intro h
            exact absurd (List.getElem?_eq_none_iff.1 hrecord) (not_le.2 (h i rfl))
      | some record =>
          refine iff_of_true ⟨some record, by simp only [hrecord]; rfl⟩ ?_
          intro j hj
          cases hj
          exact (List.getElem?_eq_some_iff.1 hrecord).1

/-! ### The kinds of routes -/

section

variable {url : Text} {r : Route}

theorem vacant_view {reads : Bool} {v : View} {i : ℕ} (hr : route H url = .ok (.view reads v i)) :
    Vacant H s url ↔ ¬ Minted s i ∨ MalformedId H url := by
  constructor
  · rintro (⟨j, ⟨reads', v', hj⟩ | hj, hminted⟩ | hid | hindex | hdots)
    · cases hr.symm.trans hj
      exact .inl hminted
    · cases hr.symm.trans hj
    · exact .inr hid
    · obtain ⟨msg, h⟩ := route_of_malformedIndex hindex hr
      cases h
    · obtain ⟨msg, h⟩ := route_of_separators hdots hr
      cases h
  · rintro (hminted | hid)
    · exact .inl ⟨i, .inl ⟨reads, v, hr⟩, hminted⟩
    · exact .inr (.inl hid)

theorem vacant_tokenIndex {i : ℕ} (hr : route H url = .ok (.tokenIndex i)) :
    Vacant H s url ↔ ¬ Minted s i := by
  constructor
  · rintro (⟨j, ⟨reads, v, hj⟩ | hj, hminted⟩ | hid | hindex | hdots)
    · cases hr.symm.trans hj
    · cases hr.symm.trans hj
      exact hminted
    · obtain ⟨reads, v, j, h⟩ := route_of_malformedId hid hr
      cases h
    · obtain ⟨msg, h⟩ := route_of_malformedIndex hindex hr
      cases h
    · obtain ⟨msg, h⟩ := route_of_separators hdots hr
      cases h
  · exact fun h => .inl ⟨i, .inr hr, h⟩

/-- Of a URL about no token the only response is that nothing is found. -/
theorem notFound_of_vacant (hr : route H url = .ok r) (hview : ∀ reads v i, r ≠ .view reads v i)
    (hindex : ∀ i, r ≠ .tokenIndex i) (h : Vacant H s url) : ∃ msg, r = .notFound msg := by
  rcases h with ⟨j, ⟨reads, v, hj⟩ | hj, -⟩ | hid | hmalformed | hdots
  · cases hr.symm.trans hj
    exact absurd rfl (hview reads v j)
  · cases hr.symm.trans hj
    exact absurd rfl (hindex j)
  · obtain ⟨reads, v, i, rfl⟩ := route_of_malformedId hid hr
    exact absurd rfl (hview reads v i)
  · exact route_of_malformedIndex hmalformed hr
  · exact route_of_separators hdots hr

theorem safe_view {reads : Bool} {v : View} {i : ℕ} (hr : route H url = .ok (.view reads v i)) :
    Safe H s url ↔
      i < s.supply.toNat ∧ (MalformedId H url → Minted s i → ¬ Offers s v i) := by
  constructor
  · intro h
    exact ⟨h.within i (.inl ⟨reads, v, hr⟩), fun hid => h.genuine hid reads v i hr⟩
  · rintro ⟨hlt, hgenuine⟩
    refine ⟨route_isOk_iff.1 ⟨_, hr⟩, ?_, ?_, ?_, ?_⟩
    · rintro j (⟨reads', v', hj⟩ | hj)
      · cases hr.symm.trans hj
        exact hlt
      · cases hr.symm.trans hj
    · intro filename j hj
      cases hr.symm.trans hj
    · intro j hj
      cases hr.symm.trans hj
    · intro hid reads' v' j hj
      cases hr.symm.trans hj
      exact hgenuine hid

theorem safe_tokenIndex {i : ℕ} (hr : route H url = .ok (.tokenIndex i)) : Safe H s url ↔
    i < s.supply.toNat ∧ (¬ Minted s i → ¬ Offers s (.preview "side-by-side") i) := by
  constructor
  · intro h
    exact ⟨h.within i (.inr hr), h.hidden i hr⟩
  · rintro ⟨hlt, hhidden⟩
    refine ⟨route_isOk_iff.1 ⟨_, hr⟩, ?_, ?_, ?_, ?_⟩
    · rintro j (⟨reads, v, hj⟩ | hj)
      · cases hr.symm.trans hj
      · cases hr.symm.trans hj
        exact hlt
    · intro filename j hj
      cases hr.symm.trans hj
    · intro j hj
      cases hr.symm.trans hj
      exact hhidden
    · intro hid reads v j hj
      cases hr.symm.trans hj

/-- Of the other routes only that of an asset depends on the site. -/
theorem safe_other (hr : route H url = .ok r) (hview : ∀ reads v i, r ≠ .view reads v i)
    (hindex : ∀ i, r ≠ .tokenIndex i) : Safe H s url ↔ ∀ filename, r = .asset filename →
      ∀ i, s.assets.files.get filename = some i → i < s.assets.assets.length := by
  constructor
  · rintro h filename rfl i
    exact h.stored filename i hr
  · intro hstored
    refine ⟨route_isOk_iff.1 ⟨_, hr⟩, ?_, ?_, ?_, ?_⟩
    · rintro j (⟨reads, v, hj⟩ | hj)
      · cases hr.symm.trans hj
        exact absurd rfl (hview reads v j)
      · cases hr.symm.trans hj
        exact absurd rfl (hindex j)
    · intro filename j hj
      cases hr.symm.trans hj
      exact hstored filename rfl j
    · intro j hj
      cases hr.symm.trans hj
      exact absurd rfl (hindex j)
    · intro hid reads v j hj
      cases hr.symm.trans hj
      exact absurd rfl (hview reads v j)

end

/-! ### Requests -/

section

variable (hledger : s.tokens.ledger.length = s.supply.toNat)
  (hmetadata : s.tokens.metadata.length = s.supply.toNat)

include hledger hmetadata in
theorem answers_view {reads : Bool} {v : View} {i : ℕ} {P : Prop} :
    (∃ r, respondView H s reads v i = .ok r ∧ (¬ Minted s i ∨ P → Declines s r)) ↔
      i < s.supply.toNat ∧ (P → Minted s i → ¬ Offers s v i) := by
  rcases slot_cases hledger i with hge | ⟨hlt, hslot⟩ | ⟨hlt, hminted⟩
  · rw [respondView_of_ge (hledger.trans_le hge)]
    exact iff_of_false (by simp) (fun h => absurd h.1 (not_lt.2 hge))
  · rw [respondView_of_unminted hslot]
    exact iff_of_true ⟨_, rfl, fun _ => .inl rfl⟩ ⟨hlt, fun _ h => absurd h (not_minted hslot)⟩
  · have hlegend : i < s.tokens.metadata.length := hmetadata.symm ▸ hlt
    have hsmall : i < 2 ^ 32 := hlt.trans (s.supply.toNat_lt.trans (by decide))
    obtain ⟨r, hr, hdeclines⟩ := exists_showView (H := H) hminted hlegend hsmall v
    rw [respondView_of_minted hminted (List.getElem?_eq_getElem hlegend), hr]
    simp [hminted, hlt, hdeclines]

include hmetadata in
theorem answers_tokenIndex {i : ℕ} :
    (∃ r, showView H s (.preview "side-by-side") i = .ok r ∧ (¬ Minted s i → Declines s r)) ↔
      i < s.supply.toNat ∧ (¬ Minted s i → ¬ Offers s (.preview "side-by-side") i) := by
  by_cases hlt : i < s.supply.toNat
  · have hlegend : i < s.tokens.metadata.length := hmetadata.symm ▸ hlt
    rw [showView_preview (List.getElem?_eq_getElem hlegend)]
    simp [hlt, declines_renderAssetWithTags, Offers, List.getElem?_eq_getElem hlegend]
  · have hread : getMetadata s i = .error .outOfBounds := by
      rw [getMetadata, List.getElem?_eq_none (hmetadata.trans_le (not_lt.1 hlt))]
      rfl
    rw [showView, hread]
    exact iff_of_false (by simp [bind, Except.bind]) fun h => hlt h.1

include hledger in
theorem answers_other {url : Text} {r : Route} (hr : route H url = .ok r)
    (hview : ∀ reads v i, r ≠ .view reads v i) (hindex : ∀ i, r ≠ .tokenIndex i) :
    (∃ r', respond H s r = .ok r' ∧ (Vacant H s url → Declines s r')) ↔
      ∀ filename, r = .asset filename →
        ∀ i, s.assets.files.get filename = some i → i < s.assets.assets.length := by
  have hdrop : (∃ r', respond H s r = .ok r' ∧ (Vacant H s url → Declines s r')) ↔
      ∃ r', respond H s r = .ok r' := by
    refine ⟨fun h => h.imp fun _ h => h.1, ?_⟩
    rintro ⟨r', hr'⟩
    refine ⟨r', hr', fun hvacant => ?_⟩
    obtain ⟨msg, rfl⟩ := notFound_of_vacant hr hview hindex hvacant
    obtain rfl := Except.ok.inj hr'
    exact declines_http404 msg
  rw [hdrop]
  cases r with
  | view reads v i => exact absurd rfl (hview reads v i)
  | tokenIndex i => exact absurd rfl (hindex i)
  | asset filename => simpa [respond] using exists_httpAssetFilename_iff
  | index =>
      refine iff_of_true ⟨_, bind_eq_ok.2 ⟨_, s.tokens.getMinted_eq hledger.ge, rfl⟩⟩ ?_
      intro filename h
      cases h
  | assetManifest =>
      refine iff_of_true ⟨_, rfl⟩ ?_
      intro filename h
      cases h
  | supply =>
      refine iff_of_true ⟨_, rfl⟩ ?_
      intro filename h
      cases h
  | address =>
      refine iff_of_true ⟨_, rfl⟩ ?_
      intro filename h
      cases h
  | notFound msg =>
      refine iff_of_true ⟨_, rfl⟩ ?_
      intro filename h
      cases h

include hledger hmetadata in
/-- **The URLs that are answered.** -/
theorem answers_iff (url : Text) : Answers H s url ↔ Safe H s url := by
  cases hr : route H url with
  | error e =>
      -- the URL cannot be read
      refine iff_of_false ?_ fun h => ?_
      · rintro ⟨r, hrequest, -⟩
        rw [request_eq, hr] at hrequest
        cases hrequest
      · obtain ⟨r, hread⟩ := route_isOk_iff.2 h.readable
        rw [hr] at hread
        cases hread
  | ok r =>
      have hrequest : request H s url = respond H s r := by
        rw [request_eq, hr]
        rfl
      rw [Answers, hrequest]
      cases r with
      | view reads v i =>
          rw [safe_view hr, vacant_view hr]
          exact answers_view hledger hmetadata
      | tokenIndex i =>
          rw [safe_tokenIndex hr, vacant_tokenIndex hr]
          exact answers_tokenIndex (H := H) hmetadata
      | _ =>
          rw [safe_other hr (fun _ _ _ h => nomatch h) fun _ h => nomatch h]
          exact answers_other hledger hr (fun _ _ _ h => nomatch h) fun _ h => nomatch h

end

end Http

/-! ### Reads by token identifiers -/

namespace Ext

variable {D : Deployment} {t : Tokens} {tokenId : TokenIdentifier}

/-- The identifier is that of a minted token. -/
def Identifies (D : Deployment) (t : Tokens) (tokenId : TokenIdentifier) : Prop :=
  ∃ canister i token, D.decode tokenId = .ok (canister, i) ∧
    t.ledger[i.toNat]? = some (some token)

/-- An identifier of no minted token is refused as invalid. -/
def Refuses (D : Deployment) (t : Tokens) (tokenId : TokenIdentifier) : Prop :=
  ¬ Identifies D t tokenId → bearer D t tokenId = .ok (.error (.invalidToken tokenId)) ∧
    metadata D t tokenId = .ok (.error (.invalidToken tokenId))

/-- **The identifiers that are refused** if they are those of no minted token: their index is one of
the ledger. -/
theorem refuses_iff : Refuses D t tokenId ↔
    ∀ canister i, D.decode tokenId = .ok (canister, i) → i.toNat < t.ledger.length := by
  cases hdecode : D.decode tokenId with
  | error e =>
      refine iff_of_true (fun _ => ?_) fun canister i h => nomatch h
      rw [bearer, metadata, hdecode]
      exact ⟨rfl, rfl⟩
  | ok p =>
      obtain ⟨canister, i⟩ := p
      have hone : (∀ canister' i', (.ok (canister, i) : Except Text _) = .ok (canister', i') →
          i'.toNat < t.ledger.length) ↔ i.toNat < t.ledger.length := by
        refine ⟨fun h => h canister i rfl, ?_⟩
        rintro h canister' i' heq
        cases heq
        exact h
      rw [hone, Refuses, bearer, metadata, hdecode]
      cases hslot : t.ledger[i.toNat]? with
      | none =>
          have hnot : ¬ Identifies D t tokenId := by
            rintro ⟨canister', i', token, hd, htoken⟩
            rw [hdecode] at hd
            cases hd
            rw [hslot] at htoken
            cases htoken
          refine iff_of_false (fun h => ?_) (not_lt.2 (List.getElem?_eq_none_iff.1 hslot))
          have hbearer := (h hnot).1
          simp only [Tokens.getOwner, hslot] at hbearer
          cases hbearer
      | some o =>
          refine iff_of_true (fun hnot => ?_) (List.getElem?_eq_some_iff.1 hslot).1
          cases o with
          | none => simp [Tokens.getOwner, hslot]
          | some token => exact absurd ⟨canister, i, token, hdecode, hslot⟩ hnot

end Ext

namespace Http

variable {H : Host} {s : Site}

/-- **The reads that are answered**, by URLs and by token identifiers. -/
theorem reads_answered_iff (D : Deployment) (hledger : s.tokens.ledger.length = s.supply.toNat)
    (hmetadata : s.tokens.metadata.length = s.supply.toNat) :
    (∀ url, Answers H s url ↔ Safe H s url) ∧
      ∀ tokenId, Ext.Refuses D s.tokens tokenId ↔
        ∀ canister i, D.decode tokenId = .ok (canister, i) → i.toNat < s.supply.toNat :=
  ⟨answers_iff hledger hmetadata, fun _ => hledger ▸ Ext.refuses_iff⟩

theorem reads_answered_iff_sample : Answers .sample (Site.sample none []) "/0" ∧
    Ext.Refuses .sample (Site.sample none []).tokens "t0" := by
  have hanswered := reads_answered_iff (H := .sample) (s := Site.sample none []) .sample rfl rfl
  have hroute : route .sample "/0" = .ok (.view true .app 0) := by decide
  refine ⟨(hanswered.1 "/0").2 ((safe_view hroute).2 ⟨by decide, ?_⟩), (hanswered.2 "t0").2 ?_⟩
  · exact fun h => absurd h.1 (by decide)
  · intro canister i h
    cases h
    decide

/-- **An index from the supply on traps**, and so does a path of dots. -/
theorem index_outside_traps :
    request .sample (Site.sample none []) "/1" = .error .outOfBounds ∧
      ¬ Answers .sample (.sample none []) "/1" ∧ ¬ Answers .sample (.sample none []) "/." := by
  refine ⟨by decide, ?_, ?_⟩
  · rintro ⟨r, hr, -⟩
    exact absurd hr (by simp [show request .sample (Site.sample none []) "/1" =
      .error .outOfBounds by decide])
  · rintro ⟨r, hr, -⟩
    exact absurd hr (by simp [show request .sample (Site.sample none []) "/." =
      .error .outOfBounds by decide])

end Http

end LegendsNft
