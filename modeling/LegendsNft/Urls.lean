/-
**The URLs of a view.**

A view of a token has up to four URLs: a segment with the index and an extension, a handler with the
index, the query by index, and a wallet's query with the token identifier.  The index is written in
decimal digits, with any number of leading zeros.  The routes of these URLs are computed here for
every index; they are the same but for whether the metadata is read early, so the responses for a
minted token agree.

Main definitions:

* `LegendsNft.Http.TokenText` — the text of a token identifier;
* `LegendsNft.Http.IsUrl` — the URLs of a view of a token.

Main results:

* `LegendsNft.Http.route_root`, `LegendsNft.Http.route_handler`, `LegendsNft.Http.route_tokenindex`,
  `LegendsNft.Http.route_tokenid` — the routes;
* `LegendsNft.Http.views_agree` — **the URLs of a view have one response**.
-/

import LegendsNft.Answers

set_option relaxedAutoImplicit false
set_option autoImplicit false

namespace LegendsNft

namespace Http

variable {H : Host} {s : Site}

/-! ### Texts -/

theorem toList_ne_nil {t : Text} (h : t ≠ "") : t.toList ≠ [] := by
  rwa [ne_eq, String.toList_eq_nil_iff]

/-- A path of one segment. -/
theorem tokens_segment {key : Text} (hne : key ≠ "") (h : '/' ∉ key.toList) :
    tokens ("/" ++ key) "/" = [key] := by
  have htext : ("/" ++ key).toList = [] ++ '/' :: key.toList := by
    rw [String.toList_append]
    rfl
  have hcut := Splitting.tokens_cons_of_notMem (a := '/') (l := []) (by simp) key.toList
  rw [if_pos rfl, List.nil_append, Splitting.tokens_of_notMem h, if_neg (toList_ne_nil hne)] at hcut
  rw [tokens, htext]
  exact (congrArg (List.map String.ofList) hcut).trans (by simp)

/-- A path of two segments. -/
theorem tokens_segments (key : Text) {name : Text} (hkey : key ≠ "") (hkey' : '/' ∉ key.toList)
    (hname : name ≠ "") (hname' : '/' ∉ name.toList) :
    tokens ("/" ++ key ++ "/" ++ name) "/" = [key, name] := by
  have htext : ("/" ++ key ++ "/" ++ name).toList =
      [] ++ '/' :: (key.toList ++ '/' :: name.toList) := by
    simp only [String.toList_append, List.append_assoc]
    rfl
  have hcut := Splitting.tokens_cons_of_notMem (a := '/') (l := []) (by simp)
    (key.toList ++ '/' :: name.toList)
  rw [if_pos rfl, List.nil_append, Splitting.tokens_cons_of_notMem hkey',
    if_neg (toList_ne_nil hkey), Splitting.tokens_of_notMem hname',
    if_neg (toList_ne_nil hname)] at hcut
  rw [tokens, htext]
  exact (congrArg (List.map String.ofList) hcut).trans (by simp)

/-- The value of a query whose keyword comes after this text. -/
theorem tokens_query (front : Text) {keyword value : Text} (hfront : front ≠ "")
    (hkeyword : keyword ≠ "") (hbefore : Splitting.Before keyword.toList front.toList)
    (hvalue : value ≠ "") (hvalue' : contains value keyword = false) :
    tokens (front ++ keyword ++ value) keyword = [front, value] := by
  have htext : (front ++ keyword ++ value).toList =
      front.toList ++ keyword.toList ++ value.toList := by
    simp only [String.toList_append]
  rw [tokens, htext, Splitting.tokens_append (toList_ne_nil hkeyword) hbefore,
    if_neg (toList_ne_nil hfront), Splitting.tokens_of_not_contains hvalue',
    if_neg (toList_ne_nil hvalue)]
  simp

theorem notMem_numeral {zeros n : ℕ} {c : Char} (h : ¬ c.isDigit := by decide) :
    c ∉ (numeral zeros n).toList := fun hc => h (isDigit_of_mem_numeral hc)

theorem numeral_ne_empty (zeros n : ℕ) : numeral zeros n ≠ "" := fun h =>
  numeral_ne_nil zeros n (String.toList_eq_nil_iff.2 h)

/-! ### Paths -/

/-- A URL without this letter is no query. -/
theorem route_of_notMem {url : Text} (h : 'k' ∉ url.toList) :
    route H url = pathRoute H (tokens url "/") := by
  have hid : contains url "tokenid" = false := Splitting.contains_eq_false (by decide) h
  have hindex : contains url "tokenindex" = false := Splitting.contains_eq_false (by decide) h
  rw [route, hid, hindex]
  rfl

/-- A segment with an index is no handler's. -/
theorem routeOf_numeral (zeros n : ℕ) (rest : Text) : routeOf (numeral zeros n ++ rest) = none := by
  obtain ⟨c, hc⟩ := List.exists_mem_of_ne_nil _ (numeral_ne_nil zeros n)
  refine routeOf_eq_none (c := c) (by simp [String.toList_append, hc]) ?_
  rintro (hlower | rfl)
  · have hdigit := isDigit_of_mem_numeral hc
    rw [Char.isDigit, Bool.and_eq_true, decide_eq_true_eq, decide_eq_true_eq] at hdigit
    exact absurd (UInt32.le_trans (le_val_of_isLower hlower) hdigit.2) (by decide)
  · exact absurd (isDigit_of_mem_numeral hc) (by decide)

/-- The parts of a segment whose first one is an index. -/
theorem rootRoute_numeral (zeros n : ℕ) (parts : List Text) :
    rootRoute H (numeral zeros n :: parts) =
      .ok (.view true (rootView H (numeral zeros n :: parts)) n) := by
  refine bind_eq_ok.2 ⟨_, rfl, bind_eq_ok.2 ⟨_, natFromText_numeral zeros n, rfl⟩⟩

/-- A segment that is an index. -/
theorem route_root (zeros n : ℕ) :
    route H ("/" ++ numeral zeros n) = .ok (.view true .app n) := by
  have hletter : 'k' ∉ ("/" ++ numeral zeros n).toList := by
    rw [String.toList_append, List.mem_append, not_or]
    exact ⟨by decide, notMem_numeral⟩
  have hparts : tokens (numeral zeros n) "." = [numeral zeros n] := by
    have hdot : '.' ∉ (numeral zeros n).toList := notMem_numeral
    have hcut := Splitting.tokens_of_notMem hdot
    rw [if_neg (numeral_ne_nil zeros n)] at hcut
    exact (congrArg (List.map String.ofList) hcut).trans (by simp)
  have hroute : routeOf (numeral zeros n) = none := by
    simpa using routeOf_numeral zeros n ""
  rw [route_of_notMem hletter, tokens_segment (numeral_ne_empty zeros n)
    notMem_numeral, pathRoute, hroute]
  change rootRoute H (tokens (numeral zeros n) ".") = _
  rw [hparts, rootRoute_numeral]
  rfl

/-- A segment that is an index with an extension. -/
theorem route_extension (zeros n : ℕ) {extension : Text} (hne : extension ≠ "")
    (hchars : ∀ c ∈ extension.toList, c ≠ '/' ∧ c ≠ '.' ∧ c ≠ 'k') :
    route H ("/" ++ (numeral zeros n ++ "." ++ extension)) =
      .ok (.view true (rootView H [numeral zeros n, extension]) n) := by
  have htext : (numeral zeros n ++ "." ++ extension).toList =
      (numeral zeros n).toList ++ '.' :: extension.toList := by
    simp only [String.toList_append, List.append_assoc]
    rfl
  have hne' : numeral zeros n ++ "." ++ extension ≠ "" := by
    intro h
    have hnil := String.toList_eq_nil_iff.2 h
    rw [htext] at hnil
    simp at hnil
  have hslash : '/' ∉ (numeral zeros n ++ "." ++ extension).toList := by
    rw [htext, List.mem_append, List.mem_cons, not_or, not_or]
    exact ⟨notMem_numeral, by decide, fun h => (hchars _ h).1 rfl⟩
  have hletter : 'k' ∉ ("/" ++ (numeral zeros n ++ "." ++ extension)).toList := by
    rw [String.toList_append, List.mem_append, htext, List.mem_append, List.mem_cons, not_or,
      not_or, not_or]
    exact ⟨by decide, notMem_numeral, by decide, fun h => (hchars _ h).2.2 rfl⟩
  have hparts : tokens (numeral zeros n ++ "." ++ extension) "." =
      [numeral zeros n, extension] := by
    have hdot : '.' ∉ (numeral zeros n).toList := notMem_numeral
    have hcut := Splitting.tokens_cons_of_notMem hdot extension.toList
    rw [if_neg (numeral_ne_nil zeros n), Splitting.tokens_of_notMem fun h => (hchars _ h).2.1 rfl,
      if_neg (toList_ne_nil hne)] at hcut
    rw [tokens, htext]
    exact (congrArg (List.map String.ofList) hcut).trans (by simp)
  have hroute : routeOf (numeral zeros n ++ "." ++ extension) = none := by
    rw [String.append_assoc]
    exact routeOf_numeral zeros n _
  rw [route_of_notMem hletter, tokens_segment hne' hslash, pathRoute, hroute]
  change rootRoute H (tokens (numeral zeros n ++ "." ++ extension) ".") = _
  rw [hparts, rootRoute_numeral]

/-- A handler with an index. -/
theorem route_handler (zeros n : ℕ) (key : Text) {v : View} {message : Text}
    (hroute : routeOf key = some (indexRoute v message)) (hk : 'k' ∉ key.toList) :
    route H ("/" ++ key ++ "/" ++ numeral zeros n) = .ok (.view false v n) := by
  obtain ⟨hne, hchars⟩ := chars_of_routeOf hroute
  have hkey : key ≠ "" := fun h => hne (String.toList_eq_nil_iff.2 h)
  have hslash : '/' ∉ key.toList := fun h => absurd (hchars _ h) (by decide)
  have hletter : 'k' ∉ ("/" ++ key ++ "/" ++ numeral zeros n).toList := by
    simp only [String.toList_append, List.mem_append, not_or]
    exact ⟨⟨⟨by decide, hk⟩, by decide⟩, notMem_numeral⟩
  rw [route_of_notMem hletter, tokens_segments key hkey hslash (numeral_ne_empty zeros n)
    notMem_numeral, pathRoute, hroute]
  exact bind_eq_ok.2 ⟨_, natFromText_numeral zeros n, rfl⟩

/-! ### Queries -/

/-- A query by index. -/
theorem route_tokenindex (zeros n : ℕ) :
    route H ("/?tokenindex=" ++ numeral zeros n) = .ok (.tokenIndex n) := by
  have hid : contains ("/?tokenindex=" ++ numeral zeros n) "tokenid" = false := by
    rw [contains, String.toList_append, Splitting.contains_append_of_clash (by decide)]
    exact Splitting.contains_eq_false (a := 't') (by decide) notMem_numeral
  have hindex : contains ("/?tokenindex=" ++ numeral zeros n) "tokenindex" = true := by
    rw [contains, String.toList_append]
    exact Splitting.contains_append_left (by decide) _
  have hvalue : contains (numeral zeros n) "tokenindex=" = false :=
    Splitting.contains_eq_false (a := 't') (by decide) notMem_numeral
  have hparts : tokens ("/?tokenindex=" ++ numeral zeros n) "tokenindex=" =
      ["/?", numeral zeros n] :=
    tokens_query "/?" (by decide) (by decide) (by decide) (numeral_ne_empty zeros n)
      hvalue
  rw [route, hid, hindex]
  refine bind_eq_ok.2 ⟨numeral zeros n, ?_, bind_eq_ok.2 ⟨_, natFromText_numeral zeros n, rfl⟩⟩
  rw [hparts]
  rfl

/-- The words that the URL of a query is searched for. -/
def keywords : List Text :=
  ["tokenid", "tokenindex", "type=card-art", "type=animated", "type=thumbnail"]

/-- The text of a token identifier of this canister: it is read back, and has no keyword. -/
structure TokenText (H : Host) (n : ℕ) (T : Text) : Prop where
  fromText : H.fromText T = some ⟨Stoic.tokenBytes H.cid (UInt32.ofNat n)⟩
  ne_empty : T ≠ ""
  keywords : ∀ k ∈ keywords, contains T k = false

/-- A wallet's query with some parameters before the token identifier. -/
theorem route_tokenid {n : ℕ} {T : Text} (hT : TokenText H n T) (hn : n < 2 ^ 32) (front : Text)
    (hne : front ≠ "") (hbefore : Splitting.Before "tokenid=".toList front.toList) :
    route H (front ++ "tokenid=" ++ T) =
      .ok (.view (queryView (front ++ "tokenid=" ++ T)).1 (queryView (front ++ "tokenid=" ++ T)).2
        n) := by
  have hid : contains (front ++ "tokenid=" ++ T) "tokenid" = true := by
    refine Splitting.contains_iff.2 ⟨front.toList, '=' :: T.toList, ?_⟩
    simp only [String.toList_append, List.append_assoc]
    rfl
  have hvalue : contains T "tokenid=" = false := by
    refine eq_false_of_ne_true fun h => ?_
    have hfront : "tokenid".toList <:+: "tokenid=".toList := by decide
    have hkeyword := hT.keywords "tokenid" (by decide)
    exact Bool.false_ne_true (hkeyword.symm.trans
      (Splitting.contains_iff.2 (hfront.trans (Splitting.contains_iff.1 h))))
  have hindex : (UInt32.ofNat n).toNat = n := Stoic.toNat_ofNat32 hn
  rw [route, hid]
  refine queryRoute_eq_ok.2 ⟨T, _, ?_, hT.fromText, ?_⟩
  · rw [tokens_query front hne (by decide) hbefore hT.ne_empty hvalue]
    rfl
  · rw [Stoic.ofBytes_tokenBytes, hindex]

/-- Whether a keyword is in a wallet's query is decided before the token identifier. -/
theorem contains_query {T front k : Text} (hT : contains T k = false)
    (hclash : Splitting.Clash k.toList front.toList) : contains (front ++ T) k = false := by
  rw [contains, String.toList_append, Splitting.contains_append_of_clash hclash]
  exact hT

theorem contains_query_of_front {T front k : Text} (h : contains front k = true) :
    contains (front ++ T) k = true := by
  rw [contains, String.toList_append]
  exact Splitting.contains_append_left h _

section

variable {n : ℕ} {T : Text} (hT : TokenText H n T) (hn : n < 2 ^ 32)
include hT hn

/-- A wallet's query that begins like this. -/
theorem route_query (front : Text) {whole : Text} {reads : Bool} {v : View}
    (hview : queryView (whole ++ T) = (reads, v))
    (hwhole : front ++ "tokenid=" = whole := by decide) (hne : front ≠ "" := by decide)
    (hbefore : Splitting.Before "tokenid=".toList front.toList := by decide) :
    route H (whole ++ T) = .ok (.view reads v n) := by
  subst hwhole
  rw [route_tokenid hT hn front hne hbefore, hview]

theorem route_query_app : route H ("/?tokenid=" ++ T) = .ok (.view true .app n) := by
  have hview : queryView ("/?tokenid=" ++ T) = (true, .app) := by
    rw [queryView, contains_query (hT.keywords "type=card-art" (by decide)) (by decide),
      contains_query (hT.keywords "type=animated" (by decide)) (by decide),
      contains_query (hT.keywords "type=thumbnail" (by decide)) (by decide)]
    rfl
  exact route_query hT hn "/?" hview

theorem route_query_thumbnail : route H ("/?type=thumbnail&tokenid=" ++ T) =
    .ok (.view true (.preview "side-by-side") n) := by
  have hview : queryView ("/?type=thumbnail&tokenid=" ++ T) =
      (true, .preview "side-by-side") := by
    rw [queryView, contains_query (hT.keywords "type=card-art" (by decide)) (by decide),
      contains_query (hT.keywords "type=animated" (by decide)) (by decide),
      contains_query_of_front (by decide)]
    rfl
  exact route_query hT hn "/?type=thumbnail&" hview

theorem route_query_animated : route H ("/?type=animated&tokenid=" ++ T) =
    .ok (.view true (.preview "animated") n) := by
  have hview : queryView ("/?type=animated&tokenid=" ++ T) = (true, .preview "animated") := by
    rw [queryView, contains_query (hT.keywords "type=card-art" (by decide)) (by decide),
      contains_query_of_front (by decide)]
    rfl
  exact route_query hT hn "/?type=animated&" hview

theorem route_query_flat : route H ("/?type=card-art&tokenid=" ++ T) =
    .ok (.view false .flat n) := by
  have hview : queryView ("/?type=card-art&tokenid=" ++ T) = (false, .flat) := by
    rw [queryView, contains_query_of_front (by decide)]
    rfl
  exact route_query hT hn "/?type=card-art&" hview

end

/-! ### The URLs of a view agree -/

/-- The URLs of the views of a token, by its index or by the text of its identifier. -/
inductive IsUrl (n : ℕ) (T : Text) : View → Text → Prop
  | root (zeros : ℕ) : IsUrl n T .app ("/" ++ numeral zeros n)
  | legend (zeros : ℕ) : IsUrl n T .app ("/legend/" ++ numeral zeros n)
  | tokenid : IsUrl n T .app ("/?tokenid=" ++ T)
  | webp (zeros : ℕ) : IsUrl n T (.preview "side-by-side") ("/" ++ numeral zeros n ++ ".webp")
  | sideBySide (zeros : ℕ) :
      IsUrl n T (.preview "side-by-side") ("/side-by-side-preview/" ++ numeral zeros n)
  | tokenindex (zeros : ℕ) :
      IsUrl n T (.preview "side-by-side") ("/?tokenindex=" ++ numeral zeros n)
  | thumbnail : IsUrl n T (.preview "side-by-side") ("/?type=thumbnail&tokenid=" ++ T)
  | webm (zeros : ℕ) : IsUrl n T (.preview "animated") ("/" ++ numeral zeros n ++ ".webm")
  | animated (zeros : ℕ) : IsUrl n T (.preview "animated") ("/animated-preview/" ++ numeral zeros n)
  | animatedId : IsUrl n T (.preview "animated") ("/?type=animated&tokenid=" ++ T)
  | json (zeros : ℕ) : IsUrl n T .manifest ("/" ++ numeral zeros n ++ ".json")
  | manifest (zeros : ℕ) : IsUrl n T .manifest ("/legend-manifest/" ++ numeral zeros n)

theorem lower_of_isLower {t : Text} (h : t.toList.all Char.isLower = true) : lower H t = t := by
  have hchars := List.all_eq_true.1 h
  rw [lower, List.map_congr_left fun c hc => H.charToLower_of_isLower c (hchars c hc),
    List.map_id', String.ofList_toList]

/-- The route of a segment with one of the known extensions. -/
theorem route_root_extension (zeros n : ℕ) (extension : Text) (hne : extension ≠ "")
    (hchars : extension.toList.all (fun c => c.isLower && c != 'k') = true) {v : View}
    (hview : rootView H [numeral zeros n, extension] = v) :
    route H ("/" ++ numeral zeros n ++ ("." ++ extension)) = .ok (.view true v n) := by
  have hassoc : "/" ++ numeral zeros n ++ ("." ++ extension) =
      "/" ++ (numeral zeros n ++ "." ++ extension) := by
    simp only [String.append_assoc]
  rw [hassoc, route_extension zeros n hne, hview]
  intro c hc
  have hc := List.all_eq_true.1 hchars c hc
  rw [Bool.and_eq_true, bne_iff_ne] at hc
  obtain ⟨hlower, hk⟩ := hc
  refine ⟨?_, ?_, hk⟩
  · rintro rfl
    exact absurd hlower (by decide)
  · rintro rfl
    exact absurd hlower (by decide)

/-- **The routes of the URLs of a view** show it, or are the query by index. -/
theorem route_of_isUrl {n : ℕ} {T : Text} (hT : TokenText H n T) (hn : n < 2 ^ 32) {v : View}
    {url : Text} (h : IsUrl n T v url) : (∃ reads, route H url = .ok (.view reads v n)) ∨
      v = .preview "side-by-side" ∧ route H url = .ok (.tokenIndex n) := by
  cases h with
  | root zeros => exact .inl ⟨_, route_root zeros n⟩
  | legend zeros => exact .inl ⟨_, route_handler zeros n "legend" rfl (by decide)⟩
  | tokenid => exact .inl ⟨_, route_query_app hT hn⟩
  | webp zeros =>
      refine .inl ⟨_, route_root_extension zeros n "webp" (by decide) (by decide) ?_⟩
      rw [rootView, lower_of_isLower (by decide)]
      rfl
  | sideBySide zeros =>
      exact .inl ⟨_, route_handler zeros n "side-by-side-preview" rfl (by decide)⟩
  | tokenindex zeros => exact .inr ⟨rfl, route_tokenindex zeros n⟩
  | thumbnail => exact .inl ⟨_, route_query_thumbnail hT hn⟩
  | webm zeros =>
      refine .inl ⟨_, route_root_extension zeros n "webm" (by decide) (by decide) ?_⟩
      rw [rootView, lower_of_isLower (by decide)]
      rfl
  | animated zeros =>
      exact .inl ⟨_, route_handler zeros n "animated-preview" rfl (by decide)⟩
  | animatedId => exact .inl ⟨_, route_query_animated hT hn⟩
  | json zeros =>
      refine .inl ⟨_, route_root_extension zeros n "json" (by decide) (by decide) ?_⟩
      rw [rootView, lower_of_isLower (by decide)]
      rfl
  | manifest zeros =>
      exact .inl ⟨_, route_handler zeros n "legend-manifest" rfl (by decide)⟩

/-- A URL of a view of a minted token shows the view. -/
theorem request_of_isUrl {n : ℕ} {T : Text} (hT : TokenText H n T) (hn : n < 2 ^ 32)
    (hminted : Minted s n) {legend : Metadata} (hlegend : s.tokens.metadata[n]? = some legend)
    {v : View} {url : Text} (h : IsUrl n T v url) : request H s url = showView H s v n := by
  rw [request_eq]
  rcases route_of_isUrl hT hn h with ⟨reads, hroute⟩ | ⟨rfl, hroute⟩
  · rw [hroute]
    exact respondView_of_minted hminted hlegend reads v
  · rw [hroute]
    rfl

/-- **The URLs of a view have one response.** -/
theorem views_agree {n : ℕ} {T : Text} (hn : n < s.supply.toNat) (hminted : Minted s n)
    (hmetadata : s.tokens.metadata.length = s.supply.toNat) (hT : TokenText H n T) (v : View) :
    ∃ r, ∀ url, IsUrl n T v url → request H s url = .ok r := by
  have hlt : n < 2 ^ 32 := hn.trans (s.supply.toNat_lt.trans (by decide))
  have hlegend : n < s.tokens.metadata.length := hmetadata.symm ▸ hn
  obtain ⟨r, hr, -⟩ := exists_showView (H := H) hminted hlegend hlt v
  refine ⟨r, fun url h => ?_⟩
  rw [request_of_isUrl hT hlt hminted (List.getElem?_eq_getElem hlegend) h, hr]

/-- The text of the first token of a canister. -/
theorem tokenText_sample :
    TokenText .sample 0 "spj3g-4ikor-uwiaa-aaaaa-cmacg-aaqca-aaaaa-a" :=
  ⟨by decide, by decide, by decide⟩

theorem views_agree_sample : ∃ r, ∀ url,
    IsUrl 0 "spj3g-4ikor-uwiaa-aaaaa-cmacg-aaqca-aaaaa-a" .app url →
      request .sample (Site.sample (some sampleToken) [("app", ["preview-app"])]) url = .ok r :=
  views_agree (by decide) ⟨sampleToken, rfl⟩ rfl tokenText_sample .app

end Http

end LegendsNft
