/-
**Who owns what: the views of the ownership ledger.**

Four functions read the owners off the ledger: `launchpadBalanceOf` and the two lists for wallets
compare the owner text exactly, `getRegistry` reports it as it is.  The check of every transfer,
`isOwner`, compares up to letter case instead, and so the views depend on the letter case in which
an owner has been stored: `mint` and a sale store an address text as it is given, `Ext.transfer`
stores it in upper case.  The views agree with the check exactly while every text that is stored is
the account text of each principal it belongs to.

Main definitions:

* `LegendsNft.Bazaar.launchpadBalanceOf`, `LegendsNft.Ext.tokens`, `LegendsNft.Entrepot.tokens_ext`,
  `LegendsNft.Ext.getRegistry` — the views;
* `LegendsNft.Tokens.owned` — the slots of an account by the ownership check;
* `LegendsNft.ViewsAgree` — the views and the check say the same;
* `LegendsNft.Collection.stored` — the owner text a segment stores.

Main results:

* `LegendsNft.viewsAgree_iff` — the views agree when the owner texts are canonical;
* `LegendsNft.Collection.ownerOf_of_segment` — what a segment does to the owners;
* `LegendsNft.Collection.ownership_views_iff` — **the runs in which the views agree**.
-/

import LegendsNft.Collection

set_option relaxedAutoImplicit false
set_option autoImplicit false

namespace LegendsNft

/-! ### The views -/

/-- A loop over the ledger with the counter `i`: what `f` makes of the minted slots.  The counter
stays below a 16-bit number. -/
def Tokens.scan {β : Type} (f : TokenIndex → Token → Option β) (i : TokenIndex) :
    List (Option Token) → List β
  | [] => []
  | none :: ledger => scan f (i + 1) ledger
  | some token :: ledger => (f i token).toList ++ scan f (i + 1) ledger

/-- `launchpadBalanceOf`; `accountIdentifier` is the text of the account of a principal without
subaccount. -/
def Bazaar.launchpadBalanceOf (accountIdentifier : Principal → AccountIdentifier) (t : Tokens)
    (user : Principal) : ℕ :=
  let u := accountIdentifier user
  (t.ledger.filter fun
    | some token => token.owner == u
    | none => false).length

/-- `tokens`. -/
def Ext.tokens (t : Tokens) (accountId : AccountIdentifier) :
    Except CommonError (List TokenIndex) :=
  .ok (Tokens.scan (fun i token => if accountId = token.owner then some i else none) 0 t.ledger)

/-- `getRegistry`. -/
def Ext.getRegistry (t : Tokens) : List (TokenIndex × AccountIdentifier) :=
  Tokens.scan (fun i token => some (i, token.owner)) 0 t.ledger

/-- `tokens_ext`; the third component is always `null`. -/
def Entrepot.tokens_ext (s : Entrepot) (t : Tokens) (accountId : AccountIdentifier) :
    Except CommonError (List (TokenIndex × Option Listing × Option Blob)) :=
  .ok (Tokens.scan (fun i token =>
    if accountId = token.owner then some (i, s.listings.get i, none) else none) 0 t.ledger)

/-! ### The slots in order -/

namespace Tokens

/-- The indices of the ledger, in increasing order. -/
def indices (t : Tokens) : List TokenIndex := (List.range t.ledger.length).map UInt32.ofNat

/-- The indices that an account owns by the ownership check, in increasing order. -/
def owned (t : Tokens) (D : Deployment) (a : AccountIdentifier) : List TokenIndex :=
  t.indices.filter fun i => t.Owns D a i

theorem ownerOf_ofNat {t : Tokens} {n : ℕ} (h : n < t.ledger.length) :
    t.ownerOf (UInt32.ofNat n) = t.ledger[n].map Token.owner := by
  have hn : (UInt32.ofNat n).toNat = n :=
    UInt32.toNat_ofNat_of_lt' (lt_trans (lt_trans h t.size_lt) (by decide))
  rw [ownerOf, hn, List.getElem?_eq_getElem h]
  cases t.ledger[n] <;> rfl

theorem mem_indices {t : Tokens} {i : TokenIndex} {x : AccountIdentifier}
    (h : t.ownerOf i = some x) : i ∈ t.indices := by
  have hlt : i.toNat < t.ledger.length := by
    by_contra hge
    rw [ownerOf, List.getElem?_eq_none (not_lt.1 hge)] at h
    cases h
  exact List.mem_map.2 ⟨i.toNat, List.mem_range.2 hlt, UInt32.ofNat_toNat⟩

/-- A loop over the rest of the ledger, whose result depends on the owners only. -/
theorem scan_eq_range' {β : Type} {f : TokenIndex → Token → Option β}
    (g : TokenIndex → AccountIdentifier → Option β) (hf : ∀ i token, f i token = g i token.owner)
    (l : List (Option Token)) (n : ℕ) : scan f (UInt32.ofNat n) l =
      (List.range' n l.length).filterMap fun k =>
        ((l[k - n]?.join).map Token.owner).bind (g (UInt32.ofNat k)) := by
  induction l generalizing n with
  | nil => rfl
  | cons o l ih =>
      have hnext : UInt32.ofNat n + 1 = UInt32.ofNat (n + 1) := (UInt32.ofNat_add n 1).symm
      have hrest : (List.range' (n + 1) l.length).filterMap (fun k =>
          (((o :: l)[k - n]?.join).map Token.owner).bind (g (UInt32.ofNat k))) =
          scan f (UInt32.ofNat n + 1) l := by
        rw [hnext, ih]
        refine List.filterMap_congr fun k hk => ?_
        obtain ⟨m, hm⟩ := Nat.exists_eq_add_of_le (List.mem_range'_1.1 hk).1
        have hshift : k - n = m + 1 ∧ k - (n + 1) = m := by omega
        rw [hshift.1, hshift.2, List.getElem?_cons_succ]
      rw [List.length_cons, List.range'_succ, List.filterMap_cons, hrest, Nat.sub_self,
        List.getElem?_cons_zero]
      cases o with
      | none => rfl
      | some token =>
          rw [scan, hf]
          cases h : g (UInt32.ofNat n) token.owner <;> simp [h]

/-- **A loop over the ledger** goes through the owners in order. -/
theorem scan_eq {β : Type} {f : TokenIndex → Token → Option β}
    (g : TokenIndex → AccountIdentifier → Option β) (hf : ∀ i token, f i token = g i token.owner)
    (t : Tokens) : scan f 0 t.ledger = t.indices.filterMap fun i => (t.ownerOf i).bind (g i) := by
  rw [indices, List.filterMap_map, List.range_eq_range']
  refine (scan_eq_range' g hf t.ledger 0).trans (List.filterMap_congr fun k hk => ?_)
  have hlt : k < t.ledger.length := by
    have hrange := (List.mem_range'_1.1 hk).2
    omega
  rw [Function.comp_apply, ownerOf_ofNat hlt, Nat.sub_zero, List.getElem?_eq_getElem hlt]
  rfl

/-- The indices whose owner text is this one. -/
def exactly (t : Tokens) (a : AccountIdentifier) : List TokenIndex :=
  t.indices.filter fun i => t.ownerOf i = some a

/-- A loop over the slots with this owner text. -/
theorem scan_owner {β : Type} (t : Tokens) (a : AccountIdentifier) (h : TokenIndex → β) :
    scan (fun i token => if a = token.owner then some (h i) else none) 0 t.ledger =
      (t.exactly a).map h := by
  rw [scan_eq (fun i owner => if a = owner then some (h i) else none) fun _ _ => rfl, exactly,
    ← List.filterMap_eq_map, List.filterMap_filter]
  refine List.filterMap_congr fun i _ => ?_
  cases ho : t.ownerOf i with
  | none => simp
  | some owner => simp [eq_comm]

end Tokens

/-! ### The views compare exactly -/

open Tokens

theorem Ext.tokens_eq (t : Tokens) (a : AccountIdentifier) :
    Ext.tokens t a = .ok (t.exactly a) := by
  rw [Ext.tokens, scan_owner t a fun i => i, List.map_id']

theorem Entrepot.tokens_ext_eq (s : Entrepot) (t : Tokens) (a : AccountIdentifier) :
    s.tokens_ext t a = .ok ((t.exactly a).map fun i => (i, s.listings.get i, none)) := by
  rw [Entrepot.tokens_ext, scan_owner]

/-- The number of slots with this owner text. -/
theorem length_filter_owner (a : AccountIdentifier) (l : List (Option Token)) (i : TokenIndex) :
    (l.filter fun
      | some token => token.owner == a
      | none => false).length =
    (scan (fun i token => if a = token.owner then some i else none) i l).length := by
  induction l generalizing i with
  | nil => rfl
  | cons o l ih =>
      cases o with
      | none => exact ih (i + 1)
      | some token =>
          by_cases h : token.owner = a
          · simp [scan, h, ← ih (i + 1)]
          · simp [scan, h, Ne.symm h, ← ih (i + 1)]

theorem Bazaar.launchpadBalanceOf_eq (accountIdentifier : Principal → AccountIdentifier)
    (t : Tokens) (p : Principal) : Bazaar.launchpadBalanceOf accountIdentifier t p =
      (t.exactly (accountIdentifier p)).length := by
  rw [Bazaar.launchpadBalanceOf, length_filter_owner (accountIdentifier p) t.ledger 0,
    scan_owner t _ fun i => i, List.map_id']

/-- The registry has each minted token with its owner. -/
theorem Ext.mem_getRegistry {t : Tokens} {i : TokenIndex} {x : AccountIdentifier}
    (h : t.ownerOf i = some x) : (i, x) ∈ Ext.getRegistry t := by
  rw [Ext.getRegistry, scan_eq (fun i owner => some (i, owner)) fun _ _ => rfl, List.mem_filterMap]
  exact ⟨i, mem_indices h, by rw [h]; rfl⟩

/-! ### Views and checks -/

variable (D : Deployment) (accountIdentifier : Principal → AccountIdentifier)

/-- **The views agree with the ownership check**: for every principal the balance and the two lists
are those of the indices its account owns, and the registry reports what `bearer` does. -/
structure ViewsAgree (t : Tokens) (s : Entrepot) : Prop where
  balance : ∀ p, Bazaar.launchpadBalanceOf accountIdentifier t p =
    (t.owned D (accountIdentifier p)).length
  tokens : ∀ p, Ext.tokens t (accountIdentifier p) = .ok (t.owned D (accountIdentifier p))
  tokens_ext : ∀ p, s.tokens_ext t (accountIdentifier p) =
    .ok ((t.owned D (accountIdentifier p)).map fun i => (i, s.listings.get i, none))
  registry : ∀ tokenId p i, D.decode tokenId = .ok (p, i) → t.ownerOf i ≠ none →
    ∃ owner, Ext.bearer D t tokenId = .ok (.ok owner) ∧ (i, owner) ∈ Ext.getRegistry t

/-- An owner text that is the account text of every principal it belongs to. -/
def Canonical (x : AccountIdentifier) : Prop :=
  ∀ p, D.upper (accountIdentifier p) = D.upper x → accountIdentifier p = x

variable {D accountIdentifier}

/-- `bearer` reports the owner of a minted token. -/
theorem Ext.bearer_of_ownerOf {t : Tokens} {tokenId : TokenIdentifier} {p : Principal}
    {i : TokenIndex} {x : AccountIdentifier} (hd : D.decode tokenId = .ok (p, i))
    (h : t.ownerOf i = some x) : Ext.bearer D t tokenId = .ok (.ok x) := by
  unfold Tokens.ownerOf at h
  split at h
  · rename_i token hslot
    cases h
    simp only [Ext.bearer, hd, Tokens.getOwner, hslot]
  · cases h

/-- **The views agree** when the owner texts are canonical, and only then. -/
theorem viewsAgree_iff {t : Tokens} {s : Entrepot} : ViewsAgree D accountIdentifier t s ↔
    ∀ i x, t.ownerOf i = some x → Canonical D accountIdentifier x := by
  constructor
  · intro h i x hx p hp
    have hmem : i ∈ t.owned D (accountIdentifier p) :=
      List.mem_filter.2 ⟨mem_indices hx, decide_eq_true ⟨x, hx, hp⟩⟩
    have htokens := h.tokens p
    rw [Ext.tokens_eq, Except.ok.injEq] at htokens
    rw [← htokens, exactly, List.mem_filter] at hmem
    have howner := of_decide_eq_true hmem.2
    rw [hx, Option.some_inj] at howner
    exact howner.symm
  · intro h
    have hexactly (p : Principal) :
        t.exactly (accountIdentifier p) = t.owned D (accountIdentifier p) := by
      refine List.filter_congr fun i _ => decide_eq_decide.2 ?_
      constructor
      · exact fun howner => ⟨_, howner, rfl⟩
      · rintro ⟨x, hx, hp⟩
        rw [hx, h i x hx p hp]
    refine ⟨?_, ?_, ?_, ?_⟩
    · intro p
      rw [Bazaar.launchpadBalanceOf_eq, hexactly]
    · intro p
      rw [Ext.tokens_eq, hexactly]
    · intro p
      rw [Entrepot.tokens_ext_eq, hexactly]
    · intro tokenId p i hd hminted
      obtain ⟨x, hx⟩ := Option.ne_none_iff_exists'.1 hminted
      exact ⟨x, Ext.bearer_of_ownerOf hd hx, Ext.mem_getRegistry hx⟩

namespace Collection

/-! ### The owner texts that are stored -/

/-- **The owner text a segment stores**: of the user it mints to, of the receiver of a transfer, in
upper case, or of the buyer of a sale. -/
def stored (H : Host) (w : World) : Source → Option AccountIdentifier
  | .call (.market (.mint caller to')) =>
      match w.tokens.mint H.deployment w.now caller (w.canister.admins.isAdmin caller) to' with
      | .ok (_, .ok _) => some (H.deployment.userAccount to')
      | _ => none
  | .call (.market (.transfer caller request)) =>
      match Ext.transfer H.deployment w.entrepot w.tokens w.now caller request with
      | .ok (_, .await _) => some (H.deployment.upper (H.deployment.userAccount request.to'))
      | _ => none
  | .resume (.mint to') .run =>
      match w.tokens.mint H.deployment w.now H.deployment.cid
          (w.canister.admins.isAdmin H.deployment.cid) (.principal to') with
      | .ok (_, .ok _) => some (H.deployment.userAccount (.principal to'))
      | _ => none
  | .resume (.market (.reported f balance _)) (.market .run) =>
      match w.entrepot.settleResume H.deployment w.tokens w.now f balance with
      | .ok (_, _, .await _) => some f.transaction.to'
      | _ => none
  | _ => none

/-- Nothing is stored, or one slot gets the owner text that is. -/
def Overwrites (t t' : Tokens) : Option AccountIdentifier → Prop
  | none => ∀ j, t'.ownerOf j = t.ownerOf j
  | some x => ∃ i, ∀ j, t'.ownerOf j = if j = i then some x else t.ownerOf j

variable {H : Host}

/-- What `mint` stores. -/
theorem overwrites_of_mint {t : Tokens} {now : Time} {caller : Principal} {isAdmin : Bool}
    {to' : User} {tokens : Tokens} {r : Except Text ℕ}
    (h : t.mint H.deployment now caller isAdmin to' = .ok (tokens, r)) :
    Overwrites t tokens (match r with
      | .ok _ => some (H.deployment.userAccount to')
      | .error _ => none) := by
  rcases Tokens.mint_eq_ok h with ⟨n, hn, rfl, rfl⟩ | ⟨-, rfl, rfl⟩
  · obtain ⟨hlt, -, -⟩ := List.findIdx?_eq_some_iff_getElem.1 hn
    have hnat : (UInt32.ofNat n).toNat = n :=
      UInt32.toNat_ofNat_of_lt' (lt_trans (lt_trans hlt t.size_lt) (by decide))
    refine ⟨UInt32.ofNat n, fun j => ?_⟩
    have hlt' : (UInt32.ofNat n).toNat < t.ledger.length := hnat.symm ▸ hlt
    have hwrite : (t.write (UInt32.ofNat n).toNat
        ⟨now, H.deployment.userAccount to', "N/A"⟩).ownerOf j = _ := Tokens.ownerOf_write hlt'
    rwa [hnat] at hwrite
  · exact fun j => rfl

/-- A move that is no mint, no transfer and no settlement leaves the tokens alone. -/
theorem tokens_of_move {D : Deployment} {w : World} {src : LegendsNft.Source}
    {o : LegendsNft.Step} (h : LegendsNft.Move D w src o)
    (hmint : ∀ caller to', src ≠ .call (.mint caller to'))
    (htransfer : ∀ caller request, src ≠ .call (.transfer caller request))
    (hsettle : ∀ f balance k, src ≠ .resume (.reported f balance k) .run) :
    o.state.tokens = w.tokens := by
  cases h with
  | mint => exact absurd rfl (hmint _ _)
  | extTransfer => exact absurd rfl (htransfer _ _)
  | finalized => exact absurd rfl (hsettle _ _ _)
  | gaveUp => exact absurd rfl (hsettle _ _ _)
  | idle => rfl
  | relay => rfl
  | tick => rfl
  | deposit => rfl
  | listBegan => rfl
  | lockBegan => rfl
  | sent => rfl
  | queueStart => rfl
  | queueStep => rfl
  | deleted => rfl
  | listed => rfl
  | delisted => rfl
  | locked => rfl
  | read => rfl
  | report => rfl
  | executed => rfl
  | rejected => rfl

theorem ownerOf_of_market_call {w : World} {i : LegendsNft.Input} {o : LegendsNft.Step}
    (h : LegendsNft.call H.deployment w i = some o) :
    Overwrites w.tokens o.state.tokens (stored H w (.call (.market i))) := by
  by_cases hmint : ∃ caller to', i = .mint caller to'
  · obtain ⟨caller, to', rfl⟩ := hmint
    rw [LegendsNft.call] at h
    split at h
    · rename_i hm
      cases h
      simp only [stored, hm]
      exact fun j => rfl
    · rename_i r hm
      cases h
      have hover := overwrites_of_mint hm
      cases r <;> simp only [stored, hm] <;> exact hover
  by_cases htransfer : ∃ caller request, i = .transfer caller request
  · obtain ⟨caller, request, rfl⟩ := htransfer
    rw [LegendsNft.call] at h
    split at h
    · rename_i ht
      cases h
      simp only [stored, ht]
      exact fun j => rfl
    · rename_i tokens _ ht
      cases h
      simp only [stored, ht]
      obtain rfl := transfer_eq_ret ht
      exact fun j => rfl
    · rename_i index ht
      cases h
      simp only [stored, ht]
      obtain ⟨p, -, -, -, ht⟩ := transfer_eq_await ht
      exact ⟨index, Tokens.ownerOf_of_transfer ht⟩
  -- no other call of the market writes the ledger
  have hnone : stored H w (.call (.market i)) = none := by
    cases i <;> first
      | rfl
      | exact absurd ⟨_, _, rfl⟩ hmint
      | exact absurd ⟨_, _, rfl⟩ htransfer
  have hkept := tokens_of_move (move_of_call h)
    (fun caller to' heq => hmint ⟨caller, to', Actor.Source.call.inj heq⟩)
    (fun caller request heq => htransfer ⟨caller, request, Actor.Source.call.inj heq⟩)
    (fun _ _ _ => by simp)
  rw [hnone]
  exact fun j => congrArg (fun t => t.ownerOf j) hkept

/-- What `settle` does to the tokens when it is told the balance: a transfer, if it goes on. -/
theorem tokens_of_settleResume {D : Deployment} {s s' : Entrepot} {tokens tokens' : Tokens}
    {now : Time} {f : Entrepot.SettleFrame} {balance : UInt64}
    {r : Progress (Except CommonError Unit) Unit}
    (h : s.settleResume D tokens now f balance = .ok (s', tokens', r)) :
    match r with
    | .ret _ => tokens' = tokens
    | .await _ => tokens.transfer D now f.index f.transaction.from' f.transaction.to' =
        .ok tokens' := by
  rw [Entrepot.settleResume] at h
  split at h
  · cases h
    rfl
  · split at h
    · cases h
    · rename_i hfin
      cases h
      obtain ⟨jobs, -, ht⟩ := Entrepot.sale_of_finalize hfin
      exact ht

theorem ownerOf_of_market_resume {w : World} {k : LegendsNft.Task} {r : LegendsNft.Wake}
    {o : LegendsNft.Step} (h : LegendsNft.resume H.deployment w k r = some o) :
    Overwrites w.tokens o.state.tokens (stored H w (.resume (.market k) (.market r))) := by
  by_cases hsettle : ∃ f balance k', k = .reported f balance k' ∧ r = .run
  · obtain ⟨f, balance, k', rfl, rfl⟩ := hsettle
    rw [LegendsNft.resume] at h
    split at h
    · rename_i hs
      cases h
      simp only [stored, hs]
      exact fun j => rfl
    · rename_i s tokens _ hs
      cases h
      simp only [stored, hs]
      obtain rfl : tokens = w.tokens := tokens_of_settleResume hs
      exact fun j => rfl
    · rename_i s tokens hs
      cases h
      simp only [stored, hs]
      exact ⟨f.index, Tokens.ownerOf_of_transfer (tokens_of_settleResume hs)⟩
  have hnone : stored H w (.resume (.market k) (.market r)) = none := by
    cases k <;> cases r <;> first
      | rfl
      | exact absurd ⟨_, _, _, rfl, rfl⟩ hsettle
  have hkept := tokens_of_move (move_of_resume h) (fun _ _ => by simp) (fun _ _ => by simp)
    (fun f balance k' heq => hsettle ⟨f, balance, k', by cases heq; exact ⟨rfl, rfl⟩⟩)
  rw [hnone]
  exact fun j => congrArg (fun t => t.ownerOf j) hkept

/-- **What a segment does to the owners**: it stores its owner text in one slot, if it has one. -/
theorem ownerOf_of_segment {w : World} {src : Source} {o : Step}
    (h : (program H).segment w src = some o) :
    Overwrites w.tokens o.state.tokens (stored H w src) := by
  cases src with
  | call i =>
      replace h : call H w i = some o := h
      cases i with
      | market i =>
          obtain ⟨o', ho', rfl⟩ := Option.map_eq_some_iff.1 h
          exact ownerOf_of_market_call ho'
      | launchpadMint caller to' =>
          rw [call] at h
          split at h <;> cases h <;> exact fun j => rfl
      | configureMetadata caller conf =>
          rw [call] at h
          split at h
          · cases h
            exact fun j => rfl
          · rename_i hconf
            cases h
            intro j
            simp only [World.setTokens, World.tokens, Tokens.ownerOf,
              (Tokens.configureMetadata_eq_ok hconf).2.2]
      | shuffleMetadata caller =>
          rw [call] at h
          split at h <;> cases h <;> exact fun j => rfl
      | addAdmin caller p =>
          rw [call] at h
          split at h <;> cases h <;> exact fun j => rfl
      | removeAdmin caller p =>
          rw [call] at h
          split at h <;> cases h <;> exact fun j => rfl
  | resume k r =>
      replace h : resume H w k r = some o := h
      unfold resume at h
      split at h
      · obtain ⟨o', ho', rfl⟩ := Option.map_eq_some_iff.1 h
        exact ownerOf_of_market_resume ho'
      · split at h
        · rename_i hm
          cases h
          simp only [stored, hm]
          exact fun j => rfl
        · rename_i r hm
          cases h
          have hover := overwrites_of_mint hm
          cases r <;> simp only [stored, hm] <;> exact hover
      · cases h
        exact fun j => rfl
      · split at h
        · cases h
          exact fun j => rfl
        · rename_i hs
          cases h
          intro j
          simp only [World.setTokens, World.tokens, Tokens.ownerOf,
            (Tokens.shuffleResume_eq_ok hs).2]
      · cases h
        exact fun j => rfl
      · cases h
        exact fun j => rfl
      · cases h

/-! ### Runs -/

variable (H : Host) (accountIdentifier : Principal → AccountIdentifier)

/-- What a segment stores is the account text of each principal it belongs to. -/
def StoresCanonical (w : World) (src : Source) : Prop :=
  ∀ x, stored H w src = some x → Canonical H.deployment accountIdentifier x

/-- Every owner text that is stored is canonical. -/
def canonical : Guard where
  call := fun c i => StoresCanonical H accountIdentifier c.state (.call i)
  resume := fun c k r => StoresCanonical H accountIdentifier c.state (.resume k r)
  restart := fun _ _ => True

/-- The views agree with the ownership check in a configuration. -/
def Agree (c : Config) : Prop :=
  ViewsAgree H.deployment accountIdentifier c.state.tokens c.state.entrepot

variable {H accountIdentifier}

theorem segment_canonical {c : Config} {src : Source} :
    (canonical H accountIdentifier).segment c src ↔
      StoresCanonical H accountIdentifier c.state src := by
  cases src <;> exact Iff.rfl

/-- A segment keeps the views in agreement exactly when it stores nothing, or a canonical text. -/
theorem agree_of_segment_iff {c : Config} (src : Source) {o : Step} (pool : List Task)
    (h : (program H).segment c.state src = some o) (hc : Agree H accountIdentifier c) :
    Agree H accountIdentifier ⟨o.state, pool, o.events ++ c.history⟩ ↔
      StoresCanonical H accountIdentifier c.state src := by
  have hbefore := viewsAgree_iff.1 hc
  have hover := ownerOf_of_segment h
  rw [Agree, viewsAgree_iff, StoresCanonical]
  cases hs : stored H c.state src with
  | none =>
      rw [hs] at hover
      constructor
      · intro _ x hx
        cases hx
      · intro _ i x hx
        rw [hover] at hx
        exact hbefore i x hx
  | some x =>
      rw [hs] at hover
      obtain ⟨i, hi⟩ := hover
      constructor
      · rintro hafter x' hx'
        cases hx'
        exact hafter i x (by rw [hi, if_pos rfl])
      · intro hstored j y hy
        rw [hi] at hy
        split_ifs at hy
        · exact hstored y hy
        · exact hbefore j y hy

/-- The views agree along the runs that store canonical texts. -/
theorem agree_of_run {c₀ c : Config} (h₀ : Initial c₀)
    (h : Actor.Run (program H) (canonical H accountIdentifier) c₀ c) :
    Agree H accountIdentifier c := by
  refine h.multiset_induct (J := fun w _ _ =>
    ViewsAgree H.deployment accountIdentifier w.tokens w.entrepot) ?_ ?_ ?_
  · intro c src m o _ hagree hg ho
    exact (agree_of_segment_iff src [] ho hagree).2 (segment_canonical.1 hg)
  · intro c supply o hagree _ ho
    obtain ⟨o', ho', rfl⟩ := Option.map_eq_some_iff.1 ho
    obtain ⟨canister, hup, rfl⟩ := restart_eq_some ho'
    refine viewsAgree_iff.2 fun i x hx => viewsAgree_iff.1 hagree i x ?_
    exact (Canister.ownerOf_upgrade hup i).symm.trans hx
  · obtain ⟨⟨creator, supply, hfresh⟩, -, -⟩ := h₀
    refine viewsAgree_iff.2 fun i x hx => ?_
    rw [World.tokens, hfresh, Tokens.ownerOf] at hx
    simp [Canister.fresh, List.getElem?_replicate] at hx

/-- **The runs in which the views agree** with the ownership check are those that store canonical
owner texts. -/
theorem ownership_views_iff {c₀ c : Config} (h₀ : Initial c₀) :
    Actor.Run (program H) (canonical H accountIdentifier) c₀ c ↔
      Actor.Run (program H) (Actor.Guard.any.assuming (Agree H accountIdentifier)) c₀ c ∧
        Agree H accountIdentifier c := by
  constructor
  · intro h
    refine ⟨?_, agree_of_run h₀ h⟩
    have hall := h.assume (J := Agree H accountIdentifier) fun d hd => agree_of_run h₀ hd
    refine hall.mono ?_
    intro d a ha
    cases a with
    | call i => exact ⟨ha.1, trivial⟩
    | resume n r => exact fun k hk => ⟨(ha k hk).1, trivial⟩
    | restart u => exact ⟨ha.1, trivial⟩
  · rintro ⟨h, hc⟩
    refine h.strengthen hc ?_
    intro d a d' _ hd hd' _ hs
    rcases (program H).step_cases hs with
      ⟨i, o, rfl, ho, rfl⟩ | ⟨n, r, k, o, rfl, hk, ho, rfl⟩ | ⟨supply, o, rfl, ho, rfl⟩
    · exact (agree_of_segment_iff (.call i) _ ho hd).1 hd'
    · intro k' hk'
      obtain rfl : k = k' := Option.some_inj.1 (hk.symm.trans hk')
      exact (agree_of_segment_iff (.resume k r) _ ho hd).1 hd'
    · exact trivial

/-! ### Sample runs -/

/-- The bytes of a principal in lower-case hexadecimal digits. -/
def hexText (p : Principal) : AccountIdentifier :=
  String.ofList (p.bytes.flatMap fun b => [(b.toNat / 16).digitChar, (b.toNat % 16).digitChar])

/-- A collection whose account texts are hexadecimal. -/
def Host.hex : Host where
  deployment := { Deployment.sample with
    accountText := fun p _ => hexText p
    userAccount := fun u =>
      match u with
      | .address a => a
      | .principal p => hexText p }
  cid := "c"
  launchpad := ⟨[8]⟩

/-- The account text of a principal is canonical. -/
theorem canonical_hexText (q : Principal) : Canonical Host.hex.deployment hexText (hexText q) := by
  have hdigit : ∀ n < 16, n.digitChar.toUpper.toLower = n.digitChar := by decide
  have hlower (p : Principal) : (Host.hex.deployment.upper (hexText p)).toList.map Char.toLower =
      (hexText p).toList := by
    simp only [Deployment.upper, Host.hex, Deployment.sample, hexText, String.toList_ofList,
      List.map_map]
    refine (List.map_congr_left fun c hc => ?_).trans (List.map_id _)
    obtain ⟨b, -, hb⟩ := List.mem_flatMap.1 hc
    have hlt := b.toNat_lt
    rcases List.mem_pair.1 hb with rfl | rfl
    · exact hdigit _ (by omega)
    · exact hdigit _ (by omega)
  intro p hp
  rw [← String.toList_inj, ← hlower p, ← hlower q, hp]

/-- A token is minted to a principal. -/
def mintRun : List Choice := [.call (.market (.mint ⟨[7]⟩ (.principal ⟨[1]⟩)))]

theorem ownership_views_iff_sample : ∃ c, (program .hex).exec Config.sample mintRun = some c ∧
    c.state.tokens.ownerOf 0 = some "01" ∧ Agree .hex hexText c := by
  obtain ⟨c, hc, howner⟩ := (by decide : ∃ c ∈ (program .hex).exec Config.sample mintRun,
    c.state.tokens.ownerOf 0 = some "01")
  have hallowed : (canonical .hex hexText).AllowsAll (program .hex) Config.sample mintRun := by
    refine ⟨?_, fun _ _ => trivial⟩
    intro x hx
    cases hx
    exact canonical_hexText ⟨[1]⟩
  exact ⟨c, hc, howner,
    ((ownership_views_iff Config.initial_sample).1 (Actor.run_of_exec hallowed hc)).2⟩

/-- **A transfer hides the token from the views**: its new owner is stored in upper case. -/
theorem transferred_hidden : ∃ c, (program .hex).exec Config.sample
      (mintRun ++ [.call (.market (.transfer ⟨[1]⟩ ⟨.principal ⟨[1]⟩, .principal ⟨[171]⟩, "t0",
        none⟩))]) = some c ∧
    c.state.tokens.isOwner Host.hex.deployment (hexText ⟨[171]⟩) 0 = .ok true ∧
    Bazaar.launchpadBalanceOf hexText c.state.tokens ⟨[171]⟩ = 0 ∧ ¬ Agree .hex hexText c := by
  obtain ⟨c, hc, hisOwner, hbalance⟩ := (by decide : ∃ c ∈ (program .hex).exec Config.sample
      (mintRun ++ [.call (.market (.transfer ⟨[1]⟩ ⟨.principal ⟨[1]⟩, .principal ⟨[171]⟩, "t0",
        none⟩))]),
    c.state.tokens.isOwner Host.hex.deployment (hexText ⟨[171]⟩) 0 = .ok true ∧
      Bazaar.launchpadBalanceOf hexText c.state.tokens ⟨[171]⟩ = 0)
  refine ⟨c, hc, hisOwner, hbalance, ?_⟩
  intro hagree
  have howns : (0 : TokenIndex) ∈ c.state.tokens.owned Host.hex.deployment (hexText ⟨[171]⟩) := by
    have h := Tokens.isOwner_eq_true.1 hisOwner
    obtain ⟨x, hx, -⟩ := id h
    exact List.mem_filter.2 ⟨Tokens.mem_indices hx, decide_eq_true h⟩
  have hlength := hagree.balance ⟨[171]⟩
  rw [hbalance] at hlength
  exact absurd (List.length_pos_of_mem howns) (by omega)

end Collection

end LegendsNft
