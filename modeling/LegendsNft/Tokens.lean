/-
**The ownership ledger** (`Tokens/lib.mo`).

The ledger is an array with one slot per token, empty while the token is unminted.  Ownership is
compared up to letter case: `isOwner` maps both account texts to upper case.

Main definitions:

* `LegendsNft.Tokens.getOwner`, `LegendsNft.Tokens.isOwner` — reading the ledger;
* `LegendsNft.Tokens.mint`, `LegendsNft.Tokens.transfer` — the two ways a slot is written;
* `LegendsNft.Tokens.getMinted`, `LegendsNft.Tokens.getUnminted` — scans of the ledger;
* `LegendsNft.Tokens.configureMetadata`, `LegendsNft.Tokens.shuffleMetadata` — the metadata;
* `LegendsNft.Tokens.toStable`, `LegendsNft.Tokens.new` — the two halves of an upgrade.

Main results:

* `LegendsNft.Tokens.Owns` — the case-insensitive ownership of a slot, with
  `LegendsNft.Tokens.isOwner_eq_true`;
* `LegendsNft.Tokens.transfer_eq_ok` — what a transfer does, and when it is carried out;
* `LegendsNft.Tokens.ownerOf_of_transfer`, `LegendsNft.Tokens.ownerOf_of_mint`,
  `LegendsNft.Tokens.ownerOf_new` — what each writer does to the owner of every slot.
-/

import LegendsNft.Types

set_option relaxedAutoImplicit false
set_option autoImplicit false

namespace LegendsNft

/-- The state of `Tokens.Factory`.  The ledger is allocated with as many slots as the supply, a
16-bit number, and its size never changes. -/
structure Tokens where
  ledger : List (Option Token)
  metadata : List Metadata
  isShuffled : Bool
  size_lt : ledger.length < 2 ^ 16
  deriving DecidableEq

namespace Tokens

/-! ### Reading the ledger -/

/-- `_getOwner`: the token in a slot; an index outside the ledger traps. -/
def getOwner (t : Tokens) (i : ℕ) : Except Trap (Option Token) :=
  match t.ledger[i]? with
  | some token => .ok token
  | none => .error .outOfBounds

/-- `_isOwner`. -/
def isOwner (t : Tokens) (D : Deployment) (caller : AccountIdentifier) (tokenIndex : TokenIndex) :
    Except Trap Bool :=
  match t.getOwner tokenIndex.toNat with
  | .error e => .error e
  | .ok (some token) => .ok (if D.upper caller = D.upper token.owner then true else false)
  | .ok none => .ok false

/-! ### Writing the ledger -/

/-- `ledger[i] := ?token`. -/
def write (t : Tokens) (i : ℕ) (token : Token) : Tokens :=
  { t with
    ledger := t.ledger.set i (some token)
    size_lt := by simpa using t.size_lt }

/-- `_getNextMintIndex`: the first empty slot. -/
def getNextMintIndex (t : Tokens) : Option TokenIndex :=
  (t.ledger.findIdx? fun token => token.isNone).map UInt32.ofNat

/-- `mint`, of an admin or of the canister itself. -/
def mint (t : Tokens) (D : Deployment) (now : Time) (caller : Principal) (isAdmin : Bool)
    (to' : User) : Except Trap (Tokens × Except Text ℕ) :=
  if isAdmin || caller == D.cid then
    match t.getNextMintIndex with
    | some i =>
        if i.toNat < t.ledger.length then
          .ok (t.write i.toNat { createdAt := now, owner := D.userAccount to', txId := "N/A" },
            .ok i.toNat)
        else .error .outOfBounds
    | none => .ok (t, .error "No more supply.")
  else .error .assertion

/-- `transfer`: asserts that `caller` owns the token, then writes the new owner. -/
def transfer (t : Tokens) (D : Deployment) (now : Time) (tokenIndex : TokenIndex)
    (caller to' : AccountIdentifier) : Except Trap Tokens :=
  match t.isOwner D caller tokenIndex with
  | .error e => .error e
  | .ok false => .error .assertion
  | .ok true =>
      match t.getOwner tokenIndex.toNat with
      | .error e => .error e
      | .ok token =>
          .ok (t.write tokenIndex.toNat {
            createdAt := match token with
              | some token => token.createdAt
              | none => now
            owner := to'
            txId := "N/A" })

/-! ### Scans of the ledger -/

/-- The `while` loop of `_getUnminted` and `_getMinted` from the counter `i` on, with `n` slots up
to the supply: the indices of the slots that are kept.  The counter stays below a 16-bit number. -/
def collect (t : Tokens) (keep : Option Token → Bool) (i : TokenIndex) :
    ℕ → Except Trap (List TokenIndex)
  | 0 => .ok []
  | n + 1 => do
      let token ← t.getOwner i.toNat
      let rest ← t.collect keep (i + 1) n
      pure (if keep token then i :: rest else rest)

/-- The scan from `i` on collects the indices of the slots that are kept, in order. -/
theorem collect_eq (t : Tokens) (keep : Option Token → Bool) (i : TokenIndex) (n : ℕ)
    (h : i.toNat + n ≤ t.ledger.length) :
    t.collect keep i n = .ok (((List.range' i.toNat n).filter fun j =>
      keep (t.ledger[j]?).join).map UInt32.ofNat) := by
  induction n generalizing i with
  | zero => rfl
  | succ n ih =>
      have hi : i.toNat < t.ledger.length := by omega
      have hnext : (i + 1).toNat = i.toNat + 1 := by
        have hsize := t.size_lt
        rw [UInt32.toNat_add]
        exact Nat.mod_eq_of_lt (by simp; omega)
      have hget : t.getOwner i.toNat = .ok t.ledger[i.toNat] := by
        rw [getOwner, List.getElem?_eq_getElem hi]
      have hrest := ih (i + 1) (by omega)
      rw [hnext] at hrest
      have hjoin : (t.ledger[i.toNat]?).join = t.ledger[i.toNat] := by
        rw [List.getElem?_eq_getElem hi]
        rfl
      have hself : UInt32.ofNat i.toNat = i := UInt32.ofNat_toNat
      rw [collect, bind_eq_ok]
      refine ⟨_, hget, bind_eq_ok.2 ⟨_, hrest, ?_⟩⟩
      rw [List.range'_succ, List.filter_cons, hjoin]
      split_ifs
      · rw [List.map_cons, hself]
        rfl
      · rfl

/-- `_getUnminted`. -/
def getUnminted (t : Tokens) (supply : UInt16) : Except Trap (List TokenIndex) :=
  t.collect (fun token => token.isNone) 0 supply.toNat

/-- `_getMinted`. -/
def getMinted (t : Tokens) (supply : UInt16) : Except Trap (List TokenIndex) :=
  t.collect (fun token => !token.isNone) 0 supply.toNat

/-- The indices that are minted, in order. -/
theorem getMinted_eq (t : Tokens) {supply : UInt16} (h : supply.toNat ≤ t.ledger.length) :
    t.getMinted supply = .ok (((List.range' 0 supply.toNat).filter fun j =>
      (t.ledger[j]?).join.isSome).map UInt32.ofNat) := by
  have hscan := t.collect_eq (fun token => !token.isNone) 0 supply.toNat (by simpa using h)
  simp only [Option.not_isNone] at hscan
  simpa [getMinted] using hscan

/-! ### Metadata -/

/-- `configureMetadata`. -/
def configureMetadata (t : Tokens) (supply : UInt16) (isAdmin : Bool) (conf : List Metadata) :
    Except Trap (Tokens × Except Text Unit) :=
  if isAdmin then
    if t.isShuffled = false then
      if conf.length ≠ supply.toNat then
        .ok (t, .error ("Must include configuration for " ++ toString supply.toNat ++
          " legends. Received " ++ toString conf.length))
      else .ok ({ t with metadata := conf }, .ok ())
    else .error .assertion
  else .error .assertion

/-- `_prng`: a pseudo random number between 0 and 99, in wrapping 8-bit arithmetic. -/
def prng (current : UInt8) : UInt8 :=
  (Int8.ofInt (current.toInt8.toInt * 1103515245 + 12345)).toUInt8 % 100

/-- The index a random number picks below `currentIndex`.  The detour of the source through
floating point keeps the integer, which is far below `2 ^ 53`. -/
def pick (randomNumber : UInt8) (currentIndex : ℕ) : ℕ :=
  ((randomNumber.toInt8.toInt * currentIndex).tdiv 100).natAbs

/-- Two entries exchanged; an index outside the list traps. -/
def exchange (l : List Metadata) (i j : ℕ) : Except Trap (List Metadata) := do
  let x ← orTrap .outOfBounds l[i]?
  let y ← orTrap .outOfBounds l[j]?
  pure ((l.set i y).set j x)

/-- The loop of `shuffleMetadata` from `currentIndex` on. -/
def shuffleLoop (ledger : List (Option Token)) (randomNumber : UInt8) (shuffled : List Metadata) :
    ℕ → Except Trap (List Metadata)
  -- `ledger[currentIndex - 1]` underflows
  | 0 => .error .underflow
  | 1 => .ok shuffled
  | currentIndex + 2 =>
      match ledger[currentIndex + 1]? with
      | none => .error .outOfBounds
      -- a minted token is not shuffled
      | some (some _) => shuffleLoop ledger randomNumber shuffled (currentIndex + 1)
      | some none =>
          let randomNumber := prng randomNumber
          let randomIndex := pick randomNumber (currentIndex + 2)
          if randomIndex < currentIndex + 2 then do
            let shuffled ← exchange shuffled (currentIndex + 1) randomIndex
            shuffleLoop ledger randomNumber shuffled (currentIndex + 1)
          else .error .assertion

/-- `shuffleMetadata`, up to `await Random.blob`; `cid` is the text of the canister's principal. -/
def shuffleMetadata (t : Tokens) (cid : Text) (isAdmin : Bool) : Except Trap Unit :=
  -- the fool was sold before shuffling was a thing
  if cid = "nges7-giaaa-aaaaj-qaiya-cai" then .error .assertion
  else if isAdmin && t.isShuffled == false then .ok ()
  else .error .assertion

/-- `shuffleMetadata`, from `await Random.blob` on.  Neither the admin nor the flag is looked at
again. -/
def shuffleResume (t : Tokens) (seed : Blob) : Except Trap Tokens := do
  let randomNumber ← orTrap .assertion seed.head?
  let shuffled ← shuffleLoop t.ledger randomNumber t.metadata t.metadata.length
  pure { t with metadata := shuffled, isShuffled := true }

/-! ### Upgrades -/

/-- `LocalStableState`. -/
structure Stable where
  tokens : List (Option Token)
  metadata : List Metadata
  isShuffled : Bool
  deriving DecidableEq, Repr

/-- `toStable`. -/
def toStable (t : Tokens) : Stable := ⟨t.ledger, t.metadata, t.isShuffled⟩

/-- The loop of `_restore`: the slots from `i` on are overwritten one after the other. -/
def restoreLedger (ledger : List (Option Token)) (i : ℕ) :
    List (Option Token) → Except Trap (List (Option Token))
  | [] => .ok ledger
  | token :: tokens =>
      if i < ledger.length then restoreLedger (ledger.set i token) (i + 1) tokens
      else .error .outOfBounds

theorem length_restoreLedger {ledger ledger' : List (Option Token)} {i : ℕ}
    {tokens : List (Option Token)} (h : restoreLedger ledger i tokens = .ok ledger') :
    ledger'.length = ledger.length := by
  induction tokens generalizing ledger i with
  | nil =>
      rw [restoreLedger, Except.ok.injEq] at h
      rw [h]
  | cons token tokens ih =>
      rw [restoreLedger] at h
      split at h
      · rw [ih h, List.length_set]
      · simp at h

/-- The constructor: an empty ledger of the size of the supply, into which `_restore` writes the
tokens it is given. -/
def new (supply : UInt16) (backup : Stable) : Except Trap Tokens :=
  match h : restoreLedger (List.replicate supply.toNat none) 0 backup.tokens with
  | .error e => .error e
  | .ok ledger => .ok {
      ledger := ledger
      metadata := backup.metadata
      isShuffled := backup.isShuffled
      size_lt := by
        rw [length_restoreLedger h, List.length_replicate]
        exact supply.toNat_lt }

/-- `_restore`, into the ledger that is there. -/
def restore (t : Tokens) (backup : Stable) : Except Trap Tokens :=
  match h : restoreLedger t.ledger 0 backup.tokens with
  | .error e => .error e
  | .ok ledger => .ok {
      ledger := ledger
      metadata := backup.metadata
      isShuffled := backup.isShuffled
      size_lt := by
        rw [length_restoreLedger h]
        exact t.size_lt }

/-- `restore`, of an admin. -/
def adminRestore (t : Tokens) (isAdmin : Bool) (backup : Stable) :
    Except Trap (Tokens × Except Text Unit) :=
  if isAdmin then (t.restore backup).map fun t => (t, .ok ()) else .error .assertion

/-! ### Owners -/

/-- The owner text of a slot, if the slot exists and is minted. -/
def ownerOf (t : Tokens) (i : TokenIndex) : Option AccountIdentifier :=
  match t.ledger[i.toNat]? with
  | some (some token) => some token.owner
  | _ => none

/-- Account `a` owns slot `i` up to letter case. -/
def Owns (t : Tokens) (D : Deployment) (a : AccountIdentifier) (i : TokenIndex) : Prop :=
  ∃ b, t.ownerOf i = some b ∧ D.upper a = D.upper b

theorem isOwner_eq_true {t : Tokens} {D : Deployment} {a : AccountIdentifier} {i : TokenIndex} :
    t.isOwner D a i = .ok true ↔ t.Owns D a i := by
  unfold isOwner getOwner Owns ownerOf
  rcases t.ledger[i.toNat]? with - | - | token
  · simp
  · simp
  · by_cases h : D.upper a = D.upper token.owner <;> simp [h]

instance (t : Tokens) (D : Deployment) (a : AccountIdentifier) (i : TokenIndex) :
    Decidable (t.Owns D a i) :=
  match h : t.ownerOf i with
  | some b => decidable_of_iff (D.upper a = D.upper b) (by simp [Owns, h])
  | none => isFalse (by simp [Owns, h])

/-- Writing a slot changes the owner of that slot only. -/
theorem ownerOf_write {t : Tokens} {i j : TokenIndex} {token : Token}
    (hi : i.toNat < t.ledger.length) :
    (t.write i.toNat token).ownerOf j = if j = i then some token.owner else t.ownerOf j := by
  by_cases h : j = i
  · subst h
    simp [ownerOf, write, hi]
  · have hne : i.toNat ≠ j.toNat := fun he => h (UInt32.toNat_inj.1 he).symm
    simp [ownerOf, write, h, List.getElem?_set_ne hne]

/-- **A transfer** writes the slot of a token that its caller owns, and nothing else. -/
theorem transfer_eq_ok {t t' : Tokens} {D : Deployment} {now : Time} {i : TokenIndex}
    {a b : AccountIdentifier} (h : t.transfer D now i a b = .ok t') :
    ∃ token, t.ledger[i.toNat]? = some (some token) ∧ D.upper a = D.upper token.owner ∧
      t' = t.write i.toNat ⟨token.createdAt, b, "N/A"⟩ := by
  unfold transfer isOwner getOwner at h
  cases hl : t.ledger[i.toNat]? with
  | none => simp [hl] at h
  | some o =>
      cases o with
      | none => simp [hl] at h
      | some token =>
          by_cases hown : D.upper a = D.upper token.owner
          · simp only [hl, hown, if_true, Except.ok.injEq] at h
            exact ⟨token, rfl, hown, h.symm⟩
          · simp [hl, hown] at h

/-- A transfer succeeds exactly when the caller owns the token. -/
theorem transfer_isOk_iff {t : Tokens} {D : Deployment} {now : Time} {i : TokenIndex}
    {a b : AccountIdentifier} : (∃ t', t.transfer D now i a b = .ok t') ↔ t.Owns D a i := by
  constructor
  · rintro ⟨t', h⟩
    obtain ⟨token, hslot, hown, -⟩ := transfer_eq_ok h
    exact ⟨token.owner, by rw [ownerOf, hslot], hown⟩
  · intro h
    rw [← isOwner_eq_true] at h
    have hget : ∃ token, t.getOwner i.toNat = .ok token := by
      unfold isOwner at h
      cases hg : t.getOwner i.toNat with
      | error e => simp [hg] at h
      | ok token => exact ⟨token, rfl⟩
    obtain ⟨token, htoken⟩ := hget
    simp [transfer, h, htoken]

/-- The owners after a transfer. -/
theorem ownerOf_of_transfer {t t' : Tokens} {D : Deployment} {now : Time} {i : TokenIndex}
    {a b : AccountIdentifier} (h : t.transfer D now i a b = .ok t') (j : TokenIndex) :
    t'.ownerOf j = if j = i then some b else t.ownerOf j := by
  obtain ⟨token, hslot, -, rfl⟩ := transfer_eq_ok h
  obtain ⟨hi, -⟩ := List.getElem?_eq_some_iff.1 hslot
  exact ownerOf_write hi

/-- The next index to mint is that of an empty slot. -/
theorem ownerOf_getNextMintIndex {t : Tokens} {i : TokenIndex} (h : t.getNextMintIndex = some i) :
    t.ownerOf i = none := by
  obtain ⟨n, hn, rfl⟩ := Option.map_eq_some_iff.1 h
  obtain ⟨hlt, hnone, -⟩ := List.findIdx?_eq_some_iff_getElem.1 hn
  have hn' : (UInt32.ofNat n).toNat = n :=
    UInt32.toNat_ofNat_of_lt' (lt_trans (lt_trans hlt t.size_lt) (by decide))
  have hget : t.ledger[n]? = some none := by
    rw [List.getElem?_eq_getElem hlt, Option.isNone_iff_eq_none.1 hnone]
  rw [ownerOf, hn', hget]

/-- A minted slot keeps its owner when another one is minted. -/
theorem ownerOf_of_mint {t t' : Tokens} {D : Deployment} {now : Time} {caller : Principal}
    {isAdmin : Bool} {to' : User} {r : Except Text ℕ}
    (h : t.mint D now caller isAdmin to' = .ok (t', r)) {j : TokenIndex} {a : AccountIdentifier}
    (ha : t.ownerOf j = some a) : t'.ownerOf j = some a := by
  unfold mint at h
  split at h
  · cases hi : t.getNextMintIndex with
    | none =>
        simp only [hi, Except.ok.injEq, Prod.mk.injEq] at h
        rw [← h.1, ha]
    | some i =>
        simp only [hi] at h
        split at h
        · rename_i hlt
          simp only [Except.ok.injEq, Prod.mk.injEq] at h
          rw [← h.1, ownerOf_write hlt]
          -- the slot written is empty, and slot `j` is not
          have hne : j ≠ i := by
            rintro rfl
            rw [ownerOf_getNextMintIndex hi] at ha
            exact absurd ha (by simp)
          rw [if_neg hne, ha]
        · simp at h
  · simp at h

/-! ### What each writer changes -/

@[simp] theorem length_ledger_write (t : Tokens) (i : ℕ) (token : Token) :
    (t.write i token).ledger.length = t.ledger.length := List.length_set

/-- **Minting** writes the first empty slot, if there is one. -/
theorem mint_eq {t : Tokens} {D : Deployment} {now : Time} {caller : Principal} {isAdmin : Bool}
    {to' : User} (h : isAdmin || caller == D.cid) :
    t.mint D now caller isAdmin to' =
      match t.ledger.findIdx? fun token => token.isNone with
      | some i => .ok (t.write i ⟨now, D.userAccount to', "N/A"⟩, .ok i)
      | none => .ok (t, .error "No more supply.") := by
  rw [mint, if_pos h, getNextMintIndex]
  cases hi : t.ledger.findIdx? fun token => token.isNone with
  | none => rfl
  | some i =>
      obtain ⟨hlt, -, -⟩ := List.findIdx?_eq_some_iff_getElem.1 hi
      have hnat : (UInt32.ofNat i).toNat = i :=
        UInt32.toNat_ofNat_of_lt' (lt_trans (lt_trans hlt t.size_lt) (by decide))
      simp only [Option.map_some, hnat, if_pos hlt]

/-- What a mint that does not trap has done. -/
theorem mint_eq_ok {t t' : Tokens} {D : Deployment} {now : Time} {caller : Principal}
    {isAdmin : Bool} {to' : User} {r : Except Text ℕ}
    (h : t.mint D now caller isAdmin to' = .ok (t', r)) :
    (∃ i, t.ledger.findIdx? (fun token => token.isNone) = some i ∧ r = .ok i ∧
      t' = t.write i ⟨now, D.userAccount to', "N/A"⟩) ∨
    (t.ledger.findIdx? (fun token => token.isNone) = none ∧ r = .error "No more supply." ∧
      t' = t) := by
  have hauth : isAdmin || caller == D.cid := by
    by_contra hauth
    rw [mint, if_neg hauth] at h
    cases h
  rw [mint_eq hauth] at h
  cases hi : t.ledger.findIdx? fun token => token.isNone with
  | none =>
      rw [hi] at h
      cases h
      exact Or.inr ⟨rfl, rfl, rfl⟩
  | some i =>
      rw [hi] at h
      cases h
      exact Or.inl ⟨i, rfl, rfl, rfl⟩

/-- **Configuring** writes the metadata, before the shuffle only. -/
theorem configureMetadata_eq_ok {t t' : Tokens} {supply : UInt16} {isAdmin : Bool}
    {conf : List Metadata} {r : Except Text Unit}
    (h : t.configureMetadata supply isAdmin conf = .ok (t', r)) :
    t.isShuffled = false ∧ t'.isShuffled = false ∧ t'.ledger = t.ledger := by
  unfold configureMetadata at h
  split_ifs at h with _ hs
  · cases h
    exact ⟨hs, hs, rfl⟩
  · cases h
    exact ⟨hs, hs, rfl⟩

/-- **Shuffling** writes the metadata and sets the flag, whatever the flag was. -/
theorem shuffleResume_eq_ok {t t' : Tokens} {seed : Blob} (h : t.shuffleResume seed = .ok t') :
    t'.isShuffled = true ∧ t'.ledger = t.ledger := by
  obtain ⟨randomNumber, -, h⟩ := bind_eq_ok.1 h
  obtain ⟨shuffled, -, h⟩ := bind_eq_ok.1 h
  cases h
  exact ⟨rfl, rfl⟩

/-- The restored ledger holds the tokens it is given, from slot `i` on. -/
theorem getElem?_restoreLedger {ledger ledger' : List (Option Token)} {i : ℕ}
    {tokens : List (Option Token)} (h : restoreLedger ledger i tokens = .ok ledger') (j : ℕ) :
    ledger'[j]? = if i ≤ j ∧ j < i + tokens.length then tokens[j - i]? else ledger[j]? := by
  induction tokens generalizing ledger i with
  | nil =>
      rw [restoreLedger, Except.ok.injEq] at h
      rw [if_neg (by simp), h]
  | cons token tokens ih =>
      rw [restoreLedger] at h
      split at h
      · rename_i hi
        rw [ih h]
        rcases Nat.lt_trichotomy j i with hj | rfl | hj
        · rw [if_neg (by omega), if_neg (by omega), List.getElem?_set_ne (by omega)]
        · rw [if_neg (by omega), if_pos (by simp), List.getElem?_set_self hi]
          simp
        · obtain ⟨k, rfl⟩ := Nat.exists_eq_add_of_lt hj
          rw [List.getElem?_set_ne (by omega)]
          simp only [List.length_cons]
          have hk : i + k + 1 - i = k + 1 := by omega
          have hk' : i + k + 1 - (i + 1) = k := by omega
          rw [hk, hk', List.getElem?_cons_succ]
          split_ifs <;> first | rfl | omega
      · simp at h

/-- The loop does not trap when the tokens fit. -/
theorem exists_restoreLedger {ledger : List (Option Token)} {i : ℕ}
    {tokens : List (Option Token)} (h : i + tokens.length ≤ ledger.length) :
    ∃ ledger', restoreLedger ledger i tokens = .ok ledger' := by
  induction tokens generalizing ledger i with
  | nil => exact ⟨ledger, rfl⟩
  | cons token tokens ih =>
      rw [List.length_cons] at h
      rw [restoreLedger, if_pos (by omega)]
      exact ih (by rw [List.length_set]; omega)

/-- The loop traps when they do not. -/
theorem restoreLedger_eq_error {ledger : List (Option Token)} {i : ℕ}
    {tokens : List (Option Token)} (hi : i ≤ ledger.length)
    (h : ledger.length < i + tokens.length) :
    restoreLedger ledger i tokens = .error .outOfBounds := by
  induction tokens generalizing ledger i with
  | nil =>
      rw [List.length_nil] at h
      omega
  | cons token tokens ih =>
      rw [List.length_cons] at h
      rw [restoreLedger]
      split_ifs with hlt
      · refine ih ?_ ?_
        · rw [List.length_set]
          omega
        · rw [List.length_set]
          omega
      · rfl

/-- **The constructor** keeps every slot it is given, in a ledger of the size of the supply. -/
theorem exists_new {supply : UInt16} {backup : Stable}
    (hb : backup.tokens.length ≤ supply.toNat) :
    ∃ t, new supply backup = .ok t ∧
      t.ledger = backup.tokens ++ List.replicate (supply.toNat - backup.tokens.length) none ∧
      t.metadata = backup.metadata ∧ t.isShuffled = backup.isShuffled := by
  obtain ⟨ledger, hl⟩ : ∃ ledger,
      restoreLedger (List.replicate supply.toNat none) 0 backup.tokens = .ok ledger :=
    exists_restoreLedger (by simpa using hb)
  have heq : ledger =
      backup.tokens ++ List.replicate (supply.toNat - backup.tokens.length) none := by
    refine List.ext_getElem? ?_
    intro j
    rw [getElem?_restoreLedger hl j]
    simp only [Nat.zero_le, true_and, Nat.zero_add, Nat.sub_zero]
    split_ifs with hj
    · rw [List.getElem?_append_left hj]
    · rw [List.getElem?_append_right (by omega), List.getElem?_replicate, List.getElem?_replicate]
      split_ifs <;> first | rfl | omega
  subst heq
  unfold new
  split
  · rename_i e he
    rw [hl] at he
    simp at he
  · rename_i ledger' hl'
    rw [hl, Except.ok.injEq] at hl'
    exact ⟨_, rfl, hl'.symm, rfl, rfl⟩

/-- The constructor traps when the tokens do not fit in the supply. -/
theorem new_eq_error {supply : UInt16} {backup : Stable}
    (hb : supply.toNat < backup.tokens.length) : new supply backup = .error .outOfBounds := by
  have hl : restoreLedger (List.replicate supply.toNat none) 0 backup.tokens =
      .error .outOfBounds := restoreLedger_eq_error (Nat.zero_le _) (by simpa using hb)
  unfold new
  split
  · rename_i e he
    rw [hl, Except.error.injEq] at he
    rw [he]
  · rename_i ledger hl'
    rw [hl] at hl'
    simp at hl'

/-- What the constructor makes of stable tokens, if it does not trap. -/
theorem new_eq_ok {t : Tokens} {supply : UInt16} {backup : Stable}
    (h : new supply backup = .ok t) :
    backup.tokens.length ≤ supply.toNat ∧
      t.ledger = backup.tokens ++ List.replicate (supply.toNat - backup.tokens.length) none ∧
      t.metadata = backup.metadata ∧ t.isShuffled = backup.isShuffled := by
  rcases Nat.lt_or_ge supply.toNat backup.tokens.length with hlt | hle
  · rw [new_eq_error hlt] at h
    simp at h
  · obtain ⟨t', ht', hspec⟩ := exists_new hle
    rw [h, Except.ok.injEq] at ht'
    exact ⟨hle, ht' ▸ hspec⟩

/-- The owners of a ledger built from stable tokens. -/
theorem ownerOf_new {t : Tokens} {supply : UInt16} {backup : Stable}
    (h : new supply backup = .ok t) (i : TokenIndex) :
    t.ownerOf i = (backup.tokens[i.toNat]?).join.map Token.owner := by
  obtain ⟨-, hledger, -, -⟩ := new_eq_ok h
  rw [ownerOf, hledger]
  rcases Nat.lt_or_ge i.toNat backup.tokens.length with hi | hi
  · rw [List.getElem?_append_left hi]
    rcases backup.tokens[i.toNat]? with - | - | token <;> rfl
  · rw [List.getElem?_append_right hi, List.getElem?_replicate, List.getElem?_eq_none hi]
    split_ifs <;> rfl

end Tokens

end LegendsNft
