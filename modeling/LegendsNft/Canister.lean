/-
**The canister** (`main.mo`).

The state of the actor is that of its modules.  An upgrade saves each module into stable variables
(`preupgrade`) and constructs the modules anew from them, with the supply of the new actor class
argument; a constructor that traps makes the upgrade fail.

Main definitions:

* `LegendsNft.Canister` — the state of the actor;
* `LegendsNft.Canister.preupgrade`, `LegendsNft.Canister.install`, `LegendsNft.Canister.upgrade`;
* `LegendsNft.Canister.fresh` — the canister as first installed.

Main results:

* `LegendsNft.Canister.ownerOf_upgrade` — an upgrade keeps the owner of every slot;
* `LegendsNft.Canister.get_listings_upgrade` and its companions — an upgrade keeps the three maps
  of the marketplace, while `nextTxId` starts again from zero.
-/

import LegendsNft.Admins
import LegendsNft.Ext

set_option relaxedAutoImplicit false
set_option autoImplicit false

namespace LegendsNft

/-- The state of `LegendsNFT`: its modules, and the supply it was installed with. -/
structure Canister where
  admins : Admins
  tokens : Tokens
  entrepot : Entrepot
  supply : UInt16

namespace Canister

/-- The stable variables. -/
structure Stable where
  admins : List Principal
  tokens : Tokens.Stable
  entrepot : Entrepot.Stable

/-- `stableTokens`: padded with empty slots if the supply has increased. -/
def extendTokens (supply : UInt16) (x : Tokens.Stable) : Tokens.Stable :=
  if x.tokens.length < supply.toNat then
    { x with tokens := (List.range supply.toNat).map fun i => (x.tokens[i]?).join }
  else x

/-- `preupgrade`. -/
def preupgrade (c : Canister) : Stable :=
  { admins := c.admins.toStable
    tokens := extendTokens c.supply c.tokens.toStable
    entrepot := c.entrepot.toStable }

/-- The body of the actor class. -/
def install (supply : UInt16) (stable : Stable) : Except Trap Canister := do
  let admins ← Admins.new stable.admins
  let tokens ← Tokens.new supply stable.tokens
  pure {
    admins := admins
    tokens := tokens
    entrepot := Entrepot.new stable.entrepot
    supply := supply }

/-- An upgrade, possibly to another supply. -/
def upgrade (c : Canister) (supply : UInt16) : Except Trap Canister :=
  install supply c.preupgrade

/-- The canister as first installed. -/
def fresh (creator : Principal) (supply : UInt16) : Canister :=
  { admins := ⟨[creator]⟩
    tokens := {
      ledger := List.replicate supply.toNat none
      metadata := []
      isShuffled := false
      size_lt := by
        rw [List.length_replicate]
        exact supply.toNat_lt }
    entrepot := Entrepot.new Entrepot.Stable.initial
    supply := supply }

/-! ### What an upgrade keeps -/

theorem upgrade_eq_ok {c c' : Canister} {supply : UInt16} (h : c.upgrade supply = .ok c') :
    Tokens.new supply c.preupgrade.tokens = .ok c'.tokens ∧
      c'.entrepot = Entrepot.new c.entrepot.toStable ∧ c'.admins = c.admins := by
  unfold upgrade install at h
  cases ha : Admins.new c.preupgrade.admins with
  | error e => simp [ha, bind, Except.bind] at h
  | ok a =>
      cases ht : Tokens.new supply c.preupgrade.tokens with
      | error e => simp [ha, ht, bind, Except.bind] at h
      | ok t =>
          simp only [ha, ht, bind, Except.bind, pure, Except.pure, Except.ok.injEq] at h
          subst h
          refine ⟨rfl, rfl, ?_⟩
          unfold Admins.new at ha
          split at ha
          · rw [Except.ok.injEq] at ha
            rw [← ha]
            rfl
          · simp at ha

theorem supply_upgrade {c c' : Canister} {supply : UInt16} (h : c.upgrade supply = .ok c') :
    c'.supply = supply := by
  obtain ⟨admins, -, h⟩ := bind_eq_ok.1 h
  obtain ⟨tokens, -, h⟩ := bind_eq_ok.1 h
  cases h
  rfl

/-- Padding touches neither the metadata nor the flag. -/
theorem metadata_extendTokens (supply : UInt16) (x : Tokens.Stable) :
    (extendTokens supply x).metadata = x.metadata ∧
      (extendTokens supply x).isShuffled = x.isShuffled := by
  unfold extendTokens
  split
  · exact ⟨rfl, rfl⟩
  · exact ⟨rfl, rfl⟩

/-- A ledger with a slot for each token of the supply is saved as it is. -/
theorem tokens_preupgrade {c : Canister} (h : c.tokens.ledger.length = c.supply.toNat) :
    c.preupgrade.tokens = c.tokens.toStable := by
  have hle : ¬c.tokens.toStable.tokens.length < c.supply.toNat := by
    rw [Tokens.toStable, h]
    exact lt_irrefl _
  rw [preupgrade, extendTokens, if_neg hle]

theorem join_extendTokens (supply : UInt16) (x : Tokens.Stable) (i : ℕ) :
    ((extendTokens supply x).tokens[i]?).join = (x.tokens[i]?).join := by
  unfold extendTokens
  split
  · rename_i hlt
    simp only [List.getElem?_map]
    by_cases hi : i < supply.toNat
    · simp [hi]
    · rw [List.getElem?_eq_none (by simpa using hi : (List.range supply.toNat).length ≤ i),
        List.getElem?_eq_none (by omega : x.tokens.length ≤ i)]
      rfl
  · rfl

/-- **An upgrade keeps the owner of every slot**, and mints nothing. -/
theorem ownerOf_upgrade {c c' : Canister} {supply : UInt16} (h : c.upgrade supply = .ok c')
    (i : TokenIndex) : c'.tokens.ownerOf i = c.tokens.ownerOf i := by
  rw [Tokens.ownerOf_new (upgrade_eq_ok h).1, preupgrade, join_extendTokens]
  simp only [Tokens.toStable, Tokens.ownerOf]
  rcases c.tokens.ledger[i.toNat]? with - | - | token <;> rfl

theorem get_listings_upgrade {c c' : Canister} {supply : UInt16} (h : c.upgrade supply = .ok c')
    (i : TokenIndex) : c'.entrepot.listings.get i = c.entrepot.listings.get i := by
  rw [(upgrade_eq_ok h).2.1]
  exact Table.get_putAll_entries _ i

theorem get_pendingTransactions_upgrade {c c' : Canister} {supply : UInt16}
    (h : c.upgrade supply = .ok c') (i : TokenIndex) :
    c'.entrepot.pendingTransactions.get i = c.entrepot.pendingTransactions.get i := by
  rw [(upgrade_eq_ok h).2.1]
  exact Table.get_putAll_entries _ i

theorem get_transactions_upgrade {c c' : Canister} {supply : UInt16}
    (h : c.upgrade supply = .ok c') (i : ℕ) :
    c'.entrepot.transactions.get i = c.entrepot.transactions.get i := by
  rw [(upgrade_eq_ok h).2.1]
  exact Table.get_putAll_entries _ i

theorem size_transactions_upgrade {c c' : Canister} {supply : UInt16}
    (h : c.upgrade supply = .ok c') :
    c'.entrepot.transactions.size = c.entrepot.transactions.size := by
  rw [(upgrade_eq_ok h).2.1]
  exact Table.size_putAll_entries _

theorem totalVolume_upgrade {c c' : Canister} {supply : UInt16}
    (h : c.upgrade supply = .ok c') : c'.entrepot.totalVolume = c.entrepot.totalVolume := by
  rw [(upgrade_eq_ok h).2.1]
  rfl

theorem lowestPriceSale_upgrade {c c' : Canister} {supply : UInt16}
    (h : c.upgrade supply = .ok c') :
    c'.entrepot.lowestPriceSale = c.entrepot.lowestPriceSale := by
  rw [(upgrade_eq_ok h).2.1]
  rfl

theorem nextSubAccount_upgrade {c c' : Canister} {supply : UInt16}
    (h : c.upgrade supply = .ok c') :
    c'.entrepot.nextSubAccount = c.entrepot.nextSubAccount := by
  rw [(upgrade_eq_ok h).2.1]
  rfl

/-- The queue survives an upgrade, the runs that work on it do not. -/
theorem pendingDisbursements_upgrade {c c' : Canister} {supply : UInt16}
    (h : c.upgrade supply = .ok c') :
    c'.entrepot.pendingDisbursements = c.entrepot.pendingDisbursements ∧
      c'.entrepot.pendingCount = 0 := by
  rw [(upgrade_eq_ok h).2.1]
  exact ⟨rfl, rfl⟩

end Canister

end LegendsNft
