/-
**What survives an upgrade.**

An upgrade copies the tokens and the marketplace by hand, into stable variables and out of them: the
maps as lists of entries, the ledger as an array that the constructor of the new canister writes
into one of the new supply.  In every state a run reaches the ledger has a slot for each token of
the supply, so it is saved as it is, and then everything that is saved is found again: the same
slots, with empty ones after them, the same metadata, the same maps, the same queue and the same
figures.  A smaller supply has no room for the ledger, and the constructor traps.

Main definitions:

* `LegendsNft.Entrepot.Keeps`, `LegendsNft.Tokens.Keeps` — the new module holds what the old one
  held.

Main results:

* `LegendsNft.Entrepot.keeps_new_toStable`, `LegendsNft.Tokens.exists_keeps_new_toStable` — what the
  two modules keep;
* `LegendsNft.Collection.upgrade_survives` — **an upgrade keeps the tokens and the marketplace, and
  traps rather than dropping tokens**.
-/

import LegendsNft.Collection

set_option relaxedAutoImplicit false
set_option autoImplicit false

namespace LegendsNft

/-- What the marketplace keeps: every key of its maps and no other, the queue, the figures and the
counter of subaccounts. -/
structure Entrepot.Keeps (s s' : Entrepot) : Prop where
  listings : ∀ i, s'.listings.get i = s.listings.get i
  transactions : ∀ id, s'.transactions.get id = s.transactions.get id
  pendingTransactions : ∀ i, s'.pendingTransactions.get i = s.pendingTransactions.get i
  pendingDisbursements : s'.pendingDisbursements = s.pendingDisbursements
  totalVolume : s'.totalVolume = s.totalVolume
  lowestPriceSale : s'.lowestPriceSale = s.lowestPriceSale
  highestPriceSale : s'.highestPriceSale = s.highestPriceSale
  nextSubAccount : s'.nextSubAccount = s.nextSubAccount

/-- **The marketplace** constructed from the stable variables of another one. -/
theorem Entrepot.keeps_new_toStable (s : Entrepot) : s.Keeps (Entrepot.new s.toStable) where
  listings := Table.get_putAll_entries _
  transactions := Table.get_putAll_entries _
  pendingTransactions := Table.get_putAll_entries _
  pendingDisbursements := rfl
  totalVolume := rfl
  lowestPriceSale := rfl
  highestPriceSale := rfl
  nextSubAccount := rfl

/-- What the ownership ledger keeps: every slot there was, the others being empty, and the
metadata. -/
structure Tokens.Keeps (t t' : Tokens) (supply : UInt16) : Prop where
  length : t'.ledger.length = supply.toNat
  slots : ∀ i, i < t.ledger.length → t'.ledger[i]? = t.ledger[i]?
  empty : ∀ i, t.ledger.length ≤ i → i < supply.toNat → t'.ledger[i]? = some none
  metadata : t'.metadata = t.metadata
  isShuffled : t'.isShuffled = t.isShuffled

/-- **The ownership ledger** constructed from the stable variables of another one. -/
theorem Tokens.exists_keeps_new_toStable (t : Tokens) {supply : UInt16}
    (h : t.ledger.length ≤ supply.toNat) :
    ∃ t', Tokens.new supply t.toStable = .ok t' ∧ t.Keeps t' supply := by
  have hlength : t.toStable.tokens.length ≤ supply.toNat := h
  obtain ⟨t', ht', hspec, hmetadata, hshuffled⟩ := Tokens.exists_new hlength
  have hledger : t'.ledger = t.ledger ++ List.replicate (supply.toNat - t.ledger.length) none :=
    hspec
  refine ⟨t', ht', ?_, ?_, ?_, hmetadata, hshuffled⟩
  · rw [hledger, List.length_append, List.length_replicate]
    exact Nat.add_sub_cancel' h
  · intro i hi
    rw [hledger, List.getElem?_append_left hi]
  · intro i hi hlt
    rw [hledger, List.getElem?_append_right hi, List.getElem?_replicate, if_pos (by omega)]

namespace Collection

variable {H : Host}

/-- **An upgrade keeps the tokens and the marketplace**: from every state a run reaches, with a
supply that is not smaller, the stable variables give back what was saved; with a smaller supply
the constructor of the tokens traps. -/
theorem upgrade_survives {c₀ c : Config} (h₀ : Initial c₀)
    (h : Actor.Run (program H) .any c₀ c) (supply : UInt16) :
    (c.state.canister.supply ≤ supply →
      ∃ tokens, Tokens.new supply c.state.canister.preupgrade.tokens = .ok tokens ∧
        c.state.tokens.Keeps tokens supply ∧
        c.state.entrepot.Keeps (Entrepot.new c.state.canister.preupgrade.entrepot)) ∧
    (supply < c.state.canister.supply →
      Tokens.new supply c.state.canister.preupgrade.tokens = .error .outOfBounds) := by
  have hsize := length_ledger_of_run h₀ h
  rw [Canister.tokens_preupgrade hsize]
  constructor
  · intro hle
    obtain ⟨tokens, hnew, hkeeps⟩ := c.state.tokens.exists_keeps_new_toStable
      (hsize.trans_le (UInt16.le_iff_toNat_le.1 hle))
    exact ⟨tokens, hnew, hkeeps, c.state.entrepot.keeps_new_toStable⟩
  · intro hlt
    exact Tokens.new_eq_error ((UInt16.lt_iff_toNat_lt.1 hlt).trans_eq hsize.symm)

/-- A lock that has been paid, and configured metadata. -/
def busyRun : List Choice :=
  LegendsNft.Choice.paidLock.map ofChoice ++
    [.call (.configureMetadata ⟨[7]⟩ (List.replicate 3 ⟨"b", "o", "i", "s", "n", "m"⟩))]

theorem upgrade_survives_sample : ∃ c tokens, sampleRun busyRun = some c ∧
    Tokens.new 4 c.state.canister.preupgrade.tokens = .ok tokens ∧
    c.state.tokens.Keeps tokens 4 ∧
    Tokens.new 2 c.state.canister.preupgrade.tokens = .error .outOfBounds := by
  obtain ⟨c, hc, hle, hlt⟩ := (by decide : ∃ c ∈ sampleRun busyRun,
    c.state.canister.supply ≤ 4 ∧ 2 < c.state.canister.supply)
  have hrun : Actor.Run (program .sample) .any Config.sample c :=
    Actor.run_of_exec (Actor.Guard.any_allowsAll _ _) hc
  obtain ⟨tokens, hnew, hkeeps, -⟩ := (upgrade_survives Config.initial_sample hrun 4).1 hle
  exact ⟨c, tokens, hc, hnew, hkeeps, (upgrade_survives Config.initial_sample hrun 2).2 hlt⟩

end Collection

end LegendsNft
