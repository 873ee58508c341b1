/-
**Restoring a backup of the marketplace.**

`restore` treats the fields of a backup in different ways: the listings are rebuilt, the queue and
the figures are assigned, but the transactions and the pending transactions are written over those
that are there, and the used payment addresses are added to those that are there.  The constructor
restores into empty maps, where this makes no difference.  An admin may restore into any state, and
there what the backup does not have stays.

Main definitions:

* `LegendsNft.Entrepot.Stable.Same` — two stable states with the same maps and the same sequences;
* `LegendsNft.Entrepot.Within` — a marketplace has nothing that `restore` would leave beside a
  backup.

Main results:

* `LegendsNft.Entrepot.same_restore_iff` — what the fields become;
* `LegendsNft.Entrepot.restore_reinstates_iff` — **the states a backup is reinstated from**, and the
  backups that can be restored twice.
-/

import LegendsNft.Entrepot

set_option relaxedAutoImplicit false
set_option autoImplicit false

namespace LegendsNft

namespace Entrepot

/-- Two stable states that agree: the maps have the same keys with the same values, whatever their
order, and the other fields are equal. -/
structure Stable.Same (b b' : Stable) : Prop where
  listings : b.listings.Perm b'.listings
  transactions : b.transactions.Perm b'.transactions
  pendingTransactions : b.pendingTransactions.Perm b'.pendingTransactions
  usedPaymentAddresses : b.usedPaymentAddresses = b'.usedPaymentAddresses
  totalVolume : b.totalVolume = b'.totalVolume
  lowestPriceSale : b.lowestPriceSale = b'.lowestPriceSale
  highestPriceSale : b.highestPriceSale = b'.highestPriceSale
  nextSubAccount : b.nextSubAccount = b'.nextSubAccount
  pendingDisbursements : b.pendingDisbursements = b'.pendingDisbursements

/-- Every transaction and every pending transaction has its key in the other marketplace, and there
are no used payment addresses. -/
structure Within (s e : Entrepot) : Prop where
  transactions : ∀ id, e.transactions.get id = none → s.transactions.get id = none
  pendingTransactions :
    ∀ i, e.pendingTransactions.get i = none → s.pendingTransactions.get i = none
  usedPaymentAddresses : s.usedPaymentAddresses = []

/-- What `restore` leaves is the backup exactly when nothing stays beside it. -/
theorem same_restore_iff (s e : Entrepot) :
    (s.restore e.toStable.backup).toStable.Same e.toStable ↔ s.Within e := by
  constructor
  · intro h
    exact ⟨Table.putAll_entries_perm_iff.1 h.transactions,
      Table.putAll_entries_perm_iff.1 h.pendingTransactions,
      List.append_left_eq_self.1 h.usedPaymentAddresses⟩
  · intro h
    have hlistings : (Table.empty.putAll e.listings.entries).entries.Perm e.listings.entries :=
      Table.putAll_entries_perm_iff.2 fun k _ => Table.get_empty k
    exact {
      listings := hlistings
      transactions := Table.putAll_entries_perm_iff.2 h.transactions
      pendingTransactions := Table.putAll_entries_perm_iff.2 h.pendingTransactions
      usedPaymentAddresses := List.append_left_eq_self.2 h.usedPaymentAddresses
      totalVolume := rfl
      lowestPriceSale := rfl
      highestPriceSale := rfl
      nextSubAccount := rfl
      pendingDisbursements := rfl }

/-- Restoring once more changes nothing but the used payment addresses. -/
theorem same_restore_restore_iff (s e : Entrepot) :
    ((s.restore e.toStable.backup).restore e.toStable.backup).toStable.Same
      (s.restore e.toStable.backup).toStable ↔ e.usedPaymentAddresses = [] := by
  constructor
  · intro h
    exact List.append_right_eq_self.1 h.usedPaymentAddresses
  · intro h
    have htwice {κ α : Type} [DecidableEq κ] (t t' : Table κ α) :
        ((t'.putAll t.entries).putAll t.entries).entries.Perm (t'.putAll t.entries).entries := by
      refine Table.entries_perm_iff.2 fun k => ?_
      rw [Table.get_putAll_entries_or, Table.get_putAll_entries_or]
      cases t.get k <;> simp
    exact {
      listings := List.Perm.refl _
      transactions := htwice e.transactions s.transactions
      pendingTransactions := htwice e.pendingTransactions s.pendingTransactions
      usedPaymentAddresses := List.append_right_eq_self.2 h
      totalVolume := rfl
      lowestPriceSale := rfl
      highestPriceSale := rfl
      nextSubAccount := rfl
      pendingDisbursements := rfl }

/-- **The states a backup is reinstated from**: an admin's `restore` of the backup of any
marketplace never traps, gives that backup back exactly when the state has no transaction and no
pending transaction of another key and no used payment address, and can be repeated exactly when
the backup has no used payment address. -/
theorem restore_reinstates_iff (s e : Entrepot) :
    ∃ s₁ s₂, s.adminRestore true e.toStable.backup = .ok s₁ ∧
      s₁.adminRestore true e.toStable.backup = .ok s₂ ∧
      (s₁.toStable.Same e.toStable ↔ s.Within e) ∧
      (s₂.toStable.Same s₁.toStable ↔ e.usedPaymentAddresses = []) :=
  ⟨_, _, rfl, rfl, same_restore_iff s e, same_restore_restore_iff s e⟩

/-- A marketplace with a pending sale of the first token. -/
def samplePending : Entrepot :=
  { new Stable.initial with
    pendingTransactions := Table.empty.put 0 {
      id := 0
      token := "f0"
      memo := none
      from' := "aa"
      to' := "bb"
      seller := ⟨[9]⟩
      price := 100000
      initiated := 0
      closed := none
      bytes := [] } }

/-- Restoring the backup of a fresh marketplace leaves the pending sale where it is. -/
theorem restore_leaves_pending : ∃ s, samplePending.adminRestore true
    (new Stable.initial).toStable.backup = .ok s ∧
      ¬ s.toStable.Same (new Stable.initial).toStable := by
  refine ⟨_, rfl, ?_⟩
  intro h
  exact absurd h.pendingTransactions.length_eq (by decide)

end Entrepot

end LegendsNft
