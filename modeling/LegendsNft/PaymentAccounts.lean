/-
**Payment subaccounts are never reused.**

`_getNextSubAccount` counts up and writes the number into the bytes of a subaccount, above an offset
of `2 ^ 32`.  Every `lock` call that gets that far takes one, whether it returns in the end or not,
and an upgrade keeps the counter.  While the counter is below `2 ^ 256 - 2 ^ 32` the bytes determine
the number, so the subaccounts are all different, and none of them is the default one, the number
zero.  What is kept of a `lock` call — a pending transaction, or a finalized one — has the bytes the
call took, so two entries with the same bytes stem from the same call.

Main definitions:

* `LegendsNft.Entry`, `LegendsNft.StemsFrom` — the entries of the two maps of transactions, and the
  creation they stem from;
* `LegendsNft.PaymentAccounts` — what the subaccounts of a configuration guarantee.

Main results:

* `LegendsNft.subaccounts_of_bound` — the invariant, as long as the counter has not grown too large;
* `LegendsNft.entry_stems` — every entry stems from a creation;
* `LegendsNft.payment_accounts_of_run` — **payment subaccounts are never reused**.
-/

import LegendsNft.Settlement

set_option relaxedAutoImplicit false
set_option autoImplicit false

namespace LegendsNft

open Entrepot

variable {D : Deployment} {G : Guard} {c₀ c : Config}

/-! ### The counter -/

/-- The numbers that fit in the bytes of a subaccount, above the offset. -/
def counterBound : ℕ := 2 ^ 256 - 2 ^ 32

theorem natToSubAccount_zero : natToSubAccount 0 = defaultSubAccount := by decide

/-- No number above the offset has the bytes of the default subaccount. -/
theorem natToSubAccount_ne_default {n : ℕ} (hn : n < counterBound) :
    natToSubAccount (4294967296 + n) ≠ defaultSubAccount := by
  rw [← natToSubAccount_zero]
  intro heq
  have hzero := natToSubAccount_injective (by unfold counterBound at hn; omega) (by omega) heq
  omega

/-- No move takes the counter back. -/
theorem Move.nextSubAccount_le {w : World} {src : Source} {o : Step} (hm : Move D w src o) :
    w.entrepot.nextSubAccount ≤ o.state.entrepot.nextSubAccount := by
  rcases hm.suspended_le with ⟨-, -, hn⟩ | ⟨f, -, -, -, hn, -⟩
  · exact le_of_eq hn.symm
  · rw [hn]
    exact Nat.le_succ _

/-- **Every subaccount is taken once**, as long as the counter has not grown too large. -/
theorem subaccounts_of_bound (hc₀ : Initial c₀) (h : Actor.Run (program D) G c₀ c)
    (hbound : c.state.entrepot.nextSubAccount < counterBound) :
    Subaccounts c.state c.history c.pool := by
  refine multiset_of_moves (J := fun w h m => w.entrepot.nextSubAccount < counterBound →
    Subaccounts w h m) ?_ ?_ h ?_ hbound
  · intro c src m o _ hS _ hm hlt
    have hle := hm.nextSubAccount_le
    refine (hS (by omega)).step ?_ hm
    intro _
    unfold counterBound at hlt
    omega
  · intro c supply canister hS _ hup hlt
    rw [World.entrepot_mk, Canister.nextSubAccount_upgrade hup] at hlt
    exact (hS hlt).upgrade hup
  · intro _
    rw [hc₀.2.1, hc₀.2.2]
    exact ⟨List.nodup_nil, by simp [taken], le_refl _⟩

/-! ### The entries of the two maps -/

/-- An entry of `pendingTransactions` or of `transactions`. -/
def Entry (c : Config) (t : Transaction) : Prop :=
  (∃ i, c.state.entrepot.pendingTransactions.get i = some t) ∨
    ∃ id, c.state.entrepot.transactions.get id = some t

/-- An entry is the transaction of a `lock` call, perhaps closed since. -/
def StemsFrom (D : Deployment) (f : LockFrame) (t : Transaction) : Prop :=
  t = { f.transaction D t.id t.initiated with closed := t.closed }

theorem StemsFrom.bytes {f : LockFrame} {t : Transaction} (h : StemsFrom D f t) :
    t.bytes = f.subaccount := by
  rw [h]
  rfl

/-- The transaction a `lock` call has created stems from it, and so does its closed copy. -/
theorem FromLock.stemsFrom {h : List Event} {x : Creation} (hx : FromLock D h x)
    (closed : Option Time) :
    ∃ f, .lockBegan f ∈ h ∧ StemsFrom D f { x.transaction with closed := closed } := by
  obtain ⟨f, hf, -, -, htr⟩ := hx
  refine ⟨f, hf, ?_⟩
  rw [StemsFrom, htr]
  rfl

/-- **Every entry stems from a `lock` call.** -/
theorem entry_stems (hc₀ : Initial c₀) (h : Actor.Run (program D) G c₀ c) {t : Transaction}
    (ht : Entry c t) : ∃ f, .lockBegan f ∈ c.history ∧ StemsFrom D f t := by
  have hprov := (provenance hc₀ h).1
  rcases ht with ⟨i, hpend⟩ | ⟨id, hdone⟩
  · obtain ⟨e, he⟩ := hprov.pending i t hpend
    exact (hprov.creation _ (mem_created.2 he)).stemsFrom t.closed
  · obtain ⟨s, hs, -, time, rfl⟩ := transactions_of_run hc₀ h hdone
    obtain ⟨e, he⟩ := hprov.sale s.frame s.balance s.jobs (mem_settlements.1 hs)
    exact (hprov.creation _ (mem_created.2 he)).stemsFrom (some time)

/-- A list whose images are distinct has one element for each image. -/
theorem eq_of_nodup_filterMap {α β : Type} {g : α → Option β} {l : List α}
    (hl : (l.filterMap g).Nodup) {a a' : α} {b : β} (ha : a ∈ l) (ha' : a' ∈ l)
    (hg : g a = some b) (hg' : g a' = some b) : a = a' := by
  induction l with
  | nil => simp at ha
  | cons x l ih =>
      have tail {y : α} (hx : g x = some b) (hy : y ∈ l) (hgy : g y = some b) : False := by
        rw [List.filterMap_cons_some hx, List.nodup_cons] at hl
        exact hl.1 (List.mem_filterMap.2 ⟨y, hy, hgy⟩)
      rcases List.mem_cons.1 ha with rfl | hmem
      · rcases List.mem_cons.1 ha' with rfl | hmem'
        · rfl
        · exact absurd (tail hg hmem' hg') id
      · rcases List.mem_cons.1 ha' with rfl | hmem'
        · exact absurd (tail hg' hmem hg) id
        · refine ih (hl.sublist ?_) hmem hmem'
          exact (List.sublist_cons_self x l).filterMap g

/-- Distinct `lock` calls have distinct subaccounts, when each is taken once. -/
theorem lockFrame_inj {h : List Event} (hh : (taken h).Nodup) {f f' : LockFrame}
    (hf : .lockBegan f ∈ h) (hf' : .lockBegan f' ∈ h) (heq : f.subaccount = f'.subaccount) :
    f = f' := by
  have hsame := eq_of_nodup_filterMap hh hf hf' rfl (congrArg some heq.symm)
  exact Event.lockBegan.inj hsame

/-! ### Payment subaccounts -/

/-- What the payment subaccounts of a configuration guarantee. -/
structure PaymentAccounts (D : Deployment) (c : Config) : Prop where
  /-- No two `lock` calls have taken one subaccount. -/
  distinct : (taken c.history).Nodup
  /-- The subaccounts taken are numbered by the counter. -/
  numbered : ∀ b ∈ taken c.history, ∃ n ≤ c.state.entrepot.nextSubAccount,
    b = natToSubAccount (4294967296 + n)
  not_default : ∀ b ∈ taken c.history, b ≠ defaultSubAccount
  /-- The encoding is injective on the numbers used. -/
  injective : ∀ n m, n ≤ c.state.entrepot.nextSubAccount → m ≤ c.state.entrepot.nextSubAccount →
    natToSubAccount (4294967296 + n) = natToSubAccount (4294967296 + m) → n = m
  /-- Every entry stems from a `lock` call. -/
  entry : ∀ t, Entry c t → ∃ f, .lockBegan f ∈ c.history ∧ StemsFrom D f t
  /-- Entries that stem from different `lock` calls have different subaccounts. -/
  separate : ∀ t t' f f', Entry c t → Entry c t' → .lockBegan f ∈ c.history →
    .lockBegan f' ∈ c.history → StemsFrom D f t → StemsFrom D f' t' → f ≠ f' → t.bytes ≠ t'.bytes
  /-- No `lock` call has created two transactions. -/
  once : (paid c.history).Nodup

/-- **Payment subaccounts are never reused**, in any run, upgrades included, as long as the counter
fits in the bytes above the offset. -/
theorem payment_accounts_of_run (hc₀ : Initial c₀)
    (h : Actor.Run (program D) .any c₀ c)
    (hbound : c.state.entrepot.nextSubAccount < counterBound) : PaymentAccounts D c := by
  have hS := subaccounts_of_bound hc₀ h hbound
  refine ⟨hS.nodup, hS.issued, ?_, ?_, fun t ht => entry_stems hc₀ h ht, ?_, hS.nodup_paid⟩
  · intro b hb
    obtain ⟨n, hn, rfl⟩ := hS.issued b hb
    exact natToSubAccount_ne_default (by omega)
  · intro n m hn hm heq
    unfold counterBound at hbound
    have hsum := natToSubAccount_injective (by omega) (by omega) heq
    omega
  · intro t t' f f' _ _ hf hf' hstem hstem' hne heq
    rw [hstem.bytes, hstem'.bytes] at heq
    exact hne (lockFrame_inj hS.nodup hf hf' heq)

/-- A second lock settles the first and fails, and after an upgrade the token is sold on. -/
def soldMeanwhile : List Choice :=
  Choice.paidLock ++ [.call (.tick 120000000001), .call (.lock ⟨[3]⟩ "t0" 40000 "D"),
      .resume 0 .run, .resume 0 .run, .resume 0 .report, .resume 0 .run, .resume 0 .run,
      .resume 0 .run, .resume 0 .run, .restart 3] ++
    Choice.list ⟨[2]⟩ 50000 ++ Choice.lock 50000 "D"

/-- Three subaccounts, the second without an entry. -/
theorem payment_accounts_of_run_sample : ∃ c, sampleRun soldMeanwhile = some c ∧
    (taken c.history).length = 3 ∧ (created c.history).length = 2 ∧
    PaymentAccounts .sample c := by
  obtain ⟨c, hc, htaken, hcreated, hbound⟩ := (by decide : ∃ c ∈ sampleRun soldMeanwhile,
    (taken c.history).length = 3 ∧ (created c.history).length = 2 ∧
    c.state.entrepot.nextSubAccount < 4)
  refine ⟨c, hc, htaken, hcreated, payment_accounts_of_run Config.initial_sample
    (Actor.run_of_exec (Actor.Guard.any_allowsAll ..) hc) ?_⟩
  unfold counterBound
  omega

end LegendsNft
