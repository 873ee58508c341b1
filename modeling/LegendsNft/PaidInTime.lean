/-
**A purchase paid in time is not lost.**

A transaction leaves the pending transactions in one of three ways.  `settle` finalizes it; `settle`
gives it up, told too small a balance while the listing is not locked; or another transaction takes
its place, through `lock`, or through `settle` finalizing an older one at the same index.  The last
two are harmless only when the ledger has been asked after the lock had expired: a balance read
before the expiry says nothing about a payment that arrives between the reading and the expiry, and
`settle` does not compare the two times.

In the runs in which a pending transaction is dropped only after such a late reading, a transaction
whose payment has arrived by the expiry of its lock is pending until it is settled.

Main definitions:

* `LegendsNft.Kept` — a transaction is pending, or settled with its disbursements queued;
* `LegendsNft.Unpaid`, `LegendsNft.keepPaid` — the condition on runs.

Main results:

* `LegendsNft.kept_or_unpaid` — the invariant;
* `LegendsNft.paid_in_time_never_lost` — **no purchase paid in time is lost**;
* `LegendsNft.paid_in_time_lost` — a run outside the condition that loses one.
-/

import LegendsNft.Settlement

set_option relaxedAutoImplicit false
set_option autoImplicit false

namespace LegendsNft

open Entrepot

variable {D : Deployment} {G : Guard} {c₀ c cp : Config}

/-! ### The property and the condition -/

/-- The transaction has been recorded with its disbursements, and they are queued. -/
def Settled (w : World) (h : List Event) (i : TokenIndex) (t : Transaction) : Prop :=
  ∃ b jobs closed, .finalized ⟨i, t⟩ b jobs ∈ h ∧
    w.entrepot.transactions.get t.id = some { t with closed := some closed } ∧
    jobs.length = fees.length + 1 ∧ ∀ d ∈ jobs, d ∈ w.entrepot.pendingDisbursements

/-- The transaction is pending at its index, or settled. -/
def Kept (w : World) (h : List Event) (i : TokenIndex) (t : Transaction) : Prop :=
  w.entrepot.pendingTransactions.get i = some t ∨ Settled w h i t

/-- The ledger has reported, after the expiry of the lock, a balance below the price. -/
def Unpaid (h : List Event) (x : Creation) : Prop :=
  ∃ r ∈ reports h, r.bytes = x.transaction.bytes ∧ x.expiry < r.time ∧
    r.balance < x.transaction.price

instance (h : List Event) (x : Creation) : Decidable (Unpaid h x) :=
  inferInstanceAs (Decidable (∃ r ∈ reports h, r.bytes = x.transaction.bytes ∧
    x.expiry < r.time ∧ r.balance < x.transaction.price))

/-- The transaction pending at an index, if there is one, may be dropped. -/
def MayDrop (c : Config) (i : TokenIndex) : Prop :=
  ∀ x ∈ created c.history, x.index = i →
    c.state.entrepot.pendingTransactions.get i = some x.transaction → Unpaid c.history x

instance (c : Config) (i : TokenIndex) : Decidable (MayDrop c i) :=
  inferInstanceAs (Decidable (∀ x ∈ created c.history, x.index = i →
    c.state.entrepot.pendingTransactions.get i = some x.transaction → Unpaid c.history x))

/-- The condition for keeping what is paid: of the calls of the market, one that drops a pending
transaction — `lock` returning over it, `settle` giving it up or finalizing another one — does so
only if the ledger has reported, after the expiry of its lock, a balance below its price. -/
abbrev keepPaid (D : Deployment) : Discipline where
  call := fun _ i => i.isMarket = true
  list := fun _ _ => True
  lock := fun c f => MayDrop c f.index
  settle := fun c f b =>
    (b < f.transaction.price → c.state.entrepot.isLocked c.state.now f.index = false →
      MayDrop c f.index) ∧
    (f.transaction.price ≤ b → c.state.tokens.Owns D f.transaction.from' f.index →
      c.state.entrepot.pendingTransactions.get f.index = some f.transaction ∨ MayDrop c f.index)
  upgrade := fun _ => False

instance (D : Deployment) : (keepPaid D).Checkable :=
  ⟨inferInstance, inferInstance, inferInstance, inferInstance, inferInstance⟩

/-! ### The invariant -/

/-- Without calls that touch the queue, no run of the queue is suspended. -/
theorem run_eq_none_of_market (hG : ∀ c i, G.call c i → i.isMarket = true) (hc₀ : Initial c₀)
    (h : Actor.Run (program D) G c₀ c) : ∀ k ∈ c.pool, k.run = none := by
  have hlocal : (program D).Local G (fun _ _ => True) fun _ _ k => k.run = none := by
    refine local_of_moves ?_ fun _ _ _ _ _ _ => trivial
    intro c src o _ hsrc hg hm
    have hcall : ∀ i, src = .call i → i.isMarket = true := by
      rintro i rfl
      exact hG c i hg
    exact {
      inv := trivial
      spawned := (hm.market_mono hcall fun k hk => (hsrc k hk).2).2.2
      stable := fun _ hk => hk }
  refine (h.local_induct hlocal trivial ?_).2
  rw [hc₀.2.1]
  simp

/-- What is known of every configuration of a run of the market. -/
structure Known (D : Deployment) (c : Config) : Prop where
  ids : FreshIds c.history
  sourced : ∀ k ∈ c.pool, Sourced c.history k
  run : ∀ k ∈ c.pool, k.run = none

theorem known_of_run (hc₀ : Initial c₀) (h : Actor.Run (program D) (keepPaid D).guard c₀ c) :
    Known D c where
  ids := freshIds_of_noUpgrade (fun _ _ hg => hg) hc₀ h
  sourced := (provenance hc₀ h).2
  run := run_eq_none_of_market (fun _ _ hg => hg) hc₀ h

/-- What a settled transaction needs to stay settled. -/
theorem Settled.mono {w w' : World} {h : List Event} {i : TokenIndex} {t : Transaction}
    (hs : Settled w h i t) (es : List Event)
    (htr : ∀ closed, w.entrepot.transactions.get t.id = some { t with closed := some closed } →
      ∃ closed', w'.entrepot.transactions.get t.id = some { t with closed := some closed' })
    (hpd : ∀ d ∈ w.entrepot.pendingDisbursements, d ∈ w'.entrepot.pendingDisbursements) :
    Settled w' (es ++ h) i t := by
  obtain ⟨b, jobs, closed, hev, hget, hlen, hjobs⟩ := hs
  obtain ⟨closed', hget'⟩ := htr closed hget
  exact ⟨b, jobs, closed', List.mem_append_right es hev, hget', hlen,
    fun d hd => hpd d (hjobs d hd)⟩

theorem Unpaid.append {h : List Event} {x : Creation} (hx : Unpaid h x) (es : List Event) :
    Unpaid (es ++ h) x := by
  obtain ⟨r, hr, hrest⟩ := hx
  refine ⟨r, ?_, hrest⟩
  rw [reports, List.filterMap_append]
  exact List.mem_append_right _ hr

/-- A step that meets the condition keeps every transaction, or finds it unpaid. -/
theorem kept_step {src : Source} {o : Step} (hknown : Known D c)
    (hI : ∀ x ∈ created c.history, Kept c.state c.history x.index x.transaction ∨
      Unpaid c.history x)
    (hpool : ∀ k ∈ Actor.Source.task src, k ∈ c.pool) (hg : (keepPaid D).guard.segment c src)
    (hm : Move D c.state src o) {x : Creation} (hx : x ∈ created (o.events ++ c.history)) :
    Kept o.state (o.events ++ c.history) x.index x.transaction ∨
      Unpaid (o.events ++ c.history) x := by
  have hcall : ∀ i, src = .call i → i.isMarket = true := by
    rintro i rfl
    exact hg
  have hpd := (hm.market_mono hcall fun k hk => hknown.run k (hpool k hk)).1
  rcases hm.life with hq | ⟨f, t, rfl, rfl, rfl⟩ | ⟨f, b, k, r, rfl, hlt, rfl⟩ |
    ⟨f, b, k, s, tokens, jobs, rfl, hle, hsale, ht, rfl⟩
  · rw [hq.created_append] at hx
    rcases hI x hx with (hpend | hs) | hu
    · exact Or.inl (Or.inl (by rw [hq.pendingTransactions]; exact hpend))
    · exact Or.inl (Or.inr (hs.mono _ (fun closed hget => ⟨closed, by rwa [hq.transactions]⟩) hpd))
    · exact Or.inr (hu.append _)
  · rcases List.mem_cons.1 hx with rfl | hx
    · exact Or.inl (Or.inl (Table.get_put_self _ _ _))
    · rcases hI x hx with (hpend | hs) | hu
      · by_cases hi : x.index = f.index
        · exact Or.inr (Unpaid.append (hg x hx hi (hi ▸ hpend)) _)
        · exact Or.inl (Or.inl ((Table.get_put_of_ne _ _ hi).trans hpend))
      · exact Or.inl (Or.inr (hs.mono _ (fun closed hget => ⟨closed, hget⟩) hpd))
      · exact Or.inr (hu.append _)
  · have htr : (c.state.entrepot.giveUp c.state.now f).transactions =
        c.state.entrepot.transactions := by
      unfold giveUp
      split <;> rfl
    rcases hI x hx with (hpend | hs) | hu
    · by_cases hlock : c.state.entrepot.isLocked c.state.now f.index = true
      · left
        left
        rw [World.entrepot_setEntrepot, giveUp, if_pos hlock]
        exact hpend
      · by_cases hi : x.index = f.index
        · exact Or.inr (Unpaid.append (hg.1 hlt (by simpa using hlock) x hx hi (hi ▸ hpend)) _)
        · left
          left
          rw [World.entrepot_setEntrepot, giveUp, if_neg hlock]
          exact (Table.get_delete_of_ne _ hi).trans hpend
    · exact Or.inl (Or.inr (hs.mono _ (fun closed hget => ⟨closed, by
        rwa [World.entrepot_setEntrepot, htr]⟩) hpd))
    · exact Or.inr (hu.append _)
  · have hown := Tokens.transfer_isOk_iff.1 ⟨_, ht⟩
    obtain ⟨e, he⟩ := (hknown.sourced _ (hpool _ (Multiset.mem_singleton_self _))).held f rfl
    rcases hI x hx with (hpend | hs) | hu
    · by_cases hi : x.index = f.index
      · rcases hg.2 hle hown with hsame | hdrop
        · -- the transaction finalized is the pending one
          rw [hi, hsame, Option.some_inj] at hpend
          refine Or.inl (Or.inr ⟨b, jobs, c.state.now, ?_, ?_, hsale.length_jobs, ?_⟩)
          · rw [hi, ← hpend]
            exact List.mem_append_left _ (List.mem_singleton_self _)
          · rw [World.entrepot_setTokens, World.entrepot_setEntrepot, hsale.transactions, ← hpend]
            exact Table.get_put_self _ _ _
          · intro d hd
            rw [World.entrepot_setTokens, World.entrepot_setEntrepot, hsale.pendingDisbursements]
            exact List.mem_append_left _ hd
        · exact Or.inr (Unpaid.append (hdrop x hx hi (hi ▸ hpend)) _)
      · left
        left
        rw [World.entrepot_setTokens, World.entrepot_setEntrepot, hsale.pendingTransactions,
          Table.get_delete_of_ne _ hi]
        exact hpend
    · refine Or.inl (Or.inr (hs.mono _ ?_ hpd))
      intro closed hget
      rw [World.entrepot_setTokens, World.entrepot_setEntrepot, hsale.transactions, Table.get_put]
      split
      · -- only the same transaction has this id
        rename_i hid
        have hxf := hknown.ids.eq_of_id hx (mem_created.2 he) hid
        rw [hxf]
        exact ⟨c.state.now, rfl⟩
      · exact ⟨closed, hget⟩
    · exact Or.inr (hu.append _)

/-- **Every transaction is kept, or has been found unpaid after the expiry of its lock.** -/
theorem kept_or_unpaid (hc₀ : Initial c₀) (h : Actor.Run (program D) (keepPaid D).guard c₀ c) :
    ∀ x ∈ created c.history, Kept c.state c.history x.index x.transaction ∨
      Unpaid c.history x := by
  refine invariant_of_moves (I := fun w h => ∀ x ∈ created h,
    Kept w h x.index x.transaction ∨ Unpaid h x) ?_ ?_
    (h.assume fun _ hd => known_of_run hc₀ hd) ?_
  · intro c src o hI hpool hg hm x hx
    obtain ⟨hknown, hg⟩ := Actor.Guard.segment_assuming.1 hg
    exact kept_step hknown hI hpool hg hm hx
  · exact fun c supply canister _ hg _ => absurd hg.2 id
  · rw [hc₀.2.2]
    simp [created]

/-! ### Balances and reports -/

/-- No report is of the future. -/
theorem reports_le_now (hc₀ : Initial c₀) (h : Actor.Run (program D) G c₀ c) :
    ∀ r ∈ reports c.history, r.time ≤ c.state.now := by
  refine invariant_of_moves (I := fun w h => ∀ r ∈ reports h, r.time ≤ w.now) ?_ ?_ h ?_
  · intro c src o hI _ _ hm r hr
    rcases hm.report_cases hr with hold | ⟨hnew, -⟩
    · exact le_trans (hI r hold) hm.now_le
    · exact hnew ▸ hm.now_le
  · exact fun c supply canister hI _ _ => hI
  · rw [hc₀.2.2]
    simp [reports]

/-- Once a subaccount holds an amount, it is never reported to hold less. -/
theorem reports_of_paid (hc₀ : Initial c₀) (h : Actor.Run (program D) (keepPaid D).guard c₀ cp)
    (h' : Actor.Run (program D) (keepPaid D).guard cp c) {bytes : SubAccount} {amount : ℕ}
    (hpaid : amount ≤ cp.state.ledger bytes) :
    ∀ r ∈ reports c.history, r.bytes = bytes → cp.state.now < r.time →
      amount ≤ r.balance.toNat := by
  refine (invariant_of_moves (I := fun w h => amount ≤ w.ledger bytes ∧ ∀ r ∈ reports h,
    r.bytes = bytes → cp.state.now < r.time → amount ≤ r.balance.toNat) ?_ ?_
    (h'.assume fun _ hd => known_of_run hc₀ (h.trans hd)) ⟨hpaid, ?_⟩).2
  · rintro c src o ⟨hled, hI⟩ hpool hg hm
    obtain ⟨hknown, hg⟩ := Actor.Guard.segment_assuming.1 hg
    have hcall : ∀ i, src = .call i → i.isMarket = true := by
      rintro i rfl
      exact hg
    have hmono := (hm.market_mono hcall fun k hk => hknown.run k (hpool k hk)).2.1
    refine ⟨le_trans hled (hmono bytes), ?_⟩
    intro r hr hb ht
    rcases hm.report_cases hr with hold | ⟨-, hbal⟩
    · exact hI r hold hb ht
    · rw [hbal, hb]
      exact hled
  · exact fun c supply canister _ hg _ => absurd hg.2 id
  · exact fun r hr _ ht => absurd (reports_le_now hc₀ h r hr) (not_le.2 ht)

/-- **Purchases paid in time are never lost.**  If the payment subaccount of a transaction holds its
price at some time not later than the expiry of its lock, then from the moment `lock` has returned,
the transaction is pending at its index, or recorded with its disbursements queued. -/
theorem paid_in_time_never_lost (hc₀ : Initial c₀)
    (h : Actor.Run (program D) (keepPaid D).guard c₀ cp)
    (h' : Actor.Run (program D) (keepPaid D).guard cp c) {i : TokenIndex} {t : Transaction}
    {e : Time} (hlocked : .locked i t e ∈ c.history) (htime : cp.state.now ≤ e)
    (hpaid : t.price.toNat ≤ cp.state.ledger t.bytes) :
    Kept c.state c.history i t := by
  refine (kept_or_unpaid hc₀ (h.trans h') _ (mem_created.2 hlocked)).resolve_right ?_
  rintro ⟨r, hr, hbytes, hlate, hshort⟩
  have henough := reports_of_paid hc₀ h h' hpaid r hr hbytes (lt_of_le_of_lt htime hlate)
  exact absurd (UInt64.lt_iff_toNat_lt.1 hshort) (not_lt.2 henough)

/-- The payment is settled after the lock has expired, and the purchase is kept. -/
theorem paid_in_time_never_lost_sample : ∃ cp c, sampleRun Choice.paidLock = some cp ∧
    (program .sample).exec cp (.call (.tick 120000000001) :: Choice.settle ++ [.resume 0 .run]) =
      some c ∧ Kept c.state c.history 0 firstTransaction := by
  obtain ⟨cp, hcp, c, hc, hafter, hlocked, hnow, hpaid⟩ :=
    (by decide : ∃ cp ∈ sampleRun Choice.paidLock, ∃ c ∈ (program .sample).exec cp
      (.call (.tick 120000000001) :: Choice.settle ++ [.resume 0 .run]),
      (keepPaid .sample).guard.AllowsAll (program .sample) cp
        (.call (.tick 120000000001) :: Choice.settle ++ [.resume 0 .run]) ∧
      .locked 0 firstTransaction 120000000000 ∈ c.history ∧ cp.state.now ≤ 120000000000 ∧
      firstTransaction.price.toNat ≤ cp.state.ledger firstTransaction.bytes)
  have hbefore : (keepPaid .sample).guard.AllowsAll (program .sample) Config.sample
      Choice.paidLock := by decide
  exact ⟨cp, c, hcp, hc, paid_in_time_never_lost Config.initial_sample
    (Actor.run_of_exec hbefore hcp) (Actor.run_of_exec hafter hc) hlocked hnow hpaid⟩

/-- A lock whose buyer pays while a `settle` call waits with an older balance. -/
def latePayment : List Choice :=
  Choice.mint ⟨[1]⟩ ++ Choice.list ⟨[1]⟩ 40000 ++ Choice.lock 40000 "C" ++ Choice.settle ++
    Choice.pay 1 40000

/-- **A purchase paid in time can be lost**: the balance was read before the payment, and `settle`
resumes after the lock has expired. -/
theorem paid_in_time_lost : ∃ cp c, sampleRun latePayment = some cp ∧
    (program .sample).exec cp [.call (.tick 120000000001), .resume 0 .run] = some c ∧
    .locked 0 firstTransaction 120000000000 ∈ c.history ∧ cp.state.now ≤ 120000000000 ∧
    firstTransaction.price.toNat ≤ cp.state.ledger firstTransaction.bytes ∧
    ¬ Kept c.state c.history 0 firstTransaction := by
  obtain ⟨cp, hcp, c, hc, hlocked, hnow, hpaid, hpend, hset⟩ :=
    (by decide : ∃ cp ∈ sampleRun latePayment,
      ∃ c ∈ (program .sample).exec cp [.call (.tick 120000000001), .resume 0 .run],
      .locked 0 firstTransaction 120000000000 ∈ c.history ∧ cp.state.now ≤ 120000000000 ∧
      firstTransaction.price.toNat ≤ cp.state.ledger firstTransaction.bytes ∧
      c.state.entrepot.pendingTransactions.get 0 = none ∧ settlements c.history = [])
  refine ⟨cp, c, hcp, hc, hlocked, hnow, hpaid, ?_⟩
  rintro (hkept | ⟨b, jobs, closed, hev, -⟩)
  · rw [hpend] at hkept
    simp at hkept
  · rw [← mem_settlements, hset] at hev
    simp at hev

end LegendsNft
