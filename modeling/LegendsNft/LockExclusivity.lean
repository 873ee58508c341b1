/-
**A lock excludes others until it expires.**

`lock` locks the listing before it awaits `_canSettle`, and `list` and `lock` refuse a locked
listing.  But they refuse at their start only: a `list` call that has seen the listing unlocked
still overwrites it, and its lock, when it resumes, and then another `lock` call gets through.

In the runs in which no resumption writes to an index that has a pending transaction whose lock has
not expired, a `lock` call that has returned holds the index until its lock expires or its
transaction is settled: the listing stays, locked and at its price, the transaction stays pending,
and no other `lock` call returns.

Main definitions:

* `LegendsNft.Held` — the transaction holds its index;
* `LegendsNft.exclusive` — the condition on runs.

Main results:

* `LegendsNft.lock_exclusive` — **a lock excludes others until it expires**;
* `LegendsNft.lock_overwritten` — a run outside the condition in which it does not.
-/

import LegendsNft.Completion

set_option relaxedAutoImplicit false
set_option autoImplicit false

namespace LegendsNft

open Entrepot

variable {D : Deployment} {G : Guard} {c₀ c : Config}

/-! ### The property and the condition -/

/-- The transaction holds its index: it is pending, and its listing is there, locked at least until
the lock of the transaction expires. -/
structure Held (w : World) (x : Creation) : Prop where
  pending : w.entrepot.pendingTransactions.get x.index = some x.transaction
  listed : ∃ l e, w.entrepot.listings.get x.index = some l ∧ l.price = x.transaction.price ∧
    l.seller = x.transaction.seller ∧ l.locked = some e ∧ x.expiry ≤ e

/-- No transaction holds the index: what is pending there is past its lock. -/
def Free (c : Config) (i : TokenIndex) : Prop :=
  ∀ x ∈ created c.history, x.index = i →
    c.state.entrepot.pendingTransactions.get i = some x.transaction → x.expiry < c.state.now

instance (c : Config) (i : TokenIndex) : Decidable (Free c i) :=
  inferInstanceAs (Decidable (∀ x ∈ created c.history, x.index = i →
    c.state.entrepot.pendingTransactions.get i = some x.transaction → x.expiry < c.state.now))

/-- The listing a `lock` call has locked is still there, at its price, and locked as long. -/
def StillLocked (c : Config) (f : LockFrame) : Prop :=
  ∃ l ∈ c.state.entrepot.listings.get f.index, l.price = f.listing.price ∧
    l.seller = f.listing.seller ∧ ∃ e ∈ l.locked, f.expiry ≤ e

instance (c : Config) (f : LockFrame) : Decidable (StillLocked c f) :=
  match h : c.state.entrepot.listings.get f.index with
  | none => isFalse (by simp [StillLocked, h])
  | some l =>
      match h' : l.locked with
      | none => isFalse (by simp [StillLocked, h, h'])
      | some e => decidable_of_iff
          (l.price = f.listing.price ∧ l.seller = f.listing.seller ∧ f.expiry ≤ e)
          (by simp [StillLocked, h, h'])

/-- The condition for exclusive locks: `list`, `lock`, and a `settle` that completes for another
transaction resume only when what is pending at the index is past its lock, and `lock` finds its own
lock, unless expired, in place. -/
abbrev exclusive (D : Deployment) : Discipline where
  call := fun _ _ => True
  list := fun c f => Free c f.index
  lock := fun c f => Free c f.index ∧ (c.state.now ≤ f.expiry → StillLocked c f)
  settle := fun c f b => Completes D c.state f b →
    c.state.entrepot.pendingTransactions.get f.index = some f.transaction ∨ Free c f.index
  upgrade := fun _ => False

instance (D : Deployment) : (exclusive D).Checkable :=
  ⟨inferInstance, inferInstance, inferInstance, inferInstance, inferInstance⟩

/-- Every lock that has neither expired nor been settled holds its index. -/
def Exclusive (w : World) (h : List Event) : Prop :=
  ∀ x ∈ created h, w.now ≤ x.expiry →
    (∀ s ∈ settlements h, s.frame.transaction ≠ x.transaction) → Held w x

/-! ### One step -/

theorem Held.isLocked {w : World} {x : Creation} (hx : Held w x) (hnow : w.now ≤ x.expiry) :
    w.entrepot.isLocked w.now x.index = true := by
  obtain ⟨l, e, hl, -, -, he, hle⟩ := hx.listed
  rw [Entrepot.isLocked, hl]
  simp only [he]
  rw [if_pos (le_trans hnow hle)]

/-- What leaves the index alone keeps the transaction there. -/
theorem Held.congr {w w' : World} {x : Creation} (hx : Held w x)
    (hp : w'.entrepot.pendingTransactions.get x.index =
      w.entrepot.pendingTransactions.get x.index)
    (hl : w'.entrepot.listings.get x.index = w.entrepot.listings.get x.index) : Held w' x where
  pending := hp.trans hx.pending
  listed := by
    obtain ⟨l, e, hget, hrest⟩ := hx.listed
    exact ⟨l, e, hl.trans hget, hrest⟩

/-- What holds an index excludes that it is free. -/
theorem Held.not_free {x : Creation} (hx : Held c.state x) (hmem : x ∈ created c.history)
    (hnow : c.state.now ≤ x.expiry) : ¬ Free c x.index :=
  fun hfree => absurd (hfree x hmem rfl hx.pending) (not_lt.2 hnow)

/-- **One step**: a move that meets the condition leaves the index of an unexpired lock alone, or
settles its transaction. -/
theorem Held.step {src : Source} {o : Step} (hg : (exclusive D).guard.segment c src)
    (hm : Move D c.state src o) {x : Creation} (hx : Held c.state x)
    (hmem : x ∈ created c.history) (hnow : o.state.now ≤ x.expiry)
    (hset : ∀ s ∈ settlements (o.events ++ c.history), s.frame.transaction ≠ x.transaction) :
    Held o.state x := by
  have hnow' : c.state.now ≤ x.expiry := le_trans hm.now_le hnow
  have hnot := hx.not_free hmem hnow'
  cases hm with
  | idle | relay | tick | deposit | mint | listBegan | extTransfer | read | report | executed
  | rejected | deleted => exact hx.congr rfl rfl
  | sent market =>
      exact hx.congr (by simp [market.pendingTransactions]) (by simp [market.listings])
  | queueStart pass =>
      exact hx.congr (by simp [pass.market.pendingTransactions]) (by simp [pass.market.listings])
  | queueStep count pass =>
      have hp := pass.market.pendingTransactions
      have hl := pass.market.listings
      exact hx.congr (by simp [hp]) (by simp [hl])
  | @lockBegan _ _ _ _ f hun =>
      -- a `lock` call begins on an unlocked listing only
      have hne : x.index ≠ f.index := by
        intro heq
        rw [← heq, hx.isLocked hnow'] at hun
        simp at hun
      exact hx.congr rfl (Table.get_put_of_ne _ _ hne)
  | @listed f price =>
      -- the condition keeps a suspended `list` or `lock` call away from a held index
      have hne : x.index ≠ f.index := fun heq => hnot (heq ▸ hg)
      exact hx.congr rfl (Table.get_put_of_ne _ _ hne)
  | @delisted f =>
      have hne : x.index ≠ f.index := fun heq => hnot (heq ▸ hg)
      exact hx.congr rfl (Table.get_delete_of_ne _ hne)
  | @locked f t =>
      have hne : x.index ≠ f.index := fun heq => hnot (heq ▸ hg.1)
      exact hx.congr (Table.get_put_of_ne _ _ hne) rfl
  | @gaveUp f =>
      -- `settle` keeps the pending transaction of a locked listing
      by_cases heq : x.index = f.index
      · have hlocked := hx.isLocked hnow'
        rw [heq] at hlocked
        rw [Entrepot.giveUp, if_pos hlocked]
        exact hx
      · refine hx.congr ?_ ?_
        · rw [World.entrepot_setEntrepot, giveUp]
          split
          · rfl
          · exact Table.get_delete_of_ne _ heq
        · rw [World.entrepot_setEntrepot, giveUp]
          split <;> rfl
  | @finalized f b k s tokens jobs hle hsale ht =>
      -- a sale of another transaction at the index would need it free
      have hother : f.transaction ≠ x.transaction :=
        hset ⟨f, b, jobs⟩ (List.mem_cons_self ..)
      have hne : x.index ≠ f.index := by
        intro heq
        have hown := Tokens.transfer_isOk_iff.1 ⟨_, ht⟩
        rcases hg (completes_of_sale hle hown hsale) with hsame | hfree
        · rw [← heq, hx.pending, Option.some_inj] at hsame
          exact hother hsame.symm
        · exact hnot (heq ▸ hfree)
      refine hx.congr ?_ ?_
      · rw [World.entrepot_setTokens, World.entrepot_setEntrepot, hsale.pendingTransactions,
          Table.get_delete_of_ne _ hne]
      · rw [World.entrepot_setTokens, World.entrepot_setEntrepot, hsale.listings,
          Table.get_delete_of_ne _ hne]

/-- A lock that returns with its listing in place holds its index. -/
theorem held_of_stillLocked {f : LockFrame} {t : Transaction}
    (ht : t = f.transaction D c.state.entrepot.nextTxId c.state.now) (hlock : StillLocked c f) :
    Held (c.state.setEntrepot (c.state.entrepot.created f t)) ⟨f.index, t, f.expiry⟩ where
  pending := Table.get_put_self _ _ _
  listed := by
    obtain ⟨l, hl, hprice, hseller, e, he, hle⟩ := hlock
    refine ⟨l, e, hl, ?_, ?_, he, hle⟩
    · rw [ht]
      exact hprice
    · rw [ht]
      exact hseller

theorem settlements_subset (es h : List Event) {s : Settlement} (hs : s ∈ settlements h) :
    s ∈ settlements (es ++ h) := by
  rw [settlements, List.filterMap_append]
  exact List.mem_append_right _ hs

/-- The creations of a history extended by one move. -/
theorem Move.created_cases {w : World} {h : List Event} {src : Source} {o : Step}
    (hm : Move D w src o) :
    created (o.events ++ h) = created h ∨
    ∃ f t, src = .resume (.canSettled (.ok ()) (.lock f)) .run ∧
      t = f.transaction D w.entrepot.nextTxId w.now ∧
      o = ⟨w.setEntrepot (w.entrepot.created f t), [], [.locked f.index t f.expiry]⟩ := by
  rcases hm.life with hq | ⟨f, t, rfl, ht, rfl⟩ | ⟨f, b, k, r, rfl, -, rfl⟩ |
    ⟨f, b, k, s, tokens, jobs, rfl, -, -, -, rfl⟩
  · exact Or.inl (hq.created_append h)
  · exact Or.inr ⟨f, t, rfl, ht, rfl⟩
  · exact Or.inl rfl
  · exact Or.inl rfl

theorem Exclusive.step {src : Source} {o : Step} (hI : Exclusive c.state c.history)
    (hg : (exclusive D).guard.segment c src) (hm : Move D c.state src o) :
    Exclusive o.state (o.events ++ c.history) := by
  intro x hx hnow hset
  have old (hold : x ∈ created c.history) : Held o.state x := by
    have hheld := hI x hold (le_trans hm.now_le hnow) fun s hs =>
      hset s (settlements_subset o.events c.history hs)
    exact hheld.step hg hm hold hnow hset
  rcases hm.created_cases with heq | ⟨f, t, rfl, ht, rfl⟩
  · rw [heq] at hx
    exact old hx
  · rcases List.mem_cons.1 hx with rfl | hx
    · exact held_of_stillLocked ht (hg.2 hnow)
    · exact old hx

/-- No `lock` call has returned on the index of an unexpired, unsettled lock since. -/
def Latest (w : World) (h : List Event) : Prop :=
  ∀ pre x post, created h = pre ++ x :: post → w.now ≤ x.expiry →
    (∀ s ∈ settlements h, s.frame.transaction ≠ x.transaction) → ∀ y ∈ pre, y.index ≠ x.index

theorem Latest.step {src : Source} {o : Step} (hL : Latest c.state c.history)
    (hI : Exclusive c.state c.history) (hg : (exclusive D).guard.segment c src)
    (hm : Move D c.state src o) : Latest o.state (o.events ++ c.history) := by
  intro pre x post hsplit hnow hset
  have hnow' : c.state.now ≤ x.expiry := le_trans hm.now_le hnow
  have hset' : ∀ s ∈ settlements c.history, s.frame.transaction ≠ x.transaction :=
    fun s hs => hset s (settlements_subset o.events c.history hs)
  rcases hm.created_cases with heq | ⟨f, t, rfl, ht, rfl⟩
  · rw [heq] at hsplit
    exact hL pre x post hsplit hnow' hset'
  · have hcons : (⟨f.index, t, f.expiry⟩ : Creation) :: created c.history = pre ++ x :: post :=
      hsplit
    cases pre with
    | nil => simp
    | cons y pre =>
        rw [List.cons_append, List.cons.injEq] at hcons
        obtain ⟨rfl, hrest⟩ := hcons
        intro z hz
        rcases List.mem_cons.1 hz with rfl | hz
        · -- the call that returns now finds the index held
          intro heq
          have hmem : x ∈ created c.history := by simp [hrest]
          exact (hI x hmem hnow' hset').not_free hmem hnow' (heq ▸ hg.1)
        · exact hL pre x post hrest hnow' hset' z hz

/-! ### Whole runs -/

/-- **A lock excludes others until it expires.**  From the moment a `lock` call has returned, until
its lock expires or its transaction is settled, no other `lock` call returns on the index, the
listing is there, locked, with the price and the seller of the transaction, and the transaction is
pending. -/
theorem lock_exclusive (hc₀ : Initial c₀) (h : Actor.Run (program D) (exclusive D).guard c₀ c)
    {pre post : List Creation} {x : Creation} (hx : created c.history = pre ++ x :: post)
    (hnow : c.state.now ≤ x.expiry)
    (hset : ∀ s ∈ settlements c.history, s.frame.transaction ≠ x.transaction) :
    (∀ y ∈ pre, y.index ≠ x.index) ∧
    (∃ l, c.state.entrepot.listings.get x.index = some l ∧ l.price = x.transaction.price ∧
      l.seller = x.transaction.seller ∧ c.state.entrepot.isLocked c.state.now x.index = true) ∧
    c.state.entrepot.pendingTransactions.get x.index = some x.transaction := by
  obtain ⟨hI, hL⟩ : Exclusive c.state c.history ∧ Latest c.state c.history := by
    refine invariant_of_moves (I := fun w h => Exclusive w h ∧ Latest w h) ?_ ?_ h ?_
    · exact fun c src o hI _ hg hm => ⟨hI.1.step hg hm, hI.2.step hI.1 hg hm⟩
    · exact fun c supply canister _ hg _ => absurd hg id
    · rw [hc₀.2.2]
      exact ⟨by simp [Exclusive, created], by simp [Latest, created]⟩
  have hheld := hI x (by simp [hx]) hnow hset
  obtain ⟨l, e, hl, hprice, hseller, -⟩ := hheld.listed
  exact ⟨hL pre x post hx hnow hset, ⟨l, hl, hprice, hseller, hheld.isLocked hnow⟩,
    hheld.pending⟩

/-- A lock that has returned, and a settlement that has not been paid. -/
def waitingLock : List Choice :=
  Choice.mint ⟨[1]⟩ ++ Choice.list ⟨[1]⟩ 40000 ++ Choice.lock 40000 "C" ++ Choice.settle ++
    [.resume 0 .run]

/-- A run that satisfies the condition, with a lock that has not expired. -/
theorem lock_exclusive_sample : ∃ c x, sampleRun waitingLock = some c ∧
    created c.history = [x] ∧
    c.state.entrepot.pendingTransactions.get x.index = some x.transaction := by
  obtain ⟨c, hc, hcreated, hnow, hset⟩ := (by decide : ∃ c ∈ sampleRun waitingLock,
    created c.history = [] ++ ⟨0, firstTransaction, 120000000000⟩ :: [] ∧
      c.state.now ≤ 120000000000 ∧
      ∀ s ∈ settlements c.history, s.frame.transaction ≠ firstTransaction)
  have hallowed : (exclusive .sample).guard.AllowsAll (program .sample) Config.sample
    waitingLock := by decide
  have hexcl := lock_exclusive Config.initial_sample (Actor.run_of_exec hallowed hc) hcreated hnow
    hset
  exact ⟨c, _, hc, hcreated, hexcl.2.2⟩

/-- The owner has two `list` calls under way, one of which resumes after a lock has returned. -/
def lateList : List Choice :=
  Choice.mint ⟨[1]⟩ ++ Choice.list ⟨[1]⟩ 40000 ++
    [.call (.list ⟨[1]⟩ ⟨none, some 90000, "t0"⟩), .resume 0 .run,
      .call (.lock ⟨[2]⟩ "t0" 40000 "C"), .resume 1 .run, .resume 1 .run, .resume 0 .run]

/-- Another `lock` call, which finds nothing paid. -/
def secondLock : List Choice :=
  [.call (.lock ⟨[3]⟩ "t0" 90000 "D"), .resume 0 .run, .resume 0 .run, .resume 0 .report,
    .resume 0 .run, .resume 0 .run, .resume 0 .run]

/-- **A `list` call under way overwrites a lock**: at the time the lock was granted, with nothing
settled, the listing is unlocked and has another price, and then a second `lock` call returns and
takes the place of the pending transaction. -/
theorem lock_overwritten : ∃ c c', sampleRun lateList = some c ∧
    created c.history = [⟨0, firstTransaction, 120000000000⟩] ∧ c.state.now ≤ 120000000000 ∧
    settlements c.history = [] ∧
    (c.state.entrepot.listings.get 0).map Listing.price = some 90000 ∧
    c.state.entrepot.isLocked c.state.now 0 = false ∧
    (program .sample).exec c secondLock = some c' ∧
    (created c'.history).map Creation.index = [0, 0] ∧ c'.state.now ≤ 120000000000 ∧
    settlements c'.history = [] ∧
    c'.state.entrepot.pendingTransactions.get 0 ≠ some firstTransaction := by
  obtain ⟨c, hc, c', hc', hcreated, hnow, hset, hprice, hlock, hafter⟩ :=
    (by decide : ∃ c ∈ sampleRun lateList, ∃ c' ∈ (program .sample).exec c secondLock,
      created c.history = [⟨0, firstTransaction, 120000000000⟩] ∧ c.state.now ≤ 120000000000 ∧
      settlements c.history = [] ∧
      (c.state.entrepot.listings.get 0).map Listing.price = some 90000 ∧
      c.state.entrepot.isLocked c.state.now 0 = false ∧
      (created c'.history).map Creation.index = [0, 0] ∧ c'.state.now ≤ 120000000000 ∧
      settlements c'.history = [] ∧
      c'.state.entrepot.pendingTransactions.get 0 ≠ some firstTransaction)
  exact ⟨c, c', hc, hcreated, hnow, hset, hprice, hlock, hc', hafter⟩

end LegendsNft
