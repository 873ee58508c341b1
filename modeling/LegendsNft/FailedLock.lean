/-
**What a failed lock leaves behind.**

`lock` writes its lock and takes its subaccount before it awaits `_canSettle`, and only then learns
whether it may proceed.  Nothing takes the lock back when it may not: when the ledger rejects the
balance query or the settlement of an older transaction traps, the call ends with an exception and
the listing stays locked, without a transaction that could be paid.  Failing does no harm only when
the token has been sold, which has taken the listing down, or when `list` has put the listing back.

Main definitions:

* `LegendsNft.Task.fails` — the ways a suspended `lock` call fails;
* `LegendsNft.SoldSince`, `LegendsNft.Relisted` — the two ways its lock is gone by then;
* `LegendsNft.undoing` — the property, as a condition on runs, and `LegendsNft.recovering` — the
  condition, with `LegendsNft.orderly` — the circumstances;
* `LegendsNft.LocksBacked` — every lock in force has a transaction.

Main results:

* `LegendsNft.Task.fails_iff` — the list of failures is complete;
* `LegendsNft.asFound_iff` — a listing is as `lock` has found it when `list` has put it back;
* `LegendsNft.backed_of_run` — a lock in force is that of a transaction or of a suspended call;
* `LegendsNft.failed_lock_undone` — **the runs in which a failed lock leaves no lock behind**.
-/

import LegendsNft.Completion
import LegendsNft.ListingHistory
import LegendsNft.PaymentAccounts

set_option relaxedAutoImplicit false
set_option autoImplicit false

namespace LegendsNft

open Entrepot

variable {D : Deployment} {G : Guard} {c₀ c : Config}

/-! ### How a suspended `lock` call goes on -/

/-- The `lock` call a continuation carries. -/
def Task.lockFrame (k : Task) : Option LockFrame :=
  match k.waiter with
  | some (.lock f) => some f
  | _ => none

theorem Task.lockFrame_eq_some {k : Task} {f : LockFrame} :
    k.lockFrame = some f ↔ k.waiter = some (.lock f) := by
  unfold Task.lockFrame
  split
  · rename_i g hg
    simp [hg]
  · rename_i hnot
    constructor
    · simp
    · exact fun heq => absurd heq (hnot f)

/-- The ways a suspended `lock` call fails: a call it waits for is rejected, the settlement it waits
for traps, or it is given an error. -/
def Task.fails (D : Deployment) (w : World) : Task → Wake → Bool
  | .canSettle _ _, .reject => true
  | .settle _ _, .reject => true
  | .balance _ _, .reject => true
  | .insert _, .reject => true
  | .reported g b _, .run => decide (g.transaction.price ≤ b ∧ ¬ Completes D w g b)
  | .canSettled (.error _) _, .run => true
  | _, _ => false

/-- A segment with which a `lock` call ends without success: nothing is left of the call, and it has
created no transaction. -/
structure Fruitless (f : LockFrame) (o : Step) : Prop where
  ended : ∀ k ∈ o.spawned, k.lockFrame ≠ some f
  nothing : ∀ i t e, .locked i t e ∉ o.events

/-- A failing segment changes nothing. -/
theorem Task.resume_of_fails {w : World} {k : Task} {r : Wake} {f : LockFrame}
    (hk : k.lockFrame = some f) (h : k.fails D w r) : resume D w k r = some w.idle := by
  rw [lockFrame_eq_some] at hk
  unfold Task.fails at h
  split at h
  · rfl
  · rfl
  · rfl
  · rfl
  · -- the settlement does not complete, so it traps
    rename_i g b k'
    obtain ⟨hpaid, hnot⟩ := of_decide_eq_true h
    exact resume_of_not_completes hpaid hnot
  · cases hk
    rfl
  · simp at h

theorem SettleWaiter.exists_deliver {k : SettleWaiter} {f : LockFrame}
    (hk : k.waiter = some (.lock f)) (r : Except CommonError Unit) :
    ∃ k' ∈ k.deliver r, k'.lockFrame = some f := by
  cases k with
  | direct => simp [SettleWaiter.waiter] at hk
  | canSettle g w =>
      refine ⟨.settled r g w, List.mem_singleton_self _, ?_⟩
      exact Task.lockFrame_eq_some.2 hk

/-- **A segment of a suspended `lock` call** fails, is followed by another, or is its last one. -/
theorem Task.fails_or_goes_on {w : World} {k : Task} {r : Wake} {f : LockFrame} {o : Step}
    (hk : k.lockFrame = some f) (ho : resume D w k r = some o) :
    k.fails D w r ∨ (∃ k' ∈ o.spawned, k'.lockFrame = some f) ∨ k.write r = some (.lock f) := by
  rw [lockFrame_eq_some] at hk
  have one {k' : Task} {o : Step} (hs : o.spawned = [k']) (hw : k'.waiter = some (.lock f)) :
      ∃ k' ∈ o.spawned, k'.lockFrame = some f :=
    ⟨k', hs ▸ List.mem_singleton_self _, lockFrame_eq_some.2 hw⟩
  cases k with
  | canSettle token x =>
      cases r with
      | run =>
          rw [resume] at ho
          split at ho
          · cases ho
            exact Or.inr (Or.inl (one rfl hk))
          · cases ho
            exact Or.inr (Or.inl (one rfl hk))
      | reject => exact Or.inl rfl
      | report => simp [resume] at ho
      | execute res => simp [resume] at ho
  | canSettled res x =>
      cases hk
      cases r with
      | run =>
          cases res with
          | error e => exact Or.inl rfl
          | ok u => exact Or.inr (Or.inr rfl)
      | reject => simp [resume] at ho
      | report => simp [resume] at ho
      | execute res => simp [resume] at ho
  | settle token x =>
      cases r with
      | run =>
          rw [resume] at ho
          split at ho
          · cases ho
            exact Or.inr (Or.inl (SettleWaiter.exists_deliver hk _))
          · cases ho
            exact Or.inr (Or.inl (one rfl hk))
      | reject => exact Or.inl rfl
      | report => simp [resume] at ho
      | execute res => simp [resume] at ho
  | settled res g x =>
      cases r with
      | run =>
          cases ho
          exact Or.inr (Or.inl (one rfl hk))
      | reject => simp [resume] at ho
      | report => simp [resume] at ho
      | execute res => simp [resume] at ho
  | balance g x =>
      cases r with
      | run => simp [resume] at ho
      | reject => exact Or.inl rfl
      | report =>
          rw [resume] at ho
          split at ho
          · simp at ho
          · cases ho
            exact Or.inr (Or.inl (one rfl hk))
      | execute res => simp [resume] at ho
  | reported g b x =>
      cases r with
      | run =>
          by_cases hpaid : g.transaction.price ≤ b
          · by_cases hc : Completes D w g b
            · obtain ⟨s, tokens, jobs, -, hres⟩ := resume_of_completes x hc
              rw [hres] at ho
              cases ho
              exact Or.inr (Or.inl (one rfl hk))
            · exact Or.inl (decide_eq_true ⟨hpaid, hc⟩)
          · have hlt : b < g.transaction.price := UInt64.not_le.1 hpaid
            simp only [resume, settleResume, hlt, if_true, Option.some_inj] at ho
            subst ho
            exact Or.inr (Or.inl (SettleWaiter.exists_deliver hk _))
      | reject => simp [resume] at ho
      | report => simp [resume] at ho
      | execute res => simp [resume] at ho
  | insert x =>
      cases r with
      | run =>
          cases ho
          exact Or.inr (Or.inl (SettleWaiter.exists_deliver hk _))
      | reject => exact Or.inl rfl
      | report => simp [resume] at ho
      | execute res => simp [resume] at ho
  | insertTransfer i => simp [Task.waiter] at hk
  | transfer g => simp [Task.waiter] at hk
  | transferred g res => simp [Task.waiter] at hk

/-- **The failures are those of the list**: a `lock` call ends without success with these segments
and no others. -/
theorem Task.fails_iff {w : World} {k : Task} {r : Wake} {f : LockFrame} {o : Step}
    (hk : k.lockFrame = some f) (ho : resume D w k r = some o) :
    k.fails D w r ↔ Fruitless f o := by
  constructor
  · intro hfails
    rw [Task.resume_of_fails hk hfails, Option.some_inj] at ho
    subst ho
    exact ⟨by simp [World.idle], by simp [World.idle]⟩
  · rintro ⟨hended, hnothing⟩
    rcases Task.fails_or_goes_on hk ho with hfails | ⟨k', hk', hf⟩ | hw
    · exact hfails
    · exact absurd hf (hended k' hk')
    · -- the last segment of a call creates its transaction
      obtain ⟨rfl, rfl⟩ := Task.write_eq_lock hw
      cases ho
      exact absurd (List.mem_singleton_self _) (hnothing _ _ _)

/-! ### How its lock has gone by then -/

/-- The token has been sold since the `lock` call began. -/
def SoldSince (h : List Event) (f : LockFrame) : Prop :=
  ∃ s ∈ settlements (h.takeWhile fun e => e ≠ .lockBegan f), s.frame.index = f.index

instance (h : List Event) (f : LockFrame) : Decidable (SoldSince h f) :=
  inferInstanceAs (Decidable (∃ s ∈ _, _))

/-- The `list` call and the price of an event. -/
def Event.relisting : Event → Option (ListFrame × UInt64)
  | .listed g price => some (g, price)
  | _ => none

/-- The `lock` call of an event. -/
def Event.locking : Event → Option LockFrame
  | .lockBegan g => some g
  | _ => none

/-- What was last written to the listing is what `list` has put back: the same price by the same
seller, where `lock` had found no lock. -/
def Relisted (h : List Event) (f : LockFrame) : Prop :=
  ∃ x ∈ (lastWrite f.index h).bind Event.relisting, x.2 = f.listing.price ∧
    x.1.caller = f.listing.seller ∧ f.listing.locked = none

instance (h : List Event) (f : LockFrame) : Decidable (Relisted h f) :=
  inferInstanceAs (Decidable (∃ x ∈ _, _))

/-- The listing has the price, the seller and the lock that `lock` has found. -/
def AsFound (s : Entrepot) (f : LockFrame) : Prop :=
  ∃ l, s.listings.get f.index = some l ∧ l.price = f.listing.price ∧
    l.seller = f.listing.seller ∧ l.locked = f.listing.locked

/-- **A listing is as `lock` has found it when `list` has put it back**, and only then. -/
theorem asFound_iff {w : World} {h : List Event} {f : LockFrame}
    (hl : ∀ i, w.entrepot.listings.get i = (lastWrite i h).bind Event.listing)
    (hC : Clocked w h) (hf : .lockBegan f ∈ h) : AsFound w.entrepot f ↔ Relisted h f := by
  unfold AsFound Relisted
  rw [hl]
  cases hw : lastWrite f.index h with
  | none => simp
  | some e =>
      cases e with
      | listed g price => simp [Event.listing, Event.relisting, eq_comm]
      | lockBegan g =>
          -- the lock on the listing expires later than any that `lock` has found
          have hlast := hC.last _ _ hw f hf rfl
          simp only [Option.bind_some, Event.listing, Event.relisting, Option.some_inj,
            Option.not_mem_none, false_and, exists_false, iff_false]
          rintro ⟨l, rfl, -, -, hlocked⟩
          exact absurd hlast (not_le.2 (hC.found f hf _ hlocked.symm))
      | _ => simp [Event.listing, Event.relisting]

/-- What comes before the first element that fails the test is in front of any such element. -/
theorem mem_of_mem_takeWhile {α : Type} {p : α → Bool} {x y : α} {l l' : List α} (hx : p x = false)
    (hy : y ∈ (l ++ x :: l').takeWhile p) : y ∈ l := by
  rw [List.takeWhile_append, List.takeWhile_cons_of_neg (by simp [hx])] at hy
  split at hy
  · simpa using hy
  · exact List.takeWhile_subset p hy

/-- While the lock of a call is the last write, the token has not been sold since. -/
theorem not_soldSince {h : List Event} {f : LockFrame}
    (hw : lastWrite f.index h = some (.lockBegan f)) : ¬ SoldSince h f := by
  rintro ⟨s, hs, hi⟩
  obtain ⟨-, es, h', rfl, hes⟩ := List.find?_eq_some_iff_append.1 hw
  have hmem := mem_of_mem_takeWhile (by simp) (mem_settlements.1 hs)
  have hne := hes _ hmem
  simp [Event.listingIndex, hi] at hne

theorem not_relisted {h : List Event} {f : LockFrame}
    (hw : lastWrite f.index h = some (.lockBegan f)) : ¬ Relisted h f := by
  simp [Relisted, hw, Event.relisting]

/-! ### The property and the condition -/

/-- A failed `lock` call has left no lock behind: its token has been sold, or the listing is as the
call has found it; and no entry of `pendingTransactions` stems from the call. -/
structure Undone (D : Deployment) (h : List Event) (f : LockFrame) (s : Entrepot) : Prop where
  listing : SoldSince h f ∨ AsFound s f
  pending : ∀ i t, s.pendingTransactions.get i = some t → ¬ StemsFrom D f t

/-- The property: a `lock` call that ends without success has left no lock behind. -/
def undoing (D : Deployment) : Guard where
  call := fun c i => ∀ o, i.isLock = true → call D c.state i = some o → o.spawned = [] →
    o.state.entrepot = c.state.entrepot
  resume := fun c k r => ∀ f o, k.lockFrame = some f → resume D c.state k r = some o →
    Fruitless f o → Undone D c.history f o.state.entrepot
  restart := fun _ _ => True

/-- The condition: a `lock` call that has locked fails only when the token has been sold since, or
`list` has put the listing back. -/
def recovering (D : Deployment) : Guard where
  call := fun _ _ => True
  resume := fun c k r => ∀ f ∈ k.lockFrame, k.fails D c.state r →
    SoldSince c.history f ∨ Relisted c.history f
  restart := fun _ _ => True

/-- No unexpired lock of another call lies on the listing. -/
def Unheld (c : Config) (f : LockFrame) : Prop :=
  ∀ g ∈ (lastWrite f.index c.history).bind Event.locking, c.state.now ≤ g.expiry → g = f

instance (c : Config) (f : LockFrame) : Decidable (Unheld c f) :=
  inferInstanceAs (Decidable (∀ g ∈ _, _ → _))

/-- The circumstances: the counter of subaccounts fits in their bytes, `lock` resumes to create its
transaction only when no unexpired lock of another call lies on the listing, and the canister is
not upgraded while a `lock` call is suspended. -/
abbrev orderly : Discipline where
  call := fun c i => i.isLock = true →
    4294967296 + (c.state.entrepot.nextSubAccount + 1) < 2 ^ 256
  list := fun _ _ => True
  lock := Unheld
  settle := fun _ _ _ => True
  upgrade := fun c => ∀ k ∈ c.pool, k.lockFrame = none

/-- Every lock in force has a pending transaction of the `lock` call that has set it. -/
def LocksBacked (D : Deployment) (c : Config) : Prop :=
  ∀ i l e, c.state.entrepot.listings.get i = some l → l.locked = some e → c.state.now ≤ e →
    ∃ f t, lastWrite i c.history = some (.lockBegan f) ∧
      c.state.entrepot.pendingTransactions.get i = some t ∧ StemsFrom D f t

/-! ### The transactions of suspended calls -/

/-- A suspended `lock` call has no pending transaction yet. -/
theorem noEntry_of_run
    (hG : ∀ c caller token price buyer, G.call c (.lock caller token price buyer) →
      4294967296 + (c.state.entrepot.nextSubAccount + 1) < 2 ^ 256)
    (hc₀ : Initial c₀) (h : Actor.Run (program D) G c₀ c) {k : Task} (hk : k ∈ c.pool)
    {f : LockFrame} (hf : k.lockFrame = some f) {i : TokenIndex} {t : Transaction}
    (ht : c.state.entrepot.pendingTransactions.get i = some t) : ¬ StemsFrom D f t := by
  intro hstem
  have hS := subaccounts_invariant hG hc₀ h
  obtain ⟨e, he⟩ := (provenance hc₀ h).1.pending i t ht
  -- the subaccount would be that of a transaction and that of a suspended call
  have hpaid : f.subaccount ∈ (paid c.history : Multiset SubAccount) :=
    List.mem_map.2 ⟨_, mem_created.2 he, hstem.bytes⟩
  have hsuspended : f.subaccount ∈ suspended c.pool := by
    refine (Multiset.mem_filterMap _ _).2 ⟨k, Multiset.mem_coe.2 hk, ?_⟩
    rw [Task.subaccount, Task.lockFrame_eq_some.1 hf]
  have hnodup := Multiset.nodup_of_le hS.once (Multiset.coe_nodup.2 hS.nodup)
  exact Multiset.disjoint_left.1 (Multiset.nodup_add.1 hnodup).2.2 hpaid hsuspended

/-- A call that returns at once has changed nothing. -/
theorem lock_unchanged {w : World} {i : Input} {o : Step} (hi : i.isLock = true)
    (ho : call D w i = some o) (hs : o.spawned = []) : o.state.entrepot = w.entrepot := by
  cases i with
  | lock caller token price buyer =>
      rw [call] at ho
      split at ho
      · rename_i s r hl
        cases ho
        exact lock_eq_ret hl
      · cases ho
        simp at hs
  | _ => simp [Input.isLock] at hi

/-! ### The locks in force -/

/-- A lock in force is that of a pending transaction or of a suspended call. -/
def Backed (D : Deployment) (w : World) (h : List Event) (m : Multiset Task) : Prop :=
  ∀ i f, lastWrite i h = some (.lockBegan f) → w.now ≤ f.expiry →
    (∃ t, w.entrepot.pendingTransactions.get i = some t ∧ StemsFrom D f t) ∨
      ∃ k ∈ m, k.lockFrame = some f

/-- A move keeps the transaction of the lock that stays in force, or replaces it by another one of
the same call. -/
theorem Move.pending_of_lastWrite {src : Source} {o : Step} (hm : Move D c.state src o)
    (hl : ∀ i, c.state.entrepot.listings.get i = (lastWrite i c.history).bind Event.listing)
    (hg : orderly.guard.segment c src) {i : TokenIndex} {f : LockFrame}
    (hold : lastWrite i c.history = some (.lockBegan f))
    (hw : lastWrite i (o.events ++ c.history) = some (.lockBegan f))
    (hnow : c.state.now ≤ f.expiry) {t : Transaction}
    (ht : c.state.entrepot.pendingTransactions.get i = some t) (hstem : StemsFrom D f t) :
    ∃ t', o.state.entrepot.pendingTransactions.get i = some t' ∧ StemsFrom D f t' := by
  rcases hm.life with hq | ⟨g, t', rfl, rfl, rfl⟩ | ⟨g, b, k, r, rfl, -, rfl⟩ |
    ⟨g, b, k, s, tokens, jobs, rfl, -, hsale, -, rfl⟩
  · rw [hq.pendingTransactions]
    exact ⟨t, ht, hstem⟩
  · by_cases hi : i = g.index
    · -- the circumstances leave the index to the call whose lock lies on it
      subst hi
      have hsame : f = g := by
        have hunheld : Unheld c g := hg
        rw [Unheld, hold] at hunheld
        exact hunheld f rfl hnow
      subst hsame
      exact ⟨_, Table.get_put_self _ _ _, rfl⟩
    · exact ⟨t, (Table.get_put_of_ne _ _ hi).trans ht, hstem⟩
  · -- the listing is locked, so nothing is given up
    rw [World.entrepot_setEntrepot, giveUp]
    by_cases hi : i = g.index
    · have hlocked : c.state.entrepot.isLocked c.state.now g.index = true := by
        rw [Entrepot.isLocked, ← hi, hl, hold]
        simp [Event.listing, LockFrame.lockedListing, hnow]
      rw [if_pos hlocked]
      exact ⟨t, ht, hstem⟩
    · split
      · exact ⟨t, ht, hstem⟩
      · exact ⟨t, (Table.get_delete_of_ne _ hi).trans ht, hstem⟩
  · have hi : i ≠ g.index := by
      rintro rfl
      rw [List.singleton_append, lastWrite_cons (i := g.index) rfl] at hw
      simp at hw
    rw [World.entrepot_setTokens, World.entrepot_setEntrepot, hsale.pendingTransactions,
      Table.get_delete_of_ne _ hi]
    exact ⟨t, ht, hstem⟩

theorem Backed.step {src : Source} {m : Multiset Task} {o : Step}
    (hB : Backed D c.state c.history (Actor.Source.task src + m))
    (hl : ∀ i, c.state.entrepot.listings.get i = (lastWrite i c.history).bind Event.listing)
    (hg : (orderly.guard.and (recovering D)).segment c src)
    (ho : (program D).segment c.state src = some o) :
    Backed D o.state (o.events ++ c.history) (m + o.spawned) := by
  have hm := move_of_segment ho
  obtain ⟨horderly, hrecover⟩ := Actor.Guard.segment_and.1 hg
  intro i f hw hnow'
  have hnow : c.state.now ≤ f.expiry := le_trans hm.now_le hnow'
  have old (hold : lastWrite i c.history = some (.lockBegan f)) :
      (∃ t, o.state.entrepot.pendingTransactions.get i = some t ∧ StemsFrom D f t) ∨
        ∃ k ∈ m + o.spawned, k.lockFrame = some f := by
    rcases hB i f hold hnow with ⟨t, ht, hstem⟩ | ⟨k, hk, hf⟩
    · exact Or.inl (hm.pending_of_lastWrite hl horderly hold hw hnow ht hstem)
    · rcases Multiset.mem_add.1 hk with hk | hk
      · cases src with
        | call i => simp [Actor.Source.task] at hk
        | resume k' r =>
            cases Multiset.mem_singleton.1 hk
            rcases Task.fails_or_goes_on hf ho with hfails | ⟨k', hk', hf'⟩ | hwrite
            · -- while its lock is in force, the call does not fail
              have hi := index_of_lastWrite hold
              subst hi
              rcases hrecover f hf hfails with hsold | hrelisted
              · exact absurd hsold (not_soldSince hold)
              · exact absurd hrelisted (not_relisted hold)
            · exact Or.inr ⟨k', Multiset.mem_add.2 (Or.inr (Multiset.mem_coe.2 hk')), hf'⟩
            · obtain ⟨rfl, rfl⟩ := Task.write_eq_lock hwrite
              have hi := index_of_lastWrite hold
              subst hi
              cases ho
              exact Or.inl ⟨_, Table.get_put_self _ _ _, rfl⟩
      · exact Or.inr ⟨k, Multiset.mem_add.2 (Or.inl hk), hf⟩
  rcases hm.write_cases with ⟨-, hes⟩ | ⟨e, j, hes, he, -⟩
  · rw [lastWrite_append_of_none hes] at hw
    exact old hw
  · have hcons := hw
    rw [hes, List.singleton_append, lastWrite_cons he] at hcons
    split at hcons
    · -- a call that has just locked is suspended
      rw [Option.some_inj] at hcons
      subst hcons
      obtain ⟨-, -, -, -, k, hk, hf⟩ := hm.lockBegan_cases (hes ▸ List.mem_singleton_self _)
      exact Or.inr ⟨k, Multiset.mem_add.2 (Or.inr (Multiset.mem_coe.2 hk)),
        Task.lockFrame_eq_some.2 hf⟩
    · exact old hcons

/-- **A lock in force is that of a pending transaction or of a suspended call.** -/
theorem backed_of_run (hc₀ : Initial c₀)
    (h : Actor.Run (program D) (orderly.guard.and (recovering D)) c₀ c) :
    Backed D c.state c.history c.pool := by
  have hrun := h.assume (J := fun c => ∀ i, c.state.entrepot.listings.get i =
    (lastWrite i c.history).bind Event.listing) fun d hd => listings_of_run hc₀ hd
  refine hrun.multiset_induct (J := Backed D) ?_ ?_ ?_
  · intro c src m o _ hB hg ho
    obtain ⟨hl, hg⟩ := Actor.Guard.segment_assuming.1 hg
    exact hB.step hl hg ho
  · intro c supply o hB hg ho i f hw hnow
    obtain ⟨canister, hup, rfl⟩ := restart_eq_some ho
    have hold : lastWrite i c.history = some (.lockBegan f) :=
      (lastWrite_upgraded i c.history).symm.trans hw
    rcases hB i f hold hnow with ⟨t, ht, hstem⟩ | ⟨k, hk, hf⟩
    · exact Or.inl ⟨t, (Canister.get_pendingTransactions_upgrade hup i).trans ht, hstem⟩
    · have hnone := hg.2.1 k (Multiset.mem_coe.1 hk)
      rw [hf] at hnone
      simp at hnone
  · intro i f hw
    rw [hc₀.2.2] at hw
    simp [lastWrite] at hw

/-! ### Whole runs -/

/-- What is known of the suspended `lock` calls of a run. -/
structure InFlight (D : Deployment) (c : Config) : Prop where
  listings : ∀ i, c.state.entrepot.listings.get i =
    (lastWrite i c.history).bind Event.listing
  clocked : Clocked c.state c.history
  began : ∀ k ∈ c.pool, ∀ f, k.lockFrame = some f → .lockBegan f ∈ c.history
  noEntry : ∀ k ∈ c.pool, ∀ f, k.lockFrame = some f → ∀ i t,
    c.state.entrepot.pendingTransactions.get i = some t → ¬ StemsFrom D f t

theorem inFlight_of_run {H : Guard} (hc₀ : Initial c₀)
    (h : Actor.Run (program D) (orderly.guard.and H) c₀ c) : InFlight D c where
  listings := listings_of_run hc₀ h
  clocked := clocked_of_run hc₀ h
  began := fun k hk f hf => ((provenance hc₀ h).2 k hk).lock f (Task.lockFrame_eq_some.1 hf)
  noEntry := fun _ hk _ hf _ _ ht =>
    noEntry_of_run (G := orderly.guard.and H) (fun _ _ _ _ _ hg => hg.1 rfl) hc₀ h hk hf ht

/-- **The condition is exact**: at a segment of a suspended `lock` call it says that the call leaves
no lock behind if it ends there without success. -/
theorem InFlight.recovering_iff (hc : InFlight D c) {k : Task} (hk : k ∈ c.pool) {r : Wake} :
    (recovering D).resume c k r ↔ (undoing D).resume c k r := by
  constructor
  · intro hrecover f o hf ho hfruitless
    have hfails := (Task.fails_iff hf ho).2 hfruitless
    rw [Task.resume_of_fails hf hfails, Option.some_inj] at ho
    subst ho
    refine ⟨?_, hc.noEntry k hk f hf⟩
    rcases hrecover f hf hfails with hsold | hrelisted
    · exact Or.inl hsold
    · exact Or.inr ((asFound_iff hc.listings hc.clocked (hc.began k hk f hf)).2 hrelisted)
  · intro hundo f hf hfails
    have ho := Task.resume_of_fails hf hfails
    rcases (hundo f _ hf ho ((Task.fails_iff hf ho).1 hfails)).listing with hsold | hfound
    · exact Or.inl hsold
    · exact Or.inr ((asFound_iff hc.listings hc.clocked (hc.began k hk f hf)).1 hfound)

theorem InFlight.agree (hc : InFlight D c) :
    (orderly.guard.and (recovering D)).Agree (orderly.guard.and (undoing D)) c where
  call := fun _ =>
    and_congr_right fun _ => iff_of_true trivial fun _ hi ho hs => lock_unchanged hi ho hs
  resume := fun _ hk _ => and_congr_right fun _ => hc.recovering_iff hk
  restart := fun _ => Iff.rfl

/-- Between two segments of a run without suspended `lock` calls, the locks are backed. -/
theorem locksBacked_of_run (hc₀ : Initial c₀)
    (h : Actor.Run (program D) (orderly.guard.and (recovering D)) c₀ c)
    (hnone : ∀ k ∈ c.pool, k.lockFrame = none) : LocksBacked D c := by
  intro i l e hl he hnow
  rw [listings_of_run hc₀ h, Option.bind_eq_some_iff] at hl
  obtain ⟨ev, hw, hl⟩ := hl
  cases ev with
  | lockBegan f =>
      cases hl
      cases he
      rcases backed_of_run hc₀ h i f hw hnow with ⟨t, ht, hstem⟩ | ⟨k, hk, hf⟩
      · exact ⟨f, t, hw, ht, hstem⟩
      · rw [hnone k (Multiset.mem_coe.1 hk)] at hf
        simp at hf
  | listed g price =>
      cases hl
      simp at he
  | _ => simp [Event.listing] at hl

/-- **A failed lock leaves no lock behind** in exactly the runs in which a `lock` call that has
locked fails only after a sale or after `list` has put the listing back; and in these, whenever no
`lock` call is suspended, every lock in force has a pending transaction of the call that has set
it. -/
theorem failed_lock_undone (hc₀ : Initial c₀) :
    (Actor.Run (program D) (orderly.guard.and (recovering D)) c₀ c ↔
      Actor.Run (program D) (orderly.guard.and (undoing D)) c₀ c) ∧
    (Actor.Run (program D) (orderly.guard.and (recovering D)) c₀ c →
      (∀ k ∈ c.pool, k.lockFrame = none) → LocksBacked D c) := by
  constructor
  · exact Actor.Run.congr fun d hd => (inFlight_of_run hc₀ hd).agree
  · intro h hnone
    exact locksBacked_of_run hc₀ h hnone

/-! ### Runs -/

instance : orderly.Checkable :=
  ⟨inferInstance, inferInstance, inferInstance, inferInstance, inferInstance⟩

instance (c : Config) (i : Input) : Decidable ((recovering D).call c i) := isTrue trivial

instance (c : Config) (k : Task) (r : Wake) : Decidable ((recovering D).resume c k r) :=
  inferInstanceAs (Decidable (∀ f ∈ _, _ → _))

instance (c : Config) (u : UInt16) : Decidable ((recovering D).restart c u) := isTrue trivial

/-- A run in which a `lock` call fails, after a sale. -/
theorem failed_lock_undone_sample : ∃ c, sampleRun soldMeanwhile = some c ∧
    (taken c.history).length = 3 ∧ (created c.history).length = 2 ∧
    c.state.entrepot.isLocked c.state.now 0 = true ∧ LocksBacked .sample c ∧
    Actor.Run (program .sample) (orderly.guard.and (undoing .sample)) Config.sample c := by
  obtain ⟨c, hc, htaken, hcreated, hlocked, hpool⟩ := (by decide : ∃ c ∈ sampleRun soldMeanwhile,
    (taken c.history).length = 3 ∧ (created c.history).length = 2 ∧
    c.state.entrepot.isLocked c.state.now 0 = true ∧ c.pool = [])
  have hallowed : (orderly.guard.and (recovering .sample)).AllowsAll (program .sample)
      Config.sample soldMeanwhile := by decide
  have hrun := Actor.run_of_exec hallowed hc
  obtain ⟨hiff, hbacked⟩ := failed_lock_undone (D := .sample) (c := c) Config.initial_sample
  exact ⟨c, hc, htaken, hcreated, hlocked, hbacked hrun (by simp [hpool]), hiff.1 hrun⟩

/-- A lock that has expired without payment. -/
def lockExpired : List Choice :=
  Choice.mint ⟨[1]⟩ ++ Choice.list ⟨[1]⟩ 40000 ++ Choice.lock 40000 "C" ++
    [.call (.tick 120000000001)]

/-- A second lock looks at the first one, and the ledger rejects its query. -/
def lockRejected : List Choice :=
  [.call (.lock ⟨[3]⟩ "t0" 40000 "D"), .resume 0 .run, .resume 0 .run, .resume 0 .reject]

/-- **A failed lock can leave its lock behind**: the call has ended with an exception, the token has
not been sold, and the listing is locked for another two minutes, with the transaction of another
buyer. -/
theorem lock_left_behind : ∃ c c', sampleRun lockExpired = some c ∧
    (program .sample).exec c lockRejected = some c' ∧ c.pool = [] ∧ c'.pool = [] ∧
    settlements c'.history = [] ∧
    c.state.entrepot.listings.get 0 = some ⟨some 120000000000, 40000, ⟨[1]⟩, none⟩ ∧
    c'.state.entrepot.listings.get 0 = some ⟨some 240000000001, 40000, ⟨[1]⟩, none⟩ ∧
    c'.state.entrepot.pendingTransactions.get 0 = some firstTransaction ∧
    c'.state.now ≤ 240000000001 ∧ ¬ LocksBacked .sample c' := by
  obtain ⟨c, hc, c', hc', hbefore, hpool, hpool', hsales, hlisting, hpending, hnow, hlast⟩ :=
    (by decide : ∃ c ∈ sampleRun lockExpired, ∃ c' ∈ (program .sample).exec c lockRejected,
      c.state.entrepot.listings.get 0 = some ⟨some 120000000000, 40000, ⟨[1]⟩, none⟩ ∧
      c.pool = [] ∧ c'.pool = [] ∧ settlements c'.history = [] ∧
      c'.state.entrepot.listings.get 0 = some ⟨some 240000000001, 40000, ⟨[1]⟩, none⟩ ∧
      c'.state.entrepot.pendingTransactions.get 0 = some firstTransaction ∧
      c'.state.now ≤ 240000000001 ∧
      ∀ f ∈ (lastWrite 0 c'.history).bind Event.locking, f.subaccount ≠ firstTransaction.bytes)
  refine ⟨c, c', hc, hc', hpool, hpool', hsales, hbefore, hlisting, hpending, hnow, ?_⟩
  intro hbacked
  obtain ⟨f, t, hw, ht, hstem⟩ := hbacked _ _ _ hlisting rfl hnow
  rw [hpending, Option.some_inj] at ht
  subst ht
  exact hlast f (by rw [hw]; rfl) hstem.bytes.symm

end LegendsNft
