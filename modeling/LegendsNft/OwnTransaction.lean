/-
**What `settle` touches.**

`settle` reads a pending transaction, awaits the ledger, and then deletes what is pending at the
index of the token and, after a sale, what is listed there.  It does not look whether that is still
what it has read: a `lock` call that has returned meanwhile has put another transaction there, and
`list` or `lock` may have written the listing anew.

To say since when, the continuations are dated: a `settle` call that is told a balance keeps the
date of its read.

Main definitions:

* `LegendsNft.datedProgram` — the canister with the dates of its reads;
* `LegendsNft.OwnOnly` — a segment leaves the transactions and the listings of others alone;
* `LegendsNft.respectful` — the property, and `LegendsNft.careful` — the condition.

Main results:

* `LegendsNft.settle_effect` — the three ends of a `settle` call;
* `LegendsNft.replaced_since` — what else is pending by then is of a `lock` call that has returned
  since the read;
* `LegendsNft.careful_iff` — the condition is exact at every resumption;
* `LegendsNft.settle_own_transaction` — **the runs in which `settle` touches only the transaction it
  has read**.
-/

import LegendsNft.Completion
import LegendsNft.Dated

set_option relaxedAutoImplicit false
set_option autoImplicit false

namespace LegendsNft

open Entrepot

variable {D : Deployment}

/-! ### Dates -/

/-- A `settle` call that is told a balance keeps the date of its read. -/
def Task.keepsDate : Task → Task → Bool
  | .balance _ _, .reported _ _ _ => true
  | _, _ => false

/-- The canister, its continuations dated. -/
abbrev datedProgram (D : Deployment) :
    Actor.Program (World × List Event) (Task × List Event) Input Wake UInt16 Event :=
  (program D).dated Task.keepsDate

abbrev DatedConfig := Actor.Config (World × List Event) (Task × List Event) Event

abbrev DatedGuard :=
  Actor.Guard (World × List Event) (Task × List Event) Input Wake UInt16 Event

/-! ### The property and the condition -/

/-- The index whose listing an event creates, or locks for another transaction than this one. -/
def Event.claims (t : Transaction) : Event → Option TokenIndex
  | .listed g _ => some g.index
  | .lockBegan g => if g.subaccount = t.bytes then none else some g.index
  | _ => none

/-- A segment removes no pending transaction but the one with this id, and no listing that these
events have created or locked for another transaction. -/
structure OwnOnly (t : Transaction) (es : List Event) (s s' : Entrepot) : Prop where
  pending : ∀ i u, s.pendingTransactions.get i = some u → u.id ≠ t.id →
    s'.pendingTransactions.get i = some u
  listing : ∀ i l, s.listings.get i = some l → (∃ e ∈ es, e.claims t = some i) →
    s'.listings.get i = some l

/-- What is pending at the index, if anything, is the transaction that was read. -/
def Own (s : Entrepot) (f : SettleFrame) : Prop :=
  ∀ u, s.pendingTransactions.get f.index = some u → u.id = f.transaction.id

/-- In these events a `lock` call has returned on the index, and its transaction is pending. -/
def Overtaken (es : List Event) (s : Entrepot) (f : SettleFrame) : Prop :=
  ∃ x ∈ created es, x.index = f.index ∧ x.transaction.id ≠ f.transaction.id ∧
    s.pendingTransactions.get f.index = some x.transaction

/-- There is a listing that these events have created or locked for another transaction. -/
def Claimed (es : List Event) (s : Entrepot) (f : SettleFrame) : Prop :=
  s.listings.get f.index ≠ none ∧ ∃ e ∈ es, e.claims f.transaction = some f.index

instance (es : List Event) (s : Entrepot) (f : SettleFrame) : Decidable (Overtaken es s f) :=
  inferInstanceAs (Decidable (∃ x ∈ _, _))

instance (es : List Event) (s : Entrepot) (f : SettleFrame) : Decidable (Claimed es s f) :=
  inferInstanceAs (Decidable (_ ∧ ∃ e ∈ _, _))

/-- The property: when a `settle` call that has read a transaction resumes, it touches only that
transaction. -/
def respectful (D : Deployment) : DatedGuard where
  call := fun _ _ => True
  resume := fun d k r => ∀ f o, k.1.held = some f → resume D d.state.1 k.1 r = some o →
    OwnOnly f.transaction (Actor.since k.2 d.history) d.state.1.entrepot o.state.entrepot
  restart := fun _ _ => True

/-- The condition on a resumption of `settle`: when it gives its transaction up or completes its
sale, no `lock` call has returned on the index since the read whose transaction is pending now; and
when it completes its sale, no listing is there that has been created, or locked for another
transaction, since the read. -/
def Clear (D : Deployment) (w : World) (es : List Event) (f : SettleFrame) (b : UInt64) : Prop :=
  (b < f.transaction.price → w.entrepot.isLocked w.now f.index = false →
    ¬ Overtaken es w.entrepot f) ∧
  (Completes D w f b → ¬ Overtaken es w.entrepot f ∧ ¬ Claimed es w.entrepot f)

instance (w : World) (es : List Event) (f : SettleFrame) (b : UInt64) :
    Decidable (Clear D w es f b) :=
  inferInstanceAs (Decidable ((_ → _ → ¬ _) ∧ (_ → ¬ _ ∧ ¬ _)))

/-- The condition as a guard. -/
def careful (D : Deployment) : DatedGuard where
  call := fun _ _ => True
  resume := fun d k r => ∀ f b, k.1.write r = some (.settle f b) →
    Clear D d.state.1 (Actor.since k.2 d.history) f b
  restart := fun _ _ => True

/-! ### One resumption -/

/-- A `settle` call that has read its transaction writes when it resumes with a balance, and only
then. -/
theorem Task.held_cases {w : World} {k : Task} {r : Wake} {f : SettleFrame} {o : Step}
    (hf : k.held = some f) (ho : resume D w k r = some o) :
    o.state = w ∨ ∃ b x, k = .reported f b x ∧ r = .run := by
  cases k with
  | balance g x =>
      left
      cases r with
      | report =>
          rw [resume] at ho
          split at ho
          · cases ho
          · cases ho
            rfl
      | reject =>
          cases ho
          rfl
      | _ => cases ho
  | reported g b x =>
      cases hf
      cases r with
      | run => exact Or.inr ⟨b, x, rfl, rfl⟩
      | _ => cases ho
  | _ => simp [Task.held] at hf

theorem OwnOnly.refl (t : Transaction) (es : List Event) (s : Entrepot) : OwnOnly t es s s :=
  ⟨fun _ _ hu _ => hu, fun _ _ hl _ => hl⟩

/-- **The three ends of a `settle` call**: it gives its transaction up, it completes its sale, or it
traps. -/
theorem settle_effect {w : World} {f : SettleFrame} {b : UInt64} {k : SettleWaiter} {o : Step}
    (ho : resume D w (.reported f b k) .run = some o) :
    (b < f.transaction.price ∧ o.state.entrepot = w.entrepot.giveUp w.now f) ∨
    (Completes D w f b ∧ ∃ jobs, Sale fees w.entrepot o.state.entrepot w.now f b jobs) ∨
    (f.transaction.price ≤ b ∧ ¬ Completes D w f b ∧ o.state.entrepot = w.entrepot) := by
  by_cases hpaid : f.transaction.price ≤ b
  · right
    by_cases hc : Completes D w f b
    · obtain ⟨s, tokens, jobs, hsale, hres⟩ := resume_of_completes k hc
      rw [hres, Option.some_inj] at ho
      subst ho
      exact Or.inl ⟨hc, jobs, hsale⟩
    · rw [resume_of_not_completes hpaid hc, Option.some_inj] at ho
      subst ho
      exact Or.inr ⟨hpaid, hc, rfl⟩
  · have hlt : b < f.transaction.price := UInt64.not_le.1 hpaid
    simp only [resume, settleResume, hlt, if_true, Option.some_inj] at ho
    subst ho
    exact Or.inl ⟨hlt, rfl⟩

/-- A deletion at the index leaves the other transactions alone when what is pending there is the
one that was read. -/
theorem kept_iff {s : Entrepot} {f : SettleFrame} :
    (∀ i u, s.pendingTransactions.get i = some u → u.id ≠ f.transaction.id →
      (s.pendingTransactions.delete f.index).get i = some u) ↔ Own s f := by
  constructor
  · intro h u hu
    by_contra hne
    have hkept := h f.index u hu hne
    rw [Table.get_delete_self] at hkept
    simp at hkept
  · intro hown i u hu hne
    have hi : i ≠ f.index := by
      rintro rfl
      exact hne (hown u hu)
    exact (Table.get_delete_of_ne _ hi).trans hu

/-- A deletion at the index leaves the listings of others alone when none is there. -/
theorem not_claimed_iff {es : List Event} {s : Entrepot} {f : SettleFrame} :
    (∀ i l, s.listings.get i = some l → (∃ e ∈ es, e.claims f.transaction = some i) →
      (s.listings.delete f.index).get i = some l) ↔ ¬ Claimed es s f := by
  constructor
  · rintro h ⟨hsome, hes⟩
    obtain ⟨l, hl⟩ := Option.ne_none_iff_exists'.1 hsome
    have hkept := h f.index l hl hes
    rw [Table.get_delete_self] at hkept
    simp at hkept
  · intro hnot i l hl hes
    have hi : i ≠ f.index := by
      rintro rfl
      exact hnot ⟨by simp [hl], hes⟩
    exact (Table.get_delete_of_ne _ hi).trans hl

/-! ### Since the read -/

/-- What is pending at the index of a transaction that has been read is that transaction, or one
that these events have created. -/
def Replaced (s : Entrepot) (f : SettleFrame) (es : List Event) : Prop :=
  ∀ u, s.pendingTransactions.get f.index = some u →
    u = f.transaction ∨ ∃ e, .locked f.index u e ∈ es

theorem Replaced.step {w : World} {src : Source} {o : Step} (hm : Move D w src o)
    {f : SettleFrame} {es : List Event} (h : Replaced w.entrepot f es) :
    Replaced o.state.entrepot f (o.events ++ es) := by
  intro u hu
  rcases hm.pending_cases hu with hold | ⟨g, -, -, -, hev⟩
  · exact (h u hold).imp_right fun he => he.imp fun _ hmem => List.mem_append_right _ hmem
  · exact Or.inr ⟨g.expiry, List.mem_append_left _ (hev ▸ List.mem_singleton_self _)⟩

/-- **What else is pending by then is of a `lock` call that has returned since the read.** -/
theorem replaced_since {c₀ : Config} {G : DatedGuard} (hc₀ : Initial c₀) {d : DatedConfig}
    (h : Actor.Run (datedProgram D) G c₀.dated d) {k : Task × List Event} (hk : k ∈ d.pool)
    {f : SettleFrame} (hf : k.1.held = some f) :
    Replaced d.state.1.entrepot f (Actor.since k.2 d.history) := by
  have hdates : (program D).Dates Task.keepsDate fun w es k =>
      ∀ f, k.held = some f → Replaced w.entrepot f es := by
    constructor
    · intro w src o ho es k hrep f hf
      exact (hrep f hf).step (move_of_segment ho)
    · intro w k r o ho k' hk' hkeeps es hrep f hf
      have hm : Move D w (.resume k r) o := move_of_segment ho
      rcases (hm.held_cases hk' hf).2 with ⟨token, k₀, heq, rfl, -⟩ | ⟨k₀, balance, heq, -⟩
      · cases heq
        cases hkeeps
      · cases heq
        exact (hrep f rfl).step hm
    · intro w src o ho k' hk' hfresh f hf u hu
      have hm := move_of_segment ho
      obtain ⟨hstate, ⟨token, k₀, -, -, hpending⟩ | ⟨k₀, balance, rfl, rfl, -⟩⟩ :=
        hm.held_cases hk' hf
      · rw [hstate, hpending, Option.some_inj] at hu
        exact Or.inl hu.symm
      · cases hfresh _ (Multiset.mem_singleton_self _)
    · intro w supply o ho k' hk'
      obtain ⟨canister, -, rfl⟩ := restart_eq_some ho
      simp at hk'
  refine (h.dated_induct hdates ?_ hk).2 f hf
  rw [hc₀.2.1]
  simp

/-- With what is pending accounted for, the index is clear when nobody has overtaken. -/
theorem Replaced.own_iff {s : Entrepot} {f : SettleFrame} {es : List Event}
    (h : Replaced s f es) : Own s f ↔ ¬ Overtaken es s f := by
  constructor
  · rintro hown ⟨x, -, -, hne, hx⟩
    exact hne (hown _ hx)
  · intro hnot u hu
    by_contra hne
    rcases h u hu with rfl | ⟨e, he⟩
    · exact hne rfl
    · exact hnot ⟨⟨f.index, u, e⟩, mem_created.2 he, rfl, hne, hu⟩

/-- **The condition is exact at every resumption.** -/
theorem careful_iff {d : DatedConfig} {k : Task × List Event} {r : Wake}
    (hrep : ∀ f, k.1.held = some f →
      Replaced d.state.1.entrepot f (Actor.since k.2 d.history)) :
    (careful D).resume d k r ↔ (respectful D).resume d k r := by
  constructor
  · intro hcare f o hf ho
    rcases Task.held_cases hf ho with heq | ⟨b, x, hk, rfl⟩
    · rw [heq]
      exact OwnOnly.refl ..
    obtain ⟨hgive, hsell⟩ := hcare f b (by rw [hk]; rfl)
    have hown := (hrep f hf).own_iff
    rw [hk] at ho
    rcases settle_effect ho with ⟨hlt, heq⟩ | ⟨hc, jobs, hsale⟩ | ⟨-, -, heq⟩
    · rw [heq, giveUp]
      split
      · exact OwnOnly.refl ..
      · rename_i hun
        have hclear := hown.2 (hgive hlt (by simpa using hun))
        exact ⟨kept_iff.2 hclear, fun _ _ hl _ => hl⟩
    · obtain ⟨hclear, hfree⟩ := hsell hc
      constructor
      · rw [hsale.pendingTransactions]
        exact kept_iff.2 (hown.2 hclear)
      · rw [hsale.listings]
        exact not_claimed_iff.2 hfree
    · rw [heq]
      exact OwnOnly.refl ..
  · intro hrespect f b hw
    obtain ⟨x, hk, rfl⟩ := Task.write_eq_settle hw
    have hf : k.1.held = some f := by rw [hk]; rfl
    have hown := (hrep f hf).own_iff
    constructor
    · intro hlt hun
      have hres : resume D d.state.1 k.1 .run = some ⟨(d.state.1.setEntrepot
          (d.state.1.entrepot.giveUp d.state.1.now f)).setTokens d.state.1.tokens, x.deliver
          (.error (.other "Insufficient funds sent.")), [.gaveUp f b]⟩ := by
        rw [hk]
        simp only [resume, settleResume, hlt, if_true]
      have hkept := (hrespect f _ hf hres).pending
      rw [World.entrepot_setTokens, World.entrepot_setEntrepot, giveUp, hun] at hkept
      exact hown.1 (kept_iff.1 hkept)
    · intro hc
      obtain ⟨s, tokens, jobs, hsale, hres⟩ := resume_of_completes x hc
      rw [← hk] at hres
      obtain ⟨hpending, hlisting⟩ := hrespect f _ hf hres
      rw [World.entrepot_setTokens, World.entrepot_setEntrepot] at hpending hlisting
      rw [hsale.pendingTransactions] at hpending
      rw [hsale.listings] at hlisting
      exact ⟨hown.1 (kept_iff.1 hpending), not_claimed_iff.1 hlisting⟩

/-! ### Whole runs -/

theorem careful_agree {c₀ : Config} {G : DatedGuard} (hc₀ : Initial c₀) {d : DatedConfig}
    (h : Actor.Run (datedProgram D) G c₀.dated d) : (careful D).Agree (respectful D) d where
  call := fun _ => Iff.rfl
  resume := fun _ hk _ => careful_iff fun _ hf => replaced_since hc₀ h hk hf
  restart := fun _ => Iff.rfl

/-- **`settle` touches only the transaction it has read** in exactly the runs that meet the
condition at every resumption; and every run of the canister is such a dated run. -/
theorem settle_own_transaction {c₀ : Config} (hc₀ : Initial c₀) :
    (∀ c, Actor.Run (program D) .any c₀ c →
      ∃ d, Actor.Run (datedProgram D) .any c₀.dated d ∧ d.undated = c) ∧
    ∀ d, Actor.Run (datedProgram D) (careful D) c₀.dated d ↔
      Actor.Run (datedProgram D) (respectful D) c₀.dated d := by
  constructor
  · intro c h
    exact h.exists_dated
  · intro d
    exact Actor.Run.congr fun e he => careful_agree hc₀ he

/-! ### Runs on the small deployment -/

instance (d : DatedConfig) (i : Input) : Decidable ((careful D).call d i) := isTrue trivial

instance (d : DatedConfig) (k : Task × List Event) (r : Wake) :
    Decidable ((careful D).resume d k r) :=
  match hw : k.1.write r with
  | none => isTrue (by simp [careful, hw])
  | some (.list _) => isTrue (by simp [careful, hw])
  | some (.lock _) => isTrue (by simp [careful, hw])
  | some (.settle f b) => decidable_of_iff
      (Clear D d.state.1 (Actor.since k.2 d.history) f b) (by simp [careful, hw])

instance (d : DatedConfig) (u : UInt16) : Decidable ((careful D).restart d u) := isTrue trivial

/-- The dated configuration a list of choices leads to on the small deployment. -/
def datedRun (as : List Choice) : Option DatedConfig :=
  (datedProgram .sample).exec Config.sample.dated as

/-- A sale that satisfies the condition. -/
theorem settle_own_transaction_sample : ∃ d, datedRun (Choice.paidLock ++ Choice.settle ++
      [.resume 0 .run]) = some d ∧ (settlements d.history).length = 1 ∧
    Actor.Run (datedProgram .sample) (respectful .sample) Config.sample.dated d := by
  obtain ⟨d, hd, hone⟩ := (by decide : ∃ d ∈ datedRun (Choice.paidLock ++ Choice.settle ++
    [.resume 0 .run]), (settlements d.history).length = 1)
  have hallowed : (careful .sample).AllowsAll (datedProgram .sample) Config.sample.dated
      (Choice.paidLock ++ Choice.settle ++ [.resume 0 .run]) := by decide
  have hrun := Actor.run_of_exec hallowed hd
  exact ⟨d, hd, hone, ((settle_own_transaction Config.initial_sample).2 d).1 hrun⟩

/-- A `settle` call reads the transaction of a first lock and is told that nothing has been paid;
meanwhile that lock expires, a second one returns, its buyer pays, and it expires in turn. -/
def lateGiveUp : List Choice :=
  Choice.mint ⟨[1]⟩ ++ Choice.list ⟨[1]⟩ 40000 ++ Choice.lock 40000 "C" ++ Choice.settle ++
    [.call (.tick 120000000001), .call (.lock ⟨[3]⟩ "t0" 40000 "D"), .resume 1 .run,
      .resume 1 .run, .resume 1 .report, .resume 1 .run, .resume 1 .run, .resume 1 .run] ++
    Choice.pay 2 40000 ++ [.call (.tick 240000000002)]

/-- **`settle` can remove a transaction it has not read**: the call that has read the first
transaction deletes the second one, which has been paid. -/
theorem other_transaction_removed : ∃ d d' k, datedRun lateGiveUp = some d ∧ d.pool = [k] ∧
    (datedProgram .sample).step d (.resume 0 .run) = some d' ∧
    (k.1.held.map fun f => f.transaction.id) = some 0 ∧
    (d.state.1.entrepot.pendingTransactions.get 0).map Transaction.id = some 1 ∧
    d.state.1.ledger (natToSubAccount 4294967298) = 40000 ∧
    d'.state.1.entrepot.pendingTransactions.get 0 = none ∧
    ¬ (respectful .sample).resume d k .run := by
  obtain ⟨d, hd, k, hk, d', hd', hlen, hread, hpending, hpaid, hgone, hnot⟩ := (by decide :
    ∃ d ∈ datedRun lateGiveUp, ∃ k ∈ d.pool,
      ∃ d' ∈ (datedProgram .sample).step d (.resume 0 .run), d.pool.length = 1 ∧
      (k.1.held.map fun f => f.transaction.id) = some 0 ∧
      (d.state.1.entrepot.pendingTransactions.get 0).map Transaction.id = some 1 ∧
      d.state.1.ledger (natToSubAccount 4294967298) = 40000 ∧
      d'.state.1.entrepot.pendingTransactions.get 0 = none ∧
      ¬ (careful .sample).resume d k .run)
  obtain ⟨k', hpool⟩ := List.length_eq_one_iff.1 hlen
  have hsame : k = k' := by simpa [hpool] using hk
  have hrun : Actor.Run (datedProgram .sample) .any Config.sample.dated d :=
    Actor.run_of_exec (Actor.Guard.any_allowsAll ..) hd
  have hiff := careful_iff (D := .sample) (r := .run)
    fun f hf => replaced_since Config.initial_sample hrun hk hf
  exact ⟨d, d', k, hd, hsame ▸ hpool, hd', hread, hpending, hpaid, hgone,
    fun h => hnot (hiff.2 h)⟩

end LegendsNft
