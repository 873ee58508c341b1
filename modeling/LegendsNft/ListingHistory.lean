/-
**The listings are what the history says.**

Four events write to the listing of an index: `list` writes one or deletes it, `lock` writes the one
it has found back with its lock, and a sale deletes it.  Nothing else touches it, an upgrade
included, so the listing of an index can be read off the last of these events.

Main definitions:

* `LegendsNft.Event.listingIndex`, `LegendsNft.Event.listing` — the index an event writes to, and
  the listing it writes;
* `LegendsNft.lastWrite` — the last write to the listing of an index;
* `LegendsNft.Clocked` — what the history says about the times locks expire.

Main results:

* `LegendsNft.Move.write_cases` — a move writes to one listing, as its event says, or to none;
* `LegendsNft.listings_of_run` — **the listing of an index is the one last written**;
* `LegendsNft.clocked_of_run` — a lock outlasts the locks that the index has had before.
-/

import LegendsNft.Lifecycle

set_option relaxedAutoImplicit false
set_option autoImplicit false

namespace LegendsNft

open Entrepot

variable {D : Deployment} {G : Guard} {c₀ c : Config}

/-! ### The writes of the history -/

namespace Event

/-- The index whose listing an event writes to. -/
def listingIndex : Event → Option TokenIndex
  | .listed f _ => some f.index
  | .delisted f => some f.index
  | .lockBegan f => some f.index
  | .finalized f _ _ => some f.index
  | _ => none

/-- The listing an event writes. -/
def listing : Event → Option Listing
  | .listed f price => some ⟨none, price, f.caller, f.request.from_subaccount⟩
  | .lockBegan f => some f.lockedListing
  | _ => none

end Event

/-- The last write to the listing of an index. -/
def lastWrite (i : TokenIndex) (h : List Event) : Option Event :=
  h.find? fun e => e.listingIndex = some i

theorem lastWrite_append_of_none {es h : List Event} (hes : ∀ e ∈ es, e.listingIndex = none)
    (i : TokenIndex) : lastWrite i (es ++ h) = lastWrite i h := by
  rw [lastWrite, List.find?_append, List.find?_eq_none.2, Option.none_or, ← lastWrite]
  intro e he
  simp [hes e he]

theorem lastWrite_upgraded (i : TokenIndex) (h : List Event) :
    lastWrite i (.upgraded :: h) = lastWrite i h := by
  simp [lastWrite, Event.listingIndex]

theorem lastWrite_cons {e : Event} {i : TokenIndex} (he : e.listingIndex = some i)
    (h : List Event) (j : TokenIndex) :
    lastWrite j (e :: h) = if j = i then some e else lastWrite j h := by
  rw [lastWrite, List.find?_cons, he]
  by_cases hj : j = i
  · simp [hj]
  · have hi : ¬ i = j := fun heq => hj heq.symm
    simp [hi, hj, lastWrite]

theorem listingIndex_of_lastWrite {i : TokenIndex} {h : List Event} {e : Event}
    (he : lastWrite i h = some e) : e.listingIndex = some i := by
  simpa using List.find?_some he

theorem index_of_lastWrite {i : TokenIndex} {h : List Event} {f : LockFrame}
    (hf : lastWrite i h = some (.lockBegan f)) : f.index = i :=
  Option.some_inj.1 (listingIndex_of_lastWrite hf)

/-! ### One move -/

theorem listingIndex_answered {job : Disbursement} {reply : Option TransferResult} {e : Event}
    (h : e ∈ answered job reply) : e.listingIndex = none := by
  unfold answered at h
  split at h
  · cases List.mem_singleton.1 h
    rfl
  · split at h
    · simp at h
    · cases List.mem_singleton.1 h
      rfl

/-- A segment that writes one listing, as its only event says. -/
def WritesOne (w : World) (o : Step) : Prop :=
  ∃ e i, o.events = [e] ∧ e.listingIndex = some i ∧ ∀ j, o.state.entrepot.listings.get j =
    if j = i then e.listing else w.entrepot.listings.get j

/-- **A move writes to one listing, as its event says, or to none.** -/
theorem Move.write_cases {w : World} {src : Source} {o : Step} (hm : Move D w src o) :
    (o.state.entrepot.listings = w.entrepot.listings ∧ ∀ e ∈ o.events, e.listingIndex = none) ∨
      WritesOne w o := by
  cases hm with
  | idle | relay | tick | deposit | mint | listBegan | extTransfer | read | executed | rejected =>
      exact Or.inl ⟨rfl, by simp [World.idle]⟩
  | deleted | locked | report => exact Or.inl ⟨rfl, by simp [Event.listingIndex]⟩
  | sent market => exact Or.inl ⟨market.listings, by simp⟩
  | queueStart pass => exact Or.inl ⟨pass.market.listings, by simp⟩
  | queueStep count pass =>
      exact Or.inl ⟨pass.market.listings, fun e he => listingIndex_answered he⟩
  | gaveUp =>
      refine Or.inl ⟨?_, by simp [Event.listingIndex]⟩
      rw [World.entrepot_setEntrepot, giveUp]
      split <;> rfl
  | listed => exact Or.inr ⟨_, _, rfl, rfl, fun j => Table.get_put ..⟩
  | delisted => exact Or.inr ⟨_, _, rfl, rfl, fun j => Table.get_delete ..⟩
  | lockBegan => exact Or.inr ⟨_, _, rfl, rfl, fun j => Table.get_put ..⟩
  | finalized hle hsale =>
      refine Or.inr ⟨_, _, rfl, rfl, ?_⟩
      intro j
      rw [World.entrepot_setTokens, World.entrepot_setEntrepot, hsale.listings]
      exact Table.get_delete ..

/-- What a `lock` call has found when it locks a listing. -/
theorem Move.lockBegan_cases {w : World} {src : Source} {o : Step} (hm : Move D w src o)
    {f : LockFrame} (hf : .lockBegan f ∈ o.events) :
    w.entrepot.isLocked w.now f.index = false ∧
      w.entrepot.listings.get f.index = some f.listing ∧ f.expiry = w.now + transactionTtl ∧
      o.state.now = w.now ∧ ∃ k ∈ o.spawned, k.waiter = some (.lock f) := by
  cases hm with
  | lockBegan hun hget _ _ _ _ hexp =>
      cases List.mem_singleton.1 hf
      exact ⟨hun, hget, hexp, rfl, _, List.mem_singleton_self _, rfl⟩
  | queueStep =>
      have hnone := listingIndex_answered hf
      simp [Event.listingIndex] at hnone
  | _ => simp [World.idle] at hf

/-! ### Whole runs -/

/-- **The listing of an index is the one last written.** -/
theorem listings_of_run (hc₀ : Initial c₀) (h : Actor.Run (program D) G c₀ c) (i : TokenIndex) :
    c.state.entrepot.listings.get i = (lastWrite i c.history).bind Event.listing := by
  refine invariant_of_moves (I := fun w h => ∀ i, w.entrepot.listings.get i =
    (lastWrite i h).bind Event.listing) ?_ ?_ h ?_ i
  · intro c src o hI _ _ hm i
    rcases hm.write_cases with ⟨hl, hes⟩ | ⟨e, i', hes, he, hget⟩
    · rw [hl, lastWrite_append_of_none hes]
      exact hI i
    · rw [hget, hes, List.singleton_append, lastWrite_cons he]
      split
      · rfl
      · exact hI i
  · intro c supply canister hI _ hup i
    rw [lastWrite_upgraded]
    exact (Canister.get_listings_upgrade hup i).trans (hI i)
  · intro i
    rw [hc₀.2.2, hc₀.entrepot]
    rfl

/-- What the history says about the times locks expire. -/
structure Clocked (w : World) (h : List Event) : Prop where
  le_now : ∀ f, .lockBegan f ∈ h → f.expiry ≤ w.now + transactionTtl
  /-- The lock that a `lock` call has found, if any, had expired. -/
  found : ∀ f, .lockBegan f ∈ h → ∀ e, f.listing.locked = some e → e < f.expiry
  /-- The lock of an index outlasts those before it. -/
  last : ∀ i f, lastWrite i h = some (.lockBegan f) → ∀ f', .lockBegan f' ∈ h → f'.index = i →
    f'.expiry ≤ f.expiry

theorem lt_of_unlocked {s : Entrepot} {now : Time} {i : TokenIndex} {l : Listing}
    (hun : s.isLocked now i = false) (hl : s.listings.get i = some l) {e : Time}
    (he : l.locked = some e) : e < now := by
  by_contra hnot
  simp only [Entrepot.isLocked, hl, he] at hun
  rw [if_pos (not_lt.1 hnot)] at hun
  simp at hun

theorem Clocked.step {w : World} {h : List Event} (hC : Clocked w h) {src : Source} {o : Step}
    (hm : Move D w src o) : Clocked o.state (o.events ++ h) := by
  have hnow := hm.now_le
  have hle : ∀ f, .lockBegan f ∈ o.events ++ h → f.expiry ≤ o.state.now + transactionTtl := by
    intro f hf
    rcases List.mem_append.1 hf with hf | hf
    · obtain ⟨-, -, hexp, hsame, -⟩ := hm.lockBegan_cases hf
      rw [hsame]
      exact le_of_eq hexp
    · exact le_trans (hC.le_now f hf) (Int.add_le_add_right hnow _)
  refine ⟨hle, ?_, ?_⟩
  · intro f hf e he
    rcases List.mem_append.1 hf with hf | hf
    · obtain ⟨hun, hget, hexp, -, -⟩ := hm.lockBegan_cases hf
      have hlt := lt_of_unlocked hun hget he
      have httl : (0 : ℤ) < transactionTtl := by decide
      rw [hexp]
      exact lt_trans hlt (Int.lt_add_of_pos_right _ httl)
    · exact hC.found f hf e he
  · intro i f hlast f' hf' hi
    rcases hm.write_cases with ⟨-, hes⟩ | ⟨ev, j, hes, hev, -⟩
    · -- an event that writes no listing is not the beginning of a lock
      have hold : ∀ f, .lockBegan f ∈ o.events ++ h → .lockBegan f ∈ h := by
        intro f hf
        rcases List.mem_append.1 hf with hf | hf
        · simpa [Event.listingIndex] using hes _ hf
        · exact hf
      rw [lastWrite_append_of_none hes] at hlast
      exact hC.last i f hlast f' (hold f' hf') hi
    · have hmem := hf'
      rw [hes, List.singleton_append] at hlast hmem
      rw [lastWrite_cons hev] at hlast
      split at hlast
      · -- the lock begins now, and expires last
        rw [Option.some_inj] at hlast
        subst hlast
        have hbegan : .lockBegan f ∈ o.events := hes ▸ List.mem_singleton_self _
        obtain ⟨-, -, hexp, hsame, -⟩ := hm.lockBegan_cases hbegan
        rw [hexp, ← hsame]
        exact hle f' hf'
      · rename_i hne
        rcases List.mem_cons.1 hmem with rfl | hmem
        · exact absurd ((Option.some_inj.1 hev).symm.trans hi).symm (by simpa using hne)
        · exact hC.last i f hlast f' hmem hi

theorem clocked_of_run (hc₀ : Initial c₀) (h : Actor.Run (program D) G c₀ c) :
    Clocked c.state c.history := by
  refine invariant_of_moves (I := Clocked) (fun _ _ _ hC _ _ hm => hC.step hm) ?_ h ?_
  · intro c supply canister hC _ _
    have hmem : ∀ f, Event.lockBegan f ∈ .upgraded :: c.history → .lockBegan f ∈ c.history := by
      simp
    refine ⟨fun f hf => hC.le_now f (hmem f hf), fun f hf => hC.found f (hmem f hf), ?_⟩
    intro i f hf f' hf' hi
    rw [lastWrite_upgraded] at hf
    exact hC.last i f hf f' (hmem f' hf') hi
  · rw [hc₀.2.2]
    exact ⟨by simp, by simp, by simp [lastWrite]⟩

end LegendsNft
