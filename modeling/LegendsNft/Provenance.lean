/-
**Where listings and transactions come from.**

Authority enters the marketplace at one place: `list` checks that its caller owns the token.  From
there it is copied, by `list` into a listing, by `lock` into a frame and then a pending
transaction, by `settle` into another frame, and each copy is used after an `await`.  The invariant
of this module follows the copies back: whatever carries a seller today has an event in the history
that put it there.  It holds for every run, upgrades included.

Main definitions:

* `LegendsNft.FromListing` — a listing was put there by a `list` call of its seller;
* `LegendsNft.Provenance` — the invariant of the state and the history;
* `LegendsNft.Sourced` — the assertion about each suspended continuation.

Main results:

* `LegendsNft.provenance` — **both hold along every run**.
-/

import LegendsNft.Lifecycle

set_option relaxedAutoImplicit false
set_option autoImplicit false

namespace LegendsNft

open Entrepot

variable {D : Deployment}

/-! ### The invariant -/

/-- The listing of an index was put there by a `list` call of its seller, at its price. -/
def FromListing (h : List Event) (i : TokenIndex) (l : Listing) : Prop :=
  ∃ f, .listed f l.price ∈ h ∧ f.index = i ∧ f.caller = l.seller ∧
    f.request.from_subaccount = l.subaccount

/-- A transaction was created by a `lock` call on a listing of its seller. -/
def FromLock (D : Deployment) (h : List Event) (x : Creation) : Prop :=
  ∃ f, .lockBegan f ∈ h ∧ f.index = x.index ∧ f.expiry = x.expiry ∧
    x.transaction = f.transaction D x.transaction.id x.transaction.initiated

/-- Where the copies in the state and in the history come from. -/
structure Provenance (D : Deployment) (w : World) (h : List Event) : Prop where
  listing : ∀ i l, w.entrepot.listings.get i = some l → FromListing h i l
  lock : ∀ f, .lockBegan f ∈ h → FromListing h f.index f.listing
  creation : ∀ x ∈ created h, FromLock D h x
  pending : ∀ i t, w.entrepot.pendingTransactions.get i = some t → ∃ e, .locked i t e ∈ h
  sale : ∀ f b jobs, .finalized f b jobs ∈ h → ∃ e, .locked f.index f.transaction e ∈ h

/-- Where what a continuation carries comes from. -/
structure Sourced (h : List Event) (k : Task) : Prop where
  held : ∀ f, k.held = some f → ∃ e, .locked f.index f.transaction e ∈ h
  lock : ∀ f, k.waiter = some (.lock f) → .lockBegan f ∈ h
  reply : ∀ f b, k.reply = some (f, b) → ∃ t, .reported f.transaction.bytes b t ∈ h

theorem FromListing.append {h : List Event} {i : TokenIndex} {l : Listing}
    (hl : FromListing h i l) (es : List Event) : FromListing (es ++ h) i l := by
  obtain ⟨f, hf, hi, hc, hs⟩ := hl
  exact ⟨f, List.mem_append_right es hf, hi, hc, hs⟩

theorem FromLock.append {h : List Event} {x : Creation} (hx : FromLock D h x)
    (es : List Event) : FromLock D (es ++ h) x := by
  obtain ⟨f, hf, hrest⟩ := hx
  exact ⟨f, List.mem_append_right es hf, hrest⟩

theorem Sourced.append {h : List Event} {k : Task} (hk : Sourced h k) (es : List Event) :
    Sourced (es ++ h) k where
  held := fun f hf => (hk.held f hf).imp fun _ he => List.mem_append_right es he
  lock := fun f hf => List.mem_append_right es (hk.lock f hf)
  reply := fun f b hf => (hk.reply f b hf).imp fun _ ht => List.mem_append_right es ht

/-! ### One move -/

section Step

variable {w : World} {h : List Event} {src : Source} {o : Step}

/-- Listings are written by `list` and by `lock`, which copies the one it finds. -/
theorem Provenance.listing_step (hp : Provenance D w h) (hm : Move D w src o)
    {i : TokenIndex} {l : Listing} (hl : o.state.entrepot.listings.get i = some l) :
    FromListing (o.events ++ h) i l := by
  rcases hm.listing_cases hl with ⟨l', hl', hsame⟩ | ⟨f, price, -, rfl, -, hev, rfl⟩
  · obtain ⟨f, hf, hi, hc, hs⟩ := hp.listing i l' hl'
    rw [hsame.price] at hf
    exact ⟨f, List.mem_append_right _ hf, hi, hc.trans hsame.seller, hs.trans hsame.subaccount⟩
  · rw [hev]
    exact ⟨f, List.mem_append_left h (List.mem_singleton_self _), rfl, rfl, rfl⟩

theorem Provenance.lock_step (hp : Provenance D w h) (hm : Move D w src o) {f : LockFrame}
    (hf : .lockBegan f ∈ o.events ++ h) : FromListing (o.events ++ h) f.index f.listing := by
  rcases List.mem_append.1 hf with hf | hf
  · cases hm with
    | @lockBegan _ _ _ _ f' _ hg =>
        cases List.mem_singleton.1 hf
        exact (hp.listing _ _ hg).append _
    | queueStep =>
        unfold answered at hf
        split at hf <;> [skip; split at hf] <;> simp at hf
    | _ => simp [World.idle] at hf
  · exact (hp.lock f hf).append _

theorem Provenance.creation_step (hp : Provenance D w h) (hm : Move D w src o)
    (hsrc : ∀ k ∈ Actor.Source.task src, Sourced h k) {x : Creation}
    (hx : x ∈ created (o.events ++ h)) : FromLock D (o.events ++ h) x := by
  rcases hm.life with hq | ⟨f, t, rfl, rfl, rfl⟩ | ⟨f, b, k, r, rfl, -, rfl⟩ |
    ⟨f, b, k, s, tokens, jobs, rfl, -, -, -, rfl⟩
  · rw [hq.created_append] at hx
    exact (hp.creation x hx).append _
  · -- the `lock` call that returns has recorded its beginning
    rcases List.mem_cons.1 hx with rfl | hx
    · have hf := (hsrc _ (Multiset.mem_singleton_self _)).lock f rfl
      exact ⟨f, List.mem_cons_of_mem _ hf, rfl, rfl, rfl⟩
    · exact (hp.creation x hx).append _
  · exact (hp.creation x hx).append _
  · exact (hp.creation x hx).append _

theorem Provenance.pending_step (hp : Provenance D w h) (hm : Move D w src o) {i : TokenIndex}
    {t : Transaction} (ht : o.state.entrepot.pendingTransactions.get i = some t) :
    ∃ e, .locked i t e ∈ o.events ++ h := by
  rcases hm.pending_cases ht with hold | ⟨f, -, rfl, -, hev⟩
  · exact (hp.pending i t hold).imp fun _ he => List.mem_append_right _ he
  · rw [hev]
    exact ⟨f.expiry, List.mem_append_left h (List.mem_singleton_self _)⟩

theorem Provenance.sale_step (hp : Provenance D w h) (hm : Move D w src o)
    (hsrc : ∀ k ∈ Actor.Source.task src, Sourced h k) {f : SettleFrame} {b : UInt64}
    {jobs : List Disbursement} (hf : .finalized f b jobs ∈ o.events ++ h) :
    ∃ e, .locked f.index f.transaction e ∈ o.events ++ h := by
  rw [← mem_settlements] at hf
  have old (hold : ⟨f, b, jobs⟩ ∈ settlements h) :
      ∃ e, .locked f.index f.transaction e ∈ o.events ++ h :=
    (hp.sale f b jobs (mem_settlements.1 hold)).imp fun _ he => List.mem_append_right _ he
  rcases hm.life with hq | ⟨f', t', rfl, rfl, rfl⟩ | ⟨f', b', k, r, rfl, -, rfl⟩ |
    ⟨f', b', k, s, tokens, jobs', rfl, -, -, -, rfl⟩
  · rw [hq.settlements_append] at hf
    exact old hf
  · exact old hf
  · exact old hf
  · rcases List.mem_cons.1 hf with heq | hf
    · cases heq
      have he := (hsrc _ (Multiset.mem_singleton_self _)).held f rfl
      exact he.imp fun _ he => List.mem_append_right _ he
    · exact old hf

/-- What one move adds to the pool is sourced. -/
theorem Sourced.spawned (hp : Provenance D w h) (hm : Move D w src o)
    (hsrc : ∀ k ∈ Actor.Source.task src, Sourced h k) {k : Task} (hk : k ∈ o.spawned) :
    Sourced (o.events ++ h) k where
  held := by
    intro f hf
    rcases (hm.held_cases hk hf).2 with ⟨token, k', -, -, hpend⟩ | ⟨k', balance, rfl, -⟩
    · exact (hp.pending _ _ hpend).imp fun _ he => List.mem_append_right _ he
    · exact ((hsrc _ (Multiset.mem_singleton_self _)).append _).held f rfl
  lock := by
    intro f hf
    rcases hm.waiter_cases hk hf with ⟨k', hk', hf'⟩ | ⟨_, _, _, hx, -⟩ | ⟨f', hx, hev⟩
    · exact ((hsrc k' hk').append _).lock f hf'
    · simp at hx
    · cases hx
      exact List.mem_append_left h hev
  reply := by
    intro f b hf
    exact ⟨_, List.mem_append_left h (hm.reply_cases hk hf)⟩

end Step

/-- An upgrade keeps the tables. -/
theorem Provenance.upgrade {w : World} {h : List Event} (hp : Provenance D w h)
    {canister : Canister} {supply : UInt16} (hup : w.canister.upgrade supply = .ok canister) :
    Provenance D { w with canister := canister } (.upgraded :: h) where
  listing := by
    intro i l hl
    rw [World.entrepot_mk, Canister.get_listings_upgrade hup] at hl
    exact (hp.listing i l hl).append [.upgraded]
  lock := fun f hf => (hp.lock f (by simpa using hf)).append [.upgraded]
  creation := fun x hx => (hp.creation x hx).append [.upgraded]
  pending := by
    intro i t ht
    rw [World.entrepot_mk, Canister.get_pendingTransactions_upgrade hup] at ht
    exact (hp.pending i t ht).imp fun _ he => List.mem_cons_of_mem _ he
  sale := fun f b jobs hf =>
    (hp.sale f b jobs (by simpa using hf)).imp fun _ he => List.mem_cons_of_mem _ he

/-! ### Whole runs -/

theorem Initial.provenance {c : Config} (hc : Initial c) : Provenance D c.state c.history := by
  have hlist : ∀ i, c.state.entrepot.listings.get i = none := by
    intro i
    rw [hc.entrepot]
    rfl
  have hpend : ∀ i, c.state.entrepot.pendingTransactions.get i = none := by
    intro i
    rw [hc.entrepot]
    rfl
  rw [hc.2.2]
  exact ⟨by simp [hlist], by simp, by simp [created], by simp [hpend], by simp⟩

/-- **Provenance.**  Along every run, the copies of a seller lead back to the `list` call that
authorized them. -/
theorem provenance {G : Guard} {c₀ c : Config} (hc₀ : Initial c₀)
    (h : Actor.Run (program D) G c₀ c) :
    Provenance D c.state c.history ∧ ∀ k ∈ c.pool, Sourced c.history k := by
  have hlocal : (program D).Local G (Provenance D) fun _ h k => Sourced h k := by
    refine local_of_moves ?_ fun c supply canister hp _ hup => hp.upgrade hup
    intro c src o hp hsrc _ hm
    have hsrc' : ∀ k ∈ Actor.Source.task src, Sourced c.history k := fun k hk => (hsrc k hk).2
    exact {
      inv := ⟨fun _ _ => hp.listing_step hm, fun _ => hp.lock_step hm,
        fun _ => hp.creation_step hm hsrc', fun _ _ => hp.pending_step hm,
        fun _ _ _ => hp.sale_step hm hsrc'⟩
      spawned := fun k hk => Sourced.spawned hp hm hsrc' hk
      stable := fun k hk => hk.append _ }
  refine h.local_induct hlocal hc₀.provenance ?_
  rw [hc₀.2.1]
  simp

end LegendsNft
