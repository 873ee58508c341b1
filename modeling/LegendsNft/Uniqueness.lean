/-
**Transaction ids and payment subaccounts are used once.**

`lock` numbers its transactions with one counter and its payment subaccounts with another.  The
first is read when the call returns from `_canSettle`, together with its increment, so ids are
distinct as long as the counter is not reset; an upgrade resets it.  The second is incremented
before the `await`, so distinct calls hold distinct subaccounts from the start, and a call that has
not returned keeps its own: the subaccounts of the transactions together with those of the
suspended calls are among those ever taken.  The bytes of a subaccount determine its number up to
`2 ^ 256`.

Main definitions:

* `LegendsNft.FreshIds` — distinct transactions have distinct ids;
* `LegendsNft.taken` — the subaccounts taken by `lock` calls so far.

Main results:

* `LegendsNft.nextTxId_of_run`, `LegendsNft.freshIds_of_run` — the ids;
* `LegendsNft.natToSubAccount_injective`, `LegendsNft.subaccounts_of_run` — the subaccounts.
-/

import Mathlib.Algebra.Order.Group.Multiset
import LegendsNft.Discipline
import LegendsNft.Provenance

set_option relaxedAutoImplicit false
set_option autoImplicit false

namespace LegendsNft

open Entrepot

variable {D : Deployment} {G : Guard} {c₀ c : Config}

/-! ### Transaction ids -/

/-- Distinct transactions have distinct ids, all below their number. -/
structure FreshIds (h : List Event) : Prop where
  nodup : ((created h).map fun x => x.transaction.id).Nodup
  lt : ∀ x ∈ created h, x.transaction.id < (created h).length

/-- An id determines its transaction, the index and the expiry of its lock. -/
theorem FreshIds.eq_of_id {h : List Event} (hh : FreshIds h) {x y : Creation}
    (hx : x ∈ created h) (hy : y ∈ created h) (hid : x.transaction.id = y.transaction.id) :
    x = y :=
  List.inj_on_of_nodup_map hh.nodup hx hy hid

/-- Without upgrades, the counter stands at the number of transactions. -/
theorem nextTxId_of_run (hG : ∀ c u, ¬ G.restart c u) (hc₀ : Initial c₀)
    (h : Actor.Run (program D) G c₀ c) :
    c.state.entrepot.nextTxId = (created c.history).length := by
  refine invariant_of_moves (I := fun w h => w.entrepot.nextTxId = (created h).length) ?_
    (fun c supply canister _ hr _ => absurd hr (hG c supply)) h ?_
  · intro c src o hI _ _ hm
    rcases hm.life with hq | ⟨f, t, rfl, rfl, rfl⟩ | ⟨f, b, k, r, rfl, -, rfl⟩ |
      ⟨f, b, k, s, tokens, jobs, rfl, -, hsale, -, rfl⟩
    · rw [hq.nextTxId, hq.created_append, hI]
    · exact congrArg (· + 1) hI
    · rw [World.entrepot_setEntrepot, giveUp]
      split <;> exact hI
    · exact hsale.nextTxId.trans hI
  · rw [hc₀.entrepot, hc₀.2.2]
    rfl

/-- **Ids are distinct** in the runs in which `lock` finds the counter at the number of transactions
created so far. -/
theorem freshIds_of_run
    (hG : ∀ c f, G.resume c (.canSettled (.ok ()) (.lock f)) .run →
      c.state.entrepot.nextTxId = (created c.history).length)
    (hc₀ : Initial c₀) (h : Actor.Run (program D) G c₀ c) : FreshIds c.history := by
  refine invariant_of_moves (I := fun _ h => FreshIds h) ?_ ?_ h ?_
  · intro c src o hI _ hg hm
    rcases hm.life with hq | ⟨f, t, rfl, rfl, rfl⟩ | ⟨f, b, k, r, rfl, -, rfl⟩ |
      ⟨f, b, k, s, tokens, jobs, rfl, -, -, -, rfl⟩
    · exact ⟨by rw [hq.created_append]; exact hI.nodup, by rw [hq.created_append]; exact hI.lt⟩
    · -- the new id is the number of transactions, and every id so far is below it
      have hid := hG c f hg
      constructor
      · refine List.nodup_cons.2 ⟨?_, hI.nodup⟩
        intro hmem
        obtain ⟨x, hx, hxid⟩ := List.mem_map.1 hmem
        have hlt := hI.lt x hx
        rw [hxid, ← hid] at hlt
        exact absurd hlt (lt_irrefl _)
      · intro x hx
        rcases List.mem_cons.1 hx with rfl | hx
        · exact Nat.lt_succ_of_le (le_of_eq hid)
        · exact Nat.lt_succ_of_lt (hI.lt x hx)
    · exact ⟨hI.nodup, hI.lt⟩
    · exact ⟨hI.nodup, hI.lt⟩
  · intro c supply canister hI _ _
    exact ⟨hI.nodup, hI.lt⟩
  · rw [hc₀.2.2]
    exact ⟨List.nodup_nil, by simp [created]⟩

/-- Without upgrades, ids are distinct. -/
theorem freshIds_of_noUpgrade (hG : ∀ c u, ¬ G.restart c u) (hc₀ : Initial c₀)
    (h : Actor.Run (program D) G c₀ c) : FreshIds c.history := by
  have hrun : Actor.Run (program D)
      (G.assuming fun c => c.state.entrepot.nextTxId = (created c.history).length) c₀ c :=
    h.assume fun _ hd => nextTxId_of_run hG hc₀ hd
  refine freshIds_of_run ?_ hc₀ hrun
  exact fun _ _ hg => hg.1

/-! ### The bytes of a subaccount -/

/-- The `k` bytes of a number, the most significant first. -/
def bigEndian (k n : ℕ) : List UInt8 :=
  (List.range k).map fun i => UInt8.ofNat (n / 2 ^ (8 * (k - 1 - i)))

theorem bigEndian_succ (k n : ℕ) :
    bigEndian (k + 1) n = bigEndian k (n / 256) ++ [UInt8.ofNat n] := by
  have hinit : ((List.range k).map fun i => UInt8.ofNat (n / 2 ^ (8 * (k + 1 - 1 - i)))) =
      bigEndian k (n / 256) := by
    refine List.map_congr_left ?_
    intro i hi
    have hlt := List.mem_range.1 hi
    have he : 8 * (k + 1 - 1 - i) = 8 + 8 * (k - 1 - i) := by omega
    rw [he, Nat.pow_add, ← Nat.div_div_eq_div_mul]
  rw [bigEndian, List.range_succ, List.map_append, hinit]
  simp

/-- The bytes determine a number that fits in them. -/
theorem bigEndian_injective {k n m : ℕ} (hn : n < 256 ^ k) (hm : m < 256 ^ k)
    (h : bigEndian k n = bigEndian k m) : n = m := by
  induction k generalizing n m with
  | zero => omega
  | succ k ih =>
      -- the last byte is the remainder by 256, the other bytes are those of the quotient
      rw [bigEndian_succ, bigEndian_succ] at h
      obtain ⟨hinit, hlast⟩ := List.append_inj' h rfl
      have hdiv : n / 256 = m / 256 :=
        ih (Nat.div_lt_of_lt_mul (by rwa [Nat.pow_succ, Nat.mul_comm] at hn))
          (Nat.div_lt_of_lt_mul (by rwa [Nat.pow_succ, Nat.mul_comm] at hm)) hinit
      have hmod : n % 256 = m % 256 := by
        have hbyte := congrArg UInt8.toNat (List.singleton_inj.1 hlast)
        simpa using hbyte
      omega

/-- **The bytes of a subaccount determine its number.** -/
theorem natToSubAccount_injective {n m : ℕ} (hn : n < 2 ^ 256) (hm : m < 2 ^ 256)
    (h : natToSubAccount n = natToSubAccount m) : n = m :=
  bigEndian_injective (k := 32) (by omega) (by omega) h

/-! ### Payment subaccounts -/

/-- The subaccount an event takes. -/
def Event.taken : Event → Option SubAccount
  | .lockBegan f => some f.subaccount
  | _ => none

/-- The subaccounts taken so far. -/
def taken (h : List Event) : List SubAccount := h.filterMap Event.taken

/-- The subaccount of the `lock` call a continuation carries. -/
def Task.subaccount (k : Task) : Option SubAccount :=
  match k.waiter with
  | some (.lock f) => some f.subaccount
  | _ => none

/-- The subaccounts of the suspended `lock` calls. -/
def suspended (m : Multiset Task) : Multiset SubAccount := m.filterMap Task.subaccount

theorem suspended_add (m m' : Multiset Task) :
    suspended (m + m') = suspended m + suspended m' := Multiset.filterMap_add _ m m'

theorem suspended_eq_zero {ks : List Task} (h : ∀ k ∈ ks, k.waiter = none) :
    suspended ks = 0 := by
  rw [suspended, Multiset.filterMap_coe, List.filterMap_eq_nil_iff.2 fun k hk => ?_,
    Multiset.coe_nil]
  rw [Task.subaccount, h k hk]

theorem suspended_congr {k k' : Task} (h : k'.waiter = k.waiter) :
    suspended {k'} = suspended {k} := by
  have hsub : k'.subaccount = k.subaccount := by
    rw [Task.subaccount, h, ← Task.subaccount]
  rw [suspended, ← Multiset.cons_zero, Multiset.filterMap_cons, hsub, ← Multiset.filterMap_cons]
  rfl

theorem suspended_le_of_relays {k : Task} {ks : List Task} (hlen : ks.length ≤ 1)
    (h : ∀ k' ∈ ks, k'.waiter = k.waiter) : suspended ks ≤ suspended {k} := by
  cases ks with
  | nil => exact Multiset.zero_le _
  | cons k' ks =>
      cases ks with
      | nil => exact le_of_eq (suspended_congr (h k' (List.mem_singleton_self k')))
      | cons k'' ks => simp at hlen

/-- What a move does to the subaccounts of the suspended calls: at most it adds the one that a
`lock` call has just taken. -/
theorem Move.suspended_le {w : World} {src : Source} {o : Step} (hm : Move D w src o) :
    (taken o.events = [] ∧ suspended o.spawned ≤ suspended (Actor.Source.task src) ∧
      o.state.entrepot.nextSubAccount = w.entrepot.nextSubAccount) ∨
      ∃ f, o.events = [.lockBegan f] ∧ suspended o.spawned = {f.subaccount} ∧
        f.subaccount = natToSubAccount (4294967296 + (w.entrepot.nextSubAccount + 1)) ∧
        o.state.entrepot.nextSubAccount = w.entrepot.nextSubAccount + 1 ∧
        ∃ caller token price buyer, src = .call (.lock caller token price buyer) := by
  have none_le {ks : List Task} (h : ∀ k ∈ ks, k.waiter = none) (m : Multiset Task) :
      suspended ks ≤ suspended m := by
    rw [suspended_eq_zero h]
    exact Multiset.zero_le _
  cases hm with
  | idle | tick | deposit | mint | deleted | listed | delisted | locked =>
      exact Or.inl ⟨rfl, none_le (by simp [World.idle]) _, rfl⟩
  | extTransfer | executed | rejected =>
      exact Or.inl ⟨rfl, none_le (by simp [Task.waiter]) _, rfl⟩
  | sent market =>
      exact Or.inl ⟨rfl, none_le (by simp [Task.waiter, SettleWaiter.waiter]) _,
        market.nextSubAccount⟩
  | queueStart pass =>
      exact Or.inl ⟨rfl, none_le (fun _ hk => (pass.waiter_eq_none hk).1) _,
        pass.market.nextSubAccount⟩
  | @queueStep f reply n s ks count pass =>
      refine Or.inl ⟨?_, none_le (fun _ hk => (pass.waiter_eq_none hk).1) _,
        pass.market.nextSubAccount⟩
      unfold answered
      split
      · rfl
      · split <;> rfl
  | listBegan => exact Or.inl ⟨rfl, Multiset.zero_le _, rfl⟩
  | relay hrun hlen hrel =>
      exact Or.inl ⟨rfl, suspended_le_of_relays hlen fun k' hk' => (hrel k' hk').waiter, rfl⟩
  | read | report => exact Or.inl ⟨rfl, le_of_eq (suspended_congr rfl), rfl⟩
  | finalized hle hsale =>
      exact Or.inl ⟨rfl, le_of_eq (suspended_congr rfl), hsale.nextSubAccount⟩
  | @gaveUp f =>
      refine Or.inl ⟨rfl, suspended_le_of_relays (SettleWaiter.length_deliver_le _ _)
        fun _ hk => (SettleWaiter.relays_of_mem_deliver hk).waiter, ?_⟩
      rw [World.entrepot_setEntrepot, giveUp]
      split <;> rfl
  | @lockBegan caller token price buyer f _ _ _ _ _ hsub =>
      exact Or.inr ⟨f, rfl, rfl, hsub, rfl, caller, token, price, buyer, rfl⟩

/-- The subaccounts of the transactions created so far. -/
def paid (h : List Event) : List SubAccount := (created h).map fun x => x.transaction.bytes

/-- Every subaccount is taken once, and belongs to one transaction or one suspended call. -/
structure Subaccounts (w : World) (h : List Event) (m : Multiset Task) : Prop where
  nodup : (taken h).Nodup
  issued : ∀ b ∈ taken h, ∃ n ≤ w.entrepot.nextSubAccount, b = natToSubAccount (4294967296 + n)
  once : (paid h : Multiset SubAccount) + suspended m ≤ taken h

theorem taken_append (es h : List Event) : taken (es ++ h) = taken es ++ taken h :=
  List.filterMap_append

/-- A move creates a transaction for a call that carries its subaccount, or none. -/
theorem Move.paid_add_le {w : World} {h : List Event} {src : Source} {o : Step}
    (hm : Move D w src o) :
    (paid (o.events ++ h) : Multiset SubAccount) + suspended o.spawned ≤
      (taken o.events : Multiset SubAccount) + (paid h + suspended (Actor.Source.task src)) := by
  have hold (hpaid : paid (o.events ++ h) = paid h) :
      (paid (o.events ++ h) : Multiset SubAccount) + suspended o.spawned ≤
        (taken o.events : Multiset SubAccount) + (paid h + suspended (Actor.Source.task src)) := by
    rw [hpaid]
    rcases hm.suspended_le with ⟨hes, hle, -⟩ | ⟨f, hes, hsp, -⟩
    · rw [hes, Multiset.coe_nil, zero_add]
      exact add_le_add_right hle _
    · have htaken : (taken o.events : Multiset SubAccount) = {f.subaccount} := by
        rw [hes]
        rfl
      rw [hsp, htaken, add_comm]
      exact add_le_add_right (Multiset.le_add_right _ _) _
  rcases hm.life with hq | ⟨f, t, rfl, rfl, rfl⟩ | ⟨f, b, k, r, rfl, -, rfl⟩ |
    ⟨f, b, k, s, tokens, jobs, rfl, -, -, -, rfl⟩
  · refine hold ?_
    rw [paid, hq.created_append, ← paid]
  · -- the subaccount leaves the pool and enters the list of transactions
    have hsus : suspended (Actor.Source.task
        (.resume (.canSettled (.ok ()) (.lock f)) .run : Source)) = {f.subaccount} := rfl
    have hpaid : (paid ([Event.locked f.index (f.transaction D w.entrepot.nextTxId w.now)
        f.expiry] ++ h) : Multiset SubAccount) = {f.subaccount} + paid h := rfl
    have hnone : suspended (([] : List Task) : Multiset Task) = 0 := rfl
    rw [hsus, hpaid, hnone, add_zero, add_comm]
    exact Multiset.le_add_left _ _
  · exact hold rfl
  · exact hold rfl

/-- Every transaction has a subaccount of its own. -/
theorem Subaccounts.nodup_paid {w : World} {h : List Event} {m : Multiset Task}
    (hS : Subaccounts w h m) : (paid h).Nodup :=
  Multiset.coe_nodup.1 (Multiset.nodup_of_le (le_trans (Multiset.le_add_right _ _) hS.once)
    (Multiset.coe_nodup.2 hS.nodup))

theorem Subaccounts.step {m : Multiset Task} {src : Source} {o : Step}
    (hS : Subaccounts c.state c.history (Actor.Source.task src + m))
    (hsmall : c.state.entrepot.nextSubAccount < o.state.entrepot.nextSubAccount →
      4294967296 + o.state.entrepot.nextSubAccount < 2 ^ 256)
    (hm : Move D c.state src o) :
    Subaccounts o.state (o.events ++ c.history) (m + o.spawned) := by
  have honce : (paid (o.events ++ c.history) : Multiset SubAccount) + suspended (m + o.spawned) ≤
      taken (o.events ++ c.history) := by
    calc (paid (o.events ++ c.history) : Multiset SubAccount) + suspended (m + o.spawned)
        = paid (o.events ++ c.history) + suspended o.spawned + suspended m := by
          rw [suspended_add, add_assoc, add_comm (suspended o.spawned)]
      _ ≤ taken o.events + (paid c.history + suspended (Actor.Source.task src)) + suspended m :=
          add_le_add_left hm.paid_add_le _
      _ = taken o.events + (paid c.history + suspended (Actor.Source.task src + m)) := by
          rw [suspended_add, add_assoc, add_assoc]
      _ ≤ taken o.events + taken c.history := add_le_add_right hS.once _
      _ = taken (o.events ++ c.history) := by rw [taken_append, Multiset.coe_add]
  rcases hm.suspended_le with ⟨hes, -, hn⟩ | ⟨f, hes, -, hsub, hn, -⟩
  · refine ⟨?_, ?_, honce⟩
    · rw [taken_append, hes]
      exact hS.nodup
    · intro b hb
      rw [taken_append, hes] at hb
      rw [hn]
      exact hS.issued b hb
  · have htaken : taken (o.events ++ c.history) = f.subaccount :: taken c.history := by
      rw [hes]
      rfl
    have hlt := hsmall (by omega)
    rw [hn] at hlt
    refine ⟨?_, ?_, honce⟩
    · -- every subaccount so far has a number up to the counter
      rw [htaken]
      refine List.nodup_cons.2 ⟨?_, hS.nodup⟩
      intro hmem
      obtain ⟨n, hle, heq⟩ := hS.issued _ hmem
      have hinj := natToSubAccount_injective hlt (by omega) (hsub.symm.trans heq)
      omega
    · intro b hb
      rw [htaken] at hb
      rw [hn]
      rcases List.mem_cons.1 hb with rfl | hb
      · exact ⟨_, le_refl _, hsub⟩
      · obtain ⟨n, hle, heq⟩ := hS.issued b hb
        exact ⟨n, Nat.le_succ_of_le hle, heq⟩

/-- An upgrade keeps the counter of subaccounts; the suspended calls are gone. -/
theorem Subaccounts.upgrade {w : World} {h : List Event} {m : Multiset Task}
    (hS : Subaccounts w h m) {canister : Canister} {supply : UInt16}
    (hup : w.canister.upgrade supply = .ok canister) :
    Subaccounts { w with canister := canister } (.upgraded :: h) 0 where
  nodup := hS.nodup
  issued := by
    intro b hb
    rw [World.entrepot_mk, Canister.nextSubAccount_upgrade hup]
    exact hS.issued b hb
  once := le_trans (add_le_add_right (Multiset.zero_le (suspended m)) _) hS.once

/-- The invariant of the subaccounts, as long as `lock` finds a counter that fits in the bytes. -/
theorem subaccounts_invariant
    (hG : ∀ c caller token price buyer, G.call c (.lock caller token price buyer) →
      4294967296 + (c.state.entrepot.nextSubAccount + 1) < 2 ^ 256)
    (hc₀ : Initial c₀) (h : Actor.Run (program D) G c₀ c) :
    Subaccounts c.state c.history c.pool := by
  refine multiset_of_moves (J := Subaccounts) ?_ (fun c _ _ hS _ hup => hS.upgrade hup) h ?_
  · intro c src m o _ hS hg hm
    refine hS.step ?_ hm
    intro hlt
    rcases hm.suspended_le with ⟨-, -, hn⟩ | ⟨f, -, -, -, hn, caller, token, price, buyer, hsrc⟩
    · omega
    · rw [hsrc] at hg
      rw [hn]
      exact hG c caller token price buyer hg
  · rw [hc₀.2.1, hc₀.2.2]
    exact ⟨List.nodup_nil, by simp [taken], le_refl _⟩

/-- **Payment subaccounts are used once**, as long as the counter fits in the bytes. -/
theorem subaccounts_of_run
    (hG : ∀ c caller token price buyer, G.call c (.lock caller token price buyer) →
      4294967296 + (c.state.entrepot.nextSubAccount + 1) < 2 ^ 256)
    (hc₀ : Initial c₀) (h : Actor.Run (program D) G c₀ c) : (paid c.history).Nodup :=
  (subaccounts_invariant hG hc₀ h).nodup_paid

end LegendsNft
