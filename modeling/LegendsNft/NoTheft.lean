/-
**No theft.**

A minted token changes hands in two ways only: its owner transfers it through the EXT interface
while it is not listed, or a sale is settled whose transaction goes back to a `list` call of its
owner and whose payment the ledger has reported.  This holds of every step of every run, upgrades
included, with nothing assumed of the ledger or of the callers.

Main definitions:

* `LegendsNft.ByTransfer`, `LegendsNft.BySale` — the two ways.

Main results:

* `LegendsNft.owner_change_authorized` — **no theft**.
-/

import LegendsNft.Discipline
import LegendsNft.Provenance

set_option relaxedAutoImplicit false
set_option autoImplicit false

namespace LegendsNft

open Entrepot

variable {D : Deployment}

/-- The choice is a call of `Ext.transfer` by the owner of the token, to the new owner, and the
token is not listed. -/
def ByTransfer (D : Deployment) (c : Config) (a : Choice) (i : TokenIndex)
    (old new : AccountIdentifier) : Prop :=
  ∃ caller request, a = .call (.transfer caller request) ∧
    (∃ p, D.decode request.token = .ok (p, i)) ∧
    D.upper (D.accountText caller request.subaccount) = D.upper old ∧
    D.upper (D.userAccount request.to') = D.upper new ∧
    c.state.entrepot.listings.get i = none

/-- The choice resumes a `settle` call that has been told a sufficient balance, for a transaction
from the old to the new owner, created by a `lock` call on a listing that a `list` call of the old
owner has written. -/
def BySale (D : Deployment) (c : Config) (a : Choice) (i : TokenIndex)
    (old new : AccountIdentifier) : Prop :=
  ∃ n f balance k, a = .resume n .run ∧ c.pool[n]? = some (.reported f balance k) ∧
    f.index = i ∧ D.upper f.transaction.from' = D.upper old ∧ f.transaction.to' = new ∧
    f.transaction.price ≤ balance ∧
    (∃ time, .reported f.transaction.bytes balance time ∈ c.history) ∧
    (∃ e, .locked i f.transaction e ∈ c.history) ∧
    ∃ l : LockFrame, .lockBegan l ∈ c.history ∧ l.index = i ∧
      f.transaction = l.transaction D f.transaction.id f.transaction.initiated ∧
      ∃ g : ListFrame, .listed g l.listing.price ∈ c.history ∧ g.index = i ∧
        g.caller = l.listing.seller ∧ g.request.from_subaccount = l.listing.subaccount ∧
        D.accountText g.caller g.request.from_subaccount = f.transaction.from'

/-- A move that changes the owner of a token makes it by a transfer or by a sale. -/
theorem owner_cases_of_run {G : Guard} {c₀ c : Config} (hc₀ : Initial c₀)
    (hrun : Actor.Run (program D) G c₀ c) {n : ℕ} {k : Task} {r : Wake} {o : Step}
    (hk : c.pool[n]? = some k) (hm : Move D c.state (.resume k r) o) {i : TokenIndex}
    {old : AccountIdentifier} (hold : c.state.tokens.ownerOf i = some old) :
    ∃ new, o.state.tokens.ownerOf i = some new ∧
      (new = old ∨ BySale D c (.resume n r) i old new) := by
  rcases hm.owner_cases hold with
    hsame | ⟨_, _, hsrc, -⟩ | ⟨f, balance, k', hsrc, hi, hpaid, hown, hnew, -⟩
  · exact ⟨old, hsame, Or.inl rfl⟩
  · simp at hsrc
  · cases hsrc
    obtain ⟨hprov, hpool⟩ := provenance hc₀ hrun
    have hsourced := hpool _ (List.mem_of_getElem? hk)
    obtain ⟨e, he⟩ := hsourced.held f rfl
    obtain ⟨l, hl, hli, -, hlt⟩ := hprov.creation _ (mem_created.2 he)
    obtain ⟨g, hg, hgi, hgc, hgs⟩ := hprov.lock l hl
    obtain ⟨b, hb, hfrom⟩ := hown
    rw [hold, Option.some_inj] at hb
    subst hi hb
    have hacc : D.accountText g.caller g.request.from_subaccount = f.transaction.from' := by
      rw [hgc, hgs]
      exact (congrArg Transaction.from' hlt).symm
    exact ⟨_, hnew, Or.inr ⟨n, f, balance, k', rfl, hk, rfl, hfrom, rfl, hpaid,
      hsourced.reply f balance rfl, ⟨e, he⟩, l, hl, hli, hlt, g, hg, hgi.trans hli, hgc, hgs, hacc⟩⟩

/-- **No theft.**  A step of any run keeps every minted token minted; if it changes the owner, it
is a transfer by the owner of a token that is not listed, or a paid sale that goes back to a `list`
call of the owner; and minting changes no owner. -/
theorem owner_change_authorized {c₀ c c' : Config} {a : Choice} (hc₀ : Initial c₀)
    (hrun : Actor.Run (program D) Actor.Guard.any c₀ c) (hs : (program D).step c a = some c')
    {i : TokenIndex} {old : AccountIdentifier} (hold : c.state.tokens.ownerOf i = some old) :
    ∃ new, c'.state.tokens.ownerOf i = some new ∧
      (old ≠ new → ByTransfer D c a i old new ∨ BySale D c a i old new) ∧
      ∀ caller to', a = .call (.mint caller to') → new = old := by
  rcases (program D).step_cases hs with
    ⟨input, o, rfl, ho, rfl⟩ | ⟨n, r, k, o, rfl, hk, ho, rfl⟩ | ⟨supply, o, rfl, ho, rfl⟩
  · rcases (move_of_call ho).owner_cases hold with
      hsame | ⟨caller, request, hsrc, ht, -, hnew⟩ | ⟨_, _, _, hsrc, -⟩
    · exact ⟨old, hsame, fun hne => absurd rfl hne, fun _ _ _ => rfl⟩
    · cases hsrc
      obtain ⟨b, hb, hfrom⟩ := ht.owns
      rw [hold, Option.some_inj] at hb
      subst hb
      refine ⟨_, hnew, fun _ => Or.inl ⟨caller, request, rfl, ht.decoded, hfrom, ?_, ht.unlisted⟩,
        fun _ _ hmint => by simp at hmint⟩
      rw [D.upper_upper]
    · simp at hsrc
  · obtain ⟨new, hnew, hcase⟩ := owner_cases_of_run hc₀ hrun hk (move_of_resume ho) hold
    exact ⟨new, hnew, fun hne => Or.inr (hcase.resolve_left (Ne.symm hne)),
      fun _ _ hmint => by simp at hmint⟩
  · obtain ⟨canister, hup, rfl⟩ := restart_eq_some ho
    refine ⟨old, ?_, fun hne => absurd rfl hne, fun _ _ _ => rfl⟩
    exact (Canister.ownerOf_upgrade hup i).trans hold

/-- A `settle` call about to make a sale. -/
def paidRun : List Choice := Choice.paidLock ++ Choice.settle

/-- A sale that changes the owner. -/
theorem owner_change_authorized_sample :
    ∃ c c', sampleRun paidRun = some c ∧ (program .sample).step c (.resume 0 .run) = some c' ∧
      c'.state.tokens.ownerOf 0 = some "C" ∧
      (ByTransfer .sample c (.resume 0 .run) 0 "B" "C" ∨
        BySale .sample c (.resume 0 .run) 0 "B" "C") := by
  obtain ⟨c, hc, c', hs, hold, hnew⟩ := (by decide : ∃ c ∈ sampleRun paidRun,
    ∃ c' ∈ (program .sample).step c (.resume 0 .run),
      c.state.tokens.ownerOf 0 = some "B" ∧ c'.state.tokens.ownerOf 0 = some "C")
  obtain ⟨new, hnew', hauth, -⟩ := owner_change_authorized Config.initial_sample
    (Actor.run_of_exec (Actor.Guard.any_allowsAll _ _) hc) hs hold
  rw [hnew, Option.some_inj] at hnew'
  subst hnew'
  exact ⟨c, c', hc, hs, hnew, hauth (by decide)⟩

end LegendsNft
