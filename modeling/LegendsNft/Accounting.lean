/-
**Accounts along the runs of an actor.**

A quantity — a multiset of jobs, an amount of money — may be spread over the state of an actor and
the locals of its suspended continuations, while the history records what has come in and what has
gone out.  If every segment balances, taking from one place what it puts into another, then so does
every run, whatever the order of its segments.

Main definitions:

* `Actor.Account` — what the places hold, and what a history brings in and takes out;
* `Actor.Account.Balanced` — a segment balances;
* `Actor.Account.total` — what is held and what has been taken out.

Main results:

* `Actor.Account.Balanced.total_eq` — a balanced segment, whatever else is in the pool;
* `Actor.Run.balanced` — **an account balanced by every segment is balanced by every run**.
-/

import LegendsNft.Actor
import Mathlib.Algebra.Group.Basic

set_option relaxedAutoImplicit false
set_option autoImplicit false

universe u₁ u₂ u₃ u₄ u₅ u₆ u₇

namespace Actor

variable {σ : Type u₁} {κ : Type u₂} {ι : Type u₃} {ρ : Type u₄} {υ : Type u₅} {ε : Type u₆}
  {M : Type u₇}

/-- An account of a quantity: what the state and a pool of continuations hold of it, and what a
history has brought in and taken out.  All of them but the state add up. -/
structure Account (σ : Type u₁) (κ : Type u₂) (ε : Type u₆) (M : Type u₇) [AddCommMonoid M] where
  state : σ → M
  tasks : Multiset κ → M
  gains : List ε → M
  expenses : List ε → M
  tasks_add : ∀ m m', tasks (m + m') = tasks m + tasks m'
  gains_append : ∀ es h, gains (es ++ h) = gains es + gains h
  expenses_append : ∀ es h, expenses (es ++ h) = expenses es + expenses h

namespace Account

section

variable [AddCommMonoid M] (A : Account σ κ ε M)

/-- What a configuration holds, and what has been taken out. -/
def total (s : σ) (h : List ε) (m : Multiset κ) : M := A.state s + A.tasks m + A.expenses h

/-- A segment balances: what the state and the continuations `t` it takes out of the pool held, and
what it brings in, is what its outcome holds and what it takes out. -/
def Balanced (s : σ) (t : Multiset κ) (o : Outcome σ κ ε) : Prop :=
  A.state s + A.tasks t + A.gains o.events =
    A.state o.state + A.tasks o.spawned + A.expenses o.events

end

/-- A balanced segment raises the total by what it brings in, whatever else is in the pool. -/
theorem Balanced.total_eq [AddCommMonoid M] {A : Account σ κ ε M} {s : σ} {t : Multiset κ}
    {o : Outcome σ κ ε} (hb : A.Balanced s t o) (m : Multiset κ) (h : List ε) :
    A.total s h (t + m) + A.gains o.events = A.total o.state (o.events ++ h) (m + o.spawned) := by
  calc A.total s h (t + m) + A.gains o.events
      = A.state s + A.tasks t + A.gains o.events + (A.tasks m + A.expenses h) := by
        rw [total, A.tasks_add]
        ac_rfl
    _ = A.state o.state + A.tasks o.spawned + A.expenses o.events +
          (A.tasks m + A.expenses h) := by rw [hb]
    _ = A.total o.state (o.events ++ h) (m + o.spawned) := by
        rw [total, A.tasks_add, A.expenses_append]
        ac_rfl

/-- What one more step adds on both sides. -/
theorem gains_step [AddCommMonoid M] {A : Account σ κ ε M} {es h : List ε} {x y z z' : M}
    (hrun : x + A.gains h = z + y) (hstep : z + A.gains es = z') :
    x + A.gains (es ++ h) = z' + y := by
  rw [← hstep, A.gains_append, add_left_comm, hrun]
  ac_rfl

end Account

variable [AddCommMonoid M] {P : Program σ κ ι ρ υ ε} {G : Guard σ κ ι ρ υ ε}

/-- **An account that every segment balances is balanced by every run**: the total grows by what has
come in. -/
theorem Run.balanced (A : Account σ κ ε M)
    (hseg : ∀ c src o, (∀ k ∈ src.task, k ∈ c.pool) → G.segment c src →
      P.segment c.state src = some o → A.Balanced c.state src.task o)
    (hrestart : ∀ c u o, G.restart c u → P.restart c.state u = some o →
      A.Balanced c.state c.pool o)
    {c c' : Config σ κ ε} (h : Run P G c c') :
    A.total c.state c.history c.pool + A.gains c'.history =
      A.total c'.state c'.history c'.pool + A.gains c.history := by
  refine h.multiset_induct (J := fun s h m => A.total c.state c.history c.pool + A.gains h =
    A.total s h m + A.gains c.history) ?_ ?_ rfl
  · intro d src m o hpool hJ hg ho
    have hsrc : ∀ k ∈ src.task, k ∈ d.pool := fun k hk =>
      Multiset.mem_coe.1 (hpool ▸ Multiset.mem_add.2 (Or.inl hk))
    exact Account.gains_step hJ ((hseg d src o hsrc hg ho).total_eq m d.history)
  · intro d u o hJ hg ho
    have hstep := (hrestart d u o hg ho).total_eq 0 d.history
    rw [Multiset.add_zero, Multiset.zero_add] at hstep
    exact Account.gains_step hJ hstep

end Actor
