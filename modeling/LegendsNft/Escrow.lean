/-
**An escrow: money that is held in accounts, and what is due from them.**

An escrow holds money in accounts and owes jobs, each of which takes its cost from one account.  It
takes deposits; it promises jobs from an account that owes nothing, as far as its balance covers
them; it pays a job, cancels some, or takes money out of an account that owes nothing.  Each action
names the accounts, the jobs and the amounts it is about, and determines what it leads to.  Paying
takes what is there: nothing in a step stops a job from being paid out of an account that is short.
That no account ever is, is the theorem.

Main definitions:

* `Escrow.Terms`, `Escrow.State` — the accounts and the costs of jobs, and the states;
* `Escrow.owed` — what jobs cost an account;
* `Escrow.Action`, `Escrow.Step`, `Escrow.Run` — the actions, one step, and a list of them;
* `Escrow.Solvent` — every account covers what is due from it.

Main results:

* `Escrow.Step.eq` — an action determines what it leads to;
* `Escrow.Step.solvent`, `Escrow.Run.solvent` — **an escrow stays solvent**;
* `Escrow.Solvent.cost_le` — a job that is due is covered.
-/

import Mathlib.Algebra.BigOperators.Group.Multiset.Basic
import Mathlib.Algebra.Order.Group.Multiset

set_option relaxedAutoImplicit false
set_option autoImplicit false

universe u v

namespace Escrow

variable {A : Type u} {J : Type v} [DecidableEq A]

/-- The account a job is paid from, and what it costs. -/
structure Terms (A : Type u) (J : Type v) where
  account : J → A
  cost : J → ℕ

/-- The balances of the accounts, and the jobs that are due. -/
structure State (A : Type u) (J : Type v) where
  balance : A → ℕ
  due : Multiset J

/-! ### What jobs cost an account -/

/-- What these jobs cost an account. -/
def owed (T : Terms A J) (a : A) (jobs : Multiset J) : ℕ :=
  ((jobs.filter fun j => T.account j = a).map T.cost).sum

variable {T : Terms A J} {a : A}

theorem owed_add (jobs jobs' : Multiset J) :
    owed T a (jobs + jobs') = owed T a jobs + owed T a jobs' := by
  simp [owed, Multiset.filter_add]

theorem owed_cons_self (j : J) (jobs : Multiset J) :
    owed T (T.account j) (j ::ₘ jobs) = T.cost j + owed T (T.account j) jobs := by
  simp [owed]

theorem owed_cons_of_ne {j : J} (h : T.account j ≠ a) (jobs : Multiset J) :
    owed T a (j ::ₘ jobs) = owed T a jobs := by
  simp [owed, h]

theorem owed_of_forall_eq {jobs : Multiset J} (h : ∀ j ∈ jobs, T.account j = a) :
    owed T a jobs = (jobs.map T.cost).sum := by
  rw [owed, Multiset.filter_eq_self.2 h]

theorem owed_of_forall_ne {jobs : Multiset J} (h : ∀ j ∈ jobs, T.account j ≠ a) :
    owed T a jobs = 0 := by
  rw [owed, Multiset.filter_eq_nil.2 h]
  rfl

theorem owed_mono {jobs jobs' : Multiset J} (h : jobs ≤ jobs') :
    owed T a jobs ≤ owed T a jobs' := by
  obtain ⟨rest, rfl⟩ := Multiset.le_iff_exists_add.1 h
  rw [owed_add]
  exact Nat.le_add_right _ _

/-! ### Steps -/

/-- What is done with an escrow. -/
inductive Action (A : Type u) (J : Type v)
  /-- Money is paid into an account. -/
  | deposit (a : A) (n : ℕ)
  /-- Jobs are promised from an account. -/
  | promise (a : A) (jobs : Multiset J)
  /-- A job is paid. -/
  | pay (j : J)
  /-- Jobs are cancelled. -/
  | cancel (jobs : Multiset J)
  /-- Money is taken out of an account. -/
  | withdraw (a : A) (n : ℕ)

/-- When an action may be done, and what it leads to. -/
inductive Step (T : Terms A J) : State A J → Action A J → State A J → Prop
  | deposit (s : State A J) (a : A) (n : ℕ) :
      Step T s (.deposit a n) { s with balance := Function.update s.balance a (s.balance a + n) }
  /-- Jobs are promised from an account that owes nothing, and covers them. -/
  | promise {s : State A J} {a : A} {jobs : Multiset J} (account : ∀ j ∈ jobs, T.account j = a)
      (idle : ∀ j ∈ s.due, T.account j ≠ a) (funds : (jobs.map T.cost).sum ≤ s.balance a) :
      Step T s (.promise a jobs) { s with due := jobs + s.due }
  /-- A job that is due is paid. -/
  | pay {s : State A J} {j : J} {rest : Multiset J} (due : s.due = j ::ₘ rest) :
      Step T s (.pay j) ⟨Function.update s.balance (T.account j)
        (s.balance (T.account j) - T.cost j), rest⟩
  /-- Jobs that are due are cancelled. -/
  | cancel {s : State A J} {jobs rest : Multiset J} (due : s.due = jobs + rest) :
      Step T s (.cancel jobs) { s with due := rest }
  /-- Money is taken out of an account that owes nothing. -/
  | withdraw {s : State A J} {a : A} (n : ℕ) (idle : ∀ j ∈ s.due, T.account j ≠ a) :
      Step T s (.withdraw a n) { s with balance := Function.update s.balance a (s.balance a - n) }

/-- A list of actions, one after the other. -/
inductive Run (T : Terms A J) : State A J → List (Action A J) → State A J → Prop
  | refl (s : State A J) : Run T s [] s
  | head {s s' s'' : State A J} {x : Action A J} {xs : List (Action A J)} :
      Step T s x s' → Run T s' xs s'' → Run T s (x :: xs) s''

theorem Run.single {s s' : State A J} {x : Action A J} (h : Step T s x s') : Run T s [x] s' :=
  .head h (.refl s')

/-- **An action determines what it leads to.** -/
theorem Step.eq {s s₁ s₂ : State A J} {x : Action A J} (h₁ : Step T s x s₁) (h₂ : Step T s x s₂) :
    s₁ = s₂ := by
  cases h₁ with
  | deposit => cases h₂; rfl
  | promise => cases h₂; rfl
  | pay due =>
      cases h₂ with
      | pay due' => rw [(Multiset.cons_inj_right _).1 (due.symm.trans due')]
  | cancel due =>
      cases h₂ with
      | cancel due' => rw [Multiset.add_right_inj.1 (due.symm.trans due')]
  | withdraw => cases h₂; rfl

theorem Run.eq {s s₁ s₂ : State A J} {xs : List (Action A J)} (h₁ : Run T s xs s₁)
    (h₂ : Run T s xs s₂) : s₁ = s₂ := by
  induction h₁ with
  | refl => cases h₂; rfl
  | head hstep _ ih =>
      cases h₂ with
      | head hstep' hrest => exact ih (hstep.eq hstep' ▸ hrest)

/-- Every account covers what is due from it. -/
def Solvent (T : Terms A J) (s : State A J) : Prop := ∀ a, owed T a s.due ≤ s.balance a

/-- **A step keeps an escrow solvent.** -/
theorem Step.solvent {s s' : State A J} {x : Action A J} (h : Step T s x s') (hs : Solvent T s) :
    Solvent T s' := by
  intro b
  have hb := hs b
  cases h with
  | deposit a n =>
      refine le_trans hb ?_
      change s.balance b ≤ Function.update s.balance a (s.balance a + n) b
      by_cases hab : b = a
      · subst hab
        rw [Function.update_self]
        exact Nat.le_add_right _ _
      · rw [Function.update_of_ne hab]
  | @promise a jobs account idle funds =>
      rw [owed_add]
      by_cases hab : b = a
      · -- the account owes nothing but the new jobs
        subst hab
        rw [owed_of_forall_eq account, owed_of_forall_ne idle]
        exact funds
      · rw [owed_of_forall_ne fun j hj heq => hab (heq.symm.trans (account j hj)), Nat.zero_add]
        exact hb
  | @pay j rest due =>
      rw [due] at hb
      change owed T b rest ≤
        Function.update s.balance (T.account j) (s.balance (T.account j) - T.cost j) b
      by_cases hab : b = T.account j
      · -- the cost is taken off what is due and off the balance
        subst hab
        rw [owed_cons_self] at hb
        rw [Function.update_self]
        exact Nat.le_sub_of_add_le (by rwa [Nat.add_comm] at hb)
      · rw [owed_cons_of_ne (Ne.symm hab)] at hb
        rw [Function.update_of_ne hab]
        exact hb
  | cancel due =>
      rw [due] at hb
      exact le_trans (owed_mono (Multiset.le_add_left _ _)) hb
  | @withdraw a n idle =>
      change owed T b s.due ≤ Function.update s.balance a (s.balance a - n) b
      by_cases hab : b = a
      · subst hab
        rw [owed_of_forall_ne idle]
        exact Nat.zero_le _
      · rw [Function.update_of_ne hab]
        exact hb

/-- **An escrow stays solvent.** -/
theorem Run.solvent {s s' : State A J} {xs : List (Action A J)} (h : Run T s xs s')
    (hs : Solvent T s) : Solvent T s' := by
  induction h with
  | refl => exact hs
  | head hstep _ ih => exact ih (hstep.solvent hs)

/-- A job that is due is covered. -/
theorem Solvent.cost_le {s : State A J} (hs : Solvent T s) {j : J} (hj : j ∈ s.due) :
    T.cost j ≤ s.balance (T.account j) := by
  obtain ⟨rest, hrest⟩ := Multiset.exists_cons_of_mem hj
  have hcovered := hs (T.account j)
  rw [hrest, owed_cons_self] at hcovered
  omega

end Escrow
