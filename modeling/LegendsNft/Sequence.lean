/-
**Sequences of calls.**

A machine that handles one call after the other is a function from states and calls to states; the
state after some calls is a fold.  What is asked of it is a property of the state after every prefix
of a sequence of calls, and what decides it is often a condition on each call, in the state before
it.

Main definitions:

* `Sequence.after` — the state after some calls.

Main results:

* `Sequence.forall_prefix_iff` — **a condition on every call is a property of every state on the
  way**;
* `Sequence.forall_append_singleton_prefix` — the condition can be checked call by call.
-/

import Mathlib.Data.List.Induction

set_option relaxedAutoImplicit false
set_option autoImplicit false

universe u v

namespace Sequence

variable {σ : Type u} {ι : Type v}

/-- The state after some calls. -/
def after (step : σ → ι → σ) (start : σ) (cs : List ι) : σ := cs.foldl step start

@[simp] theorem after_nil (step : σ → ι → σ) (start : σ) : after step start [] = start := rfl

@[simp] theorem after_append_singleton (step : σ → ι → σ) (start : σ) (cs : List ι) (c : ι) :
    after step start (cs ++ [c]) = step (after step start cs) c := by
  simp [after]

/-- **A condition on every call is a property of every state on the way**, when the condition keeps
an invariant that has the property, and is necessary for the property to last one call more. -/
theorem forall_prefix_iff {I P : List ι → Prop} {Q : List ι → ι → Prop} (hnil : I [])
    (hstep : ∀ pre c, I pre → Q pre c → I (pre ++ [c])) (hsound : ∀ pre, I pre → P pre)
    (hexact : ∀ pre c, P pre → P (pre ++ [c]) → Q pre c) (cs : List ι) :
    (∀ pre, pre <+: cs → P pre) ↔ ∀ pre c, pre ++ [c] <+: cs → Q pre c := by
  constructor
  · intro h pre c hpre
    exact hexact pre c (h pre ((List.prefix_append pre [c]).trans hpre)) (h _ hpre)
  · intro h pre hpre
    refine hsound pre ?_
    -- the invariant, by induction on the calls made
    induction pre using List.reverseRecOn with
    | nil => exact hnil
    | append_singleton pre c ih =>
        exact hstep pre c (ih ((List.prefix_append pre [c]).trans hpre)) (h pre c hpre)

/-- A condition on every call, by the number of calls before it. -/
theorem forall_append_singleton_prefix {Q : List ι → ι → Prop} {cs : List ι} :
    (∀ pre c, pre ++ [c] <+: cs → Q pre c) ↔ ∀ n, (h : n < cs.length) → Q (cs.take n) cs[n] := by
  constructor
  · intro hall n h
    refine hall _ _ ?_
    rw [← List.take_succ_eq_append_getElem h]
    exact List.take_prefix (n + 1) cs
  · rintro hall pre c ⟨post, rfl⟩
    have hn : pre.length < (pre ++ [c] ++ post).length := by simp
    have hq := hall pre.length hn
    simpa using hq

end Sequence
