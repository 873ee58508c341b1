/-
**Serving calls while others stay suspended.**

A liveness proof builds a run, and says little unless it also says what the run does besides: a goal
may be reached by somebody else's call.  So here are the runs in which exactly these calls are made,
one after the other, the actor is not restarted, and the continuations that were suspended before
are not woken.  What is woken are the messages and the replies that the calls have led to.

In a refinement, what is a call to the program it refines may be the handling of a message that the
actor has sent to itself.  The calls of a run are therefore read off its segments by a map.

Main definitions:

* `Actor.Serves` — a run that serves these calls;
* `Actor.Source.called`, `Actor.Refinement.called` — the call that a segment is, or shows.

Main results:

* `Actor.Serves.run` — it is a run, for any condition on restarts;
* `Actor.Serves.take_pool` — **what was suspended before is left alone**;
* `Actor.Serves.call_behind`, `Actor.Serves.resume_at`, `Actor.Serves.handle_last` — building a run;
* `Actor.Refinement.serves` — **a refinement serves the calls it shows**.
-/

import LegendsNft.Refinement

set_option relaxedAutoImplicit false
set_option autoImplicit false

universe u₁ u₂ u₃ u₄ u₅ u₆ v₁ v₂ v₃ v₄ v₆ w

namespace Actor

variable {σ : Type u₁} {κ : Type u₂} {ι : Type u₃} {ρ : Type u₄} {υ : Type u₅} {ε : Type u₆}
  {α : Type w}

/-! ### Runs that serve calls -/

/-- `Serves P G f m c as c'`: a run from `c` to `c'`, each of whose segments the guard allows, in
which the calls `as` are made, the actor is not restarted, and none of the first `m` continuations
is woken.  The map `f` says which segments are calls. -/
inductive Serves (P : Program σ κ ι ρ υ ε) (G : Guard σ κ ι ρ υ ε) (f : Source κ ι ρ → Option α)
    (m : ℕ) : Config σ κ ε → List α → Config σ κ ε → Prop
  | refl (c : Config σ κ ε) : Serves P G f m c [] c
  | call {c c' c'' : Config σ κ ε} {as : List α} {i : ι} (allowed : G.call c i)
      (step : P.step c (.call i) = some c') (rest : Serves P G f m c' as c'') :
      Serves P G f m c ((f (.call i)).toList ++ as) c''
  | resume {c c' c'' : Config σ κ ε} {as : List α} {n : ℕ} {k : κ} {r : ρ} (behind : m ≤ n)
      (get : c.pool[n]? = some k) (allowed : G.resume c k r)
      (step : P.step c (.resume n r) = some c') (rest : Serves P G f m c' as c'') :
      Serves P G f m c ((f (.resume k r)).toList ++ as) c''

/-- The call that a source is. -/
def Source.called : Source κ ι ρ → Option ι
  | .call i => some i
  | .resume _ _ => none

namespace Serves

variable {P : Program σ κ ι ρ υ ε} {G : Guard σ κ ι ρ υ ε} {f : Source κ ι ρ → Option α} {m : ℕ}
  {c c' c'' : Config σ κ ε} {as bs : List α}

theorem trans (h : Serves P G f m c as c') (h' : Serves P G f m c' bs c'') :
    Serves P G f m c (as ++ bs) c'' := by
  induction h with
  | refl => exact h'
  | call allowed step _ ih =>
      rw [List.append_assoc]
      exact .call allowed step (ih h')
  | resume behind get allowed step _ ih =>
      rw [List.append_assoc]
      exact .resume behind get allowed step (ih h')

/-- **A run**, for any condition on restarts. -/
theorem run {G' : Guard σ κ ι ρ υ ε} (hcall : ∀ c i, G.call c i → G'.call c i)
    (hresume : ∀ c k r, G.resume c k r → G'.resume c k r) (h : Serves P G f m c as c') :
    Run P G' c c' := by
  induction h with
  | refl => exact Run.refl _
  | @call _ _ _ _ i allowed step _ ih => exact Run.head (.call i) (hcall _ _ allowed) step ih
  | @resume _ _ _ _ n _ r _ get allowed step _ ih =>
      refine Run.head (.resume n r) (fun k' hk' => ?_) step ih
      cases get.symm.trans hk'
      exact hresume _ _ _ allowed

theorem le_length_eraseIdx_append {l l' : List κ} {n : ℕ} (hm : m ≤ n) (hn : n < l.length) :
    m ≤ (l.eraseIdx n ++ l').length := by
  rw [List.length_append, List.length_eraseIdx_of_lt hn]
  omega

/-- Taking a continuation out behind the first ones, and adding some, leaves them alone. -/
theorem take_eraseIdx_append {l l' : List κ} {n : ℕ} (hm : m ≤ n) (hn : n < l.length) :
    (l.eraseIdx n ++ l').take m = l.take m := by
  have hlen : m ≤ (l.eraseIdx n).length := by
    rw [List.length_eraseIdx_of_lt hn]
    omega
  rw [List.take_append_of_le_length hlen, List.take_eraseIdx_eq_take_of_le _ _ _ hm]

/-- **What was suspended before is left alone.** -/
theorem take_pool (h : Serves P G f m c as c') (hm : m ≤ c.pool.length) :
    c'.pool.take m = c.pool.take m ∧ m ≤ c'.pool.length := by
  induction h with
  | refl => exact ⟨rfl, hm⟩
  | @call c _ _ _ _ _ step _ ih =>
      obtain ⟨o, -, rfl⟩ := Option.map_eq_some_iff.1 step
      have hlen : m ≤ (c.pool ++ o.spawned).length := by
        rw [List.length_append]
        exact Nat.le_add_right_of_le hm
      obtain ⟨htake, hle⟩ := ih hlen
      exact ⟨htake.trans (List.take_append_of_le_length hm), hle⟩
  | resume behind get _ step _ ih =>
      simp only [Program.step, get] at step
      obtain ⟨o, -, rfl⟩ := Option.map_eq_some_iff.1 step
      obtain ⟨hn, -⟩ := List.getElem?_eq_some_iff.1 get
      obtain ⟨htake, hle⟩ := ih (le_length_eraseIdx_append behind hn)
      exact ⟨htake.trans (take_eraseIdx_append behind hn), hle⟩

/-! ### Building a run -/

variable {s : σ} {p : List κ} {h : List ε} {o : Outcome σ κ ε} {d : Config σ κ ε}

/-- A run that begins with a call. -/
theorem call_behind {i : ι} {a : α} (hf : f (.call i) = some a) (ho : P.call s i = some o)
    (hg : G.call ⟨s, p, h⟩ i)
    (hrun : Serves P G f m ⟨o.state, p ++ o.spawned, o.events ++ h⟩ as d) :
    Serves P G f m ⟨s, p, h⟩ (a :: as) d := by
  have hstep : P.step ⟨s, p, h⟩ (.call i) = some ⟨o.state, p ++ o.spawned, o.events ++ h⟩ := by
    rw [Program.step, ho]
    rfl
  have hcall := Serves.call hg hstep hrun
  rw [hf] at hcall
  exact hcall

/-- Waking a continuation behind the first ones. -/
theorem resume_behind {q : List κ} {k : κ} {r : ρ} (hm : m ≤ p.length)
    (ho : P.resume s k r = some o) (hg : G.resume ⟨s, p ++ k :: q, h⟩ k r)
    (hrun : Serves P G f m ⟨o.state, p ++ q ++ o.spawned, o.events ++ h⟩ as d) :
    Serves P G f m ⟨s, p ++ k :: q, h⟩ ((f (.resume k r)).toList ++ as) d := by
  have hget : (p ++ k :: q)[p.length]? = some k := by
    rw [List.getElem?_append_right (le_refl _), Nat.sub_self]
    rfl
  have herase : (p ++ k :: q).eraseIdx p.length = p ++ q := by
    rw [List.eraseIdx_append_of_length_le (le_refl _), Nat.sub_self]
    rfl
  refine .resume hm hget hg ?_ hrun
  simp only [Program.step, hget, ho, Option.map_some, herase]

/-- A run that begins with waking a continuation between others. -/
theorem resume_at {q : List κ} {k : κ} {r : ρ} (hf : f (.resume k r) = none) (hm : m ≤ p.length)
    (ho : P.resume s k r = some o) (hg : G.resume ⟨s, p ++ k :: q, h⟩ k r)
    (hrun : Serves P G f m ⟨o.state, p ++ q ++ o.spawned, o.events ++ h⟩ as d) :
    Serves P G f m ⟨s, p ++ k :: q, h⟩ as d := by
  have hresume := resume_behind hm ho hg hrun
  rw [hf] at hresume
  exact hresume

/-- A run that begins with waking the last continuation. -/
theorem resume_last {k : κ} {r : ρ} (hf : f (.resume k r) = none) (hm : m ≤ p.length)
    (ho : P.resume s k r = some o) (hg : G.resume ⟨s, p ++ [k], h⟩ k r)
    (hrun : Serves P G f m ⟨o.state, p ++ o.spawned, o.events ++ h⟩ as d) :
    Serves P G f m ⟨s, p ++ [k], h⟩ as d :=
  resume_at hf hm ho hg ((List.append_nil p).symm ▸ hrun)

/-- A run that begins with handling the last message, which is a call. -/
theorem handle_last {k : κ} {r : ρ} {a : α} (hf : f (.resume k r) = some a) (hm : m ≤ p.length)
    (ho : P.resume s k r = some o) (hg : G.resume ⟨s, p ++ [k], h⟩ k r)
    (hrun : Serves P G f m ⟨o.state, p ++ o.spawned, o.events ++ h⟩ as d) :
    Serves P G f m ⟨s, p ++ [k], h⟩ (a :: as) d := by
  have hresume := resume_behind hm ho hg ((List.append_nil p).symm ▸ hrun)
  rw [hf] at hresume
  exact hresume

end Serves

/-! ### Refinements -/

namespace Refinement

variable {σ' : Type v₁} {κ' : Type v₂} {ι' : Type v₃} {ρ' : Type v₄} {ε' : Type v₆}
  {P' : Program σ' κ' ι' ρ' υ ε'} {P : Program σ κ ι ρ υ ε} (R : Refinement P' P)

/-- The call that a segment shows. -/
def called : Source κ' ι' ρ' → Option ι
  | .call i => R.input i
  | .resume k r => (R.wake k r).bind Source.called

variable {R} {G : Guard σ κ ι ρ υ ε} {m : ℕ} {c c' : Config σ' κ' ε'} {as : List ι}

/-- A step that is shown begins a run. -/
theorem Shown.serves {d : Config σ κ ε} {n : ℕ} {src : Option (Source κ ι ρ)}
    (h : R.Shown G c c' n src) (hm : ∀ k r, src = some (.resume k r) → m ≤ R.position c.pool n)
    (hrest : Serves P G Source.called m (R.config c') as d) :
    Serves P G Source.called m (R.config c) ((src.bind Source.called).toList ++ as) d := by
  rcases src with - | i | ⟨k, r⟩
  · exact (show R.config c' = R.config c from h) ▸ hrest
  · exact .call h.1 h.2 hrest
  · exact .resume (hm k r rfl) h.1 h.2.1 h.2.2 hrest

/-- **A refinement serves the calls it shows.** -/
theorem serves (h : Serves P' (R.guard G) R.called m c as c') (hm : m ≤ c.pool.length) :
    Serves P G Source.called (R.position c.pool m) (R.config c) as (R.config c') := by
  induction h with
  | refl => exact .refl _
  | @call c c' c'' as i allowed step rest ih =>
      have hcalled : R.called (.call i) =
          ((R.input i).map Source.call : Option (Source κ ι ρ)).bind Source.called := by
        rw [called]
        cases R.input i <;> rfl
      obtain ⟨o, -, rfl⟩ := Option.map_eq_some_iff.1 step
      have hpool : R.position (c.pool ++ o.spawned) m = R.position c.pool m := by
        rw [View.position, List.take_append_of_le_length hm, View.position]
      have hlen : m ≤ (c.pool ++ o.spawned).length := by
        rw [List.length_append]
        exact Nat.le_add_right_of_le hm
      rw [hcalled]
      refine (step_call allowed step).serves (fun k r hsrc => ?_) (hpool ▸ ih hlen)
      cases hi : R.input i <;> simp [hi] at hsrc
  | @resume c c' c'' as n k r behind get allowed step rest ih =>
      have hstep := step_resume get allowed step
      simp only [Program.step, get] at step
      obtain ⟨o, -, rfl⟩ := Option.map_eq_some_iff.1 step
      obtain ⟨hn, -⟩ := List.getElem?_eq_some_iff.1 get
      have hpool : R.position (c.pool.eraseIdx n ++ o.spawned) m = R.position c.pool m := by
        rw [View.position, Serves.take_eraseIdx_append behind hn, View.position]
      exact hstep.serves (fun _ _ _ => View.position_mono behind)
        (hpool ▸ ih (Serves.le_length_eraseIdx_append behind hn))

end Refinement

end Actor
