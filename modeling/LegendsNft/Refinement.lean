/-
**A refinement mapping between actors.**

An actor may be described twice: by a program that leaves to the scheduler when its jobs run, and by
one that says who starts them.  The second refines the first if each of its configurations shows one
of the first, and each of its segments is a segment there or changes nothing that is shown.  What
starts a segment may be of another kind in the two: a message that the one has sent to itself can be
a call from outside to the other.

A safety property is proved of the first program, which has more runs, and holds of the second.  A
liveness proof builds a run of the second, which is then one of the first.

Main definitions:

* `Actor.View` — how a configuration of one program shows one of another;
* `Actor.Refinement` — a refinement mapping;
* `Actor.Refinement.guard` — a condition on the shown segments;
* `Actor.Refinement.Shown` — how a step is shown.

Main results:

* `Actor.Refinement.step_call`, `Actor.Refinement.step_resume` — each step is shown;
* `Actor.Refinement.run` — **the runs of the refinement are runs of what it refines**.
-/

import LegendsNft.Actor

set_option relaxedAutoImplicit false
set_option autoImplicit false

universe u₁ u₂ u₃ u₄ u₅ u₆ v₁ v₂ v₃ v₄ v₆

namespace Actor

variable {σ : Type u₁} {κ : Type u₂} {ι : Type u₃} {ρ : Type u₄} {υ : Type u₅} {ε : Type u₆}
  {σ' : Type v₁} {κ' : Type v₂} {ι' : Type v₃} {ρ' : Type v₄} {ε' : Type v₆}

/-! ### What is shown -/

/-- How the states, the continuations and the events of one program show those of another. -/
structure View (σ' : Type v₁) (κ' : Type v₂) (ε' : Type v₆) (σ : Type u₁) (κ : Type u₂)
    (ε : Type u₆) where
  state : σ' → σ
  task : κ' → Option κ
  event : ε' → Option ε

namespace View

variable (V : View σ' κ' ε' σ κ ε)

/-- The outcome that is shown. -/
def outcome (o : Outcome σ' κ' ε') : Outcome σ κ ε :=
  ⟨V.state o.state, o.spawned.filterMap V.task, o.events.filterMap V.event⟩

/-- The configuration that is shown. -/
def config (c : Config σ' κ' ε') : Config σ κ ε :=
  ⟨V.state c.state, c.pool.filterMap V.task, c.history.filterMap V.event⟩

/-- A segment that changes nothing that is shown. -/
def Stutters (s : σ') (o : Outcome σ' κ' ε') : Prop := V.outcome o = ⟨V.state s, [], []⟩

/-- What a call must show. -/
def Called (P : Program σ κ ι ρ υ ε) (s : σ') (o : Outcome σ' κ' ε') : Option ι → Prop
  | none => V.Stutters s o
  | some i => P.call (V.state s) i = some (V.outcome o)

/-- What waking a continuation must show. -/
def Woken (P : Program σ κ ι ρ υ ε) (s : σ') (k : κ') (o : Outcome σ' κ' ε') :
    Option (Source κ ι ρ) → Prop
  | none => V.task k = none ∧ V.Stutters s o
  | some (.call i) => V.task k = none ∧ P.call (V.state s) i = some (V.outcome o)
  | some (.resume k₁ r) => V.task k = some k₁ ∧ P.resume (V.state s) k₁ r = some (V.outcome o)

variable {V} {pool : List κ'} {n : ℕ} {k : κ'}

/-- A continuation that is not shown is taken out unnoticed. -/
theorem filterMap_eraseIdx_of_none (hk : pool[n]? = some k) (hnone : V.task k = none) :
    (pool.eraseIdx n).filterMap V.task = pool.filterMap V.task := by
  obtain ⟨hn, rfl⟩ := List.getElem?_eq_some_iff.1 hk
  conv_rhs => rw [← List.take_append_drop n pool, List.drop_eq_getElem_cons hn]
  rw [List.eraseIdx_eq_take_drop_succ, List.filterMap_append, List.filterMap_append,
    List.filterMap_cons_none hnone]

variable (V) in
/-- How many of the first continuations are shown. -/
def position (pool : List κ') (n : ℕ) : ℕ := ((pool.take n).filterMap V.task).length

theorem position_mono {m : ℕ} (h : m ≤ n) : V.position pool m ≤ V.position pool n :=
  ((List.take_sublist_take_left h).filterMap V.task).length_le

/-- A continuation that is shown is taken out where it is shown. -/
theorem filterMap_eraseIdx_of_some {k₁ : κ} (hk : pool[n]? = some k) (hsome : V.task k = some k₁) :
    (pool.filterMap V.task)[V.position pool n]? = some k₁ ∧
      (pool.eraseIdx n).filterMap V.task =
        (pool.filterMap V.task).eraseIdx (V.position pool n) := by
  obtain ⟨hn, rfl⟩ := List.getElem?_eq_some_iff.1 hk
  have hsplit : pool.filterMap V.task =
      (pool.take n).filterMap V.task ++ k₁ :: (pool.drop (n + 1)).filterMap V.task := by
    conv_lhs => rw [← List.take_append_drop n pool, List.drop_eq_getElem_cons hn]
    rw [List.filterMap_append, List.filterMap_cons_some hsome]
  constructor
  · rw [hsplit, position, List.getElem?_append_right (le_refl _), Nat.sub_self]
    rfl
  · rw [hsplit, position, List.eraseIdx_append_of_length_le (le_refl _), Nat.sub_self,
      List.eraseIdx_eq_take_drop_succ, List.filterMap_append]
    rfl

end View

/-! ### Refinement mappings -/

/-- **A refinement mapping**: each segment shows a segment, or stutters. -/
structure Refinement (P' : Program σ' κ' ι' ρ' υ ε') (P : Program σ κ ι ρ υ ε) extends
    View σ' κ' ε' σ κ ε where
  input : ι' → Option ι
  /-- What starts the segment that is shown when a continuation is woken. -/
  wake : κ' → ρ' → Option (Source κ ι ρ)
  call : ∀ s i o, P'.call s i = some o → toView.Called P s o (input i)
  resume : ∀ s k r o, P'.resume s k r = some o → toView.Woken P s k o (wake k r)
  restart : ∀ s u o, P'.restart s u = some o → P.restart (state s) u = some (toView.outcome o)

namespace Refinement

variable {P' : Program σ' κ' ι' ρ' υ ε'} {P : Program σ κ ι ρ υ ε} (R : Refinement P' P)

/-- A condition on the segments that are shown. -/
def guard (G : Guard σ κ ι ρ υ ε) : Guard σ' κ' ι' ρ' υ ε' where
  call := fun c i => ∀ i₁ ∈ R.input i, G.call (R.config c) i₁
  resume := fun c k r => ∀ src ∈ R.wake k r, G.segment (R.config c) src
  restart := fun c u => G.restart (R.config c) u

section Decidable

variable {G : Guard σ κ ι ρ υ ε} [∀ c i, Decidable (G.call c i)]
  [∀ c k r, Decidable (G.resume c k r)] [∀ c u, Decidable (G.restart c u)]

instance decidableSegment (c : Config σ κ ε) : ∀ src, Decidable (G.segment c src)
  | .call i => inferInstanceAs (Decidable (G.call c i))
  | .resume k r => inferInstanceAs (Decidable (G.resume c k r))

instance (c : Config σ' κ' ε') (i : ι') : Decidable ((R.guard G).call c i) :=
  inferInstanceAs (Decidable (∀ i₁ ∈ R.input i, G.call (R.config c) i₁))

instance (c : Config σ' κ' ε') (k : κ') (r : ρ') : Decidable ((R.guard G).resume c k r) :=
  inferInstanceAs (Decidable (∀ src ∈ R.wake k r, G.segment (R.config c) src))

instance (c : Config σ' κ' ε') (u : υ) : Decidable ((R.guard G).restart c u) :=
  inferInstanceAs (Decidable (G.restart (R.config c) u))

end Decidable

variable {R} {G : Guard σ κ ι ρ υ ε} {c c' : Config σ' κ' ε'}

/-- The configuration a segment leads to. -/
theorem config_append (s : σ') (pool spawned : List κ') (es h : List ε') :
    R.config ⟨s, pool ++ spawned, es ++ h⟩ = ⟨R.state s,
      pool.filterMap R.task ++ spawned.filterMap R.task,
      es.filterMap R.event ++ h.filterMap R.event⟩ := by
  rw [View.config, List.filterMap_append, List.filterMap_append]

/-- A segment that stutters shows nothing. -/
theorem config_of_stutters {o : Outcome σ' κ' ε'} {pool : List κ'} (h : R.Stutters c.state o)
    (hpool : pool.filterMap R.task = c.pool.filterMap R.task) :
    R.config ⟨o.state, pool ++ o.spawned, o.events ++ c.history⟩ = R.config c := by
  rw [config_append, hpool, show R.state o.state = _ from congrArg Outcome.state h,
    show o.spawned.filterMap R.task = _ from congrArg Outcome.spawned h,
    show o.events.filterMap R.event = _ from congrArg Outcome.events h, List.append_nil]
  rfl

variable (R G) in
/-- How a step is shown: as the step from this source, allowed by the guard, or not at all. -/
def Shown (c c' : Config σ' κ' ε') (n : ℕ) : Option (Source κ ι ρ) → Prop
  | none => R.config c' = R.config c
  | some (.call i) =>
      G.call (R.config c) i ∧ P.step (R.config c) (.call i) = some (R.config c')
  | some (.resume k r) =>
      (R.config c).pool[R.position c.pool n]? = some k ∧ G.resume (R.config c) k r ∧
        P.step (R.config c) (.resume (R.position c.pool n) r) = some (R.config c')

/-- **A call is shown.** -/
theorem step_call {i : ι'} (ha : (R.guard G).call c i) (h : P'.step c (.call i) = some c') :
    R.Shown G c c' 0 ((R.input i).map .call) := by
  obtain ⟨o, ho, rfl⟩ := Option.map_eq_some_iff.1 h
  have hcall := R.call _ _ _ ho
  cases hi : R.input i with
  | none =>
      rw [hi] at hcall
      exact config_of_stutters hcall rfl
  | some i₁ =>
      rw [hi] at hcall
      refine ⟨ha i₁ hi, ?_⟩
      rw [Program.step, show P.call (R.config c).state i₁ = _ from hcall, config_append]
      rfl

/-- **A resumption is shown.** -/
theorem step_resume {n : ℕ} {k : κ'} {r : ρ'} (hk : c.pool[n]? = some k)
    (ha : (R.guard G).resume c k r) (h : P'.step c (.resume n r) = some c') :
    R.Shown G c c' n (R.wake k r) := by
  simp only [Program.step, hk] at h
  obtain ⟨o, ho, rfl⟩ := Option.map_eq_some_iff.1 h
  have hresume := R.resume _ _ _ _ ho
  cases hsrc : R.wake k r with
  | none =>
      rw [hsrc] at hresume
      exact config_of_stutters hresume.2 (View.filterMap_eraseIdx_of_none hk hresume.1)
  | some src =>
      rw [hsrc] at hresume
      cases src with
      | call i =>
          obtain ⟨hnone, hcall⟩ := hresume
          refine ⟨ha _ hsrc, ?_⟩
          rw [Program.step, show P.call (R.config c).state i = _ from hcall, config_append,
            View.filterMap_eraseIdx_of_none hk hnone]
          rfl
      | resume k₁ r₁ =>
          obtain ⟨hsome, hwoken⟩ := hresume
          obtain ⟨hget, herase⟩ := View.filterMap_eraseIdx_of_some hk hsome
          have hshown : (R.config c).pool[R.position c.pool n]? = some k₁ := hget
          refine ⟨hget, ha _ hsrc, ?_⟩
          rw [config_append, herase]
          simp only [Program.step, hshown,
            show P.resume (R.config c).state k₁ r₁ = _ from hwoken, Option.map_some]
          rfl

/-- **A restart is shown.** -/
theorem step_restart {u : υ} (h : P'.step c (.restart u) = some c') :
    P.step (R.config c) (.restart u) = some (R.config c') := by
  obtain ⟨o, ho, rfl⟩ := Option.map_eq_some_iff.1 h
  rw [Program.step, show P.restart (R.config c).state u = _ from R.restart _ _ _ ho]
  exact congrArg some (config_append o.state [] o.spawned o.events c.history).symm

/-- A step that is shown goes on with a run. -/
theorem Shown.run {c₀ : Config σ κ ε} {n : ℕ} {src : Option (Source κ ι ρ)}
    (h : R.Shown G c c' n src) (hrun : Run P G c₀ (R.config c)) : Run P G c₀ (R.config c') := by
  rcases src with - | i | ⟨k, r⟩
  · exact (show R.config c' = R.config c from h) ▸ hrun
  · exact hrun.tail (.call i) h.1 h.2
  · refine hrun.tail (.resume _ r) (fun k' hk' => ?_) h.2.2
    cases h.1.symm.trans hk'
    exact h.2.1

/-- **The runs of the refinement are runs of what it refines.** -/
theorem run (h : Run P' (R.guard G) c c') : Run P G (R.config c) (R.config c') := by
  induction h with
  | refl => exact Run.refl _
  | tail a _ ha hs ih =>
      cases a with
      | call i => exact (step_call ha hs).run ih
      | restart u => exact ih.tail (.restart u) ha (step_restart hs)
      | resume n r =>
          rcases P'.step_cases hs with
            ⟨i, o, heq, -⟩ | ⟨n', r', k, o, heq, hk, -⟩ | ⟨u, o, heq, -⟩
          · cases heq
          · cases heq
            exact (step_resume hk (ha k hk) hs).run ih
          · cases heq

end Refinement

end Actor
