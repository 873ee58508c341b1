/-
**Asynchronous actors: atomic segments, suspended continuations and a history.**

An asynchronous actor handles one message at a time.  Handling a message runs one *segment* of
code, from the start of a call or from a resumption up to the next suspension; the segment is
atomic, and what it leaves behind is a new state together with the continuations it suspended or
sent to itself.  Between two segments anything may happen, so a property of the actor has to hold
for every order in which the suspended continuations are woken.

This module fixes that notion once, for arbitrary types of states, continuations, calls, wake-ups
and events.  A `Actor.Program` says what a segment does; a `Actor.Config` is the state, the pool of
suspended continuations and the events seen so far; a `Actor.Guard` restricts which segments a run
may execute, by a condition on the configuration the segment starts from.

Main definitions:

* `Actor.Outcome`, `Actor.Program`, `Actor.Config`, `Actor.Act` — segments, configurations and the
  choices of the scheduler;
* `Actor.Program.step`, `Actor.Program.exec` — one choice, and a list of choices, executably;
* `Actor.Source`, `Actor.Program.segment` — what starts a segment, and the segment;
* `Actor.Guard`, `Actor.Run` — runs all of whose segments satisfy a condition;
* `Actor.Program.Local` — the premises of a thread-modular invariant proof.

Main results:

* `Actor.Run.induct` — an invariant preserved by every guarded step holds along runs;
* `Actor.Run.multiset_induct` — the same with the pool seen as a multiset, which is how a quantity
  spread over the suspended continuations is accounted for;
* `Actor.Run.exists_origin`, `Actor.Run.exists_spawn` — an event of the history, or a suspended
  continuation, has a step that added it;
* `Actor.Run.congr` — guards that agree in every reached configuration have the same runs;
* `Actor.Run.assume` — what has been proved of every reached configuration may be assumed in the
  next proof;
* `Actor.Run.strengthen` — a property of every state of a run is turned into a condition on its
  steps;
* `Actor.Run.local_induct` — **the thread-modular rule**: an invariant of the state and an
  assertion about each suspended continuation, each stable under every segment;
* `Actor.run_of_exec` — an executed list of allowed choices is a run; whether a list is allowed is
  decidable when the guard is.
-/

import Mathlib.Data.Multiset.AddSub
import Mathlib.Data.List.Basic

set_option relaxedAutoImplicit false
set_option autoImplicit false

universe u₁ u₂ u₃ u₄ u₅ u₆

namespace Actor

variable {σ : Type u₁} {κ : Type u₂} {ι : Type u₃} {ρ : Type u₄} {υ : Type u₅} {ε : Type u₆}

/-! ### Segments and configurations -/

/-- What one segment leaves behind: the state, the continuations it suspended or sent to itself,
and the events it caused, the latest first. -/
structure Outcome (σ : Type u₁) (κ : Type u₂) (ε : Type u₆) where
  state : σ
  spawned : List κ
  events : List ε

/-- A program: what the first segment of a call does, what a suspended continuation does when it
is woken, and what a restart of the actor does.  `none` means that the scheduler cannot make this
choice. -/
structure Program (σ : Type u₁) (κ : Type u₂) (ι : Type u₃) (ρ : Type u₄) (υ : Type u₅)
    (ε : Type u₆) where
  call : σ → ι → Option (Outcome σ κ ε)
  resume : σ → κ → ρ → Option (Outcome σ κ ε)
  restart : σ → υ → Option (Outcome σ κ ε)

/-- A configuration: the state, the suspended continuations, and the history, the latest event
first. -/
structure Config (σ : Type u₁) (κ : Type u₂) (ε : Type u₆) where
  state : σ
  pool : List κ
  history : List ε

/-- A choice of the scheduler. -/
inductive Act (ι : Type u₃) (ρ : Type u₄) (υ : Type u₅)
  /-- A new call arrives. -/
  | call (i : ι)
  /-- The `n`-th suspended continuation is woken. -/
  | resume (n : ℕ) (r : ρ)
  /-- The actor is restarted; no suspended continuation survives. -/
  | restart (u : υ)

/-- One choice of the scheduler. -/
def Program.step (P : Program σ κ ι ρ υ ε) (c : Config σ κ ε) :
    Act ι ρ υ → Option (Config σ κ ε)
  | .call i => (P.call c.state i).map fun o =>
      ⟨o.state, c.pool ++ o.spawned, o.events ++ c.history⟩
  | .resume n r =>
      match c.pool[n]? with
      | none => none
      | some k => (P.resume c.state k r).map fun o =>
          ⟨o.state, c.pool.eraseIdx n ++ o.spawned, o.events ++ c.history⟩
  | .restart u => (P.restart c.state u).map fun o => ⟨o.state, o.spawned, o.events ++ c.history⟩

/-- A list of choices. -/
def Program.exec (P : Program σ κ ι ρ υ ε) : Config σ κ ε → List (Act ι ρ υ) →
    Option (Config σ κ ε)
  | c, [] => some c
  | c, a :: as => (P.step c a).bind fun c' => P.exec c' as

/-- What starts a segment, other than a restart: a call, or a continuation and its wake-up. -/
inductive Source (κ : Type u₂) (ι : Type u₃) (ρ : Type u₄)
  | call (i : ι)
  | resume (k : κ) (r : ρ)

/-- The continuation a segment takes out of the pool. -/
def Source.task : Source κ ι ρ → Multiset κ
  | .call _ => 0
  | .resume k _ => {k}

/-- The segment a source starts. -/
def Program.segment (P : Program σ κ ι ρ υ ε) (s : σ) : Source κ ι ρ → Option (Outcome σ κ ε)
  | .call i => P.call s i
  | .resume k r => P.resume s k r

/-- What starts the segment that a choice runs, unless it is a restart. -/
def Config.source (c : Config σ κ ε) : Act ι ρ υ → Option (Source κ ι ρ)
  | .call i => some (.call i)
  | .resume n r => c.pool[n]?.map fun k => .resume k r
  | .restart _ => none

/-- The three forms of a step, each with the segment it runs. -/
theorem Program.step_cases {P : Program σ κ ι ρ υ ε} {c c' : Config σ κ ε} {a : Act ι ρ υ}
    (h : P.step c a = some c') :
    (∃ i o, a = .call i ∧ P.call c.state i = some o ∧
      c' = ⟨o.state, c.pool ++ o.spawned, o.events ++ c.history⟩) ∨
    (∃ n r k o, a = .resume n r ∧ c.pool[n]? = some k ∧ P.resume c.state k r = some o ∧
      c' = ⟨o.state, c.pool.eraseIdx n ++ o.spawned, o.events ++ c.history⟩) ∨
    (∃ u o, a = .restart u ∧ P.restart c.state u = some o ∧
      c' = ⟨o.state, o.spawned, o.events ++ c.history⟩) := by
  cases a with
  | call i =>
      obtain ⟨o, ho, rfl⟩ := Option.map_eq_some_iff.1 h
      exact Or.inl ⟨i, o, rfl, ho, rfl⟩
  | resume n r =>
      rw [Program.step] at h
      cases hk : c.pool[n]? with
      | none => simp [hk] at h
      | some k =>
          rw [hk] at h
          obtain ⟨o, ho, rfl⟩ := Option.map_eq_some_iff.1 h
          exact Or.inr (Or.inl ⟨n, r, k, o, rfl, hk, ho, rfl⟩)
  | restart u =>
      obtain ⟨o, ho, rfl⟩ := Option.map_eq_some_iff.1 h
      exact Or.inr (Or.inr ⟨u, o, rfl, ho, rfl⟩)

/-- Waking a continuation of the pool runs its segment. -/
theorem eq_of_step_resume {P : Program σ κ ι ρ υ ε} {c c' : Config σ κ ε} {n : ℕ} {k : κ} {r : ρ}
    {o : Outcome σ κ ε} (h : P.step c (.resume n r) = some c') (hk : c.pool[n]? = some k)
    (ho : P.resume c.state k r = some o) :
    c' = ⟨o.state, c.pool.eraseIdx n ++ o.spawned, o.events ++ c.history⟩ := by
  simp only [Program.step, hk, ho, Option.map_some, Option.some_inj] at h
  exact h.symm

/-! ### Guarded runs -/

/-- A condition on the segments a run may execute, read off the configuration the segment starts
from; for a resumption also off the continuation that is woken. -/
structure Guard (σ : Type u₁) (κ : Type u₂) (ι : Type u₃) (ρ : Type u₄) (υ : Type u₅)
    (ε : Type u₆) where
  call : Config σ κ ε → ι → Prop
  resume : Config σ κ ε → κ → ρ → Prop
  restart : Config σ κ ε → υ → Prop

/-- The guard that allows every segment. -/
def Guard.any : Guard σ κ ι ρ υ ε := ⟨fun _ _ => True, fun _ _ _ => True, fun _ _ => True⟩

/-- A guard under an assumption on the configurations. -/
def Guard.assuming (G : Guard σ κ ι ρ υ ε) (J : Config σ κ ε → Prop) : Guard σ κ ι ρ υ ε :=
  ⟨fun c i => J c ∧ G.call c i, fun c k r => J c ∧ G.resume c k r, fun c u => J c ∧ G.restart c u⟩

/-- Both conditions. -/
def Guard.and (G H : Guard σ κ ι ρ υ ε) : Guard σ κ ι ρ υ ε :=
  ⟨fun c i => G.call c i ∧ H.call c i, fun c k r => G.resume c k r ∧ H.resume c k r,
    fun c u => G.restart c u ∧ H.restart c u⟩

/-- Whether a guard allows the segment of a source. -/
def Guard.segment (G : Guard σ κ ι ρ υ ε) (c : Config σ κ ε) : Source κ ι ρ → Prop
  | .call i => G.call c i
  | .resume k r => G.resume c k r

/-- Whether a guard allows a choice in a configuration. -/
def Guard.Allows (G : Guard σ κ ι ρ υ ε) (c : Config σ κ ε) : Act ι ρ υ → Prop
  | .call i => G.call c i
  | .resume n r => ∀ k, c.pool[n]? = some k → G.resume c k r
  | .restart u => G.restart c u

theorem Guard.segment_assuming {G : Guard σ κ ι ρ υ ε} {J : Config σ κ ε → Prop}
    {c : Config σ κ ε} {src : Source κ ι ρ} :
    (G.assuming J).segment c src ↔ J c ∧ G.segment c src := by
  cases src <;> exact Iff.rfl

theorem Guard.segment_and {G H : Guard σ κ ι ρ υ ε} {c : Config σ κ ε} {src : Source κ ι ρ} :
    (G.and H).segment c src ↔ G.segment c src ∧ H.segment c src := by
  cases src <;> exact Iff.rfl

/-- Two guards allow the same segments in a configuration. -/
structure Guard.Agree (G H : Guard σ κ ι ρ υ ε) (c : Config σ κ ε) : Prop where
  call : ∀ i, G.call c i ↔ H.call c i
  resume : ∀ k ∈ c.pool, ∀ r, G.resume c k r ↔ H.resume c k r
  restart : ∀ u, G.restart c u ↔ H.restart c u

theorem Guard.Agree.allows_iff {G H : Guard σ κ ι ρ υ ε} {c : Config σ κ ε} (h : G.Agree H c)
    {a : Act ι ρ υ} : G.Allows c a ↔ H.Allows c a := by
  cases a with
  | call i => exact h.call i
  | resume n r =>
      exact forall₂_congr fun k hk => h.resume k (List.mem_of_getElem? hk) r
  | restart u => exact h.restart u

/-- `Run P G c c'`: some choices, each allowed by the guard, lead from `c` to `c'`. -/
inductive Run (P : Program σ κ ι ρ υ ε) (G : Guard σ κ ι ρ υ ε) : Config σ κ ε → Config σ κ ε → Prop
  | refl (c : Config σ κ ε) : Run P G c c
  | tail {c c' c'' : Config σ κ ε} (a : Act ι ρ υ) :
      Run P G c c' → G.Allows c' a → P.step c' a = some c'' → Run P G c c''

variable {P : Program σ κ ι ρ υ ε} {G : Guard σ κ ι ρ υ ε}

namespace Run

theorem trans {c c' c'' : Config σ κ ε} (h : Run P G c c') (h' : Run P G c' c'') :
    Run P G c c'' := by
  induction h' with
  | refl => exact h
  | tail a _ ha hs ih => exact ih.tail a ha hs

theorem head {c c' c'' : Config σ κ ε} (a : Act ι ρ υ) (ha : G.Allows c a)
    (hs : P.step c a = some c') (h : Run P G c' c'') : Run P G c c'' :=
  ((Run.refl c).tail a ha hs).trans h

theorem mono {G' : Guard σ κ ι ρ υ ε} {c c' : Config σ κ ε}
    (hG : ∀ d a, G.Allows d a → G'.Allows d a) (h : Run P G c c') : Run P G' c c' := by
  induction h with
  | refl => exact Run.refl _
  | tail a _ ha hs ih => exact ih.tail a (hG _ a ha) hs

/-- **Guards that agree in every reached configuration** have the same runs. -/
theorem congr {G' : Guard σ κ ι ρ υ ε} {c c' : Config σ κ ε}
    (hG : ∀ d, Run P G c d → G.Agree G' d) : Run P G c c' ↔ Run P G' c c' := by
  constructor
  · intro h
    induction h with
    | refl => exact Run.refl _
    | @tail d d' a hd ha hs ih => exact ih.tail a ((hG d hd).allows_iff.1 ha) hs
  · intro h
    induction h with
    | refl => exact Run.refl _
    | @tail d d' a _ ha hs ih =>
        -- by the induction hypothesis the configuration is reached under the first guard
        exact ih.tail a ((hG d ih).allows_iff.2 ha) hs

/-- **What holds in every reached configuration may be assumed of every step.** -/
theorem assume {J : Config σ κ ε → Prop} {c c' : Config σ κ ε}
    (hJ : ∀ d, Run P G c d → J d) (h : Run P G c c') : Run P (G.assuming J) c c' := by
  induction h with
  | refl => exact Run.refl _
  | @tail d d' a hd ha hs ih =>
      refine ih.tail a ?_ hs
      cases a with
      | call i => exact ⟨hJ d hd, ha⟩
      | resume n r => exact fun k hk => ⟨hJ d hd, ha k hk⟩
      | restart u => exact ⟨hJ d hd, ha⟩

/-- **A property of every state of a run** makes its steps meet any condition that the property
before and after a step implies. -/
theorem strengthen {G' : Guard σ κ ι ρ υ ε} {J : Config σ κ ε → Prop}
    {c c' : Config σ κ ε} (h : Run P (G.assuming J) c c') (hc' : J c')
    (hstep : ∀ d a d', Run P (G.assuming J) c d → J d → J d' → G.Allows d a →
      P.step d a = some d' → G'.Allows d a) : Run P G' c c' := by
  induction h with
  | refl => exact Run.refl _
  | @tail d d' a hd ha hs ih =>
      -- the step is made in some state, where the property holds by the guard
      have hJ : J d ∧ G.Allows d a := by
        cases a with
        | call i => exact ha
        | restart u => exact ha
        | resume n r =>
            rcases P.step_cases hs with
              ⟨i, o, heq, -⟩ | ⟨n', r', k, o, heq, hk, -⟩ | ⟨u, o, heq, -⟩
            · simp at heq
            · cases heq
              exact ⟨(ha k hk).1, fun k' hk' => (ha k' hk').2⟩
            · simp at heq
      exact (ih hJ.1).tail a (hstep d a d' hd hJ.1 hc' hJ.2 hs) hs

/-- **Invariant induction.** -/
theorem induct {I : Config σ κ ε → Prop}
    (hstep : ∀ c a c', I c → G.Allows c a → P.step c a = some c' → I c')
    {c c' : Config σ κ ε} (h : Run P G c c') (hc : I c) : I c' := by
  induction h with
  | refl => exact hc
  | tail a _ ha hs ih => exact hstep _ a _ ih ha hs

/-- **Where an event comes from**: a run at whose end the history has an event that it did not have
at the beginning has a step that adds it. -/
theorem exists_origin {c c' : Config σ κ ε} {e : ε} (h : Run P G c c') (he : e ∈ c'.history)
    (hnew : e ∉ c.history) :
    ∃ d a d', Run P G c d ∧ G.Allows d a ∧ P.step d a = some d' ∧ Run P G d' c' ∧
      e ∉ d.history ∧ e ∈ d'.history := by
  induction h with
  | refl => exact absurd he hnew
  | @tail d d' a hd ha hs ih =>
      by_cases hold : e ∈ d.history
      · obtain ⟨d₁, a₁, d₂, hrun, ha₁, hs₁, hrest, hbefore, hafter⟩ := ih hold
        exact ⟨d₁, a₁, d₂, hrun, ha₁, hs₁, hrest.tail a ha hs, hbefore, hafter⟩
      · exact ⟨d, a, d', hd, ha, hs, Run.refl d', hold, he⟩

/-- **Where a suspended continuation comes from**: a run at whose end a continuation is suspended
that was not at the beginning has a step that added it. -/
theorem exists_spawn {c c' : Config σ κ ε} {k : κ} (h : Run P G c c') (hk : k ∈ c'.pool)
    (hnew : k ∉ c.pool) :
    ∃ d a d', Run P G c d ∧ P.step d a = some d' ∧ Run P G d' c' ∧ k ∉ d.pool ∧ k ∈ d'.pool := by
  induction h with
  | refl => exact absurd hk hnew
  | @tail d d' a hd ha hs ih =>
      by_cases hold : k ∈ d.pool
      · obtain ⟨d₁, a₁, d₂, hrun, hs₁, hrest, hbefore, hafter⟩ := ih hold
        exact ⟨d₁, a₁, d₂, hrun, hs₁, hrest.tail a ha hs, hbefore, hafter⟩
      · exact ⟨d, a, d', hd, hs, Run.refl d', hold, hk⟩

/-- The pool as a multiset: taking the `n`-th continuation out of the pool splits it off. -/
theorem pool_eq_cons {l : List κ} {n : ℕ} {k : κ} (h : l[n]? = some k) :
    (l : Multiset κ) = k ::ₘ (l.eraseIdx n : Multiset κ) := by
  obtain ⟨hn, rfl⟩ := List.getElem?_eq_some_iff.1 h
  rw [Multiset.cons_coe]
  exact Multiset.coe_eq_coe.2 (List.getElem_cons_eraseIdx_perm hn).symm

/-- **Invariants of the pool as a multiset.**  A segment takes its continuation out of the pool and
adds the continuations it spawns; a restart starts from nothing. -/
theorem multiset_induct {J : σ → List ε → Multiset κ → Prop}
    (hseg : ∀ c src m o, (c.pool : Multiset κ) = src.task + m →
      J c.state c.history (src.task + m) → G.segment c src → P.segment c.state src = some o →
      J o.state (o.events ++ c.history) (m + o.spawned))
    (hrestart : ∀ c u o, J c.state c.history c.pool → G.restart c u →
      P.restart c.state u = some o → J o.state (o.events ++ c.history) o.spawned)
    {c c' : Config σ κ ε} (h : Run P G c c') (hc : J c.state c.history c.pool) :
    J c'.state c'.history c'.pool := by
  refine h.induct (I := fun c => J c.state c.history c.pool) ?_ hc
  intro c a c' hJ ha hs
  rcases P.step_cases hs with
    ⟨i, o, rfl, ho, rfl⟩ | ⟨n, r, k, o, rfl, hk, ho, rfl⟩ | ⟨u, o, rfl, ho, rfl⟩
  · have hpool : (c.pool : Multiset κ) = (Source.call i : Source κ ι ρ).task + c.pool :=
      (Multiset.zero_add _).symm
    rw [hpool] at hJ
    simpa [← Multiset.coe_add] using hseg c (.call i) c.pool o hpool hJ ha ho
  · have hpool : (c.pool : Multiset κ) =
        (Source.resume k r : Source κ ι ρ).task + (c.pool.eraseIdx n : Multiset κ) := by
      rw [pool_eq_cons hk, Source.task, Multiset.singleton_add]
    rw [hpool] at hJ
    simpa [← Multiset.coe_add] using hseg c (.resume k r) _ o hpool hJ (ha k hk) ho
  · exact hrestart c u o hJ ha ho

end Run

/-! ### The thread-modular rule -/

/-- What a segment must establish for a thread-modular proof: the invariant of the new state, the
assertion of each continuation it spawns, and the stability of every other assertion. -/
structure Outcome.Keeps (I : σ → List ε → Prop) (K : σ → List ε → κ → Prop) (s : σ) (h : List ε)
    (o : Outcome σ κ ε) : Prop where
  inv : I o.state (o.events ++ h)
  spawned : ∀ k ∈ o.spawned, K o.state (o.events ++ h) k
  stable : ∀ k, K s h k → K o.state (o.events ++ h) k

/-- The premises of a thread-modular proof with invariant `I` and continuation assertion `K`. -/
structure Program.Local (P : Program σ κ ι ρ υ ε) (G : Guard σ κ ι ρ υ ε)
    (I : σ → List ε → Prop) (K : σ → List ε → κ → Prop) : Prop where
  segment : ∀ c src o, I c.state c.history →
    (∀ k ∈ src.task, k ∈ c.pool ∧ K c.state c.history k) → G.segment c src →
    P.segment c.state src = some o → o.Keeps I K c.state c.history
  restart : ∀ c u o, I c.state c.history → G.restart c u → P.restart c.state u = some o →
    I o.state (o.events ++ c.history) ∧ ∀ k ∈ o.spawned, K o.state (o.events ++ c.history) k

/-- **The thread-modular rule.** -/
theorem Run.local_induct {I : σ → List ε → Prop} {K : σ → List ε → κ → Prop}
    (hL : P.Local G I K) {c c' : Config σ κ ε} (h : Run P G c c')
    (hI : I c.state c.history) (hK : ∀ k ∈ c.pool, K c.state c.history k) :
    I c'.state c'.history ∧ ∀ k ∈ c'.pool, K c'.state c'.history k := by
  refine h.multiset_induct
    (J := fun s h m => I s h ∧ ∀ k ∈ m, K s h k) ?_ ?_ ⟨hI, by simpa using hK⟩
  · rintro c src m o hpool ⟨hI, hK⟩ hg ho
    have hsrc : ∀ k ∈ src.task, k ∈ c.pool ∧ K c.state c.history k := by
      intro k hk
      have hmem := Multiset.mem_add.2 (Or.inl hk : k ∈ src.task ∨ k ∈ m)
      exact ⟨Multiset.mem_coe.1 (hpool ▸ hmem), hK k hmem⟩
    have ok := hL.segment c src o hI hsrc hg ho
    refine ⟨ok.inv, ?_⟩
    intro k hk
    rcases Multiset.mem_add.1 hk with hk | hk
    · exact ok.stable k (hK k (Multiset.mem_add.2 (Or.inr hk)))
    · exact ok.spawned k (by simpa using hk)
  · rintro c u o ⟨hI, -⟩ hg ho
    obtain ⟨hI', hK'⟩ := hL.restart c u o hI hg ho
    exact ⟨hI', by simpa using hK'⟩

/-! ### Executed runs -/

/-- The choices of a list are all allowed along the execution of the list. -/
def Guard.AllowsAll (G : Guard σ κ ι ρ υ ε) (P : Program σ κ ι ρ υ ε) :
    Config σ κ ε → List (Act ι ρ υ) → Prop
  | _, [] => True
  | c, a :: as => G.Allows c a ∧ ∀ c', P.step c a = some c' → G.AllowsAll P c' as

/-- An executed list of allowed choices is a run. -/
theorem run_of_exec {as : List (Act ι ρ υ)} {c c' : Config σ κ ε} (ha : G.AllowsAll P c as)
    (h : P.exec c as = some c') : Run P G c c' := by
  induction as generalizing c with
  | nil =>
      rw [Program.exec, Option.some_inj] at h
      exact h ▸ Run.refl c
  | cons a as ih =>
      obtain ⟨d, hd, h⟩ := Option.bind_eq_some_iff.1 h
      exact Run.head a ha.1 hd (ih (ha.2 d hd) h)

/-- Under the guard that allows everything, every list of choices is allowed. -/
theorem Guard.any_allowsAll (as : List (Act ι ρ υ)) (c : Config σ κ ε) :
    (Guard.any : Guard σ κ ι ρ υ ε).AllowsAll P c as := by
  induction as generalizing c with
  | nil => trivial
  | cons a as ih =>
      refine ⟨?_, fun c' _ => ih c'⟩
      cases a <;> simp [Guard.Allows, Guard.any]

/-! ### Deciding that a list of choices is allowed -/

section And

variable (G H : Guard σ κ ι ρ υ ε)

instance [∀ c i, Decidable (G.call c i)] [∀ c i, Decidable (H.call c i)] (c : Config σ κ ε)
    (i : ι) : Decidable ((G.and H).call c i) :=
  inferInstanceAs (Decidable (G.call c i ∧ H.call c i))

instance [∀ c k r, Decidable (G.resume c k r)] [∀ c k r, Decidable (H.resume c k r)]
    (c : Config σ κ ε) (k : κ) (r : ρ) : Decidable ((G.and H).resume c k r) :=
  inferInstanceAs (Decidable (G.resume c k r ∧ H.resume c k r))

instance [∀ c u, Decidable (G.restart c u)] [∀ c u, Decidable (H.restart c u)]
    (c : Config σ κ ε) (u : υ) : Decidable ((G.and H).restart c u) :=
  inferInstanceAs (Decidable (G.restart c u ∧ H.restart c u))

end And

section Decidable

variable [∀ c i, Decidable (G.call c i)] [∀ c k r, Decidable (G.resume c k r)]
  [∀ c u, Decidable (G.restart c u)]

instance Guard.decidableAllows (c : Config σ κ ε) : ∀ a, Decidable (G.Allows c a)
  | .call i => inferInstanceAs (Decidable (G.call c i))
  | .restart u => inferInstanceAs (Decidable (G.restart c u))
  | .resume n r =>
      match h : c.pool[n]? with
      | none => isTrue fun k hk => by simp [h] at hk
      | some k => decidable_of_iff (G.resume c k r) (by simp [Guard.Allows, h])

instance Guard.decidableAllowsAll : ∀ (as : List (Act ι ρ υ)) (c : Config σ κ ε),
    Decidable (G.AllowsAll P c as)
  | [], _ => isTrue trivial
  | a :: as, c =>
      match h : P.step c a with
      | none => decidable_of_iff (G.Allows c a) (by simp [Guard.AllowsAll, h])
      | some c' =>
          have := Guard.decidableAllowsAll as c'
          decidable_of_iff (G.Allows c a ∧ G.AllowsAll P c' as) (by simp [Guard.AllowsAll, h])

end Decidable

end Actor
