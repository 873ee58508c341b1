/-
**Continuations with a date.**

What a suspended continuation may do often depends on when it looked at the state, and the state
does not say.  Here every continuation carries a date, the history at the moment its line began: a
continuation that a segment leaves behind is dated at the end of the segment, unless it inherits the
date of the continuation that ran the segment.  The dates are a ghost, since no segment reads them:
forgetting them turns the runs of the dated program into those of the program, and every run of the
program is obtained in this way.

Main definitions:

* `Actor.Program.dated` — the program with dates;
* `Actor.Config.undated`, `Actor.Config.dated` — forgetting the dates, and the first ones;
* `Actor.since` — the events since a date;
* `Actor.Program.Dates` — the premises for an assertion about what has happened since.

Main results:

* `Actor.Program.step_undated` — one choice, with and without the dates;
* `Actor.Run.exists_dated` — **every run is a dated run**;
* `Actor.Run.dated_induct` — **the rule of dates**.
-/

import LegendsNft.Actor

set_option relaxedAutoImplicit false
set_option autoImplicit false

universe u₁ u₂ u₃ u₄ u₅ u₆

namespace Actor

variable {σ : Type u₁} {κ : Type u₂} {ι : Type u₃} {ρ : Type u₄} {υ : Type u₅} {ε : Type u₆}

/-- The events since a date. -/
def since (date h : List ε) : List ε := h.take (h.length - date.length)

theorem since_append (es date : List ε) : since date (es ++ date) = es := by
  rw [since, List.length_append, Nat.add_sub_cancel, List.take_left]

/-! ### The program with dates -/

/-- The outcome of a segment that starts with this history, its continuations dated. -/
def Outcome.dated (o : Outcome σ κ ε) (h : List ε) (date : κ → List ε) :
    Outcome (σ × List ε) (κ × List ε) ε :=
  ⟨(o.state, o.events ++ h), o.spawned.map fun k => (k, date k), o.events⟩

/-- The program with dates, and with a copy of the history beside the state.  `inherits` says which
continuations keep the date of the one that has left them behind. -/
def Program.dated (P : Program σ κ ι ρ υ ε) (inherits : κ → κ → Bool) :
    Program (σ × List ε) (κ × List ε) ι ρ υ ε where
  call := fun s i => (P.call s.1 i).map fun o => o.dated s.2 fun _ => o.events ++ s.2
  resume := fun s k r => (P.resume s.1 k.1 r).map fun o =>
    o.dated s.2 fun k' => if inherits k.1 k' then k.2 else o.events ++ s.2
  restart := fun s u => (P.restart s.1 u).map fun o => o.dated s.2 fun _ => o.events ++ s.2

namespace Config

/-- A configuration without its dates. -/
def undated (d : Config (σ × List ε) (κ × List ε) ε) : Config σ κ ε :=
  ⟨d.state.1, d.pool.map Prod.fst, d.history⟩

/-- A configuration whose continuations are dated now. -/
def dated (c : Config σ κ ε) : Config (σ × List ε) (κ × List ε) ε :=
  ⟨(c.state, c.history), c.pool.map fun k => (k, c.history), c.history⟩

@[simp] theorem undated_dated (c : Config σ κ ε) : c.dated.undated = c := by
  simp [dated, undated, Function.comp_def]

end Config

variable {P : Program σ κ ι ρ υ ε} {inherits : κ → κ → Bool}

/-- **One choice**, with the dates and without. -/
theorem Program.step_undated (inherits : κ → κ → Bool) (d : Config (σ × List ε) (κ × List ε) ε)
    (a : Act ι ρ υ) : ((P.dated inherits).step d a).map Config.undated = P.step d.undated a := by
  cases a with
  | call i =>
      simp only [Program.step, Program.dated, Option.map_map]
      refine congrArg (fun g => (P.call d.state.1 i).map g) ?_
      funext o
      simp [Config.undated, Function.comp_def, Outcome.dated]
  | restart u =>
      simp only [Program.step, Program.dated, Option.map_map]
      refine congrArg (fun g => (P.restart d.state.1 u).map g) ?_
      funext o
      simp [Config.undated, Function.comp_def, Outcome.dated]
  | resume n r =>
      have hget : d.undated.pool[n]? = d.pool[n]?.map Prod.fst := List.getElem?_map ..
      rw [Program.step, Program.step, hget]
      cases d.pool[n]? with
      | none => rfl
      | some k =>
          simp only [Program.dated, Option.map_some, Option.map_map]
          refine congrArg (fun g => (P.resume d.state.1 k.1 r).map g) ?_
          funext o
          simp [Config.undated, Function.comp_def, Outcome.dated, List.eraseIdx_map]

/-! ### Runs with and without dates -/

/-- **Every run is a dated run.** -/
theorem Run.exists_dated {c c' : Config σ κ ε} (h : Run P .any c c') :
    ∃ d, Run (P.dated inherits) .any c.dated d ∧ d.undated = c' := by
  induction h with
  | refl => exact ⟨_, Run.refl _, Config.undated_dated _⟩
  | @tail e e' a _ _ hs ih =>
      obtain ⟨d, hd, rfl⟩ := ih
      rw [← Program.step_undated inherits, Option.map_eq_some_iff] at hs
      obtain ⟨d', hstep, hd'⟩ := hs
      refine ⟨d', hd.tail a ?_ hstep, hd'⟩
      cases a <;> simp [Guard.Allows, Guard.any]

/-! ### Assertions about what has happened since -/

/-- The premises for an assertion about a continuation, the state and the events since its date:
every segment keeps it, and the continuations a segment leaves behind satisfy it, from the date they
inherit or from the present on. -/
structure Program.Dates (P : Program σ κ ι ρ υ ε) (inherits : κ → κ → Bool)
    (K : σ → List ε → κ → Prop) : Prop where
  stable : ∀ s src o, P.segment s src = some o → ∀ es k, K s es k → K o.state (o.events ++ es) k
  inherited : ∀ s k r o, P.resume s k r = some o → ∀ k' ∈ o.spawned, inherits k k' = true →
    ∀ es, K s es k → K o.state (o.events ++ es) k'
  fresh : ∀ s src o, P.segment s src = some o → ∀ k' ∈ o.spawned,
    (∀ k ∈ src.task, inherits k k' = false) → K o.state [] k'
  restart : ∀ s u o, P.restart s u = some o → ∀ k' ∈ o.spawned, K o.state [] k'

/-- The date of a continuation lies in the history, and the assertion holds of what came after. -/
def Since (K : σ → List ε → κ → Prop) (s : σ) (h : List ε) (k : κ × List ε) : Prop :=
  ∃ es, h = es ++ k.2 ∧ K s es k.1

theorem Program.Dates.segment {K : σ → List ε → κ → Prop} (hK : P.Dates inherits K)
    {s : σ × List ε} {src : Source (κ × List ε) ι ρ} {o : Outcome (σ × List ε) (κ × List ε) ε}
    (ho : (P.dated inherits).segment s src = some o)
    (hsrc : ∀ k ∈ src.task, Since K s.1 s.2 k) :
    o.state.2 = o.events ++ s.2 ∧
      (∀ k, Since K s.1 s.2 k → Since K o.state.1 (o.events ++ s.2) k) ∧
      ∀ k ∈ o.spawned, Since K o.state.1 (o.events ++ s.2) k := by
  cases src with
  | call i =>
      obtain ⟨o', ho', rfl⟩ := Option.map_eq_some_iff.1 ho
      refine ⟨rfl, ?_, ?_⟩
      · rintro k ⟨es, hes, hk⟩
        exact ⟨o'.events ++ es, by rw [hes, List.append_assoc]; rfl,
          hK.stable s.1 (.call i) o' ho' es k.1 hk⟩
      · intro k hk
        obtain ⟨k', hk', rfl⟩ := List.mem_map.1 hk
        exact ⟨[], rfl, hK.fresh s.1 (.call i) o' ho' k' hk' (by simp [Source.task])⟩
  | resume k₀ r =>
      obtain ⟨o', ho', rfl⟩ := Option.map_eq_some_iff.1 ho
      refine ⟨rfl, ?_, ?_⟩
      · rintro k ⟨es, hes, hk⟩
        exact ⟨o'.events ++ es, by rw [hes, List.append_assoc]; rfl,
          hK.stable s.1 (.resume k₀.1 r) o' ho' es k.1 hk⟩
      · intro k hk
        obtain ⟨k', hk', rfl⟩ := List.mem_map.1 hk
        obtain ⟨es, hes, hk₀⟩ := hsrc k₀ (Multiset.mem_singleton_self _)
        -- either the date of the continuation that ran, or the present
        cases hin : inherits k₀.1 k' with
        | true =>
            refine ⟨o'.events ++ es, ?_, hK.inherited s.1 k₀.1 r o' ho' k' hk' hin es hk₀⟩
            simp only [hin, if_true, hes, List.append_assoc]
            rfl
        | false =>
            have hfresh : ∀ k ∈ (Source.resume k₀.1 r : Source κ ι ρ).task,
                inherits k k' = false := by simp [Source.task, hin]
            refine ⟨[], ?_, hK.fresh s.1 (.resume k₀.1 r) o' ho' k' hk' hfresh⟩
            simp only [hin]
            rfl

/-- **The rule of dates**: along a dated run, a date is the history without the events since, and
the assertion holds of these. -/
theorem Run.dated_induct {K : σ → List ε → κ → Prop} (hK : P.Dates inherits K)
    {G : Guard (σ × List ε) (κ × List ε) ι ρ υ ε} {c : Config σ κ ε}
    {d : Config (σ × List ε) (κ × List ε) ε} (h : Run (P.dated inherits) G c.dated d)
    (hc : ∀ k ∈ c.pool, K c.state [] k) {k : κ × List ε} (hk : k ∈ d.pool) :
    d.history = since k.2 d.history ++ k.2 ∧ K d.state.1 (since k.2 d.history) k.1 := by
  have hall : d.state.2 = d.history ∧ ∀ k ∈ (d.pool : Multiset (κ × List ε)),
      Since K d.state.1 d.history k := by
    refine h.multiset_induct (J := fun s h m => s.2 = h ∧ ∀ k ∈ m, Since K s.1 h k) ?_ ?_ ?_
    · rintro d src m o - ⟨hcopy, hm⟩ - ho
      rw [← hcopy] at hm ⊢
      obtain ⟨hstate, hstable, hspawned⟩ :=
        hK.segment ho fun k hk => hm k (Multiset.mem_add.2 (Or.inl hk))
      refine ⟨hstate, ?_⟩
      intro k hk
      rcases Multiset.mem_add.1 hk with hk | hk
      · exact hstable k (hm k (Multiset.mem_add.2 (Or.inr hk)))
      · exact hspawned k (Multiset.mem_coe.1 hk)
    · rintro d u o ⟨hcopy, -⟩ - ho
      rw [← hcopy]
      obtain ⟨o', ho', rfl⟩ := Option.map_eq_some_iff.1 ho
      refine ⟨rfl, ?_⟩
      intro k hk
      obtain ⟨k', hk', rfl⟩ := List.mem_map.1 (Multiset.mem_coe.1 hk)
      exact ⟨[], rfl, hK.restart d.state.1 u o' ho' k' hk'⟩
    · refine ⟨rfl, ?_⟩
      intro k hk
      obtain ⟨k', hk', rfl⟩ := List.mem_map.1 (Multiset.mem_coe.1 hk)
      exact ⟨[], rfl, hc k' hk'⟩
  obtain ⟨es, hes, hkk⟩ := hall.2 k (Multiset.mem_coe.2 hk)
  have hsince : since k.2 d.history = es := by rw [hes, since_append]
  rw [hsince]
  exact ⟨hes, hkk⟩

end Actor
