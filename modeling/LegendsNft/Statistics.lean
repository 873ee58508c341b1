/-
**The sales statistics.**

`settle` adds the price of each sale to `totalVolume`, raises `highestPriceSale` to it and lowers
`lowestPriceSale` to it; the number of sales that `stats` reports is the size of `transactions`.
All three start at zero, which is right for a sum and for a maximum.  For a minimum it is not: no
price is below zero, so `lowestPriceSale` never moves, and the lowest sale reported is right only
before the first sale and after a sale at the price zero.  The sum in turn counts a transaction
again that is settled again.

Main definitions:

* `LegendsNft.Entrepot.salePrices` — the prices of the finalized transactions;
* `LegendsNft.Described` — what the statistics should say;
* `LegendsNft.describing` — the condition on runs.

Main results:

* `LegendsNft.lowestPriceSale_of_run` — the lowest sale reported is zero in every run;
* `LegendsNft.statistics_iff` — **the runs in which the statistics describe the sales**.
-/

import LegendsNft.Completion
import LegendsNft.Settlement

set_option relaxedAutoImplicit false
set_option autoImplicit false

namespace LegendsNft

open Entrepot

variable {D : Deployment} {G : Guard} {c₀ c : Config}

/-! ### What the statistics should say -/

/-- The prices of the finalized transactions. -/
def Entrepot.salePrices (s : Entrepot) : List ℕ :=
  s.transactions.entries.map fun e => e.2.price.toNat

/-- The statistics describe the finalized transactions. -/
structure Described (c : Config) : Prop where
  volume : (c.state.entrepot.stats c.state.canister.supply).totalVolume.toNat =
    c.state.entrepot.salePrices.sum
  highest : (c.state.entrepot.stats c.state.canister.supply).highestPriceSale.toNat =
    c.state.entrepot.salePrices.max?.getD 0
  lowest : (c.state.entrepot.stats c.state.canister.supply).lowestPriceSale.toNat =
    c.state.entrepot.salePrices.min?.getD 0
  sales : (c.state.entrepot.stats c.state.canister.supply).sales =
    c.state.entrepot.salePrices.length

theorem max?_getD (l : List ℕ) : l.max?.getD 0 = l.foldr max 0 := by
  induction l with
  | nil => rfl
  | cons n l ih =>
      rw [List.max?_cons, List.foldr_cons, ← ih]
      cases l.max? <;> simp

/-- The minimum is zero when there is nothing, or a zero. -/
theorem min?_getD_eq_zero {l : List ℕ} : l.min?.getD 0 = 0 ↔ l = [] ∨ 0 ∈ l := by
  cases hl : l.min? with
  | none => simp [List.min?_eq_none_iff.1 hl]
  | some m =>
      obtain ⟨hm, hle⟩ := List.min?_eq_some_iff.1 hl
      have hne : l ≠ [] := List.ne_nil_of_mem hm
      simp only [Option.getD_some, hne, false_or]
      constructor
      · rintro rfl
        exact hm
      · intro hzero
        exact Nat.le_zero.1 (hle 0 hzero)

/-! ### One sale -/

namespace Entrepot.Sale

variable {table : FeeTable} {s s' : Entrepot} {now : Time} {f : SettleFrame} {balance : UInt64}
  {jobs : List Disbursement}

/-- A new transaction adds its price. -/
theorem salePrices_of_none (h : Sale table s s' now f balance jobs)
    (hnone : s.transactions.get f.transaction.id = none) :
    s'.salePrices = f.transaction.price.toNat :: s.salePrices := by
  rw [salePrices, h.transactions, Table.entries_put_of_none _ hnone, List.map_cons, ← salePrices]

/-- A transaction settled again adds nothing. -/
theorem salePrices_of_some (h : Sale table s s' now f balance jobs) {t : Transaction}
    (hsome : s.transactions.get f.transaction.id = some t)
    (hprice : t.price = f.transaction.price) : s'.salePrices.Perm s.salePrices := by
  rw [salePrices, h.transactions]
  exact Table.map_entries_put_perm hsome (g := fun t => t.price.toNat) (by rw [hprice])

theorem toNat_highestPriceSale (h : Sale table s s' now f balance jobs) :
    s'.highestPriceSale.toNat = max f.transaction.price.toNat s.highestPriceSale.toNat := by
  rw [h.highestPriceSale]
  split
  · rename_i hlt
    exact (Nat.max_eq_left (UInt64.lt_iff_toNat_lt.1 hlt).le).symm
  · rename_i hlt
    exact (Nat.max_eq_right (Nat.le_of_not_lt fun h => hlt (UInt64.lt_iff_toNat_lt.2 h))).symm

/-- The lowest sale stays at zero. -/
theorem lowestPriceSale_eq_zero (h : Sale table s s' now f balance jobs)
    (hzero : s.lowestPriceSale = 0) : s'.lowestPriceSale = 0 := by
  rw [h.lowestPriceSale, hzero]
  exact if_neg (UInt64.not_lt.2 (UInt64.zero_le))

end Entrepot.Sale

/-- **The lowest sale reported is zero**, in every run. -/
theorem lowestPriceSale_of_run (hc₀ : Initial c₀) (h : Actor.Run (program D) G c₀ c) :
    c.state.entrepot.lowestPriceSale = 0 := by
  refine invariant_of_moves (I := fun w _ => w.entrepot.lowestPriceSale = 0) ?_ ?_ h ?_
  · intro c src o hI _ _ hm
    rcases hm.sale_cases c.history with
      ⟨hsame, -⟩ | ⟨f, b, k, s, tokens, jobs, -, -, -, hsale, rfl⟩
    · exact hsame.lowestPriceSale.trans hI
    · exact hsale.lowestPriceSale_eq_zero hI
  · intro c supply canister hI _ hup
    exact (Canister.lowestPriceSale_upgrade hup).trans hI
  · rw [hc₀.entrepot]
    rfl

/-! ### Whole runs -/

/-- A transaction that is held and recorded is recorded at its price. -/
def Recorded (c : Config) : Prop :=
  ∀ k ∈ c.pool, ∀ f, k.held = some f → ∀ t,
    c.state.entrepot.transactions.get f.transaction.id = some t → t.price = f.transaction.price

/-- Without upgrades, an id determines its transaction. -/
theorem recorded_of_run (hG : ∀ c u, ¬ G.restart c u) (hc₀ : Initial c₀)
    (h : Actor.Run (program D) G c₀ c) : Recorded c := by
  intro k hk f hf t ht
  obtain ⟨hprov, hsrc⟩ := provenance hc₀ h
  have hids := freshIds_of_noUpgrade hG hc₀ h
  obtain ⟨s, hs, hid, time, rfl⟩ := transactions_of_run hc₀ h ht
  obtain ⟨e, he⟩ := hprov.sale s.frame s.balance s.jobs (mem_settlements.1 hs)
  obtain ⟨e', he'⟩ := (hsrc k hk).held f hf
  have hsame := hids.eq_of_id (mem_created.2 he) (mem_created.2 he') hid
  exact congrArg (fun x => x.transaction.price) hsame

/-- The statistics of the runs that meet the condition: the sum and the maximum of the prices, and
zero, which is the minimum as long as there is no price or a zero. -/
structure Books (s : Entrepot) : Prop where
  volume : s.totalVolume.toNat = s.salePrices.sum
  highest : s.highestPriceSale.toNat = s.salePrices.foldr max 0
  lowest : s.lowestPriceSale = 0
  zero : s.salePrices = [] ∨ 0 ∈ s.salePrices

theorem Books.described (h : Books c.state.entrepot) : Described c where
  volume := h.volume
  highest := h.highest.trans (max?_getD _).symm
  lowest := by
    rw [min?_getD_eq_zero.2 h.zero, stats, h.lowest]
    rfl
  sales := by
    rw [salePrices, List.length_map, Table.length_entries]
    rfl

/-- The condition of a settlement that keeps the books: its price is zero, or it is new and there
has been a sale at zero. -/
def Keeps (s : Entrepot) (f : SettleFrame) : Prop :=
  f.transaction.price = 0 ∨ s.transactions.get f.transaction.id = none ∧ 0 ∈ s.salePrices

instance (s : Entrepot) (f : SettleFrame) : Decidable (Keeps s f) :=
  inferInstanceAs (Decidable (_ ∨ _ ∧ _))

theorem Books.congr {s s' : Entrepot} (hB : Books s) (hsame : SameSales s s') : Books s' := by
  have hprices : s'.salePrices = s.salePrices := by
    rw [salePrices, hsame.transactions, ← salePrices]
  constructor
  · rw [hsame.totalVolume, hprices]
    exact hB.volume
  · rw [hsame.highestPriceSale, hprices]
    exact hB.highest
  · exact hsame.lowestPriceSale.trans hB.lowest
  · rw [hprices]
    exact hB.zero

theorem Books.sale {s s' : Entrepot} {now : Time} {f : SettleFrame} {b : UInt64}
    {jobs : List Disbursement} (hB : Books s) (hsale : Sale fees s s' now f b jobs)
    (hrec : ∀ t, s.transactions.get f.transaction.id = some t → t.price = f.transaction.price)
    (hk : Keeps s f) : Books s' := by
  have hlow := hsale.lowestPriceSale_eq_zero hB.lowest
  cases hget : s.transactions.get f.transaction.id with
  | none =>
      have hprices := hsale.salePrices_of_none hget
      refine ⟨?_, ?_, hlow, Or.inr ?_⟩
      · rw [hsale.totalVolume, hprices, List.sum_cons, hB.volume, Nat.add_comm]
      · rw [hsale.toNat_highestPriceSale, hprices, List.foldr_cons, hB.highest]
      · rw [hprices]
        rcases hk with hzero | ⟨-, hmem⟩
        · rw [hzero]
          exact List.mem_cons_self ..
        · exact List.mem_cons_of_mem _ hmem
  | some t =>
      -- only a price of zero may be counted again
      have hperm := hsale.salePrices_of_some hget (hrec t hget)
      have hzero : f.transaction.price = 0 := by
        rcases hk with hzero | ⟨hnone, -⟩
        · exact hzero
        · rw [hget] at hnone
          simp at hnone
      have hmem : 0 ∈ s.salePrices := by
        refine List.mem_map.2 ⟨_, Table.mem_entries.2 hget, ?_⟩
        rw [hrec t hget, hzero]
        rfl
      have hnat : f.transaction.price.toNat = 0 := by
        rw [hzero]
        rfl
      refine ⟨?_, ?_, hlow, Or.inr (hperm.mem_iff.2 hmem)⟩
      · rw [hsale.totalVolume, hnat, hperm.sum_nat, hB.volume, Nat.add_zero]
      · rw [hsale.toNat_highestPriceSale, hnat, hperm.foldr_eq, hB.highest, Nat.zero_max]

/-- The condition is necessary: a sale after which the statistics are right has kept the books. -/
theorem keeps_of_described {s s' : Entrepot} {now : Time} {f : SettleFrame} {b : UInt64}
    {jobs : List Disbursement} (hsale : Sale fees s s' now f b jobs)
    (hrec : ∀ t, s.transactions.get f.transaction.id = some t → t.price = f.transaction.price)
    (hlow : s.lowestPriceSale = 0) (hvol : s.totalVolume.toNat = s.salePrices.sum)
    (hvol' : s'.totalVolume.toNat = s'.salePrices.sum)
    (hlow' : s'.lowestPriceSale.toNat = s'.salePrices.min?.getD 0) : Keeps s f := by
  cases hget : s.transactions.get f.transaction.id with
  | some t =>
      -- the price has been counted twice, so it is zero
      have hperm := hsale.salePrices_of_some hget (hrec t hget)
      rw [hsale.totalVolume, hperm.sum_nat, hvol] at hvol'
      exact Or.inl (UInt64.toNat_inj.1 (by rw [UInt64.toNat_zero]; omega))
  | none =>
      rw [hsale.lowestPriceSale_eq_zero hlow, UInt64.toNat_zero] at hlow'
      have hzero := min?_getD_eq_zero.1 hlow'.symm
      rw [hsale.salePrices_of_none hget] at hzero
      rcases hzero with hnil | hmem
      · simp at hnil
      · rcases List.mem_cons.1 hmem with heq | hmem
        · exact Or.inl (UInt64.toNat_inj.1 (by rw [UInt64.toNat_zero]; omega))
        · exact Or.inr ⟨hget, hmem⟩

/-- The condition: the canister is not upgraded, and whenever a settlement completes, its price is
zero, or its transaction has not been recorded and there has been a sale at zero. -/
abbrev describing (D : Deployment) : Discipline where
  call := fun _ _ => True
  list := fun _ _ => True
  lock := fun _ _ => True
  settle := fun c f b => Completes D c.state f b → Keeps c.state.entrepot f
  upgrade := fun _ => False

instance (D : Deployment) : (describing D).Checkable :=
  ⟨inferInstance, inferInstance, inferInstance, inferInstance, inferInstance⟩

/-- The runs without upgrades. -/
def noUpgrade : Guard := ⟨fun _ _ => True, fun _ _ _ => True, fun _ _ => False⟩

/-- The books are kept along the runs that meet the condition. -/
theorem books_of_run (hc₀ : Initial c₀) (h : Actor.Run (program D) (describing D).guard c₀ c) :
    Books c.state.entrepot := by
  have hrun := h.assume (J := Recorded) fun d hd => recorded_of_run (fun _ _ hg => hg) hc₀ hd
  refine invariant_of_moves (I := fun w _ => Books w.entrepot) ?_ ?_ hrun ?_
  · intro c src o hB hpool hg hm
    rcases hm.sale_cases c.history with
      ⟨hsame, -⟩ | ⟨f, b, k, s, tokens, jobs, rfl, hpaid, hown, hsale, rfl⟩
    · exact hB.congr hsame
    · have hmem := hpool _ (Multiset.mem_singleton_self _)
      exact hB.sale hsale (hg.1 _ hmem f rfl) (hg.2 (completes_of_sale hpaid hown hsale))
  · intro c supply canister _ hr _
    exact absurd hr.2 id
  · rw [hc₀.entrepot]
    exact ⟨rfl, rfl, rfl, Or.inl rfl⟩

/-- **The statistics describe the sales** in every state of a run without upgrades exactly when
every settlement that completes has the price zero, or is new and comes after a sale at zero. -/
theorem statistics_iff (hc₀ : Initial c₀) :
    Actor.Run (program D) (describing D).guard c₀ c ↔
      Actor.Run (program D) (noUpgrade.assuming Described) c₀ c ∧ Described c := by
  constructor
  · intro h
    refine ⟨?_, (books_of_run hc₀ h).described⟩
    have hall := h.assume (J := Described) fun d hd => (books_of_run hc₀ hd).described
    refine hall.mono ?_
    intro d a ha
    cases a with
    | call i => exact ⟨ha.1, trivial⟩
    | resume n r => exact fun k hk => ⟨(ha k hk).1, trivial⟩
    | restart u => exact ha
  · rintro ⟨h, hc⟩
    refine h.strengthen hc ?_
    intro d a d' hd hJ hJ' ha hs
    cases a with
    | call i => exact trivial
    | restart u => exact ha
    | resume n r =>
        intro k hk
        rcases hw : k.write r with - | f | f | ⟨f, b⟩
        · simp [Discipline.guard, hw, Discipline.write]
        · simp [Discipline.guard, hw, Discipline.write]
        · simp [Discipline.guard, hw, Discipline.write]
        · obtain ⟨k', rfl, rfl⟩ := Task.write_eq_settle hw
          intro hcompletes
          obtain ⟨s, tokens, jobs, hsale, hres⟩ := resume_of_completes k' hcompletes
          -- the state after the step is the one after the sale
          obtain rfl : d' = _ := Actor.eq_of_step_resume hs hk hres
          have hnever : ∀ d u, ¬ (noUpgrade.assuming Described).restart d u := fun _ _ hg => hg.2
          have hrec := recorded_of_run hnever hc₀ hd _ (List.mem_of_getElem? hk) f rfl
          exact keeps_of_described hsale hrec (lowestPriceSale_of_run hc₀ hd) hJ.volume hJ'.volume
            hJ'.lowest

/-- A sale at the price zero, and another one. -/
def giftThenSale : List Choice :=
  Choice.mint ⟨[1]⟩ ++ Choice.list ⟨[1]⟩ 0 ++ Choice.lock 0 "C" ++ Choice.pay 1 40000 ++
    Choice.settle ++ [.resume 0 .run, .resume 0 .run] ++ Choice.sale ⟨[2]⟩ 2 50000 "D"

/-- A run that satisfies the condition. -/
theorem statistics_iff_sample : ∃ c, sampleRun giftThenSale = some c ∧
    c.state.entrepot.salePrices = [50000, 0] ∧ Described c := by
  obtain ⟨c, hc, hprices⟩ := (by decide : ∃ c ∈ sampleRun giftThenSale,
    c.state.entrepot.salePrices = [50000, 0])
  have hallowed : (describing .sample).guard.AllowsAll (program .sample) Config.sample
      giftThenSale := by decide
  exact ⟨c, hc, hprices,
    ((statistics_iff Config.initial_sample).1 (Actor.run_of_exec hallowed hc)).2⟩

/-- **The lowest sale reported is not one that was made**: after one sale at 40000 it is zero. -/
theorem lowest_not_described : ∃ c, sampleRun oneSale = some c ∧
    c.state.entrepot.salePrices = [40000] ∧
    (c.state.entrepot.stats c.state.canister.supply).lowestPriceSale = 0 ∧ ¬ Described c := by
  obtain ⟨c, hc, hprices, hlow⟩ := (by decide : ∃ c ∈ sampleRun oneSale,
    c.state.entrepot.salePrices = [40000] ∧
    (c.state.entrepot.stats c.state.canister.supply).lowestPriceSale = 0)
  refine ⟨c, hc, hprices, hlow, ?_⟩
  intro hd
  have hmin := hd.lowest
  rw [hlow, hprices] at hmin
  simp at hmin

end LegendsNft
