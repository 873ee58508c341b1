/-
**Settling once, and the sales history.**

Between reading a pending transaction and finalizing it, `settle` awaits the ledger, and it does
not look at the pending transactions again.  Several `settle` calls can hold the same transaction;
what stops the second one is only that the seller no longer owns the token.  When the buyer is the
seller, or the token has come back, nothing does.

In the runs where that does not happen, the sales of the history are exactly the entries of
`transactions`: each transaction is settled once, its disbursements are queued once, and the volume
is the sum of the prices.  The same book is kept across upgrades, but for the counter of transaction
ids, which an upgrade resets.

Main definitions:

* `LegendsNft.SalesBook` — the invariant of the sales;
* `LegendsNft.settleOnce`, `LegendsNft.appendOnly` — the conditions on runs.

Main results:

* `LegendsNft.salesBook_of_run` — the invariant along runs;
* `LegendsNft.settled_exactly_once` — **each transaction is settled at most once**;
* `LegendsNft.sales_history_appendOnly` — **the sales history is append-only across upgrades**.
-/

import LegendsNft.Completion
import LegendsNft.Uniqueness

set_option relaxedAutoImplicit false
set_option autoImplicit false

namespace LegendsNft

open Entrepot

variable {D : Deployment} {G : Guard} {c₀ c : Config}

/-! ### The book of sales -/

/-- The transaction a sale finalizes. -/
def Settlement.transaction (s : Settlement) : Transaction := s.frame.transaction

/-- The sales of the history are the entries of `transactions`. -/
structure SalesBook (w : World) (h : List Event) : Prop where
  recorded : ∀ s ∈ settlements h, ∃ t, w.entrepot.transactions.get s.transaction.id =
    some { s.transaction with closed := some t }
  nodup : ((settlements h).map fun s => s.transaction.id).Nodup
  size : w.entrepot.transactions.size = (settlements h).length
  volume : w.entrepot.totalVolume.toNat =
    ((settlements h).map fun s => s.transaction.price.toNat).sum
  jobs : ∀ s ∈ settlements h, s.jobs.length = fees.length + 1 ∧
    ∀ d ∈ s.jobs, d.bytes = s.transaction.bytes

theorem SalesBook.nodup_transaction {w : World} {h : List Event} (hB : SalesBook w h) :
    ((settlements h).map Settlement.transaction).Nodup := by
  refine List.Nodup.map_on ?_ hB.nodup.of_map
  intro s hs s' hs' heq
  exact List.inj_on_of_nodup_map hB.nodup hs hs' (congrArg Transaction.id heq)

/-- A sale of a transaction that is not recorded adds it to the book. -/
theorem SalesBook.sale {w : World} {h : List Event} (hB : SalesBook w h) {s : Entrepot}
    {f : SettleFrame} {b : UInt64} {jobs : List Disbursement}
    (hsale : Sale fees w.entrepot s w.now f b jobs) (tokens : Tokens)
    (hfresh : w.entrepot.transactions.get f.transaction.id = none) :
    SalesBook ((w.setEntrepot s).setTokens tokens) (.finalized f b jobs :: h) := by
  have hsettle : settlements (.finalized f b jobs :: h) = ⟨f, b, jobs⟩ :: settlements h := rfl
  have hne : ∀ x ∈ settlements h, x.transaction.id ≠ f.transaction.id := by
    intro x hx heq
    obtain ⟨t, ht⟩ := hB.recorded x hx
    rw [heq, hfresh] at ht
    simp at ht
  constructor
  · -- the new entry overwrites none of the others
    intro x hx
    rw [World.entrepot_setTokens, World.entrepot_setEntrepot, hsale.transactions]
    rw [hsettle] at hx
    rcases List.mem_cons.1 hx with rfl | hx
    · exact ⟨w.now, Table.get_put_self _ _ _⟩
    · rw [Table.get_put_of_ne _ _ (hne x hx)]
      exact hB.recorded x hx
  · rw [hsettle, List.map_cons, List.nodup_cons]
    refine ⟨?_, hB.nodup⟩
    intro hmem
    obtain ⟨x, hx, hid⟩ := List.mem_map.1 hmem
    exact hne x hx hid
  · rw [World.entrepot_setTokens, World.entrepot_setEntrepot, hsale.transactions,
      Table.size_put_of_none _ hfresh, hB.size, hsettle, List.length_cons]
  · rw [World.entrepot_setTokens, World.entrepot_setEntrepot, hsale.totalVolume, hB.volume,
      hsettle, List.map_cons, List.sum_cons, Nat.add_comm]
    rfl
  · intro x hx
    rw [hsettle] at hx
    rcases List.mem_cons.1 hx with rfl | hx
    · exact ⟨hsale.length_jobs, fun d hd => (hsale.mem_jobs hd).2⟩
    · exact hB.jobs x hx

/-- The book is kept by a state with the same sales. -/
theorem SalesBook.congr {w w' : World} {h h' : List Event} (hB : SalesBook w h)
    (hget : ∀ n, w'.entrepot.transactions.get n = w.entrepot.transactions.get n)
    (hsize : w'.entrepot.transactions.size = w.entrepot.transactions.size)
    (hvolume : w'.entrepot.totalVolume = w.entrepot.totalVolume)
    (hh : settlements h' = settlements h) : SalesBook w' h' := by
  constructor
  · intro x hx
    rw [hget]
    exact hB.recorded x (hh ▸ hx)
  · rw [hh]
    exact hB.nodup
  · rw [hh, hsize]
    exact hB.size
  · rw [hh, hvolume]
    exact hB.volume
  · rw [hh]
    exact hB.jobs

/-- The runs in which a `settle` call that completes has not recorded its transaction yet. -/
def SettlesUnrecorded (D : Deployment) (G : Guard) : Prop :=
  ∀ c f b k, G.resume c (.reported f b k) .run → Completes D c.state f b →
    c.state.entrepot.transactions.get f.transaction.id = none

/-- The finalized transactions are these, with their statistics. -/
structure SameSales (s s' : Entrepot) : Prop where
  transactions : s'.transactions = s.transactions
  totalVolume : s'.totalVolume = s.totalVolume
  lowestPriceSale : s'.lowestPriceSale = s.lowestPriceSale
  highestPriceSale : s'.highestPriceSale = s.highestPriceSale

/-- A move makes a sale, or leaves the sales and their statistics as they are. -/
theorem Move.sale_cases {w : World} {src : Source} {o : Step} (hm : Move D w src o)
    (h : List Event) :
    (SameSales w.entrepot o.state.entrepot ∧ settlements (o.events ++ h) = settlements h) ∨
    ∃ f b k s tokens jobs, src = .resume (.reported f b k) .run ∧ f.transaction.price ≤ b ∧
      w.tokens.Owns D f.transaction.from' f.index ∧ Sale fees w.entrepot s w.now f b jobs ∧
      o = ⟨(w.setEntrepot s).setTokens tokens, [.insert k], [.finalized f b jobs]⟩ := by
  rcases hm.life with hq | ⟨f, t, rfl, rfl, rfl⟩ | ⟨f, b, k, r, rfl, -, rfl⟩ |
    ⟨f, b, k, s, tokens, jobs, rfl, hpaid, hsale, ht, rfl⟩
  · exact Or.inl ⟨⟨hq.transactions, hq.totalVolume, hq.lowestPriceSale, hq.highestPriceSale⟩,
      hq.settlements_append h⟩
  · exact Or.inl ⟨⟨rfl, rfl, rfl, rfl⟩, rfl⟩
  · left
    rw [World.entrepot_setEntrepot, giveUp]
    split <;> exact ⟨⟨rfl, rfl, rfl, rfl⟩, rfl⟩
  · exact Or.inr ⟨f, b, k, s, tokens, jobs, rfl, hpaid, Tokens.transfer_isOk_iff.1 ⟨_, ht⟩, hsale,
      rfl⟩

/-- Every entry of `transactions` is that of a sale, under the id of its transaction, closed at some
time. -/
theorem transactions_of_run (hc₀ : Initial c₀) (h : Actor.Run (program D) G c₀ c) {id : ℕ}
    {t : Transaction} (ht : c.state.entrepot.transactions.get id = some t) :
    ∃ s ∈ settlements c.history, s.transaction.id = id ∧
      ∃ time, t = { s.transaction with closed := some time } := by
  refine invariant_of_moves (I := fun w h => ∀ id t, w.entrepot.transactions.get id = some t →
    ∃ s ∈ settlements h, s.transaction.id = id ∧
      ∃ time, t = { s.transaction with closed := some time }) ?_ ?_ h ?_ id t ht
  · intro c src o hI _ _ hm id t ht
    rcases hm.sale_cases c.history with
      ⟨hsame, hset⟩ | ⟨f, b, k, s, tokens, jobs, rfl, -, -, hsale, rfl⟩
    · rw [hsame.transactions] at ht
      rw [hset]
      exact hI id t ht
    · rw [World.entrepot_setTokens, World.entrepot_setEntrepot, hsale.transactions] at ht
      rcases Table.get_of_get_put ht with ⟨rfl, rfl⟩ | ⟨-, ht⟩
      · exact ⟨⟨f, b, jobs⟩, List.mem_cons_self .., rfl, c.state.now, rfl⟩
      · obtain ⟨s', hs', hid⟩ := hI id t ht
        exact ⟨s', List.mem_cons_of_mem _ hs', hid⟩
  · intro c supply canister hI _ hup id t ht
    exact hI id t ((Canister.get_transactions_upgrade hup id).symm.trans ht)
  · intro id t ht
    have hnone : c₀.state.entrepot.transactions.get id = none := by
      rw [hc₀.entrepot]
      rfl
    rw [hnone] at ht
    simp at ht

/-- **The book is kept along the runs in which no recorded transaction is settled again.** -/
theorem salesBook_of_run (hG : SettlesUnrecorded D G) (hc₀ : Initial c₀)
    (h : Actor.Run (program D) G c₀ c) : SalesBook c.state c.history := by
  refine invariant_of_moves (I := SalesBook) ?_ ?_ h ?_
  · intro c src o hB _ hg hm
    rcases hm.sale_cases c.history with
      ⟨hsame, hset⟩ | ⟨f, b, k, s, tokens, jobs, rfl, hpaid, hown, hsale, rfl⟩
    · exact hB.congr (fun n => by rw [hsame.transactions]) (by rw [hsame.transactions])
        hsame.totalVolume hset
    · exact hB.sale hsale tokens (hG c f b k hg (completes_of_sale hpaid hown hsale))
  · intro c supply canister hB _ hup
    exact hB.congr (Canister.get_transactions_upgrade hup)
      (Canister.size_transactions_upgrade hup) (Canister.totalVolume_upgrade hup) rfl
  · rw [hc₀.2.2]
    exact ⟨by simp [settlements], List.nodup_nil, by rw [hc₀.entrepot]; rfl,
      by rw [hc₀.entrepot]; rfl, by simp [settlements]⟩

/-- A recorded entry stays as it is. -/
theorem transactions_mono (hG : SettlesUnrecorded D G) (h : Actor.Run (program D) G c₀ c) {n : ℕ}
    {t : Transaction} (ht : c₀.state.entrepot.transactions.get n = some t) :
    c.state.entrepot.transactions.get n = some t := by
  refine invariant_of_moves (I := fun w _ => w.entrepot.transactions.get n = some t) ?_ ?_ h ht
  · intro c src o hI _ hg hm
    rcases hm.sale_cases c.history with
      ⟨hsame, -⟩ | ⟨f, b, k, s, tokens, jobs, rfl, hpaid, hown, hsale, rfl⟩
    · rw [hsame.transactions]
      exact hI
    · -- a recorded transaction is not settled again
      have hne : n ≠ f.transaction.id := by
        rintro rfl
        rw [hG c f b k hg (completes_of_sale hpaid hown hsale)] at hI
        simp at hI
      rw [World.entrepot_setTokens, World.entrepot_setEntrepot, hsale.transactions,
        Table.get_put_of_ne _ _ hne]
      exact hI
  · intro c supply canister hI _ hup
    exact (Canister.get_transactions_upgrade hup n).trans hI

/-! ### Settling once -/

section Grouped

variable {α β γ : Type} [DecidableEq γ] {l : List α} {f : α → List β} {key : α → γ} {tag : β → γ}

/-- Nothing in a list of groups carries the tag of no group. -/
theorem filter_flatMap_eq_nil (htag : ∀ a ∈ l, ∀ b ∈ f a, tag b = key a) {g : γ}
    (hg : ∀ a ∈ l, key a ≠ g) : (l.flatMap f).filter (fun b => tag b = g) = [] := by
  refine List.filter_eq_nil_iff.2 ?_
  intro b hb
  obtain ⟨a, ha, hba⟩ := List.mem_flatMap.1 hb
  rw [htag a ha b hba]
  simpa using hg a ha

/-- When distinct groups have distinct keys, the tag of a group selects that group. -/
theorem filter_flatMap_of_mem (htag : ∀ a ∈ l, ∀ b ∈ f a, tag b = key a)
    (hl : (l.map key).Nodup) {a : α} (ha : a ∈ l) :
    (l.flatMap f).filter (fun b => tag b = key a) = f a := by
  induction l with
  | nil => simp at ha
  | cons a' l ih =>
      rw [List.map_cons, List.nodup_cons] at hl
      rw [List.flatMap_cons, List.filter_append]
      have htag' : ∀ x ∈ l, ∀ b ∈ f x, tag b = key x :=
        fun x hx => htag x (List.mem_cons_of_mem a' hx)
      have hhead := htag a' (List.mem_cons_self ..)
      rcases List.mem_cons.1 ha with rfl | ha
      · have hrest : ∀ x ∈ l, key x ≠ key a :=
          fun x hx heq => hl.1 (heq ▸ List.mem_map_of_mem hx)
        rw [filter_flatMap_eq_nil htag' hrest, List.append_nil]
        exact List.filter_eq_self.2 fun b hb => by simpa using hhead b hb
      · have hne : key a' ≠ key a := fun heq => hl.1 (heq ▸ List.mem_map_of_mem ha)
        have hnil : (f a').filter (fun b => tag b = key a) = [] :=
          List.filter_eq_nil_iff.2 fun b hb => by simpa [hhead b hb] using hne
        rw [hnil, List.nil_append]
        exact ih htag' hl.2 ha

end Grouped

/-- The disbursements ever queued for a payment subaccount. -/
def pushedFor (bytes : SubAccount) (h : List Event) : List Disbursement :=
  (pushed h).filter fun d => d.bytes = bytes

/-- The condition for settling once: the counter of subaccounts fits in their bytes, the canister is
not upgraded, and no `settle` call completes for a transaction already recorded. -/
abbrev settleOnce (D : Deployment) : Discipline where
  call := fun c i => i.isLock = true →
    4294967296 + (c.state.entrepot.nextSubAccount + 1) < 2 ^ 256
  list := fun _ _ => True
  lock := fun _ _ => True
  settle := fun c f b => Completes D c.state f b →
    c.state.entrepot.transactions.get f.transaction.id = none
  upgrade := fun _ => False

instance (D : Deployment) : (settleOnce D).Checkable :=
  ⟨inferInstance, inferInstance, inferInstance, inferInstance, inferInstance⟩

/-- **Exactly-once settlement.**  Each transaction created by `lock` is settled at most once, one
set of disbursements is ever queued for its payment subaccount, and the volume is the sum of the
prices of the transactions settled. -/
theorem settled_exactly_once (hc₀ : Initial c₀)
    (h : Actor.Run (program D) (settleOnce D).guard c₀ c) :
    ((settlements c.history).map Settlement.transaction).Nodup ∧
    (∀ x ∈ created c.history,
      (x.transaction ∉ (settlements c.history).map Settlement.transaction ∧
        pushedFor x.transaction.bytes c.history = []) ∨
      ∃ s ∈ settlements c.history, s.transaction = x.transaction ∧
        s.jobs.length = fees.length + 1 ∧
        pushedFor x.transaction.bytes c.history = s.jobs) ∧
    c.state.entrepot.totalVolume.toNat =
      ((settlements c.history).map fun s => s.transaction.price.toNat).sum := by
  have hfresh : SettlesUnrecorded D (settleOnce D).guard :=
    fun _ _ _ _ hg => hg
  have hsmall : ∀ c caller token price buyer,
      (settleOnce D).guard.call c (.lock caller token price buyer) →
        4294967296 + (c.state.entrepot.nextSubAccount + 1) < 2 ^ 256 :=
    fun _ _ _ _ _ hg => hg rfl
  have hB := salesBook_of_run hfresh hc₀ h
  have hpaid := subaccounts_of_run hsmall hc₀ h
  have hprov := (provenance hc₀ h).1
  -- the subaccount of a sale determines its transaction
  have hbytes : ∀ s ∈ settlements c.history, ∀ x ∈ created c.history,
      s.transaction.bytes = x.transaction.bytes → s.transaction = x.transaction := by
    intro s hs x hx heq
    obtain ⟨e, he⟩ := hprov.sale s.frame s.balance s.jobs (mem_settlements.1 hs)
    have hxy := List.inj_on_of_nodup_map hpaid (mem_created.2 he) hx heq
    exact congrArg Creation.transaction hxy
  -- so distinct sales have distinct subaccounts
  have hkeys : ((settlements c.history).map fun s => s.transaction.bytes).Nodup := by
    refine List.Nodup.map_on ?_ hB.nodup.of_map
    intro s hs s' hs' heq
    obtain ⟨e, he⟩ := hprov.sale s'.frame s'.balance s'.jobs (mem_settlements.1 hs')
    have htr : s.transaction = s'.transaction := hbytes s hs _ (mem_created.2 he) heq
    exact List.inj_on_of_nodup_map hB.nodup hs hs' (congrArg Transaction.id htr)
  have htag : ∀ s ∈ settlements c.history, ∀ d ∈ s.jobs, d.bytes = s.transaction.bytes :=
    fun s hs => (hB.jobs s hs).2
  refine ⟨hB.nodup_transaction, ?_, hB.volume⟩
  intro x hx
  by_cases hmem : ∃ s ∈ settlements c.history, s.transaction = x.transaction
  · obtain ⟨s, hs, hsx⟩ := hmem
    refine Or.inr ⟨s, hs, hsx, (hB.jobs s hs).1, ?_⟩
    rw [← hsx]
    exact filter_flatMap_of_mem htag hkeys hs
  · rw [not_exists] at hmem
    refine Or.inl ⟨?_, filter_flatMap_eq_nil htag ?_⟩
    · intro hin
      obtain ⟨s, hs, hsx⟩ := List.mem_map.1 hin
      exact hmem s ⟨hs, hsx⟩
    · intro s hs heq
      exact hmem s ⟨hs, hbytes s hs x hx heq⟩

/-- One sale, to another account. -/
def oneSale : List Choice := Choice.mint ⟨[1]⟩ ++ Choice.sale ⟨[1]⟩ 1 40000 "C"

/-- A sale that satisfies the condition. -/
theorem settled_exactly_once_sample : ∃ c, sampleRun oneSale = some c ∧
    (settlements c.history).length = 1 ∧
    ((settlements c.history).map Settlement.transaction).Nodup ∧
    c.state.entrepot.totalVolume.toNat =
      ((settlements c.history).map fun s => s.transaction.price.toNat).sum := by
  obtain ⟨c, hc, hone⟩ := (by decide : ∃ c ∈ sampleRun oneSale,
    (settlements c.history).length = 1)
  have hallowed : (settleOnce .sample).guard.AllowsAll (program .sample) Config.sample
      oneSale := by decide
  obtain ⟨hnodup, -, hvolume⟩ :=
    settled_exactly_once Config.initial_sample (Actor.run_of_exec hallowed hc)
  exact ⟨c, hc, hone, hnodup, hvolume⟩

/-- The owner of a token buys it from itself, and two `settle` calls overlap. -/
def selfSale : List Choice :=
  Choice.mint ⟨[1]⟩ ++ Choice.list ⟨[1]⟩ 40000 ++ Choice.lock 40000 "B" ++ Choice.pay 1 40000 ++
    [.call (.settle ⟨[2]⟩ "t0"), .call (.settle ⟨[3]⟩ "t0"), .resume 0 .run, .resume 0 .run,
      .resume 0 .report, .resume 0 .report, .resume 0 .run, .resume 0 .run]

/-- **A transaction from an account to itself can be settled twice**: two sets of disbursements are
queued for one payment, and its price is counted twice. -/
theorem settled_twice : ∃ c, sampleRun selfSale = some c ∧ (created c.history).length = 1 ∧
    ¬ ((settlements c.history).map Settlement.transaction).Nodup ∧
    (pushed c.history).length = 6 ∧ c.state.entrepot.totalVolume = 80000 :=
  (by decide : ∃ c ∈ sampleRun selfSale, (created c.history).length = 1 ∧
    ¬ ((settlements c.history).map Settlement.transaction).Nodup ∧
    (pushed c.history).length = 6 ∧ c.state.entrepot.totalVolume = 80000)

/-! ### The sales history across upgrades -/

/-- The condition for an append-only history: `lock` creates its transaction while the counter of
ids stands at the number of transactions created so far, that is, not after an upgrade has reset it;
and no `settle` call completes for a transaction already recorded. -/
abbrev appendOnly (D : Deployment) : Discipline where
  call := fun _ _ => True
  list := fun _ _ => True
  lock := fun c _ => c.state.entrepot.nextTxId = (created c.history).length
  settle := fun c f b => Completes D c.state f b →
    c.state.entrepot.transactions.get f.transaction.id = none
  upgrade := fun _ => True

instance (D : Deployment) : (appendOnly D).Checkable :=
  ⟨inferInstance, inferInstance, inferInstance, inferInstance, inferInstance⟩

/-- **The sales history is append-only across upgrades.**  Distinct transactions have distinct ids;
every sale is recorded, under the id of its transaction, in an entry that no later segment or
upgrade changes; and there are as many entries as transactions settled. -/
theorem sales_history_appendOnly (hc₀ : Initial c₀)
    (h : Actor.Run (program D) (appendOnly D).guard c₀ c) :
    ((created c.history).map fun x => x.transaction.id).Nodup ∧
    (∀ s ∈ settlements c.history, ∃ t, c.state.entrepot.transactions.get s.transaction.id =
      some { s.transaction with closed := some t }) ∧
    c.state.entrepot.transactions.size =
      ((settlements c.history).map Settlement.transaction).dedup.length ∧
    ∀ c', Actor.Run (program D) (appendOnly D).guard c c' → ∀ n t,
      c.state.entrepot.transactions.get n = some t →
        c'.state.entrepot.transactions.get n = some t := by
  have hfresh : SettlesUnrecorded D (appendOnly D).guard :=
    fun _ _ _ _ hg => hg
  have hids : ∀ c f, (appendOnly D).guard.resume c (.canSettled (.ok ()) (.lock f)) .run →
      c.state.entrepot.nextTxId = (created c.history).length := fun _ _ hg => hg
  have hB := salesBook_of_run hfresh hc₀ h
  refine ⟨(freshIds_of_run hids hc₀ h).nodup, hB.recorded, ?_,
    fun c' h' n t ht => transactions_mono hfresh h' ht⟩
  rw [List.Nodup.dedup hB.nodup_transaction, List.length_map]
  exact hB.size

/-- Two sales with an upgrade before the first. -/
def upgradedSales : List Choice :=
  Choice.mint ⟨[1]⟩ ++ Choice.list ⟨[1]⟩ 30000 ++ [.restart 4] ++
    Choice.sale ⟨[1]⟩ 1 40000 "C" ++ Choice.sale ⟨[2]⟩ 2 50000 "D"

/-- Two sales after an upgrade satisfy the condition. -/
theorem sales_history_appendOnly_sample : ∃ c, sampleRun upgradedSales = some c ∧
    ((created c.history).map fun x => x.transaction.id).Nodup ∧
    c.state.entrepot.transactions.size = 2 := by
  obtain ⟨c, hc, htwo⟩ := (by decide : ∃ c ∈ sampleRun upgradedSales,
    ((settlements c.history).map Settlement.transaction).dedup.length = 2)
  have hallowed : (appendOnly .sample).guard.AllowsAll (program .sample) Config.sample
      upgradedSales := by decide
  obtain ⟨hids, -, hsize, -⟩ :=
    sales_history_appendOnly Config.initial_sample (Actor.run_of_exec hallowed hc)
  exact ⟨c, hc, hids, hsize.trans htwo⟩

/-- A sale, an upgrade, and another sale. -/
def saleUpgradeSale : List Choice :=
  [.restart 3] ++ Choice.sale ⟨[2]⟩ 2 50000 "D"

/-- **An upgrade resets the counter of ids**: the next transaction reuses the first id, and its sale
overwrites the first entry of the history. -/
theorem history_overwritten : ∃ c c', sampleRun oneSale = some c ∧
    (program .sample).exec c saleUpgradeSale = some c' ∧
    ¬ ((created c'.history).map fun x => x.transaction.id).Nodup ∧
    c.state.entrepot.transactions.get 0 ≠ none ∧
    c'.state.entrepot.transactions.get 0 ≠ c.state.entrepot.transactions.get 0 ∧
    c'.state.entrepot.transactions.size = 1 ∧
    ((settlements c'.history).map Settlement.transaction).dedup.length = 2 := by
  obtain ⟨c, hc, c', hc', hafter⟩ := (by decide : ∃ c ∈ sampleRun oneSale,
    ∃ c' ∈ (program .sample).exec c saleUpgradeSale,
      ¬ ((created c'.history).map fun x => x.transaction.id).Nodup ∧
      c.state.entrepot.transactions.get 0 ≠ none ∧
      c'.state.entrepot.transactions.get 0 ≠ c.state.entrepot.transactions.get 0 ∧
      c'.state.entrepot.transactions.size = 1 ∧
      ((settlements c'.history).map Settlement.transaction).dedup.length = 2)
  exact ⟨c, c', hc, hc', hafter⟩

end LegendsNft
