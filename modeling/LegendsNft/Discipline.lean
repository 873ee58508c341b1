/-
**Conditions on runs.**

Some guarantees of the marketplace hold in every run, some only in the runs that stay clear of a
race.  Such a race always goes through one of the three resumptions that write to the marketplace —
of `list`, of `lock`, and of `settle` — so a condition on runs says which calls may arrive, when
each of the three may be resumed, and when the canister may be upgraded.  Everything else is left
to the scheduler.

Main definitions:

* `LegendsNft.Write` — the resumptions that write to the marketplace;
* `LegendsNft.Discipline` — a condition on runs, with `LegendsNft.Discipline.guard`;
* `LegendsNft.Deployment.sample`, `LegendsNft.Config.sample` — a small deployment, on which runs are
  exhibited.
-/

import LegendsNft.Lifecycle

set_option relaxedAutoImplicit false
set_option autoImplicit false

namespace LegendsNft

open Entrepot

/-! ### Conditions -/

/-- A resumption that writes to the marketplace. -/
inductive Write
  | list (f : ListFrame)
  | lock (f : LockFrame)
  | settle (f : SettleFrame) (balance : UInt64)

/-- What a resumption writes. -/
def Task.write : Task → Wake → Option Write
  | .canSettled (.ok ()) (.list f), .run => some (.list f)
  | .canSettled (.ok ()) (.lock f), .run => some (.lock f)
  | .reported f b _, .run => some (.settle f b)
  | _, _ => none

theorem Task.write_eq_lock {k : Task} {r : Wake} {f : LockFrame}
    (h : k.write r = some (.lock f)) : k = .canSettled (.ok ()) (.lock f) ∧ r = .run := by
  unfold Task.write at h
  split at h <;> cases h
  exact ⟨rfl, rfl⟩

theorem Task.write_eq_settle {k : Task} {r : Wake} {f : SettleFrame} {b : UInt64}
    (h : k.write r = some (.settle f b)) : ∃ k', k = .reported f b k' ∧ r = .run := by
  unfold Task.write at h
  split at h <;> cases h
  exact ⟨_, rfl, rfl⟩

/-- A condition on runs: which calls may arrive, when the resumptions that write to the marketplace
may happen, and when the canister may be upgraded. -/
structure Discipline where
  call : Config → Input → Prop
  list : Config → ListFrame → Prop
  lock : Config → LockFrame → Prop
  settle : Config → SettleFrame → UInt64 → Prop
  upgrade : Config → Prop

namespace Discipline

variable (X : Discipline)

/-- The condition on a resumption. -/
def write (c : Config) : Option Write → Prop
  | none => True
  | some (.list f) => X.list c f
  | some (.lock f) => X.lock c f
  | some (.settle f balance) => X.settle c f balance

/-- The condition as a guard on runs. -/
def guard : Guard :=
  ⟨X.call, fun c k r => X.write c (k.write r), fun c _ => X.upgrade c⟩

/-- A condition that can be checked on a concrete run. -/
class Checkable where
  call : ∀ c i, Decidable (X.call c i)
  list : ∀ c f, Decidable (X.list c f)
  lock : ∀ c f, Decidable (X.lock c f)
  settle : ∀ c f b, Decidable (X.settle c f b)
  upgrade : ∀ c, Decidable (X.upgrade c)

section Checkable

variable [hX : X.Checkable]

instance (c : Config) : ∀ x, Decidable (X.write c x)
  | none => isTrue trivial
  | some (.list f) => hX.list c f
  | some (.lock f) => hX.lock c f
  | some (.settle f balance) => hX.settle c f balance

instance (c : Config) (i : Input) : Decidable (X.guard.call c i) := hX.call c i

instance (c : Config) (k : Task) (r : Wake) : Decidable (X.guard.resume c k r) :=
  inferInstanceAs (Decidable (X.write c (k.write r)))

instance (c : Config) (u : UInt16) : Decidable (X.guard.restart c u) := hX.upgrade c

end Checkable

end Discipline

/-! ### A small deployment -/

theorem toUpper_of_not_lower {c : Char} (h : ¬ ('a'.val ≤ c.val ∧ c.val ≤ 'z'.val)) :
    c.toUpper = c := by
  unfold Char.toUpper
  rw [dif_neg h]

theorem toUpper_toUpper (c : Char) : c.toUpper.toUpper = c.toUpper := by
  by_cases h : 'a'.val ≤ c.val ∧ c.val ≤ 'z'.val
  · refine toUpper_of_not_lower ?_
    have hv : c.toUpper.val = c.val + ('A'.val - 'a'.val) := by
      unfold Char.toUpper
      rw [dif_pos h]
    have ha : 'a'.val = 97 := rfl
    have hz : 'z'.val = 122 := rfl
    have hA : 'A'.val = 65 := rfl
    rw [ha, hz] at h
    rw [hv, ha, hz, hA]
    simp only [UInt32.le_iff_toNat_le, UInt32.toNat_add, UInt32.toNat_sub,
      UInt32.reduceToNat] at h ⊢
    omega
  · rw [toUpper_of_not_lower h, toUpper_of_not_lower h]

/-- The account text of a short principal: one letter for each byte. -/
def sampleText (p : Principal) : AccountIdentifier :=
  String.ofList (p.bytes.map fun b => Char.ofNat (65 + b.toNat))

/-- A deployment with the token identifiers `"t0"`, of this canister, and `"f0"`, of another. -/
def Deployment.sample : Deployment where
  cid := ⟨[0]⟩
  decode := fun token =>
    if token = "t0" then .ok (⟨[0]⟩, 0)
    else if token = "f0" then .ok (⟨[9]⟩, 0)
    else .error "not a token identifier"
  accountText := fun p _ => sampleText p
  userAccount := fun u =>
    match u with
    | .address a => a
    | .principal p => sampleText p
  hexDecode := fun _ => .ok []
  charToUpper := Char.toUpper
  charToUpper_idem := toUpper_toUpper

/-- The freshly installed canister, with three tokens to mint. -/
def Config.sample : Config :=
  ⟨⟨Canister.fresh ⟨[7]⟩ 3, fun _ => 0, 0⟩, [], []⟩

theorem Config.initial_sample : Initial Config.sample := ⟨⟨⟨[7]⟩, 3, rfl⟩, rfl, rfl⟩

/-- The choices of a scheduler of the canister. -/
abbrev Choice := Actor.Act Input Wake UInt16

namespace Choice

/-- The first token is minted to an account of one letter. -/
def mint (owner : Principal) : List Choice := [.call (.mint ⟨[7]⟩ (.principal owner))]

/-- A `list` call that nothing comes between. -/
def list (owner : Principal) (price : UInt64) : List Choice :=
  [.call (.list owner ⟨none, some price, "t0"⟩), .resume 0 .run, .resume 0 .run]

/-- A `lock` call that nothing comes between. -/
def lock (price : UInt64) (buyer : AccountIdentifier) : List Choice :=
  [.call (.lock ⟨[2]⟩ "t0" price buyer), .resume 0 .run, .resume 0 .run]

/-- The buyer of the `n`-th lock pays. -/
def pay (n amount : ℕ) : List Choice :=
  [.call (.deposit (natToSubAccount (4294967296 + n)) amount)]

/-- A `settle` call up to the moment it is told the balance. -/
def settle : List Choice := [.call (.settle ⟨[2]⟩ "t0"), .resume 0 .run, .resume 0 .report]

/-- A lock whose buyer has paid. -/
def paidLock : List Choice := mint ⟨[1]⟩ ++ list ⟨[1]⟩ 40000 ++ lock 40000 "C" ++ pay 1 40000

/-- A sale of the first token, from the listing to the end. -/
def sale (owner : Principal) (n : ℕ) (price : UInt64) (buyer : AccountIdentifier) : List Choice :=
  list owner price ++ lock price buyer ++ pay n price.toNat ++ settle ++
    [.resume 0 .run, .resume 0 .run]

end Choice

/-- The transaction of the first lock, by account `"C"` on a listing of account `"B"`. -/
def firstTransaction : Transaction :=
  { id := 0
    token := "t0"
    memo := none
    from' := "B"
    to' := "C"
    seller := ⟨[1]⟩
    price := 40000
    initiated := 0
    closed := none
    bytes := natToSubAccount 4294967297 }

/-- The configuration a list of choices leads to on the small deployment. -/
def sampleRun (as : List Choice) : Option Config := (program .sample).exec Config.sample as

end LegendsNft
