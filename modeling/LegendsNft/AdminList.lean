/-
**The admin list over its calls and upgrades.**

Membership in the admin list is that of a set: adding a principal that is there already adds a copy,
and removing one removes all of its copies.  What is not kept is that the list has a member.  An
admin may remove itself, and when it is the last one the list is empty: nobody can call the admin
interface any more, and the next upgrade traps in the constructor.  So the canister stays
upgradable along a sequence of calls exactly when no admin removes the only admin there is.

Main definitions:

* `LegendsNft.Admins.members` — the admins, as a set;
* `LegendsNft.Admins.Governed` — somebody is an admin, and the canister can be upgraded;
* `LegendsNft.Admins.Spares` — the condition on a call: it leaves another admin.

Main results:

* `LegendsNft.Admins.members_of_removeAdmin` — removing an admin, as an operation on sets;
* `LegendsNft.Admins.governed_iff` — **the canister can always be upgraded exactly when every
  removal leaves an admin**.
-/

import Mathlib.Data.Set.Insert
import LegendsNft.Admins
import LegendsNft.Sequence

set_option relaxedAutoImplicit false
set_option autoImplicit false

namespace LegendsNft

namespace Admins

/-! ### Membership -/

/-- The admins, as a set. -/
def members (s : Admins) : Set Principal := {p | s.isAdmin p}

theorem isAdmin_iff {s : Admins} {p : Principal} : s.isAdmin p ↔ p ∈ s.admins := by
  simp [isAdmin]

theorem mem_members {s : Admins} {p : Principal} : p ∈ s.members ↔ p ∈ s.admins := isAdmin_iff

/-- **Removing an admin** removes all of its copies, and nobody else. -/
theorem members_of_removeAdmin {s s' : Admins} {caller p : Principal}
    (h : s.removeAdmin caller p = .ok s') : s'.members = s.members \ {p} := by
  unfold removeAdmin at h
  split at h
  · cases h
    ext q
    simp [mem_members]
  · cases h

/-! ### Sequences of calls -/

/-- A call that writes to the admin list, or an upgrade. -/
inductive Call
  | addAdmin (caller p : Principal)
  | removeAdmin (caller p : Principal)
  | upgrade

/-- What a call does to the admin list, if it does not trap. -/
def handle (s : Admins) : Call → Except Trap Admins
  | .addAdmin caller p => s.addAdmin caller p
  | .removeAdmin caller p => s.removeAdmin caller p
  | .upgrade => new s.toStable

/-- The admin list after a call: a call that traps is rolled back, and an upgrade that traps is not
made. -/
def call (s : Admins) (c : Call) : Admins :=
  match s.handle c with
  | .ok s' => s'
  | .error _ => s

/-- The admin list after some calls. -/
def after (start : Admins) (cs : List Call) : Admins := Sequence.after call start cs

@[simp] theorem after_append_singleton (start : Admins) (cs : List Call) (c : Call) :
    start.after (cs ++ [c]) = (start.after cs).call c :=
  Sequence.after_append_singleton call start cs c

/-! ### Staying upgradable -/

/-- There is an admin, and the constructor accepts the list. -/
structure Governed (s : Admins) : Prop where
  nonempty : s.admins ≠ []
  upgrade : new s.toStable = .ok s
  admin : ∃ p, s.isAdmin p

theorem governed_iff_ne_nil {s : Admins} : Governed s ↔ s.admins ≠ [] := by
  constructor
  · intro h
    exact h.nonempty
  · intro h
    refine ⟨h, ?_, ?_⟩
    · rw [new, toStable, if_pos (by simpa using h)]
    · obtain ⟨p, hp⟩ := List.exists_mem_of_ne_nil _ h
      exact ⟨p, isAdmin_iff.2 hp⟩

/-- A list has a member exactly when the set has. -/
theorem governed_iff_members {s : Admins} : Governed s ↔ s.members.Nonempty := by
  rw [governed_iff_ne_nil]
  constructor
  · intro h
    obtain ⟨p, hp⟩ := List.exists_mem_of_ne_nil _ h
    exact ⟨p, mem_members.2 hp⟩
  · rintro ⟨p, hp⟩
    exact List.ne_nil_of_mem (mem_members.1 hp)

/-- A call spares an admin when it is not the removal of the only one. -/
def Spares (s : Admins) : Call → Prop
  | .removeAdmin caller p => s.isAdmin caller → ∃ q, q ≠ p ∧ s.isAdmin q
  | _ => True

/-- **Every call that spares an admin** leaves the canister governed, and no other call does. -/
theorem governed_call_iff {s : Admins} (h : Governed s) (c : Call) :
    Governed (s.call c) ↔ s.Spares c := by
  cases c with
  | upgrade =>
      have hcall : s.call .upgrade = s := by simp only [call, handle, h.upgrade]
      rw [hcall]
      exact iff_of_true h trivial
  | addAdmin caller p =>
      refine iff_of_true ?_ trivial
      by_cases hc : s.isAdmin caller
      · simp [governed_iff_ne_nil, call, handle, addAdmin, hc]
      · have hcall : s.call (.addAdmin caller p) = s := by simp [call, handle, addAdmin, hc]
        rw [hcall]
        exact h
  | removeAdmin caller p =>
      by_cases hc : s.isAdmin caller
      · have hrem : s.removeAdmin caller p = .ok (s.call (.removeAdmin caller p)) := by
          simp [call, handle, removeAdmin, hc]
        rw [governed_iff_members, members_of_removeAdmin hrem]
        constructor
        · rintro ⟨q, hq, hqp⟩ -
          exact ⟨q, hqp, hq⟩
        · intro hspare
          obtain ⟨q, hqp, hq⟩ := hspare hc
          exact ⟨q, hq, hqp⟩
      · have hcall : s.call (.removeAdmin caller p) = s := by
          simp [call, handle, removeAdmin, hc]
        rw [hcall]
        exact iff_of_true h fun hc' => absurd hc' hc

/-- A removal by an admin, in a sequence of calls, removes the principal and nobody else. -/
def RemovesAlong (start : Admins) (cs : List Call) : Prop :=
  ∀ pre caller p, pre ++ [.removeAdmin caller p] <+: cs → (start.after pre).isAdmin caller →
    (start.after (pre ++ [.removeAdmin caller p])).members = (start.after pre).members \ {p}

theorem removesAlong (start : Admins) (cs : List Call) : RemovesAlong start cs := by
  intro pre caller p _ hc
  have hremoved : (start.after pre).removeAdmin caller p =
      .ok (start.after (pre ++ [.removeAdmin caller p])) := by
    simp [call, handle, removeAdmin, hc]
  exact members_of_removeAdmin hremoved

/-- **The canister can always be upgraded** along a sequence of calls, and membership is that of a
set, exactly when every removal by an admin leaves another admin. -/
theorem governed_iff {admins : List Principal} {start : Admins} (h : new admins = .ok start)
    (cs : List Call) :
    (∀ pre, pre <+: cs → Governed (start.after pre)) ∧ RemovesAlong start cs ↔
      ∀ pre c, pre ++ [c] <+: cs → (start.after pre).Spares c := by
  have hstart : Governed start := by
    unfold new at h
    split at h
    · cases h
      rename_i hlength
      exact governed_iff_ne_nil.2 fun hnil => hlength (congrArg List.length hnil)
    · cases h
  rw [and_iff_left (removesAlong start cs)]
  refine Sequence.forall_prefix_iff (I := fun pre => Governed (start.after pre)) hstart ?_
    (fun _ => id) ?_ cs
  · intro pre c hpre hc
    rw [after_append_singleton]
    exact (governed_call_iff hpre c).2 hc
  · intro pre c hpre hc
    rw [after_append_singleton] at hc
    exact (governed_call_iff hpre c).1 hc

/-- An admin and a user. -/
def sampleAdmin : Principal := ⟨[1]⟩

def sampleUser : Principal := ⟨[2]⟩

/-- The user is made an admin, removes itself, and the canister is upgraded. -/
def sampleCalls : List Call :=
  [.addAdmin sampleAdmin sampleUser, .removeAdmin sampleUser sampleUser, .upgrade]

theorem governed_iff_sample :
    (∀ pre, pre <+: sampleCalls → Governed ((⟨[sampleAdmin]⟩ : Admins).after pre)) ∧
        RemovesAlong ⟨[sampleAdmin]⟩ sampleCalls ↔
      ∀ pre c, pre ++ [c] <+: sampleCalls → ((⟨[sampleAdmin]⟩ : Admins).after pre).Spares c :=
  governed_iff (rfl : new [sampleAdmin] = .ok ⟨[sampleAdmin]⟩) sampleCalls

/-- The only admin removes itself: nobody is an admin any more, and the upgrade traps. -/
theorem last_admin_leaves :
    ((⟨[sampleAdmin]⟩ : Admins).after [.removeAdmin sampleAdmin sampleAdmin]).admins = [] ∧
      new ((⟨[sampleAdmin]⟩ : Admins).after [.removeAdmin sampleAdmin sampleAdmin]).toStable =
        .error .assertion ∧
      ¬Governed ((⟨[sampleAdmin]⟩ : Admins).after [.removeAdmin sampleAdmin sampleAdmin]) := by
  refine ⟨by decide, by decide, ?_⟩
  rw [governed_iff_ne_nil]
  decide

end Admins

end LegendsNft
