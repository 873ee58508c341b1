/-
**The data of the canister.**

The records of `Entrepot/types.mo`, `Tokens/types.mo` and the parts of the EXT interface the
marketplace uses, together with the library functions the canister is linked against.  Fixed-width
integers keep their width (`Nat8`, `Nat32`, `Nat64` are `UInt8`, `UInt32`, `UInt64`), times are
integers, and texts are strings.

Main definitions:

* `LegendsNft.Deployment` — the canister's own principal and the packages it imports;
* `LegendsNft.Listing`, `LegendsNft.Transaction`, `LegendsNft.Disbursement`, `LegendsNft.Token` —
  the records of the marketplace and of the ownership ledger;
* `LegendsNft.Trap` — the ways a segment of code can trap;
* `LegendsNft.Progress` — a segment ends by returning, or by awaiting.
-/

import Mathlib.Data.UInt

set_option relaxedAutoImplicit false
set_option autoImplicit false

namespace LegendsNft

/-! ### Names of the platform and of the EXT interface -/

/-- Nanoseconds since the epoch. -/
abbrev Time := ℤ

abbrev Text := String

abbrev Blob := List UInt8

abbrev SubAccount := List UInt8

/-- The subaccount the ledger takes where none is given: all zeros. -/
def defaultSubAccount : SubAccount := List.replicate 32 0

abbrev AccountIdentifier := Text

abbrev TokenIdentifier := Text

abbrev TokenIndex := UInt32

/-- A principal is a blob of bytes. -/
structure Principal where
  bytes : Blob
  deriving DecidableEq, Repr

/-- An EXT user. -/
inductive User
  | address (a : AccountIdentifier)
  | principal (p : Principal)
  deriving DecidableEq, Repr

/-- `Ext.CommonError`. -/
inductive CommonError
  | invalidToken (token : TokenIdentifier)
  | other (message : Text)
  deriving DecidableEq, Repr

/-- What the deployed canister is linked against: its own principal, and the functions of the
packages it imports that its behaviour depends on. -/
structure Deployment where
  /-- The canister's own principal, an argument of the actor class. -/
  cid : Principal
  /-- `Ext.TokenIdentifier.decode`. -/
  decode : TokenIdentifier → Except Text (Principal × TokenIndex)
  /-- `AccountBlob.toText` of `AccountBlob.fromPrincipal`. -/
  accountText : Principal → Option SubAccount → AccountIdentifier
  /-- `Ext.User.toAccountIdentifier`. -/
  userAccount : User → AccountIdentifier
  /-- `Hex.decode`. -/
  hexDecode : Text → Except Text Blob
  /-- `Prim.charToUpper`. -/
  charToUpper : Char → Char
  /-- An upper-case letter is its own upper case. -/
  charToUpper_idem : ∀ c, charToUpper (charToUpper c) = charToUpper c

namespace Deployment

/-- `Text.map(·, Prim.charToUpper)`. -/
def upper (D : Deployment) (t : Text) : Text := String.ofList (t.toList.map D.charToUpper)

@[simp] theorem upper_upper (D : Deployment) (t : Text) : D.upper (D.upper t) = D.upper t := by
  simp only [upper, String.toList_ofList, List.map_map]
  congr 2
  funext c
  exact D.charToUpper_idem c

end Deployment

/-! ### Traps and suspensions -/

/-- The ways a segment can trap: fixed-width overflow, a natural number below zero, a conversion
that would lose precision, an index out of bounds, a failed assertion. -/
inductive Trap
  | overflow
  | underflow
  | losesPrecision
  | outOfBounds
  | assertion
  deriving DecidableEq, Repr

/-- A segment ends by returning a value or by awaiting, with the locals its continuation needs. -/
inductive Progress (α φ : Type)
  | ret (a : α)
  | await (frame : φ)
  deriving DecidableEq

/-- A checked operation, as a computation that traps. -/
def orTrap {α : Type} (t : Trap) : Option α → Except Trap α
  | some a => .ok a
  | none => .error t

@[simp] theorem orTrap_eq_ok {α : Type} {t : Trap} {o : Option α} {a : α} :
    orTrap t o = .ok a ↔ o = some a := by
  cases o <;> simp [orTrap]

@[simp] theorem orTrap_eq_error {α : Type} {t t' : Trap} {o : Option α} :
    orTrap t o = .error t' ↔ o = none ∧ t = t' := by
  cases o <;> simp [orTrap]

/-- A computation in two parts returns when both do. -/
theorem bind_eq_ok {α β ε : Type} {x : Except ε α} {k : α → Except ε β} {b : β} :
    (x >>= k) = .ok b ↔ ∃ a, x = .ok a ∧ k a = .ok b := by
  cases x <;> simp [bind, Except.bind]

theorem map_eq_ok {α β ε : Type} {x : Except ε α} {f : α → β} {b : β} :
    x.map f = .ok b ↔ ∃ a, x = .ok a ∧ f a = b := by
  cases x <;> simp [Except.map]

/-- A computation in two parts fails when one of them does. -/
theorem bind_eq_error {α β ε : Type} {x : Except ε α} {k : α → Except ε β} {e : ε} :
    (x >>= k) = .error e ↔ x = .error e ∨ ∃ a, x = .ok a ∧ k a = .error e := by
  cases x <;> simp [bind, Except.bind]

/-! ### The ownership ledger -/

/-- `Tokens.Token`. -/
structure Token where
  createdAt : Time
  owner : AccountIdentifier
  txId : Text
  deriving DecidableEq, Repr

/-- `Tokens.Metadata`. -/
structure Metadata where
  back : Text
  border : Text
  ink : Text
  stock : Text
  normal : Text
  mask : Text
  deriving DecidableEq, Repr

/-! ### The marketplace -/

/-- `Entrepot.Listing`. -/
structure Listing where
  locked : Option Time
  price : UInt64
  seller : Principal
  subaccount : Option SubAccount
  deriving DecidableEq, Repr

/-- `Entrepot.ListRequest`. -/
structure ListRequest where
  from_subaccount : Option SubAccount
  price : Option UInt64
  token : TokenIdentifier
  deriving DecidableEq, Repr

/-- `Entrepot.Transaction`. -/
structure Transaction where
  id : ℕ
  token : TokenIdentifier
  memo : Option Blob
  from' : AccountIdentifier
  to' : AccountIdentifier
  seller : Principal
  price : UInt64
  initiated : Time
  closed : Option Time
  bytes : SubAccount
  deriving DecidableEq, Repr

/-- `Entrepot.Disbursement`, a job of the queue: the token index it stems from, the account paid,
the subaccount paid from, and the amount. -/
structure Disbursement where
  index : TokenIndex
  address : AccountIdentifier
  bytes : SubAccount
  amount : UInt64
  deriving DecidableEq, Repr

/-- The type of the table of fees: each recipient with its share in units of 1/100000. -/
abbrev FeeTable := List (AccountIdentifier × UInt64)

/-! ### The ledger of the NNS -/

/-- `NNSTypes.TransferError`. -/
inductive TransferError
  | badFee (expected_fee : UInt64)
  | insufficientFunds (balance : UInt64)
  | txTooOld (allowed_window_nanos : UInt64)
  | txCreatedInFuture
  | txDuplicate (duplicate_of : UInt64)
  deriving DecidableEq, Repr

/-- `NNSTypes.TransferResult`. -/
inductive TransferResult
  | ok (block : UInt64)
  | err (e : TransferError)
  deriving DecidableEq, Repr

end LegendsNft
