/-
**The EXT interface** (`Ext/lib.mo`).

The methods of the EXT standard that read or move a token.  `transfer` is the code up to
`await _Cap.insert`; nothing but the reply follows it.  Of a transfer request the fields `amount`
and `notify` are not read, and `memo` is only passed on to the CAP history.
-/

import LegendsNft.Entrepot

set_option relaxedAutoImplicit false
set_option autoImplicit false

namespace LegendsNft

namespace Ext

variable (D : Deployment)

/-- `Ext.Core.TransferRequest`. -/
structure TransferRequest where
  from' : User
  to' : User
  token : TokenIdentifier
  subaccount : Option SubAccount
  deriving DecidableEq, Repr

/-- The errors of `Ext.Core.TransferResponse` this implementation returns. -/
inductive TransferFailure
  | invalidToken (token : TokenIdentifier)
  | unauthorized (message : Text)
  | other (message : Text)
  deriving DecidableEq, Repr

/-- `transfer`: on success the ledger is written and the reply awaits the CAP insertion. -/
def transfer (s : Entrepot) (tokens : Tokens) (now : Time) (caller : Principal)
    (request : TransferRequest) :
    Except Trap (Tokens × Progress (Except TransferFailure ℕ) TokenIndex) :=
  match D.decode request.token with
  | .error _ => .ok (tokens, .ret (.error (.invalidToken request.token)))
  | .ok (_, index) =>
      match tokens.getOwner index.toNat with
      | .error e => .error e
      | .ok none => .ok (tokens, .ret (.error (.other "Token owner doesn't exist.")))
      | .ok (some token) =>
          let callerAccount := D.upper (D.accountText caller request.subaccount)
          let from' := D.upper (D.userAccount request.from')
          let to' := D.upper (D.userAccount request.to')
          let owner := D.upper token.owner
          if owner ≠ from' then
            .ok (tokens, .ret (.error (.unauthorized
              ("Owner \"" ++ owner ++ "\" is not caller \"" ++ from' ++ "\""))))
          else if from' ≠ callerAccount then
            .ok (tokens, .ret (.error (.unauthorized "Only the owner can do that.")))
          else if (s.getListing index).isSome then
            .ok (tokens, .ret (.error (.other "This token is currently listed for sale!")))
          else
            match tokens.transfer D now index callerAccount to' with
            | .error e => .error e
            | .ok tokens => .ok (tokens, .await index)

/-- `metadata`; the blob returned is the encoding of one fixed text. -/
def metadata (tokens : Tokens) (tokenId : TokenIdentifier) :
    Except Trap (Except CommonError Text) :=
  match D.decode tokenId with
  | .error _ => .ok (.error (.invalidToken tokenId))
  | .ok (_, index) =>
      match tokens.getOwner index.toNat with
      | .error e => .error e
      | .ok none => .ok (.error (.invalidToken tokenId))
      | .ok (some _) => .ok (.ok "The Fool")

/-- `bearer`. -/
def bearer (tokens : Tokens) (tokenId : TokenIdentifier) :
    Except Trap (Except CommonError AccountIdentifier) :=
  match D.decode tokenId with
  | .error _ => .ok (.error (.invalidToken tokenId))
  | .ok (_, index) =>
      match tokens.getOwner index.toNat with
      | .error e => .error e
      | .ok none => .ok (.error (.invalidToken tokenId))
      | .ok (some token) => .ok (.ok token.owner)

end Ext

end LegendsNft
