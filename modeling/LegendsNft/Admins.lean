/-
**The admin list** (`Admins/lib.mo`).

The admins are a buffer of principals, kept across upgrades through `toStable`; the constructor
asserts that the list it is given is not empty.  An admin may add and remove principals, itself
included.
-/

import LegendsNft.Types

set_option relaxedAutoImplicit false
set_option autoImplicit false

namespace LegendsNft

/-- The state of `Admins.Admins`. -/
structure Admins where
  admins : List Principal
  deriving DecidableEq, Repr

namespace Admins

/-- The constructor. -/
def new (admins : List Principal) : Except Trap Admins :=
  if admins.length ≠ 0 then .ok ⟨admins⟩ else .error .assertion

/-- `toStable`. -/
def toStable (s : Admins) : List Principal := s.admins

/-- `_isAdmin`. -/
def isAdmin (s : Admins) (p : Principal) : Bool := s.admins.any fun a => a == p

/-- `addAdmin`: adds a new principal as an admin. -/
def addAdmin (s : Admins) (caller p : Principal) : Except Trap Admins :=
  if s.isAdmin caller then .ok ⟨s.admins ++ [p]⟩ else .error .assertion

/-- `removeAdmin`: removes the given principal from the list of admins. -/
def removeAdmin (s : Admins) (caller p : Principal) : Except Trap Admins :=
  if s.isAdmin caller then .ok ⟨s.admins.filter fun a => a != p⟩ else .error .assertion

end Admins

end LegendsNft
