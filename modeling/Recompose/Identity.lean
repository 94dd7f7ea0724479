import Recompose.Digest.Sha256

namespace Recompose

structure Identity where
  mask : UInt64
deriving DecidableEq, Repr, Inhabited

namespace Identity

def ofWidth (width : Nat) : Identity :=
  ⟨if 64 ≤ width then -1 else ((1 : UInt64) <<< UInt64.ofNat width) - 1⟩

def width (i : Identity) : Nat :=
  if i.mask = 0 then 0 else i.mask.toNat.log2 + 1

def path (name component : String) : String :=
  name ++ "#" ++ component

def ownComponent : String := "scope"

def digest (text : String) : UInt64 :=
  match Digest.Sha256.hash text.toUTF8.toList with
  | a :: b :: _ => (a.toUInt64 <<< 32) ||| b.toUInt64
  | _ => 0

def callSite (i : Identity) (name : String) (ordinal : Nat) : UInt64 :=
  digest (path name (toString ordinal)) &&& i.mask

def ownScope (i : Identity) (name : String) : UInt64 :=
  digest (path name ownComponent) &&& i.mask

def literal (offset : UInt64) : String :=
  toString offset.toNat

end Identity

namespace QualifiedName

def declaration (file : String) (owner : Option String) (name : String) : String :=
  match owner with
  | some owner => file ++ "::" ++ owner ++ "." ++ name
  | none => file ++ "::" ++ name

def nested (parent : String) (ordinal argument : Nat) : String :=
  parent ++ "/" ++ toString ordinal ++ ":" ++ toString argument

/-- The name of a marked closure that is no argument of a woven call. -/
def free (parent : String) (index : Nat) : String :=
  parent ++ "/memo-lambda#" ++ toString index

end QualifiedName

structure SiteCounter where
  name : String
  calls : Nat := 0
  closures : Nat := 0
deriving DecidableEq, Repr, Inhabited

namespace SiteCounter

def nextCall (s : SiteCounter) : Nat × SiteCounter :=
  (s.calls, { s with calls := s.calls + 1 })

def nextClosure (s : SiteCounter) : String × SiteCounter :=
  (QualifiedName.free s.name s.closures, { s with closures := s.closures + 1 })

end SiteCounter

end Recompose
