import Recompose.Script.Node
import Recompose.Text.WordChar

namespace Recompose

open Script

structure Markers where
  memo : Bool := false
  skip : Bool := false
  intrinsic : Bool := false
  entry : Bool := false
deriving DecidableEq, Repr, Inhabited

namespace Markers

def isEmpty (m : Markers) : Bool :=
  !(m.memo || m.skip || m.intrinsic || m.entry)

def isMemoLike (m : Markers) : Bool :=
  m.memo || m.intrinsic || m.entry

def merge (m n : Markers) : Markers where
  memo := m.memo || n.memo
  skip := m.skip || n.skip
  intrinsic := m.intrinsic || n.intrinsic
  entry := m.entry || n.entry

def mergeAll : List Markers → Markers
  | [] => {}
  | m :: ms => m.merge (mergeAll ms)

def ofWord? (word : List Char) : Option Markers :=
  match String.ofList (word.map Char.toLower) with
  | "memo" => some { memo := true }
  | "memo_skip" => some { skip := true }
  | "memo_intrinsic" => some { intrinsic := true }
  | "memo_entry" => some { entry := true }
  | _ => none

/-- The names that are looked for behind an `@`. Where several would do, the first counts. -/
def names : List String :=
  ["memo_skip", "memo_intrinsic", "memo_entry", "memo"]

/-- Simple case folding, as far as it leads to ASCII letters: the long s and the Kelvin sign fold, too. -/
def folded (c : Char) : Char :=
  if c = '\u017f' then 's' else if c = '\u212a' then 'k' else c.toLower

def isBoundary (before after : List Char) : Bool :=
  before.getLast?.any Text.isWordChar != after.head?.any Text.isWordChar

/-- The front of the text, if it is the name up to folding and ends at a boundary. -/
def front? (name : String) (text : List Char) : Option (List Char) :=
  let front := text.take name.length
  if front.map folded = name.toList ∧ isBoundary front (text.drop name.length) then some front
  else none

/-- The markers of a text, looked for from the left. The first `covered` characters belong to what was
found last. -/
def scan : Nat → List Char → Markers
  | _, [] => {}
  | covered + 1, _ :: cs => scan covered cs
  | 0, c :: cs =>
    match if c = '@' then names.findSome? (front? · cs) else none with
    | some word => ((ofWord? word).getD {}).merge (scan word.length cs)
    | none => scan 0 cs

/-- The markers of a text. What is found by folding only is no marker. -/
def ofText (text : List Char) : Markers :=
  scan 0 text

def ofDecorator? : Expr → Option Markers
  | .ref _ name => ofWord? name.toList
  | .apply _ (.call _ _) (.ref _ name) _ _ => ofWord? name.toList
  | _ => none

def ofDecorators (decorators : List Expr) : Markers :=
  mergeAll (decorators.filterMap ofDecorator?)

end Markers

end Recompose
