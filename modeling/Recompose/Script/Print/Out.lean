import Recompose.Script.Node

namespace Recompose.Script.Print

structure Out where
  code : String := ""
  indent : Nat := 0
  spaceNext : Bool := false
  stmtStart : Nat := 0
  arrowStart : Nat := 0
  defaultStart : Nat := 0
  /-- The length of the text after a number that a point may not follow at once. -/
  dotSpace : Nat := 0
  /-- The last sign and the length of the text after it. -/
  sign : String := ""
  signEnd : Nat := 0
  jsx : Bool := false

abbrev Layout := StateM Out Unit

def text (s : String) : Layout :=
  modify fun o => { o with code := o.code ++ s }

def length : StateM Out Nat := do
  return (← get).code.utf8ByteSize

def space : Layout := text " "

def newline : Layout := text "\n"

def terminator : Layout := text ";\n"

def indentation : Layout := do
  let o ← get
  if o.spaceNext then
    set { o with spaceNext := false }
    space
  else
    text (String.ofList (List.replicate o.indent '\t'))

def indented (p : Layout) : Layout := do
  modify fun o => { o with indent := o.indent + 1 }
  p
  modify fun o => { o with indent := o.indent - 1 }

def skipped : Layout := pure ()

def when (b : Bool) (p : Layout) : Layout :=
  if b then p else skipped

def wrap (b : Bool) (p : Layout) : Layout :=
  if b then do
    text "("
    p
    text ")"
  else p

def each : List Layout → Layout
  | [] => skipped
  | p :: ps => do
    p
    each ps

def joined (sep : String) : List Layout → Layout
  | [] => skipped
  | [p] => p
  | p :: ps => do
    p
    text sep
    joined sep ps

def commas (ps : List Layout) : Layout :=
  joined ", " ps

def lines (sep : String) (ps : List Layout) : Layout := do
  indented (go ps)
  newline
  indentation
where
  go : List Layout → Layout
    | [] => skipped
    | [p] => do
      newline
      indentation
      p
    | p :: ps => do
      newline
      indentation
      p
      text sep
      go ps

def braces (ps : List Layout) : Layout := do
  if ps.isEmpty then
    text "\x7b\x7d"
  else
    text "\x7b"
    newline
    indented (each ps)
    indentation
    text "\x7d"

def optional (p : Option Layout) (f : Layout → Layout) : Layout :=
  match p with
  | some p => f p
  | none => skipped

/-- A sign in front of its operand, kept apart from a sign that it would merge with. -/
def leadingSign (s : String) : Layout := do
  let o ← get
  let merges := o.signEnd == o.code.utf8ByteSize &&
    ((o.sign == "+" && (s == "+" || s == "++")) || (o.sign == "-" && (s == "-" || s == "--")))
  when merges space
  text s
  modify fun o => { o with sign := s, signEnd := o.code.utf8ByteSize }

end Recompose.Script.Print
