import Recompose.Script.Scan

namespace Recompose.Script

open Recompose.Text

structure Context where
  noIn : Bool := false
  yields : Bool := false
  awaits : Bool := false
  noConditional : Bool := false
  /-- The expression of a decorator: a bracket starts the next member. -/
  decorator : Bool := false
  ambient : Bool := false
deriving Repr, Inhabited

structure Cursor where
  token : Token
  rest : List Char
  pos : Nat
  size : Nat
  last : Nat := 0
  comments : List Comment := []
  /-- Offsets of shorthand properties with a default that are not part of a pattern yet. -/
  covers : List Nat := []
  context : Context
  jsx : Bool

abbrev Parser := StateT Cursor Option

namespace Parser

def token : Parser Token := do
  return (← get).token

def accept (g : Scan.Gap) (f : Scan.Found) : Parser Unit :=
  modify fun c =>
    let stop := g.pos + byteWidth f.raw
    { c with
      token :=
        { kind := f.kind, text := f.text, raw := String.ofList f.raw, span := ⟨g.pos, stop⟩,
          newline := g.newline, escaped := f.escaped, pureMark := g.pureMark,
          effectFreeMark := g.effectFreeMark }
      rest := f.rest
      pos := stop
      comments := g.comments }

def next : Parser Unit := do
  let c ← get
  let (g, cs) ← (Scan.skip .blank { pos := c.pos, comments := c.comments } c.rest : Option _)
  let f ← (Scan.found? (c.size - g.pos + 1) cs : Option _)
  accept g f
  modify fun d => { d with last := c.token.span.stop }

def reread (reader : List Char → Option Scan.Found) : Parser Unit := do
  let c ← get
  let f ← (reader (c.token.raw.toList ++ c.rest) : Option _)
  accept
    { pos := c.token.span.start, newline := c.token.newline, comments := c.comments,
      pureMark := c.token.pureMark, effectFreeMark := c.token.effectFreeMark } f

def isAt (s : String) : Parser Bool := do
  return (← token).is s

def isAtAny (ss : List String) : Parser Bool := do
  return (← token).isAny ss

def eat (s : String) : Parser Bool := do
  if ← isAt s then
    next
    return true
  else
    return false

def expect (s : String) : Parser Unit := do
  if ← isAt s then next else failure

def look {α : Type} (p : Parser α) : Parser (Option α) := fun c =>
  match p c with
  | some (a, _) => some (some a, c)
  | none => some (none, c)

def attempt {α : Type} (p : Parser α) : Parser (Option α) := fun c =>
  match p c with
  | some (a, d) => some (some a, d)
  | none => some (none, c)

def foresee (p : Parser Bool) : Parser Bool := do
  return (← look p).getD false

def ahead (test : Token → Bool) : Parser Bool :=
  foresee do
    next
    return test (← token)

def guarded (b : Bool) : Parser Unit :=
  if b then pure () else failure

def within {α : Type} (change : Context → Context) (p : Parser α) : Parser α := do
  let old := (← get).context
  modify fun c => { c with context := change c.context }
  let a ← p
  modify fun c => { c with context := old }
  return a

def context : Parser Context := do
  return (← get).context

def start : Parser Nat := do
  return (← get).token.span.start

def spanFrom (start : Nat) : Parser Span := do
  return ⟨start, (← get).last⟩

def atStop : Parser Bool := do
  return (← token).kind == .stop

def canEnd : Parser Bool := do
  let t ← token
  return t.is ";" || t.is "\x7d" || t.kind == .stop || t.newline

def semicolon : Parser Unit := do
  if ← isAt ";" then next else guarded (← canEnd)

/-- Repeats `p` until it answers nothing. Each round is bounded by the length of the text. -/
def repeats {α : Type} (p : Parser (Option α)) : Parser (List α) := do
  let c ← get
  go (c.size + 2 - c.pos)
where
  go : Nat → Parser (List α)
    | 0 => failure
    | fuel + 1 => do
      match ← p with
      | none => return []
      | some a => return a :: (← go fuel)

/-- Items separated by commas up to `close`, which is passed over; a comma may end the list. -/
def commaList {α : Type} (close : String) (item : Parser α) : Parser (List α) := do
  let c ← get
  go (c.size + 2 - c.pos)
where
  go : Nat → Parser (List α)
    | 0 => failure
    | fuel + 1 => do
      if ← eat close then
        return []
      else
        let a ← item
        if ← eat "," then
          return a :: (← go fuel)
        else
          expect close
          return [a]

def isReferable (t : Token) : Parser Bool := do
  let k ← context
  return t.isIdentifier && !(k.awaits && t.text == "await") && !(k.yields && t.text == "yield")

def atIdentifier : Parser Bool := do
  isReferable (← token)

def identifier : Parser String := do
  let t ← token
  guarded (← isReferable t)
  next
  return t.text

def anyName : Parser String := do
  let t ← token
  guarded (t.kind == .name)
  next
  return t.text

def joinGreater : Parser Unit := do
  if ← isAt ">" then
    let c ← get
    let spelled := [">>>=", ">>=", ">=", ">>>", ">>"].find? fun s =>
      (s.toList.drop 1).isPrefixOf c.rest
    match spelled with
    | some s =>
      reread fun cs => some { kind := .punct, text := s, raw := s.toList, rest := cs.drop s.length }
    | none => pure ()

/-- Cuts the first sign off a token such as `<<`. -/
def cutLess : Parser Unit := do
  let t ← token
  if t.kind == .punct && (t.text == "<<" || t.text == "<=" || t.text == "<<=") then
    reread fun cs => some { kind := .punct, text := "<", raw := ['<'], rest := cs.drop 1 }

def initial (text : List Char) (pos size : Nat) (jsx : Bool) : Cursor :=
  { token := { kind := .stop, text := "", raw := "", span := ⟨0, 0⟩ }, rest := text, pos, size,
    context := { awaits := true }, jsx }

end Parser

end Recompose.Script
