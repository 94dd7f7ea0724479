import Recompose.Script.Parse.Expression

namespace Recompose.Script.Parse

open Script.Parser
open Recompose.Text (isNamePart)

def jsxWord : Parser String := do
  guarded ((← token).kind == .name)
  reread fun cs =>
    let (name, rest) := cs.span fun c => isNamePart c || c == '-'
    some { kind := .name, text := String.ofList name, raw := name, rest }
  let t ← token
  next
  return t.text

def quotedValue? : List Char → Option Scan.Found
  | quote :: body =>
    let (text, rest) := body.span (· != quote)
    match rest with
    | _ :: rest =>
      some { kind := .string false, text := String.ofList text, raw := quote :: text ++ [quote], rest }
    | [] => none
  | [] => none

def nextValue : Parser Unit := do
  let c ← get
  let (g, cs) ← (Scan.skip .blank { pos := c.pos, comments := c.comments } c.rest : Option _)
  match cs with
  | q :: _ =>
    if q == '"' || q.toNat == 39 then
      let f ← (quotedValue? cs : Option _)
      accept g f
      modify fun d => { d with last := c.token.span.stop }
    else next
  | [] => failure

def child? : List Char → Option Scan.Found
  | [] => some { kind := .stop, text := "", raw := [], rest := [] }
  | '<' :: rest => some { kind := .punct, text := "<", raw := ['<'], rest }
  | '{' :: rest => some { kind := .punct, text := "\x7b", raw := ['{'], rest }
  | cs =>
    let (text, rest) := cs.span fun c => c != '<' && c != '{'
    if text.any fun c => c == '>' || c == '}' then none
    else some { kind := .jsxText, text := String.ofList text, raw := text, rest }

def nextChild : Parser Unit := do
  let c ← get
  let f ← (child? c.rest : Option _)
  accept { pos := c.pos, comments := c.comments } f
  modify fun d => { d with last := c.token.span.stop }

def closeTag (inside : Bool) : Parser Unit := do
  guarded (← isAt ">")
  if inside then nextChild else next

def jsxName : Parser JsxName := do
  let first ← jsxWord
  if ← eat ":" then
    return .spaced first (← jsxWord)
  else
    let more ← repeats do
      if ← eat "." then some <$> jsxWord else return none
    return .path (first :: more)

def jsxHole (goal : Goals) (s : Nat) (advance : Parser Unit) : Parser Node := do
  let value ← if ← isAt "\x7d" then pure none else some <$> enclosed (goal .expr)
  guarded (← isAt "\x7d")
  let stop := (← token).span.stop
  advance
  return .jsxHole ⟨s, stop⟩ value

def jsxAttribute (goal : Goals) : Parser Node := do
  let t ← token
  let s := t.span.start
  if t.is "\x7b" then
    next
    expect "..."
    let e ← enclosed (goal (.assign true))
    expect "\x7d"
    return .jsxSpread (← spanFrom s) e
  else
    let first ← jsxWord
    let name ← if ← eat ":" then pure (first ++ ":" ++ (← jsxWord)) else pure first
    if ← isAt "=" then
      nextValue
      let u ← token
      match u.kind with
      | .string _ =>
        next
        return .jsxAttribute (← spanFrom s) name (some (.jsxQuoted u.span u.text))
      | _ =>
        if ← eat "\x7b" then
          let value ← jsxHole goal u.span.start next
          return .jsxAttribute (← spanFrom s) name (some value)
        else
          let value ← goal (.jsx false)
          return .jsxAttribute (← spanFrom s) name (some value)
    else
      return .jsxAttribute (← spanFrom s) name none

def jsxChildren (goal : Goals) : Parser (List Node) :=
  repeats do
    let t ← token
    match t.kind with
    | .jsxText =>
      nextChild
      return some (.jsxText t.span t.text)
    | .punct =>
      if t.is "\x7b" then
        next
        if ← eat "..." then
          let e ← enclosed (goal .expr)
          guarded (← isAt "\x7d")
          let stop := (← token).span.stop
          nextChild
          return some (.jsxSpreadChild ⟨t.span.start, stop⟩ e)
        else
          some <$> jsxHole goal t.span.start nextChild
      else if ← ahead (·.is "/") then
        return none
      else
        some <$> goal (.jsx true)
    | _ => failure

def jsxElement (goal : Goals) (inside : Bool) : Parser Node := do
  let s ← start
  expect "<"
  if ← isAt ">" then
    nextChild
    let children ← jsxChildren goal
    expect "<"
    expect "/"
    let stop := (← token).span.stop
    closeTag inside
    return .jsxFragment ⟨s, stop⟩ children
  else
    let name ← jsxName
    let types ← typeArgumentsHere goal
    let attributes ← repeats do
      if ← isAtAny [">", "/"] then return none else some <$> jsxAttribute goal
    if ← eat "/" then
      let stop := (← token).span.stop
      closeTag inside
      return .jsxElement ⟨s, stop⟩ name types attributes [] true
    else
      guarded (← isAt ">")
      nextChild
      let children ← jsxChildren goal
      expect "<"
      expect "/"
      let closing ← jsxName
      guarded (closing == name)
      let stop := (← token).span.stop
      closeTag inside
      return .jsxElement ⟨s, stop⟩ name types attributes children false

end Recompose.Script.Parse
