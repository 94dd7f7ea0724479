import Recompose.Script.Parse.Type

namespace Recompose.Script.Parse

open Script.Parser

/-- Inside a function nothing of the surrounding statement matters any more. -/
def inFunction {α : Type} (isAsync isGenerator : Bool) (p : Parser α) : Parser α :=
  within (fun k => { awaits := isAsync, yields := isGenerator, ambient := k.ambient }) p

/-- Statements up to the end that `stop` recognises; strings in front are directives. -/
def bodyItems (goal : Goals) (place : Place) (stop : Parser Bool) :
    Parser (List String × List Node) := do
  let c ← get
  leading (c.size + 2 - c.pos)
where
  leading : Nat → Parser (List String × List Node)
    | 0 => failure
    | fuel + 1 => do
      if ← stop then
        return ([], [])
      else
        let t ← token
        let s ← goal (.stmt place)
        match t.kind, s with
        | .string _, .exprStmt _ (.lit _ (.string _)) =>
          let (ds, ss) ← leading fuel
          let raw := (t.raw.toList.drop 1).dropLast
          return (String.ofList raw :: ds, ss)
        | _, _ => return ([], s :: (← following fuel))
  following : Nat → Parser (List Node)
    | 0 => failure
    | fuel + 1 => do
      if ← stop then
        return []
      else
        let s ← goal (.stmt place)
        return s :: (← following fuel)

def codeBlock (goal : Goals) (place : Place) : Parser Node := do
  let s ← start
  expect "\x7b"
  let (ds, ss) ← bodyItems goal place (isAt "\x7d")
  expect "\x7d"
  return .code (← spanFrom s) ds ss

def functionBody (goal : Goals) (isAsync isGenerator : Bool) : Parser Node :=
  inFunction isAsync isGenerator (codeBlock goal .list)

/-- A function from its type parameters on; without a body if `bodiless` allows it. -/
def functionTail (goal : Goals) (s : Nat) (head : FuncHead) (bodiless : Bool) : Parser Node := do
  let tps ← typeParameters goal
  let (this, params) ← inFunction head.isAsync head.isGenerator (parameters goal)
  let result ← resultAfterColon goal
  if ← isAt "\x7b" then
    let body ← functionBody goal head.isAsync head.isGenerator
    return .func (← spanFrom s) head tps this params result body
  else
    guarded bodiless
    semicolon
    return .func (← spanFrom s) head tps this params result .missing

/-- A function that starts with `async` or `function`. The name of a declaration belongs to the
surrounding code, that of an expression to the function itself. -/
def function (goal : Goals) (s : Nat) (form : FuncForm) (declared : Bool) : Parser Node := do
  let isAsync ← eat "async"
  expect "function"
  let isGenerator ← eat "*"
  let name ← do
    if (← token).isIdentifier then some <$> own isAsync isGenerator identifier else pure none
  functionTail goal s { form, name, isAsync, isGenerator, declared } (form == .declaration)
where
  own (isAsync isGenerator : Bool) (name : Parser String) : Parser String :=
    if form == .declaration then name else inFunction isAsync isGenerator name

def arrowBody (goal : Goals) (isAsync arrowTypes : Bool) : Parser Node := do
  let t ← token
  guarded (t.is "=>" && !t.newline)
  next
  if ← isAt "\x7b" then
    functionBody goal isAsync false
  else
    let e ← within (fun k => { k with awaits := isAsync, yields := false })
      (goal (.assign arrowTypes))
    return .concise e

def bareArrow (goal : Goals) (s : Nat) (isAsync : Bool) (site : Span) (name : String)
    (arrowTypes : Bool) : Parser Node := do
  let body ← arrowBody goal isAsync arrowTypes
  let param := Node.param site {} false [] (.binding site name) none none
  return .func (← spanFrom s) { form := .arrow, isAsync } [] none [param] none body

/-- An arrow function with parentheses; it has no `this` of its own. Where a result type would be ambiguous it counts only if a
colon follows the function. -/
def arrow (goal : Goals) (arrowTypes : Bool) : Parser Node := do
  let s ← start
  let isAsync ← eat "async"
  let tps ← typeParameters goal
  let (this, params) ← within (fun k => { k with awaits := isAsync, yields := false, noIn := false })
    (parameters goal)
  guarded this.isNone
  let result ← resultAfterColon goal
  let body ← arrowBody goal isAsync arrowTypes
  if !arrowTypes && result.isSome then guarded (← isAt ":")
  return .func (← spanFrom s) { form := .arrow, isAsync } tps none params result body

/-- What the next tokens say about an arrow function: it is one, it is none, or they do not tell. -/
inductive Outlook where
  | yes | no | open
deriving DecidableEq

def outlookInParens : Parser Outlook := do
  next
  let t ← token
  if t.is ")" then
    next
    if ← isAtAny ["=>", ":", "\x7b"] then return .yes else return .no
  else if t.isAny ["[", "\x7b"] then
    return .open
  else if t.is "..." then
    return .yes
  else if t.isAny ["public", "protected", "private", "readonly", "override", "static", "abstract",
      "declare"] && (← ahead fun u => u.isIdentifier && !u.is "as") then
    return .yes
  else if !(t.isIdentifier || t.is "this") then
    return .no
  else
    next
    let u ← token
    if u.is ":" then
      return .yes
    else if u.is "?" then
      next
      if ← isAtAny [":", ",", "=", ")"] then return .yes else return .no
    else if u.isAny [",", "=", ")"] then
      return .open
    else
      return .no

def outlookInAngles : Parser Outlook := do
  next
  let t ← token
  if !(t.isIdentifier || t.is "const") then
    return .no
  else if (← get).jsx then
    if t.is "const" then next
    next
    let u ← token
    if u.is "extends" then
      next
      if ← isAtAny ["=", ">", "/"] then return .no else return .yes
    else if u.is "," || u.is "=" then
      return .yes
    else
      return .no
  else
    return .open

def outlook : Parser Outlook := do
  let answer ← look do
    if ← eat "async" then
      let t ← token
      if t.newline || !t.isAny ["(", "<"] then return .no
    let t ← token
    if t.is "(" then outlookInParens
    else if t.is "<" then outlookInAngles
    else return .no
  return answer.getD .no

def asyncBareArrow (goal : Goals) (arrowTypes : Bool) : Parser Node := do
  let s ← start
  expect "async"
  let t ← token
  guarded (!t.newline && t.isIdentifier && t.text ≠ "await")
  next
  bareArrow goal s true t.span t.text arrowTypes

end Recompose.Script.Parse
