import Recompose.Script.Parse.Goal

namespace Recompose.Script.Parse

open Script.Parser

def bindingElement (goal : Goals) : Parser Node := do
  let s ← start
  let target ← goal .pattern
  match ← enclosed (initializer goal) with
  | some e => return .withDefault (← spanFrom s) target e
  | none => return target

def restElement (goal : Goals) : Parser Node := do
  let s ← start
  expect "..."
  let target ← goal .pattern
  return .restPattern (← spanFrom s) target

def arrayBinding (goal : Goals) : Parser Node := do
  let s ← start
  expect "["
  let items ← repeats do
    if ← isAt "]" then
      return none
    else if ← eat "," then
      return some Node.gap
    else if ← isAt "..." then
      let item ← restElement goal
      guarded (← isAt "]")
      return some item
    else
      let item ← bindingElement goal
      if !(← isAt "]") then expect ","
      return some item
  expect "]"
  return .arrayPattern (← spanFrom s) items

def bindingField (goal : Goals) : Parser Node := do
  let s ← start
  let t ← token
  if t.is "..." then
    let item ← restElement goal
    guarded (← isAt "\x7d")
    return item
  let key ← propertyKey goal
  if ← eat ":" then
    let value ← bindingElement goal
    return .fieldPattern (← spanFrom s) key value false
  else
    guarded (← isReferable t)
    let name := Node.binding t.span t.text
    match ← enclosed (initializer goal) with
    | some e =>
      let span ← spanFrom s
      return .fieldPattern span key (.withDefault span name e) true
    | none => return .fieldPattern (← spanFrom s) key name true

def bindingPattern (goal : Goals) : Parser Node := do
  let t ← token
  if t.is "[" then
    arrayBinding goal
  else if t.is "\x7b" then
    next
    let fields ← commaList "\x7d" (bindingField goal)
    return .objectPattern (← spanFrom t.span.start) fields
  else
    let name ← identifier
    return .binding t.span name

def typeParameter (goal : Goals) : Parser Node := do
  let s ← start
  let mods ← repeats do
    let t ← token
    if t.is "const" || t.is "in" || (t.is "out" && (← ahead (·.kind == .name))) then
      next
      return some t.text
    else
      return none
  let name ← identifier
  let bound ← if ← eat "extends" then some <$> goal .ty else pure none
  let default ← if ← eat "=" then some <$> goal .ty else pure none
  return .typeParam (← spanFrom s) mods name bound default

def typeParameters (goal : Goals) : Parser (List Node) := do
  if ← eat "<" then
    let ps ← enclosedType (commaList ">" (typeParameter goal))
    guarded (ps.length > 0)
    return ps
  else
    return []

def decorators (goal : Goals) : Parser (List Node) :=
  repeats do
    if ← eat "@" then
      return some (← within (fun k => { k with decorator := true }) (goal .operand))
    else
      return none

def accessOf? : String → Option Access
  | "public" => some .everyone
  | "protected" => some .heirs
  | "private" => some .owner
  | _ => none

def parameterModifier (m : Modifiers) : Parser (Option Modifiers) := do
  let t ← token
  if t.isAny ["public", "protected", "private", "readonly", "override"]
      && (← ahead fun u => !u.newline && followsModifier u) then
    next
    match t.text with
    | "readonly" => return some { m with isReadonly := true }
    | "override" => return some { m with isOverride := true }
    | s => return some { m with access := accessOf? s }
  else
    return none

def parameterModifiers : Nat → Modifiers → Parser Modifiers
  | 0, m => return m
  | n + 1, m => do
    match ← parameterModifier m with
    | some m => parameterModifiers n m
    | none => return m

def parameter (goal : Goals) : Parser Node := do
  let s ← start
  let decs ← decorators goal
  let mods ← parameterModifiers 5 {}
  let rest ← eat "..."
  let target ← goal .pattern
  let optional ← eat "?"
  let type ← typeAfterColon goal
  let init ← if rest then pure none else enclosed (initializer goal)
  if rest then guarded (← isAt ")")
  return .param (← spanFrom s) { mods with optional } rest decs target type init

def receiver (goal : Goals) : Parser (Option Node) := do
  let t ← token
  if t.is "this" then
    next
    let type ← typeAfterColon goal
    let node := Node.param (← spanFrom t.span.start) {} false [] (.binding t.span "this") type none
    if !(← isAt ")") then expect ","
    return some node
  else
    return none

def parameters (goal : Goals) : Parser (Option Node × List Node) := do
  expect "("
  let this ← receiver goal
  let params ← commaList ")" (parameter goal)
  return (this, params)

end Recompose.Script.Parse
