import Recompose.Script.Cursor

namespace Recompose.Script

inductive Place where
  | top | list | single
deriving DecidableEq, Repr

inductive Goal where
  | expr
  /-- One expression without commas; `arrowTypes` if an arrow function may give its result type. -/
  | assign (arrowTypes : Bool)
  | binary (level : Level)
  | unary
  | operand
  | constructed
  | ty
  | tyOperator
  | pattern
  | stmt (place : Place)
  /-- An element; `inside` if it is a child of another, so that text follows it. -/
  | jsx (inside : Bool)

abbrev Goals := Goal → Parser Node

namespace Parse

open Script.Parser

/-- Expressions inside brackets may hold `in`. -/
def enclosed {α : Type} (p : Parser α) : Parser α :=
  within (fun k => { k with noIn := false, decorator := false }) p

def enclosedType {α : Type} (p : Parser α) : Parser α :=
  within (fun k => { k with noConditional := false }) p

def stringLiteral : Parser StringText := do
  let t ← token
  match t.kind with
  | .string lone =>
    next
    return ⟨t.text, lone⟩
  | _ => failure

def propertyKey (goal : Goals) : Parser Node := do
  let t ← token
  match t.kind with
  | .string lone =>
    next
    return .lit t.span (.string ⟨t.text, lone⟩)
  | .number =>
    next
    return .lit t.span (.number t.text)
  | .bigint =>
    next
    return .lit t.span (.bigint t.text)
  | .privateName =>
    next
    return .keyPrivate t.span t.text
  | .name =>
    next
    return .keyName t.span t.text
  | _ =>
    expect "["
    let e ← enclosed (goal (.assign true))
    expect "]"
    return .keyComputed e

def followsModifier (t : Token) : Bool :=
  t.isAny ["[", "\x7b", "*", "..."] || t.kind == .name || t.isString || t.kind == .number
    || t.kind == .bigint || t.kind == .privateName

def typeAfterColon (goal : Goals) : Parser (Option Node) := do
  if ← eat ":" then
    return some (← enclosedType (goal .ty))
  else
    return none

def initializer (goal : Goals) : Parser (Option Node) := do
  if ← eat "=" then
    return some (← goal (.assign true))
  else
    return none

end Parse

end Recompose.Script
