import Recompose.Script.Parse.Module

namespace Recompose.Script

open Script.Parser

namespace Parse

/-- One step of the grammar: what each goal is, given the goals one level down. -/
def step (goal : Goals) : Goals
  | .expr => sequence goal
  | .assign arrowTypes => assign goal arrowTypes
  | .binary level => binary goal level
  | .unary => unary goal
  | .operand => operand goal
  | .constructed => constructed goal
  | .ty => type goal
  | .tyOperator => operatorType goal
  | .pattern => bindingPattern goal
  | .stmt place => statement goal place
  | .jsx inside => jsxElement goal inside

def goals : Nat → Goals
  | 0, _ => failure
  | depth + 1, g => step (goals depth) g

/-- No nesting is deeper than this many goals. -/
def depth (size : Nat) : Nat :=
  8 * size + 64

def program (goal : Goals) : Parser (List String × List Node) := do
  next
  let r ← bodyItems goal .top atStop
  guarded (← get).covers.isEmpty
  return r

def expression (goal : Goals) : Parser Node := do
  next
  let e ← goal .expr
  guarded (← get).covers.isEmpty
  return e

def hashbang : List Char → Option String × List Char
  | '#' :: '!' :: cs =>
    let (line, rest) := cs.span fun c => !Text.isLineEnd c
    (some (String.ofList line), rest)
  | cs => (none, cs)

end Parse

structure Parsed where
  program : Program
  comments : List Comment

/-- Reads a module; `none` if it is not well formed. -/
def parse? (source : String) (jsx : Bool) : Option Parsed := do
  let text := source.toList
  let size := Text.byteWidth text
  let (hashbang, rest) := Parse.hashbang text
  let cursor := Parser.initial rest (size - Text.byteWidth rest) size jsx
  let ((directives, body), cursor) ← (Parse.program (Parse.goals (Parse.depth size))).run cursor
  some ⟨⟨hashbang, directives, body, jsx⟩, cursor.comments.reverse⟩

def parseExpression? (source : String) : Option Expr := do
  let text := source.toList
  let size := Text.byteWidth text
  let (e, _) ← (Parse.expression (Parse.goals (Parse.depth size))).run
    (Parser.initial text 0 size false)
  some e

end Recompose.Script
