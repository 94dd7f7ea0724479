import Recompose.Number.Literal
import Recompose.Script.Scan
import Recompose.Script.Traverse

namespace Recompose.Script

namespace Node

mutual

def boundNames : Pattern → List String
  | .binding _ name => [name]
  | .arrayPattern _ items => boundNamesAll items
  | .objectPattern _ fields => boundNamesAll fields
  | .withDefault _ target _ => boundNames target
  | .fieldPattern _ _ value _ => boundNames value
  | .restPattern _ target => boundNames target
  | _ => []

def boundNamesAll : List Pattern → List String
  | [] => []
  | p :: ps => boundNames p ++ boundNamesAll ps

end

/-- The name of a pattern that is a plain name, perhaps with a default. -/
def simpleName? : Pattern → Option String
  | .binding _ name => some name
  | .withDefault _ target _ => simpleName? target
  | _ => none

def declaredNames (declarators : List Node) : List String :=
  declarators.flatMap fun
    | .declarator _ target _ _ _ => target.boundNames
    | _ => []

def closureSpan? : Expr → Option Span
  | .func span head _ _ _ _ _ =>
    if head.form = .arrow ∨ head.form = .expression then some span else none
  | _ => none

def isClosure (e : Expr) : Bool :=
  e.closureSpan?.isSome

/-- A callee made of a name or `this` and of members of it. -/
def calleePath? : Expr → Option (List String)
  | .ref _ name => some [name]
  | .word _ .this => some ["this"]
  | .member _ owner name false _ => owner.calleePath?.map (· ++ [name])
  | .form _ .paren [e] => e.calleePath?
  | _ => none

/-- A callee as it is known in tables, such as `Column` or `Text.create`. -/
def calleeText? (e : Expr) : Option String :=
  e.calleePath?.map (".".intercalate ·)

/-- The text of a template without holes. Line ends in it stand for themselves. -/
def templateText (chunk : String) : String :=
  let pieces := chunk.splitOn "\n"
  "\n".intercalate (pieces.map fun piece =>
    match Scan.stringBody? (Char.ofNat 96) none [] (piece.toList ++ [Char.ofNat 96]) with
    | some (units, _) => (Scan.stringText units).value
    | none => piece)

def literalName? : Expr → Option String
  | .lit _ (.string text) => some text.value
  | .lit _ (.number raw) => some (String.ofList (Number.decimalText (Number.value raw)))
  | .lit _ (.bigint raw) => some (toString (Number.bigValue raw))
  | .lit _ .null => some "null"
  | .lit _ (.regex source flags) => some ("/" ++ source ++ "/" ++ flags)
  | .form _ (.template [chunk]) [] => some (templateText chunk)
  | _ => none

def keyText? : Node → Option String
  | .keyName _ name => some name
  | .keyComputed e => e.literalName?
  | e => e.literalName?

def elementReference : JsxName → List String
  | .path [name] => if (name.toList.head?.map Char.isLower).getD true then [] else [name]
  | .path (name :: _) => [name]
  | _ => []

/-- The name that a node itself refers to, in an expression or in a type. -/
def reference : Node → List String
  | .ref _ name => [name]
  | .typeRef _ path _ => path.take 1
  | .typeQuery _ path _ => path.take 1
  | .jsxElement _ name _ _ _ _ => elementReference name
  | _ => []

def references (node : Node) : List String :=
  node.gather (fun (_ : Unit) n => (some (), n.reference)) ()

end Node

end Recompose.Script
