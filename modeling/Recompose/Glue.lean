import Recompose.Identity
import Recompose.Options
import Recompose.Script.Parse
import Recompose.Text.Blank

namespace Recompose

open Script

inductive ReturnKind where
  | void
  | typed (type : String)
  | inferred
deriving DecidableEq, Repr, Inhabited

namespace ReturnKind

def ofType (type : Option String) (returnsValue : Bool) : ReturnKind :=
  let undeclared := if returnsValue then inferred else void
  match type with
  | none => undeclared
  | some type =>
    let type := String.ofList (Text.trim type.toList)
    if type = "void" ∨ type = "undefined" then void
    else if type = "" then undeclared
    else typed type

def isVoid (k : ReturnKind) : Bool :=
  k == void

def typeArguments : ReturnKind → String
  | void => "<undefined>"
  | typed type => "<" ++ type ++ ">"
  | inferred => ""

end ReturnKind

namespace Glue

/-- The reason that stands for what a reader of the language says. -/
def parserReason : String := "<parser>"

def firstFunction? : List Stmt → Option Func
  | [] => none
  | .func span head tps this params result body :: _ =>
    some (.func span head tps this params result body)
  | _ :: stmts => firstFunction? stmts

def function (params body : String) : Except Failure Func :=
  let text := "function __memo_snippet(" ++ params ++ ") \x7b\n" ++ body ++ "\n\x7d"
  match parse? text false with
  | none => .error (.snippet text parserReason)
  | some parsed =>
    match firstFunction? parsed.program.body with
    | some f => .ok f
    | none => .error (.snippet text "no function in snippet")

def statements (text : String) : Except Failure (List Stmt) := do
  match ← function "" text with
  | .func _ _ _ _ _ _ (.code _ _ stmts) => .ok stmts
  | _ => .error (.snippet text "missing function body")

def statement (text : String) : Except Failure Stmt := do
  match ← statements text with
  | [stmt] => .ok stmt
  | _ => .error (.snippet text "expected a single statement")

def moduleItems (text : String) : Except Failure (List Stmt) :=
  match parse? text false with
  | none => .error (.snippet text parserReason)
  | some parsed => .ok parsed.program.body

def expression (text : String) : Except Failure Expr :=
  match parseExpression? text with
  | none => .error (.snippet text parserReason)
  | some e => .ok e

def isRest : Param → Bool
  | .param _ _ rest _ _ _ _ => rest
  | _ => false

def hiddenParameters (n : RuntimeNames) : Except Failure (List Param) := do
  match ← function (n.context ++ ": " ++ n.contextType ++ ", " ++ n.id ++ ": " ++ n.idType) "" with
  | .func _ _ _ _ params _ _ => .ok (params.filter (!isRest ·))
  | _ => .ok []

def contextArgument (n : RuntimeNames) : Expr :=
  .ref .none n.context

def identityArgument (n : RuntimeNames) (offset : UInt64) : Except Failure Expr :=
  expression (n.id ++ " + " ++ Identity.literal offset)

def parameterValue (n : RuntimeNames) (name : String) : Expr :=
  .member .none (.ref .none (n.parameter name)) n.value false false

def scopeText (n : RuntimeNames) (offset : UInt64) (kind : ReturnKind) (count : Nat) : String :=
  "const " ++ n.scope ++ " = " ++ n.context ++ "." ++ n.scopeMethod ++ kind.typeArguments ++ "("
    ++ n.id ++ " + " ++ Identity.literal offset ++ ", " ++ toString count ++ ");\n"

def registrationText (n : RuntimeNames) (slot : Nat) (name : String) : String :=
  n.parameter name ++ " = " ++ n.scope ++ "." ++ n.paramMethod ++ "(" ++ toString slot ++ ", "
    ++ name ++ ")"

def registrationsText (n : RuntimeNames) (registered : List (Nat × String)) : String :=
  if registered.isEmpty then ""
  else "const " ++ ", ".intercalate (registered.map fun r => registrationText n r.1 r.2) ++ ";\n"

def shortcutText (n : RuntimeNames) (kind : ReturnKind) : String :=
  "if (" ++ n.scope ++ "." ++ n.unchanged ++ ") \x7b\n"
    ++ (if kind.isVoid then n.scope ++ "." ++ n.cached ++ ";\nreturn;\n\x7d\n"
      else "return " ++ n.scope ++ "." ++ n.cached ++ ";\n\x7d\n")

/-- Opens the scope, registers the parameters and leaves at once if nothing changed. -/
def preamble (n : RuntimeNames) (offset : UInt64) (kind : ReturnKind)
    (registered : List (Nat × String)) : Except Failure (List Stmt) :=
  statements (scopeText n offset kind registered.length ++ registrationsText n registered
    ++ shortcutText n kind)

def voidCommit (n : RuntimeNames) : Except Failure Stmt :=
  statement ("\x7b\n" ++ n.scope ++ "." ++ n.recache ++ "();\nreturn;\n\x7d")

def valueCommit (n : RuntimeNames) (value : Expr) : Except Failure Stmt := do
  let text := "return " ++ n.scope ++ "." ++ n.recache ++ "();"
  match ← statement text with
  | .returnStmt span (some (.apply call (.call optional isPure) callee types args)) =>
    .ok (.returnStmt span (some (.apply call (.call optional isPure) callee types (args ++ [value]))))
  | _ => .error (.snippet text "unexpected commit shape")

def returnOf (value : Expr) : Stmt :=
  .returnStmt .none (some value)

def closureCall (callee : String) (body : List Stmt) : Except Failure Stmt := do
  let text := callee ++ "(() => \x7b\x7d);"
  match ← statement text with
  | .exprStmt span (.apply call (.call optional isPure) f types
      (.func _ ⟨.arrow, name, isAsync, isGenerator, declared, parenthesised, isPure'⟩ tps this
        params result arrowBody :: args)) =>
    let directives := match arrowBody with
      | .code _ directives _ => directives
      | _ => []
    let head : FuncHead := ⟨.arrow, name, isAsync, isGenerator, declared, parenthesised, isPure'⟩
    let closure : Func := .func .none head tps this params result (.code .none directives body)
    .ok (.exprStmt span (.apply call (.call optional isPure) f types (closure :: args)))
  | _ => .error (.snippet text "unexpected closure call shape")

def block (stmts : List Stmt) : Stmt :=
  .block .none stmts

end Glue

end Recompose
