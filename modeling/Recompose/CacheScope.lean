import Recompose.Completion
import Recompose.Glue

namespace Recompose

open Script

namespace CacheScope

mutual

/-- Makes the returns of a function commit. Nested functions and classes are left alone. -/
def commitReturns (n : RuntimeNames) : Stmt → Except Failure Stmt
  | .returnStmt _ (some value) => Glue.valueCommit n value
  | .returnStmt _ none => Glue.voidCommit n
  | .block span stmts => return .block span (← commitAll n stmts)
  | .ifStmt span test yes no =>
    return .ifStmt span test (← commitReturns n yes) (← commitPart n no)
  | .forStmt span init test update body =>
    return .forStmt span init test update (← commitReturns n body)
  | .forEach span kind left right body =>
    return .forEach span kind left right (← commitReturns n body)
  | .whileStmt span test body => return .whileStmt span test (← commitReturns n body)
  | .doWhile span body test => return .doWhile span (← commitReturns n body) test
  | .switchStmt span subject clauses => return .switchStmt span subject (← commitAll n clauses)
  | .clause span test stmts => return .clause span test (← commitAll n stmts)
  | .labelled span label body => return .labelled span label (← commitReturns n body)
  | .tryStmt span body handler finalizer =>
    return .tryStmt span (← commitReturns n body) (← commitPart n handler) (← commitPart n finalizer)
  | .handler span param type body => return .handler span param type (← commitReturns n body)
  | .withStmt span object body => return .withStmt span object (← commitReturns n body)
  | .moduleDecl span declared title body =>
    return .moduleDecl span declared title (← commitReturns n body)
  | .code span directives stmts => return .code span directives (← commitAll n stmts)
  | stmt => return stmt

def commitAll (n : RuntimeNames) : List Stmt → Except Failure (List Stmt)
  | [] => return []
  | stmt :: stmts => return (← commitReturns n stmt) :: (← commitAll n stmts)

def commitPart (n : RuntimeNames) : Option Stmt → Except Failure (Option Stmt)
  | none => return none
  | some stmt => return some (← commitReturns n stmt)

end

def wrap (n : RuntimeNames) (offset : UInt64) (kind : ReturnKind) (registered : List (Nat × String))
    (stmts : List Stmt) : Except Failure (List Stmt) := do
  let stmts ← commitAll n stmts
  let opening ← Glue.preamble n offset kind registered
  if completesAll stmts then
    return opening ++ stmts ++ [← Glue.voidCommit n]
  else
    return opening ++ stmts

end CacheScope

end Recompose
