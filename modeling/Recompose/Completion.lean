import Recompose.Hazard

namespace Recompose

open Script

def isTrue : Expr → Bool
  | .lit _ (.bool b) => b
  | _ => false

def breaksOut (stmts : List Stmt) : Bool :=
  (armHazards stmts).any (·.kind == .break)

def isDefault : Node → Bool
  | .clause _ none _ => true
  | _ => false

def clauseBreaks : Node → Bool
  | .clause _ _ stmts => breaksOut stmts
  | _ => false

mutual

def completes : Stmt → Bool
  | .returnStmt _ _ => false
  | .throwStmt _ _ => false
  | .block _ stmts => completesAll stmts
  | .ifStmt _ _ yes (some no) => completes yes || completes no
  | .tryStmt _ body none none => completes body
  | .tryStmt _ body (some handler) none => completes body || completes handler
  | .tryStmt _ body none (some finalizer) => completes finalizer && completes body
  | .tryStmt _ body (some handler) (some finalizer) =>
    completes finalizer && (completes body || completes handler)
  | .handler _ _ _ body => completes body
  | .switchStmt _ _ clauses =>
    !(clauses.any isDefault && !completesAll clauses) || clauses.any clauseBreaks
  | .clause _ _ stmts => completesAll stmts
  | .whileStmt _ test body => !isTrue test || breaksOut [body]
  | .forStmt _ _ none _ body => breaksOut [body]
  | .forStmt _ _ (some test) _ body => !isTrue test || breaksOut [body]
  | _ => true

/-- Can control reach the end of a list? Its last statement decides. -/
def completesAll : List Stmt → Bool
  | [] => true
  | [stmt] => completes stmt
  | _ :: next :: stmts => completesAll (next :: stmts)

end

def returnsValue (stmts : List Stmt) : Bool :=
  (stmts.flatMap (Node.gather enter ())).any id
where
  enter (_ : Unit) (n : Node) : Option Unit × List Bool :=
    match n with
    | .returnStmt _ value => (none, [value.isSome])
    | n => if isSealed n then (none, []) else (some (), [])

end Recompose
