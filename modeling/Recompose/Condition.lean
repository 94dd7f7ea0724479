import Recompose.Glue
import Recompose.Hazard

namespace Recompose

open Script

structure ConditionTally where
  errors : List Diagnostic := []
  enclosed : Nat := 0
deriving DecidableEq, Repr, Inhabited

structure ConditionSettings where
  names : RuntimeNames
  policy : EarlyExitPolicy
  source : String
  file : String

abbrev ConditionM := ExceptT Failure (StateM ConditionTally)

namespace Condition

def hazardDiagnostic (s : ConditionSettings) (construct : String) (h : Hazard) : Diagnostic :=
  let quoted (text : String) := "\x60" ++ text ++ "\x60"
  let record (rule : Rule) (message hint : String) : Diagnostic :=
    { code := rule.code, message, file := s.file, position := .ofOffset s.source h.span.start,
      hints := [hint] }
  match h.kind with
  | .var =>
    record .branchVar (quoted "var" ++ " declaration inside a conditional arm of " ++ quoted construct)
      ("Use " ++ quoted "let" ++ " or " ++ quoted "const" ++ "; the arm body runs inside a closure.")
  | .caseBinding =>
    record .branchVar
      ("declaration in one case of " ++ quoted construct ++ " is referenced outside that case")
      ("Declare the binding before the " ++ quoted "switch"
        ++ "; each case body runs inside a closure.")
  | .await | .yield =>
    record .branchSuspend
      (quoted h.kind.keyword ++ " inside a conditional arm of " ++ quoted construct)
      "Move the suspension point before the conditional."
  | .return | .break | .continue =>
    record .earlyExit
      (quoted h.kind.keyword ++ " leaves a conditional arm of " ++ quoted construct
        ++ "; its target cannot be proven to lie inside the arm")
      ("Restructure the branch so control reaches its end, "
        ++ "or set earlyExitPolicy to \"leave-untouched\".")

inductive Verdict where
  | enclose
  | leave
  | report (h : Hazard)
deriving DecidableEq, Repr, Inhabited

/-- Decides on a construct with these hazards. Under the lenient policy jumps are tolerated. -/
def verdict (policy : EarlyExitPolicy) (hs : List Hazard) : Verdict :=
  match hs with
  | [] => .enclose
  | first :: _ =>
    match policy with
    | .reject => .report first
    | .leaveUntouched =>
      match hs.find? (!·.kind.isJump) with
      | some h => .report h
      | none => .leave

/-- Is the construct to be enclosed? If a hazard is to be reported, it is. -/
def accepts (s : ConditionSettings) (construct : String) (hs : List Hazard) : ConditionM Bool :=
  match verdict s.policy hs with
  | .enclose => return true
  | .leave => return false
  | .report h => do
    modify fun t => { t with errors := t.errors ++ [hazardDiagnostic s construct h] }
    return false

def chainHazards : Stmt → List Hazard
  | .ifStmt _ _ yes no => armHazards [yes] ++
    match no with
    | some no => chainHazards no
    | none => []
  | arm => armHazards [arm]

/-- A case up to its first own `break` without a label, and the rest of it. -/
def splitCase (stmts : List Stmt) : List Stmt × List Stmt :=
  stmts.span fun
    | .breakStmt _ none => false
    | _ => true

def splitClause : Node → List Stmt × List Stmt
  | .clause _ _ stmts => splitCase stmts
  | _ => ([], [])

def switchHazards (clauses : List Node) : List Hazard :=
  let cases := clauses.map splitClause
  (cases.flatMap (fun c => armHazards c.1) ++ sharedCaseBindings cases).mergeSort
    fun h k => h.span.start ≤ k.span.start

def branch (s : ConditionSettings) (arm : Stmt) : ConditionM Stmt := do
  let stmts := match arm with
    | .block _ stmts => stmts
    | stmt => [stmt]
  return Glue.block [← Glue.closureCall s.names.conditionBranch stmts]

def branchArms (s : ConditionSettings) : Stmt → ConditionM Stmt
  | .ifStmt span test yes no => do
    let yes ← branch s yes
    match no with
    | some no => return .ifStmt span test yes (some (← branchArms s no))
    | none => return .ifStmt span test yes none
  | arm => branch s arm

def branchClause (s : ConditionSettings) : Node → ConditionM Node
  | .clause span test stmts => do
    let (arm, rest) := splitCase stmts
    if arm.isEmpty then return .clause span test stmts
    else return .clause span test ((← Glue.closureCall s.names.conditionBranch arm) :: rest)
  | clause => return clause

def scope (s : ConditionSettings) (construct : Stmt) : ConditionM Stmt := do
  modify fun t => { t with enclosed := t.enclosed + 1 }
  Glue.closureCall s.names.conditionScope [construct]

mutual

/-- Encloses the constructs of a statement: itself, or those of a plain block. -/
def enclose (s : ConditionSettings) : Stmt → ConditionM Stmt
  | .block span stmts => return .block span (← encloseAll s stmts)
  | .ifStmt span test yes no => do
    let chain := Node.ifStmt span test yes no
    if ← accepts s "if" (chainHazards chain) then scope s (← branchArms s chain) else return chain
  | .switchStmt span subject clauses => do
    if ← accepts s "switch" (switchHazards clauses) then
      scope s (.switchStmt span subject (← clauses.mapM (branchClause s)))
    else return .switchStmt span subject clauses
  | stmt => return stmt

def encloseAll (s : ConditionSettings) : List Stmt → ConditionM (List Stmt)
  | [] => return []
  | stmt :: stmts => return (← enclose s stmt) :: (← encloseAll s stmts)

end

def run (s : ConditionSettings) (stmts : List Stmt) :
    Except Failure (List Stmt) × ConditionTally :=
  (encloseAll s stmts).run.run {}

end Condition

end Recompose
