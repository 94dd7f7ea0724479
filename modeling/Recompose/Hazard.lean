import Recompose.Script.Names

namespace Recompose

open Script

inductive HazardKind where
  | return | break | continue | var | await | yield | caseBinding
deriving DecidableEq, Repr, Inhabited

namespace HazardKind

def keyword : HazardKind → String
  | .return => "return"
  | .break => "break"
  | .continue => "continue"
  | var => "var"
  | await => "await"
  | yield => "yield"
  | caseBinding => "declaration"

def isJump : HazardKind → Bool
  | .return => true
  | .break => true
  | .continue => true
  | _ => false

end HazardKind

structure Hazard where
  kind : HazardKind
  span : Span
deriving DecidableEq, Repr, Inhabited

/-- What surrounds a statement inside the list that is examined. -/
structure JumpTargets where
  /-- Labels, each with whether it stands right before a loop. -/
  labels : List (String × Bool) := []
  inLoop : Bool := false
  inSwitch : Bool := false
deriving DecidableEq, Repr, Inhabited

namespace JumpTargets

def breakable (t : JumpTargets) : Option String → Bool
  | some label => t.labels.any (·.1 == label)
  | none => t.inLoop || t.inSwitch

def continuable (t : JumpTargets) : Option String → Bool
  | some label => t.labels.any fun l => l.2 && l.1 == label
  | none => t.inLoop

end JumpTargets

def isLoop : Stmt → Bool
  | .forStmt .. => true
  | .forEach .. => true
  | .whileStmt .. => true
  | .doWhile .. => true
  | _ => false

/-- Functions and classes keep their jumps and declarations to themselves. -/
def isSealed : Node → Bool
  | .func _ head _ _ _ _ _ => head.form ≠ .signature
  | .cls .. => true
  | _ => false

def JumpTargets.enter (t : JumpTargets) : Node → JumpTargets
  | .labelled _ label body => { t with labels := (label, isLoop body) :: t.labels }
  | .switchStmt .. => { t with inSwitch := true }
  | n => if isLoop n then { t with inLoop := true } else t

def ownHazards (t : JumpTargets) : Node → List Hazard
  | .returnStmt span _ => [⟨.return, span⟩]
  | .breakStmt span label => if t.breakable label then [] else [⟨.break, span⟩]
  | .continueStmt span label => if t.continuable label then [] else [⟨.continue, span⟩]
  | .vars span .hoisted _ _ => [⟨.var, span⟩]
  | .forEach span .awaited _ _ _ => [⟨.await, span⟩]
  | .form span .await _ => [⟨.await, span⟩]
  | .form span (.yield _) _ => [⟨.yield, span⟩]
  | _ => []

def hazards (t : JumpTargets) (node : Node) : List Hazard :=
  node.gather (fun t n => if isSealed n then (none, []) else (some (t.enter n), ownHazards t n)) t

def armHazards (stmts : List Stmt) : List Hazard :=
  stmts.flatMap (hazards {})

def lexicalDeclarations : Stmt → List (String × Span)
  | .vars span kind _ items =>
    if kind = .hoisted then [] else (Node.declaredNames items).map (·, span)
  | .func span head _ _ _ _ _ => head.name.toList.map (·, span)
  | .cls span head _ _ _ _ _ _ => head.name.toList.map (·, span)
  | _ => []

/-- Is the name referred to by a case other than the `own`-th, or by what any case keeps? -/
def isShared (referenced : List (List String × List String)) (own : Nat) (name : String) : Bool :=
  referenced.zipIdx.any fun r =>
    (r.2 != own && r.1.1.contains name) || r.1.2.contains name

/-- Declarations of one case that other parts of the switch refer to. Each case is given as what
becomes a branch and what stays in the case. -/
def sharedCaseBindings (cases : List (List Stmt × List Stmt)) : List Hazard :=
  let referenced := cases.map fun c => (c.1.flatMap Node.references, c.2.flatMap Node.references)
  cases.zipIdx.flatMap fun c =>
    ((c.1.1.flatMap lexicalDeclarations).filter fun d => isShared referenced c.2 d.1).map fun d =>
      ⟨.caseBinding, d.2⟩

end Recompose
