import Recompose.Weave.State

namespace Recompose.Weave

open Script

structure CallPlan where
  closures : List Nat
  /-- Are the conditions in the closures enclosed? In a condition scope they already are. -/
  reifies : Bool
deriving DecidableEq, Repr, Inhabited

/-- A call to a declaration of the file. Entries take their context in plain sight. -/
def CallPlan.ofDeclaration? (d : MemoDeclaration) : Option CallPlan :=
  if d.mode = .entry then none else some ⟨d.parameters.memoIndices, true⟩

def declarationOf? (graph : CallGraph) (classes : List String) : Expr → Option MemoDeclaration
  | .ref _ name => graph.function? name
  | .member _ (.word _ .this) name false _ => classes.head?.bind (graph.inheritedMember? · name)
  | _ => none

def planOfText? (o : Options) (callee : String) (arity : Nat) : Option CallPlan :=
  match o.findPrimitive? callee arity with
  | some p => some ⟨p.closureIndices arity, p.kind ≠ .conditionScope⟩
  | none =>
    if o.isExternalMemo callee then some ⟨[], true⟩
    else if callee = o.runtime.conditionScope ∨ callee = o.runtime.conditionBranch then
      some ⟨[0], callee = o.runtime.conditionBranch⟩
    else none

def planOfCallee? (site : Site) (classes : List String) (callee : Expr) (arity : Nat) :
    Option CallPlan :=
  match declarationOf? site.graph classes callee with
  | some d => CallPlan.ofDeclaration? d
  | none => callee.calleeText?.bind (planOfText? site.options · arity)

/-- How a call is threaded, if it is. A binding of the name decides before all else. -/
def resolveCall? (site : Site) (scopes : Scopes) (classes : List String) (callee : Expr)
    (arity : Nat) : Option CallPlan :=
  match callee with
  | .ref span name =>
    match scopes.lookup name with
    | some b => if b.isMemoCallable then some ⟨[], true⟩ else none
    | none => planOfCallee? site classes (.ref span name) arity
  | callee => planOfCallee? site classes callee arity

end Recompose.Weave
