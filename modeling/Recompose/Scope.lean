import Recompose.Annotation
import Recompose.Script.Names

namespace Recompose

open Script

inductive Binding where
  | ordinary
  /-- A parameter of a memo function. Calls through a memo-typed one are threaded; references to a
  watched one become reads of its state. -/
  | parameter (memoTyped watched : Bool)
  | memoFunction
deriving DecidableEq, Repr, Inhabited

def Binding.isMemoCallable : Binding → Bool
  | ordinary => false
  | parameter memoTyped _ => memoTyped
  | memoFunction => true

/-- The bindings of one function or block, the latest first. -/
structure ScopeFrame where
  isFunction : Bool
  names : List (String × Binding) := []
deriving DecidableEq, Repr, Inhabited

def ScopeFrame.insert (f : ScopeFrame) (name : String) (b : Binding) : ScopeFrame :=
  { f with names := (name, b) :: f.names }

structure Scopes where
  frames : List ScopeFrame := []
deriving DecidableEq, Repr, Inhabited

namespace Scopes

def depth (s : Scopes) : Nat :=
  s.frames.length

def pushFunction (s : Scopes) : Scopes :=
  ⟨{ isFunction := true } :: s.frames⟩

def pushBlock (s : Scopes) : Scopes :=
  ⟨{ isFunction := false } :: s.frames⟩

def pop (s : Scopes) : Scopes :=
  ⟨s.frames.tail⟩

/-- Binds a name in the innermost frame. Outside all frames nothing is bound. -/
def bind (s : Scopes) (name : String) (b : Binding) : Scopes :=
  match s.frames with
  | [] => s
  | f :: fs => ⟨f.insert name b :: fs⟩

def bindAll (s : Scopes) (bindings : List (String × Binding)) : Scopes :=
  bindings.foldl (fun s p => s.bind p.1 p.2) s

def bindPattern (s : Scopes) (p : Pattern) : Scopes :=
  s.bindAll (p.boundNames.map (·, .ordinary))

def bindInFunction? (name : String) : List ScopeFrame → Option (List ScopeFrame)
  | [] => none
  | f :: fs =>
    if f.isFunction then some (f.insert name .ordinary :: fs)
    else (bindInFunction? name fs).map (f :: ·)

/-- Binds a `var` name: it belongs to the nearest function, if there is one. -/
def bindVar (s : Scopes) (name : String) : Scopes :=
  match bindInFunction? name s.frames with
  | some frames => ⟨frames⟩
  | none => s.bind name .ordinary

def bindVars (s : Scopes) (names : List String) : Scopes :=
  names.foldl bindVar s

def bindDeclaration (s : Scopes) (kind : VarKind) (declarators : List Node) : Scopes :=
  let names := Node.declaredNames declarators
  if kind = .hoisted then s.bindVars names else s.bindAll (names.map (·, .ordinary))

def lookup (s : Scopes) (name : String) : Option Binding :=
  s.frames.findSome? (·.names.lookup name)

/-- Do references to the name become reads of a parameter's state? -/
def isWatched (s : Scopes) (name : String) : Bool :=
  match s.lookup name with
  | some (.parameter _ watched) => watched
  | _ => false

end Scopes

def declaratorBindings (a : Annotations) (marked : Bool) : Node → List (String × Binding)
  | .declarator _ target _ _ init =>
    let memo := match init.bind Node.closureSpan? with
      | some span => marked || (a.markers span.start).isMemoLike
      | none => false
    target.boundNames.map (·, if memo then .memoFunction else .ordinary)
  | _ => []

/-- The bindings that a statement adds to its list before any statement of the list runs. -/
def hoistedBinding (a : Annotations) : Stmt → List (String × Binding)
  | .func span head _ _ _ _ _ =>
    let b : Binding := if (a.markers span.start).isMemoLike then .memoFunction else .ordinary
    head.name.toList.map (·, b)
  | .cls _ head _ _ _ _ _ _ => head.name.toList.map (·, .ordinary)
  | .vars span kind _ items =>
    if kind = .hoisted then []
    else items.flatMap (declaratorBindings a (a.markers span.start).isMemoLike)
  | _ => []

def hoistedBindings (a : Annotations) (stmts : List Stmt) : List (String × Binding) :=
  stmts.flatMap (hoistedBinding a)

end Recompose
