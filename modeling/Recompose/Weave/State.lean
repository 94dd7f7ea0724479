import Recompose.CallGraph
import Recompose.Glue
import Recompose.Options
import Recompose.Scope

namespace Recompose

open Script

structure Stats where
  transformedFunctions : Nat := 0
  transformedLambdas : Nat := 0
  threadedCallSites : Nat := 0
  reifiedChains : Nat := 0
deriving DecidableEq, Repr, Inhabited

namespace Weave

structure Site where
  options : Options
  source : String
  annotations : Annotations
  graph : CallGraph
  identity : Identity

inductive Frame where
  /-- A named scope. One that is not threading only names the marked closures in it. -/
  | scope (counter : SiteCounter) (threading : Bool)
  /-- An ordinary closure: calls in it run outside the composition. -/
  | boundary
deriving DecidableEq, Repr, Inhabited

structure State where
  scopes : Scopes := {}
  frames : List Frame := []
  classes : List String := []
  /-- Closures that are marked through their declaration. -/
  pending : List Span := []
  errors : List Diagnostic := []
  stats : Stats := {}
  touched : Bool := false
  failure : Option Failure := none
deriving DecidableEq, Repr, Inhabited

/-- A step of the walk; `none` if it was given too little depth. -/
abbrev WeaveM := StateT State Option

def touch : WeaveM Unit :=
  modify fun s => { s with touched := true }

/-- Keeps the first failure; answers the value if there is one. -/
def record {α : Type} : Except Failure α → WeaveM (Option α)
  | .ok a => return some a
  | .error f => do
    modify fun s => { s with failure := s.failure.or (some f) }
    return none

def report (site : Site) (rule : Rule) (message : String) (offset : Nat) (hints : List String) :
    WeaveM Unit :=
  modify fun s => { s with errors := s.errors ++
    [{ code := rule.code, message, file := site.options.filePath,
       position := .ofOffset site.source offset, hints }] }

def modifyScopes (f : Scopes → Scopes) : WeaveM Unit :=
  modify fun s => { s with scopes := f s.scopes }

def modifyStats (f : Stats → Stats) : WeaveM Unit :=
  modify fun s => { s with stats := f s.stats }

def inBlock {α : Type} (step : WeaveM α) : WeaveM α := do
  modifyScopes Scopes.pushBlock
  let a ← step
  modifyScopes Scopes.pop
  return a

def inFunction {α : Type} (step : WeaveM α) : WeaveM α := do
  modifyScopes Scopes.pushFunction
  let a ← step
  modifyScopes Scopes.pop
  return a

def inFrame {α : Type} (frame : Frame) (step : WeaveM α) : WeaveM α := do
  modify fun s => { s with frames := frame :: s.frames }
  let a ← step
  modify fun s => { s with frames := s.frames.tail }
  return a

def inClass {α : Type} (name : String) (step : WeaveM α) : WeaveM α := do
  modify fun s => { s with classes := name :: s.classes }
  let a ← step
  modify fun s => { s with classes := s.classes.tail }
  return a

def State.threading (s : State) : Bool :=
  match s.frames with
  | .scope _ true :: _ => true
  | _ => false

def parentName (file : String) : List Frame → String
  | [] => file
  | .scope counter _ :: _ => counter.name
  | .boundary :: frames => parentName file frames

def takeClosureName : List Frame → Option (String × List Frame)
  | [] => none
  | .scope counter threading :: frames =>
    let (name, counter) := counter.nextClosure
    some (name, .scope counter threading :: frames)
  | .boundary :: frames => (takeClosureName frames).map fun r => (r.1, .boundary :: r.2)

def nextClosureName : WeaveM (Option String) := do
  match takeClosureName (← get).frames with
  | some (name, frames) =>
    modify fun s => { s with frames }
    return some name
  | none => return none

/-- Takes the number of a call from the innermost scope, if calls are threaded there. -/
def nextCall : WeaveM (Option (String × Nat)) := do
  match (← get).frames with
  | .scope counter true :: frames =>
    let (ordinal, next) := counter.nextCall
    modify fun s => { s with frames := .scope next true :: frames }
    return some (counter.name, ordinal)
  | _ => return none

end Weave

end Recompose
