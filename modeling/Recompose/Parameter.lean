import Recompose.Annotation
import Recompose.Script.Names

namespace Recompose

open Script

structure ParameterBinding where
  index : Nat
  name : Option String
  slot : Option Nat
  memoTyped : Bool
  skip : Bool
  rest : Bool
  start : Nat
deriving DecidableEq, Repr, Inhabited

/-- A parameter that should be watched but has no name to watch it by. -/
def ParameterBinding.isUnaddressable (b : ParameterBinding) : Bool :=
  !b.skip && (b.name.isNone || b.rest)

structure ParameterTable where
  bindings : List ParameterBinding := []
deriving DecidableEq, Repr, Inhabited

namespace ParameterTable

/-- The markers of a comment before a parameter. A marker at `functionStart` belongs to the function
and not to the parameter that starts there. -/
def commentMarkers (a : Annotations) (functionStart : Option Nat) (start : Nat) : Markers :=
  if functionStart = some start then {} else a.markers start

def bindingsFrom (a : Annotations) (functionStart : Option Nat) :
    Nat → Nat → List Param → List ParameterBinding
  | _, _, [] => []
  | index, slot, .param span _ false decorators target _ _ :: params =>
    let markers := (commentMarkers a functionStart span.start).merge (Markers.ofDecorators decorators)
    let name := target.simpleName?
    let watched := !markers.skip && name.isSome
    { index, name, slot := if watched then some slot else none, memoTyped := markers.memo,
      skip := markers.skip, rest := false, start := span.start }
      :: bindingsFrom a functionStart (index + 1) (if watched then slot + 1 else slot) params
  | index, slot, .param span _ true _ target _ _ :: params =>
    { index, name := target.simpleName?, slot := none, memoTyped := false,
      skip := (commentMarkers a functionStart span.start).skip, rest := true, start := span.start }
      :: bindingsFrom a functionStart (index + 1) slot params
  | index, slot, _ :: params => bindingsFrom a functionStart index slot params

def ofParams (params : List Param) (a : Annotations) (functionStart : Option Nat) : ParameterTable :=
  ⟨bindingsFrom a functionStart 0 0 params⟩

def slotCount (t : ParameterTable) : Nat :=
  (t.bindings.filter (·.slot.isSome)).length

def registered (t : ParameterTable) : List (Nat × String) :=
  t.bindings.filterMap fun b =>
    match b.slot, b.name with
    | some slot, some name => some (slot, name)
    | _, _ => none

def memoIndices (t : ParameterTable) : List Nat :=
  (t.bindings.filter (·.memoTyped)).map (·.index)

def declaredLength (t : ParameterTable) : Nat :=
  t.bindings.length

end ParameterTable

end Recompose
