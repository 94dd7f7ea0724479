import Recompose.Diagnostic

namespace Recompose

inductive EarlyExitPolicy where
  | reject | leaveUntouched
deriving DecidableEq, Repr, Inhabited

structure RuntimeNames where
  context : String := "__memo_context"
  id : String := "__memo_id"
  scope : String := "__memo_scope"
  parameterPrefix : String := "__memo_parameter_"
  contextType : String := "__memo_context_type"
  idType : String := "__memo_id_type"
  scopeMethod : String := "scope"
  paramMethod : String := "param"
  unchanged : String := "unchanged"
  cached : String := "cached"
  recache : String := "recache"
  value : String := "value"
  conditionScope : String := "ConditionScope"
  conditionBranch : String := "ConditionBranch"
deriving DecidableEq, Repr, Inhabited

namespace RuntimeNames

def parameter (names : RuntimeNames) (name : String) : String :=
  names.parameterPrefix ++ name

def isSynthetic (names : RuntimeNames) (name : String) : Bool :=
  name == names.context || name == names.id || name == names.scope
    || names.parameterPrefix.toList.isPrefixOf name.toList

end RuntimeNames

inductive PrimitiveKind where
  | builder | conditionScope | conditionBranch
deriving DecidableEq, Repr, Inhabited

inductive ClosurePosition where
  | leading | trailing | index (i : Nat)
deriving DecidableEq, Repr, Inhabited

def ClosurePosition.resolve? (arity : Nat) : ClosurePosition → Option Nat
  | leading => if 0 < arity then some 0 else none
  | trailing => if 0 < arity then some (arity - 1) else none
  | index i => if i < arity then some i else none

structure Primitive where
  name : String
  arity : Option Nat := none
  kind : PrimitiveKind := .builder
  closures : List ClosurePosition := []
deriving DecidableEq, Repr, Inhabited

namespace Primitive

/-- The argument indices that hold closures, ascending, each once. -/
def closureIndices (p : Primitive) (arity : Nat) : List Nat :=
  (p.closures.filterMap (ClosurePosition.resolve? arity)).mergeSort.eraseDups

def accepts (p : Primitive) (callee : String) (arity : Nat) : Bool :=
  p.name == callee && p.arity.all (· == arity)

def containers : List String :=
  ["Column", "Row", "Stack", "Flex", "List", "ListItem", "Grid", "GridItem", "Scroll", "Button",
    "Tabs", "TabContent", "Navigation", "RelativeContainer"]

def leaves : List String :=
  ["Text", "Image", "Blank", "Divider", "TextInput", "Toggle"]

def iterators : List String :=
  ["ForEach", "LazyForEach", "Repeat"]

def defaults : List Primitive :=
  [{ name := "ConditionScope", arity := some 1, kind := .conditionScope, closures := [.index 0] },
    { name := "ConditionBranch", arity := some 1, kind := .conditionBranch, closures := [.index 0] }]
  ++ (containers ++ leaves).map (fun name => { name, closures := [.leading, .trailing] })
  ++ iterators.map (fun name => { name, closures := [.index 1] })

end Primitive

structure Options where
  filePath : String := "input.ts"
  hashWidth : Nat := 32
  earlyExitPolicy : EarlyExitPolicy := .reject
  runtime : RuntimeNames := {}
  runtimeModule : String := "arkui.stateManagement.runtime"
  builderModule : String := "arkui.component.builder"
  emitImports : Bool := true
  primitives : List Primitive := Primitive.defaults
  externalMemoFunctions : List String := []
deriving DecidableEq, Repr

namespace Options

instance : Inhabited Options := ⟨{}⟩

/-- Offsets are at least this wide, and no wider than numbers of the language are exact. -/
def minHashWidth : Nat := 8
def maxHashWidth : Nat := 53

def validate (o : Options) : Except Failure Unit :=
  if minHashWidth ≤ o.hashWidth ∧ o.hashWidth ≤ maxHashWidth then .ok ()
  else .error (.hashWidth o.hashWidth)

theorem validate_eq_ok_iff {o : Options} :
    o.validate = .ok () ↔ minHashWidth ≤ o.hashWidth ∧ o.hashWidth ≤ maxHashWidth := by
  rw [validate]
  split <;> simp [*]

def findPrimitive? (o : Options) (callee : String) (arity : Nat) : Option Primitive :=
  o.primitives.find? (·.accepts callee arity)

def isExternalMemo (o : Options) (callee : String) : Bool :=
  o.externalMemoFunctions.contains callee

end Options

end Recompose
