import Recompose.Weave.State

namespace Recompose.Weave

open Script

structure Signature where
  qualifiedName : String
  mode : MemoMode
  parameters : ParameterTable
  offset : UInt64
  reifies : Bool
  isLambda : Bool
deriving DecidableEq, Repr, Inhabited

namespace Signature

def ofDeclaration (d : MemoDeclaration) : Signature where
  qualifiedName := d.qualifiedName
  mode := d.mode
  parameters := d.parameters
  offset := d.ownOffset
  reifies := true
  isLambda := false

def ofClosure (site : Site) (qualifiedName : String) (mode : MemoMode) (params : List Param)
    (form : FuncForm) (start : Nat) (reifies : Bool) : Signature where
  qualifiedName
  mode
  parameters := .ofParams params site.annotations (if form = .arrow then some start else none)
  offset := site.identity.ownScope qualifiedName
  reifies
  isLambda := true

end Signature

def signatureFor (site : Site) (span : Span) (form : FuncForm) (params : List Param) :
    WeaveM (Option Signature) := do
  match site.graph.nodeAt? span with
  | some d => return some (.ofDeclaration d)
  | none =>
    let pending := (← get).pending.contains span
    modify fun s => { s with pending := s.pending.filter (· != span) }
    let marked := MemoMode.ofMarkers? (site.annotations.markers span.start)
    match marked.or (if pending then some .memo else none) with
    | none => return none
    | some mode =>
      match ← nextClosureName with
      | none => return none
      | some name => return some (.ofClosure site name mode params form span.start true)

def leadingNames (params : List Param) : List (Option String) :=
  ((params.filter (!Glue.isRest ·)).take 2).map fun
    | .param _ _ _ _ target _ _ => target.simpleName?
    | _ => none

structure Breach where
  rule : Rule
  message : String
  offset : Nat
  hints : List String := []
deriving DecidableEq, Repr, Inhabited

def quoted (text : String) : String :=
  "\x60" ++ text ++ "\x60"

def breaches (names : RuntimeNames) (sig : Signature) (params : List Param) (start : Nat) :
    List Breach :=
  let leading := leadingNames params
  let name := quoted sig.qualifiedName
  if params.length ≠ sig.parameters.declaredLength then
    [{ rule := .arity, offset := start,
       message := name ++ " declares " ++ toString params.length
        ++ " parameters but its binding table records " ++ toString sig.parameters.declaredLength }]
  else if sig.mode = .entry then
    if leading = [some names.context, some names.id] then []
    else
      [{ rule := .entry, offset := start,
         message := "memo entry " ++ name ++ " must declare " ++ quoted names.context ++ " and "
          ++ quoted names.id ++ " as its first parameters" }]
  else if (leading.head?.join.map names.isSynthetic).getD false then
    [{ rule := .arity, offset := start,
       message := name ++ " already carries hidden memo parameters",
       hints := ["Mark hand-threaded functions with @memo_entry instead."] }]
  else if sig.mode = .memo then
    (sig.parameters.bindings.filter (·.isUnaddressable)).map fun b =>
      { rule := .paramPattern, offset := b.start,
        message := "parameter of memo function " ++ name
          ++ " cannot be registered for change detection",
        hints := ["Bind the parameter to a name, or mark it @memo_skip."] }
  else []

def suspensionBreach? (sig : Signature) (head : FuncHead) (start : Nat) : Option Breach :=
  if head.isAsync || head.isGenerator then
    some { rule := .unsupported, offset := start,
           message := "memo function " ++ quoted sig.qualifiedName ++ " cannot be "
            ++ (if head.isAsync then "async" else "generator"),
           hints := ["Memo bodies run synchronously inside the composition."] }
  else none

mutual

/-- The function type in a type, under parentheses or in a union. -/
def functionType? : Ty → Option Func
  | .typeFunc _ false _ f => some f
  | .typeForm _ .paren parts => functionTypeIn? parts
  | .typeForm _ .union parts => functionTypeIn? parts
  | _ => none

def functionTypeIn? : List Ty → Option Func
  | [] => none
  | type :: types => (functionType? type).or (functionTypeIn? types)

end

mutual

def addToFunctionType (hidden : List Param) : Ty → Ty
  | .typeFunc span false isAbstract (.func fspan head tps this params result body) =>
    .typeFunc span false isAbstract (.func fspan head tps this (hidden ++ params) result body)
  | .typeForm span .paren parts => .typeForm span .paren (addToFirst hidden parts)
  | .typeForm span .union parts => .typeForm span .union (addToFirst hidden parts)
  | type => type

def addToFirst (hidden : List Param) : List Ty → List Ty
  | [] => []
  | type :: types =>
    let changed := addToFunctionType hidden type
    if (functionType? type).isSome then changed :: types else type :: addToFirst hidden types

end

def takesContext (names : RuntimeNames) : Func → Bool
  | .func _ _ _ _ params _ _ => (leadingNames params).head?.join == some names.context
  | _ => false

/-- Gives the function type in a type the hidden parameters, unless it has them. -/
def threadType (site : Site) (type : Ty) : WeaveM Ty := do
  match functionType? type with
  | none => return type
  | some f =>
    if takesContext site.options.runtime f then return type
    else
      match ← record (Glue.hiddenParameters site.options.runtime) with
      | none => return type
      | some hidden =>
        touch
        return addToFunctionType hidden type

end Recompose.Weave
