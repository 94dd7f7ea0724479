import Recompose.Json
import Recompose.Options

namespace Recompose

namespace Json

/-- The fields of a record by name. A known name may not be repeated. -/
def named? (names : List String) (fields : List (Option String × Json)) :
    Option (List (Option Json)) :=
  if fields.all (·.1.isSome) then
    names.mapM fun name =>
      match fields.filter (·.1 == some name) with
      | [] => some none
      | [f] => some (some f.2)
      | _ => none
  else none

/-- The fields of a record in order, those that are missing as `none`. -/
def components? (names : List String) : Json → Option (List (Option Json))
  | .object fields => named? names fields
  | .array items =>
    if items.length ≤ names.length then
      some (items.map some ++ List.replicate (names.length - items.length) none)
    else none
  | _ => none

def orElse {α : Type} (read : Json → Option α) (default : α) : Option Json → Option α
  | some j => read j
  | none => some default

def toBool? : Json → Option Bool
  | .bool b => some b
  | _ => none

def toText? : Json → Option String
  | .string s => s
  | _ => none

def toNatBelow? (bound : Nat) : Json → Option Nat
  | .natural n => if n < bound then some n else none
  | _ => none

def toList? {α : Type} (read : Json → Option α) : Json → Option (List α)
  | .array items => items.mapM read
  | _ => none

/-- A constant of an enumeration is a text, or an object that maps the text to null. -/
def toConstant? {α : Type} (table : List (String × α)) : Json → Option α
  | .string (some s) => table.lookup s
  | .object [(some s, .null)] => table.lookup s
  | _ => none

end Json

open Json

namespace EarlyExitPolicy

def table : List (String × EarlyExitPolicy) :=
  [("reject", .reject), ("leave-untouched", .leaveUntouched)]

def toJson : EarlyExitPolicy → Json
  | reject => text "reject"
  | leaveUntouched => text "leave-untouched"

def ofJson? : Json → Option EarlyExitPolicy :=
  toConstant? table

end EarlyExitPolicy

namespace RuntimeNames

def fieldNames : List String :=
  ["context", "id", "scope", "parameterPrefix", "contextType", "idType", "scopeMethod",
    "paramMethod", "unchanged", "cached", "recache", "value", "conditionScope", "conditionBranch"]

def toList (n : RuntimeNames) : List String :=
  [n.context, n.id, n.scope, n.parameterPrefix, n.contextType, n.idType, n.scopeMethod,
    n.paramMethod, n.unchanged, n.cached, n.recache, n.value, n.conditionScope, n.conditionBranch]

def ofList? : List String → Option RuntimeNames
  | [context, id, scope, parameterPrefix, contextType, idType, scopeMethod, paramMethod, unchanged,
      cached, recache, value, conditionScope, conditionBranch] =>
    some ⟨context, id, scope, parameterPrefix, contextType, idType, scopeMethod, paramMethod,
      unchanged, cached, recache, value, conditionScope, conditionBranch⟩
  | _ => none

def toJson (n : RuntimeNames) : Json :=
  record (fieldNames.zip (n.toList.map text))

def ofJson? (j : Json) : Option RuntimeNames := do
  let parts ← components? fieldNames j
  let defaults : RuntimeNames := {}
  ofList? (← (parts.zip defaults.toList).mapM fun p => orElse toText? p.2 p.1)

end RuntimeNames

namespace PrimitiveKind

def table : List (String × PrimitiveKind) :=
  [("builder", .builder), ("condition-scope", .conditionScope),
    ("condition-branch", .conditionBranch)]

def toJson : PrimitiveKind → Json
  | builder => text "builder"
  | conditionScope => text "condition-scope"
  | conditionBranch => text "condition-branch"

def ofJson? : Json → Option PrimitiveKind :=
  toConstant? table

end PrimitiveKind

def wordBound : Nat := 18446744073709551616

namespace ClosurePosition

def table : List (String × ClosurePosition) :=
  [("leading", .leading), ("trailing", .trailing)]

def toJson : ClosurePosition → Json
  | leading => text "leading"
  | trailing => text "trailing"
  | index i => record [("index", .natural i)]

def ofJson? : Json → Option ClosurePosition
  | .object [(some "index", j)] => (toNatBelow? wordBound j).map .index
  | j => toConstant? table j

end ClosurePosition

namespace Primitive

def fieldNames : List String :=
  ["name", "arity", "kind", "closures"]

def arityToJson : Option Nat → Json
  | some n => .natural n
  | none => .null

def arityOfJson? : Json → Option (Option Nat)
  | .null => some none
  | j => (toNatBelow? wordBound j).map some

def toJson (p : Primitive) : Json :=
  record [("name", text p.name), ("arity", arityToJson p.arity), ("kind", p.kind.toJson),
    ("closures", .array (p.closures.map ClosurePosition.toJson))]

def ofJson? (j : Json) : Option Primitive := do
  match ← components? fieldNames j with
  | [some name, arity, kind, closures] =>
    let name ← toText? name
    let arity ← orElse arityOfJson? none arity
    let kind ← orElse PrimitiveKind.ofJson? .builder kind
    let closures ← orElse (toList? ClosurePosition.ofJson?) [] closures
    some ⟨name, arity, kind, closures⟩
  | _ => none

end Primitive

namespace Options

def fieldNames : List String :=
  ["filePath", "hashWidth", "earlyExitPolicy", "runtime", "runtimeModule", "builderModule",
    "emitImports", "primitives", "externalMemoFunctions"]

def toJson (o : Options) : Json :=
  record [("filePath", text o.filePath), ("hashWidth", .natural o.hashWidth),
    ("earlyExitPolicy", o.earlyExitPolicy.toJson), ("runtime", o.runtime.toJson),
    ("runtimeModule", text o.runtimeModule), ("builderModule", text o.builderModule),
    ("emitImports", .bool o.emitImports),
    ("primitives", .array (o.primitives.map Primitive.toJson)),
    ("externalMemoFunctions", .array (o.externalMemoFunctions.map text))]

def ofJson? (j : Json) : Option Options := do
  let d : Options := {}
  match ← components? fieldNames j with
  | [filePath, hashWidth, policy, runtime, runtimeModule, builderModule, emitImports, primitives,
      external] =>
    let filePath ← orElse toText? d.filePath filePath
    let hashWidth ← orElse (toNatBelow? 4294967296) d.hashWidth hashWidth
    let earlyExitPolicy ← orElse EarlyExitPolicy.ofJson? d.earlyExitPolicy policy
    let runtime ← orElse RuntimeNames.ofJson? d.runtime runtime
    let runtimeModule ← orElse toText? d.runtimeModule runtimeModule
    let builderModule ← orElse toText? d.builderModule builderModule
    let emitImports ← orElse toBool? d.emitImports emitImports
    let primitives ← orElse (toList? Primitive.ofJson?) d.primitives primitives
    let externalMemoFunctions ← orElse (toList? toText?) d.externalMemoFunctions external
    some ⟨filePath, hashWidth, earlyExitPolicy, runtime, runtimeModule, builderModule, emitImports,
      primitives, externalMemoFunctions⟩
  | _ => none

def read (source : Json) : Except Failure Options :=
  match ofJson? source with
  | none => .error .options
  | some o => o.validate.map fun _ => o

def parse (source : String) : Except Failure Options :=
  match Json.parse? source with
  | none => .error .options
  | some j => read j

end Options

end Recompose
