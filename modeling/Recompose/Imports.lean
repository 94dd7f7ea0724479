import Recompose.Glue

namespace Recompose

open Script

def boundByImport : Stmt → List String
  | .importDecl _ clause => (clause.items.getD []).map ImportItem.local
  | _ => []

def importedNames (body : List Stmt) : List String :=
  body.flatMap boundByImport

def importText (keyword : String) (names existing : List String) (source : String) : List String :=
  match names.filter (!existing.contains ·) with
  | [] => []
  | missing =>
    [keyword ++ " \x7b " ++ ", ".intercalate missing ++ " \x7d from \"" ++ source ++ "\";"]

def runtimeImports (o : Options) (existing : List String) (usesConditions : Bool) : List String :=
  let n := o.runtime
  importText "import type" [n.contextType, n.idType] existing o.runtimeModule
    ++ if usesConditions then
        importText "import" [n.conditionScope, n.conditionBranch] existing o.builderModule
      else []

def isImport : Stmt → Bool
  | .importDecl .. => true
  | _ => false

def insertImports (o : Options) (usesConditions : Bool) (body : List Stmt) :
    Except Failure (List Stmt) := do
  match runtimeImports o (importedNames body) usesConditions with
  | [] => return body
  | imports =>
    let items ← Glue.moduleItems ("\n".intercalate imports)
    return body.takeWhile isImport ++ items ++ body.dropWhile isImport

end Recompose
