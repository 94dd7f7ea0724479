import Recompose.Script.Parse.Statement

namespace Recompose.Script.Parse

open Script.Parser

def moduleName : Parser ModuleName := do
  let t ← token
  match t.kind with
  | .string lone =>
    next
    return .quoted ⟨t.text, lone⟩
  | .name =>
    next
    return .ident t.text
  | _ => failure

def withEntry : Parser (ModuleName × StringText) := do
  let key ← moduleName
  expect ":"
  return (key, ← stringLiteral)

def attributes : Parser (Option WithClause) := do
  let t ← token
  if t.is "with" || (t.is "assert" && !t.newline) then
    next
    expect "\x7b"
    return some ⟨t.text, ← commaList "\x7d" withEntry⟩
  else
    return none

def localName : ModuleName → Parser String
  | .ident name => do
    guarded (!Token.reserved.contains name && !((← context).awaits && name == "await"))
    return name
  | .quoted _ => failure

def specifier : Parser (Bool × ModuleName × Option ModuleName) := do
  let first ← moduleName
  if first == .ident "type" then
    if ← isAtAny [",", "\x7d"] then
      return (false, first, none)
    else if ← isAt "as" then
      next
      if ← isAt "as" then
        next
        if ← isAtAny [",", "\x7d"] then
          return (false, first, some (.ident "as"))
        else
          return (true, .ident "as", some (← moduleName))
      else if ← isAtAny [",", "\x7d"] then
        return (true, .ident "as", none)
      else
        return (false, first, some (← moduleName))
    else
      let name ← moduleName
      if ← eat "as" then
        return (true, name, some (← moduleName))
      else
        return (true, name, none)
  else if ← eat "as" then
    return (false, first, some (← moduleName))
  else
    return (false, first, none)

def importItem : Parser ImportItem := do
  let (typeOnly, name, renamed) ← specifier
  return .named typeOnly name (← localName (renamed.getD name))

def namespaceItem : Parser ImportItem := do
  expect "*"
  expect "as"
  return .namespace (← identifier)

def importItems : Parser (List ImportItem) := do
  if ← isAt "*" then
    return [← namespaceItem]
  else if ← eat "\x7b" then
    commaList "\x7d" importItem
  else
    let name ← identifier
    if ← eat "," then
      if ← isAt "*" then
        return [.default name, ← namespaceItem]
      else
        expect "\x7b"
        return .default name :: (← commaList "\x7d" importItem)
    else
      return [.default name]

def importFrom (s : Nat) (typeOnly : Bool) (phase : Option String) (items : List ImportItem) :
    Parser Node := do
  expect "from"
  let source ← stringLiteral
  let attrs ← attributes
  semicolon
  return .importDecl (← spanFrom s) ⟨typeOnly, phase, some items, source, attrs⟩

/-- Does the word here qualify the whole import, rather than being a default name itself? -/
def qualifiesImport : Parser Bool :=
  foresee do
    next
    let t ← token
    if t.isAny ["*", "\x7b"] then return true
    else if t.is "from" then
      ahead fun u => u.is "from" || u.is "="
    else return t.isIdentifier

def importStatement (s : Nat) : Parser Node := do
  expect "import"
  let t ← token
  if t.isString then
    let source ← stringLiteral
    let attrs ← attributes
    semicolon
    return .importDecl (← spanFrom s) ⟨false, none, none, source, attrs⟩
  else
    let typeOnly ←
      if t.is "type" && (← qualifiesImport) then
        next
        pure true
      else pure false
    let phase ←
      if !typeOnly && t.isAny ["defer", "source"] && (← qualifiesImport) then
        next
        pure (some t.text)
      else pure none
    if (← atIdentifier) && (← ahead (·.is "=")) then
      let name ← identifier
      expect "="
      let target ← importTarget
      semicolon
      return .importEquals (← spanFrom s) typeOnly name target
    else
      let items ← importItems
      importFrom s typeOnly phase items

def exportItem : Parser ExportItem := do
  let (typeOnly, name, renamed) ← specifier
  return ⟨typeOnly, name, renamed.getD name⟩

/-- Without a source the names must be those of the file. -/
def refersLocally (item : ExportItem) : Bool :=
  match item.name with
  | .ident name => !Token.reserved.contains name
  | .quoted _ => false

def exportList (s : Nat) (typeOnly : Bool) : Parser Node := do
  expect "\x7b"
  let items ← commaList "\x7d" exportItem
  if ← eat "from" then
    let source ← stringLiteral
    let attrs ← attributes
    semicolon
    return .exportNames (← spanFrom s) ⟨typeOnly, items, some source, attrs⟩
  else
    guarded (items.all refersLocally)
    semicolon
    return .exportNames (← spanFrom s) ⟨typeOnly, items, none, none⟩

def exportEverything (s : Nat) (typeOnly : Bool) : Parser Node := do
  expect "*"
  let name ← if ← eat "as" then some <$> moduleName else pure none
  expect "from"
  let source ← stringLiteral
  let attrs ← attributes
  semicolon
  return .exportAll (← spanFrom s) ⟨typeOnly, name, source, attrs⟩

/-- An exported class with decorators, all of them before the `export` or all after it. -/
def exportedClass (goal : Goals) (decs : List Node) (named : Bool) : Parser Node := do
  let s ← start
  let more ← decorators goal
  guarded (decs.isEmpty || more.isEmpty)
  decoratedClass goal s (decs ++ more) named

def exportDefault (goal : Goals) (s : Nat) (decs : List Node) : Parser Node := do
  let t ← token
  let sd := t.span.start
  let decl ← do
    if !decs.isEmpty || t.is "@" then
      exportedClass goal decs false
    else if t.is "function" || (t.is "async" && (← ahead fun u => u.is "function" && !u.newline)) then
      functionDeclaration goal sd false false
    else if t.is "class" || (t.is "abstract" && (← ahead fun u => u.is "class" && !u.newline)) then
      classDeclaration goal sd [] false false
    else if t.is "interface" && (← ahead fun u => u.isIdentifier && !u.newline) then
      interfaceDeclaration goal sd false
    else
      let e ← enclosed (goal (.assign true))
      semicolon
      pure (.exprStmt (← spanFrom sd) e)
  return .exportDefault (← spanFrom s) decl

def exportStatement (goal : Goals) (s : Nat) (decs : List Node) : Parser Node := do
  expect "export"
  let t ← token
  if t.is "default" then
    next
    exportDefault goal s decs
  else if t.is "=" then
    next
    let e ← enclosed (goal .expr)
    semicolon
    return .exportAssign (← spanFrom s) e
  else if t.is "as" && (← ahead (·.is "namespace")) then
    next
    next
    let name ← identifier
    semicolon
    return .exportNamespace (← spanFrom s) name
  else if t.is "*" then
    exportEverything s false
  else if t.is "\x7b" then
    exportList s false
  else if t.is "type" && (← ahead fun u => u.is "\x7b") then
    next
    exportList s true
  else if t.is "type" && (← ahead fun u => u.is "*") then
    next
    exportEverything s true
  else if !decs.isEmpty || t.is "@" then
    let c ← exportedClass goal decs true
    return .exportDecl (← spanFrom s) c
  else
    let d ← declaration goal
    return .exportDecl (← spanFrom s) d

def statement (goal : Goals) (place : Place) : Parser Node := do
  let t ← token
  let s := t.span.start
  let node ← do
    if t.is "import" && !(← ahead fun u => u.is "(" || u.is ".") then
      guarded (place == .top)
      importStatement s
    else if t.is "export" then
      guarded (place == .top)
      exportStatement goal s []
    else if t.is "@" then
      let decs ← decorators goal
      if ← isAt "export" then
        guarded (place == .top)
        exportStatement goal s decs
      else
        guarded (place != .single)
        decoratedClass goal s decs true
    else
      localStatement goal place
  return if t.effectFreeMark then markStatement node else node

end Recompose.Script.Parse
