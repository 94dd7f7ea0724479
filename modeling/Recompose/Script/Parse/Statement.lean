import Recompose.Script.Parse.Jsx

namespace Recompose.Script.Parse

open Script.Parser

/-- A pattern or a constant is declared with a value. -/
def isComplete (kind : VarKind) : Node → Bool
  | .declarator _ (.binding _ _) _ _ none => kind == .hoisted || kind == .fresh
  | .declarator _ _ _ _ none => false
  | _ => true

def declarator (goal : Goals) (kind : VarKind) (needsValue : Bool) : Parser Node := do
  let s ← start
  let target ← goal .pattern
  let definite ← eat "!"
  let type ← typeAfterColon goal
  let init ← initializer goal
  let item := Node.declarator (← spanFrom s) target definite type init
  guarded (!needsValue || isComplete kind item)
  return item

def declarators (goal : Goals) (kind : VarKind) (needsValue : Bool) : Parser (List Node) := do
  let first ← declarator goal kind needsValue
  let more ← repeats do
    if ← eat "," then some <$> declarator goal kind needsValue else return none
  return first :: more

def startsLet : Parser Bool :=
  ahead fun u => u.isIdentifier || u.isAny ["[", "\x7b"]

def startsUsing : Parser Bool :=
  ahead fun u => u.isIdentifier && !u.newline && !u.isAny ["of", "in", "instanceof", "as"]

def varKind : Parser (Option VarKind) := do
  let t ← token
  if t.is "var" then return some .hoisted
  else if t.is "const" then return some .constant
  else if t.is "let" then
    if ← startsLet then return some .fresh else return none
  else if t.is "using" then
    if ← startsUsing then return some .resource else return none
  else if t.is "await" && (← context).awaits then
    let found ← foresee do
      next
      let u ← token
      if u.is "using" && !u.newline then startsUsing else return false
    return if found then some .awaitedResource else none
  else return none

def passVarKind (kind : VarKind) : Parser Unit := do
  next
  if kind == .awaitedResource then next

def varStatement (goal : Goals) (s : Nat) (kind : VarKind) (declared : Bool) : Parser Node := do
  passVarKind kind
  let items ← declarators goal kind !(← context).ambient
  semicolon
  return .vars (← spanFrom s) kind declared items

def condition (goal : Goals) : Parser Node := do
  expect "("
  let e ← enclosed (goal .expr)
  expect ")"
  return e

def block (goal : Goals) : Parser Node := do
  let s ← start
  expect "\x7b"
  let ss ← repeats do
    if ← isAt "\x7d" then return none else some <$> goal (.stmt .list)
  expect "\x7d"
  return .block (← spanFrom s) ss

def ifStatement (goal : Goals) : Parser Node := do
  let s ← start
  expect "if"
  let test ← condition goal
  let yes ← goal (.stmt .single)
  let no ← if ← eat "else" then some <$> goal (.stmt .single) else pure none
  return .ifStmt (← spanFrom s) test yes no

def doStatement (goal : Goals) : Parser Node := do
  let s ← start
  expect "do"
  let body ← goal (.stmt .single)
  expect "while"
  let test ← condition goal
  let _ ← eat ";"
  return .doWhile (← spanFrom s) body test

def whileStatement (goal : Goals) : Parser Node := do
  let s ← start
  expect "while"
  let test ← condition goal
  let body ← goal (.stmt .single)
  return .whileStmt (← spanFrom s) test body

def forRest (goal : Goals) (s : Nat) (init : Option Node) : Parser Node := do
  expect ";"
  let test ← if ← isAt ";" then pure none else some <$> enclosed (goal .expr)
  expect ";"
  let update ← if ← isAt ")" then pure none else some <$> enclosed (goal .expr)
  expect ")"
  let body ← goal (.stmt .single)
  return .forStmt (← spanFrom s) init test update body

def eachRest (goal : Goals) (s : Nat) (awaited : Bool) (left : Node) : Parser Node := do
  let kind ← do
    if ← eat "of" then pure (if awaited then EachKind.awaited else .values)
    else
      guarded !awaited
      expect "in"
      pure .keys
  let right ← enclosed (goal (if kind == .keys then .expr else .assign true))
  expect ")"
  let body ← goal (.stmt .single)
  return .forEach (← spanFrom s) kind left right body

/-- `async` on its own would look like an arrow function before `of`. -/
def isBareAsync (first : Token) : Node → Bool
  | .ref _ _ => first.is "async"
  | _ => false

/-- A loop. The declarators in its head have to be complete unless the loop gives the values. -/
def forStatement (goal : Goals) : Parser Node := do
  let s ← start
  expect "for"
  let awaited ← eat "await"
  expect "("
  if ← isAt ";" then
    guarded !awaited
    forRest goal s none
  else
    let t ← token
    match ← varKind with
    | some kind =>
      passVarKind kind
      let items ← within (fun k => { k with noIn := true }) (declarators goal kind false)
      let decl := Node.vars (← spanFrom t.span.start) kind false items
      if ← isAtAny ["of", "in"] then
        eachRest goal s awaited decl
      else
        guarded (!awaited && items.all (isComplete kind))
        forRest goal s (some decl)
    | none =>
      let e ← within (fun k => { k with noIn := true, decorator := false }) (goal .expr)
      if ← isAtAny ["of", "in"] then
        guarded (awaited || !isBareAsync t e || (← isAt "in"))
        eachRest goal s awaited (← asTarget e)
      else
        guarded !awaited
        forRest goal s (some e)

def jump : Parser Node := do
  let t ← token
  next
  let u ← token
  let label ←
    if !u.newline && u.isIdentifier then
      next
      pure (some u.text)
    else pure none
  semicolon
  let span ← spanFrom t.span.start
  return if t.text == "break" then .breakStmt span label else .continueStmt span label

def returnStatement (goal : Goals) : Parser Node := do
  let s ← start
  expect "return"
  let value ← if ← canEnd then pure none else some <$> enclosed (goal .expr)
  semicolon
  return .returnStmt (← spanFrom s) value

def throwStatement (goal : Goals) : Parser Node := do
  let s ← start
  expect "throw"
  guarded !(← token).newline
  let e ← enclosed (goal .expr)
  semicolon
  return .throwStmt (← spanFrom s) e

def clause (goal : Goals) : Parser Node := do
  let s ← start
  let test ← do
    if ← eat "default" then pure none
    else
      expect "case"
      some <$> enclosed (goal .expr)
  expect ":"
  let ss ← repeats do
    if ← isAtAny ["case", "default", "\x7d"] then return none else some <$> goal (.stmt .list)
  return .clause (← spanFrom s) test ss

def switchStatement (goal : Goals) : Parser Node := do
  let s ← start
  expect "switch"
  let subject ← condition goal
  expect "\x7b"
  let clauses ← repeats do
    if ← eat "\x7d" then return none else some <$> clause goal
  return .switchStmt (← spanFrom s) subject clauses

def tryStatement (goal : Goals) : Parser Node := do
  let s ← start
  expect "try"
  let body ← block goal
  let sh ← start
  let handler ← do
    if ← eat "catch" then
      let (param, type) ← do
        if ← eat "(" then
          let p ← goal .pattern
          let t ← typeAfterColon goal
          expect ")"
          pure (some p, t)
        else pure (none, none)
      let b ← block goal
      pure (some (Node.handler (← spanFrom sh) param type b))
    else pure none
  let finalizer ← if ← eat "finally" then some <$> block goal else pure none
  guarded (handler.isSome || finalizer.isSome)
  return .tryStmt (← spanFrom s) body handler finalizer

def withStatement (goal : Goals) : Parser Node := do
  let s ← start
  expect "with"
  let object ← condition goal
  let body ← goal (.stmt .single)
  return .withStmt (← spanFrom s) object body

def expressionStatement (goal : Goals) : Parser Node := do
  let s ← start
  let t ← token
  if t.isIdentifier && (← ahead (·.is ":")) then
    let label ← identifier
    next
    let body ← goal (.stmt .single)
    return .labelled (← spanFrom s) label body
  else
    let e ← enclosed (goal .expr)
    semicolon
    return .exprStmt (← spanFrom s) e

def functionDeclaration (goal : Goals) (s : Nat) (declared named : Bool) : Parser Node := do
  let f ← function goal s .declaration declared
  match f with
  | .func _ h _ _ _ _ _ => guarded (h.name.isSome || !named)
  | _ => pure ()
  return f

def classDeclaration (goal : Goals) (s : Nat) (decs : List Node) (declared named : Bool) :
    Parser Node := do
  let isAbstract ← eat "abstract"
  let c ← classTail goal s decs false isAbstract declared
  match c with
  | .cls _ h _ _ _ _ _ _ => guarded (h.name.isSome || !named)
  | _ => pure ()
  return c

def decoratedClass (goal : Goals) (s : Nat) (decs : List Node) (named : Bool) : Parser Node := do
  let declared ← eat "declare"
  classDeclaration goal s decs declared named

def aliasDeclaration (goal : Goals) (s : Nat) (declared : Bool) : Parser Node := do
  expect "type"
  let name ← identifier
  let tps ← typeParameters goal
  expect "="
  let type ← enclosedType (goal .ty)
  semicolon
  return .aliasDecl (← spanFrom s) declared name tps type

def interfaceDeclaration (goal : Goals) (s : Nat) (declared : Bool) : Parser Node := do
  expect "interface"
  let name ← identifier
  let tps ← typeParameters goal
  let parents ← do
    if ← eat "extends" then
      let first ← parent
      let more ← repeats do
        if ← eat "," then some <$> parent else return none
      pure (first :: more)
    else pure []
  let ms ← typeMembers goal
  return .interfaceDecl (← spanFrom s) declared name tps parents ms
where
  parent : Parser Node := do
    let s ← start
    let (e, ts) ← heritage goal
    if ts.isEmpty then return e else return .apply (← spanFrom s) .instantiate e ts []

def enumMember (goal : Goals) : Parser Node := do
  let s ← start
  let key ← propertyKey goal
  match key with
  | .keyName _ _ => pure ()
  | .lit _ (.string _) => pure ()
  | .keyComputed (.lit _ (.string _)) => pure ()
  | .keyComputed (.form _ (.template [_]) []) => pure ()
  | _ => failure
  let init ← enclosed (initializer goal)
  return .enumMember (← spanFrom s) key init

def enumDeclaration (goal : Goals) (s : Nat) (declared : Bool) : Parser Node := do
  let isConst ← eat "const"
  expect "enum"
  let name ← identifier
  expect "\x7b"
  let ms ← commaList "\x7d" (enumMember goal)
  return .enumDecl (← spanFrom s) declared isConst name ms

def moduleDeclaration (goal : Goals) (s : Nat) (declared : Bool) : Parser Node := do
  let t ← token
  next
  let title ← do
    if t.is "global" then pure ModuleTitle.global
    else
      let u ← token
      if u.isString then
        pure (ModuleTitle.quoted t.text (← stringLiteral))
      else
        let first ← identifier
        pure (ModuleTitle.path t.text (first :: (← pathRest)))
  if ← isAt "\x7b" then
    let body ← codeBlock goal .top
    return .moduleDecl (← spanFrom s) declared title body
  else
    match title with
    | .quoted _ _ => semicolon
    | _ => failure
    return .moduleDecl (← spanFrom s) declared title .missing

def startsDeclaration : Nat → Parser Bool
  | 0 => return false
  | fuel + 1 => do
    let t ← token
    if t.isAny ["var", "let", "const", "function", "class", "enum"] then return true
    else if t.isAny ["interface", "type"] then
      ahead fun u => u.isIdentifier && !u.newline
    else if t.isAny ["module", "namespace"] then
      ahead fun u => (u.isIdentifier || u.isString) && !u.newline
    else if t.isAny ["abstract", "accessor", "async", "declare", "private", "protected", "public",
        "readonly"] then
      foresee do
        next
        if (← token).newline then return false else startsDeclaration fuel
    else if t.is "global" then
      ahead fun u => u.is "\x7b" || u.isIdentifier || u.is "export"
    else if t.is "import" then
      ahead fun u => u.isString || u.isAny ["*", "\x7b"] || u.kind == .name
    else return false

def importTarget : Parser ImportTarget := do
  let t ← token
  if t.is "require" && (← ahead (·.is "(")) then
    next
    expect "("
    let source ← stringLiteral
    expect ")"
    return .required source
  else
    let first ← identifier
    return .path (first :: (← pathRest))

def declarationBody (goal : Goals) (s : Nat) (declared : Bool) : Parser Node :=
  within (fun k => { k with ambient := k.ambient || declared }) do
  let t ← token
  if t.is "const" && (← ahead (·.is "enum")) || t.is "enum" then
    enumDeclaration goal s declared
  else if t.is "function" || t.is "async" then
    functionDeclaration goal s declared true
  else if t.is "class" || t.is "abstract" then
    classDeclaration goal s [] declared true
  else if t.is "interface" then
    interfaceDeclaration goal s declared
  else if t.is "type" then
    aliasDeclaration goal s declared
  else if t.isAny ["module", "namespace", "global"] then
    moduleDeclaration goal s declared
  else if t.is "import" then
    next
    let typeOnly ← if (← isAt "type") && (← ahead (·.isIdentifier)) then next; pure true else pure false
    let name ← identifier
    expect "="
    let target ← importTarget
    semicolon
    return .importEquals (← spanFrom s) typeOnly name target
  else
    match ← varKind with
    | some kind => varStatement goal s kind declared
    | none => failure

def declaration (goal : Goals) : Parser Node := do
  let s ← start
  if (← isAt "declare") && (← ahead (!·.newline)) then
    next
    declarationBody goal s true
  else
    declarationBody goal s false

def markStatement : Node → Node
  | .func s h tps this ps r b => .func s { h with isPure := true } tps this ps r b
  | .exportDecl s (.func t h tps this ps r b) =>
    .exportDecl s (.func t { h with isPure := true } tps this ps r b)
  | .exportDefault s (.func t h tps this ps r b) =>
    .exportDefault s (.func t { h with isPure := true } tps this ps r b)
  | s => s

def controlStatement (goal : Goals) (t : Token) : Option (Parser Node) :=
  match t.text with
  | "if" => some (ifStatement goal)
  | "do" => some (doStatement goal)
  | "while" => some (whileStatement goal)
  | "for" => some (forStatement goal)
  | "break" => some jump
  | "continue" => some jump
  | "return" => some (returnStatement goal)
  | "with" => some (withStatement goal)
  | "switch" => some (switchStatement goal)
  | "throw" => some (throwStatement goal)
  | "try" => some (tryStatement goal)
  | "debugger" => some do
    next
    semicolon
    return .debugger (← spanFrom t.span.start)
  | _ => none

def declarationWords : List String :=
  ["interface", "type", "module", "namespace", "declare", "enum", "abstract", "global", "private",
    "protected", "public", "readonly", "accessor"]

def runsAtOnce : Node → Bool
  | .func _ h _ _ _ _ _ => !h.isAsync && !h.isGenerator
  | _ => true

def localStatement (goal : Goals) (place : Place) : Parser Node := do
  let t ← token
  let s := t.span.start
  match if t.kind == .name && !t.escaped then controlStatement goal t else none with
  | some p => p
  | none =>
    if t.is ";" then
      next
      return .empty t.span
    else if t.is "\x7b" then
      block goal
    else if t.is "@" then
      guarded (place != .single)
      let decs ← decorators goal
      decoratedClass goal s decs true
    else if t.is "class" then
      guarded (place != .single)
      classDeclaration goal s [] false true
    else if t.is "function" || (t.is "async" && (← ahead fun u => u.is "function" && !u.newline)) then
      let f ← functionDeclaration goal s false true
      guarded (place != .single || runsAtOnce f)
      return f
    else if t.is "const" && (← ahead (·.is "enum")) then
      enumDeclaration goal s false
    else if t.isAny declarationWords && (← startsDeclaration 5) then
      declaration goal
    else
      match ← varKind with
      | some kind =>
        guarded (kind == .hoisted || place != .single)
        varStatement goal s kind false
      | none => expressionStatement goal

end Recompose.Script.Parse
