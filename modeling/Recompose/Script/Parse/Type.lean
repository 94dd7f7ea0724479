import Recompose.Script.Parse.Pattern

namespace Recompose.Script.Parse

open Script.Parser

def typeWords : List String :=
  ["any", "unknown", "never", "void", "null", "undefined", "string", "number", "boolean", "bigint",
    "symbol", "object", "intrinsic"]

def typeArguments (goal : Goals) : Parser (List Node) := do
  cutLess
  expect "<"
  let ts ← enclosedType (commaList ">" (goal .ty))
  guarded (ts.length > 0)
  return ts

def typeArgumentsHere (goal : Goals) : Parser (List Node) := do
  let t ← token
  if !t.newline && (t.is "<" || t.is "<<") then typeArguments goal else return []

def pathRest : Parser (List String) :=
  repeats do
    if ← eat "." then
      let t ← token
      if t.kind == .privateName then
        next
        return some ("#" ++ t.text)
      else
        return some (← anyName)
    else
      return none

def resultType (goal : Goals) : Parser Node := do
  let t ← token
  if t.isIdentifier && (← ahead fun u => u.is "is" && !u.newline) then
    next
    next
    let type ← enclosedType (goal .ty)
    return .typeForm (← spanFrom t.span.start) (.predicate false t.text) [type]
  else
    enclosedType (goal .ty)

def resultAfterColon (goal : Goals) : Parser (Option Node) := do
  if ← eat ":" then some <$> resultType goal else return none

def skipBrackets : Nat → Nat → Parser Unit
  | 0, _ => failure
  | fuel + 1, depth => do
    let t ← token
    if t.kind == .stop then failure
    next
    let depth :=
      if t.isAny ["[", "\x7b", "("] then depth + 1
      else if t.isAny ["]", "\x7d", ")"] then depth - 1
      else depth
    if depth == 0 then return () else skipBrackets fuel depth

def skipParameterStart : Parser Unit := do
  let _ ← parameterModifiers 5 {}
  let t ← token
  if t.isIdentifier || t.is "this" then next
  else if t.isAny ["[", "\x7b"] then
    let c ← get
    skipBrackets (c.size + 2 - c.pos) 0
  else failure

def opensFunctionType : Parser Bool :=
  foresee do
    expect "("
    if ← isAtAny [")", "..."] then
      return true
    else
      skipParameterStart
      if ← isAtAny [":", ",", "?", "="] then
        return true
      else if ← eat ")" then
        isAt "=>"
      else
        return false

def startsFunctionType : Parser Bool := do
  let t ← token
  if t.is "<" || t.is "new" then return true
  else if t.is "abstract" then ahead (·.is "new")
  else if t.is "(" then opensFunctionType
  else return false

def functionType (goal : Goals) : Parser Node := do
  let s ← start
  let isAbstract ← eat "abstract"
  let constructs ← eat "new"
  let tps ← typeParameters goal
  let (this, params) ← parameters goal
  expect "=>"
  let result ← resultType goal
  let span ← spanFrom s
  return .typeFunc span constructs isAbstract
    (.func span { form := .signature } tps this params (some result) .missing)

def signature (goal : Goals) (s : Nat) : Parser Node := do
  let tps ← typeParameters goal
  let (this, params) ← parameters goal
  let result ← resultAfterColon goal
  return .func (← spanFrom s) { form := .signature } tps this params result .missing

def opensIndexer : Parser Bool :=
  foresee do
    expect "["
    let _ ← parameterModifiers 5 {}
    let t ← token
    if t.isIdentifier then
      next
      isAtAny [":", ","]
    else
      return false

def indexer (goal : Goals) (s : Nat) (mods : Modifiers) : Parser Node := do
  expect "["
  let params ← commaList "]" (parameter goal)
  expect ":"
  let type ← enclosedType (goal .ty)
  return .indexer (← spanFrom s) mods params type

/-- Members are separated by commas, semicolons or line ends. -/
def memberEnd : Parser Unit := do
  if !(← eat ",") then semicolon

def accessorWord (word : String) : Parser Bool := do
  if ← isAt word then
    if ← ahead fun u => followsModifier u && !u.isAny ["\x7b", "*", "..."] then
      next
      return true
  return false

def typeMember (goal : Goals) : Parser Node := do
  let s ← start
  let t ← token
  let node ← do
    if t.is "(" || t.is "<" then
      .callSig false <$> signature goal s
    else if t.is "new" && (← ahead fun u => u.is "(" || u.is "<") then
      next
      .callSig true <$> signature goal s
    else
      let mods ← parameterModifiers 5 {}
      if (← isAt "[") && (← opensIndexer) then
        indexer goal s mods
      else
        let kind ←
          if ← accessorWord "get" then pure MethodKind.getter
          else if ← accessorWord "set" then pure MethodKind.setter
          else pure MethodKind.plain
        let key ← propertyKey goal
        let optional ← eat "?"
        if ← isAtAny ["(", "<"] then
          let f ← signature goal (← start)
          pure (.methodSig (← spanFrom s) kind optional key f)
        else
          let type ← typeAfterColon goal
          pure (.propertySig (← spanFrom s) { mods with optional } key type)
  memberEnd
  return node

def typeMembers (goal : Goals) : Parser (List Node) := do
  expect "\x7b"
  let ms ← repeats do
    if ← eat "\x7d" then return none else some <$> typeMember goal
  return ms

def opensMapped : Parser Bool :=
  foresee do
    expect "\x7b"
    if ← isAtAny ["+", "-"] then
      next
      isAt "readonly"
    else
      let _ ← eat "readonly"
      expect "["
      let _ ← anyName
      isAt "in"

def mappedFlag (word : String) : Parser MappedFlag := do
  if ← eat "+" then
    expect word
    return .added
  else if ← eat "-" then
    expect word
    return .removed
  else if ← eat word then
    return .plain
  else
    return .absent

def mappedType (goal : Goals) : Parser Node := do
  let s ← start
  expect "\x7b"
  let ro ← mappedFlag "readonly"
  expect "["
  let name ← anyName
  expect "in"
  let domain ← goal .ty
  let renamed ← if ← eat "as" then some <$> goal .ty else pure none
  expect "]"
  let optional ← mappedFlag "?"
  let type ← typeAfterColon goal
  if !(← isAt "\x7d") then memberEnd
  expect "\x7d"
  return .typeMapped (← spanFrom s) ro optional name domain renamed type

def labelsElement : Parser Bool :=
  foresee do
    let _ ← anyName
    let _ ← eat "?"
    isAt ":"

def labelledElement (goal : Goals) : Parser Node := do
  let s ← start
  let name ← anyName
  let optional ← eat "?"
  expect ":"
  let type ← goal .ty
  return .typeForm (← spanFrom s) (.labelled name optional) [type]

def tupleElement (goal : Goals) : Parser Node := do
  let s ← start
  let rest ← eat "..."
  if ← labelsElement then
    let e ← labelledElement goal
    if rest then return .typeForm (← spanFrom s) .rest [e] else return e
  else
    let type ← goal .ty
    if rest then return .typeForm (← spanFrom s) .rest [type] else return optionalElement type
where
  optionalElement : Node → Node
    | .typeForm span (.marked "?" true) parts => .typeForm span .optional parts
    | type => type

def templateParts {α : Type} (tagged : Bool) (hole : Parser α) : Parser (List String × List α) := do
  let c ← get
  go (c.size + 2 - c.pos)
where
  go : Nat → Parser (List String × List α)
    | 0 => failure
    | fuel + 1 => do
      let t ← token
      match t.kind with
      | .template last valid =>
        guarded (valid || tagged)
        next
        if last then
          return ([t.text], [])
        else
          let a ← hole
          guarded (← isAt "\x7d")
          reread Scan.template?
          let (chunks, holes) ← go fuel
          return (t.text :: chunks, a :: holes)
      | _ => failure

def typeName (goal : Goals) (s : Nat) (first : String) : Parser Node := do
  let path ← pathRest
  let args ← typeArgumentsHere goal
  return .typeRef (← spanFrom s) (first :: path) args

def importType (goal : Goals) (s : Nat) (queried : Bool) : Parser Node := do
  expect "import"
  expect "("
  let source ← stringLiteral
  let options ← if ← eat "," then
      if ← isAt ")" then pure none else some <$> enclosed (goal (.assign true))
    else pure none
  let _ ← eat ","
  expect ")"
  let path ← pathRest
  let args ← typeArgumentsHere goal
  return .typeImport (← spanFrom s) queried source options path args

def typeQuery (goal : Goals) : Parser Node := do
  let s ← start
  expect "typeof"
  if ← isAt "import" then
    importType goal s true
  else
    let t ← token
    guarded (t.isIdentifier || t.is "this")
    next
    let path ← pathRest
    let args ← typeArgumentsHere goal
    return .typeQuery (← spanFrom s) (t.text :: path) args

def assertion (goal : Goals) : Parser Node := do
  let s ← start
  expect "asserts"
  let t ← token
  next
  if ← eat "is" then
    let type ← goal .ty
    return .typeForm (← spanFrom s) (.predicate true t.text) [type]
  else
    return .typeForm (← spanFrom s) (.predicate true t.text) []

def primaryType (goal : Goals) : Parser Node := do
  let t ← token
  let s := t.span.start
  match t.kind with
  | .string lone =>
    next
    return .typeLit t.span false (.string ⟨t.text, lone⟩)
  | .number =>
    next
    return .typeLit t.span false (.number t.text)
  | .bigint =>
    next
    return .typeLit t.span false (.bigint t.text)
  | .template _ _ =>
    let (chunks, holes) ← templateParts false (enclosedType (goal .ty))
    return .typeForm (← spanFrom s) (.template chunks) holes
  | .punct =>
    match t.text with
    | "-" =>
      next
      let u ← token
      next
      match u.kind with
      | .number => return .typeLit (← spanFrom s) true (.number u.text)
      | .bigint => return .typeLit (← spanFrom s) true (.bigint u.text)
      | _ => failure
    | "(" =>
      next
      let type ← enclosedType (goal .ty)
      expect ")"
      return .typeForm (← spanFrom s) .paren [type]
    | "[" =>
      next
      let ts ← enclosedType (commaList "]" (tupleElement goal))
      return .typeForm (← spanFrom s) .tuple ts
    | "?" =>
      next
      if ← isAtAny [",", "\x7d", ")", ">", "=", "|"] then
        return .typeWord t.span "?"
      else
        let type ← goal .ty
        return .typeForm (← spanFrom s) (.marked "?" false) [type]
    | "\x7b" =>
      if ← opensMapped then
        enclosedType (mappedType goal)
      else
        let ms ← enclosedType (typeMembers goal)
        return .typeObject (← spanFrom s) ms
    | _ => failure
  | .name =>
    if t.is "true" || t.is "false" then
      next
      return .typeLit t.span false (.bool (t.text == "true"))
    else if t.is "typeof" then
      typeQuery goal
    else if t.is "import" then
      importType goal s false
    else if t.is "this" then
      next
      if (← isAt "is") && !(← token).newline then
        next
        let type ← enclosedType (goal .ty)
        return .typeForm (← spanFrom s) (.predicate false "this") [type]
      else
        return .typeWord t.span "this"
    else if t.is "asserts" && (← ahead fun u => !u.newline && (u.isIdentifier || u.is "this")) then
      assertion goal
    else if t.isAny typeWords && !(← ahead (·.is ".")) then
      next
      return .typeWord t.span t.text
    else
      let name ← identifier
      typeName goal s name
  | _ => failure

def startsType : Nat → Parser Bool
  | 0 => return false
  | fuel + 1 => do
    let t ← token
    if t.is "-" then
      ahead fun u => u.kind == .number || u.kind == .bigint
    else if t.is "(" then
      foresee do
        next
        if ← isAtAny [")", "@"] then return true else startsType fuel
    else
      return t.isAny ["\x7b", "[", "<", "|", "&", "*", "?", "!", "...", "new", "this", "typeof",
          "void", "null", "true", "false", "function", "import"]
        || t.isString || t.isTemplate || t.kind == .number || t.kind == .bigint || t.isIdentifier

/-- Brackets and signs behind a type, on the same line. A question mark in front of a type belongs to
a conditional. -/
def suffixes (goal : Goals) (s : Nat) : Nat → Node → Parser Node
  | 0, _ => failure
  | fuel + 1, type => do
    let t ← token
    if !t.newline && t.is "[" then
      next
      if ← eat "]" then
        suffixes goal s fuel (.typeForm (← spanFrom s) .array [type])
      else
        let key ← enclosedType (goal .ty)
        expect "]"
        suffixes goal s fuel (.typeForm (← spanFrom s) .indexed [type, key])
    else if !t.newline && t.is "!" then
      next
      suffixes goal s fuel (.typeForm (← spanFrom s) (.marked "!" true) [type])
    else if !t.newline && t.is "?" then
      if ← foresee do next; startsType fuel then
        return type
      else
        next
        suffixes goal s fuel (.typeForm (← spanFrom s) (.marked "?" true) [type])
    else
      return type

def arrayType (goal : Goals) : Parser Node := do
  let s ← start
  let marked ← eat "!"
  let type ← primaryType goal
  let c ← get
  let type := if marked then .typeForm ⟨s, c.last⟩ (.marked "!" false) [type] else type
  suffixes goal s (c.size + 2 - c.pos) type

/-- `infer T`, with a bound unless the bound turns out to be the test of a conditional type. -/
def inferType (goal : Goals) : Parser Node := do
  let s ← start
  expect "infer"
  let name ← identifier
  let bound ← attempt do
    expect "extends"
    let type ← within (fun k => { k with noConditional := true }) (goal .ty)
    if !(← context).noConditional then guarded (!(← isAt "?"))
    return type
  return .typeForm (← spanFrom s) (.infer name) bound.toList

def operatorType (goal : Goals) : Parser Node := do
  let t ← token
  if t.isAny ["keyof", "unique", "readonly"]
      && (← ahead fun u => u.kind == .name || u.isAny ["(", "[", "\x7b"] || u.isString
        || u.isTemplate || u.kind == .number) then
    next
    let type ← goal .tyOperator
    return .typeForm (← spanFrom t.span.start) (.operator t.text) [type]
  else if t.is "infer" && (← ahead (·.isIdentifier)) then
    inferType goal
  else
    arrayType goal

def joined (sign : String) (f : TypeForm) (part : Parser Node) : Parser Node := do
  let s ← start
  let leading ← eat sign
  let first ← part
  let more ← repeats do
    if ← eat sign then some <$> part else return none
  if leading || !more.isEmpty then
    return .typeForm (← spanFrom s) f (first :: more)
  else
    return first

def unionType (goal : Goals) : Parser Node :=
  joined "|" .union (joined "&" .intersection (operatorType goal))

def type (goal : Goals) : Parser Node := do
  if ← startsFunctionType then
    functionType goal
  else
    let s ← start
    let check ← unionType goal
    let t ← token
    if t.is "extends" && !t.newline && !(← context).noConditional then
      next
      let bound ← within (fun k => { k with noConditional := true }) (goal .ty)
      expect "?"
      let yes ← enclosedType (goal .ty)
      expect ":"
      let no ← enclosedType (goal .ty)
      return .typeForm (← spanFrom s) .conditional [check, bound, yes, no]
    else
      return check

end Recompose.Script.Parse
