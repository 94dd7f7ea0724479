import Recompose.Script.Parse.Function

namespace Recompose.Script.Parse

open Script.Parser

structure MemberHead where
  mods : Modifiers := {}
  accessor : Bool := false

def MemberHead.add (m : MemberHead) (word : String) : MemberHead :=
  match word with
  | "static" => { m with mods := { m.mods with isStatic := true } }
  | "abstract" => { m with mods := { m.mods with isAbstract := true } }
  | "override" => { m with mods := { m.mods with isOverride := true } }
  | "readonly" => { m with mods := { m.mods with isReadonly := true } }
  | "declare" => { m with mods := { m.mods with declared := true } }
  | "accessor" => { m with accessor := true }
  | _ => { m with mods := { m.mods with access := accessOf? word } }

def memberModifier (m : MemberHead) : Parser (Option MemberHead) := do
  let t ← token
  let here :=
    if t.is "static" then ahead followsModifier
    else if t.isAny ["public", "protected", "private", "abstract", "override", "readonly", "declare",
        "accessor"] then
      ahead fun u => !u.newline && followsModifier u
    else pure false
  if ← here then
    next
    return some (m.add t.text)
  else
    return none

def memberModifiers : Nat → MemberHead → Parser MemberHead
  | 0, m => return m
  | n + 1, m => do
    match ← memberModifier m with
    | some m => memberModifiers n m
    | none => return m

def staticBlock (goal : Goals) (s : Nat) : Parser Node := do
  expect "static"
  expect "\x7b"
  let stmts ← within (fun k => { awaits := true, ambient := k.ambient }) <| repeats do
    if ← isAt "\x7d" then return none else some <$> goal (.stmt .list)
  expect "\x7d"
  return .staticBlock (← spanFrom s) stmts

def names (name : String) : Node → Bool
  | .keyName _ n => n == name
  | .lit _ (.string t) => t.value == name
  | _ => false

def isPrivateConstructor : Node → Bool
  | .keyPrivate _ n => n == "constructor"
  | _ => false

def methodMember (goal : Goals) (s : Nat) (kind : MethodKind) (mods : Modifiers) (decs : List Node)
    (key : Node) (isAsync isGenerator : Bool) : Parser Node := do
  let kind := if kind == .plain && !mods.isStatic && names "constructor" key then .constructor else kind
  let f ← functionTail goal (← start) { form := .method, isAsync, isGenerator } true
  return .method (← spanFrom s) kind mods decs key f

def fieldMember (goal : Goals) (s : Nat) (accessor : Bool) (mods : Modifiers) (decs : List Node)
    (key : Node) : Parser Node := do
  let type ← typeAfterColon goal
  let init ← inFunction false false (initializer goal)
  semicolon
  return .field (← spanFrom s) accessor mods decs key type init

def member (goal : Goals) : Parser Node := do
  let s ← start
  let decs ← decorators goal
  if (← isAt "static") && (← ahead (·.is "\x7b")) then
    staticBlock goal s
  else
    let m ← memberModifiers 9 {}
    if (← isAt "[") && (← opensIndexer) then
      let node ← indexer goal s m.mods
      memberEnd
      return node
    let kind ←
      if ← accessorWord "get" then pure MethodKind.getter
      else if ← accessorWord "set" then pure MethodKind.setter
      else pure MethodKind.plain
    let isAsync ←
      if kind == .plain && (← isAt "async") && (← ahead fun u => !u.newline && followsModifier u) then
        next
        pure true
      else pure false
    let isGenerator ← eat "*"
    let key ← propertyKey goal
    let optional ← eat "?"
    guarded !(m.mods.isStatic && names "prototype" key)
    guarded !(isPrivateConstructor key)
    if kind != .plain || isAsync || isGenerator || (← isAtAny ["(", "<"]) then
      guarded (m.mods.isStatic || !names "constructor" key
        || kind == .plain && !isAsync && !isGenerator)
      methodMember goal s kind { m.mods with optional } decs key isAsync isGenerator
    else
      guarded !(names "constructor" key)
      let definite ← if optional then pure false else eat "!"
      fieldMember goal s m.accessor { m.mods with optional, definite } decs key

def members (goal : Goals) : Parser (List Node) := do
  expect "\x7b"
  let ms ← repeats do
    if ← eat "\x7d" then
      return none
    else if ← eat ";" then
      return some []
    else
      return some [← member goal]
  return ms.flatten

def splitParent : Node → Node × List Node
  | .apply _ .instantiate e ts [] => (e, ts)
  | e => (e, [])

def heritage (goal : Goals) : Parser (Node × List Node) := do
  let (e, ts) := splitParent (← goal .operand)
  if ts.isEmpty then return (e, ← typeArgumentsHere goal) else return (e, ts)

def className : Parser (Option String) := do
  let t ← token
  if t.isIdentifier && !(t.is "implements" && (← ahead (·.isIdentifier))) then
    some <$> identifier
  else
    return none

def classTail (goal : Goals) (s : Nat) (decs : List Node) (isExpr isAbstract declared : Bool) :
    Parser Node := do
  expect "class"
  let name ← className
  let tps ← typeParameters goal
  let (parent, parentTypes) ← do
    if ← eat "extends" then
      let (e, ts) ← heritage goal
      pure (some e, ts)
    else pure (none, [])
  let implemented ← do
    if ← eat "implements" then
      let first ← implementedType
      let more ← repeats do
        if ← eat "," then some <$> implementedType else return none
      pure (first :: more)
    else pure []
  let ms ← within (fun k => { k with noIn := false, decorator := false }) (members goal)
  return .cls (← spanFrom s) ⟨isExpr, name, isAbstract, declared⟩ decs tps parent parentTypes
    implemented ms
where
  implementedType : Parser Node := do
    let s ← start
    let name ← identifier
    typeName goal s name

end Recompose.Script.Parse
