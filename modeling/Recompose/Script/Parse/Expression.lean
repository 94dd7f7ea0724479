import Recompose.Script.Parse.Class
import Recompose.Script.Parse.Target

namespace Recompose.Script.Parse

open Script.Parser

def markPure : Expr → Expr
  | .apply s (.call o _) c ts es => .apply s (.call o true) c ts es
  | .apply s (.construct _) c ts es => .apply s (.construct true) c ts es
  | .form s (.binary op) (e :: es) => .form s (.binary op) (markPure e :: es)
  | .form s (.logical op) (e :: es) => .form s (.logical op) (markPure e :: es)
  | .form s .conditional (e :: es) => .form s .conditional (markPure e :: es)
  | .form s .chain [.apply t (.call o _) c ts es] => .form s .chain [.apply t (.call o true) c ts es]
  | e => e

def markEffectFree : Node → Node
  | .func s h tps this ps r b => .func s { h with isPure := true } tps this ps r b
  | e => e

def spread (goal : Goals) : Parser Node := do
  let s ← start
  expect "..."
  let e ← goal (.assign true)
  return .form (← spanFrom s) .spread [e]

def argument (goal : Goals) : Parser Node := do
  if ← isAt "..." then spread goal else goal (.assign true)

def arguments (goal : Goals) : Parser (List Node) := do
  expect "("
  enclosed (commaList ")" (argument goal))

def arrayLiteral (goal : Goals) : Parser Node := do
  let s ← start
  expect "["
  let items ← enclosed <| repeats do
    if ← eat "]" then
      return none
    else if ← isAt "," then
      let span := (← token).span
      next
      return some (Node.hole span)
    else
      let e ← argument goal
      if !(← isAt "]") then expect ","
      return some e
  return .form (← spanFrom s) .array items

def objectMethod (goal : Goals) (s : Nat) (kind : MethodKind) (key : Node)
    (isAsync isGenerator : Bool) : Parser Node := do
  let f ← functionTail goal (← start) { form := .method, isAsync, isGenerator } false
  return .methodProp (← spanFrom s) kind key f

/-- A property that consists of a name, and perhaps of a default that only a pattern may have. -/
def shorthandProperty (goal : Goals) (t : Token) (key : Node) : Parser Node := do
  guarded (← isReferable t)
  let name := Node.ref t.span t.text
  if ← eat "=" then
    let e ← goal (.assign true)
    let span ← spanFrom t.span.start
    modify fun c => { c with covers := t.span.start :: c.covers }
    return .pair span key (.assign span .plain (.place name) e) true
  else
    return .pair t.span key name true

def property (goal : Goals) : Parser Node := do
  let t ← token
  let s := t.span.start
  if t.is "..." then
    next
    let e ← goal (.assign true)
    return .spreadProp (← spanFrom s) e
  else
    let kind ←
      if ← accessorWord "get" then pure MethodKind.getter
      else if ← accessorWord "set" then pure MethodKind.setter
      else pure MethodKind.plain
    let isAsync ←
      if kind == .plain && t.is "async" && (← ahead fun u => !u.newline && followsModifier u) then
        next
        pure true
      else pure false
    let isGenerator ← eat "*"
    let key ← propertyKey goal
    if kind != .plain || isAsync || isGenerator || (← isAtAny ["(", "<"]) then
      objectMethod goal s kind key isAsync isGenerator
    else if ← eat ":" then
      let e ← goal (.assign true)
      return .pair (← spanFrom s) key e false
    else
      shorthandProperty goal t key

def objectLiteral (goal : Goals) : Parser Node := do
  let s ← start
  expect "\x7b"
  let ps ← enclosed (commaList "\x7d" (property goal))
  return .object (← spanFrom s) ps

def keepParens : Expr → Expr
  | .func s h tps this ps r b => .func s { h with parenthesised := true } tps this ps r b
  | e => e

def parenthesised (goal : Goals) : Parser Node := do
  let s ← start
  expect "("
  let e ← enclosed (goal .expr)
  expect ")"
  return .form (← spanFrom s) .paren [keepParens e]

def template (goal : Goals) : Parser Node := do
  let s ← start
  let (chunks, holes) ← templateParts false (enclosed (goal .expr))
  return .form (← spanFrom s) (.template chunks) holes

def importExpression (goal : Goals) : Parser Node := do
  let s ← start
  expect "import"
  let called (phase : Option String) : Parser Node := do
    let es ← arguments goal
    guarded (es.length == 1 || es.length == 2)
    return .form (← spanFrom s) (.importCall phase) es
  if ← eat "." then
    let name ← anyName
    if name == "meta" then return .word (← spanFrom s) .importMeta
    else if name == "defer" || name == "source" then called (some name)
    else failure
  else
    called none

def construction (goal : Goals) : Parser Node := do
  let s ← start
  expect "new"
  if ← eat "." then
    let name ← anyName
    guarded (name == "target")
    return .word (← spanFrom s) .newTarget
  else
    let callee ← goal .constructed
    let (callee, types) := splitParent callee
    let args ← if ← isAt "(" then arguments goal else pure []
    return .apply (← spanFrom s) (.construct false) callee types args

def primary (goal : Goals) : Parser Node := do
  let t ← token
  match t.kind with
  | .string lone =>
    next
    return .lit t.span (.string ⟨t.text, lone⟩)
  | .number =>
    next
    return .lit t.span (.number t.text)
  | .bigint =>
    next
    return .lit t.span (.bigint t.text)
  | .template _ _ => template goal
  | .punct =>
    match t.text with
    | "(" => parenthesised goal
    | "[" => arrayLiteral goal
    | "\x7b" => objectLiteral goal
    | "/" | "/=" =>
      reread Scan.regex?
      let u ← token
      match u.kind with
      | .regex flags =>
        next
        return .lit u.span (.regex u.text flags)
      | _ => failure
    | "@" =>
      let decs ← decorators goal
      classTail goal t.span.start decs true false false
    | "<" => if (← get).jsx then goal (.jsx false) else failure
    | _ => failure
  | .name =>
    if t.escaped then
      let name ← identifier
      return .ref t.span name
    else
      match t.text with
      | "this" =>
        next
        return .word t.span .this
      | "super" =>
        next
        guarded (← isAtAny ["(", ".", "["])
        return .word t.span .super
      | "null" =>
        next
        return .lit t.span .null
      | "true" =>
        next
        return .lit t.span (.bool true)
      | "false" =>
        next
        return .lit t.span (.bool false)
      | "function" => function goal t.span.start .expression false
      | "class" => classTail goal t.span.start [] true false false
      | "new" => construction goal
      | "import" => importExpression goal
      | _ =>
        if t.text == "async" && (← ahead fun u => u.is "function" && !u.newline) then
          function goal t.span.start .expression false
        else
          let name ← identifier
          return .ref t.span name
  | _ => failure

def startsExpression (t : Token) : Bool :=
  match t.kind with
  | .name =>
    t.isIdentifier || t.isAny ["this", "super", "null", "true", "false", "function", "class", "new",
      "import", "delete", "typeof", "void"]
  | .punct =>
    ["(", "[", "\x7b", "/", "/=", "@", "+", "-", "~", "!", "++", "--", "<"].contains t.text
  | .stop => false
  | .jsxText => false
  | _ => true

def isBinarySign (k : Context) (t : Token) : Bool :=
  (t.kind == .punct || (t.kind == .name && !t.escaped)) &&
    ((BinaryOp.ofText? t.text).isSome || (LogicalOp.ofText? t.text).isSome
      || t.text == "as" || t.text == "satisfies")
    && !(t.text == "in" && k.noIn)

/-- Type arguments inside an expression, which the token behind them must confirm. -/
def typeArgumentsInExpr (goal : Goals) : Parser (Option (List Node)) :=
  attempt do
    let t ← token
    guarded (t.is "<" || t.is "<<")
    let ts ← typeArguments goal
    let u ← token
    if u.is "(" || u.isTemplate then
      return ts
    else if u.isAny ["<", ">", "+", "-"] then
      failure
    else
      guarded (u.newline || isBinarySign (← context) u || !startsExpression u)
      return ts

def tagged (goal : Goals) (tag : Node) : Parser Node := do
  let s := tag.span.start
  let (tag, types) := splitParent tag
  let (chunks, holes) ← templateParts true (enclosed (goal .expr))
  return .apply (← spanFrom s) (.tagged chunks) tag types holes

/-- An operand read so far, and whether it is part of an optional chain. -/
structure Chain where
  node : Node
  linked : Bool := false

def memberRest (goal : Goals) (links : Bool) : Nat → Chain → Parser Chain
  | 0, _ => failure
  | fuel + 1, x => do
    let s := x.node.span.start
    let t ← token
    let question := links && t.is "?." &&
      (← ahead fun u => u.kind == .name || u.kind == .privateName || u.is "[" || u.isTemplate)
    if question then next
    let u ← token
    if (question || t.is ".") && !u.is "[" && !u.isTemplate then
      if !question then next
      let u ← token
      guarded (u.kind == .name || u.kind == .privateName)
      next
      let node := Node.member (← spanFrom s) x.node u.text (u.kind == .privateName) question
      memberRest goal links fuel ⟨node, x.linked || question⟩
    else if u.is "[" && (question || !(← context).decorator) then
      next
      let e ← enclosed (goal .expr)
      expect "]"
      let node := Node.form (← spanFrom s) (.index question) [x.node, e]
      memberRest goal links fuel ⟨node, x.linked || question⟩
    else if u.isTemplate then
      guarded (!question && !x.linked)
      let node ← tagged goal x.node
      memberRest goal links fuel ⟨node, x.linked⟩
    else if t.is "!" && !t.newline then
      next
      let node := Node.form (← spanFrom s) .nonNull [x.node]
      memberRest goal links fuel ⟨node, x.linked⟩
    else
      match ← typeArgumentsInExpr goal with
      | some ts =>
        let node := Node.apply (← spanFrom s) .instantiate x.node ts []
        memberRest goal links fuel ⟨node, x.linked⟩
      | none => return x

def call (goal : Goals) (callee : Node) (optional : Bool) (types : List Node) : Parser Node := do
  let s := callee.span.start
  let (callee, types) := if optional then (callee, types) else
    match splitParent callee with
    | (e, []) => (e, types)
    | (e, ts) => (e, ts)
  let args ← arguments goal
  return .apply (← spanFrom s) (.call optional false) callee types args

def callRest (goal : Goals) : Nat → Chain → Parser Chain
  | 0, _ => failure
  | fuel + 1, x => do
    let c ← get
    let x ← memberRest goal true (c.size + 2 - c.pos) x
    let optional ← eat "?."
    if optional then
      let types ← typeArgumentsInExpr goal
      let node ← call goal x.node true (types.getD [])
      callRest goal fuel ⟨node, true⟩
    else if ← isAt "(" then
      let node ← call goal x.node false []
      callRest goal fuel ⟨node, x.linked⟩
    else
      return x

def closeChain (x : Chain) : Parser Node := do
  if x.linked then
    match x.node with
    | .apply s .instantiate e ts [] =>
      return .apply s .instantiate (.form e.span .chain [e]) ts []
    | e => return .form (← spanFrom e.span.start) .chain [e]
  else
    return x.node

def operand (goal : Goals) : Parser Node := do
  let e ← primary goal
  let c ← get
  closeChain (← callRest goal (c.size + 2 - c.pos) ⟨e, false⟩)

/-- The callee of `new`: no call and no optional link may be part of it. -/
def constructed (goal : Goals) : Parser Node := do
  let e ← primary goal
  let c ← get
  let x ← memberRest goal false (c.size + 2 - c.pos) ⟨e, false⟩
  guarded (!(← isAt "?."))
  return x.node

def update (goal : Goals) : Parser Node := do
  let t ← token
  let op := if t.text == "++" then UpdateOp.increment else .decrement
  if t.isAny ["++", "--"] then
    next
    let e ← goal .unary
    let e ← (simpleTarget? e : Option _)
    return .form (← spanFrom t.span.start) (.update op true) [e]
  else
    let e ← operand goal
    let u ← token
    if u.isAny ["++", "--"] && !u.newline then
      let op := if u.text == "++" then UpdateOp.increment else .decrement
      let e' ← (simpleTarget? e : Option _)
      next
      return .form (← spanFrom e.span.start) (.update op false) [e']
    else
      return e

def constType (t : Token) : Parser (Option Node) := do
  if t.is "const" then
    next
    return some (.typeRef t.span ["const"] [])
  else
    return none

def ascribedType (goal : Goals) : Parser Node := do
  match ← constType (← token) with
  | some type => return type
  | none => enclosedType (goal .ty)

def unary (goal : Goals) : Parser Node := do
  let t ← token
  let s := t.span.start
  let sign := if t.kind == .punct || (t.kind == .name && !t.escaped) then UnaryOp.ofText? t.text
    else none
  match sign with
  | some op =>
    next
    let e ← goal .unary
    guarded (!(← isAt "**"))
    return .form (← spanFrom s) (.unary op) [e]
  | none =>
    if t.is "<" && !(← get).jsx then
      next
      let type ← ascribedType goal
      expect ">"
      let e ← goal .unary
      guarded (!(← isAt "**"))
      return .ascribe (← spanFrom s) .assertion e type
    else if t.is "await" && (← context).awaits then
      next
      let e ← goal .unary
      guarded (!(← isAt "**"))
      return .form (← spanFrom s) .await [e]
    else
      update goal

/-- `??` does not mix with the other logical operators unless parentheses say how. -/
def mixes (op : LogicalOp) : Node → Bool
  | .form _ (.logical p) _ => (op == .coalesce) != (p == .coalesce)
  | _ => false

def signLevel? (t : Token) : Option Level :=
  if t.kind == .punct || (t.kind == .name && !t.escaped) then
    match BinaryOp.ofText? t.text with
    | some op => some op.level
    | none =>
      match LogicalOp.ofText? t.text with
      | some op => some op.level
      | none => if t.text == "as" || t.text == "satisfies" then some Level.compare else none
  else none

def binaryRest (goal : Goals) (level : Level) : Nat → Node → Parser Node
  | 0, _ => failure
  | fuel + 1, left => do
    joinGreater
    let t ← token
    let s := left.span.start
    match signLevel? t with
    | none => return left
    | some l =>
      if (if l == Level.power then l < level else l ≤ level) || (t.is "in" && (← context).noIn) then
        return left
      else if t.is "as" || t.is "satisfies" then
        if t.newline then
          return left
        else
          next
          let type ← ascribedType goal
          let how := if t.text == "as" then Ascription.cast else .satisfies
          binaryRest goal level fuel (.ascribe (← spanFrom s) how left type)
      else
        next
        let right ← goal (.binary l)
        let span ← spanFrom s
        match LogicalOp.ofText? t.text with
        | some op =>
          guarded (!mixes op left && !mixes op right)
          binaryRest goal level fuel (.form span (.logical op) [left, right])
        | none =>
          match BinaryOp.ofText? t.text with
          | some op => binaryRest goal level fuel (.form span (.binary op) [left, right])
          | none => failure

def binary (goal : Goals) (level : Level) : Parser Node := do
  let t ← token
  let left ←
    if t.kind == .privateName then
      next
      expect "in"
      let right ← goal (.binary Level.compare)
      pure (Node.form (← spanFrom t.span.start) (.privateIn t.text) [right])
    else unary goal
  let c ← get
  binaryRest goal level (c.size + 2 - c.pos) left

def conditionalRest (goal : Goals) (arrowTypes : Bool) (test : Node) : Parser Node := do
  if ← eat "?" then
    let yes ← within (fun k => { k with noIn := false }) (goal (.assign false))
    expect ":"
    let no ← goal (.assign arrowTypes)
    return .form (← spanFrom test.span.start) .conditional [test, yes, no]
  else
    return test

def yieldExpression (goal : Goals) : Parser Node := do
  let s ← start
  expect "yield"
  let t ← token
  if !t.newline && t.is "*" then
    next
    let e ← goal (.assign true)
    return .form (← spanFrom s) (.yield true) [e]
  else if t.newline || t.isAny [")", "]", "\x7d", ",", ";", ":", "in", "of"] || t.kind == .stop then
    return .form (← spanFrom s) (.yield false) []
  else
    let e ← goal (.assign true)
    return .form (← spanFrom s) (.yield false) [e]

/-- An expression that is no arrow function with parentheses. -/
def plainAssign (goal : Goals) (arrowTypes : Bool) : Parser Node := do
  let s ← start
  let left ← goal (.binary Level.lowest)
  match left with
  | .ref site name =>
    if (← isAt "=>") && !(← token).newline then
      return ← bareArrow goal s false site name arrowTypes
  | _ => pure ()
  joinGreater
  let t ← token
  match if t.kind == .punct then AssignOp.ofText? t.text else none with
  | some op =>
    let place ←
      if op == .plain then asTarget left
      else do
        let e ← (simpleTarget? left : Option _)
        pure (Node.place e)
    next
    let value ← goal (.assign arrowTypes)
    return .assign (← spanFrom s) op place value
  | none => conditionalRest goal arrowTypes left

def assign (goal : Goals) (arrowTypes : Bool) : Parser Node := do
  let t ← token
  if t.is "yield" && (← context).yields then
    return ← yieldExpression goal
  if t.is "async" then
    if let some e ← attempt (asyncBareArrow goal arrowTypes) then
      return if t.effectFreeMark then markEffectFree e else e
  let found ← do
    match ← outlook with
    | .yes => some <$> arrow goal true
    | .open => attempt (arrow goal arrowTypes)
    | .no => pure none
  match found with
  | some e => return if t.effectFreeMark then markEffectFree e else e
  | none =>
    let e ← plainAssign goal arrowTypes
    let e := if t.pureMark then markPure e else e
    return if t.effectFreeMark then markEffectFree e else e

def sequence (goal : Goals) : Parser Node := do
  let s ← start
  let first ← goal (.assign true)
  let more ← repeats do
    if ← eat "," then some <$> goal (.assign true) else return none
  if more.isEmpty then
    return first
  else
    return .form (← spanFrom s) .sequence (first :: more)

end Recompose.Script.Parse
