import Recompose.Script.Print.Literal

namespace Recompose.Script.Print

inductive Role where
  | expr (level : Level) (noIn noCall : Bool)
  | stmt
  | inline (noIn : Bool)
  | pattern (assigning : Bool)
  | tail
  | signature
  | arrow
  | plain
deriving DecidableEq

namespace Role

def level : Role → Level
  | expr l _ _ => l
  | _ => Level.lowest

def noIn : Role → Bool
  | expr _ b _ => b
  | inline b => b
  | _ => false

def noCall : Role → Bool
  | expr _ _ b => b
  | _ => false

def free (l : Level) : Role := expr l false false

def atLevel (r : Role) (l : Level) : Role := expr l r.noIn r.noCall

end Role

def isLogical (op : LogicalOp) : Node → Bool
  | .form _ (.logical p) _ => p == op
  | _ => false

def isUnary : Node → Bool
  | .form _ (.unary _) _ => true
  | _ => false

/-- An operand of `??` that is another logical operation is always wrapped. -/
def clashes (e : Node) : Bool :=
  isLogical .and e || isLogical .or e

def logicalLeft (op : LogicalOp) (e : Node) : Level :=
  if op == .coalesce && clashes e.bare then Level.beforeOp else op.level - 1

def logicalRight (op : LogicalOp) (e : Node) : Level :=
  if op == .coalesce && clashes e.bare then Level.beforeOp
  else if isLogical op e.bare then op.level - 1
  else op.level

def binaryLeft (op : BinaryOp) (e : Node) : Level :=
  if op == .power then if isUnary e.bare then Level.call else op.level else op.level - 1

def binaryRight (op : BinaryOp) : Level :=
  if op == .power then op.level - 1 else op.level

def binaryWraps (r : Role) (op : BinaryOp) : Bool :=
  op.level ≤ r.level || (op == .isIn && r.noIn)

def infixed (wraps : Bool) (left : Layout) (sign : String) (right : Layout) : Layout :=
  wrap wraps do
    left
    text (" " ++ sign ++ " ")
    right

def unary (r : Role) (op : UnaryOp) (e : Layout) : Layout :=
  wrap (Level.beforeOp ≤ r.level) do
    if op.isWord then text (op.text ++ " ") else leadingSign op.text
    e

def isHole : Node → Bool
  | .hole _ => true
  | _ => false

def isGap : Node → Bool
  | .gap => true
  | _ => false

def isRest : Node → Bool
  | .restPattern _ _ => true
  | _ => false

def commaLast : List Layout → List Layout
  | [] => []
  | [p] => [do p; text ","]
  | p :: ps => p :: commaLast ps

def array (es : List Node) (ps : List Layout) : Layout := do
  let ps := if (es.getLast?.map isHole).getD false then commaLast ps else ps
  text "["
  if ps.length > 2 then lines "," ps else commas ps
  text "]"

def object (ps : List Layout) : Layout := do
  let o ← get
  let n := o.code.utf8ByteSize
  wrap (o.stmtStart == n || o.arrowStart == n) do
    match ps with
    | [] => text "\x7b\x7d"
    | [p] =>
      text "\x7b "
      p
      text " \x7d"
    | _ =>
      text "\x7b"
      lines "," ps
      text "\x7d"

def arguments (ps : List Layout) : Layout := do
  text "("
  commas ps
  text ")"

def typeArguments (ps : List Layout) : Layout :=
  when (!ps.isEmpty) do
    text "<"
    commas ps
    text ">"

/-- One type parameter stays on its line, more get a line each. -/
def typeParameters (ps : List Layout) : Layout :=
  match ps with
  | [] => skipped
  | [p] => do
    text "<"
    p
    when (← get).jsx (text ",")
    text ">"
  | _ => do
    text "<"
    lines "," ps
    text ">"

def call (r : Role) (opt isPure : Bool) (callee types args : Layout) : Layout := do
  let o ← get
  let n := o.code.utf8ByteSize
  let wraps := Level.construct ≤ r.level || r.noCall || (isPure && Level.afterOp ≤ r.level)
  wrap wraps do
    when isPure (text "/* @__PURE__ */ ")
    let m ← length
    if o.defaultStart == n then modify fun o => { o with defaultStart := m }
    else when (o.stmtStart == n) (modify fun o => { o with stmtStart := m })
    callee
    when opt (text "?.")
    types
    args

def construct (r : Role) (isPure : Bool) (callee types args : Layout) : Layout :=
  wrap (Level.call ≤ r.level || (isPure && Level.afterOp ≤ r.level)) do
    when isPure (text "/* @__PURE__ */ ")
    text "new "
    callee
    types
    args

def member (object : Layout) (name : String) (isPrivate opt : Bool) : Layout := do
  object
  let o ← get
  if opt then text "?."
  else if o.dotSpace == o.code.utf8ByteSize && !isPrivate then text " ."
  else text "."
  text (if isPrivate then "#" ++ name else name)

def functionTail (typeParams : List Layout) (this : Option Layout) (params : List Layout)
    (result : Option Layout) (body : Layout) : Layout := do
  typeParameters typeParams
  text "("
  commas (this.toList ++ params)
  text ")"
  optional result fun p => do
    text ": "
    p
  body

def functionHead (h : FuncHead) : Layout := do
  when h.declared (text "declare ")
  when h.isAsync (text "async ")
  text "function"
  when h.isGenerator (text "* ")
  match h.name with
  | some n => text (if h.isGenerator then n else " " ++ n)
  | none => skipped

def functionExpr (h : FuncHead) (tail : Layout) : Layout := do
  let o ← get
  let n := o.code.utf8ByteSize
  wrap (o.stmtStart == n || o.defaultStart == n || h.parenthesised) do
    when h.isPure (text "/* @__NO_SIDE_EFFECTS__ */ ")
    functionHead h
    tail

def arrowExpr (r : Role) (h : FuncHead) (typeParams : List Layout) (this : Option Layout)
    (params : List Layout) (result : Option Layout) (body : Layout) : Layout :=
  wrap (Level.assign ≤ r.level || h.parenthesised) do
    when h.isPure (text "/* @__NO_SIDE_EFFECTS__ */ ")
    when h.isAsync (text "async ")
    functionTail typeParams this params result do
      text " => "
      body

def decorated (ps : List Layout) : Layout :=
  each (ps.map fun p => do p; space)

/-- A decorator that is more than names, members and calls stands in parentheses. -/
def decoratorWraps : Node → Bool
  | .ref _ _ => false
  | .member _ _ _ _ _ => false
  | .apply _ (.call _ _) c _ _ => decoratorWraps c
  | _ => true

def modifiers (m : Modifiers) : Layout := do
  when m.declared (text "declare ")
  match m.access with
  | some a => text (a.text ++ " ")
  | none => skipped
  when m.isAbstract (text "abstract ")
  when m.isStatic (text "static ")
  when m.isReadonly (text "readonly ")

def methodWord : MethodKind → String
  | .getter => "get "
  | .setter => "set "
  | _ => ""

def methodHead (kind : MethodKind) : Node → Layout
  | .func _ h _ _ _ _ _ => do
    text (methodWord kind)
    when h.isAsync (text "async ")
    when h.isGenerator (text "*")
  | _ => text (methodWord kind)

def classHead (h : ClassHead) (typeParams : Layout) (parent : Option Layout) (parentTypes : Layout)
    (implemented : List Layout) : Layout := do
  when h.declared (text "declare ")
  when h.isAbstract (text "abstract ")
  text "class"
  match h.name with
  | some n => do
    text (" " ++ n)
    typeParams
  | none => skipped
  optional parent fun p => do
    text " extends "
    p
    parentTypes
  when (!implemented.isEmpty) do
    text " implements "
    commas implemented
  space

def arrayPattern (assigning : Bool) (items : List Node) (ps : List Layout) : Layout := do
  let rest := (items.getLast?.map isRest).getD false
  let shown := if rest then ps.dropLast else ps
  let last := (if rest then items.dropLast else items).getLast?
  text "["
  commas (if rest || (last.map isGap).getD false then commaLast shown else shown)
  if rest then
    when (!assigning || !shown.isEmpty) space
    each (ps.drop shown.length)
  text "]"

def objectPattern (assigning : Bool) (ps : List Layout) : Layout :=
  if ps.isEmpty then text "\x7b\x7d"
  else do
    text (if assigning then "\x7b" else "\x7b ")
    commas ps
    text (if assigning then "\x7d" else " \x7d")

def bindsKey : Node → Node → Bool
  | .keyName _ k, .binding _ n => k == n
  | .keyName _ k, .withDefault _ (.binding _ n) _ => k == n
  | _, _ => false

def namesKey (shorthand : Bool) : Node → Node → Bool
  | .keyName _ k, e =>
    if k == "__proto__" then shorthand
    else match e with
      | .ref _ n => k == n
      | _ => false
  | _, _ => false

/-- A statement that depends on another: a block stays on the line, as does anything else. -/
def dependent (s : Node) (inline stmt : Layout) : Layout :=
  match s with
  | .block _ _ => do
    space
    inline
    newline
  | .empty _ => text ";\n"
  | _ => do
    modify fun o => { o with spaceNext := true }
    stmt

/-- Would an `else` behind the statement belong to an `if` inside it? -/
def dangling : Node → Bool
  | .ifStmt _ _ _ none => true
  | .ifStmt _ _ _ (some s) => dangling s
  | .forStmt _ _ _ _ s => dangling s
  | .forEach _ _ _ _ s => dangling s
  | .whileStmt _ _ s => dangling s
  | .withStmt _ _ s => dangling s
  | .labelled _ _ s => dangling s
  | _ => false

def isParen : Node → Bool
  | .form _ .paren _ => true
  | _ => false

def isVars : Node → Bool
  | .vars _ _ _ _ => true
  | _ => false

def isMissing : Node → Bool
  | .missing => true
  | _ => false

def isBlock : Node → Bool
  | .block _ _ => true
  | _ => false

def isIf : Node → Bool
  | .ifStmt _ _ _ _ => true
  | _ => false

def consequent (s : Node) (hasElse : Bool) (inline stmt : Layout) : Layout :=
  if isBlock s || dangling s then do
    space
    if isBlock s then inline else braces [stmt]
    if hasElse then space else newline
  else do
    dependent s inline stmt
    when hasElse indentation

def alternate (s : Node) (inline stmt : Layout) : Layout := do
  text "else"
  if isIf s then
    space
    inline
  else dependent s inline stmt

def doBody (s : Node) (inline stmt : Layout) : Layout :=
  match s with
  | .block _ _ => do
    space
    inline
    space
  | .empty _ => do
    text ";\n"
    indentation
  | _ => do
    newline
    indented stmt
    indentation

def isString : Node → Option StringText
  | .lit _ (.string s) => some s
  | _ => none

/-- Directives and statements. A string that would be read as a directive is wrapped. -/
def bodyItems (directives : List String) (stmts : List Node) (ps : List Layout) : List Layout :=
  let first := match directives, stmts with
    | [], .exprStmt _ e :: _ => isString e.bare
    | _, _ => none
  let ps := match first with
    | some s => text ("(" ++ quoted s ++ ");\n") :: ps.drop 1
    | none => ps
  directives.map directive ++ ps

def isDeclared : Node → Bool
  | .vars _ _ _ _ => true
  | .aliasDecl _ _ _ _ _ => true
  | .importEquals _ _ _ _ => true
  | _ => false

def moduleName : ModuleName → String
  | .ident n => n
  | .quoted s => quoted s

def withClause : Option WithClause → String
  | none => ""
  | some w =>
    let entries := w.entries.map fun (k, v) => moduleName k ++ ": " ++ quoted v
    if entries.isEmpty then " " ++ w.keyword ++ " \x7b\x7d"
    else " " ++ w.keyword ++ " \x7b " ++ ", ".intercalate entries ++ " \x7d"

def importItem : ImportItem → String
  | .default n => n
  | .namespace n => "* as " ++ n
  | .named typeOnly name n =>
    (if typeOnly then "type " else "") ++ moduleName name
      ++ if name.value == n then "" else " as " ++ n

def isNamed : ImportItem → Bool
  | .named _ _ _ => true
  | _ => false

def importClause (c : ImportClause) : String :=
  let head := "import" ++ (if c.typeOnly then " type" else "")
    ++ (c.phase.map (" " ++ ·)).getD ""
  let source := quoted c.source ++ withClause c.attributes ++ ";\n"
  match c.items with
  | none => head ++ " " ++ source
  | some items =>
    let single := (items.filter (!isNamed ·)).map importItem
    let named := (items.filter isNamed).map importItem
    let list := if named.isEmpty && !single.isEmpty then []
      else if named.isEmpty then ["\x7b\x7d"]
      else ["\x7b " ++ ", ".intercalate named ++ " \x7d"]
    head ++ " " ++ ", ".intercalate (single ++ list) ++ " from " ++ source

def exportItem (i : ExportItem) : String :=
  (if i.typeOnly then "type " else "") ++ moduleName i.name
    ++ if i.name.value == i.exported.value then "" else " as " ++ moduleName i.exported

def exportClause (c : ExportClause) : String :=
  let items := if c.items.isEmpty then "\x7b\x7d"
    else "\x7b " ++ ", ".intercalate (c.items.map exportItem) ++ " \x7d"
  "export " ++ (if c.typeOnly then "type " else "") ++ items
    ++ (c.source.map fun s => " from " ++ quoted s).getD "" ++ withClause c.attributes ++ ";\n"

def exportAllClause (c : ExportAllClause) : String :=
  "export " ++ (if c.typeOnly then "type " else "") ++ "*"
    ++ (c.name.map fun n => " as " ++ moduleName n).getD ""
    ++ " from " ++ quoted c.source ++ withClause c.attributes ++ ";\n"

def importTarget : ImportTarget → String
  | .path names => ".".intercalate names
  | .required s => "require(" ++ quoted s ++ ")"

def moduleTitle : ModuleTitle → String
  | .path keyword names => keyword ++ " " ++ ".".intercalate names
  | .quoted keyword s => keyword ++ " " ++ quoted s
  | .global => "global"

def typeWraps : Node → Bool
  | .typeFunc _ _ _ _ => true
  | .typeForm _ .conditional _ => true
  | _ => false

def isFunctionType : Node → Bool
  | .typeFunc _ false _ _ => true
  | _ => false

def mappedFlag (word : String) : MappedFlag → String
  | .absent => ""
  | .plain => word
  | .added => "+" ++ word
  | .removed => "-" ++ word

def path (names : List String) : String :=
  ".".intercalate names

def jsxName : JsxName → String
  | .path names => path names
  | .spaced a b => a ++ ":" ++ b

/-- A quoted attribute; nothing in it is escaped. -/
def jsxQuoted (s : String) : String :=
  if s.toList.contains '"' then "'" ++ s ++ "'" else "\"" ++ s ++ "\""

end Recompose.Script.Print
