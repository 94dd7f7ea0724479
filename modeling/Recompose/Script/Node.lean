import Recompose.Script.Operator

namespace Recompose.Script

/-- A half-open range of byte offsets. -/
structure Span where
  start : Nat
  stop : Nat
deriving DecidableEq, Repr, Inhabited

/-- The span of generated nodes that stand for no source text. -/
def Span.none : Span := ⟨0, 0⟩

/-- The text of a string literal. A lone surrogate is held as U+FFFD followed by its four
hexadecimal digits, which `lone` announces. -/
structure StringText where
  value : String
  lone : Bool
deriving DecidableEq, Repr, Inhabited

inductive Literal where
  | null
  | bool (value : Bool)
  | number (raw : String)
  | bigint (raw : String)
  | string (text : StringText)
  | regex (source flags : String)
deriving DecidableEq, Repr, Inhabited

inductive Word where
  | this | super | newTarget | importMeta
deriving DecidableEq, Repr, Inhabited

def Word.text : Word → String
  | this => "this"
  | super => "super"
  | newTarget => "new.target"
  | importMeta => "import.meta"

/-- Forms whose operands are expressions and that need no other part. -/
inductive Form where
  | unary (op : UnaryOp)
  | update (op : UpdateOp) (leads : Bool)
  | binary (op : BinaryOp)
  | logical (op : LogicalOp)
  | conditional
  | sequence
  | spread
  | await
  | yield (delegate : Bool)
  | array
  | template (chunks : List String)
  | paren
  | index (optional : Bool)
  | importCall (phase : Option String)
  | chain
  | nonNull
  | privateIn (name : String)
deriving DecidableEq, Repr, Inhabited

/-- Forms that apply an expression to type arguments and arguments. -/
inductive Application where
  | call (optional isPure : Bool)
  | construct (isPure : Bool)
  | tagged (chunks : List String)
  | instantiate
deriving DecidableEq, Repr, Inhabited

inductive Ascription where
  | cast | satisfies | assertion
deriving DecidableEq, Repr, Inhabited

inductive FuncForm where
  | declaration | expression | arrow | method | signature
deriving DecidableEq, Repr, Inhabited

structure FuncHead where
  form : FuncForm
  name : Option String := Option.none
  isAsync : Bool := false
  isGenerator : Bool := false
  declared : Bool := false
  /-- A closure that stood in parentheses keeps one pair. -/
  parenthesised : Bool := false
  isPure : Bool := false
deriving DecidableEq, Repr, Inhabited

structure ClassHead where
  isExpr : Bool
  name : Option String
  isAbstract : Bool
  declared : Bool
deriving DecidableEq, Repr, Inhabited

inductive Access where
  | everyone | heirs | owner
deriving DecidableEq, Repr, Inhabited

def Access.text : Access → String
  | everyone => "public"
  | heirs => "protected"
  | owner => "private"

structure Modifiers where
  access : Option Access := Option.none
  declared : Bool := false
  isStatic : Bool := false
  isAbstract : Bool := false
  isOverride : Bool := false
  isReadonly : Bool := false
  optional : Bool := false
  definite : Bool := false
deriving DecidableEq, Repr, Inhabited

inductive MethodKind where
  | plain | constructor | getter | setter
deriving DecidableEq, Repr, Inhabited

inductive TypeForm where
  | union | intersection | array | tuple | indexed | paren | conditional
  | operator (word : String)
  | infer (name : String)
  | optional
  | rest
  | labelled (name : String) (optional : Bool)
  | predicate (asserts : Bool) (subject : String)
  | template (chunks : List String)
  | marked (sign : String) (behind : Bool)
deriving DecidableEq, Repr, Inhabited

inductive MappedFlag where
  | absent | plain | added | removed
deriving DecidableEq, Repr, Inhabited

inductive VarKind where
  | hoisted | fresh | constant | resource | awaitedResource
deriving DecidableEq, Repr, Inhabited

def VarKind.text : VarKind → String
  | hoisted => "var"
  | fresh => "let"
  | constant => "const"
  | resource => "using"
  | awaitedResource => "await using"

inductive EachKind where
  | keys | values | awaited
deriving DecidableEq, Repr, Inhabited

inductive ModuleName where
  | ident (name : String)
  | quoted (text : StringText)
deriving DecidableEq, Repr, Inhabited

def ModuleName.value : ModuleName → String
  | ident name => name
  | quoted text => text.value

inductive ImportItem where
  | default (name : String)
  | namespace (name : String)
  | named (typeOnly : Bool) (imported : ModuleName) (name : String)
deriving DecidableEq, Repr, Inhabited

def ImportItem.local : ImportItem → String
  | default name => name
  | .namespace name => name
  | named _ _ name => name

structure WithClause where
  keyword : String
  entries : List (ModuleName × StringText)
deriving DecidableEq, Repr, Inhabited

structure ImportClause where
  typeOnly : Bool
  phase : Option String
  items : Option (List ImportItem)
  source : StringText
  attributes : Option WithClause
deriving DecidableEq, Repr, Inhabited

structure ExportItem where
  typeOnly : Bool
  name : ModuleName
  exported : ModuleName
deriving DecidableEq, Repr, Inhabited

structure ExportClause where
  typeOnly : Bool
  items : List ExportItem
  source : Option StringText
  attributes : Option WithClause
deriving DecidableEq, Repr, Inhabited

structure ExportAllClause where
  typeOnly : Bool
  name : Option ModuleName
  source : StringText
  attributes : Option WithClause
deriving DecidableEq, Repr, Inhabited

inductive ImportTarget where
  | path (names : List String)
  | required (source : StringText)
deriving DecidableEq, Repr, Inhabited

inductive ModuleTitle where
  | path (keyword : String) (names : List String)
  | quoted (keyword : String) (text : StringText)
  | global
deriving DecidableEq, Repr, Inhabited

inductive JsxName where
  | path (names : List String)
  | spaced (space name : String)
deriving DecidableEq, Repr, Inhabited

inductive Node where
  -- expressions
  | ref (span : Span) (name : String)
  | lit (span : Span) (value : Literal)
  | word (span : Span) (w : Word)
  | hole (span : Span)
  | form (span : Span) (f : Form) (operands : List Node)
  | member (span : Span) (object : Node) (name : String) (isPrivate optional : Bool)
  | apply (span : Span) (how : Application) (callee : Node) (types args : List Node)
  | ascribe (span : Span) (how : Ascription) (value type : Node)
  | object (span : Span) (properties : List Node)
  | assign (span : Span) (op : AssignOp) (target value : Node)
  -- object literals
  | pair (span : Span) (key value : Node) (shorthand : Bool)
  | methodProp (span : Span) (kind : MethodKind) (key f : Node)
  | spreadProp (span : Span) (value : Node)
  | keyName (span : Span) (name : String)
  | keyPrivate (span : Span) (name : String)
  | keyComputed (value : Node)
  -- binding patterns and assignment targets
  | binding (span : Span) (name : String)
  | place (target : Node)
  | arrayPattern (span : Span) (items : List Node)
  | objectPattern (span : Span) (fields : List Node)
  | withDefault (span : Span) (target default : Node)
  | fieldPattern (span : Span) (key value : Node) (shorthand : Bool)
  | restPattern (span : Span) (target : Node)
  | gap
  -- functions
  | func (span : Span) (head : FuncHead) (typeParams : List Node)
      (this : Option Node) (params : List Node) (result : Option Node) (body : Node)
  | missing
  | code (span : Span) (directives : List String) (stmts : List Node)
  | concise (value : Node)
  | param (span : Span) (mods : Modifiers) (rest : Bool) (decorators : List Node)
      (target : Node) (type init : Option Node)
  -- classes
  | cls (span : Span) (head : ClassHead) (decorators : List Node)
      (typeParams : List Node)
      (parent : Option Node) (parentTypes implemented members : List Node)
  | method (span : Span) (kind : MethodKind) (mods : Modifiers) (decorators : List Node)
      (key f : Node)
  | field (span : Span) (accessor : Bool) (mods : Modifiers) (decorators : List Node)
      (key : Node) (type init : Option Node)
  | staticBlock (span : Span) (stmts : List Node)
  | indexer (span : Span) (mods : Modifiers) (params : List Node) (type : Node)
  | propertySig (span : Span) (mods : Modifiers) (key : Node) (type : Option Node)
  | methodSig (span : Span) (kind : MethodKind) (optional : Bool) (key f : Node)
  | callSig (constructs : Bool) (f : Node)
  -- types
  | typeWord (span : Span) (name : String)
  | typeRef (span : Span) (path : List String) (args : List Node)
  | typeQuery (span : Span) (path : List String) (args : List Node)
  | typeLit (span : Span) (negative : Bool) (value : Literal)
  | typeForm (span : Span) (f : TypeForm) (parts : List Node)
  | typeFunc (span : Span) (constructs isAbstract : Bool) (f : Node)
  | typeObject (span : Span) (members : List Node)
  | typeMapped (span : Span) (isReadonly optional : MappedFlag) (name : String)
      (domain : Node) (renamed type : Option Node)
  | typeImport (span : Span) (queried : Bool) (source : StringText) (options : Option Node)
      (path : List String) (args : List Node)
  | typeParam (span : Span) (modifiers : List String) (name : String)
      (bound default : Option Node)
  -- elements
  | jsxElement (span : Span) (name : JsxName) (types : List Node)
      (attributes children : List Node) (closed : Bool)
  | jsxFragment (span : Span) (children : List Node)
  | jsxAttribute (span : Span) (name : String) (value : Option Node)
  | jsxSpread (span : Span) (value : Node)
  | jsxText (span : Span) (raw : String)
  | jsxQuoted (span : Span) (text : String)
  | jsxHole (span : Span) (value : Option Node)
  | jsxSpreadChild (span : Span) (value : Node)
  -- statements
  | empty (span : Span)
  | exprStmt (span : Span) (value : Node)
  | block (span : Span) (stmts : List Node)
  | ifStmt (span : Span) (test yes : Node) (no : Option Node)
  | forStmt (span : Span) (init test update : Option Node) (body : Node)
  | forEach (span : Span) (kind : EachKind) (left right body : Node)
  | whileStmt (span : Span) (test body : Node)
  | doWhile (span : Span) (body test : Node)
  | switchStmt (span : Span) (subject : Node) (clauses : List Node)
  | returnStmt (span : Span) (value : Option Node)
  | throwStmt (span : Span) (value : Node)
  | breakStmt (span : Span) (label : Option String)
  | continueStmt (span : Span) (label : Option String)
  | labelled (span : Span) (label : String) (body : Node)
  | tryStmt (span : Span) (block : Node) (handler finalizer : Option Node)
  | withStmt (span : Span) (object body : Node)
  | debugger (span : Span)
  | aliasDecl (span : Span) (declared : Bool) (name : String) (typeParams : List Node) (type : Node)
  | interfaceDecl (span : Span) (declared : Bool) (name : String)
      (typeParams parents members : List Node)
  | enumDecl (span : Span) (declared isConst : Bool) (name : String) (members : List Node)
  | moduleDecl (span : Span) (declared : Bool) (title : ModuleTitle) (body : Node)
  | importDecl (span : Span) (clause : ImportClause)
  | importEquals (span : Span) (typeOnly : Bool) (name : String) (target : ImportTarget)
  | exportDecl (span : Span) (decl : Node)
  | exportNames (span : Span) (clause : ExportClause)
  | exportAll (span : Span) (clause : ExportAllClause)
  | exportDefault (span : Span) (decl : Node)
  | exportAssign (span : Span) (value : Node)
  | exportNamespace (span : Span) (name : String)
  -- parts of statements
  | clause (span : Span) (test : Option Node) (stmts : List Node)
  | handler (span : Span) (param type : Option Node) (block : Node)
  | vars (span : Span) (kind : VarKind) (declared : Bool) (items : List Node)
  | declarator (span : Span) (target : Node) (definite : Bool)
      (type init : Option Node)
  | enumMember (span : Span) (key : Node) (init : Option Node)

abbrev Expr := Node
abbrev Stmt := Node
abbrev Func := Node
abbrev Ty := Node
abbrev Pattern := Node
abbrev Param := Node

namespace Node

instance : Inhabited Node := ⟨missing⟩

def span : Node → Span
  | .ref s _ | .lit s _ | .word s _ | .hole s | .form s _ _ | .member s _ _ _ _ | .apply s _ _ _ _
  | .ascribe s _ _ _ | .object s _ | .assign s _ _ _ | .func s _ _ _ _ _ _
  | .cls s _ _ _ _ _ _ _ | .jsxElement s _ _ _ _ _ | .jsxFragment s _
  | .typeWord s _ | .typeRef s _ _ | .typeQuery s _ _ | .typeLit s _ _ | .typeForm s _ _
  | .typeFunc s _ _ _ | .typeObject s _ | .typeMapped s _ _ _ _ _ _ | .typeImport s _ _ _ _ _ => s
  | _ => Span.none

def bare : Expr → Expr
  | form _ .paren [e] => bare e
  | e => e

end Node

structure Program where
  hashbang : Option String
  directives : List String
  body : List Stmt
  jsx : Bool
deriving Inhabited

end Recompose.Script
