import Recompose.Script.Print.Shape

namespace Recompose.Script

namespace Print

open Role

mutual

def node (r : Role) : Node → Layout
  -- expressions
  | .ref _ n => text n
  | .lit _ l => literal l
  | .word _ w => text w.text
  | .hole _ => skipped
  | .form _ (.unary op) [e] => unary r op (node (r.atLevel Level.power) e)
  | .form _ (.update op true) [e] => wrap (Level.beforeOp ≤ r.level) do
    leadingSign op.text
    node (r.atLevel Level.beforeOp) e
  | .form _ (.update op false) [e] => wrap (Level.afterOp ≤ r.level) do
    node (r.atLevel Level.afterOp) e
    text op.text
  | .form _ (.binary op) [x, y] =>
    let wraps := binaryWraps r op
    let noIn := r.noIn && !wraps
    infixed wraps (node (.expr (binaryLeft op x) noIn r.noCall) x) op.text
      (node (.expr (binaryRight op) noIn false) y)
  | .form _ (.logical op) [x, y] =>
    let wraps := decide (op.level ≤ r.level)
    let noIn := r.noIn && !wraps
    infixed wraps (node (.expr (logicalLeft op x) noIn r.noCall) x) op.text
      (node (.expr (logicalRight op y) noIn false) y)
  | .form _ .conditional [t, y, n] =>
    let wraps := decide (Level.conditional ≤ r.level)
    let noIn := r.noIn && !wraps
    wrap wraps do
      node (.expr Level.conditional noIn false) t
      text " ? "
      node (free Level.yields) y
      text " : "
      node (.expr Level.yields noIn false) n
  | .form _ .sequence es => wrap (Level.comma ≤ r.level) do
    commas (nodes (.expr Level.lowest r.noIn false) es)
  | .form _ .spread [e] => do
    text "..."
    node (free Level.comma) e
  | .form _ .await [e] => wrap (Level.beforeOp ≤ r.level) do
    text "await "
    node (r.atLevel Level.power) e
  | .form _ (.yield delegate) es => wrap (Level.assign ≤ r.level) do
    text (if delegate then "yield*" else "yield")
    each ((nodes (free Level.yields) es).map fun p => do space; p)
  | .form _ .array es => array es (nodes (free Level.comma) es)
  | .form _ (.template chunks) es => do
    text "\x60"
    template chunks (nodes (free Level.lowest) es)
    text "\x60"
  | .form _ .paren [e] => node r e
  | .form _ (.index opt) [o, i] => do
    node (.expr Level.afterOp false r.noCall) o
    text (if opt then "?.[" else "[")
    node (free Level.lowest) i
    text "]"
  | .form _ (.importCall phase) es => wrap (Level.construct ≤ r.level || r.noCall) do
    text ("import" ++ (phase.map ("." ++ ·)).getD "")
    arguments (nodes (free Level.comma) es)
  | .form _ .chain [e] => wrap (Level.afterOp ≤ r.level) (node r e)
  | .form _ .nonNull [e] => do
    wrap (isParen e) (node r e)
    text "!"
  | .form _ (.privateIn n) [e] => wrap (Level.compare ≤ r.level) do
    text ("#" ++ n ++ " in ")
    node (.expr Level.equals true false) e
  | .form _ _ _ => skipped
  | .member _ o n isPrivate opt => member (node (.expr Level.afterOp false r.noCall) o) n isPrivate opt
  | .apply _ (.call opt isPure) c ts es =>
    call r opt isPure (node (free Level.afterOp) c) (typeArguments (nodes .plain ts))
      (arguments (nodes (free Level.comma) es))
  | .apply _ (.construct isPure) c ts es =>
    construct r isPure (node (.expr Level.construct false true) c) (typeArguments (nodes .plain ts))
      (arguments (nodes (free Level.comma) es))
  | .apply _ (.tagged chunks) c ts es => do
    node (free Level.afterOp) c
    typeArguments (nodes .plain ts)
    text "\x60"
    template chunks (nodes (free Level.lowest) es)
    text "\x60"
  | .apply _ .instantiate c ts _ => do
    node r c
    typeArguments (nodes .plain ts)
  | .ascribe _ .assertion e t => wrap true do
    text (if isFunctionType t then "< " else "<")
    node .plain t
    text ">"
    node (r.atLevel Level.member) e
  | .ascribe _ how e t => wrap (Level.compare ≤ r.level) do
    node (r.atLevel Level.power) e
    text (if how == .cast then " as " else " satisfies ")
    node .plain t
  | .object _ ps => object (nodes .plain ps)
  | .assign _ op t e => do
    let o ← get
    let n := o.code.utf8ByteSize
    let destructures := match t with
      | .objectPattern _ _ => o.stmtStart == n || o.arrowStart == n
      | _ => false
    wrap (destructures || Level.assign ≤ r.level) do
      node (.pattern true) t
      text (" " ++ op.text ++ " ")
      node (r.atLevel Level.comma) e
  -- object literals
  | .pair _ k e shorthand => do
    when (!namesKey shorthand k e.bare) do
      node .plain k
      text ": "
    node (free Level.comma) e
  | .methodProp _ kind k f => do
    methodHead kind f
    node .plain k
    node .tail f
  | .spreadProp _ e => do
    text "..."
    node (free Level.comma) e
  | .keyName _ n => text n
  | .keyPrivate _ n => text ("#" ++ n)
  | .keyComputed e => do
    text "["
    node (free Level.comma) e
    text "]"
  -- patterns
  | .binding _ n => text n
  | .place e => node (free Level.comma) e
  | .arrayPattern _ ps => arrayPattern (r == .pattern true) ps (nodes r ps)
  | .objectPattern _ ps => objectPattern (r == .pattern true) (nodes r ps)
  | .withDefault _ p e => do
    node r p
    text " = "
    node (free Level.comma) e
  | .fieldPattern _ k p shorthand => do
    let bare := if r == .pattern true then shorthand else bindsKey k p
    when (!bare) do
      node .plain k
      text ": "
    node r p
  | .restPattern _ p => do
    text "..."
    node r p
  | .gap => skipped
  -- functions
  | .func _ h tps this ps res b =>
    let tps := nodes .plain tps
    let this := part .plain this
    let ps := nodes .plain ps
    let res := part .plain res
    let body : Layout := if isMissing b then text ";" else do
      space
      node .plain b
    match r, h.form with
    | .tail, _ => functionTail tps this ps res body
    | .signature, _ => functionTail tps this ps res skipped
    | .arrow, _ => do
      functionTail tps this ps none (text " => ")
      optional res id
    | _, .arrow => arrowExpr r h tps this ps res (node (.expr Level.comma r.noIn r.noCall) b)
    | _, .expression => functionExpr h (functionTail tps this ps res body)
    | .stmt, _ => do
      when h.isPure do
        indentation
        text "/* @__NO_SIDE_EFFECTS__ */\n"
      indentation
      functionHead h
      functionTail tps this ps res body
      newline
    | _, _ => do
      functionHead h
      functionTail tps this ps res body
  | .missing => skipped
  | .code _ ds ss => braces (bodyItems ds ss (nodes .stmt ss))
  | .concise e => do
    modify fun o => { o with arrowStart := o.code.utf8ByteSize }
    node r e
  | .param _ m rest ds p t e => do
    decorated (decorators ds)
    match m.access with
    | some a => text (a.text ++ " ")
    | none => skipped
    when m.isOverride (text "override ")
    when m.isReadonly (text "readonly ")
    when rest (text "...")
    node (.pattern false) p
    when m.optional (text "?")
    optional (part .plain t) fun p => do
      text ": "
      p
    optional (part (free Level.comma) e) fun p => do
      text " = "
      p
  -- classes
  | .cls _ h ds tps e ets ts ms => do
    let o ← get
    let n := o.code.utf8ByteSize
    when (r == .stmt) indentation
    wrap (h.isExpr && (o.stmtStart == n || o.defaultStart == n)) do
      decorated (decorators ds)
      classHead h (typeParameters (nodes .plain tps)) (part (free Level.afterOp) e)
        (typeArguments (nodes .plain ets)) (nodes .plain ts)
      braces (nodes .plain ms)
    when (r == .stmt) newline
  | .method _ kind m ds k f => do
    indentation
    decorated (decorators ds)
    modifiers { m with declared := false, isReadonly := false }
    methodHead kind f
    node .plain k
    when m.optional (text "?")
    node .tail f
    newline
  | .field _ accessor m ds k t e => do
    indentation
    decorated (decorators ds)
    if accessor then do
      modifiers { m with declared := false, isReadonly := false }
      text "accessor "
    else modifiers m
    node .plain k
    when m.optional (text "?")
    optional (part .plain t) fun p => do
      text ": "
      p
    optional (part (free Level.comma) e) fun p => do
      text " = "
      p
    terminator
  | .staticBlock _ ss => do
    indentation
    text "static "
    braces (nodes .stmt ss)
    newline
  | .indexer _ m ps t => do
    indentation
    when m.isStatic (text "static ")
    when m.isReadonly (text "readonly ")
    text "["
    commas (nodes .plain ps)
    text "]: "
    node .plain t
    terminator
  | .propertySig _ m k t => do
    indentation
    when m.isReadonly (text "readonly ")
    node .plain k
    when m.optional (text "?")
    optional (part .plain t) fun p => do
      text ": "
      p
    terminator
  | .methodSig _ kind opt k f => do
    indentation
    text (methodWord kind)
    node .plain k
    when opt (text "?")
    node .signature f
    terminator
  | .callSig constructs f => do
    indentation
    when constructs (text "new ")
    node .signature f
    terminator
  -- types
  | .typeWord _ n => text n
  | .typeRef _ ns ts => do
    text (path ns)
    typeArguments (nodes .plain ts)
  | .typeQuery _ ns ts => do
    text ("typeof " ++ path ns)
    typeArguments (nodes .plain ts)
  | .typeLit _ negative l => do
    when negative (text "-")
    typeLiteral l
  | .typeForm _ .union ts => unionMembers ts
  | .typeForm _ .intersection ts => joined " & " (nodes .plain ts)
  | .typeForm _ .array ts => do
    each (nodes .plain ts)
    text "[]"
  | .typeForm _ .tuple ts => do
    text "["
    commas (nodes .plain ts)
    text "]"
  | .typeForm _ .indexed [t, i] => do
    node .plain t
    text "["
    node .plain i
    text "]"
  | .typeForm _ .paren [t] => wrap true (node .plain t)
  | .typeForm _ .conditional [c, b, y, n] => do
    node .plain c
    text " extends "
    node .plain b
    text " ? "
    node .plain y
    text " : "
    node .plain n
  | .typeForm _ (.operator w) [t] => do
    text (w ++ " ")
    node .plain t
  | .typeForm _ (.infer n) ts => do
    text ("infer " ++ n)
    each ((nodes .plain ts).map fun p => do text " extends "; p)
  | .typeForm _ .optional [t] => do
    node .plain t
    text "?"
  | .typeForm _ .rest [t] => do
    text "..."
    node .plain t
  | .typeForm _ (.labelled n opt) [t] => do
    text (if opt then n ++ "?: " else n ++ ": ")
    node .plain t
  | .typeForm _ (.predicate asserted n) ts => do
    when asserted (text "asserts ")
    text n
    each ((nodes .plain ts).map fun p => do text " is "; p)
  | .typeForm _ (.template chunks) ts => do
    text "\x60"
    template chunks (nodes .plain ts)
    text "\x60"
  | .typeForm _ (.marked sign behind) [t] => do
    when (!behind) (text sign)
    node .plain t
    when behind (text sign)
  | .typeForm _ _ _ => skipped
  | .typeFunc _ constructs isAbstract f => do
    when isAbstract (text "abstract ")
    when constructs (text "new ")
    node .arrow f
  | .typeObject _ ms => braces (nodes .plain ms)
  | .typeMapped _ ro opt n d renamed t => do
    let ro := mappedFlag "readonly" ro
    text (if ro.isEmpty then "\x7b [" else "\x7b " ++ ro ++ " [")
    text (n ++ " in ")
    node .plain d
    optional (part .plain renamed) fun p => do
      text " as "
      p
    text ("]" ++ mappedFlag "?" opt ++ " ")
    optional (part .plain t) fun p => do
      text ": "
      p
    text " \x7d"
  | .typeImport _ queried source o ns ts => do
    when queried (text "typeof ")
    text ("import(" ++ quoted source)
    optional (part (free Level.comma) o) fun p => do
      text ", "
      p
    text ")"
    each (ns.map fun n => text ("." ++ n))
    typeArguments (nodes .plain ts)
  | .typeParam _ ms n b d => do
    each (ms.map fun m => text (m ++ " "))
    text n
    optional (part .plain b) fun p => do
      text " extends "
      p
    optional (part .plain d) fun p => do
      text " = "
      p
  -- elements
  | .jsxElement _ n ts as cs closed => do
    text ("<" ++ jsxName n)
    typeArguments (nodes .plain ts)
    each ((nodes .plain as).map fun p => do space; p)
    if closed then text " />" else do
      text ">"
      each (nodes .plain cs)
      text ("</" ++ jsxName n ++ ">")
  | .jsxFragment _ cs => do
    text "<>"
    each (nodes .plain cs)
    text "</>"
  | .jsxAttribute _ n v => do
    text n
    optional (part .plain v) fun p => do
      text "="
      p
  | .jsxSpread _ e => do
    text "\x7b..."
    node (free Level.comma) e
    text "\x7d"
  | .jsxText _ s => text s
  | .jsxQuoted _ s => text (jsxQuoted s)
  | .jsxHole _ e => do
    text "\x7b"
    optional (part (free Level.lowest) e) id
    text "\x7d"
  | .jsxSpreadChild _ e => do
    text "\x7b..."
    node (free Level.lowest) e
    text "\x7d"
  -- statements
  | .empty _ => do
    indentation
    text ";\n"
  | .exprStmt _ e => do
    indentation
    modify fun o => { o with stmtStart := o.code.utf8ByteSize }
    node (free Level.lowest) e
    terminator
  | .block _ ss => do
    when (r == .stmt) indentation
    braces (nodes .stmt ss)
    when (r == .stmt) newline
  | .ifStmt _ t y n => do
    when (r == .stmt) indentation
    text "if ("
    node (free Level.lowest) t
    text ")"
    consequent y n.isSome (node (.inline false) y) (node .stmt y)
    match n with
    | some n => alternate n (node (.inline false) n) (node .stmt n)
    | none => skipped
  | .forStmt _ i t u s => do
    indentation
    text "for ("
    optional (headPart i) id
    text ";"
    optional (part (free Level.lowest) t) fun p => do space; p
    text ";"
    optional (part (free Level.lowest) u) fun p => do space; p
    text ")"
    dependent s (node (.inline false) s) (node .stmt s)
  | .forEach _ kind left right s => do
    indentation
    text (if kind == .awaited then "for await (" else "for (")
    node (if isVars left then .inline true else .pattern true) left
    if kind == .keys then do
      text " in "
      node (free Level.lowest) right
    else do
      text " of "
      node (free Level.comma) right
    text ")"
    dependent s (node (.inline false) s) (node .stmt s)
  | .whileStmt _ t s => do
    indentation
    text "while ("
    node (free Level.lowest) t
    text ")"
    dependent s (node (.inline false) s) (node .stmt s)
  | .doWhile _ s t => do
    indentation
    text "do"
    doBody s (node (.inline false) s) (node .stmt s)
    text "while ("
    node (free Level.lowest) t
    text ")"
    terminator
  | .switchStmt _ e cs => do
    indentation
    text "switch ("
    node (free Level.lowest) e
    text ") "
    braces (nodes .plain cs)
    newline
  | .returnStmt _ e => do
    indentation
    text "return"
    optional (part (free Level.lowest) e) fun p => do space; p
    terminator
  | .throwStmt _ e => do
    indentation
    text "throw "
    node (free Level.lowest) e
    terminator
  | .breakStmt _ l => do
    indentation
    text ("break" ++ (l.map (" " ++ ·)).getD "")
    terminator
  | .continueStmt _ l => do
    indentation
    text ("continue" ++ (l.map (" " ++ ·)).getD "")
    terminator
  | .labelled _ l s => do
    indentation
    text (l ++ ":")
    dependent s (node (.inline false) s) (node .stmt s)
  | .tryStmt _ b h f => do
    indentation
    text "try "
    node (.inline false) b
    optional (part .plain h) id
    optional (part (.inline false) f) fun p => do
      text " finally "
      p
    newline
  | .withStmt _ o s => do
    indentation
    text "with ("
    node (free Level.lowest) o
    text ")"
    dependent s (node (.inline false) s) (node .stmt s)
  | .debugger _ => do
    indentation
    text "debugger"
    terminator
  | .aliasDecl _ declared n tps t => do
    when (r == .stmt) indentation
    text (if declared then "declare type " ++ n else "type " ++ n)
    typeParameters (nodes .plain tps)
    text " = "
    node .plain t
    when (r == .stmt) terminator
  | .interfaceDecl _ declared n tps es ms => do
    when (r == .stmt) indentation
    text (if declared then "declare interface " ++ n else "interface " ++ n)
    typeParameters (nodes .plain tps)
    when (!es.isEmpty) do
      text " extends "
      commas (nodes (free Level.call) es)
    space
    braces (nodes .plain ms)
    when (r == .stmt) newline
  | .enumDecl _ declared isConst n ms => do
    when (r == .stmt) indentation
    indentation
    when declared (text "declare ")
    when isConst (text "const ")
    text ("enum " ++ n ++ " ")
    if ms.isEmpty then text "\x7b\x7d" else do
      text "\x7b"
      lines "," (nodes .plain ms)
      text "\x7d"
    when (r == .stmt) newline
  | .moduleDecl _ declared title b => do
    when (r == .stmt) indentation
    when declared (text "declare ")
    text (moduleTitle title)
    if isMissing b then text ";" else do
      space
      node .plain b
    when (r == .stmt) newline
  | .importDecl _ c => do
    indentation
    text (importClause c)
  | .importEquals _ typeOnly n t => do
    when (r == .stmt) indentation
    text ((if typeOnly then "import type " else "import ") ++ n ++ " = " ++ importTarget t)
    when (r == .stmt) terminator
  | .exportDecl _ d => do
    match d with
    | .func _ h _ _ _ _ _ => when h.isPure do
      indentation
      text "/* @__NO_SIDE_EFFECTS__ */\n"
    | _ => skipped
    indentation
    text "export "
    node (.inline false) d
    if isDeclared d then terminator else newline
  | .exportNames _ c => do
    indentation
    text (exportClause c)
  | .exportAll _ c => do
    indentation
    text (exportAllClause c)
  | .exportDefault _ d => do
    indentation
    text "export default "
    let decl := node (.inline false) d
    match d with
    | .exprStmt _ e => do
      modify fun o => { o with defaultStart := o.code.utf8ByteSize }
      node (free Level.comma) e
      terminator
    | .interfaceDecl _ _ _ _ _ _ => decl
    | .func _ h _ _ _ _ _ => do
      when h.isPure (text "/* @__NO_SIDE_EFFECTS__ */ ")
      decl
      newline
    | _ => do
      decl
      newline
  | .exportAssign _ e => do
    indentation
    text "export = "
    node (free Level.lowest) e
    terminator
  | .exportNamespace _ n => do
    indentation
    text ("export as namespace " ++ n)
    terminator
  -- parts of statements
  | .clause _ t ss => do
    indentation
    match t with
    | some e => do
      text "case "
      node (free Level.lowest) e
      text ":"
    | none => text "default:"
    let stmts := nodes .stmt ss
    match ss with
    | [s] => dependent s (node (.inline false) s) (node .stmt s)
    | _ => do
      newline
      indented (each stmts)
  | .handler _ p _ b => do
    text " catch "
    optional (part (.pattern false) p) fun p => do
      text "("
      p
      text ") "
    node (.inline false) b
  | .vars _ kind declared items => do
    when (r == .stmt) indentation
    text (if declared then "declare " ++ kind.text ++ " " else kind.text ++ " ")
    commas (nodes (.inline r.noIn) items)
    when (r == .stmt) terminator
  | .declarator _ p definite t e => do
    node (.pattern false) p
    when definite (text "!")
    optional (part .plain t) fun p => do
      text ": "
      p
    optional (part (.expr Level.comma r.noIn false) e) fun p => do
      text " = "
      p
  | .enumMember _ k e => do
    node .plain k
    optional (part (free Level.lowest) e) fun p => do
      text " = "
      p

def nodes (r : Role) : List Node → List Layout
  | [] => []
  | n :: ns => node r n :: nodes r ns

def part (r : Role) : Option Node → Option Layout
  | none => none
  | some n => some (node r n)

def headPart : Option Node → Option Layout
  | none => none
  | some e => some (node (if isVars e then .inline true else .expr Level.lowest true false) e)

def decorators : List Node → List Layout
  | [] => []
  | d :: ds => (do
    text "@"
    wrap (decoratorWraps d) (node (free Level.lowest) d)) :: decorators ds

def unionMembers : List Node → Layout
  | [] => skipped
  | [t] => wrap (typeWraps t) (node .plain t)
  | t :: ts => do
    wrap (typeWraps t) (node .plain t)
    text " | "
    unionMembers ts

end

end Print

def Program.print (p : Program) : String :=
  let layout : Print.Layout := do
    match p.hashbang with
    | some line => Print.text ("#!" ++ line ++ "\n")
    | none => Print.skipped
    Print.each (Print.bodyItems p.directives p.body (Print.nodes .stmt p.body))
  (layout.run { jsx := p.jsx }).2.code

end Recompose.Script
