import Recompose.CacheScope
import Recompose.Condition
import Recompose.Weave.Call
import Recompose.Weave.Signature

namespace Recompose.Weave

open Script

abbrev Self := Node → WeaveM Node

def withoutMarkers (decorators : List Expr) : List Expr :=
  decorators.filter fun d => (Markers.ofDecorator? d).isNone

/-- Removes the decorators that are markers, and notes it if there are any. -/
def dropMarkers (decorators : List Expr) : WeaveM (List Expr) := do
  let kept := withoutMarkers decorators
  if kept.length ≠ decorators.length then touch
  return kept

/-- A parameter without its marker decorators. A rest parameter keeps its own. -/
def plainParam : Param → Param
  | .param span mods false decorators target type init =>
    .param span mods false (withoutMarkers decorators) target type init
  | param => param

def threadParam (site : Site) : Param → WeaveM Param
  | .param span mods rest decorators target (some type) init =>
    return .param span mods rest decorators target (some (← threadType site type)) init
  | param => return param

def threadParams (site : Site) (positions : List Nat) : Nat → List Param → WeaveM (List Param)
  | _, [] => return []
  | index, param :: params => do
    let param ← if positions.contains index then threadParam site param else pure param
    return param :: (← threadParams site positions (index + 1) params)

def typeText? (source : String) (type : Ty) : Option String :=
  (Text.sliceBytes? type.span.start type.span.stop source.toList).map String.ofList

/-- Encloses the conditions of a body; `none` if generated code failed. -/
def encloseConditions (site : Site) (stmts : List Stmt) : WeaveM (Option (List Stmt)) := do
  let (result, tally) := Condition.run
    ⟨site.options.runtime, site.options.earlyExitPolicy, site.source, site.options.filePath⟩ stmts
  modify fun s => { s with
    errors := s.errors ++ tally.errors
    stats := { s.stats with reifiedChains := s.stats.reifiedChains + tally.enclosed } }
  record result

def parameterBinding (wrapped : Bool) (b : ParameterBinding) : List (String × Binding) :=
  b.name.toList.map (·, .parameter b.memoTyped (wrapped && b.slot.isSome))

def patternBindings : Param → List (String × Binding)
  | .param _ _ _ _ target _ _ =>
    if target.simpleName?.isNone then target.boundNames.map (·, .ordinary) else []
  | _ => []

def inMemoBody {α : Type} (site : Site) (sig : Signature) (params : List Param) (stmts : List Stmt)
    (step : WeaveM α) : WeaveM α :=
  inFunction do
    modifyScopes (·.bindAll (sig.parameters.bindings.flatMap (parameterBinding (sig.mode == .memo))
      ++ params.flatMap patternBindings ++ hoistedBindings site.annotations stmts))
    inFrame (.scope { name := sig.qualifiedName } true) step

/-- The span, the directives and the statements of a body. A value counts as a return of it. -/
def bodyParts : Node → Span × List String × List Stmt
  | .code span directives stmts => (span, directives, stmts)
  | .concise value => (.none, [], [Glue.returnOf value])
  | stmt => (.none, [], [stmt])

def wrappedBody (site : Site) (self : Self) (sig : Signature) (params : List Param)
    (result : Option Ty) (body : Node) : WeaveM (Option Node) := do
  let (span, directives, stmts) := bodyParts body
  let kind := ReturnKind.ofType (result.bind (typeText? site.source)) (returnsValue stmts)
  match ← if sig.reifies then encloseConditions site stmts else pure (some stmts) with
  | none => return none
  | some stmts =>
    let stmts ← inMemoBody site sig params stmts (stmts.mapM self)
    let wrapped := CacheScope.wrap site.options.runtime sig.offset kind sig.parameters.registered stmts
    return (← record wrapped).map (.code span directives)

def bareBody (site : Site) (self : Self) (sig : Signature) (params : List Param) (body : Node) :
    WeaveM Node :=
  let stmts := match body with
    | .code _ _ stmts => stmts
    | _ => []
  inMemoBody site sig params stmts (body.mapChildren self)

def countFunction (sig : Signature) : WeaveM Unit :=
  modifyStats fun s =>
    if sig.isLambda then { s with transformedLambdas := s.transformedLambdas + 1 }
    else { s with transformedFunctions := s.transformedFunctions + 1 }

def finishFunction (site : Site) (sig : Signature) (params : List Param) : WeaveM (List Param) := do
  if sig.mode = .entry then
    countFunction sig
    return params
  else
    match ← record (Glue.hiddenParameters site.options.runtime) with
    | none => return params
    | some hidden =>
      countFunction sig
      return hidden ++ params

def reportAll (site : Site) (bs : List Breach) : WeaveM Unit :=
  bs.forM fun b => report site b.rule b.message b.offset b.hints

def memoFunction (site : Site) (self : Self) (sig : Signature) : Func → WeaveM Func
  | .func span head typeParams this params result body => do
    touch
    let found := match suspensionBreach? sig head span.start with
      | some b => [b]
      | none => breaches site.options.runtime sig params span.start
    if !found.isEmpty then
      reportAll site found
      return .func span head typeParams this params result body
    else
      let params ← threadParams site sig.parameters.memoIndices 0 (params.map plainParam)
      let rebuilt (params : List Param) (body : Node) : Func :=
        .func span head typeParams this params result body
      match body with
      | .missing => return rebuilt params .missing
      | body =>
        if sig.mode = .memo then
          match ← wrappedBody site self sig params result body with
          | some body => return rebuilt (← finishFunction site sig params) body
          | none => return rebuilt params body
        else
          let body ← bareBody site self sig params body
          return rebuilt (← finishFunction site sig params) body
  | node => return node

/-- The frame of an ordinary function. A function without a name is a mere boundary. -/
def plainFrame (site : Site) (s : State) (name : Option String) : Frame :=
  match name with
  | some name =>
    if s.scopes.depth = 0 then
      .scope { name := QualifiedName.declaration site.options.filePath none name } false
    else
      .scope { name := parentName site.options.filePath s.frames ++ "/" ++ name } false
  | none => .boundary

def paramNames : Param → List String
  | .param _ _ _ _ target _ _ => target.boundNames
  | _ => []

def plainBindings (site : Site) (params : List Param) (body : Node) : List (String × Binding) :=
  let hoisted := match body with
    | .code _ _ stmts => hoistedBindings site.annotations stmts
    | _ => []
  (params.flatMap paramNames).map (·, .ordinary) ++ hoisted

def function (site : Site) (self : Self) (span : Span) (head : FuncHead) (typeParams : List Node)
    (this : Option Node) (params : List Param) (result : Option Ty) (body : Node) : WeaveM Func := do
  let node := Node.func span head typeParams this params result body
  if head.form = .signature then node.mapChildren self
  else
    match ← signatureFor site span head.form params with
    | some sig => memoFunction site self sig node
    | none =>
      inFrame (plainFrame site (← get) head.name) <| inFunction do
        modifyScopes (·.bindAll (plainBindings site params body))
        node.mapChildren self

/-- Makes a closure argument a memo function. Anything else is walked. -/
def builderClosure (site : Site) (self : Self) (name : String) (reifies : Bool) : Expr → WeaveM Expr
  | .func span head typeParams this params result body =>
    memoFunction site self (.ofClosure site name .memo params head.form span.start reifies)
      (.func span head typeParams this params result body)
  | arg => self arg

def isMarkedClosure (site : Site) (arg : Expr) : Bool :=
  match arg.closureSpan? with
  | some span => (site.annotations.markers span.start).isMemoLike
  | none => false

def threadArgs (site : Site) (self : Self) (plan : CallPlan) (parent : String) (ordinal : Nat) :
    Nat → List Expr → WeaveM (List Expr)
  | _, [] => return []
  | index, arg :: args => do
    let arg ←
      if arg.isClosure && (plan.closures.contains index || isMarkedClosure site arg) then
        builderClosure site self (QualifiedName.nested parent ordinal index) plan.reifies arg
      else self arg
    return arg :: (← threadArgs site self plan parent ordinal (index + 1) args)

/-- Threads a call: it passes on the context and its own identity. -/
def threadCall (site : Site) (self : Self) (plan : CallPlan) (rebuild : Expr → List Expr → Expr)
    (callee : Expr) (args : List Expr) : WeaveM Expr := do
  match ← nextCall with
  | none => return rebuild callee args
  | some (parent, ordinal) =>
    let callee ← self callee
    let args ← threadArgs site self plan parent ordinal 0 args
    let names := site.options.runtime
    match ← record (Glue.identityArgument names (site.identity.callSite parent ordinal)) with
    | none => return rebuild callee args
    | some identity =>
      touch
      modifyStats fun s => { s with threadedCallSites := s.threadedCallSites + 1 }
      return rebuild callee (Glue.contextArgument names :: identity :: args)

def call (site : Site) (self : Self) (span : Span) (how : Application) (callee : Expr)
    (types args : List Node) : WeaveM Expr := do
  let s ← get
  match resolveCall? site s.scopes s.classes callee args.length with
  | some plan =>
    if s.threading then
      threadCall site self plan (fun callee args => .apply span how callee types args) callee args
    else (Node.apply span how callee types args).mapChildren self
  | none => (Node.apply span how callee types args).mapChildren self

def reference (site : Site) (span : Span) (name : String) : WeaveM Expr := do
  if (← get).scopes.isWatched name then
    touch
    return Glue.parameterValue site.options.runtime name
  else return .ref span name

def isWatchedReference (scopes : Scopes) : Node → Bool
  | .ref _ name => scopes.isWatched name
  | .place (.ref _ name) => scopes.isWatched name
  | .withDefault _ (.place (.ref _ name)) _ => scopes.isWatched name
  | _ => false

/-- An extended interface; a name that is a watched parameter is replaced here as well. -/
def extendedInterface (site : Site) : Node → WeaveM Node
  | .typeRef span (name :: path) args => do
    if (← get).scopes.isWatched name then
      touch
      let names := site.options.runtime
      return .typeRef span (names.parameter name :: names.value :: path) args
    else return .typeRef span (name :: path) args
  | node => return node

def threadsCallers (m : Markers) : Bool :=
  m.isMemoLike && !m.entry

def threadDeclarator (site : Site) : Node → WeaveM Node
  | .declarator span target definite (some type) init =>
    return .declarator span target definite (some (← threadType site type)) init
  | node => return node

def initialClosure : Node → List Span
  | .declarator _ _ _ _ (some init) => init.closureSpan?.toList
  | _ => []

def heldFunction : Node → List Span
  | .func span head _ _ _ _ _ => if head.form = .signature then [] else [span]
  | _ => []

def addPending (spans : List Span) : WeaveM Unit :=
  modify fun s => { s with pending := spans ++ s.pending }

def declareVariables (site : Site) (self : Self) (span : Span) (kind : VarKind) (declared : Bool)
    (items : List Node) : WeaveM Node := do
  let markers := site.annotations.markers span.start
  let items ← if threadsCallers markers then items.mapM (threadDeclarator site) else pure items
  if markers.isMemoLike then addPending (items.flatMap initialClosure)
  if kind = .hoisted then modifyScopes (·.bindVars (Node.declaredNames items))
  (Node.vars span kind declared items).mapChildren self

def bindHead : Node → WeaveM Unit
  | .vars _ kind _ items => modifyScopes (·.bindDeclaration kind items)
  | _ => return

def clauseBindings (site : Site) : Node → List (String × Binding)
  | .clause _ _ stmts => hoistedBindings site.annotations stmts
  | _ => []

def methodKindText : MethodKind → String
  | .plain => "method"
  | .constructor => "constructor"
  | .getter => "getter"
  | .setter => "setter"

def method (site : Site) (self : Self) (span : Span) (kind : MethodKind) (mods : Modifiers)
    (decorators : List Expr) (key f : Node) : WeaveM Node := do
  let markers := (site.annotations.markers span.start).merge (Markers.ofDecorators decorators)
  let node := Node.method span kind mods (← dropMarkers decorators) key f
  let name := QualifiedName.declaration site.options.filePath
    (some ((← get).classes.head?.getD "default")) (key.keyText?.getD "<computed>")
  if !markers.isMemoLike then
    inFrame (.scope { name } false) (node.mapChildren self)
  else if kind ≠ .plain then
    report site .unsupported
      (quoted name ++ " is a " ++ methodKindText kind ++ " and cannot be memo") span.start []
    return node
  else
    if (site.graph.nodeAt? f.span).isNone then addPending (heldFunction f)
    node.mapChildren self

def field (site : Site) (self : Self) (span : Span) (mods : Modifiers) (decorators : List Expr)
    (key : Node) (type : Option Ty) (init : Option Expr) : WeaveM Node := do
  let markers := (site.annotations.markers span.start).merge (Markers.ofDecorators decorators)
  let type ← if threadsCallers markers then type.mapM (threadType site) else pure type
  let decorators ← dropMarkers decorators
  (Node.field span false mods decorators key type init).mapChildren self

/-- The walk of a node, given the walk of its parts. -/
def step (site : Site) (self : Self) : Node → WeaveM Node
  | .ref span name => reference site span name
  | .apply span (.call optional isPure) callee types args =>
    call site self span (.call optional isPure) callee types args
  | .func span head typeParams this params result body =>
    function site self span head typeParams this params result body
  | .cls span head decorators typeParams parent parentTypes implemented members =>
    inClass (Collector.className head)
      ((Node.cls span head decorators typeParams parent parentTypes implemented members).mapChildren
        self)
  | .method span kind mods decorators key f => method site self span kind mods decorators key f
  | .field span false mods decorators key type init =>
    field site self span mods decorators key type init
  | .param span mods false decorators target type init => do
    (Node.param span mods false (← dropMarkers decorators) target type init).mapChildren self
  | .pair span key value true => do
    let shorthand := !isWatchedReference (← get).scopes value
    (Node.pair span key value shorthand).mapChildren self
  | .fieldPattern span key value true => do
    let shorthand := !isWatchedReference (← get).scopes value
    (Node.fieldPattern span key value shorthand).mapChildren self
  | .vars span kind declared items => declareVariables site self span kind declared items
  | .block span stmts => inBlock do
    modifyScopes (·.bindAll (hoistedBindings site.annotations stmts))
    (Node.block span stmts).mapChildren self
  | .handler span param type body => inBlock do
    modifyScopes (·.bindAll ((param.toList.flatMap Node.boundNames).map (·, .ordinary)))
    (Node.handler span param type body).mapChildren self
  | .forStmt span init test update body => inBlock do
    init.forM bindHead
    (Node.forStmt span init test update body).mapChildren self
  | .forEach span kind left right body => inBlock do
    bindHead left
    (Node.forEach span kind left right body).mapChildren self
  | .switchStmt span subject clauses => inBlock do
    modifyScopes (·.bindAll (clauses.flatMap (clauseBindings site)))
    (Node.switchStmt span subject clauses).mapChildren self
  | .interfaceDecl span declared name typeParams parents members => do
    let parents ← parents.mapM (extendedInterface site)
    (Node.interfaceDecl span declared name typeParams parents members).mapChildren self
  | node => node.mapChildren self

/-- The walk of a node that is nested less than `depth` deep. -/
def walk (site : Site) : Nat → Node → WeaveM Node
  | 0, _ => failure
  | depth + 1, node => step site (walk site depth) node

def initial (file : String) : State :=
  { frames := [.scope { name := QualifiedName.declaration file none "<module>" } false] }

def walkAll (site : Site) (depth : Nat) (stmts : List Stmt) : Option (List Stmt × State) :=
  (stmts.mapM (walk site depth)).run (initial site.options.filePath)

end Recompose.Weave
