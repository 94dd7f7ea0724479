import Recompose.Script.Node

namespace Recompose.Script.Node

/-- The direct parts of a node, in the order in which they are visited. -/
def children : Node → List Node
  | .ascribe _ how value type => if how = .assertion then [type, value] else [value, type]
  | .form _ _ operands => operands
  | .member _ owner _ _ _ => [owner]
  | .apply _ _ callee types args => [callee] ++ types ++ args
  | .object _ properties => properties
  | .assign _ _ target value => [target, value]
  | .pair _ key value _ => [key, value]
  | .methodProp _ _ key f => [key, f]
  | .spreadProp _ value => [value]
  | .keyComputed value => [value]
  | .place target => [target]
  | .arrayPattern _ items => items
  | .objectPattern _ fields => fields
  | .withDefault _ target fallback => [target, fallback]
  | .fieldPattern _ key value _ => [key, value]
  | .restPattern _ target => [target]
  | .func _ _ typeParams self params result body =>
    typeParams ++ self.toList ++ params ++ result.toList ++ [body]
  | .code _ _ stmts => stmts
  | .concise value => [value]
  | .param _ _ _ decorators target type init => decorators ++ [target] ++ type.toList ++ init.toList
  | .cls _ _ decorators typeParams parent parentTypes implemented members =>
    decorators ++ typeParams ++ parent.toList ++ parentTypes ++ implemented ++ members
  | .method _ _ _ decorators key f => decorators ++ [key, f]
  | .field _ _ _ decorators key type init => decorators ++ [key] ++ type.toList ++ init.toList
  | .staticBlock _ stmts => stmts
  | .indexer _ _ params type => params ++ [type]
  | .propertySig _ _ key type => [key] ++ type.toList
  | .methodSig _ _ _ key f => [key, f]
  | .callSig _ f => [f]
  | .typeRef _ _ args => args
  | .typeQuery _ _ args => args
  | .typeForm _ _ parts => parts
  | .typeFunc _ _ _ f => [f]
  | .typeObject _ members => members
  | .typeMapped _ _ _ _ domain renamed type => [domain] ++ renamed.toList ++ type.toList
  | .typeImport _ _ _ options _ args => options.toList ++ args
  | .typeParam _ _ _ bound fallback => bound.toList ++ fallback.toList
  | .jsxElement _ _ types attributes content _ => types ++ attributes ++ content
  | .jsxFragment _ content => content
  | .jsxAttribute _ _ value => value.toList
  | .jsxSpread _ value => [value]
  | .jsxHole _ value => value.toList
  | .jsxSpreadChild _ value => [value]
  | .exprStmt _ value => [value]
  | .block _ stmts => stmts
  | .ifStmt _ test yes no => [test, yes] ++ no.toList
  | .forStmt _ init test update body => init.toList ++ test.toList ++ update.toList ++ [body]
  | .forEach _ _ left right body => [left, right, body]
  | .whileStmt _ test body => [test, body]
  | .doWhile _ body test => [body, test]
  | .switchStmt _ subject clauses => [subject] ++ clauses
  | .returnStmt _ value => value.toList
  | .throwStmt _ value => [value]
  | .labelled _ _ body => [body]
  | .tryStmt _ body rescue finalizer => [body] ++ rescue.toList ++ finalizer.toList
  | .withStmt _ owner body => [owner, body]
  | .aliasDecl _ _ _ typeParams type => typeParams ++ [type]
  | .interfaceDecl _ _ _ typeParams parents members => typeParams ++ parents ++ members
  | .enumDecl _ _ _ _ members => members
  | .moduleDecl _ _ _ body => [body]
  | .exportDecl _ decl => [decl]
  | .exportDefault _ decl => [decl]
  | .exportAssign _ value => [value]
  | .clause _ test stmts => test.toList ++ stmts
  | .handler _ caught type body => caught.toList ++ type.toList ++ [body]
  | .vars _ _ _ items => items
  | .declarator _ target _ type init => [target] ++ type.toList ++ init.toList
  | .enumMember _ key init => [key] ++ init.toList
  | _ => []

def mapChildren {m : Type → Type} [Monad m] (f : Node → m Node) : Node → m Node
  | .ascribe span how value type => do
    if how = .assertion then
      let type ← f type
      return .ascribe span how (← f value) type
    else
      return .ascribe span how (← f value) (← f type)
  | .form span how operands => do return .form span how (← operands.mapM f)
  | .member span owner name isPrivate optional => do
    return .member span (← f owner) name isPrivate optional
  | .apply span how callee types args => do
    return .apply span how (← f callee) (← types.mapM f) (← args.mapM f)
  | .object span properties => do return .object span (← properties.mapM f)
  | .assign span op target value => do return .assign span op (← f target) (← f value)
  | .pair span key value shorthand => do return .pair span (← f key) (← f value) shorthand
  | .methodProp span kind key function => do return .methodProp span kind (← f key) (← f function)
  | .spreadProp span value => do return .spreadProp span (← f value)
  | .keyComputed value => do return .keyComputed (← f value)
  | .place target => do return .place (← f target)
  | .arrayPattern span items => do return .arrayPattern span (← items.mapM f)
  | .objectPattern span fields => do return .objectPattern span (← fields.mapM f)
  | .withDefault span target fallback => do return .withDefault span (← f target) (← f fallback)
  | .fieldPattern span key value shorthand => do
    return .fieldPattern span (← f key) (← f value) shorthand
  | .restPattern span target => do return .restPattern span (← f target)
  | .func span head typeParams self params result body => do
    return .func span head (← typeParams.mapM f) (← self.mapM f) (← params.mapM f)
      (← result.mapM f) (← f body)
  | .code span directives stmts => do return .code span directives (← stmts.mapM f)
  | .concise value => do return .concise (← f value)
  | .param span mods rest decorators target type init => do
    return .param span mods rest (← decorators.mapM f) (← f target) (← type.mapM f) (← init.mapM f)
  | .cls span head decorators typeParams parent parentTypes implemented members => do
    return .cls span head (← decorators.mapM f) (← typeParams.mapM f) (← parent.mapM f)
      (← parentTypes.mapM f) (← implemented.mapM f) (← members.mapM f)
  | .method span kind mods decorators key function => do
    return .method span kind mods (← decorators.mapM f) (← f key) (← f function)
  | .field span accessor mods decorators key type init => do
    return .field span accessor mods (← decorators.mapM f) (← f key) (← type.mapM f) (← init.mapM f)
  | .staticBlock span stmts => do return .staticBlock span (← stmts.mapM f)
  | .indexer span mods params type => do return .indexer span mods (← params.mapM f) (← f type)
  | .propertySig span mods key type => do return .propertySig span mods (← f key) (← type.mapM f)
  | .methodSig span kind optional key function => do
    return .methodSig span kind optional (← f key) (← f function)
  | .callSig constructs function => do return .callSig constructs (← f function)
  | .typeRef span path args => do return .typeRef span path (← args.mapM f)
  | .typeQuery span path args => do return .typeQuery span path (← args.mapM f)
  | .typeForm span how parts => do return .typeForm span how (← parts.mapM f)
  | .typeFunc span constructs isAbstract function => do
    return .typeFunc span constructs isAbstract (← f function)
  | .typeObject span members => do return .typeObject span (← members.mapM f)
  | .typeMapped span isReadonly optional name domain renamed type => do
    return .typeMapped span isReadonly optional name (← f domain) (← renamed.mapM f) (← type.mapM f)
  | .typeImport span queried source options path args => do
    return .typeImport span queried source (← options.mapM f) path (← args.mapM f)
  | .typeParam span modifiers name bound fallback => do
    return .typeParam span modifiers name (← bound.mapM f) (← fallback.mapM f)
  | .jsxElement span name types attributes content closed => do
    return .jsxElement span name (← types.mapM f) (← attributes.mapM f) (← content.mapM f) closed
  | .jsxFragment span content => do return .jsxFragment span (← content.mapM f)
  | .jsxAttribute span name value => do return .jsxAttribute span name (← value.mapM f)
  | .jsxSpread span value => do return .jsxSpread span (← f value)
  | .jsxHole span value => do return .jsxHole span (← value.mapM f)
  | .jsxSpreadChild span value => do return .jsxSpreadChild span (← f value)
  | .exprStmt span value => do return .exprStmt span (← f value)
  | .block span stmts => do return .block span (← stmts.mapM f)
  | .ifStmt span test yes no => do return .ifStmt span (← f test) (← f yes) (← no.mapM f)
  | .forStmt span init test update body => do
    return .forStmt span (← init.mapM f) (← test.mapM f) (← update.mapM f) (← f body)
  | .forEach span kind left right body => do
    return .forEach span kind (← f left) (← f right) (← f body)
  | .whileStmt span test body => do return .whileStmt span (← f test) (← f body)
  | .doWhile span body test => do return .doWhile span (← f body) (← f test)
  | .switchStmt span subject clauses => do return .switchStmt span (← f subject) (← clauses.mapM f)
  | .returnStmt span value => do return .returnStmt span (← value.mapM f)
  | .throwStmt span value => do return .throwStmt span (← f value)
  | .labelled span label body => do return .labelled span label (← f body)
  | .tryStmt span body rescue finalizer => do
    return .tryStmt span (← f body) (← rescue.mapM f) (← finalizer.mapM f)
  | .withStmt span owner body => do return .withStmt span (← f owner) (← f body)
  | .aliasDecl span declared name typeParams type => do
    return .aliasDecl span declared name (← typeParams.mapM f) (← f type)
  | .interfaceDecl span declared name typeParams parents members => do
    return .interfaceDecl span declared name (← typeParams.mapM f) (← parents.mapM f)
      (← members.mapM f)
  | .enumDecl span declared isConst name members => do
    return .enumDecl span declared isConst name (← members.mapM f)
  | .moduleDecl span declared title body => do return .moduleDecl span declared title (← f body)
  | .exportDecl span decl => do return .exportDecl span (← f decl)
  | .exportDefault span decl => do return .exportDefault span (← f decl)
  | .exportAssign span value => do return .exportAssign span (← f value)
  | .clause span test stmts => do return .clause span (← test.mapM f) (← stmts.mapM f)
  | .handler span caught type body => do
    return .handler span (← caught.mapM f) (← type.mapM f) (← f body)
  | .vars span kind declared items => do return .vars span kind declared (← items.mapM f)
  | .declarator span target definite type init => do
    return .declarator span (← f target) definite (← type.mapM f) (← init.mapM f)
  | .enumMember span key init => do return .enumMember span (← f key) (← init.mapM f)
  | node => return node

mutual

def fold {β : Type} (alg : Node → List β → β) (node : Node) : β :=
  alg node <| match node with
    | .ascribe _ how value type =>
      if how = .assertion then [fold alg type, fold alg value] else [fold alg value, fold alg type]
    | .form _ _ operands => foldAll alg operands
    | .member _ owner _ _ _ => [fold alg owner]
    | .apply _ _ callee types args => [fold alg callee] ++ foldAll alg types ++ foldAll alg args
    | .object _ properties => foldAll alg properties
    | .assign _ _ target value => [fold alg target, fold alg value]
    | .pair _ key value _ => [fold alg key, fold alg value]
    | .methodProp _ _ key f => [fold alg key, fold alg f]
    | .spreadProp _ value => [fold alg value]
    | .keyComputed value => [fold alg value]
    | .place target => [fold alg target]
    | .arrayPattern _ items => foldAll alg items
    | .objectPattern _ fields => foldAll alg fields
    | .withDefault _ target fallback => [fold alg target, fold alg fallback]
    | .fieldPattern _ key value _ => [fold alg key, fold alg value]
    | .restPattern _ target => [fold alg target]
    | .func _ _ typeParams self params result body =>
      foldAll alg typeParams ++ foldPart alg self ++ foldAll alg params ++ foldPart alg result
        ++ [fold alg body]
    | .code _ _ stmts => foldAll alg stmts
    | .concise value => [fold alg value]
    | .param _ _ _ decorators target type init =>
      foldAll alg decorators ++ [fold alg target] ++ foldPart alg type ++ foldPart alg init
    | .cls _ _ decorators typeParams parent parentTypes implemented members =>
      foldAll alg decorators ++ foldAll alg typeParams ++ foldPart alg parent
        ++ foldAll alg parentTypes ++ foldAll alg implemented ++ foldAll alg members
    | .method _ _ _ decorators key f => foldAll alg decorators ++ [fold alg key, fold alg f]
    | .field _ _ _ decorators key type init =>
      foldAll alg decorators ++ [fold alg key] ++ foldPart alg type ++ foldPart alg init
    | .staticBlock _ stmts => foldAll alg stmts
    | .indexer _ _ params type => foldAll alg params ++ [fold alg type]
    | .propertySig _ _ key type => [fold alg key] ++ foldPart alg type
    | .methodSig _ _ _ key f => [fold alg key, fold alg f]
    | .callSig _ f => [fold alg f]
    | .typeRef _ _ args => foldAll alg args
    | .typeQuery _ _ args => foldAll alg args
    | .typeForm _ _ parts => foldAll alg parts
    | .typeFunc _ _ _ f => [fold alg f]
    | .typeObject _ members => foldAll alg members
    | .typeMapped _ _ _ _ domain renamed type =>
      [fold alg domain] ++ foldPart alg renamed ++ foldPart alg type
    | .typeImport _ _ _ options _ args => foldPart alg options ++ foldAll alg args
    | .typeParam _ _ _ bound fallback => foldPart alg bound ++ foldPart alg fallback
    | .jsxElement _ _ types attributes content _ =>
      foldAll alg types ++ foldAll alg attributes ++ foldAll alg content
    | .jsxFragment _ content => foldAll alg content
    | .jsxAttribute _ _ value => foldPart alg value
    | .jsxSpread _ value => [fold alg value]
    | .jsxHole _ value => foldPart alg value
    | .jsxSpreadChild _ value => [fold alg value]
    | .exprStmt _ value => [fold alg value]
    | .block _ stmts => foldAll alg stmts
    | .ifStmt _ test yes no => [fold alg test, fold alg yes] ++ foldPart alg no
    | .forStmt _ init test update body =>
      foldPart alg init ++ foldPart alg test ++ foldPart alg update ++ [fold alg body]
    | .forEach _ _ left right body => [fold alg left, fold alg right, fold alg body]
    | .whileStmt _ test body => [fold alg test, fold alg body]
    | .doWhile _ body test => [fold alg body, fold alg test]
    | .switchStmt _ subject clauses => [fold alg subject] ++ foldAll alg clauses
    | .returnStmt _ value => foldPart alg value
    | .throwStmt _ value => [fold alg value]
    | .labelled _ _ body => [fold alg body]
    | .tryStmt _ body rescue finalizer =>
      [fold alg body] ++ foldPart alg rescue ++ foldPart alg finalizer
    | .withStmt _ owner body => [fold alg owner, fold alg body]
    | .aliasDecl _ _ _ typeParams type => foldAll alg typeParams ++ [fold alg type]
    | .interfaceDecl _ _ _ typeParams parents members =>
      foldAll alg typeParams ++ foldAll alg parents ++ foldAll alg members
    | .enumDecl _ _ _ _ members => foldAll alg members
    | .moduleDecl _ _ _ body => [fold alg body]
    | .exportDecl _ decl => [fold alg decl]
    | .exportDefault _ decl => [fold alg decl]
    | .exportAssign _ value => [fold alg value]
    | .clause _ test stmts => foldPart alg test ++ foldAll alg stmts
    | .handler _ caught type body => foldPart alg caught ++ foldPart alg type ++ [fold alg body]
    | .vars _ _ _ items => foldAll alg items
    | .declarator _ target _ type init =>
      [fold alg target] ++ foldPart alg type ++ foldPart alg init
    | .enumMember _ key init => [fold alg key] ++ foldPart alg init
    | _ => []

def foldAll {β : Type} (alg : Node → List β → β) : List Node → List β
  | [] => []
  | node :: nodes => fold alg node :: foldAll alg nodes

def foldPart {β : Type} (alg : Node → List β → β) : Option Node → List β
  | none => []
  | some node => [fold alg node]

end

/-- Collects findings from a node and, in order, from its parts. At each node `enter` gives the
findings there and the context for the parts, or `none` to leave the parts out. -/
def gather {ε α : Type} (enter : ε → Node → Option ε × List α) (context : ε) (node : Node) :
    List α :=
  @fold (ε → List α) (fun node parts context =>
    match enter context node with
    | (some inner, found) => found ++ parts.flatMap (· inner)
    | (none, found) => found) node context

end Recompose.Script.Node
