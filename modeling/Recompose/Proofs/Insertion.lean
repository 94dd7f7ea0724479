import Recompose.Proofs.Enclosure
import Recompose.Proofs.Reading.Threading
import Recompose.Proofs.Weave.Step
import Recompose.Transform

namespace Recompose

open Script

/-- Returns of a function are made to commit. Nested functions and classes keep theirs. -/
inductive CommitsReturns (names : RuntimeNames) : Node → Node → Prop
  | kept {n : Node} : CommitsReturns names n n
  | value {span : Span} {e : Expr} {stmt : Stmt} (commits : Glue.valueCommit names e = .ok stmt) :
      CommitsReturns names (.returnStmt span (some e)) stmt
  | void {span : Span} {stmt : Stmt} (commits : Glue.voidCommit names = .ok stmt) :
      CommitsReturns names (.returnStmt span none) stmt
  | within {n n' : Node} (own : isSealed n = false) (skeleton : n'.skeleton = n.skeleton)
      (parts : List.Forall₂ (CommitsReturns names) n.children n'.children) : CommitsReturns names n n'

namespace CacheScope

variable {names : RuntimeNames}

theorem bind_eq_ok {α β : Type} {x : Except Failure α} {f : α → Except Failure β} {b : β} :
    x >>= f = .ok b ↔ ∃ a, x = .ok a ∧ f a = .ok b := by
  cases x <;> simp [bind, Except.bind]

def holdsReturns : Node → Bool
  | .block .. | .ifStmt .. | .forStmt .. | .forEach .. | .whileStmt .. | .doWhile .. | .switchStmt ..
  | .clause .. | .labelled .. | .tryStmt .. | .handler .. | .withStmt .. | .moduleDecl .. | .code .. =>
    true
  | _ => false

theorem isSealed_of_holdsReturns {n : Node} (h : holdsReturns n = true) : isSealed n = false := by
  unfold holdsReturns at h
  split at h <;> first | rfl | cases h

def Recommits (names : RuntimeNames) (n n' : Node) : Prop :=
  n' = n ∨ commitReturns names n = .ok n'

/-- What making returns commit does to a node, given what it does to its parts. -/
inductive CommitsOnce (names : RuntimeNames) : Node → Node → Prop
  | kept {n : Node} : CommitsOnce names n n
  | value {span : Span} {e : Expr} {stmt : Stmt} (commits : Glue.valueCommit names e = .ok stmt) :
      CommitsOnce names (.returnStmt span (some e)) stmt
  | void {span : Span} {stmt : Stmt} (commits : Glue.voidCommit names = .ok stmt) :
      CommitsOnce names (.returnStmt span none) stmt
  | within {n n' : Node} (holds : holdsReturns n = true) (skeleton : n'.skeleton = n.skeleton)
      (parts : List.Forall₂ (Recommits names) n.children n'.children) : CommitsOnce names n n'

theorem forall₂_recommits_same (ns : List Node) : List.Forall₂ (Recommits names) ns ns :=
  List.forall₂_same.2 fun _ _ ↦ .inl rfl

theorem forall₂_of_commitAll {stmts stmts' : List Stmt} (h : commitAll names stmts = .ok stmts') :
    List.Forall₂ (Recommits names) stmts stmts' := by
  induction stmts generalizing stmts' with
  | nil =>
    obtain rfl := Except.ok.inj h
    exact .nil
  | cons stmt stmts ih =>
    obtain ⟨stmt', hstmt, h⟩ := bind_eq_ok.1 h
    obtain ⟨rest, hrest, h⟩ := bind_eq_ok.1 h
    obtain rfl := Except.ok.inj h
    exact .cons (.inr hstmt) (ih hrest)

theorem forall₂_of_commitPart {part part' : Option Stmt} (h : commitPart names part = .ok part') :
    part'.map (fun _ ↦ Node.missing) = part.map (fun _ ↦ Node.missing) ∧
      List.Forall₂ (Recommits names) part.toList part'.toList := by
  cases part with
  | none =>
    obtain rfl := Except.ok.inj h
    exact ⟨rfl, .nil⟩
  | some stmt =>
    obtain ⟨stmt', hstmt, h⟩ := bind_eq_ok.1 h
    obtain rfl := Except.ok.inj h
    exact ⟨rfl, .cons (.inr hstmt) .nil⟩

theorem commitsOnce_last {n n' part part' : Node} (kept : List Node) (holds : holdsReturns n = true)
    (hn : n.children = kept ++ [part]) (hn' : n'.children = kept ++ [part'])
    (skeleton : n'.skeleton = n.skeleton) (hpart : commitReturns names part = .ok part') :
    CommitsOnce names n n' := by
  refine .within holds skeleton ?_
  rw [hn, hn']
  exact List.rel_append (forall₂_recommits_same kept) (.cons (.inr hpart) .nil)

theorem commitsOnce_of_commitReturns {n c : Node}
    (h : commitReturns names n = .ok c) : CommitsOnce names n c := by
  unfold commitReturns at h
  split at h
  · exact .value h
  · exact .void h
  · obtain ⟨stmts', hs, h₁⟩ := bind_eq_ok.1 h
    obtain rfl := Except.ok.inj h₁
    have hall := forall₂_of_commitAll hs
    exact .within rfl (by simp [Node.skeleton, Node.mapChildren, hall.length_eq]) hall
  · next span test yes no =>
    obtain ⟨yes', hyes, h₁⟩ := bind_eq_ok.1 h
    obtain ⟨no', hno, h₂⟩ := bind_eq_ok.1 h₁
    obtain rfl := Except.ok.inj h₂
    obtain ⟨hshape, hparts⟩ := forall₂_of_commitPart hno
    exact .within rfl (by simp [Node.skeleton, Node.mapChildren, hshape])
      (.cons (.inl rfl) (.cons (.inr hyes) hparts))
  · obtain ⟨body', hbody, h₁⟩ := bind_eq_ok.1 h
    obtain rfl := Except.ok.inj h₁
    exact commitsOnce_last _ rfl rfl rfl (by simp [Node.skeleton, Node.mapChildren]) hbody
  · next span kind left right body =>
    obtain ⟨body', hbody, h₁⟩ := bind_eq_ok.1 h
    obtain rfl := Except.ok.inj h₁
    exact commitsOnce_last [left, right] rfl rfl rfl rfl hbody
  · next span test body =>
    obtain ⟨body', hbody, h₁⟩ := bind_eq_ok.1 h
    obtain rfl := Except.ok.inj h₁
    exact commitsOnce_last [test] rfl rfl rfl rfl hbody
  · obtain ⟨body', hbody, h₁⟩ := bind_eq_ok.1 h
    obtain rfl := Except.ok.inj h₁
    exact .within rfl rfl (.cons (.inr hbody) (.cons (.inl rfl) .nil))
  · obtain ⟨clauses', hs, h₁⟩ := bind_eq_ok.1 h
    obtain rfl := Except.ok.inj h₁
    have hall := forall₂_of_commitAll hs
    exact .within rfl (by simp [Node.skeleton, Node.mapChildren, hall.length_eq])
      (.cons (.inl rfl) hall)
  · obtain ⟨stmts', hs, h₁⟩ := bind_eq_ok.1 h
    obtain rfl := Except.ok.inj h₁
    have hall := forall₂_of_commitAll hs
    exact .within rfl (by simp [Node.skeleton, Node.mapChildren, hall.length_eq])
      (List.rel_append (forall₂_recommits_same _) hall)
  · obtain ⟨body', hbody, h₁⟩ := bind_eq_ok.1 h
    obtain rfl := Except.ok.inj h₁
    exact commitsOnce_last [] rfl rfl rfl rfl hbody
  · obtain ⟨body', hbody, h₁⟩ := bind_eq_ok.1 h
    obtain ⟨handler', hhandler, h₂⟩ := bind_eq_ok.1 h₁
    obtain ⟨finalizer', hfinalizer, h₃⟩ := bind_eq_ok.1 h₂
    obtain rfl := Except.ok.inj h₃
    obtain ⟨hshape, hparts⟩ := forall₂_of_commitPart hhandler
    obtain ⟨hshape', hparts'⟩ := forall₂_of_commitPart hfinalizer
    exact .within rfl (by simp [Node.skeleton, Node.mapChildren, hshape, hshape'])
      (.cons (.inr hbody) (List.rel_append hparts hparts'))
  · obtain ⟨body', hbody, h₁⟩ := bind_eq_ok.1 h
    obtain rfl := Except.ok.inj h₁
    exact commitsOnce_last _ rfl rfl rfl (by simp [Node.skeleton, Node.mapChildren]) hbody
  · next span object body =>
    obtain ⟨body', hbody, h₁⟩ := bind_eq_ok.1 h
    obtain rfl := Except.ok.inj h₁
    exact commitsOnce_last [object] rfl rfl rfl rfl hbody
  · obtain ⟨body', hbody, h₁⟩ := bind_eq_ok.1 h
    obtain rfl := Except.ok.inj h₁
    exact commitsOnce_last [] rfl rfl rfl rfl hbody
  · obtain ⟨stmts', hs, h₁⟩ := bind_eq_ok.1 h
    obtain rfl := Except.ok.inj h₁
    have hall := forall₂_of_commitAll hs
    exact .within rfl (by simp [Node.skeleton, Node.mapChildren, hall.length_eq]) hall
  · obtain rfl := Except.ok.inj h
    exact .kept

theorem commitsReturns_commitReturns {stmt stmt' : Stmt} (h : commitReturns names stmt = .ok stmt') :
    CommitsReturns names stmt stmt' := by
  induction stmt using Node.induction_on_parts generalizing stmt' with
  | step stmt ih =>
    cases commitsOnce_of_commitReturns h with
    | kept => exact .kept
    | value commits => exact .value commits
    | void commits => exact .void commits
    | within holds skeleton parts =>
      refine .within (isSealed_of_holdsReturns holds) skeleton ?_
      have hmem : List.Forall₂ (fun m m' ↦ m ∈ stmt.children ∧ Recommits names m m')
          stmt.children stmt'.children :=
        (List.forall₂_and_left _ _).2 ⟨fun _ hm ↦ hm, parts⟩
      refine hmem.imp fun m m' hm ↦ ?_
      obtain ⟨hm, rfl | hcommits⟩ := hm
      · exact .kept
      · exact ih m hm hcommits

theorem commitsReturns_all {stmts stmts' : List Stmt} (h : commitAll names stmts = .ok stmts') :
    List.Forall₂ (CommitsReturns names) stmts stmts' := by
  refine (forall₂_of_commitAll h).imp fun stmt stmt' hstmt ↦ ?_
  obtain rfl | hcommits := hstmt
  · exact .kept
  · exact commitsReturns_commitReturns hcommits

/-- A cache scope is put around statements: its preamble before them, and perhaps one commit after. -/
inductive Caches (names : RuntimeNames) (stmts : List Stmt) : List Stmt → Prop
  | intro {offset : UInt64} {kind : ReturnKind} {registered : List (Nat × String)}
      {opening committed closing : List Stmt}
      (opens : Glue.preamble names offset kind registered = .ok opening)
      (commits : List.Forall₂ (CommitsReturns names) stmts committed)
      (closes : closing = [] ∨ ∃ commit, Glue.voidCommit names = .ok commit ∧ closing = [commit]) :
      Caches names stmts (opening ++ committed ++ closing)

theorem exists_of_wrap {offset : UInt64} {kind : ReturnKind} {registered : List (Nat × String)}
    {stmts stmts' : List Stmt} (h : wrap names offset kind registered stmts = .ok stmts') :
    ∃ opening committed closing, Glue.preamble names offset kind registered = .ok opening ∧
      commitAll names stmts = .ok committed ∧
      (closing = [] ∨ ∃ commit, Glue.voidCommit names = .ok commit ∧ closing = [commit]) ∧
      stmts' = opening ++ committed ++ closing := by
  obtain ⟨committed, hcommitted, h₁⟩ := bind_eq_ok.1 h
  obtain ⟨opening, opens, h₂⟩ := bind_eq_ok.1 h₁
  split at h₂
  · obtain ⟨commit, hcommit, h₃⟩ := bind_eq_ok.1 h₂
    obtain rfl := Except.ok.inj h₃
    exact ⟨opening, committed, [commit], opens, hcommitted, .inr ⟨commit, hcommit, rfl⟩, rfl⟩
  · obtain rfl := Except.ok.inj h₂
    exact ⟨opening, committed, [], opens, hcommitted, .inl rfl, (List.append_nil _).symm⟩

theorem caches_of_wrap {offset : UInt64} {kind : ReturnKind} {registered : List (Nat × String)}
    {stmts stmts' : List Stmt} (h : wrap names offset kind registered stmts = .ok stmts') :
    Caches names stmts stmts' := by
  obtain ⟨opening, committed, closing, opens, hcommitted, closes, rfl⟩ := exists_of_wrap h
  exact .intro opens (commitsReturns_all hcommitted) closes

end CacheScope

namespace Weave

/-- A reference, as a value or as a target, becomes a read of a parameter's state. -/
inductive ReadsTarget (names : RuntimeNames) (I : Node → Node → Prop) : Node → Node → Prop
  | value {span : Span} {name : String} :
      ReadsTarget names I (.ref span name) (Glue.parameterValue names name)
  | place {span : Span} {name : String} :
      ReadsTarget names I (.place (.ref span name)) (.place (Glue.parameterValue names name))
  | withDefault {outer span : Span} {name : String} {fallback fallback' : Expr}
      (fallbacks : I fallback fallback') :
      ReadsTarget names I (.withDefault outer (.place (.ref span name)) fallback)
        (.withDefault outer (.place (Glue.parameterValue names name)) fallback')

/-- A declaration loses its marker decorators, and its memo-marked annotations are threaded. -/
inductive Adjusts (site : Site) : Node → Node → Prop
  | kept {n : Node} : Adjusts site n n
  | method {span : Span} {kind : MethodKind} {mods : Modifiers} {decorators : List Expr} {key f : Node} :
      Adjusts site (.method span kind mods decorators key f)
        (.method span kind mods (withoutMarkers decorators) key f)
  | field {span : Span} {mods : Modifiers} {decorators : List Expr} {key : Node}
      {type type' : Option Ty} {init : Option Expr}
      (annotates : Annotates site.options.runtime
        (threadsCallers (memberMarkers site span decorators)) type type') :
      Adjusts site (.field span false mods decorators key type init)
        (.field span false mods (withoutMarkers decorators) key type' init)
  | param {span : Span} {mods : Modifiers} {decorators : List Expr} {target : Pattern}
      {type : Option Ty} {init : Option Expr} :
      Adjusts site (.param span mods false decorators target type init)
        (.param span mods false (withoutMarkers decorators) target type init)
  | vars {span : Span} {kind : VarKind} {declared : Bool} {items items' : List Node}
      (redeclares : List.Forall₂ (Redeclares site.options.runtime
        (threadsCallers (site.annotations.markers span.start))) items items') :
      Adjusts site (.vars span kind declared items) (.vars span kind declared items')
  | interfaceDecl {span : Span} {declared : Bool} {name : String} {scopes : Scopes}
      {typeParams parents parents' members : List Node}
      (extended : List.Forall₂ (Extends site.options.runtime scopes) parents parents') :
      Adjusts site (.interfaceDecl span declared name typeParams parents members)
        (.interfaceDecl span declared name typeParams parents' members)

/-- What is recorded of the parameters of a function, with its declaration or read off itself. -/
def IsTableOf (site : Site) (table : ParameterTable) : Func → Prop
  | .func span head _ _ params _ _ =>
    (∃ d, site.graph.nodeAt? span = some d ∧ table = d.parameters) ∨
      table = .ofParams params site.annotations (if head.form = .arrow then some span.start else none)
  | _ => False

/-- The new parameters of a memo function: the hidden ones, if it gets them, and its own. -/
inductive Lengthens (site : Site) (f : Func) (params : List Param) : List Param → Prop
  | intro {table : ParameterTable} {hidden params' : List Param} (tabled : IsTableOf site table f)
      (reshapes : ReshapesAll site.options.runtime table.memoIndices 0 params params')
      (hides : hidden = [] ∨ Glue.hiddenParameters site.options.runtime = .ok hidden) :
      Lengthens site f params (hidden ++ params')

def paramsOf : Func → List Param
  | .func _ _ _ _ params _ _ => params
  | _ => []

/-- A function is given the hidden parameters before its own, or it is not. -/
def Given (site : Site) (gains : Bool) (f f' : Func) : Prop :=
  ∃ params', params'.length = (paramsOf f).length ∧
    if gains then ∃ hidden, Glue.hiddenParameters site.options.runtime = .ok hidden ∧
      paramsOf f' = hidden ++ params'
    else paramsOf f' = params'

theorem length_paramsOf_skeleton (n : Node) : (paramsOf n.skeleton).length = (paramsOf n).length := by
  cases n
  case func => simp [paramsOf, Node.skeleton, Node.mapChildren]
  case ascribe =>
    simp only [Node.skeleton, Node.mapChildren]
    split <;> rfl
  all_goals rfl

theorem given_of_skeleton {site : Site} {f f' : Func} (h : f'.skeleton = f.skeleton) :
    Given site false f f' := by
  refine ⟨paramsOf f', ?_, rfl⟩
  rw [← length_paramsOf_skeleton, h, length_paramsOf_skeleton]

/-- The least relation that allows what weaving may insert or replace, closed under all nodes. -/
inductive Inserts (site : Site) : Node → Node → Prop
  | reference {span : Span} {name : String} :
      Inserts site (.ref span name) (Glue.parameterValue site.options.runtime name)
  | pair {span : Span} {key key' value value' : Node} (keys : Inserts site key key')
      (values : Inserts site value value')
      (reads : (∃ place name, key = .keyName place name) →
        ReadsTarget site.options.runtime (Inserts site) value value') :
      Inserts site (.pair span key value true) (.pair span key' value' false)
  | fieldPattern {span : Span} {key key' value value' : Node} (keys : Inserts site key key')
      (values : Inserts site value value')
      (reads : (∃ place name, key = .keyName place name) →
        ReadsTarget site.options.runtime (Inserts site) value value') :
      Inserts site (.fieldPattern span key value true) (.fieldPattern span key' value' false)
  | call {span : Span} {optional isPure : Bool} {callee callee' identity : Expr}
      {types args args' : List Node} {offset : UInt64} (callees : Inserts site callee callee')
      (arguments : List.Forall₂ (Inserts site) args args')
      (identifies : Glue.identityArgument site.options.runtime offset = .ok identity) :
      Inserts site (.apply span (.call optional isPure) callee types args)
        (.apply span (.call optional isPure) callee' types
          (Glue.contextArgument site.options.runtime :: identity :: args'))
  | function {span : Span} {head : FuncHead} {typeParams : List Node} {this : Option Node}
      {params params' : List Param} {result : Option Ty} {body body' : Node}
      (lengthens : Lengthens site (.func span head typeParams this params result body) params params')
      (bodies : Inserts site body body') :
      Inserts site (.func span head typeParams this params result body)
        (.func span head typeParams this params' result body')
  | memo {span : Span} {head : FuncHead} {typeParams : List Node} {this : Option Node}
      {params params' : List Param} {result : Option Ty} {body : Node} {inner : Span}
      {directives : List String} {stmts enclosed walked cached : List Stmt}
      (lengthens : Lengthens site (.func span head typeParams this params result body) params params')
      (parts : bodyParts body = (inner, directives, stmts))
      (encloses : Condition.Enclosures site.options.runtime stmts enclosed)
      (walks : List.Forall₂ (Inserts site) enclosed walked)
      (caches : CacheScope.Caches site.options.runtime walked cached) :
      Inserts site (.func span head typeParams this params result body)
        (.func span head typeParams this params' result (.code inner directives cached))
  | within {n n₁ n' : Node} (adjusts : Adjusts site n n₁) (skeleton : n'.skeleton = n₁.skeleton)
      (parts : List.Forall₂ (Inserts site) n₁.children n'.children) : Inserts site n n'

variable {site : Site}

theorem Inserts.refl (n : Node) : Inserts site n n := by
  induction n using Node.induction_on_parts with
  | step n ih => exact .within .kept rfl (List.forall₂_same.2 ih)

section

variable {W : Walked} {s s' : State}

theorem lengthens_of_reshapes {sig : Signature} {f : Func} {params params' hidden : List Param}
    (tabled : IsTableOf site sig.parameters f)
    (reshapes : ReshapesAll site.options.runtime sig.parameters.memoIndices 0 params params')
    (hides : Hides site sig hidden) : Lengthens site f params (hidden ++ params') := by
  refine .intro tabled reshapes ?_
  unfold Hides at hides
  split at hides
  · exact .inl hides
  · exact .inr hides

theorem enclosures_of_encloses {reifies : Bool} {stmts enclosed : List Stmt} {count : Nat}
    (h : Encloses site reifies stmts enclosed count) :
    Condition.Enclosures site.options.runtime stmts enclosed := by
  unfold Encloses at h
  split at h
  · obtain ⟨tally, hrun, -⟩ := h
    exact Condition.enclosures_of_run hrun
  · obtain ⟨rfl, -⟩ := h
    exact .refl _

theorem inserts_of_memoises {sig : Signature} {f f' : Func}
    (hW : ∀ {s n n' s'}, W s n n' s' → Inserts site n n')
    (tabled : IsTableOf site sig.parameters f) (h : Memoises site W sig s f f' s') :
    Inserts site f f' := by
  cases h with
  | bodiless faultless reshapes =>
    exact .function (Lengthens.intro tabled reshapes (.inl rfl)) (.refl _)
  | wrapped faultless reshapes present memo wraps hides =>
    cases wraps with
    | intro parts encloses walks wraps =>
      exact .memo (lengthens_of_reshapes tabled reshapes hides) parts (enclosures_of_encloses encloses)
        (walks.forall₂ fun _ ↦ hW) (CacheScope.caches_of_wrap wraps)
  | bare faultless reshapes present notMemo walks hides =>
    exact .function (lengthens_of_reshapes tabled reshapes hides)
      (.within .kept walks.skeleton (walks.children.forall₂ fun _ ↦ hW))

theorem tabled_of_signs {span : Span} {head : FuncHead} {typeParams : List Node} {this : Option Node}
    {params : List Param} {result : Option Ty} {body : Node} {sig : Signature}
    (h : Signs site s span head.form params (some sig) s') :
    IsTableOf site sig.parameters (.func span head typeParams this params result body) := by
  cases h with
  | declared found => exact .inl ⟨_, found, rfl⟩
  | closure absent marked named => exact .inr rfl

theorem inserts_of_threadsArgs {plan : CallPlan} {parent : String} {ordinal index : Nat}
    {args args' : List Expr} (hW : ∀ {s n n' s'}, W s n n' s' → Inserts site n n')
    (h : ThreadsArgs site W plan parent ordinal index s args args' s') :
    List.Forall₂ (Inserts site) args args' := by
  induction h with
  | nil => exact .nil
  | @closure index s s₁ s' arg arg' args args' builds memoises tail ih =>
    refine .cons (inserts_of_memoises hW ?_ memoises) ih
    cases memoises <;> exact .inr rfl
  | value builds head tail ih => exact .cons (hW head) ih

theorem adjusts_of_enters {n n₁ : Node} {s₁ : State} {leave : State → State}
    (h : Enters site s n n₁ s₁ leave) :
    Adjusts site n n₁ ∨
      (∃ span key value, n = .pair span key value true ∧ n₁ = .pair span key value false ∧
        isWatchedReference s.scopes value = true ∧ s₁ = s) ∨
      (∃ span key value, n = .fieldPattern span key value true ∧
        n₁ = .fieldPattern span key value false ∧ isWatchedReference s.scopes value = true ∧ s₁ = s) := by
  cases h with
  | pair =>
    next span key value =>
    cases hwatched : isWatchedReference s.scopes value with
    | false => exact .inl .kept
    | true => exact .inr (.inl ⟨span, key, value, rfl, rfl, hwatched, rfl⟩)
  | fieldPattern =>
    next span key value =>
    cases hwatched : isWatchedReference s.scopes value with
    | false => exact .inl .kept
    | true => exact .inr (.inr ⟨span, key, value, rfl, rfl, hwatched, rfl⟩)
  | method plain notes => exact .inl .method
  | memoMethod memo notes => exact .inl .method
  | field annotates notes => exact .inl (.field annotates)
  | param notes => exact .inl .param
  | vars redeclares notes awaits binds => exact .inl (.vars redeclares)
  | interfaceDecl extended notes => exact .inl (.interfaceDecl extended)
  | _ => exact .inl .kept

/-- What a node is made to be before its parts are woven. -/
inductive Alters (site : Site) : Node → Node → Prop
  | adjusted {n n₁ : Node} (adjusts : Adjusts site n n₁) : Alters site n n₁
  | pair {span : Span} {key value : Node} :
      Alters site (.pair span key value true) (.pair span key value false)
  | fieldPattern {span : Span} {key value : Node} :
      Alters site (.fieldPattern span key value true) (.fieldPattern span key value false)

theorem alters_of_enters {n n₁ : Node} {s₁ : State} {leave : State → State}
    (h : Enters site s n n₁ s₁ leave) : Alters site n n₁ := by
  obtain adjusts | ⟨span, key, value, rfl, rfl, -⟩ | ⟨span, key, value, rfl, rfl, -⟩ :=
    adjusts_of_enters h
  · exact .adjusted adjusts
  · exact .pair
  · exact .fieldPattern

/-- What the walk makes of a node, as far as the nodes around it need to know. -/
structure Weaves (site : Site) (s : State) (n n' : Node) (s' : State) : Prop where
  inserts : Inserts site n n'
  reads : isWatchedReference s.scopes n = true →
    ReadsTarget site.options.runtime (Inserts site) n n'
  name : (∃ place name, n = .keyName place name) → s' = s

theorem enters_passive {n n₁ : Node} {s₁ : State} {leave : State → State} (hn : isPassive n = true)
    (h : Enters site s n n₁ s₁ leave) : n₁ = n ∧ s₁ = s ∧ leave = id := by
  cases h with
  | passive => exact ⟨rfl, rfl, rfl⟩
  | block opens =>
    unfold blockBindings at opens
    split at opens <;> simp_all [isPassive]
  | _ => simp [isPassive] at hn

/-- A reference to a watched parameter that is gone on with is read inside it. -/
theorem readsTarget_of_parts {n n' : Node} (hn : isWatchedReference s.scopes n = true)
    (hparts : isPassive n = true) (h : Parts (Weaves site) s n n' s') :
    ReadsTarget site.options.runtime (Inserts site) n n' := by
  obtain ⟨skeleton, children⟩ := h
  unfold isWatchedReference at hn
  split at hn
  · simp [isPassive] at hparts
  · next span name =>
    obtain ⟨target', rfl⟩ := Node.exists_of_skeleton_place skeleton
    cases children with
    | cons head tail =>
      cases head.reads hn with
      | value => exact .place
  · next outer span name fallback =>
    obtain ⟨target', fallback', rfl⟩ := Node.exists_of_skeleton_withDefault skeleton
    cases children with
    | cons head tail =>
      cases tail with
      | cons last _ =>
        cases head.reads hn with
        | place => exact .withDefault last.inserts
  · simp at hn

theorem inserts_of_parts {n n₁ n' : Node} {s₁ s₂ : State} {leave : State → State}
    (enters : Enters site s n n₁ s₁ leave) (parts : Parts (Weaves site) s₁ n₁ n' s₂) :
    Inserts site n n' := by
  obtain ⟨skeleton, children⟩ := parts
  obtain adjusts | ⟨span, key, value, rfl, rfl, watched, rfl⟩ |
    ⟨span, key, value, rfl, rfl, watched, rfl⟩ := adjusts_of_enters enters
  · exact .within adjusts skeleton (children.forall₂ fun _ ↦ Weaves.inserts)
  · obtain ⟨key', value', rfl⟩ := Node.exists_of_skeleton_pair skeleton
    cases children with
    | cons keys tail =>
      cases tail with
      | cons values _ =>
        exact .pair keys.inserts values.inserts fun hname ↦ values.reads (keys.name hname ▸ watched)
  · obtain ⟨key', value', rfl⟩ := Node.exists_of_skeleton_fieldPattern skeleton
    cases children with
    | cons keys tail =>
      cases tail with
      | cons values _ =>
        exact .fieldPattern keys.inserts values.inserts fun hname ↦
          values.reads (keys.name hname ▸ watched)

theorem weaves_of_step {n n' : Node} (h : Step site (Weaves site) s n n' s') :
    Weaves site s n n' s' := by
  cases h with
  | read watched => exact ⟨.reference, fun _ ↦ .value, by simp⟩
  | thread resolves inside callees arguments identifies =>
    refine ⟨.call callees.inserts (inserts_of_threadsArgs Weaves.inserts arguments) identifies, ?_, ?_⟩
    · simp [isWatchedReference]
    · simp
  | memo form signed memoises =>
    refine ⟨inserts_of_memoises Weaves.inserts (tabled_of_signs signed) memoises, ?_, ?_⟩
    · simp [isWatchedReference]
    · simp
  | within enters parts =>
    refine ⟨inserts_of_parts enters parts, fun hwatched ↦ ?_, ?_⟩
    · have hpassive : isPassive n = true := by
        unfold isWatchedReference at hwatched
        split at hwatched
        · cases enters with
          | name plain => simp [plain] at hwatched
          | passive passive => exact passive
          | block opens => simp [blockBindings] at opens
        · rfl
        · rfl
        · simp at hwatched
      obtain ⟨rfl, rfl, rfl⟩ := enters_passive hpassive enters
      exact readsTarget_of_parts hwatched hpassive parts
    · intro hname
      obtain ⟨place, name, rfl⟩ := hname
      obtain ⟨rfl, rfl, rfl⟩ := enters_passive rfl enters
      exact parts.children.eq_of_nil.2

end

theorem walkErrors_eq_nil {file : String} {s : State} : walkErrors file s = [] ↔ s.Clean := by
  cases hf : s.failure <;> simp [walkErrors, State.Clean, hf]

/-- The walk only inserts: of a file with nothing wrong, what is woven is what was there with hidden
parameters, arguments, reads of parameters, cache scopes and conditions put in. Hidden parameters are
two if the names are plain. -/
theorem walkAll_only_inserts {site : Site} {depth : Nat} {stmts stmts' : List Stmt} {s : State}
    (h : walkAll site depth stmts = some (stmts', s))
    (hclean : walkErrors site.options.filePath s = []) :
    List.Forall₂ (Inserts site) stmts stmts' ∧
      (site.options.runtime.IsPlain → ∃ p q, Glue.hiddenParameters site.options.runtime = .ok [p, q] ∧
        IsTypedParam site.options.runtime.context p ∧ IsTypedParam site.options.runtime.id q) :=
  ⟨(threads_of_walkAll (fun _ _ ↦ weaves_of_step) h (walkErrors_eq_nil.1 hclean)).forall₂
    fun _ ↦ Weaves.inserts, Glue.hiddenParameters_eq_ok⟩

def shortNames : RuntimeNames where
  context := "c"
  id := "i"
  scope := "s"
  parameterPrefix := "p_"
  contextType := "C"
  idType := "I"
  scopeMethod := "f"
  paramMethod := "g"
  unchanged := "u"
  cached := "v"
  recache := "r"
  value := "w"

def markedSite : Site where
  options := { runtime := shortNames }
  source := ""
  annotations := ⟨[(0, { memo := true })]⟩
  graph := {}
  identity := .ofWidth 32

/-- A function that calls `Text` with its parameter and returns it. -/
def textFunction : Func :=
  .func ⟨0, 9⟩ { form := .declaration, name := some "view" } [] none
    [.param ⟨1, 2⟩ {} false [] (.binding ⟨1, 2⟩ "x") none none] none
    (.code ⟨3, 8⟩ []
      [.exprStmt ⟨4, 5⟩ (.apply ⟨4, 5⟩ (.call false false) (.ref ⟨4, 5⟩ "Text") [] [.ref ⟨4, 5⟩ "x"]),
        .returnStmt ⟨6, 7⟩ (some (.ref ⟨6, 7⟩ "x"))])

set_option maxRecDepth 100000 in
theorem walkAll_textFunction :
    (walkAll markedSite 9 [textFunction]).map (fun r ↦ walkErrors "input.ts" r.2) = some [] := by
  decide +kernel

theorem walkAll_only_inserts_textFunction : ∃ stmts' s,
    walkAll markedSite 9 [textFunction] = some (stmts', s) ∧ walkErrors "input.ts" s = [] ∧
      List.Forall₂ (Inserts markedSite) [textFunction] stmts' := by
  obtain ⟨⟨stmts', s⟩, h, hclean⟩ := Option.map_eq_some_iff.1 walkAll_textFunction
  exact ⟨stmts', s, h, hclean, (walkAll_only_inserts h hclean).1⟩

end Weave

end Recompose
