import Recompose.Proofs.Weave.Memo

namespace Recompose.Weave

open Script

variable {site : Site} {s s' : State}

def builderSignature (site : Site) (name : String) (reifies : Bool) : Expr → Signature
  | .func span head _ _ params _ _ =>
    .ofClosure site name .memo params head.form span.start reifies
  | _ => default

def CallPlan.builds (plan : CallPlan) (site : Site) (index : Nat) (arg : Expr) : Bool :=
  arg.isClosure && (plan.closures.contains index || isMarkedClosure site arg)

/-- The arguments of a threaded call, from position `index` on. -/
inductive ThreadsArgs (site : Site) (W : Walked) (plan : CallPlan) (parent : String) (ordinal : Nat) :
    Nat → State → List Expr → List Expr → State → Prop
  | nil {index : Nat} {s : State} : ThreadsArgs site W plan parent ordinal index s [] [] s
  | closure {index : Nat} {s s₁ s' : State} {arg arg' : Expr} {args args' : List Expr}
      (builds : plan.builds site index arg = true)
      (memoises : Memoises site W
        (builderSignature site (QualifiedName.nested parent ordinal index) plan.reifies arg) s arg arg' s₁)
      (tail : ThreadsArgs site W plan parent ordinal (index + 1) s₁ args args' s') :
      ThreadsArgs site W plan parent ordinal index s (arg :: args) (arg' :: args') s'
  | value {index : Nat} {s s₁ s' : State} {arg arg' : Expr} {args args' : List Expr}
      (builds : plan.builds site index arg = false) (head : W s arg arg' s₁)
      (tail : ThreadsArgs site W plan parent ordinal (index + 1) s₁ args args' s') :
      ThreadsArgs site W plan parent ordinal index s (arg :: args) (arg' :: args') s'

section

variable {self : Self} {W : Walked}

theorem cleanly_builderClosure {name : String} {reifies : Bool} {arg : Expr}
    (hself : ∀ n, Cleanly (self n) fun s n' s' ↦ W s n n' s') (h : arg.isClosure = true) :
    Cleanly (builderClosure site self name reifies arg) fun s arg' s' ↦
      Memoises site W (builderSignature site name reifies arg) s arg arg' s' := by
  cases arg
  case func => exact cleanly_memoFunction hself
  all_goals exact absurd h (by simp [Node.isClosure, Node.closureSpan?])

theorem cleanly_threadArgs {plan : CallPlan} {parent : String} {ordinal index : Nat}
    {args : List Expr} (hself : ∀ n, Cleanly (self n) fun s n' s' ↦ W s n n' s') :
    Cleanly (threadArgs site self plan parent ordinal index args) fun s args' s' ↦
      ThreadsArgs site W plan parent ordinal index s args args' s' := by
  induction args generalizing index with
  | nil =>
    refine (cleanly_pure []).mono ?_
    intro s args' s' h
    obtain ⟨rfl, rfl⟩ := h
    exact .nil
  | cons arg args ih =>
    unfold threadArgs
    dsimp only
    split
    · next builds =>
      refine ((cleanly_builderClosure hself (Bool.and_eq_true_iff.1 builds).1).bind fun arg' ↦
        ih.bind fun args' ↦ cleanly_pure _).mono ?_
      intro s all s' h
      obtain ⟨arg', s₁, memoises, args', s₂, tail, rfl, rfl⟩ := h
      exact .closure builds memoises tail
    · next builds =>
      refine ((hself arg).bind fun arg' ↦ ih.bind fun args' ↦ cleanly_pure _).mono ?_
      intro s all s' h
      obtain ⟨arg', s₁, head, args', s₂, tail, rfl, rfl⟩ := h
      exact .value (Bool.eq_false_iff.2 builds) head tail

end

/-- Nodes of which only the parts are walked. -/
def isPassive : Node → Bool
  | .ref .. | .apply _ (.call _ _) _ _ _ | .func .. | .cls .. | .method .. | .field _ false ..
  | .param _ _ false .. | .pair _ _ _ true | .fieldPattern _ _ _ true | .vars .. | .block ..
  | .handler .. | .forStmt .. | .forEach .. | .switchStmt .. | .interfaceDecl .. => false
  | _ => true

def headBindings : Node → Scopes → Scopes
  | .vars _ kind _ items, scopes => scopes.bindDeclaration kind items
  | _, scopes => scopes

def blockBindings (site : Site) : Node → Option (Scopes → Scopes)
  | .block _ stmts => some (·.bindAll (hoistedBindings site.annotations stmts))
  | .handler _ param _ _ =>
    some (·.bindAll ((param.toList.flatMap Node.boundNames).map (·, .ordinary)))
  | .forStmt _ init _ _ _ => some (init.elim id headBindings)
  | .forEach _ _ left _ _ => some (headBindings left)
  | .switchStmt _ _ clauses => some (·.bindAll (clauses.flatMap (clauseBindings site)))
  | _ => none

def methodName (site : Site) (s : State) (key : Node) : String :=
  QualifiedName.declaration site.options.filePath (some (s.classes.head?.getD "default"))
    (key.keyText?.getD "<computed>")

def memberMarkers (site : Site) (span : Span) (decorators : List Expr) : Markers :=
  (site.annotations.markers span.start).merge (Markers.ofDecorators decorators)

inductive Annotates (names : RuntimeNames) (marked : Bool) : Option Ty → Option Ty → Prop
  | kept {type : Option Ty} : Annotates names marked type type
  | threaded {type type' : Ty} (called : marked = true) (retypes : Retypes names type type') :
      Annotates names marked (some type) (some type')

inductive Redeclares (names : RuntimeNames) (marked : Bool) : Node → Node → Prop
  | kept {n : Node} : Redeclares names marked n n
  | annotated {span : Span} {target : Pattern} {definite : Bool} {type type' : Option Ty}
      {init : Option Expr} (annotates : Annotates names marked type type') :
      Redeclares names marked (.declarator span target definite type init)
        (.declarator span target definite type' init)

/-- A name that an interface extends; it may be that of a watched parameter. -/
inductive Extends (names : RuntimeNames) (scopes : Scopes) : Node → Node → Prop
  | kept {n : Node} : Extends names scopes n n
  | read {span : Span} {name : String} {path : List String} {args : List Ty}
      (watched : scopes.isWatched name = true) :
      Extends names scopes (.typeRef span (name :: path) args)
        (.typeRef span (names.parameter name :: names.value :: path) args)

/-- How the walk enters a node whose parts it goes on with: what the node is first made to be, the
state for the parts, and how it is left. -/
inductive Enters (site : Site) (s : State) : Node → Node → State → (State → State) → Prop
  | passive {n : Node} (passive : isPassive n = true) : Enters site s n n s id
  | name {span : Span} {name : String} (plain : s.scopes.isWatched name = false) :
      Enters site s (.ref span name) (.ref span name) s id
  | call {span : Span} {optional isPure : Bool} {callee : Expr} {types args : List Node}
      (plain : resolveCall? site s.scopes s.classes callee args.length = none ∨ s.threading = false) :
      Enters site s (.apply span (.call optional isPure) callee types args)
        (.apply span (.call optional isPure) callee types args) s id
  | signature {span : Span} {head : FuncHead} {typeParams : List Node} {this : Option Node}
      {params : List Param} {result : Option Ty} {body : Node} (form : head.form = .signature) :
      Enters site s (.func span head typeParams this params result body)
        (.func span head typeParams this params result body) s id
  | function {span : Span} {head : FuncHead} {typeParams : List Node} {this : Option Node}
      {params : List Param} {result : Option Ty} {body : Node} {s₁ : State}
      (form : head.form ≠ .signature)
      (plain : Signs site s span head.form params none s₁) :
      Enters site s (.func span head typeParams this params result body)
        (.func span head typeParams this params result body)
        (s₁.openFunction (plainFrame site s₁ head.name) (plainBindings site params body))
        State.closeFunction
  | cls {span : Span} {head : ClassHead} {decorators typeParams : List Node} {parent : Option Node}
      {parentTypes implemented members : List Node} :
      Enters site s (.cls span head decorators typeParams parent parentTypes implemented members)
        (.cls span head decorators typeParams parent parentTypes implemented members)
        (s.openClass (Collector.className head)) State.closeClass
  | method {span : Span} {kind : MethodKind} {mods : Modifiers} {decorators : List Expr}
      {key f : Node} {s₁ : State} (plain : (memberMarkers site span decorators).isMemoLike = false)
      (notes : Notes (withoutMarkers decorators = decorators) s s₁) :
      Enters site s (.method span kind mods decorators key f)
        (.method span kind mods (withoutMarkers decorators) key f)
        (s₁.openFrame (.scope { name := methodName site s key } false)) State.closeFrame
  | memoMethod {span : Span} {mods : Modifiers} {decorators : List Expr} {key f : Node} {s₁ : State}
      (memo : (memberMarkers site span decorators).isMemoLike = true)
      (notes : Notes (withoutMarkers decorators = decorators) s s₁) :
      Enters site s (.method span .plain mods decorators key f)
        (.method span .plain mods (withoutMarkers decorators) key f)
        (if (site.graph.nodeAt? f.span).isNone then s₁.await (heldFunction f) else s₁) id
  | field {span : Span} {mods : Modifiers} {decorators : List Expr} {key : Node}
      {type type' : Option Ty} {init : Option Expr} {s₁ : State}
      (annotates : Annotates site.options.runtime
        (threadsCallers (memberMarkers site span decorators)) type type')
      (notes : Notes (type' = type ∧ withoutMarkers decorators = decorators) s s₁) :
      Enters site s (.field span false mods decorators key type init)
        (.field span false mods (withoutMarkers decorators) key type' init) s₁ id
  | param {span : Span} {mods : Modifiers} {decorators : List Expr} {target : Pattern}
      {type : Option Ty} {init : Option Expr} {s₁ : State}
      (notes : Notes (withoutMarkers decorators = decorators) s s₁) :
      Enters site s (.param span mods false decorators target type init)
        (.param span mods false (withoutMarkers decorators) target type init) s₁ id
  | pair {span : Span} {key value : Node} :
      Enters site s (.pair span key value true)
        (.pair span key value (!isWatchedReference s.scopes value)) s id
  | fieldPattern {span : Span} {key value : Node} :
      Enters site s (.fieldPattern span key value true)
        (.fieldPattern span key value (!isWatchedReference s.scopes value)) s id
  | vars {span : Span} {kind : VarKind} {declared : Bool} {items items' : List Node} {s₁ s₂ s₃ : State}
      (redeclares : List.Forall₂ (Redeclares site.options.runtime
        (threadsCallers (site.annotations.markers span.start))) items items')
      (notes : Notes (items' = items) s s₁)
      (awaits : s₂ = if (site.annotations.markers span.start).isMemoLike then
        s₁.await (items'.flatMap initialClosure) else s₁)
      (binds : s₃ = if kind = .hoisted then s₂.bindVars (Node.declaredNames items') else s₂) :
      Enters site s (.vars span kind declared items) (.vars span kind declared items') s₃ id
  | block {n : Node} {bind : Scopes → Scopes} (opens : blockBindings site n = some bind) :
      Enters site s n n (s.openBlock bind) State.closeBlock
  | interfaceDecl {span : Span} {declared : Bool} {name : String}
      {typeParams parents parents' members : List Node} {s₁ : State}
      (extended : List.Forall₂ (Extends site.options.runtime s.scopes) parents parents')
      (notes : Notes (parents' = parents) s s₁) :
      Enters site s (.interfaceDecl span declared name typeParams parents members)
        (.interfaceDecl span declared name typeParams parents' members) s₁ id

/-- What one step of the walk can do, `W` being what is done to the parts. -/
inductive Step (site : Site) (W : Walked) (s : State) : Node → Node → State → Prop
  | read {span : Span} {name : String} (watched : s.scopes.isWatched name = true) :
      Step site W s (.ref span name) (Glue.parameterValue site.options.runtime name) s.mark
  | thread {span : Span} {optional isPure : Bool} {callee callee' identity : Expr}
      {types args args' : List Node} {plan : CallPlan} {counter : SiteCounter} {frames : List Frame}
      {s₁ s₂ : State}
      (resolves : resolveCall? site s.scopes s.classes callee args.length = some plan)
      (inside : s.frames = .scope counter true :: frames)
      (callees : W { s with frames := .scope counter.nextCall.2 true :: frames } callee callee' s₁)
      (arguments : ThreadsArgs site W plan counter.name counter.calls 0 s₁ args args' s₂)
      (identifies : Glue.identityArgument site.options.runtime
        (site.identity.callSite counter.name counter.calls) = .ok identity) :
      Step site W s (.apply span (.call optional isPure) callee types args)
        (.apply span (.call optional isPure) callee' types
          (Glue.contextArgument site.options.runtime :: identity :: args')) s₂.mark.countCall
  | memo {span : Span} {head : FuncHead} {typeParams : List Node} {this : Option Node}
      {params : List Param} {result : Option Ty} {body : Node} {f' : Func} {sig : Signature}
      {s₁ s' : State} (form : head.form ≠ .signature)
      (signed : Signs site s span head.form params (some sig) s₁)
      (memoises : Memoises site W sig s₁ (.func span head typeParams this params result body) f' s') :
      Step site W s (.func span head typeParams this params result body) f' s'
  | within {n n₁ n' : Node} {s₁ s₂ : State} {leave : State → State}
      (enters : Enters site s n n₁ s₁ leave) (parts : Parts W s₁ n₁ n' s₂) :
      Step site W s n n' (leave s₂)

theorem ThreadsArgs.mono {V W : Walked} {plan : CallPlan} {parent : String} {ordinal index : Nat}
    {args args' : List Expr} (h : ThreadsArgs site V plan parent ordinal index s args args' s')
    (hVW : ∀ {s n n' s'}, V s n n' s' → W s n n' s') :
    ThreadsArgs site W plan parent ordinal index s args args' s' := by
  induction h with
  | nil => exact .nil
  | closure builds memoises tail ih => exact .closure builds (memoises.mono hVW) ih
  | value builds head tail ih => exact .value builds (hVW head) ih

theorem Step.mono {V W : Walked} {n n' : Node} (h : Step site V s n n' s')
    (hVW : ∀ {s n n' s'}, V s n n' s' → W s n n' s') : Step site W s n n' s' := by
  cases h with
  | read watched => exact .read watched
  | thread resolves inside callees arguments identifies =>
    exact .thread resolves inside (hVW callees) (arguments.mono hVW) identifies
  | memo form signed memoises => exact .memo form signed (memoises.mono hVW)
  | within enters parts => exact .within enters (parts.mono hVW)

section

variable {self : Self} {W : Walked}

theorem cleanly_dropMarkers (decorators : List Expr) :
    Cleanly (dropMarkers decorators) fun s kept s' ↦
      kept = withoutMarkers decorators ∧ Notes (withoutMarkers decorators = decorators) s s' := by
  unfold dropMarkers
  dsimp only
  split
  · refine (cleanly_touch.bind fun _ ↦ cleanly_pure _).mono ?_
    intro s kept s' h
    obtain ⟨-, s₁, rfl, rfl, rfl⟩ := h
    exact ⟨rfl, .inr rfl⟩
  · next hlength =>
    refine (cleanly_pure _).mono ?_
    intro s kept s' h
    obtain ⟨rfl, rfl⟩ := h
    exact ⟨rfl, .inl ⟨List.filter_eq_self.2 (List.length_filter_eq_length_iff.1 (not_not.1 hlength)), rfl⟩⟩

/-- Steps over a list that keep a node or note that they changed it. -/
theorem cleanly_mapM_notes {f : Node → WeaveM Node} {R : State → Node → Node → Prop} {items : List Node}
    (hR : ∀ s n n', R s.mark n n' → R s n n')
    (hf : ∀ n, Cleanly (f n) fun s n' s' ↦ R s n n' ∧ Notes (n' = n) s s') :
    Cleanly (items.mapM f) fun s items' s' ↦
      List.Forall₂ (R s) items items' ∧ Notes (items' = items) s s' := by
  intro s items' s' h hc
  obtain ⟨hc, hthreads⟩ := cleanly_mapM (W := fun s n n' s' ↦ R s n n' ∧ Notes (n' = n) s s')
    (fun n _ ↦ hf n) h hc
  refine ⟨hc, ?_⟩
  clear h hc ‹s'.Clean›
  induction hthreads with
  | nil => exact ⟨.nil, .inl ⟨rfl, rfl⟩⟩
  | cons head tail ih =>
    obtain ⟨head, ⟨rfl, rfl⟩ | rfl⟩ := head
    · exact ⟨.cons head ih.1, ih.2.imp_left fun ⟨hn, hs⟩ ↦ ⟨by rw [hn], hs⟩⟩
    · exact ⟨.cons head (ih.1.imp (hR _)), .inr ih.2.mark_eq⟩

theorem cleanly_threadDeclarator (n : Node) :
    Cleanly (threadDeclarator site n) fun s n' s' ↦
      Redeclares site.options.runtime true n n' ∧ Notes (n' = n) s s' := by
  unfold threadDeclarator
  split
  · next span target definite type init =>
    refine ((cleanly_threadType type).bind fun type' ↦ cleanly_pure _).mono ?_
    intro s n' s' h
    obtain ⟨type', s₁, ⟨rfl, rfl⟩ | ⟨retypes, rfl⟩, rfl, rfl⟩ := h
    · exact ⟨.kept, .inl ⟨rfl, rfl⟩⟩
    · exact ⟨.annotated (.threaded rfl retypes), .inr rfl⟩
  · refine (cleanly_pure n).mono ?_
    intro s n' s' h
    obtain ⟨rfl, rfl⟩ := h
    exact ⟨.kept, .inl ⟨rfl, rfl⟩⟩

theorem cleanly_extendedInterface (n : Node) :
    Cleanly (extendedInterface site n) fun s n' s' ↦
      Extends site.options.runtime s.scopes n n' ∧ Notes (n' = n) s s' := by
  unfold extendedInterface
  split
  · next span name path args =>
    refine cleanly_get fun r ↦ ?_
    split
    · next watched =>
      refine (cleanly_touch.bind fun _ ↦ cleanly_pure _).mono ?_
      intro s n' s' h hr
      obtain ⟨-, s₁, rfl, rfl, rfl⟩ := h
      exact ⟨.read (hr ▸ watched), .inr rfl⟩
    · refine (cleanly_pure _).mono ?_
      intro s n' s' h hr
      obtain ⟨rfl, rfl⟩ := h
      exact ⟨.kept, .inl ⟨rfl, rfl⟩⟩
  · refine (cleanly_pure n).mono ?_
    intro s n' s' h
    obtain ⟨rfl, rfl⟩ := h
    exact ⟨.kept, .inl ⟨rfl, rfl⟩⟩

theorem cleanly_method (hself : ∀ n, Cleanly (self n) fun s n' s' ↦ W s n n' s') {span : Span}
    {kind : MethodKind} {mods : Modifiers} {decorators : List Expr} {key f : Node} :
    Cleanly (method site self span kind mods decorators key f) fun s n' s' ↦
      Step site W s (.method span kind mods decorators key f) n' s' := by
  intro s n' s' h hc
  obtain ⟨kept, s₁, hd, h₁⟩ := bind_apply_eq_some.1 h
  rw [get_bind_apply] at h₁
  dsimp only at h₁
  have hmarkers (hc : s₁.Clean) : s.Clean ∧ kept = withoutMarkers decorators ∧
      Notes (withoutMarkers decorators = decorators) s s₁ := cleanly_dropMarkers decorators hd hc
  have hname (notes : Notes (withoutMarkers decorators = decorators) s s₁) :
      methodName site s₁ key = methodName site s key := by
    obtain ⟨-, rfl⟩ | rfl := notes <;> rfl
  split at h₁
  · next plain =>
    obtain ⟨hc₁, s₂, parts, rfl⟩ := cleanly_inFrame (cleanly_mapChildren hself) h₁ hc
    obtain ⟨hc, rfl, notes⟩ := hmarkers hc₁
    refine ⟨hc, .within (.method (by simpa [memberMarkers] using plain) notes) ?_⟩
    rw [← hname notes]
    exact parts
  · next memo =>
    split at h₁
    · obtain ⟨u, s₂, hu, h₂⟩ := bind_apply_eq_some.1 h₁
      obtain ⟨rfl, rfl⟩ := pure_apply_eq_some.1 h₂
      exact (cleanly_report hu hc).2.elim
    · next hkind =>
      obtain rfl := not_not.1 hkind
      have hawait : ∃ s₂, s₂ = (if (site.graph.nodeAt? f.span).isNone then s₁.await (heldFunction f) else s₁) ∧
          (Node.method span .plain mods kept key f).mapChildren self s₂ = some (n', s') := by
        split at h₁
        · next hnone =>
          obtain ⟨u, s₂, hu, h₂⟩ := bind_apply_eq_some.1 h₁
          obtain rfl := modify_apply_eq_some.1 hu
          exact ⟨_, by rw [if_pos hnone]; rfl, h₂⟩
        · next hsome => exact ⟨s₁, by rw [if_neg hsome], h₁⟩
      obtain ⟨s₂, hs₂, h₂⟩ := hawait
      obtain ⟨hc₂, parts⟩ := cleanly_mapChildren hself h₂ hc
      have hc₁ : s₁.Clean := by
        rw [hs₂] at hc₂
        split at hc₂ <;> exact hc₂
      obtain ⟨hc, rfl, notes⟩ := hmarkers hc₁
      exact ⟨hc, .within (.memoMethod (by simpa [memberMarkers] using memo) notes) (hs₂ ▸ parts)⟩

theorem cleanly_field (hself : ∀ n, Cleanly (self n) fun s n' s' ↦ W s n n' s') {span : Span}
    {mods : Modifiers} {decorators : List Expr} {key : Node} {type : Option Ty} {init : Option Expr} :
    Cleanly (field site self span mods decorators key type init) fun s n' s' ↦
      Step site W s (.field span false mods decorators key type init) n' s' := by
  have htype : Cleanly (if threadsCallers (memberMarkers site span decorators) then
      type.mapM (threadType site) else pure type) fun s type' s' ↦
      Annotates site.options.runtime (threadsCallers (memberMarkers site span decorators)) type type' ∧
        Notes (type' = type) s s' := by
    have hkept : Cleanly (pure type) fun s type' s' ↦ Annotates site.options.runtime
        (threadsCallers (memberMarkers site span decorators)) type type' ∧ Notes (type' = type) s s' := by
      refine (cleanly_pure type).mono ?_
      intro s type' s' h
      obtain ⟨rfl, rfl⟩ := h
      exact ⟨.kept, .inl ⟨rfl, rfl⟩⟩
    split
    · next called =>
      cases type with
      | none => exact hkept
      | some type =>
        rw [Option.mapM_some, map_eq_pure_bind]
        refine ((cleanly_threadType type).bind fun type' ↦ cleanly_pure _).mono ?_
        intro s all s' h
        obtain ⟨type', s₁, ⟨rfl, rfl⟩ | ⟨retypes, rfl⟩, rfl, rfl⟩ := h
        · exact ⟨.kept, .inl ⟨rfl, rfl⟩⟩
        · exact ⟨.threaded called retypes, .inr rfl⟩
    · exact hkept
  have heq : field site self span mods decorators key type init =
      (if threadsCallers (memberMarkers site span decorators) then
        type.mapM (threadType site) else pure type) >>= fun type' ↦
      dropMarkers decorators >>= fun kept ↦
        (Node.field span false mods kept key type' init).mapChildren self := by
    unfold field memberMarkers
    dsimp only
    split <;> rfl
  rw [heq]
  refine (htype.bind fun type' ↦ (cleanly_dropMarkers decorators).bind fun kept ↦
    cleanly_mapChildren hself).mono ?_
  intro s n' s' h
  obtain ⟨type', s₁, ⟨annotates, hnotes⟩, kept, s₂, ⟨rfl, hnotes'⟩, parts⟩ := h
  refine .within (.field annotates ?_) parts
  obtain ⟨htype, rfl⟩ | rfl := hnotes
  · exact hnotes'.imp_left fun ⟨hkept, hs⟩ ↦ ⟨⟨htype, hkept⟩, hs⟩
  · exact .inr hnotes'.mark_eq

theorem cleanly_declareVariables (hself : ∀ n, Cleanly (self n) fun s n' s' ↦ W s n n' s')
    {span : Span} {kind : VarKind} {declared : Bool} {items : List Node} :
    Cleanly (declareVariables site self span kind declared items) fun s n' s' ↦
      Step site W s (.vars span kind declared items) n' s' := by
  have hitems : Cleanly (if threadsCallers (site.annotations.markers span.start) then
      items.mapM (threadDeclarator site) else pure items) fun s items' s' ↦
      List.Forall₂ (Redeclares site.options.runtime
        (threadsCallers (site.annotations.markers span.start))) items items' ∧
        Notes (items' = items) s s' := by
    split
    · next called =>
      rw [called]
      exact cleanly_mapM_notes (fun _ _ _ h ↦ h) cleanly_threadDeclarator
    · refine (cleanly_pure items).mono ?_
      intro s items' s' h
      obtain ⟨rfl, rfl⟩ := h
      exact ⟨List.forall₂_same.2 fun _ _ ↦ .kept, .inl ⟨rfl, rfl⟩⟩
  have heq : declareVariables site self span kind declared items =
      (if threadsCallers (site.annotations.markers span.start) then
        items.mapM (threadDeclarator site) else pure items) >>= fun items' ↦
      (if (site.annotations.markers span.start).isMemoLike then
        addPending (items'.flatMap initialClosure) else pure ()) >>= fun _ ↦
      (if kind = .hoisted then modifyScopes (·.bindVars (Node.declaredNames items')) else pure ())
        >>= fun _ ↦ (Node.vars span kind declared items').mapChildren self := by
    unfold declareVariables
    dsimp only
    split
    all_goals
      refine bind_congr fun items' ↦ ?_
      split
      · refine bind_congr fun _ ↦ ?_
        split <;> rfl
      · split <;> rfl
  rw [heq]
  have hawait (spans : List Span) : Cleanly (if (site.annotations.markers span.start).isMemoLike then
      addPending spans else pure ()) fun s _ s' ↦
      s' = if (site.annotations.markers span.start).isMemoLike then s.await spans else s := by
    split
    · exact cleanly_modify (State.await · spans) fun _ h ↦ h
    · exact (cleanly_pure ()).mono And.right
  have hbind (names : List String) : Cleanly (if kind = .hoisted then
      modifyScopes (·.bindVars names) else pure ()) fun s _ s' ↦
      s' = if kind = .hoisted then s.bindVars names else s := by
    split
    · exact cleanly_modifyScopes _
    · exact (cleanly_pure ()).mono And.right
  refine (hitems.bind fun items' ↦ (hawait _).bind fun _ ↦ (hbind _).bind fun _ ↦
    cleanly_mapChildren hself).mono ?_
  intro s n' s' h
  obtain ⟨items', s₁, ⟨redeclares, notes⟩, -, s₂, awaits, -, s₃, binds, parts⟩ := h
  exact .within (.vars redeclares notes awaits binds) parts

theorem cleanly_function (hself : ∀ n, Cleanly (self n) fun s n' s' ↦ W s n n' s') {span : Span}
    {head : FuncHead} {typeParams : List Node} {this : Option Node} {params : List Param}
    {result : Option Ty} {body : Node} :
    Cleanly (function site self span head typeParams this params result body) fun s n' s' ↦
      Step site W s (.func span head typeParams this params result body) n' s' := by
  unfold function
  dsimp only
  split
  · next form =>
    exact (cleanly_mapChildren hself).mono fun parts ↦ .within (.signature form) parts
  · next form =>
    intro s n' s' h hc
    obtain ⟨r, s₁, hr, h₁⟩ := bind_apply_eq_some.1 h
    cases r with
    | some sig =>
      obtain ⟨hc₁, memoises⟩ := cleanly_memoFunction hself h₁ hc
      obtain ⟨hc₀, signed⟩ := cleanly_signatureFor _ _ _ hr hc₁
      exact ⟨hc₀, .memo form signed memoises⟩
    | none =>
      obtain ⟨hc₁, s₂, ⟨s₃, parts, rfl⟩, rfl⟩ :=
        cleanly_inFrame (cleanly_inFunction (cleanly_mapChildren hself)) h₁ hc
      obtain ⟨hc₀, signed⟩ := cleanly_signatureFor _ _ _ hr hc₁
      have hstep : Step site W s (.func span head typeParams this params result body) n'
          s₃.closeFunction := .within (.function form signed) parts
      exact ⟨hc₀, hstep⟩

theorem exists_of_threading (h : s.threading = true) :
    ∃ counter frames, s.frames = .scope counter true :: frames := by
  unfold State.threading at h
  split at h
  · next counter frames inside => exact ⟨counter, frames, inside⟩
  · exact absurd h (by simp)

def identifiedOr {β : Type} (failed : β) (goOn : Expr → β) : Option Expr → β
  | none => failed
  | some identity => goOn identity

theorem step_threadCall (hself : ∀ n, Cleanly (self n) fun s n' s' ↦ W s n n' s') {span : Span}
    {optional isPure : Bool} {callee : Expr} {types args : List Node} {plan : CallPlan}
    {counter : SiteCounter} {frames : List Frame} {n' : Node}
    (resolves : resolveCall? site s.scopes s.classes callee args.length = some plan)
    (inside : s.frames = .scope counter true :: frames)
    (h : threadCall site self plan (.apply span (.call optional isPure) · types ·) callee args s =
      some (n', s')) (hc : s'.Clean) :
    s.Clean ∧ Step site W s (.apply span (.call optional isPure) callee types args) n' s' := by
  have hnext : nextCall s = some (some (counter.name, counter.calls),
      { s with frames := .scope counter.nextCall.2 true :: frames }) := by
    unfold nextCall
    rw [get_bind_apply, inside]
    rfl
  unfold threadCall at h
  obtain ⟨r, s₁, hr, h₁⟩ := bind_apply_eq_some.1 h
  rw [hnext] at hr
  obtain ⟨rfl, rfl⟩ := Prod.mk.inj (Option.some.inj hr)
  let rest (callee' : Expr) (args' : List Expr) : Option Expr → WeaveM Expr :=
    identifiedOr (pure (.apply span (.call optional isPure) callee' types args')) fun identity ↦
      touch >>= fun _ ↦ modifyStats (fun s ↦
        { s with threadedCallSites := s.threadedCallSites + 1 }) >>= fun _ ↦
      pure (.apply span (.call optional isPure) callee' types
        (Glue.contextArgument site.options.runtime :: identity :: args'))
  have hrest (callee' : Expr) (args' : List Expr) : Cleanly
      (record (Glue.identityArgument site.options.runtime
        (site.identity.callSite counter.name counter.calls)) >>= rest callee' args') fun s n' s' ↦
      ∃ identity, Glue.identityArgument site.options.runtime
        (site.identity.callSite counter.name counter.calls) = .ok identity ∧
        n' = .apply span (.call optional isPure) callee' types
          (Glue.contextArgument site.options.runtime :: identity :: args') ∧ s' = s.mark.countCall := by
    refine cleanly_record (cleanly_pure _) fun identity identifies ↦
      (cleanly_touch.bind fun _ ↦ (cleanly_modifyStats _).bind fun _ ↦ cleanly_pure _).mono ?_
    intro s n' s' h
    obtain ⟨-, s₁, rfl, -, s₂, rfl, rfl, rfl⟩ := h
    exact ⟨identity, identifies, rfl, rfl⟩
  obtain ⟨hc₀, callee', s₁, callees, args', s₂, arguments, identity, identifies, rfl, rfl⟩ :=
    ((hself callee).bind fun callee' ↦ (cleanly_threadArgs hself).bind fun args' ↦
      hrest callee' args') h₁ hc
  exact ⟨hc₀, .thread resolves inside callees arguments identifies⟩

theorem cleanly_call (hself : ∀ n, Cleanly (self n) fun s n' s' ↦ W s n n' s') {span : Span}
    {optional isPure : Bool} {callee : Expr} {types args : List Node} :
    Cleanly (call site self span (.call optional isPure) callee types args) fun s n' s' ↦
      Step site W s (.apply span (.call optional isPure) callee types args) n' s' := by
  intro s n' s' h hc
  unfold call at h
  rw [get_bind_apply] at h
  cases resolves : resolveCall? site s.scopes s.classes callee args.length with
  | none =>
    rw [resolves] at h
    obtain ⟨hc, parts⟩ := cleanly_mapChildren hself h hc
    exact ⟨hc, .within (.call (.inl resolves)) parts⟩
  | some plan =>
    rw [resolves] at h
    dsimp only at h
    split at h
    · next threading =>
      obtain ⟨counter, frames, inside⟩ := exists_of_threading threading
      exact step_threadCall hself resolves inside h hc
    · next threading =>
      obtain ⟨hc, parts⟩ := cleanly_mapChildren hself h hc
      exact ⟨hc, .within (.call (.inr (Bool.eq_false_iff.2 threading))) parts⟩

theorem cleanly_reference {span : Span} {name : String} :
    Cleanly (reference site span name) fun s n' s' ↦ Step site W s (.ref span name) n' s' := by
  unfold reference
  refine cleanly_get fun r ↦ ?_
  split
  · next watched =>
    refine (cleanly_touch.bind fun _ ↦ cleanly_pure _).mono ?_
    intro s n' s' h hr
    obtain ⟨-, s₁, rfl, rfl, rfl⟩ := h
    exact .read (hr ▸ watched)
  · next plain =>
    refine (cleanly_pure _).mono ?_
    intro s n' s' h hr
    obtain ⟨rfl, rfl⟩ := h
    exact .within (.name (hr ▸ Bool.eq_false_iff.2 plain)) ⟨rfl, .nil⟩

theorem cleanly_bindHead (n : Node) :
    Cleanly (bindHead n) fun s _ s' ↦ s' = { s with scopes := headBindings n s.scopes } := by
  unfold bindHead
  split
  · exact cleanly_modifyScopes _
  · next hn =>
    refine (cleanly_pure ()).mono ?_
    intro s _ s' h
    obtain ⟨-, rfl⟩ := h
    unfold headBindings
    split
    · exact (hn _ _ _ _ rfl).elim
    · rfl

theorem cleanly_opened (hself : ∀ n, Cleanly (self n) fun s n' s' ↦ W s n n' s') {n : Node}
    {bind : Scopes → Scopes} {enter : WeaveM Unit} (opens : blockBindings site n = some bind)
    (henter : Cleanly enter fun s _ s' ↦ s' = { s with scopes := bind s.scopes }) :
    Cleanly (inBlock (enter >>= fun _ ↦ n.mapChildren self)) fun s n' s' ↦ Step site W s n n' s' := by
  refine (cleanly_inBlock henter (cleanly_mapChildren hself)).mono ?_
  intro s n' s' h
  obtain ⟨s₁, parts, rfl⟩ := h
  exact .within (.block opens) parts

theorem cleanly_step (hself : ∀ n, Cleanly (self n) fun s n' s' ↦ W s n n' s') (n : Node) :
    Cleanly (step site self n) fun s n' s' ↦ Step site W s n n' s' := by
  have hpassive {n : Node} (h : isPassive n = true) : Cleanly (n.mapChildren self) fun s n' s' ↦
      Step site W s n n' s' :=
    (cleanly_mapChildren hself).mono fun parts ↦ .within (.passive h) parts
  unfold step
  split
  · exact cleanly_reference
  · exact cleanly_call hself
  · exact cleanly_function hself
  · refine (cleanly_inClass (cleanly_mapChildren hself)).mono ?_
    intro s n' s' h
    obtain ⟨s₁, parts, rfl⟩ := h
    exact .within .cls parts
  · exact cleanly_method hself
  · exact cleanly_field hself
  · refine ((cleanly_dropMarkers _).bind fun _ ↦ cleanly_mapChildren hself).mono ?_
    intro s n' s' h
    obtain ⟨kept, s₁, ⟨rfl, notes⟩, parts⟩ := h
    exact .within (.param notes) parts
  · refine cleanly_get fun r ↦ (cleanly_mapChildren hself).mono ?_
    intro s n' s' parts hr
    subst hr
    exact .within .pair parts
  · refine cleanly_get fun r ↦ (cleanly_mapChildren hself).mono ?_
    intro s n' s' parts hr
    subst hr
    exact .within .fieldPattern parts
  · exact cleanly_declareVariables hself
  · exact cleanly_opened hself rfl (cleanly_modifyScopes _)
  · exact cleanly_opened hself rfl (cleanly_modifyScopes _)
  · next span init test update body =>
    refine cleanly_opened hself rfl ?_
    cases init with
    | none => exact (cleanly_pure _).mono And.right
    | some head => exact cleanly_bindHead head
  · exact cleanly_opened hself rfl (cleanly_bindHead _)
  · exact cleanly_opened hself rfl (cleanly_modifyScopes _)
  · refine ((cleanly_mapM_notes (fun _ _ _ h ↦ h) cleanly_extendedInterface).bind fun _ ↦
      cleanly_mapChildren hself).mono ?_
    intro s n' s' h
    obtain ⟨parents', s₁, ⟨extended, notes⟩, parts⟩ := h
    exact .within (.interfaceDecl extended notes) parts
  · refine hpassive ?_
    unfold isPassive
    split <;> first | rfl | (exfalso; solve_by_elim)

end

/-- What holds of a step whenever it holds of the parts holds of the walk. -/
theorem cleanly_walk {R : Walked}
    (hR : ∀ {s n n' s'}, s.Clean → s'.Clean → Step site R s n n' s' → R s n n' s') (depth : Nat)
    (n : Node) : Cleanly (walk site depth n) fun s n' s' ↦ R s n n' s' := by
  induction depth generalizing n with
  | zero =>
    intro s n' s' h
    exact absurd (h : none = some (n', s')) (Option.some_ne_none _).symm
  | succ depth ih =>
    intro s n' s' h hc
    obtain ⟨hc₀, hstep⟩ := cleanly_step ih n h hc
    exact ⟨hc₀, hR hc₀ hc hstep⟩

def Walks (site : Site) : Walked :=
  fun s n n' s' ↦ s'.Clean ∧ ∃ depth, walk site depth n s = some (n', s')

/-- What holds of a step whenever it holds of the parts, which are walked, holds of what is walked. -/
theorem Walks.induct {R : Walked}
    (hR : ∀ {s n n' s'}, Step site (fun s n n' s' ↦ Walks site s n n' s' ∧ R s n n' s') s n n' s' →
      R s n n' s') {n n' : Node} (h : Walks site s n n' s') : R s n n' s' := by
  have hwalk (depth : Nat) (n : Node) : Cleanly (walk site depth n)
      fun s n' s' ↦ Walks site s n n' s' ∧ R s n n' s' := by
    induction depth generalizing n with
    | zero =>
      intro s n' s' h
      exact absurd (h : none = some (n', s')) (Option.some_ne_none _).symm
    | succ depth ih =>
      intro s n' s' h hc
      obtain ⟨hc₀, hstep⟩ := cleanly_step ih n h hc
      exact ⟨hc₀, ⟨hc, depth + 1, h⟩, hR hstep⟩
  obtain ⟨hc, depth, h⟩ := h
  exact (hwalk depth n h hc).2.2

theorem Walks.step {n n' : Node} (h : Walks site s n n' s') : Step site (Walks site) s n n' s' :=
  h.induct (R := Step site (Walks site)) fun hstep ↦ hstep.mono And.left

theorem threads_walks_of_walkAll {depth : Nat} {stmts stmts' : List Stmt}
    (h : walkAll site depth stmts = some (stmts', s')) (hc : s'.Clean) :
    Threads (Walks site) (initial site.options.filePath) stmts stmts' s' := by
  refine (cleanly_mapM (fun n _ s n' s' h hc ↦ ?_) h hc).2
  exact ⟨(cleanly_walk (R := fun _ _ _ _ ↦ True) (fun _ _ _ ↦ trivial) depth n h hc).1,
    hc, depth, h⟩

theorem threads_of_walkAll {R : Walked}
    (hR : ∀ {s n n' s'}, s.Clean → s'.Clean → Step site R s n n' s' → R s n n' s') {depth : Nat}
    {stmts stmts' : List Stmt} (h : walkAll site depth stmts = some (stmts', s')) (hc : s'.Clean) :
    Threads R (initial site.options.filePath) stmts stmts' s' :=
  (cleanly_mapM (fun n _ ↦ cleanly_walk hR depth n) h hc).2

end Recompose.Weave
