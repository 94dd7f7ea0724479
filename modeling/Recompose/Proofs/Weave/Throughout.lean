import Recompose.Proofs.Insertion
import Recompose.Proofs.Weave.Balance

namespace Recompose.Weave

open Script

variable {α : Type}

/-- How something is handed down in a file. -/
structure Inherited (α : Type) where
  /-- To the parts of a node, in their order. The node comes with what it is made to be before its
  parts are met. -/
  parts : α → Node → Node → List α
  /-- To a closure that a threaded call makes a memo function. -/
  argument : α → α
  /-- To the statements of a memo function of some mode. -/
  body : α → MemoMode → Func → List Stmt → α
  /-- What it takes for a function to become a memo function of some mode. -/
  warrants : α → MemoMode → Func → Prop

/-- Two lists of nodes, related one by one with what is handed down to them. -/
inductive Align (T : α → Node → Node → Prop) : List α → List Node → List Node → Prop
  | nil : Align T [] [] []
  | cons {a : α} {as : List α} {n n' : Node} {ns ns' : List Node} (head : T a n n')
      (tail : Align T as ns ns') : Align T (a :: as) (n :: ns) (n' :: ns')

/-- The arguments of a threaded call, from position `index` on. -/
inductive AlignArgs (site : Site) (G : Inherited α) (T : α → Node → Node → Prop) :
    CallPlan → Nat → List α → List Expr → List Expr → Prop
  | nil {index : Nat} {plan : CallPlan} : AlignArgs site G T plan index [] [] []
  | closure {plan : CallPlan} {index : Nat} {a : α} {as : List α} {arg arg' : Expr}
      {args args' : List Expr} (builds : plan.builds site index arg = true)
      (head : T (G.argument a) arg arg') (tail : AlignArgs site G T plan (index + 1) as args args') :
      AlignArgs site G T plan index (a :: as) (arg :: args) (arg' :: args')
  | value {plan : CallPlan} {index : Nat} {a : α} {as : List α} {arg arg' : Expr}
      {args args' : List Expr} (builds : plan.builds site index arg = false) (head : T a arg arg')
      (tail : AlignArgs site G T plan (index + 1) as args args') :
      AlignArgs site G T plan index (a :: as) (arg :: args) (arg' :: args')

/-- A function becomes a memo function of some mode. Its head is not looked into. -/
inductive Woven (site : Site) (G : Inherited α) (T : α → Node → Node → Prop) :
    α → MemoMode → Func → Func → Prop
  | bodiless {mode : MemoMode} {a : α} {span : Span} {head : FuncHead} {typeParams : List Node}
      {this : Option Node} {params params' : List Param} {result : Option Ty}
      (lengthens : Lengthens site (.func span head typeParams this params result .missing)
        params params') :
      Woven site G T a mode (.func span head typeParams this params result .missing)
        (.func span head typeParams this params' result .missing)
  | bare {a : α} {mode : MemoMode} {span : Span} {head : FuncHead} {typeParams : List Node}
      {this : Option Node} {params params' : List Param} {result : Option Ty} {body body' : Node}
      (notMemo : mode ≠ .memo)
      (lengthens : Lengthens site (.func span head typeParams this params result body) params params')
      (skeleton : body'.skeleton = body.skeleton)
      (parts : Align T (body.children.map fun _ ↦ G.body a mode
        (.func span head typeParams this params result body) (codeStmts body))
        body.children body'.children) :
      Woven site G T a mode (.func span head typeParams this params result body)
        (.func span head typeParams this params' result body')
  | memo {a : α} {span : Span} {head : FuncHead} {typeParams : List Node} {this : Option Node}
      {params params' : List Param} {result : Option Ty} {body : Node} {inner : Span}
      {directives : List String} {stmts enclosed walked cached : List Stmt}
      (lengthens : Lengthens site (.func span head typeParams this params result body) params params')
      (parts : bodyParts body = (inner, directives, stmts))
      (encloses : Condition.Enclosures site.options.runtime stmts enclosed)
      (walks : Align T (enclosed.map fun _ ↦ G.body a .memo
        (.func span head typeParams this params result body) enclosed) enclosed walked)
      (caches : CacheScope.Caches site.options.runtime walked cached) :
      Woven site G T a .memo (.func span head typeParams this params result body)
        (.func span head typeParams this params' result (.code inner directives cached))

/-- What is woven of a node, over what is woven of its parts. -/
inductive Made (site : Site) (G : Inherited α) (T : α → Node → Node → Prop) : α → Node → Node → Prop
  | reference {span : Span} {name : String} {a : α} :
      Made site G T a (.ref span name) (Glue.parameterValue site.options.runtime name)
  /-- The type arguments of a threaded call are not looked into. -/
  | call {a b : α} {ts bs : List α} {span : Span} {optional isPure : Bool}
      {callee callee' identity : Expr} {types args args' : List Node} {plan : CallPlan}
      {scopes : Scopes} {classes : List String} {offset : UInt64}
      (resolves : resolveCall? site scopes classes callee args.length = some plan)
      (given : G.parts a (.apply span (.call optional isPure) callee types args)
        (.apply span (.call optional isPure) callee types args) = b :: (ts ++ bs))
      (typed : ts.length = types.length) (callees : T b callee callee')
      (arguments : AlignArgs site G T plan 0 bs args args')
      (identifies : Glue.identityArgument site.options.runtime offset = .ok identity) :
      Made site G T a (.apply span (.call optional isPure) callee types args)
        (.apply span (.call optional isPure) callee' types
          (Glue.contextArgument site.options.runtime :: identity :: args'))
  | function {a : α} {mode : MemoMode} {f f' : Func} (warranted : G.warrants a mode f)
      (woven : Woven site G T a mode f f') : Made site G T a f f'
  | within {a : α} {n n₁ n' : Node} (alters : Alters site n n₁) (skeleton : n'.skeleton = n₁.skeleton)
      (parts : Align T (G.parts a n n₁) n₁.children n'.children) : Made site G T a n n'

/-- A property holds at every place that the walk reaches. -/
inductive Throughout (site : Site) (G : Inherited α) (Q : α → Node → Node → Prop) :
    α → Node → Node → Prop
  | intro {a : α} {n n' : Node} (own : Q a n n') (made : Made site G (Throughout site G Q) a n n') :
      Throughout site G Q a n n'

variable {site : Site} {G : Inherited α} {Inv : α → State → Node → Prop} {a : α} {s s' : State}

/-- What a memo function hands down to its body goes with the state in which the body is walked. -/
structure Opens (site : Site) (G : Inherited α) (Inv : α → State → Node → Prop) (a : α) (s : State)
    (sig : Signature) (f : Func) (params' : List Param) (body : Node) : Prop where
  bare : sig.mode ≠ .memo → ∀ m ∈ body.children, Inv (G.body a sig.mode f (codeStmts body))
    (s.mark.openMemo site sig params' (codeStmts body)) m
  wrapped : sig.mode = .memo → ∀ {inner directives stmts enclosed count},
    bodyParts body = (inner, directives, stmts) → Encloses site sig.reifies stmts enclosed count →
    ∀ m ∈ enclosed, Inv (G.body a .memo f enclosed)
      ((s.mark.countEnclosed count).openMemo site sig params' enclosed) m

def isCall : Node → Bool
  | .apply _ (.call _ _) _ _ _ => true
  | _ => false

/-- What the walk of a part leaves as it was, for the parts after it. -/
structure Lasts (site : Site) (Inv : α → State → Node → Prop) (K : State → State → Prop) : Prop where
  trans {s s₁ s' : State} : K s s₁ → K s₁ s' → K s s'
  walked {a : α} {s s' : State} {n n' : Node} : Inv a s n → Walks site s n n' s' → K s s'
  built {a : α} {s s' : State} {arg arg' : Expr} {plan : CallPlan} {name : String} {index : Nat} :
    Inv a s arg → plan.builds site index arg = true →
    Memoises site (Walks site) (builderSignature site name plan.reifies arg) s arg arg' s' → K s s'
  next {s : State} {counter counter' : SiteCounter} {frames : List Frame} :
    s.frames = .scope counter true :: frames → counter'.name = counter.name →
    K s { s with frames := .scope counter' true :: frames }

theorem keeps_next {counter counter' : SiteCounter} {frames : List Frame}
    (inside : s.frames = .scope counter true :: frames) (name : counter'.name = counter.name) :
    Keeps site s { s with frames := .scope counter' true :: frames } := by
  refine ⟨.refl _, ?_, rfl, fun _ h _ ↦ h⟩
  rw [inside]
  exact .cons (.scope name) (List.forall₂_same.2 fun frame _ ↦ .refl frame)

theorem lasts_keeps : Lasts site Inv (Keeps site) where
  trans := Keeps.trans
  walked _ hw := hw.keeps
  built _ _ hm := keeps_of_memoises (hm.mono Walks.rests)
  next := keeps_next

/-- What the state has to do with what is handed down, and that each step keeps it up. -/
structure Inherits (site : Site) (G : Inherited α) (Inv : α → State → Node → Prop)
    (K : State → State → Prop) : Prop where
  kept {a : α} {s s' : State} {n : Node} : Inv a s n → K s s' → Inv a s' n
  enters {a : α} {s s₁ : State} {n n₁ : Node} {leave : State → State} : Inv a s n →
    Enters site s n n₁ s₁ leave → List.Forall₂ (fun b m ↦ Inv b s₁ m) (G.parts a n n₁) n₁.children
  call {a : α} {s : State} {n : Node} : Inv a s n → isCall n = true →
    List.Forall₂ (fun b m ↦ Inv b s m) (G.parts a n n) n.children
  function {a : α} {s s₁ : State} {span : Span} {head : FuncHead} {typeParams : List Node}
    {this : Option Node} {params params' : List Param} {result : Option Ty} {body : Node}
    {sig : Signature} : Inv a s (.func span head typeParams this params result body) →
    head.form ≠ .signature → Signs site s span head.form params (some sig) s₁ →
    ReshapesAll site.options.runtime sig.parameters.memoIndices 0 params params' →
    Opens site G Inv a s₁ sig (.func span head typeParams this params result body) params' body
  signed {a : α} {s s₁ : State} {span : Span} {head : FuncHead} {typeParams : List Node}
    {this : Option Node} {params : List Param} {result : Option Ty} {body : Node} {sig : Signature} :
    Inv a s (.func span head typeParams this params result body) →
    Signs site s span head.form params (some sig) s₁ →
    G.warrants a sig.mode (.func span head typeParams this params result body)
  builder {a : α} {s : State} {arg : Expr} : Inv a s arg → G.warrants (G.argument a) .memo arg
  argument {a : α} {s : State} {span : Span} {head : FuncHead} {typeParams : List Node}
    {this : Option Node} {params params' : List Param} {result : Option Ty} {body : Node}
    {name : String} {reifies : Bool} : Inv a s (.func span head typeParams this params result body) →
    ReshapesAll site.options.runtime
      (Signature.ofClosure site name .memo params head.form span.start reifies).parameters.memoIndices
      0 params params' →
    Opens site G Inv (G.argument a) s
      (.ofClosure site name .memo params head.form span.start reifies)
      (.func span head typeParams this params result body) params' body

section

variable {W : Walked} {T : α → Node → Node → Prop} {K : State → State → Prop}
  (hG : Inherits site G Inv K)
  (hW : ∀ s n n' s', W s n n' s' → ∀ a, Inv a s n → K s s' ∧ T a n n')

include hG hW

theorem align_of_threads {as : List α} {ns ns' : List Node} (h : Threads W s ns ns' s')
    (hinv : List.Forall₂ (fun b m ↦ Inv b s m) as ns) : Align T as ns ns' := by
  induction h generalizing as with
  | nil =>
    cases hinv
    exact .nil
  | cons head tail ih =>
    cases hinv with
    | cons hhead htail =>
      obtain ⟨hkept, hT⟩ := hW _ _ _ _ head _ hhead
      exact .cons hT (ih (htail.imp fun _ _ h ↦ hG.kept h hkept))

omit hG hW in
theorem forall₂_map_const {R : α → Node → Prop} {a : α} {ns : List Node} (h : ∀ m ∈ ns, R a m) :
    List.Forall₂ R (ns.map fun _ ↦ a) ns :=
  List.forall₂_map_left_iff.2 (List.forall₂_same.2 h)

theorem woven_of_memoises {span : Span} {head : FuncHead} {typeParams : List Node} {this : Option Node} {params : List Param}
    {result : Option Ty} {body : Node} {f' : Func} {sig : Signature}
    (tabled : IsTableOf site sig.parameters (.func span head typeParams this params result body))
    (hopens : ∀ params',
      ReshapesAll site.options.runtime sig.parameters.memoIndices 0 params params' →
      Opens site G Inv a s sig (.func span head typeParams this params result body) params' body)
    (h : Memoises site W sig s (.func span head typeParams this params result body) f' s') :
    Woven site G T a sig.mode (.func span head typeParams this params result body) f' := by
  cases h with
  | bodiless faultless reshapes => exact .bodiless (.intro tabled reshapes (.inl rfl))
  | wrapped faultless reshapes present memo wraps hides =>
    cases wraps with
    | intro parts encloses walks wraps =>
      rw [memo]
      refine .memo (lengthens_of_reshapes tabled reshapes hides) parts
        (enclosures_of_encloses encloses) ?_ (CacheScope.caches_of_wrap wraps)
      exact align_of_threads hG hW walks
        (forall₂_map_const ((hopens _ reshapes).wrapped memo parts encloses))
  | bare faultless reshapes present notMemo walks hides =>
    refine .bare notMemo (lengthens_of_reshapes tabled reshapes hides) walks.skeleton ?_
    exact align_of_threads hG hW walks.children
      (forall₂_map_const ((hopens _ reshapes).bare notMemo))

theorem alignArgs_of_threadsArgs {plan : CallPlan} {parent : String} {ordinal index : Nat}
    (hmemo : ∀ a s arg arg' s' index, Inv a s arg → plan.builds site index arg = true →
      Memoises site W (builderSignature site (QualifiedName.nested parent ordinal index) plan.reifies
        arg) s arg arg' s' → K s s' ∧ T (G.argument a) arg arg')
    {as : List α} {args args' : List Expr}
    (h : ThreadsArgs site W plan parent ordinal index s args args' s')
    (hinv : List.Forall₂ (fun b m ↦ Inv b s m) as args) :
    AlignArgs site G T plan index as args args' := by
  induction h generalizing as with
  | nil =>
    cases hinv
    exact .nil
  | closure builds memoises tail ih =>
    cases hinv with
    | cons hhead htail =>
      obtain ⟨hkeeps, hT⟩ := hmemo _ _ _ _ _ _ hhead builds memoises
      exact .closure builds hT (ih (htail.imp fun _ _ h ↦ hG.kept h hkeeps))
  | value builds head tail ih =>
    cases hinv with
    | cons hhead htail =>
      obtain ⟨hkept, hT⟩ := hW _ _ _ _ head _ hhead
      exact .value builds hT (ih (htail.imp fun _ _ h ↦ hG.kept h hkept))

theorem made_of_built {plan : CallPlan} {name : String} {index : Nat} {arg arg' : Expr} (hinv : Inv a s arg)
    (builds : plan.builds site index arg = true)
    (h : Memoises site W (builderSignature site name plan.reifies arg) s arg arg' s') :
    Made site G T (G.argument a) arg arg' := by
  cases arg
  case func span head typeParams this params result body =>
    exact .function (hG.builder hinv) (woven_of_memoises hG hW (.inr rfl)
      (fun params' reshapes ↦ hG.argument hinv reshapes) h)
  all_goals exact absurd builds (by simp [CallPlan.builds, Node.isClosure, Node.closureSpan?])

end

section

variable {Q : α → Node → Node → Prop} {K : State → State → Prop} (hK : Lasts site Inv K)
  (hG : Inherits site G Inv K)
  (hstep : ∀ {a s n n' s'}, Inv a s n → Step site (Walks site) s n n' s' → Q a n n')
  (hbuilt : ∀ {a s arg arg' s' name index} {plan : CallPlan}, Inv a s arg →
    plan.builds site index arg = true →
    Memoises site (Walks site) (builderSignature site name plan.reifies arg) s arg arg' s' →
    Q (G.argument a) arg arg')

include hK hG hstep hbuilt

theorem throughout_of_parts
    {W : Walked} (hparts : ∀ {s n n' s'}, W s n n' s' →
      Walks site s n n' s' ∧ ∀ {a}, Inv a s n → Throughout site G Q a n n')
    {n n' : Node} (h : Step site W s n n' s') (hinv : Inv a s n) : Throughout site G Q a n n' := by
  have hW (s n n' s') (hw : W s n n' s') : ∀ a, Inv a s n → K s s' ∧ Throughout site G Q a n n' :=
    fun _ hinv ↦ ⟨hK.walked hinv (hparts hw).1, (hparts hw).2 hinv⟩
  have hwalks {s n n' s'} (hw : W s n n' s') : Walks site s n n' s' := (hparts hw).1
  refine .intro (hstep hinv (h.mono hwalks)) ?_
  cases h with
  | read watched => exact .reference
  | @thread span optional isPure callee callee' identity types args args' plan counter frames s₁ s₂
      resolves inside callees arguments identifies =>
    have hcall := hG.call hinv rfl
    rw [show (Node.apply span (.call optional isPure) callee types args).children = callee :: (types ++ args)
      by simp [Node.children]] at hcall
    obtain ⟨b, given, hcallee, hrest, hparts⟩ := List.forall₂_cons_right_iff.1 hcall
    obtain ⟨ts, bs, hsplit⟩ : ∃ ts bs, given = ts ++ bs ∧
        List.Forall₂ (fun b m ↦ Inv b s m) ts types ∧ List.Forall₂ (fun b m ↦ Inv b s m) bs args :=
      ⟨_, _, (List.take_append_drop types.length given).symm,
        List.forall₂_take_append _ _ _ hrest, List.forall₂_drop_append _ _ _ hrest⟩
    obtain ⟨rfl, htypes, hargs⟩ := hsplit
    have hnext : K s { s with frames := .scope counter.nextCall.2 true :: frames } :=
      hK.next inside rfl
    obtain ⟨hkept, hT⟩ := hW _ _ _ _ callees _ (hG.kept hcallee hnext)
    refine .call resolves hparts htypes.length_eq hT ?_ identifies
    refine alignArgs_of_threadsArgs hG hW ?_ arguments
      (hargs.imp fun _ _ h ↦ hG.kept h (hK.trans hnext hkept))
    intro a s arg arg' s' index hinv builds memoises
    have hmemo := memoises.mono hwalks
    exact ⟨hK.built hinv builds hmemo,
      .intro (hbuilt hinv builds hmemo) (made_of_built hG hW hinv builds memoises)⟩
  | memo form signed memoises =>
    exact .function (hG.signed hinv signed) (woven_of_memoises hG hW (tabled_of_signs signed)
      (fun params' reshapes ↦ hG.function hinv form signed reshapes) memoises)
  | within enters parts =>
    exact .within (alters_of_enters enters) parts.skeleton
      (align_of_threads hG hW parts.children (hG.enters hinv enters))

theorem throughout_of_walks {n n' : Node} (h : Walks site s n n' s') (hinv : Inv a s n) :
    Throughout site G Q a n n' := by
  revert a
  exact h.induct (R := fun s n n' _ ↦ ∀ {a}, Inv a s n → Throughout site G Q a n n')
    fun h _ hinv ↦ throughout_of_parts hK hG hstep hbuilt (fun hw ↦ hw) h hinv

theorem throughout_of_step {n n' : Node} (h : Step site (Walks site) s n n' s') (hinv : Inv a s n) :
    Throughout site G Q a n n' :=
  throughout_of_parts hK hG hstep hbuilt
    (fun hw ↦ ⟨hw, fun hinv ↦ throughout_of_walks hK hG hstep hbuilt hw hinv⟩) h hinv

theorem throughout_of_walkAll {depth : Nat} {stmts stmts' : List Stmt}
    (h : walkAll site depth stmts = some (stmts', s)) (hclean : walkErrors site.options.filePath s = [])
    (hinv : ∀ stmt ∈ stmts, Inv a (initial site.options.filePath) stmt) :
    List.Forall₂ (Throughout site G Q a) stmts stmts' := by
  have hthreads := threads_walks_of_walkAll h (walkErrors_eq_nil.1 hclean)
  clear h
  generalize initial site.options.filePath = first at hthreads hinv
  induction hthreads with
  | nil => exact .nil
  | cons head tail ih =>
    have hhead := hinv _ List.mem_cons_self
    refine .cons (throughout_of_walks hK hG hstep hbuilt head hhead) (ih hclean fun stmt hstmt ↦ ?_)
    exact hG.kept (hinv stmt (List.mem_cons_of_mem _ hstmt)) (hK.walked hhead head)

end

end Recompose.Weave
