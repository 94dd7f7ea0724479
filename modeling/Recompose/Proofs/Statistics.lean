import Recompose.Proofs.Marked

namespace Recompose

open Script

namespace Condition

mutual

/-- The number of constructs in a statement that were put into condition scopes, given what came of
the statement: conditions that became a call, in plain blocks as well. -/
def enclosedIn : Stmt → Stmt → Nat
  | .block _ inner, .block _ inner' => enclosedInAll inner inner'
  | .ifStmt .., .exprStmt .. => 1
  | .switchStmt .., .exprStmt .. => 1
  | _, _ => 0

def enclosedInAll : List Stmt → List Stmt → Nat
  | stmt :: stmts, stmt' :: stmts' => enclosedIn stmt stmt' + enclosedInAll stmts stmts'
  | _, _ => 0

end

theorem enclosedInAll_self_of {stmts : List Stmt} (h : ∀ stmt ∈ stmts, enclosedIn stmt stmt = 0) :
    enclosedInAll stmts stmts = 0 := by
  induction stmts with
  | nil => simp [enclosedInAll]
  | cons stmt stmts ih =>
    rw [enclosedInAll, h stmt List.mem_cons_self, ih fun stmt hm ↦ h stmt (List.mem_cons_of_mem _ hm)]

theorem enclosedIn_self (stmt : Stmt) : enclosedIn stmt stmt = 0 := by
  induction stmt using Node.induction_on_parts with
  | step stmt ih =>
    unfold enclosedIn
    split
    · exact enclosedInAll_self_of (by simp_all [Node.children])
    all_goals simp_all

theorem enclosedInAll_self (stmts : List Stmt) : enclosedInAll stmts stmts = 0 :=
  enclosedInAll_self_of fun stmt _ ↦ enclosedIn_self stmt

/-- Whatever the computation answers has the property, with the number of constructs it counted. -/
def Counts {α : Type} (P : Nat → α → Prop) (a : ConditionM α) : Prop :=
  ∀ ⦃t r t'⦄, a.run.run t = (.ok r, t') → ∃ n, t'.enclosed = t.enclosed + n ∧ P n r

section

variable {α β : Type} {s : ConditionSettings}

theorem counts_pure {P : Nat → α → Prop} {r : α} (h : P 0 r) : Counts P (pure r) := by
  intro t r' t' hr
  obtain rfl : r = r' := Except.ok.inj (congrArg Prod.fst hr)
  obtain rfl : t = t' := congrArg Prod.snd hr
  exact ⟨0, rfl, h⟩

theorem counts_bind {P : Nat → α → Prop} {Q : Nat → β → Prop} {a : ConditionM α}
    {f : α → ConditionM β} (ha : Counts P a)
    (hf : ∀ n r, P n r → Counts (fun m r' ↦ Q (n + m) r') (f r)) : Counts Q (a >>= f) := by
  intro t r' t' hr
  rw [ExceptT.run_bind, StateT.run_bind] at hr
  rcases hrun : a.run.run t with ⟨result, t₁⟩
  rw [hrun] at hr
  cases result with
  | ok r =>
    obtain ⟨n, hn, hP⟩ := ha hrun
    obtain ⟨m, hm, hQ⟩ := hf n r hP hr
    exact ⟨n + m, by rw [hm, hn, Nat.add_assoc], hQ⟩
  | error failure =>
    have herror : (.error failure : Except Failure β) = .ok r' := congrArg Prod.fst hr
    exact absurd herror (by simp)

theorem counts_bind_zero {Q : Nat → β → Prop} {a : ConditionM α} {f : α → ConditionM β}
    (ha : Counts (fun n _ ↦ n = 0) a) (hf : ∀ r, Counts Q (f r)) : Counts Q (a >>= f) := by
  refine counts_bind ha fun n r hn ↦ ?_
  subst hn
  simpa using hf r

theorem counts_modify {f : ConditionTally → ConditionTally} {n : Nat}
    (h : ∀ t, (f t).enclosed = t.enclosed + n) :
    Counts (fun m _ ↦ m = n) (modify f : ConditionM Unit) := by
  intro t r t' hr
  obtain rfl : f t = t' := congrArg Prod.snd hr
  exact ⟨n, h t, rfl⟩

theorem counts_lift (e : Except Failure α) : Counts (fun n _ ↦ n = 0) (liftM e : ConditionM α) := by
  cases e with
  | ok r => exact counts_pure rfl
  | error failure =>
    intro t r t' hr
    have herror : (.error failure : Except Failure α) = .ok r := congrArg Prod.fst hr
    exact absurd herror (by simp)

theorem counts_accepts (construct : String) (hs : List Hazard) :
    Counts (fun n _ ↦ n = 0) (accepts s construct hs) := by
  unfold accepts
  split
  · exact counts_pure rfl
  · exact counts_pure rfl
  · exact counts_bind_zero (counts_modify fun _ ↦ rfl) fun _ ↦ counts_pure rfl

theorem counts_branch (arm : Stmt) : Counts (fun n _ ↦ n = 0) (branch s arm) :=
  counts_bind_zero (counts_lift _) fun _ ↦ counts_pure rfl

theorem counts_branchArms (chain : Stmt) : Counts (fun n _ ↦ n = 0) (branchArms s chain) := by
  fun_induction chainHazards chain with
  | case1 span test yes no ih =>
    cases no with
    | none =>
      rw [branchArms_if]
      exact counts_bind_zero (counts_branch yes) fun _ ↦ counts_pure rfl
    | some no =>
      rw [branchArms_else]
      exact counts_bind_zero (counts_branch yes) fun _ ↦
        counts_bind_zero ih fun _ ↦ counts_pure rfl
  | case2 arm noChain =>
    rw [branchArms_arm noChain]
    exact counts_branch arm

theorem counts_branchClause (clause : Node) : Counts (fun n _ ↦ n = 0) (branchClause s clause) := by
  unfold branchClause
  split
  · dsimp only
    split
    · exact counts_pure rfl
    · exact counts_bind_zero (counts_lift _) fun _ ↦ counts_pure rfl
  · exact counts_pure rfl

theorem counts_branchClauses (clauses : List Node) :
    Counts (fun n _ ↦ n = 0) (clauses.mapM (branchClause s)) := by
  induction clauses with
  | nil => exact counts_pure rfl
  | cons clause clauses ih =>
    rw [List.mapM_cons]
    exact counts_bind_zero (counts_branchClause clause) fun _ ↦
      counts_bind_zero ih fun _ ↦ counts_pure rfl

theorem counts_scope {stmt construct : Stmt}
    (h : ∀ span e, enclosedIn stmt (.exprStmt span e) = 1) :
    Counts (fun n r ↦ n = enclosedIn stmt r) (scope s construct) := by
  have hone : Counts (fun n _ ↦ n = 1) (scope s construct) := by
    refine counts_bind (counts_modify (n := 1) fun _ ↦ rfl) fun n _ hn ↦ ?_
    subst hn
    simpa using counts_lift (Glue.closureCall s.names.conditionScope [construct])
  intro t call t' hrun
  obtain ⟨span, inner, optional, isPure, f, types, head, tps, this, params, result, directives, args,
    rfl, -⟩ := shape_of_closureCall (scope_allows construct hrun)
  obtain ⟨n, hn, rfl⟩ := hone hrun
  exact ⟨1, hn, (h _ _).symm⟩

theorem counts_encloseAll {stmts : List Stmt}
    (h : ∀ stmt ∈ stmts, Counts (fun n r ↦ n = enclosedIn stmt r) (enclose s stmt)) :
    Counts (fun n r ↦ n = enclosedInAll stmts r) (encloseAll s stmts) := by
  induction stmts with
  | nil => exact counts_pure (by simp [enclosedInAll])
  | cons stmt stmts ih =>
    rw [encloseAll]
    refine counts_bind (h stmt List.mem_cons_self) fun n stmt' hn ↦ ?_
    refine counts_bind (ih fun stmt hm ↦ h stmt (List.mem_cons_of_mem _ hm)) fun m stmts' hm ↦ ?_
    exact counts_pure (by rw [hn, hm, enclosedInAll, Nat.add_zero])

theorem counts_enclose (stmt : Stmt) :
    Counts (fun n r ↦ n = enclosedIn stmt r) (enclose s stmt) := by
  induction stmt using Node.induction_on_parts with
  | step stmt ih =>
    unfold enclose
    split
    · next span inner =>
      refine counts_bind (counts_encloseAll ih) fun n inner' hn ↦ ?_
      exact counts_pure (by rw [hn, enclosedIn, Nat.add_zero])
    · next span test yes no =>
      refine counts_bind_zero (counts_accepts "if" _) fun accepted ↦ ?_
      split
      · exact counts_bind_zero (counts_branchArms _) fun _ ↦ counts_scope fun _ _ ↦ by simp [enclosedIn]
      · exact counts_pure (enclosedIn_self _).symm
    · next span subject clauses =>
      refine counts_bind_zero (counts_accepts "switch" _) fun accepted ↦ ?_
      split
      · exact counts_bind_zero (counts_branchClauses clauses) fun _ ↦
          counts_scope fun _ _ ↦ by simp [enclosedIn]
      · exact counts_pure (enclosedIn_self _).symm
    · exact counts_pure (enclosedIn_self _).symm

theorem enclosed_of_run {stmts stmts' : List Stmt} {tally : ConditionTally}
    (h : run s stmts = (.ok stmts', tally)) : tally.enclosed = enclosedInAll stmts stmts' := by
  obtain ⟨n, hn, rfl⟩ := counts_encloseAll (fun stmt _ ↦ counts_enclose stmt) h
  exact hn.trans (Nat.zero_add _)

end

end Condition

namespace Weave

@[ext]
structure Tally where
  calls : Nat := 0
  chains : Nat := 0
  hidden : Nat := 0
  /-- Entries with a body. They are woven with the parameters they have. -/
  entries : Nat := 0
  /-- Entries that have no body to weave. -/
  announced : Nat := 0
deriving DecidableEq, Repr, Inhabited

namespace Tally

instance : Zero Tally := ⟨{}⟩

instance : Add Tally :=
  ⟨fun t u ↦ ⟨t.calls + u.calls, t.chains + u.chains, t.hidden + u.hidden, t.entries + u.entries,
    t.announced + u.announced⟩⟩

variable (t u : Tally)

@[simp]
theorem calls_add : (t + u).calls = t.calls + u.calls :=
  rfl

@[simp]
theorem chains_add : (t + u).chains = t.chains + u.chains :=
  rfl

@[simp]
theorem hidden_add : (t + u).hidden = t.hidden + u.hidden :=
  rfl

@[simp]
theorem entries_add : (t + u).entries = t.entries + u.entries :=
  rfl

@[simp]
theorem announced_add : (t + u).announced = t.announced + u.announced :=
  rfl

end Tally

inductive Sums (R : Node → Node → Tally → Prop) : List Node → List Node → Tally → Prop
  | nil : Sums R [] [] 0
  | cons {n n' : Node} {ns ns' : List Node} {t u : Tally} (head : R n n' t) (tail : Sums R ns ns' u) :
      Sums R (n :: ns) (n' :: ns') (t + u)

/-- Is it a function that is to take context and identity by itself? -/
def isEntry (site : Site) : Node → Bool
  | .func span head _ _ _ _ _ => head.form ≠ .signature && modeOf? site span = some .entry
  | _ => false

inductive WritesOut : Node → Node → Prop
  | pair {span : Span} {key value : Node} :
      WritesOut (.pair span key value true) (.pair span key value false)
  | fieldPattern {span : Span} {key value : Node} :
      WritesOut (.fieldPattern span key value true) (.fieldPattern span key value false)

mutual

/-- What weaving makes of a node, with the tally of what it inserts. An entry is counted where it
stands, by its body or by having none, and is nowhere passed over; only the call that it is an
argument of may make it a function of another mode. -/
inductive Gains (site : Site) : Bool → Node → Node → Tally → Prop
  | reference {span : Span} {name : String} :
      Gains site false (.ref span name) (Glue.parameterValue site.options.runtime name) 0
  | call {span : Span} {optional isPure : Bool} {callee callee' identity : Expr}
      {types args args' : List Node} {offset : UInt64} {t u : Tally}
      (callees : Gains site false callee callee' t) (arguments : GainsArgs site args args' u)
      (identifies : Glue.identityArgument site.options.runtime offset = .ok identity) :
      Gains site false (.apply span (.call optional isPure) callee types args)
        (.apply span (.call optional isPure) callee' types
          (Glue.contextArgument site.options.runtime :: identity :: args')) (t + u + { calls := 1 })
  | bodiless {built : Bool} {span : Span} {head : FuncHead} {typeParams : List Node}
      {this : Option Node} {params params' : List Param} {result : Option Ty} {positions : List Nat}
      (reshapes : ReshapesAll site.options.runtime positions 0 params params') :
      Gains site built (.func span head typeParams this params result .missing)
        (.func span head typeParams this params' result .missing)
        { announced := (isEntry site (.func span head typeParams this params result .missing)).toNat }
  | entry {span : Span} {head : FuncHead} {typeParams : List Node} {this : Option Node}
      {params params' : List Param} {result : Option Ty} {positions : List Nat} {body body' : Node}
      {t : Tally} (entry : isEntry site (.func span head typeParams this params result body) = true)
      (present : body ≠ .missing)
      (reshapes : ReshapesAll site.options.runtime positions 0 params params')
      (skeleton : body'.skeleton = body.skeleton)
      (bodies : Sums (Gains site false) body.children body'.children t) :
      Gains site false (.func span head typeParams this params result body)
        (.func span head typeParams this params' result body') (t + { entries := 1 })
  | function {built : Bool} {span : Span} {head : FuncHead} {typeParams : List Node}
      {this : Option Node} {params params' hidden : List Param} {result : Option Ty}
      {positions : List Nat} {body body' : Node} {t : Tally}
      (mode : built = true ∨ isEntry site (.func span head typeParams this params result body) = false)
      (present : body ≠ .missing)
      (reshapes : ReshapesAll site.options.runtime positions 0 params params')
      (hides : Glue.hiddenParameters site.options.runtime = .ok hidden)
      (skeleton : body'.skeleton = body.skeleton)
      (bodies : Sums (Gains site false) body.children body'.children t) :
      Gains site built (.func span head typeParams this params result body)
        (.func span head typeParams this (hidden ++ params') result body') (t + { hidden := 1 })
  | memo {built : Bool} {span : Span} {head : FuncHead} {typeParams : List Node} {this : Option Node}
      {params params' hidden : List Param} {result : Option Ty} {positions : List Nat} {body : Node}
      {inner : Span} {directives : List String} {stmts enclosed walked cached : List Stmt} {t : Tally}
      (mode : built = true ∨ isEntry site (.func span head typeParams this params result body) = false)
      (present : body ≠ .missing)
      (reshapes : ReshapesAll site.options.runtime positions 0 params params')
      (hides : Glue.hiddenParameters site.options.runtime = .ok hidden)
      (parts : bodyParts body = (inner, directives, stmts))
      (encloses : Condition.Enclosures site.options.runtime stmts enclosed)
      (walks : Sums (Gains site false) enclosed walked t)
      (caches : CacheScope.Caches site.options.runtime walked cached) :
      Gains site built (.func span head typeParams this params result body)
        (.func span head typeParams this (hidden ++ params') result (.code inner directives cached))
        (t + { chains := Condition.enclosedInAll stmts enclosed, hidden := 1 })
  | within {n n₁ n' : Node} {t : Tally} (plain : isEntry site n = false)
      (adjusts : Adjusts site n n₁ ∨ WritesOut n n₁) (skeleton : n'.skeleton = n₁.skeleton)
      (parts : Sums (Gains site false) n₁.children n'.children t) : Gains site false n n' t

/-- The arguments of a call that is threaded: a closure among them may be built. -/
inductive GainsArgs (site : Site) : List Node → List Node → Tally → Prop
  | nil : GainsArgs site [] [] 0
  | cons {built : Bool} {n n' : Node} {ns ns' : List Node} {t u : Tally}
      (closure : built = true → n.isClosure = true) (head : Gains site built n n' t)
      (tail : GainsArgs site ns ns' u) : GainsArgs site (n :: ns) (n' :: ns') (t + u)

end

theorem Gains.given {site : Site} {built : Bool} {n n' : Node} {t : Tally}
    (h : Gains site built n n' t) :
    ∃ gains, Given site gains n n' := by
  cases h with
  | reference => exact ⟨false, [], rfl, rfl⟩
  | call => exact ⟨false, [], rfl, rfl⟩
  | bodiless reshapes => exact ⟨false, _, reshapes.length_eq, rfl⟩
  | entry entry present reshapes => exact ⟨false, _, reshapes.length_eq, rfl⟩
  | function mode present reshapes hides => exact ⟨true, _, reshapes.length_eq, _, hides, rfl⟩
  | memo mode present reshapes hides => exact ⟨true, _, reshapes.length_eq, _, hides, rfl⟩
  | @within _ n₁ _ _ plain adjusts skeleton =>
    have hadjusted : paramsOf n₁ = paramsOf n := by
      obtain adjusts | writes := adjusts
      · cases adjusts <;> rfl
      · cases writes <;> rfl
    have hgiven : Given site false n₁ n' := given_of_skeleton skeleton
    obtain ⟨params', hlength, hparams⟩ := hgiven
    exact ⟨false, params', hadjusted ▸ hlength, hparams⟩

structure GrowsBy (t : Tally) (a b : Stats) : Prop where
  calls : b.threadedCallSites = a.threadedCallSites + t.calls
  chains : b.reifiedChains = a.reifiedChains + t.chains
  functions : b.transformedFunctions + b.transformedLambdas =
    a.transformedFunctions + a.transformedLambdas + (t.hidden + t.entries)

namespace GrowsBy

variable {t u : Tally} {a b c : Stats}

theorem refl (a : Stats) : GrowsBy 0 a a :=
  ⟨rfl, rfl, rfl⟩

theorem trans (h : GrowsBy t a b) (h' : GrowsBy u b c) : GrowsBy (t + u) a c where
  calls := by rw [h'.calls, h.calls, Nat.add_assoc, Tally.calls_add]
  chains := by rw [h'.chains, h.chains, Nat.add_assoc, Tally.chains_add]
  functions := by
    rw [h'.functions, h.functions, Tally.hidden_add, Tally.entries_add]
    omega

theorem countCall (s : State) : GrowsBy { calls := 1 } s.stats s.countCall.stats :=
  ⟨rfl, rfl, rfl⟩

theorem countEnclosed (s : State) (n : Nat) :
    GrowsBy { chains := n } s.stats (s.countEnclosed n).stats :=
  ⟨rfl, rfl, rfl⟩

theorem countFunction (s : State) (sig : Signature) (h : t.hidden + t.entries = 1)
    (hnone : t.calls = 0 ∧ t.chains = 0) : GrowsBy t s.stats (s.countFunction sig).stats := by
  unfold State.countFunction
  split
  · exact ⟨by simp [hnone.1], by simp [hnone.2], by simp only [h]; omega⟩
  · exact ⟨by simp [hnone.1], by simp [hnone.2], by simp only [h]; omega⟩

end GrowsBy

def Tallied (site : Site) : Walked :=
  fun s n n' s' ↦ s.Named → ∃ t, Gains site false n n' t ∧ GrowsBy t s.stats s'.stats

/-- What is known of a part in the proof that a node is tallied. -/
def WalksTallied (site : Site) : Walked :=
  fun s n n' s' ↦ Walks site s n n' s' ∧ Tallied site s n n' s'

variable {site : Site} {s s' : State}

theorem sums_of_threads {ns ns' : List Node} (h : Threads (WalksTallied site) s ns ns' s')
    (hnamed : s.Named) : ∃ t, Sums (Gains site false) ns ns' t ∧ GrowsBy t s.stats s'.stats := by
  induction h with
  | nil => exact ⟨0, .nil, .refl _⟩
  | cons head _ ih =>
    obtain ⟨t, gains, grows⟩ := head.2 hnamed
    obtain ⟨u, sums, grows'⟩ := ih (hnamed.keeps head.1.keeps)
    exact ⟨t + u, .cons gains sums, grows.trans grows'⟩

theorem count_of_encloses {reifies : Bool} {stmts enclosed : List Stmt} {count : Nat}
    (h : Encloses site reifies stmts enclosed count) :
    count = Condition.enclosedInAll stmts enclosed := by
  unfold Encloses at h
  split at h
  · obtain ⟨tally, hrun, -, rfl⟩ := h
    exact Condition.enclosed_of_run hrun
  · obtain ⟨rfl, rfl⟩ := h
    exact (Condition.enclosedInAll_self enclosed).symm

theorem gains_of_memoises {sig : Signature} {f f' : Func} {built : Bool}
    (hmode : built = true ∧ sig.mode = .memo ∨
      built = false ∧ (isEntry site f = true ↔ sig.mode = .entry))
    (h : Memoises site (WalksTallied site) sig s f f' s') :
    ∃ t, Gains site built f f' t ∧ GrowsBy t s.stats s'.stats := by
  have hplain (hne : sig.mode ≠ .entry) : built = true ∨ isEntry site f = false :=
    hmode.imp And.left fun hmode ↦ Bool.eq_false_iff.2 fun entry ↦ hne (hmode.2.1 entry)
  cases h with
  | bodiless faultless reshapes => exact ⟨_, .bodiless reshapes, ⟨rfl, rfl, rfl⟩⟩
  | wrapped faultless reshapes present memo wraps hides =>
    rw [Hides, if_neg (by simp [memo])] at hides
    cases wraps with
    | @intro _ _ stmts enclosed _ _ count s₁ parts encloses walks wraps =>
      obtain ⟨t, sums, grows⟩ := sums_of_threads walks rfl
      obtain rfl := count_of_encloses encloses
      refine ⟨_, .memo (hplain (by simp [memo])) present reshapes hides parts
        (enclosures_of_encloses encloses) sums (CacheScope.caches_of_wrap wraps), ?_⟩
      have hbody := (GrowsBy.countEnclosed s.mark _).trans grows
      have hall := hbody.trans
        (.countFunction (t := { hidden := 1 }) s₁.closeFunction sig rfl ⟨rfl, rfl⟩)
      have hsum : { chains := Condition.enclosedInAll stmts enclosed } + t + { hidden := 1 } =
          t + { chains := Condition.enclosedInAll stmts enclosed, hidden := 1 } := by
        ext <;> simp [Nat.add_comm]
      exact hsum ▸ hall
  | @bare _ _ _ _ _ _ _ _ body body' s₁ faultless reshapes present notMemo walks hides =>
    obtain ⟨t, sums, grows⟩ := sums_of_threads walks.children rfl
    unfold Hides at hides
    split at hides
    · next entry =>
      subst hides
      obtain ⟨-, memo⟩ | ⟨rfl, hentry⟩ := hmode
      · exact absurd memo notMemo
      · exact ⟨_, .entry (hentry.2 entry) present reshapes walks.skeleton sums,
          grows.trans (.countFunction s₁.closeFunction sig rfl ⟨rfl, rfl⟩)⟩
    · next notEntry =>
      exact ⟨_, .function (hplain notEntry) present reshapes hides walks.skeleton sums,
        grows.trans (.countFunction s₁.closeFunction sig rfl ⟨rfl, rfl⟩)⟩

theorem gainsArgs_of_threadsArgs {plan : CallPlan} {parent : String} {ordinal index : Nat}
    {args args' : List Expr} (hnamed : s.Named)
    (h : ThreadsArgs site (WalksTallied site) plan parent ordinal index s args args' s') :
    ∃ t, GainsArgs site args args' t ∧ GrowsBy t s.stats s'.stats := by
  induction h with
  | nil => exact ⟨0, .nil, .refl _⟩
  | closure builds memoises _ ih =>
    have hmemo := gains_of_memoises (.inl ⟨rfl, by cases memoises <;> rfl⟩) memoises
    obtain ⟨t, gains, grows⟩ := hmemo
    have hkeeps := keeps_of_memoises (memoises.mono fun hwalk ↦ hwalk.1.rests)
    obtain ⟨u, sums, grows'⟩ := ih (hnamed.keeps hkeeps)
    exact ⟨t + u, .cons (fun _ ↦ (Bool.and_eq_true_iff.1 builds).1) gains sums, grows.trans grows'⟩
  | value builds head _ ih =>
    obtain ⟨t, gains, grows⟩ := head.2 hnamed
    obtain ⟨u, sums, grows'⟩ := ih (hnamed.keeps head.1.keeps)
    exact ⟨t + u, .cons (nofun : false = true → _) gains sums, grows.trans grows'⟩

theorem stats_of_signs {span : Span} {form : FuncForm} {params : List Param} {r : Option Signature}
    (h : Signs site s span form params r s') : s'.stats = s.stats := by
  cases h <;> rfl

/-- A function is signed as an entry if it is one; what only a declaration around it marks is none. -/
theorem modeOf?_eq_entry_iff {span : Span} {form : FuncForm} {params : List Param}
    {r : Option Signature} (h : Signs site s span form params r s') (hnamed : s.Named) :
    modeOf? site span = some .entry ↔ r.map (·.mode) = some .entry := by
  cases r with
  | some sig =>
    obtain hmode | ⟨hnone, hmemo, -⟩ := modeOf?_of_signs h
    · rw [hmode, Option.map_some]
    · simp [hnone, hmemo]
  | none =>
    cases h with
    | unmarked absent plain => simp [modeOf?, absent, (Option.or_eq_none_iff.1 plain).1]
    | nameless absent marked unnamed => simp [State.Named, unnamed] at hnamed

theorem stats_of_notes {p : Prop} (h : Notes p s s') : s'.stats = s.stats := by
  obtain ⟨-, rfl⟩ | rfl := h <;> rfl

theorem stats_of_enters {n n₁ : Node} {s₁ : State} {leave : State → State}
    (h : Enters site s n n₁ s₁ leave) :
    s₁.stats = s.stats ∧ ∀ s₂, (leave s₂).stats = s₂.stats := by
  refine ⟨?_, ?_⟩
  · cases h with
    | function form plain => exact (stats_of_signs plain :)
    | method plain notes => exact (stats_of_notes notes :)
    | memoMethod memo notes => split <;> exact (stats_of_notes notes :)
    | field annotates notes => exact stats_of_notes notes
    | param notes => exact stats_of_notes notes
    | interfaceDecl extended notes => exact stats_of_notes notes
    | vars redeclares notes awaits binds =>
      rw [binds, awaits]
      split <;> split <;> exact (stats_of_notes notes :)
    | _ => rfl
  · cases h <;> exact fun _ ↦ rfl

theorem adjusts_or_writesOut {n n₁ : Node} {s₁ : State} {leave : State → State}
    (h : Enters site s n n₁ s₁ leave) : Adjusts site n n₁ ∨ WritesOut n n₁ := by
  obtain adjusts | ⟨span, key, value, rfl, rfl, -⟩ | ⟨span, key, value, rfl, rfl, -⟩ :=
    adjusts_of_enters h
  · exact .inl adjusts
  · exact .inr .pair
  · exact .inr .fieldPattern

theorem isEntry_of_enters {n n₁ : Node} {s₁ : State} {leave : State → State}
    (h : Enters site s n n₁ s₁ leave) (hnamed : s.Named) : isEntry site n = false := by
  cases h with
  | @passive n passive =>
    unfold isEntry
    split
    · simp [isPassive] at passive
    · rfl
  | signature form => simp [isEntry, form]
  | function form plain => simp [isEntry, form, modeOf?_eq_entry_iff plain hnamed]
  | block opens =>
    unfold blockBindings at opens
    split at opens <;> first | rfl | simp at opens
  | _ => rfl

theorem tallied_of_step {n n' : Node} (h : Step site (WalksTallied site) s n n' s') :
    Tallied site s n n' s' := by
  intro hnamed
  cases h with
  | read watched => exact ⟨0, .reference, .refl _⟩
  | @thread _ _ _ _ _ _ _ _ _ _ counter frames s₁ s₂ resolves inside callees arguments identifies =>
    have hnext : State.Named { s with frames := .scope counter.nextCall.2 true :: frames } := rfl
    obtain ⟨t, gains, grows⟩ := callees.2 hnext
    obtain ⟨u, sums, grows'⟩ := gainsArgs_of_threadsArgs (hnext.keeps callees.1.keeps) arguments
    exact ⟨_, .call gains sums identifies, (grows.trans grows').trans (.countCall s₂.mark)⟩
  | memo form signed memoises =>
    have hmode := modeOf?_eq_entry_iff signed hnamed
    obtain ⟨t, gains, grows⟩ := gains_of_memoises (.inr ⟨rfl, by simpa [isEntry, form] using hmode⟩)
      memoises
    exact ⟨t, gains, stats_of_signs signed ▸ grows⟩
  | within enters parts =>
    obtain ⟨t, sums, grows⟩ := sums_of_threads parts.children (hnamed.enters enters)
    obtain ⟨hentered, hleft⟩ := stats_of_enters enters
    exact ⟨t, .within (isEntry_of_enters enters hnamed) (adjusts_or_writesOut enters) parts.skeleton
      sums, by rw [hleft]; exact hentered ▸ grows⟩

/-- The statistics count what is inserted: the calls that gain leading arguments, the conditions put
into condition scopes at any depth, and the functions that gain the hidden parameters, together with
the entries that have a body. No function gains them twice. -/
theorem walkAll_counts_insertions {depth : Nat} {stmts stmts' : List Stmt}
    (h : walkAll site depth stmts = some (stmts', s))
    (hclean : walkErrors site.options.filePath s = []) :
    (∃ t : Tally, Sums (Gains site false) stmts stmts' t ∧ s.stats.threadedCallSites = t.calls ∧
      s.stats.reifiedChains = t.chains ∧
      s.stats.transformedFunctions + s.stats.transformedLambdas = t.hidden + t.entries) ∧
    ∀ built f f' t, Gains site built f f' t → ∃ gains, Given site gains f f' := by
  refine ⟨?_, fun _ _ _ _ ↦ Gains.given⟩
  have hwalks : Threads (WalksTallied site) _ stmts stmts' s :=
    (threads_walks_of_walkAll h (walkErrors_eq_nil.1 hclean)).mono fun hwalk ↦
      ⟨hwalk, hwalk.induct (R := Tallied site) tallied_of_step⟩
  obtain ⟨t, sums, grows⟩ := sums_of_threads hwalks rfl
  exact ⟨t, sums, grows.calls.trans (Nat.zero_add _), grows.chains.trans (Nat.zero_add _),
    grows.functions.trans (Nat.zero_add _)⟩

theorem walkAll_counts_insertions_textFunction : ∃ stmts' s t,
    walkAll markedSite 9 [textFunction] = some (stmts', s) ∧ walkErrors "input.ts" s = [] ∧
      Sums (Gains markedSite false) [textFunction] stmts' t ∧ s.stats.threadedCallSites = t.calls ∧
      s.stats.reifiedChains = t.chains ∧
      s.stats.transformedFunctions + s.stats.transformedLambdas = t.hidden + t.entries := by
  obtain ⟨⟨stmts', s⟩, h, hclean⟩ := Option.map_eq_some_iff.1 walkAll_textFunction
  obtain ⟨⟨t, hcounts⟩, -⟩ := walkAll_counts_insertions h hclean
  exact ⟨stmts', s, t, h, hclean, hcounts⟩

def announcedSource : String :=
  "/** @memo_entry */\ndeclare function main(__memo_context: any, __memo_id: any): void;\n"

set_option maxRecDepth 100000 in
theorem walkAll_announcedSource : ((parse? announcedSource false).bind fun parsed ↦
    (walkAll (siteOf announcedSource {} parsed) 9 parsed.program.body).map fun r ↦
      (walkErrors "input.ts" r.2, parsed.program.body.map (isEntry (siteOf announcedSource {} parsed)),
        r.1.map fun n ↦ (paramsOf n).length, r.2.stats)) = some ([], [true], [2], {}) := by
  decide +kernel

theorem walkAll_misses_announced_entry : ∃ parsed stmts' s,
    parse? announcedSource false = some parsed ∧
      walkAll (siteOf announcedSource {} parsed) 9 parsed.program.body = some (stmts', s) ∧
      walkErrors "input.ts" s = [] ∧
      parsed.program.body.map (isEntry (siteOf announcedSource {} parsed)) = [true] ∧
      stmts'.map (fun n ↦ (paramsOf n).length) = [2] ∧
      s.stats.transformedFunctions + s.stats.transformedLambdas = 0 := by
  obtain ⟨parsed, hparsed, hwoven⟩ := Option.bind_eq_some_iff.1 walkAll_announcedSource
  obtain ⟨⟨stmts', s⟩, h, hends⟩ := Option.map_eq_some_iff.1 hwoven
  simp only [Prod.mk.injEq] at hends
  obtain ⟨hclean, hentry, hparams, hstats⟩ := hends
  exact ⟨parsed, stmts', s, hparsed, h, hclean, hentry, hparams, by simp [hstats]⟩

end Weave

end Recompose
