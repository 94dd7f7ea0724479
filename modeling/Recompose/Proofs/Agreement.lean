import Recompose.Proofs.Declarations

namespace Recompose.Weave

open Script Scoping

variable {site : Site} {s s₁ s' : State} {x : String}

def gainsAs (site : Site) (p : Role × Func) : Bool :=
  match site.graph.nodeAt? (spanOf p) with
  | some d => d.mode ≠ .entry
  | none =>
    match ownMode? site p.2 with
    | some mode => mode ≠ .entry
    | none => p.1.isHeld

def gains (site : Site) (all : List (Role × Func)) (span : Span) : Bool :=
  all.any fun p ↦ spanOf p = span && gainsAs site p

theorem gains_of_mem {all : List (Role × Func)} (hall : (all.map spanOf).Nodup) {p : Role × Func}
    (hp : p ∈ all) : gains site all (spanOf p) = gainsAs site p := by
  rw [Bool.eq_iff_iff, gains, List.any_eq_true]
  constructor
  · rintro ⟨q, hq, hgains⟩
    simp only [Bool.and_eq_true, decide_eq_true_eq] at hgains
    rw [← List.inj_on_of_nodup_map hall hq hp hgains.1]
    exact hgains.2
  · exact fun hgains ↦ ⟨p, hp, by simpa using hgains⟩

theorem given_of_renderedIn {mode : MemoMode} {f f' : Func} (h : RenderedIn site mode f f') :
    Given site (mode ≠ .entry) f f' := by
  cases h with
  | memo reshapes hides wraps => exact ⟨_, reshapes.length_eq, _, hides, rfl⟩
  | intrinsic reshapes hides skeleton => exact ⟨_, reshapes.length_eq, _, hides, rfl⟩
  | entry reshapes skeleton => exact ⟨_, reshapes.length_eq, rfl⟩

theorem given_of_step {role : Role} {span : Span} {head : FuncHead} {typeParams : List Node}
    {this : Option Node} {params : List Param} {result : Option Ty} {body n' : Node}
    (hnone : site.graph.nodeAt? .none = none)
    (h : Meeting site role s (.func span head typeParams this params result body))
    (hrole : role ≠ .foreign) (hform : head.form ≠ .signature)
    (hdefined : isDefined (.func span head typeParams this params result body) = true)
    (hdecided : role = .free ∨ (site.graph.nodeAt? span).isSome = true ∨
      (ownMode? site (.func span head typeParams this params result body)).isSome = true)
    (hstep : Step site (Walks site) s (.func span head typeParams this params result body) n' s') :
    Given site (gainsAs site (role, .func span head typeParams this params result body))
      (.func span head typeParams this params result body) n' := by
  let f := Node.func span head typeParams this params result body
  obtain ⟨hspan, hbody⟩ := isDefined_iff.1 hdefined
  have hown : ownMode? site f = MemoMode.ofMarkers? (site.annotations.markers span.start) := rfl
  have hself : (role, f) ∈ census site f role := mem_census_self hrole hspan
  have hmode (habsent : site.graph.nodeAt? span = none) :
      modeAt? site s span = ownMode? site f ∧ (ownMode? site f = none → role.isHeld = false) := by
    rw [modeAt?, ← hown]
    cases hmarked : ownMode? site f with
    | some mode => simp
    | none =>
      have hfree : role = .free := by
        simpa [habsent, f, hmarked] using hdecided
      have hpending : span ∉ s.pending :=
        fun hpending ↦ h.known.awaited _ hself habsent hpending hfree
      simp [hpending, hfree, Role.isHeld]
  have hgains (habsent : site.graph.nodeAt? span = none) :
      gainsAs site (role, f) = ((modeAt? site s span).map (decide <| · ≠ .entry)).getD false := by
    have habsent' : site.graph.nodeAt? (spanOf (role, f)) = none := habsent
    rw [gainsAs, habsent', (hmode habsent).1]
    dsimp only
    cases hmarked : ownMode? site f with
    | some mode => rfl
    | none => exact (hmode habsent).2 hmarked
  cases hstep with
  | memo form signed memoises =>
    have hrendered := renderedIn_of_memoises hbody (h.known.parameters_eq hnone hrole signed) memoises
    have hgiven := given_of_renderedIn hrendered
    cases signed with
    | @declared d found =>
      have hfound : site.graph.nodeAt? (spanOf (role, f)) = some d := found
      rw [gainsAs, hfound]
      exact hgiven
    | closure absent marked named =>
      rw [hgains absent, marked]
      exact hgiven
  | within enters parts =>
    cases enters with
    | passive passive => simp [isPassive] at passive
    | signature form => exact absurd form hform
    | block opens => simp [blockBindings] at opens
    | function form plain =>
      cases plain with
      | nameless absent marked unnamed =>
        have hnamed := h.named
        simp [State.Named, unnamed] at hnamed
      | unmarked absent plain =>
        rw [hgains absent, plain]
        exact given_of_skeleton parts.skeleton

/-- The closure of a declarator, if it is no declaration of the file, is given the hidden parameters or
not. -/
def HoldsGiven (site : Site) (gains : Span → Bool) (item item' : Node) : Prop :=
  ∀ place target definite type f, item = .declarator place target definite type (some f) →
    f.isClosure = true → isDefined f = true → site.graph.nodeAt? f.span = none →
    ∃ target' type' f', item' = .declarator place target' definite type' (some f') ∧
      Given site (gains f.span) f f'

theorem holdsGiven_of_woven {all : List (Role × Func)} (hall : (all.map spanOf).Nodup) {role : Role}
    (hheld : role.isHeld = true) {item item' : Node} (hinside : census site item role ⊆ all)
    (h : HoldsWoven site item item') : HoldsGiven site (gains site all) item item' := by
  rintro place target definite type f rfl hclosure hdefined habsent
  obtain ⟨span, head, typeParams, this, params, result, body, rfl, -⟩ := exists_of_isClosure hclosure
  obtain ⟨hspan, hbody⟩ := isDefined_iff.1 hdefined
  let f := Node.func span head typeParams this params result body
  have hrole : role ≠ .foreign := by
    rintro rfl
    cases hheld
  have hmem : (role, f) ∈ all := by
    refine hinside ((placed_sublist_census _ role).subset (List.mem_flatMap.2 ⟨(role, f), ?_,
      mem_census_self hrole hspan⟩))
    simp [placed, hrole, valueRole, f]
  have hform : head.form = .arrow ∨ head.form = .expression := by
    simpa [Node.isClosure, Node.closureSpan?] using hclosure
  obtain ⟨target', type', f', heq, hrendered⟩ := h rfl hform hbody habsent
  refine ⟨target', type', f', heq, ?_⟩
  have hgains : gains site all span = gainsAs site (role, f) := gains_of_mem hall hmem
  have habsent' : site.graph.nodeAt? (spanOf (role, f)) = none := habsent
  have hgiven := given_of_renderedIn hrendered
  change Given site (gains site all span) f f'
  rw [hgains, gainsAs, habsent']
  change Given site (decide ((ownMode? site f).getD .memo ≠ .entry)) f f' at hgiven
  dsimp only
  cases hmarked : ownMode? site f with
  | some mode =>
    rw [hmarked] at hgiven
    exact hgiven
  | none =>
    rw [hmarked] at hgiven
    rw [hheld]
    exact hgiven

def argsOf : Node → List Expr
  | .apply _ _ _ _ args => args
  | _ => []

/-- A call is passed context and identity before its own arguments, or it is not. -/
def Passed (site : Site) (passes : Bool) (call call' : Node) : Prop :=
  ∃ args', args'.length = (argsOf call).length ∧
    if passes then ∃ identity offset, Glue.identityArgument site.options.runtime offset = .ok identity ∧
      argsOf call' = Glue.contextArgument site.options.runtime :: identity :: args'
    else argsOf call' = args'

theorem length_argsOf_skeleton (n : Node) : (argsOf n.skeleton).length = (argsOf n).length := by
  cases n
  case apply => simp [argsOf, Node.skeleton, Node.mapChildren]
  case ascribe =>
    simp only [Node.skeleton, Node.mapChildren]
    split <;> rfl
  all_goals rfl

theorem ThreadsArgs.length_eq {W : Walked} {plan : CallPlan} {parent : String} {ordinal index : Nat}
    {args args' : List Expr} (h : ThreadsArgs site W plan parent ordinal index s args args' s') :
    args'.length = args.length := by
  induction h with
  | nil => rfl
  | closure _ _ _ ih => rw [List.length_cons, List.length_cons, ih]
  | value _ _ _ ih => rw [List.length_cons, List.length_cons, ih]

theorem passed_of_step {span : Span} {optional isPure : Bool} {callee : Expr} {types args : List Node}
    {n' : Node} (hthreading : s.threading = true)
    (h : Step site (Walks site) s (.apply span (.call optional isPure) callee types args) n' s') :
    Passed site (resolveCall? site s.scopes s.classes callee args.length).isSome
      (.apply span (.call optional isPure) callee types args) n' := by
  cases h with
  | thread resolves inside callees arguments identifies =>
    rw [resolves]
    exact ⟨_, arguments.length_eq, _, _, identifies, rfl⟩
  | within enters parts =>
    cases enters with
    | passive passive => simp [isPassive] at passive
    | block opens => simp [blockBindings] at opens
    | call plain =>
      obtain plain | hthreads := plain
      · rw [plain]
        refine ⟨argsOf n', ?_, rfl⟩
        rw [← length_argsOf_skeleton, parts.skeleton, length_argsOf_skeleton]
      · simp [hthreads] at hthreading

/-- Nothing but a declaration of the file could make a call threaded. -/
def Untold (site : Site) (callee : Expr) (arity : Nat) : Prop :=
  callee.calleeText?.bind (planOfText? site.options · arity) = none

theorem isSome_ofDeclaration? (d : MemoDeclaration) :
    (CallPlan.ofDeclaration? d).isSome = decide (d.mode ≠ .entry) := by
  unfold CallPlan.ofDeclaration?
  by_cases hmode : d.mode = .entry <;> simp [hmode]

theorem isSome_planOfCallee? {classes : List String} {callee : Expr} {arity : Nat}
    (h : declarationOf? site.graph classes callee = none → Untold site callee arity) :
    (planOfCallee? site classes callee arity).isSome =
      (declarationOf? site.graph classes callee).any (decide <| ·.mode ≠ .entry) := by
  unfold planOfCallee?
  cases hfound : declarationOf? site.graph classes callee with
  | some d => exact isSome_ofDeclaration? d
  | none =>
    rw [h hfound]
    rfl

/-- The markers of a local function and of the declaration that holds it do not disagree. Calls of a
marked entry are threaded although the entry takes its context in plain sight. -/
def Unanimous (site : Site) (p : Role × Func) : Prop :=
  ownMode? site p.2 ≠ some .entry ∧ match p.1 with
    | .free => True
    | .held mode => site.graph.nodeAt? (spanOf p) = none ∨
      mode ≠ .entry ∧ (ownMode? site p.2 = none ∨ ownMode? site p.2 = some mode)
    | _ => False

theorem gainsAs_of_unanimous {p : Role × Func} (h : Unanimous site p)
    (hdeclared : ∀ d, site.graph.nodeAt? (spanOf p) = some d → Declares site p.1 p.2 d) :
    gainsAs site p = isCallable site p := by
  obtain ⟨role, f⟩ := p
  obtain ⟨hentry, hrole⟩ := h
  rw [gainsAs, isCallable]
  cases hfound : site.graph.nodeAt? (spanOf (role, f)) with
  | none =>
    dsimp only
    cases hown : ownMode? site f with
    | none => rfl
    | some mode =>
      have hmode : mode ≠ .entry := fun heq ↦ hentry (hown.trans (congrArg some heq))
      simp [hmode]
  | some d =>
    have hd := hdeclared d hfound
    dsimp only at hrole ⊢
    cases role with
    | foreign => exact hrole.elim
    | argument => exact hrole.elim
    | free =>
      have hown := hd.free rfl
      have hmode : d.mode ≠ .entry := fun heq ↦ hentry (hown.trans (congrArg some heq))
      simp [hown, hmode]
    | held mode =>
      obtain habsent | ⟨hmode, hown⟩ := hrole
      · simp [habsent] at hfound
      · rw [hd.held mode rfl hown]
        simp [hmode, Role.isHeld]

theorem gainsAs_of_not_isCallable {p : Role × Func} (habsent : site.graph.nodeAt? (spanOf p) = none)
    (h : isCallable site p = false) : gainsAs site p = false := by
  rw [isCallable, Bool.or_eq_false_iff, Option.isSome_eq_false_iff, Option.isNone_iff_eq_none] at h
  rw [gainsAs, habsent]
  dsimp only
  rw [h.1]
  exact h.2

theorem isSome_resolveCall?_of_lookup {classes : List String} {place : Span} {arity : Nat} {b : Binding}
    (h : s.scopes.lookup x = some b) :
    (resolveCall? site s.scopes classes (.ref place x) arity).isSome = b.isMemoCallable := by
  unfold resolveCall?
  dsimp only
  rw [h]
  dsimp only
  cases b.isMemoCallable <;> rfl

theorem resolveCall?_of_lookup {classes : List String} {place : Span} {arity : Nat}
    (h : s.scopes.lookup x = none) : resolveCall? site s.scopes classes (.ref place x) arity =
      planOfCallee? site classes (.ref place x) arity := by
  unfold resolveCall?
  dsimp only
  rw [h]

theorem refers_callee (span : Span) (how : Application) (place : Span) (types args : List Node) :
    refers x (.apply span how (.ref place x) types args) = true :=
  refers_of_part List.mem_cons_self (refers_of_referenceName (x := x) rfl)

/-- Calls to a name agree with the function that the name means: with a local function, or with a
function of the file where nothing else declares the name. -/
def NameAgrees (site : Site) (program : List Stmt) (gains : Span → Bool) (x : String) (a : Role × Naming)
    (n n' : Node) : Prop :=
  ∀ span optional isPure place types args,
    n = .apply span (.call optional isPure) (.ref place x) types args → a.1 ≠ .foreign →
    a.2.threads = true →
    (∀ p, a.2.target = some (some p) → Unanimous site p → Passed site (gains (spanOf p)) n n') ∧
      (a.2.target = none → x ≠ "default" → Untold site (.ref place x) args.length →
        ∀ p, holder site x (program.map Collector.declared) = some p →
          Passed site (gains (spanOf p)) n n')

/-- Members of the name are not marked in any of the classes that a class extends. -/
def UnmarkedAbove (site : Site) (classes : List Node) (m : String) (C : Node) : Prop :=
  ∀ D, Relation.TransGen (IsSubclass classes) C D →
    ∀ member ∈ membersNamed m D, (valueRole site .free member).isHeld = false

/-- Calls to members of `this` agree with the function that the class, or the nearest class that it
extends, has under the name: with a marked one, or with an unmarked one if none is marked further up. -/
def MemberAgrees (site : Site) (program : List Stmt) (gains : Span → Bool) (home : Option Node)
    (n n' : Node) : Prop :=
  ∀ span optional isPure place object m chained types args C E member p,
    n = .apply span (.call optional isPure) (.member place (.word object .this) m false chained)
      types args →
    home = some C → C ∈ classesOf program → FindsMember (classesOf program) m [] C E member →
    p ∈ heldMember site member →
    p.1.isHeld = true ∨ ownMode? site p.2 = none ∧ UnmarkedAbove site (classesOf program) m E ∧
      Untold site (.member place (.word object .this) m false chained) args.length →
    Passed site (gains (spanOf p)) n n'

theorem role_of_heldMember {member : Node} {p : Role × Func} (h : p ∈ heldMember site member) :
    p.1 = valueRole site .free member := by
  unfold heldMember at h
  split at h
  · split at h
    · obtain rfl := List.mem_singleton.1 h
      rfl
    · simp at h
  · split at h
    · obtain rfl := List.mem_singleton.1 h
      rfl
    · simp at h
  · simp at h

theorem free_of_heldMember {member : Node} {p : Role × Func} (h : p ∈ heldMember site member)
    (hheld : ¬p.1.isHeld = true) : p.1 = .free := by
  have hmarkers (m : Markers) (hm : ¬(Role.ofMarkers m).isHeld = true) : Role.ofMarkers m = .free := by
    unfold Role.ofMarkers at hm ⊢
    split at hm
    · exact absurd rfl hm
    · rfl
  rw [role_of_heldMember h] at hheld ⊢
  unfold valueRole at hheld ⊢
  split at hheld <;> first | rfl | exact hmarkers _ hheld

theorem mem_census_of_heldMember {member : Node} {p : Role × Func} (h : p ∈ heldMember site member) :
    p ∈ census site member .free := by
  unfold heldMember at h
  split at h
  · next span mods decorators key f =>
    split at h
    · next hdefined =>
      obtain rfl := List.mem_singleton.1 h
      refine (placed_sublist_census _ .free).subset (List.mem_flatMap.2
        ⟨(.ofMarkers (memberMarkers site span decorators), f), by simp [placed, valueRole], ?_⟩)
      cases f
      case func => exact mem_census_self (ofMarkers_ne_foreign _) (isDefined_iff.1 hdefined).1
      all_goals simp [isDefined] at hdefined
    · simp at h
  · next span mods decorators key type fspan head typeParams this params result body =>
    split at h
    · next hdefined =>
      obtain rfl := List.mem_singleton.1 h
      exact (placed_sublist_census _ .free).subset (List.mem_flatMap.2
        ⟨(.ofMarkers (memberMarkers site span decorators),
          .func fspan head typeParams this params result body), by simp [placed, valueRole],
          mem_census_self (ofMarkers_ne_foreign _) (isDefined_iff.1 hdefined.2).1⟩)
    · simp at h
  · simp at h

theorem mem_of_findsMember {classes : List Node} {m : String} {passed : List String} {C E member : Node}
    (h : FindsMember classes m passed C E member) (hC : C ∈ classes) :
    E ∈ classes ∧ member ∈ classMembers E := by
  induction h with
  | @own passed C member fresh named =>
    have hmember : member ∈ membersNamed m C := named ▸ List.mem_singleton.2 rfl
    exact ⟨hC, (List.mem_filter.1 hmember).1⟩
  | inherited fresh absent sub rest ih => exact ih sub.1

theorem unmarked_of_findsMember {classes : List Node} (hclasses : (classes.map classNameOf).Nodup)
    {m : String} {passed : List String} {C E member : Node}
    (h : FindsMember classes m passed C E member)
    (hmember : (valueRole site .free member).isHeld = false) (habove : UnmarkedAbove site classes m E)
    {D : Node} (hD : Relation.ReflTransGen (IsSubclass classes) C D) :
    ∀ other ∈ membersNamed m D, (valueRole site .free other).isHeld = false := by
  induction h with
  | own fresh named =>
    obtain rfl | hD := Relation.reflTransGen_iff_eq_or_transGen.1 hD
    · rw [named]
      simpa using hmember
    · exact habove D hD
  | @inherited passed C D₁ E member fresh absent sub rest ih =>
    obtain rfl | ⟨D', hD', hrest⟩ := Relation.ReflTransGen.cases_head hD
    · simp [absent]
    · have heq : classNameOf D' = classNameOf D₁ := by
        have hparents := hD'.2.symm.trans sub.2
        simpa using hparents
      obtain rfl := List.inj_on_of_nodup_map hclasses hD'.1 sub.1 heq
      exact ih hmember habove hrest

structure Scene where
  /-- Does it lie directly in a memo function, and in no other? -/
  threads : Bool := false
  home : Option Node := none
  /-- Is there no function or block around? -/
  outside : Bool := true

def Scene.part (site : Site) (a : Scene) (n : Node) : Scene where
  threads := a.threads && !isThreshold n
  home := match n with
    | .cls _ _ _ _ _ _ _ _ => some n
    | _ => a.home
  outside := a.outside && !(isFunction n || (blockBindings site n).isSome)

def staging (site : Site) : Inherited (Role × Scene) where
  parts a n n₁ := (placed site a.1 n n₁).map fun p ↦ (p.1, a.2.part site n)
  argument a := (a.1.asArgument, { a.2 with outside := false })
  body a _ f _ := (bodyRole a.1 f, ⟨true, a.2.home, false⟩)
  warrants a mode f := Warranted site mode f a.1

/-- Functions in a variable statement are told apart and have places in the text. -/
def Spaced : Node → Prop
  | .vars span kind declared items => (functionSpans (.vars span kind declared items)).Nodup ∧
      Span.none ∉ functionSpans (.vars span kind declared items)
  | _ => True

theorem everywhere_spaced {n : Node} (h : (functionSpans n).Nodup) (hnone : Span.none ∉ functionSpans n) :
    n.Everywhere Spaced := by
  induction n using Node.induction_on_parts with
  | step n ih =>
    refine Node.everywhere_iff.2 ⟨?_, fun m hm ↦ ih m hm ?_ fun hmem ↦ ?_⟩
    · unfold Spaced
      split
      · exact ⟨h, hnone⟩
      · trivial
    · rw [functionSpans_eq] at h
      exact (List.nodup_flatMap.1 (h.sublist (List.sublist_append_right _ _))).1 m hm
    · exact hnone (mem_functionSpans_of_part hm hmem)

theorem Condition.endures_spaced (names : RuntimeNames) :
    Condition.Endures names (fun _ ↦ True) Spaced where
  statement := ⟨trivial, trivial⟩
  call := trivial
  callee _ := trivial
  closure _ := ⟨trivial, trivial⟩
  block := by simp [Spaced]
  arms _ _ _ := trivial
  chain _ := trivial
  branch _ := trivial
  clause := by simp [Spaced]
  clauses _ _ := trivial
  switch := trivial
  result := ⟨trivial, trivial⟩

theorem wears_spaced : Wears Spaced where
  bare h := by
    unfold isBareNode at h
    split at h <;> trivial
  form _ := trivial
  function _ _ _ := ⟨trivial, trivial⟩
  reference _ := trivial
  declarator _ := trivial

/-- What goes with a role and a place; `all` are the functions of the file. -/
structure Stages (site : Site) (all : List (Role × Func)) (a : Role × Scene) (s : State) (n : Node) :
    Prop where
  meets : Meeting site a.1 s n
  inside : census site n a.1 ⊆ all
  spaced : n.Everywhere Spaced
  threading : a.2.threads = true → s.threading = true
  home : s.classes.head? = a.2.home.map classNameOf
  outside : a.2.outside = true → s.scopes.frames = []

theorem home_of_enters {n n₁ : Node} {leave : State → State} {a : Scene}
    (h : Enters site s n n₁ s₁ leave) (hs : s.classes.head? = a.home.map classNameOf) :
    s₁.classes.head? = (a.part site n).home.map classNameOf := by
  have hnotes {p : Prop} {s₁ : State} (hn : Notes p s s₁) : s₁.classes = s.classes := by
    obtain ⟨-, rfl⟩ | rfl := hn <;> rfl
  have hpart (hn : ∀ span head decorators typeParams parent parentTypes implemented members,
      n ≠ .cls span head decorators typeParams parent parentTypes implemented members) :
      (a.part site n).home = a.home := by
    unfold Scene.part
    dsimp only
    split
    · exact absurd rfl (hn _ _ _ _ _ _ _ _)
    · rfl
  cases h with
  | cls => rfl
  | passive passive =>
    rw [hpart (by rintro _ _ _ _ _ _ _ _ rfl; simp [isPassive] at passive)]
    exact hs
  | @function _ _ _ _ _ _ _ s₁ form plain =>
    have hclasses : s₁.classes = s.classes := by cases plain <;> rfl
    exact (congrArg List.head? hclasses).trans hs
  | method plain notes => exact (congrArg List.head? (hnotes notes)).trans hs
  | memoMethod memo notes =>
    have hclasses := hnotes notes
    refine Eq.trans (congrArg List.head? ?_) hs
    split <;> exact hclasses
  | field annotates notes => exact (congrArg List.head? (hnotes notes)).trans hs
  | param notes => exact (congrArg List.head? (hnotes notes)).trans hs
  | vars redeclares notes awaits binds =>
    refine Eq.trans (congrArg List.head? ?_) hs
    rw [binds, awaits, ← hnotes notes]
    split <;> split <;> rfl
  | block opens =>
    rw [hpart (by rintro _ _ _ _ _ _ _ _ rfl; simp [blockBindings] at opens)]
    exact hs
  | interfaceDecl extended notes => exact (congrArg List.head? (hnotes notes)).trans hs
  | _ => exact hs

theorem bindVars_nil (names : List String) : Scopes.bindVars ⟨[]⟩ names = ⟨[]⟩ := by
  unfold Scopes.bindVars
  induction names with
  | nil => rfl
  | cons name names ih => exact ih

theorem outside_of_enters {n n₁ : Node} {leave : State → State} (h : Enters site s n n₁ s₁ leave)
    (hfunction : isFunction n = false) (hblock : blockBindings site n = none)
    (hs : s.scopes.frames = []) : s₁.scopes.frames = [] := by
  have hnotes {p : Prop} {s₁ : State} (hn : Notes p s s₁) : s₁.scopes.frames = [] := by
    obtain ⟨-, rfl⟩ | rfl := hn <;> exact hs
  cases h with
  | function form plain => simp [isFunction, form] at hfunction
  | method plain notes =>
    have hframes := hnotes notes
    exact hframes
  | memoMethod memo notes =>
    have hframes := hnotes notes
    split <;> exact hframes
  | field annotates notes => exact hnotes notes
  | param notes => exact hnotes notes
  | @vars _ _ _ _ items' s₁ s₂ _ redeclares notes awaits binds =>
    have hscopes : s₂.scopes = ⟨[]⟩ := by
      have hframes := hnotes notes
      rw [awaits]
      split <;> exact congrArg Scopes.mk hframes
    rw [binds]
    split
    · rw [State.bindVars, hscopes, bindVars_nil]
    · rw [hscopes]
  | block opens => simp [opens] at hblock
  | interfaceDecl extended notes => exact hnotes notes
  | _ => exact hs

theorem Stages.keeps {all : List (Role × Func)} {a : Role × Scene} {n : Node}
    (h : Stages site all a s n) (hs : Keeps site s s') : Stages site all a s' n where
  meets := inherits_roles.kept h.meets hs
  inside := h.inside
  spaced := h.spaced
  threading hthreads := hs.threading_eq.trans (h.threading hthreads)
  home := by rw [hs.classes]; exact h.home
  outside houtside := by
    have hscopes := hs.scopes
    unfold Scopes.Grows at hscopes
    rw [h.outside houtside] at hscopes
    exact List.forall₂_nil_left_iff.1 hscopes

theorem Stages.enters (hnames : site.options.runtime.IsTame) {all : List (Role × Func)}
    {a : Role × Scene} {n n₁ : Node} {leave : State → State} (h : Stages site all a s n)
    (henters : Enters site s n n₁ s₁ leave) :
    List.Forall₂ (fun b m ↦ Stages site all b s₁ m) ((staging site).parts a n n₁) n₁.children := by
  refine forall₂_placed fun p hp ↦ ?_
  have hm : p.2 ∈ n₁.children := by
    rw [← map_snd_placed site a.1 n n₁]
    exact List.mem_map_of_mem hp
  refine ⟨⟨h.meets.known.enters henters hp, h.meets.named.enters henters,
    ne_argument_of_mem_placed hp h.meets.walked⟩,
    fun q hq ↦ h.inside (census_subset_of_enters henters hp hq),
    wears_spaced.everywhere_parts hnames (alters_of_enters henters) h.spaced p.2 hm, fun hthreads ↦ ?_,
    home_of_enters henters h.home, fun houtside ↦ ?_⟩
  · obtain ⟨hthreads, hthreshold⟩ := Bool.and_eq_true_iff.1 hthreads
    rw [threading_eq_of_enters henters (by simpa using hthreshold)]
    exact h.threading hthreads
  · obtain ⟨houtside, hopens⟩ := Bool.and_eq_true_iff.1 houtside
    rw [Bool.not_eq_true', Bool.or_eq_false_iff] at hopens
    exact outside_of_enters henters hopens.1 (by simpa using hopens.2) (h.outside houtside)

theorem Stages.call {all : List (Role × Func)} {a : Role × Scene} {n : Node} (h : Stages site all a s n)
    (hn : isCall n = true) :
    List.Forall₂ (fun b m ↦ Stages site all b s m) ((staging site).parts a n n) n.children := by
  refine forall₂_placed fun p hp ↦ ?_
  have hm : p.2 ∈ n.children := by
    rw [← map_snd_placed site a.1 n n]
    exact List.mem_map_of_mem hp
  have hsub : census site p.2 p.1 ⊆ census site n a.1 :=
    ((census_sublist_of_mem hp).trans (placed_sublist_census n a.1)).subset
  have hhome : s.classes.head? = (a.2.part site n).home.map classNameOf := by
    cases n
    case apply => exact h.home
    all_goals simp [isCall] at hn
  exact ⟨⟨h.meets.known.part hp, h.meets.named, ne_argument_of_mem_placed hp h.meets.walked⟩,
    fun q hq ↦ h.inside (hsub hq), h.spaced.part hm,
    fun hthreads ↦ h.threading (Bool.and_eq_true_iff.1 hthreads).1, hhome,
    fun houtside ↦ h.outside (Bool.and_eq_true_iff.1 houtside).1⟩

theorem Stages.names {all : List (Role × Func)} {a : Role × Scene} {n : Node} {x : String}
    (h : Stages site all a s n) (houtside : a.2.outside = true) (hclear : Clear x n) :
    Names site all x (a.1, ⟨a.2.threads, none⟩) s n := by
  refine ⟨h.meets.known, hclear, h.inside, h.threading, fun _ _ ↦ ?_, by simp⟩
  rw [Scopes.lookup, h.outside houtside]
  exact fits_none

theorem ne_call_of_builds {arg : Expr} {plan : CallPlan} {index : Nat}
    (builds : plan.builds site index arg = true) {span : Span} {optional isPure : Bool} {callee : Expr}
    {types args : List Node} : arg ≠ .apply span (.call optional isPure) callee types args := by
  rintro rfl
  simp [CallPlan.builds, Node.isClosure, Node.closureSpan?] at builds

theorem opens_staging (hnames : site.options.runtime.IsTame) {all : List (Role × Func)}
    {a : Role × Scene} {sig : Signature} {span : Span} {head : FuncHead} {typeParams : List Node}
    {this : Option Node} {params params' : List Param} {result : Option Ty} {body : Node}
    (known : Known site s a.1 (.func span head typeParams this params result body))
    (inside : a.1 ≠ .foreign → census site body .free ⊆ all) (spaced : body.Everywhere Spaced)
    (home : s.classes.head? = a.2.home.map classNameOf) :
    Opens site (staging site) (Stages site all) a s sig
      (.func span head typeParams this params result body) params' body where
  bare notMemo m hm :=
    ⟨⟨known.of_bodyPart rfl hm, rfl, bodyRole_ne_argument _ _⟩, census_bodyPart_subset inside hm,
      spaced.part hm, fun _ ↦ rfl, home, by simp [staging]⟩
  wrapped memo inner directives stmts enclosed count hparts hencloses m hm := by
    have hencloses := enclosures_of_encloses hencloses
    exact ⟨⟨known.of_enclosed rfl hparts hencloses hm, rfl, bodyRole_ne_argument _ _⟩,
      census_enclosed_subset inside hparts hencloses hm,
      (Condition.endures_spaced _).everywhere_enclosed hnames spaced hparts hencloses m hm, fun _ ↦ rfl,
      home, by simp [staging]⟩

theorem inherits_staging (hnames : site.options.runtime.IsTame) (all : List (Role × Func)) :
    Inherits site (staging site) (Stages site all) (Keeps site) where
  kept h hs := h.keeps hs
  enters h henters := h.enters hnames henters
  call h hn := h.call hn
  function h _ hsigned _ := by
    have hs := h.keeps (keeps_of_signs hsigned).1
    exact opens_staging hnames hs.meets.known
      (fun hrole p hp ↦ h.inside ((census_body_sublist hrole).subset hp))
      (h.spaced.part (by simp [Node.children])) hs.home
  signed h hsigned := h.meets.known.warranted hsigned
  builder _ := warranted_asArgument site _ _
  argument h _ :=
    opens_staging hnames h.meets.known.asArgument
      (fun hrole p hp ↦ h.inside
        ((census_body_sublist (ne_foreign_of_asArgument hrole)).subset hp))
      (h.spaced.part (by simp [Node.children])) h.home

/-- Functions, variables that hold functions, and calls agree. -/
structure Agrees (site : Site) (program : List Stmt) (gains : Span → Bool) (a : Role × Scene)
    (n n' : Node) : Prop where
  /-- A function is given hidden parameters if its span says so. Of a closure that nothing marks but
  the declaration that holds it the declaration speaks. -/
  function : ∀ {span head typeParams this params result body},
    n = .func span head typeParams this params result body → a.1 ≠ .foreign → a.1 ≠ .argument →
    head.form ≠ .signature → isDefined n = true →
    a.1 = .free ∨ (site.graph.nodeAt? span).isSome = true ∨ (ownMode? site n).isSome = true →
    Given site (gains span) n n'
  closures : ∀ {span kind declared items}, n = .vars span kind declared items → a.1 ≠ .foreign →
    (site.annotations.markers span.start).isMemoLike = true →
    ∃ items', n' = .vars span kind declared items' ∧
      List.Forall₂ (HoldsGiven site gains) items items'
  /-- Calls to members of `this` that lie directly in a memo function, in a file whose classes are told
  apart by their names. -/
  members : a.2.threads = true → ((classesOf program).map classNameOf).Nodup →
    MemberAgrees site program gains a.2.home n n'
  /-- Calls to names that lie directly in a memo function, in whatever does not obscure the name. -/
  names : a.1 ≠ .foreign → a.2.outside = true → ∀ x, ¬site.options.runtime.encloses x → Clear x n →
    Throughout site (naming site x) (NameAgrees site program gains x) (a.1, ⟨a.2.threads, none⟩) n n'

section

variable {source : String} {o : Options} {parsed : Parsed}

theorem nodup_censusAll (apart : ToldApart parsed.program.body) :
    ((censusAll (siteOf source o parsed) parsed.program.body).map spanOf).Nodup :=
  (List.nodup_append.1 (List.nodup_cons.1 apart).2).1.sublist (censusAll_spans_sublist _)

theorem declares_of_mem_censusAll (apart : ToldApart parsed.program.body) {p : Role × Func}
    (hp : p ∈ censusAll (siteOf source o parsed) parsed.program.body) {d : MemoDeclaration}
    (hd : (siteOf source o parsed).graph.nodeAt? (spanOf p) = some d) :
    Declares (siteOf source o parsed) p.1 p.2 d := by
  obtain ⟨stmt, hstmt, hp⟩ := List.mem_flatMap.1 hp
  exact (known_of_toldApart source o parsed apart hstmt).declared p hp d hd

theorem census_declared_subset {site : Site} (stmt : Stmt) :
    census site (Collector.declared stmt) .free ⊆ census site stmt .free := by
  unfold Collector.declared
  split
  · rw [census_of_children (n := .exportDecl _ _) rfl rfl]
    exact List.subset_append_left _ _
  · rw [census_of_children (n := .exportDefault _ _) rfl rfl]
    exact List.subset_append_left _ _
  · exact List.Subset.refl _

theorem mem_censusAll_of_holder {site : Site} {stmts : List Stmt} {p : Role × Func}
    (h : holder site x (stmts.map Collector.declared) = some p) : p ∈ censusAll site stmts := by
  obtain ⟨n, hn, hp⟩ := List.mem_flatMap.1 (mem_census_of_holder h)
  obtain ⟨stmt, hstmt, rfl⟩ := List.mem_map.1 hn
  exact List.mem_flatMap.2 ⟨stmt, hstmt, census_declared_subset stmt hp⟩

theorem mem_censusAll_of_heldMember {site : Site} {stmts : List Stmt} {E member : Node} {p : Role × Func}
    (hE : E ∈ classesOf stmts) (hmember : member ∈ classMembers E) (hp : p ∈ heldMember site member) :
    p ∈ censusAll site stmts := by
  obtain ⟨⟨stmt, hstmt, hdeclared⟩, span, head, decorators, typeParams, parent, parentTypes,
    implemented, members, rfl⟩ := mem_classesOf_iff.1 hE
  refine List.mem_flatMap.2 ⟨stmt, hstmt, census_declared_subset stmt ?_⟩
  rw [hdeclared, census_of_children rfl rfl]
  exact List.mem_flatMap.2 ⟨member, List.mem_append_right _ hmember, mem_census_of_heldMember hp⟩

theorem exists_declares_of_held (apart : ToldApart parsed.program.body)
    (hclasses : ((classesOf parsed.program.body).map classNameOf).Nodup) {m : String} {C E member : Node}
    {p : Role × Func} (hfinds : FindsMember (classesOf parsed.program.body) m [] C E member)
    (hC : C ∈ classesOf parsed.program.body) (hp : p ∈ heldMember (siteOf source o parsed) member)
    (hheld : p.1.isHeld = true) :
    ∃ d, (siteOf source o parsed).graph.nodeAt? (spanOf p) = some d ∧
      Declares (siteOf source o parsed) p.1 p.2 d ∧
      (siteOf source o parsed).graph.inheritedFrom? m [] (classNameOf C) = some d := by
  obtain ⟨hE, hmember⟩ := mem_of_findsMember hfinds hC
  obtain ⟨d, hd, hspan, hfound⟩ := inheritedFrom?_of_held hclasses hfinds hC hp hheld
  have hat : (siteOf source o parsed).graph.nodeAt? (spanOf p) = some d := hspan ▸ nodeAt?_of_mem apart hd
  exact ⟨d, hat, declares_of_mem_censusAll apart (mem_censusAll_of_heldMember hE hmember hp) hat, hfound⟩

theorem Stages.declarationOf?_this {site : Site} {all : List (Role × Func)} {a : Role × Scene} {n C : Node}
    (h : Stages site all a s n) (hhome : a.2.home = some C) (place object : Span) (m : String)
    (chained : Bool) :
    declarationOf? site.graph s.classes (.member place (.word object .this) m false chained) =
      site.graph.inheritedFrom? m [] (classNameOf C) := by
  have hclass : s.classes.head? = some (classNameOf C) := by
    rw [h.home, hhome]
    rfl
  rw [declarationOf?, hclass]
  rfl

theorem nameAgrees_of_step (apart : ToldApart parsed.program.body) {a : Role × Naming} {n n' : Node}
    (h : Names (siteOf source o parsed) (censusAll (siteOf source o parsed) parsed.program.body) x a s n)
    (hstep : Step (siteOf source o parsed) (Walks (siteOf source o parsed)) s n n' s') :
    NameAgrees (siteOf source o parsed) parsed.program.body
      (gains (siteOf source o parsed) (censusAll (siteOf source o parsed) parsed.program.body)) x a n n' := by
  let site := siteOf source o parsed
  rintro span optional isPure place types args rfl hrole hthreads
  have hpassed := passed_of_step (h.threading hthreads) hstep
  have hfits := h.fits hrole (refers_callee ..)
  refine ⟨fun p hp hunanimous ↦ ?_, fun htarget hx huntold p hp ↦ ?_⟩
  · have hmem := h.meant hrole p hp
    have hcallable := hfits.callable p hp
    obtain ⟨b, hb, hb'⟩ := Option.map_eq_some_iff.1 hcallable
    have hresolves : (resolveCall? site s.scopes s.classes (.ref place x) args.length).isSome =
        isCallable site p := (isSome_resolveCall?_of_lookup hb).trans hb'
    rw [gains_of_mem (nodup_censusAll apart) hmem, gainsAs_of_unanimous hunanimous fun d hd ↦
      declares_of_mem_censusAll apart hmem hd, ← hresolves]
    exact hpassed
  · have hmem := mem_censusAll_of_holder hp
    obtain ⟨hfunction, huncallable⟩ := function?_of_holder apart hx hp
    have hlookup : s.scopes.lookup x = none := (htarget ▸ hfits).eq_none
    have hresolves : (resolveCall? site s.scopes s.classes (.ref place x) args.length).isSome =
        gainsAs site p := by
      rw [resolveCall?_of_lookup hlookup, isSome_planOfCallee? fun _ ↦ huntold, declarationOf?, hfunction]
      cases hfound : site.graph.nodeAt? (spanOf p) with
      | some d =>
        rw [gainsAs, hfound]
        rfl
      | none =>
        have hgains := gainsAs_of_not_isCallable hfound (huncallable hfound)
        rw [hgains]
        rfl
    rw [gains_of_mem (nodup_censusAll apart) hmem, ← hresolves]
    exact hpassed

theorem memberAgrees_of_step (apart : ToldApart parsed.program.body)
    (hclasses : ((classesOf parsed.program.body).map classNameOf).Nodup) {a : Role × Scene} {n n' : Node}
    (h : Stages (siteOf source o parsed) (censusAll (siteOf source o parsed) parsed.program.body) a s n)
    (hthreads : a.2.threads = true)
    (hstep : Step (siteOf source o parsed) (Walks (siteOf source o parsed)) s n n' s') :
    MemberAgrees (siteOf source o parsed) parsed.program.body
      (gains (siteOf source o parsed) (censusAll (siteOf source o parsed) parsed.program.body))
      a.2.home n n' := by
  let site := siteOf source o parsed
  rintro span optional isPure place object m chained types args C E member p rfl hhome hC hfinds hp hdecided
  have hpassed := passed_of_step (h.threading hthreads) hstep
  obtain ⟨hE, hmember⟩ := mem_of_findsMember hfinds hC
  have hmem := mem_censusAll_of_heldMember hE hmember hp
  have hdeclaration := h.declarationOf?_this hhome place object m chained
  have hresolves : (resolveCall? site s.scopes s.classes (.member place (.word object .this) m false chained)
      args.length).isSome = gainsAs site p := by
    change (planOfCallee? site s.classes (.member place (.word object .this) m false chained)
      args.length).isSome = _
    by_cases hheld : p.1.isHeld = true
    · obtain ⟨d, hat, -, hfound⟩ := exists_declares_of_held apart hclasses hfinds hC hp hheld
      rw [isSome_planOfCallee? fun hnone ↦ by simp [hdeclaration, site, hfound] at hnone, hdeclaration,
        hfound, gainsAs, hat]
      rfl
    · obtain ⟨hown, habove, huntold⟩ := hdecided.resolve_left hheld
      have hunheld : (valueRole site .free member).isHeld = false := by
        rw [← role_of_heldMember hp]
        exact Bool.eq_false_iff.2 hheld
      have hnone : site.graph.inheritedFrom? m [] (classNameOf C) = none := by
        refine inheritedFrom?_eq_none fun C' hC' hname D hD ↦ ?_
        obtain rfl := List.inj_on_of_nodup_map hclasses hC' hC hname
        exact unmarked_of_findsMember hclasses hfinds hunheld habove hD
      have habsent : site.graph.nodeAt? (spanOf p) = none := by
        rw [Option.eq_none_iff_forall_not_mem]
        intro d hd
        have hfree := (declares_of_mem_censusAll apart hmem hd).free (free_of_heldMember hp hheld)
        simp [hown] at hfree
      have hgains : gainsAs site p = false := by
        refine gainsAs_of_not_isCallable habsent ?_
        rw [isCallable, Bool.eq_false_iff.2 hheld, Bool.or_false, Option.isSome_eq_false_iff,
          Option.isNone_iff_eq_none]
        exact hown
      rw [isSome_planOfCallee? fun _ ↦ huntold, hdeclaration, hnone, hgains]
      rfl
  rw [gains_of_mem (nodup_censusAll apart) hmem, ← hresolves]
  exact hpassed

theorem agrees_of_step (apart : ToldApart parsed.program.body) (tame : o.runtime.IsTame)
    {a : Role × Scene} {n n' : Node}
    (h : Stages (siteOf source o parsed) (censusAll (siteOf source o parsed) parsed.program.body) a s n)
    (hstep : Step (siteOf source o parsed) (Walks (siteOf source o parsed)) s n n' s') :
    Agrees (siteOf source o parsed) parsed.program.body
      (gains (siteOf source o parsed) (censusAll (siteOf source o parsed) parsed.program.body)) a n n' := by
  let site := siteOf source o parsed
  have hnone : site.graph.nodeAt? .none = none := nodeAt?_none_of_toldApart source o parsed apart
  let all := censusAll site parsed.program.body
  have hall : (all.map spanOf).Nodup := nodup_censusAll apart
  refine ⟨?_, ?_, fun hthreads hclasses ↦ memberAgrees_of_step apart hclasses h hthreads hstep, ?_⟩
  · rintro span head typeParams this params result body rfl hrole - hform hdefined hdecided
    let f := Node.func span head typeParams this params result body
    have hgains : gains site all span = gainsAs site (a.1, f) :=
      gains_of_mem hall (h.inside (mem_census_self hrole (isDefined_iff.1 hdefined).1))
    change Given site (gains site all span) f n'
    rw [hgains]
    exact given_of_step hnone h.meets hrole hform hdefined hdecided hstep
  · rintro span kind declared items rfl hrole hmarked
    obtain ⟨hspans, habsent⟩ := h.spaced.self
    obtain ⟨items', rfl, hwoven⟩ := holdsWoven_of_step tame h.meets.named hspans habsent hmarked hstep
    refine ⟨items', rfl, ((List.forall₂_and_left _ _).2 ⟨fun _ hitem ↦ hitem, hwoven⟩).imp
      fun item item' hitem ↦ ?_⟩
    let role := Role.ofMarkers (site.annotations.markers span.start)
    have hheld : role.isHeld = true := by rw [isHeld_ofMarkers]; exact hmarked
    refine holdsGiven_of_woven hall hheld (fun p hp ↦ h.inside ?_) hitem.2
    refine (placed_sublist_census _ a.1).subset (List.mem_flatMap.2 ⟨(role, item), ?_, hp⟩)
    simp only [placed, hrole, if_false, valueRole]
    exact List.mem_map_of_mem hitem.1
  · intro hrole houtside x hx hclear
    refine throughout_of_step (lasts_keepsFor tame Names.clear) (inherits_naming tame hx hnone _)
      (nameAgrees_of_step apart) ?_ hstep (h.names houtside hclear)
    intro b t arg arg' t' name index plan _ builds _ span optional isPure place types args heq
    exact absurd heq (ne_call_of_builds builds)

end

theorem stages_initial {source : String} {o : Options} {parsed : Parsed}
    (apart : ToldApart parsed.program.body) {stmt : Stmt} (hstmt : stmt ∈ parsed.program.body) :
    Stages (siteOf source o parsed) (censusAll (siteOf source o parsed) parsed.program.body) (.free, {})
      (initial o.filePath) stmt := by
  obtain ⟨hnone, hnodup⟩ := List.nodup_cons.1 apart
  refine ⟨⟨known_of_toldApart source o parsed apart hstmt, rfl, by simp⟩,
    (censusAll_sublist_of_mem hstmt).subset, everywhere_spaced ?_ fun hmem ↦ ?_, by simp, rfl, fun _ ↦ rfl⟩
  · exact (List.nodup_flatMap.1 (List.nodup_append.1 hnodup).1).1 stmt hstmt
  · exact hnone (List.mem_append_left _ (List.mem_flatMap.2 ⟨stmt, hstmt, hmem⟩))

/-- Callers and callees agree. It can be said of every function of a file, by its span, whether it is
given the hidden parameters, so that every function that the walk reaches is given them or not as it is
said; and so that every call directly in a memo function that is known to be a call of a function of the
file, by a name which scoping binds to it or as a member of `this`, is passed context and identity or
not as it is said of that function. Conditions are enclosed before the body of a function is walked,
which keeps what the references in it mean. -/
theorem walkAll_agrees {source : String} {jsx : Bool} {o : Options} {parsed : Parsed} {depth : Nat}
    {stmts' : List Stmt} (hparsed : parse? source jsx = some parsed) (tame : o.runtime.IsTame)
    (h : walkAll (siteOf source o parsed) depth parsed.program.body = some (stmts', s))
    (hclean : walkErrors o.filePath s = []) :
    (∃ gains : Span → Bool, List.Forall₂ (Throughout (siteOf source o parsed)
        (staging (siteOf source o parsed))
        (Agrees (siteOf source o parsed) parsed.program.body gains) (.free, {}))
      parsed.program.body stmts') ∧
      (o.runtime = {} → ∀ {x stmts enclosed}, ¬o.runtime.encloses x →
        Condition.Enclosures {} stmts enclosed →
        (∀ clauses ∈ Condition.switches stmts, Condition.switchHazards clauses = [] →
          Condition.CasesApart x clauses) →
        ∀ outer, resolutionsAll x enclosed outer = resolutionsAll x stmts outer) ∧
      (o.runtime.IsPlain → ∃ p q, Glue.hiddenParameters o.runtime = .ok [p, q] ∧
        IsTypedParam o.runtime.context p ∧ IsTypedParam o.runtime.id q) := by
  let site := siteOf source o parsed
  have apart := toldApart_of_parse? hparsed
  refine ⟨⟨gains site (censusAll site parsed.program.body), ?_⟩,
    fun hnames _ _ _ free ↦ resolutionsAll_enclosures (hnames ▸ free), Glue.hiddenParameters_eq_ok⟩
  refine throughout_of_walkAll lasts_keeps (inherits_staging tame (censusAll site parsed.program.body))
    (agrees_of_step apart tame) ?_ h hclean fun stmt hstmt ↦ stages_initial apart hstmt
  intro a s arg arg' s' name index plan _ builds _
  refine ⟨?_, ?_, fun _ _ ↦ ?_, by simp [staging]⟩
  · rintro span head typeParams this params result body rfl hrole hargument
    simp only [staging, Role.asArgument] at hrole hargument
    split at hargument <;> simp_all
  · rintro span kind declared items rfl
    simp [CallPlan.builds, Node.isClosure, Node.closureSpan?] at builds
  · intro span optional isPure place object m chained types args C E member p heq
    exact absurd heq (ne_call_of_builds builds)

/-- A class with two intrinsic methods, and one that overrides one of them with an ordinary method and
has a memo method that calls both. -/
def heirSource : String :=
  "class A \x7b\n  /** @memo_intrinsic */\n  m() \x7b\x7d\n  /** @memo_intrinsic */\n  n() \x7b\x7d\n\x7d\n"
    ++ "class B extends A \x7b\n  m() \x7b\x7d\n  /** @memo */\n  f() \x7b this.n(); this.m(); \x7d\n\x7d\n"

def methodSizes (n : Node) : List (Option String × Nat) :=
  n.gather (fun (_ : Unit) n ↦ (some (), match n with
    | .method _ _ _ _ key f => [(key.keyText?, (paramsOf f).length)]
    | _ => [])) ()

def memberCallSizes (n : Node) : List (String × Nat) :=
  n.gather (fun (_ : Unit) n ↦ (some (), match n with
    | .apply _ (.call _ _) (.member _ _ name _ _) _ args => [(name, args.length)]
    | _ => [])) ()

set_option maxRecDepth 100000 in
theorem wovenView_heirSource : wovenView heirSource shortOptions 20 (fun parsed stmts' _ ↦
    ((classesOf parsed.program.body).map fun C ↦ (membersNamed "m" C).length,
      stmts'.flatMap methodSizes, (stmts'.flatMap memberCallSizes).filter (·.1 ∈ ["m", "n"]))) =
    some ([1, 1], [(some "m", 2), (some "n", 2), (some "m", 0), (some "f", 2)],
      [("n", 2), ("m", 2)]) := by
  decide +kernel

theorem walkAll_agrees_heirSource : shortNames.IsTame ∧ ∃ parsed stmts' s,
    parse? heirSource false = some parsed ∧
      walkAll (siteOf heirSource shortOptions parsed) 20 parsed.program.body = some (stmts', s) ∧
      walkErrors "input.ts" s = [] ∧
      stmts'.flatMap methodSizes = [(some "m", 2), (some "n", 2), (some "m", 0), (some "f", 2)] ∧
      ∃ gains : Span → Bool, List.Forall₂ (Throughout (siteOf heirSource shortOptions parsed)
        (staging (siteOf heirSource shortOptions parsed))
        (Agrees (siteOf heirSource shortOptions parsed) parsed.program.body gains) (.free, {}))
        parsed.program.body stmts' := by
  obtain ⟨parsed, stmts', s, hparsed, h, hclean, hview⟩ := exists_of_wovenView wovenView_heirSource
  obtain ⟨-, hwoven⟩ := Prod.mk.inj hview
  exact ⟨isTame_shortNames, parsed, stmts', s, hparsed, h, hclean, (Prod.mk.inj hwoven).1,
    (walkAll_agrees hparsed isTame_shortNames h hclean).1⟩

/-- A call to an ordinary method that overrides a memo method is passed context and identity. -/
theorem walkAll_passes_to_override : ∃ parsed stmts' s, parse? heirSource false = some parsed ∧
    walkAll (siteOf heirSource shortOptions parsed) 20 parsed.program.body = some (stmts', s) ∧
      walkErrors "input.ts" s = [] ∧
      (∀ C ∈ classesOf parsed.program.body, ∃ member,
        FindsMember (classesOf parsed.program.body) "m" [] C C member) ∧
      stmts'.flatMap methodSizes = [(some "m", 2), (some "n", 2), (some "m", 0), (some "f", 2)] ∧
      (stmts'.flatMap memberCallSizes).filter (·.1 ∈ ["m", "n"]) = [("n", 2), ("m", 2)] := by
  obtain ⟨parsed, stmts', s, hparsed, h, hclean, hview⟩ := exists_of_wovenView wovenView_heirSource
  obtain ⟨hmembers, hwoven⟩ := Prod.mk.inj hview
  refine ⟨parsed, stmts', s, hparsed, h, hclean, fun C hC ↦ ?_, Prod.mk.inj hwoven⟩
  have hlength : (membersNamed "m" C).length ∈ [1, 1] :=
    hmembers ▸ List.mem_map_of_mem (f := fun C ↦ (membersNamed "m" C).length) hC
  obtain ⟨member, hmember⟩ := List.length_eq_one_iff.1 (by simpa using hlength)
  exact ⟨member, .own (by simp) hmember⟩

end Recompose.Weave
