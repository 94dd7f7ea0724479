import Recompose.Proofs.Agreement
import Recompose.Proofs.Arity

namespace Recompose.Weave

open Script Scoping

variable {site : Site} {s s₁ s' : State} {x : String}

/-- Is a parameter memo-typed, by a comment before it or by a decorator? A rest parameter is not. -/
def isMemoTyped (a : Annotations) (functionStart : Option Nat) : Param → Bool
  | .param span _ false decorators _ _ _ =>
    ((ParameterTable.commentMarkers a functionStart span.start).merge
      (Markers.ofDecorators decorators)).memo
  | _ => false

def memoTypedAt (site : Site) (i : Nat) : Func → Bool
  | .func span head _ _ params _ _ => (params.filter isParam)[i]?.any
      (isMemoTyped site.annotations (if head.form = .arrow then some span.start else none))
  | _ => false

theorem mem_indices_iff (a : Annotations) (start : Option Nat) (index slot i : Nat)
    (params : List Param) :
    i ∈ ((ParameterTable.bindingsFrom a start index slot params).filter (·.memoTyped)).map (·.index) ↔
      index ≤ i ∧ (params.filter isParam)[i - index]?.any (isMemoTyped a start) = true := by
  induction params generalizing index slot with
  | nil => simp [ParameterTable.bindingsFrom]
  | cons param params ih =>
    -- the parameter at the position itself, and those behind it
    have hcons {b : ParameterBinding} {slot' : Nat} {param : Param} (hindex : b.index = index)
        (hparam : isParam param = true) (htyped : isMemoTyped a start param = b.memoTyped) :
        i ∈ ((b :: ParameterTable.bindingsFrom a start (index + 1) slot' params).filter
            (·.memoTyped)).map (·.index) ↔
          index ≤ i ∧ ((param :: params).filter isParam)[i - index]?.any (isMemoTyped a start) = true := by
      have htail := ih (index + 1) slot'
      rw [List.filter_cons_of_pos hparam]
      obtain hlt | rfl | hgt := Nat.lt_trichotomy i index
      · cases hb : b.memoTyped <;> grind
      · cases hb : b.memoTyped <;> grind
      · obtain ⟨k, rfl⟩ := Nat.exists_eq_add_of_lt hgt
        have hk : index + k + 1 - index = k + 1 := by omega
        have hk' : index + k + 1 - (index + 1) = k := by omega
        rw [hk, List.getElem?_cons_succ]
        rw [hk'] at htail
        cases hb : b.memoTyped <;> grind
    cases param
    case param span mods rest decorators target type init =>
      cases rest
      all_goals exact hcons rfl rfl rfl
    all_goals exact ih index slot

theorem mem_memoIndices_iff (i : Nat) (f : Func) :
    i ∈ (tableOf site f).memoIndices ↔ memoTypedAt site i f = true := by
  cases f
  case func => exact (mem_indices_iff _ _ 0 0 i _).trans (by simp [memoTypedAt])
  all_goals simp [tableOf, memoTypedAt, ParameterTable.memoIndices]

/-- Of the closures among the arguments of a call those that are chosen, by position, become memo
functions: each is given the hidden parameters and a cache scope. -/
def Hands (site : Site) (chosen : Nat → Expr → Prop) (call call' : Node) : Prop :=
  ∀ i arg, (argsOf call)[i]? = some arg → arg.isClosure = true → isDefined arg = true → chosen i arg →
    ∃ arg', (argsOf call')[i + 2]? = some arg' ∧ RenderedIn site .memo arg arg'

theorem Hands.mono {chosen chosen' : Nat → Expr → Prop} {call call' : Node}
    (h : Hands site chosen call call') (hle : ∀ i arg, chosen' i arg → chosen i arg) :
    Hands site chosen' call call' :=
  fun i arg harg hclosure hdefined hchosen ↦ h i arg harg hclosure hdefined (hle i arg hchosen)

theorem renderedIn_of_threadsArgs {W : Walked} {plan : CallPlan} {parent : String} {ordinal index : Nat}
    {args args' : List Expr} (h : ThreadsArgs site W plan parent ordinal index s args args' s') {i : Nat}
    {arg : Expr} (harg : args[i]? = some arg) (hbuilds : plan.builds site (index + i) arg = true)
    (hdefined : isDefined arg = true) :
    ∃ arg', args'[i]? = some arg' ∧ RenderedIn site .memo arg arg' := by
  induction h generalizing i with
  | nil => simp at harg
  | closure builds memoises tail ih =>
    cases i with
    | zero =>
      obtain rfl : _ = arg := by simpa using harg
      obtain ⟨span, head, typeParams, this, params, result, body, rfl, -⟩ :=
        exists_of_isClosure (Bool.and_eq_true_iff.1 builds).1
      exact ⟨_, rfl, renderedIn_of_memoises (isDefined_iff.1 hdefined).2 rfl memoises⟩
    | succ i => exact ih harg (by rwa [Nat.add_right_comm, Nat.add_assoc])
  | value builds head tail ih =>
    cases i with
    | zero =>
      obtain rfl : _ = arg := by simpa using harg
      rw [Nat.add_zero, builds] at hbuilds
      simp at hbuilds
    | succ i => exact ih harg (by rwa [Nat.add_right_comm, Nat.add_assoc])

theorem hands_of_step {span : Span} {optional isPure : Bool} {callee : Expr} {types args : List Node}
    {n' : Node} {plan : CallPlan} (hthreading : s.threading = true)
    (hresolves : resolveCall? site s.scopes s.classes callee args.length = some plan)
    (h : Step site (Walks site) s (.apply span (.call optional isPure) callee types args) n' s') :
    Hands site (fun i arg ↦ i ∈ plan.closures ∨ isMarkedClosure site arg = true)
      (.apply span (.call optional isPure) callee types args) n' := by
  intro i arg harg hclosure hdefined hchosen
  cases h with
  | thread resolves inside callees arguments identifies =>
    have hplan := Option.some.inj (hresolves.symm.trans resolves)
    subst hplan
    have hbuilds : plan.builds site (0 + i) arg = true := by
      rw [Nat.zero_add, CallPlan.builds, hclosure, Bool.true_and, Bool.or_eq_true_iff,
        List.contains_iff_mem]
      exact hchosen
    exact renderedIn_of_threadsArgs arguments harg hbuilds hdefined
  | within enters parts =>
    cases enters with
    | passive passive => simp [isPassive] at passive
    | block opens => simp [blockBindings] at opens
    | call plain => simp [hresolves, hthreading] at plain

/-- Of the closures that are passed to a function of the file those become memo functions that stand at
the position of a memo-typed parameter or are marked. -/
def HandsTo (site : Site) (f : Func) (call call' : Node) : Prop :=
  Hands site (fun i arg ↦ memoTypedAt site i f = true ∨ isMarkedClosure site arg = true) call call'

/-- Calls to a name hand on closures: to a function of the file where nothing else declares the name,
and, if they are marked, to a local function. -/
def NameHands (site : Site) (program : List Stmt) (x : String) (a : Role × Naming) (n n' : Node) : Prop :=
  ∀ span optional isPure place types args,
    n = .apply span (.call optional isPure) (.ref place x) types args → a.1 ≠ .foreign →
    a.2.threads = true →
    (a.2.target = none → x ≠ "default" → ∀ p, holder site x (program.map Collector.declared) = some p →
      gainsAs site p = true → HandsTo site p.2 n n') ∧
      ∀ p, a.2.target = some (some p) → isCallable site p = true →
        Hands site (fun _ arg ↦ isMarkedClosure site arg = true) n n'

/-- Calls to marked members of `this` hand on closures to the function that the class, or the nearest
class that it extends, has under the name. -/
def MemberHands (site : Site) (program : List Stmt) (home : Option Node) (n n' : Node) : Prop :=
  ∀ span optional isPure place object m chained types args C E member p,
    n = .apply span (.call optional isPure) (.member place (.word object .this) m false chained)
      types args →
    home = some C → C ∈ classesOf program → FindsMember (classesOf program) m [] C E member →
    p ∈ heldMember site member → p.1.isHeld = true → gainsAs site p = true → HandsTo site p.2 n n'

theorem ofDeclaration?_of_gainsAs {p : Role × Func} {d : MemoDeclaration}
    (hfound : site.graph.nodeAt? (spanOf p) = some d) (hparams : d.parameters = tableOf site p.2)
    (hgains : gainsAs site p = true) :
    CallPlan.ofDeclaration? d = some ⟨(tableOf site p.2).memoIndices, true⟩ := by
  rw [gainsAs, hfound] at hgains
  rw [CallPlan.ofDeclaration?, if_neg (by simpa using hgains), hparams]

theorem handsTo_of_step {f : Func} {span : Span} {optional isPure : Bool} {callee : Expr}
    {types args : List Node} {n' : Node} (hthreading : s.threading = true)
    (hresolves : resolveCall? site s.scopes s.classes callee args.length =
      some ⟨(tableOf site f).memoIndices, true⟩)
    (h : Step site (Walks site) s (.apply span (.call optional isPure) callee types args) n' s') :
    HandsTo site f (.apply span (.call optional isPure) callee types args) n' :=
  (hands_of_step hthreading hresolves h).mono fun i _ hchosen ↦
    hchosen.imp_left (mem_memoIndices_iff i f).2

section

variable {source : String} {o : Options} {parsed : Parsed}

theorem nameHands_of_step (apart : ToldApart parsed.program.body) {a : Role × Naming} {n n' : Node}
    (h : Names (siteOf source o parsed) (censusAll (siteOf source o parsed) parsed.program.body) x a s n)
    (hstep : Step (siteOf source o parsed) (Walks (siteOf source o parsed)) s n n' s') :
    NameHands (siteOf source o parsed) parsed.program.body x a n n' := by
  let site := siteOf source o parsed
  rintro span optional isPure place types args rfl hrole hthreads
  have hfits := h.fits hrole (refers_callee ..)
  refine ⟨fun htarget hx p hp hgains ↦ ?_, fun p hp hcallable ↦ ?_⟩
  · obtain ⟨hfunction, huncallable⟩ := function?_of_holder apart hx hp
    have hlookup : s.scopes.lookup x = none := (htarget ▸ hfits).eq_none
    refine handsTo_of_step (h.threading hthreads) ?_ hstep
    rw [resolveCall?_of_lookup hlookup, planOfCallee?, declarationOf?, hfunction]
    cases hfound : site.graph.nodeAt? (spanOf p) with
    | some d =>
      have hdeclares := declares_of_mem_censusAll apart (mem_censusAll_of_holder hp) hfound
      exact ofDeclaration?_of_gainsAs hfound hdeclares.parameters hgains
    | none =>
      have hnot := gainsAs_of_not_isCallable hfound (huncallable hfound)
      exact absurd (hgains.symm.trans hnot) (by simp)
  · obtain ⟨b, hb, hb'⟩ := Option.map_eq_some_iff.1 (hfits.callable p hp)
    have hresolves : resolveCall? site s.scopes s.classes (.ref place x) args.length = some ⟨[], true⟩ := by
      unfold resolveCall?
      dsimp only
      rw [hb]
      exact if_pos (hb'.trans hcallable)
    exact (hands_of_step (h.threading hthreads) hresolves hstep).mono fun _ _ hmarked ↦ .inr hmarked

theorem memberHands_of_step (apart : ToldApart parsed.program.body)
    (hclasses : ((classesOf parsed.program.body).map classNameOf).Nodup) {a : Role × Scene} {n n' : Node}
    (h : Stages (siteOf source o parsed) (censusAll (siteOf source o parsed) parsed.program.body) a s n)
    (hthreads : a.2.threads = true)
    (hstep : Step (siteOf source o parsed) (Walks (siteOf source o parsed)) s n n' s') :
    MemberHands (siteOf source o parsed) parsed.program.body a.2.home n n' := by
  let site := siteOf source o parsed
  rintro span optional isPure place object m chained types args C E member p rfl hhome hC hfinds hp hheld
    hgains
  obtain ⟨d, hat, hdeclares, hfound⟩ := exists_declares_of_held apart hclasses hfinds hC hp hheld
  refine handsTo_of_step (h.threading hthreads) ?_ hstep
  change planOfCallee? site s.classes (.member place (.word object .this) m false chained) args.length = _
  rw [planOfCallee?, h.declarationOf?_this hhome, hfound]
  exact ofDeclaration?_of_gainsAs hat hdeclares.parameters hgains

end

/-- Is the parameter that a name means memo-typed? The last one of the name counts. -/
def carries (site : Site) (x : String) : Func → Bool
  | .func span head typeParams this params result body =>
    !(params.flatMap patternNames).contains x &&
      ((tableOf site (.func span head typeParams this params result body)).bindings.reverse.find?
        (·.name = some x)).any (·.memoTyped)
  | _ => false

/-- What is said of calls through a parameter at a place. -/
structure Channel where
  threads : Bool := false
  /-- Does the name mean a memo-typed parameter of a memo function? -/
  carried : Bool := false

def carriedInside (site : Site) (x : String) (outer : Bool) (f : Func) : Bool :=
  (bodyScope x f).isEmpty && if (headScope x f).isEmpty then outer else carries site x f

def channelling (site : Site) (x : String) : Inherited (Role × Channel) where
  parts a n n₁ :=
    List.zipWith (fun p inner ↦ (p.1, ⟨a.2.threads && !isThreshold n, inner.isEmpty && a.2.carried⟩))
      (placed site a.1 n n₁) (values x n₁)
  argument a := (a.1.asArgument, a.2)
  body a _ f _ := (bodyRole a.1 f, ⟨true, carriedInside site x a.2.carried f⟩)
  warrants a mode f := Warranted site mode f a.1

def Scopes.Carries (scopes : Scopes) (x : String) : Prop :=
  ∃ watched, scopes.lookup x = some (.parameter true watched)

/-- What goes with a role and with what calls through a parameter mean. -/
structure Channels (site : Site) (x : String) (a : Role × Channel) (s : State) (n : Node) : Prop where
  known : Known site s a.1 n
  clear : Clear x n
  threading : a.2.threads = true → s.threading = true
  carried : a.1 ≠ .foreign → refers x n = true → a.2.carried = true → Scopes.Carries s.scopes x

theorem Channels.keeps {a : Role × Channel} {n : Node} (h : Channels site x a s n)
    (hs : KeepsFor site x s s') : Channels site x a s' n where
  known := h.known.keeps hs.keeps
  clear := h.clear
  threading hthreads := hs.keeps.threading_eq.trans (h.threading hthreads)
  carried hrole hrefers hcarried := by
    unfold Scopes.Carries
    rw [hs.sameFor.lookup_eq]
    exact h.carried hrole hrefers hcarried

theorem lookup_of_enters {n n₁ : Node} {leave : State → State} (h : Enters site s n n₁ s₁ leave)
    (hclear : Clear x n) : List.Forall₂ (fun inner m ↦ refers x m = true → inner.isEmpty = true →
      s₁.scopes.lookup x = s.scopes.lookup x) (values x n₁) n₁.children := by
  refine forall₂_through (binds_of_enters h hclear) (reflects_of_enters h hclear) ?_
  intro b _ inner m hbinds hreflects hrefers hinner
  cases b with
  | none => exact hbinds hrefers
  | some b => simp [hinner] at hreflects

theorem Channels.enters (hnames : site.options.runtime.IsTame) {a : Role × Channel} {n n₁ : Node}
    {leave : State → State} (h : Channels site x a s n) (henters : Enters site s n n₁ s₁ leave) :
    List.Forall₂ (fun b m ↦ Channels site x b s₁ m) ((channelling site x).parts a n n₁) n₁.children := by
  refine forall₂_zipWith_placed (lookup_of_enters henters h.clear) fun p hp hm inner _ hlookup ↦ ?_
  refine ⟨h.known.enters henters hp, clear_of_enters hnames henters h.clear hm, fun hthreads ↦ ?_,
    fun hrole hrefers hcarried ↦ ?_⟩
  · obtain ⟨hthreads, hthreshold⟩ := Bool.and_eq_true_iff.1 hthreads
    rw [threading_eq_of_enters henters (by simpa using hthreshold)]
    exact h.threading hthreads
  · obtain ⟨hinner, hcarried⟩ := Bool.and_eq_true_iff.1 hcarried
    unfold Scopes.Carries
    rw [hlookup hrefers hinner]
    exact h.carried (ne_foreign_of_mem_placed hp hrole) (refers_of_enters hnames henters hm hrefers)
      hcarried

theorem Channels.call {a : Role × Channel} {n : Node} (h : Channels site x a s n) (hn : isCall n = true) :
    List.Forall₂ (fun b m ↦ Channels site x b s m) ((channelling site x).parts a n n) n.children := by
  refine forall₂_zipWith_placed (values_of_isCall hn) fun p hp hm inner _ hinner ↦ ?_
  subst hinner
  exact ⟨h.known.part hp, h.clear.part hm, fun hthreads ↦ h.threading (Bool.and_eq_true_iff.1 hthreads).1,
    fun hrole hrefers hcarried ↦
      h.carried (ne_foreign_of_mem_placed hp hrole) (refers_of_part hm hrefers) hcarried⟩

section

variable {span : Span} {head : FuncHead} {typeParams : List Node} {this : Option Node}
  {params params' : List Param} {result : Option Ty} {body : Node}

theorem carries_openMemo {sig : Signature} {stmts : List Stmt} {outer : Bool}
    (hclear : Clear x (.func span head typeParams this params result body))
    (hparams : sig.parameters = tableOf site (.func span head typeParams this params result body))
    (hreshapes : ReshapesAll site.options.runtime sig.parameters.memoIndices 0 params params')
    (hstmts : ∀ stmt ∈ stmts, unhoisted x stmt = false)
    (hlist : lexicals x stmts = lexicals x (codeStmts body))
    (houter : outer = true → Scopes.Carries s.scopes x)
    (hcarried : carriedInside site x outer (.func span head typeParams this params result body) = true) :
    Scopes.Carries (s.openMemo site sig params' stmts).scopes x := by
  let f := Node.func span head typeParams this params result body
  have hnames := mem_paramNames_iff (x := x) site.annotations
    (if head.form = .arrow then some span.start else none) 0 0 params
  have htable : (tableOf site f).bindings = ParameterTable.bindingsFrom site.annotations
    (if head.form = .arrow then some span.start else none) 0 0 params := rfl
  rw [← htable] at hnames
  obtain ⟨hbody, hinside⟩ := Bool.and_eq_true_iff.1 hcarried
  have hlisted : listed site x stmts = none := by
    have hscope : bodyScope x f = lexicals x stmts := (bodyScope_of_clear hclear).trans hlist.symm
    have hsome : (listed site x stmts).isSome = !(lexicals x stmts).isEmpty := isSome_listed hstmts
    change (bodyScope x f).isEmpty = true at hbody
    rw [← hscope, hbody] at hsome
    simpa using hsome
  unfold Scopes.Carries
  rw [lookup_openMemo, hlisted, Option.none_or, patternNames_reshapesAll hreshapes, hparams]
  split at hinside
  · next hhead =>
    have habsent : x ∉ params.flatMap paramNames :=
      (headScope_eq_nil_iff hclear).1 (List.isEmpty_iff.1 hhead)
    rw [hnames, not_or] at habsent
    have hfind : (tableOf site f).bindings.reverse.find? (·.name = some x) = none := by
      rw [List.find?_eq_none]
      intro b hb hname
      exact habsent.2 ⟨b, List.mem_reverse.1 hb, by simpa using hname⟩
    rw [if_neg habsent.1, Option.none_or, hfind]
    exact houter hinside
  · obtain ⟨hpattern, hfound⟩ := Bool.and_eq_true_iff.1 hinside
    obtain ⟨b, hfind, htyped⟩ := (Option.any_eq_true _ _).1 hfound
    rw [if_neg (by simpa using hpattern), Option.none_or, hfind]
    exact ⟨_, by rw [Option.map_some, htyped]; rfl⟩

theorem opens_channelling (hnames : site.options.runtime.IsTame)
    (hx : ¬site.options.runtime.encloses x) {a : Role × Channel} {sig : Signature}
    (h : Channels site x a s (.func span head typeParams this params result body))
    (hparams : a.1 ≠ .foreign →
      sig.parameters = tableOf site (.func span head typeParams this params result body))
    (hreshapes : ReshapesAll site.options.runtime sig.parameters.memoIndices 0 params params') :
    Opens site (channelling site x) (Channels site x) a s sig
      (.func span head typeParams this params result body) params' body where
  bare notMemo m hm := by
    have hbody : Clear x body := h.clear.part (by simp [Node.children])
    refine ⟨h.known.of_bodyPart rfl hm, hbody.part hm, fun _ ↦ rfl, fun hrole hrefers hcarried ↦ ?_⟩
    have hrole := ne_foreign_of_bodyRole hrole
    exact carries_openMemo h.clear (hparams hrole) hreshapes (unhoisted_codeStmts hbody) rfl
      (h.carried hrole (refers_of_part (by simp [Node.children]) (refers_of_part hm hrefers))) hcarried
  wrapped memo inner directives stmts enclosed count hparts hencloses m hm := by
    have hencloses := enclosures_of_encloses hencloses
    have hclear := clear_enclosed hnames h.clear hparts hencloses
    refine ⟨h.known.of_enclosed rfl hparts hencloses hm, (hclear m hm).2, fun _ ↦ rfl,
      fun hbodyRole hrefers hcarried ↦ ?_⟩
    have hrole := ne_foreign_of_bodyRole hbodyRole
    have hlist : lexicals x enclosed = lexicals x (codeStmts body) :=
      (Condition.lexicals_enclosures hnames hencloses).trans (lexicals_codeStmts hparts hbodyRole)
    exact carries_openMemo h.clear (hparams hrole) hreshapes (fun stmt hstmt ↦ (hclear stmt hstmt).1)
      hlist (h.carried hrole (refers_of_enclosed hnames hx hparts hencloses hm hrefers)) hcarried

end

theorem inherits_channelling (hnames : site.options.runtime.IsTame)
    (hx : ¬site.options.runtime.encloses x) (hnone : site.graph.nodeAt? .none = none) :
    Inherits site (channelling site x) (Channels site x) (KeepsFor site x) where
  kept h hs := h.keeps hs
  enters h henters := h.enters hnames henters
  call h hn := h.call hn
  function h _ hsigned reshapes := opens_channelling hnames hx (h.keeps (keepsFor_of_signs hsigned))
    (fun hrole ↦ h.known.parameters_eq hnone hrole hsigned) reshapes
  signed h hsigned := h.known.warranted hsigned
  builder _ := warranted_asArgument site _ _
  argument h reshapes :=
    opens_channelling hnames hx
      ⟨h.known.asArgument, h.clear, h.threading, fun hrole ↦ h.carried (ne_foreign_of_asArgument hrole)⟩
      (fun _ ↦ rfl) reshapes

/-- Calls through a memo-typed parameter that lie directly in a memo function pass on context and
identity. -/
def PassesThrough (site : Site) (x : String) (a : Role × Channel) (n n' : Node) : Prop :=
  ∀ span optional isPure place types args,
    n = .apply span (.call optional isPure) (.ref place x) types args → a.1 ≠ .foreign →
    a.2.threads = true → a.2.carried = true → Passed site true n n'

theorem passesThrough_of_step {a : Role × Channel} {n n' : Node} (h : Channels site x a s n)
    (hstep : Step site (Walks site) s n n' s') : PassesThrough site x a n n' := by
  rintro span optional isPure place types args rfl hrole hthreads hcarried
  obtain ⟨watched, hlookup⟩ := h.carried hrole (refers_callee ..) hcarried
  have hpassed := passed_of_step (h.threading hthreads) hstep
  rw [isSome_resolveCall?_of_lookup hlookup] at hpassed
  exact hpassed

/-- Calls directly in a memo function hand on closures, and calls through parameters pass on what these
closures take. -/
structure HandsOn (site : Site) (program : List Stmt) (a : Role × Scene) (n n' : Node) : Prop where
  /-- Calls to members of `this`, in a file whose classes are told apart by their names. -/
  members : a.2.threads = true → ((classesOf program).map classNameOf).Nodup →
    MemberHands site program a.2.home n n'
  /-- Calls to names, in whatever does not obscure the name. -/
  names : a.1 ≠ .foreign → a.2.outside = true → ∀ x, ¬site.options.runtime.encloses x → Clear x n →
    Throughout site (naming site x) (NameHands site program x) (a.1, ⟨a.2.threads, none⟩) n n'
  through : a.1 ≠ .foreign → a.2.outside = true → ∀ x, ¬site.options.runtime.encloses x → Clear x n →
    Throughout site (channelling site x) (PassesThrough site x) (a.1, ⟨a.2.threads, false⟩) n n'

theorem handsOn_of_step {source : String} {o : Options} {parsed : Parsed}
    (apart : ToldApart parsed.program.body) (tame : o.runtime.IsTame) {a : Role × Scene} {n n' : Node}
    (h : Stages (siteOf source o parsed) (censusAll (siteOf source o parsed) parsed.program.body) a s n)
    (hstep : Step (siteOf source o parsed) (Walks (siteOf source o parsed)) s n n' s') :
    HandsOn (siteOf source o parsed) parsed.program.body a n n' := by
  let site := siteOf source o parsed
  have hnone : site.graph.nodeAt? .none = none := nodeAt?_none_of_toldApart source o parsed apart
  refine ⟨fun hthreads hclasses ↦ memberHands_of_step apart hclasses h hthreads hstep,
    fun hrole houtside x hx hclear ↦ ?_, fun hrole _ x hx hclear ↦ ?_⟩
  · refine throughout_of_step (lasts_keepsFor tame Names.clear) (inherits_naming tame hx hnone _)
      (nameHands_of_step apart) ?_ hstep (h.names houtside hclear)
    intro b t arg arg' t' name index plan _ builds _ span optional isPure place types args heq
    exact absurd heq (ne_call_of_builds builds)
  · refine throughout_of_step (lasts_keepsFor tame Channels.clear) (inherits_channelling tame hx hnone)
      passesThrough_of_step ?_ hstep ⟨h.meets.known, hclear, h.threading, by simp⟩
    intro b t arg arg' t' name index plan _ builds _ span optional isPure place types args heq
    exact absurd heq (ne_call_of_builds builds)

/-- Closures become memo functions where memo functions are expected. Throughout a file that has been
read, of the closures that a call directly in a memo function passes to a function of the file, by a name
which nothing around declares or as a member of `this`, each that stands at the position of a memo-typed
parameter is given the hidden parameters and a cache scope; and a call through a memo-typed parameter
passes on context and identity. A local function is handed only closures with a marker of their own. -/
theorem walkAll_hands_closures {source : String} {jsx : Bool} {o : Options} {parsed : Parsed}
    {depth : Nat} {stmts' : List Stmt} (hparsed : parse? source jsx = some parsed)
    (tame : o.runtime.IsTame)
    (h : walkAll (siteOf source o parsed) depth parsed.program.body = some (stmts', s))
    (hclean : walkErrors o.filePath s = []) :
    List.Forall₂ (Throughout (siteOf source o parsed) (staging (siteOf source o parsed))
        (HandsOn (siteOf source o parsed) parsed.program.body) (.free, {}))
      parsed.program.body stmts' ∧
      (o.runtime.IsPlain → ∃ p q, Glue.hiddenParameters o.runtime = .ok [p, q] ∧
        IsTypedParam o.runtime.context p ∧ IsTypedParam o.runtime.id q) := by
  let site := siteOf source o parsed
  have apart := toldApart_of_parse? hparsed
  refine ⟨?_, Glue.hiddenParameters_eq_ok⟩
  refine throughout_of_walkAll lasts_keeps (inherits_staging tame (censusAll site parsed.program.body))
    (handsOn_of_step apart tame) ?_ h hclean fun stmt hstmt ↦ stages_initial apart hstmt
  intro a t arg arg' t' name index plan _ builds _
  refine ⟨fun _ _ ↦ ?_, by simp [staging], by simp [staging]⟩
  intro span optional isPure place object m chained types args C E member p heq
  exact absurd heq (ne_call_of_builds builds)

def namedCalls (n : Node) : List (String × List Nat) :=
  n.gather (fun (_ : Unit) n ↦ (some (), match n with
    | .apply _ (.call _ _) (.ref _ name) _ args => [(name, args.map fun arg ↦ (paramsOf arg).length)]
    | _ => [])) ()

def memoTypedPositions (site : Site) (n : Node) : List (String × List Nat) :=
  n.gather (fun (_ : Unit) n ↦ (some (), match n with
    | .func _ head _ _ params _ _ =>
      head.name.toList.map (·, (List.range params.length).filter fun i ↦ memoTypedAt site i n)
    | _ => [])) ()

/-- The memo-typed positions in a source, and the calls in what is woven of it if nothing is wrong. -/
def wovenCalls (source : String) : Option (List (String × List Nat) × List (String × List Nat)) :=
  (parse? source false).bind fun parsed ↦
    (walkAll (siteOf source { runtime := shortNames } parsed) 16 parsed.program.body).bind fun r ↦
      if walkErrors "input.ts" r.2 = [] then
        some (parsed.program.body.flatMap
          (memoTypedPositions (siteOf source { runtime := shortNames } parsed)), r.1.flatMap namedCalls)
      else none

def boxSource : String :=
  "/** @memo_intrinsic */ function box(/** @memo */ k) \x7b k(); \x7d\n"
    ++ "/** @memo_intrinsic */ function view() \x7b box(() => \x7b\x7d); \x7d\n"

set_option maxRecDepth 100000 in
theorem wovenCalls_boxSource : wovenCalls boxSource = some ([("box", [0]), ("view", [])],
    [("k", [0, 0]), ("box", [0, 0, 2])]) := by
  decide +kernel

theorem walkAll_hands_closures_boxSource : ∃ parsed stmts' s,
    parse? boxSource false = some parsed ∧ shortNames.IsTame ∧
      walkAll (siteOf boxSource { runtime := shortNames } parsed) 16 parsed.program.body =
        some (stmts', s) ∧ walkErrors "input.ts" s = [] ∧
      stmts'.flatMap namedCalls = [("k", [0, 0]), ("box", [0, 0, 2])] ∧
      List.Forall₂ (Throughout (siteOf boxSource { runtime := shortNames } parsed)
        (staging (siteOf boxSource { runtime := shortNames } parsed))
        (HandsOn (siteOf boxSource { runtime := shortNames } parsed) parsed.program.body) (.free, {}))
        parsed.program.body stmts' := by
  obtain ⟨parsed, hparsed, hwoven⟩ := Option.bind_eq_some_iff.1 wovenCalls_boxSource
  obtain ⟨⟨stmts', s⟩, h, hcalls⟩ := Option.bind_eq_some_iff.1 hwoven
  split at hcalls
  · next hclean =>
    exact ⟨parsed, stmts', s, hparsed, isTame_shortNames, h, hclean,
      (Prod.mk.inj (Option.some.inj hcalls)).2,
      (walkAll_hands_closures hparsed isTame_shortNames h hclean).1⟩
  · simp at hcalls

def innerSource : String :=
  "/** @memo_intrinsic */ function view() \x7b /** @memo_intrinsic */ function inner(/** @memo */ k) "
    ++ "\x7b k(); \x7d inner(() => \x7b\x7d); \x7d\n"

set_option maxRecDepth 100000 in
/-- A local function with a memo-typed parameter is passed a closure without hidden parameters, which
it calls with context and identity. -/
theorem wovenCalls_leaves_closure_bare : wovenCalls innerSource = some ([("view", []), ("inner", [0])],
    [("k", [0, 0]), ("inner", [0, 0, 0])]) := by
  decide +kernel

end Recompose.Weave
