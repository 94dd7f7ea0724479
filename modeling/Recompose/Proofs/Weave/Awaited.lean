import Recompose.Proofs.Marked
import Recompose.Proofs.Weave.Unobscured

namespace Recompose

open Script

def NotAt (span : Span) : Node → Prop
  | .func place _ _ _ _ _ _ => place ≠ span
  | _ => True

theorem everywhere_notAt_iff {span : Span} {n : Node} :
    n.Everywhere (NotAt span) ↔ span ∉ Weave.functionSpans n := by
  induction n using Node.induction_on_parts with
  | step n ih =>
    rw [Node.everywhere_iff, Weave.functionSpans_eq, List.mem_append, not_or, List.mem_flatMap]
    refine and_congr ?_ ?_
    · unfold NotAt
      split <;> simp [eq_comm]
    · simp only [not_exists, not_and]
      exact forall₂_congr ih

theorem Condition.endures_notAt {names : RuntimeNames} {span : Span} (hspan : span ≠ .none) :
    Endures names (fun _ ↦ True) (NotAt span) where
  statement := ⟨trivial, trivial⟩
  call := trivial
  callee _ := trivial
  closure _ := ⟨hspan.symm, trivial⟩
  block := by simp [NotAt]
  arms _ _ _ := trivial
  chain _ := trivial
  branch _ := trivial
  clause := by simp [NotAt]
  clauses _ _ := trivial
  switch := trivial
  result := ⟨trivial, trivial⟩

namespace Weave

variable {site : Site} {s s₁ s' : State} {span : Span}

theorem wears_notAt : Wears (NotAt span) where
  bare h := by
    unfold isBareNode at h
    split at h <;> trivial
  form _ := trivial
  function _ _ h := ⟨trivial, h⟩
  reference _ := trivial
  declarator _ := trivial

/-- A span is waited for until the walk comes to a function that has it. -/
def Waits (span : Span) : Walked :=
  fun s n _ s' ↦ n.Everywhere (NotAt span) → span ∈ s.pending → span ∈ s'.pending

theorem waits_of_threads {ns ns' : List Node} (h : Threads (Waits span) s ns ns' s')
    (hns : ∀ n ∈ ns, n.Everywhere (NotAt span)) (hs : span ∈ s.pending) : span ∈ s'.pending := by
  induction h with
  | nil => exact hs
  | cons head tail ih =>
    exact ih (fun n hn ↦ hns n (List.mem_cons_of_mem _ hn)) (head (hns _ List.mem_cons_self) hs)

theorem waits_of_memoises (hspan : span ≠ .none) (hnames : site.options.runtime.IsTame)
    {sig : Signature} {f f' : Func} (h : Memoises site (Waits span) sig s f f' s')
    (hf : f.Everywhere (NotAt span)) (hs : span ∈ s.pending) : span ∈ s'.pending := by
  cases h with
  | bodiless faultless reshapes => exact hs
  | wrapped faultless reshapes present memo wraps hides =>
    cases wraps with
    | intro parts encloses walks wraps =>
      have hbody := hf.part (List.mem_append_right _ List.mem_cons_self)
      have hwalked := waits_of_threads walks
        ((Condition.endures_notAt hspan).everywhere_enclosed hnames hbody parts
          (enclosures_of_encloses encloses)) hs
      exact hwalked
  | bare faultless reshapes present notMemo walks hides =>
    have hbody := hf.part (List.mem_append_right _ List.mem_cons_self)
    have hwalked := waits_of_threads walks.children (fun m hm ↦ hbody.part hm) hs
    exact hwalked

theorem waits_of_threadsArgs (hspan : span ≠ .none) (hnames : site.options.runtime.IsTame)
    {plan : CallPlan} {parent : String} {ordinal index : Nat} {args args' : List Expr}
    (h : ThreadsArgs site (Waits span) plan parent ordinal index s args args' s')
    (hargs : ∀ arg ∈ args, arg.Everywhere (NotAt span)) (hs : span ∈ s.pending) :
    span ∈ s'.pending := by
  induction h with
  | nil => exact hs
  | closure builds memoises tail ih =>
    exact ih (fun arg harg ↦ hargs arg (List.mem_cons_of_mem _ harg))
      (waits_of_memoises hspan hnames memoises (hargs _ List.mem_cons_self) hs)
  | value builds head tail ih =>
    exact ih (fun arg harg ↦ hargs arg (List.mem_cons_of_mem _ harg))
      (head (hargs _ List.mem_cons_self) hs)

theorem mem_settle {place : Span} (hspan : place ≠ span) (hs : span ∈ s.pending) :
    span ∈ (s.settle place).pending :=
  List.mem_filter.2 ⟨hs, bne_iff_ne.2 hspan.symm⟩

theorem waits_of_enters {n n₁ : Node} {leave : State → State} (h : Enters site s n n₁ s₁ leave)
    (hn : NotAt span n) (hs : span ∈ s.pending) :
    span ∈ s₁.pending ∧ ∀ s₂ : State, span ∈ s₂.pending → span ∈ (leave s₂).pending := by
  have hnotes {p : Prop} {s₁ : State} (hn : Notes p s s₁) : s₁.pending = s.pending := by
    obtain ⟨-, rfl⟩ | rfl := hn <;> rfl
  cases h with
  | function form plain =>
    refine ⟨?_, fun _ h₂ ↦ h₂⟩
    cases plain with
    | unmarked absent plain => exact mem_settle hn hs
    | nameless absent marked unnamed => exact mem_settle hn hs
  | method plain notes => exact ⟨hnotes notes ▸ hs, fun _ h₂ ↦ h₂⟩
  | memoMethod memo notes =>
    refine ⟨?_, fun _ h₂ ↦ h₂⟩
    split
    · exact List.mem_append_right _ (hnotes notes ▸ hs)
    · exact hnotes notes ▸ hs
  | field annotates notes => exact ⟨hnotes notes ▸ hs, fun _ h₂ ↦ h₂⟩
  | param notes => exact ⟨hnotes notes ▸ hs, fun _ h₂ ↦ h₂⟩
  | interfaceDecl extended notes => exact ⟨hnotes notes ▸ hs, fun _ h₂ ↦ h₂⟩
  | @vars place kind declared items items' noted awaiting _ redeclares notes awaits binds =>
    refine ⟨?_, fun _ h₂ ↦ h₂⟩
    have hnoted : span ∈ noted.pending := hnotes notes ▸ hs
    have hawaiting : span ∈ awaiting.pending := by
      rw [awaits]
      split
      · exact List.mem_append_right _ hnoted
      · exact hnoted
    rw [binds]
    split <;> exact hawaiting
  | _ => exact ⟨hs, fun _ h₂ ↦ h₂⟩

theorem waits_of_step (hspan : span ≠ .none) (hnames : site.options.runtime.IsTame) {n n' : Node}
    (h : Step site (Waits span) s n n' s') : Waits span s n n' s' := by
  intro hn hs
  cases h with
  | read watched => exact hs
  | thread resolves inside callees arguments identifies =>
    have hcallee := callees (hn.part List.mem_cons_self) hs
    have hargs := waits_of_threadsArgs hspan hnames arguments
      (fun arg harg ↦ hn.part (by simp [Node.children, harg])) hcallee
    exact hargs
  | memo form signed memoises =>
    refine waits_of_memoises hspan hnames memoises hn ?_
    cases signed with
    | declared found => exact hs
    | closure absent marked named => exact mem_settle hn.self hs
  | within enters parts =>
    obtain ⟨hentered, hleft⟩ := waits_of_enters enters hn.self hs
    exact hleft _ (waits_of_threads parts.children
      (wears_notAt.everywhere_parts hnames (alters_of_enters enters) hn) hentered)

theorem Walks.waits (hspan : span ≠ .none) (hnames : site.options.runtime.IsTame) {n n' : Node}
    (h : Walks site s n n' s') : Waits span s n n' s' :=
  h.induct fun hstep ↦ waits_of_step hspan hnames (hstep.mono And.right)

theorem renderedIn_of_pending {head : FuncHead} {typeParams : List Node} {this : Option Node}
    {params : List Param} {result : Option Ty} {body : Node} {f' : Func} (hform : head.form ≠ .signature)
    (hbody : body ≠ .missing) (hnamed : s.Named) (habsent : site.graph.nodeAt? span = none)
    (hs : span ∈ s.pending)
    (h : Walks site s (.func span head typeParams this params result body) f' s') :
    RenderedIn site ((ownMode? site (.func span head typeParams this params result body)).getD .memo)
      (.func span head typeParams this params result body) f' := by
  have hmode : modeAt? site s span =
      some ((ownMode? site (.func span head typeParams this params result body)).getD .memo) := by
    have hown : ownMode? site (.func span head typeParams this params result body) =
      MemoMode.ofMarkers? (site.annotations.markers span.start) := rfl
    rw [modeAt?, if_pos (List.contains_iff_mem.2 hs), hown]
    cases MemoMode.ofMarkers? (site.annotations.markers span.start) <;> rfl
  cases h.step with
  | memo form signed memoises =>
    cases signed with
    | declared found => simp [habsent] at found
    | closure absent marked named =>
      obtain rfl := Option.some.inj (marked.symm.trans hmode)
      exact renderedIn_of_memoises hbody rfl memoises
  | within enters parts =>
    cases enters with
    | passive passive => simp [isPassive] at passive
    | signature form => exact absurd form hform
    | block opens => simp [blockBindings] at opens
    | function form plain =>
      cases plain with
      | unmarked absent plain => simp [hmode] at plain
      | nameless absent marked unnamed => simp [State.Named, unnamed] at hnamed

theorem exists_of_skeleton_declarator {n target : Node} {definite : Bool} {type : Option Ty}
    {init : Expr}
    (h : n.skeleton = (Node.declarator span target definite type (some init)).skeleton) :
    ∃ target' type' init', n = .declarator span target' definite type' (some init') := by
  cases n
  case declarator span' target' definite' type' init' =>
    obtain ⟨rfl, -, rfl, -, hinit⟩ := Node.declarator.inj h
    cases init' with
    | none => cases hinit
    | some init' => exact ⟨_, _, _, rfl⟩
  case ascribe =>
    simp only [Node.skeleton, Node.mapChildren] at h
    split at h <;> cases h
  all_goals cases h

theorem exists_of_skeleton_vars {n : Node} {kind : VarKind} {declared : Bool} {items : List Node}
    (h : n.skeleton = (Node.vars span kind declared items).skeleton) :
    ∃ items', n = .vars span kind declared items' := by
  cases n
  case vars =>
    obtain ⟨rfl, rfl, rfl, -⟩ := Node.vars.inj h
    exact ⟨_, rfl⟩
  case ascribe =>
    simp only [Node.skeleton, Node.mapChildren] at h
    split at h <;> cases h
  all_goals cases h

/-- A declarator with a closure that is no declaration of the file: the closure is woven. -/
def HoldsWoven (site : Site) (item item' : Node) : Prop :=
  ∀ {place target definite type span head typeParams this params result body},
    item = .declarator place target definite type
      (some (.func span head typeParams this params result body)) →
    head.form = .arrow ∨ head.form = .expression → body ≠ .missing →
    site.graph.nodeAt? span = none →
    ∃ target' type' f', item' = .declarator place target' definite type' (some f') ∧
      RenderedIn site ((ownMode? site (.func span head typeParams this params result body)).getD .memo)
        (.func span head typeParams this params result body) f'

theorem Threads.exists_last {W : Walked} {m m' : Node} {ns ns' : List Node}
    (h : Threads W s (ns ++ [m]) (ns' ++ [m']) s') :
    ∃ s₁, Threads W s ns ns' s₁ ∧ W s₁ m m' s' := by
  have hlength : ns'.length = ns.length := by simpa using h.length_eq
  induction ns generalizing s ns' with
  | nil =>
    obtain rfl := List.eq_nil_of_length_eq_zero hlength
    cases h with
    | cons head tail =>
      obtain ⟨-, rfl⟩ := tail.eq_of_nil
      exact ⟨s, .nil, head⟩
  | cons n ns ih =>
    cases ns' with
    | nil => simp at hlength
    | cons n' ns' =>
      cases h with
      | cons head tail =>
        obtain ⟨s₁, hinit, hlast⟩ := ih tail (by simpa using hlength)
        exact ⟨s₁, .cons head hinit, hlast⟩

theorem keeps_of_threads {ns ns' : List Node} (h : Threads (Walks site) s ns ns' s') :
    Keeps site s s' :=
  (rests_of_threads (h.mono Walks.rests)).1

theorem functionSpans_declarator (place : Span) (target : Pattern) (definite : Bool) (type : Option Ty)
    (init : Expr) : functionSpans (.declarator place target definite type (some init)) =
      functionSpans target ++ (type.toList.flatMap functionSpans ++ functionSpans init) := by
  rw [functionSpans_eq]
  simp [Node.children]

theorem holdsWoven_of_walks (hnames : site.options.runtime.IsTame) {marked : Bool} {item item' n' : Node}
    (hredeclares : Redeclares site.options.runtime marked item item') (hnamed : s.Named)
    (hspans : (functionSpans item).Nodup) (hnone : Span.none ∉ functionSpans item)
    (hs : ∀ span ∈ initialClosure item, span ∈ s.pending)
    (h : Walks site s item' n' s') : HoldsWoven site item n' := by
  rintro place target definite type span head typeParams this params result body rfl hform hbody habsent
  let f := Node.func span head typeParams this params result body
  obtain ⟨type', rfl, htype⟩ : ∃ type', item' = .declarator place target definite type' (some f) ∧
      Annotates site.options.runtime marked type type' := by
    cases hredeclares with
    | kept => exact ⟨_, rfl, .kept⟩
    | annotated annotates => exact ⟨_, rfl, annotates⟩
  cases h.step with
  | within enters parts =>
    cases enters with
    | block opens => simp [blockBindings] at opens
    | passive passive =>
      obtain ⟨target'', type'', f'', rfl⟩ := exists_of_skeleton_declarator parts.skeleton
      refine ⟨target'', type'', f'', rfl, ?_⟩
      have hparts : Threads (Walks site) s (target :: type'.toList ++ [f])
        (target'' :: type''.toList ++ [f'']) _ := parts.children
      obtain ⟨s₁, hinit, hlast⟩ := hparts.exists_last
      have hspan : span ≠ .none := by
        rintro rfl
        exact hnone (mem_functionSpans_of_part (m := f) (by simp [Node.children, f])
          mem_functionSpans_self)
      have hpending : span ∈ s.pending := by
        refine hs span ?_
        simp [initialClosure, Node.closureSpan?, hform]
      -- The span of the closure stands neither in the target nor in the annotation.
      rw [functionSpans_declarator] at hspans
      obtain ⟨-, hrest, hfirst⟩ := List.nodup_append.1 hspans
      obtain ⟨-, -, hsecond⟩ := List.nodup_append.1 hrest
      have hown : span ∈ functionSpans f := mem_functionSpans_self
      have hannotation : ∀ m ∈ type'.toList, m.Everywhere (NotAt span) := by
        refine wears_notAt.everywhere_annotates hnames htype fun m hm ↦ everywhere_notAt_iff.2 fun hmem ↦ ?_
        exact hsecond span (List.mem_flatMap.2 ⟨m, hm, hmem⟩) span hown rfl
      have htarget : target.Everywhere (NotAt span) := by
        refine everywhere_notAt_iff.2 fun hmem ↦ ?_
        exact hfirst span hmem span (List.mem_append_right _ hown) rfl
      have hwaiting : span ∈ s₁.pending :=
        waits_of_threads (hinit.mono (Walks.waits hspan hnames))
          (List.forall_mem_cons.2 ⟨htarget, hannotation⟩) hpending
      have hsignature : head.form ≠ .signature := by
        obtain hform | hform := hform <;> simp [hform]
      exact renderedIn_of_pending hsignature hbody (hnamed.keeps (keeps_of_threads hinit)) habsent
        hwaiting hlast

theorem holdsWoven_of_threads (hnames : site.options.runtime.IsTame) {marked : Bool}
    {items items' items'' : List Node}
    (hredeclares : List.Forall₂ (Redeclares site.options.runtime marked) items items')
    (hnamed : s.Named) (hspans : (items.flatMap functionSpans).Nodup)
    (hnone : Span.none ∉ items.flatMap functionSpans)
    (hs : ∀ span ∈ items.flatMap initialClosure, span ∈ s.pending)
    (h : Threads (Walks site) s items' items'' s') :
    List.Forall₂ (HoldsWoven site) items items'' := by
  induction h generalizing items with
  | nil =>
    cases hredeclares
    exact .nil
  | @cons s s₁ s' item' item'' items' items'' head tail ih =>
    cases hredeclares with
    | @cons item _ items _ hhead htail =>
      rw [List.flatMap_cons] at hspans hnone
      rw [List.flatMap_cons] at hs
      obtain ⟨hown, hrest, hapart⟩ := List.nodup_append.1 hspans
      have hownNone : Span.none ∉ functionSpans item := fun h ↦ hnone (List.mem_append_left _ h)
      have hrestNone : Span.none ∉ items.flatMap functionSpans :=
        fun h ↦ hnone (List.mem_append_right _ h)
      refine .cons (holdsWoven_of_walks hnames hhead hnamed hown hownNone
        (fun span hspan ↦ hs span (List.mem_append_left _ hspan)) head) ?_
      refine ih htail (hnamed.keeps head.keeps) hrest hrestNone fun span hspan ↦ ?_
      -- What later declarators hold is still waited for.
      have hmem : span ∈ items.flatMap functionSpans := by
        obtain ⟨other, hother, hspan⟩ := List.mem_flatMap.1 hspan
        obtain ⟨place, target, definite, type, init, rfl, hheld⟩ := exists_of_mem_initialClosure hspan
        obtain ⟨head, typeParams, this, params, result, body, rfl⟩ := exists_of_mem_heldFunction hheld
        exact List.mem_flatMap.2 ⟨_, hother, mem_functionSpans_of_part
          (m := .func span head typeParams this params result body) (by simp [Node.children])
          mem_functionSpans_self⟩
      have hspanNone : span ≠ .none := fun heq ↦ hrestNone (heq ▸ hmem)
      have hitem : item.Everywhere (NotAt span) :=
        everywhere_notAt_iff.2 fun h ↦ hapart span h span hmem rfl
      exact head.waits hspanNone hnames (wears_notAt.everywhere_redeclares hnames hhead hitem)
        (hs span (List.mem_append_right _ hspan))

theorem initialClosure_redeclares {names : RuntimeNames} {marked : Bool} {items items' : List Node}
    (h : List.Forall₂ (Redeclares names marked) items items') :
    (items'.flatMap initialClosure) = items.flatMap initialClosure := by
  induction h with
  | nil => rfl
  | cons head _ ih =>
    rw [List.flatMap_cons, List.flatMap_cons, ih]
    cases head with
    | kept => rfl
    | @annotated _ _ _ _ _ init annotates => cases init <;> rfl

theorem holdsWoven_of_step (hnames : site.options.runtime.IsTame) {place : Span} {kind : VarKind}
    {declared : Bool} {items : List Node} {n' : Node} (hnamed : s.Named)
    (hspans : (functionSpans (.vars place kind declared items)).Nodup)
    (hnone : Span.none ∉ functionSpans (.vars place kind declared items))
    (hmarked : (site.annotations.markers place.start).isMemoLike = true)
    (h : Step site (Walks site) s (.vars place kind declared items) n' s') :
    ∃ items', n' = .vars place kind declared items' ∧ List.Forall₂ (HoldsWoven site) items items' := by
  have hflat : functionSpans (.vars place kind declared items) = items.flatMap functionSpans := by
    rw [functionSpans_eq]
    rfl
  rw [hflat] at hspans hnone
  cases h with
  | within enters parts =>
    have hentered := hnamed.enters enters
    cases enters with
    | passive passive => simp [isPassive] at passive
    | block opens => simp [blockBindings] at opens
    | @vars _ _ _ _ items' noted awaiting _ redeclares notes awaits binds =>
      obtain ⟨items'', rfl⟩ := exists_of_skeleton_vars parts.skeleton
      refine ⟨items'', rfl, holdsWoven_of_threads hnames redeclares hentered hspans hnone ?_
        parts.children⟩
      intro span hspan
      have hawaiting : span ∈ awaiting.pending := by
        rw [awaits, if_pos hmarked, initialClosure_redeclares redeclares]
        exact List.mem_append_left _ hspan
      rw [binds]
      split <;> exact hawaiting

end Weave

end Recompose
