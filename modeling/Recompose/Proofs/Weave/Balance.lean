import Recompose.Proofs.Weave.Bindings

namespace Recompose.Weave

open Script

inductive Continues : Frame → Frame → Prop
  | boundary : Continues .boundary .boundary
  | scope {counter counter' : SiteCounter} {threading : Bool} (name : counter'.name = counter.name) :
      Continues (.scope counter threading) (.scope counter' threading)

theorem Continues.refl (frame : Frame) : Continues frame frame := by
  cases frame with
  | boundary => exact .boundary
  | scope counter threading => exact .scope rfl

theorem Continues.trans {f g k : Frame} (h : Continues f g) (h' : Continues g k) : Continues f k := by
  cases h with
  | boundary => exact h'
  | scope name =>
    cases h' with
    | scope name' => exact .scope (name'.trans name)

theorem continues_of_takeClosureName {frames frames' : List Frame} {name : String}
    (h : takeClosureName frames = some (name, frames')) : List.Forall₂ Continues frames frames' := by
  induction frames generalizing frames' with
  | nil => simp [takeClosureName] at h
  | cons frame frames ih =>
    cases frame with
    | boundary =>
      obtain ⟨⟨taken, rest⟩, htaken, heq⟩ := Option.map_eq_some_iff.1 h
      obtain ⟨rfl, rfl⟩ := Prod.ext_iff.1 heq
      exact .cons .boundary (ih htaken)
    | scope counter threading =>
      obtain ⟨rfl, rfl⟩ := Prod.ext_iff.1 (Option.some.inj h)
      exact .cons (.scope rfl) (List.forall₂_same.2 fun frame _ ↦ .refl frame)

structure Keeps (site : Site) (s s' : State) : Prop where
  scopes : s.scopes.Grows s'.scopes
  frames : List.Forall₂ Continues s.frames s'.frames
  classes : s'.classes = s.classes
  pending : ∀ span ∈ s'.pending, site.graph.nodeAt? span = none → span ∈ s.pending

section

variable {site : Site} {s s₁ s' : State}

theorem Keeps.same (scopes : s'.scopes = s.scopes) (frames : s'.frames = s.frames)
    (classes : s'.classes = s.classes) (pending : s'.pending = s.pending) : Keeps site s s' :=
  ⟨scopes ▸ .refl _, frames ▸ List.forall₂_same.2 fun frame _ ↦ .refl frame, classes,
    fun _ h _ ↦ pending ▸ h⟩

theorem Keeps.refl (site : Site) (s : State) : Keeps site s s :=
  .same rfl rfl rfl rfl

theorem Keeps.trans (h : Keeps site s s₁) (h' : Keeps site s₁ s') : Keeps site s s' := by
  refine ⟨h.scopes.trans h'.scopes, ?_, h'.classes.trans h.classes,
    fun span hs hd ↦ h.pending span (h'.pending span hs hd) hd⟩
  have hframes := h.frames
  have hframes' := h'.frames
  generalize s.frames = fs, s₁.frames = gs, s'.frames = ks at hframes hframes'
  induction hframes generalizing ks with
  | nil => exact hframes'
  | cons head _ ih =>
    cases hframes' with
    | cons head' tail' => exact .cons (head.trans head') (ih _ tail')

theorem Keeps.threading_eq (h : Keeps site s s') : s'.threading = s.threading := by
  have hframes := h.frames
  unfold State.threading
  generalize s.frames = fs, s'.frames = gs at hframes
  cases hframes with
  | nil => rfl
  | cons head _ =>
    cases head with
    | boundary => rfl
    | @scope _ _ threading => cases threading <;> rfl

theorem Keeps.closeFunction {frame : Frame} {bindings : List (String × Binding)}
    (h : Keeps site (s.openFunction frame bindings) s') : Keeps site s s'.closeFunction := by
  refine ⟨Scopes.Grows.of_bindAll h.scopes, ?_, h.classes, h.pending⟩
  obtain ⟨head, frames, -, tail, hframes⟩ := List.forall₂_cons_left_iff.1 h.frames
  rw [State.closeFunction, hframes]
  exact tail

/-- The closure that a declarator or a function is waited for with. -/
def awaited : Node → List Span
  | .declarator span target definite type init =>
    initialClosure (.declarator span target definite type init)
  | n => heldFunction n

def Meets (site : Site) (n : Node) (s' : State) : Prop :=
  ∀ span ∈ awaited n, site.graph.nodeAt? span = none → span ∉ s'.pending

/-- What the walk of a node leaves as it was, and what it has met. -/
def Rests (site : Site) : Walked :=
  fun s n _ s' ↦ Keeps site s s' ∧ Meets site n s'

theorem mem_heldFunction_of_closureSpan? {e : Expr} {span : Span} (h : e.closureSpan? = some span) :
    span ∈ heldFunction e := by
  unfold Node.closureSpan? at h
  split at h
  · split at h
    · next form =>
      obtain rfl := Option.some.inj h
      obtain form | form := form <;> simp [heldFunction, form]
    · simp at h
  · simp at h

theorem mem_awaited_of_held {n : Node} {span : Span} (h : span ∈ heldFunction n) :
    span ∈ awaited n := by
  unfold awaited
  split
  · simp [heldFunction] at h
  · exact h

theorem rests_of_threads {ns ns' : List Node} (h : Threads (Rests site) s ns ns' s') :
    Keeps site s s' ∧ ∀ n ∈ ns, Meets site n s' := by
  induction h with
  | nil => exact ⟨.refl site _, by simp⟩
  | cons head tail ih =>
    obtain ⟨hkeeps, hmeets⟩ := ih
    refine ⟨head.1.trans hkeeps, fun n hn ↦ ?_⟩
    obtain rfl | hn := List.mem_cons.1 hn
    · exact fun span hspan hd hp ↦ head.2 span hspan hd (hkeeps.pending span hp hd)
    · exact hmeets n hn

theorem Keeps.of_await {spans : List Span} {ns : List Node} (h : Keeps site (s.await spans) s')
    (hheld : ∀ span ∈ spans, ∃ n ∈ ns, span ∈ awaited n) (hmet : ∀ n ∈ ns, Meets site n s') :
    Keeps site s s' := by
  refine ⟨h.scopes, h.frames, h.classes, fun span hs hd ↦ ?_⟩
  obtain hspan | hspan := List.mem_append.1 (h.pending span hs hd)
  · obtain ⟨n, hn, hawaited⟩ := hheld span hspan
    exact absurd hs (hmet n hn span hawaited hd)
  · exact hspan

theorem keeps_of_signs {span : Span} {form : FuncForm} {params : List Param}
    {sig : Option Signature} (h : Signs site s span form params sig s') :
    Keeps site s s' ∧ (site.graph.nodeAt? span = none → span ∉ s'.pending) := by
  have hsettle : Keeps site s (s.settle span) :=
    ⟨.refl _, List.forall₂_same.2 fun frame _ ↦ .refl frame, rfl,
      fun _ h _ ↦ List.mem_of_mem_filter h⟩
  have hsettled : span ∉ (s.settle span).pending := by simp [State.settle]
  cases h with
  | declared found => exact ⟨.refl site s, by simp [found]⟩
  | unmarked absent plain => exact ⟨hsettle, fun _ ↦ hsettled⟩
  | closure absent marked named =>
    exact ⟨⟨.refl _, continues_of_takeClosureName named, rfl, hsettle.pending⟩, fun _ ↦ hsettled⟩
  | nameless absent marked unnamed => exact ⟨hsettle, fun _ ↦ hsettled⟩

theorem keeps_of_memoises {sig : Signature} {f f' : Func}
    (h : Memoises site (Rests site) sig s f f' s') : Keeps site s s' := by
  cases h with
  | bodiless faultless reshapes => exact .same rfl rfl rfl rfl
  | @wrapped span head typeParams this params params' hidden result body body' s₁ faultless reshapes
      present memo wraps hides =>
    cases wraps with
    | @intro _ _ _ enclosed _ _ count _ parts encloses walks wraps =>
      have hopened : Keeps site s (s.mark.countEnclosed count) := .same rfl rfl rfl rfl
      exact (hopened.trans (rests_of_threads walks).1.closeFunction).trans (.same rfl rfl rfl rfl)
  | bare faultless reshapes present notMemo walks hides =>
    have hopened : Keeps site s s.mark := .same rfl rfl rfl rfl
    exact (hopened.trans (rests_of_threads walks.children).1.closeFunction).trans
      (.same rfl rfl rfl rfl)

theorem keeps_of_threadsArgs {plan : CallPlan} {parent : String} {ordinal index : Nat}
    {args args' : List Expr}
    (h : ThreadsArgs site (Rests site) plan parent ordinal index s args args' s') :
    Keeps site s s' := by
  induction h with
  | nil => exact .refl site _
  | closure builds memoises tail ih => exact (keeps_of_memoises memoises).trans ih
  | value builds head tail ih => exact head.1.trans ih

theorem rests_of_enters {n n₁ : Node} {s₁ s₂ : State} {leave : State → State}
    (h : Enters site s n n₁ s₁ leave) (hkeeps : Keeps site s₁ s₂)
    (hmet : ∀ m ∈ n₁.children, Meets site m s₂) : Rests site s n n (leave s₂) := by
  have hgrows := grows_of_enters h hkeeps.scopes
  have hnotes {p : Prop} {s₁ : State} (hn : Notes p s s₁) : Keeps site s s₁ := by
    obtain ⟨-, rfl⟩ | rfl := hn <;> exact .same rfl rfl rfl rfl
  have hnone {n : Node} {s' : State} (hn : awaited n = []) : Meets site n s' := by
    simp [Meets, hn]
  cases h with
  | passive passive =>
    refine ⟨hkeeps, ?_⟩
    unfold Meets awaited
    split
    · next span target definite type init =>
      intro span hspan hd
      unfold initialClosure at hspan
      split at hspan
      · next init heq =>
        cases heq
        exact hmet init (by simp [Node.children]) span
          (mem_awaited_of_held (mem_heldFunction_of_closureSpan? (Option.mem_toList.1 hspan))) hd
      · simp at hspan
    · unfold heldFunction
      split
      · simp [isPassive] at passive
      · simp
  | name plain => exact ⟨hkeeps, hnone rfl⟩
  | call plain => exact ⟨hkeeps, hnone rfl⟩
  | signature form => exact ⟨hkeeps, hnone (by simp [awaited, heldFunction, form])⟩
  | @function span head typeParams this params result body s₁ form plain =>
    obtain ⟨hsigned, hsettled⟩ := keeps_of_signs plain
    have hclosed := hkeeps.closeFunction
    refine ⟨hsigned.trans hclosed, fun σ hσ hd hp ↦ ?_⟩
    obtain rfl : σ = span := by simpa [awaited, heldFunction, form] using hσ
    exact hsettled hd (hclosed.pending σ hp hd)
  | cls =>
    refine ⟨⟨hgrows, hkeeps.frames, ?_, hkeeps.pending⟩, hnone rfl⟩
    rw [State.closeClass, hkeeps.classes]
    rfl
  | method plain notes =>
    have hopened := hnotes notes
    refine ⟨hopened.trans ⟨hkeeps.scopes, ?_, hkeeps.classes, hkeeps.pending⟩, hnone rfl⟩
    obtain ⟨frame, frames, -, tail, hframes⟩ := List.forall₂_cons_left_iff.1 hkeeps.frames
    rw [State.closeFrame, hframes]
    exact tail
  | @memoMethod span mods decorators key f noted memo notes =>
    refine ⟨(hnotes notes).trans ?_, hnone rfl⟩
    by_cases hd : (site.graph.nodeAt? f.span).isNone
    · rw [if_pos hd] at hkeeps
      exact hkeeps.of_await
        (fun σ hσ ↦ ⟨f, by simp [Node.children], mem_awaited_of_held hσ⟩) hmet
    · rw [if_neg hd] at hkeeps
      exact hkeeps
  | field annotates notes => exact ⟨(hnotes notes).trans hkeeps, hnone rfl⟩
  | param notes => exact ⟨(hnotes notes).trans hkeeps, hnone rfl⟩
  | pair => exact ⟨hkeeps, hnone rfl⟩
  | fieldPattern => exact ⟨hkeeps, hnone rfl⟩
  | @vars span kind declared items items' noted awaiting _ redeclares notes awaits binds =>
    have hbound : Keeps site awaiting s₂ := by
      refine Keeps.trans ?_ hkeeps
      rw [binds]
      split
      · exact ⟨.bindVars _ _, List.forall₂_same.2 fun frame _ ↦ .refl frame, rfl, fun _ h _ ↦ h⟩
      · exact .refl site _
    refine ⟨(hnotes notes).trans ?_, hnone rfl⟩
    rw [awaits] at hbound
    split at hbound
    · refine hbound.of_await (fun σ hσ ↦ ?_) hmet
      obtain ⟨item, hitem, hspan⟩ := List.mem_flatMap.1 hσ
      refine ⟨item, hitem, ?_⟩
      unfold initialClosure at hspan
      split at hspan
      · next heq => exact hspan
      · simp at hspan
    · exact hbound
  | @block n bind opens =>
    refine ⟨⟨hgrows, hkeeps.frames, hkeeps.classes, hkeeps.pending⟩, hnone ?_⟩
    unfold blockBindings at opens
    split at opens <;> first | rfl | simp at opens
  | interfaceDecl extended notes => exact ⟨(hnotes notes).trans hkeeps, hnone rfl⟩

theorem rests_of_step {n n' : Node} (h : Step site (Rests site) s n n' s') :
    Rests site s n n' s' := by
  cases h with
  | read watched => exact ⟨.same rfl rfl rfl rfl, by simp [Meets, awaited, heldFunction]⟩
  | @thread span optional isPure callee callee' identity types args args' plan counter frames s₁ s₂
      resolves inside callees arguments identifies =>
    have hnext : Keeps site s { s with frames := .scope counter.nextCall.2 true :: frames } := by
      refine ⟨.refl _, ?_, rfl, fun _ h _ ↦ h⟩
      rw [inside]
      exact .cons (.scope rfl) (List.forall₂_same.2 fun frame _ ↦ .refl frame)
    have hargs := callees.1.trans (keeps_of_threadsArgs arguments)
    exact ⟨(hnext.trans hargs).trans (.same rfl rfl rfl rfl),
      by simp [Meets, awaited, heldFunction]⟩
  | @memo span head typeParams this params result body f' sig s₁ s' form signed memoises =>
    obtain ⟨hsigned, hsettled⟩ := keeps_of_signs signed
    have hmemo := keeps_of_memoises memoises
    refine ⟨hsigned.trans hmemo, fun σ hσ hd hp ↦ ?_⟩
    obtain rfl : σ = span := by simpa [awaited, heldFunction, form] using hσ
    exact hsettled hd (hmemo.pending σ hp hd)
  | within enters parts =>
    obtain ⟨hkeeps, hmet⟩ := rests_of_threads parts.children
    exact rests_of_enters enters hkeeps hmet

theorem Walks.rests {n n' : Node} (h : Walks site s n n' s') : Rests site s n n' s' :=
  h.induct (R := Rests site) fun hstep ↦ rests_of_step (hstep.mono And.right)

theorem Walks.keeps {n n' : Node} (h : Walks site s n n' s') : Keeps site s s' :=
  h.rests.1

theorem Keeps.parentName_eq (h : Keeps site s s') (file : String) :
    parentName file s'.frames = parentName file s.frames := by
  have hframes := h.frames
  generalize s.frames = fs, s'.frames = gs at hframes
  induction hframes with
  | nil => rfl
  | cons head _ ih =>
    cases head with
    | boundary => exact ih
    | scope name => exact name

end

def isFunction : Node → Bool
  | .func _ head _ _ _ _ _ => head.form ≠ .signature
  | _ => false

/-- The frame in which the parts of an ordinary function or method are walked. -/
inductive OwnFrame (site : Site) (s : State) : Node → Frame → Prop
  | function {span : Span} {head : FuncHead} {typeParams : List Node} {this : Option Node}
      {params : List Param} {result : Option Ty} {body : Node} (form : head.form ≠ .signature) :
      OwnFrame site s (.func span head typeParams this params result body) (plainFrame site s head.name)
  | method {span : Span} {kind : MethodKind} {mods : Modifiers} {decorators : List Expr} {key f : Node}
      (plain : (memberMarkers site span decorators).isMemoLike = false) :
      OwnFrame site s (.method span kind mods decorators key f)
        (.scope { name := methodName site s key } false)

section

variable {site : Site} {s s₁ : State} {n : Node}

theorem OwnFrame.not_threading {frame : Frame} (h : OwnFrame site s n frame) (counter : SiteCounter) :
    frame ≠ .scope counter true := by
  cases h with
  | function form =>
    unfold plainFrame
    split
    · split <;> simp
    · simp
  | method plain => simp

theorem isFunction_eq_false (h : ∀ frame, ¬OwnFrame site s n frame) : isFunction n = false := by
  unfold isFunction
  split
  · exact decide_eq_false fun form ↦ h _ (.function form)
  · rfl

/-- The parts of a node that is gone on with belong to the same function as the node, or to an ordinary
one. -/
theorem frames_of_enters {n₁ : Node} {leave : State → State} (h : Enters site s n n₁ s₁ leave) :
    ((∀ frame, ¬OwnFrame site s n frame) ∧ s₁.frames = s.frames ∧
        ∀ s₂, (leave s₂).frames = s₂.frames) ∨
      ∃ frame, OwnFrame site s n frame ∧ s₁.frames = frame :: s.frames ∧
        ∀ s₂, (leave s₂).frames = s₂.frames.tail := by
  have hnotes {p : Prop} {s₁ : State} (hn : Notes p s s₁) : s₁.frames = s.frames := by
    obtain ⟨-, rfl⟩ | rfl := hn <;> rfl
  cases h with
  | passive passive =>
    refine .inl ⟨fun frame hframe ↦ ?_, rfl, fun _ ↦ rfl⟩
    cases hframe <;> simp [isPassive] at passive
  | signature form =>
    refine .inl ⟨fun frame hframe ↦ ?_, rfl, fun _ ↦ rfl⟩
    cases hframe with
    | function form' => exact form' form
  | @function span head typeParams this params result body s₁ form plain =>
    obtain ⟨hframes, hscopes⟩ : s₁.frames = s.frames ∧ s₁.scopes = s.scopes := by
      cases plain <;> exact ⟨rfl, rfl⟩
    have hframe : plainFrame site s₁ head.name = plainFrame site s head.name := by
      simp only [plainFrame, hframes, hscopes]
    exact .inr ⟨_, .function form, by rw [State.openFunction, hframe, hframes], fun _ ↦ rfl⟩
  | method plain notes =>
    exact .inr ⟨_, .method plain, by rw [State.openFrame, hnotes notes], fun _ ↦ rfl⟩
  | memoMethod memo notes =>
    refine .inl ⟨fun frame hframe ↦ ?_, ?_, fun _ ↦ rfl⟩
    · cases hframe with
      | method plain => simp [memo] at plain
    · rw [← hnotes notes]
      split <;> rfl
  | vars redeclares notes awaits binds =>
    refine .inl ⟨by rintro _ ⟨⟩, ?_, fun _ ↦ rfl⟩
    subst binds awaits
    rw [← hnotes notes]
    split <;> split <;> rfl
  | field annotates notes => exact .inl ⟨by rintro _ ⟨⟩, hnotes notes, fun _ ↦ rfl⟩
  | param notes => exact .inl ⟨by rintro _ ⟨⟩, hnotes notes, fun _ ↦ rfl⟩
  | interfaceDecl extended notes => exact .inl ⟨by rintro _ ⟨⟩, hnotes notes, fun _ ↦ rfl⟩
  | block opens =>
    refine .inl ⟨fun frame hframe ↦ ?_, rfl, fun _ ↦ rfl⟩
    cases hframe <;> simp [blockBindings] at opens
  | _ => exact .inl ⟨by rintro _ ⟨⟩, rfl, fun _ ↦ rfl⟩

end

end Recompose.Weave
