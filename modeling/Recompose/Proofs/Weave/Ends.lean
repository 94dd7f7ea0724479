import Recompose.Proofs.Insertion

namespace Recompose.Weave

open Script

variable {α β : Type} {P : α → Prop} {Q : β → Prop} {site : Site} {self : Self}

/-- What a step leaves behind in the state, its place in the file and the counts apart. -/
inductive Note where
  | awaits (spans : List Span)
  | settles (span : Span)
  | reports (d : Diagnostic)
  | fails (f : Failure)

def State.note (s : State) : Note → State
  | .awaits spans => { s with pending := spans ++ s.pending }
  | .settles span => { s with pending := s.pending.filter (· != span) }
  | .reports d => { s with errors := s.errors ++ [d] }
  | .fails f => { s with failure := s.failure.or (some f) }

structure Upkeep where
  holds : State → Prop
  allows : Note → Prop
  stops : Prop
  quiet {s s' : State} : s'.pending = s.pending → s'.errors = s.errors → s'.failure = s.failure →
    holds s → holds s'
  noted {s : State} {note : Note} : allows note → holds s → holds (s.note note)

theorem Upkeep.reported (u : Upkeep) {ds : List Diagnostic} (h : ∀ d ∈ ds, u.allows (.reports d))
    {s s' : State} (hpending : s'.pending = s.pending) (herrors : s'.errors = s.errors ++ ds)
    (hfailure : s'.failure = s.failure) (hs : u.holds s) : u.holds s' := by
  induction ds generalizing s with
  | nil => exact u.quiet hpending (herrors.trans (List.append_nil _)) hfailure hs
  | cons d ds ih =>
    obtain ⟨hd, hds⟩ := List.forall_mem_cons.1 h
    exact ih hds (s := s.note (.reports d)) hpending (herrors.trans (List.append_cons _ _ _)) hfailure
      (u.noted hd hs)

variable {u : Upkeep}

/-- The step ends wherever it starts, and its answer has the property. -/
def Ends (u : Upkeep) (x : WeaveM α) (P : α → Prop) : Prop :=
  ∀ s : State, u.holds s → (u.stops ∧ x s = none) ∨ ∃ a s', x s = some (a, s') ∧ u.holds s' ∧ P a

abbrev Halts (u : Upkeep) (x : WeaveM α) : Prop :=
  Ends u x fun _ ↦ True

theorem Ends.mono {P' : α → Prop} {x : WeaveM α} (h : Ends u x P) (hP : ∀ a, P a → P' a) :
    Ends u x P' := by
  intro s hs
  obtain hnone | ⟨a, s', ha, hs', hPa⟩ := h s hs
  · exact .inl hnone
  · exact .inr ⟨a, s', ha, hs', hP a hPa⟩

theorem ends_pure {a : α} (h : P a) : Ends u (pure a) P :=
  fun s hs ↦ .inr ⟨a, s, rfl, hs, h⟩

theorem Ends.bind {x : WeaveM α} {f : α → WeaveM β} (hx : Ends u x P)
    (hf : ∀ a, P a → Ends u (f a) Q) : Ends u (x >>= f) Q := by
  intro s hs
  obtain ⟨hstops, hnone⟩ | ⟨a, s₁, ha, hs₁, hPa⟩ := hx s hs
  · exact .inl ⟨hstops, by simp [Bind.bind, StateT.bind, hnone]⟩
  have hbind : (x >>= f) s = f a s₁ := by simp [Bind.bind, StateT.bind, ha]
  rw [hbind]
  exact hf a hPa s₁ hs₁

theorem halts_modify {f : State → State} (hf : ∀ s, u.holds s → u.holds (f s)) :
    Halts u (modify f) :=
  fun s hs ↦ .inr ⟨(), f s, rfl, hf s hs, trivial⟩

theorem halts_quiet {f : State → State} (hpending : ∀ s, (f s).pending = s.pending)
    (herrors : ∀ s, (f s).errors = s.errors) (hfailure : ∀ s, (f s).failure = s.failure) :
    Halts u (modify f) :=
  halts_modify fun s ↦ u.quiet (hpending s) (herrors s) (hfailure s)

theorem halts_note {note : Note} (h : u.allows note) : Halts u (modify (·.note note)) :=
  halts_modify fun _ ↦ u.noted h

theorem ends_get {f : State → WeaveM β} (hf : ∀ r : State, u.holds r → Ends u (f r) Q) :
    Ends u (get >>= f) Q := by
  intro s hs
  rw [get_bind_apply]
  exact hf s hs s hs

theorem halts_mapM {f : Node → WeaveM Node} {xs : List Node} (h : ∀ x ∈ xs, Halts u (f x)) :
    Halts u (xs.mapM f) := by
  induction xs with
  | nil => exact ends_pure trivial
  | cons x xs ih =>
    rw [List.mapM_cons]
    refine (h x List.mem_cons_self).bind fun _ _ ↦ ?_
    exact (ih fun y hy ↦ h y (List.mem_cons_of_mem _ hy)).bind fun _ _ ↦ ends_pure trivial

theorem halts_option_mapM {f : Node → WeaveM Node} {part : Option Node}
    (h : ∀ x ∈ part.toList, Halts u (f x)) : Halts u (part.mapM f) := by
  cases part with
  | none => exact ends_pure trivial
  | some x =>
    rw [Option.mapM_some, map_eq_pure_bind]
    exact (h x (by simp)).bind fun _ _ ↦ ends_pure trivial

theorem halts_mapChildren {f : Node → WeaveM Node} {n : Node} (h : ∀ part ∈ n.children, Halts u (f part)) :
    Halts u (n.mapChildren f) := by
  cases n
  case ascribe span how value type =>
    simp only [Node.children] at h
    simp only [Node.mapChildren]
    have hvalue : Halts u (f value) := h value (by split <;> simp)
    have htype : Halts u (f type) := h type (by split <;> simp)
    split
    · exact htype.bind fun _ _ ↦ hvalue.bind fun _ _ ↦ ends_pure trivial
    · exact hvalue.bind fun _ _ ↦ htype.bind fun _ _ ↦ ends_pure trivial
  all_goals
    simp only [Node.children] at h
    simp only [Node.mapChildren]
    repeat' first
      | with_reducible exact ends_pure trivial
      | with_reducible refine Ends.bind (P := fun _ ↦ True) ?_ fun _ _ ↦ ?_
      | with_reducible refine halts_mapM fun x hx ↦ h x ?_
      | with_reducible refine halts_option_mapM fun x hx ↦ h x ?_
      | with_reducible refine h _ ?_
    all_goals simp_all

theorem halts_touch : Halts u touch :=
  halts_quiet (fun _ ↦ rfl) (fun _ ↦ rfl) fun _ ↦ rfl

theorem halts_modifyScopes (f : Scopes → Scopes) : Halts u (modifyScopes f) :=
  halts_quiet (fun _ ↦ rfl) (fun _ ↦ rfl) fun _ ↦ rfl

theorem halts_modifyStats (f : Stats → Stats) : Halts u (modifyStats f) :=
  halts_quiet (fun _ ↦ rfl) (fun _ ↦ rfl) fun _ ↦ rfl

theorem ends_between {enter leave : State → State} {x : WeaveM α} (henter : Halts u (modify enter))
    (hleave : Halts u (modify leave)) (hx : Ends u x P) :
    Ends u (modify enter >>= fun _ ↦ x >>= fun a ↦ modify leave >>= fun _ ↦ pure a) P :=
  henter.bind fun _ _ ↦ hx.bind fun _ ha ↦ hleave.bind fun _ _ ↦ ends_pure ha

theorem ends_inBlock {x : WeaveM α} (hx : Ends u x P) : Ends u (inBlock x) P :=
  ends_between (halts_modifyScopes _) (halts_modifyScopes _) hx

theorem ends_inFunction {x : WeaveM α} (hx : Ends u x P) : Ends u (inFunction x) P :=
  ends_between (halts_modifyScopes _) (halts_modifyScopes _) hx

theorem halts_modifyFrames (f : List Frame → List Frame) :
    Halts u (modify fun s : State ↦ { s with frames := f s.frames }) :=
  halts_quiet (fun _ ↦ rfl) (fun _ ↦ rfl) fun _ ↦ rfl

theorem ends_inFrame {frame : Frame} {x : WeaveM α} (hx : Ends u x P) : Ends u (inFrame frame x) P :=
  ends_between (halts_modifyFrames (frame :: ·)) (halts_modifyFrames List.tail) hx

theorem ends_inClass {name : String} {x : WeaveM α} (hx : Ends u x P) : Ends u (inClass name x) P :=
  ends_between (halts_quiet (fun _ ↦ rfl) (fun _ ↦ rfl) fun _ ↦ rfl)
    (halts_quiet (fun _ ↦ rfl) (fun _ ↦ rfl) fun _ ↦ rfl) hx

theorem ends_record {e : Except Failure α} (h : ∀ f, e = .error f → u.allows (.fails f)) :
    Ends u (record e) fun r ↦ ∀ a, r = some a → e = .ok a := by
  cases e with
  | ok a =>
    refine ends_pure fun b hb ↦ ?_
    rw [Option.some.inj hb]
  | error failure =>
    have hkeep : Halts u (modify (·.note (.fails failure))) := halts_note (h failure rfl)
    exact hkeep.bind fun _ _ ↦ ends_pure fun a ha ↦ absurd ha (by simp)

def Breach.diagnostic (site : Site) (b : Breach) : Diagnostic where
  code := b.rule.code
  message := b.message
  file := site.options.filePath
  position := .ofOffset site.source b.offset
  hints := b.hints

theorem halts_report {b : Breach} (h : u.allows (.reports (b.diagnostic site))) :
    Halts u (report site b.rule b.message b.offset b.hints) :=
  halts_note h

theorem halts_reportAll {bs : List Breach} (h : ∀ b ∈ bs, u.allows (.reports (b.diagnostic site))) :
    Halts u (reportAll site bs) := by
  induction bs with
  | nil => exact ends_pure trivial
  | cons b bs ih =>
    obtain ⟨hb, hbs⟩ := List.forall_mem_cons.1 h
    exact (halts_report hb).bind fun _ _ ↦ ih hbs

/-- What threading may make of a type, other than the type itself. -/
def threadedTypes (site : Site) (type : Ty) : List Ty :=
  (Glue.hiddenParameters site.options.runtime).toOption.toList.map (addToFunctionType · type)

theorem threadedTypes_eq {hidden : List Param}
    (h : Glue.hiddenParameters site.options.runtime = .ok hidden) (type : Ty) :
    threadedTypes site type = [addToFunctionType hidden type] := by
  rw [threadedTypes, h]
  rfl

def Upkeep.Hides (u : Upkeep) (site : Site) : Prop :=
  ∀ f, Glue.hiddenParameters site.options.runtime = .error f → u.allows (.fails f)

theorem ends_threadType (h : u.Hides site) (type : Ty) :
    Ends u (threadType site type) fun type' ↦ type' = type ∨ type' ∈ threadedTypes site type := by
  have hkept : Ends u (pure type : WeaveM Ty) fun type' ↦
      type' = type ∨ type' ∈ threadedTypes site type := ends_pure (Or.inl rfl)
  unfold threadType
  split
  · exact hkept
  · split
    · exact hkept
    · refine (ends_record h).bind fun r hr ↦ ?_
      split
      · exact hkept
      · next hidden =>
        refine halts_touch.bind fun _ _ ↦ ends_pure ?_
        have hread := hr hidden rfl
        rw [threadedTypes_eq hread]
        exact Or.inr (List.mem_singleton_self _)

theorem halts_threadParams (h : u.Hides site) (positions : List Nat) (index : Nat)
    (params : List Param) : Halts u (threadParams site positions index params) := by
  induction params generalizing index with
  | nil => exact ends_pure trivial
  | cons param params ih =>
    have hparam : Halts u (threadParam site param) := by
      unfold threadParam
      split
      · exact (ends_threadType h _).bind fun _ _ ↦ ends_pure trivial
      · exact ends_pure trivial
    unfold threadParams
    dsimp only
    split
    · exact hparam.bind fun _ _ ↦ (ih _).bind fun _ _ ↦ ends_pure trivial
    · exact (ih _).bind fun _ _ ↦ ends_pure trivial

def enclosedStmts (site : Site) (stmts : List Stmt) : List Stmt :=
  match (Condition.run (conditionSettings site) stmts).1 with
  | .ok enclosed => enclosed
  | .error _ => []

/-- What the walk goes into when it weaves a function with this body. -/
def bodyNeeds (site : Site) (sig : Signature) (body : Node) : List Node :=
  if sig.mode = .memo then
    if sig.reifies then enclosedStmts site (bodyParts body).2.2 else (bodyParts body).2.2
  else body.children

def foundBreaches (site : Site) (sig : Signature) (head : FuncHead) (params : List Param)
    (start : Nat) : List Breach :=
  match suspensionBreach? sig head start with
  | some b => [b]
  | none => breaches site.options.runtime sig params start

def returnKindOf (site : Site) (result : Option Ty) (body : Node) : ReturnKind :=
  .ofType (result.bind (typeText? site.source)) (returnsValue (bodyParts body).2.2)

inductive MemoNote (site : Site) (sig : Signature) : Func → Note → Prop
  | breach {span : Span} {head : FuncHead} {typeParams : List Node} {this : Option Node}
      {params : List Param} {result : Option Ty} {body : Node} {b : Breach}
      (found : b ∈ foundBreaches site sig head params span.start) :
      MemoNote site sig (.func span head typeParams this params result body)
        (.reports (b.diagnostic site))
  | hazard {span : Span} {head : FuncHead} {typeParams : List Node} {this : Option Node}
      {params : List Param} {result : Option Ty} {body : Node} {d : Diagnostic}
      (found : d ∈ (Condition.run (conditionSettings site) (bodyParts body).2.2).2.errors) :
      MemoNote site sig (.func span head typeParams this params result body) (.reports d)
  | enclosing {span : Span} {head : FuncHead} {typeParams : List Node} {this : Option Node}
      {params : List Param} {result : Option Ty} {body : Node} {f : Failure}
      (failed : (Condition.run (conditionSettings site) (bodyParts body).2.2).1 = .error f) :
      MemoNote site sig (.func span head typeParams this params result body) (.fails f)
  | hidden {func : Func} {f : Failure}
      (failed : Glue.hiddenParameters site.options.runtime = .error f) :
      MemoNote site sig func (.fails f)
  | wrapping {span : Span} {head : FuncHead} {typeParams : List Node} {this : Option Node}
      {params : List Param} {result : Option Ty} {body : Node} {stmts : List Stmt} {f : Failure}
      (mode : sig.mode = .memo)
      (failed : CacheScope.wrap site.options.runtime sig.offset (returnKindOf site result body)
        sig.parameters.registered stmts = .error f) :
      MemoNote site sig (.func span head typeParams this params result body) (.fails f)

theorem ne_awaits_of_memoNote {sig : Signature} {func : Func} {note : Note}
    (h : MemoNote site sig func note) (spans : List Span) : note ≠ .awaits spans := by
  cases h <;> simp

theorem ends_encloseConditions {stmts : List Stmt}
    (hreports : ∀ d ∈ (Condition.run (conditionSettings site) stmts).2.errors, u.allows (.reports d))
    (hfails : ∀ f, (Condition.run (conditionSettings site) stmts).1 = .error f →
      u.allows (.fails f)) :
    Ends u (encloseConditions site stmts) fun r ↦ ∀ e, r = some e → e = enclosedStmts site stmts := by
  have hnote : Halts u (modify fun s : State ↦ { s with
      errors := s.errors ++ (Condition.run (conditionSettings site) stmts).2.errors
      stats := { s.stats with reifiedChains := s.stats.reifiedChains +
        (Condition.run (conditionSettings site) stmts).2.enclosed } }) :=
    halts_modify fun s hs ↦ u.reported (s := s) hreports rfl rfl rfl hs
  refine hnote.bind fun _ _ ↦ (ends_record hfails).mono fun r hr e he ↦ ?_
  have hok : (Condition.run (conditionSettings site) stmts).1 = .ok e := hr e he
  rw [enclosedStmts, hok]

theorem ends_inMemoBody {sig : Signature} {params : List Param} {stmts : List Stmt} {x : WeaveM α}
    (hx : Ends u x P) : Ends u (inMemoBody site sig params stmts x) P :=
  ends_inFunction ((halts_modifyScopes _).bind fun _ _ ↦ ends_inFrame hx)

section

variable {sig : Signature} {span : Span} {head : FuncHead} {typeParams : List Node}
  {this : Option Node} {params : List Param} {result : Option Ty} {body : Node}
  (hnotes : ∀ note, MemoNote site sig (.func span head typeParams this params result body) note →
    u.allows note)

include hnotes

theorem halts_wrappedBody {params' : List Param} (hmode : sig.mode = .memo)
    (hself : ∀ m ∈ bodyNeeds site sig body, Halts u (self m)) :
    Halts u (wrappedBody site self sig params' result body) := by
  rw [bodyNeeds, if_pos hmode] at hself
  have hwalk (stmts : List Stmt) (h : ∀ m ∈ stmts, Halts u (self m)) :
      Halts u (inMemoBody site sig params' stmts (stmts.mapM self)) :=
    ends_inMemoBody (halts_mapM h)
  have hwrap (stmts : List Stmt) : Ends u (record (CacheScope.wrap site.options.runtime sig.offset
      (returnKindOf site result body) sig.parameters.registered stmts)) _ :=
    ends_record fun f hf ↦ hnotes _ (.wrapping hmode hf)
  unfold wrappedBody
  dsimp only
  split
  · next hreifies =>
    rw [if_pos hreifies] at hself
    refine (ends_encloseConditions (fun d hd ↦ hnotes _ (.hazard hd))
      fun f hf ↦ hnotes _ (.enclosing hf)).bind fun r hr ↦ ?_
    split
    · exact ends_pure trivial
    · next enclosed =>
      obtain rfl := hr enclosed rfl
      exact (hwalk _ hself).bind fun stmts _ ↦ (hwrap stmts).bind fun _ _ ↦ ends_pure trivial
  · next hreifies =>
    rw [if_neg hreifies] at hself
    rw [pure_bind]
    exact (hwalk _ hself).bind fun stmts _ ↦ (hwrap stmts).bind fun _ _ ↦ ends_pure trivial

theorem halts_finishFunction (params' : List Param) : Halts u (finishFunction site sig params') := by
  unfold finishFunction
  split
  · exact (halts_modifyStats _).bind fun _ _ ↦ ends_pure trivial
  · refine (ends_record fun f hf ↦ hnotes _ (.hidden hf)).bind fun r _ ↦ ?_
    split
    · exact ends_pure trivial
    · exact (halts_modifyStats _).bind fun _ _ ↦ ends_pure trivial

theorem halts_memoFunction (hself : ∀ m ∈ bodyNeeds site sig body, Halts u (self m)) :
    Halts u (memoFunction site self sig (.func span head typeParams this params result body)) := by
  have hreport (bs : List Breach) (hbs : foundBreaches site sig head params span.start = bs) :
      Halts u (reportAll site bs) :=
    halts_reportAll fun b hb ↦ hnotes _ (.breach (hbs ▸ hb))
  unfold foundBreaches at hreport
  unfold memoFunction
  refine halts_touch.bind fun _ _ ↦ ?_
  dsimp only
  split
  · next b hb => exact (hreport [b] (by rw [hb])).bind fun _ _ ↦ ends_pure trivial
  next hnone =>
  split
  · exact (hreport _ (by rw [hnone])).bind fun _ _ ↦ ends_pure trivial
  refine (halts_threadParams (fun f hf ↦ hnotes _ (.hidden hf)) _ _ _).bind fun params' _ ↦ ?_
  split
  · exact ends_pure trivial
  split
  · next hmode =>
    refine (halts_wrappedBody hnotes hmode hself).bind fun r _ ↦ ?_
    split
    · exact (halts_finishFunction hnotes _).bind fun _ _ ↦ ends_pure trivial
    · exact ends_pure trivial
  · next hmode =>
    have hbody : Halts u (bareBody site self sig params' body) := by
      rw [bodyNeeds, if_neg hmode] at hself
      exact ends_inMemoBody (halts_mapChildren hself)
    exact hbody.bind fun _ _ ↦ (halts_finishFunction hnotes _).bind fun _ _ ↦ ends_pure trivial

end

/-- What the walk may go into when it weaves a function that is declared or marked. -/
def funcNeeds (site : Site) (body : Node) : List Node :=
  enclosedStmts site (bodyParts body).2.2 ++ body.children

inductive Bears (site : Site) (span : Span) (form : FuncForm) (params : List Param) :
    Signature → Prop
  | declared {d : MemoDeclaration} (found : site.graph.nodeAt? span = some d) :
      Bears site span form params (.ofDeclaration d)
  | marked {name : String} {mode : MemoMode} :
      Bears site span form params (.ofClosure site name mode params form span.start true)

theorem Bears.reifies {span : Span} {form : FuncForm} {params : List Param} {sig : Signature}
    (h : Bears site span form params sig) : sig.reifies = true := by
  cases h <;> rfl

/-- The signature is that of the declaration at the span. Where there is none, its mode comes from a marker
or, in a state that may be come to, from the declaration around. -/
def Upkeep.Marks (u : Upkeep) (site : Site) (span : Span) (sig : Signature) : Prop :=
  match site.graph.nodeAt? span with
  | some d => sig = .ofDeclaration d
  | none => ∃ s, u.holds s ∧ modeAt? site s span = some sig.mode

theorem halts_nextClosureName : Halts u nextClosureName := by
  refine ends_get fun r _ ↦ ?_
  split
  · exact (halts_modifyFrames fun _ ↦ _).bind fun _ _ ↦ ends_pure trivial
  · exact ends_pure trivial

theorem ends_signatureFor {span : Span} (h : u.allows (.settles span)) (form : FuncForm)
    (params : List Param) :
    Ends u (signatureFor site span form params) fun r ↦
      ∀ sig, r = some sig → Bears site span form params sig ∧ u.Marks site span sig := by
  unfold signatureFor
  split
  · next hfound =>
    refine ends_pure fun sig hsig ↦ ?_
    obtain rfl := Option.some.inj hsig
    exact ⟨.declared hfound, by rw [Upkeep.Marks, hfound]⟩
  · next hnone =>
    refine ends_get fun r hr ↦ ?_
    have hsettle : Halts u (modify (·.note (.settles span))) := halts_note h
    refine hsettle.bind fun _ _ ↦ ?_
    dsimp only
    split
    · exact ends_pure fun sig hsig ↦ absurd hsig (by simp)
    · next mode hmode =>
      refine halts_nextClosureName.bind fun name _ ↦ ?_
      split
      · exact ends_pure fun sig hsig ↦ absurd hsig (by simp)
      · refine ends_pure fun sig hsig ↦ ?_
        obtain rfl := Option.some.inj hsig
        exact ⟨.marked, by rw [Upkeep.Marks, hnone]; exact ⟨r, hr, hmode⟩⟩

theorem halts_function {span : Span} {head : FuncHead} {typeParams : List Node}
    {this : Option Node} {params : List Param} {result : Option Ty} {body : Node}
    (hsettles : u.allows (.settles span))
    (hnotes : head.form ≠ .signature → ∀ sig, Bears site span head.form params sig →
      u.Marks site span sig → ∀ note,
      MemoNote site sig (.func span head typeParams this params result body) note → u.allows note)
    (hparts : ∀ m ∈ (Node.func span head typeParams this params result body).children,
      Halts u (self m))
    (hbody : ∀ m ∈ funcNeeds site body, Halts u (self m)) :
    Halts u (function site self span head typeParams this params result body) := by
  unfold function
  dsimp only
  split
  · exact halts_mapChildren hparts
  · next hform =>
    refine (ends_signatureFor hsettles _ _).bind fun r hr ↦ ?_
    split
    · next sig =>
      obtain ⟨hsig, hmarks⟩ := hr sig rfl
      refine halts_memoFunction (hnotes hform sig hsig hmarks) fun m hm ↦ hbody m ?_
      rw [bodyNeeds, if_pos hsig.reifies] at hm
      split at hm
      · exact List.mem_append_left _ hm
      · exact List.mem_append_right _ hm
    · refine ends_get fun r _ ↦ ends_inFrame (ends_inFunction ?_)
      exact (halts_modifyScopes _).bind fun _ _ ↦ halts_mapChildren hparts

/-- What the walk may go into when an argument is made a memo function. -/
def argNeeds (site : Site) (reifies : Bool) : Expr → List Node
  | .func _ _ _ _ _ _ body =>
    if reifies then enclosedStmts site (bodyParts body).2.2 else (bodyParts body).2.2
  | _ => []

/-- What may be noted when an argument is made a memo function. -/
inductive ArgNote (site : Site) : Expr → Note → Prop
  | intro {span : Span} {head : FuncHead} {typeParams : List Node} {this : Option Node}
      {params : List Param} {result : Option Ty} {body : Node} {name : String} {reifies : Bool}
      {note : Note}
      (closure : (Node.func span head typeParams this params result body).isClosure = true)
      (memo : MemoNote site (.ofClosure site name .memo params head.form span.start reifies)
        (.func span head typeParams this params result body) note) :
      ArgNote site (.func span head typeParams this params result body) note

theorem halts_threadArgs {plan : CallPlan} {parent : String} {ordinal index : Nat} {args : List Expr}
    (hnotes : ∀ arg ∈ args, ∀ note, ArgNote site arg note → u.allows note)
    (hparts : ∀ arg ∈ args, Halts u (self arg))
    (hneeds : ∀ arg ∈ args, ∀ m ∈ argNeeds site plan.reifies arg, Halts u (self m)) :
    Halts u (threadArgs site self plan parent ordinal index args) := by
  induction args generalizing index with
  | nil => exact ends_pure trivial
  | cons arg args ih =>
    have hclosure (harg : arg.isClosure = true) : Halts u (builderClosure site self
        (QualifiedName.nested parent ordinal index) plan.reifies arg) := by
      unfold builderClosure
      split
      · refine halts_memoFunction (fun note hnote ↦ hnotes _ List.mem_cons_self note ⟨harg, hnote⟩)
          fun m hm ↦ hneeds _ List.mem_cons_self m ?_
        exact hm
      · exact hparts _ List.mem_cons_self
    have hrest : Halts u (threadArgs site self plan parent ordinal (index + 1) args) :=
      ih (fun arg hm ↦ hnotes arg (List.mem_cons_of_mem _ hm))
        (fun arg hm ↦ hparts arg (List.mem_cons_of_mem _ hm))
        fun arg hm ↦ hneeds arg (List.mem_cons_of_mem _ hm)
    unfold threadArgs
    dsimp only
    split
    · next hbuilds =>
      exact (hclosure (Bool.and_eq_true_iff.1 hbuilds).1).bind fun _ _ ↦ hrest.bind fun _ _ ↦
        ends_pure trivial
    · exact (hparts arg List.mem_cons_self).bind fun _ _ ↦ hrest.bind fun _ _ ↦ ends_pure trivial

theorem halts_nextCall : Halts u nextCall := by
  refine ends_get fun r _ ↦ ?_
  split
  · exact (halts_modifyFrames fun _ ↦ _).bind fun _ _ ↦ ends_pure trivial
  · exact ends_pure trivial

def Upkeep.Identifies (u : Upkeep) (site : Site) : Prop :=
  ∀ parent ordinal f, Glue.identityArgument site.options.runtime
    (site.identity.callSite parent ordinal) = .error f → u.allows (.fails f)

theorem halts_call {span : Span} {how : Application} {callee : Expr} {types args : List Node}
    (hidentity : u.Identifies site)
    (hparts : ∀ m ∈ (Node.apply span how callee types args).children, Halts u (self m))
    (hneeds : ∀ scopes classes plan, resolveCall? site scopes classes callee args.length = some plan →
      ∀ parent ordinal, Halts u (threadArgs site self plan parent ordinal 0 args)) :
    Halts u (call site self span how callee types args) := by
  have hcallee : Halts u (self callee) := hparts callee (by simp [Node.children])
  refine ends_get fun _ _ ↦ ?_
  split
  · next plan hplan =>
    split
    · refine halts_nextCall.bind fun r _ ↦ ?_
      split
      · exact ends_pure trivial
      · next parent ordinal =>
        refine hcallee.bind fun _ _ ↦ (hneeds _ _ plan hplan parent ordinal).bind fun _ _ ↦ ?_
        refine (ends_record (hidentity parent ordinal)).bind fun r _ ↦ ?_
        split
        · exact ends_pure trivial
        · exact halts_touch.bind fun _ _ ↦ (halts_modifyStats _).bind fun _ _ ↦ ends_pure trivial
    · exact halts_mapChildren hparts
  · exact halts_mapChildren hparts

theorem ends_dropMarkers (decorators : List Expr) :
    Ends u (dropMarkers decorators) fun kept ↦ kept = withoutMarkers decorators := by
  unfold dropMarkers
  dsimp only
  split
  · exact halts_touch.bind fun _ _ ↦ ends_pure rfl
  · exact ends_pure rfl

theorem halts_addPending {spans : List Span} (h : u.allows (.awaits spans)) :
    Halts u (addPending spans) :=
  halts_note h

theorem halts_bindHead (n : Node) : Halts u (bindHead n) := by
  unfold bindHead
  split
  · exact halts_modifyScopes _
  · exact ends_pure trivial

theorem halts_method {span : Span} {kind : MethodKind} {mods : Modifiers} {decorators : List Expr}
    {key f : Node}
    (hawaits : (memberMarkers site span decorators).isMemoLike = true →
      u.allows (.awaits (heldFunction f)))
    (hreports : ∀ message, u.allows (.reports
      (Breach.diagnostic site { rule := .unsupported, message, offset := span.start })))
    (hparts : ∀ m ∈ (Node.method span kind mods decorators key f).children, Halts u (self m)) :
    Halts u (method site self span kind mods decorators key f) := by
  have hkept : ∀ m ∈ (Node.method span kind mods (withoutMarkers decorators) key f).children,
      Halts u (self m) := by
    intro m hm
    refine hparts m ?_
    simp only [Node.children, List.mem_append] at hm ⊢
    exact hm.imp_left List.mem_of_mem_filter
  unfold method
  refine (ends_dropMarkers decorators).bind ?_
  rintro _ rfl
  refine ends_get fun _ _ ↦ ?_
  dsimp only
  split
  · exact ends_inFrame (halts_mapChildren hkept)
  next hmarked =>
  split
  · exact (halts_report (hreports _)).bind fun _ _ ↦ ends_pure trivial
  split
  · have hmarked : (memberMarkers site span decorators).isMemoLike = true := by
      simpa [memberMarkers] using hmarked
    exact (halts_addPending (hawaits hmarked)).bind fun _ _ ↦ halts_mapChildren hkept
  · exact halts_mapChildren hkept

theorem halts_field {span : Span} {mods : Modifiers} {decorators : List Expr} {key : Node}
    {type : Option Ty} {init : Option Expr} (hhidden : u.Hides site)
    (hparts : ∀ m ∈ (Node.field span false mods decorators key type init).children, Halts u (self m))
    (htypes : ∀ t ∈ type.toList, ∀ m ∈ threadedTypes site t, Halts u (self m)) :
    Halts u (field site self span mods decorators key type init) := by
  have hnode (type' : Option Ty) (h : ∀ m ∈ type'.toList, Halts u (self m)) :
      Halts u (dropMarkers decorators >>= fun kept ↦
        (Node.field span false mods kept key type' init).mapChildren self) := by
    refine (ends_dropMarkers decorators).bind ?_
    rintro _ rfl
    refine halts_mapChildren fun m hm ↦ ?_
    simp only [Node.children, List.mem_append] at hm hparts
    rcases hm with ((hm | hm) | hm) | hm
    · exact hparts m (.inl (.inl (.inl (List.mem_of_mem_filter hm))))
    · exact hparts m (.inl (.inl (.inr hm)))
    · exact h m hm
    · exact hparts m (.inr hm)
  have hkept : ∀ m ∈ type.toList, Halts u (self m) := by
    intro m hm
    refine hparts m ?_
    simp only [Node.children, List.mem_append]
    exact .inl (.inr hm)
  unfold field
  dsimp only
  split
  · cases type with
    | none => exact hnode none hkept
    | some type =>
      refine Ends.bind (P := fun type' ↦ ∀ m ∈ type'.toList, Halts u (self m)) ?_ hnode
      rw [Option.mapM_some, map_eq_pure_bind]
      refine (ends_threadType hhidden type).bind fun type' htype' ↦ ends_pure fun m hm ↦ ?_
      obtain rfl : m = type' := by simpa [eq_comm] using hm
      rcases htype' with rfl | htype'
      · exact hkept _ (by simp)
      · exact htypes type (by simp) m htype'
  · exact hnode type hkept

/-- What threading may make of a declarator, other than itself. -/
def threadedDeclarators (site : Site) : Node → List Node
  | .declarator span target definite (some type) init =>
    (threadedTypes site type).map fun type ↦ .declarator span target definite (some type) init
  | _ => []

theorem ends_threadDeclarator (h : u.Hides site) (item : Node) :
    Ends u (threadDeclarator site item) fun item' ↦
      (item' = item ∨ item' ∈ threadedDeclarators site item) ∧
        initialClosure item' = initialClosure item := by
  unfold threadDeclarator
  split
  · next span target definite type init =>
    refine (ends_threadType h type).bind fun type' htype' ↦ ends_pure ⟨?_, ?_⟩
    · rcases htype' with rfl | htype'
      · exact .inl rfl
      · exact .inr (List.mem_map_of_mem htype')
    · cases init <;> rfl
  · exact ends_pure ⟨.inl rfl, rfl⟩

theorem ends_each {f : Node → WeaveM Node} {R : Node → Node → Prop} {xs : List Node}
    (h : ∀ x ∈ xs, Ends u (f x) (R x)) : Ends u (xs.mapM f) (List.Forall₂ R xs) := by
  induction xs with
  | nil => exact ends_pure .nil
  | cons x xs ih =>
    rw [List.mapM_cons]
    refine (h x List.mem_cons_self).bind fun y hy ↦ ?_
    exact (ih fun z hz ↦ h z (List.mem_cons_of_mem _ hz)).bind fun ys hys ↦ ends_pure (.cons hy hys)

theorem flatMap_eq_of_forall₂ {f : Node → List Span} {items items' : List Node}
    (h : List.Forall₂ (fun item item' ↦ f item' = f item) items items') :
    items'.flatMap f = items.flatMap f := by
  induction h with
  | nil => rfl
  | cons hitem _ ih => rw [List.flatMap_cons, List.flatMap_cons, hitem, ih]

theorem halts_declareVariables {span : Span} {kind : VarKind} {declared : Bool} {items : List Node}
    (hhidden : u.Hides site)
    (hawaits : (site.annotations.markers span.start).isMemoLike = true →
      u.allows (.awaits (items.flatMap initialClosure)))
    (hitems : ∀ item ∈ items, Halts u (self item))
    (hthreaded : ∀ item ∈ items, ∀ m ∈ threadedDeclarators site item, Halts u (self m)) :
    Halts u (declareVariables site self span kind declared items) := by
  let Fits (items' : List Node) : Prop :=
    (∀ m ∈ items', Halts u (self m)) ∧ items'.flatMap initialClosure = items.flatMap initialClosure
  have hthread : Ends u (items.mapM (threadDeclarator site)) Fits := by
    refine (ends_each fun item _ ↦ ends_threadDeclarator hhidden item).mono fun items' h ↦ ⟨?_, ?_⟩
    · intro m hm
      obtain ⟨item, hitem, hm, -⟩ := exists_of_forall₂_right h hm
      rcases hm with rfl | hm
      · exact hitems _ hitem
      · exact hthreaded item hitem m hm
    · exact flatMap_eq_of_forall₂ (h.imp fun _ _ hitem ↦ hitem.2)
  have hrest (items' : List Node) (h : Fits items') :
      Halts u (do
        if (site.annotations.markers span.start).isMemoLike then
          addPending (items'.flatMap initialClosure)
        if kind = .hoisted then modifyScopes (·.bindVars (Node.declaredNames items'))
        (Node.vars span kind declared items').mapChildren self) := by
    have hwalk : Halts u ((Node.vars span kind declared items').mapChildren self) :=
      halts_mapChildren h.1
    have hbind : Halts u (do
        if kind = .hoisted then modifyScopes (·.bindVars (Node.declaredNames items'))
        (Node.vars span kind declared items').mapChildren self) := by
      split
      · exact (halts_modifyScopes _).bind fun _ _ ↦ hwalk
      · exact hwalk
    dsimp only
    by_cases hmarked : (site.annotations.markers span.start).isMemoLike = true
    · rw [if_pos hmarked, h.2]
      exact (halts_addPending (hawaits hmarked)).bind fun _ _ ↦ hbind
    · rw [if_neg hmarked]
      exact hbind
  unfold declareVariables
  dsimp only
  split
  · exact hthread.bind hrest
  · exact hrest items ⟨hitems, rfl⟩

/-- What the walk may make of a name that an interface extends, other than itself. -/
def extendedNames (site : Site) : Node → List Node
  | .typeRef span (name :: path) args =>
    [.typeRef span (site.options.runtime.parameter name :: site.options.runtime.value :: path) args]
  | _ => []

theorem ends_extendedInterface (n : Node) :
    Ends u (extendedInterface site n) fun n' ↦ n' = n ∨ n' ∈ extendedNames site n := by
  unfold extendedInterface
  split
  · refine ends_get fun _ _ ↦ ?_
    split
    · exact halts_touch.bind fun _ _ ↦ ends_pure (Or.inr (List.mem_singleton_self _))
    · exact ends_pure (Or.inl rfl)
  · exact ends_pure (Or.inl rfl)

/-- What the walk may go into from a node. -/
def stepNeeds (site : Site) (n : Node) : List Node :=
  n.children ++
  match n with
  | .func _ _ _ _ _ _ body => funcNeeds site body
  | .apply _ (.call _ _) _ _ args =>
    args.flatMap (argNeeds site true) ++ args.flatMap (argNeeds site false)
  | .field _ _ _ _ _ type _ => type.toList.flatMap (threadedTypes site)
  | .vars _ _ _ items => items.flatMap (threadedDeclarators site)
  | .interfaceDecl _ _ _ _ parents _ => parents.flatMap (extendedNames site)
  | _ => []

/-- What the walk may note when it comes to a node. -/
inductive StepNote (u : Upkeep) (site : Site) : Node → Note → Prop
  | settles {span : Span} {head : FuncHead} {typeParams : List Node} {this : Option Node}
      {params : List Param} {result : Option Ty} {body : Node} :
      StepNote u site (.func span head typeParams this params result body) (.settles span)
  | function {span : Span} {head : FuncHead} {typeParams : List Node} {this : Option Node}
      {params : List Param} {result : Option Ty} {body : Node} {sig : Signature} {note : Note}
      (form : head.form ≠ .signature) (bears : Bears site span head.form params sig)
      (marks : u.Marks site span sig)
      (memo : MemoNote site sig (.func span head typeParams this params result body) note) :
      StepNote u site (.func span head typeParams this params result body) note
  | argument {span : Span} {how : Application} {callee : Expr} {types args : List Node} {arg : Expr}
      {scopes : Scopes} {classes : List String} {plan : CallPlan} {note : Note} (mem : arg ∈ args)
      (resolves : resolveCall? site scopes classes callee args.length = some plan)
      (built : ArgNote site arg note) :
      StepNote u site (.apply span how callee types args) note
  | identity {span : Span} {how : Application} {callee : Expr} {types args : List Node}
      {parent : String} {ordinal : Nat} {f : Failure}
      (failed : Glue.identityArgument site.options.runtime
        (site.identity.callSite parent ordinal) = .error f) :
      StepNote u site (.apply span how callee types args) (.fails f)
  | member {span : Span} {kind : MethodKind} {mods : Modifiers} {decorators : List Expr}
      {key f : Node} (marked : (memberMarkers site span decorators).isMemoLike = true) :
      StepNote u site (.method span kind mods decorators key f) (.awaits (heldFunction f))
  | unsupported {span : Span} {kind : MethodKind} {mods : Modifiers} {decorators : List Expr}
      {key f : Node} {message : String} :
      StepNote u site (.method span kind mods decorators key f)
        (.reports (Breach.diagnostic site { rule := .unsupported, message, offset := span.start }))
  | declarators {span : Span} {kind : VarKind} {declared : Bool} {items : List Node}
      (marked : (site.annotations.markers span.start).isMemoLike = true) :
      StepNote u site (.vars span kind declared items) (.awaits (items.flatMap initialClosure))
  | hidden {n : Node} {f : Failure}
      (failed : Glue.hiddenParameters site.options.runtime = .error f) : StepNote u site n (.fails f)

theorem halts_step {n : Node} (hnotes : ∀ note, StepNote u site n note → u.allows note)
    (hself : ∀ m ∈ stepNeeds site n, Halts u (self m)) : Halts u (step site self n) := by
  have hparts : ∀ m ∈ n.children, Halts u (self m) := fun m hm ↦ hself m (List.mem_append_left _ hm)
  have hhidden : u.Hides site := fun f hf ↦ hnotes _ (.hidden hf)
  unfold step
  split
  · unfold reference
    refine ends_get fun _ _ ↦ ?_
    split
    · exact halts_touch.bind fun _ _ ↦ ends_pure trivial
    · exact ends_pure trivial
  · next span optional isPure callee types args =>
    refine halts_call (fun _ _ f hf ↦ hnotes _ (.identity hf)) hparts
      fun scopes classes plan hplan parent ordinal ↦ ?_
    refine halts_threadArgs (fun arg harg note hnote ↦ hnotes note (.argument harg hplan hnote))
      (fun arg harg ↦ hparts arg (List.mem_append_right _ harg)) ?_
    intro arg harg m hm
    refine hself m (List.mem_append_right _ ?_)
    cases hreifies : plan.reifies with
    | true => exact List.mem_append_left _ (List.mem_flatMap.2 ⟨arg, harg, hreifies ▸ hm⟩)
    | false => exact List.mem_append_right _ (List.mem_flatMap.2 ⟨arg, harg, hreifies ▸ hm⟩)
  · exact halts_function (hnotes _ .settles)
      (fun hform sig hsig hmarks note hnote ↦ hnotes note (.function hform hsig hmarks hnote)) hparts
      fun m hm ↦ hself m (List.mem_append_right _ hm)
  · exact ends_inClass (halts_mapChildren hparts)
  · exact halts_method (fun hmarked ↦ hnotes _ (.member hmarked)) (fun _ ↦ hnotes _ .unsupported) hparts
  · refine halts_field hhidden hparts fun t ht m hm ↦ hself m (List.mem_append_right _ ?_)
    exact List.mem_flatMap.2 ⟨t, ht, hm⟩
  · refine (ends_dropMarkers _).bind ?_
    rintro _ rfl
    refine halts_mapChildren fun m hm ↦ hparts m ?_
    simp only [Node.children, List.mem_append] at hm ⊢
    exact hm.imp_left (Or.imp_left (Or.imp_left List.mem_of_mem_filter))
  · exact ends_get fun _ _ ↦ halts_mapChildren hparts
  · exact ends_get fun _ _ ↦ halts_mapChildren hparts
  · next items =>
    refine halts_declareVariables hhidden (fun hmarked ↦ hnotes _ (.declarators hmarked)) hparts fun item hitem m hm ↦ ?_
    exact hself m (List.mem_append_right _ (List.mem_flatMap.2 ⟨item, hitem, hm⟩))
  · exact ends_inBlock ((halts_modifyScopes _).bind fun _ _ ↦ halts_mapChildren hparts)
  · exact ends_inBlock ((halts_modifyScopes _).bind fun _ _ ↦ halts_mapChildren hparts)
  · next init test update body =>
    have hinit : Halts u (init.forM bindHead) := by
      cases init with
      | none => exact ends_pure trivial
      | some init => exact halts_bindHead init
    exact ends_inBlock (hinit.bind fun _ _ ↦ halts_mapChildren hparts)
  · exact ends_inBlock ((halts_bindHead _).bind fun _ _ ↦ halts_mapChildren hparts)
  · exact ends_inBlock ((halts_modifyScopes _).bind fun _ _ ↦ halts_mapChildren hparts)
  · next span declared name typeParams parents members =>
    refine (ends_each fun parent _ ↦ ends_extendedInterface parent).bind fun parents' h ↦ ?_
    refine halts_mapChildren fun m hm ↦ ?_
    simp only [Node.children, List.mem_append] at hm hparts
    rcases hm with (hm | hm) | hm
    · exact hparts m (.inl (.inl hm))
    · obtain ⟨parent, hparent, rfl | hm⟩ := exists_of_forall₂_right h hm
      · exact hparts _ (.inl (.inr hparent))
      · exact hself m (List.mem_append_right _ (List.mem_flatMap.2 ⟨parent, hparent, hm⟩))
    · exact hparts m (.inr hm)
  · exact halts_mapChildren hparts

end Recompose.Weave
