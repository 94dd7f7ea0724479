import Recompose.Proofs.Weave.Run

namespace Recompose.Weave

open Script

namespace State

def mark (s : State) : State :=
  { s with touched := true }

def openFunction (s : State) (frame : Frame) (bindings : List (String × Binding)) : State :=
  { s with frames := frame :: s.frames, scopes := s.scopes.pushFunction.bindAll bindings }

def closeFunction (s : State) : State :=
  { s with frames := s.frames.tail, scopes := s.scopes.pop }

def openBlock (s : State) (bind : Scopes → Scopes) : State :=
  { s with scopes := bind s.scopes.pushBlock }

def closeBlock (s : State) : State :=
  { s with scopes := s.scopes.pop }

def openFrame (s : State) (frame : Frame) : State :=
  { s with frames := frame :: s.frames }

def closeFrame (s : State) : State :=
  { s with frames := s.frames.tail }

def openClass (s : State) (name : String) : State :=
  { s with classes := name :: s.classes }

def closeClass (s : State) : State :=
  { s with classes := s.classes.tail }

def await (s : State) (spans : List Span) : State :=
  { s with pending := spans ++ s.pending }

def settle (s : State) (span : Span) : State :=
  { s with pending := s.pending.filter (· != span) }

def bindVars (s : State) (names : List String) : State :=
  { s with scopes := s.scopes.bindVars names }

def countEnclosed (s : State) (n : Nat) : State :=
  { s with stats := { s.stats with reifiedChains := s.stats.reifiedChains + n } }

def countCall (s : State) : State :=
  { s with stats := { s.stats with threadedCallSites := s.stats.threadedCallSites + 1 } }

def countFunction (s : State) (sig : Signature) : State :=
  { s with stats := if sig.isLambda then
      { s.stats with transformedLambdas := s.stats.transformedLambdas + 1 }
    else { s.stats with transformedFunctions := s.stats.transformedFunctions + 1 } }

end State

/-- Either nothing changed, or it is noted that something did. -/
def Notes (unchanged : Prop) (s s' : State) : Prop :=
  (unchanged ∧ s' = s) ∨ s' = s.mark

variable {α : Type} {site : Site} {s s' : State}

theorem cleanly_touch : Cleanly touch fun s _ s' ↦ s' = s.mark :=
  cleanly_modify _ fun _ h ↦ h

theorem cleanly_modifyScopes (f : Scopes → Scopes) :
    Cleanly (modifyScopes f) fun s _ s' ↦ s' = { s with scopes := f s.scopes } :=
  cleanly_modify _ fun _ h ↦ h

theorem cleanly_modifyStats (f : Stats → Stats) :
    Cleanly (modifyStats f) fun s _ s' ↦ s' = { s with stats := f s.stats } :=
  cleanly_modify _ fun _ h ↦ h

theorem cleanly_between {enter leave : State → State} {x : WeaveM α} {P : State → α → State → Prop}
    (henter : ∀ s, (enter s).Clean → s.Clean) (hleave : ∀ s, (leave s).Clean → s.Clean)
    (hx : Cleanly x P) :
    Cleanly (modify enter >>= fun _ ↦ x >>= fun a ↦ modify leave >>= fun _ ↦ pure a)
      fun s a s' ↦ ∃ s₁, P (enter s) a s₁ ∧ s' = leave s₁ := by
  refine ((cleanly_modify enter henter).bind fun _ ↦ hx.bind fun a ↦
    (cleanly_modify leave hleave).bind fun _ ↦ cleanly_pure a).mono ?_
  intro s a s' h
  obtain ⟨-, s₁, rfl, b, s₂, hP, -, s₃, rfl, rfl, rfl⟩ := h
  exact ⟨s₂, hP, rfl⟩

theorem cleanly_inFrame {frame : Frame} {x : WeaveM α} {P : State → α → State → Prop}
    (hx : Cleanly x P) :
    Cleanly (inFrame frame x) fun s a s' ↦ ∃ s₁, P (s.openFrame frame) a s₁ ∧ s' = s₁.closeFrame :=
  cleanly_between (fun _ h ↦ h) (fun _ h ↦ h) hx

theorem cleanly_inClass {name : String} {x : WeaveM α} {P : State → α → State → Prop}
    (hx : Cleanly x P) :
    Cleanly (inClass name x) fun s a s' ↦ ∃ s₁, P (s.openClass name) a s₁ ∧ s' = s₁.closeClass :=
  cleanly_between (fun _ h ↦ h) (fun _ h ↦ h) hx

theorem cleanly_inBlock {bind : Scopes → Scopes} {enter : WeaveM Unit} {x : WeaveM α}
    {P : State → α → State → Prop}
    (henter : Cleanly enter fun s _ s' ↦ s' = { s with scopes := bind s.scopes }) (hx : Cleanly x P) :
    Cleanly (inBlock (enter >>= fun _ ↦ x)) fun s a s' ↦
      ∃ s₁, P (s.openBlock bind) a s₁ ∧ s' = s₁.closeBlock := by
  refine Cleanly.mono (cleanly_between (fun _ h ↦ h) (fun _ h ↦ h) (henter.bind fun _ ↦ hx)) ?_
  intro s a s' h
  obtain ⟨s₁, ⟨-, s₂, rfl, hP⟩, rfl⟩ := h
  exact ⟨s₁, hP, rfl⟩

theorem cleanly_inFunction {bindings : List (String × Binding)} {x : WeaveM α}
    {P : State → α → State → Prop} (hx : Cleanly x P) :
    Cleanly (inFunction (modifyScopes (·.bindAll bindings) >>= fun _ ↦ x)) fun s a s' ↦
      ∃ s₁, P { s with scopes := s.scopes.pushFunction.bindAll bindings } a s₁ ∧ s' = s₁.closeBlock := by
  refine Cleanly.mono (cleanly_between (fun _ h ↦ h) (fun _ h ↦ h)
    ((cleanly_modifyScopes _).bind fun _ ↦ hx)) ?_
  intro s a s' h
  obtain ⟨s₁, ⟨-, s₂, rfl, hP⟩, rfl⟩ := h
  exact ⟨s₁, hP, rfl⟩

/-- The function type in an annotation gets the hidden parameters. -/
inductive Retypes (names : RuntimeNames) (type : Ty) : Ty → Prop
  | intro {f : Func} {hidden : List Param} (found : functionType? type = some f)
      (bare : takesContext names f = false) (read : Glue.hiddenParameters names = .ok hidden) :
      Retypes names type (addToFunctionType hidden type)

theorem cleanly_threadType (type : Ty) :
    Cleanly (threadType site type) fun s type' s' ↦
      (type' = type ∧ s' = s) ∨ (Retypes site.options.runtime type type' ∧ s' = s.mark) := by
  unfold threadType
  split
  · exact (cleanly_pure type).mono Or.inl
  · next f found =>
    split
    · exact (cleanly_pure type).mono Or.inl
    · next bare =>
      refine cleanly_record (cleanly_pure type) fun hidden read ↦
        (cleanly_touch.bind fun _ ↦ cleanly_pure _).mono ?_
      intro s type' s' h
      obtain ⟨-, s₁, rfl, rfl, rfl⟩ := h
      exact .inr ⟨⟨found, by simpa using bare, read⟩, rfl⟩

/-- A parameter loses its marker decorators and, if it is memo-typed, has its annotation threaded. -/
inductive Reshapes (names : RuntimeNames) (memoTyped : Bool) (param : Param) : Param → Prop
  | kept : Reshapes names memoTyped param (plainParam param)
  | typed {span : Span} {mods : Modifiers} {rest : Bool} {decorators : List Expr} {target : Pattern}
      {type type' : Ty} {init : Option Expr} (marked : memoTyped = true)
      (plain : plainParam param = .param span mods rest decorators target (some type) init)
      (retyped : Retypes names type type') :
      Reshapes names memoTyped param (.param span mods rest decorators target (some type') init)

/-- The parameters of a memo function, those at `positions` being memo-typed. -/
inductive ReshapesAll (names : RuntimeNames) (positions : List Nat) :
    Nat → List Param → List Param → Prop
  | nil {index : Nat} : ReshapesAll names positions index [] []
  | cons {index : Nat} {param param' : Param} {params params' : List Param}
      (head : Reshapes names (positions.contains index) param param')
      (tail : ReshapesAll names positions (index + 1) params params') :
      ReshapesAll names positions index (param :: params) (param' :: params')

theorem ReshapesAll.length_eq {names : RuntimeNames} {positions : List Nat} {index : Nat}
    {params params' : List Param} (h : ReshapesAll names positions index params params') :
    params'.length = params.length := by
  induction h with
  | nil => rfl
  | cons _ _ ih => rw [List.length_cons, List.length_cons, ih]

theorem Notes.mark_eq {p : Prop} (h : Notes p s.mark s') : s' = s.mark := by
  obtain ⟨-, h⟩ | h := h <;> exact h

theorem cleanly_threadParam (param : Param) :
    Cleanly (threadParam site (plainParam param)) fun s param' s' ↦
      Reshapes site.options.runtime true param param' ∧ Notes (param' = plainParam param) s s' := by
  unfold threadParam
  split
  · next span mods rest decorators target type init plain =>
    refine ((cleanly_threadType type).bind fun type' ↦ cleanly_pure _).mono ?_
    intro s param' s' h
    obtain ⟨type', s₁, ⟨rfl, rfl⟩ | ⟨retyped, rfl⟩, rfl, rfl⟩ := h
    · exact ⟨plain ▸ .kept, .inl ⟨plain ▸ rfl, rfl⟩⟩
    · exact ⟨.typed rfl plain retyped, .inr rfl⟩
  · refine (cleanly_pure (plainParam param)).mono ?_
    intro s param' s' h
    obtain ⟨rfl, rfl⟩ := h
    exact ⟨.kept, .inl ⟨rfl, rfl⟩⟩

theorem cleanly_threadParams (positions : List Nat) (params : List Param) (index : Nat) :
    Cleanly (threadParams site positions index (params.map plainParam)) fun s params' s' ↦
      ReshapesAll site.options.runtime positions index params params' ∧
        Notes (params' = params.map plainParam) s s' := by
  induction params generalizing index with
  | nil =>
    refine (cleanly_pure []).mono ?_
    intro s params' s' h
    obtain ⟨rfl, rfl⟩ := h
    exact ⟨.nil, .inl ⟨rfl, rfl⟩⟩
  | cons param params ih =>
    have hparam : Cleanly
        (if positions.contains index then threadParam site (plainParam param)
          else pure (plainParam param)) fun s param' s' ↦
        Reshapes site.options.runtime (positions.contains index) param param' ∧
          Notes (param' = plainParam param) s s' := by
      split
      · next marked => exact marked ▸ cleanly_threadParam param
      · refine (cleanly_pure (plainParam param)).mono ?_
        intro s param' s' h
        obtain ⟨rfl, rfl⟩ := h
        exact ⟨.kept, .inl ⟨rfl, rfl⟩⟩
    have hsplit : threadParams site positions index ((param :: params).map plainParam) =
        (if positions.contains index then threadParam site (plainParam param)
          else pure (plainParam param)) >>= fun param' ↦
        threadParams site positions (index + 1) (params.map plainParam) >>= fun params' ↦
          pure (param' :: params') := by
      rw [List.map_cons, threadParams]
      split <;> rfl
    rw [hsplit]
    refine (hparam.bind fun param' ↦ (ih (index + 1)).bind fun params' ↦ cleanly_pure _).mono ?_
    intro s all s' h
    obtain ⟨param', s₁, ⟨head, hn⟩, params', s₂, ⟨tail, hns⟩, rfl, rfl⟩ := h
    refine ⟨.cons head tail, ?_⟩
    obtain ⟨rfl, rfl⟩ | rfl := hn
    · exact hns.imp_left fun ⟨hp, hs⟩ ↦ ⟨by rw [hp, List.map_cons], hs⟩
    · exact .inr hns.mark_eq

def memoBindings (site : Site) (sig : Signature) (params : List Param) (stmts : List Stmt) :
    List (String × Binding) :=
  sig.parameters.bindings.flatMap (parameterBinding (sig.mode == .memo))
    ++ params.flatMap patternBindings ++ hoistedBindings site.annotations stmts

def State.openMemo (s : State) (site : Site) (sig : Signature) (params : List Param)
    (stmts : List Stmt) : State :=
  s.openFunction (.scope { name := sig.qualifiedName } true) (memoBindings site sig params stmts)

theorem cleanly_inMemoBody {sig : Signature} {params : List Param} {stmts : List Stmt}
    {x : WeaveM α} {P : State → α → State → Prop} (hx : Cleanly x P) :
    Cleanly (inMemoBody site sig params stmts x) fun s a s' ↦
      ∃ s₁, P (s.openMemo site sig params stmts) a s₁ ∧ s' = s₁.closeFunction := by
  refine Cleanly.mono (cleanly_inFunction (cleanly_inFrame hx)) ?_
  intro s a s' h
  obtain ⟨s₁, ⟨s₂, hP, rfl⟩, rfl⟩ := h
  exact ⟨s₂, hP, rfl⟩

def conditionSettings (site : Site) : ConditionSettings :=
  ⟨site.options.runtime, site.options.earlyExitPolicy, site.source, site.options.filePath⟩

/-- The conditions of a body are enclosed, `count` in number, if the body calls for it. -/
def Encloses (site : Site) (reifies : Bool) (stmts stmts' : List Stmt) (count : Nat) : Prop :=
  if reifies then
    ∃ tally, Condition.run (conditionSettings site) stmts = (.ok stmts', tally) ∧
      tally.errors = [] ∧ count = tally.enclosed
  else stmts' = stmts ∧ count = 0

theorem cleanly_encloseConditions {β : Type} {reifies : Bool} {stmts : List Stmt}
    {f : Option (List Stmt) → WeaveM β} {P : State → β → State → Prop}
    {Q : List Stmt → State → β → State → Prop} (hnone : Cleanly (f none) P)
    (hsome : ∀ stmts', Cleanly (f (some stmts')) (Q stmts')) :
    Cleanly ((if reifies then encloseConditions site stmts else pure (some stmts)) >>= f)
      fun s b s' ↦ ∃ stmts' count, Encloses site reifies stmts stmts' count ∧
        Q stmts' (s.countEnclosed count) b s' := by
  cases reifies with
  | false =>
    intro s b s' h hc
    obtain ⟨hc₀, hQ⟩ := hsome stmts h hc
    exact ⟨hc₀, stmts, 0, ⟨rfl, rfl⟩, hQ⟩
  | true =>
    let run := Condition.run (conditionSettings site) stmts
    have hrecord : Cleanly (record run.1 >>= f)
        fun s b s' ↦ ∃ stmts', run.1 = .ok stmts' ∧ Q stmts' s b s' :=
      cleanly_record hnone fun stmts' hok ↦ (hsome stmts').mono fun h ↦ ⟨stmts', hok, h⟩
    intro s b s' h hc
    obtain ⟨r, s₁, hr, hb⟩ := bind_apply_eq_some.1 h
    obtain ⟨u, s₂, hs₂, hr⟩ := bind_apply_eq_some.1 hr
    obtain rfl := modify_apply_eq_some.1 hs₂
    obtain ⟨⟨herrors, hfailure⟩, stmts', hok, hQ⟩ :=
      hrecord (bind_apply_eq_some.2 ⟨r, s₁, hr, hb⟩) hc
    obtain ⟨herrors, htally : run.2.errors = []⟩ := List.append_eq_nil_iff.1 herrors
    refine ⟨⟨herrors, hfailure⟩, stmts', _, ⟨run.2, Prod.ext hok rfl, htally, rfl⟩, ?_⟩
    have hstate : s.countEnclosed run.2.enclosed = { s with
        errors := s.errors ++ run.2.errors
        stats := { s.stats with reifiedChains := s.stats.reifiedChains + run.2.enclosed } } := by
      rw [htally, List.append_nil]
      rfl
    exact hstate ▸ hQ

inductive Wraps (site : Site) (W : Walked) (sig : Signature) (params : List Param)
    (result : Option Ty) (s : State) (body : Node) : Node → State → Prop
  | intro {span : Span} {directives : List String} {stmts enclosed walked wrapped : List Stmt}
      {count : Nat} {s₁ : State} (parts : bodyParts body = (span, directives, stmts))
      (encloses : Encloses site sig.reifies stmts enclosed count)
      (walks : Threads W ((s.countEnclosed count).openMemo site sig params enclosed) enclosed walked s₁)
      (wraps : CacheScope.wrap site.options.runtime sig.offset
        (.ofType (result.bind (typeText? site.source)) (returnsValue stmts))
        sig.parameters.registered walked = .ok wrapped) :
      Wraps site W sig params result s body (.code span directives wrapped) s₁.closeFunction

def enclosedBody {β : Type} (failed : β) (goOn : List Stmt → β) : Option (List Stmt) → β
  | none => failed
  | some enclosed => goOn enclosed

theorem cleanly_wrappedBody {β : Type} {self : Self} {W : Walked} {sig : Signature}
    {params : List Param} {result : Option Ty} {body : Node} {f : Option Node → WeaveM β}
    {P : State → β → State → Prop} {Q : Node → State → β → State → Prop}
    (hself : ∀ n, Cleanly (self n) fun s n' s' ↦ W s n n' s')
    (hnone : Cleanly (f none) P) (hsome : ∀ body', Cleanly (f (some body')) (Q body')) :
    Cleanly (wrappedBody site self sig params result body >>= f) fun s b s' ↦
      ∃ body' s₁, Wraps site W sig params result s body body' s₁ ∧ Q body' s₁ b s' := by
  rcases parts : bodyParts body with ⟨span, directives, stmts⟩
  let wrap := CacheScope.wrap site.options.runtime sig.offset
    (.ofType (result.bind (typeText? site.source)) (returnsValue stmts)) sig.parameters.registered
  let rest (walked : List Stmt) : WeaveM β :=
    record (wrap walked) >>= fun r ↦ f (r.map (.code span directives))
  let whole : Option (List Stmt) → WeaveM β :=
    enclosedBody (f none) fun enclosed ↦
      inMemoBody site sig params enclosed (enclosed.mapM self) >>= rest
  have hrest (walked : List Stmt) : Cleanly (rest walked) fun s b s' ↦
      ∃ wrapped, wrap walked = .ok wrapped ∧ Q (.code span directives wrapped) s b s' :=
    cleanly_record hnone fun wrapped hw ↦ (hsome _).mono fun h ↦ ⟨wrapped, hw, h⟩
  have hwhole (enclosed : List Stmt) : Cleanly (whole (some enclosed)) fun s b s' ↦
      ∃ walked s₁, Threads W (s.openMemo site sig params enclosed) enclosed walked s₁ ∧
        ∃ wrapped, wrap walked = .ok wrapped ∧
          Q (.code span directives wrapped) s₁.closeFunction b s' := by
    refine ((cleanly_inMemoBody (cleanly_mapM fun n _ ↦ hself n)).bind hrest).mono ?_
    intro s b s' h
    obtain ⟨walked, s₁, ⟨s₂, walks, rfl⟩, wrapped, hw, hQ⟩ := h
    exact ⟨walked, s₂, walks, wrapped, hw, hQ⟩
  have heq : wrappedBody site self sig params result body >>= f =
      (if sig.reifies then encloseConditions site stmts else pure (some stmts)) >>= whole := by
    unfold wrappedBody
    rw [parts]
    dsimp only
    split
    all_goals
      rw [bind_assoc]
      refine bind_congr fun r ↦ ?_
      cases r <;> simp [whole, rest, wrap, enclosedBody, bind_assoc]
  rw [heq]
  refine (cleanly_encloseConditions hnone hwhole).mono ?_
  intro s b s' h
  obtain ⟨enclosed, count, encloses, walked, s₁, walks, wrapped, wraps, hQ⟩ := h
  exact ⟨_, _, .intro parts encloses walks wraps, hQ⟩

/-- The hidden parameters that a memo function gets. An entry has its own. -/
def Hides (site : Site) (sig : Signature) (hidden : List Param) : Prop :=
  if sig.mode = .entry then hidden = [] else Glue.hiddenParameters site.options.runtime = .ok hidden

theorem cleanly_finishFunction (sig : Signature) (params : List Param) :
    Cleanly (finishFunction site sig params) fun s params' s' ↦
      ∃ hidden, Hides site sig hidden ∧ params' = hidden ++ params ∧ s' = s.countFunction sig := by
  have hcount (params' : List Param) : Cleanly (countFunction sig >>= fun _ ↦ pure params')
      fun s r s' ↦ r = params' ∧ s' = s.countFunction sig := by
    refine ((cleanly_modifyStats _).bind fun _ ↦ cleanly_pure params').mono ?_
    intro s r s' h
    obtain ⟨-, s₁, rfl, rfl, rfl⟩ := h
    exact ⟨rfl, rfl⟩
  unfold finishFunction Hides
  split
  · next entry =>
    refine (hcount params).mono ?_
    intro s r s' h
    exact ⟨[], rfl, h⟩
  · refine cleanly_record (cleanly_pure params) fun hidden read ↦ (hcount _).mono ?_
    intro s r s' h
    exact ⟨hidden, read, h⟩

def modeAt? (site : Site) (s : State) (span : Span) : Option MemoMode :=
  (MemoMode.ofMarkers? (site.annotations.markers span.start)).or
    (if s.pending.contains span then some .memo else none)

inductive Signs (site : Site) (s : State) (span : Span) (form : FuncForm) (params : List Param) :
    Option Signature → State → Prop
  | declared {d : MemoDeclaration} (found : site.graph.nodeAt? span = some d) :
      Signs site s span form params (some (.ofDeclaration d)) s
  | unmarked (absent : site.graph.nodeAt? span = none) (plain : modeAt? site s span = none) :
      Signs site s span form params none (s.settle span)
  | closure {mode : MemoMode} {name : String} {frames : List Frame}
      (absent : site.graph.nodeAt? span = none) (marked : modeAt? site s span = some mode)
      (named : takeClosureName s.frames = some (name, frames)) :
      Signs site s span form params (some (.ofClosure site name mode params form span.start true))
        { s.settle span with frames }
  | nameless {mode : MemoMode} (absent : site.graph.nodeAt? span = none)
      (marked : modeAt? site s span = some mode) (unnamed : takeClosureName s.frames = none) :
      Signs site s span form params none (s.settle span)

theorem cleanly_signatureFor (span : Span) (form : FuncForm) (params : List Param) :
    Cleanly (signatureFor site span form params) fun s r s' ↦ Signs site s span form params r s' := by
  unfold signatureFor
  split
  · next d found =>
    refine (cleanly_pure _).mono ?_
    intro s r s' h
    obtain ⟨rfl, rfl⟩ := h
    exact .declared found
  · next absent =>
    intro s r s' h hc
    rw [get_bind_apply] at h
    obtain ⟨u, s₁, hs₁, h₁⟩ := bind_apply_eq_some.1 h
    obtain rfl : s₁ = s.settle span := modify_apply_eq_some.1 hs₁
    cases marked : modeAt? site s span with
    | none =>
      unfold modeAt? at marked
      rw [marked] at h₁
      obtain ⟨rfl, rfl⟩ := pure_apply_eq_some.1 h₁
      exact ⟨hc, .unmarked absent marked⟩
    | some mode =>
      unfold modeAt? at marked
      rw [marked] at h₁
      obtain ⟨name, s₂, hname, h₂⟩ := bind_apply_eq_some.1 h₁
      unfold nextClosureName at hname
      rw [get_bind_apply] at hname
      have hframes : (s.settle span).frames = s.frames := rfl
      rw [hframes] at hname
      cases named : takeClosureName s.frames with
      | none =>
        rw [named] at hname
        obtain ⟨rfl, rfl⟩ := pure_apply_eq_some.1 hname
        obtain ⟨rfl, rfl⟩ := pure_apply_eq_some.1 h₂
        exact ⟨hc, .nameless absent marked named⟩
      | some taken =>
        rw [named] at hname
        obtain ⟨v, s₃, hs₃, h₃⟩ := bind_apply_eq_some.1 hname
        obtain rfl := modify_apply_eq_some.1 hs₃
        obtain ⟨rfl, rfl⟩ := pure_apply_eq_some.1 h₃
        obtain ⟨rfl, rfl⟩ := pure_apply_eq_some.1 h₂
        exact ⟨hc, .closure absent marked named⟩

def Faultless (site : Site) (sig : Signature) (head : FuncHead) (start : Nat) (params : List Param) :
    Prop :=
  suspensionBreach? sig head start = none ∧ breaches site.options.runtime sig params start = []

def codeStmts : Node → List Stmt
  | .code _ _ stmts => stmts
  | _ => []

inductive Memoises (site : Site) (W : Walked) (sig : Signature) (s : State) : Func → Func → State → Prop
  | bodiless {span : Span} {head : FuncHead} {typeParams : List Node} {this : Option Node}
      {params params' : List Param} {result : Option Ty}
      (faultless : Faultless site sig head span.start params)
      (reshapes : ReshapesAll site.options.runtime sig.parameters.memoIndices 0 params params') :
      Memoises site W sig s (.func span head typeParams this params result .missing)
        (.func span head typeParams this params' result .missing) s.mark
  | wrapped {span : Span} {head : FuncHead} {typeParams : List Node} {this : Option Node}
      {params params' hidden : List Param} {result : Option Ty} {body body' : Node} {s₁ : State}
      (faultless : Faultless site sig head span.start params)
      (reshapes : ReshapesAll site.options.runtime sig.parameters.memoIndices 0 params params')
      (present : body ≠ .missing) (memo : sig.mode = .memo)
      (wraps : Wraps site W sig params' result s.mark body body' s₁)
      (hides : Hides site sig hidden) :
      Memoises site W sig s (.func span head typeParams this params result body)
        (.func span head typeParams this (hidden ++ params') result body') (s₁.countFunction sig)
  | bare {span : Span} {head : FuncHead} {typeParams : List Node} {this : Option Node}
      {params params' hidden : List Param} {result : Option Ty} {body body' : Node} {s₁ : State}
      (faultless : Faultless site sig head span.start params)
      (reshapes : ReshapesAll site.options.runtime sig.parameters.memoIndices 0 params params')
      (present : body ≠ .missing) (notMemo : sig.mode ≠ .memo)
      (walks : Parts W (s.mark.openMemo site sig params' (codeStmts body)) body body' s₁)
      (hides : Hides site sig hidden) :
      Memoises site W sig s (.func span head typeParams this params result body)
        (.func span head typeParams this (hidden ++ params') result body')
        (s₁.closeFunction.countFunction sig)

theorem Memoises.mono {V W : Walked} {sig : Signature} {f f' : Func} (h : Memoises site V sig s f f' s')
    (hVW : ∀ {s n n' s'}, V s n n' s' → W s n n' s') : Memoises site W sig s f f' s' := by
  cases h with
  | bodiless faultless reshapes => exact .bodiless faultless reshapes
  | wrapped faultless reshapes present memo wraps hides =>
    cases wraps with
    | intro parts encloses walks wraps =>
      exact .wrapped faultless reshapes present memo
        (.intro parts encloses (walks.mono hVW) wraps) hides
  | bare faultless reshapes present notMemo walks hides =>
    exact .bare faultless reshapes present notMemo (walks.mono hVW) hides

theorem cleanly_report {rule : Rule} {message : String} {offset : Nat} {hints : List String} :
    Cleanly (report site rule message offset hints) fun _ _ _ ↦ False := by
  intro s u s' h hc
  obtain rfl := modify_apply_eq_some.1 h
  exact absurd hc.1 (by simp)

theorem cleanly_reportAll {bs : List Breach} (h : bs ≠ []) :
    Cleanly (reportAll site bs) fun _ _ _ ↦ False := by
  have hrest (bs : List Breach) : Cleanly (reportAll site bs) fun _ _ _ ↦ True := by
    induction bs with
    | nil => exact (cleanly_pure _).mono fun _ ↦ trivial
    | cons b bs ih => exact (cleanly_report.bind fun _ ↦ ih).mono fun _ ↦ trivial
  cases bs with
  | nil => exact absurd rfl h
  | cons b bs =>
    refine (cleanly_report.bind fun _ ↦ hrest bs).mono ?_
    intro s u s' h
    obtain ⟨-, -, hfalse, -⟩ := h
    exact hfalse

theorem cleanly_bareBody {self : Self} {W : Walked} {sig : Signature} {params : List Param}
    {body : Node} (hself : ∀ n, Cleanly (self n) fun s n' s' ↦ W s n n' s') :
    Cleanly (bareBody site self sig params body) fun s body' s' ↦
      ∃ s₁, Parts W (s.openMemo site sig params (codeStmts body)) body body' s₁ ∧
        s' = s₁.closeFunction :=
  cleanly_inMemoBody (cleanly_mapChildren hself)

def wrappedOr {β : Type} (goOn : Node → β) (failed : β) : Option Node → β
  | some body => goOn body
  | none => failed

theorem cleanly_memoFunction {self : Self} {W : Walked} {sig : Signature} {span : Span}
    {head : FuncHead} {typeParams : List Node} {this : Option Node} {params : List Param}
    {result : Option Ty} {body : Node} (hself : ∀ n, Cleanly (self n) fun s n' s' ↦ W s n n' s') :
    Cleanly (memoFunction site self sig (.func span head typeParams this params result body))
      fun s f' s' ↦ Memoises site W sig s (.func span head typeParams this params result body) f' s' := by
  let rebuilt (params : List Param) (body : Node) : Func :=
    .func span head typeParams this params result body
  let finish (params' : List Param) : Option Node → WeaveM Func :=
    wrappedOr (fun body' ↦ finishFunction site sig params' >>= fun all ↦ pure (rebuilt all body'))
      (pure (rebuilt params' body))
  have hwrapped (params' : List Param) : Cleanly
      (wrappedBody site self sig params' result body >>= finish params') fun s f' s' ↦
      ∃ body' s₁ hidden, Wraps site W sig params' result s body body' s₁ ∧ Hides site sig hidden ∧
        f' = rebuilt (hidden ++ params') body' ∧ s' = s₁.countFunction sig := by
    refine (cleanly_wrappedBody (f := finish params') hself (cleanly_pure _) fun body' ↦
      (cleanly_finishFunction sig params').bind fun all ↦ cleanly_pure _).mono ?_
    intro s f' s' h
    obtain ⟨body', s₁, wraps, all, s₂, ⟨hidden, hides, rfl, rfl⟩, rfl, rfl⟩ := h
    exact ⟨body', s₁, hidden, wraps, hides, rfl, rfl⟩
  have hbare (params' : List Param) : Cleanly
      (bareBody site self sig params' body >>= fun body' ↦
        finishFunction site sig params' >>= fun all ↦ pure (rebuilt all body')) fun s f' s' ↦
      ∃ body' s₁ hidden, Parts W (s.openMemo site sig params' (codeStmts body)) body body' s₁ ∧
        Hides site sig hidden ∧ f' = rebuilt (hidden ++ params') body' ∧
        s' = s₁.closeFunction.countFunction sig := by
    refine ((cleanly_bareBody hself).bind fun body' ↦
      (cleanly_finishFunction sig params').bind fun all ↦ cleanly_pure _).mono ?_
    intro s f' s' h
    obtain ⟨body', -, ⟨s₁, walks, rfl⟩, all, s₂, ⟨hidden, hides, rfl, rfl⟩, rfl, rfl⟩ := h
    exact ⟨body', s₁, hidden, walks, hides, rfl, rfl⟩
  have hreported {bs : List Breach} (hbs : bs ≠ []) :
      Cleanly (reportAll site bs >>= fun _ ↦ pure (rebuilt params body)) fun _ _ _ ↦ False := by
    refine ((cleanly_reportAll hbs).bind fun _ ↦ cleanly_pure _).mono ?_
    intro s f' s' h
    obtain ⟨-, -, hfalse, -⟩ := h
    exact hfalse
  intro s f' s' h hc
  unfold memoFunction at h
  obtain ⟨u, s₁, hs₁, h⟩ := bind_apply_eq_some.1 h
  obtain rfl : s₁ = s.mark := modify_apply_eq_some.1 hs₁
  dsimp only at h
  split at h
  · exact (hreported (by simp) h hc).2.elim
  · next hsuspension =>
    split at h
    · next hbreaches => exact (hreported (by simpa using hbreaches) h hc).2.elim
    · next hbreaches =>
      have faultless : Faultless site sig head span.start params :=
        ⟨hsuspension, by simpa using hbreaches⟩
      obtain ⟨params', s₂, hp, h⟩ := bind_apply_eq_some.1 h
      have hparams (hc : s₂.Clean) : s.Clean ∧ s₂ = s.mark ∧
          ReshapesAll site.options.runtime sig.parameters.memoIndices 0 params params' := by
        obtain ⟨hc, reshapes, hn⟩ := cleanly_threadParams _ _ _ hp hc
        exact ⟨hc, hn.mark_eq, reshapes⟩
      split at h
      · obtain ⟨rfl, rfl⟩ := pure_apply_eq_some.1 h
        obtain ⟨hc, rfl, reshapes⟩ := hparams hc
        exact ⟨hc, .bodiless faultless reshapes⟩
      · next present =>
        split at h
        · next memo =>
          obtain ⟨hc₂, body', s₃, hidden, wraps, hides, rfl, rfl⟩ := hwrapped params' h hc
          obtain ⟨hc, rfl, reshapes⟩ := hparams hc₂
          exact ⟨hc, .wrapped faultless reshapes present memo wraps hides⟩
        · next notMemo =>
          obtain ⟨hc₂, body', s₃, hidden, walks, hides, rfl, rfl⟩ := hbare params' h hc
          obtain ⟨hc, rfl, reshapes⟩ := hparams hc₂
          exact ⟨hc, .bare faultless reshapes present notMemo walks hides⟩

end Recompose.Weave
