import Recompose.Proofs.Marked

namespace Recompose.Weave

open Script

/-- What a place in the text has to do with the names that are given there. -/
structure Place where
  scope : String
  owner : String := "default"
  /-- Does it stand in a function or in a block? -/
  nested : Bool := false
  /-- The functions that marked declarations around it hold. -/
  awaited : List Span := []
deriving DecidableEq, Repr

namespace Place

def top (file : String) : Place where
  scope := QualifiedName.declaration file none "<module>"

def memo (p : Place) (name : String) : Place :=
  { p with scope := name, nested := true }

def functionName (p : Place) (file name : String) : String :=
  if p.nested then p.scope ++ "/" ++ name else QualifiedName.declaration file none name

def methodName (p : Place) (file : String) (key : Node) : String :=
  QualifiedName.declaration file (some p.owner) (key.keyText?.getD "<computed>")

def inside (site : Site) (p : Place) : Node → Place
  | .func _ head _ _ _ _ _ =>
    if head.form = .signature then p
    else p.memo (head.name.elim p.scope (p.functionName site.options.filePath))
  | .cls _ head _ _ _ _ _ _ => { p with owner := Collector.className head }
  | .method span _ _ decorators key f =>
    if (memberMarkers site span decorators).isMemoLike then
      { p with awaited := heldFunction f ++ p.awaited }
    else { p with scope := p.methodName site.options.filePath key }
  | .vars span _ _ items =>
    if (site.annotations.markers span.start).isMemoLike then
      { p with awaited := items.flatMap initialClosure ++ p.awaited }
    else p
  | n => if (blockBindings site n).isSome then { p with nested := true } else p

end Place

/-- Are closures in a node that is gone on with named after the node? -/
def opensScope (site : Site) : Node → Bool
  | .func _ head _ _ _ _ _ => head.form ≠ .signature && head.name.isSome
  | .method span _ _ decorators _ _ => !(memberMarkers site span decorators).isMemoLike
  | _ => false

theorem Place.scope_inside {site : Site} {p : Place} {n : Node} (h : opensScope site n = false) :
    (p.inside site n).scope = p.scope := by
  unfold Place.inside
  split
  · next head _ _ _ _ _ =>
    split
    · rfl
    · next form =>
      have hname : head.name = none := by simpa [opensScope, form] using h
      simp [Place.memo, hname]
  · rfl
  · next span _ _ decorators _ _ =>
    have memo : (memberMarkers site span decorators).isMemoLike = true := by simpa [opensScope] using h
    rw [if_pos memo]
  · split <;> rfl
  · split <;> rfl

/-- The names that are used in a piece of the text. -/
structure Ledger where
  calls : List Nat := []
  /-- The numbers of the closures that are named after the scope around. -/
  closures : List Nat := []
  /-- The names that the source gives, of memo functions and of functions that closures are named after. -/
  given : List String := []
  memos : List (String × List Nat) := []
deriving DecidableEq, Repr

namespace Ledger

instance : Append Ledger :=
  ⟨fun t t' ↦ ⟨t.calls ++ t'.calls, t.closures ++ t'.closures, t.given ++ t'.given, t.memos ++ t'.memos⟩⟩

@[simp] theorem calls_append (t t' : Ledger) : (t ++ t').calls = t.calls ++ t'.calls := rfl

@[simp] theorem closures_append (t t' : Ledger) : (t ++ t').closures = t.closures ++ t'.closures := rfl

@[simp] theorem given_append (t t' : Ledger) : (t ++ t').given = t.given ++ t'.given := rfl

@[simp] theorem memos_append (t t' : Ledger) : (t ++ t').memos = t.memos ++ t'.memos := rfl

def memo (name : String) (t : Ledger) : Ledger where
  given := t.given
  memos := (name, t.calls) :: t.memos

/-- An ordinary function of a name with what is named in it. Its name is used if closures are named
after it. -/
def aside (name : String) (t : Ledger) : Ledger where
  given := if t.closures = [] then t.given else name :: t.given
  memos := t.memos

structure FromZero (t : Ledger) : Prop where
  calls : t.calls = List.range t.calls.length
  closures : t.closures = List.range t.closures.length

end Ledger

/-- The argument that a threaded call passes on as its identity. -/
structure Identifies (site : Site) (scope : String) (ordinal : Nat) (identity : Expr) : Prop where
  made : Glue.identityArgument site.options.runtime (site.identity.callSite scope ordinal) = .ok identity
  reads : site.options.runtime.IsPlain → (Atom.sum site.options.runtime.id
    (Identity.literal (site.identity.callSite scope ordinal))).IsRead identity

/-- The parameters of a memo function: with names that are plain, the context and the identity first. -/
structure Takes (site : Site) (f : Func) (params params' : List Param) : Prop where
  lengthens : Lengthens site f params params'
  leads : site.options.runtime.IsPlain →
    leadingNames params' = [some site.options.runtime.context, some site.options.runtime.id]

mutual

/-- What is woven of a node at a place, with what is named in it. -/
inductive Labels (site : Site) : Place → Node → Node → Ledger → Prop
  | reference {p : Place} {span : Span} {name : String} :
      Labels site p (.ref span name) (Glue.parameterValue site.options.runtime name) {}
  | call {p : Place} {span : Span} {optional isPure : Bool} {callee callee' identity : Expr}
      {types args args' : List Node} {ordinal : Nat} {first rest : Ledger}
      (callees : Labels site p callee callee' first)
      (arguments : LabelsArgs site p ordinal 0 args args' rest)
      (identifies : Identifies site p.scope ordinal identity) :
      Labels site p (.apply span (.call optional isPure) callee types args)
        (.apply span (.call optional isPure) callee' types
          (Glue.contextArgument site.options.runtime :: identity :: args'))
        ({ calls := [ordinal] } ++ (first ++ rest))
  | declared {p : Place} {f f' : Func} {d : MemoDeclaration} {inner : Ledger}
      (function : isFunction f = true) (found : site.graph.nodeAt? f.span = some d)
      (woven : LabelsMemo site (p.memo d.qualifiedName) d.ownOffset f f' inner) :
      Labels site p f f' ({ given := [d.qualifiedName] } ++ inner.memo d.qualifiedName)
  | free {p : Place} {f f' : Func} {index : Nat} {inner : Ledger}
      (function : isFunction f = true) (absent : site.graph.nodeAt? f.span = none)
      (marked : (modeOf? site f.span).isSome = true ∨ f.span ∈ p.awaited)
      (woven : LabelsMemo site (p.memo (QualifiedName.free p.scope index))
        (site.identity.ownScope (QualifiedName.free p.scope index)) f f' inner) :
      Labels site p f f' ({ closures := [index] } ++ inner.memo (QualifiedName.free p.scope index))
  | aside {p : Place} {n n₁ n' : Node} {t : Ledger} (opens : opensScope site n = true)
      (plain : isFunction n = true → modeOf? site n.span = none) (alters : Alters site n n₁)
      (skeleton : n'.skeleton = n₁.skeleton)
      (parts : LabelsAll site (p.inside site n) n₁.children n'.children t)
      (quiet : t.calls = []) (numbered : t.FromZero) :
      Labels site p n n' (t.aside (p.inside site n).scope)
  | within {p : Place} {n n₁ n' : Node} {t : Ledger} (opens : opensScope site n = false)
      (plain : isFunction n = true → modeOf? site n.span = none) (alters : Alters site n n₁)
      (skeleton : n'.skeleton = n₁.skeleton)
      (parts : LabelsAll site (p.inside site n) n₁.children n'.children t)
      (quiet : isFunction n = true → t.calls = []) : Labels site p n n' t

inductive LabelsAll (site : Site) : Place → List Node → List Node → Ledger → Prop
  | nil {p : Place} : LabelsAll site p [] [] {}
  | cons {p : Place} {n n' : Node} {ns ns' : List Node} {first rest : Ledger}
      (head : Labels site p n n' first) (tail : LabelsAll site p ns ns' rest) :
      LabelsAll site p (n :: ns) (n' :: ns') (first ++ rest)

/-- The arguments of the call with a number, from a position on. -/
inductive LabelsArgs (site : Site) : Place → Nat → Nat → List Expr → List Expr → Ledger → Prop
  | nil {p : Place} {ordinal index : Nat} : LabelsArgs site p ordinal index [] [] {}
  | closure {p : Place} {ordinal index : Nat} {arg arg' : Expr} {args args' : List Expr}
      {inner rest : Ledger}
      (woven : LabelsMemo site (p.memo (QualifiedName.nested p.scope ordinal index))
        (site.identity.ownScope (QualifiedName.nested p.scope ordinal index)) arg arg' inner)
      (tail : LabelsArgs site p ordinal (index + 1) args args' rest) :
      LabelsArgs site p ordinal index (arg :: args) (arg' :: args')
        (inner.memo (QualifiedName.nested p.scope ordinal index) ++ rest)
  | value {p : Place} {ordinal index : Nat} {arg arg' : Expr} {args args' : List Expr}
      {first rest : Ledger} (head : Labels site p arg arg' first)
      (tail : LabelsArgs site p ordinal (index + 1) args args' rest) :
      LabelsArgs site p ordinal index (arg :: args) (arg' :: args') (first ++ rest)

/-- A function becomes a memo function, its body standing at a place and its cache scope having an
offset. The calls and closures in it are numbered from zero on. -/
inductive LabelsMemo (site : Site) : Place → UInt64 → Func → Func → Ledger → Prop
  | bodiless {p : Place} {offset : UInt64} {span : Span} {head : FuncHead} {typeParams : List Node}
      {this : Option Node} {params params' : List Param} {result : Option Ty}
      (lengthens : Lengthens site (.func span head typeParams this params result .missing)
        params params') :
      LabelsMemo site p offset (.func span head typeParams this params result .missing)
        (.func span head typeParams this params' result .missing) {}
  | bare {p : Place} {offset : UInt64} {span : Span} {head : FuncHead} {typeParams : List Node}
      {this : Option Node} {params params' : List Param} {result : Option Ty} {body body' : Node}
      {t : Ledger}
      (takes : Takes site (.func span head typeParams this params result body) params params')
      (skeleton : body'.skeleton = body.skeleton)
      (labelled : LabelsAll site p body.children body'.children t) (numbered : t.FromZero) :
      LabelsMemo site p offset (.func span head typeParams this params result body)
        (.func span head typeParams this params' result body') t
  | memo {p : Place} {offset : UInt64} {span : Span} {head : FuncHead} {typeParams : List Node}
      {this : Option Node} {params params' : List Param} {result : Option Ty} {body : Node}
      {inner : Span} {directives : List String} {stmts enclosed walked cached : List Stmt}
      {kind : ReturnKind} {registered : List (Nat × String)} {t : Ledger}
      (takes : Takes site (.func span head typeParams this params result body) params params')
      (parts : bodyParts body = (inner, directives, stmts))
      (encloses : Condition.Enclosures site.options.runtime stmts enclosed)
      (labelled : LabelsAll site p enclosed walked t) (numbered : t.FromZero)
      (wraps : CacheScope.wrap site.options.runtime offset kind registered walked = .ok cached) :
      LabelsMemo site p offset (.func span head typeParams this params result body)
        (.func span head typeParams this params' result (.code inner directives cached)) t

end

/-- How calls with these numbers move the counters of the functions around them. Closures inside an
ordinary closure are named, and counted, by a scope further out. -/
inductive Advances : List Nat → List Frame → List Frame → Prop
  | nil : Advances [] [] []
  | boundary {frames frames' : List Frame} (rest : Advances [] frames frames') :
      Advances [] (.boundary :: frames) (.boundary :: frames')
  | scope {name : String} {calls closures closures' : Nat} {threading : Bool} {frames : List Frame}
      {ordinals : List Nat} (run : ordinals = List.range' calls ordinals.length)
      (quiet : threading = false → ordinals = []) :
      Advances ordinals (.scope ⟨name, calls, closures⟩ threading :: frames)
        (.scope ⟨name, calls + ordinals.length, closures'⟩ threading :: frames)

namespace Advances

variable {frames frames₁ frames' : List Frame} {first rest : List Nat}

theorem refl (frames : List Frame) : Advances [] frames frames := by
  induction frames with
  | nil => exact .nil
  | cons frame frames ih =>
    cases frame with
    | boundary => exact .boundary ih
    | scope counter threading => exact .scope rfl fun _ ↦ rfl

theorem trans (h : Advances first frames frames₁) (h' : Advances rest frames₁ frames') :
    Advances (first ++ rest) frames frames' := by
  induction h generalizing frames' rest with
  | nil => exact h'
  | boundary _ ih =>
    cases h' with
    | boundary h' => exact .boundary (ih h')
  | @scope name calls closures closures' threading frames first run quiet =>
    cases h' with
    | scope run' quiet' =>
      rw [Nat.add_assoc, ← List.length_append]
      refine .scope ?_ fun h ↦ by simp [quiet h, quiet' h]
      rw [List.length_append, ← List.range'_append_1, ← run, ← run']

end Advances

/-- The number of the next marked closure that is named after the innermost scope. -/
def closuresAt : List Frame → Nat
  | [] => 0
  | .scope counter _ :: _ => counter.closures
  | .boundary :: frames => closuresAt frames

/-- How the calls and closures of a piece of the text move the counters. -/
structure Ledger.Moves (t : Ledger) (frames frames' : List Frame) : Prop where
  calls : Advances t.calls frames frames'
  closures : t.closures = List.range' (closuresAt frames) t.closures.length
  after : closuresAt frames' = closuresAt frames + t.closures.length

namespace Ledger.Moves

variable {t t' : Ledger} {frames frames₁ frames' : List Frame}

theorem of_empty (hcalls : t.calls = []) (hclosures : t.closures = []) (frames : List Frame) :
    t.Moves frames frames :=
  ⟨hcalls ▸ .refl frames, by simp [hclosures], by simp [hclosures]⟩

theorem trans (h : t.Moves frames frames₁) (h' : t'.Moves frames₁ frames') :
    (t ++ t').Moves frames frames' := by
  refine ⟨h.calls.trans h'.calls, ?_, ?_⟩
  · rw [closures_append, List.length_append, ← List.range'_append_1, ← h.closures, ← h.after, ← h'.closures]
  · rw [h'.after, h.after, closures_append, List.length_append, Nat.add_assoc]

theorem of_boundary (h : t.Moves (.boundary :: frames) frames') :
    t.calls = [] ∧ t.Moves frames frames'.tail := by
  obtain ⟨hcalls, hclosures, hafter⟩ := h
  generalize hnone : t.calls = calls at hcalls
  cases hcalls with
  | boundary rest => exact ⟨rfl, hnone ▸ rest, hclosures, hafter⟩

theorem of_scope {name : String} {threading : Bool}
    (h : t.Moves (.scope { name } threading :: frames) frames') :
    t.FromZero ∧ (threading = false → t.calls = []) ∧ frames'.tail = frames := by
  obtain ⟨hcalls, hclosures, -⟩ := h
  rw [closuresAt, ← List.range_eq_range'] at hclosures
  suffices hruns : t.calls = List.range t.calls.length ∧ (threading = false → t.calls = []) ∧
      frames'.tail = frames from ⟨⟨hruns.1, hclosures⟩, hruns.2⟩
  generalize t.calls = calls at hcalls
  cases hcalls with
  | scope run quiet => exact ⟨by rw [List.range_eq_range', ← run], quiet, rfl⟩

end Ledger.Moves

theorem moves_of_takeClosureName {name : String} {frames frames' : List Frame}
    (h : takeClosureName frames = some (name, frames')) (file : String) :
    name = QualifiedName.free (parentName file frames) (closuresAt frames) ∧
      ({ closures := [closuresAt frames] } : Ledger).Moves frames frames' := by
  suffices htaken : Advances [] frames frames' ∧
      name = QualifiedName.free (parentName file frames) (closuresAt frames) ∧
      closuresAt frames' = closuresAt frames + 1 from ⟨htaken.2.1, htaken.1, rfl, htaken.2.2⟩
  induction frames generalizing frames' with
  | nil => simp [takeClosureName] at h
  | cons frame frames ih =>
    cases frame with
    | boundary =>
      obtain ⟨⟨taken, rest⟩, htaken, heq⟩ := Option.map_eq_some_iff.1 h
      obtain ⟨rfl, rfl⟩ := Prod.ext_iff.1 heq
      obtain ⟨hadvances, hname, hafter⟩ := ih htaken
      exact ⟨.boundary hadvances, hname, hafter⟩
    | scope counter threading =>
      obtain ⟨rfl, rfl⟩ := Prod.ext_iff.1 (Option.some.inj h)
      exact ⟨.scope rfl fun _ ↦ rfl, rfl, rfl⟩

structure Located (site : Site) (p : Place) (s : State) : Prop where
  scope : parentName site.options.filePath s.frames = p.scope
  owner : s.classes.head?.getD "default" = p.owner
  nested : s.scopes.depth = 0 ↔ p.nested = false
  awaited : ∀ span ∈ s.pending, site.graph.nodeAt? span = none → span ∈ p.awaited
  named : s.Named

section

variable {site : Site} {s s' : State} {p : Place}

theorem depth_openFunction (s : State) (frame : Frame) (bindings : List (String × Binding)) :
    (s.openFunction frame bindings).scopes.depth = s.scopes.depth + 1 := by
  simp only [State.openFunction, Scopes.pushFunction, Scopes.bindAll_cons]
  rfl

theorem depth_of_blockBindings {n : Node} {bind : Scopes → Scopes} (h : blockBindings site n = some bind)
    (s : State) : (s.openBlock bind).scopes.depth = s.scopes.depth + 1 := by
  have hall (bindings : List (String × Binding)) :
      (s.openBlock (·.bindAll bindings)).scopes.depth = s.scopes.depth + 1 := by
    simp only [State.openBlock, Scopes.pushBlock, Scopes.bindAll_cons]
    rfl
  have hhead (left : Node) : (s.openBlock (headBindings left)).scopes.depth = s.scopes.depth + 1 := by
    unfold State.openBlock headBindings
    dsimp only
    split
    · unfold Scopes.bindDeclaration
      split
      · exact (Scopes.Grows.bindVars _ _).length_eq.symm
      · exact hall _
    · rfl
  unfold blockBindings at h
  split at h
  · obtain rfl := Option.some.inj h
    exact hall _
  · obtain rfl := Option.some.inj h
    exact hall _
  · next init _ _ _ =>
    obtain rfl := Option.some.inj h
    cases init with
    | none => rfl
    | some init => exact hhead init
  · obtain rfl := Option.some.inj h
    exact hhead _
  · obtain rfl := Option.some.inj h
    exact hall _
  · simp at h

theorem blockBindings_of_passive {n : Node} (h : isPassive n = true) : blockBindings site n = none := by
  unfold blockBindings
  split <;> simp_all [isPassive]

namespace Located

theorem keeps (h : Located site p s) (hs : Keeps site s s') : Located site p s' where
  scope := (hs.parentName_eq _).trans h.scope
  owner := hs.classes ▸ h.owner
  nested := by
    rw [Scopes.depth, ← hs.scopes.length_eq]
    exact h.nested
  awaited span hspan hd := h.awaited span (hs.pending span hspan hd) hd
  named := h.named.keeps hs

theorem openMemo (h : Located site p s) (sig : Signature) (params : List Param) (stmts : List Stmt) :
    Located site (p.memo sig.qualifiedName) (s.openMemo site sig params stmts) where
  scope := rfl
  owner := h.owner
  nested := by simp [State.openMemo, depth_openFunction, Place.memo]
  awaited := h.awaited
  named := rfl

theorem await (h : Located site p s) (awaited : List Span) (hscopes : s.scopes.Grows s'.scopes)
    (hframes : s'.frames = s.frames) (hclasses : s'.classes = s.classes)
    (hpending : ∀ span ∈ s'.pending, span ∈ awaited ∨ span ∈ s.pending) :
    Located site { p with awaited := awaited ++ p.awaited } s' where
  scope := hframes ▸ h.scope
  owner := hclasses ▸ h.owner
  nested := by
    rw [Scopes.depth, ← hscopes.length_eq]
    exact h.nested
  awaited span hspan hd := List.mem_append.2 ((hpending span hspan).imp_right (h.awaited span · hd))
  named := by
    rw [State.Named, hframes]
    exact h.named

theorem notes (h : Located site p s) {unchanged : Prop} (hnotes : Notes unchanged s s') :
    Located site p s' := by
  obtain ⟨-, rfl⟩ | rfl := hnotes
  · exact h
  · exact ⟨h.scope, h.owner, h.nested, h.awaited, h.named⟩

theorem openPlain (h : Located site p s) {head : FuncHead} (bindings : List (String × Binding)) :
    Located site (p.memo (head.name.elim p.scope (p.functionName site.options.filePath)))
      (s.openFunction (plainFrame site s head.name) bindings) where
  scope := by
    unfold plainFrame
    cases head.name with
    | none => exact h.scope
    | some name =>
      by_cases hdepth : s.scopes.depth = 0
      · simp [State.openFunction, parentName, Place.memo, Place.functionName, hdepth, h.nested.1 hdepth]
      · have hnested : p.nested = true := Bool.not_eq_false _ ▸ mt h.nested.2 hdepth
        simp [State.openFunction, parentName, Place.memo, Place.functionName, hdepth, hnested, h.scope]
  owner := h.owner
  nested := by simp [depth_openFunction, Place.memo]
  awaited := h.awaited
  named := isSome_takeClosureName_cons h.named

theorem enters {n n₁ : Node} {s₁ : State} {leave : State → State} (h : Located site p s)
    (henters : Enters site s n n₁ s₁ leave) : Located site (p.inside site n) s₁ := by
  cases henters with
  | passive passive =>
    have hinside : p.inside site n = p := by
      unfold Place.inside
      split
      case h_5 => simp [blockBindings_of_passive passive]
      all_goals simp [isPassive] at passive
    rw [hinside]
    exact h
  | name plain => exact h
  | call plain => exact h
  | signature form =>
    simp only [Place.inside, form, if_true]
    exact h
  | @function span head typeParams this params result body s₁ form plain =>
    simp only [Place.inside, form, if_false]
    exact (h.keeps (keeps_of_signs plain).1).openPlain _
  | cls =>
    exact ⟨h.scope, rfl, h.nested, h.awaited, h.named⟩
  | method plain notes =>
    simp only [Place.inside, plain, Bool.false_eq_true, if_false]
    have hs := h.notes notes
    exact ⟨by rw [Place.methodName, ← h.owner]; rfl, hs.owner, hs.nested, hs.awaited, rfl⟩
  | memoMethod memo notes =>
    simp only [Place.inside, memo, if_true]
    have hs := h.notes notes
    split
    · exact hs.await _ (.refl _) rfl rfl fun span hspan ↦ List.mem_append.1 hspan
    · exact hs.await _ (.refl _) rfl rfl fun span hspan ↦ .inr hspan
  | field annotates notes => exact h.notes notes
  | param notes => exact h.notes notes
  | pair => exact h
  | fieldPattern => exact h
  | @vars span kind declared items items' noted awaiting _ redeclares notes awaits binds =>
    have hitems : items'.flatMap initialClosure = items.flatMap initialClosure := by
      clear notes awaits binds
      induction redeclares with
      | nil => rfl
      | cons head _ ih =>
        rw [List.flatMap_cons, List.flatMap_cons, ih]
        cases head with
        | kept => rfl
        | @annotated _ _ _ _ _ init _ => cases init <;> rfl
    have hs := h.notes notes
    obtain ⟨hgrows, hframes, hclasses, hpending⟩ : awaiting.scopes.Grows s₁.scopes ∧
        s₁.frames = awaiting.frames ∧ s₁.classes = awaiting.classes ∧
        s₁.pending = awaiting.pending := by
      rw [binds]
      split
      · exact ⟨Scopes.Grows.bindVars _ _, rfl, rfl, rfl⟩
      · exact ⟨.refl _, rfl, rfl, rfl⟩
    simp only [Place.inside]
    split
    · next memo =>
      rw [if_pos memo] at awaits
      subst awaits
      refine hs.await _ hgrows hframes hclasses fun span hspan ↦ ?_
      rw [hpending] at hspan
      exact hitems ▸ List.mem_append.1 hspan
    · next memo =>
      rw [if_neg memo] at awaits
      subst awaits
      exact hs.await [] hgrows hframes hclasses fun span hspan ↦ .inr (hpending ▸ hspan)
  | block opens =>
    have hinside : p.inside site n = { p with nested := true } := by
      unfold Place.inside
      split
      case h_5 => simp [opens]
      all_goals simp [blockBindings] at opens
    rw [hinside]
    exact ⟨h.scope, h.owner, by simp [depth_of_blockBindings opens], h.awaited, h.named⟩
  | interfaceDecl extended notes => exact h.notes notes

end Located

def paramName? : Param → Option String
  | .param _ _ _ _ target _ _ => target.simpleName?
  | _ => none

theorem leadingNames_eq (params : List Param) :
    leadingNames params = ((params.filter (!Glue.isRest ·)).map paramName?).take 2 := by
  rw [← List.map_take]
  rfl

theorem plainParam_keeps (param : Param) :
    Glue.isRest (plainParam param) = Glue.isRest param ∧
      paramName? (plainParam param) = paramName? param := by
  unfold plainParam
  split <;> exact ⟨rfl, rfl⟩

theorem reshapes_keeps {names : RuntimeNames} {memoTyped : Bool} {param param' : Param}
    (h : Reshapes names memoTyped param param') :
    Glue.isRest param' = Glue.isRest param ∧ paramName? param' = paramName? param := by
  cases h with
  | kept => exact plainParam_keeps param
  | typed marked plain retyped =>
    have hkeeps := plainParam_keeps param
    rw [plain] at hkeeps
    exact hkeeps

theorem leadingNames_reshapesAll {names : RuntimeNames} {positions : List Nat} {index : Nat}
    {params params' : List Param} (h : ReshapesAll names positions index params params') :
    leadingNames params' = leadingNames params := by
  rw [leadingNames_eq, leadingNames_eq]
  congr 1
  induction h with
  | nil => rfl
  | cons head _ ih =>
    obtain ⟨hrest, hname⟩ := reshapes_keeps head
    rw [List.filter_cons, List.filter_cons, hrest]
    split
    · rw [List.map_cons, List.map_cons, hname, ih]
    · exact ih

theorem leadingNames_hidden {names : RuntimeNames} (hplain : names.IsPlain) {hidden : List Param}
    (h : Glue.hiddenParameters names = .ok hidden) (params : List Param) :
    leadingNames (hidden ++ params) = [some names.context, some names.id] := by
  obtain ⟨p, q, hread, ⟨span, place, type, rfl⟩, ⟨span', place', type', rfl⟩⟩ :=
    Glue.hiddenParameters_eq_ok hplain
  obtain rfl := Except.ok.inj (h.symm.trans hread)
  rfl

theorem leadingNames_entry {names : RuntimeNames} {sig : Signature} {params : List Param} {start : Nat}
    (hentry : sig.mode = .entry) (h : breaches names sig params start = []) :
    leadingNames params = [some names.context, some names.id] := by
  unfold breaches at h
  dsimp only at h
  split at h
  · exact absurd h (by simp)
  · split at h
    · next hleading => exact hleading
    · exact absurd h (by simp)

theorem leadingNames_memo {sig : Signature} {head : FuncHead} {start : Nat}
    {params params' hidden : List Param} (hplain : site.options.runtime.IsPlain)
    (faultless : Faultless site sig head start params)
    (reshapes : ReshapesAll site.options.runtime sig.parameters.memoIndices 0 params params')
    (hides : Hides site sig hidden) :
    leadingNames (hidden ++ params') =
      [some site.options.runtime.context, some site.options.runtime.id] := by
  unfold Hides at hides
  split at hides
  · next hentry =>
    subst hides
    rw [List.nil_append, leadingNames_reshapesAll reshapes, leadingNames_entry hentry faultless.2]
  · exact leadingNames_hidden hplain hides params'

def Labelled (site : Site) : Walked :=
  fun s n n' s' ↦ ∀ p, Located site p s → ∃ t, Labels site p n n' t ∧ t.Moves s.frames s'.frames

def Records (site : Site) : Walked :=
  fun s n n' s' ↦ Walks site s n n' s' ∧ Labelled site s n n' s'

theorem labelsAll_of_threads {ns ns' : List Node} (hp : Located site p s)
    (h : Threads (Records site) s ns ns' s') :
    ∃ t, LabelsAll site p ns ns' t ∧ t.Moves s.frames s'.frames := by
  induction h with
  | nil => exact ⟨{}, .nil, .of_empty rfl rfl _⟩
  | cons head tail ih =>
    obtain ⟨first, hfirst, hmoves⟩ := head.2 p hp
    obtain ⟨rest, hrest, hmoves'⟩ := ih (hp.keeps head.1.keeps)
    exact ⟨first ++ rest, .cons hfirst hrest, hmoves.trans hmoves'⟩

theorem takes_of_memo {sig : Signature} {f : Func} {head : FuncHead} {start : Nat}
    {params params' hidden : List Param} (tabled : IsTableOf site sig.parameters f)
    (faultless : Faultless site sig head start params)
    (reshapes : ReshapesAll site.options.runtime sig.parameters.memoIndices 0 params params')
    (hides : Hides site sig hidden) : Takes site f params (hidden ++ params') where
  lengthens := lengthens_of_reshapes tabled reshapes hides
  leads hplain := leadingNames_memo hplain faultless reshapes hides

theorem labelsMemo_of_memoises {sig : Signature} {f f' : Func} (hp : Located site p s)
    (tabled : IsTableOf site sig.parameters f) (h : Memoises site (Records site) sig s f f' s') :
    ∃ t, LabelsMemo site (p.memo sig.qualifiedName) sig.offset f f' t ∧ s'.frames = s.frames := by
  cases h with
  | bodiless faultless reshapes => exact ⟨{}, .bodiless (.intro tabled reshapes (.inl rfl)), rfl⟩
  | wrapped faultless reshapes present memo wraps hides =>
    cases wraps with
    | intro parts encloses walks wraps =>
      have hopened (count : Nat) : Located site p (s.mark.countEnclosed count) :=
        hp.keeps (.same rfl rfl rfl rfl)
      obtain ⟨t, hlabels, hmoves⟩ := labelsAll_of_threads ((hopened _).openMemo sig _ _) walks
      obtain ⟨hnumbered, -, hframes⟩ := hmoves.of_scope
      exact ⟨t, .memo (takes_of_memo tabled faultless reshapes hides) parts
        (enclosures_of_encloses encloses) hlabels hnumbered wraps, hframes⟩
  | bare faultless reshapes present notMemo walks hides =>
    have hopened : Located site p s.mark := hp.keeps (.same rfl rfl rfl rfl)
    obtain ⟨t, hlabels, hmoves⟩ := labelsAll_of_threads (hopened.openMemo sig _ _) walks.children
    obtain ⟨hnumbered, -, hframes⟩ := hmoves.of_scope
    exact ⟨t, .bare (takes_of_memo tabled faultless reshapes hides) walks.skeleton hlabels hnumbered,
      hframes⟩

theorem labelsArgs_of_threadsArgs {plan : CallPlan} {ordinal index : Nat} {args args' : List Expr}
    (hp : Located site p s)
    (h : ThreadsArgs site (Records site) plan p.scope ordinal index s args args' s') :
    ∃ t, LabelsArgs site p ordinal index args args' t ∧ t.Moves s.frames s'.frames := by
  induction h with
  | nil => exact ⟨{}, .nil, .of_empty rfl rfl _⟩
  | @closure index s s₁ s' arg arg' args args' builds memoises tail ih =>
    let sig := builderSignature site (QualifiedName.nested p.scope ordinal index) plan.reifies arg
    obtain ⟨tabled, hname, hoffset⟩ : IsTableOf site sig.parameters arg ∧
        sig.qualifiedName = QualifiedName.nested p.scope ordinal index ∧
        sig.offset = site.identity.ownScope (QualifiedName.nested p.scope ordinal index) := by
      cases memoises <;> exact ⟨.inr rfl, rfl, rfl⟩
    obtain ⟨inner, woven, hframes⟩ := labelsMemo_of_memoises hp tabled memoises
    rw [hname, hoffset] at woven
    have hkeeps : Keeps site s s₁ := keeps_of_memoises (memoises.mono fun hw ↦ hw.1.rests)
    obtain ⟨rest, hrest, hmoves⟩ := ih (hp.keeps hkeeps)
    rw [hframes] at hmoves
    exact ⟨_, .closure woven hrest, (Ledger.Moves.of_empty rfl rfl _).trans hmoves⟩
  | value builds head tail ih =>
    obtain ⟨first, hfirst, hmoves⟩ := head.2 p hp
    obtain ⟨rest, hrest, hmoves'⟩ := ih (hp.keeps head.1.keeps)
    exact ⟨_, .value hfirst hrest, hmoves.trans hmoves'⟩

theorem labelled_of_memo {span : Span} {head : FuncHead} {typeParams : List Node} {this : Option Node}
    {params : List Param} {result : Option Ty} {body : Node} {f' : Func} {sig : Signature} {s₁ : State}
    (form : head.form ≠ .signature) (signed : Signs site s span head.form params (some sig) s₁)
    (memoises : Memoises site (Records site) sig s₁
      (.func span head typeParams this params result body) f' s') :
    Labelled site s (.func span head typeParams this params result body) f' s' := by
  intro p hp
  obtain ⟨inner, woven, hframes⟩ := labelsMemo_of_memoises (hp.keeps (keeps_of_signs signed).1)
    (tabled_of_signs signed) memoises
  have function : isFunction (.func span head typeParams this params result body) = true :=
    decide_eq_true form
  cases signed with
  | declared found => exact ⟨_, .declared function found woven, hframes ▸ .of_empty rfl rfl _⟩
  | @closure mode name frames absent marked named =>
    obtain ⟨hname, hmoves⟩ := moves_of_takeClosureName named site.options.filePath
    rw [hp.scope] at hname
    subst hname
    have hmarked : (modeOf? site span).isSome = true ∨ span ∈ p.awaited := by
      unfold modeAt? at marked
      rw [modeOf?, absent]
      by_cases hpending : span ∈ s.pending
      · exact .inr (hp.awaited span hpending absent)
      · refine .inl (Option.isSome_iff_exists.2 ⟨mode, ?_⟩)
        simpa [hpending] using marked
    exact ⟨_, .free function absent hmarked woven, hmoves.trans (hframes ▸ .of_empty rfl rfl _)⟩

theorem modeOf?_of_enters {n n₁ : Node} {s₁ : State} {leave : State → State} (hs : s.Named)
    (h : Enters site s n n₁ s₁ leave) (hn : isFunction n = true) : modeOf? site n.span = none := by
  cases h with
  | signature form => simp [isFunction, form] at hn
  | function form plain =>
    cases plain with
    | unmarked absent plain =>
      have hmarkers := (Option.or_eq_none_iff.1 plain).1
      simpa [modeOf?, Node.span, absent] using hmarkers
    | nameless absent marked unnamed => simp [State.Named, unnamed] at hs
  | passive passive =>
    unfold isFunction at hn
    split at hn
    · simp [isPassive] at passive
    · simp at hn
  | block opens =>
    unfold isFunction at hn
    split at hn
    · simp [blockBindings] at opens
    · simp at hn
  | _ => simp [isFunction] at hn

theorem opensScope_eq_false {n : Node} (h : ∀ frame, ¬OwnFrame site s n frame) :
    opensScope site n = false := by
  unfold opensScope
  split
  · next head _ _ _ _ _ =>
    by_cases form : head.form = .signature
    · simp [form]
    · exact absurd (.function form) (h _)
  · next span _ _ decorators _ _ =>
    by_cases plain : (memberMarkers site span decorators).isMemoLike = true
    · simp [plain]
    · exact absurd (.method (by simpa using plain)) (h _)
  · rfl

/-- The frame of an ordinary function or method: closures count by its name, or by a scope further out. -/
theorem OwnFrame.cases {n : Node} {frame : Frame} (h : OwnFrame site s n frame) :
    frame = .boundary ∧ opensScope site n = false ∨
      ∃ name, frame = .scope { name } false ∧ opensScope site n = true := by
  cases h with
  | @function _ head _ _ _ _ _ form =>
    unfold plainFrame
    cases hname : head.name with
    | none => exact .inl ⟨rfl, by simp [opensScope, hname]⟩
    | some name =>
      dsimp only
      split <;> exact .inr ⟨_, rfl, by simp [opensScope, hname, form]⟩
  | method plain => exact .inr ⟨_, rfl, by simp [opensScope, plain]⟩

theorem labelled_of_step {n n' : Node} (h : Step site (Records site) s n n' s') :
    Labelled site s n n' s' := by
  intro p hp
  cases h with
  | read watched => exact ⟨{}, .reference, .of_empty rfl rfl _⟩
  | @thread span optional isPure callee callee' identity types args args' plan counter frames s₁ s₂
      resolves inside callees arguments identifies =>
    have hscope : counter.name = p.scope := by
      rw [← hp.scope, inside]
      rfl
    have hcall : ({ calls := [counter.calls] } : Ledger).Moves s.frames
        (.scope counter.nextCall.2 true :: frames) := by
      rw [inside]
      exact ⟨.scope rfl (by simp), rfl, rfl⟩
    have hnext : Keeps site s { s with frames := .scope counter.nextCall.2 true :: frames } := by
      refine ⟨.refl _, ?_, rfl, fun _ h _ ↦ h⟩
      rw [inside]
      exact .cons (.scope rfl) (List.forall₂_same.2 fun frame _ ↦ .refl frame)
    have hp' := hp.keeps hnext
    obtain ⟨first, hfirst, hcallee⟩ := callees.2 p hp'
    obtain ⟨rest, hrest, harguments⟩ :=
      labelsArgs_of_threadsArgs (hp'.keeps callees.1.keeps) (hscope ▸ arguments)
    have hidentity : Identifies site p.scope counter.calls identity := by
      rw [hscope] at identifies
      refine ⟨identifies, fun hplain ↦ ?_⟩
      obtain ⟨e, hread, hidentity⟩ := Glue.identityArgument_eq_ok hplain
        (site.identity.callSite p.scope counter.calls)
      obtain rfl := Except.ok.inj (identifies.symm.trans hread)
      exact hidentity
    exact ⟨_, .call hfirst hrest hidentity, hcall.trans (hcallee.trans harguments)⟩
  | memo form signed memoises => exact labelled_of_memo form signed memoises p hp
  | within enters parts =>
    obtain ⟨t, hlabels, hmoves⟩ := labelsAll_of_threads (hp.enters enters) parts.children
    have hplain := modeOf?_of_enters hp.named enters
    have halters := alters_of_enters enters
    obtain ⟨hnone, hframes, hleave⟩ | ⟨frame, hown, hframes, hleave⟩ := frames_of_enters enters
    · rw [hframes] at hmoves
      exact ⟨t, .within (opensScope_eq_false hnone) hplain halters parts.skeleton hlabels
        (by simp [isFunction_eq_false hnone]), (hleave _).symm ▸ hmoves⟩
    · rw [hframes] at hmoves
      obtain ⟨rfl, hopens⟩ | ⟨name, rfl, hopens⟩ := hown.cases
      · obtain ⟨hquiet, hmoves⟩ := hmoves.of_boundary
        exact ⟨t, .within hopens hplain halters parts.skeleton hlabels fun _ ↦ hquiet,
          (hleave _).symm ▸ hmoves⟩
      · obtain ⟨hnumbered, hquiet, htail⟩ := hmoves.of_scope
        refine ⟨_, .aside hopens hplain halters parts.skeleton hlabels (hquiet rfl) hnumbered, ?_⟩
        rw [hleave, htail]
        exact .of_empty rfl rfl _

theorem located_initial (site : Site) :
    Located site (.top site.options.filePath) (initial site.options.filePath) where
  scope := rfl
  owner := rfl
  nested := by simp [initial, Scopes.depth, Place.top]
  awaited := by simp [initial]
  named := rfl

theorem threads_records_of_walkAll {depth : Nat} {stmts stmts' : List Stmt}
    (h : walkAll site depth stmts = some (stmts', s))
    (hclean : walkErrors site.options.filePath s = []) :
    Threads (Records site) (initial site.options.filePath) stmts stmts' s :=
  (threads_walks_of_walkAll h (walkErrors_eq_nil.1 hclean)).mono fun hw ↦
    ⟨hw, hw.induct labelled_of_step⟩

/-- Threading is sound: of a file with nothing wrong, threaded calls stand in memo functions only, each
passes on the context and then its own identity, and the calls of a memo function are numbered from
zero on in the order of the text, whatever functions and calls stand between them. -/
theorem walkAll_numbers_calls {depth : Nat} {stmts stmts' : List Stmt}
    (h : walkAll site depth stmts = some (stmts', s))
    (hclean : walkErrors site.options.filePath s = []) :
    ∃ t, LabelsAll site (.top site.options.filePath) stmts stmts' t ∧ t.calls = [] ∧ t.FromZero := by
  obtain ⟨t, hlabels, hmoves⟩ :=
    labelsAll_of_threads (located_initial site) (threads_records_of_walkAll h hclean)
  obtain ⟨hnumbered, hquiet, -⟩ := hmoves.of_scope
  exact ⟨t, hlabels, hquiet rfl, hnumbered⟩

end

theorem isPlain_shortNames : shortNames.IsPlain := by
  constructor <;> decide

def numbers (n : Node) : List String :=
  n.gather (fun (_ : Unit) n ↦ (some (), match n with
    | .lit _ (.number text) => [text]
    | _ => [])) ()

/-- A closure with two calls, and between them a closure with a call of its own. -/
def closuresSource : String :=
  "run(/** @memo_intrinsic */ () => \x7b Text(); run(/** @memo_intrinsic */ () => \x7b Text(); \x7d); "
    ++ "Text(); \x7d);\n"

def outerName : String :=
  QualifiedName.free (Place.top "input.ts").scope 0

/-- The numbers in what is woven of the closures are those of their calls. -/
def closuresNumbers (identity : Identity) : List String :=
  [(outerName, 0), (QualifiedName.free outerName 0, 0), (outerName, 1)].map fun c ↦
    Identity.literal (identity.callSite c.1 c.2)

set_option maxRecDepth 100000 in
theorem wovenView_closuresSource : wovenView closuresSource shortOptions 16 (fun parsed stmts' _ ↦
    decide (stmts'.flatMap numbers =
      closuresNumbers (siteOf closuresSource shortOptions parsed).identity)) = some true := by
  decide +kernel

theorem walkAll_numbers_calls_closuresSource : shortNames.IsPlain ∧ ∃ parsed stmts' s,
    parse? closuresSource false = some parsed ∧
      walkAll (siteOf closuresSource shortOptions parsed) 16 parsed.program.body = some (stmts', s) ∧
      walkErrors "input.ts" s = [] ∧
      stmts'.flatMap numbers = closuresNumbers (siteOf closuresSource shortOptions parsed).identity ∧
      ∃ t, LabelsAll (siteOf closuresSource shortOptions parsed) (.top "input.ts") parsed.program.body
        stmts' t ∧ t.calls = [] ∧ t.FromZero := by
  obtain ⟨parsed, stmts', s, hparsed, h, hclean, hview⟩ := exists_of_wovenView wovenView_closuresSource
  exact ⟨isPlain_shortNames, parsed, stmts', s, hparsed, h, hclean, of_decide_eq_true hview,
    walkAll_numbers_calls h hclean⟩

end Recompose.Weave
