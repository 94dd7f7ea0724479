import Recompose.Proofs.Everywhere
import Recompose.Proofs.Marked
import Recompose.Proofs.Untouched

namespace Recompose.Script.Node

theorem exists_of_skeleton_apply {n callee : Node} {span : Span} {how : Application}
    {types args : List Node} (h : n.skeleton = (apply span how callee types args).skeleton) :
    ∃ callee' types' args', n = .apply span how callee' types' args' := by
  cases n
  case apply =>
    obtain ⟨rfl, rfl, -, -, -⟩ := apply.inj h
    exact ⟨_, _, _, rfl⟩
  case ascribe =>
    simp only [skeleton, mapChildren] at h
    split at h <;> cases h
  all_goals cases h

end Recompose.Script.Node

namespace Recompose.Weave

open Script

def ownDecorators : Node → List Expr
  | .method _ _ _ decorators _ _ => decorators
  | .field _ false _ decorators _ _ _ => decorators
  | .param _ _ false decorators _ _ _ => decorators
  | _ => []

/-- No member or parameter in a node has a marker decorator. -/
def Consumed (n : Node) : Prop :=
  n.Everywhere fun m ↦ hasMarker (ownDecorators m) = false

instance : DecidablePred Consumed :=
  fun n ↦ inferInstanceAs (Decidable (n.Everywhere fun m ↦ hasMarker (ownDecorators m) = false))

inductive Generated (names : RuntimeNames) : Node → Prop
  | identity {offset : UInt64} {e : Expr} (identifies : Glue.identityArgument names offset = .ok e) :
      Generated names e
  | opening {offset : UInt64} {kind : ReturnKind} {registered : List (Nat × String)}
      {opening : List Stmt} {stmt : Stmt}
      (opens : Glue.preamble names offset kind registered = .ok opening) (mem : stmt ∈ opening) :
      Generated names stmt
  | voidCommit {stmt : Stmt} (commits : Glue.voidCommit names = .ok stmt) : Generated names stmt
  | valueCommit {span inner : Span} {optional isPure : Bool} {callee part : Node}
      {types args : List Node}
      (commits : Glue.statement ("return " ++ names.scope ++ "." ++ names.recache ++ "();") =
        .ok (.returnStmt span (some (.apply inner (.call optional isPure) callee types args))))
      (mem : part ∈ callee :: (types ++ args)) : Generated names part

/-- What the walk does not look at: the heads of memo functions, the type arguments of the calls that
it threads, and what it generates. A member that stands for a body, as in no text, is passed over too. -/
inductive Overlooked (names : RuntimeNames) (n : Node) : Node → Prop
  | head {span : Span} {head : FuncHead} {typeParams : List Node} {this : Option Node}
      {params : List Param} {result : Option Ty} {body part : Node}
      (function : .func span head typeParams this params result body ∈ n.nodes)
      (mem : part ∈ typeParams ++ this.toList ++ params ++ result.toList) : Overlooked names n part
  | body {span : Span} {head : FuncHead} {typeParams : List Node} {this : Option Node}
      {params : List Param} {result : Option Ty} {body : Node}
      (function : .func span head typeParams this params result body ∈ n.nodes)
      (member : ownDecorators body ≠ []) : Overlooked names n body
  | typeArgument {span : Span} {optional isPure : Bool} {callee type : Node} {types args : List Node}
      (call : .apply span (.call optional isPure) callee types args ∈ n.nodes) (mem : type ∈ types) :
      Overlooked names n type
  | generated {part : Node} (mem : part ∈ n.nodes) (generated : Generated names part) :
      Overlooked names n part

def OverlooksNothing (names : RuntimeNames) (n : Node) : Prop :=
  ∀ m, Overlooked names n m → Consumed m

section

variable {names : RuntimeNames} {m n : Node}

theorem Overlooked.of_part {k : Node} (hm : m ∈ n.children) (h : Overlooked names m k) :
    Overlooked names n k := by
  cases h with
  | head function mem => exact .head (Node.mem_nodes_of_part hm function) mem
  | body function member => exact .body (Node.mem_nodes_of_part hm function) member
  | typeArgument call mem => exact .typeArgument (Node.mem_nodes_of_part hm call) mem
  | generated mem generated => exact .generated (Node.mem_nodes_of_part hm mem) generated

theorem OverlooksNothing.part (h : OverlooksNothing names n) (hm : m ∈ n.children) :
    OverlooksNothing names m :=
  fun k hk ↦ h k (hk.of_part hm)

theorem OverlooksNothing.generated (h : OverlooksNothing names n) (hn : Generated names n) :
    Consumed n :=
  h n (.generated n.mem_nodes_self hn)

theorem consumed_iff : Consumed n ↔ hasMarker (ownDecorators n) = false ∧
    ∀ m ∈ n.children, Consumed m :=
  Node.everywhere_iff

theorem consumed_ref (span : Span) (name : String) : Consumed (.ref span name) :=
  consumed_iff.2 ⟨rfl, by simp [Node.children]⟩

theorem consumed_parameterValue (name : String) : Consumed (Glue.parameterValue names name) :=
  consumed_iff.2 ⟨rfl, fun _ hm ↦ List.mem_singleton.1 hm ▸ consumed_ref _ _⟩

theorem Consumed.part (h : Consumed n) (hm : m ∈ n.children) : Consumed m :=
  Node.Everywhere.part h hm

theorem Consumed.overlooksNothing (h : Consumed n) : OverlooksNothing names n := by
  intro m hm
  cases hm with
  | head function mem => exact (h.of_mem function).part (List.mem_append_left _ mem)
  | body function member => exact (h.of_mem function).part (List.mem_append_right _ (by simp))
  | typeArgument call mem =>
    exact (h.of_mem call).part (List.mem_append_left _ (List.mem_append_right _ mem))
  | generated mem generated => exact h.of_mem mem

theorem ownDecorators_lead (n : Node) : ownDecorators n <+: n.children := by
  unfold ownDecorators
  split
  · exact List.prefix_append _ _
  · simp [Node.children]
  · simp [Node.children]
  · exact List.nil_prefix

theorem length_ownDecorators (n : Node) :
    (ownDecorators n.skeleton).length = (ownDecorators n).length := by
  cases n
  case ascribe =>
    simp only [Node.skeleton, Node.mapChildren]
    split <;> rfl
  case method => simp [Node.skeleton, Node.mapChildren, ownDecorators]
  case field accessor _ _ _ _ _ => cases accessor <;> simp [Node.skeleton, Node.mapChildren, ownDecorators]
  case param rest _ _ _ _ => cases rest <;> simp [Node.skeleton, Node.mapChildren, ownDecorators]
  all_goals rfl

end

theorem ownDecorators_of_holdsReturns {n : Node} (h : CacheScope.holdsReturns n = true) :
    ownDecorators n = [] := by
  unfold CacheScope.holdsReturns at h
  split at h <;> first | rfl | cases h

/-- What the walk makes of a node: no marker decorator comes about and, whether or not its returns are
made to commit, none is left but in what is overlooked. -/
structure Consumes (names : RuntimeNames) (n n' : Node) : Prop where
  reference : ∀ span name, n' = .ref span name → n = .ref span name
  marker : Markers.ofDecorator? n = none → Markers.ofDecorator? n' = none
  consumed : ∀ c, CacheScope.Recommits names n' c → OverlooksNothing names c → Consumed c

section

variable {names : RuntimeNames} {site : Site} {s s' : State}

theorem consumed_of_forall₂ {ns ns' cs : List Node} (h : List.Forall₂ (Consumes names) ns ns')
    (hcs : List.Forall₂ (CacheScope.Recommits names) ns' cs)
    (ho : ∀ c ∈ cs, OverlooksNothing names c) : ∀ c ∈ cs, Consumed c := by
  induction h generalizing cs with
  | nil =>
    cases hcs
    simp
  | cons head tail ih =>
    cases hcs with
    | cons hc hcs =>
      rw [List.forall_mem_cons] at ho ⊢
      exact ⟨head.consumed _ hc ho.1, ih hcs ho.2⟩

theorem hasMarker_of_forall₂ {ds ds' : List Expr} (h : List.Forall₂ (Consumes names) ds ds')
    (hds : hasMarker ds = false) : hasMarker ds' = false := by
  unfold hasMarker at hds ⊢
  rw [List.any_eq_false] at hds ⊢
  induction h with
  | nil => simp
  | cons head tail ih =>
    rw [List.forall_mem_cons] at hds ⊢
    have hnone := head.marker (by simpa using hds.1)
    exact ⟨by simp [hnone], ih hds.2⟩

theorem hasMarker_of_parts {n n' : Node} (h : List.Forall₂ (Consumes names) n.children n'.children)
    (skeleton : n'.skeleton = n.skeleton) (hplain : hasMarker (ownDecorators n) = false) :
    hasMarker (ownDecorators n') = false := by
  have hlength : (ownDecorators n').length = (ownDecorators n).length := by
    rw [← length_ownDecorators n', skeleton, length_ownDecorators]
  have hown : List.Forall₂ (Consumes names) (ownDecorators n) (ownDecorators n') := by
    rw [List.prefix_iff_eq_take.1 (ownDecorators_lead n),
      List.prefix_iff_eq_take.1 (ownDecorators_lead n'), hlength]
    exact List.forall₂_take _ h
  exact hasMarker_of_forall₂ hown hplain

theorem exists_of_valueCommit {e : Expr} {stmt : Stmt} (h : Glue.valueCommit names e = .ok stmt) :
    ∃ span inner optional isPure callee types args,
      Glue.statement ("return " ++ names.scope ++ "." ++ names.recache ++ "();") =
        .ok (.returnStmt span (some (.apply inner (.call optional isPure) callee types args))) ∧
      stmt = .returnStmt span (some (.apply inner (.call optional isPure) callee types (args ++ [e]))) := by
  obtain ⟨read, hread, h⟩ := CacheScope.bind_eq_ok.1 h
  split at h
  · obtain rfl := Except.ok.inj h
    exact ⟨_, _, _, _, _, _, _, hread, rfl⟩
  · cases h

theorem consumed_of_parts {n n' c : Node} (h : List.Forall₂ (Consumes names) n.children n'.children)
    (hown : hasMarker (ownDecorators n') = false) (hc : CacheScope.Recommits names n' c)
    (ho : OverlooksNothing names c) : Consumed c := by
  have hkept (ho : OverlooksNothing names n') : Consumed n' :=
    consumed_iff.2 ⟨hown, consumed_of_forall₂ h (CacheScope.forall₂_recommits_same _)
      fun _ hm ↦ ho.part hm⟩
  obtain rfl | hc := hc
  · exact hkept ho
  cases CacheScope.commitsOnce_of_commitReturns hc with
  | kept => exact hkept ho
  | @value span e stmt commits =>
    obtain ⟨outer, inner, optional, isPure, callee, types, args, hread, rfl⟩ :=
      exists_of_valueCommit commits
    have happly := ho.part (List.mem_singleton_self _)
    have he : Consumed e := by
      refine consumed_of_forall₂ h (CacheScope.forall₂_recommits_same _) ?_ e (by simp [Node.children])
      intro m hm
      obtain rfl : m = e := by simpa [Node.children] using hm
      exact happly.part (by simp [Node.children])
    refine consumed_iff.2 ⟨rfl, fun m hm ↦ ?_⟩
    obtain rfl : m = _ := List.mem_singleton.1 hm
    refine consumed_iff.2 ⟨rfl, fun m hm ↦ ?_⟩
    have hmem : m ∈ callee :: (types ++ args) ++ [e] := by simpa [Node.children] using hm
    obtain hmem | hmem := List.mem_append.1 hmem
    · exact (happly.part hm).generated (.valueCommit hread hmem)
    · exact List.mem_singleton.1 hmem ▸ he
  | void commits => exact ho.generated (.voidCommit commits)
  | within holds skeleton parts =>
    have hnil : ownDecorators c = [] := by
      rw [← List.length_eq_zero_iff, ← length_ownDecorators, skeleton, length_ownDecorators,
        ownDecorators_of_holdsReturns holds]
      rfl
    exact consumed_iff.2 ⟨by rw [hnil]; rfl, consumed_of_forall₂ h parts fun _ hm ↦ ho.part hm⟩

theorem consumed_of_wraps {sig : Signature} {params : List Param} {result : Option Ty}
    {body body' : Node}
    (h : Wraps site (fun _ n n' _ ↦ Consumes site.options.runtime n n') sig params result s body body' s')
    (ho : OverlooksNothing site.options.runtime body') : Consumed body' := by
  cases h with
  | intro parts encloses walks wraps =>
    obtain ⟨opening, committed, closing, opens, hcommitted, closes, rfl⟩ :=
      CacheScope.exists_of_wrap wraps
    refine consumed_iff.2 ⟨rfl, fun m hm ↦ ?_⟩
    have hm' : m ∈ opening ++ committed ++ closing := hm
    simp only [List.mem_append] at hm'
    obtain (hopening | hm') | hclosing := hm'
    · exact (ho.part hm).generated (.opening opens hopening)
    · refine consumed_of_forall₂ (walks.forall₂ fun _ hn ↦ hn)
        (CacheScope.forall₂_of_commitAll hcommitted) (fun c hc ↦ ho.part ?_) m hm'
      exact List.mem_append_left _ (List.mem_append_right _ hc)
    · obtain rfl | ⟨commit, commits, rfl⟩ := closes
      · simp at hclosing
      · obtain rfl := List.mem_singleton.1 hclosing
        exact (ho.part hm).generated (.voidCommit commits)

theorem consumes_func {f : Func} {span : Span} {head : FuncHead} {typeParams : List Node}
    {this : Option Node} {params : List Param} {result : Option Ty} {body : Node}
    (hbody : ownDecorators body = [] → OverlooksNothing names body → Consumed body) :
    Consumes names f (.func span head typeParams this params result body) := by
  refine ⟨fun _ _ h ↦ (by cases h), fun _ ↦ rfl, fun c hc ho ↦ ?_⟩
  obtain rfl : c = .func span head typeParams this params result body := by
    obtain rfl | hc := hc
    · rfl
    · exact (Except.ok.inj hc).symm
  refine consumed_iff.2 ⟨rfl, fun m hm ↦ ?_⟩
  obtain hm | hm := List.mem_append.1 hm
  · exact ho m (.head (Node.mem_nodes_self _) hm)
  · obtain rfl := List.mem_singleton.1 hm
    by_cases hown : ownDecorators m = []
    · exact hbody hown (ho.part (List.mem_append_right _ (List.mem_singleton_self _)))
    · exact ho m (.body (Node.mem_nodes_self _) hown)

theorem consumes_of_memoises {sig : Signature} {f f' : Func}
    (h : Memoises site (fun _ n n' _ ↦ Consumes site.options.runtime n n') sig s f f' s') :
    Consumes site.options.runtime f f' := by
  cases h with
  | bodiless faultless reshapes =>
    exact consumes_func fun _ _ ↦ consumed_iff.2 ⟨rfl, by simp [Node.children]⟩
  | wrapped faultless reshapes present memo wraps hides =>
    exact consumes_func fun _ ↦ consumed_of_wraps wraps
  | bare faultless reshapes present notMemo walks hides =>
    refine consumes_func fun hown ho ↦ ?_
    exact consumed_of_parts (walks.children.forall₂ fun _ hn ↦ hn) (by rw [hown]; rfl) (.inl rfl) ho

theorem consumes_of_threadsArgs {plan : CallPlan} {parent : String} {ordinal index : Nat}
    {args args' : List Expr}
    (h : ThreadsArgs site (fun _ n n' _ ↦ Consumes site.options.runtime n n') plan parent ordinal index
      s args args' s') : List.Forall₂ (Consumes site.options.runtime) args args' := by
  induction h with
  | nil => exact .nil
  | closure builds memoises tail ih => exact .cons (consumes_of_memoises memoises) ih
  | value builds head tail ih => exact .cons head ih

theorem reference_of_parts {n n' : Node} (h : List.Forall₂ (Consumes names) n.children n'.children)
    (skeleton : n'.skeleton = n.skeleton) {span : Span} {name : String} (hn' : n' = .ref span name) :
    n = .ref span name := by
  subst hn'
  refine Node.eq_of_skeleton_eq skeleton.symm ?_
  exact List.forall₂_nil_right_iff.1 h

theorem marker_of_parts {n n' : Node} (h : List.Forall₂ (Consumes names) n.children n'.children)
    (skeleton : n'.skeleton = n.skeleton) (hn : Markers.ofDecorator? n = none) :
    Markers.ofDecorator? n' = none := by
  unfold Markers.ofDecorator?
  split
  · obtain rfl := reference_of_parts h skeleton rfl
    exact hn
  · next span optional isPure place name types args =>
    obtain ⟨callee, types', args', rfl⟩ := Node.exists_of_skeleton_apply skeleton.symm
    cases h with
    | cons head tail =>
      obtain rfl := head.reference place name rfl
      exact hn
  · rfl

theorem hasMarker_of_enters {n n₁ : Node} {s₁ : State} {leave : State → State}
    (h : Enters site s n n₁ s₁ leave) : hasMarker (ownDecorators n₁) = false := by
  have hdropped (decorators : List Expr) : hasMarker (withoutMarkers decorators) = false := by
    simp [hasMarker, withoutMarkers]
  cases h with
  | passive passive =>
    unfold ownDecorators
    split <;> first | rfl | simp [isPassive] at passive
  | method plain notes => exact hdropped _
  | memoMethod memo notes => exact hdropped _
  | field annotates notes => exact hdropped _
  | param notes => exact hdropped _
  | block opens =>
    unfold blockBindings at opens
    split at opens <;> first | rfl | cases opens
  | _ => rfl

theorem reference_of_enters {n n₁ : Node} {s₁ : State} {leave : State → State}
    (h : Enters site s n n₁ s₁ leave) : Markers.ofDecorator? n₁ = Markers.ofDecorator? n ∧
      ∀ span name, n₁ = .ref span name → n = .ref span name := by
  cases h <;> exact ⟨rfl, fun _ _ h ↦ by first | exact h | cases h⟩

theorem consumes_of_step {n n' : Node}
    (h : Step site (fun _ n n' _ ↦ Consumes site.options.runtime n n') s n n' s') :
    Consumes site.options.runtime n n' := by
  cases h with
  | @read span name watched =>
    refine ⟨fun _ _ h ↦ (by cases h), fun _ ↦ rfl, fun c hc _ ↦ ?_⟩
    obtain rfl : c = Glue.parameterValue site.options.runtime name := by
      obtain rfl | hc := hc
      · rfl
      · exact (Except.ok.inj hc).symm
    exact consumed_parameterValue name
  | @thread span optional isPure callee callee' identity types args args' plan counter frames s₁ s₂
      resolves inside callees arguments identifies =>
    refine ⟨fun _ _ h ↦ (by cases h), fun hnone ↦ ?_, fun c hc ho ↦ ?_⟩
    · unfold Markers.ofDecorator?
      split
      · next h => cases h
      · next h =>
        injection h with _ _ hcallee
        obtain rfl := callees.reference _ _ hcallee
        exact hnone
      · rfl
    · obtain rfl : c = .apply span (.call optional isPure) callee' types
          (Glue.contextArgument site.options.runtime :: identity :: args') := by
        obtain rfl | hc := hc
        · rfl
        · exact (Except.ok.inj hc).symm
      refine consumed_iff.2 ⟨rfl, fun m hm ↦ ?_⟩
      have hargs := consumed_of_forall₂ (.cons callees (consumes_of_threadsArgs arguments))
        (CacheScope.forall₂_recommits_same _) fun c hc ↦ ho.part (by
          simp only [Node.children, List.mem_append, List.mem_cons] at hc ⊢; tauto)
      have hm' : m ∈ types ∨ m = Glue.contextArgument site.options.runtime ∨ m = identity ∨
          m ∈ callee' :: args' := by
        simp only [Node.children, List.mem_append, List.mem_cons] at hm ⊢
        tauto
      obtain hm' | rfl | rfl | hm' := hm'
      · exact ho m (.typeArgument (Node.mem_nodes_self _) hm')
      · exact consumed_ref _ _
      · exact (ho.part hm).generated (.identity identifies)
      · exact hargs m hm'
  | memo form signed memoises => exact consumes_of_memoises memoises
  | @within _ n₁ _ s₁ s₂ leave enters parts =>
    have hparts := parts.children.forall₂ fun _ hn ↦ hn
    have hown := hasMarker_of_parts hparts parts.skeleton (hasMarker_of_enters enters)
    obtain ⟨hmarker, hreference⟩ := reference_of_enters enters
    refine ⟨fun span name h ↦ ?_, fun h ↦ ?_, fun c ↦ consumed_of_parts hparts hown⟩
    · exact hreference span name (reference_of_parts hparts parts.skeleton h)
    · exact marker_of_parts hparts parts.skeleton (hmarker.trans h)

end

/-- Nothing has been done, and nothing around the place calls for it. -/
structure State.Idle (s : State) : Prop where
  clean : s.Clean
  untouched : s.touched = false
  settled : s.pending = []
  unthreaded : ∀ frame ∈ s.frames, ∀ counter, frame ≠ .scope counter true
  unwatched : s.Unwatched

def Idles {α : Type} (x : WeaveM α) (a : α) : Prop :=
  ∀ s : State, s.Idle → ∃ s', x s = some (a, s') ∧ s'.Idle

section

variable {α β : Type} {site : Site} {self : Self}

theorem idles_pure (a : α) : Idles (pure a) a :=
  fun s hs ↦ ⟨s, rfl, hs⟩

theorem Idles.bind {x : WeaveM α} {f : α → WeaveM β} {a : α} {b : β} (hx : Idles x a)
    (hf : Idles (f a) b) : Idles (x >>= f) b := by
  intro s hs
  obtain ⟨s₁, ha, hs₁⟩ := hx s hs
  obtain ⟨s', hb, hs'⟩ := hf s₁ hs₁
  exact ⟨s', bind_apply_eq_some.2 ⟨a, s₁, ha, hb⟩, hs'⟩

theorem idles_get {f : State → WeaveM β} {b : β} (hf : ∀ r : State, r.Idle → Idles (f r) b) :
    Idles (get >>= f) b := by
  intro s hs
  obtain ⟨s', hb, hs'⟩ := hf s hs s hs
  exact ⟨s', by rw [get_bind_apply, hb], hs'⟩

theorem idles_modify {f : State → State} (hf : ∀ s : State, s.Idle → (f s).Idle) :
    Idles (modify f) () :=
  fun s hs ↦ ⟨f s, rfl, hf s hs⟩

theorem idles_mapM {f : Node → WeaveM Node} {xs : List Node} (h : ∀ x ∈ xs, Idles (f x) x) :
    Idles (xs.mapM f) xs := by
  induction xs with
  | nil => exact idles_pure _
  | cons x xs ih =>
    rw [List.mapM_cons]
    refine (h x List.mem_cons_self).bind ?_
    exact (ih fun y hy ↦ h y (List.mem_cons_of_mem _ hy)).bind (idles_pure _)

theorem idles_option_mapM {f : Node → WeaveM Node} {part : Option Node}
    (h : ∀ x ∈ part.toList, Idles (f x) x) : Idles (part.mapM f) part := by
  cases part with
  | none => exact idles_pure _
  | some x =>
    rw [Option.mapM_some, map_eq_pure_bind]
    exact (h x (by simp)).bind (idles_pure _)

theorem idles_mapChildren {f : Node → WeaveM Node} {n : Node}
    (h : ∀ part ∈ n.children, Idles (f part) part) : Idles (n.mapChildren f) n := by
  cases n
  case ascribe span how value type =>
    simp only [Node.children] at h
    simp only [Node.mapChildren]
    have hvalue : Idles (f value) value := h value (by split <;> simp)
    have htype : Idles (f type) type := h type (by split <;> simp)
    split
    · exact htype.bind (hvalue.bind (idles_pure _))
    · exact hvalue.bind (htype.bind (idles_pure _))
  all_goals
    simp only [Node.children] at h
    simp only [Node.mapChildren]
    repeat' first
      | with_reducible exact idles_pure _
      | with_reducible apply Idles.bind
      | with_reducible refine idles_mapM fun x hx ↦ h x ?_
      | with_reducible refine idles_option_mapM fun x hx ↦ h x ?_
      | with_reducible refine h _ ?_
    all_goals simp_all

theorem idles_between {enter leave : State → State} {x : WeaveM α} {a : α}
    (henter : ∀ s : State, s.Idle → (enter s).Idle) (hleave : ∀ s : State, s.Idle → (leave s).Idle)
    (hx : Idles x a) :
    Idles (modify enter >>= fun _ ↦ x >>= fun a ↦ modify leave >>= fun _ ↦ pure a) a :=
  (idles_modify henter).bind (hx.bind ((idles_modify hleave).bind (idles_pure _)))

theorem idles_modifyScopes {f : Scopes → Scopes}
    (hf : ∀ scopes : Scopes, scopes.All (fun _ b ↦ b.isWatched = false) →
      (f scopes).All fun _ b ↦ b.isWatched = false) : Idles (modifyScopes f) () :=
  idles_modify fun _ hs ↦ ⟨hs.clean, hs.untouched, hs.settled, hs.unthreaded, hf _ hs.unwatched⟩

theorem State.Idle.pop {s : State} (hs : s.Idle) : ({ s with scopes := s.scopes.pop } : State).Idle :=
  ⟨hs.clean, hs.untouched, hs.settled, hs.unthreaded, hs.unwatched.pop⟩

theorem idles_inBlock {x : WeaveM α} {a : α} (hx : Idles x a) : Idles (inBlock x) a :=
  idles_between (fun _ hs ↦ ⟨hs.clean, hs.untouched, hs.settled, hs.unthreaded, hs.unwatched.pushBlock⟩)
    (fun _ hs ↦ hs.pop) hx

theorem idles_inFunction {x : WeaveM α} {a : α} (hx : Idles x a) : Idles (inFunction x) a :=
  idles_between
    (fun _ hs ↦ ⟨hs.clean, hs.untouched, hs.settled, hs.unthreaded, hs.unwatched.pushFunction⟩)
    (fun _ hs ↦ hs.pop) hx

theorem idles_inFrame {frame : Frame} {x : WeaveM α} {a : α}
    (hframe : ∀ counter, frame ≠ .scope counter true) (hx : Idles x a) : Idles (inFrame frame x) a := by
  refine idles_between (fun _ hs ↦ ?_) (fun _ hs ↦ ?_) hx
  · exact ⟨hs.clean, hs.untouched, hs.settled, List.forall_mem_cons.2 ⟨hframe, hs.unthreaded⟩,
      hs.unwatched⟩
  · exact ⟨hs.clean, hs.untouched, hs.settled,
      fun frame hf ↦ hs.unthreaded frame (List.mem_of_mem_tail hf), hs.unwatched⟩

theorem idles_inClass {name : String} {x : WeaveM α} {a : α} (hx : Idles x a) :
    Idles (inClass name x) a :=
  idles_between (fun _ hs ↦ ⟨hs.clean, hs.untouched, hs.settled, hs.unthreaded, hs.unwatched⟩)
    (fun _ hs ↦ ⟨hs.clean, hs.untouched, hs.settled, hs.unthreaded, hs.unwatched⟩) hx

theorem idles_dropMarkers {decorators : List Expr} (h : hasMarker decorators = false) :
    Idles (dropMarkers decorators) decorators := by
  unfold dropMarkers
  rw [withoutMarkers_eq_self h]
  simpa using idles_pure decorators

theorem State.Idle.threading {s : State} (hs : s.Idle) : s.threading = false := by
  unfold State.threading
  split
  · next counter frames hframes => exact absurd rfl (hs.unthreaded _ (by simp [hframes]) counter)
  · rfl

/-- A site where nothing is marked but by decorators, and where none of them has marked anything. -/
structure Site.Bare (site : Site) : Prop where
  annotations : site.annotations = ⟨[]⟩
  nodes : site.graph.nodes = []

theorem Site.Bare.markers (h : site.Bare) (offset : Nat) : site.annotations.markers offset = {} := by
  rw [h.annotations]
  rfl

theorem Site.Bare.nodeAt? (h : site.Bare) (span : Span) : site.graph.nodeAt? span = none := by
  simp [CallGraph.nodeAt?, h.nodes]

theorem idles_signatureFor (h : site.Bare) (span : Span) (form : FuncForm) (params : List Param) :
    Idles (signatureFor site span form params) none := by
  intro s hs
  unfold signatureFor
  rw [h.nodeAt?, h.markers]
  refine ⟨s, ?_, hs⟩
  have hfilter : s.pending.filter (· != span) = s.pending := by simp [hs.settled]
  dsimp only
  rw [get_bind_apply, bind_apply_eq_some]
  refine ⟨(), s, modify_apply_eq_some.2 ?_, ?_⟩
  · rw [hfilter]
  · rw [hs.settled]
    rfl

theorem idles_function (h : site.Bare) {span : Span} {head : FuncHead} {typeParams : List Node}
    {this : Option Node} {params : List Param} {result : Option Ty} {body : Node}
    (hparts : ∀ m ∈ (Node.func span head typeParams this params result body).children, Idles (self m) m) :
    Idles (function site self span head typeParams this params result body)
      (.func span head typeParams this params result body) := by
  unfold function
  dsimp only
  split
  · exact idles_mapChildren hparts
  · refine (idles_signatureFor h _ _ _).bind (idles_get fun r _ ↦ idles_inFrame ?_ (idles_inFunction ?_))
    · intro counter
      unfold plainFrame
      split <;> [split; skip] <;> simp
    · refine (idles_modifyScopes fun scopes hs ↦ hs.bindAll ?_).bind (idles_mapChildren hparts)
      exact fun p hp ↦ not_isWatched_of_mem_plainBindings hp

theorem ofDecorators_eq {decorators : List Expr} (h : hasMarker decorators = false) :
    Markers.ofDecorators decorators = {} := by
  have hnone : decorators.filterMap Markers.ofDecorator? = [] :=
    List.filterMap_eq_nil_iff.2 fun d hd ↦ by simpa using List.any_eq_false.1 h d hd
  rw [Markers.ofDecorators, hnone]
  rfl

theorem memberMarkers_of_bare (h : site.Bare) {span : Span} {decorators : List Expr}
    (hd : hasMarker decorators = false) :
    (site.annotations.markers span.start).merge (Markers.ofDecorators decorators) = {} := by
  rw [h.markers, ofDecorators_eq hd]
  rfl

theorem idles_method (h : site.Bare) {span : Span} {kind : MethodKind} {mods : Modifiers}
    {decorators : List Expr} {key f : Node} (hd : hasMarker decorators = false)
    (hparts : ∀ m ∈ (Node.method span kind mods decorators key f).children, Idles (self m) m) :
    Idles (method site self span kind mods decorators key f)
      (.method span kind mods decorators key f) := by
  unfold method
  refine (idles_dropMarkers hd).bind (idles_get fun r _ ↦ ?_)
  dsimp only
  rw [memberMarkers_of_bare h hd]
  exact idles_inFrame (fun _ hframe ↦ by simp at hframe) (idles_mapChildren hparts)

theorem idles_field (h : site.Bare) {span : Span} {mods : Modifiers} {decorators : List Expr}
    {key : Node} {type : Option Ty} {init : Option Expr} (hd : hasMarker decorators = false)
    (hparts : ∀ m ∈ (Node.field span false mods decorators key type init).children, Idles (self m) m) :
    Idles (field site self span mods decorators key type init)
      (.field span false mods decorators key type init) := by
  unfold field threadsCallers
  dsimp only
  rw [memberMarkers_of_bare h hd]
  exact (idles_pure type).bind ((idles_dropMarkers hd).bind (idles_mapChildren hparts))

theorem idles_declareVariables (h : site.Bare) {span : Span} {kind : VarKind} {declared : Bool}
    {items : List Node}
    (hparts : ∀ m ∈ (Node.vars span kind declared items).children, Idles (self m) m) :
    Idles (declareVariables site self span kind declared items) (.vars span kind declared items) := by
  unfold declareVariables threadsCallers
  rw [h.markers]
  refine (idles_pure items).bind ?_
  have hbind : Idles (modifyScopes (·.bindVars (Node.declaredNames items))) () :=
    idles_modifyScopes fun _ hs ↦ (absorbs_all fun _ _ h ↦ h).bindVars hs _
  dsimp only
  rw [if_neg (by simp [Markers.isMemoLike])]
  split
  · exact hbind.bind (idles_mapChildren hparts)
  · exact idles_mapChildren hparts

theorem idles_bindHead (n : Node) : Idles (bindHead n) () := by
  unfold bindHead
  split
  · exact idles_modifyScopes fun _ hs ↦ (absorbs_all fun _ _ h ↦ h).bindDeclaration hs _ _
  · exact idles_pure ()

theorem idles_extendedInterface (n : Node) : Idles (extendedInterface site n) n := by
  unfold extendedInterface
  split
  · refine idles_get fun r hr ↦ ?_
    rw [hr.unwatched.isWatched_eq_false]
    exact idles_pure _
  · exact idles_pure _

theorem idles_call {span : Span} {how : Application} {callee : Expr} {types args : List Node}
    (hparts : ∀ m ∈ (Node.apply span how callee types args).children, Idles (self m) m) :
    Idles (call site self span how callee types args) (.apply span how callee types args) := by
  refine idles_get fun r hr ↦ ?_
  rw [hr.threading]
  split <;> exact idles_mapChildren hparts

theorem idles_step (h : site.Bare) {n : Node} (hn : hasMarker (ownDecorators n) = false)
    (hparts : ∀ m ∈ n.children, Idles (self m) m) : Idles (step site self n) n := by
  have hhoisted (stmts : List Stmt) : Idles (modifyScopes (·.bindAll
      (hoistedBindings site.annotations stmts))) () :=
    idles_modifyScopes fun _ hs ↦ hs.bindAll fun _ hp ↦ not_isWatched_of_mem_hoisted hp
  unfold step
  split
  · refine idles_get fun r hr ↦ ?_
    rw [hr.unwatched.isWatched_eq_false]
    exact idles_pure _
  · exact idles_call hparts
  · exact idles_function h hparts
  · exact idles_inClass (idles_mapChildren hparts)
  · exact idles_method h hn hparts
  · exact idles_field h hn hparts
  · exact (idles_dropMarkers hn).bind (idles_mapChildren hparts)
  · refine idles_get fun r hr ↦ ?_
    rw [hr.unwatched.isWatchedReference_eq_false]
    exact idles_mapChildren hparts
  · refine idles_get fun r hr ↦ ?_
    rw [hr.unwatched.isWatchedReference_eq_false]
    exact idles_mapChildren hparts
  · exact idles_declareVariables h hparts
  · exact idles_inBlock ((hhoisted _).bind (idles_mapChildren hparts))
  · refine idles_inBlock (Idles.bind (idles_modifyScopes fun _ hs ↦ hs.bindAll fun p hp ↦ ?_)
      (idles_mapChildren hparts))
    obtain ⟨name, -, rfl⟩ := List.mem_map.1 hp
    rfl
  · next span init test update body =>
    have hinit : Idles (init.forM bindHead) () := by
      cases init with
      | none => exact idles_pure ()
      | some head => exact idles_bindHead head
    exact idles_inBlock (hinit.bind (idles_mapChildren hparts))
  · exact idles_inBlock ((idles_bindHead _).bind (idles_mapChildren hparts))
  · refine idles_inBlock (Idles.bind (idles_modifyScopes fun _ hs ↦ hs.bindAll fun p hp ↦ ?_)
      (idles_mapChildren hparts))
    obtain ⟨clause, -, hp⟩ := List.mem_flatMap.1 hp
    unfold clauseBindings at hp
    split at hp
    · exact not_isWatched_of_mem_hoisted hp
    · simp at hp
  · exact (idles_mapM fun n _ ↦ idles_extendedInterface n).bind (idles_mapChildren hparts)
  · exact idles_mapChildren hparts

theorem idles_walk (h : site.Bare) {n : Node} (hn : Consumed n) {depth : Nat} (hdepth : sizeOf n < depth) :
    Idles (walk site depth n) n := by
  induction depth generalizing n with
  | zero => omega
  | succ depth ih =>
    obtain ⟨hown, hparts⟩ := consumed_iff.1 hn
    refine idles_step h hown fun m hm ↦ ih (hparts m hm) ?_
    have hsize := Node.sizeOf_lt_of_mem_children hm
    omega

end

/-- What is known of a woven file, with some text, when it is walked once more: no comment is left to
mark anything. -/
def Site.again (site : Site) (source : String) (stmts : List Stmt) : Site :=
  { site with
    source
    annotations := ⟨[]⟩
    graph := .build stmts site.options.filePath ⟨[]⟩ site.identity }

section

variable {site : Site} {s s' : State}

theorem ofFunc_eq_nil (c : Collector) (name : String) (owner : Option String) (kind : DeclarationKind)
    (f : Func) : c.ofFunc name owner kind {} f = [] := by
  unfold Collector.ofFunc
  split <;> rfl

theorem ofDeclaration_eq_nil {c : Collector} (hc : c.annotations = ⟨[]⟩) {n : Node} (hn : Consumed n) :
    c.ofDeclaration n = [] := by
  have hmarkers (offset : Nat) : c.annotations.markers offset = {} := by
    rw [hc]
    rfl
  unfold Collector.ofDeclaration
  split
  · rw [hmarkers]
    exact ofFunc_eq_nil ..
  · refine List.flatMap_eq_nil_iff.2 fun item _ ↦ ?_
    unfold Collector.ofDeclarator
    split
    · split
      · rw [hmarkers, hmarkers]
        exact ofFunc_eq_nil ..
      · rfl
    · rfl
  · refine List.flatMap_eq_nil_iff.2 fun m hm ↦ ?_
    have hown := (consumed_iff.1 (hn.part (List.mem_append_right _ hm))).1
    unfold Collector.ofMember
    split
    · next span mods decorators key f =>
      have hown : hasMarker decorators = false := hown
      rw [hmarkers, ofDecorators_eq hown]
      dsimp only
      split
      · exact ofFunc_eq_nil ..
      · rfl
    · next span mods decorators key type init =>
      have hown : hasMarker decorators = false := hown
      rw [hmarkers, ofDecorators_eq hown]
      rfl
    · rfl
  · rfl

theorem consumed_declared {stmt : Stmt} (h : Consumed stmt) : Consumed (Collector.declared stmt) := by
  unfold Collector.declared
  split
  · exact h.part (List.mem_singleton_self _)
  · exact h.part (List.mem_singleton_self _)
  · exact h

theorem bare_again {source : String} {stmts : List Stmt} (h : ∀ stmt ∈ stmts, Consumed stmt) :
    (site.again source stmts).Bare :=
  ⟨rfl, List.flatMap_eq_nil_iff.2 fun stmt hs ↦ ofDeclaration_eq_nil rfl (consumed_declared (h stmt hs))⟩

theorem consumed_of_threads {ns ns' : List Node}
    (h : Threads (fun s n n' s' ↦ Spares s n n' s' ∧ (s'.touched = false → s.Unwatched → Consumed n))
      s ns ns' s') (htouched : s'.touched = false) (hs : s.Unwatched) : ∀ n ∈ ns, Consumed n := by
  induction h with
  | nil => simp
  | @cons s s₁ s' n n' ns ns' head tail ih =>
    have hnoted := (spares_of_threads (tail.mono And.left)).1
    have hs₁ : s₁.touched = false := Bool.eq_false_iff.2 fun hs₁ ↦ by simp [hnoted hs₁] at htouched
    obtain ⟨-, -, hunwatched⟩ := head.1.kept hs₁ hs
    exact List.forall_mem_cons.2 ⟨head.2 hs₁ hs, ih htouched hunwatched⟩

theorem consumed_of_step {n n' : Node} (h : Step site (fun s n n' s' ↦ Spares s n n' s' ∧
      (s'.touched = false → s.Unwatched → Consumed n)) s n n' s') (htouched : s'.touched = false)
    (hs : s.Unwatched) : Consumed n := by
  cases h with
  | read watched => cases htouched
  | thread resolves inside callees arguments identifies => cases htouched
  | memo form signed memoises =>
    rw [touched_of_memoises (memoises.mono And.left)] at htouched
    cases htouched
  | @within _ n₁ _ s₁ s₂ leave enters parts =>
    obtain ⟨-, hleave, -, hkept⟩ := kept_of_enters enters
    rw [hleave] at htouched
    have hnoted := (spares_of_threads (parts.children.mono And.left)).1
    have hs₁ : s₁.touched = false := Bool.eq_false_iff.2 fun hs₁ ↦ by simp [hnoted hs₁] at htouched
    obtain ⟨rfl, -⟩ := hkept hs₁ hs
    have hunwatched := (all_of_enters (fun _ _ h ↦ h) enters hs).1
    exact consumed_iff.2 ⟨hasMarker_of_enters enters, consumed_of_threads parts.children htouched hunwatched⟩

/-- Markers are consumed: a file that has been woven with nothing wrong is left as it is, without a
note or a complaint, when it is walked once more, if and only if no marker decorator stands in what the
first walk did not look at. -/
theorem walkAll_again_iff {depth : Nat} {stmts stmts' : List Stmt}
    (h : walkAll site depth stmts = some (stmts', s))
    (hclean : walkErrors site.options.filePath s = []) (source : String) :
    (∃ depth s', walkAll (site.again source stmts') depth stmts' = some (stmts', s') ∧
        walkErrors site.options.filePath s' = [] ∧ s'.touched = false) ↔
      ∀ stmt ∈ stmts', ∀ m, Overlooked site.options.runtime stmt m → Consumed m := by
  have hunwatched : (initial site.options.filePath).Unwatched := by
    simp [State.Unwatched, Scopes.All, initial]
  constructor
  · intro hagain stmt hstmt m hm
    obtain ⟨depth, s', hagain, hclean, htouched⟩ := hagain
    have hthreads := threads_of_walkAll (R := fun s n n' s' ↦ Spares s n n' s' ∧
        (s'.touched = false → s.Unwatched → Consumed n))
      (fun _ _ hstep ↦ ⟨spares_of_step (hstep.mono And.left), consumed_of_step hstep⟩) hagain
      (walkErrors_eq_nil.1 hclean)
    have hall := consumed_of_threads hthreads htouched hunwatched
    exact (hall stmt hstmt).overlooksNothing m hm
  · intro hoverlooked
    have hthreads := threads_of_walkAll (R := fun _ n n' _ ↦ Consumes site.options.runtime n n')
      (fun _ _ ↦ consumes_of_step) h (walkErrors_eq_nil.1 hclean)
    have hall : ∀ stmt ∈ stmts', Consumed stmt :=
      consumed_of_forall₂ (hthreads.forall₂ fun _ hn ↦ hn) (CacheScope.forall₂_recommits_same _)
        hoverlooked
    have hidle : (initial site.options.filePath).Idle :=
      ⟨⟨rfl, rfl⟩, rfl, rfl, by simp [initial], hunwatched⟩
    have hwalk : Idles (stmts'.mapM (walk (site.again source stmts') (sizeOf stmts'))) stmts' :=
      idles_mapM fun stmt hstmt ↦
        idles_walk (bare_again hall) (hall stmt hstmt) (List.sizeOf_lt_of_mem hstmt)
    obtain ⟨s', hs', hidle'⟩ := hwalk _ hidle
    exact ⟨sizeOf stmts', s', hs', walkErrors_eq_nil.2 hidle'.clean, hidle'.untouched⟩

end

/-- A class with a method that is marked, and so is its parameter. -/
def decoratedClass : Node :=
  .cls ⟨0, 60⟩ ⟨false, some "A", false, false⟩ [] [] none [] [] [
    .method ⟨10, 58⟩ .plain {} [.ref ⟨11, 25⟩ "memo_intrinsic"] (.keyName ⟨26, 27⟩ "m")
      (.func ⟨27, 58⟩ { form := .method } [] none
        [.param ⟨28, 40⟩ {} false [.ref ⟨29, 38⟩ "memo_skip"] (.binding ⟨39, 40⟩ "x") none none] none
        (.code ⟨42, 58⟩ []
          [.exprStmt ⟨44, 55⟩ (.apply ⟨44, 54⟩ (.call false false) (.ref ⟨44, 48⟩ "Text") []
            [.ref ⟨49, 50⟩ "x"])]))]

def decoratedSite : Site :=
  markedSite.again "" [decoratedClass]

set_option maxRecDepth 100000 in
theorem walkAll_again_iff_decoratedClass : ∃ stmts' s,
    walkAll decoratedSite 9 [decoratedClass] = some (stmts', s) ∧ walkErrors "input.ts" s = [] ∧
      s.stats.transformedFunctions = 1 ∧
      ∃ depth s', walkAll (decoratedSite.again "" stmts') depth stmts' = some (stmts', s') ∧
        walkErrors "input.ts" s' = [] ∧ s'.touched = false := by
  have hrun : (walkAll decoratedSite 9 [decoratedClass]).map (fun r ↦
      (walkErrors "input.ts" r.2, r.2.stats.transformedFunctions, decide (∀ stmt ∈ r.1, Consumed stmt))) =
      some ([], 1, true) := by decide +kernel
  obtain ⟨⟨stmts', s⟩, h, hends⟩ := Option.map_eq_some_iff.1 hrun
  simp only [Prod.mk.injEq, decide_eq_true_eq] at hends
  obtain ⟨hclean, hcount, hconsumed⟩ := hends
  refine ⟨stmts', s, h, hclean, hcount, (walkAll_again_iff h hclean "").2 ?_⟩
  exact fun stmt hstmt ↦ (hconsumed stmt hstmt).overlooksNothing

/-- An intrinsic function with a parameter of which the default is a class with a marked method. -/
def overlookingFunction : Func :=
  .func ⟨0, 44⟩ { form := .declaration, name := some "view" } [] none
    [.param ⟨14, 40⟩ {} false [] (.binding ⟨14, 15⟩ "x") none
      (some (.cls ⟨18, 40⟩ ⟨true, none, false, false⟩ [] [] none [] [] [
        .method ⟨26, 38⟩ .plain {} [.ref ⟨27, 31⟩ "memo"] (.keyName ⟨32, 33⟩ "m")
          (.func ⟨33, 38⟩ { form := .method } [] none [] none (.code ⟨36, 38⟩ [] []))]))] none
    (.code ⟨42, 44⟩ [] [])

def overlookingSite : Site :=
  { markedSite with annotations := ⟨[(0, { intrinsic := true })]⟩ }

set_option maxRecDepth 100000 in
/-- The marker in the head of the function is left, and the second walk weaves the method. -/
theorem walkAll_again_weaves_overlooked : ∃ stmts' s stmts'' s',
    walkAll overlookingSite 9 [overlookingFunction] = some (stmts', s) ∧
      walkErrors "input.ts" s = [] ∧
      walkAll (overlookingSite.again "" stmts') 12 stmts' = some (stmts'', s') ∧
      walkErrors "input.ts" s' = [] ∧ s'.touched = true ∧ s'.stats.transformedLambdas = 1 := by
  have hrun : ((walkAll overlookingSite 9 [overlookingFunction]).bind fun r ↦
      (walkAll (overlookingSite.again "" r.1) 12 r.1).map fun r' ↦
        (walkErrors "input.ts" r.2, walkErrors "input.ts" r'.2, r'.2.touched,
          r'.2.stats.transformedLambdas)) = some ([], [], true, 1) := by decide +kernel
  obtain ⟨⟨stmts', s⟩, h, hagain⟩ := Option.bind_eq_some_iff.1 hrun
  obtain ⟨⟨stmts'', s'⟩, h', hends⟩ := Option.map_eq_some_iff.1 hagain
  simp only [Prod.mk.injEq] at hends
  obtain ⟨hclean, hclean', htouched, hcount⟩ := hends
  exact ⟨stmts', s, stmts'', s', h, hclean, h', hclean', htouched, hcount⟩

end Recompose.Weave
