import Mathlib.Data.List.Perm.Basic
import Recompose.Proofs.Reading.Order.File
import Recompose.Proofs.Roles

namespace Recompose.Weave

open Script

variable {site : Site} {s s' : State} {role : Role}

def ownMode? (site : Site) (f : Func) : Option MemoMode :=
  MemoMode.ofMarkers? (site.annotations.markers f.span.start)

/-- The mode that a function is declared in or, if nothing declares it, marked with. -/
def modeOf? (site : Site) (span : Span) : Option MemoMode :=
  match site.graph.nodeAt? span with
  | some d => some d.mode
  | none => MemoMode.ofMarkers? (site.annotations.markers span.start)

/-- May a function with some role become a memo function of some mode? One that is free is declared or
marked as such, and one that is held is a memo function if nothing else is said of it. -/
def Warranted (site : Site) (mode : MemoMode) (f : Func) : Role → Prop
  | .foreign => True
  | .free => f.span ≠ .none → modeOf? site f.span = some mode
  | .held _ => (modeOf? site f.span).getD .memo = mode
  | .argument => mode = .memo ∨ modeOf? site f.span = some mode

/-- What is recorded of the parameters of a function when it is read. -/
def tableOf (site : Site) : Func → ParameterTable
  | .func span head _ _ params _ _ =>
    .ofParams params site.annotations (if head.form = .arrow then some span.start else none)
  | _ => {}

structure Declares (site : Site) (role : Role) (f : Func) (d : MemoDeclaration) : Prop where
  parameters : d.parameters = tableOf site f
  free : role = .free → ownMode? site f = some d.mode
  held : ∀ mode, role = .held mode → ownMode? site f = none ∨ ownMode? site f = some mode →
    d.mode = mode

/-- What is found at the spans of the functions in a node is about these functions. -/
structure Known (site : Site) (s : State) (role : Role) (n : Node) : Prop where
  whole : ∀ p ∈ census site n role, Span.none ∉ functionSpans p.2
  distinct : ((census site n role).map spanOf).Nodup
  declared : ∀ p ∈ census site n role, ∀ d, site.graph.nodeAt? (spanOf p) = some d →
    Declares site p.1 p.2 d
  awaited : ∀ p ∈ census site n role, site.graph.nodeAt? (spanOf p) = none →
    spanOf p ∈ s.pending → p.1 ≠ .free

namespace Known

theorem of_sublist {role' : Role} {n m : Node} (h : Known site s role n)
    (hsub : List.Sublist (census site m role') (census site n role))
    (hpending : ∀ p ∈ census site m role', site.graph.nodeAt? (spanOf p) = none →
      spanOf p ∈ s'.pending → spanOf p ∈ s.pending ∨ p.1 ≠ .free) : Known site s' role' m where
  whole p hp := h.whole p (hsub.subset hp)
  distinct := h.distinct.sublist (hsub.map spanOf)
  declared p hp := h.declared p (hsub.subset hp)
  awaited p hp hd hs := by
    obtain hs | hfree := hpending p hp hd hs
    · exact h.awaited p (hsub.subset hp) hd hs
    · exact hfree

theorem keeps {n : Node} (h : Known site s role n) (hs : Keeps site s s') : Known site s' role n :=
  h.of_sublist (List.Sublist.refl _) fun _ _ hd hp ↦ .inl (hs.pending _ hp hd)

theorem of_foreign (site : Site) (s : State) (n : Node) : Known site s .foreign n := by
  constructor <;> simp

end Known

theorem census_sublist_of_mem {parts : List (Role × Node)} {p : Role × Node} (h : p ∈ parts) :
    List.Sublist (census site p.2 p.1) (parts.flatMap fun p ↦ census site p.2 p.1) :=
  List.sublist_flatten_of_mem (List.mem_map_of_mem h)

theorem forall₂_placed {α : Type} {R : α → Node → Prop} {give : Role × Node → α} {n n₁ : Node}
    (h : ∀ p ∈ placed site role n n₁, R (give p) p.2) :
    List.Forall₂ R ((placed site role n n₁).map give) n₁.children := by
  rw [← map_snd_placed site role n n₁]
  exact List.forall₂_map_left_iff.2 (List.forall₂_map_right_iff.2 (List.forall₂_same.2 h))

theorem ne_foreign_of_mem_placed {n n₁ : Node} {p : Role × Node} (h : p ∈ placed site role n n₁)
    (hp : p.1 ≠ .foreign) : role ≠ .foreign := by
  rintro rfl
  rw [placed_foreign] at h
  obtain ⟨m, -, rfl⟩ := List.mem_map.1 h
  exact hp rfl

theorem placed_sublist_census (n : Node) (role : Role) :
    List.Sublist ((placed site role n n).flatMap fun p ↦ census site p.2 p.1) (census site n role) := by
  rw [census_eq]
  exact List.sublist_append_right _ _

theorem censusAll_sublist_of_mem {nodes : List Node} {n : Node} (h : n ∈ nodes) :
    List.Sublist (census site n .free) (censusAll site nodes) :=
  List.sublist_flatten_of_mem (List.mem_map_of_mem h)

theorem ofMarkers?_of_isMemoLike {m : Markers} (h : m.isMemoLike = true) :
    ∃ mode, MemoMode.ofMarkers? m = some mode := by
  unfold MemoMode.ofMarkers?
  split
  · exact ⟨_, rfl⟩
  · split
    · exact ⟨_, rfl⟩
    · split
      · exact ⟨_, rfl⟩
      · simp_all [Markers.isMemoLike]

theorem held_of_isMemoLike {m : Markers} (h : m.isMemoLike = true) :
    ∃ mode, Role.ofMarkers m = .held mode := by
  obtain ⟨mode, hmode⟩ := ofMarkers?_of_isMemoLike h
  exact ⟨mode, by rw [Role.ofMarkers, hmode]⟩

theorem isMemoLike_of_threadsCallers {m : Markers} (h : threadsCallers m = true) :
    m.isMemoLike = true :=
  (Bool.and_eq_true_iff.1 h).1

/-- An annotation is changed only where nothing is said of it. -/
theorem census_annotates {names : RuntimeNames} {m : Markers} {type type' : Option Ty}
    (h : Annotates names (threadsCallers m) type type') :
    (type'.toList.map ((Role.ofMarkers m).ofType, ·)).flatMap (fun p ↦ census site p.2 p.1) =
      (type.toList.map ((Role.ofMarkers m).ofType, ·)).flatMap (fun p ↦ census site p.2 p.1) := by
  cases h with
  | kept => rfl
  | threaded called retypes =>
    obtain ⟨mode, hmode⟩ := held_of_isMemoLike (isMemoLike_of_threadsCallers called)
    rw [hmode, Role.ofType, flatMap_placed_foreign, flatMap_placed_foreign]
    simp

theorem census_redeclares {names : RuntimeNames} {m : Markers} {item item' : Node}
    (h : Redeclares names (threadsCallers m) item item') :
    census site item' (.ofMarkers m) = census site item (.ofMarkers m) := by
  cases h with
  | kept => rfl
  | @annotated span target definite type type' init annotates =>
    have hrole : Role.ofMarkers m ≠ .foreign := by
      unfold Role.ofMarkers
      split <;> simp
    rw [census_eq, census_eq]
    simp only [placed, ownEntry, valueRole, hrole, if_false, List.flatMap_cons, List.flatMap_append,
      census_annotates annotates]

theorem census_extends {names : RuntimeNames} {scopes : Scopes} {n n' : Node}
    (h : Extends names scopes n n') : census site n' .free = census site n .free := by
  cases h with
  | kept => rfl
  | read watched => rw [census_of_children rfl rfl, census_of_children rfl rfl]; rfl

theorem census_forall₂ {R : Node → Node → Prop} {ns ns' : List Node}
    (h : List.Forall₂ R ns ns')
    (hR : ∀ n n', R n n' → census site n' role = census site n role) :
    (ns'.map (role, ·)).flatMap (fun p ↦ census site p.2 p.1) =
      (ns.map (role, ·)).flatMap (fun p ↦ census site p.2 p.1) := by
  induction h with
  | nil => rfl
  | cons head _ ih => simp only [List.map_cons, List.flatMap_cons, hR _ _ head, ih]

theorem placed_sublist_of_enters {n n₁ : Node} {s₁ : State} {leave : State → State}
    (h : Enters site s n n₁ s₁ leave) (role : Role) :
    List.Sublist ((placed site role n n₁).flatMap fun p ↦ census site p.2 p.1)
      ((placed site role n n).flatMap fun p ↦ census site p.2 p.1) := by
  have hforeign (n₁ : Node) (hrole : role = .foreign) :
      (placed site role n n₁).flatMap (fun p ↦ census site p.2 p.1) = [] := by
    rw [hrole, placed_foreign, flatMap_placed_foreign]
  have hdecorators (decorators : List Expr) :
      List.Sublist ((withoutMarkers decorators).map (Role.free, ·)) (decorators.map (Role.free, ·)) :=
    List.filter_sublist.map _
  by_cases hrole : role = .foreign
  · rw [hforeign _ hrole, hforeign _ hrole]
  cases h with
  | method plain notes =>
    simp only [placed, hrole, if_false]
    exact ((hdecorators _).append_right _).flatMap _
  | memoMethod memo notes =>
    simp only [placed, hrole, if_false]
    exact ((hdecorators _).append_right _).flatMap _
  | field annotates notes =>
    simp only [placed, hrole, if_false, valueRole, List.flatMap_append, List.flatMap_cons,
      census_annotates annotates]
    exact ((hdecorators _).flatMap _).append_right _
  | @param span mods decorators target type init s₁ notes =>
    simp only [placed, hrole, if_false, Node.children, List.map_append]
    simp only [List.append_assoc]
    exact ((hdecorators decorators).append_right _).flatMap _
  | vars redeclares notes awaits binds =>
    simp only [placed, hrole, if_false, valueRole]
    rw [census_forall₂ redeclares fun _ _ ↦ census_redeclares]
  | interfaceDecl extended notes =>
    simp only [placed, hrole, if_false, Node.children, List.map_append, List.flatMap_append]
    rw [census_forall₂ extended fun _ _ ↦ census_extends]
  | pair => simp [placed, hrole, Node.children]
  | fieldPattern => simp [placed, hrole, Node.children]
  | _ => exact List.Sublist.refl _

theorem mem_census_self {span : Span} {head : FuncHead} {typeParams : List Node} {this : Option Node}
    {params : List Param} {result : Option Ty} {body : Node} (hrole : role ≠ .foreign)
    (hspan : span ≠ .none) :
    (role, Node.func span head typeParams this params result body) ∈
      census site (.func span head typeParams this params result body) role := by
  rw [census_eq]
  exact List.mem_append_left _ (by simp [ownEntry, hrole, hspan])

theorem span_ne_none_of_mem_census {n : Node} {p : Role × Func} (h : p ∈ census site n role) :
    spanOf p ≠ .none := by
  induction n using Node.induction_on_parts generalizing role with
  | step n ih =>
    rw [census_eq] at h
    obtain h | h := List.mem_append.1 h
    · unfold ownEntry at h
      split at h
      · split at h
        · simp at h
        · next hown =>
          obtain rfl := List.mem_singleton.1 h
          exact fun hspan ↦ hown (.inr hspan)
      · simp at h
    · obtain ⟨q, hq, h⟩ := List.mem_flatMap.1 h
      refine ih q.2 ?_ h
      rw [← map_snd_placed site role n n]
      exact List.mem_map_of_mem hq

theorem exists_of_mem_heldFunction {f : Node} {span : Span} (h : span ∈ heldFunction f) :
    ∃ head typeParams this params result body,
      f = .func span head typeParams this params result body := by
  unfold heldFunction at h
  split at h
  · split at h
    · simp at h
    · obtain rfl := List.mem_singleton.1 h
      exact ⟨_, _, _, _, _, _, rfl⟩
  · simp at h

theorem exists_of_mem_initialClosure {item : Node} {span : Span} (h : span ∈ initialClosure item) :
    ∃ place target definite type init, item = .declarator place target definite type (some init) ∧
      span ∈ heldFunction init := by
  unfold initialClosure at h
  split at h
  · exact ⟨_, _, _, _, _, rfl, mem_heldFunction_of_closureSpan? (Option.mem_toList.1 h)⟩
  · simp at h

theorem held_of_enters {n n₁ : Node} {s₁ : State} {leave : State → State} {span : Span}
    (h : Enters site s n n₁ s₁ leave) (hrole : role ≠ .foreign) (hspan : span ≠ .none)
    (hs : span ∈ s₁.pending) : span ∈ s.pending ∨
      ∃ p ∈ placed site role n n₁, ∃ q ∈ census site p.2 p.1, spanOf q = span ∧ q.1 ≠ .free := by
  have hnotes {p : Prop} {s₁ : State} (hn : Notes p s s₁) : s₁.pending = s.pending := by
    obtain ⟨-, rfl⟩ | rfl := hn <;> rfl
  cases h with
  | function form plain =>
    refine .inl ?_
    cases plain with
    | unmarked absent plain => exact List.mem_of_mem_filter hs
    | nameless absent marked unnamed => exact List.mem_of_mem_filter hs
  | method plain notes => exact .inl (hnotes notes ▸ hs)
  | @memoMethod _ mods decorators key f noted memo notes =>
    split at hs
    · obtain hs | hs := List.mem_append.1 hs
      · obtain ⟨mode, hmode⟩ := held_of_isMemoLike memo
        obtain ⟨head, typeParams, this, params, result, body, rfl⟩ := exists_of_mem_heldFunction hs
        refine .inr ⟨(.held mode, .func span head typeParams this params result body), ?_, _,
          mem_census_self (by simp) hspan, rfl, by simp⟩
        simp only [placed, hrole, if_false, valueRole, hmode]
        simp
      · exact .inl (hnotes notes ▸ hs)
    · exact .inl (hnotes notes ▸ hs)
  | field annotates notes => exact .inl (hnotes notes ▸ hs)
  | param notes => exact .inl (hnotes notes ▸ hs)
  | @vars start kind declared items items' noted awaiting _ redeclares notes awaits binds =>
    have hbound : s₁.pending = awaiting.pending := by
      rw [binds]
      split <;> rfl
    rw [hbound, awaits] at hs
    split at hs
    · next memo =>
      obtain hs | hs := List.mem_append.1 hs
      · obtain ⟨mode, hmode⟩ := held_of_isMemoLike memo
        obtain ⟨item, hitem, hs⟩ := List.mem_flatMap.1 hs
        refine .inr ⟨(.held mode, item), ?_, ?_⟩
        · simp only [placed, hrole, if_false, valueRole, hmode]
          exact List.mem_map_of_mem hitem
        obtain ⟨place, target, definite, type, init, rfl, hheld⟩ := exists_of_mem_initialClosure hs
        obtain ⟨head, typeParams, this, params, result, body, rfl⟩ := exists_of_mem_heldFunction hheld
        let f := Node.func span head typeParams this params result body
        refine ⟨(.held mode, f), ?_, rfl, by simp⟩
        rw [census_eq]
        refine List.mem_append_right _ (List.mem_flatMap.2
          ⟨(.held mode, f), ?_, mem_census_self (by simp) hspan⟩)
        simp [placed, valueRole, f]
      · exact .inl (hnotes notes ▸ hs)
    · exact .inl (hnotes notes ▸ hs)
  | interfaceDecl extended notes => exact .inl (hnotes notes ▸ hs)
  | _ => exact .inl hs

namespace Known

theorem enters {n n₁ : Node} {s₁ : State} {leave : State → State} {p : Role × Node}
    (h : Known site s role n) (henters : Enters site s n n₁ s₁ leave)
    (hp : p ∈ placed site role n n₁) : Known site s₁ p.1 p.2 := by
  have hsub {p : Role × Node} (hp : p ∈ placed site role n n₁) :
      List.Sublist (census site p.2 p.1) (census site n role) :=
    (census_sublist_of_mem hp).trans
      ((placed_sublist_of_enters henters role).trans (placed_sublist_census n role))
  refine h.of_sublist (hsub hp) fun q hq hd hs ↦ ?_
  have hrole : role ≠ .foreign := by
    rintro rfl
    simpa using (hsub hp).subset hq
  obtain hs | ⟨p', hp', q', hq', hspan, hfree⟩ :=
    held_of_enters henters hrole (span_ne_none_of_mem_census hq) hs
  · exact .inl hs
  · obtain rfl := List.inj_on_of_nodup_map h.distinct ((hsub hp').subset hq')
      ((hsub hp).subset hq) hspan
    exact .inr hfree

theorem part {n : Node} {p : Role × Node} (h : Known site s role n)
    (hp : p ∈ placed site role n n) : Known site s p.1 p.2 :=
  h.of_sublist ((census_sublist_of_mem hp).trans (placed_sublist_census n role)) fun _ _ _ ↦ .inl

end Known

theorem ne_foreign_of_asArgument (h : role.asArgument ≠ .foreign) : role ≠ .foreign := by
  rintro rfl
  exact h rfl

/-- Nothing is required of a closure that a threaded call makes a memo function. -/
theorem Known.asArgument {span : Span} {head : FuncHead} {typeParams : List Node}
    {this : Option Node} {params : List Param} {result : Option Ty} {body : Node}
    (h : Known site s role (.func span head typeParams this params result body)) :
    Known site s role.asArgument (.func span head typeParams this params result body) := by
  by_cases hrole : role = .foreign
  · rw [Role.asArgument, if_pos hrole]
    exact .of_foreign site s _
  rw [Role.asArgument, if_neg hrole]
  let f := Node.func span head typeParams this params result body
  have hparts : placed site .argument f f = placed site role f f := by simp [placed, hrole, f]
  have hspans : (census site f .argument).map spanOf = (census site f role).map spanOf := by
    rw [census_eq, census_eq, hparts]
    by_cases hspan : span = .none <;> simp [ownEntry, f, hspan, hrole, spanOf]
  have hold (p : Role × Func) (hp : p ∈ census site f .argument) :
      p ∈ census site f role ∨ p = (.argument, f) ∧ (role, f) ∈ census site f role := by
    rw [census_eq, hparts] at hp
    obtain hp | hp := List.mem_append.1 hp
    · by_cases hspan : span = .none
      · simp [ownEntry, f, hspan] at hp
      · refine .inr ⟨by simpa [ownEntry, f, hspan] using hp, mem_census_self hrole hspan⟩
    · rw [census_eq]
      exact .inl (List.mem_append_right _ hp)
  refine ⟨fun p hp ↦ ?_, ?_, fun p hp d hd ↦ ?_, fun p hp hd hs ↦ ?_⟩
  · obtain hp | ⟨rfl, hself⟩ := hold p hp
    · exact h.whole p hp
    · exact h.whole (role, f) hself
  · rw [hspans]
    exact h.distinct
  · obtain hp | ⟨rfl, hself⟩ := hold p hp
    · exact h.declared p hp d hd
    · exact ⟨(h.declared (role, f) hself d hd).parameters, by simp, by simp⟩
  · obtain hp | ⟨rfl, -⟩ := hold p hp
    · exact h.awaited p hp hd hs
    · simp

def bodyRole (role : Role) : Func → Role
  | .func _ _ _ _ _ _ (.code _ _ _) => if role = .foreign then .foreign else .free
  | .func _ _ _ _ _ _ (.concise _) => if role = .foreign then .foreign else .free
  | _ => .foreign

theorem ne_foreign_of_bodyRole {f : Func} (h : bodyRole role f ≠ .foreign) : role ≠ .foreign := by
  rintro rfl
  exact h (by unfold bodyRole; split <;> rfl)

theorem census_body_sublist {span : Span} {head : FuncHead} {typeParams : List Node}
    {this : Option Node} {params : List Param} {result : Option Ty} {body : Node}
    (hrole : role ≠ .foreign) : List.Sublist (census site body .free)
      (census site (.func span head typeParams this params result body) role) := by
  refine List.Sublist.trans ?_ (placed_sublist_census _ role)
  refine census_sublist_of_mem (p := (.free, body)) ?_
  simp [placed, hrole]

namespace Known

section

variable {span : Span} {head : FuncHead} {typeParams : List Node} {this : Option Node}
  {params : List Param} {result : Option Ty} {body m : Node}

theorem of_body (h : Known site s role (.func span head typeParams this params result body))
    (hs : s'.pending = s.pending)
    (hm : List.Sublist (census site m .free) (census site body .free)) :
    Known site s' (bodyRole role (.func span head typeParams this params result body)) m := by
  by_cases hrole : bodyRole role (.func span head typeParams this params result body) = .foreign
  · rw [hrole]
    exact of_foreign site s' m
  · have hfree : role ≠ .foreign ∧
        bodyRole role (.func span head typeParams this params result body) = .free := by
      unfold bodyRole at hrole ⊢
      split at hrole <;> simp_all
    rw [hfree.2]
    exact h.of_sublist (hm.trans (census_body_sublist hfree.1)) fun _ _ _ hp ↦ .inl (hs ▸ hp)

theorem of_bodyPart (h : Known site s role (.func span head typeParams this params result body))
    (hs : s'.pending = s.pending) (hm : m ∈ body.children) :
    Known site s' (bodyRole role (.func span head typeParams this params result body)) m := by
  have hplain (hbody : census site body .free = censusAll site body.children) :=
    h.of_body hs (hbody ▸ censusAll_sublist_of_mem hm)
  cases body
  case code => exact hplain (census_of_children rfl rfl)
  case concise => exact hplain (census_of_children rfl rfl)
  all_goals exact of_foreign site s' m

theorem of_enclosed {names : RuntimeNames} {inner : Span} {directives : List String}
    {stmts enclosed : List Stmt}
    (h : Known site s role (.func span head typeParams this params result body))
    (hs : s'.pending = s.pending) (hparts : bodyParts body = (inner, directives, stmts))
    (hencloses : Condition.Enclosures names stmts enclosed) (hm : m ∈ enclosed) :
    Known site s' (bodyRole role (.func span head typeParams this params result body)) m := by
  refine h.of_body hs ?_
  rw [← census_bodyParts hparts, ← census_enclosures hencloses]
  exact censusAll_sublist_of_mem hm

end

end Known

theorem Known.parameters_eq {span : Span} {head : FuncHead} {typeParams : List Node}
    {this : Option Node} {params : List Param} {result : Option Ty} {body : Node} {sig : Signature}
    (hnone : site.graph.nodeAt? .none = none)
    (h : Known site s role (.func span head typeParams this params result body))
    (hrole : role ≠ .foreign) (hsigned : Signs site s span head.form params (some sig) s') :
    sig.parameters = tableOf site (.func span head typeParams this params result body) := by
  cases hsigned with
  | declared found =>
    have hspan : span ≠ .none := by
      rintro rfl
      simp [hnone] at found
    exact (h.declared _ (mem_census_self hrole hspan) _ found).parameters
  | closure absent marked named => rfl

theorem modeOf?_of_signs {span : Span} {form : FuncForm} {params : List Param} {sig : Signature}
    (h : Signs site s span form params (some sig) s') : modeOf? site span = some sig.mode ∨
      modeOf? site span = none ∧ sig.mode = .memo ∧
        site.graph.nodeAt? span = none ∧ span ∈ s.pending := by
  unfold modeOf?
  cases h with
  | declared found => simp [found, Signature.ofDeclaration]
  | @closure mode name frames absent marked named =>
    rw [absent]
    unfold modeAt? at marked
    cases hmarkers : MemoMode.ofMarkers? (site.annotations.markers span.start) with
    | none =>
      rw [hmarkers, Option.none_or] at marked
      split at marked
      · next hpending =>
        exact .inr ⟨rfl, (Option.some.inj marked).symm, rfl, List.contains_iff_mem.1 hpending⟩
      · cases marked
    | some own =>
      rw [hmarkers, Option.some_or] at marked
      exact .inl marked

theorem Known.warranted {span : Span} {head : FuncHead} {typeParams : List Node}
    {this : Option Node} {params : List Param} {result : Option Ty} {body : Node} {sig : Signature}
    (h : Known site s role (.func span head typeParams this params result body))
    (hsigned : Signs site s span head.form params (some sig) s') :
    Warranted site sig.mode (.func span head typeParams this params result body) role := by
  have hmode := modeOf?_of_signs hsigned
  cases role with
  | foreign => trivial
  | free =>
    intro hspan
    obtain hmode | ⟨-, -, absent, pending⟩ := hmode
    · exact hmode
    · exact absurd rfl (h.awaited _ (mem_census_self (by simp) hspan) absent pending)
  | held mode =>
    obtain hmode | ⟨hnone, hmemo, -⟩ := hmode
    · exact congrArg (Option.getD · MemoMode.memo) hmode
    · exact (congrArg (Option.getD · MemoMode.memo) hnone).trans hmemo.symm
  | argument =>
    obtain hmode | ⟨-, hmemo, -⟩ := hmode
    · exact .inr hmode
    · exact .inl hmemo

theorem warranted_asArgument (site : Site) (role : Role) (f : Func) :
    Warranted site .memo f role.asArgument := by
  unfold Role.asArgument
  split
  · trivial
  · exact .inl rfl

def Recorded (site : Site) (d : MemoDeclaration) (n : Node) (role : Role) : Prop :=
  d.span ∈ fieldSpans n ∨ (d.span ∈ functionSpans n ∧
    (d.span ≠ .none → ∃ p ∈ census site n role, spanOf p = d.span ∧ Declares site p.1 p.2 d))

section

variable {c : Collector} {d : MemoDeclaration}

theorem Recorded.of_part {n : Node} {p : Role × Node} (hp : p ∈ placed site role n n)
    (h : Recorded site d p.2 p.1) : Recorded site d n role := by
  have hm : p.2 ∈ n.children := by
    rw [← map_snd_placed site role n n]
    exact List.mem_map_of_mem hp
  obtain h | ⟨hspan, h⟩ := h
  · refine .inl ?_
    rw [fieldSpans_eq]
    exact List.mem_append_right _ (List.mem_flatMap.2 ⟨p.2, hm, h⟩)
  · refine .inr ⟨?_, fun hnone ↦ ?_⟩
    · exact mem_functionSpans_of_part hm hspan
    · obtain ⟨q, hq, h⟩ := h hnone
      exact ⟨q, (placed_sublist_census n role).subset ((census_sublist_of_mem hp).subset hq), h⟩

theorem Recorded.of_declares {head : FuncHead} {typeParams : List Node} {this : Option Node}
    {params : List Param} {result : Option Ty} {body : Node} (hrole : role ≠ .foreign)
    (h : Declares site role (.func d.span head typeParams this params result body) d) :
    Recorded site d (.func d.span head typeParams this params result body) role :=
  .inr ⟨mem_functionSpans_self, fun hspan ↦ ⟨_, mem_census_self hrole hspan, rfl, h⟩⟩

/-- Both markers of a function that is held count, and one of them is the stronger. -/
theorem mode_of_merge {outer own : Markers} {mode : MemoMode}
    (h : MemoMode.ofMarkers? (outer.merge own) = some mode) :
    (MemoMode.ofMarkers? outer = none → MemoMode.ofMarkers? own = some mode) ∧
      ∀ held, MemoMode.ofMarkers? outer = some held →
        MemoMode.ofMarkers? own = none ∨ MemoMode.ofMarkers? own = some held → mode = held := by
  rcases outer with ⟨_ | _, _, _ | _, _ | _⟩ <;> rcases own with ⟨_ | _, _, _ | _, _ | _⟩ <;>
    simp_all [MemoMode.ofMarkers?, Markers.merge]

theorem exists_of_ofFunc (hc : c.annotations = site.annotations) {name : String}
    {owner : Option String} {kind : DeclarationKind} {markers : Markers} {f : Func}
    (h : d ∈ c.ofFunc name owner kind markers f) :
    (∃ head typeParams this params result body,
      f = .func d.span head typeParams this params result body) ∧ d.parameters = tableOf site f ∧
      MemoMode.ofMarkers? markers = some d.mode := by
  unfold Collector.ofFunc at h
  split at h
  · simp at h
  · obtain ⟨mode, hmode, rfl⟩ := List.mem_map.1 h
    refine ⟨⟨_, _, _, _, _, _, rfl⟩, ?_, Option.mem_toList.1 hmode⟩
    rw [tableOf, ← hc]
    rfl
  · simp at h

theorem recorded_of_ofFunc (hc : c.annotations = site.annotations) {name : String}
    {owner : Option String} {kind : DeclarationKind} {markers : Markers} {f : Func}
    (h : d ∈ c.ofFunc name owner kind markers f) (hrole : role ≠ .foreign)
    (hfree : role = .free → MemoMode.ofMarkers? markers = some d.mode →
      ownMode? site f = some d.mode)
    (hheld : ∀ mode, role = .held mode → MemoMode.ofMarkers? markers = some d.mode →
      ownMode? site f = none ∨ ownMode? site f = some mode → d.mode = mode) :
    Recorded site d f role := by
  obtain ⟨⟨head, typeParams, this, params, result, body, rfl⟩, hparams, hmode⟩ := exists_of_ofFunc hc h
  exact .of_declares hrole ⟨hparams, fun hr ↦ hfree hr hmode, fun mode hr ↦ hheld mode hr hmode⟩

theorem recorded_of_ofDeclarator (hc : c.annotations = site.annotations) {outer : Markers} {item : Node}
    (h : d ∈ c.ofDeclarator outer item) : Recorded site d item (.ofMarkers outer) := by
  unfold Collector.ofDeclarator at h
  split at h
  · next place target definite type init =>
    have hrole : Role.ofMarkers outer ≠ .foreign := by
      unfold Role.ofMarkers
      split <;> simp
    refine Recorded.of_part (p := (.ofMarkers outer, init)) (by simp [placed, hrole, valueRole]) ?_
    split at h
    · next name span hname hspan =>
      obtain ⟨-, -, hmerged⟩ := exists_of_ofFunc hc h
      have hown : MemoMode.ofMarkers? (c.annotations.markers span.start) = ownMode? site init := by
        unfold Node.closureSpan? at hspan
        split at hspan
        · split at hspan
          · obtain rfl := Option.some.inj hspan
            rw [hc]
            rfl
          · simp at hspan
        · simp at hspan
      obtain ⟨hfree, hheld⟩ := mode_of_merge hmerged
      rw [hown] at hfree hheld
      refine recorded_of_ofFunc hc h hrole (fun hr _ ↦ hfree ?_) fun mode hr _ ↦ hheld mode ?_
      · unfold Role.ofMarkers at hr
        split at hr
        · simp at hr
        · assumption
      · unfold Role.ofMarkers at hr
        split at hr
        · next hmode =>
          obtain rfl := Role.held.inj hr
          exact hmode
        · simp at hr
    · simp at h
  · simp at h

theorem exists_of_ofField (hc : c.annotations = site.annotations) {name owner : String}
    {mode : MemoMode} {span : Span} {init : Option Expr} (h : d = c.ofField name owner mode span init) :
    d.mode = mode ∧ (d.span = span ∨ ∃ head typeParams this params result body,
      init = some (.func d.span head typeParams this params result body) ∧
      d.parameters = tableOf site (.func d.span head typeParams this params result body)) := by
  unfold Collector.ofField at h
  split at h
  · subst h
    refine ⟨rfl, .inr ⟨_, _, _, _, _, _, rfl, ?_⟩⟩
    rw [tableOf, ← hc]
    rfl
  · subst h
    exact ⟨rfl, .inl rfl⟩

theorem recorded_of_ofMember (hc : c.annotations = site.annotations) {owner : String} {member : Node}
    (h : d ∈ c.ofMember owner member) : Recorded site d member .free := by
  have hmarkers (span : Span) (decorators : List Expr) : (c.annotations.markers span.start).merge
      (Markers.ofDecorators decorators) = memberMarkers site span decorators := by
    rw [hc]
    rfl
  unfold Collector.ofMember at h
  split at h
  · next span mods decorators key f =>
    dsimp only at h
    split at h
    · rw [hmarkers] at h
      obtain ⟨-, -, hmode⟩ := exists_of_ofFunc hc h
      have hrole : Role.ofMarkers (memberMarkers site span decorators) = .held d.mode := by
        rw [Role.ofMarkers, hmode]
      refine Recorded.of_part (p := (.held d.mode, f)) (by simp [placed, valueRole, hrole]) ?_
      exact recorded_of_ofFunc hc h (by simp) (by simp) fun mode hr _ _ ↦ Role.held.inj hr
    · simp at h
  · next span mods decorators key type init =>
    dsimp only at h
    rw [hmarkers] at h
    split at h
    · next mode name hmode hname =>
      have hrole : Role.ofMarkers (memberMarkers site span decorators) = .held mode := by
        rw [Role.ofMarkers, hmode]
      obtain ⟨rfl, hspan | ⟨head, typeParams, this, params, result, body, rfl, hparams⟩⟩ :=
        exists_of_ofField hc (List.mem_singleton.1 h)
      · refine .inl ?_
        rw [fieldSpans_eq]
        exact List.mem_append_left _ (by simp [hspan])
      · let f := Node.func d.span head typeParams this params result body
        refine Recorded.of_part (p := (.held d.mode, f)) (by simp [placed, valueRole, hrole, f]) ?_
        exact .of_declares (by simp) ⟨hparams, by simp, fun held hr _ ↦ Role.held.inj hr⟩
    · simp at h
  · simp at h

theorem recorded_of_ofDeclaration (hc : c.annotations = site.annotations) {n : Node}
    (h : d ∈ c.ofDeclaration n) : Recorded site d n .free := by
  unfold Collector.ofDeclaration at h
  split at h
  · refine recorded_of_ofFunc hc h (by simp) (fun _ hmode ↦ ?_) (by simp)
    rw [hc] at hmode
    exact hmode
  · next span kind declared items =>
    obtain ⟨item, hitem, h⟩ := List.mem_flatMap.1 h
    refine Recorded.of_part (p := (.ofMarkers (site.annotations.markers span.start), item)) ?_
      (recorded_of_ofDeclarator hc (hc ▸ h))
    simp only [placed, reduceCtorEq, if_false, valueRole]
    exact List.mem_map_of_mem hitem
  · next members =>
    obtain ⟨member, hmember, h⟩ := List.mem_flatMap.1 h
    refine Recorded.of_part (p := (.free, member)) ?_ (recorded_of_ofMember hc h)
    simp [placed, Node.children, hmember]
  · simp at h

theorem recorded_of_declared (hc : c.annotations = site.annotations) {stmt : Stmt}
    (h : d ∈ c.ofDeclaration (Collector.declared stmt)) : Recorded site d stmt .free := by
  have hd := recorded_of_ofDeclaration hc h
  unfold Collector.declared at hd
  split at hd
  · next decl => exact hd.of_part (p := (.free, decl)) (by simp [placed, Node.children])
  · next decl => exact hd.of_part (p := (.free, decl)) (by simp [placed, Node.children])
  · exact hd

end

theorem functionSpans_subset_of_mem_census {n : Node} {p : Role × Func} (h : p ∈ census site n role) :
    functionSpans p.2 ⊆ functionSpans n := by
  induction n using Node.induction_on_parts generalizing role with
  | step n ih =>
    rw [census_eq] at h
    obtain h | h := List.mem_append.1 h
    · unfold ownEntry at h
      split at h
      · split at h
        · simp at h
        · obtain rfl := List.mem_singleton.1 h
          exact List.Subset.refl _
      · simp at h
    · obtain ⟨q, hq, h⟩ := List.mem_flatMap.1 h
      have hm : q.2 ∈ n.children := by
        rw [← map_snd_placed site role n n]
        exact List.mem_map_of_mem hq
      exact fun span hspan ↦ mem_functionSpans_of_part hm (ih q.2 hm h hspan)

theorem censusAll_spans_sublist (nodes : List Node) :
    List.Sublist ((censusAll site nodes).map spanOf) (nodes.flatMap functionSpans) := by
  rw [censusAll, List.map_flatMap]
  exact List.Sublist.flatMap_right _ fun n _ ↦ census_spans_sublist n .free

theorem nodeAt?_none_of_toldApart (source : String) (o : Options) (parsed : Parsed)
    (h : ToldApart parsed.program.body) : (siteOf source o parsed).graph.nodeAt? .none = none := by
  let site := siteOf source o parsed
  obtain ⟨hnone, -⟩ := List.nodup_cons.1 h
  refine List.find?_eq_none.2 fun d hd hspan ↦ hnone ?_
  obtain ⟨stmt, hstmt, hd⟩ := List.mem_flatMap.1 (List.mem_reverse.1 hd)
  rw [← eq_of_beq hspan]
  obtain hd | ⟨hd, -⟩ :=
    recorded_of_declared (c := ⟨o.filePath, site.annotations, site.identity⟩)
      (show _ = site.annotations from rfl) hd
  · exact List.mem_append_right _ (List.mem_flatMap.2 ⟨stmt, hstmt, hd⟩)
  · exact List.mem_append_left _ (List.mem_flatMap.2 ⟨stmt, hstmt, hd⟩)

/-- In a file whose functions and fields are told apart everything is known of the functions. -/
theorem known_of_toldApart (source : String) (o : Options) (parsed : Parsed)
    (h : ToldApart parsed.program.body) {stmt : Stmt} (hstmt : stmt ∈ parsed.program.body) :
    Known (siteOf source o parsed) (initial o.filePath) .free stmt := by
  let site := siteOf source o parsed
  obtain ⟨hnone, hnodup⟩ := List.nodup_cons.1 h
  obtain ⟨hfunctions, -, hdisjoint⟩ := List.nodup_append.1 hnodup
  have hspans {p : Role × Func} (hp : p ∈ censusAll site parsed.program.body) :
      spanOf p ∈ parsed.program.body.flatMap functionSpans :=
    (censusAll_spans_sublist _).subset (List.mem_map_of_mem hp)
  have hall {p : Role × Func} (hp : p ∈ census site stmt .free) :
      p ∈ censusAll site parsed.program.body := (censusAll_sublist_of_mem hstmt).subset hp
  refine ⟨fun p hp hspan ↦ hnone ?_, ?_, fun p hp d hd ↦ ?_, by simp [initial]⟩
  · refine List.mem_append_left _ (List.mem_flatMap.2 ⟨stmt, hstmt, ?_⟩)
    exact functionSpans_subset_of_mem_census hp hspan
  · exact hfunctions.sublist
      (((censusAll_sublist_of_mem hstmt).map spanOf).trans (censusAll_spans_sublist _))
  · have hspan : d.span = spanOf p := by simpa using List.find?_some hd
    obtain ⟨other, hother, hd⟩ := List.mem_flatMap.1 (List.mem_reverse.1 (List.mem_of_find?_eq_some hd))
    obtain hd | ⟨-, hd⟩ :=
      recorded_of_declared (c := ⟨o.filePath, site.annotations, site.identity⟩)
        (show _ = site.annotations from rfl) hd
    · refine absurd rfl (hdisjoint _ (hspans (hall hp)) _ (List.mem_flatMap.2 ⟨other, hother, ?_⟩))
      exact hspan ▸ hd
    · obtain ⟨q, hq, hqspan, hdeclares⟩ := hd (hspan ▸ span_ne_none_of_mem_census hp)
      have hq := (censusAll_sublist_of_mem hother).subset hq
      obtain rfl := List.inj_on_of_nodup_map (hfunctions.sublist (censusAll_spans_sublist _)) hq
        (hall hp) (hqspan.trans hspan)
      exact hdeclares

def toldSpans (n : Node) : List Span :=
  functionSpans n ++ fieldSpans n

theorem toldSpans_eq (n : Node) :
    List.Perm (toldSpans n) (ownPlace n ++ n.children.flatMap toldSpans) := by
  have hchildren : List.Perm (n.children.flatMap functionSpans ++ n.children.flatMap fieldSpans)
      (n.children.flatMap toldSpans) := List.flatMap_append_perm _ _ _
  unfold toldSpans
  rw [functionSpans_eq, fieldSpans_eq]
  cases n
  case field span isAccessor mods decorators key type init =>
    exact List.perm_middle.trans (hchildren.cons span)
  case func span head typeParams this params result body => exact hchildren.cons span
  all_goals exact hchildren

theorem toldSpans_perm_nodes (n : Node) : List.Perm (toldSpans n) (n.nodes.flatMap ownPlace) := by
  induction n using Node.induction_on_parts with
  | step n ih =>
    rw [Node.nodes_eq, List.flatMap_cons, List.flatMap_assoc]
    exact (toldSpans_eq n).trans ((List.Perm.flatMap_left _ ih).append_left _)

section

variable {source : String} {jsx : Bool} {parsed : Parsed}

theorem nodup_ownPlace (h : parse? source jsx = some parsed) :
    ((parsed.program.body.flatMap Node.nodes).flatMap ownPlace).Nodup := by
  obtain ⟨high, hordered⟩ := inOrder_of_parse? h
  exact hordered.ascending.imp fun hlt heq ↦ absurd (congrArg Span.start heq) (Nat.ne_of_lt hlt)

theorem toldApart_of_parse? (h : parse? source jsx = some parsed) : ToldApart parsed.program.body := by
  have hperm : List.Perm (parsed.program.body.flatMap functionSpans ++
      parsed.program.body.flatMap fieldSpans)
      ((parsed.program.body.flatMap Node.nodes).flatMap ownPlace) := by
    rw [List.flatMap_assoc]
    exact (List.flatMap_append_perm _ functionSpans fieldSpans).trans
      (List.Perm.flatMap_left _ fun n _ ↦ toldSpans_perm_nodes n)
  refine List.nodup_cons.2 ⟨fun hnone ↦ ?_, hperm.nodup_iff.2 (nodup_ownPlace h)⟩
  obtain ⟨high, hordered⟩ := inOrder_of_parse? h
  exact absurd (hordered.within _ (hperm.mem_iff.1 hnone)).2.1 (Nat.lt_irrefl 0)

end

/-- What is seen of a source and of what is woven of it, if it can be read and nothing is wrong. -/
def wovenView {α : Type} (source : String) (o : Options) (depth : Nat)
    (view : Parsed → List Stmt → State → α) : Option α :=
  (parse? source false).bind fun parsed ↦
    (walkAll (siteOf source o parsed) depth parsed.program.body).bind fun r ↦
      if walkErrors o.filePath r.2 = [] then some (view parsed r.1 r.2) else none

def shortOptions : Options where
  runtime := shortNames

theorem exists_of_wovenView {α : Type} {source : String} {o : Options} {depth : Nat}
    {view : Parsed → List Stmt → State → α} {a : α} (h : wovenView source o depth view = some a) :
    ∃ parsed stmts' s, parse? source false = some parsed ∧
      walkAll (siteOf source o parsed) depth parsed.program.body = some (stmts', s) ∧
      walkErrors o.filePath s = [] ∧ view parsed stmts' s = a := by
  obtain ⟨parsed, hparsed, hwoven⟩ := Option.bind_eq_some_iff.1 h
  obtain ⟨⟨stmts', s⟩, hwalk, hview⟩ := Option.bind_eq_some_iff.1 hwoven
  split at hview
  · next hclean => exact ⟨parsed, stmts', s, hparsed, hwalk, hclean, Option.some.inj hview⟩
  · simp at hview

end Recompose.Weave
