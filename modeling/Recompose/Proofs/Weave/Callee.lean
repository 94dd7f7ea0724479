import Recompose.Proofs.References
import Recompose.Proofs.Weave.Awaited

namespace Recompose.Weave

open Script Scoping

variable {site : Site} {s s₁ s' : State} {x : String}

def isDefined : Func → Bool
  | .func _ _ _ _ _ _ .missing => false
  | .func span _ _ _ _ _ _ => span ≠ .none
  | _ => false

def heldClosure (x : String) (role : Role) : Node → List (Role × Func)
  | .declarator _ target _ _ (some init) =>
    if target.simpleName? = some x ∧ init.isClosure = true ∧ isDefined init = true then [(role, init)]
    else []
  | _ => []

/-- The function that a statement of a list gives a name, with its role. -/
def heldBy (site : Site) (x : String) : Stmt → List (Role × Func)
  | .func span head typeParams this params result body =>
    if head.name = some x ∧ isDefined (.func span head typeParams this params result body) = true then
      [(.free, .func span head typeParams this params result body)]
    else []
  | .vars span _ _ items =>
    items.flatMap (heldClosure x (.ofMarkers (site.annotations.markers span.start)))
  | _ => []

/-- The function that a name means in a list which declares it once. -/
def holder (site : Site) (x : String) (stmts : List Stmt) : Option (Role × Func) :=
  if (bodyDeclarations x stmts).length = 1 then (stmts.flatMap (heldBy site x)).head? else none

def Role.isHeld : Role → Bool
  | .held _ => true
  | _ => false

/-- Is the function, or the declaration that holds it, marked? -/
def isCallable (site : Site) (p : Role × Func) : Bool :=
  (ownMode? site p.2).isSome || p.1.isHeld

theorem isSome_ofMarkers? (m : Markers) : (MemoMode.ofMarkers? m).isSome = m.isMemoLike := by
  unfold MemoMode.ofMarkers? Markers.isMemoLike
  rcases m with ⟨_ | _, _, _ | _, _ | _⟩ <;> rfl

theorem isHeld_ofMarkers (m : Markers) : (Role.ofMarkers m).isHeld = m.isMemoLike := by
  rw [← isSome_ofMarkers?, Role.ofMarkers]
  cases MemoMode.ofMarkers? m <;> rfl

theorem isDefined_iff {span : Span} {head : FuncHead} {typeParams : List Node} {this : Option Node}
    {params : List Param} {result : Option Ty} {body : Node} :
    isDefined (.func span head typeParams this params result body) = true ↔
      span ≠ .none ∧ body ≠ .missing := by
  cases body <;> simp [isDefined]

theorem exists_of_isClosure {init : Expr} (h : init.isClosure = true) :
    ∃ span head typeParams this params result body,
      init = .func span head typeParams this params result body ∧ init.closureSpan? = some span := by
  cases init
  case func span head typeParams this params result body =>
    refine ⟨span, head, typeParams, this, params, result, body, rfl, ?_⟩
    have hform : head.form = .arrow ∨ head.form = .expression := by
      simpa [Node.isClosure, Node.closureSpan?] using h
    rw [Node.closureSpan?, if_pos hform]
  all_goals simp [Node.isClosure, Node.closureSpan?] at h

theorem exists_of_length_flatMap {α β : Type} {f : α → List β} {xs : List α}
    (h : (xs.flatMap f).length = 1) :
    ∃ l a r, xs = l ++ a :: r ∧ l.flatMap f = [] ∧ r.flatMap f = [] ∧ (f a).length = 1 := by
  induction xs with
  | nil => simp at h
  | cons a xs ih =>
    rw [List.flatMap_cons, List.length_append] at h
    cases hfa : f a with
    | nil =>
      rw [hfa, List.length_nil, Nat.zero_add] at h
      obtain ⟨l, b, r, rfl, hl, hr, hb⟩ := ih h
      exact ⟨a :: l, b, r, rfl, by rw [List.flatMap_cons, hfa, hl]; rfl, hr, hb⟩
    | cons b bs =>
      rw [hfa, List.length_cons] at h
      refine ⟨[], a, xs, rfl, rfl, List.length_eq_zero_iff.1 (by omega), ?_⟩
      rw [hfa, List.length_cons]
      omega

theorem heldClosure_eq_nil {role : Role} {item : Node}
    (h : declarators x [item] = []) : heldClosure x role item = [] := by
  rw [declarators_eq_nil_iff] at h
  unfold heldClosure
  split
  · next span target definite type init =>
    refine if_neg fun hheld ↦ h ?_
    simp [Node.declaredNames, boundNames_of_simpleName hheld.1]
  · rfl

theorem mem_declaredNames_of_heldClosure {role : Role} {item : Node} {p : Role × Func}
    (h : p ∈ heldClosure x role item) : x ∈ Node.declaredNames [item] := by
  by_contra hx
  rw [heldClosure_eq_nil (declarators_eq_nil_iff.2 hx)] at h
  exact List.not_mem_nil h

theorem exists_only_declarator {items : List Node} (h : (declarators x items).length = 1) :
    ∃ item, ∀ other ∈ items, x ∈ Node.declaredNames [other] → other = item := by
  rw [declarators] at h
  obtain ⟨l, item, r, rfl, hl, hr, -⟩ := exists_of_length_flatMap h
  have hoff {other : Node} {list : List Node} (hother : other ∈ list)
      (hlist : declarators x list = []) : x ∉ Node.declaredNames [other] := by
    rw [← declarators_eq_nil_iff, declarators, List.flatMap_cons,
      List.flatMap_eq_nil_iff.1 hlist other hother]
    rfl
  refine ⟨item, fun other hother hx ↦ ?_⟩
  obtain hother | hother := List.mem_append.1 hother
  · exact absurd hx (hoff hother hl)
  · obtain rfl | hother := List.mem_cons.1 hother
    · rfl
    · exact absurd hx (hoff hother hr)

/-- The declarations of a name that a statement makes for its list or for the function around it. -/
def declares (x : String) (stmt : Stmt) : List Span :=
  lexical x stmt ++ hoisted x stmt

theorem declares_vars (span : Span) (kind : VarKind) (declared : Bool) (items : List Node) :
    declares x (.vars span kind declared items) = declarators x items := by
  unfold declares hoisted
  rw [Node.fold_eq, lexical]
  cases kind <;> simp

theorem length_bodyDeclarations (stmts : List Stmt) :
    (bodyDeclarations x stmts).length = (stmts.flatMap (declares x)).length :=
  (List.flatMap_append_perm stmts (lexical x) (hoisted x)).length_eq

theorem heldBy_eq_nil {stmt : Stmt} (h : declares x stmt = []) : heldBy site x stmt = [] := by
  unfold heldBy
  split
  · refine if_neg fun hheld ↦ ?_
    simp [declares, lexical, hheld.1] at h
  · next span kind declared items =>
    rw [declares_vars, declarators, List.flatMap_eq_nil_iff] at h
    refine List.flatMap_eq_nil_iff.2 fun item hitem ↦ heldClosure_eq_nil ?_
    rw [declarators, List.flatMap_cons, h item hitem]
    rfl
  · rfl

theorem callable_of_heldClosure {m : Markers} {item : Node} {p : Role × Func} {b : Binding}
    (hp : p ∈ heldClosure x (.ofMarkers m) item)
    (hb : (x, b) ∈ declaratorBindings site.annotations m.isMemoLike item) :
    b.isMemoCallable = isCallable site p := by
  unfold heldClosure at hp
  split at hp
  · next span target definite type init =>
    split at hp
    · next hheld =>
      obtain rfl := List.mem_singleton.1 hp
      obtain ⟨place, head, typeParams, this, params, result, body, rfl, hspan⟩ :=
        exists_of_isClosure hheld.2.1
      have hown : (ownMode? site (.func place head typeParams this params result body)).isSome =
          (site.annotations.markers place.start).isMemoLike := isSome_ofMarkers? _
      rw [declaratorBindings, Option.bind_some, hspan, boundNames_of_simpleName hheld.1] at hb
      obtain ⟨-, rfl⟩ : x = x ∧ b = _ := by simpa using hb
      rw [isCallable, hown, isHeld_ofMarkers]
      cases m.isMemoLike <;> cases (site.annotations.markers place.start).isMemoLike <;> rfl
    · simp at hp
  · simp at hp

theorem callable_of_heldBy {stmt : Stmt} {p : Role × Func} {b : Binding}
    (hone : (declares x stmt).length = 1) (hp : p ∈ heldBy site x stmt)
    (hb : (x, b) ∈ hoistedBinding site.annotations stmt) : b.isMemoCallable = isCallable site p := by
  unfold heldBy at hp
  split at hp
  · next span head typeParams this params result body =>
    split at hp
    · next hname =>
      obtain rfl := List.mem_singleton.1 hp
      have hown : (ownMode? site (.func span head typeParams this params result body)).isSome =
          (site.annotations.markers span.start).isMemoLike := isSome_ofMarkers? _
      rw [hoistedBinding, hname.1] at hb
      obtain ⟨-, rfl⟩ : x = x ∧ b = _ := by simpa using hb
      rw [isCallable, hown]
      cases (site.annotations.markers span.start).isMemoLike <;> rfl
    · simp at hp
  · next span kind declared items =>
    rw [declares_vars] at hone
    obtain ⟨item, honly⟩ := exists_only_declarator hone
    rw [hoistedBinding] at hb
    split at hb
    · simp at hb
    · obtain ⟨holding, hholding, hheld⟩ := List.mem_flatMap.1 hp
      obtain ⟨binding, hbinding, hbound⟩ := List.mem_flatMap.1 hb
      have hnamed : x ∈ Node.declaredNames [binding] := by
        unfold declaratorBindings at hbound
        split at hbound
        · obtain ⟨name, hname, heq⟩ := List.mem_map.1 hbound
          obtain ⟨rfl, -⟩ := Prod.mk.inj heq
          simpa [Node.declaredNames] using hname
        · simp at hbound
      rw [honly holding hholding (mem_declaredNames_of_heldClosure hheld)] at hheld
      rw [honly binding hbinding hnamed] at hbound
      exact callable_of_heldClosure hheld hbound
  · simp at hp

theorem exists_of_holder {stmts : List Stmt} {p : Role × Func} (h : holder site x stmts = some p) :
    ∃ stmt ∈ stmts, p ∈ heldBy site x stmt ∧ (declares x stmt).length = 1 ∧
      ∀ other ∈ stmts, declares x other ≠ [] → other = stmt := by
  unfold holder at h
  split at h
  · next hone =>
    rw [length_bodyDeclarations] at hone
    obtain ⟨l, stmt, r, rfl, hl, hr, hone⟩ := exists_of_length_flatMap hone
    have honly : ∀ other ∈ l ++ stmt :: r, declares x other ≠ [] → other = stmt := by
      intro other hother hdeclares
      obtain hother | hother := List.mem_append.1 hother
      · exact absurd (List.flatMap_eq_nil_iff.1 hl other hother) hdeclares
      · obtain rfl | hother := List.mem_cons.1 hother
        · rfl
        · exact absurd (List.flatMap_eq_nil_iff.1 hr other hother) hdeclares
    obtain ⟨other, hother, hp⟩ := List.mem_flatMap.1 (List.mem_of_mem_head? h)
    have hdeclares : declares x other ≠ [] := by
      intro hnil
      rw [heldBy_eq_nil hnil] at hp
      exact List.not_mem_nil hp
    obtain rfl := honly other hother hdeclares
    exact ⟨other, hother, hp, hone, honly⟩
  · simp at h

theorem callable_of_holder {stmts : List Stmt} {p : Role × Func} {b : Binding}
    (h : holder site x stmts = some p) (hb : listed site x stmts = some b) :
    b.isMemoCallable = isCallable site p := by
  obtain ⟨stmt, hstmt, hp, hone, honly⟩ := exists_of_holder h
  obtain ⟨before, after, hlist, -⟩ := List.lookup_eq_some_iff.1 hb
  have hmem : (x, b) ∈ hoistedBindings site.annotations stmts :=
    List.mem_reverse.1 (by simp [hlist])
  obtain ⟨other, hother, hbinds⟩ := List.mem_flatMap.1 hmem
  have hbound : x ∈ hoistedNames other := by
    have hnames := map_fst_hoistedBindings site.annotations [other]
    rw [hoistedBindings, List.flatMap_cons, List.flatMap_nil, List.append_nil, List.flatMap_cons,
      List.flatMap_nil, List.append_nil] at hnames
    rw [← hnames]
    exact List.mem_map_of_mem hbinds
  have hdeclares : declares x other ≠ [] :=
    fun hnil ↦ lexical_ne_nil hbound (List.append_eq_nil_iff.1 hnil).1
  rw [honly other hother hdeclares] at hbinds
  exact callable_of_heldBy hone hp hbinds

/-- What is bound to a name goes with what it means, if it is declared: the function that it holds, if
that is known. -/
structure Fits (site : Site) (b : Option Binding) (target : Option (Option (Role × Func))) : Prop where
  bound : b.isSome = target.isSome
  callable : ∀ p, target = some (some p) → b.map Binding.isMemoCallable = some (isCallable site p)

theorem Fits.eq_none {b : Option Binding} (h : Fits site b none) : b = none := by
  simpa using h.bound

/-- What a name means where declarations of it are in scope, of which no more is known. -/
def declaredSomehow (inner : List Span) : Option (Option (Role × Func)) :=
  if inner.isEmpty then none else some none

/-- What a name means in a list of statements that has these declarations of it in scope. -/
def declaredBy (site : Site) (x : String) (inner : List Span) (stmts : List Stmt) :
    Option (Option (Role × Func)) :=
  if inner.isEmpty then none else some (holder site x stmts)

def bodyTarget (site : Site) (x : String) (f : Func) : Option (Option (Role × Func)) :=
  match f with
  | .func _ _ _ _ _ _ body =>
    (declaredBy site x (bodyDeclarations x (codeStmts body)) (codeStmts body)).or
      (declaredSomehow (headScope x f))
  | _ => none

/-- What a name means for each part of a node, so far as the node declares it. -/
def targets (site : Site) (x : String) (n : Node) : List (Option (Option (Role × Func))) :=
  match n with
  | .func _ head typeParams this params result _ =>
    if head.form = .signature then n.children.map fun _ ↦ none
    else
      (typeParams ++ this.toList ++ params ++ result.toList).map
        (fun _ ↦ declaredSomehow (headScope x n)) ++ [bodyTarget site x n]
  | .block _ stmts => stmts.map fun _ ↦ declaredBy site x (lexicals x stmts) stmts
  | .switchStmt _ _ clauses =>
    let stmts := clauses.flatMap clauseStmts
    none :: clauses.map fun _ ↦ declaredBy site x (lexicals x stmts) stmts
  | n => (values x n).map declaredSomehow

theorem Fits.or {b outer : Option Binding} {target around : Option (Option (Role × Func))}
    (h : Fits site b target) (houter : Fits site outer around) :
    Fits site (b.or outer) (target.or around) := by
  have hbound := h.bound
  cases b with
  | none =>
    cases target with
    | none => exact houter
    | some target => simp at hbound
  | some b =>
    cases target with
    | none => simp at hbound
    | some target => exact h

theorem fits_none : Fits site none none :=
  ⟨rfl, by simp⟩

theorem fits_declaredSomehow {b : Option Binding} {inner : List Span} (h : b.isSome = !inner.isEmpty) :
    Fits site b (declaredSomehow inner) := by
  unfold declaredSomehow
  split
  · next hinner => exact ⟨by simpa [hinner] using h, by simp⟩
  · next hinner => exact ⟨by simpa [hinner] using h, by simp⟩

theorem fits_declaredBy {stmts : List Stmt} (h : ∀ stmt ∈ stmts, unhoisted x stmt = false) :
    Fits site (listed site x stmts) (declaredBy site x (lexicals x stmts) stmts) := by
  have hbound : (listed site x stmts).isSome = !(lexicals x stmts).isEmpty := isSome_listed h
  unfold declaredBy
  split
  · next hinner => exact ⟨by simpa [hinner] using hbound, by simp⟩
  · next hinner =>
    obtain ⟨b, hb⟩ : ∃ b, listed site x stmts = some b :=
      Option.isSome_iff_exists.1 (by simpa [hinner] using hbound)
    rw [hb]
    refine ⟨rfl, fun p hp ↦ ?_⟩
    rw [Option.map_some, callable_of_holder (Option.some.inj hp) hb]

theorem fits_const {b : Option Binding} {target : Option (Option (Role × Func))} (h : Fits site b target)
    (ns : List Node) : List.Forall₂ (Fits site) (ns.map fun _ ↦ b) (ns.map fun _ ↦ target) :=
  List.forall₂_map_left_iff.2 (List.forall₂_map_right_iff.2 (List.forall₂_same.2 fun _ _ ↦ h))

theorem fits_of_reflects {bs : List (Option Binding)} {inners : List (List Span)}
    (h : Reflects bs inners) : List.Forall₂ (Fits site) bs (inners.map declaredSomehow) :=
  List.forall₂_map_right_iff.2 (h.imp fun _ _ hinner ↦ fits_declaredSomehow hinner)

theorem fits_function {span : Span} {head : FuncHead} {typeParams : List Node} {this : Option Node}
    {params : List Param} {result : Option Ty} {body : Node}
    (hclear : Clear x (.func span head typeParams this params result body)) :
    List.Forall₂ (Fits site) (opened site x (.func span head typeParams this params result body))
      (targets site x (.func span head typeParams this params result body)) := by
  let f := Node.func span head typeParams this params result body
  have hbody : Clear x body := hclear.part (by simp [Node.children])
  have hhead : (plainParameter x params).isSome = !(headScope x f).isEmpty := by
    rw [Bool.eq_iff_iff, Bool.not_eq_true', List.isEmpty_eq_false_iff, Ne, headScope_eq_nil_iff hclear,
      not_not, plainParameter]
    split <;> simp_all
  unfold opened targets
  dsimp only
  split
  · exact fits_const fits_none _
  · refine List.rel_append (fits_const (fits_declaredSomehow hhead) _) (.cons ?_ .nil)
    rw [bodyTarget, bodyDeclarations_of_clear (clear_codeStmts hbody)]
    exact (fits_declaredBy (unhoisted_codeStmts hbody)).or (fits_declaredSomehow hhead)

theorem fits_of_enters {n n₁ : Node} {leave : State → State} (h : Enters site s n n₁ s₁ leave)
    (hclear : Clear x n) : List.Forall₂ (Fits site) (opened site x n₁) (targets site x n₁) := by
  have hreflects := reflects_of_enters h hclear
  unfold targets
  split
  · cases h with
    | passive passive => simp [isPassive] at passive
    | signature form => exact fits_function hclear
    | function form plain => exact fits_function hclear
    | block opens => simp [blockBindings] at opens
  · cases h with
    | passive passive => simp [isPassive] at passive
    | block opens =>
      have hself := hclear.self
      rw [obscures, List.any_eq_false] at hself
      exact fits_const (fits_declaredBy fun stmt hstmt ↦ Bool.eq_false_iff.2 (hself stmt hstmt)) _
  · cases h with
    | passive passive => simp [isPassive] at passive
    | block opens =>
      refine .cons fits_none (fits_const (fits_declaredBy fun stmt hstmt ↦ ?_) _)
      obtain ⟨clause, hclause, hstmt⟩ := List.mem_flatMap.1 hstmt
      have hinner := (hclear.part (List.mem_cons_of_mem _ hclause)).self
      unfold clauseStmts at hstmt
      split at hstmt
      · rw [obscures, List.any_eq_false] at hinner
        exact Bool.eq_false_iff.2 (hinner stmt hstmt)
      · simp at hstmt
  · exact fits_of_reflects hreflects

theorem mem_census_of_heldClosure {role : Role} {item : Node} {p : Role × Func} (hrole : role ≠ .foreign)
    (h : p ∈ heldClosure x role item) : p ∈ census site item role := by
  unfold heldClosure at h
  split at h
  · next span target definite type init =>
    split at h
    · next hheld =>
      obtain rfl := List.mem_singleton.1 h
      obtain ⟨place, head, typeParams, this, params, result, body, rfl, -⟩ :=
        exists_of_isClosure hheld.2.1
      refine (placed_sublist_census _ role).subset (List.mem_flatMap.2 ⟨(role, _), ?_,
        mem_census_self hrole (isDefined_iff.1 hheld.2.2).1⟩)
      simp [placed, hrole, valueRole]
    · simp at h
  · simp at h

theorem ofMarkers_ne_foreign (m : Markers) : Role.ofMarkers m ≠ .foreign := by
  unfold Role.ofMarkers
  split <;> simp

theorem mem_census_of_heldBy {stmt : Stmt} {p : Role × Func} (h : p ∈ heldBy site x stmt) :
    p ∈ census site stmt .free := by
  unfold heldBy at h
  split at h
  · split at h
    · next hname =>
      obtain rfl := List.mem_singleton.1 h
      exact mem_census_self (by simp) (isDefined_iff.1 hname.2).1
    · simp at h
  · next span kind declared items =>
    obtain ⟨item, hitem, h⟩ := List.mem_flatMap.1 h
    refine (placed_sublist_census _ .free).subset (List.mem_flatMap.2
      ⟨(.ofMarkers (site.annotations.markers span.start), item), ?_,
        mem_census_of_heldClosure (ofMarkers_ne_foreign _) h⟩)
    simp only [placed, reduceCtorEq, if_false, valueRole]
    exact List.mem_map_of_mem hitem
  · simp at h

theorem mem_census_of_holder {stmts : List Stmt} {p : Role × Func} (h : holder site x stmts = some p) :
    p ∈ censusAll site stmts := by
  obtain ⟨stmt, hstmt, hp, -⟩ := exists_of_holder h
  exact List.mem_flatMap.2 ⟨stmt, hstmt, mem_census_of_heldBy hp⟩

theorem holder_of_declaredBy {inner : List Span} {stmts : List Stmt} {p : Role × Func}
    (h : declaredBy site x inner stmts = some (some p)) : holder site x stmts = some p := by
  unfold declaredBy at h
  split at h
  · simp at h
  · exact Option.some.inj h

theorem declaredSomehow_ne {inner : List Span} {p : Role × Func} :
    declaredSomehow inner ≠ some (some p) := by
  unfold declaredSomehow
  split <;> simp

theorem mem_census_of_bodyTarget {span : Span} {head : FuncHead} {typeParams : List Node}
    {this : Option Node} {params : List Param} {result : Option Ty} {body : Node} {p : Role × Func}
    (h : bodyTarget site x (.func span head typeParams this params result body) = some (some p)) :
    p ∈ census site body .free := by
  obtain h | ⟨-, h⟩ := Option.or_eq_some_iff.1 h
  · have hp := mem_census_of_holder (holder_of_declaredBy h)
    cases body
    case code =>
      rw [census_code]
      exact hp
    all_goals exact absurd hp List.not_mem_nil
  · exact absurd h declaredSomehow_ne

theorem mem_placed_of_targets {role : Role} {n n₁ : Node} {p : Role × Func} (hrole : role ≠ .foreign)
    (h : some (some p) ∈ targets site x n₁) :
    p ∈ (placed site role n n₁).flatMap fun q ↦ census site q.2 q.1 := by
  have hconst {ns : List Node} {t : Option (Option (Role × Func))}
      (hmem : some (some p) ∈ ns.map fun _ ↦ t) : t = some (some p) := by
    obtain ⟨-, -, ht⟩ := List.mem_map.1 hmem
    exact ht
  unfold targets at h
  split at h
  · next span head typeParams this params result body =>
    split at h
    · exact absurd (hconst h) (by simp)
    · obtain h | h := List.mem_append.1 h
      · exact absurd (hconst h) declaredSomehow_ne
      · have hp := mem_census_of_bodyTarget (List.mem_singleton.1 h).symm
        refine List.mem_flatMap.2 ⟨(.free, body), ?_, hp⟩
        simp [placed, hrole]
  · have hp := mem_census_of_holder (holder_of_declaredBy (hconst h))
    simp only [placed, hrole, if_false, Node.children, flatMap_placed_free]
    exact hp
  · next span subject clauses =>
    obtain h | h := List.mem_cons.1 h
    · simp at h
    · have hp := mem_census_of_holder (holder_of_declaredBy (hconst h))
      obtain ⟨stmt, hstmt, hp⟩ := List.mem_flatMap.1 hp
      obtain ⟨clause, hclause, hstmt⟩ := List.mem_flatMap.1 hstmt
      simp only [placed, hrole, if_false, Node.children, flatMap_placed_free]
      refine List.mem_flatMap.2 ⟨clause, List.mem_cons_of_mem _ hclause, ?_⟩
      unfold clauseStmts at hstmt
      split at hstmt
      · rw [census_clause]
        exact List.mem_append_right _ (List.mem_flatMap.2 ⟨stmt, hstmt, hp⟩)
      · simp at hstmt
  · obtain ⟨inner, -, h⟩ := List.mem_map.1 h
    exact absurd h declaredSomehow_ne

structure Naming where
  threads : Bool := false
  /-- What the name is declared to mean, within the node with which one started. -/
  target : Option (Option (Role × Func)) := none

/-- Does a node take its parts out of the function around it? -/
def isThreshold : Node → Bool
  | .method _ _ _ _ _ _ => true
  | n => isFunction n

def naming (site : Site) (x : String) : Inherited (Role × Naming) where
  parts a n n₁ :=
    List.zipWith (fun p target ↦ (p.1, ⟨a.2.threads && !isThreshold n, target.or a.2.target⟩))
      (placed site a.1 n n₁) (targets site x n₁)
  argument a := (a.1.asArgument, a.2)
  body a _ f _ := (bodyRole a.1 f, ⟨true, (bodyTarget site x f).or a.2.target⟩)
  warrants a mode f := Warranted site mode f a.1

/-- What goes with a role and with what a name means; `all` are the functions of the file. -/
structure Names (site : Site) (all : List (Role × Func)) (x : String) (a : Role × Naming) (s : State)
    (n : Node) : Prop where
  known : Known site s a.1 n
  clear : Clear x n
  inside : census site n a.1 ⊆ all
  threading : a.2.threads = true → s.threading = true
  fits : a.1 ≠ .foreign → refers x n = true → Fits site (s.scopes.lookup x) a.2.target
  meant : a.1 ≠ .foreign → ∀ p, a.2.target = some (some p) → p ∈ all

theorem threading_eq_of_enters {n n₁ : Node} {leave : State → State} (h : Enters site s n n₁ s₁ leave)
    (hn : isThreshold n = false) : s₁.threading = s.threading := by
  unfold State.threading
  obtain ⟨-, hframes, -⟩ | ⟨frame, hframe, -⟩ := frames_of_enters h
  · rw [hframes]
  · cases hframe <;> simp_all [isThreshold, isFunction]

theorem Names.keeps {all : List (Role × Func)} {a : Role × Naming} {n : Node}
    (h : Names site all x a s n) (hs : KeepsFor site x s s') : Names site all x a s' n where
  known := h.known.keeps hs.keeps
  clear := h.clear
  inside := h.inside
  threading hthreads := hs.keeps.threading_eq.trans (h.threading hthreads)
  fits hrole hrefers := by
    rw [hs.sameFor.lookup_eq]
    exact h.fits hrole hrefers
  meant := h.meant

theorem census_subset_of_enters {role : Role} {n n₁ : Node} {leave : State → State} {p : Role × Node}
    (h : Enters site s n n₁ s₁ leave) (hp : p ∈ placed site role n n₁) :
    census site p.2 p.1 ⊆ census site n role :=
  ((census_sublist_of_mem hp).trans
    ((placed_sublist_of_enters h role).trans (placed_sublist_census n role))).subset

theorem Names.enters (hnames : site.options.runtime.IsTame) {all : List (Role × Func)}
    {a : Role × Naming} {n n₁ : Node} {leave : State → State} (h : Names site all x a s n)
    (henters : Enters site s n n₁ s₁ leave) :
    List.Forall₂ (fun b m ↦ Names site all x b s₁ m) ((naming site x).parts a n n₁) n₁.children := by
  have hbinds : List.Forall₂ (fun target m ↦ refers x m = true → ∀ around,
      Fits site (s.scopes.lookup x) around → Fits site (s₁.scopes.lookup x) (target.or around))
      (targets site x n₁) n₁.children := by
    refine forall₂_through (binds_of_enters henters h.clear) (fits_of_enters henters h.clear) ?_
    intro b _ target m hbinds hfits hrefers around haround
    rw [hbinds hrefers]
    exact hfits.or haround
  refine forall₂_zipWith_placed hbinds fun p hp hm target htarget hfits ↦ ?_
  refine ⟨h.known.enters henters hp, clear_of_enters hnames henters h.clear hm,
    fun q hq ↦ h.inside (census_subset_of_enters henters hp hq), fun hthreads ↦ ?_,
    fun hrole hrefers ↦ ?_, fun hrole q hq ↦ ?_⟩
  · obtain ⟨hthreads, hthreshold⟩ := Bool.and_eq_true_iff.1 hthreads
    rw [threading_eq_of_enters henters (by simpa using hthreshold)]
    exact h.threading hthreads
  · exact hfits hrefers _ (h.fits (ne_foreign_of_mem_placed hp hrole)
      (refers_of_enters hnames henters hm hrefers))
  · replace hrole : a.1 ≠ .foreign := ne_foreign_of_mem_placed hp hrole
    obtain hq | ⟨-, hq⟩ := Option.or_eq_some_iff.1 hq
    · subst hq
      exact h.inside ((placed_sublist_census n a.1).subset ((placed_sublist_of_enters henters a.1).subset
        (mem_placed_of_targets hrole htarget)))
    · exact h.meant hrole q hq

theorem Names.call {all : List (Role × Func)} {a : Role × Naming} {n : Node} (h : Names site all x a s n)
    (hn : isCall n = true) :
    List.Forall₂ (fun b m ↦ Names site all x b s m) ((naming site x).parts a n n) n.children := by
  have hnone : List.Forall₂ (fun target _ ↦ target = none) (targets site x n) n.children := by
    cases n
    case apply => exact List.forall₂_map_left_iff.2 (forall₂_map_const fun _ _ ↦ rfl)
    all_goals simp [isCall] at hn
  refine forall₂_zipWith_placed hnone fun p hp hm target _ htarget ↦ ?_
  subst htarget
  have hsub : census site p.2 p.1 ⊆ census site n a.1 :=
    ((census_sublist_of_mem hp).trans (placed_sublist_census n a.1)).subset
  refine ⟨h.known.part hp, h.clear.part hm, fun q hq ↦ h.inside (hsub hq),
    fun hthreads ↦ h.threading (Bool.and_eq_true_iff.1 hthreads).1, fun hrole hrefers ↦ ?_,
    fun hrole ↦ h.meant (ne_foreign_of_mem_placed hp hrole)⟩
  exact h.fits (ne_foreign_of_mem_placed hp hrole) (refers_of_part hm hrefers)

theorem bodyRole_eq_free {role : Role} {f : Func} (h : bodyRole role f ≠ .foreign) :
    bodyRole role f = .free := by
  unfold bodyRole at h ⊢
  split at h <;> simp_all

theorem heldBy_enclosures {names : RuntimeNames} (hnames : names.IsTame) {stmts enclosed : List Stmt}
    (h : Condition.Enclosures names stmts enclosed) :
    enclosed.flatMap (heldBy site x) = stmts.flatMap (heldBy site x) := by
  have hcall {arm : List Stmt} {call : Stmt}
      (hcalls : Glue.closureCall names.conditionScope arm = .ok call) : heldBy site x call = [] := by
    obtain ⟨span, inner, optional, isPure, place, rfl⟩ := hnames.call_eq (.inl rfl) hcalls
    rfl
  induction h with
  | nil => rfl
  | kept rest ih => rw [List.flatMap_cons, List.flatMap_cons, ih]
  | block inside rest _ ih =>
    rw [List.flatMap_cons, List.flatMap_cons, ih]
    rfl
  | chain safe branches calls rest ih =>
    rw [List.flatMap_cons, List.flatMap_cons, ih, hcall calls]
    rfl
  | switch safe branches calls rest ih =>
    rw [List.flatMap_cons, List.flatMap_cons, ih, hcall calls]
    rfl

section

variable {span : Span} {head : FuncHead} {typeParams : List Node} {this : Option Node}
  {params params' : List Param} {result : Option Ty} {body : Node}

theorem census_bodyRole_subset {all : List (Role × Func)} {role : Role} {m : Node} {f : Func}
    (inside : role ≠ .foreign → census site body .free ⊆ all) (hm : bodyRole role f ≠ .foreign →
      List.Sublist (census site m .free) (census site body .free)) :
    census site m (bodyRole role f) ⊆ all := by
  by_cases hrole : bodyRole role f = .foreign
  · rw [hrole, census_foreign]
    exact List.nil_subset _
  · rw [bodyRole_eq_free hrole]
    exact fun p hp ↦ inside (ne_foreign_of_bodyRole hrole) ((hm hrole).subset hp)

theorem census_bodyPart_subset {all : List (Role × Func)} {role : Role} {m : Node}
    (inside : role ≠ .foreign → census site body .free ⊆ all) (hm : m ∈ body.children) :
    census site m (bodyRole role (.func span head typeParams this params result body)) ⊆ all := by
  refine census_bodyRole_subset inside fun hrole ↦ ?_
  have hbody : census site body .free = censusAll site body.children := by
    cases body
    case code => exact census_of_children rfl rfl
    case concise => exact census_of_children rfl rfl
    all_goals exact absurd rfl hrole
  rw [hbody]
  exact censusAll_sublist_of_mem hm

theorem census_enclosed_subset {names : RuntimeNames} {all : List (Role × Func)} {role : Role} {m : Node}
    {inner : Span} {directives : List String} {stmts enclosed : List Stmt}
    (inside : role ≠ .foreign → census site body .free ⊆ all)
    (hparts : bodyParts body = (inner, directives, stmts))
    (hencloses : Condition.Enclosures names stmts enclosed) (hm : m ∈ enclosed) :
    census site m (bodyRole role (.func span head typeParams this params result body)) ⊆ all := by
  refine census_bodyRole_subset inside fun _ ↦ ?_
  rw [← census_bodyParts hparts, ← census_enclosures hencloses]
  exact censusAll_sublist_of_mem hm

theorem fits_openMemo {sig : Signature} {stmts : List Stmt} {target : Option (Option (Role × Func))}
    (hclear : Clear x (.func span head typeParams this params result body))
    (hparams : sig.parameters = tableOf site (.func span head typeParams this params result body))
    (hreshapes : ReshapesAll site.options.runtime sig.parameters.memoIndices 0 params params')
    (hstmts : ∀ stmt ∈ stmts, unhoisted x stmt = false ∧ Clear x stmt)
    (hlist : lexicals x stmts = lexicals x (codeStmts body))
    (hheld : stmts.flatMap (heldBy site x) = (codeStmts body).flatMap (heldBy site x))
    (houter : Fits site (s.scopes.lookup x) target) :
    Fits site ((s.openMemo site sig params' stmts).scopes.lookup x)
      ((bodyTarget site x (.func span head typeParams this params result body)).or target) := by
  let f := Node.func span head typeParams this params result body
  have hnames := mem_paramNames_iff (x := x) site.annotations
    (if head.form = .arrow then some span.start else none) 0 0 params
  have htable : (tableOf site f).bindings = ParameterTable.bindingsFrom site.annotations
    (if head.form = .arrow then some span.start else none) 0 0 params := rfl
  rw [← htable] at hnames
  have hbody : bodyDeclarations x (codeStmts body) = lexicals x (codeStmts body) :=
    bodyDeclarations_of_clear (clear_codeStmts (hclear.part (by simp [Node.children])))
  have hholder : holder site x stmts = holder site x (codeStmts body) := by
    unfold holder
    rw [bodyDeclarations_of_clear fun stmt hstmt ↦ (hstmts stmt hstmt).2, hbody, hlist, hheld]
  have hlisted : Fits site (listed site x stmts)
      (declaredBy site x (bodyDeclarations x (codeStmts body)) (codeStmts body)) := by
    have hfits : Fits site (listed site x stmts) (declaredBy site x (lexicals x stmts) stmts) :=
      fits_declaredBy fun stmt hstmt ↦ (hstmts stmt hstmt).1
    rw [declaredBy, hholder, hlist] at hfits
    rw [hbody]
    exact hfits
  have hhead : Fits site ((if x ∈ params.flatMap patternNames then some Binding.ordinary else none).or
      (((tableOf site f).bindings.reverse.find? (·.name = some x)).map fun b ↦
        .parameter b.memoTyped (sig.mode == .memo && b.slot.isSome))) (declaredSomehow (headScope x f)) := by
    refine fits_declaredSomehow ?_
    rw [Bool.eq_iff_iff, Bool.not_eq_true', List.isEmpty_eq_false_iff, Ne, headScope_eq_nil_iff hclear,
      not_not, hnames, Option.isSome_or, Bool.or_eq_true_iff, Option.isSome_map, List.find?_isSome]
    simp
  have hrest := hhead.or houter
  rw [Option.or_assoc] at hrest
  rw [lookup_openMemo, patternNames_reshapesAll hreshapes, hparams, bodyTarget, Option.or_assoc]
  exact hlisted.or hrest

theorem opens_naming (hnames : site.options.runtime.IsTame) (hx : ¬site.options.runtime.encloses x)
    {all : List (Role × Func)} {a : Role × Naming} {sig : Signature}
    (known : Known site s a.1 (.func span head typeParams this params result body))
    (clear : Clear x (.func span head typeParams this params result body))
    (inside : a.1 ≠ .foreign → census site body .free ⊆ all)
    (fits : a.1 ≠ .foreign → refers x (.func span head typeParams this params result body) = true →
      Fits site (s.scopes.lookup x) a.2.target)
    (meant : a.1 ≠ .foreign → ∀ p, a.2.target = some (some p) → p ∈ all)
    (hparams : a.1 ≠ .foreign →
      sig.parameters = tableOf site (.func span head typeParams this params result body))
    (hreshapes : ReshapesAll site.options.runtime sig.parameters.memoIndices 0 params params') :
    Opens site (naming site x) (Names site all x) a s sig
      (.func span head typeParams this params result body) params' body := by
  let f := Node.func span head typeParams this params result body
  have hmeant (hrole : bodyRole a.1 f ≠ .foreign) (p : Role × Func)
      (hp : (bodyTarget site x f).or a.2.target = some (some p)) : p ∈ all := by
    obtain hp | ⟨-, hp⟩ := Option.or_eq_some_iff.1 hp
    · exact inside (ne_foreign_of_bodyRole hrole) (mem_census_of_bodyTarget hp)
    · exact meant (ne_foreign_of_bodyRole hrole) p hp
  constructor
  case bare =>
    intro notMemo m hm
    have hbody : Clear x body := clear.part (by simp [Node.children])
    refine ⟨known.of_bodyPart rfl hm, hbody.part hm, census_bodyPart_subset inside hm, fun _ ↦ rfl,
      fun hrole hrefers ↦ ?_, hmeant⟩
    have hrole := ne_foreign_of_bodyRole hrole
    exact fits_openMemo clear (hparams hrole) hreshapes
      (fun stmt hstmt ↦ ⟨unhoisted_codeStmts hbody stmt hstmt, clear_codeStmts hbody stmt hstmt⟩) rfl rfl
      (fits hrole (refers_of_part (by simp [Node.children]) (refers_of_part hm hrefers)))
  case wrapped =>
    intro memo inner directives stmts enclosed count hparts hencloses m hm
    have hencloses := enclosures_of_encloses hencloses
    have hclear := clear_enclosed hnames clear hparts hencloses
    refine ⟨known.of_enclosed rfl hparts hencloses hm, (hclear m hm).2,
      census_enclosed_subset inside hparts hencloses hm, fun _ ↦ rfl, fun hrole hrefers ↦ ?_, hmeant⟩
    have hlist : lexicals x enclosed = lexicals x (codeStmts body) :=
      (Condition.lexicals_enclosures hnames hencloses).trans (lexicals_codeStmts hparts hrole)
    have hheld : enclosed.flatMap (heldBy site x) = (codeStmts body).flatMap (heldBy site x) := by
      rw [heldBy_enclosures hnames hencloses]
      cases body
      case code =>
        obtain ⟨-, -, rfl⟩ := hparts
        rfl
      case concise =>
        obtain ⟨-, -, rfl⟩ := hparts
        rfl
      all_goals exact absurd rfl hrole
    have hrole := ne_foreign_of_bodyRole hrole
    exact fits_openMemo clear (hparams hrole) hreshapes hclear hlist hheld
      (fits hrole (refers_of_enclosed hnames hx hparts hencloses hm hrefers))

end

theorem inherits_naming (hnames : site.options.runtime.IsTame) (hx : ¬site.options.runtime.encloses x)
    (hnone : site.graph.nodeAt? .none = none) (all : List (Role × Func)) :
    Inherits site (naming site x) (Names site all x) (KeepsFor site x) where
  kept h hs := h.keeps hs
  enters h henters := h.enters hnames henters
  call h hn := h.call hn
  function h _ hsigned reshapes := by
    have hs := h.keeps (keepsFor_of_signs hsigned)
    exact opens_naming hnames hx hs.known hs.clear
      (fun hrole p hp ↦ h.inside ((census_body_sublist hrole).subset hp)) hs.fits hs.meant
      (fun hrole ↦ h.known.parameters_eq hnone hrole hsigned) reshapes
  signed h hsigned := h.known.warranted hsigned
  builder _ := warranted_asArgument site _ _
  argument h reshapes :=
    opens_naming hnames hx h.known.asArgument h.clear
      (fun hrole p hp ↦ h.inside
        ((census_body_sublist (ne_foreign_of_asArgument hrole)).subset hp))
      (fun hrole ↦ h.fits (ne_foreign_of_asArgument hrole))
      (fun hrole ↦ h.meant (ne_foreign_of_asArgument hrole)) (fun _ ↦ rfl) reshapes

end Recompose.Weave
