import Mathlib
import Recompose.Proofs.Weave.Throughout

namespace Recompose.Weave

open Script

/-- What a place says of a function that stands there. -/
inductive Role where
  /-- Code that names of the runtime bring with them. Nothing is said of it. -/
  | foreign
  | free
  | held (mode : MemoMode)
  | argument
deriving DecidableEq, Repr

/-- The role of the value of a declaration with these markers. -/
def Role.ofMarkers (m : Markers) : Role :=
  match MemoMode.ofMarkers? m with
  | some mode => .held mode
  | none => .free

/-- The annotation of a marked declaration may get generated parameters. -/
def Role.ofType : Role → Role
  | .free => .free
  | _ => .foreign

/-- The role of a closure that a threaded call makes a memo function. -/
def Role.asArgument (role : Role) : Role :=
  if role = .foreign then .foreign else .argument

/-- The closure that a generated call runs has no place in the text. -/
def isGenerated : Node → Bool
  | .func span _ _ _ _ _ _ => span = .none
  | _ => false

def valueRole (site : Site) (role : Role) : Node → Role
  | .declarator _ _ _ _ _ => role
  | .vars span _ _ _ => .ofMarkers (site.annotations.markers span.start)
  | .method span _ _ decorators _ _ => .ofMarkers (memberMarkers site span decorators)
  | .field span _ _ decorators _ _ _ => .ofMarkers (memberMarkers site span decorators)
  | _ => .free

/-- The parts of a node with their roles. The first node is the second as the file has it. -/
def placed (site : Site) (role : Role) (n n₁ : Node) : List (Role × Node) :=
  let value := valueRole site role n
  if role = .foreign then n₁.children.map (.foreign, ·)
  else
    match n₁ with
    | .apply _ _ callee types (arg :: args) =>
      if isGenerated arg then
        (.foreign, callee) :: (types.map (.foreign, ·) ++ (.free, arg) :: args.map (.foreign, ·))
      else (callee :: (types ++ arg :: args)).map (.free, ·)
    | .func span _ typeParams this params result body =>
      (typeParams ++ this.toList ++ params ++ result.toList).map
        (if span = .none then Role.foreign else .free, ·) ++ [(.free, body)]
    | .vars _ _ _ items => items.map (value, ·)
    | .declarator _ target _ type init =>
      (.free, target) :: (type.toList.map (value.ofType, ·) ++ init.toList.map (value, ·))
    | .method _ _ _ decorators key f => decorators.map (.free, ·) ++ [(.free, key), (value, f)]
    | .field _ false _ decorators key type init =>
      decorators.map (.free, ·) ++
        (.free, key) :: (type.toList.map (value.ofType, ·) ++ init.toList.map (value, ·))
    | n₁ => n₁.children.map (.free, ·)

theorem map_snd_placed (site : Site) (role : Role) (n n₁ : Node) :
    (placed site role n n₁).map Prod.snd = n₁.children := by
  unfold placed
  dsimp only
  split
  · simp
  · split
    · split <;> simp [Node.children]
    · simp [Node.children]
    · simp [Node.children]
    · simp [Node.children]
    · simp [Node.children]
    · simp [Node.children]
    · simp

theorem placed_foreign (site : Site) (n n₁ : Node) :
    placed site .foreign n n₁ = n₁.children.map (.foreign, ·) := by
  unfold placed
  exact if_pos rfl

def ownEntry (role : Role) : Node → List (Role × Func)
  | .func span head typeParams this params result body =>
    if role = .foreign ∨ span = .none then []
    else [(role, .func span head typeParams this params result body)]
  | _ => []

def census (site : Site) (n : Node) : Role → List (Role × Func) :=
  n.fold fun n parts role ↦ ownEntry role n ++
    (List.zipWith (fun part p ↦ part p.1) parts (placed site role n n)).flatten

variable {site : Site} {s s' : State} {role : Role}

theorem census_eq (n : Node) (role : Role) :
    census site n role =
      ownEntry role n ++ (placed site role n n).flatMap fun p ↦ census site p.2 p.1 := by
  unfold census
  rw [Node.fold_eq, ← map_snd_placed site role n n, List.map_map, List.zipWith_map_left,
    List.zipWith_self, List.flatMap_def]
  rfl

@[simp]
theorem census_foreign (n : Node) : census site n .foreign = [] := by
  induction n using Node.induction_on_parts with
  | step n ih =>
    have hown : ownEntry .foreign n = [] := by
      unfold ownEntry
      split <;> simp
    rw [census_eq, hown, placed_foreign, List.nil_append, List.flatMap_eq_nil_iff]
    intro p hp
    obtain ⟨m, hm, rfl⟩ := List.mem_map.1 hp
    exact ih m hm

def censusAll (site : Site) (nodes : List Node) : List (Role × Func) :=
  nodes.flatMap (census site · .free)

theorem flatMap_placed_free (nodes : List Node) :
    (nodes.map (Role.free, ·)).flatMap (fun p ↦ census site p.2 p.1) = censusAll site nodes := by
  simp [censusAll, List.flatMap_map]

theorem flatMap_placed_foreign (nodes : List Node) :
    (nodes.map (Role.foreign, ·)).flatMap (fun p ↦ census site p.2 p.1) = [] := by
  simp [List.flatMap_map]

def functionSpans (n : Node) : List Span :=
  n.gather (fun (_ : Unit) n ↦ (some (), match n with
    | .func span _ _ _ _ _ _ => [span]
    | _ => [])) ()

def fieldSpans (n : Node) : List Span :=
  n.gather (fun (_ : Unit) n ↦ (some (), match n with
    | .field span _ _ _ _ _ _ => [span]
    | _ => [])) ()

/-- Functions and fields are told apart by their spans, and each has a place in the text. -/
def ToldApart (stmts : List Stmt) : Prop :=
  (Span.none :: (stmts.flatMap functionSpans ++ stmts.flatMap fieldSpans)).Nodup

theorem functionSpans_eq (n : Node) :
    functionSpans n = (match n with
      | .func span _ _ _ _ _ _ => [span]
      | _ => []) ++ n.children.flatMap functionSpans := by
  unfold functionSpans
  rw [Node.gather_eq]

theorem mem_functionSpans_of_part {m n : Node} {span : Span} (hm : m ∈ n.children)
    (h : span ∈ functionSpans m) : span ∈ functionSpans n := by
  rw [functionSpans_eq]
  exact List.mem_append_right _ (List.mem_flatMap.2 ⟨m, hm, h⟩)

theorem mem_functionSpans_self {span : Span} {head : FuncHead} {typeParams : List Node}
    {this : Option Node} {params : List Param} {result : Option Ty} {body : Node} :
    span ∈ functionSpans (.func span head typeParams this params result body) := by
  rw [functionSpans_eq]
  exact List.mem_append_left _ List.mem_cons_self

theorem fieldSpans_eq (n : Node) :
    fieldSpans n = (match n with
      | .field span _ _ _ _ _ _ => [span]
      | _ => []) ++ n.children.flatMap fieldSpans := by
  unfold fieldSpans
  rw [Node.gather_eq]

def spanOf (p : Role × Func) : Span :=
  p.2.span

theorem census_spans_sublist (n : Node) (role : Role) :
    List.Sublist ((census site n role).map spanOf) (functionSpans n) := by
  induction n using Node.induction_on_parts generalizing role with
  | step n ih =>
    rw [census_eq, functionSpans_eq, List.map_append, List.map_flatMap]
    refine List.Sublist.append ?_ ?_
    · unfold ownEntry
      split
      · split
        · simp
        · exact List.Sublist.refl _
      · simp
    · rw [← map_snd_placed site role n n, List.flatMap_map]
      refine List.Sublist.flatMap_right _ fun p hp ↦ ih p.2 ?_ p.1
      rw [← map_snd_placed site role n n]
      exact List.mem_map_of_mem hp

theorem census_of_children {n : Node} (hown : ownEntry .free n = [])
    (hplaced : placed site .free n n = n.children.map (.free, ·)) :
    census site n .free = censusAll site n.children := by
  rw [census_eq, hown, hplaced, List.nil_append, flatMap_placed_free]

theorem censusAll_append (xs ys : List Node) :
    censusAll site (xs ++ ys) = censusAll site xs ++ censusAll site ys :=
  List.flatMap_append

theorem censusAll_cons (n : Node) (ns : List Node) :
    censusAll site (n :: ns) = census site n .free ++ censusAll site ns :=
  rfl

@[simp]
theorem census_block (span : Span) (stmts : List Stmt) :
    census site (.block span stmts) .free = censusAll site stmts :=
  census_of_children rfl rfl

@[simp]
theorem census_code (span : Span) (directives : List String) (stmts : List Stmt) :
    census site (.code span directives stmts) .free = censusAll site stmts :=
  census_of_children rfl rfl

@[simp]
theorem census_exprStmt (span : Span) (value : Expr) :
    census site (.exprStmt span value) .free = census site value .free := by
  rw [census_of_children rfl rfl]
  exact List.append_nil _

theorem census_ifStmt (span : Span) (test yes : Node) (no : Option Node) :
    census site (.ifStmt span test yes no) .free =
      census site test .free ++ (census site yes .free ++ censusAll site no.toList) := by
  rw [census_of_children rfl rfl]
  rfl

theorem census_clause (span : Span) (test : Option Node) (stmts : List Stmt) :
    census site (.clause span test stmts) .free =
      censusAll site test.toList ++ censusAll site stmts := by
  rw [census_of_children rfl rfl]
  exact censusAll_append _ _

theorem census_closureCall {callee : String} {arm : List Stmt} {call : Stmt}
    (h : Glue.closureCall callee arm = .ok call) : census site call .free = censusAll site arm := by
  obtain ⟨span, inner, optional, isPure, f, types, head, tps, this, params, result, directives, args,
    rfl, -⟩ := Condition.shape_of_closureCall h
  have hclosure : census site (.func .none head tps this params result (.code .none directives arm))
      .free = censusAll site arm := by
    rw [census_eq]
    simp only [placed, ownEntry, reduceCtorEq, if_false, false_or, if_true, List.flatMap_append,
      flatMap_placed_foreign, List.flatMap_cons, List.flatMap_nil, List.append_nil, List.nil_append,
      census_code]
  rw [census_exprStmt, census_eq]
  simp only [placed, isGenerated, ownEntry, reduceCtorEq, if_false, decide_true, if_true,
    List.nil_append, List.flatMap_cons, List.flatMap_append, flatMap_placed_foreign, census_foreign,
    List.append_nil, hclosure]

theorem census_armStmts (arm : Stmt) :
    censusAll site (Condition.armStmts arm) = census site arm .free := by
  unfold Condition.armStmts
  split
  · exact (census_block _ _).symm
  · exact List.append_nil _

theorem census_branches {names : RuntimeNames} {arm arm' : Stmt}
    (h : Condition.Branches names arm arm') : census site arm' .free = census site arm .free := by
  cases h with
  | intro calls =>
    rw [Glue.block, census_block, censusAll_cons, census_closureCall calls, census_armStmts]
    exact List.append_nil _

theorem census_branchesArms {names : RuntimeNames} {chain chain' : Stmt}
    (h : Condition.BranchesArms names chain chain') :
    census site chain' .free = census site chain .free := by
  induction h with
  | only branches => rw [census_ifStmt, census_ifStmt, census_branches branches]
  | other branches rest ih =>
    rw [census_ifStmt, census_ifStmt, census_branches branches]
    simp only [Option.toList_some, censusAll_cons, ih]
  | last noChain branches => exact census_branches branches

theorem census_branchesClause {names : RuntimeNames} {clause clause' : Node}
    (h : Condition.BranchesClause names clause clause') :
    census site clause' .free = census site clause .free := by
  cases h with
  | kept empty => rfl
  | @arm span test stmts call nonempty calls =>
    rw [census_clause, census_clause, censusAll_cons, census_closureCall calls, ← censusAll_append,
      Condition.splitCase_append]

theorem census_clauses {names : RuntimeNames} {clauses clauses' : List Node}
    (h : List.Forall₂ (Condition.BranchesClause names) clauses clauses') :
    censusAll site clauses' = censusAll site clauses := by
  induction h with
  | nil => rfl
  | cons head _ ih => rw [censusAll_cons, censusAll_cons, census_branchesClause head, ih]

theorem census_enclosures {names : RuntimeNames} {stmts enclosed : List Stmt}
    (h : Condition.Enclosures names stmts enclosed) :
    censusAll site enclosed = censusAll site stmts := by
  induction h with
  | nil => rfl
  | kept rest ih => rw [censusAll_cons, censusAll_cons, ih]
  | block inside rest ihinside ih =>
    rw [censusAll_cons, censusAll_cons, census_block, census_block, ih, ihinside]
  | chain safe branches calls rest ih =>
    rw [censusAll_cons, censusAll_cons, census_closureCall calls, censusAll_cons,
      census_branchesArms branches, ih]
    simp [censusAll]
  | @switch span subject call clauses clauses' stmts stmts' safe branches calls rest ih =>
    have hswitch (clauses : List Node) : census site (.switchStmt span subject clauses) .free =
        census site subject .free ++ censusAll site clauses := census_of_children rfl rfl
    rw [censusAll_cons, censusAll_cons, census_closureCall calls, censusAll_cons, hswitch, hswitch,
      census_clauses branches, ih]
    simp [censusAll]

theorem census_bodyParts {body : Node} {inner : Span} {directives : List String} {stmts : List Stmt}
    (h : bodyParts body = (inner, directives, stmts)) :
    censusAll site stmts = census site body .free := by
  unfold bodyParts at h
  split at h
  · obtain ⟨-, -, rfl⟩ : _ ∧ _ ∧ _ := by simpa using h
    exact (census_code _ _ _).symm
  · obtain ⟨-, -, rfl⟩ : _ ∧ _ ∧ _ := by simpa using h
    rw [census_of_children (n := .concise _) rfl rfl, censusAll_cons, Glue.returnOf,
      census_of_children rfl rfl]
    exact List.append_nil _
  · obtain ⟨-, -, rfl⟩ : _ ∧ _ ∧ _ := by simpa using h
    exact List.append_nil _

end Recompose.Weave
