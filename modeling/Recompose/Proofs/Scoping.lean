import Recompose.Hazard
import Recompose.Proofs.Traverse

namespace Recompose.Scoping

open Script

def declarators (x : String) (items : List Node) : List Span :=
  items.flatMap fun
    | .declarator span target _ _ _ => if x ∈ target.boundNames then [span] else []
    | _ => []

/-- The declarations of a name that a statement makes for the list in which it stands. -/
def lexical (x : String) : Stmt → List Span
  | .vars _ kind _ items => if kind = .hoisted then [] else declarators x items
  | .func span head _ _ _ _ _ => if head.name = some x then [span] else []
  | .cls span head _ _ _ _ _ _ => if head.name = some x then [span] else []
  | .enumDecl span _ _ name _ => if name = x then [span] else []
  | .moduleDecl span _ (.path _ (name :: _)) _ => if name = x then [span] else []
  | .importDecl span clause =>
    if x ∈ (clause.items.getD []).map ImportItem.local then [span] else []
  | .importEquals span _ name _ => if name = x then [span] else []
  | .labelled _ _ body => lexical x body
  | .exportDecl _ decl => lexical x decl
  | .exportDefault _ decl => lexical x decl
  | _ => []

def lexicals (x : String) (stmts : List Stmt) : List Span :=
  stmts.flatMap (lexical x)

/-- The `var` declarations of a name that a statement makes for the function around it. -/
def hoisted (x : String) (stmt : Stmt) : List Span :=
  stmt.fold fun n parts ↦
    match n with
    | .vars _ .hoisted _ items => declarators x items
    | .ifStmt _ _ _ _ => parts.tail.flatten
    | .switchStmt _ _ _ => parts.tail.flatten
    | .clause _ test _ => (parts.drop test.toList.length).flatten
    | .block _ _ => parts.flatten
    | .forStmt _ _ _ _ _ => parts.flatten
    | .forEach _ _ _ _ _ => parts.flatten
    | .whileStmt _ _ _ => parts.flatten
    | .doWhile _ _ _ => parts.flatten
    | .labelled _ _ _ => parts.flatten
    | .tryStmt _ _ _ _ => parts.flatten
    | .handler _ _ _ _ => parts.flatten
    | .withStmt _ _ _ => parts.flatten
    | .exportDecl _ _ => parts.flatten
    | _ => []

def hoistedAll (x : String) (stmts : List Stmt) : List Span :=
  stmts.flatMap (hoisted x)

def bodyDeclarations (x : String) (stmts : List Stmt) : List Span :=
  lexicals x stmts ++ hoistedAll x stmts

def clauseStmts : Node → List Stmt
  | .clause _ _ stmts => stmts
  | _ => []

def parameters (x : String) (params : List Param) : List Span :=
  params.flatMap fun
    | .param span _ _ _ target _ _ => if x ∈ target.boundNames then [span] else []
    | _ => []

def enumMembers (x : String) (members : List Node) : List Span :=
  members.flatMap fun
    | .enumMember span key _ => if key.keyText? = some x then [span] else []
    | _ => []

def within (outer inner : List Span) : List Span :=
  if inner.isEmpty then outer else inner

/-- The declarations of a name that a node puts in scope for each of its parts. -/
def opens (x : String) (n : Node) : List (List Span) :=
  match n with
  | .code _ _ stmts => stmts.map fun _ ↦ bodyDeclarations x stmts
  | .staticBlock _ stmts => stmts.map fun _ ↦ bodyDeclarations x stmts
  | .block _ stmts => stmts.map fun _ ↦ lexicals x stmts
  -- What is switched on stands outside.
  | .switchStmt _ _ clauses => [] :: clauses.map fun _ ↦ lexicals x (clauses.flatMap clauseStmts)
  -- An arm that is a declaration has a scope to itself.
  | .ifStmt _ _ yes no => [[], lexical x yes] ++ no.toList.map (lexical x)
  | .forStmt _ init _ _ _ => n.children.map fun _ ↦ lexicals x init.toList
  | .forEach _ _ left _ _ => n.children.map fun _ ↦ lexical x left
  | .handler span param _ _ =>
    n.children.map fun _ ↦ if x ∈ param.toList.flatMap Node.boundNames then [span] else []
  | .func span head _ _ params _ _ =>
    let own := if head.form = .expression ∧ head.name = some x then [span] else []
    n.children.map fun _ ↦ within own (parameters x params)
  | .cls span head decorators typeParams parent parentTypes implemented members =>
    let own := if head.name = some x then [span] else []
    decorators.map (fun _ ↦ []) ++
      (typeParams ++ parent.toList ++ parentTypes ++ implemented ++ members).map fun _ ↦ own
  | .enumDecl span _ _ name members =>
    members.map fun _ ↦ within (if name = x then [span] else []) (enumMembers x members)
  | n => n.children.map fun _ ↦ []

def referred : Node → List String
  | .ref _ name => [name]
  | .typeQuery _ path _ => path.take 1
  | .jsxElement _ name _ _ _ _ => Node.elementReference name
  | _ => []

/-- What each reference to a name means, in order, where the name means `outer` around the node. -/
def resolutions (x : String) (n : Node) : List Span → List (List Span) :=
  n.fold fun n parts outer ↦
    (if x ∈ referred n then [outer] else []) ++
      (List.zipWith (fun part inner ↦ part (within outer inner)) parts (opens x n)).flatten

def resolutionsAll (x : String) (nodes : List Node) (outer : List Span) : List (List Span) :=
  nodes.flatMap fun n ↦ resolutions x n outer

variable {x : String} {outer : List Span}

@[simp] theorem within_nil : within outer [] = outer := rfl

theorem resolutions_eq (x : String) (n : Node) (outer : List Span) :
    resolutions x n outer = (if x ∈ referred n then [outer] else []) ++
      (List.zipWith (fun m inner ↦ resolutions x m (within outer inner)) n.children
        (opens x n)).flatten := by
  unfold resolutions
  rw [Node.fold_eq, List.zipWith_map_left]

theorem resolutions_of_opens {n : Node} (inner : List Span)
    (h : opens x n = n.children.map fun _ ↦ inner) :
    resolutions x n outer = (if x ∈ referred n then [outer] else []) ++
      resolutionsAll x n.children (within outer inner) := by
  rw [resolutions_eq, h, List.zipWith_map_right, List.zipWith_self, resolutionsAll,
    List.flatMap_def]

theorem mem_references_of_referred {n : Node} (h : x ∈ referred n) : x ∈ n.references := by
  unfold Node.references
  rw [Node.gather_eq]
  refine List.mem_append_left _ ?_
  unfold referred at h
  split at h
  · exact h
  · exact h
  · exact h
  · simp at h

theorem mem_references_of_part {m n : Node} (hm : m ∈ n.children) (h : x ∈ m.references) :
    x ∈ n.references := by
  unfold Node.references at h ⊢
  rw [Node.gather_eq]
  exact List.mem_append_right _ (List.mem_flatMap.2 ⟨m, hm, h⟩)

theorem resolutions_eq_nil {n : Node} (h : x ∉ n.references) : resolutions x n outer = [] := by
  induction n using Node.induction_on_parts generalizing outer with
  | step n ih =>
    have hown : x ∉ referred n := fun hx ↦ h (mem_references_of_referred hx)
    rw [resolutions_eq, if_neg hown, List.nil_append, List.flatten_eq_nil_iff]
    intro found hfound
    obtain ⟨i, hi, rfl⟩ := List.mem_iff_getElem.1 hfound
    rw [List.length_zipWith] at hi
    rw [List.getElem_zipWith]
    have hm := List.getElem_mem (show i < n.children.length by omega)
    exact ih _ hm fun hx ↦ h (mem_references_of_part hm hx)

theorem resolutionsAll_eq_nil {nodes : List Node} (h : x ∉ nodes.flatMap Node.references) :
    resolutionsAll x nodes outer = [] :=
  List.flatMap_eq_nil_iff.2 fun _ hm ↦
    resolutions_eq_nil fun hx ↦ h (List.mem_flatMap.2 ⟨_, hm, hx⟩)

end Recompose.Scoping
