import Recompose.Script.Traverse

namespace Recompose.Script.Node

variable {α β ε : Type}

theorem foldAll_eq (alg : Node → List β → β) (nodes : List Node) :
    foldAll alg nodes = nodes.map (fold alg) := by
  induction nodes with
  | nil => rfl
  | cons node nodes ih => rw [foldAll, ih, List.map_cons]

theorem foldPart_eq (alg : Node → List β → β) (part : Option Node) :
    foldPart alg part = part.toList.map (fold alg) := by
  cases part <;> rfl

theorem fold_eq (alg : Node → List β → β) (node : Node) :
    fold alg node = alg node (node.children.map (fold alg)) := by
  rw [fold.eq_def]
  cases node
  case ascribe => simp only [children]; split <;> rfl
  all_goals
    simp only [children, foldAll_eq, foldPart_eq, List.map_append, List.map_cons, List.map_nil,
      List.append_assoc]

theorem gather_eq (enter : ε → Node → Option ε × List α) (context : ε) (node : Node) :
    gather enter context node = (enter context node).2 ++
      match (enter context node).1 with
      | some inner => node.children.flatMap (gather enter inner)
      | none => [] := by
  unfold gather
  rw [fold_eq]
  rcases enter context node with ⟨_ | inner, found⟩
  · simp
  · simp only [List.flatMap_map]

theorem sizeOf_lt_of_mem_toList {part : Node} {parts : Option Node} (h : part ∈ parts.toList) :
    sizeOf part < sizeOf parts := by
  rw [Option.mem_toList] at h
  subst h
  simp

theorem sizeOf_lt_of_mem_children {part node : Node} (h : part ∈ node.children) :
    sizeOf part < sizeOf node := by
  cases node
  case ascribe span how value type =>
    simp only [children] at h
    split at h <;> simp only [List.mem_cons, List.not_mem_nil, or_false] at h <;>
      rcases h with rfl | rfl <;> simp +arith
  all_goals
    simp only [children, List.mem_append, List.mem_cons, List.not_mem_nil, or_false] at h <;>
      grind [→ List.sizeOf_lt_of_mem, → sizeOf_lt_of_mem_toList]

/-- What holds of a node whenever it holds of its parts holds of all nodes. -/
@[elab_as_elim]
theorem induction_on_parts {motive : Node → Prop} (node : Node)
    (step : ∀ node, (∀ part ∈ node.children, motive part) → motive node) : motive node :=
  step node fun part _ ↦ induction_on_parts part step
termination_by sizeOf node
decreasing_by exact sizeOf_lt_of_mem_children (by assumption)

end Recompose.Script.Node
