import Recompose.Proofs.Traverse

namespace Recompose.Script.Node

def nodes (n : Node) : List Node :=
  n.gather (fun (_ : Unit) n ↦ (some (), [n])) ()

theorem nodes_eq (n : Node) : n.nodes = n :: n.children.flatMap nodes := by
  unfold nodes
  rw [gather_eq]
  rfl

@[simp]
theorem mem_nodes_self (n : Node) : n ∈ n.nodes := by
  rw [nodes_eq]
  exact List.mem_cons_self

theorem mem_nodes_of_part {m n k : Node} (hm : m ∈ n.children) (hk : k ∈ m.nodes) : k ∈ n.nodes := by
  rw [nodes_eq]
  exact List.mem_cons_of_mem _ (List.mem_flatMap.2 ⟨m, hm, hk⟩)

theorem mem_nodes_iff {n k : Node} : k ∈ n.nodes ↔ k = n ∨ ∃ m ∈ n.children, k ∈ m.nodes := by
  rw [nodes_eq, List.mem_cons, List.mem_flatMap]

theorem mem_nodes_trans {k m n : Node} (hk : k ∈ m.nodes) (hm : m ∈ n.nodes) : k ∈ n.nodes := by
  induction n using induction_on_parts with
  | step n ih =>
    obtain rfl | ⟨part, hpart, hm⟩ := mem_nodes_iff.1 hm
    · exact hk
    · exact mem_nodes_of_part hpart (ih part hpart hm)

def Everywhere (P : Node → Prop) (n : Node) : Prop :=
  ∀ m ∈ n.nodes, P m

instance (P : Node → Prop) [DecidablePred P] : DecidablePred (Everywhere P) :=
  fun n ↦ inferInstanceAs (Decidable (∀ m ∈ n.nodes, P m))

variable {P Q : Node → Prop} {n : Node}

theorem everywhere_iff : Everywhere P n ↔ P n ∧ ∀ m ∈ n.children, Everywhere P m := by
  unfold Everywhere
  rw [nodes_eq, List.forall_mem_cons]
  simp only [List.mem_flatMap, forall_exists_index, and_imp]
  exact and_congr_right fun _ ↦ ⟨fun h m hm k hk ↦ h k m hm hk, fun h k m hm hk ↦ h m hm k hk⟩

theorem Everywhere.self (h : Everywhere P n) : P n :=
  h n n.mem_nodes_self

theorem Everywhere.part (h : Everywhere P n) {m : Node} (hm : m ∈ n.children) : Everywhere P m :=
  fun k hk ↦ h k (mem_nodes_of_part hm hk)

theorem Everywhere.of_mem (h : Everywhere P n) {m : Node} (hm : m ∈ n.nodes) : Everywhere P m :=
  fun k hk ↦ h k (mem_nodes_trans hk hm)

end Recompose.Script.Node
