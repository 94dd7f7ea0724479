import Recompose.Proofs.Declarations

namespace Recompose.Weave

open Script

theorem eq_of_mem_ownPlace {ns : List Node} (hnodup : (ns.flatMap ownPlace).Nodup) {m m' : Node}
    (hm : m ∈ ns) (hm' : m' ∈ ns) {span : Span} (h : span ∈ ownPlace m) (h' : span ∈ ownPlace m') :
    m = m' := by
  have : Std.Symm (Function.onFun List.Disjoint ownPlace) := ⟨fun _ _ hdisjoint ↦ hdisjoint.symm⟩
  by_contra hne
  exact (List.nodup_flatMap.1 hnodup).2.forall hm hm' hne h h'

theorem mem_nodes_of_mem_census {site : Site} {n : Node} {role : Role} {p : Role × Func}
    (h : p ∈ census site n role) : p.2 ∈ n.nodes ∧ spanOf p ∈ ownPlace p.2 := by
  induction n using Node.induction_on_parts generalizing role with
  | step n ih =>
    rw [census_eq] at h
    obtain h | h := List.mem_append.1 h
    · unfold ownEntry at h
      split at h
      · split at h
        · simp at h
        · obtain rfl := List.mem_singleton.1 h
          exact ⟨Node.mem_nodes_self _, List.mem_singleton_self _⟩
      · simp at h
    · obtain ⟨q, hq, h⟩ := List.mem_flatMap.1 h
      have hpart : q.2 ∈ n.children := by
        rw [← map_snd_placed site role n n]
        exact List.mem_map_of_mem hq
      exact (ih q.2 hpart h).imp_left (Node.mem_nodes_of_part hpart)

theorem mem_functionSpans_of_mem_nodes {n : Node} {span : Span} {head : FuncHead}
    {typeParams : List Node} {this : Option Node} {params : List Param} {result : Option Ty}
    {body : Node} (h : .func span head typeParams this params result body ∈ n.nodes) :
    span ∈ functionSpans n := by
  induction n using Node.induction_on_parts with
  | step n ih =>
    obtain rfl | ⟨m, hm, h⟩ := Node.mem_nodes_iff.1 h
    · exact mem_functionSpans_self
    · exact mem_functionSpans_of_part hm (ih m hm h)

theorem parameters_of_nodeAt? {source : String} {jsx : Bool} {o : Options} {parsed : Parsed}
    (hparsed : parse? source jsx = some parsed) {span : Span} {head : FuncHead} {typeParams : List Node}
    {this : Option Node} {params : List Param} {result : Option Ty} {body : Node}
    (hf : .func span head typeParams this params result body ∈
      parsed.program.body.flatMap Node.nodes) {d : MemoDeclaration}
    (hd : (siteOf source o parsed).graph.nodeAt? span = some d) :
    d.parameters = tableOf (siteOf source o parsed)
      (.func span head typeParams this params result body) := by
  let site := siteOf source o parsed
  obtain ⟨hnone, hnodup⟩ := List.nodup_cons.1 (toldApart_of_parse? hparsed)
  have hspan : d.span = span := by simpa using List.find?_some hd
  have hmem : span ∈ parsed.program.body.flatMap functionSpans := by
    obtain ⟨stmt, hstmt, hf⟩ := List.mem_flatMap.1 hf
    exact List.mem_flatMap.2 ⟨stmt, hstmt, mem_functionSpans_of_mem_nodes hf⟩
  obtain ⟨stmt, hstmt, hd⟩ := List.mem_flatMap.1 (List.mem_reverse.1 (List.mem_of_find?_eq_some hd))
  obtain hfield | ⟨-, hfunction⟩ :=
    recorded_of_declared (c := ⟨o.filePath, site.annotations, site.identity⟩)
      (show _ = site.annotations from rfl) hd
  · refine absurd rfl ((List.nodup_append.1 hnodup).2.2 _ hmem _ (List.mem_flatMap.2 ⟨stmt, hstmt, ?_⟩))
    exact hspan ▸ hfield
  · have hsome : d.span ≠ .none := fun h ↦ hnone (List.mem_append_left _ (h ▸ hspan ▸ hmem))
    obtain ⟨p, hp, hpspan, hdeclares⟩ := hfunction hsome
    obtain ⟨hnodes, hplace⟩ := mem_nodes_of_mem_census hp
    rw [hdeclares.parameters]
    refine congrArg _ (eq_of_mem_ownPlace (nodup_ownPlace hparsed)
      (List.mem_flatMap.2 ⟨stmt, hstmt, hnodes⟩) hf hplace ?_)
    rw [hpspan, hspan]
    exact List.mem_singleton_self _

end Recompose.Weave
