import Mathlib.Data.List.Forall2
import Recompose.Proofs.Enclosure
import Recompose.Proofs.Scoping

namespace Recompose.Condition

open Script Scoping

variable {x : String} {outer : List Span}

structure Grows (x : String) (before after : List (List Span)) : Prop where
  sublist : before.Sublist after
  same : Execution.isCondition {} x = false → after = before

theorem Grows.refl (found : List (List Span)) : Grows x found found :=
  ⟨.refl _, fun _ ↦ rfl⟩

theorem Grows.append {before after before' after' : List (List Span)} (h : Grows x before after)
    (h' : Grows x before' after') : Grows x (before ++ before') (after ++ after') :=
  ⟨h.sublist.append h'.sublist, fun hx ↦ by rw [h.same hx, h'.same hx]⟩

theorem resolutions_closureCall {callee : String} (h : Execution.isCondition {} callee)
    {stmts : List Stmt} {call : Stmt} (hcall : Glue.closureCall callee stmts = .ok call) :
    resolutions x call outer = (if x = callee then [outer] else []) ++
      resolutionsAll x stmts (within outer (bodyDeclarations x stmts)) := by
  obtain ⟨span, inner, optional, isPure, place, rfl⟩ := exists_of_closureCall h hcall
  have hcode (outer : List Span) : resolutions x (.code .none [] stmts) outer =
      resolutionsAll x stmts (within outer (bodyDeclarations x stmts)) :=
    resolutions_of_opens _ rfl
  have hclosure : resolutions x (closure stmts) outer =
      resolutionsAll x stmts (within outer (bodyDeclarations x stmts)) := by
    rw [closure, resolutions_eq]
    simp [opens, Node.children, referred, parameters, hcode]
  simp [resolutions_eq x (.exprStmt _ _), resolutions_eq x (.apply _ _ _ _ _),
    resolutions_eq x (.ref _ _), opens, Node.children, referred, hclosure]

theorem Grows.call {callee : String} (h : Execution.isCondition {} callee) {stmts : List Stmt}
    {call : Stmt} (hcall : Glue.closureCall callee stmts = .ok call) {before : List (List Span)}
    (hbody : Grows x before (resolutionsAll x stmts (within outer (bodyDeclarations x stmts)))) :
    Grows x before (resolutions x call outer) := by
  rw [resolutions_closureCall h hcall]
  refine ⟨hbody.sublist.trans (List.sublist_append_right _ _), fun hx ↦ ?_⟩
  have hne : x ≠ callee := by
    rintro rfl
    simp [h] at hx
  rw [if_neg hne, List.nil_append, hbody.same hx]

theorem mem_hoisted {n : Node} {span : Span} (h : span ∈ hoisted x n) :
    (∃ place declared items, n = .vars place .hoisted declared items) ∨
      isSealed n = false ∧ ∃ m ∈ n.children, span ∈ hoisted x m := by
  have hparts {parts : List (List Span)} (hparts : parts.Sublist (n.children.map (hoisted x)))
      (hspan : span ∈ parts.flatten) : ∃ m ∈ n.children, span ∈ hoisted x m := by
    obtain ⟨found, hfound, hspan⟩ := List.mem_flatten.1 hspan
    obtain ⟨m, hm, rfl⟩ := List.mem_map.1 (hparts.subset hfound)
    exact ⟨m, hm, hspan⟩
  unfold hoisted at h
  rw [Node.fold_eq] at h
  split at h
  · exact .inl ⟨_, _, _, rfl⟩
  · exact .inr ⟨rfl, hparts (List.tail_sublist _) h⟩
  · exact .inr ⟨rfl, hparts (List.tail_sublist _) h⟩
  · exact .inr ⟨rfl, hparts (List.drop_sublist _ _) h⟩
  all_goals first
    | exact .inr ⟨rfl, hparts (.refl _) h⟩
    | simp at h

theorem hoisted_eq_nil {targets : JumpTargets} {n : Node} (h : hazards targets n = []) :
    hoisted x n = [] := by
  induction n using Node.induction_on_parts generalizing targets with
  | step n ih =>
    refine List.eq_nil_iff_forall_not_mem.2 fun span hspan ↦ ?_
    unfold hazards at h
    rw [Node.gather_eq] at h
    rcases mem_hoisted hspan with ⟨place, declared, items, rfl⟩ | ⟨hopen, m, hm, hspan⟩
    · simp [isSealed, ownHazards] at h
    · rw [hopen] at h
      obtain ⟨-, hparts⟩ := List.append_eq_nil_iff.1 h
      have hpart : hazards (targets.enter n) m = [] := List.flatMap_eq_nil_iff.1 hparts m hm
      rw [ih m hm hpart] at hspan
      exact List.not_mem_nil hspan

theorem hoistedAll_eq_nil {stmts : List Stmt} (h : armHazards stmts = []) : hoistedAll x stmts = [] :=
  List.flatMap_eq_nil_iff.2 fun _ hm ↦ hoisted_eq_nil (List.flatMap_eq_nil_iff.1 h _ hm)

theorem armHazards_armStmts {arm : Stmt} (h : armHazards [arm] = []) : armHazards (armStmts arm) = [] := by
  unfold armStmts
  split
  · next span stmts =>
    simp only [armHazards, List.flatMap_cons, List.flatMap_nil, List.append_nil] at h ⊢
    unfold hazards at h
    rw [Node.gather_eq] at h
    exact (List.append_eq_nil_iff.1 h).2
  · exact h

theorem hoisted_call {callee : String} (h : Execution.isCondition {} callee) {stmts : List Stmt}
    {call : Stmt} (hcall : Glue.closureCall callee stmts = .ok call) :
    lexical x call = [] ∧ hoisted x call = [] := by
  obtain ⟨span, inner, optional, isPure, place, rfl⟩ := exists_of_closureCall h hcall
  refine ⟨rfl, ?_⟩
  unfold hoisted
  rw [Node.fold_eq]

theorem resolutions_block (span : Span) (stmts : List Stmt) :
    resolutions x (.block span stmts) outer =
      resolutionsAll x stmts (within outer (lexicals x stmts)) :=
  resolutions_of_opens _ rfl

theorem resolutions_if (span : Span) (test yes : Node) (no : Option Node) :
    resolutions x (.ifStmt span test yes no) outer = resolutions x test outer ++
      resolutions x yes (within outer (lexical x yes)) ++
      no.toList.flatMap fun no ↦ resolutions x no (within outer (lexical x no)) := by
  rw [resolutions_eq]
  cases no <;> simp [opens, Node.children, referred]

theorem hoisted_if (span : Span) (test yes : Node) (no : Option Node) :
    hoisted x (.ifStmt span test yes no) = hoisted x yes ++ no.toList.flatMap (hoisted x) := by
  unfold hoisted
  rw [Node.fold_eq]
  cases no <;> simp [Node.children]

theorem resolutions_arm (arm : Stmt) : resolutions x arm (within outer (lexical x arm)) =
    resolutionsAll x (armStmts arm) (within outer (lexicals x (armStmts arm))) := by
  unfold armStmts
  split
  · exact resolutions_block _ _
  · simp [resolutionsAll, lexicals]

section

variable {arm arm' chain chain' : Stmt}

theorem grows_branches (h : Branches {} arm arm') (hsafe : armHazards [arm] = []) :
    Grows x (resolutions x arm (within outer (lexical x arm)))
      (resolutions x arm' (within outer (lexical x arm'))) := by
  cases h with
  | @intro call calls =>
    have hown := (hoisted_call (x := x) rfl calls).1
    have hbody : bodyDeclarations x (armStmts arm) = lexicals x (armStmts arm) := by
      rw [bodyDeclarations, hoistedAll_eq_nil (armHazards_armStmts hsafe), List.append_nil]
    have hblock : resolutions x (Glue.block [call]) outer = resolutions x call outer := by
      rw [Glue.block, resolutions_block]
      simp [resolutionsAll, lexicals, hown]
    rw [resolutions_arm]
    refine hblock ▸ Grows.call rfl calls ?_
    rw [hbody]
    exact .refl _

theorem hoisted_branches (h : Branches {} arm arm') : hoisted x arm' = [] := by
  cases h with
  | @intro call calls =>
    have hcall := (hoisted_call (x := x) rfl calls).2
    unfold hoisted at hcall ⊢
    rw [Glue.block, Node.fold_eq]
    simp [Node.children, hcall]

theorem grows_branchesArms (h : BranchesArms {} chain chain') (hsafe : chainHazards chain = []) :
    Grows x (resolutions x chain (within outer (lexical x chain)))
      (resolutions x chain' (within outer (lexical x chain'))) := by
  induction h with
  | only branches =>
    rw [chainHazards] at hsafe
    obtain ⟨hyes, -⟩ := List.append_eq_nil_iff.1 hsafe
    simp only [lexical, within_nil, resolutions_if]
    exact ((Grows.refl _).append (grows_branches branches hyes)).append (.refl _)
  | other branches rest ih =>
    rw [chainHazards] at hsafe
    obtain ⟨hyes, hno⟩ := List.append_eq_nil_iff.1 hsafe
    simp only [lexical, within_nil, resolutions_if, Option.toList_some, List.flatMap_cons,
      List.flatMap_nil, List.append_nil]
    exact ((Grows.refl _).append (grows_branches branches hyes)).append (ih hno)
  | @last arm arm' noChain branches =>
    refine grows_branches branches ?_
    rwa [chainHazards] at hsafe
    exact noChain

theorem hoisted_branchesArms (h : BranchesArms {} chain chain') : hoisted x chain' = [] := by
  induction h with
  | only branches => simp [hoisted_if, hoisted_branches branches]
  | other branches rest ih => simp [hoisted_if, hoisted_branches branches, ih]
  | last noChain branches => exact hoisted_branches branches

end

def caseTests : Node → List Node
  | .clause _ test _ => test.toList
  | part => [part]

def caseKept : Node → List Stmt
  | .clause _ _ stmts => (splitCase stmts).2
  | part => [part]

structure CasesApart (x : String) (clauses : List Node) : Prop where
  /-- Arms declare it in the ways that are looked for. -/
  known : ∀ clause ∈ clauses, ∀ stmt ∈ (splitClause clause).1, lexical x stmt ≠ [] →
    x ∈ (lexicalDeclarations stmt).map (·.1)
  /-- Only one part of the `switch` declares it. -/
  sole : ((clauses.flatMap fun clause ↦ [lexicals x (splitClause clause).1,
    lexicals x (splitClause clause).2]).filter (!·.isEmpty)).length ≤ 1
  /-- No test refers to what an arm declares. -/
  untested : (∃ clause ∈ clauses, lexicals x (splitClause clause).1 ≠ []) →
    ∀ clause ∈ clauses, x ∉ (caseTests clause).flatMap Node.references
  /-- What stays in a case declares no `var`. -/
  kept : ∀ clause ∈ clauses, hoistedAll x (caseKept clause) = []

theorem splitClause_append (clause : Node) :
    (splitClause clause).1 ++ (splitClause clause).2 = clauseStmts clause := by
  cases clause
  case clause => exact splitCase_append _
  all_goals rfl

theorem lexicals_append (stmts stmts' : List Stmt) :
    lexicals x (stmts ++ stmts') = lexicals x stmts ++ lexicals x stmts' :=
  List.flatMap_append

theorem lexicals_flatMap {α : Type} (xs : List α) (f : α → List Stmt) :
    lexicals x (xs.flatMap f) = xs.flatMap fun a ↦ lexicals x (f a) :=
  List.flatMap_assoc

theorem resolutions_switch (span : Span) (subject : Node) (clauses : List Node) :
    resolutions x (.switchStmt span subject clauses) outer = resolutions x subject outer ++
      resolutionsAll x clauses (within outer (lexicals x (clauses.flatMap clauseStmts))) := by
  rw [resolutions_eq]
  simp only [opens, Node.children, referred, List.not_mem_nil, if_false, List.nil_append,
    List.cons_append, List.zipWith_cons_cons, List.zipWith_map_right, List.zipWith_self,
    List.flatten_cons, within_nil, resolutionsAll, List.flatMap_def]

theorem resolutions_clause (span : Span) (test : Option Node) (stmts : List Stmt) :
    resolutions x (.clause span test stmts) outer =
      resolutionsAll x test.toList outer ++ resolutionsAll x stmts outer := by
  rw [resolutions_of_opens [] rfl]
  simp [referred, Node.children, resolutionsAll]

section

variable {clause clause' : Node} {clauses clauses' : List Node}

theorem lexicals_branchesClause (h : BranchesClause {} clause clause') :
    lexicals x (clauseStmts clause') = lexicals x (splitClause clause).2 := by
  cases h with
  | kept empty => rw [← splitClause_append, empty, List.nil_append]
  | arm nonempty calls =>
    simp [clauseStmts, lexicals, (hoisted_call (x := x) rfl calls).1, splitClause]

theorem lexicals_branchesClauses (h : List.Forall₂ (BranchesClause {}) clauses clauses') :
    lexicals x (clauses'.flatMap clauseStmts) =
      lexicals x (clauses.flatMap fun clause ↦ (splitClause clause).2) := by
  induction h with
  | nil => rfl
  | cons head _ ih => rw [List.flatMap_cons, List.flatMap_cons, lexicals_append, lexicals_append,
      lexicals_branchesClause head, ih]

/-- What one arm declares, no other arm refers to, and no case in what it keeps. -/
theorem not_mem_references_of_shared {cases : List (List Stmt × List Stmt)}
    (h : sharedCaseBindings cases = []) {i j : Nat} {own other : List Stmt × List Stmt}
    (hi : cases[i]? = some own) (hj : cases[j]? = some other)
    (hx : x ∈ (own.1.flatMap lexicalDeclarations).map (·.1)) :
    (j ≠ i → x ∉ other.1.flatMap Node.references) ∧ x ∉ other.2.flatMap Node.references := by
  obtain ⟨declaration, hdeclaration, rfl⟩ := List.mem_map.1 hx
  have hnone := List.flatMap_eq_nil_iff.1 h (own, i) (List.mem_zipIdx_iff_getElem?.2 hi)
  rw [List.map_eq_nil_iff, List.filter_eq_nil_iff] at hnone
  have hunshared := hnone declaration hdeclaration
  rw [isShared, List.any_eq_true, not_exists] at hunshared
  have hother := hunshared
    ((other.1.flatMap Node.references, other.2.flatMap Node.references), j)
  have hmem : ((other.1.flatMap Node.references, other.2.flatMap Node.references), j) ∈
      (cases.map fun c ↦ (c.1.flatMap Node.references, c.2.flatMap Node.references)).zipIdx := by
    rw [List.mem_zipIdx_iff_getElem?, List.getElem?_map, hj]
    rfl
  simp only [hmem, true_and, Bool.or_eq_true, Bool.and_eq_true, bne_iff_ne, List.contains_iff_mem,
    not_or, not_and] at hother
  exact hother

/-- The resolutions of a case grow if nothing in it loses a declaration. Either the scope of the
`switch` is as it was, or all it declared was in arms and is only referred to where it still is. -/
theorem grows_branchesClause {before after : List Span} (h : BranchesClause {} clause clause')
    (hsafe : armHazards (splitClause clause).1 = [])
    (hscope : before = after ∧ lexicals x (splitClause clause).1 = [] ∨
      after = [] ∧ x ∉ (caseTests clause).flatMap Node.references ∧
        x ∉ (splitClause clause).2.flatMap Node.references ∧
        (lexicals x (splitClause clause).1 = before ∨
          x ∉ (splitClause clause).1.flatMap Node.references)) :
    Grows x (resolutions x clause (within outer before))
      (resolutions x clause' (within outer after)) := by
  cases h with
  | kept empty =>
    rcases hscope with ⟨rfl, -⟩ | ⟨-, htests, hrest, -⟩
    · exact .refl _
    · have hclause : x ∉ clause.references := by
        intro hx
        cases clause
        case clause span test stmts =>
          rw [splitClause, ← List.nil_append (splitCase stmts).2, ← empty, splitClause,
            splitCase_append] at hrest
          unfold Node.references at hx
          rw [Node.gather_eq] at hx
          simp only [Node.reference, Node.children, List.nil_append, List.flatMap_append,
            List.mem_append] at hx
          exact hx.elim htests hrest
        all_goals exact htests (by simpa [caseTests] using hx)
      rw [resolutions_eq_nil hclause, resolutions_eq_nil hclause]
      exact .refl _
  | @arm span test stmts call nonempty calls =>
    have hstmts (outer : List Span) : resolutionsAll x stmts outer =
        resolutionsAll x (splitCase stmts).1 outer ++ resolutionsAll x (splitCase stmts).2 outer := by
      nth_rw 1 [← splitCase_append stmts]
      exact List.flatMap_append
    rw [splitClause] at hsafe
    have hbody : bodyDeclarations x (splitCase stmts).1 = lexicals x (splitCase stmts).1 := by
      rw [bodyDeclarations, hoistedAll_eq_nil hsafe, List.append_nil]
    rw [resolutions_clause, resolutions_clause, hstmts]
    have hcall (outer : List Span) (arm : List (List Span)) (harm : arm =
        resolutionsAll x (splitCase stmts).1 (within outer (lexicals x (splitCase stmts).1))) :
        Grows x arm (resolutions x call outer) := by
      refine Grows.call rfl calls ?_
      rw [hbody, harm]
      exact .refl _
    have hcons (outer : List Span) : resolutionsAll x (call :: (splitCase stmts).2) outer =
        resolutions x call outer ++ resolutionsAll x (splitCase stmts).2 outer := rfl
    rw [hcons]
    rcases hscope with ⟨rfl, hnone⟩ | ⟨rfl, htests, hrest, harm⟩
    · refine (Grows.refl _).append ((hcall _ _ ?_).append (.refl _))
      rw [splitClause] at hnone
      rw [hnone, within_nil]
    · simp only [splitClause, caseTests] at htests hrest harm
      rw [resolutionsAll_eq_nil htests, resolutionsAll_eq_nil htests, resolutionsAll_eq_nil hrest,
        resolutionsAll_eq_nil hrest, within_nil]
      refine (Grows.refl _).append ((hcall _ _ ?_).append (.refl _))
      rcases harm with rfl | harm
      · rfl
      · rw [resolutionsAll_eq_nil harm, resolutionsAll_eq_nil harm]

theorem sharedCaseBindings_eq_nil (h : switchHazards clauses = []) :
    sharedCaseBindings (clauses.map splitClause) = [] := by
  have hlength := congrArg List.length h
  rw [switchHazards, List.length_mergeSort, List.length_nil, List.length_eq_zero_iff] at hlength
  exact (List.append_eq_nil_iff.1 hlength).2

theorem eq_nil_of_sole {own : Node} {first last : List Node}
    (hsole : (((first ++ own :: last).flatMap fun clause ↦ [lexicals x (splitClause clause).1,
      lexicals x (splitClause clause).2]).filter (!·.isEmpty)).length ≤ 1)
    (hown : lexicals x (splitClause own).1 ≠ []) :
    lexicals x (splitClause own).2 = [] ∧ ∀ clause ∈ first ++ last,
      lexicals x (splitClause clause).1 = [] ∧ lexicals x (splitClause clause).2 = [] := by
  have hkept : (!(lexicals x (splitClause own).1).isEmpty) = true := by simpa using hown
  rw [List.flatMap_append, List.flatMap_cons, List.cons_append, List.filter_append,
    List.filter_cons, if_pos hkept, List.length_append, List.length_cons] at hsole
  have hfirst := List.length_eq_zero_iff.1 (Nat.eq_zero_of_le_zero (by omega) :
    ((first.flatMap fun clause ↦ [lexicals x (splitClause clause).1,
      lexicals x (splitClause clause).2]).filter (!·.isEmpty)).length = 0)
  have hlast := List.length_eq_zero_iff.1 (Nat.eq_zero_of_le_zero (by omega) :
    (([lexicals x (splitClause own).2] ++ last.flatMap fun clause ↦ [lexicals x (splitClause clause).1,
      lexicals x (splitClause clause).2]).filter (!·.isEmpty)).length = 0)
  rw [List.filter_eq_nil_iff] at hfirst hlast
  refine ⟨by simpa using hlast _ (List.mem_append_left _ List.mem_cons_self), fun clause hc ↦ ?_⟩
  have hnone : ∀ part ∈ [lexicals x (splitClause clause).1, lexicals x (splitClause clause).2],
      part = [] := by
    intro part hpart
    rcases List.mem_append.1 hc with hc | hc
    · simpa using hfirst part (List.mem_flatMap.2 ⟨clause, hc, hpart⟩)
    · simpa using hlast part (List.mem_append_right _ (List.mem_flatMap.2 ⟨clause, hc, hpart⟩))
  exact ⟨hnone _ (by simp), hnone _ (by simp)⟩

theorem scope_of_casesApart (hapart : CasesApart x clauses) (hsafe : switchHazards clauses = [])
    (hc : clause ∈ clauses) :
    lexicals x (clauses.flatMap clauseStmts) =
        lexicals x (clauses.flatMap fun clause ↦ (splitClause clause).2) ∧
      lexicals x (splitClause clause).1 = [] ∨
    lexicals x (clauses.flatMap fun clause ↦ (splitClause clause).2) = [] ∧
      x ∉ (caseTests clause).flatMap Node.references ∧
      x ∉ (splitClause clause).2.flatMap Node.references ∧
      (lexicals x (splitClause clause).1 = lexicals x (clauses.flatMap clauseStmts) ∨
        x ∉ (splitClause clause).1.flatMap Node.references) := by
  have hall : lexicals x (clauses.flatMap clauseStmts) = clauses.flatMap fun clause ↦
      lexicals x (splitClause clause).1 ++ lexicals x (splitClause clause).2 := by
    rw [lexicals_flatMap, List.flatMap_def, List.flatMap_def]
    refine congrArg List.flatten (List.map_congr_left fun clause _ ↦ ?_)
    rw [← splitClause_append, lexicals_append]
  by_cases hnone : ∀ clause ∈ clauses, lexicals x (splitClause clause).1 = []
  · refine .inl ⟨?_, hnone clause hc⟩
    rw [hall, lexicals_flatMap, List.flatMap_def, List.flatMap_def]
    refine congrArg List.flatten (List.map_congr_left fun clause hc ↦ ?_)
    rw [hnone clause hc, List.nil_append]
  simp only [not_forall] at hnone
  obtain ⟨own, hown, hdeclares⟩ := hnone
  have htests := hapart.untested ⟨own, hown, hdeclares⟩ clause hc
  have hknown : x ∈ ((splitClause own).1.flatMap lexicalDeclarations).map (·.1) := by
    obtain ⟨span, hspan⟩ := List.exists_mem_of_ne_nil _ hdeclares
    obtain ⟨stmt, hstmt, hspan⟩ := List.mem_flatMap.1 hspan
    obtain ⟨declaration, hdeclaration, hname⟩ :=
      List.mem_map.1 (hapart.known own hown stmt hstmt (List.ne_nil_of_mem hspan))
    exact List.mem_map.2 ⟨declaration, List.mem_flatMap.2 ⟨stmt, hstmt, hdeclaration⟩, hname⟩
  obtain ⟨i, hi⟩ := List.mem_iff_getElem?.1 hown
  obtain ⟨j, hj⟩ := List.mem_iff_getElem?.1 hc
  obtain ⟨harm, hrest⟩ := not_mem_references_of_shared (sharedCaseBindings_eq_nil hsafe)
    (by rw [List.getElem?_map, hi]; rfl) (by rw [List.getElem?_map, hj]; rfl) hknown
  obtain ⟨first, last, rfl⟩ := List.append_of_mem hown
  obtain ⟨hkept, hothers⟩ := eq_nil_of_sole hapart.sole hdeclares
  have hfirst : ∀ clause ∈ first, lexicals x (splitClause clause).1 = [] ∧
      lexicals x (splitClause clause).2 = [] := fun clause hc ↦ hothers clause (by simp [hc])
  have hlast : ∀ clause ∈ last, lexicals x (splitClause clause).1 = [] ∧
      lexicals x (splitClause clause).2 = [] := fun clause hc ↦ hothers clause (by simp [hc])
  refine .inr ⟨?_, htests, hrest, ?_⟩
  · rw [lexicals_flatMap, List.flatMap_eq_nil_iff]
    intro clause hc
    rcases List.mem_append.1 hc with hc | hc
    · exact (hfirst clause hc).2
    · rcases List.mem_cons.1 hc with rfl | hc
      · exact hkept
      · exact (hlast clause hc).2
  · by_cases hij : j = i
    · left
      obtain rfl : clause = own := by
        rw [hij, hi] at hj
        exact (Option.some.inj hj).symm
      have hfirst' : (first.flatMap fun clause ↦ lexicals x (splitClause clause).1 ++
          lexicals x (splitClause clause).2) = [] :=
        List.flatMap_eq_nil_iff.2 fun clause hc ↦ by rw [(hfirst clause hc).1, (hfirst clause hc).2]; rfl
      have hlast' : (last.flatMap fun clause ↦ lexicals x (splitClause clause).1 ++
          lexicals x (splitClause clause).2) = [] :=
        List.flatMap_eq_nil_iff.2 fun clause hc ↦ by rw [(hlast clause hc).1, (hlast clause hc).2]; rfl
      rw [hall, List.flatMap_append, List.flatMap_cons, hfirst', hlast', hkept]
      simp
    · exact .inr (harm hij)

theorem grows_all {nodes nodes' : List Node} {before after : List Span}
    (h : List.Forall₂ (fun n n' ↦ Grows x (resolutions x n before) (resolutions x n' after))
      nodes nodes') : Grows x (resolutionsAll x nodes before) (resolutionsAll x nodes' after) := by
  induction h with
  | nil => exact .refl _
  | cons head _ ih => exact head.append ih

theorem grows_switch (hapart : CasesApart x clauses) (hsafe : switchHazards clauses = [])
    (h : List.Forall₂ (BranchesClause {}) clauses clauses') (span : Span) (subject : Node) :
    Grows x (resolutions x (.switchStmt span subject clauses) outer)
      (resolutions x (.switchStmt span subject clauses') outer) := by
  rw [resolutions_switch, resolutions_switch, lexicals_branchesClauses h]
  refine (Grows.refl _).append (grows_all ?_)
  refine (List.forall₂_and_left _ _ |>.2 ⟨fun _ hm ↦ hm, h⟩).imp fun clause clause' hc ↦ ?_
  exact grows_branchesClause hc.2 (switchHazards_eq_nil hsafe hc.1)
    (scope_of_casesApart hapart hsafe hc.1)

theorem hoisted_switch (span : Span) (subject : Node) (clauses : List Node) :
    hoisted x (.switchStmt span subject clauses) = hoistedAll x clauses := by
  unfold hoistedAll hoisted
  rw [Node.fold_eq]
  simp [Node.children, List.flatMap_def]

theorem hoisted_clause (span : Span) (test : Option Node) (stmts : List Stmt) :
    hoisted x (.clause span test stmts) = hoistedAll x stmts := by
  unfold hoistedAll hoisted
  rw [Node.fold_eq]
  simp [Node.children, List.flatMap_def]

theorem hoisted_case (hkept : hoistedAll x (caseKept clause) = [])
    (hsafe : armHazards (splitClause clause).1 = []) : hoisted x clause = [] := by
  cases clause
  case clause span test stmts =>
    rw [hoisted_clause, ← splitCase_append stmts, hoistedAll, List.flatMap_append]
    exact List.append_eq_nil_iff.2 ⟨hoistedAll_eq_nil hsafe, hkept⟩
  all_goals simpa [caseKept, hoistedAll] using hkept

theorem hoisted_branchesClause (h : BranchesClause {} clause clause')
    (hkept : hoistedAll x (caseKept clause) = [])
    (hsafe : armHazards (splitClause clause).1 = []) : hoisted x clause' = [] := by
  cases h with
  | kept empty => exact hoisted_case hkept hsafe
  | arm nonempty calls =>
    rw [hoisted_clause, hoistedAll, List.flatMap_cons, (hoisted_call rfl calls).2]
    exact hkept

end

/-- The cases of a statement that is a `switch`, and of those in plain blocks. -/
def ownSwitches (stmt : Stmt) : List (List Node) :=
  stmt.gather (fun (_ : Unit) n ↦
    match n with
    | .block _ _ => (some (), [])
    | .switchStmt _ _ clauses => (none, [clauses])
    | _ => (none, [])) ()

def switches (stmts : List Stmt) : List (List Node) :=
  stmts.flatMap ownSwitches

theorem ownSwitches_block (span : Span) (stmts : List Stmt) :
    ownSwitches (.block span stmts) = switches stmts := by
  unfold switches ownSwitches
  rw [Node.gather_eq]
  rfl

theorem ownSwitches_switch (span : Span) (subject : Node) (clauses : List Node) :
    ownSwitches (.switchStmt span subject clauses) = [clauses] := by
  unfold ownSwitches
  rw [Node.gather_eq]
  rfl

theorem hoisted_block (span : Span) (stmts : List Stmt) :
    hoisted x (.block span stmts) = hoistedAll x stmts := by
  unfold hoistedAll hoisted
  rw [Node.fold_eq]
  simp [Node.children, List.flatMap_def]

theorem hoisted_chain {chain : Stmt} (h : chainHazards chain = []) : hoisted x chain = [] := by
  fun_induction chainHazards chain with
  | case1 span test yes no ih =>
    obtain ⟨hyes, hno⟩ := List.append_eq_nil_iff.1 h
    have hyes' : hoistedAll x [yes] = [] := hoistedAll_eq_nil hyes
    rw [hoisted_if]
    cases no with
    | none => simpa [hoistedAll] using hyes'
    | some no => simpa [hoistedAll, ih hno] using hyes'
  | case2 arm _ => simpa [hoistedAll] using hoistedAll_eq_nil (x := x) h

/-- The name refers to the same throughout the two lists, and they declare the same. -/
structure Keeps (x : String) (stmts stmts' : List Stmt) : Prop where
  lexicals : lexicals x stmts' = lexicals x stmts
  hoisted : hoistedAll x stmts' = hoistedAll x stmts
  resolutions : ∀ outer, Grows x (resolutionsAll x stmts outer) (resolutionsAll x stmts' outer)

theorem Keeps.cons {stmt stmt' : Stmt} {stmts stmts' : List Stmt}
    (hlexical : lexical x stmt' = lexical x stmt) (hhoisted : Scoping.hoisted x stmt' = Scoping.hoisted x stmt)
    (hresolutions : ∀ outer, Grows x (Scoping.resolutions x stmt outer) (Scoping.resolutions x stmt' outer))
    (h : Keeps x stmts stmts') : Keeps x (stmt :: stmts) (stmt' :: stmts') where
  lexicals := by
    have := h.lexicals
    simp only [Scoping.lexicals, List.flatMap_cons] at this ⊢
    rw [hlexical, this]
  hoisted := by
    have := h.hoisted
    simp only [hoistedAll, List.flatMap_cons] at this ⊢
    rw [hhoisted, this]
  resolutions := fun outer ↦ (hresolutions outer).append (h.resolutions outer)

theorem keeps_enclosures {stmts stmts' : List Stmt} (h : Enclosures {} stmts stmts')
    (hapart : ∀ clauses ∈ switches stmts, switchHazards clauses = [] → CasesApart x clauses) :
    Keeps x stmts stmts' := by
  induction h with
  | nil => exact ⟨rfl, rfl, fun _ ↦ .refl _⟩
  | kept rest ih =>
    have hrest := ih fun clauses hc ↦ hapart clauses (List.mem_append_right _ hc)
    exact .cons rfl rfl (fun _ ↦ .refl _) hrest
  | @block span inner inner' stmts stmts' inside rest ihinside ihrest =>
    have hrest := ihrest fun clauses hc ↦ hapart clauses (List.mem_append_right _ hc)
    have hinside := ihinside fun clauses hc ↦ hapart clauses (List.mem_append_left _ (by
      rwa [ownSwitches_block]))
    refine .cons rfl ?_ (fun outer ↦ ?_) hrest
    · rw [hoisted_block, hoisted_block, hinside.hoisted]
    · rw [resolutions_block, resolutions_block, hinside.lexicals]
      exact hinside.resolutions _
  | @chain span test yes chain call no stmts stmts' safe branches calls rest ih =>
    have hrest := ih fun clauses hc ↦ hapart clauses (List.mem_append_right _ hc)
    obtain ⟨hlexical, hhoisted⟩ := hoisted_call (x := x) rfl calls
    refine .cons hlexical (by rw [hhoisted, hoisted_chain safe]) (fun outer ↦ ?_) hrest
    refine Grows.call rfl calls ?_
    have hchain : lexical x chain = [] := by
      cases branches with
      | only branches => rfl
      | other branches rest => rfl
      | last noChain branches => exact absurd rfl (noChain _ _ _ _)
    have hnone : bodyDeclarations x [chain] = [] := by
      simp [bodyDeclarations, Scoping.lexicals, hchain, hoistedAll, hoisted_branchesArms branches]
    have hgrows : Grows x
        (Scoping.resolutions x (.ifStmt span test yes no) (within outer (lexical x (.ifStmt span test yes no))))
        (Scoping.resolutions x chain (within outer (lexical x chain))) :=
      grows_branchesArms branches safe
    rw [hchain] at hgrows
    rw [hnone, within_nil]
    simpa [resolutionsAll, lexical] using hgrows
  | @switch span subject call clauses clauses' stmts stmts' safe branches calls rest ih =>
    have hrest := ih fun clauses hc ↦ hapart clauses (List.mem_append_right _ hc)
    obtain ⟨hlexical, hhoisted⟩ := hoisted_call (x := x) rfl calls
    have hcases := hapart clauses (List.mem_append_left _ (by
      simp [ownSwitches_switch])) safe
    have hbefore : Scoping.hoisted x (.switchStmt span subject clauses) = [] := by
      rw [hoisted_switch]
      exact List.flatMap_eq_nil_iff.2 fun clause hc ↦
        hoisted_case (hcases.kept clause hc) (switchHazards_eq_nil safe hc)
    have hafter : bodyDeclarations x [.switchStmt span subject clauses'] = [] := by
      have hclauses : hoistedAll x clauses' = [] := by
        refine List.flatMap_eq_nil_iff.2 fun clause' hc ↦ ?_
        obtain ⟨clause, hc, hbranches⟩ := exists_of_forall₂_right branches hc
        exact hoisted_branchesClause hbranches (hcases.kept clause hc) (switchHazards_eq_nil safe hc)
      have hswitch : hoistedAll x [.switchStmt span subject clauses'] = [] := by
        rw [hoistedAll, List.flatMap_singleton, hoisted_switch, hclauses]
      rw [bodyDeclarations, hswitch]
      rfl
    refine .cons hlexical (by rw [hhoisted, hbefore]) (fun outer ↦ ?_) hrest
    refine Grows.call rfl calls ?_
    rw [hafter, within_nil]
    simpa [resolutionsAll] using grows_switch hcases safe branches span subject

section

variable {stmts stmts' : List Stmt}

theorem Keeps.code (h : Keeps x stmts stmts') (span : Span) (directives : List String) :
    Grows x (Scoping.resolutions x (.code span directives stmts) outer)
      (Scoping.resolutions x (.code span directives stmts') outer) := by
  rw [resolutions_of_opens (bodyDeclarations x stmts) rfl,
    resolutions_of_opens (bodyDeclarations x stmts') rfl, bodyDeclarations, bodyDeclarations,
    h.lexicals, h.hoisted]
  exact (Grows.refl _).append (h.resolutions _)

end

theorem Grows.func {body body' : Node}
    (h : ∀ outer, Grows x (resolutions x body outer) (resolutions x body' outer))
    (span : Span) (head : FuncHead) (typeParams : List Node) (this : Option Node) (params : List Param)
    (result : Option Ty) :
    Grows x (resolutions x (.func span head typeParams this params result body) outer)
      (resolutions x (.func span head typeParams this params result body') outer) := by
  rw [resolutions_of_opens _ rfl, resolutions_of_opens _ rfl]
  refine (Grows.refl _).append ?_
  simp only [Node.children, resolutionsAll, List.flatMap_append, List.flatMap_singleton]
  exact (Grows.refl _).append (h _)

/-- Enclosing conditions keeps what a name refers to: in every function that has these statements for
its body, each reference means the same declaration as before, if the name is declared without harm in
the cases that are enclosed. References are added to conditions only. -/
theorem run_keeps_resolutions (policy : EarlyExitPolicy) (source file : String) (stmts : List Stmt) :
    ∃ stmts' tally, run ⟨{}, policy, source, file⟩ stmts = (.ok stmts', tally) ∧
      ∀ x : String,
        (∀ clauses ∈ switches stmts, switchHazards clauses = [] → CasesApart x clauses) →
        ∀ (span : Span) (head : FuncHead) (typeParams : List Node) (this : Option Node)
          (params : List Param) (result : Option Ty) (place : Span) (directives : List String)
          (outer : List Span),
          let function (body : List Stmt) : Func :=
            .func span head typeParams this params result (.code place directives body)
          (resolutions x (function stmts) outer).Sublist (resolutions x (function stmts') outer) ∧
            (x ≠ "ConditionScope" ∧ x ≠ "ConditionBranch" →
              resolutions x (function stmts') outer = resolutions x (function stmts) outer) := by
  obtain ⟨stmts', tally, hrun, -⟩ := run_keeps_execution policy source file stmts
  refine ⟨stmts', tally, hrun, ?_⟩
  intro x hapart span head typeParams this params result place directives outer function
  have hkeeps : Keeps x stmts stmts' := keeps_enclosures (enclosures_of_run hrun) hapart
  have hgrows : Grows x (resolutions x (function stmts) outer) (resolutions x (function stmts') outer) :=
    Grows.func (fun _ ↦ hkeeps.code place directives) span head typeParams this params result
  refine ⟨hgrows.sublist, fun hx ↦ hgrows.same ?_⟩
  simpa [Execution.isCondition] using hx

/-- A body with a constant and a `switch` that declares the name again in its second case. -/
def shadowingBody (test : Expr) : List Stmt :=
  [.vars ⟨35, 47⟩ .constant false
      [.declarator ⟨41, 46⟩ (.binding ⟨41, 42⟩ "y") false none (some (.lit ⟨45, 46⟩ (.number "2")))],
    .switchStmt ⟨50, 121⟩ (.ref ⟨58, 59⟩ "k")
      [.clause ⟨67, 86⟩ (some test)
        [.exprStmt ⟨75, 79⟩ (.apply ⟨75, 78⟩ (.call false false) (.ref ⟨75, 76⟩ "a") [] []),
          .breakStmt ⟨80, 86⟩ none],
        .clause ⟨91, 117⟩ (some (.lit ⟨96, 97⟩ (.number "3")))
        [.vars ⟨99, 109⟩ .fresh false
          [.declarator ⟨103, 108⟩ (.binding ⟨103, 104⟩ "y") false none
            (some (.lit ⟨107, 108⟩ (.number "1")))],
          .exprStmt ⟨110, 117⟩
            (.apply ⟨110, 116⟩ (.call false false) (.ref ⟨110, 113⟩ "use") [] [.ref ⟨114, 115⟩ "y"])]]]

theorem run_keeps_resolutions_shadowingBody :
    (∀ clauses ∈ switches (shadowingBody (.lit ⟨72, 73⟩ (.number "1"))),
      switchHazards clauses = [] → CasesApart "y" clauses) ∧
    ∃ stmts' tally, run ⟨{}, .reject, "", "input.ts"⟩ (shadowingBody (.lit ⟨72, 73⟩ (.number "1"))) =
      (.ok stmts', tally) ∧
      resolutions "y" (.func ⟨0, 123⟩ { form := .declaration, name := some "view" } [] none [] none
        (.code ⟨31, 123⟩ [] stmts')) [] = [[⟨103, 108⟩]] := by
  have hapart : ∀ clauses ∈ switches (shadowingBody (.lit ⟨72, 73⟩ (.number "1"))),
      switchHazards clauses = [] → CasesApart "y" clauses := by
    intro clauses hc _
    obtain rfl : clauses = _ := List.mem_singleton.1 hc
    exact ⟨by decide +kernel, by decide +kernel, by decide +kernel, by decide +kernel⟩
  obtain ⟨stmts', tally, hrun, hkeeps⟩ := run_keeps_resolutions .reject "" "input.ts"
    (shadowingBody (.lit ⟨72, 73⟩ (.number "1")))
  refine ⟨hapart, stmts', tally, hrun, ?_⟩
  rw [(hkeeps "y" hapart _ _ _ _ _ _ _ _ _).2 (by decide)]
  decide +kernel

set_option maxRecDepth 100000 in
theorem run_shadowingBody :
    (run ⟨{}, .reject, "", "input.ts"⟩ (shadowingBody (.ref ⟨72, 73⟩ "y"))).1.toOption.map
      (fun stmts' ↦ resolutions "y" (.code ⟨31, 123⟩ [] stmts') []) =
        some [[⟨41, 46⟩], [⟨103, 108⟩]] := by
  decide +kernel

/-- A test that refers to what a later case declares is left to refer to the constant. -/
theorem run_rebinds_test : ∃ stmts' tally,
    run ⟨{}, .reject, "", "input.ts"⟩ (shadowingBody (.ref ⟨72, 73⟩ "y")) = (.ok stmts', tally) ∧
      resolutions "y" (.code ⟨31, 123⟩ [] (shadowingBody (.ref ⟨72, 73⟩ "y"))) [] =
        [[⟨103, 108⟩], [⟨103, 108⟩]] ∧
      resolutions "y" (.code ⟨31, 123⟩ [] stmts') [] = [[⟨41, 46⟩], [⟨103, 108⟩]] := by
  obtain ⟨stmts', tally, hrun, -⟩ :=
    run_keeps_execution .reject "" "input.ts" (shadowingBody (.ref ⟨72, 73⟩ "y"))
  refine ⟨stmts', tally, hrun, by decide +kernel, ?_⟩
  have hafter := run_shadowingBody
  rw [hrun] at hafter
  exact Option.some.inj hafter

end Recompose.Condition
