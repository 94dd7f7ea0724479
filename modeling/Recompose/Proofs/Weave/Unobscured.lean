import Recompose.Proofs.Weave.Tame

namespace Recompose

open Script Scoping

variable {x : String}

theorem refers_eq_false_iff {n : Node} : refers x n = false ↔ n.Everywhere (isRef x · = false) := by
  unfold refers Node.Everywhere
  rw [List.any_eq_false]
  exact forall₂_congr fun _ _ ↦ Bool.eq_false_iff.symm

theorem refers_of_isBareNode {n : Node} (h : Weave.isBareNode n = true) : refers x n = false := by
  unfold Weave.isBareNode at h
  split at h <;> first
    | rfl
    | simp at h

namespace Condition

variable {names : RuntimeNames}

theorem lexical_closureCall (hnames : names.IsTame) {callee : String} (hcallee : names.encloses callee)
    {stmts : List Stmt} {call : Stmt} (hcall : Glue.closureCall callee stmts = .ok call) :
    lexical x call = [] := by
  obtain ⟨span, inner, optional, isPure, place, rfl⟩ := hnames.call_eq hcallee hcall
  rfl

theorem lexicals_clause_eq_nil (hnames : names.IsTame) {clause clause' : Node}
    (h : BranchesClause names clause clause') (hnil : lexicals x (clauseStmts clause) = []) :
    lexicals x (clauseStmts clause') = [] := by
  cases h with
  | kept empty => exact hnil
  | @arm span test stmts call nonempty calls =>
    have hstmts : lexicals x ((splitCase stmts).1 ++ (splitCase stmts).2) = [] := by
      rw [splitCase_append]
      exact hnil
    unfold lexicals at hstmts
    rw [List.flatMap_append, List.append_eq_nil_iff] at hstmts
    change lexical x call ++ lexicals x (splitCase stmts).2 = []
    rw [lexical_closureCall hnames (.inr rfl) calls, List.nil_append]
    exact hstmts.2

theorem lexicals_clauses_eq_nil (hnames : names.IsTame) {clauses clauses' : List Node}
    (h : List.Forall₂ (BranchesClause names) clauses clauses')
    (hnil : lexicals x (clauses.flatMap clauseStmts) = []) :
    lexicals x (clauses'.flatMap clauseStmts) = [] := by
  unfold lexicals at *
  rw [List.flatMap_assoc, List.flatMap_eq_nil_iff] at *
  intro clause' hclause'
  obtain ⟨clause, hclause, hbranches⟩ := exists_of_forall₂_right h hclause'
  exact lexicals_clause_eq_nil hnames hbranches (hnil clause hclause)

theorem lexicals_enclosures (hnames : names.IsTame) {stmts stmts' : List Stmt}
    (h : Enclosures names stmts stmts') : lexicals x stmts' = lexicals x stmts := by
  unfold lexicals
  induction h with
  | nil => rfl
  | kept rest ih => rw [List.flatMap_cons, List.flatMap_cons, ih]
  | block inside rest _ ih =>
    rw [List.flatMap_cons, List.flatMap_cons, ih]
    rfl
  | chain safe branches calls rest ih =>
    rw [List.flatMap_cons, List.flatMap_cons, ih, lexical_closureCall hnames (.inl rfl) calls]
    rfl
  | switch safe branches calls rest ih =>
    rw [List.flatMap_cons, List.flatMap_cons, ih, lexical_closureCall hnames (.inl rfl) calls]
    rfl

theorem endures_clear (hnames : names.IsTame) :
    Endures names (unhoisted x · = false) (obscures x · = false) where
  statement := ⟨rfl, rfl⟩
  call := rfl
  callee _ := rfl
  closure {stmts} h := by
    have hcode : obscures x (.code .none [] stmts) = false :=
      List.any_eq_false.2 fun stmt hstmt ↦ Bool.eq_false_iff.1 (h stmt hstmt)
    exact ⟨by simp [obscures, Condition.closure, unhoisted, lexical], hcode⟩
  block := by simp [obscures]
  arms h arm harm := by
    rw [obscures, List.any_eq_false] at h
    have hnil := h arm harm
    rw [Bool.not_eq_true, Bool.not_eq_false'] at hnil
    simp [unhoisted, hnil]
  chain h := by
    rw [obscures, List.any_eq_false]
    intro arm harm
    have hbranch := h arm harm
    unfold isBranch at hbranch
    split at hbranch <;> simp_all [lexical]
  branch h := by
    unfold isBranch at h
    split at h <;> first
      | rfl
      | simp at h
  clause := by simp [obscures]
  clauses hclauses h := by
    rw [obscures, Bool.and_eq_false_iff, Bool.not_eq_false', List.isEmpty_iff] at *
    exact h.imp_right (lexicals_clauses_eq_nil hnames hclauses)
  switch := rfl
  result := ⟨rfl, rfl⟩

theorem endures_unreferred (hx : ¬names.encloses x) :
    Endures names (fun _ ↦ True) (isRef x · = false) where
  statement := ⟨trivial, rfl⟩
  call := rfl
  callee h := beq_false_of_ne fun heq ↦ hx (heq ▸ h)
  closure _ := ⟨rfl, rfl⟩
  block := by simp [isRef]
  arms _ _ _ := trivial
  chain _ := rfl
  branch _ := trivial
  clause := by simp [isRef]
  clauses _ _ := rfl
  switch := trivial
  result := ⟨trivial, rfl⟩

end Condition

namespace Weave

variable {site : Site} {s s₁ s' : State}

theorem wears_clear : Wears (obscures x · = false) where
  bare h := by
    unfold isBareNode at h
    split at h <;> first
      | rfl
      | simp at h
  form _ := rfl
  function {span fspan isAbstract head tps this hidden params result body} hhidden _ h := by
    refine ⟨rfl, ?_⟩
    have hbare : hidden.any (refers x) = false :=
      List.any_eq_false.2 fun param hparam ↦
        Bool.eq_false_iff.1 (refers_of_isBareNode (hhidden param hparam))
    simpa [obscures, hbare] using h
  reference _ := rfl
  declarator _ := rfl

theorem wears_unreferred : Wears (isRef x · = false) where
  bare h := by
    unfold isBareNode at h
    split at h <;> first
      | rfl
      | simp at h
  form _ := rfl
  function _ _ _ := ⟨rfl, rfl⟩
  reference _ := rfl
  declarator _ := rfl

theorem refers_of_enters (hnames : site.options.runtime.IsTame) {n n₁ m : Node} {leave : State → State}
    (h : Enters site s n n₁ s₁ leave) (hm : m ∈ n₁.children) (hrefers : refers x m = true) :
    refers x n = true := by
  by_contra hn
  rw [Bool.not_eq_true, refers_eq_false_iff] at hn
  have hpart := refers_eq_false_iff.2 (wears_unreferred.everywhere_parts hnames (alters_of_enters h) hn m hm)
  simp [hpart] at hrefers

theorem clear_of_enters (hnames : site.options.runtime.IsTame) {n n₁ m : Node} {leave : State → State}
    (h : Enters site s n n₁ s₁ leave) (hclear : Clear x n) (hm : m ∈ n₁.children) : Clear x m :=
  wears_clear.everywhere_parts hnames (alters_of_enters h) hclear m hm

section

variable {names : RuntimeNames} {span inner : Span} {head : FuncHead} {typeParams : List Node}
  {this : Option Node} {params : List Param} {result : Option Ty} {body : Node}
  {directives : List String} {stmts enclosed : List Stmt}

theorem clear_bodyParts (h : Clear x (.func span head typeParams this params result body))
    (hparts : bodyParts body = (inner, directives, stmts)) :
    ∀ stmt ∈ stmts, unhoisted x stmt = false ∧ Clear x stmt := by
  have hbody : Clear x body := h.part (by simp [Node.children])
  unfold bodyParts at hparts
  split at hparts
  · obtain ⟨-, -, rfl⟩ := hparts
    exact fun stmt hstmt ↦ ⟨unhoisted_codeStmts hbody stmt hstmt, hbody.part hstmt⟩
  · obtain ⟨-, -, rfl⟩ := hparts
    refine List.forall_mem_singleton.2 ⟨rfl, Node.everywhere_iff.2 ⟨rfl, ?_⟩⟩
    exact List.forall_mem_singleton.2 (hbody.part List.mem_cons_self)
  · obtain ⟨-, -, rfl⟩ := hparts
    have hself := h.self
    rw [obscures, Bool.or_eq_false_iff, Bool.or_eq_false_iff] at hself
    exact List.forall_mem_singleton.2 ⟨hself.1.2, hbody⟩

theorem clear_enclosed (hnames : names.IsTame)
    (h : Clear x (.func span head typeParams this params result body))
    (hparts : bodyParts body = (inner, directives, stmts))
    (hencloses : Condition.Enclosures names stmts enclosed) :
    ∀ stmt ∈ enclosed, unhoisted x stmt = false ∧ Clear x stmt :=
  (Condition.endures_clear hnames).everywhere_enclosures hnames hencloses (clear_bodyParts h hparts)

theorem refers_of_enclosed (hnames : names.IsTame) (hx : ¬names.encloses x)
    (hparts : bodyParts body = (inner, directives, stmts))
    (hencloses : Condition.Enclosures names stmts enclosed) {stmt : Stmt} (hstmt : stmt ∈ enclosed)
    (hrefers : refers x stmt = true) :
    refers x (.func span head typeParams this params result body) = true := by
  by_contra hfunc
  rw [Bool.not_eq_true, refers_eq_false_iff] at hfunc
  have hbody := hfunc.part (m := body) (by simp [Node.children])
  have hall := (Condition.endures_unreferred hx).everywhere_enclosed hnames hbody hparts hencloses
  simp [refers_eq_false_iff.2 (hall stmt hstmt)] at hrefers

end

open Scopes (SameFor)

theorem sameFor_of_enters {n n₁ : Node} {leave : State → State} (h : Enters site s n n₁ s₁ leave)
    (hclear : Clear x n) {s₂ : State} (h₂ : SameFor x s₁.scopes s₂.scopes) :
    SameFor x s.scopes (leave s₂).scopes := by
  obtain ⟨close, hscopes, hleave⟩ := rescopes_of_enters h
  have hvars {span : Span} {declared : Bool} {items : List Node}
      (hoists : .vars span .hoisted declared items ∈ n.nodes) (scopes : Scopes) :
      SameFor x scopes (scopes.bindVars (Node.declaredNames items)) :=
    .bindVars (not_mem_of_clear_vars fun m hm ↦ hclear m (Node.mem_nodes_trans hm hoists)) _
  rw [hleave]
  generalize s₁.scopes = scopes at hscopes h₂
  cases hscopes with
  | kept => exact h₂
  | vars hoists => exact (hvars hoists _).trans h₂
  | function unwatched => exact .of_bindAll h₂
  | block unwatched => exact .of_bindAll h₂
  | loop hoists => exact ((hvars hoists _).trans h₂).pop

/-- What is bound to the name is the same after the walk of a node that does not obscure it. -/
def KeepsName (x : String) : Walked :=
  fun s n _ s' ↦ Clear x n → SameFor x s.scopes s'.scopes

theorem sameFor_of_threads {ns ns' : List Node} (h : Threads (KeepsName x) s ns ns' s')
    (hns : ∀ n ∈ ns, Clear x n) : SameFor x s.scopes s'.scopes := by
  induction h with
  | nil => exact .refl _
  | cons head tail ih =>
    exact (head (hns _ List.mem_cons_self)).trans (ih fun n hn ↦ hns n (List.mem_cons_of_mem _ hn))

theorem sameFor_of_memoises (hnames : site.options.runtime.IsTame) {sig : Signature} {f f' : Func}
    (h : Memoises site (KeepsName x) sig s f f' s') (hclear : Clear x f) :
    SameFor x s.scopes s'.scopes := by
  have hclose {bindings : List (String × Binding)} {scopes : Scopes}
      (h : SameFor x (s.scopes.pushFunction.bindAll bindings) scopes) : SameFor x s.scopes scopes.pop :=
    .of_bindAll h
  cases h with
  | bodiless faultless reshapes => exact .refl _
  | wrapped faultless reshapes present memo wraps hides =>
    cases wraps with
    | intro parts encloses walks wraps =>
      have henclosed := clear_enclosed hnames hclear parts (enclosures_of_encloses encloses)
      exact hclose (sameFor_of_threads walks fun stmt hstmt ↦ (henclosed stmt hstmt).2)
  | bare faultless reshapes present notMemo walks hides =>
    have hbody := hclear.part (List.mem_append_right _ List.mem_cons_self)
    exact hclose (sameFor_of_threads walks.children fun m hm ↦ hbody.part hm)

theorem sameFor_of_threadsArgs (hnames : site.options.runtime.IsTame) {plan : CallPlan}
    {parent : String} {ordinal index : Nat} {args args' : List Expr}
    (h : ThreadsArgs site (KeepsName x) plan parent ordinal index s args args' s')
    (hargs : ∀ arg ∈ args, Clear x arg) : SameFor x s.scopes s'.scopes := by
  induction h with
  | nil => exact .refl _
  | closure builds memoises tail ih =>
    exact (sameFor_of_memoises hnames memoises (hargs _ List.mem_cons_self)).trans
      (ih fun arg harg ↦ hargs arg (List.mem_cons_of_mem _ harg))
  | value builds head tail ih =>
    exact (head (hargs _ List.mem_cons_self)).trans
      (ih fun arg harg ↦ hargs arg (List.mem_cons_of_mem _ harg))

theorem keepsName_of_step (hnames : site.options.runtime.IsTame) {n n' : Node}
    (h : Step site (KeepsName x) s n n' s') : KeepsName x s n n' s' := by
  intro hclear
  cases h with
  | read watched => exact .refl _
  | thread resolves inside callees arguments identifies =>
    have hcallee := callees (hclear.part List.mem_cons_self)
    have hargs := sameFor_of_threadsArgs hnames arguments fun arg harg ↦
      hclear.part (by simp [Node.children, harg])
    exact hcallee.trans hargs
  | memo form signed memoises =>
    have hsame := sameFor_of_memoises hnames memoises hclear
    cases signed <;> exact hsame
  | within enters parts =>
    exact sameFor_of_enters enters hclear
      (sameFor_of_threads parts.children fun m hm ↦ clear_of_enters hnames enters hclear hm)

theorem Walks.sameFor (hnames : site.options.runtime.IsTame) {n n' : Node}
    (h : Walks site s n n' s') : KeepsName x s n n' s' :=
  h.induct fun hstep ↦ keepsName_of_step hnames (hstep.mono And.right)

end Weave

end Recompose
