import Recompose.Proofs.Weave.Ends
import Recompose.Proofs.Weave.Lookup

namespace Recompose

open Script

namespace Weave

def areBareParams : Except Failure (List Param) → Bool
  | .ok params => params.all fun
    | .param _ _ false [] (.binding _ _) (some (.typeRef _ _ [])) none => true
    | _ => false
  | .error _ => false

set_option maxRecDepth 100000 in
theorem areBareParams_hiddenParameters : areBareParams (Glue.hiddenParameters {}) := by
  decide +kernel

theorem mem_addToFirst {hidden : List Param} {types : List Ty} {m : Ty} (h : m ∈ addToFirst hidden types) :
    m ∈ types ∨ ∃ type ∈ types, m = addToFunctionType hidden type := by
  induction types with
  | nil => simp [addToFirst] at h
  | cons type types ih =>
    unfold addToFirst at h
    dsimp only at h
    split at h
    · rcases List.mem_cons.1 h with rfl | h
      · exact .inr ⟨type, List.mem_cons_self, rfl⟩
      · exact .inl (List.mem_cons_of_mem _ h)
    · rcases List.mem_cons.1 h with rfl | h
      · exact .inl List.mem_cons_self
      · rcases ih h with h | ⟨type', htype', rfl⟩
        · exact .inl (List.mem_cons_of_mem _ h)
        · exact .inr ⟨type', List.mem_cons_of_mem _ htype', rfl⟩

end Weave

/-- Generated code refers to the runtime by what reads as mere names. -/
structure RuntimeNames.IsTame (names : RuntimeNames) : Prop where
  hidden : Weave.areBareParams (Glue.hiddenParameters names) = true
  scope : Condition.isBareCall names.conditionScope
    (Glue.statement (names.conditionScope ++ "(() => \x7b\x7d);")) = true
  branch : Condition.isBareCall names.conditionBranch
    (Glue.statement (names.conditionBranch ++ "(() => \x7b\x7d);")) = true

theorem RuntimeNames.isTame_default : ({} : RuntimeNames).IsTame :=
  ⟨Weave.areBareParams_hiddenParameters, Condition.isBareCall_statement rfl,
    Condition.isBareCall_statement rfl⟩

theorem Weave.isTame_shortNames : Weave.shortNames.IsTame :=
  ⟨by decide +kernel, Condition.isBareCall_statement rfl, Condition.isBareCall_statement rfl⟩

def RuntimeNames.encloses (names : RuntimeNames) (callee : String) : Prop :=
  callee = names.conditionScope ∨ callee = names.conditionBranch

theorem RuntimeNames.IsTame.exists_call {names : RuntimeNames} (h : names.IsTame) {callee : String}
    (hcallee : names.encloses callee) :
    ∃ span inner optional isPure place, ∀ stmts, Glue.closureCall callee stmts = .ok
      (.exprStmt span (.apply inner (.call optional isPure) (.ref place callee) []
        [Condition.closure stmts])) := by
  have hbare : Condition.isBareCall callee (Glue.statement (callee ++ "(() => \x7b\x7d);")) = true := by
    obtain rfl | rfl := hcallee
    · exact h.scope
    · exact h.branch
  exact Condition.exists_of_isBareCall hbare

theorem RuntimeNames.IsTame.call_eq {names : RuntimeNames} (h : names.IsTame) {callee : String}
    (hcallee : names.encloses callee) {stmts : List Stmt} {call : Stmt}
    (hcall : Glue.closureCall callee stmts = .ok call) :
    ∃ span inner optional isPure place,
      call = .exprStmt span (.apply inner (.call optional isPure) (.ref place callee) []
        [Condition.closure stmts]) := by
  obtain ⟨span, inner, optional, isPure, place, heq⟩ := h.exists_call hcallee
  rw [heq] at hcall
  exact ⟨span, inner, optional, isPure, place, (Except.ok.inj hcall).symm⟩

namespace Condition

def isBranch : Stmt → Bool
  | .block _ _ | .ifStmt _ _ _ _ => true
  | _ => false

/-- A property of nodes that enclosing keeps, `F` being what it says of the statements in a list. -/
structure Endures (names : RuntimeNames) (F P : Node → Prop) : Prop where
  statement {span : Span} {e : Expr} : F (.exprStmt span e) ∧ P (.exprStmt span e)
  call {span : Span} {optional isPure : Bool} {callee : Expr} {stmts : List Stmt} :
    P (.apply span (.call optional isPure) callee [] [closure stmts])
  callee {place : Span} {name : String} : names.encloses name → P (.ref place name)
  closure {stmts : List Stmt} : (∀ stmt ∈ stmts, F stmt) → P (closure stmts) ∧ P (.code .none [] stmts)
  block {span : Span} {stmts : List Stmt} : P (.block span stmts) ↔ ∀ stmt ∈ stmts, F stmt
  arms {span : Span} {test yes : Node} {no : Option Node} : P (.ifStmt span test yes no) →
    ∀ arm ∈ yes :: no.toList, F arm
  chain {span : Span} {test yes : Node} {no : Option Node} :
    (∀ arm ∈ yes :: no.toList, isBranch arm = true) → P (.ifStmt span test yes no)
  branch {arm : Stmt} : isBranch arm = true → F arm
  clause {span : Span} {test : Option Node} {stmts : List Stmt} :
    P (.clause span test stmts) ↔ ∀ stmt ∈ stmts, F stmt
  clauses {span : Span} {subject : Node} {clauses clauses' : List Node} :
    List.Forall₂ (BranchesClause names) clauses clauses' → P (.switchStmt span subject clauses) →
    P (.switchStmt span subject clauses')
  switch {span : Span} {subject : Node} {clauses : List Node} : F (.switchStmt span subject clauses)
  result {value : Expr} : F (Glue.returnOf value) ∧ P (Glue.returnOf value)

namespace Endures

open Node (Everywhere everywhere_iff)

variable {names : RuntimeNames} {F P : Node → Prop}

theorem everywhere_call (h : Endures names F P) (hnames : names.IsTame) {callee : String}
    (hcallee : names.encloses callee) {stmts : List Stmt} {call : Stmt}
    (hcall : Glue.closureCall callee stmts = .ok call)
    (hstmts : ∀ stmt ∈ stmts, F stmt ∧ Everywhere P stmt) : F call ∧ Everywhere P call := by
  obtain ⟨span, inner, optional, isPure, place, rfl⟩ := hnames.call_eq hcallee hcall
  obtain ⟨hclosure, hcode⟩ := h.closure fun stmt hstmt ↦ (hstmts stmt hstmt).1
  have hbody : Everywhere P (.code .none [] stmts) :=
    everywhere_iff.2 ⟨hcode, fun stmt hstmt ↦ (hstmts stmt hstmt).2⟩
  have hfunc : Everywhere P (Condition.closure stmts) :=
    everywhere_iff.2 ⟨hclosure, List.forall_mem_singleton.2 hbody⟩
  have hname : Everywhere P (.ref place callee) :=
    everywhere_iff.2 ⟨h.callee hcallee, by simp [Node.children]⟩
  have happly : Everywhere P (.apply inner (.call optional isPure) (.ref place callee) []
      [Condition.closure stmts]) :=
    everywhere_iff.2 ⟨h.call, by simpa [Node.children] using ⟨hname, hfunc⟩⟩
  exact ⟨h.statement.1, everywhere_iff.2 ⟨h.statement.2, List.forall_mem_singleton.2 happly⟩⟩

theorem everywhere_armStmts (h : Endures names F P) {arm : Stmt} (hF : F arm) (hP : Everywhere P arm) :
    ∀ stmt ∈ armStmts arm, F stmt ∧ Everywhere P stmt := by
  intro stmt hstmt
  unfold armStmts at hstmt
  split at hstmt
  · exact ⟨h.block.1 hP.self stmt hstmt, hP.part hstmt⟩
  · obtain rfl := List.mem_singleton.1 hstmt
    exact ⟨hF, hP⟩

theorem everywhere_branches (h : Endures names F P) (hnames : names.IsTame) {arm arm' : Stmt}
    (hbranches : Branches names arm arm') (hF : F arm) (hP : Everywhere P arm) :
    isBranch arm' = true ∧ Everywhere P arm' := by
  cases hbranches with
  | intro calls =>
    obtain ⟨hcall, hcalls⟩ :=
      h.everywhere_call hnames (.inr rfl) calls (h.everywhere_armStmts hF hP)
    exact ⟨rfl, everywhere_iff.2 ⟨h.block.2 (List.forall_mem_singleton.2 hcall),
      List.forall_mem_singleton.2 hcalls⟩⟩

theorem everywhere_branchesArms (h : Endures names F P) (hnames : names.IsTame) {chain chain' : Stmt}
    (hbranches : BranchesArms names chain chain') (hF : F chain) (hP : Everywhere P chain) :
    isBranch chain' = true ∧ Everywhere P chain' := by
  induction hbranches with
  | @only span test yes yes' branches =>
    have hyes := h.everywhere_branches hnames branches (h.arms hP.self yes List.mem_cons_self)
      (hP.part (by simp [Node.children]))
    have htest : Everywhere P test := hP.part (by simp [Node.children])
    exact ⟨rfl, everywhere_iff.2 ⟨h.chain (by simpa using hyes.1),
      by simpa [Node.children] using ⟨htest, hyes.2⟩⟩⟩
  | @other span test yes yes' no no' branches rest ih =>
    have hyes := h.everywhere_branches hnames branches (h.arms hP.self yes List.mem_cons_self)
      (hP.part (by simp [Node.children]))
    have hno := ih (h.arms hP.self no (by simp)) (hP.part (by simp [Node.children]))
    have htest : Everywhere P test := hP.part (by simp [Node.children])
    exact ⟨rfl, everywhere_iff.2 ⟨h.chain (by simpa using ⟨hyes.1, hno.1⟩),
      by simpa [Node.children] using ⟨htest, hyes.2, hno.2⟩⟩⟩
  | last noChain branches => exact h.everywhere_branches hnames branches hF hP

theorem everywhere_branchesClause (h : Endures names F P) (hnames : names.IsTame) {clause clause' : Node}
    (hbranches : BranchesClause names clause clause') (hP : Everywhere P clause) :
    Everywhere P clause' := by
  cases hbranches with
  | kept empty => exact hP
  | @arm span test stmts call nonempty calls =>
    have hstmts : ∀ stmt ∈ stmts, F stmt ∧ Everywhere P stmt :=
      fun stmt hstmt ↦ ⟨h.clause.1 hP.self stmt hstmt, hP.part (by simp [Node.children, hstmt])⟩
    have hsplit : (splitCase stmts).1 ++ (splitCase stmts).2 = stmts := splitCase_append stmts
    have hcall := h.everywhere_call hnames (.inr rfl) calls fun stmt hstmt ↦
      hstmts stmt (hsplit ▸ List.mem_append_left _ hstmt)
    have hall : ∀ stmt ∈ call :: (splitCase stmts).2, F stmt ∧ Everywhere P stmt := by
      intro stmt hstmt
      obtain rfl | hstmt := List.mem_cons.1 hstmt
      · exact hcall
      · exact hstmts stmt (hsplit ▸ List.mem_append_right _ hstmt)
    refine everywhere_iff.2 ⟨h.clause.2 fun stmt hstmt ↦ (hall stmt hstmt).1, fun m hm ↦ ?_⟩
    obtain hm | hm := List.mem_append.1 hm
    · exact hP.part (List.mem_append_left _ hm)
    · exact (hall m hm).2

theorem everywhere_enclosures (h : Endures names F P) (hnames : names.IsTame)
    {stmts stmts' : List Stmt} (hencloses : Enclosures names stmts stmts')
    (hstmts : ∀ stmt ∈ stmts, F stmt ∧ Everywhere P stmt) :
    ∀ stmt ∈ stmts', F stmt ∧ Everywhere P stmt := by
  induction hencloses with
  | nil => exact hstmts
  | kept rest ih =>
    obtain ⟨hstmt, hrest⟩ := List.forall_mem_cons.1 hstmts
    exact List.forall_mem_cons.2 ⟨hstmt, ih hrest⟩
  | @block span inner inner' stmts stmts' inside rest ihinside ih =>
    obtain ⟨hstmt, hrest⟩ := List.forall_mem_cons.1 hstmts
    have hinner := ihinside fun stmt hm ↦ ⟨h.block.1 hstmt.2.self stmt hm, hstmt.2.part hm⟩
    refine List.forall_mem_cons.2 ⟨⟨h.branch rfl, everywhere_iff.2 ⟨?_, ?_⟩⟩, ih hrest⟩
    · exact h.block.2 fun stmt hm ↦ (hinner stmt hm).1
    · exact fun stmt hm ↦ (hinner stmt hm).2
  | chain safe branches calls rest ih =>
    obtain ⟨hstmt, hrest⟩ := List.forall_mem_cons.1 hstmts
    obtain ⟨hchain, hparts⟩ := h.everywhere_branchesArms hnames branches hstmt.1 hstmt.2
    refine List.forall_mem_cons.2 ⟨h.everywhere_call hnames (.inl rfl) calls ?_, ih hrest⟩
    simpa using ⟨h.branch hchain, hparts⟩
  | @switch span subject call clauses clauses' stmts stmts' safe branches calls rest ih =>
    obtain ⟨hstmt, hrest⟩ := List.forall_mem_cons.1 hstmts
    have hswitch : Everywhere P (.switchStmt span subject clauses') := by
      refine everywhere_iff.2 ⟨h.clauses branches hstmt.2.self, fun m hm ↦ ?_⟩
      obtain rfl | hm := List.mem_cons.1 hm
      · exact hstmt.2.part List.mem_cons_self
      · obtain ⟨clause, hclause, hbranches⟩ := exists_of_forall₂_right branches hm
        exact h.everywhere_branchesClause hnames hbranches
          (hstmt.2.part (List.mem_cons_of_mem _ hclause))
    refine List.forall_mem_cons.2 ⟨h.everywhere_call hnames (.inl rfl) calls ?_, ih hrest⟩
    simpa using ⟨h.switch, hswitch⟩

theorem everywhere_enclosed (h : Endures names (fun _ ↦ True) P) (hnames : names.IsTame) {body : Node}
    {inner : Span} {directives : List String} {stmts enclosed : List Stmt} (hbody : Everywhere P body)
    (hparts : Weave.bodyParts body = (inner, directives, stmts))
    (hencloses : Enclosures names stmts enclosed) : ∀ stmt ∈ enclosed, Everywhere P stmt := by
  have hstmts : ∀ stmt ∈ stmts, True ∧ Everywhere P stmt := by
    unfold Weave.bodyParts at hparts
    split at hparts
    · obtain ⟨-, -, rfl⟩ := hparts
      exact fun stmt hstmt ↦ ⟨trivial, hbody.part hstmt⟩
    · obtain ⟨-, -, rfl⟩ := hparts
      refine List.forall_mem_singleton.2 ⟨trivial, everywhere_iff.2 ⟨h.result.2, ?_⟩⟩
      exact List.forall_mem_singleton.2 (hbody.part List.mem_cons_self)
    · obtain ⟨-, -, rfl⟩ := hparts
      exact List.forall_mem_singleton.2 ⟨trivial, hbody⟩
  exact fun stmt hstmt ↦ (h.everywhere_enclosures hnames hencloses hstmts stmt hstmt).2

end Endures

end Condition

namespace Weave

open Node (Everywhere everywhere_iff)

def isBareNode : Node → Bool
  | .param _ _ false [] (.binding _ _) (some (.typeRef _ _ [])) none => true
  | .binding _ _ => true
  | .typeRef _ _ [] => true
  | _ => false

structure Wears (P : Node → Prop) : Prop where
  bare {n : Node} : isBareNode n = true → P n
  form {span : Span} {f : TypeForm} {parts parts' : List Ty} :
    P (.typeForm span f parts) → P (.typeForm span f parts')
  function {span fspan : Span} {isAbstract : Bool} {head : FuncHead} {tps : List Node}
    {this : Option Node} {hidden params : List Param} {result : Option Ty} {body : Node} :
    (∀ param ∈ hidden, isBareNode param = true) →
    P (.typeFunc span false isAbstract (.func fspan head tps this params result body)) →
    P (.func fspan head tps this params result body) →
    P (.typeFunc span false isAbstract (.func fspan head tps this (hidden ++ params) result body)) ∧
      P (.func fspan head tps this (hidden ++ params) result body)
  reference {span : Span} {path path' : List String} {args : List Ty} :
    P (.typeRef span path args) → P (.typeRef span path' args)
  declarator {span : Span} {target : Pattern} {definite : Bool} {type type' : Option Ty}
    {init : Option Expr} :
    P (.declarator span target definite type init) → P (.declarator span target definite type' init)

namespace Wears

variable {names : RuntimeNames} {P : Node → Prop}

theorem everywhere_hidden (h : Wears P) (hnames : names.IsTame) {hidden : List Param}
    (hread : Glue.hiddenParameters names = .ok hidden) :
    ∀ param ∈ hidden, isBareNode param = true ∧ Everywhere P param := by
  intro param hparam
  have hbare := hnames.hidden
  rw [hread] at hbare
  have hthis := List.all_eq_true.1 hbare param hparam
  split at hthis
  · next span mods place name tspan path =>
    have hleaf {n : Node} (hn : isBareNode n = true) (hchildren : n.children = []) : Everywhere P n :=
      everywhere_iff.2 ⟨h.bare hn, by simp [hchildren]⟩
    have hbinding : Everywhere P (.binding place name) := hleaf rfl rfl
    have htype : Everywhere P (.typeRef tspan path []) := hleaf rfl rfl
    refine ⟨rfl, everywhere_iff.2 ⟨h.bare rfl, ?_⟩⟩
    simpa [Node.children] using ⟨hbinding, htype⟩
  · simp at hthis

theorem everywhere_addToFunctionType (h : Wears P) {hidden : List Param}
    (hhidden : ∀ param ∈ hidden, isBareNode param = true ∧ Everywhere P param) {type : Ty}
    (hP : Everywhere P type) : Everywhere P (addToFunctionType hidden type) := by
  induction type using Node.induction_on_parts with
  | step type ih =>
    have hform {span : Span} {f : TypeForm} {parts : List Ty} (hP : Everywhere P (.typeForm span f parts))
        (ih : ∀ part ∈ parts, Everywhere P part → Everywhere P (addToFunctionType hidden part)) :
        Everywhere P (.typeForm span f (addToFirst hidden parts)) := by
      refine everywhere_iff.2 ⟨h.form hP.self, fun m hm ↦ ?_⟩
      obtain hm | ⟨part, hpart, rfl⟩ := mem_addToFirst hm
      · exact hP.part hm
      · exact ih part hpart (hP.part hpart)
    unfold addToFunctionType
    split
    · next span isAbstract fspan head tps this params result body =>
      have hf : Everywhere P (.func fspan head tps this params result body) :=
        hP.part List.mem_cons_self
      obtain ⟨htype, hfunc⟩ :=
        h.function (fun param hparam ↦ (hhidden param hparam).1) hP.self hf.self
      refine everywhere_iff.2 ⟨htype, List.forall_mem_singleton.2 (everywhere_iff.2 ⟨hfunc, ?_⟩)⟩
      intro m hm
      by_cases hmem : m ∈ hidden
      · exact (hhidden m hmem).2
      · exact hf.part (by simpa [Node.children, hmem] using hm)
    · exact hform hP fun part hpart ↦ ih part hpart
    · exact hform hP fun part hpart ↦ ih part hpart
    · exact hP

theorem everywhere_annotates (h : Wears P) (hnames : names.IsTame) {marked : Bool}
    {type type' : Option Ty} (hannotates : Annotates names marked type type')
    (hP : ∀ m ∈ type.toList, Everywhere P m) : ∀ m ∈ type'.toList, Everywhere P m := by
  cases hannotates with
  | kept => exact hP
  | @threaded type type' called retypes =>
    have htype : Everywhere P type := hP type (by simp)
    cases retypes with
    | intro found bare read =>
      simpa using h.everywhere_addToFunctionType (h.everywhere_hidden hnames read) htype

theorem everywhere_redeclares (h : Wears P) (hnames : names.IsTame) {marked : Bool} {item item' : Node}
    (hredeclares : Redeclares names marked item item') (hP : Everywhere P item) :
    Everywhere P item' := by
  cases hredeclares with
  | kept => exact hP
  | @annotated span target definite type type' init annotates =>
    have htype := h.everywhere_annotates hnames annotates fun m hm ↦ hP.part (by simp [Node.children, hm])
    refine everywhere_iff.2 ⟨h.declarator hP.self, fun m hm ↦ ?_⟩
    simp only [Node.children, List.mem_append] at hm
    obtain (hm | hm) | hm := hm
    · exact hP.part (by simp [Node.children, List.mem_singleton.1 hm])
    · exact htype m hm
    · exact hP.part (by simp [Node.children, Option.mem_toList.1 hm])

theorem everywhere_parts (h : Wears P) {site : Site} (hnames : site.options.runtime.IsTame)
    {n n₁ : Node} (halters : Alters site n n₁) (hP : Everywhere P n) :
    ∀ m ∈ n₁.children, Everywhere P m := by
  cases halters with
  | adjusted adjusts =>
    cases adjusts with
    | kept => exact fun m hm ↦ hP.part hm
    | method =>
      intro m hm
      refine hP.part ?_
      simp only [Node.children, List.mem_append] at hm ⊢
      exact hm.imp_left List.mem_of_mem_filter
    | @field span mods decorators key type type' init annotates =>
      intro m hm
      have htype := h.everywhere_annotates hnames annotates fun m hm ↦ hP.part (by simp [Node.children, hm])
      simp only [Node.children, List.mem_append] at hm
      obtain ((hm | hm) | hm) | hm := hm
      · exact hP.part (by simp [Node.children, List.mem_of_mem_filter hm])
      · exact hP.part (by simp [Node.children, List.mem_singleton.1 hm])
      · exact htype m hm
      · exact hP.part (by simp [Node.children, Option.mem_toList.1 hm])
    | param =>
      intro m hm
      refine hP.part ?_
      simp only [Node.children, List.append_assoc, List.mem_append] at hm ⊢
      exact hm.imp_left List.mem_of_mem_filter
    | vars redeclares =>
      intro m hm
      obtain ⟨item, hitem, hredeclares⟩ := exists_of_forall₂_right redeclares hm
      exact h.everywhere_redeclares hnames hredeclares (hP.part hitem)
    | @interfaceDecl span declared name scopes typeParams parents parents' members extended =>
      intro m hm
      simp only [Node.children, List.mem_append] at hm
      obtain (hm | hm) | hm := hm
      · exact hP.part (by simp [Node.children, hm])
      · obtain ⟨parent, hparent, hextends⟩ := exists_of_forall₂_right extended hm
        have hparent : Everywhere P parent := hP.part (by simp [Node.children, hparent])
        cases hextends with
        | kept => exact hparent
        | read watched => exact everywhere_iff.2 ⟨h.reference hparent.self, fun m hm ↦ hparent.part hm⟩
      · exact hP.part (by simp [Node.children, hm])
  | pair => exact fun m hm ↦ hP.part hm
  | fieldPattern => exact fun m hm ↦ hP.part hm

end Wears

section

variable {site : Site} {P : Node → Prop}
  (hendures : Condition.Endures site.options.runtime (fun _ ↦ True) P) (hwears : Wears P)
  (hnames : site.options.runtime.IsTame)

include hendures hnames

theorem everywhere_enclosedStmts {body : Node} (hbody : Everywhere P body) :
    ∀ m ∈ enclosedStmts site (bodyParts body).2.2, Everywhere P m := by
  rcases hrun : Condition.run (conditionSettings site) (bodyParts body).2.2 with ⟨enclosed | enclosed, tally⟩
  · simp [enclosedStmts, hrun]
  · rw [enclosedStmts, hrun]
    exact hendures.everywhere_enclosed hnames hbody rfl (Condition.enclosures_of_run hrun)

theorem everywhere_argNeeds {reifies : Bool} {arg : Expr} (harg : Everywhere P arg) :
    ∀ m ∈ argNeeds site reifies arg, Everywhere P m := by
  unfold argNeeds
  split
  · next body =>
    have hbody : Everywhere P body := harg.part (by simp [Node.children])
    split
    · exact everywhere_enclosedStmts hendures hnames hbody
    · exact hendures.everywhere_enclosed hnames hbody rfl (.refl _)
  · simp

include hwears

omit hendures in
theorem everywhere_threadedTypes {type : Ty} (htype : Everywhere P type) :
    ∀ m ∈ threadedTypes site type, Everywhere P m := by
  intro m hm
  obtain ⟨hidden, hhidden, rfl⟩ := List.mem_map.1 hm
  cases hread : Glue.hiddenParameters site.options.runtime with
  | error f => simp [hread, Except.toOption] at hhidden
  | ok params =>
    obtain rfl : hidden = params := by simpa [hread, Except.toOption] using hhidden
    exact hwears.everywhere_addToFunctionType (hwears.everywhere_hidden hnames hread) htype

theorem everywhere_stepNeeds {n : Node} (hn : Everywhere P n) :
    ∀ m ∈ stepNeeds site n, Everywhere P m := by
  intro m hmem
  obtain hm | hm := List.mem_append.1 hmem
  · exact hn.part hm
  clear hmem
  split at hm
  · next body =>
    have hbody : Everywhere P body := hn.part (by simp [Node.children])
    obtain hm | hm := List.mem_append.1 hm
    · exact everywhere_enclosedStmts hendures hnames hbody m hm
    · exact hbody.part hm
  · next args =>
    have hargs {reifies : Bool} (hm : m ∈ args.flatMap (argNeeds site reifies)) : Everywhere P m := by
      obtain ⟨arg, harg, hm⟩ := List.mem_flatMap.1 hm
      exact everywhere_argNeeds hendures hnames (hn.part (by simp [Node.children, harg])) m hm
    exact (List.mem_append.1 hm).elim hargs hargs
  · obtain ⟨type, htype, hm⟩ := List.mem_flatMap.1 hm
    exact everywhere_threadedTypes hwears hnames
      (hn.part (by simp [Node.children, Option.mem_toList.1 htype])) m hm
  · obtain ⟨item, hitem, hm⟩ := List.mem_flatMap.1 hm
    have hitem : Everywhere P item := hn.part hitem
    unfold threadedDeclarators at hm
    split at hm
    · next type init =>
      obtain ⟨type', htype', rfl⟩ := List.mem_map.1 hm
      have htype := everywhere_threadedTypes hwears hnames (hitem.part (by simp [Node.children])) type' htype'
      refine everywhere_iff.2 ⟨hwears.declarator hitem.self, fun m hm ↦ ?_⟩
      simp only [Node.children, Option.toList_some, List.mem_append, List.mem_singleton] at hm
      obtain (rfl | rfl) | hm := hm
      · exact hitem.part (by simp [Node.children])
      · exact htype
      · exact hitem.part (by simp [Node.children, Option.mem_toList.1 hm])
    · simp at hm
  · obtain ⟨parent, hparent, hm⟩ := List.mem_flatMap.1 hm
    have hparent : Everywhere P parent := hn.part (by simp [Node.children, hparent])
    unfold extendedNames at hm
    split at hm
    · obtain rfl := List.mem_singleton.1 hm
      exact everywhere_iff.2 ⟨hwears.reference hparent.self, fun m hm ↦ hparent.part hm⟩
    · simp at hm
  · simp at hm

theorem halts_walk {u : Upkeep} (hstops : u.stops)
    (hnotes : ∀ n, Everywhere P n → ∀ note, StepNote u site n note → u.allows note) (depth : Nat) {n : Node}
    (hn : Everywhere P n) : Halts u (walk site depth n) := by
  induction depth generalizing n with
  | zero => exact fun _ _ ↦ .inl ⟨hstops, rfl⟩
  | succ depth ih =>
    refine halts_step (hnotes n hn) fun m hm ↦ ih ?_
    exact everywhere_stepNeeds hendures hwears hnames hn m hm

theorem holds_of_walkAll {u : Upkeep} (hstops : u.stops)
    (hnotes : ∀ n, Everywhere P n → ∀ note, StepNote u site n note → u.allows note)
    (hinitial : u.holds (initial site.options.filePath)) {depth : Nat} {stmts stmts' : List Stmt}
    {s : State} (hstmts : ∀ stmt ∈ stmts, Everywhere P stmt)
    (hwalk : walkAll site depth stmts = some (stmts', s)) : u.holds s := by
  have hhalts : Halts u (stmts.mapM (walk site depth)) := halts_mapM fun stmt hstmt ↦
    halts_walk hendures hwears hnames hstops hnotes depth (hstmts stmt hstmt)
  obtain ⟨-, hnone⟩ | ⟨_, _, hsome, hs, -⟩ := hhalts _ hinitial
  · exact absurd (hwalk.symm.trans hnone) (by simp)
  · obtain ⟨-, rfl⟩ := Prod.mk.inj (Option.some.inj (hwalk.symm.trans hsome))
    exact hs

end

end Weave

end Recompose
