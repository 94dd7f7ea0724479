import Recompose.Proofs.Condition

namespace Recompose

open Script

theorem exists_of_forall₂_right {α β : Type} {R : α → β → Prop} {xs : List α} {ys : List β}
    (h : List.Forall₂ R xs ys) {y : β} (hy : y ∈ ys) : ∃ x ∈ xs, R x y := by
  induction h with
  | nil => simp at hy
  | cons head _ ih =>
    rcases List.mem_cons.1 hy with rfl | hy
    · exact ⟨_, List.mem_cons_self, head⟩
    · obtain ⟨x, hx, hR⟩ := ih hy
      exact ⟨x, List.mem_cons_of_mem _ hx, hR⟩

namespace Condition

def armStmts : Stmt → List Stmt
  | .block _ stmts => stmts
  | stmt => [stmt]

inductive Branches (names : RuntimeNames) (arm : Stmt) : Stmt → Prop
  | intro {call : Stmt} (calls : Glue.closureCall names.conditionBranch (armStmts arm) = .ok call) :
      Branches names arm (Glue.block [call])

inductive BranchesArms (names : RuntimeNames) : Stmt → Stmt → Prop
  | only {span : Span} {test yes yes' : Node} (branches : Branches names yes yes') :
      BranchesArms names (.ifStmt span test yes none) (.ifStmt span test yes' none)
  | other {span : Span} {test yes yes' no no' : Node} (branches : Branches names yes yes')
      (rest : BranchesArms names no no') :
      BranchesArms names (.ifStmt span test yes (some no)) (.ifStmt span test yes' (some no'))
  | last {arm arm' : Stmt} (noChain : ∀ span test yes no, arm ≠ .ifStmt span test yes no)
      (branches : Branches names arm arm') : BranchesArms names arm arm'

/-- A case is put into a branch up to its own `break`. A case with nothing before it is kept. -/
inductive BranchesClause (names : RuntimeNames) : Node → Node → Prop
  | kept {clause : Node} (empty : (splitClause clause).1 = []) : BranchesClause names clause clause
  | arm {span : Span} {test : Option Node} {stmts : List Stmt} {call : Stmt}
      (nonempty : (splitCase stmts).1 ≠ [])
      (calls : Glue.closureCall names.conditionBranch (splitCase stmts).1 = .ok call) :
      BranchesClause names (.clause span test stmts) (.clause span test (call :: (splitCase stmts).2))

/-- Constructs without hazards are put into condition scopes, in a list and in its plain blocks. -/
inductive Enclosures (names : RuntimeNames) : List Stmt → List Stmt → Prop
  | nil : Enclosures names [] []
  | kept {stmt : Stmt} {stmts stmts' : List Stmt} (rest : Enclosures names stmts stmts') :
      Enclosures names (stmt :: stmts) (stmt :: stmts')
  | block {span : Span} {inner inner' stmts stmts' : List Stmt} (inside : Enclosures names inner inner')
      (rest : Enclosures names stmts stmts') :
      Enclosures names (.block span inner :: stmts) (.block span inner' :: stmts')
  | chain {span : Span} {test yes chain call : Stmt} {no : Option Stmt} {stmts stmts' : List Stmt}
      (safe : chainHazards (.ifStmt span test yes no) = [])
      (branches : BranchesArms names (.ifStmt span test yes no) chain)
      (calls : Glue.closureCall names.conditionScope [chain] = .ok call)
      (rest : Enclosures names stmts stmts') :
      Enclosures names (.ifStmt span test yes no :: stmts) (call :: stmts')
  | switch {span : Span} {subject call : Stmt} {clauses clauses' : List Node}
      {stmts stmts' : List Stmt} (safe : switchHazards clauses = [])
      (branches : List.Forall₂ (BranchesClause names) clauses clauses')
      (calls : Glue.closureCall names.conditionScope [.switchStmt span subject clauses'] = .ok call)
      (rest : Enclosures names stmts stmts') :
      Enclosures names (.switchStmt span subject clauses :: stmts) (call :: stmts')

theorem Enclosures.refl {names : RuntimeNames} (stmts : List Stmt) : Enclosures names stmts stmts := by
  induction stmts with
  | nil => exact .nil
  | cons stmt stmts ih => exact .kept ih

def Allows {α : Type} (P : α → Prop) (a : ConditionM α) : Prop :=
  ∀ ⦃t r t'⦄, a.run.run t = (.ok r, t') → P r

section

variable {α β : Type} {P : α → Prop} {Q : β → Prop} {s : ConditionSettings}

theorem allows_pure {r : α} (h : P r) : Allows P (pure r) := by
  intro t r' t' hr
  obtain rfl : r = r' := Except.ok.inj (congrArg Prod.fst hr)
  exact h

theorem allows_bind {a : ConditionM α} {f : α → ConditionM β} (ha : Allows P a)
    (hf : ∀ r, P r → Allows Q (f r)) : Allows Q (a >>= f) := by
  intro t r' t' hr
  rw [ExceptT.run_bind, StateT.run_bind] at hr
  rcases hrun : a.run.run t with ⟨result, t₁⟩
  rw [hrun] at hr
  cases result with
  | ok r => exact hf r (ha hrun) hr
  | error failure =>
    have herror : (.error failure : Except Failure β) = .ok r' := congrArg Prod.fst hr
    exact absurd herror (by simp)

theorem allows_lift (e : Except Failure α) : Allows (fun r ↦ e = .ok r) (liftM e) := by
  cases e with
  | ok r => exact allows_pure rfl
  | error failure =>
    intro t r t' hr
    have herror : (.error failure : Except Failure α) = .ok r := congrArg Prod.fst hr
    exact absurd herror (by simp)

theorem allows_modify (f : ConditionTally → ConditionTally) :
    Allows (fun _ ↦ True) (modify f : ConditionM Unit) := by
  intro t r t' _
  trivial

theorem verdict_eq_enclose {policy : EarlyExitPolicy} {hs : List Hazard}
    (h : verdict policy hs = .enclose) : hs = [] := by
  unfold verdict at h
  split at h
  · rfl
  · split at h
    · exact absurd h (by simp)
    · split at h <;> exact absurd h (by simp)

theorem accepts_allows (construct : String) (hs : List Hazard) :
    Allows (fun r ↦ r = true → hs = []) (accepts s construct hs) := by
  unfold accepts
  split
  · next h => exact allows_pure fun _ ↦ verdict_eq_enclose h
  · exact allows_pure fun h ↦ absurd h (by simp)
  · exact allows_bind (allows_modify _) fun _ _ ↦ allows_pure fun h ↦ absurd h (by simp)

theorem branch_allows (arm : Stmt) : Allows (Branches s.names arm) (branch s arm) := by
  have heq : branch s arm =
      (do return Glue.block [← Glue.closureCall s.names.conditionBranch (armStmts arm)]) := by
    cases arm <;> rfl
  rw [heq]
  exact allows_bind (allows_lift _) fun call calls ↦ allows_pure (.intro calls)

theorem branchArms_allows (chain : Stmt) :
    Allows (BranchesArms s.names chain) (branchArms s chain) := by
  fun_induction chainHazards chain with
  | case1 span test yes no ih =>
    cases no with
    | none =>
      rw [branchArms_if]
      exact allows_bind (branch_allows yes) fun yes' branches ↦ allows_pure (.only branches)
    | some no =>
      rw [branchArms_else]
      refine allows_bind (branch_allows yes) fun yes' branches ↦ ?_
      exact allows_bind ih fun no' rest ↦ allows_pure (.other branches rest)
  | case2 arm noChain =>
    rw [branchArms_arm noChain]
    intro t r t' hr
    exact .last noChain (branch_allows arm hr)

theorem branchClause_allows (clause : Node) :
    Allows (BranchesClause s.names clause) (branchClause s clause) := by
  unfold branchClause
  split
  · next span test stmts =>
    dsimp only
    split
    · next empty => exact allows_pure (.kept (List.isEmpty_iff.1 empty))
    · next nonempty =>
      exact allows_bind (allows_lift _) fun call calls ↦ allows_pure (.arm (by simpa using nonempty) calls)
  · next hclause =>
    refine allows_pure (.kept ?_)
    unfold splitClause
    split
    · exact (hclause _ _ _ rfl).elim
    · rfl

theorem mapM_allows {f : Node → ConditionM Node} {R : Node → Node → Prop} {nodes : List Node}
    (hf : ∀ n ∈ nodes, Allows (R n) (f n)) : Allows (List.Forall₂ R nodes) (nodes.mapM f) := by
  induction nodes with
  | nil => exact allows_pure .nil
  | cons n nodes ih =>
    rw [List.mapM_cons]
    refine allows_bind (hf n List.mem_cons_self) fun n' hn ↦ ?_
    refine allows_bind (ih fun n hm ↦ hf n (List.mem_cons_of_mem _ hm)) fun nodes' hnodes ↦ ?_
    exact allows_pure (.cons hn hnodes)

theorem scope_allows (construct : Stmt) :
    Allows (fun call ↦ Glue.closureCall s.names.conditionScope [construct] = .ok call)
      (scope s construct) :=
  allows_bind (allows_modify _) fun _ _ ↦ allows_lift _

/-- What comes of one statement stands in the list before whatever comes of the rest. -/
def EnclosesTo (names : RuntimeNames) (stmt stmt' : Stmt) : Prop :=
  ∀ {stmts stmts'}, Enclosures names stmts stmts' → Enclosures names (stmt :: stmts) (stmt' :: stmts')

theorem encloseAll_allows {stmts : List Stmt}
    (h : ∀ stmt ∈ stmts, Allows (EnclosesTo s.names stmt) (enclose s stmt)) :
    Allows (Enclosures s.names stmts) (encloseAll s stmts) := by
  induction stmts with
  | nil => exact allows_pure .nil
  | cons stmt stmts ih =>
    rw [encloseAll]
    refine allows_bind (h stmt List.mem_cons_self) fun stmt' hstmt ↦ ?_
    refine allows_bind (ih fun stmt hm ↦ h stmt (List.mem_cons_of_mem _ hm)) fun stmts' rest ↦ ?_
    exact allows_pure (hstmt rest)

theorem enclose_allows (stmt : Stmt) : Allows (EnclosesTo s.names stmt) (enclose s stmt) := by
  induction stmt using Node.induction_on_parts with
  | step stmt ih =>
    unfold enclose
    split
    · next span inner =>
      refine allows_bind (encloseAll_allows ih) fun inner' inside ↦ ?_
      exact allows_pure fun rest ↦ .block inside rest
    · next span test yes no =>
      refine allows_bind (accepts_allows "if" _) fun accepted safe ↦ ?_
      split
      · next hyes =>
        refine allows_bind (branchArms_allows _) fun chain branches ↦ ?_
        intro t call t' hcall
        exact fun rest ↦ .chain (safe hyes) branches (scope_allows chain hcall) rest
      · exact allows_pure .kept
    · next span subject clauses =>
      refine allows_bind (accepts_allows "switch" _) fun accepted safe ↦ ?_
      split
      · next hyes =>
        refine allows_bind (mapM_allows fun clause _ ↦ branchClause_allows clause)
          fun clauses' branches ↦ ?_
        intro t call t' hcall
        exact fun rest ↦ .switch (safe hyes) branches (scope_allows _ hcall) rest
      · exact allows_pure .kept
    · exact allows_pure .kept

theorem enclosures_of_run {stmts stmts' : List Stmt} {tally : ConditionTally}
    (h : run s stmts = (.ok stmts', tally)) : Enclosures s.names stmts stmts' :=
  encloseAll_allows (fun stmt _ ↦ enclose_allows stmt) h

end

def closure (stmts : List Stmt) : Func :=
  .func .none { form := .arrow } [] none [] none (.code .none [] stmts)

/-- A generated call, whatever its name is made of, runs its statements in a closure without a span. -/
theorem shape_of_closureCall {callee : String} {stmts : List Stmt} {call : Stmt}
    (h : Glue.closureCall callee stmts = .ok call) :
    ∃ span inner optional isPure f types head tps this params result directives args,
      call = .exprStmt span (.apply inner (.call optional isPure) f types
        (.func .none head tps this params result (.code .none directives stmts) :: args)) ∧
      head.form = .arrow := by
  unfold Glue.closureCall at h
  cases hread : Glue.statement (callee ++ "(() => \x7b\x7d);") with
  | error failure => simp [hread, bind, Except.bind] at h
  | ok stmt =>
    simp only [hread, bind, Except.bind] at h
    split at h
    · obtain rfl := Except.ok.inj h
      exact ⟨_, _, _, _, _, _, _, _, _, _, _, _, _, rfl, rfl⟩
    · simp at h

def isBareCall (callee : String) : Except Failure Stmt → Bool
  | .ok (.exprStmt _ (.apply _ (.call _ _) (.ref _ name) []
      [.func _ head [] none [] none (.code _ [] _)])) => name == callee && head == { form := .arrow }
  | _ => false

set_option maxRecDepth 100000 in
theorem isBareCall_statement {callee : String} (h : Execution.isCondition {} callee) :
    isBareCall callee (Glue.statement (callee ++ "(() => \x7b\x7d);")) := by
  rcases Bool.or_eq_true_iff.1 h with h | h
  · obtain rfl := of_decide_eq_true h
    decide +kernel
  · obtain rfl := of_decide_eq_true h
    decide +kernel

theorem exists_of_isBareCall {callee : String}
    (h : isBareCall callee (Glue.statement (callee ++ "(() => \x7b\x7d);"))) :
    ∃ span inner optional isPure place, ∀ stmts, Glue.closureCall callee stmts =
      .ok (.exprStmt span (.apply inner (.call optional isPure) (.ref place callee) []
        [closure stmts])) := by
  unfold isBareCall at h
  split at h
  · next span inner optional isPure place name fspan head cspan stmts heq =>
    obtain ⟨hname, hhead⟩ := Bool.and_eq_true_iff.1 h
    obtain rfl := eq_of_beq hname
    obtain rfl := eq_of_beq hhead
    refine ⟨span, inner, optional, isPure, place, fun stmts ↦ ?_⟩
    rw [Glue.closureCall, heq]
    rfl
  · exact absurd h (by simp)

theorem exists_closureCall {callee : String} (h : Execution.isCondition {} callee) :
    ∃ span inner optional isPure place, ∀ stmts, Glue.closureCall callee stmts =
      .ok (.exprStmt span (.apply inner (.call optional isPure) (.ref place callee) []
        [closure stmts])) :=
  exists_of_isBareCall (isBareCall_statement h)

theorem exists_of_closureCall {callee : String} (h : Execution.isCondition {} callee) {stmts : List Stmt}
    {call : Stmt} (hcall : Glue.closureCall callee stmts = .ok call) :
    ∃ span inner optional isPure place,
      call = .exprStmt span (.apply inner (.call optional isPure) (.ref place callee) []
        [closure stmts]) := by
  obtain ⟨span, inner, optional, isPure, place, heq⟩ := exists_closureCall h
  rw [heq] at hcall
  exact ⟨span, inner, optional, isPure, place, (Except.ok.inj hcall).symm⟩

end Condition

end Recompose
