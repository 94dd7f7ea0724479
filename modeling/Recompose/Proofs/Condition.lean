import Mathlib.Data.List.TakeDrop
import Recompose.Condition
import Recompose.Proofs.Jump

namespace Recompose.Condition

open Script Execution

def Stays {V : Type} : Completion V → Prop
  | .return _ | .break _ | .continue _ => False
  | _ => True

section

variable {V σ : Type} {a : Step V σ} {w : World V σ} {bound : Nat}

theorem stays_of_foretold {c : Completion V} (h : Foretold {} [] c) : Stays c := by
  rcases c with _ | _ | _ | (_ | label) | (_ | label) | _
  all_goals simp_all [Foretold, Stays, JumpTargets.breakable, JumpTargets.continuable]

theorem closing_eq_self (h : Ends Stays a) : closing a = a := by
  funext m
  have hm := h m
  unfold closing
  rcases hr : a m with ⟨c, m'⟩
  rw [hr] at hm
  cases c <;> first | rfl | exact hm.elim

theorem ends_execAll_of_armHazards {stmts : List Stmt} (h : armHazards stmts = []) :
    Ends Stays (execAll {} w bound .unnoted stmts) := by
  refine ends_execAll trivial fun stmt hs ↦ (ends_exec stmt {} []).mono fun c hc ↦ ?_
  rw [List.flatMap_eq_nil_iff.1 h stmt hs] at hc
  exact stays_of_foretold hc

end

def isClosureCall (callee : String) : Except Failure Stmt → Bool
  | .ok (.exprStmt _ (.apply _ (.call _ _) (.ref _ name) _ [.func _ head _ _ params _ _])) =>
    name = callee && isPlainArrow head params
  | _ => false

set_option maxRecDepth 100000 in
theorem isClosureCall_statement {callee : String} (h : isCondition {} callee) :
    isClosureCall callee (Glue.statement (callee ++ "(() => \x7b\x7d);")) := by
  rcases Bool.or_eq_true_iff.1 h with h | h
  · obtain rfl := of_decide_eq_true h
    decide +kernel
  · obtain rfl := of_decide_eq_true h
    decide +kernel

theorem closureCall_eq_ok {callee : String} (h : isCondition {} callee) (body : List Stmt) :
    ∃ stmt, Glue.closureCall callee body = .ok stmt ∧
      ∀ {V σ : Type} (w : World V σ) (bound : Nat) (x : Exits) (labels : List String),
        exec {} w bound x labels stmt = closing (execAll {} w bound .unnoted body) := by
  have hshape := isClosureCall_statement h
  unfold isClosureCall at hshape
  split at hshape
  · next span call optional isPure site name types fspan head tps this params result inner heq =>
    obtain ⟨hname, harrow⟩ := Bool.and_eq_true_iff.1 hshape
    obtain rfl := of_decide_eq_true hname
    obtain ⟨form, fname, isAsync, isGenerator, declared, parenthesised, isPure'⟩ := head
    obtain rfl : form = .arrow := by simp_all [isPlainArrow]
    refine ⟨_, by rw [Glue.closureCall, heq]; rfl, fun w bound x labels ↦ ?_⟩
    rw [exec, execExpr_eq]
    simp [conditionBody?, h, harrow]
  · exact absurd hshape (by simp)

def Answers {α : Type} (P : α → Prop) (a : ConditionM α) : Prop :=
  ∀ t, ∃ r t', a.run.run t = (.ok r, t') ∧ P r

section

variable {α β : Type} {P : α → Prop} {Q : β → Prop}

theorem answers_pure {r : α} (h : P r) : Answers P (pure r) :=
  fun t ↦ ⟨r, t, rfl, h⟩

theorem answers_bind {a : ConditionM α} {f : α → ConditionM β} (ha : Answers P a)
    (hf : ∀ r, P r → Answers Q (f r)) : Answers Q (a >>= f) := by
  intro t
  obtain ⟨r, t', hr, hp⟩ := ha t
  obtain ⟨r', t'', hr', hq⟩ := hf r hp t'
  refine ⟨r', t'', ?_, hq⟩
  simp only [ExceptT.run_bind, StateT.run_bind]
  rw [hr]
  exact hr'

theorem answers_lift {r : α} {e : Except Failure α} (he : e = .ok r) (h : P r) :
    Answers P (liftM e) := by
  subst he
  exact answers_pure h

theorem answers_modify (f : ConditionTally → ConditionTally) :
    Answers (fun _ ↦ True) (modify f : ConditionM Unit) :=
  fun t ↦ ⟨(), f t, rfl, trivial⟩

end

def SameRun (a b : Stmt) : Prop :=
  ∀ {V σ : Type} (w : World V σ) (bound : Nat),
    exec {} w bound .unnoted [] a = exec {} w bound .unnoted [] b

def KeepsJumps (a : Stmt) : Prop :=
  ∀ {V σ : Type} (w : World V σ) (bound : Nat), Ends Stays (exec {} w bound .unnoted [] a)

variable {s : ConditionSettings}

theorem keepsJumps_of_armHazards {arm : Stmt} (h : armHazards [arm] = []) : KeepsJumps arm := by
  intro V σ w bound
  rw [← execAll_singleton]
  exact ends_execAll_of_armHazards h

theorem branch_answers (hn : s.names = {}) {arm : Stmt} (h : KeepsJumps arm) :
    Answers (SameRun · arm) (branch s arm) := by
  have harm (stmts : List Stmt) (hs : ∀ {V σ : Type} (w : World V σ) (bound : Nat),
      execAll {} w bound .unnoted stmts = exec {} w bound .unnoted [] arm) :
      Answers (SameRun · arm)
        (do return Glue.block [← Glue.closureCall s.names.conditionBranch stmts]) := by
    have hc : isCondition {} s.names.conditionBranch := by rw [hn]; rfl
    obtain ⟨call, hcall, hrun⟩ := closureCall_eq_ok hc stmts
    refine answers_bind (answers_lift hcall rfl) fun r hr ↦ answers_pure fun w bound ↦ ?_
    subst hr
    calc exec {} w bound .unnoted [] (Glue.block [call])
        = exec {} w bound .unnoted [] call := execAll_singleton call
      _ = closing (execAll {} w bound .unnoted stmts) := hrun w bound .unnoted []
      _ = exec {} w bound .unnoted [] arm := by rw [hs, closing_eq_self (h w bound)]
  unfold branch
  split
  · exact harm _ fun w bound ↦ rfl
  · exact harm _ fun w bound ↦ execAll_singleton _

theorem keepsJumps_of_chainHazards {chain : Stmt} (h : chainHazards chain = []) :
    KeepsJumps chain := by
  fun_induction chainHazards chain with
  | case1 span test yes no ih =>
    obtain ⟨hyes, hno⟩ := List.append_eq_nil_iff.1 h
    intro V σ w bound
    refine ends_choose (fun _ ↦ trivial) (keepsJumps_of_armHazards hyes w bound) ?_
    cases no with
    | none => exact ends_done trivial
    | some no => exact ih hno w bound
  | case2 arm _ => exact keepsJumps_of_armHazards h

-- The equations that Lean derives for this function are too slow to make.
theorem branchArms_if (span : Span) (test yes : Node) : branchArms s (.ifStmt span test yes none) =
    (do return .ifStmt span test (← branch s yes) none) := rfl

theorem branchArms_else (span : Span) (test yes no : Node) :
    branchArms s (.ifStmt span test yes (some no)) =
      (do
        let yes ← branch s yes
        return .ifStmt span test yes (some (← branchArms s no))) := rfl

theorem branchArms_arm {arm : Stmt} (h : ∀ span test yes no, arm ≠ .ifStmt span test yes no) :
    branchArms s arm = branch s arm := by
  cases arm
  case ifStmt span test yes no => exact absurd rfl (h span test yes no)
  all_goals rfl

theorem branchArms_answers (hn : s.names = {}) {chain : Stmt} (h : chainHazards chain = []) :
    Answers (SameRun · chain) (branchArms s chain) := by
  fun_induction chainHazards chain with
  | case1 span test yes no ih =>
    obtain ⟨hyes, hno⟩ := List.append_eq_nil_iff.1 h
    have hbranch := branch_answers hn (keepsJumps_of_armHazards hyes)
    cases no with
    | none =>
      rw [branchArms_if]
      refine answers_bind hbranch fun yes' hyes' ↦ answers_pure fun w bound ↦ ?_
      simp only [exec, hyes' w bound]
    | some no =>
      rw [branchArms_else]
      refine answers_bind hbranch fun yes' hyes' ↦ answers_bind (ih hno) fun no' hno' ↦ ?_
      refine answers_pure fun w bound ↦ ?_
      simp only [exec, execPart, hyes' w bound, hno' w bound]
  | case2 arm hif =>
    rw [branchArms_arm hif]
    exact branch_answers hn (keepsJumps_of_armHazards h)

theorem splitCase_append (stmts : List Stmt) :
    (splitCase stmts).1 ++ (splitCase stmts).2 = stmts := by
  rw [splitCase, List.span_eq_takeWhile_dropWhile]
  exact List.takeWhile_append_dropWhile

theorem splitCase_rest (stmts : List Stmt) :
    (splitCase stmts).2 = [] ∨ ∃ span dead, (splitCase stmts).2 = .breakStmt span none :: dead := by
  rw [splitCase, List.span_eq_takeWhile_dropWhile]
  induction stmts with
  | nil => exact .inl rfl
  | cons stmt stmts ih =>
    rw [List.dropWhile_cons]
    split
    · exact .inr ⟨_, _, rfl⟩
    · exact ih

theorem ends_rest {V σ : Type} (w : World V σ) (bound : Nat) (stmts : List Stmt) :
    Ends (fun c ↦ c = .break none ∨ Stays c)
      (execAll {} w bound .unnoted (splitCase stmts).2) := by
  rcases splitCase_rest stmts with h | ⟨span, dead, h⟩
  · rw [h]
    exact ends_done (.inr trivial)
  · rw [h]
    exact fun m ↦ .inl rfl

theorem switchHazards_eq_nil {clauses : List Node} (h : switchHazards clauses = []) {clause : Node}
    (hc : clause ∈ clauses) : armHazards (splitClause clause).1 = [] := by
  have hlength := congrArg List.length h
  rw [switchHazards, List.length_mergeSort, List.length_nil, List.length_eq_zero_iff] at hlength
  obtain ⟨harms, -⟩ := List.append_eq_nil_iff.1 hlength
  exact List.flatMap_eq_nil_iff.1 harms _ (List.mem_map_of_mem hc)

structure SameClause (a b : Node) : Prop where
  test_eq : clauseTest a = clauseTest b
  isDefault_eq : isDefault a = isDefault b
  exec_eq : ∀ {V σ : Type} (w : World V σ) (bound : Nat),
    execClause {} w bound .unnoted a = execClause {} w bound .unnoted b

theorem SameClause.refl (clause : Node) : SameClause clause clause :=
  ⟨rfl, rfl, fun _ _ ↦ rfl⟩

section

variable {V σ : Type} {w : World V σ} {bound : Nat} {clauses clauses' : List Node}

theorem clauseTest_congr (h : List.Forall₂ SameClause clauses clauses') :
    clauses.map clauseTest = clauses'.map clauseTest := by
  induction h with
  | nil => rfl
  | cons hc _ ih => rw [List.map_cons, List.map_cons, ih, hc.test_eq]

theorem findIdx?_congr (h : List.Forall₂ SameClause clauses clauses') :
    clauses.findIdx? isDefault = clauses'.findIdx? isDefault := by
  induction h with
  | nil => rfl
  | cons hc _ ih => rw [List.findIdx?_cons, List.findIdx?_cons, ih, hc.isDefault_eq]

theorem execFrom_congr (h : List.Forall₂ SameClause clauses clauses') (i : Nat) :
    execFrom {} w bound .unnoted i clauses = execFrom {} w bound .unnoted i clauses' := by
  induction h generalizing i with
  | nil => rfl
  | cons hc _ ih =>
    cases i with
    | zero => simp only [execFrom, ih, hc.exec_eq w bound]
    | succ i => simp only [execFrom, ih]

theorem switch_congr (h : List.Forall₂ SameClause clauses clauses') (span : Span) (subject : Node) :
    SameRun (.switchStmt span subject clauses) (.switchStmt span subject clauses') := by
  intro V σ w bound
  simp only [exec, clauseTest_congr h, findIdx?_congr h, execFrom_congr h]

end

theorem branchClause_answers (hn : s.names = {}) {clause : Node}
    (h : armHazards (splitClause clause).1 = []) :
    Answers (SameClause · clause) (branchClause s clause) := by
  fun_cases branchClause s clause with
  | case1 span test stmts arm rest hsplit hempty => exact answers_pure (.refl _)
  | case2 span test stmts arm rest hsplit hempty =>
    have hc : isCondition {} s.names.conditionBranch := by rw [hn]; rfl
    obtain ⟨call, hcall, hrun⟩ := closureCall_eq_ok hc arm
    refine answers_bind (answers_lift hcall rfl) fun r hr ↦ answers_pure ?_
    subst hr
    refine ⟨rfl, by cases test <;> rfl, fun w bound ↦ ?_⟩
    have hstmts : arm ++ rest = stmts := by
      have happend := splitCase_append stmts
      rwa [hsplit] at happend
    calc execAll {} w bound .unnoted (call :: rest)
        = seq (closing (execAll {} w bound .unnoted arm)) (execAll {} w bound .unnoted rest) := by
          rw [execAll, hrun]
      _ = seq (execAll {} w bound .unnoted arm) (execAll {} w bound .unnoted rest) := by
          rw [splitClause, hsplit] at h
          rw [closing_eq_self (ends_execAll_of_armHazards h)]
      _ = execAll {} w bound .unnoted stmts := by rw [← hstmts, execAll_append]
  | case3 clause _ => exact answers_pure (.refl _)

theorem keepsJumps_of_switchHazards {clauses : List Node} (h : switchHazards clauses = [])
    (span : Span) (subject : Node) : KeepsJumps (.switchStmt span subject clauses) := by
  intro V σ w bound
  have hfrom (i : Nat) : Ends (fun c ↦ c = .break none ∨ Stays c)
      (execFrom {} w bound .unnoted i clauses : Step V σ) := by
    refine ends_execFrom (.inr trivial) (fun clause hc ↦ ends_execClause (.inr trivial) ?_) i
    rintro span test stmts rfl
    rw [← splitCase_append stmts, execAll_append]
    have harm := switchHazards_eq_nil h hc
    exact ends_seq ((ends_execAll_of_armHazards harm).mono fun c hs ↦ .inr (.inr hs))
      (ends_rest w bound stmts)
  refine ends_act (fun _ ↦ trivial) fun v ↦ ends_breaking trivial (ends_select
    (fun _ ↦ .inr trivial) _ _ ?_ fun j _ ↦ hfrom j)
  split
  · exact hfrom _
  · exact ends_done (.inr trivial)

theorem scope_answers (hn : s.names = {}) {construct construct' : Stmt}
    (h : KeepsJumps construct) (hsame : SameRun construct' construct) :
    Answers (SameRun · construct) (scope s construct') := by
  have hc : isCondition {} s.names.conditionScope := by rw [hn]; rfl
  obtain ⟨call, hcall, hrun⟩ := closureCall_eq_ok hc [construct']
  refine answers_bind (answers_modify _) fun _ _ ↦ answers_lift hcall fun w bound ↦ ?_
  rw [hrun, execAll_singleton, hsame, closing_eq_self (h w bound)]

theorem accepts_answers (construct : String) (hs : List Hazard) :
    Answers (fun accepted : Bool ↦ accepted = true → hs = []) (accepts s construct hs) := by
  unfold accepts
  split
  · next h =>
    refine answers_pure fun _ ↦ ?_
    unfold verdict at h
    grind
  · exact answers_pure (by simp)
  · exact answers_bind (answers_modify _) fun _ _ ↦ answers_pure (by simp)

theorem answers_mapM {f : Node → ConditionM Node} {R : Node → Node → Prop} {nodes : List Node}
    (h : ∀ node ∈ nodes, Answers (R · node) (f node)) :
    Answers (List.Forall₂ R · nodes) (nodes.mapM f) := by
  induction nodes with
  | nil => exact answers_pure .nil
  | cons node nodes ih =>
    rw [List.mapM_cons]
    refine answers_bind (h node List.mem_cons_self) fun node' hnode ↦ ?_
    refine answers_bind (ih fun n hn ↦ h n (List.mem_cons_of_mem _ hn)) fun nodes' hnodes ↦ ?_
    exact answers_pure (.cons hnode hnodes)

theorem encloseAll_answers {stmts : List Stmt}
    (h : ∀ stmt ∈ stmts, Answers (SameRun · stmt) (enclose s stmt)) :
    Answers (fun stmts' ↦ ∀ {V σ : Type} (w : World V σ) (bound : Nat),
      execAll {} w bound .unnoted stmts' = execAll {} w bound .unnoted stmts)
      (encloseAll s stmts) := by
  induction stmts with
  | nil => exact answers_pure fun w bound ↦ rfl
  | cons stmt stmts ih =>
    rw [encloseAll]
    refine answers_bind (h stmt List.mem_cons_self) fun stmt' hstmt ↦ ?_
    refine answers_bind (ih fun a ha ↦ h a (List.mem_cons_of_mem _ ha)) fun stmts' hstmts ↦ ?_
    refine answers_pure fun w bound ↦ ?_
    rw [execAll, execAll, hstmt w bound, hstmts w bound]

theorem enclose_answers (hn : s.names = {}) (stmt : Stmt) :
    Answers (SameRun · stmt) (enclose s stmt) := by
  induction stmt using Node.induction_on_parts with
  | step stmt ih =>
  cases stmt
  case block span stmts =>
    rw [enclose]
    refine answers_bind (encloseAll_answers fun stmt hs ↦ ih stmt hs) fun stmts' hstmts ↦ ?_
    exact answers_pure fun w bound ↦ hstmts w bound
  case ifStmt span test yes no =>
    rw [enclose]
    refine answers_bind (accepts_answers _ _) fun accepted haccepted ↦ ?_
    split
    · next hyes =>
      have hchain := haccepted hyes
      refine answers_bind (branchArms_answers hn hchain) fun chain hsame ↦ ?_
      exact scope_answers hn (keepsJumps_of_chainHazards hchain) hsame
    · exact answers_pure fun w bound ↦ rfl
  case switchStmt span subject clauses =>
    rw [enclose]
    refine answers_bind (accepts_answers _ _) fun accepted haccepted ↦ ?_
    split
    · next hyes =>
      have hnone := haccepted hyes
      refine answers_bind (answers_mapM fun clause hc ↦
        branchClause_answers hn (switchHazards_eq_nil hnone hc)) fun clauses' hsame ↦ ?_
      exact scope_answers hn (keepsJumps_of_switchHazards hnone span subject)
        (switch_congr hsame span subject)
    · exact answers_pure fun w bound ↦ rfl
  all_goals exact answers_pure fun w bound ↦ rfl

/-- Whatever the policy, enclosing the conditions of statements gives statements that, from every
store and in every world, have the same effects in the same order and end in the same way. -/
theorem run_keeps_execution (policy : EarlyExitPolicy) (source file : String) (stmts : List Stmt) :
    ∃ stmts' tally, run ⟨{}, policy, source, file⟩ stmts = (.ok stmts', tally) ∧
      ∀ {V σ : Type} (w : World V σ) (bound : Nat) (m : Machine V σ),
        execAll {} w bound .unnoted stmts' m = execAll {} w bound .unnoted stmts m := by
  obtain ⟨stmts', tally, hrun, hsame⟩ :=
    encloseAll_answers (s := ⟨{}, policy, source, file⟩)
      (fun stmt (_ : stmt ∈ stmts) ↦ enclose_answers rfl stmt) {}
  exact ⟨stmts', tally, hrun, fun w bound m ↦ congrFun (hsame w bound) m⟩

end Recompose.Condition
