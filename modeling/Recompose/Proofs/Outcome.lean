import Mathlib.Data.List.Forall2
import Recompose.Proofs.Enclosure
import Recompose.Proofs.Hazard

namespace Recompose.Condition

open Script

/-- The constructs of a statement, itself or those of a plain block, in the order of the text. -/
def constructs (stmt : Stmt) : List Stmt :=
  stmt.gather (fun (_ : Unit) n ↦
    match n with
    | .block .. => (some (), [])
    | .ifStmt .. => (none, [n])
    | .switchStmt .. => (none, [n])
    | _ => (none, [])) ()

def isConstruct : Stmt → Bool
  | .ifStmt .. => true
  | .switchStmt .. => true
  | _ => false

def keyword : Stmt → String
  | .ifStmt .. => "if"
  | _ => "switch"

def chainArms : Stmt → List Stmt
  | .ifStmt _ _ yes no => yes ::
    match no with
    | some no => chainArms no
    | none => []
  | arm => [arm]

/-- The hazards of a construct: those of its arms, and what the cases of a `switch` share. -/
def risks : Stmt → List Hazard
  | .ifStmt span test yes no => (chainArms (.ifStmt span test yes no)).flatMap fun arm ↦ armHazards [arm]
  | .switchStmt _ _ clauses =>
    (clauses.flatMap fun clause ↦ armHazards (splitClause clause).1)
      ++ sharedCaseBindings (clauses.map splitClause)
  | _ => []

inductive BranchesAll (names : RuntimeNames) : Stmt → Stmt → Prop
  | chain {span : Span} {test yes chain : Node} {no : Option Node}
      (branches : BranchesArms names (.ifStmt span test yes no) chain) :
      BranchesAll names (.ifStmt span test yes no) chain
  | switch {span : Span} {subject : Node} {clauses clauses' : List Node}
      (branches : List.Forall₂ (BranchesClause names) clauses clauses') :
      BranchesAll names (.switchStmt span subject clauses) (.switchStmt span subject clauses')

inductive Settles (names : RuntimeNames) : Stmt → Stmt → Prop
  | block {span : Span} {stmts stmts' : List Stmt} (inside : List.Forall₂ (Settles names) stmts stmts') :
      Settles names (.block span stmts) (.block span stmts')
  | enclosed {construct branched call : Stmt} (safe : risks construct = [])
      (branches : BranchesAll names construct branched)
      (calls : Glue.closureCall names.conditionScope [branched] = .ok call) :
      Settles names construct call
  | left {construct : Stmt} (isOne : isConstruct construct = true) (risky : risks construct ≠ []) :
      Settles names construct construct
  | other {stmt : Stmt} (plain : isConstruct stmt = false) (noBlock : ∀ span stmts, stmt ≠ .block span stmts) :
      Settles names stmt stmt

/-- The hazards that a policy minds: all of them, or those that are no jumps. -/
def minded : EarlyExitPolicy → List Hazard → List Hazard
  | .reject, hs => hs
  | .leaveUntouched, hs => hs.filter (!·.kind.isJump)

/-- One of the hazards, before which none of them starts. -/
def IsEarliest (hs : List Hazard) (h : Hazard) : Prop :=
  h ∈ hs ∧ ∀ k ∈ hs, h.span.start ≤ k.span.start

/-- What is reported of a construct: one hazard that is minded, if there is any. -/
inductive Records (s : ConditionSettings) (picks : List Hazard → Hazard → Prop) (construct : Stmt) :
    List Diagnostic → Prop
  | none (quiet : minded s.policy (risks construct) = []) : Records s picks construct []
  | one {h : Hazard} (picked : picks (minded s.policy (risks construct)) h) :
      Records s picks construct [hazardDiagnostic s (keyword construct) h]

/-- The computation never fails, answers what has the property, and adds this much to the tally. -/
def Tallies {α : Type} (P : α → Prop) (errors : List Diagnostic) (enclosed : Nat)
    (a : ConditionM α) : Prop :=
  ∀ t, ∃ r, a.run.run t = (.ok r, ⟨t.errors ++ errors, t.enclosed + enclosed⟩) ∧ P r

section

variable {α β : Type} {P : α → Prop} {Q : β → Prop} {s : ConditionSettings}

theorem tallies_pure {r : α} (h : P r) : Tallies P [] 0 (pure r) := by
  intro t
  refine ⟨r, ?_, h⟩
  rw [List.append_nil, Nat.add_zero]
  rfl

theorem tallies_lift {r : α} {e : Except Failure α} (he : e = .ok r) (h : P r) :
    Tallies P [] 0 (liftM e) := by
  subst he
  exact tallies_pure h

theorem tallies_bind {a : ConditionM α} {f : α → ConditionM β} {es es' : List Diagnostic}
    {n n' : Nat} (ha : Tallies P es n a) (hf : ∀ r, P r → Tallies Q es' n' (f r)) :
    Tallies Q (es ++ es') (n + n') (a >>= f) := by
  intro t
  obtain ⟨r, hr, hP⟩ := ha t
  obtain ⟨r', hr', hQ⟩ := hf r hP ⟨t.errors ++ es, t.enclosed + n⟩
  refine ⟨r', ?_, hQ⟩
  rw [ExceptT.run_bind, StateT.run_bind, hr, ← List.append_assoc, ← Nat.add_assoc]
  exact hr'

theorem tallies_then {a : ConditionM α} {f : α → ConditionM β} {es : List Diagnostic} {n : Nat}
    (ha : Tallies P [] 0 a) (hf : ∀ r, P r → Tallies Q es n (f r)) : Tallies Q es n (a >>= f) := by
  have h := tallies_bind ha hf
  rwa [List.nil_append, Nat.zero_add] at h

theorem tallies_before {a : ConditionM α} {f : α → ConditionM β} {es : List Diagnostic} {n : Nat}
    (ha : Tallies P es n a) (hf : ∀ r, P r → Tallies Q [] 0 (f r)) : Tallies Q es n (a >>= f) := by
  have h := tallies_bind ha hf
  rwa [List.append_nil, Nat.add_zero] at h

theorem tallies_mapM {f : Node → ConditionM Node} {R : Node → Node → Prop} {nodes : List Node}
    (hf : ∀ n ∈ nodes, Tallies (R n) [] 0 (f n)) :
    Tallies (List.Forall₂ R nodes) [] 0 (nodes.mapM f) := by
  induction nodes with
  | nil => exact tallies_pure .nil
  | cons n nodes ih =>
    rw [List.mapM_cons]
    refine tallies_then (hf n List.mem_cons_self) fun n' hn ↦ ?_
    refine tallies_then (ih fun n hm ↦ hf n (List.mem_cons_of_mem _ hm)) fun nodes' hnodes ↦ ?_
    exact tallies_pure (.cons hn hnodes)

def Calls (names : RuntimeNames) : Prop :=
  ∀ callee, callee = names.conditionScope ∨ callee = names.conditionBranch →
    ∀ stmts, ∃ call, Glue.closureCall callee stmts = .ok call

theorem calls_default : Calls {} := by
  intro callee hcallee stmts
  have hcondition : Execution.isCondition {} callee := by
    obtain rfl | rfl := hcallee <;> rfl
  obtain ⟨span, inner, optional, isPure, place, hcall⟩ := exists_closureCall hcondition
  exact ⟨_, hcall stmts⟩

theorem closureCall_tallies {callee : String} {stmts : List Stmt}
    (h : ∃ call, Glue.closureCall callee stmts = .ok call) :
    Tallies (fun call ↦ Glue.closureCall callee stmts = .ok call) [] 0
      (liftM (Glue.closureCall callee stmts) : ConditionM Stmt) := by
  obtain ⟨call, hcall⟩ := h
  exact tallies_lift hcall hcall

variable (hcalls : Calls s.names)

include hcalls

theorem branch_tallies (arm : Stmt) : Tallies (Branches s.names arm) [] 0 (branch s arm) := by
  have heq : branch s arm =
      (do return Glue.block [← Glue.closureCall s.names.conditionBranch (armStmts arm)]) := by
    cases arm <;> rfl
  rw [heq]
  refine tallies_then (closureCall_tallies (hcalls _ (.inr rfl) _)) fun call calls ↦ ?_
  exact tallies_pure (.intro calls)

theorem branchArms_tallies (chain : Stmt) :
    Tallies (BranchesArms s.names chain) [] 0 (branchArms s chain) := by
  fun_induction chainHazards chain with
  | case1 span test yes no ih =>
    cases no with
    | none =>
      rw [branchArms_if]
      exact tallies_then (branch_tallies hcalls yes) fun yes' branches ↦ tallies_pure (.only branches)
    | some no =>
      rw [branchArms_else]
      refine tallies_then (branch_tallies hcalls yes) fun yes' branches ↦ ?_
      exact tallies_then ih fun no' rest ↦ tallies_pure (.other branches rest)
  | case2 arm noChain =>
    rw [branchArms_arm noChain]
    intro t
    obtain ⟨r, hr, branches⟩ := branch_tallies hcalls arm t
    exact ⟨r, hr, .last noChain branches⟩

theorem branchClause_tallies (clause : Node) :
    Tallies (BranchesClause s.names clause) [] 0 (branchClause s clause) := by
  unfold branchClause
  split
  · next span test stmts =>
    dsimp only
    split
    · next empty => exact tallies_pure (.kept (List.isEmpty_iff.1 empty))
    · next nonempty =>
      refine tallies_then (closureCall_tallies (hcalls _ (.inr rfl) _)) fun call calls ↦ ?_
      exact tallies_pure (.arm (by simpa using nonempty) calls)
  · next hclause =>
    refine tallies_pure (.kept ?_)
    unfold splitClause
    split
    · exact (hclause _ _ _ rfl).elim
    · rfl

theorem scope_tallies (construct : Stmt) :
    Tallies (fun call ↦ Glue.closureCall s.names.conditionScope [construct] = .ok call) [] 1
      (scope s construct) := by
  have hcount : Tallies (fun _ ↦ True) [] 1
      (modify fun t ↦ { t with enclosed := t.enclosed + 1 } : ConditionM Unit) := by
    intro t
    refine ⟨(), ?_, trivial⟩
    rw [List.append_nil]
    rfl
  exact tallies_bind hcount fun _ _ ↦ closureCall_tallies (hcalls _ (.inl rfl) _)

end

def listed : Stmt → List Hazard
  | .switchStmt _ _ clauses => switchHazards clauses
  | chain => chainHazards chain

theorem chainHazards_eq (chain : Stmt) :
    chainHazards chain = (chainArms chain).flatMap fun arm ↦ armHazards [arm] := by
  fun_induction chainHazards chain with
  | case1 span test yes no ih =>
    cases no with
    | none => rfl
    | some no => exact congrArg (armHazards [yes] ++ ·) ih
  | case2 arm noChain =>
    have harms : chainArms arm = [arm] := by
      unfold chainArms
      split
      · exact (noChain _ _ _ _ rfl).elim
      · rfl
    rw [harms, List.flatMap_singleton]

theorem listed_perm {construct : Stmt} (h : isConstruct construct = true) :
    (listed construct).Perm (risks construct) := by
  unfold isConstruct at h
  split at h
  · exact .of_eq (chainHazards_eq _)
  · next span subject clauses =>
    have hflat : clauses.flatMap (fun clause ↦ armHazards (splitClause clause).1) =
        (clauses.map splitClause).flatMap fun c ↦ armHazards c.1 := by
      rw [List.flatMap_map]
    rw [risks, hflat]
    exact List.mergeSort_perm _ _
  · cases h

theorem minded_perm (policy : EarlyExitPolicy) {hs ks : List Hazard} (h : hs.Perm ks) :
    (minded policy hs).Perm (minded policy ks) := by
  cases policy with
  | reject => exact h
  | leaveUntouched => exact h.filter _

/-- What is reported of a construct: the first hazard that is minded. -/
def recordsOf (s : ConditionSettings) (construct : Stmt) : List Diagnostic :=
  ((minded s.policy (listed construct)).head?.map (hazardDiagnostic s (keyword construct))).toList

section

variable {s : ConditionSettings}

theorem accepts_tallies (s : ConditionSettings) (construct : String) (hs : List Hazard) :
    Tallies (fun accepted ↦ accepted = hs.isEmpty)
      ((minded s.policy hs).head?.map (hazardDiagnostic s construct)).toList 0
      (accepts s construct hs) := by
  have hreport (h : Hazard) : Tallies (fun accepted ↦ accepted = false)
      [hazardDiagnostic s construct h] 0 (do
        modify fun t ↦ { t with errors := t.errors ++ [hazardDiagnostic s construct h] }
        return false : ConditionM Bool) := fun t ↦ ⟨false, rfl, rfl⟩
  unfold accepts verdict
  cases hs with
  | nil =>
    cases s.policy <;> exact tallies_pure rfl
  | cons first hs =>
    cases hpolicy : s.policy with
    | reject => exact hreport first
    | leaveUntouched =>
      rw [minded, List.head?_filter]
      cases hfind : (first :: hs).find? fun h ↦ !h.kind.isJump with
      | some h => exact hreport h
      | none => exact tallies_pure rfl

theorem constructs_block (span : Span) (stmts : List Stmt) :
    constructs (.block span stmts) = stmts.flatMap constructs := by
  unfold constructs
  rw [Node.gather_eq]
  rfl

theorem constructs_of_isConstruct {construct : Stmt} (h : isConstruct construct = true) :
    constructs construct = [construct] := by
  unfold isConstruct at h
  unfold constructs
  rw [Node.gather_eq]
  split at h
  · rfl
  · rfl
  · cases h

theorem constructs_other {stmt : Stmt} (h : isConstruct stmt = false)
    (hblock : ∀ span stmts, stmt ≠ .block span stmts) : constructs stmt = [] := by
  cases stmt
  case block span stmts => exact absurd rfl (hblock span stmts)
  case ifStmt => cases h
  case switchStmt => cases h
  all_goals
    unfold constructs
    rw [Node.gather_eq]
    rfl

def isSafe (construct : Stmt) : Bool :=
  (risks construct).isEmpty

theorem isEmpty_listed {construct : Stmt} (h : isConstruct construct = true) :
    (listed construct).isEmpty = isSafe construct := by
  rw [Bool.eq_iff_iff, isSafe, List.isEmpty_iff_length_eq_zero, List.isEmpty_iff_length_eq_zero,
    (listed_perm h).length_eq]

theorem encloseAll_tallies {stmts : List Stmt}
    (h : ∀ stmt ∈ stmts, Tallies (Settles s.names stmt) ((constructs stmt).flatMap (recordsOf s))
      ((constructs stmt).countP isSafe) (enclose s stmt)) :
    Tallies (List.Forall₂ (Settles s.names) stmts)
      ((stmts.flatMap constructs).flatMap (recordsOf s))
      ((stmts.flatMap constructs).countP isSafe) (encloseAll s stmts) := by
  induction stmts with
  | nil => exact tallies_pure .nil
  | cons stmt stmts ih =>
    rw [encloseAll, List.flatMap_cons, List.flatMap_append, List.countP_append]
    refine tallies_bind (h stmt List.mem_cons_self) fun stmt' hstmt ↦ ?_
    refine tallies_before (ih fun stmt hm ↦ h stmt (List.mem_cons_of_mem _ hm)) fun stmts' rest ↦ ?_
    exact tallies_pure (.cons hstmt rest)

variable (hcalls : Calls s.names)

include hcalls

theorem construct_tallies {construct : Stmt} {arms : ConditionM Stmt}
    (h : isConstruct construct = true)
    (harms : Tallies (BranchesAll s.names construct) [] 0 arms) :
    Tallies (Settles s.names construct) ((constructs construct).flatMap (recordsOf s))
      ((constructs construct).countP isSafe) (do
        if ← accepts s (keyword construct) (listed construct) then scope s (← arms)
        else return construct) := by
  have hrest (accepted : Bool) (heq : accepted = (listed construct).isEmpty) :
      Tallies (Settles s.names construct) [] (if isSafe construct then 1 else 0) (do
        if accepted then scope s (← arms) else return construct) := by
    rw [isEmpty_listed h] at heq
    subst heq
    cases hsafe : isSafe construct with
    | true =>
      refine tallies_then harms fun branched branches t ↦ ?_
      obtain ⟨call, hcall, calls⟩ := scope_tallies hcalls branched t
      exact ⟨call, hcall, .enclosed (List.isEmpty_iff.1 hsafe) branches calls⟩
    | false => exact tallies_pure (.left h (List.isEmpty_eq_false_iff.1 hsafe))
  have hwhole := tallies_bind (accepts_tallies s (keyword construct) (listed construct)) hrest
  rw [List.append_nil, Nat.zero_add] at hwhole
  rw [constructs_of_isConstruct h, List.flatMap_singleton, List.countP_singleton]
  exact hwhole

theorem settles_tallies (stmt : Stmt) :
    Tallies (Settles s.names stmt) ((constructs stmt).flatMap (recordsOf s))
      ((constructs stmt).countP isSafe) (enclose s stmt) := by
  induction stmt using Node.induction_on_parts with
  | step stmt ih =>
    unfold enclose
    split
    · next span stmts =>
      rw [constructs_block]
      refine tallies_before (encloseAll_tallies ih) fun stmts' inside ↦ ?_
      exact tallies_pure (.block inside)
    · next span test yes no =>
      refine construct_tallies hcalls rfl fun t ↦ ?_
      obtain ⟨chain, hchain, branches⟩ := branchArms_tallies hcalls (.ifStmt span test yes no) t
      exact ⟨chain, hchain, .chain branches⟩
    · next span subject clauses =>
      have harms : Tallies (BranchesAll s.names (.switchStmt span subject clauses)) [] 0
          (return .switchStmt span subject (← clauses.mapM (branchClause s))) := by
        refine tallies_then (tallies_mapM fun clause _ ↦ branchClause_tallies hcalls clause) ?_
        exact fun clauses' branches ↦ tallies_pure (.switch branches)
      have hswitch := construct_tallies hcalls rfl harms
      simp only [bind_assoc, pure_bind] at hswitch
      exact hswitch
    · next hblock hif hswitch =>
      have hplain : isConstruct stmt = false := by
        unfold isConstruct
        split
        · exact (hif _ _ _ _ rfl).elim
        · exact (hswitch _ _ _ rfl).elim
        · rfl
      rw [constructs_other hplain hblock]
      exact tallies_pure (.other hplain hblock)

theorem run_reports_hazards (stmts : List Stmt) :
    ∃ stmts' tally, run s stmts = (.ok stmts', tally) ∧
      ∀ d ∈ tally.errors, ∃ construct h, d = hazardDiagnostic s construct h := by
  obtain ⟨stmts', hrun, -⟩ := encloseAll_tallies (fun stmt (_ : stmt ∈ stmts) ↦
    settles_tallies hcalls stmt) {}
  refine ⟨stmts', _, hrun, fun d hd ↦ ?_⟩
  obtain ⟨construct, -, hd⟩ := List.mem_flatMap.1 hd
  obtain ⟨h, -, rfl⟩ := Option.map_eq_some_iff.1 (Option.mem_toList.1 hd)
  exact ⟨keyword construct, h, rfl⟩

omit hcalls in
theorem enclose_tallies (hn : s.names = {}) (stmt : Stmt) :
    Tallies (Settles s.names stmt) ((constructs stmt).flatMap (recordsOf s))
      ((constructs stmt).countP isSafe) (enclose s stmt) :=
  settles_tallies (hn ▸ calls_default) stmt

end

theorem chainHazards_sublist (chain : Stmt) : (chainHazards chain).Sublist (hazards {} chain) := by
  fun_induction chainHazards chain with
  | case1 span test yes no ih =>
    have hparts : hazards {} (.ifStmt span test yes no) =
        hazards {} test ++ (hazards {} yes ++ no.toList.flatMap (hazards {})) := by
      rw [Execution.hazards_eq]
      rfl
    rw [hparts, armHazards, List.flatMap_singleton]
    refine List.Sublist.trans (List.Sublist.append_left ?_ _) (List.sublist_append_right _ _)
    cases no with
    | none => exact List.nil_sublist _
    | some no =>
      rw [Option.toList_some, List.flatMap_singleton]
      exact ih
  | case2 arm _ =>
    rw [armHazards, List.flatMap_singleton]

theorem pairwise_listed {construct : Stmt} (h : isConstruct construct = true) {a b : Nat}
    (hsweep : sweep construct a = some b) :
    (listed construct).Pairwise (·.span.start ≤ ·.span.start) := by
  unfold isConstruct at h
  split at h
  · refine List.Pairwise.sublist (chainHazards_sublist _) ?_
    exact (ascending_hazards hsweep).sorted.imp Nat.le_of_lt
  · next span subject clauses =>
    refine (List.pairwise_mergeSort (fun h k l hk kl ↦ ?_) (fun h k ↦ ?_) _).imp of_decide_eq_true
    · simp only [decide_eq_true_eq] at hk kl ⊢
      exact Nat.le_trans hk kl
    · simp only [Bool.or_eq_true, decide_eq_true_eq]
      exact Nat.le_total _ _
  · cases h

theorem exists_sweep_of_mem {nodes : List Node} {node : Node} (hmem : node ∈ nodes) {a b : Nat}
    (h : sweepAll (nodes.map sweep) a = some b) : ∃ a b, sweep node a = some b := by
  induction nodes generalizing a with
  | nil => cases hmem
  | cons n nodes ih =>
    obtain ⟨c, hn, hrest⟩ := Option.bind_eq_some_iff.1 h
    rcases List.mem_cons.1 hmem with rfl | hmem
    · exact ⟨a, c, hn⟩
    · exact ih hmem hrest

theorem construct_of_mem {stmt construct : Stmt} (hmem : construct ∈ constructs stmt) :
    isConstruct construct = true ∧
      ∀ {a b}, sweep stmt a = some b → ∃ a b, sweep construct a = some b := by
  induction stmt using Node.induction_on_parts with
  | step stmt ih =>
    by_cases hblock : ∃ span stmts, stmt = .block span stmts
    · obtain ⟨span, stmts, rfl⟩ := hblock
      rw [constructs_block] at hmem
      obtain ⟨part, hpart, hmem⟩ := List.mem_flatMap.1 hmem
      obtain ⟨hconstruct, hsweep⟩ := ih part hpart hmem
      refine ⟨hconstruct, fun h ↦ ?_⟩
      rw [sweep_of_not_isSealed rfl] at h
      obtain ⟨c, d, h⟩ := exists_sweep_of_mem hpart h
      exact hsweep h
    · cases hconstruct : isConstruct stmt with
      | true =>
        rw [constructs_of_isConstruct hconstruct, List.mem_singleton] at hmem
        subst hmem
        exact ⟨hconstruct, fun h ↦ ⟨_, _, h⟩⟩
      | false =>
        rw [constructs_other hconstruct fun span stmts heq ↦ hblock ⟨span, stmts, heq⟩] at hmem
        cases hmem

theorem minded_sublist (policy : EarlyExitPolicy) (hs : List Hazard) : (minded policy hs).Sublist hs := by
  cases policy with
  | reject => exact .refl _
  | leaveUntouched => exact List.filter_sublist

section

variable {s : ConditionSettings} {construct : Stmt} (h : isConstruct construct = true)

include h

theorem recordsOf_records {picks : List Hazard → Hazard → Prop}
    (hpicks : ∀ k hs, minded s.policy (listed construct) = k :: hs →
      picks (minded s.policy (risks construct)) k) :
    Records s picks construct (recordsOf s construct) := by
  unfold recordsOf
  cases hlisted : minded s.policy (listed construct) with
  | nil =>
    have hperm := minded_perm s.policy (listed_perm h)
    rw [hlisted] at hperm
    exact .none hperm.nil_eq.symm
  | cons k hs => exact .one (hpicks k hs hlisted)

theorem mem_minded_of_listed {k : Hazard} :
    k ∈ minded s.policy (risks construct) ↔ k ∈ minded s.policy (listed construct) :=
  (minded_perm s.policy (listed_perm h)).mem_iff.symm

theorem isEarliest_of_listed (hsorted : (listed construct).Pairwise (·.span.start ≤ ·.span.start))
    {k : Hazard} {hs : List Hazard} (hlisted : minded s.policy (listed construct) = k :: hs) :
    IsEarliest (minded s.policy (risks construct)) k := by
  have hminded := hsorted.sublist (minded_sublist s.policy _)
  rw [hlisted, List.pairwise_cons] at hminded
  refine ⟨(mem_minded_of_listed h).2 (by rw [hlisted]; exact List.mem_cons_self), fun l hl ↦ ?_⟩
  rw [mem_minded_of_listed h, hlisted] at hl
  rcases List.mem_cons.1 hl with rfl | hl
  · exact Nat.le_refl _
  · exact hminded.1 l hl

end

/-- Each construct has exactly one outcome. It is enclosed and counted if its arms hold no hazard and
left as it is otherwise, every other statement is kept, and the records come in the order of the
constructs: of one with hazards there is a single record under the strict policy, and under the
lenient one there is one if some hazard is no jump. Where spans are nested as in a text, the hazard
of the record is the one that starts first. -/
theorem run_settles_constructs (policy : EarlyExitPolicy) (source file : String) (stmts : List Stmt) :
    ∃ stmts' tally records, run ⟨{}, policy, source, file⟩ stmts = (.ok stmts', tally) ∧
      List.Forall₂ (Settles {}) stmts stmts' ∧
      tally.enclosed = (stmts.flatMap constructs).countP isSafe ∧
      tally.errors = records.flatten ∧
      List.Forall₂ (Records ⟨{}, policy, source, file⟩ fun hs k ↦ k ∈ hs)
        (stmts.flatMap constructs) records ∧
      (WellNested stmts → List.Forall₂ (Records ⟨{}, policy, source, file⟩ IsEarliest)
        (stmts.flatMap constructs) records) := by
  let s : ConditionSettings := ⟨{}, policy, source, file⟩
  obtain ⟨stmts', hrun, hsettles⟩ := encloseAll_tallies (s := s)
    (fun stmt (_ : stmt ∈ stmts) ↦ enclose_tallies rfl stmt) {}
  rw [List.nil_append, Nat.zero_add] at hrun
  refine ⟨stmts', _, (stmts.flatMap constructs).map (recordsOf s), hrun, hsettles, rfl,
    List.flatMap_def, ?_, fun hnested ↦ ?_⟩
  all_goals
    rw [List.forall₂_map_right_iff, List.forall₂_same]
    intro construct hmem
    obtain ⟨stmt, hstmt, hmem⟩ := List.mem_flatMap.1 hmem
    obtain ⟨hconstruct, hsweep⟩ := construct_of_mem hmem
    refine recordsOf_records hconstruct fun k hs hlisted ↦ ?_
  · exact (mem_minded_of_listed hconstruct).2 (by rw [hlisted]; exact List.mem_cons_self)
  · obtain ⟨last, hlast⟩ := Option.isSome_iff_exists.1 hnested
    obtain ⟨a, b, hstmt⟩ := exists_sweep_of_mem hstmt hlast
    obtain ⟨a, b, hconstruct'⟩ := hsweep hstmt
    exact isEarliest_of_listed hconstruct (pairwise_listed hconstruct hconstruct') hlisted

/-- `{ if (a) return; else { var x; } } switch (k) { case 1: b(); break; } c();` -/
def mixedBody : List Stmt :=
  [.block ⟨0, 38⟩ [.ifStmt ⟨2, 36⟩ (.ref ⟨6, 7⟩ "a") (.returnStmt ⟨9, 16⟩ none)
      (some (.block ⟨22, 32⟩ [.vars ⟨24, 30⟩ .hoisted false
        [.declarator ⟨28, 29⟩ (.binding ⟨28, 29⟩ "x") false none none]]))],
    .switchStmt ⟨39, 73⟩ (.ref ⟨47, 48⟩ "k") [.clause ⟨52, 71⟩ (some (.lit ⟨57, 58⟩ (.number "1")))
      [.exprStmt ⟨60, 64⟩ (.apply ⟨60, 63⟩ (.call false false) (.ref ⟨60, 61⟩ "b") [] []),
        .breakStmt ⟨65, 71⟩ none]],
    .exprStmt ⟨74, 78⟩ (.apply ⟨74, 77⟩ (.call false false) (.ref ⟨74, 75⟩ "c") [] [])]

theorem run_settles_constructs_mixedBody :
    WellNested mixedBody ∧ ∃ stmts' tally records,
      run ⟨{}, .leaveUntouched, "", "input.ts"⟩ mixedBody = (.ok stmts', tally) ∧
      tally.enclosed = 1 ∧ tally.errors = records.flatten ∧
      List.Forall₂ (Records ⟨{}, .leaveUntouched, "", "input.ts"⟩ IsEarliest)
        (mixedBody.flatMap constructs) records := by
  have hnested : WellNested mixedBody := by decide
  obtain ⟨stmts', tally, records, hrun, -, henclosed, herrors, -, hrecords⟩ :=
    run_settles_constructs .leaveUntouched "" "input.ts" mixedBody
  exact ⟨hnested, stmts', tally, records, hrun, henclosed.trans (by decide), herrors,
    hrecords hnested⟩

end Recompose.Condition
