import Mathlib.Data.List.Forall2
import Recompose.Proofs.Execution
import Recompose.Proofs.Traverse

namespace Recompose.Execution

open Script

variable {V σ : Type}

structure KeepsState (f : Machine V σ → Machine V σ) : Prop where
  store_eq : ∀ m, (f m).store = m.store
  advance : ∀ m s e, f { m with store := s, trace := e :: m.trace } =
    { f m with store := s, trace := e :: (f m).trace }

/-- On a machine with changed notes, `b` does what `a` does on the machine itself. -/
def Replays (f : Machine V σ → Machine V σ) (a b : Step V σ) : Prop :=
  ∀ m, b (f m) = ((a m).1, f (a m).2)

variable {f : Machine V σ → Machine V σ} {a a' b b' : Step V σ} {w : World V σ}

theorem replays_done (c : Completion V) : Replays f (done c) (done c) :=
  fun _ ↦ rfl

theorem replays_act (hf : KeepsState f) {e : Effect V} {next next' : V → Step V σ}
    (h : ∀ v, Replays f (next v) (next' v)) : Replays f (act w e next) (act w e next') := by
  intro m
  unfold act
  rw [hf.store_eq]
  rcases w.perform e m.store with ⟨_ | v, s⟩
  · simp only [hf.advance]
  · simp only [← hf.advance, h v _]

theorem replays_choose (hf : KeepsState f) {e : Effect V} (ha : Replays f a a')
    (hb : Replays f b b') : Replays f (choose w e a b) (choose w e a' b') :=
  replays_act hf fun v ↦ by split <;> assumption

theorem replays_evaluate (hf : KeepsState f) (node : Node) :
    Replays f (evaluate w node) (evaluate w node) :=
  replays_act hf fun _ ↦ replays_done _

theorem replays_evaluatePart (hf : KeepsState f) (part : Option Node) :
    Replays f (evaluatePart w part) (evaluatePart w part) := by
  cases part with
  | none => exact replays_done _
  | some node => exact replays_evaluate hf node

theorem replays_whileTrue (hf : KeepsState f) {test : Option Node} (ha : Replays f a a') :
    Replays f (whileTrue w test a) (whileTrue w test a') := by
  cases test with
  | none => exact ha
  | some test => exact replays_choose hf ha (replays_done _)

theorem replays_seq (ha : Replays f a a') (hb : Replays f b b') :
    Replays f (seq a b) (seq a' b') := by
  intro m
  unfold seq
  rw [ha m]
  rcases a m with ⟨c, m'⟩
  cases c <;> first | rfl | exact hb m'

theorem replays_catching {rescue rescue' : V → Step V σ} (ha : Replays f a a')
    (hr : ∀ v, Replays f (rescue v) (rescue' v)) :
    Replays f (catching a rescue) (catching a' rescue') := by
  intro m
  unfold catching
  rw [ha m]
  rcases a m with ⟨c, m'⟩
  cases c <;> first | rfl | exact hr _ m'

theorem replays_finishing (ha : Replays f a a') (hb : Replays f b b') :
    Replays f (finishing a b) (finishing a' b') := by
  intro m
  unfold finishing
  rw [ha m]
  rcases a m with ⟨c, m'⟩
  have h := hb m'
  rcases hr : b m' with ⟨d, m''⟩
  rw [hr] at h
  cases c <;> first | rfl | (dsimp only; rw [h, hr]; cases d <;> rfl)

theorem replays_labelling (label : String) (ha : Replays f a a') :
    Replays f (labelling label a) (labelling label a') := by
  intro m
  unfold labelling
  rw [ha m]
  rcases a m with ⟨_ | _ | _ | (_ | l) | _ | _, m'⟩
  case «break».some =>
    dsimp only
    split <;> rfl
  all_goals rfl

theorem replays_breaking (ha : Replays f a a') : Replays f (breaking a) (breaking a') := by
  intro m
  unfold breaking
  rw [ha m]
  rcases a m with ⟨_ | _ | _ | (_ | l) | _ | _, m'⟩
  all_goals rfl

theorem replays_closing (ha : Replays f a a') : Replays f (closing a) (closing a') := by
  intro m
  unfold closing
  rw [ha m]
  rcases a m with ⟨c, m'⟩
  cases c <;> rfl

theorem replays_leaveClosed (hf : KeepsState f) (head : Node) (iterated : V) (c : Completion V) :
    Replays f (leaveClosed w head iterated c) (leaveClosed w head iterated c) := by
  unfold leaveClosed
  split
  · exact replays_done _
  · exact replays_finishing (replays_done _) (replays_catching
      (replays_act hf fun _ ↦ replays_done _) fun _ ↦ replays_done _)
  · exact replays_act hf fun _ ↦ replays_breaking (replays_done _)

theorem replays_loop {labels : List String} {before after : Step V σ → Step V σ}
    {exit : Completion V → Step V σ}
    (hbefore : ∀ a a', Replays f a a' → Replays f (before a) (before a'))
    (hafter : ∀ a a', Replays f a a' → Replays f (after a) (after a'))
    (hexit : ∀ c, Replays f (exit c) (exit c)) (hb : Replays f b b') (rounds : Nat) :
    Replays f (loop labels before after exit b rounds) (loop labels before after exit b' rounds) := by
  induction rounds with
  | zero => exact replays_done _
  | succ rounds ih =>
    refine hbefore _ _ fun m ↦ ?_
    dsimp only
    rw [hb m]
    dsimp only
    split
    · exact hafter _ _ ih _
    · exact hexit _ _

theorem replays_select (hf : KeepsState f) {v : V} {next next' : Option Nat → Step V σ}
    (h : ∀ i, Replays f (next i) (next' i)) (i : Nat) (tests : List (Option Expr)) :
    Replays f (select w v next i tests) (select w v next' i tests) := by
  induction tests generalizing i with
  | nil => exact h none
  | cons test tests ih =>
    cases test with
    | none => exact ih (i + 1)
    | some test =>
      refine replays_act hf fun u ↦ ?_
      split
      · exact h (some i)
      · exact ih (i + 1)

section Statements

variable {n : RuntimeNames} {bound : Nat} {x y : Exits}

theorem replays_execAll {stmts stmts' : List Stmt} (h : List.Forall₂ (fun s s' ↦
      Replays f (exec n w bound x [] s) (exec n w bound y [] s')) stmts stmts') :
    Replays f (execAll n w bound x stmts) (execAll n w bound y stmts') := by
  induction h with
  | nil => exact replays_done _
  | cons hs _ ih => exact replays_seq hs ih

theorem replays_execFrom {clauses clauses' : List Node} (h : List.Forall₂ (fun c c' ↦
      Replays f (execClause n w bound x c) (execClause n w bound y c')) clauses clauses')
    (i : Nat) : Replays f (execFrom n w bound x i clauses) (execFrom n w bound y i clauses') := by
  induction h generalizing i with
  | nil =>
    rw [execFrom, execFrom]
    exact replays_done _
  | cons hc _ ih =>
    cases i with
    | zero => exact replays_seq hc (ih 0)
    | succ i => exact ih i

theorem replays_execCatch (hf : KeepsState f) {handler handler' : Option Node}
    (h : Option.Rel (fun s s' ↦ caughtPattern s = caughtPattern s' ∧
      Replays f (exec n w bound x [] s) (exec n w bound y [] s')) handler handler') (v : V) :
    Replays f (execCatch n w bound x handler v) (execCatch n w bound y handler' v) := by
  cases h with
  | none => exact replays_done _
  | some h =>
    rw [execCatch, execCatch, h.1]
    exact replays_act hf fun _ ↦ h.2

theorem replays_switch (hf : KeepsState f) {clauses clauses' : List Node}
    (htests : clauses.map clauseTest = clauses'.map clauseTest)
    (hdefault : clauses.findIdx? isDefault = clauses'.findIdx? isDefault)
    (h : List.Forall₂ (fun c c' ↦
      Replays f (execClause n w bound x c) (execClause n w bound y c')) clauses clauses')
    (labels : List String) (span : Span) (subject : Node) :
    Replays f (exec n w bound x labels (.switchStmt span subject clauses))
      (exec n w bound y labels (.switchStmt span subject clauses')) := by
  rw [exec, exec, htests, hdefault]
  refine replays_act hf fun v ↦ replays_breaking (replays_select hf (fun found ↦ ?_) _ _)
  split
  · exact replays_execFrom h _
  · exact replays_done _

theorem sizeOf_lt_of_conditionBody? {e : Expr} {stmts : List Stmt} (h : conditionBody? n e = some stmts)
    {stmt : Stmt} (hs : stmt ∈ stmts) : sizeOf stmt < sizeOf e := by
  have hlt := List.sizeOf_lt_of_mem hs
  unfold conditionBody? at h
  split at h
  · split at h
    · cases h
      simp +arith only [Node.apply.sizeOf_spec, Node.func.sizeOf_spec, Node.code.sizeOf_spec,
        List.cons.sizeOf_spec]
      omega
    · cases h
  · cases h

theorem replays_unnoted (hf : KeepsState f) (node : Node) :
    (∀ labels, Replays f (exec n w bound .unnoted labels node) (exec n w bound .unnoted labels node)) ∧
      Replays f (execExpr n w bound node) (execExpr n w bound node) := by
  -- A closure is run where it is called, so its statements are no direct parts of the call.
  induction hn : sizeOf node using Nat.strongRecOn generalizing node with
  | ind size ih =>
  subst hn
  have hexec (part : Node) (hp : part ∈ node.children) (labels : List String) :
      Replays f (exec n w bound .unnoted labels part) (exec n w bound .unnoted labels part) :=
    (ih _ (Node.sizeOf_lt_of_mem_children hp) part rfl).1 labels
  have hpart (part : Option Node) (hp : ∀ node' ∈ part.toList, node' ∈ node.children) :
      Replays f (execPart n w bound .unnoted part) (execPart n w bound .unnoted part) := by
    cases part with
    | none => exact replays_done _
    | some part => exact hexec part (hp part (by simp)) []
  constructor
  · intro labels
    cases node
    case empty => exact replays_done _
    case exprStmt span e => exact (ih _ (by simp +arith) e rfl).2
    case block span stmts =>
      exact replays_execAll (List.forall₂_same.2 fun stmt hs ↦ hexec stmt hs [])
    case clause span test stmts =>
      refine replays_execAll (List.forall₂_same.2 fun stmt hs ↦ hexec stmt ?_ [])
      exact List.mem_append_right _ hs
    case ifStmt span test yes no =>
      exact replays_choose hf (hexec yes (by simp [Node.children]) [])
        (hpart no fun node hn ↦ List.mem_append_right _ hn)
    case whileStmt span test body =>
      exact replays_loop (fun a a' ha ↦ replays_whileTrue hf ha) (fun a a' ha ↦ ha)
        (fun c ↦ replays_breaking (replays_done c)) (hexec body (by simp [Node.children]) []) bound
    case doWhile span body test =>
      exact replays_loop (fun a a' ha ↦ ha) (fun a a' ha ↦ replays_whileTrue hf ha)
        (fun c ↦ replays_breaking (replays_done c)) (hexec body (by simp [Node.children]) []) bound
    case forStmt span init test update body =>
      exact replays_seq (replays_evaluatePart hf init) (replays_loop
        (fun a a' ha ↦ replays_whileTrue hf ha)
        (fun a a' ha ↦ replays_seq (replays_evaluatePart hf update) ha)
        (fun c ↦ replays_breaking (replays_done c)) (hexec body (by simp [Node.children]) []) bound)
    case forEach span kind head iterated body =>
      refine replays_act hf fun v ↦ replays_loop
        (fun a a' ha ↦ replays_choose hf ha (replays_done _)) (fun a a' ha ↦ ha) (fun c ↦ ?_)
        (hexec body (by simp [Node.children]) []) bound
      split
      · exact replays_breaking (replays_done c)
      · exact replays_leaveClosed hf head v c
    case switchStmt span subject clauses =>
      refine replays_switch hf rfl rfl (List.forall₂_same.2 fun clause hc ↦ ?_) labels span subject
      cases clause
      case clause span test stmts =>
        exact hexec (.clause span test stmts) (List.mem_append_right _ hc) []
      all_goals exact replays_done _
    case returnStmt span value =>
      cases value with
      | none => exact replays_done _
      | some e => exact replays_act hf fun v ↦ replays_done _
    case throwStmt span e => exact replays_act hf fun v ↦ replays_done _
    case breakStmt => exact replays_done _
    case continueStmt => exact replays_done _
    case labelled span label body =>
      exact replays_labelling label (hexec body (by simp [Node.children]) (label :: labels))
    case tryStmt span body handler finalizer =>
      refine replays_finishing (replays_catching (hexec body (by simp [Node.children]) [])
        fun v ↦ ?_) (hpart finalizer fun node hn ↦ List.mem_append_right _ hn)
      cases handler with
      | none => exact replays_done _
      | some handler => exact replays_act hf fun _ ↦ hexec handler (by simp [Node.children]) []
    case handler span caught type body => exact hexec body (by simp [Node.children]) []
    case withStmt span object body =>
      exact replays_act hf fun _ ↦ hexec body (by simp [Node.children]) []
    case moduleDecl span declared title body => exact hexec body (by simp [Node.children]) []
    case code span directives stmts =>
      exact replays_execAll (List.forall₂_same.2 fun stmt hs ↦ hexec stmt hs [])
    all_goals exact replays_evaluate hf _
  · rw [execExpr_eq]
    split
    · next stmts h =>
      refine replays_closing (replays_execAll (List.forall₂_same.2 fun stmt hs ↦ ?_))
      exact (ih _ (sizeOf_lt_of_conditionBody? h hs) stmt rfl).1 []
    · exact replays_evaluate hf _

end Statements

end Recompose.Execution
