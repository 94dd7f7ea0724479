import Recompose.Proofs.Condition
import Recompose.Proofs.Insertion

namespace Recompose

open Script

namespace Condition

variable {α β : Type}

/-- Whenever the first run ends with nothing reported, nothing was reported before and the second run
is the same. -/
def Relaxes (a b : ConditionM α) : Prop :=
  ∀ t, (a.run.run t).2.errors = [] → t.errors = [] ∧ b.run.run t = a.run.run t

theorem relaxes_pure (r : α) : Relaxes (pure r) (pure r) :=
  fun _ h ↦ ⟨h, rfl⟩

theorem relaxes_lift (e : Except Failure α) : Relaxes (liftM e) (liftM e) := by
  cases e <;> exact fun _ h ↦ ⟨h, rfl⟩

theorem relaxes_bind {a b : ConditionM α} {f g : α → ConditionM β} (ha : Relaxes a b)
    (hf : ∀ r, Relaxes (f r) (g r)) : Relaxes (a >>= f) (b >>= g) := by
  intro t h
  rw [ExceptT.run_bind, StateT.run_bind] at h
  rw [ExceptT.run_bind, StateT.run_bind, ExceptT.run_bind, StateT.run_bind]
  rcases hrun : a.run.run t with ⟨result, t₁⟩
  rw [hrun] at h
  cases result with
  | ok r =>
    obtain ⟨ht₁, hrest⟩ := hf r t₁ h
    obtain ⟨ht, hfirst⟩ := ha t (by rw [hrun]; exact ht₁)
    rw [hfirst, hrun]
    exact ⟨ht, hrest⟩
  | error failure =>
    obtain ⟨ht, hfirst⟩ := ha t (by rw [hrun]; exact h)
    rw [hfirst, hrun]
    exact ⟨ht, rfl⟩

theorem relaxes_mapM {f g : Node → ConditionM Node} (hf : ∀ n, Relaxes (f n) (g n))
    (nodes : List Node) : Relaxes (nodes.mapM f) (nodes.mapM g) := by
  induction nodes with
  | nil => exact relaxes_pure []
  | cons n nodes ih =>
    rw [List.mapM_cons, List.mapM_cons]
    exact relaxes_bind (hf n) fun _ ↦ relaxes_bind ih fun _ ↦ relaxes_pure _

variable (s : ConditionSettings)

theorem accepts_relaxes (construct : String) (hs : List Hazard) :
    Relaxes (accepts { s with policy := .reject } construct hs)
      (accepts { s with policy := .leaveUntouched } construct hs) := by
  cases hs with
  | nil => exact relaxes_pure true
  | cons h hs =>
    intro t ht
    have herrors : t.errors ++ [hazardDiagnostic { s with policy := .reject } construct h] = [] := ht
    simp at herrors

theorem branch_relaxes (arm : Stmt) :
    Relaxes (branch { s with policy := .reject } arm) (branch { s with policy := .leaveUntouched } arm) :=
  relaxes_bind (relaxes_lift _) fun _ ↦ relaxes_pure _

theorem branchArms_relaxes (chain : Stmt) :
    Relaxes (branchArms { s with policy := .reject } chain)
      (branchArms { s with policy := .leaveUntouched } chain) := by
  fun_induction chainHazards chain with
  | case1 span test yes no ih =>
    cases no with
    | none =>
      rw [branchArms_if, branchArms_if]
      exact relaxes_bind (branch_relaxes s yes) fun _ ↦ relaxes_pure _
    | some no =>
      rw [branchArms_else, branchArms_else]
      exact relaxes_bind (branch_relaxes s yes) fun _ ↦ relaxes_bind ih fun _ ↦ relaxes_pure _
  | case2 arm noChain =>
    rw [branchArms_arm noChain, branchArms_arm noChain]
    exact branch_relaxes s arm

theorem branchClause_relaxes (clause : Node) :
    Relaxes (branchClause { s with policy := .reject } clause)
      (branchClause { s with policy := .leaveUntouched } clause) := by
  unfold branchClause
  split
  · dsimp only
    split
    · exact relaxes_pure _
    · exact relaxes_bind (relaxes_lift _) fun _ ↦ relaxes_pure _
  · exact relaxes_pure _

theorem scope_relaxes (construct : Stmt) :
    Relaxes (scope { s with policy := .reject } construct)
      (scope { s with policy := .leaveUntouched } construct) :=
  relaxes_bind (fun _ h ↦ ⟨h, rfl⟩) fun _ ↦ relaxes_lift _

theorem encloseAll_relaxes {stmts : List Stmt}
    (h : ∀ stmt ∈ stmts, Relaxes (enclose { s with policy := .reject } stmt)
      (enclose { s with policy := .leaveUntouched } stmt)) :
    Relaxes (encloseAll { s with policy := .reject } stmts)
      (encloseAll { s with policy := .leaveUntouched } stmts) := by
  induction stmts with
  | nil => exact relaxes_pure []
  | cons stmt stmts ih =>
    rw [encloseAll, encloseAll]
    refine relaxes_bind (h stmt List.mem_cons_self) fun _ ↦ ?_
    exact relaxes_bind (ih fun stmt hm ↦ h stmt (List.mem_cons_of_mem _ hm)) fun _ ↦ relaxes_pure _

theorem enclose_relaxes (stmt : Stmt) :
    Relaxes (enclose { s with policy := .reject } stmt)
      (enclose { s with policy := .leaveUntouched } stmt) := by
  induction stmt using Node.induction_on_parts with
  | step stmt ih =>
    unfold enclose
    split
    · exact relaxes_bind (encloseAll_relaxes s ih) fun _ ↦ relaxes_pure _
    · refine relaxes_bind (accepts_relaxes s "if" _) fun accepted ↦ ?_
      split
      · exact relaxes_bind (branchArms_relaxes s _) fun chain ↦ scope_relaxes s chain
      · exact relaxes_pure _
    · refine relaxes_bind (accepts_relaxes s "switch" _) fun accepted ↦ ?_
      split
      · exact relaxes_bind (relaxes_mapM (branchClause_relaxes s) _) fun _ ↦ scope_relaxes s _
      · exact relaxes_pure _
    · exact relaxes_pure _

/-- Where the strict policy has nothing to report the lenient one does the same. -/
theorem run_eq_of_reject {stmts : List Stmt}
    (h : (run { s with policy := .reject } stmts).2.errors = []) :
    run { s with policy := .leaveUntouched } stmts = run { s with policy := .reject } stmts :=
  (encloseAll_relaxes s (fun stmt _ ↦ enclose_relaxes s stmt) {} h).2

end Condition

namespace Weave

variable {α β : Type}

/-- Whenever the first step ends with nothing wrong, nothing was wrong before and the second step does
the same. -/
def Relaxes (x y : WeaveM α) : Prop :=
  Cleanly x fun s a s' ↦ y s = some (a, s')

theorem relaxes_of_cleanly {x : WeaveM α} {P : State → α → State → Prop} (h : Cleanly x P) :
    Relaxes x x :=
  fun _ _ _ hx hc ↦ ⟨(h hx hc).1, hx⟩

theorem relaxes_pure (a : α) : Relaxes (pure a) (pure a) :=
  relaxes_of_cleanly (cleanly_pure a)

theorem relaxes_modify {f : State → State} (hf : ∀ s, (f s).Clean → s.Clean) :
    Relaxes (modify f) (modify f) :=
  relaxes_of_cleanly (cleanly_modify f hf)

theorem relaxes_bind {x y : WeaveM α} {f g : α → WeaveM β} (hx : Relaxes x y)
    (hf : ∀ a, Relaxes (f a) (g a)) : Relaxes (x >>= f) (y >>= g) :=
  (Cleanly.bind hx hf).mono bind_apply_eq_some.2

theorem relaxes_get {f g : State → WeaveM β} (hf : ∀ s, Relaxes (f s) (g s)) :
    Relaxes (get >>= f) (get >>= g) := by
  refine relaxes_bind ?_ hf
  intro s a s' h hc
  obtain ⟨rfl, rfl⟩ := get_apply_eq_some.1 h
  exact ⟨hc, h⟩

theorem relaxes_ite {p : Prop} [Decidable p] {x x' y y' : WeaveM α}
    (hx : p → Relaxes x y) (hx' : ¬p → Relaxes x' y') :
    Relaxes (if p then x else x') (if p then y else y') := by
  by_cases h : p
  · rw [if_pos h, if_pos h]
    exact hx h
  · rw [if_neg h, if_neg h]
    exact hx' h

theorem relaxes_record (e : Except Failure α) : Relaxes (record e) (record e) := by
  have h : Cleanly (record e >>= pure) fun _ _ _ ↦ True :=
    cleanly_record (cleanly_pure none) fun a _ ↦ (cleanly_pure (some a)).mono fun _ ↦ trivial
  exact relaxes_of_cleanly (bind_pure (record e) ▸ h)

section

variable {f g : Node → WeaveM Node} (hf : ∀ n, Relaxes (f n) (g n))

include hf

theorem relaxes_mapM (nodes : List Node) : Relaxes (nodes.mapM f) (nodes.mapM g) := by
  induction nodes with
  | nil => exact relaxes_pure []
  | cons n nodes ih =>
    rw [List.mapM_cons, List.mapM_cons]
    exact relaxes_bind (hf n) fun _ ↦ relaxes_bind ih fun _ ↦ relaxes_pure _

theorem relaxes_option_mapM (part : Option Node) : Relaxes (part.mapM f) (part.mapM g) := by
  cases part with
  | none => exact relaxes_pure none
  | some n =>
    rw [Option.mapM_some, Option.mapM_some, map_eq_pure_bind, map_eq_pure_bind]
    exact relaxes_bind (hf n) fun _ ↦ relaxes_pure _

theorem relaxes_mapChildren (n : Node) : Relaxes (n.mapChildren f) (n.mapChildren g) := by
  have hparts := relaxes_mapM hf
  have hpart := relaxes_option_mapM hf
  cases n
  case ascribe span how value type =>
    simp only [Node.mapChildren]
    split
    all_goals exact relaxes_bind (hf _) fun _ ↦ relaxes_bind (hf _) fun _ ↦ relaxes_pure _
  all_goals
    simp only [Node.mapChildren]
    repeat first
      | exact relaxes_pure _
      | exact hf _
      | exact hparts _
      | exact hpart _
      | refine relaxes_bind ?_ fun _ ↦ ?_

end

def Site.under (site : Site) (policy : EarlyExitPolicy) : Site :=
  { site with options := { site.options with earlyExitPolicy := policy } }

section

variable (site : Site) (policy : EarlyExitPolicy)

theorem threadParams_under (positions : List Nat) (index : Nat) (params : List Param) :
    threadParams (site.under policy) positions index params =
      threadParams site positions index params := by
  induction params generalizing index with
  | nil => rfl
  | cons param params ih =>
    unfold threadParams
    rw [ih]
    rfl

end

section

variable (site : Site) {self self' : Self}

theorem relaxes_between {enter leave : State → State} {x y : WeaveM α}
    (henter : ∀ s, (enter s).Clean → s.Clean) (hleave : ∀ s, (leave s).Clean → s.Clean)
    (hx : Relaxes x y) :
    Relaxes (modify enter >>= fun _ ↦ x >>= fun a ↦ modify leave >>= fun _ ↦ pure a)
      (modify enter >>= fun _ ↦ y >>= fun a ↦ modify leave >>= fun _ ↦ pure a) :=
  relaxes_bind (relaxes_modify henter) fun _ ↦ relaxes_bind hx fun a ↦
    relaxes_bind (relaxes_modify hleave) fun _ ↦ relaxes_pure a

/-- Takes over what enclosing the conditions of a body came to. -/
def tallied (run : Except Failure (List Stmt) × ConditionTally) : WeaveM (Option (List Stmt)) := do
  modify fun s ↦ { s with
    errors := s.errors ++ run.2.errors
    stats := { s.stats with reifiedChains := s.stats.reifiedChains + run.2.enclosed } }
  record run.1

theorem relaxes_encloseConditions (stmts : List Stmt) :
    Relaxes (encloseConditions (site.under .reject) stmts)
      (encloseConditions (site.under .leaveUntouched) stmts) := by
  let run (policy : EarlyExitPolicy) := Condition.run (conditionSettings (site.under policy)) stmts
  change Relaxes (tallied (run .reject)) (tallied (run .leaveUntouched))
  intro s a s' h hc
  obtain ⟨u, s₁, hs₁, hrecord⟩ := bind_apply_eq_some.1 h
  obtain rfl := modify_apply_eq_some.1 hs₁
  obtain ⟨⟨herrors, hfailure⟩, -⟩ := relaxes_record _ hrecord hc
  obtain ⟨hs, htally⟩ := List.append_eq_nil_iff.1 herrors
  have hrun : run .leaveUntouched = run .reject :=
    Condition.run_eq_of_reject (conditionSettings site) htally
  exact ⟨⟨hs, hfailure⟩, hrun ▸ h⟩

theorem relaxes_wrappedBody (hself : ∀ n, Relaxes (self n) (self' n)) (sig : Signature)
    (params : List Param) (result : Option Ty) (body : Node) :
    Relaxes (wrappedBody (site.under .reject) self sig params result body)
      (wrappedBody (site.under .leaveUntouched) self' sig params result body) := by
  have hwalk (stmts : List Stmt) : Relaxes
      (inMemoBody site sig params stmts (stmts.mapM self))
      (inMemoBody site sig params stmts (stmts.mapM self')) :=
    relaxes_between (fun _ h ↦ h) (fun _ h ↦ h) (relaxes_bind (relaxes_modify fun _ h ↦ h) fun _ ↦
      relaxes_between (fun _ h ↦ h) (fun _ h ↦ h) (relaxes_mapM hself stmts))
  unfold wrappedBody
  refine relaxes_ite (fun _ ↦ ?_) fun _ ↦ ?_
  all_goals
    refine relaxes_bind (by first | exact relaxes_encloseConditions site _ | exact relaxes_pure _)
      fun enclosed ↦ ?_
    cases enclosed with
    | none => exact relaxes_pure none
    | some stmts =>
      exact relaxes_bind (hwalk stmts) fun _ ↦ relaxes_bind (relaxes_record _) fun _ ↦ relaxes_pure _

theorem relaxes_memoFunction (hself : ∀ n, Relaxes (self n) (self' n)) (sig : Signature) (f : Func) :
    Relaxes (memoFunction (site.under .reject) self sig f)
      (memoFunction (site.under .leaveUntouched) self' sig f) := by
  have hfinish (params : List Param) : Relaxes (finishFunction site sig params)
      (finishFunction site sig params) := relaxes_of_cleanly (cleanly_finishFunction sig params)
  unfold memoFunction
  split
  · refine relaxes_bind (relaxes_modify fun _ h ↦ h) fun _ ↦ ?_
    dsimp only
    split
    · exact relaxes_bind (relaxes_of_cleanly (cleanly_reportAll (by simp))) fun _ ↦ relaxes_pure _
    · refine relaxes_ite (fun hbreaches ↦ ?_) fun _ ↦ ?_
      · exact relaxes_bind (relaxes_of_cleanly (cleanly_reportAll (by simpa using hbreaches)))
          fun _ ↦ relaxes_pure _
      · rw [threadParams_under, threadParams_under]
        refine relaxes_bind (relaxes_of_cleanly (cleanly_threadParams _ _ _)) fun params ↦ ?_
        split
        · exact relaxes_pure _
        · refine relaxes_ite (fun _ ↦ ?_) fun _ ↦ ?_
          · refine relaxes_bind (relaxes_wrappedBody site hself _ _ _ _) fun body ↦ ?_
            cases body with
            | some body => exact relaxes_bind (hfinish params) fun _ ↦ relaxes_pure _
            | none => exact relaxes_pure _
          · refine relaxes_bind ?_ fun body ↦ relaxes_bind (hfinish params) fun _ ↦ relaxes_pure _
            exact relaxes_between (fun _ h ↦ h) (fun _ h ↦ h)
              (relaxes_bind (relaxes_modify fun _ h ↦ h) fun _ ↦
                relaxes_between (fun _ h ↦ h) (fun _ h ↦ h) (relaxes_mapChildren hself _))
  · exact relaxes_pure _

theorem relaxes_function (hself : ∀ n, Relaxes (self n) (self' n)) (span : Span) (head : FuncHead)
    (typeParams : List Node) (this : Option Node) (params : List Param) (result : Option Ty)
    (body : Node) :
    Relaxes (function (site.under .reject) self span head typeParams this params result body)
      (function (site.under .leaveUntouched) self' span head typeParams this params result body) := by
  unfold function
  refine relaxes_ite (fun _ ↦ ?_) fun _ ↦ ?_
  · exact relaxes_mapChildren hself _
  · refine relaxes_bind (relaxes_of_cleanly (cleanly_signatureFor _ _ _)) fun sig ↦ ?_
    cases sig with
    | some sig => exact relaxes_memoFunction site hself sig _
    | none =>
      refine relaxes_get fun s ↦ relaxes_between (fun _ h ↦ h) (fun _ h ↦ h) ?_
      exact relaxes_between (fun _ h ↦ h) (fun _ h ↦ h)
        (relaxes_bind (relaxes_modify fun _ h ↦ h) fun _ ↦ relaxes_mapChildren hself _)

theorem relaxes_builderClosure (hself : ∀ n, Relaxes (self n) (self' n)) (name : String)
    (reifies : Bool) (arg : Expr) :
    Relaxes (builderClosure (site.under .reject) self name reifies arg)
      (builderClosure (site.under .leaveUntouched) self' name reifies arg) := by
  unfold builderClosure
  split
  · exact relaxes_memoFunction site hself _ _
  · exact hself _

theorem relaxes_threadArgs (hself : ∀ n, Relaxes (self n) (self' n)) (plan : CallPlan)
    (parent : String) (ordinal index : Nat) (args : List Expr) :
    Relaxes (threadArgs (site.under .reject) self plan parent ordinal index args)
      (threadArgs (site.under .leaveUntouched) self' plan parent ordinal index args) := by
  induction args generalizing index with
  | nil => exact relaxes_pure []
  | cons arg args ih =>
    unfold threadArgs
    refine relaxes_ite (fun _ ↦ ?_) fun _ ↦ ?_
    · exact relaxes_bind (relaxes_builderClosure site hself _ _ arg) fun _ ↦
        relaxes_bind (ih _) fun _ ↦ relaxes_pure _
    · exact relaxes_bind (hself arg) fun _ ↦ relaxes_bind (ih _) fun _ ↦ relaxes_pure _

theorem relaxes_nextCall : Relaxes nextCall nextCall := by
  unfold nextCall
  refine relaxes_get fun s ↦ ?_
  split
  · exact relaxes_bind (relaxes_modify fun _ h ↦ h) fun _ ↦ relaxes_pure _
  · exact relaxes_pure _

theorem relaxes_call (hself : ∀ n, Relaxes (self n) (self' n)) (span : Span) (how : Application)
    (callee : Expr) (types args : List Node) :
    Relaxes (call (site.under .reject) self span how callee types args)
      (call (site.under .leaveUntouched) self' span how callee types args) := by
  have hresolve (policy : EarlyExitPolicy) : resolveCall? (site.under policy) = resolveCall? site := rfl
  unfold call threadCall
  rw [hresolve, hresolve]
  refine relaxes_get fun s ↦ ?_
  split
  · refine relaxes_ite (fun _ ↦ ?_) fun _ ↦ ?_
    · refine relaxes_bind relaxes_nextCall fun next ↦ ?_
      cases next with
      | none => exact relaxes_pure _
      | some place =>
        refine relaxes_bind (hself callee) fun callee ↦ ?_
        refine relaxes_bind (relaxes_threadArgs site hself _ _ _ _ args) fun args ↦ ?_
        refine relaxes_bind (relaxes_record _) fun identity ↦ ?_
        cases identity with
        | none => exact relaxes_pure _
        | some identity =>
          exact relaxes_bind (relaxes_modify fun _ h ↦ h) fun _ ↦
            relaxes_bind (relaxes_modify fun _ h ↦ h) fun _ ↦ relaxes_pure _
    · exact relaxes_mapChildren hself _
  · exact relaxes_mapChildren hself _

theorem relaxes_dropMarkers (decorators : List Expr) :
    Relaxes (dropMarkers decorators) (dropMarkers decorators) :=
  relaxes_of_cleanly (cleanly_dropMarkers decorators)

theorem relaxes_method (hself : ∀ n, Relaxes (self n) (self' n)) (span : Span) (kind : MethodKind)
    (mods : Modifiers) (decorators : List Expr) (key f : Node) :
    Relaxes (method (site.under .reject) self span kind mods decorators key f)
      (method (site.under .leaveUntouched) self' span kind mods decorators key f) := by
  unfold method
  refine relaxes_bind (relaxes_dropMarkers decorators) fun kept ↦ relaxes_get fun s ↦ ?_
  refine relaxes_ite (fun _ ↦ ?_) fun _ ↦ relaxes_ite (fun _ ↦ ?_) fun _ ↦
    relaxes_ite (fun _ ↦ ?_) fun _ ↦ ?_
  · exact relaxes_between (fun _ h ↦ h) (fun _ h ↦ h) (relaxes_mapChildren hself _)
  · exact relaxes_bind (relaxes_of_cleanly cleanly_report) fun _ ↦ relaxes_pure _
  · exact relaxes_bind (relaxes_modify fun _ h ↦ h) fun _ ↦ relaxes_mapChildren hself _
  · exact relaxes_mapChildren hself _

theorem relaxes_field (hself : ∀ n, Relaxes (self n) (self' n)) (span : Span) (mods : Modifiers)
    (decorators : List Expr) (key : Node) (type : Option Ty) (init : Option Expr) :
    Relaxes (field (site.under .reject) self span mods decorators key type init)
      (field (site.under .leaveUntouched) self' span mods decorators key type init) := by
  have hrest (type : Option Ty) : Relaxes
      (dropMarkers decorators >>= fun kept ↦
        (Node.field span false mods kept key type init).mapChildren self)
      (dropMarkers decorators >>= fun kept ↦
        (Node.field span false mods kept key type init).mapChildren self') :=
    relaxes_bind (relaxes_dropMarkers decorators) fun _ ↦ relaxes_mapChildren hself _
  unfold field
  refine relaxes_ite (fun _ ↦ ?_) fun _ ↦ hrest type
  exact relaxes_bind
    (relaxes_option_mapM (fun type ↦ relaxes_of_cleanly (cleanly_threadType type)) type) hrest

theorem relaxes_declareVariables (hself : ∀ n, Relaxes (self n) (self' n)) (span : Span)
    (kind : VarKind) (declared : Bool) (items : List Node) :
    Relaxes (declareVariables (site.under .reject) self span kind declared items)
      (declareVariables (site.under .leaveUntouched) self' span kind declared items) := by
  have hwalk (items : List Node) : Relaxes ((Node.vars span kind declared items).mapChildren self)
      ((Node.vars span kind declared items).mapChildren self') := relaxes_mapChildren hself _
  have hbind (items : List Node) : Relaxes
      (if kind = .hoisted then modifyScopes (·.bindVars (Node.declaredNames items)) >>= fun _ ↦
        (Node.vars span kind declared items).mapChildren self
        else (Node.vars span kind declared items).mapChildren self)
      (if kind = .hoisted then modifyScopes (·.bindVars (Node.declaredNames items)) >>= fun _ ↦
        (Node.vars span kind declared items).mapChildren self'
        else (Node.vars span kind declared items).mapChildren self') :=
    relaxes_ite (fun _ ↦ relaxes_bind (relaxes_modify fun _ h ↦ h) fun _ ↦ hwalk items)
      fun _ ↦ hwalk items
  have hawait (items : List Node) : Relaxes _ _ :=
    relaxes_ite (p := (site.annotations.markers span.start).isMemoLike = true)
      (fun _ ↦ relaxes_bind (relaxes_modify (f := (·.await (items.flatMap initialClosure)))
        fun _ h ↦ h) fun _ ↦ hbind items) fun _ ↦ hbind items
  unfold declareVariables
  refine relaxes_ite (fun _ ↦ ?_) fun _ ↦ hawait items
  exact relaxes_bind
    (relaxes_mapM (fun item ↦ relaxes_of_cleanly (cleanly_threadDeclarator item)) items) hawait

theorem relaxes_opened (hself : ∀ n, Relaxes (self n) (self' n)) {enter : WeaveM Unit}
    (henter : Relaxes enter enter) (n : Node) :
    Relaxes (inBlock (enter >>= fun _ ↦ n.mapChildren self))
      (inBlock (enter >>= fun _ ↦ n.mapChildren self')) :=
  relaxes_between (fun _ h ↦ h) (fun _ h ↦ h)
    (relaxes_bind henter fun _ ↦ relaxes_mapChildren hself n)

theorem relaxes_step (hself : ∀ n, Relaxes (self n) (self' n)) (n : Node) :
    Relaxes (step (site.under .reject) self n) (step (site.under .leaveUntouched) self' n) := by
  have hhead (n : Node) : Relaxes (bindHead n) (bindHead n) := relaxes_of_cleanly (cleanly_bindHead n)
  have hmodify (f : Scopes → Scopes) : Relaxes (modifyScopes f) (modifyScopes f) :=
    relaxes_modify fun _ h ↦ h
  unfold step
  split
  · exact relaxes_of_cleanly (cleanly_reference (W := fun _ _ _ _ ↦ True))
  · exact relaxes_call site hself _ _ _ _ _
  · exact relaxes_function site hself _ _ _ _ _ _ _
  · exact relaxes_between (fun _ h ↦ h) (fun _ h ↦ h) (relaxes_mapChildren hself _)
  · exact relaxes_method site hself _ _ _ _ _ _
  · exact relaxes_field site hself _ _ _ _ _ _
  · exact relaxes_bind (relaxes_dropMarkers _) fun _ ↦ relaxes_mapChildren hself _
  · exact relaxes_get fun _ ↦ relaxes_mapChildren hself _
  · exact relaxes_get fun _ ↦ relaxes_mapChildren hself _
  · exact relaxes_declareVariables site hself _ _ _ _
  · exact relaxes_opened hself (hmodify _) _
  · exact relaxes_opened hself (hmodify _) _
  · next span init test update body =>
    refine relaxes_opened hself ?_ _
    cases init with
    | none => exact relaxes_pure _
    | some head => exact hhead head
  · exact relaxes_opened hself (hhead _) _
  · exact relaxes_opened hself (hmodify _) _
  · refine relaxes_bind (relaxes_mapM (fun n ↦ ?_) _) fun _ ↦ relaxes_mapChildren hself _
    exact relaxes_of_cleanly (cleanly_extendedInterface n)
  · exact relaxes_mapChildren hself _

theorem relaxes_walk (depth : Nat) (n : Node) :
    Relaxes (walk (site.under .reject) depth n) (walk (site.under .leaveUntouched) depth n) := by
  induction depth generalizing n with
  | zero =>
    intro s n' s' h
    exact absurd (h : none = some (n', s')) (Option.some_ne_none _).symm
  | succ depth ih => exact relaxes_step site ih n

theorem walkAll_eq_of_reject {depth : Nat} {stmts stmts' : List Stmt} {s : State}
    (h : walkAll (site.under .reject) depth stmts = some (stmts', s)) (hc : s.Clean) :
    walkAll (site.under .leaveUntouched) depth stmts = some (stmts', s) :=
  (relaxes_mapM (relaxes_walk site depth) stmts h hc).2

end

end Weave

def Options.under (o : Options) (policy : EarlyExitPolicy) : Options :=
  { o with earlyExitPolicy := policy }

theorem transformParsed_eq_of_reject {source : String} {o : Options} {parsed : Parsed}
    (h : (transformParsed source (o.under .reject) parsed).errors = []) :
    transformParsed source (o.under .leaveUntouched) parsed =
      transformParsed source (o.under .reject) parsed := by
  let site := siteOf source o parsed
  unfold transformParsed at h ⊢
  cases hwalk : Weave.walkAll (siteOf source (o.under .reject) parsed)
      (walkDepth source.utf8ByteSize) parsed.program.body with
  | none => simp [hwalk, Report.failed] at h
  | some result =>
    obtain ⟨body, s⟩ := result
    simp only [hwalk] at h ⊢
    cases herrors : walkErrors o.filePath s with
    | cons d ds =>
      have hfile : (o.under .reject).filePath = o.filePath := rfl
      simp [hfile, herrors, Report.failed] at h
    | nil =>
      have hlenient := Weave.walkAll_eq_of_reject site hwalk (Weave.walkErrors_eq_nil.1 herrors)
      have hsame : Weave.walkAll (siteOf source (o.under .leaveUntouched) parsed)
        (walkDepth source.utf8ByteSize) parsed.program.body = some (body, s) := hlenient
      rw [hsame]
      rfl

/-- The lenient policy only relaxes the strict one: what the strict policy has nothing to say against
is woven alike under both, down to the text and the counts. -/
theorem transform_lenient_eq_strict {source : String} {o : Options}
    (h : (transform source (o.under .reject)).errors = []) :
    transform source (o.under .leaveUntouched) = transform source (o.under .reject) := by
  unfold transform at h ⊢
  have hvalid (policy : EarlyExitPolicy) : (o.under policy).validate = o.validate := rfl
  have hfile (policy : EarlyExitPolicy) : (o.under policy).filePath = o.filePath := rfl
  simp only [hvalid, hfile] at h ⊢
  cases hchecked : o.validate with
  | error failure => rfl
  | ok valid =>
    cases hparse : parse? source (allowsElements o.filePath) with
    | none => rfl
    | some parsed =>
      simp only [hchecked, hparse] at h
      exact transformParsed_eq_of_reject h

/-- A memo function whose one statement is a condition, which is enclosed. -/
def enclosingSource : String :=
  "//@memo\nfunction f()\x7bif(a)g()\x7d"

def importlessOptions : Options :=
  { runtime := Weave.shortNames, emitImports := false }

set_option maxRecDepth 100000 in
theorem transform_enclosingSource :
    ((transform enclosingSource (importlessOptions.under .reject)).errors,
      (transform enclosingSource (importlessOptions.under .reject)).stats.reifiedChains) = ([], 1) := by
  decide +kernel

theorem transform_lenient_eq_strict_enclosingSource :
    (transform enclosingSource (importlessOptions.under .reject)).errors = [] ∧
      (transform enclosingSource (importlessOptions.under .reject)).stats.reifiedChains = 1 ∧
      transform enclosingSource (importlessOptions.under .leaveUntouched) =
        transform enclosingSource (importlessOptions.under .reject) := by
  obtain ⟨herrors, hchains⟩ := Prod.mk.inj transform_enclosingSource
  exact ⟨herrors, hchains, transform_lenient_eq_strict herrors⟩

end Recompose
