import Recompose.Proofs.Jump
import Recompose.Proofs.Replay

namespace Recompose.Execution

open Script

variable {V σ : Type}

/-- The values of the returns that the step runs, latest first, suit the way it ends. -/
def Adds (P : List V → Completion V → Prop) (a : Step V σ) : Prop :=
  ∀ m, ∃ new, (a m).2.returns = new ++ m.returns ∧ P new (a m).1

/-- Does a run go on behind what ends so, in the same list or loop? -/
def Completion.isPassing : Completion V → Bool
  | .normal | .continue _ => true
  | _ => false

/-- What makes a property of runs hold of a run when it holds of the runs one after another. -/
structure Accounts (P : List V → Completion V → Prop) : Prop where
  quiet : ∀ c, (∀ v, c ≠ .return v) → P [] c
  next : ∀ old new c d, c.isPassing → P old c → P new d → P (new ++ old) d
  jump : ∀ old l, P old (.break l) → P old .normal
  close : ∀ old c v, P old c → P old (.throw v)

/-- What a property of runs needs besides where there are handlers and finalizers. After its body has
ended, a finalizer that ends normally may only add what is `minor`. -/
structure Overrides (P : List V → Completion V → Prop) (minor : List V → Prop) : Prop where
  next : ∀ old new c d, P old c → P new d → P (new ++ old) d
  finish : ∀ old new c, P old c → minor new → P (new ++ old) c

variable {P : List V → Completion V → Prop} {minor : List V → Prop} {a b : Step V σ} {w : World V σ}

theorem Adds.mono {Q : List V → Completion V → Prop} (h : Adds P a)
    (hpq : ∀ new c, P new c → Q new c) : Adds Q a :=
  fun m ↦ (h m).imp fun _ hm ↦ ⟨hm.1, hpq _ _ hm.2⟩

theorem adds_done {c : Completion V} (h : P [] c) : Adds P (done c : Step V σ) :=
  fun _ ↦ ⟨[], rfl, h⟩

theorem adds_act (hP : Accounts P) {e : Effect V} {next : V → Step V σ}
    (h : ∀ v, Adds P (next v)) : Adds P (act w e next) := by
  intro m
  unfold act
  rcases w.perform e m.store with ⟨v | v, s⟩
  · exact ⟨[], rfl, hP.quiet _ (by simp)⟩
  · exact h v _

theorem adds_choose (hP : Accounts P) {e : Effect V} (ha : Adds P a) (hb : Adds P b) :
    Adds P (choose w e a b) :=
  adds_act hP fun v ↦ by split <;> assumption

theorem adds_evaluate (hP : Accounts P) (node : Node) : Adds P (evaluate w node) :=
  adds_act hP fun _ ↦ adds_done (hP.quiet _ (by simp))

theorem adds_evaluatePart (hP : Accounts P) (part : Option Node) :
    Adds P (evaluatePart w part) := by
  cases part with
  | none => exact adds_done (hP.quiet _ (by simp))
  | some node => exact adds_evaluate hP node

theorem adds_whileTrue (hP : Accounts P) {test : Option Node} (ha : Adds P a) :
    Adds P (whileTrue w test a) := by
  cases test with
  | none => exact ha
  | some test => exact adds_choose hP ha (adds_done (hP.quiet _ (by simp)))

theorem adds_seq (hP : Accounts P) (ha : Adds P a) (hb : Adds P b) : Adds P (seq a b) := by
  intro m
  obtain ⟨old, hold, hc⟩ := ha m
  unfold seq
  split
  · next m' he =>
    obtain ⟨new, hnew, hd⟩ := hb m'
    rw [he] at hold hc
    exact ⟨new ++ old, by rw [hnew, hold, List.append_assoc], hP.next _ _ _ _ rfl hc hd⟩
  · exact ⟨old, hold, hc⟩

theorem adds_catching (hP : Overrides P minor) {rescue : V → Step V σ} (ha : Adds P a)
    (hr : ∀ v, Adds P (rescue v)) : Adds P (catching a rescue) := by
  intro m
  obtain ⟨old, hold, hc⟩ := ha m
  unfold catching
  split
  · next v m' he =>
    obtain ⟨new, hnew, hd⟩ := hr v m'
    rw [he] at hold hc
    exact ⟨new ++ old, by rw [hnew, hold, List.append_assoc], hP.next _ _ _ _ hc hd⟩
  · exact ⟨old, hold, hc⟩

theorem adds_finishing (hP : Overrides P minor) (ha : Adds P a) (hb : Adds P b)
    (hminor : Adds (fun new c ↦ c = .normal → minor new) b) : Adds P (finishing a b) := by
  intro m
  obtain ⟨old, hold, hc⟩ := ha m
  unfold finishing
  split
  · next m' he =>
    rw [he] at hold hc
    exact ⟨old, hold, hc⟩
  · next c m' _ he =>
    rw [he] at hold hc
    split
    · next m'' hb' =>
      obtain ⟨new, hnew, hd⟩ := hminor m'
      rw [hb'] at hnew hd
      exact ⟨new ++ old, by rw [hnew, hold, List.append_assoc], hP.finish _ _ _ hc (hd rfl)⟩
    · obtain ⟨new, hnew, hd⟩ := hb m'
      exact ⟨new ++ old, by rw [hnew, hold, List.append_assoc], hP.next _ _ _ _ hc hd⟩

/-- A step that notes nothing and ends so that what held before it ends still holds. -/
def Passes (P : List V → Completion V → Prop) (c : Completion V) (a : Step V σ) : Prop :=
  ∀ m, (a m).2.returns = m.returns ∧ ∀ old, P old c → P old (a m).1

theorem passes_leave (hP : Accounts P) (c : Completion V) : Passes P c (leave c : Step V σ) := by
  intro m
  rcases c with _ | _ | _ | (_ | l) | _ | _
  case «break».none => exact ⟨rfl, fun old h ↦ hP.jump old none h⟩
  all_goals exact ⟨rfl, fun old h ↦ h⟩

theorem passes_act (hP : Accounts P) {c : Completion V} {e : Effect V} {next : V → Step V σ}
    (h : ∀ v, Passes P c (next v)) : Passes P c (act w e next) := by
  intro m
  unfold act
  rcases w.perform e m.store with ⟨v | v, s⟩
  · exact ⟨rfl, fun old hc ↦ hP.close old c v hc⟩
  · exact h v _

theorem passes_leaveClosed (hP : Accounts P) (head : Node) (iterated : V) (c : Completion V) :
    Passes P c (leaveClosed w head iterated c) := by
  unfold leaveClosed
  split
  · exact fun m ↦ ⟨rfl, fun old h ↦ h⟩
  · next v =>
    intro m
    unfold finishing catching act done
    dsimp only
    rcases w.perform (.close head iterated) m.store with ⟨u | u, s⟩ <;> exact ⟨rfl, fun old h ↦ h⟩
  · exact passes_act hP fun _ ↦ passes_leave hP _

theorem isPassing_of_goesOn {labels : List String} {c : Completion V} (h : goesOn labels c) :
    c.isPassing := by
  unfold goesOn at h
  split at h <;> first | rfl | exact absurd h (by simp)

theorem adds_loop (hP : Accounts P) {labels : List String} {before after : Step V σ → Step V σ}
    {exit : Completion V → Step V σ} (hbefore : ∀ a, Adds P a → Adds P (before a))
    (hafter : ∀ a, Adds P a → Adds P (after a)) (hexit : ∀ c, Passes P c (exit c)) (hb : Adds P b)
    (rounds : Nat) : Adds P (loop labels before after exit b rounds) := by
  induction rounds with
  | zero => exact adds_done (hP.quiet _ (by simp))
  | succ rounds ih =>
    refine hbefore _ fun m ↦ ?_
    obtain ⟨old, hold, hc⟩ := hb m
    dsimp only
    split
    · next hgoes =>
      obtain ⟨new, hnew, hd⟩ := hafter _ ih (b m).2
      exact ⟨new ++ old, by rw [hnew, hold, List.append_assoc],
        hP.next _ _ _ _ (isPassing_of_goesOn hgoes) hc hd⟩
    · obtain ⟨hkeeps, hends⟩ := hexit (b m).1 (b m).2
      exact ⟨old, hkeeps.trans hold, hends old hc⟩

theorem adds_select (hP : Accounts P) {v : V} {next : Option Nat → Step V σ}
    (h : ∀ i, Adds P (next i)) (i : Nat) (tests : List (Option Expr)) :
    Adds P (select w v next i tests) := by
  induction tests generalizing i with
  | nil => exact h none
  | cons test tests ih =>
    cases test with
    | none => exact ih (i + 1)
    | some test =>
      refine adds_act hP fun u ↦ ?_
      split
      · exact h (some i)
      · exact ih (i + 1)

theorem adds_breaking (hP : Accounts P) (ha : Adds P a) : Adds P (breaking a) := by
  intro m
  obtain ⟨new, hnew, hc⟩ := ha m
  unfold breaking
  split
  · next m' he =>
    rw [he] at hnew hc
    exact ⟨new, hnew, hP.jump _ _ hc⟩
  · exact ⟨new, hnew, hc⟩

theorem adds_labelling (hP : Accounts P) (label : String) (ha : Adds P a) :
    Adds P (labelling label a) := by
  intro m
  obtain ⟨new, hnew, hc⟩ := ha m
  unfold labelling
  split
  · next l m' he =>
    rw [he] at hnew hc
    split
    · exact ⟨new, hnew, hP.jump _ _ hc⟩
    · exact ⟨new, hnew, hc⟩
  · exact ⟨new, hnew, hc⟩

section Statements

variable {n : RuntimeNames} {bound : Nat}

theorem adds_execAll (hP : Accounts P) {x : Exits} {stmts : List Stmt}
    (h : ∀ stmt ∈ stmts, Adds P (exec n w bound x [] stmt)) :
    Adds P (execAll n w bound x stmts) := by
  induction stmts with
  | nil => exact adds_done (hP.quiet _ (by simp))
  | cons stmt stmts ih =>
    exact adds_seq hP (h stmt List.mem_cons_self) (ih fun s hs ↦ h s (List.mem_cons_of_mem _ hs))

theorem adds_execFrom (hP : Accounts P) {x : Exits} {clauses : List Node}
    (h : ∀ clause ∈ clauses, Adds P (execClause n w bound x clause)) (i : Nat) :
    Adds P (execFrom n w bound x i clauses) := by
  induction clauses generalizing i with
  | nil =>
    rw [execFrom]
    exact adds_done (hP.quiet _ (by simp))
  | cons clause clauses ih =>
    have ih' := ih fun c hc ↦ h c (List.mem_cons_of_mem _ hc)
    cases i with
    | zero => exact adds_seq hP (h clause List.mem_cons_self) (ih' 0)
    | succ i => exact ih' i

theorem adds_execExpr (hP : Accounts P) (e : Expr) : Adds P (execExpr n w bound e) := by
  intro m
  -- To set the returns to what they are changes nothing before the run, and so nothing behind it.
  have hf : KeepsState fun m' : Machine V σ ↦ { m' with returns := m.returns } :=
    ⟨fun _ ↦ rfl, fun _ _ _ ↦ rfl⟩
  have h : Replays _ (execExpr n w bound e) (execExpr n w bound e) := (replays_unnoted hf e).2
  have hends : Ends (fun c ↦ ∀ v, c ≠ .return v) (execExpr n w bound e) :=
    ends_execExpr (by simp) (by simp) (by simp) e
  refine ⟨[], ?_, hP.quiet _ (hends m)⟩
  simpa using congrArg (·.2.returns) (h m)

/-- What is found in a node outside nested functions and classes. -/
def unsealed {α : Type} (find : Node → List α) (node : Node) : List α :=
  node.gather (fun (_ : Unit) n ↦ if isSealed n then (none, []) else (some (), find n)) ()

def returnsOf : Node → List Node :=
  unsealed fun node ↦
    match node with
    | .returnStmt span value => [.returnStmt span value]
    | _ => []

def triesOf : Node → List Node :=
  unsealed fun node ↦
    match node with
    | .tryStmt span body handler finalizer => [.tryStmt span body handler finalizer]
    | _ => []

def finalizersOf : Node → List Node :=
  unsealed fun node ↦
    match node with
    | .tryStmt _ _ _ finalizer => finalizer.toList
    | _ => []

theorem unsealed_eq {α : Type} (find : Node → List α) (node : Node) : unsealed find node =
    if isSealed node then [] else find node ++ node.children.flatMap (unsealed find) := by
  unfold unsealed
  rw [Node.gather_eq]
  split <;> rfl

theorem unsealed_own_subset {α : Type} {find : Node → List α} {node : Node}
    (hs : isSealed node = false) : find node ⊆ unsealed find node := by
  rw [unsealed_eq, if_neg (by simp [hs])]
  exact List.subset_append_left _ _

theorem unsealed_part_subset {α : Type} {find : Node → List α} {node part : Node}
    (hs : isSealed node = false) (hp : part ∈ node.children) :
    unsealed find part ⊆ unsealed find node := by
  intro a ha
  rw [unsealed_eq, if_neg (by simp [hs])]
  exact List.mem_append_right _ (List.mem_flatMap.2 ⟨part, hp, ha⟩)

/-- The returns that a statement runs are accounted for, given that a return alone is and that what
a finalizer adds is minor. -/
theorem adds_exec (hP : Accounts P) (node : Node)
    (hreturn : returnsOf node ≠ [] → ∀ v, P [v] (.return v))
    (htries : triesOf node ≠ [] → Overrides P minor ∧ minor [])
    (hfinal : ∀ last ∈ finalizersOf node, Adds P (exec n w bound .noted [] last) →
      Adds (fun new c ↦ c = .normal → minor new) (exec n w bound .noted [] last))
    (labels : List String) :
    Adds P (exec n w bound .noted labels node) := by
  induction node using Node.induction_on_parts generalizing labels with
  | step node ih =>
  have hpart (hs : isSealed node = false) (part : Node) (hp : part ∈ node.children)
      (labels : List String) : Adds P (exec n w bound .noted labels part) := by
    refine ih part hp (fun hne ↦ hreturn fun he ↦ hne ?_) (fun hne ↦ htries fun he ↦ hne ?_)
      (fun last hl ↦ hfinal last (unsealed_part_subset hs hp hl)) labels
    · exact List.subset_nil.1 (he ▸ unsealed_part_subset hs hp)
    · exact List.subset_nil.1 (he ▸ unsealed_part_subset hs hp)
  have hnormal : P [] .normal := hP.quiet _ (by simp)
  have hmissing (part : Option Node) (hp : ∀ stmt ∈ part.toList, stmt ∈ node.children)
      (hs : isSealed node = false) : Adds P (execPart n w bound .noted part) := by
    cases part with
    | none => exact adds_done hnormal
    | some stmt => exact hpart hs stmt (hp stmt (by simp)) []
  cases node
  case empty => exact adds_done hnormal
  case exprStmt span e => exact adds_execExpr hP e
  case block span stmts => exact adds_execAll hP fun stmt hs ↦ hpart rfl stmt hs []
  case clause span test stmts =>
    exact adds_execAll hP fun stmt hs ↦ hpart rfl stmt (List.mem_append_right _ hs) []
  case ifStmt span test yes no =>
    exact adds_choose hP (hpart rfl yes (by simp [Node.children]) [])
      (hmissing no (fun stmt hs ↦ List.mem_append_right _ hs) rfl)
  case whileStmt span test body =>
    exact adds_loop hP (fun a ha ↦ adds_whileTrue hP ha) (fun a ha ↦ ha) (passes_leave hP)
      (hpart rfl body (by simp [Node.children]) []) bound
  case doWhile span body test =>
    exact adds_loop hP (fun a ha ↦ ha) (fun a ha ↦ adds_whileTrue hP ha) (passes_leave hP)
      (hpart rfl body (by simp [Node.children]) []) bound
  case forStmt span init test update body =>
    exact adds_seq hP (adds_evaluatePart hP init) (adds_loop hP (fun a ha ↦ adds_whileTrue hP ha)
      (fun a ha ↦ adds_seq hP (adds_evaluatePart hP update) ha) (passes_leave hP)
      (hpart rfl body (by simp [Node.children]) []) bound)
  case forEach span kind head iterated body =>
    refine adds_act hP fun v ↦ adds_loop hP (fun a ha ↦ adds_choose hP ha (adds_done hnormal))
      (fun a ha ↦ ha) (fun c ↦ ?_) (hpart rfl body (by simp [Node.children]) []) bound
    split
    · exact passes_leave hP c
    · exact passes_leaveClosed hP head v c
  case switchStmt span subject clauses =>
    refine adds_act hP fun v ↦ adds_breaking hP (adds_select hP (fun found ↦ ?_) _ _)
    split
    · refine adds_execFrom hP (fun clause hc ↦ ?_) _
      cases clause
      case clause span test stmts =>
        exact hpart rfl (.clause span test stmts) (List.mem_append_right _ hc) []
      all_goals exact adds_done (hP.quiet _ (by simp))
    · exact adds_done hnormal
  case returnStmt span value =>
    have hv (v : V) : P [v] (.return v) := by
      refine hreturn (fun he ↦ ?_) v
      have hmem : Node.returnStmt span value ∈ returnsOf (.returnStmt span value) :=
        unsealed_own_subset rfl (List.mem_singleton_self _)
      rw [he] at hmem
      exact absurd hmem (by simp)
    cases value with
    | none => exact fun m ↦ ⟨[w.undefined], rfl, hv _⟩
    | some e => exact adds_act hP fun v m ↦ ⟨[v], rfl, hv v⟩
  case throwStmt span e => exact adds_act hP fun v ↦ adds_done (hP.quiet _ (by simp))
  case breakStmt => exact adds_done (hP.quiet _ (by simp))
  case continueStmt => exact adds_done (hP.quiet _ (by simp))
  case labelled span label body =>
    exact adds_labelling hP label (hpart rfl body (by simp [Node.children]) (label :: labels))
  case tryStmt span body handler finalizer =>
    have hlast := hmissing finalizer (fun stmt hs ↦ List.mem_append_right _ hs) rfl
    obtain ⟨hO, hminor⟩ : Overrides P minor ∧ minor [] := by
      refine htries fun he ↦ ?_
      have hmem : Node.tryStmt span body handler finalizer ∈
          triesOf (.tryStmt span body handler finalizer) :=
        unsealed_own_subset rfl (List.mem_singleton_self _)
      rw [he] at hmem
      exact absurd hmem (by simp)
    refine adds_finishing hO (adds_catching hO (hpart rfl body (by simp [Node.children]) [])
      fun v ↦ ?_) hlast ?_
    · cases handler with
      | none => exact adds_done (hP.quiet _ (by simp))
      | some handler => exact adds_act hP fun _ ↦ hpart rfl handler (by simp [Node.children]) []
    · cases finalizer with
      | none => exact adds_done fun _ ↦ hminor
      | some last => exact hfinal last (unsealed_own_subset rfl (by simp)) hlast
  case handler span caught type body => exact hpart rfl body (by simp [Node.children]) []
  case withStmt span object body =>
    exact adds_act hP fun _ ↦ hpart rfl body (by simp [Node.children]) []
  case moduleDecl span declared title body => exact hpart rfl body (by simp [Node.children]) []
  case code span directives stmts => exact adds_execAll hP fun stmt hs ↦ hpart rfl stmt hs []
  all_goals exact adds_evaluate hP _

theorem accounts_of_overrides (hquiet : ∀ c, (∀ v, c ≠ .return v) → P [] c) (h : Overrides P minor) :
    Accounts P where
  quiet := hquiet
  next old new c d _ := h.next old new c d
  jump old _ ho := h.next old [] _ _ ho (hquiet _ (by simp))
  close old _ _ ho := h.next old [] _ _ ho (hquiet _ (by simp))

theorem adds_execAll_mem (stmts : List Stmt) :
    Adds (fun new c ↦ ∀ v, c = .return v → v ∈ new) (execAll n w bound .noted stmts) := by
  have hO : Overrides (fun (new : List V) c ↦ ∀ v, c = .return v → v ∈ new) fun _ ↦ True :=
    ⟨fun _ _ _ _ _ hd v h ↦ List.mem_append_left _ (hd v h),
      fun _ _ _ hc _ v h ↦ List.mem_append_right _ (hc v h)⟩
  have hP := accounts_of_overrides (fun _ hc v h ↦ absurd h (hc v)) hO
  refine adds_execAll hP fun stmt _ ↦ adds_exec hP stmt (by simp) (fun _ ↦ ⟨hO, trivial⟩) ?_ []
  exact fun last _ hlast ↦ hlast.mono fun _ _ _ _ ↦ trivial

theorem adds_exec_nil {stmt : Stmt} (h : returnsOf stmt = []) :
    Adds (fun new _ ↦ new = []) (exec n w bound .noted [] stmt) := by
  have hO : Overrides (fun (new : List V) _ ↦ new = []) fun new ↦ new = [] :=
    ⟨fun _ _ _ _ hold hnew ↦ by rw [hold, hnew]; rfl, fun _ _ _ hold hnew ↦ by rw [hold, hnew]; rfl⟩
  have hP := accounts_of_overrides (fun _ _ ↦ rfl) hO
  exact adds_exec hP stmt (fun hne ↦ absurd h hne) (fun _ ↦ ⟨hO, rfl⟩)
    (fun _ _ hlast ↦ hlast.mono fun _ _ hnew _ ↦ hnew) []

theorem adds_exec_of_triesOf_eq_nil {stmt : Stmt} (h : triesOf stmt = []) :
    Adds (fun new c ↦ c = .normal → new = []) (exec n w bound .noted [] stmt) := by
  let P (new : List V) (c : Completion V) : Prop := c.isPassing ∨ (∃ l, c = .break l) → new = []
  have hP : Accounts P := {
    quiet := fun _ _ _ ↦ rfl
    next := fun old new c d hc hold hnew hd ↦ by rw [hold (.inl hc), hnew hd]; rfl
    jump := fun old l hold _ ↦ hold (.inr ⟨l, rfl⟩)
    close := fun old c v _ hv ↦ by simp [Completion.isPassing] at hv }
  have hreturn (v : V) : P [v] (.return v) := fun hv ↦ by simp [Completion.isPassing] at hv
  have hadds : Adds P (exec n w bound .noted [] stmt) := by
    have htries (hne : triesOf stmt ≠ []) : Overrides P (fun _ ↦ True) ∧ True := absurd h hne
    exact adds_exec hP stmt (fun _ ↦ hreturn) htries
      (fun _ _ hlast ↦ hlast.mono fun _ _ _ _ ↦ trivial) []
  refine hadds.mono ?_
  rintro new _ hnew rfl
  exact hnew (.inl rfl)

/-- If nothing is caught in a finalizer that returns, the last return that runs decides. -/
theorem adds_execAll_head? {stmts : List Stmt}
    (h : ∀ stmt ∈ stmts, ∀ last ∈ finalizersOf stmt, returnsOf last = [] ∨ triesOf last = []) :
    Adds (fun new c ↦ ∀ v, c = .return v → new.head? = some v) (execAll n w bound .noted stmts) := by
  have hO : Overrides (fun (new : List V) c ↦ ∀ v, c = .return v → new.head? = some v)
      fun new ↦ new = [] :=
    ⟨fun _ _ _ _ _ hd v h ↦ by rw [List.head?_append, hd v h]; rfl,
      fun _ _ _ hc hnew v h ↦ by rw [hnew]; exact hc v h⟩
  have hP := accounts_of_overrides (fun _ hc v h ↦ absurd h (hc v)) hO
  refine adds_execAll hP fun stmt hs ↦
    adds_exec hP stmt (by simp) (fun _ ↦ ⟨hO, rfl⟩) (fun last hl _ ↦ ?_) []
  rcases h stmt hs last hl with hreturns | htries
  · exact (adds_exec_nil hreturns).mono fun _ _ hnew _ ↦ hnew
  · exact adds_exec_of_triesOf_eq_nil htries

end Statements

end Recompose.Execution
