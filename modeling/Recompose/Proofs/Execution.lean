import Recompose.Completion
import Recompose.Options

namespace Recompose.Execution

open Script

inductive Completion (V : Type) where
  | normal
  | throw (value : V)
  | return (value : V)
  | break (label : Option String)
  | continue (label : Option String)
  /-- A loop needs more rounds than the bound allows, or what should be a clause is none. -/
  | unfinished

inductive Effect (V : Type) where
  | value (node : Node)
  | bind (pattern : Option Node) (value : V)
  /-- The next item of what a loop goes over is bound to its head; false if there is none. -/
  | advance (head : Node) (iterated : V)
  /-- A loop leaves what it goes over before its end. -/
  | close (head : Node) (iterated : V)

/-- What effects do and what values mean. Nothing is known of them but that `true` is true. -/
structure World (V σ : Type) where
  perform : Effect V → σ → Except V V × σ
  truthy : V → Bool
  equal : V → V → Bool
  undefined : V
  perform_true : ∀ span s, ∃ v, perform (.value (.lit span (.bool true))) s = (.ok v, s) ∧ truthy v

structure Machine (V σ : Type) where
  store : σ
  trace : List (Effect V) := []
  returns : List V := []
  commits : List V := []

abbrev Step (V σ : Type) := Machine V σ → Completion V × Machine V σ

variable {V σ : Type}

def done (c : Completion V) : Step V σ := fun m ↦ (c, m)

/-- Performs an effect and goes on with its value, unless it throws. -/
def act (w : World V σ) (e : Effect V) (next : V → Step V σ) : Step V σ := fun m ↦
  match w.perform e m.store with
  | (.ok v, s) => next v { m with store := s, trace := e :: m.trace }
  | (.error v, s) => (.throw v, { m with store := s, trace := e :: m.trace })

def choose (w : World V σ) (e : Effect V) (yes no : Step V σ) : Step V σ :=
  act w e fun v ↦ if w.truthy v then yes else no

def seq (a b : Step V σ) : Step V σ := fun m ↦
  match a m with
  | (.normal, m) => b m
  | r => r

def catching (a : Step V σ) (rescue : V → Step V σ) : Step V σ := fun m ↦
  match a m with
  | (.throw v, m) => rescue v m
  | r => r

/-- Runs `b` however `a` ends. If `b` ends normally, `a` decides how it all ends. -/
def finishing (a b : Step V σ) : Step V σ := fun m ↦
  match a m with
  | (.unfinished, m) => (.unfinished, m)
  | (c, m) =>
    match b m with
    | (.normal, m) => (c, m)
    | r => r

def labelling (label : String) (a : Step V σ) : Step V σ := fun m ↦
  match a m with
  | (.break (some l), m) => if l = label then (.normal, m) else (.break (some l), m)
  | r => r

def breaking (a : Step V σ) : Step V σ := fun m ↦
  match a m with
  | (.break none, m) => (.normal, m)
  | r => r

/-- The body of a closure: returns end only the closure, and no jump leads out of it. -/
def closing (a : Step V σ) : Step V σ := fun m ↦
  match a m with
  | (.throw v, m) => (.throw v, m)
  | (.unfinished, m) => (.unfinished, m)
  | (_, m) => (.normal, m)

/-- Does a loop with these labels take another round? -/
def goesOn (labels : List String) : Completion V → Bool
  | .normal => true
  | .continue none => true
  | .continue (some l) => labels.contains l
  | _ => false

def leave (c : Completion V) : Step V σ :=
  breaking (done c)

/-- Leaves a loop over a sequence, which is closed. A throw outdoes what closing throws. -/
def leaveClosed (w : World V σ) (head : Node) (iterated : V) : Completion V → Step V σ
  | .unfinished => done .unfinished
  | .throw v =>
    finishing (done (.throw v)) (catching (act w (.close head iterated) fun _ ↦ done .normal)
      fun _ ↦ done .normal)
  | c => act w (.close head iterated) fun _ ↦ leave c

/-- Rounds of `body`. What `before` does comes ahead of each of them, what `after` does between two. -/
def loop (labels : List String) (before after : Step V σ → Step V σ)
    (exit : Completion V → Step V σ) (body : Step V σ) : Nat → Step V σ
  | 0 => done .unfinished
  | rounds + 1 => before fun m ↦
    match body m with
    | (c, m) => if goesOn labels c then after (loop labels before after exit body rounds) m
      else exit c m

/-- Evaluates tests up to the first that equals `v`; `next` is told its index. -/
def select (w : World V σ) (v : V) (next : Option Nat → Step V σ) :
    Nat → List (Option Expr) → Step V σ
  | _, [] => next none
  | i, some test :: tests => act w (.value test) fun u ↦
    if w.equal v u then next (some i) else select w v next (i + 1) tests
  | i, none :: tests => select w v next (i + 1) tests

def clauseTest : Node → Option Expr
  | .clause _ test _ => test
  | _ => none

def caughtPattern : Node → Option Node
  | .handler _ pattern _ _ => pattern
  | _ => none

def evaluate (w : World V σ) (node : Node) : Step V σ :=
  act w (.value node) fun _ ↦ done .normal

def evaluatePart (w : World V σ) : Option Node → Step V σ
  | none => done .normal
  | some node => evaluate w node

def whileTrue (w : World V σ) : Option Node → Step V σ → Step V σ
  | none, again => again
  | some test, again => choose w (.value test) again (done .normal)

theorem seq_done (a : Step V σ) : seq a (done .normal) = a := by
  funext m
  unfold seq
  split
  · next m' h => rw [h]; rfl
  · rfl

theorem seq_assoc (a b c : Step V σ) : seq (seq a b) c = seq a (seq b c) := by
  funext m
  unfold seq
  rcases a m with ⟨c, m'⟩
  cases c <;> rfl

inductive Exits where
  | unnoted
  | noted
  | committed
deriving DecidableEq

def exit (x : Exits) (v : V) : Step V σ := fun m ↦
  (.return v, if x = .unnoted then m else { m with returns := v :: m.returns })

def commit (v : V) : Step V σ := fun m ↦
  (.return v, { m with returns := v :: m.returns, commits := v :: m.commits })

/-- The argument of a call of the handle that commits it. -/
def committed? (n : RuntimeNames) : Expr → Option Expr
  | .apply _ (.call false _) (.member _ (.ref _ handle) method false false) [] [value] =>
    if handle = n.scope ∧ method = n.recache then some value else none
  | _ => none

/-- Do the statements commit that nothing is returned, and return? -/
def isVoidCommit (n : RuntimeNames) : List Stmt → Bool
  | [.exprStmt _ (.apply _ (.call false _) (.member _ (.ref _ handle) method false false) [] []),
      .returnStmt _ none] => handle = n.scope && method = n.recache
  | _ => false

def isCondition (n : RuntimeNames) (callee : String) : Bool :=
  callee = n.conditionScope || callee = n.conditionBranch

def isPlainArrow (head : FuncHead) (params : List Param) : Bool :=
  head.form = .arrow && !head.isAsync && params.isEmpty

mutual

/-- Runs a statement that `labels` stand before. `bound` limits the rounds of each loop. -/
def exec (n : RuntimeNames) (w : World V σ) (bound : Nat) (x : Exits) (labels : List String) :
    Stmt → Step V σ
  | .empty _ => done .normal
  | .exprStmt _ e => execExpr n w bound e
  | .block _ stmts =>
    if x = .committed ∧ isVoidCommit n stmts then commit w.undefined else execAll n w bound x stmts
  | .clause _ _ stmts => execAll n w bound x stmts
  | .ifStmt _ test yes no => choose w (.value test) (exec n w bound x [] yes) (execPart n w bound x no)
  | .whileStmt _ test body =>
    loop labels (whileTrue w (some test)) id leave (exec n w bound x [] body) bound
  | .doWhile _ body test =>
    loop labels id (whileTrue w (some test)) leave (exec n w bound x [] body) bound
  | .forStmt _ init test update body => seq (evaluatePart w init)
    (loop labels (whileTrue w test) (seq (evaluatePart w update)) leave (exec n w bound x [] body)
      bound)
  | .forEach _ kind head iterated body => act w (.value iterated) fun v ↦
    loop labels (fun round ↦ choose w (.advance head v) round (done .normal)) id
      (if kind = .keys then leave else leaveClosed w head v) (exec n w bound x [] body) bound
  | .switchStmt _ subject clauses => act w (.value subject) fun v ↦ breaking <|
    select w v (fun found ↦
      match found.or (clauses.findIdx? isDefault) with
      | some i => execFrom n w bound x i clauses
      | none => done .normal) 0 (clauses.map clauseTest)
  | .returnStmt _ none => exit x w.undefined
  | .returnStmt _ (some e) =>
    match if x = .committed then committed? n e else none with
    | some value => act w (.value value) commit
    | none => act w (.value e) (exit x)
  | .throwStmt _ e => act w (.value e) fun v ↦ done (.throw v)
  | .breakStmt _ label => done (.break label)
  | .continueStmt _ label => done (.continue label)
  | .labelled _ label body => labelling label (exec n w bound x (label :: labels) body)
  | .tryStmt _ body handler finalizer => finishing
    (catching (exec n w bound x [] body) (execCatch n w bound x handler))
    (execPart n w bound x finalizer)
  | .handler _ _ _ body => exec n w bound x [] body
  | .withStmt _ object body => act w (.value object) fun _ ↦ exec n w bound x [] body
  | .moduleDecl _ _ _ body => exec n w bound x [] body
  | .code _ _ stmts => execAll n w bound x stmts
  | node => evaluate w node

def execAll (n : RuntimeNames) (w : World V σ) (bound : Nat) (x : Exits) : List Stmt → Step V σ
  | [] => done .normal
  | stmt :: stmts => seq (exec n w bound x [] stmt) (execAll n w bound x stmts)

def execPart (n : RuntimeNames) (w : World V σ) (bound : Nat) (x : Exits) : Option Stmt → Step V σ
  | none => done .normal
  | some stmt => exec n w bound x [] stmt

/-- Runs the handler of a `try`; without one the value is thrown on. -/
def execCatch (n : RuntimeNames) (w : World V σ) (bound : Nat) (x : Exits) :
    Option Node → V → Step V σ
  | some handler, v => act w (.bind (caughtPattern handler) v) fun _ ↦ exec n w bound x [] handler
  | none, v => done (.throw v)

def execClause (n : RuntimeNames) (w : World V σ) (bound : Nat) (x : Exits) : Node → Step V σ
  | .clause _ _ stmts => execAll n w bound x stmts
  | _ => done .unfinished

def execFrom (n : RuntimeNames) (w : World V σ) (bound : Nat) (x : Exits) : Nat → List Node → Step V σ
  | _, [] => done .normal
  | 0, clause :: clauses => seq (execClause n w bound x clause) (execFrom n w bound x 0 clauses)
  | i + 1, _ :: clauses => execFrom n w bound x i clauses

/-- Evaluates an expression. A call of a condition runs its closure. -/
def execExpr (n : RuntimeNames) (w : World V σ) (bound : Nat) : Expr → Step V σ
  | .apply span (.call optional isPure) (.ref site callee) types args =>
    if isCondition n callee then
      execArgs n w bound (.apply span (.call optional isPure) (.ref site callee) types args) args
    else evaluate w (.apply span (.call optional isPure) (.ref site callee) types args)
  | e => evaluate w e

def execArgs (n : RuntimeNames) (w : World V σ) (bound : Nat) (call : Expr) : List Expr → Step V σ
  | [arg] => execClosure n w bound call arg
  | _ => evaluate w call

def execClosure (n : RuntimeNames) (w : World V σ) (bound : Nat) (call : Expr) : Expr → Step V σ
  | .func _ head _ _ params _ body =>
    if isPlainArrow head params then execBody n w bound call body else evaluate w call
  | _ => evaluate w call

def execBody (n : RuntimeNames) (w : World V σ) (bound : Nat) (call : Expr) : Node → Step V σ
  | .code _ _ stmts => closing (execAll n w bound .unnoted stmts)
  | _ => evaluate w call

end

/-- However the step runs, the way it ends has the property. -/
def Ends (P : Completion V → Prop) (a : Step V σ) : Prop :=
  ∀ m, P (a m).1

variable {P Q : Completion V → Prop} {a b : Step V σ} {w : World V σ}

theorem Ends.mono (h : Ends P a) (hpq : ∀ c, P c → Q c) : Ends Q a :=
  fun m ↦ hpq _ (h m)

theorem ends_done {c : Completion V} (h : P c) : Ends P (done c : Step V σ) :=
  fun _ ↦ h

theorem ends_act {e : Effect V} {next : V → Step V σ} (ht : ∀ v, P (.throw v))
    (hn : ∀ v, Ends P (next v)) : Ends P (act w e next) := by
  intro m
  unfold act
  split
  · exact hn _ _
  · exact ht _

theorem ends_choose {e : Effect V} (ht : ∀ v, P (.throw v)) (ha : Ends P a) (hb : Ends P b) :
    Ends P (choose w e a b) :=
  ends_act ht fun v ↦ by split <;> assumption

theorem ends_evaluate {node : Node} (ht : ∀ v, P (.throw v)) (hn : P .normal) :
    Ends P (evaluate w node) :=
  ends_act ht fun _ ↦ ends_done hn

theorem ends_evaluatePart {part : Option Node} (ht : ∀ v, P (.throw v)) (hn : P .normal) :
    Ends P (evaluatePart w part) := by
  cases part with
  | none => exact ends_done hn
  | some node => exact ends_evaluate ht hn

theorem ends_whileTrue {test : Option Node} (ht : ∀ v, P (.throw v)) (hn : P .normal)
    (ha : Ends P a) : Ends P (whileTrue w test a) := by
  cases test with
  | none => exact ha
  | some test => exact ends_choose ht ha (ends_done hn)

theorem ends_seq (ha : Ends (fun c ↦ c = .normal ∨ P c) a) (hb : Ends P b) : Ends P (seq a b) := by
  intro m
  have h := ha m
  unfold seq
  split
  · exact hb _
  · next hc => exact h.resolve_left fun he ↦ hc (a m).2 (Prod.ext he rfl)

theorem ends_catching {rescue : V → Step V σ} (ha : Ends (fun c ↦ (∃ v, c = .throw v) ∨ P c) a)
    (hr : ∀ v, Ends P (rescue v)) : Ends P (catching a rescue) := by
  intro m
  have h := ha m
  unfold catching
  split
  · exact hr _ _
  · next hc => exact h.resolve_left fun ⟨v, he⟩ ↦ hc v (a m).2 (Prod.ext he rfl)

theorem ends_finishing (ha : Ends P a) (hb : Ends (fun c ↦ c = .normal ∨ P c) b) :
    Ends P (finishing a b) := by
  intro m
  have h := ha m
  unfold finishing
  split
  · next he => simpa only [he] using h
  · next m' _ he =>
    have h' := hb m'
    split
    · simpa only [he] using h
    · next hc => exact h'.resolve_left fun hn ↦ hc _ (Prod.ext hn rfl)

/-- If the end is never reached behind `b`, only `b` and an unfinished `a` matter. -/
theorem ends_finishing_right (hu : P .unfinished) (hn : ¬P .normal) (hb : Ends P b) :
    Ends P (finishing a b) := by
  intro m
  unfold finishing
  split
  · exact hu
  · next m' _ _ =>
    have h' := hb m'
    split
    · next he => exact absurd (by simpa only [he] using h') hn
    · exact h'

theorem ends_labelling {label : String} (hn : P .normal)
    (ha : Ends (fun c ↦ c = .break (some label) ∨ P c) a) : Ends P (labelling label a) := by
  intro m
  have h := ha m
  unfold labelling
  split
  · next l m' he =>
    rw [he] at h
    split
    · exact hn
    · next hl => exact h.resolve_left (by simpa using hl)
  · next hc => exact h.resolve_left fun he ↦ hc label (a m).2 (Prod.ext he rfl)

theorem ends_breaking (hn : P .normal) (ha : Ends (fun c ↦ c = .break none ∨ P c) a) :
    Ends P (breaking a) := by
  intro m
  have h := ha m
  unfold breaking
  split
  · exact hn
  · next hc => exact h.resolve_left fun he ↦ hc (a m).2 (Prod.ext he rfl)

theorem ends_breaking_right (ha : Ends (fun c ↦ c ≠ .break none ∧ P c) a) :
    Ends P (breaking a) := by
  intro m
  have h := ha m
  unfold breaking
  split
  · next m' he => exact absurd (by rw [he]) h.1
  · exact h.2

theorem ends_closing (hn : P .normal) (ht : ∀ v, P (.throw v)) (hu : P .unfinished) :
    Ends P (closing a) := by
  intro m
  unfold closing
  split
  · exact ht _
  · exact hu
  · exact hn

theorem ends_leave {c : Completion V} (hn : P .normal) (hc : c = .break none ∨ P c) :
    Ends P (leave c : Step V σ) :=
  ends_breaking hn (ends_done hc)

theorem ends_leaveClosed {head : Node} {iterated : V} {c : Completion V} (hn : P .normal)
    (ht : ∀ v, P (.throw v)) (hc : c = .break none ∨ P c) : Ends P (leaveClosed w head iterated c) := by
  unfold leaveClosed
  split
  · exact ends_done (hc.resolve_left nofun)
  · exact ends_finishing (ends_done (ht _)) (ends_catching
      (ends_act (fun v ↦ .inl ⟨v, rfl⟩) fun _ ↦ ends_done (.inr (.inl rfl)))
      fun _ ↦ ends_done (.inl rfl))
  · exact ends_act ht fun _ ↦ ends_leave hn hc

theorem ends_loop {labels : List String} {before after : Step V σ → Step V σ}
    {exit : Completion V → Step V σ} (hu : P .unfinished)
    (hbefore : ∀ a, Ends P a → Ends P (before a)) (hafter : ∀ a, Ends P a → Ends P (after a))
    (hbody : Ends (fun c ↦ goesOn labels c = false → Ends P (exit c)) b) (rounds : Nat) :
    Ends P (loop labels before after exit b rounds) := by
  induction rounds with
  | zero => exact ends_done hu
  | succ rounds ih =>
    refine hbefore _ fun m ↦ ?_
    have h := hbody m
    dsimp only
    split
    · exact hafter _ ih _
    · next hg => exact h (by simpa using hg) _

theorem ends_select {v : V} {next : Option Nat → Step V σ} (ht : ∀ v, P (.throw v)) (i : Nat)
    (tests : List (Option Expr)) (hn : Ends P (next none))
    (hs : ∀ j < i + tests.length, Ends P (next (some j))) :
    Ends P (select w v next i tests) := by
  fun_induction select w v next i tests with
  | case1 => exact hn
  | case2 i test tests ih =>
    refine ends_act ht fun u ↦ ?_
    split
    · exact hs i (by simp)
    · exact ih fun j hj ↦ hs j (by simp only [List.length_cons]; omega)
  | case3 i tests ih => exact ih fun j hj ↦ hs j (by simp only [List.length_cons]; omega)

section Statements

variable {n : RuntimeNames} {bound : Nat} {x : Exits}

theorem execAll_singleton (stmt : Stmt) :
    execAll n w bound x [stmt] = exec n w bound x [] stmt :=
  seq_done _

theorem execAll_append (stmts stmts' : List Stmt) :
    execAll n w bound x (stmts ++ stmts') =
      seq (execAll n w bound x stmts) (execAll n w bound x stmts') := by
  induction stmts with
  | nil => rfl
  | cons stmt stmts ih =>
    rw [List.cons_append, execAll, ih, ← seq_assoc]
    rfl

theorem ends_execAll (hn : P .normal) {stmts : List Stmt}
    (h : ∀ stmt ∈ stmts, Ends P (exec n w bound x [] stmt)) : Ends P (execAll n w bound x stmts) := by
  induction stmts with
  | nil => exact ends_done hn
  | cons stmt stmts ih =>
    rw [execAll]
    refine ends_seq ((h stmt (by simp)).mono fun _ ↦ .inr) (ih fun s hs ↦ h s ?_)
    exact List.mem_cons_of_mem _ hs

theorem ends_execPart (hn : P .normal) {part : Option Stmt}
    (h : ∀ stmt ∈ part.toList, Ends P (exec n w bound x [] stmt)) :
    Ends P (execPart n w bound x part) := by
  cases part with
  | none => exact ends_done hn
  | some stmt => exact h stmt (by simp)

theorem ends_execCatch (ht : ∀ v, P (.throw v)) {handler : Option Node}
    (h : ∀ node ∈ handler.toList, Ends P (exec n w bound x [] node)) (v : V) :
    Ends P (execCatch n w bound x handler v) := by
  cases handler with
  | none => exact ends_done (ht v)
  | some node => exact ends_act ht fun _ ↦ h node (by simp)

theorem ends_execClause (hu : P .unfinished) {clause : Node}
    (h : ∀ span test stmts, clause = .clause span test stmts → Ends P (execAll n w bound x stmts)) :
    Ends P (execClause n w bound x clause) := by
  cases clause
  case clause span test stmts => exact h span test stmts rfl
  all_goals exact ends_done hu

theorem ends_execFrom (hn : P .normal) {clauses : List Node}
    (h : ∀ clause ∈ clauses, Ends P (execClause n w bound x clause)) (i : Nat) :
    Ends P (execFrom n w bound x i clauses) := by
  induction clauses generalizing i with
  | nil => rw [execFrom]; exact ends_done hn
  | cons clause clauses ih =>
    have ih' := ih fun c hc ↦ h c (List.mem_cons_of_mem _ hc)
    cases i with
    | zero => exact ends_seq ((h clause List.mem_cons_self).mono fun _ ↦ .inr) (ih' 0)
    | succ i => exact ih' i

def conditionBody? (n : RuntimeNames) : Expr → Option (List Stmt)
  | .apply _ (.call _ _) (.ref _ callee) _ [.func _ head _ _ params _ (.code _ _ stmts)] =>
    if isCondition n callee && isPlainArrow head params then some stmts else none
  | _ => none

theorem execExpr_eq (e : Expr) : execExpr n w bound e =
    match conditionBody? n e with
    | some stmts => closing (execAll n w bound .unnoted stmts)
    | none => evaluate w e := by
  fun_cases conditionBody? n e with
  | case1 span optional isPure site callee types fspan head typeParams this params result cspan
      directives stmts h =>
    obtain ⟨hc, hp⟩ := Bool.and_eq_true_iff.1 h
    rw [execExpr, if_pos hc]
    unfold execArgs execClosure execBody
    rw [if_pos hp]
  | case2 span optional isPure site callee types fspan head typeParams this params result cspan
      directives stmts h =>
    rw [execExpr]
    unfold execArgs execClosure execBody
    grind
  | case3 e hshape =>
    dsimp only
    unfold execExpr execArgs execClosure execBody
    repeat' split
    all_goals first | rfl | exact (hshape _ _ _ _ _ _ _ _ _ _ _ _ _ _ _ rfl).elim

theorem ends_execExpr (hn : P .normal) (ht : ∀ v, P (.throw v)) (hu : P .unfinished) (e : Expr) :
    Ends P (execExpr n w bound e) := by
  rw [execExpr_eq]
  split
  · exact ends_closing hn ht hu
  · exact ends_evaluate ht hn

end Statements

end Recompose.Execution
