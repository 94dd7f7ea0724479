import Recompose.CacheScope
import Recompose.Proofs.Completion
import Recompose.Proofs.Preamble
import Recompose.Proofs.Returns

namespace Recompose.CacheScope

open Script Execution

def isVoidCommitBlock : Except Failure Stmt → Bool
  | .ok (.block _ stmts) => isVoidCommit {} stmts
  | _ => false

set_option maxRecDepth 100000 in
theorem isVoidCommitBlock_voidCommit : isVoidCommitBlock (Glue.voidCommit {}) := by
  decide +kernel

theorem voidCommit_eq_ok :
    ∃ span stmts, Glue.voidCommit {} = .ok (.block span stmts) ∧ isVoidCommit {} stmts := by
  have h := isVoidCommitBlock_voidCommit
  unfold isVoidCommitBlock at h
  split at h
  · next span stmts heq => exact ⟨span, stmts, heq, h⟩
  · exact absurd h (by simp)

def isEmptyCommit : Except Failure Stmt → Bool
  | .ok (.returnStmt _ (some (.apply _ (.call false _) (.member _ (.ref _ handle) method false false)
      [] []))) => handle = ({} : RuntimeNames).scope && method = ({} : RuntimeNames).recache
  | _ => false

set_option maxRecDepth 100000 in
theorem isEmptyCommit_statement :
    isEmptyCommit (Glue.statement ("return " ++ ({} : RuntimeNames).scope ++ "." ++
      ({} : RuntimeNames).recache ++ "();")) := by
  decide +kernel

theorem valueCommit_eq_ok (value : Expr) : ∃ span e,
    Glue.valueCommit {} value = .ok (.returnStmt span (some e)) ∧ committed? {} e = some value := by
  have h := isEmptyCommit_statement
  unfold isEmptyCommit at h
  split at h
  · next span call isPure mspan site handle method heq =>
    refine ⟨span, _, by rw [Glue.valueCommit, heq]; rfl, ?_⟩
    simpa [committed?] using h
  · exact absurd h (by simp)

section

variable {V σ : Type}

/-- The machine in which all that was returned has been committed, and that had the effects `before`
ahead of its own. -/
def mirror (before : List (Effect V)) (m : Machine V σ) : Machine V σ :=
  { m with trace := m.trace ++ before, commits := m.returns }

theorem mirror_keepsState (before : List (Effect V)) :
    KeepsState (mirror before : Machine V σ → Machine V σ) :=
  ⟨fun _ ↦ rfl, fun _ _ _ ↦ rfl⟩

end

/-- What `b` does and commits is what `a` does and returns. -/
structure Commits (a b : Stmt) : Prop where
  exec : ∀ {V σ : Type} (w : World V σ) (bound : Nat) (before : List (Effect V))
    (labels : List String), Replays (mirror before) (exec {} w bound .noted labels a) (exec {} w bound .committed labels b)
  clause : ∀ {V σ : Type} (w : World V σ) (bound : Nat) (before : List (Effect V)),
    Replays (mirror before) (execClause {} w bound .noted a) (execClause {} w bound .committed b)
  test_eq : clauseTest a = clauseTest b
  isDefault_eq : isDefault a = isDefault b
  caught_eq : caughtPattern a = caughtPattern b
  ne_return : ∀ span, b ≠ .returnStmt span none

theorem commitReturns_return (span : Span) (value : Option Expr) :
    ∃ b, commitReturns {} (.returnStmt span value) = .ok b ∧ Commits (.returnStmt span value) b := by
  cases value with
  | none =>
    obtain ⟨span', stmts, hok, hvoid⟩ := voidCommit_eq_ok
    refine ⟨_, by rw [commitReturns, hok], ?_⟩
    refine ⟨fun w bound before labels m ↦ ?_, fun _ _ _ ↦ replays_done _, rfl, rfl, rfl,
      fun _ h ↦ by cases h⟩
    rw [Execution.exec, if_pos ⟨rfl, hvoid⟩]
    rfl
  | some e =>
    obtain ⟨span', e', hok, hvalue⟩ := valueCommit_eq_ok e
    refine ⟨_, by rw [commitReturns, hok], ?_⟩
    refine ⟨fun w bound before labels ↦ ?_, fun _ _ _ ↦ replays_done _, rfl, rfl, rfl, fun _ h ↦ by cases h⟩
    rw [Execution.exec, Execution.exec, if_pos rfl, hvalue]
    exact replays_act (mirror_keepsState before) fun v m ↦ rfl

theorem commitAll_eq_ok {stmts : List Stmt}
    (h : ∀ stmt ∈ stmts, ∃ b, commitReturns {} stmt = .ok b ∧ Commits stmt b) :
    ∃ bs, commitAll {} stmts = .ok bs ∧ List.Forall₂ Commits stmts bs := by
  induction stmts with
  | nil => exact ⟨[], rfl, .nil⟩
  | cons stmt stmts ih =>
    obtain ⟨b, hb, hcommits⟩ := h stmt List.mem_cons_self
    obtain ⟨bs, hbs, hall⟩ := ih fun s hs ↦ h s (List.mem_cons_of_mem _ hs)
    exact ⟨b :: bs, by rw [commitAll, hb, hbs]; rfl, .cons hcommits hall⟩

theorem commitPart_eq_ok {part : Option Stmt}
    (h : ∀ stmt ∈ part.toList, ∃ b, commitReturns {} stmt = .ok b ∧ Commits stmt b) :
    ∃ b, commitPart {} part = .ok b ∧ Option.Rel Commits part b := by
  cases part with
  | none => exact ⟨none, rfl, .none⟩
  | some stmt =>
    obtain ⟨b, hb, hcommits⟩ := h stmt (by simp)
    exact ⟨some b, by rw [commitPart, hb]; rfl, .some hcommits⟩

section

variable {V σ : Type} {w : World V σ} {bound : Nat} {before : List (Effect V)}

theorem replays_commitAll {stmts bs : List Stmt} (h : List.Forall₂ Commits stmts bs) :
    Replays (mirror before) (execAll {} w bound .noted stmts) (execAll {} w bound .committed bs) :=
  replays_execAll (h.imp fun _ _ hc ↦ hc.exec w bound before [])

theorem replays_commitPart {part b : Option Stmt} (h : Option.Rel Commits part b) :
    Replays (mirror before) (execPart {} w bound .noted part) (execPart {} w bound .committed b) := by
  cases h with
  | none => exact replays_done _
  | some hc => exact hc.exec w bound before []

theorem replays_commitCatch {handler b : Option Stmt} (h : Option.Rel Commits handler b) (v : V) :
    Replays (mirror before) (execCatch {} w bound .noted handler v) (execCatch {} w bound .committed b v) := by
  refine replays_execCatch (mirror_keepsState before) ?_ v
  cases h with
  | none => exact .none
  | some hc => exact .some ⟨hc.caught_eq, hc.exec w bound before []⟩

theorem map_clauseTest_eq {clauses bs : List Node} (h : List.Forall₂ Commits clauses bs) :
    clauses.map clauseTest = bs.map clauseTest := by
  induction h with
  | nil => rfl
  | cons hc _ ih => rw [List.map_cons, List.map_cons, ih, hc.test_eq]

theorem findIdx?_isDefault_eq {clauses bs : List Node} (h : List.Forall₂ Commits clauses bs) :
    clauses.findIdx? isDefault = bs.findIdx? isDefault := by
  induction h with
  | nil => rfl
  | cons hc _ ih => rw [List.findIdx?_cons, List.findIdx?_cons, ih, hc.isDefault_eq]

theorem not_isVoidCommit {stmts bs : List Stmt} (h : List.Forall₂ Commits stmts bs) :
    ¬isVoidCommit {} bs := by
  intro hvoid
  obtain ⟨call, span, rfl⟩ := isVoidCommit_eq hvoid
  obtain ⟨_, _, _, hrest, rfl⟩ := List.forall₂_cons_right_iff.1 h
  obtain ⟨_, _, hreturn, _, rfl⟩ := List.forall₂_cons_right_iff.1 hrest
  exact hreturn.ne_return span rfl

end

theorem commitReturns_eq_ok (stmt : Stmt) :
    ∃ b, commitReturns {} stmt = .ok b ∧ Commits stmt b := by
  induction stmt using Node.induction_on_parts with
  | step stmt ih =>
  have hf {V σ : Type} (before : List (Effect V)) :
      KeepsState (mirror before : Machine V σ → Machine V σ) := mirror_keepsState before
  -- All but clauses, handlers and returns are alike in everything but how they run.
  cases stmt
  case returnStmt span value => exact commitReturns_return span value
  case block span stmts =>
    obtain ⟨bs, hok, hall⟩ := commitAll_eq_ok fun stmt (hs : stmt ∈ stmts) ↦ ih stmt hs
    refine ⟨.block span bs, by rw [commitReturns, hok]; rfl, fun w bound before labels ↦ ?_,
      fun _ _ _ ↦ replays_done _, rfl, rfl, rfl, fun _ h ↦ by cases h⟩
    rw [Execution.exec, Execution.exec, if_neg (by simp), if_neg (by simp [not_isVoidCommit hall])]
    exact replays_commitAll hall
  case ifStmt span test yes no =>
    obtain ⟨yes', hyes, hyes'⟩ := ih yes (by simp [Node.children])
    obtain ⟨no', hno, hno'⟩ := commitPart_eq_ok fun node hn ↦ ih node (List.mem_append_right _ hn)
    refine ⟨.ifStmt span test yes' no', by rw [commitReturns, hyes, hno]; rfl,
      fun w bound before labels ↦ ?_, fun _ _ _ ↦ replays_done _, rfl, rfl, rfl, fun _ h ↦ by cases h⟩
    exact replays_choose (hf before) (hyes'.exec w bound before []) (replays_commitPart hno')
  case whileStmt span test body =>
    obtain ⟨body', hbody, hbody'⟩ := ih body (by simp [Node.children])
    refine ⟨.whileStmt span test body', by rw [commitReturns, hbody]; rfl, fun w bound before labels ↦ ?_,
      fun _ _ _ ↦ replays_done _, rfl, rfl, rfl, fun _ h ↦ by cases h⟩
    exact replays_loop (fun a a' ha ↦ replays_whileTrue (hf before) ha) (fun a a' ha ↦ ha)
      (fun c ↦ replays_breaking (replays_done c)) (hbody'.exec w bound before []) bound
  case doWhile span body test =>
    obtain ⟨body', hbody, hbody'⟩ := ih body (by simp [Node.children])
    refine ⟨.doWhile span body' test, by rw [commitReturns, hbody]; rfl, fun w bound before labels ↦ ?_,
      fun _ _ _ ↦ replays_done _, rfl, rfl, rfl, fun _ h ↦ by cases h⟩
    exact replays_loop (fun a a' ha ↦ ha) (fun a a' ha ↦ replays_whileTrue (hf before) ha)
      (fun c ↦ replays_breaking (replays_done c)) (hbody'.exec w bound before []) bound
  case forStmt span init test update body =>
    obtain ⟨body', hbody, hbody'⟩ := ih body (by simp [Node.children])
    refine ⟨.forStmt span init test update body', by rw [commitReturns, hbody]; rfl,
      fun w bound before labels ↦ ?_, fun _ _ _ ↦ replays_done _, rfl, rfl, rfl, fun _ h ↦ by cases h⟩
    exact replays_seq (replays_evaluatePart (hf before) init) (replays_loop
      (fun a a' ha ↦ replays_whileTrue (hf before) ha)
      (fun a a' ha ↦ replays_seq (replays_evaluatePart (hf before) update) ha)
      (fun c ↦ replays_breaking (replays_done c)) (hbody'.exec w bound before []) bound)
  case forEach span kind head iterated body =>
    obtain ⟨body', hbody, hbody'⟩ := ih body (by simp [Node.children])
    refine ⟨.forEach span kind head iterated body', by rw [commitReturns, hbody]; rfl,
      fun w bound before labels ↦ ?_, fun _ _ _ ↦ replays_done _, rfl, rfl, rfl, fun _ h ↦ by cases h⟩
    refine replays_act (hf before) fun v ↦ replays_loop
      (fun a a' ha ↦ replays_choose (hf before) ha (replays_done _)) (fun a a' ha ↦ ha) (fun c ↦ ?_)
      (hbody'.exec w bound before []) bound
    split
    · exact replays_breaking (replays_done c)
    · exact replays_leaveClosed (hf before) head v c
  case switchStmt span subject clauses =>
    obtain ⟨bs, hok, hall⟩ := commitAll_eq_ok fun clause hc ↦ ih clause (List.mem_append_right _ hc)
    refine ⟨.switchStmt span subject bs, by rw [commitReturns, hok]; rfl, fun w bound before labels ↦ ?_,
      fun _ _ _ ↦ replays_done _, rfl, rfl, rfl, fun _ h ↦ by cases h⟩
    exact replays_switch (hf before) (map_clauseTest_eq hall) (findIdx?_isDefault_eq hall)
      (hall.imp fun _ _ hc ↦ hc.clause w bound before) labels span subject
  case clause span test stmts =>
    obtain ⟨bs, hok, hall⟩ := commitAll_eq_ok fun stmt hs ↦ ih stmt (List.mem_append_right _ hs)
    exact ⟨.clause span test bs, by rw [commitReturns, hok]; rfl,
      fun w bound before labels ↦ replays_commitAll hall, fun w bound before ↦ replays_commitAll hall, rfl,
      by cases test <;> rfl, rfl, fun _ h ↦ by cases h⟩
  case labelled span label body =>
    obtain ⟨body', hbody, hbody'⟩ := ih body (by simp [Node.children])
    exact ⟨.labelled span label body', by rw [commitReturns, hbody]; rfl,
      fun w bound before labels ↦ replays_labelling label (hbody'.exec w bound before (label :: labels)),
      fun _ _ _ ↦ replays_done _, rfl, rfl, rfl, fun _ h ↦ by cases h⟩
  case tryStmt span body handler finalizer =>
    obtain ⟨body', hbody, hbody'⟩ := ih body (by simp [Node.children])
    obtain ⟨handler', hhandler, hhandler'⟩ := commitPart_eq_ok
      fun node (hn : node ∈ handler.toList) ↦ ih node (by simp_all [Node.children])
    obtain ⟨finalizer', hfinal, hfinal'⟩ := commitPart_eq_ok
      fun node (hn : node ∈ finalizer.toList) ↦ ih node (List.mem_append_right _ hn)
    refine ⟨.tryStmt span body' handler' finalizer',
      by rw [commitReturns, hbody, hhandler, hfinal]; rfl, fun w bound before labels ↦ ?_,
      fun _ _ _ ↦ replays_done _, rfl, rfl, rfl, fun _ h ↦ by cases h⟩
    exact replays_finishing (replays_catching (hbody'.exec w bound before [])
      (replays_commitCatch hhandler')) (replays_commitPart hfinal')
  case handler span caught type body =>
    obtain ⟨body', hbody, hbody'⟩ := ih body (by simp [Node.children])
    exact ⟨.handler span caught type body', by rw [commitReturns, hbody]; rfl,
      fun w bound before labels ↦ hbody'.exec w bound before [], fun _ _ _ ↦ replays_done _, rfl, rfl, rfl,
      fun _ h ↦ by cases h⟩
  case withStmt span object body =>
    obtain ⟨body', hbody, hbody'⟩ := ih body (by simp [Node.children])
    exact ⟨.withStmt span object body', by rw [commitReturns, hbody]; rfl,
      fun w bound before labels ↦ replays_act (hf before) fun _ ↦ hbody'.exec w bound before [],
      fun _ _ _ ↦ replays_done _, rfl, rfl, rfl, fun _ h ↦ by cases h⟩
  case moduleDecl span declared title body =>
    obtain ⟨body', hbody, hbody'⟩ := ih body (by simp [Node.children])
    exact ⟨.moduleDecl span declared title body', by rw [commitReturns, hbody]; rfl,
      fun w bound before labels ↦ hbody'.exec w bound before [], fun _ _ _ ↦ replays_done _, rfl, rfl, rfl,
      fun _ h ↦ by cases h⟩
  case code span directives stmts =>
    obtain ⟨bs, hok, hall⟩ := commitAll_eq_ok fun stmt (hs : stmt ∈ stmts) ↦ ih stmt hs
    exact ⟨.code span directives bs, by rw [commitReturns, hok]; rfl,
      fun w bound before labels ↦ replays_commitAll hall, fun _ _ _ ↦ replays_done _, rfl, rfl, rfl,
      fun _ h ↦ by cases h⟩
  case exprStmt span e =>
    exact ⟨.exprStmt span e, rfl, fun w bound before labels ↦ (replays_unnoted (hf before) e).2,
      fun _ _ _ ↦ replays_done _, rfl, rfl, rfl, fun _ h ↦ by cases h⟩
  case throwStmt span e =>
    exact ⟨.throwStmt span e, rfl, fun w bound before labels ↦ replays_act (hf before) fun v ↦ replays_done _,
      fun _ _ _ ↦ replays_done _, rfl, rfl, rfl, fun _ h ↦ by cases h⟩
  case empty | breakStmt | continueStmt =>
    exact ⟨_, rfl, fun w bound before labels ↦ replays_done _, fun _ _ _ ↦ replays_done _, rfl, rfl, rfl,
      fun _ h ↦ by cases h⟩
  all_goals
    exact ⟨_, rfl, fun w bound before labels ↦ replays_evaluate (hf before) _, fun _ _ _ ↦ replays_done _, rfl, rfl,
      rfl, fun _ h ↦ by cases h⟩

/-- A declaration of the handle of a scope, or of the boxes it gives for parameters. -/
def IsDeclaration (node : Node) : Prop :=
  (∃ offset count, Preamble.IsOpening offset count node) ∨
    ∃ registered, IsConst (List.Forall₂ Preamble.IsBox registered) node

def IsOfHandle (node : Node) : Prop :=
  IsDeclaration node ∨ ∃ field, IsField "__memo_scope" field node

/-- The handle of a scope: boxes cost nothing, and its two fields can be read. -/
structure Handles {V σ : Type} (w : World V σ) (unchanged : σ → Bool) (cached : σ → V) : Prop where
  declares : ∀ node, IsDeclaration node → ∀ s, ∃ v, w.perform (.value node) s = (.ok v, s)
  reads_unchanged : ∀ node, IsField "__memo_scope" "unchanged" node → ∀ s,
    ∃ v, w.perform (.value node) s = (.ok v, s) ∧ w.truthy v = unchanged s
  reads_cached : ∀ node, IsField "__memo_scope" "cached" node → ∀ s,
    w.perform (.value node) s = (.ok (cached s), s)

section Preamble

variable {kind : ReturnKind} {stmt : Node}

theorem exec_declaration (h : IsDeclaration stmt) {V σ : Type} {w : World V σ} {unchanged : σ → Bool}
    {cached : σ → V} (hw : Handles w unchanged cached) (bound : Nat) (m : Machine V σ) :
    exec {} w bound .committed [] stmt m = (.normal, { m with trace := .value stmt :: m.trace }) := by
  obtain ⟨v, hv⟩ := hw.declares stmt h m.store
  have hexec : exec {} w bound .committed [] stmt = evaluate w stmt := by
    obtain ⟨_, _, span, items, rfl, -⟩ | ⟨_, span, items, rfl, -⟩ := h <;> rfl
  rw [hexec, evaluate, act, hv]
  rfl

def kept {V σ : Type} (w : World V σ) (cached : σ → V) (kind : ReturnKind) (s : σ) : V :=
  if kind.isVoid then w.undefined else cached s

theorem exec_shortcut (h : Preamble.IsShortcut kind stmt) :
    ∃ test reading, IsField "__memo_scope" "unchanged" test ∧ IsField "__memo_scope" "cached" reading ∧
      ∀ {V σ : Type} {w : World V σ} {unchanged : σ → Bool} {cached : σ → V},
        Handles w unchanged cached → ∀ (bound : Nat) (m : Machine V σ),
          exec {} w bound .committed [] stmt m =
            if unchanged m.store then
              (.return (kept w cached kind m.store),
                { m with trace := .value reading :: .value test :: m.trace,
                         returns := kept w cached kind m.store :: m.returns })
            else (.normal, { m with trace := .value test :: m.trace }) := by
  obtain ⟨span, test, outer, stmts, rfl, htest, hstmts⟩ := h
  -- inside the shortcut the committed value is read, and returned unless the kind is void
  have hinside : ∃ reading, IsField "__memo_scope" "cached" reading ∧
      ∀ {V σ : Type} {w : World V σ} {unchanged : σ → Bool} {cached : σ → V},
        Handles w unchanged cached → ∀ (bound : Nat) (m : Machine V σ),
          exec {} w bound .committed [] (.block outer stmts) m = (.return (kept w cached kind m.store),
            { m with trace := .value reading :: m.trace,
                     returns := kept w cached kind m.store :: m.returns }) := by
    unfold kept
    split at hstmts
    · next hvoid =>
      obtain ⟨s, e, s', rfl, s'', site, rfl⟩ := hstmts
      refine ⟨_, ⟨s'', site, rfl⟩, fun {V σ w unchanged cached} hw bound m ↦ ?_⟩
      have hcached := hw.reads_cached _ ⟨s'', site, rfl⟩ m.store
      simp [exec, execAll, execExpr, evaluate, act, seq, done, exit, isVoidCommit, hcached, hvoid]
    · next hvoid =>
      obtain ⟨s, e, rfl, s'', site, rfl⟩ := hstmts
      refine ⟨_, ⟨s'', site, rfl⟩, fun {V σ w unchanged cached} hw bound m ↦ ?_⟩
      have hcached := hw.reads_cached _ ⟨s'', site, rfl⟩ m.store
      simp [exec, execAll, act, seq, exit, isVoidCommit, committed?, hcached, hvoid]
  obtain ⟨reading, hreading, hblock⟩ := hinside
  refine ⟨test, reading, htest, hreading, fun {V σ w unchanged cached} hw bound m ↦ ?_⟩
  obtain ⟨v, hv, htruthy⟩ := hw.reads_unchanged test htest m.store
  rw [exec, choose, act, hv]
  simp only [htruthy]
  split
  · rw [hblock hw]
  · rfl

theorem execAll_declarations {stmts : List Node} (h : ∀ stmt ∈ stmts, IsDeclaration stmt)
    {V σ : Type} {w : World V σ} {unchanged : σ → Bool} {cached : σ → V}
    (hw : Handles w unchanged cached) (bound : Nat) (m : Machine V σ) :
    execAll {} w bound .committed stmts m =
      (.normal, { m with trace := (stmts.map .value).reverse ++ m.trace }) := by
  induction stmts generalizing m with
  | nil => rfl
  | cons stmt stmts ih =>
    rw [execAll, seq, exec_declaration (h stmt List.mem_cons_self) hw]
    simp only [ih fun s hs ↦ h s (List.mem_cons_of_mem _ hs)]
    simp

theorem exists_declarations {offset : UInt64} {registered : List (Nat × String)} {stmts : List Node}
    (h : Preamble.IsPreamble offset kind registered stmts) :
    ∃ declared shortcut, stmts = declared ++ [shortcut] ∧ (∀ stmt ∈ declared, IsDeclaration stmt) ∧
      Preamble.IsShortcut kind shortcut := by
  cases registered with
  | nil =>
    obtain _ | ⟨hopening, _ | ⟨hshortcut, _ | _⟩⟩ := h
    refine ⟨[_], _, rfl, fun stmt hs ↦ ?_, hshortcut⟩
    obtain rfl := List.mem_singleton.1 hs
    exact .inl ⟨_, _, hopening⟩
  | cons r rs =>
    obtain _ | ⟨hopening, _ | ⟨hboxes, _ | ⟨hshortcut, _ | _⟩⟩⟩ := h
    refine ⟨[_, _], _, rfl, fun stmt hs ↦ ?_, hshortcut⟩
    rcases List.mem_pair.1 hs with rfl | rfl
    · exact .inl ⟨_, _, hopening⟩
    · exact .inr ⟨_, hboxes⟩

theorem execAll_preamble {offset : UInt64} {registered : List (Nat × String)} {stmts : List Node}
    (h : Preamble.IsPreamble offset kind registered stmts) :
    ∃ handles reading, (∀ node ∈ reading :: handles, IsOfHandle node) ∧
      ∀ {V σ : Type} {w : World V σ} {unchanged : σ → Bool} {cached : σ → V},
        Handles w unchanged cached → ∀ (bound : Nat) (rest : List Stmt) (m : Machine V σ),
          execAll {} w bound .committed (stmts ++ rest) m =
            if unchanged m.store then
              (.return (kept w cached kind m.store),
                { m with trace := (reading :: handles).map .value ++ m.trace,
                         returns := kept w cached kind m.store :: m.returns })
            else execAll {} w bound .committed rest
              { m with trace := handles.map .value ++ m.trace } := by
  obtain ⟨declared, shortcut, rfl, hdeclared, hshortcut⟩ := exists_declarations h
  obtain ⟨test, reading, htest, hreading, hexec⟩ := exec_shortcut hshortcut
  refine ⟨test :: declared.reverse, reading, ?_, fun {V σ w unchanged cached} hw bound rest m ↦ ?_⟩
  · intro node hnode
    rcases List.mem_cons.1 hnode with rfl | hnode
    · exact .inr ⟨_, hreading⟩
    rcases List.mem_cons.1 hnode with rfl | hnode
    · exact .inr ⟨_, htest⟩
    · exact .inl (hdeclared node (List.mem_reverse.1 hnode))
  · rw [execAll_append, execAll_append, seq_assoc, seq, execAll_declarations hdeclared hw]
    simp only [seq, execAll_singleton, hexec hw]
    cases unchanged m.store <;> simp

end Preamble

/-- No jump leads out of the statements, except by a return. -/
def KeepsTargets (stmts : List Stmt) : Prop :=
  ∀ h ∈ armHazards stmts, h.kind ≠ .break ∧ h.kind ≠ .continue

/-- No finalizer that returns can drop what it returns. -/
def SettlesReturns (stmts : List Stmt) : Prop :=
  ∀ stmt ∈ stmts, ∀ last ∈ finalizersOf stmt, returnsOf last = [] ∨ triesOf last = []

section Runs

variable {V σ : Type}

def answered (w : World V σ) : Completion V → Completion V
  | .normal => .return w.undefined
  | c => c

/-- The run `r` of a wrapped body runs nothing of the body, since nothing changed. -/
structure Skips (w : World V σ) (cached : σ → V) (kind : ReturnKind) (s : σ)
    (r : Completion V × Machine V σ) : Prop where
  ends : r.1 = .return (kept w cached kind s)
  store_eq : r.2.store = s
  trace : ∀ e ∈ r.2.trace, ∃ node, e = .value node ∧ IsOfHandle node
  commits_eq : r.2.commits = []

/-- The run `r` of a wrapped body does what the run `b` of the body does, and commits what it
returns, at the end if the body `settles` its returns. -/
structure Performs (w : World V σ) (settles : Prop) (r b : Completion V × Machine V σ) : Prop where
  ends : r.1 = answered w b.1
  keeps : ∀ label, b.1 ≠ .break label ∧ b.1 ≠ .continue label
  store_eq : r.2.store = b.2.store
  trace_eq : ∃ handles : List Node, (∀ node ∈ handles, IsOfHandle node) ∧
    r.2.trace = b.2.trace ++ handles.map .value
  mem_commits : ∀ v, r.1 = .return v → v ∈ r.2.commits
  head?_commits : settles → ∀ v, r.1 = .return v → r.2.commits.head? = some v

def concluded (w : World V σ) (before : List (Effect V)) :
    Completion V × Machine V σ → Completion V × Machine V σ
  | (.normal, m) => commit w.undefined (mirror before m)
  | (c, m) => (c, mirror before m)

variable {w : World V σ} {bound : Nat}

theorem ends_execAll_of_keepsTargets {stmts : List Stmt} (h : KeepsTargets stmts) :
    Ends (fun c ↦ ∀ label, c ≠ .break label ∧ c ≠ .continue label)
      (execAll {} w bound .noted stmts : Step V σ) := by
  refine ends_execAll (by simp) fun stmt hs ↦ (ends_exec stmt {} []).mono fun c hc label ↦ ?_
  have hnone (k : Hazard) (hk : k ∈ hazards {} stmt) : k.kind ≠ .break ∧ k.kind ≠ .continue :=
    h k (List.mem_flatMap.2 ⟨stmt, hs, hk⟩)
  constructor
  · rintro rfl
    rcases hc with hb | ⟨k, hk, he⟩
    · cases label <;> simp [JumpTargets.breakable] at hb
    · exact (hnone k hk).1 he
  · rintro rfl
    rcases hc with hb | ⟨k, hk, he⟩
    · cases label <;> simp [JumpTargets.continuable] at hb
    · exact (hnone k hk).2 he

theorem performs_concluded {stmts : List Stmt} {handles : List Node}
    (htargets : KeepsTargets stmts) (hhandles : ∀ node ∈ handles, IsOfHandle node) (s : σ) :
    Performs w (SettlesReturns stmts)
      (concluded w (handles.map .value) (execAll {} w bound .noted stmts { store := s }))
      (execAll {} w bound .noted stmts { store := s }) := by
  have hkeeps := @ends_execAll_of_keepsTargets _ _ w bound _ htargets { store := s }
  obtain ⟨new, hnew, hmem⟩ := @adds_execAll_mem _ _ w {} bound stmts { store := s }
  have hlast (h : SettlesReturns stmts) := @adds_execAll_head? _ _ w {} bound _ h { store := s }
  generalize execAll {} w bound .noted stmts { store := s } = b at hkeeps hnew hmem hlast ⊢
  obtain ⟨c, m⟩ := b
  cases c with
  | normal =>
    refine ⟨rfl, hkeeps, rfl, ⟨handles, hhandles, rfl⟩, fun v hv ↦ ?_, fun _ v hv ↦ ?_⟩
    · cases hv
      exact List.mem_cons_self
    · cases hv
      rfl
  | «return» v =>
    -- what has been committed is what has been returned
    have hcommits : (concluded w (handles.map .value) (.return v, m)).2.commits = m.returns := rfl
    refine ⟨rfl, hkeeps, rfl, ⟨handles, hhandles, rfl⟩, fun u hu ↦ ?_, fun h u hu ↦ ?_⟩
    · cases hu
      rw [hcommits, hnew, List.append_nil]
      exact hmem v rfl
    · cases hu
      obtain ⟨last, hreturns, hhead⟩ := hlast h
      rw [hcommits, hreturns, List.append_nil]
      exact hhead v rfl
  | throw | «break» | «continue» | unfinished =>
    exact ⟨rfl, hkeeps, rfl, ⟨handles, hhandles, rfl⟩, nofun, nofun⟩

end Runs

theorem exists_wrapped (offset : UInt64) {kind : ReturnKind} {registered : List (Nat × String)}
    (hkind : Preamble.IsReadable kind) (hregistered : ∀ r ∈ registered, isIdentifierText r.2)
    (stmts : List Stmt) :
    ∃ opening rest, wrap {} offset kind registered stmts = .ok (opening ++ rest) ∧
      Preamble.IsPreamble offset kind registered opening ∧
      ∀ {V σ : Type} (w : World V σ) (bound : Nat) (before : List (Effect V)) (s : σ),
        execAll {} w bound .committed rest { store := s, trace := before } =
          concluded w before (execAll {} w bound .noted stmts { store := s }) := by
  obtain ⟨bs, hbs, hall⟩ := commitAll_eq_ok fun stmt (_ : stmt ∈ stmts) ↦ commitReturns_eq_ok stmt
  obtain ⟨opening, hopening, hpreamble⟩ : ∃ opening, Glue.preamble {} offset kind registered =
      .ok opening ∧ Preamble.IsPreamble offset kind registered opening :=
    Preamble.preamble_eq_ok hkind hregistered
  obtain ⟨span, commitStmts, hcommit, hvoid⟩ := voidCommit_eq_ok
  have hrun {V σ : Type} (w : World V σ) (bound : Nat) (before : List (Effect V)) (s : σ) :
      execAll {} w bound .committed bs { store := s, trace := before } =
        ((execAll {} w bound .noted stmts { store := s }).1,
          mirror before (execAll {} w bound .noted stmts { store := s }).2) :=
    replays_commitAll hall { store := s }
  by_cases hcompletes : completesAll bs
  · refine ⟨opening, bs ++ [.block span commitStmts], ?_, hpreamble, fun w bound before s ↦ ?_⟩
    · rw [wrap, hbs, hopening, hcommit]
      simp [hcompletes, bind, Except.bind, pure, Except.pure]
    · rw [execAll_append, seq, hrun, execAll_singleton, exec, if_pos ⟨rfl, hvoid⟩]
      rcases execAll {} w bound .noted stmts { store := s } with ⟨c, m⟩
      cases c <;> rfl
  · refine ⟨opening, bs, ?_, hpreamble, fun w bound before s ↦ ?_⟩
    · rw [wrap, hbs, hopening]
      simp [hcompletes, bind, Except.bind, pure, Except.pure]
    · have hends : Ends (· ≠ .normal) (execAll {} w bound .committed bs) :=
        ends_execAll_of_not_completesAll (fun stmt _ hc ↦ ends_exec_of_not_completes stmt hc [])
          (by simpa using hcompletes)
      have hnormal := hends { store := s, trace := before }
      rw [hrun] at hnormal ⊢
      generalize execAll {} w bound .noted stmts { store := s } = b at hnormal ⊢
      obtain ⟨c, m⟩ := b
      cases c <;> first | rfl | exact absurd rfl hnormal

/-- A wrapped body whose jumps stay in it returns the kept value if nothing changed, and otherwise
does what the body does, throws what it throws and returns what it returns, undefined if it falls off
its end. What is returned has been committed, and nothing was committed after it unless a finalizer
drops a return of its own. -/
theorem wrap_commits_what_is_returned (offset : UInt64) {kind : ReturnKind}
    {registered : List (Nat × String)} (hkind : Preamble.IsReadable kind)
    (hregistered : ∀ r ∈ registered, isIdentifierText r.2) {stmts : List Stmt}
    (htargets : KeepsTargets stmts) :
    ∃ wrapped, wrap {} offset kind registered stmts = .ok wrapped ∧
      ∀ {V σ : Type} {w : World V σ} {unchanged : σ → Bool} {cached : σ → V},
        Handles w unchanged cached → ∀ (bound : Nat) (s : σ),
          if unchanged s then
            Skips w cached kind s (execAll {} w bound .committed wrapped { store := s })
          else Performs w (SettlesReturns stmts)
            (execAll {} w bound .committed wrapped { store := s })
            (execAll {} w bound .noted stmts { store := s }) := by
  obtain ⟨opening, rest, hwrap, hpreamble, hrest⟩ := exists_wrapped offset hkind hregistered stmts
  obtain ⟨handles, reading, hhandles, hopening⟩ := execAll_preamble hpreamble
  refine ⟨opening ++ rest, hwrap, fun {V σ w unchanged cached} hw bound s ↦ ?_⟩
  rw [hopening hw bound rest { store := s }]
  split
  · refine ⟨rfl, rfl, fun e he ↦ ?_, rfl⟩
    simp only [List.append_nil, List.mem_map] at he
    obtain ⟨node, hnode, rfl⟩ := he
    exact ⟨node, rfl, hhandles node hnode⟩
  · simp only [List.append_nil, hrest]
    exact performs_concluded htargets (fun node hn ↦ hhandles node (List.mem_cons_of_mem _ hn)) s

def literalWorld : World String Unit where
  perform
    | .value (.lit _ (.number raw)), s => (.ok raw, s)
    | .value (.lit _ (.bool true)), s => (.ok "true", s)
    | _, s => (.ok "", s)
  truthy v := v == "true"
  equal u v := u == v
  undefined := "undefined"
  perform_true _ _ := ⟨"true", rfl, rfl⟩

theorem literalWorld_handles : Handles literalWorld (fun _ ↦ false) (fun _ ↦ "") where
  declares := by
    rintro _ (⟨_, _, span, items, rfl, -⟩ | ⟨_, span, items, rfl, -⟩) s <;> exact ⟨"", rfl⟩
  reads_unchanged := by
    rintro _ ⟨_, _, rfl⟩ s
    exact ⟨"", rfl, rfl⟩
  reads_cached := by
    rintro _ ⟨_, _, rfl⟩ s
    rfl

def returning (raw : String) : Stmt :=
  .block .none [.returnStmt .none (some (.lit .none (.number raw)))]

theorem wrap_commits_what_is_returned_finally :
    ∃ wrapped, wrap {} 7 .inferred [(0, "x")]
        [.tryStmt .none (returning "1") none (some (.block .none []))] = .ok wrapped ∧
      (execAll {} literalWorld 1 .committed wrapped { store := () }).2.commits.head? = some "1" := by
  have hregistered : ∀ r ∈ [(0, "x")], isIdentifierText r.2 := by decide +kernel
  have htargets : KeepsTargets [.tryStmt .none (returning "1") none (some (.block .none []))] := by
    intro h hh
    obtain rfl : h = ⟨.return, .none⟩ := List.mem_singleton.1 hh
    exact ⟨nofun, nofun⟩
  have hsettles : SettlesReturns [.tryStmt .none (returning "1") none (some (.block .none []))] := by
    intro stmt hstmt last hlast
    obtain rfl := List.mem_singleton.1 hstmt
    obtain rfl : last = .block .none [] := List.mem_singleton.1 hlast
    exact .inl rfl
  have hkind : Preamble.IsReadable .inferred := trivial
  obtain ⟨wrapped, hwrap, hruns⟩ := wrap_commits_what_is_returned 7 hkind hregistered htargets
  have hrun := hruns literalWorld_handles 1 ()
  rw [if_neg (by simp)] at hrun
  exact ⟨wrapped, hwrap, hrun.head?_commits hsettles "1" hrun.ends⟩

/-- `try` returns 1; its finalizer returns 2 and drops it. -/
def droppedReturn : Stmt :=
  .tryStmt .none (returning "1") none (some (.block .none [.labelled .none "L"
    (.tryStmt .none (returning "2") none (some (.block .none [.breakStmt .none (some "L")])))]))

/-- A return that a finalizer drops is committed last although another value is returned. -/
theorem droppedReturn_is_committed_last :
    KeepsTargets [droppedReturn] ∧
      ∃ wrapped, wrap {} 7 .inferred [] [droppedReturn] = .ok wrapped ∧
        (execAll {} literalWorld 1 .committed wrapped { store := () }).1 = .return "1" ∧
        (execAll {} literalWorld 1 .committed wrapped { store := () }).2.commits = ["2", "1"] := by
  constructor
  · intro h hh
    have hkinds : ∀ h ∈ armHazards [droppedReturn], h.kind = .return := by decide +kernel
    rw [hkinds h hh]
    exact ⟨nofun, nofun⟩
  have hkind : Preamble.IsReadable .inferred := trivial
  have hregistered : ∀ r ∈ ([] : List (Nat × String)), isIdentifierText r.2 := nofun
  obtain ⟨opening, rest, hwrap, hpreamble, hrest⟩ :=
    exists_wrapped 7 hkind hregistered [droppedReturn]
  obtain ⟨handles, reading, -, hopening⟩ := execAll_preamble hpreamble
  refine ⟨opening ++ rest, hwrap, ?_⟩
  rw [hopening literalWorld_handles, if_neg (by simp), List.append_nil, hrest]
  exact ⟨rfl, rfl⟩

end Recompose.CacheScope
