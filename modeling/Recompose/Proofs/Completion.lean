import Recompose.Proofs.Jump

namespace Recompose.Execution

open Script

variable {V σ : Type} {w : World V σ} {n : RuntimeNames} {bound : Nat} {x : Exits}

theorem ends_execAll_of_not_breaksOut {stmts : List Stmt} (h : breaksOut stmts = false) :
    Ends (∀ label, · ≠ .break label) (execAll n w bound x stmts : Step V σ) := by
  refine ends_execAll nofun fun stmt hs ↦ (ends_exec stmt {} []).mono ?_
  rintro _ hc label rfl
  have hnone (k : Hazard) (hk : k ∈ hazards {} stmt) : k.kind ≠ .break := by
    intro he
    have hmem : k ∈ armHazards stmts := List.mem_flatMap.2 ⟨stmt, hs, hk⟩
    simp only [breaksOut, List.any_eq_false, beq_iff_eq] at h
    exact h k hmem he
  rcases hc with hb | ⟨k, hk, he⟩
  · cases label <;> simp [JumpTargets.breakable] at hb
  · exact hnone k hk he

theorem ends_exec_of_not_breaksOut {stmt : Stmt} (h : breaksOut [stmt] = false) :
    Ends (∀ label, · ≠ .break label) (exec n w bound x [] stmt : Step V σ) := by
  rw [← execAll_singleton]
  exact ends_execAll_of_not_breaksOut h

theorem ends_whileTrue_of_isTrue {P : Completion V → Prop} {a : Step V σ} {test : Expr}
    (h : isTrue test) (ha : Ends P a) : Ends P (whileTrue w (some test) a) := by
  intro m
  unfold isTrue at h
  split at h
  · next span b =>
    subst h
    obtain ⟨v, hv, htrue⟩ := w.perform_true span m.store
    simp only [whileTrue, choose, act, hv, htrue]
    exact ha _
  · exact absurd h (by simp)

/-- A loop without a way out never ends: neither between two rounds nor by a `break`. -/
theorem ends_loop_of_not_breaks {labels : List String} {before after : Step V σ → Step V σ}
    {body : Step V σ} (hbefore : ∀ a, Ends (· ≠ .normal) a → Ends (· ≠ .normal) (before a))
    (hafter : ∀ a, Ends (· ≠ .normal) a → Ends (· ≠ .normal) (after a))
    (hbody : Ends (∀ label, · ≠ .break label) body) (rounds : Nat) :
    Ends (· ≠ .normal) (loop labels before after leave body rounds) := by
  refine ends_loop nofun hbefore hafter (hbody.mono fun c hc hgo ↦ ?_) rounds
  refine ends_breaking_right (ends_done ⟨hc none, ?_⟩)
  rintro rfl
  simp [goesOn] at hgo

theorem ends_execAll_of_not_completesAll {stmts : List Stmt}
    (ih : ∀ stmt ∈ stmts, completes stmt = false →
      Ends (· ≠ .normal) (exec n w bound x [] stmt : Step V σ))
    (h : completesAll stmts = false) : Ends (· ≠ .normal) (execAll n w bound x stmts) := by
  induction stmts with
  | nil => simp [completesAll] at h
  | cons stmt stmts ih' =>
    cases stmts with
    | nil =>
      rw [execAll_singleton]
      exact ih stmt (by simp) (by simpa [completesAll] using h)
    | cons next stmts =>
      rw [execAll]
      exact ends_seq (fun m ↦ Classical.em _) (ih' (fun s hs ↦ ih s (List.mem_cons_of_mem _ hs)) h)

/-- Control that enters the clauses of a `switch` somewhere gets to the last of them. -/
theorem ends_execFrom_of_not_completesAll {clauses : List Node}
    (ih : ∀ clause ∈ clauses, completes clause = false →
      Ends (· ≠ .normal) (exec n w bound x [] clause : Step V σ))
    (h : completesAll clauses = false) {i : Nat} (hi : i < clauses.length) :
    Ends (· ≠ .normal) (execFrom n w bound x i clauses) := by
  induction clauses generalizing i with
  | nil => simp at hi
  | cons clause clauses ih' =>
    have hrest (hne : clauses ≠ []) {j : Nat} (hj : j < clauses.length) :
        Ends (· ≠ .normal) (execFrom n w bound x j clauses) := by
      refine ih' (fun c hc ↦ ih c (List.mem_cons_of_mem _ hc)) ?_ hj
      cases clauses with
      | nil => exact absurd rfl hne
      | cons next clauses => exact h
    cases i with
    | succ i =>
      simp only [List.length_cons, Nat.add_lt_add_iff_right] at hi
      exact hrest (List.ne_nil_of_length_pos (by omega)) hi
    | zero =>
      cases clauses with
      | cons next clauses => exact ends_seq (fun m ↦ Classical.em _) (hrest (by simp) (by simp))
      | nil =>
        rw [execFrom, execFrom, seq_done]
        refine ends_execClause (by simp) ?_
        rintro span test stmts rfl
        exact ih _ List.mem_cons_self h

theorem ends_switch_of_not_completes {span : Span} {subject : Node} {clauses : List Node}
    (ih : ∀ clause ∈ clauses, completes clause = false →
      Ends (· ≠ .normal) (exec n w bound x [] clause : Step V σ))
    (h : completes (.switchStmt span subject clauses) = false) (labels : List String) :
    Ends (· ≠ .normal) (exec n w bound x labels (.switchStmt span subject clauses)) := by
  simp only [completes, Bool.or_eq_false_iff, Bool.not_eq_false', Bool.and_eq_true,
    Bool.not_eq_true', List.any_eq_false] at h
  obtain ⟨⟨hdefault, hlast⟩, hbreaks⟩ := h
  have hfrom {i : Nat} (hi : i < clauses.length) :
      Ends (fun c ↦ c ≠ .break none ∧ c ≠ .normal) (execFrom n w bound x i clauses : Step V σ) := by
    have hleft : Ends (∀ label, · ≠ .break label) (execFrom n w bound x i clauses : Step V σ) := by
      refine ends_execFrom nofun (fun clause hc ↦ ends_execClause nofun ?_) i
      rintro span test stmts rfl
      exact ends_execAll_of_not_breaksOut (by simpa [clauseBreaks] using hbreaks _ hc)
    exact fun m ↦ ⟨hleft m none, ends_execFrom_of_not_completesAll ih hlast hi m⟩
  obtain ⟨d, hd⟩ := Option.isSome_iff_exists.1 (List.findIdx?_isSome.trans hdefault)
  have hlt : d < clauses.length := (List.findIdx?_eq_some_iff_getElem.1 hd).1
  refine ends_act nofun fun v ↦ ends_breaking_right (ends_select (fun _ ↦ ⟨nofun, nofun⟩) _ _ ?_ ?_)
  · rw [hd]
    exact hfrom hlt
  · intro j hj
    rw [hd]
    exact hfrom (by simpa using hj)

theorem ends_try_of_not_completes {body : Stmt} {handler finalizer : Option Node}
    (hbody : completes body = false → Ends (· ≠ .normal) (exec n w bound x [] body : Step V σ))
    (hhandler : ∀ node ∈ handler.toList, completes node = false →
      Ends (· ≠ .normal) (exec n w bound x [] node : Step V σ))
    (hfinalizer : ∀ node ∈ finalizer.toList, completes node = false →
      Ends (· ≠ .normal) (exec n w bound x [] node : Step V σ)) {span : Span}
    (h : completes (.tryStmt span body handler finalizer) = false) (labels : List String) :
    Ends (· ≠ .normal) (exec n w bound x labels (.tryStmt span body handler finalizer)) := by
  have hcaught (hb : completes body = false) (hh : ∀ node ∈ handler.toList, completes node = false) :
      Ends (· ≠ .normal) (catching (exec n w bound x [] body)
        (execCatch n w bound x handler) : Step V σ) :=
    ends_catching ((hbody hb).mono fun _ ↦ .inr)
      (ends_execCatch (fun _ ↦ nofun) fun node hn ↦ hhandler node hn (hh node hn))
  have hdecides (hc : Ends (· ≠ .normal) (catching (exec n w bound x [] body)
      (execCatch n w bound x handler) : Step V σ)) :
      Ends (· ≠ .normal) (exec n w bound x labels (.tryStmt span body handler finalizer)) :=
    ends_finishing hc fun m ↦ Classical.em _
  have hoverrides (node : Node) (hf : finalizer = some node) (hn : completes node = false) :
      Ends (· ≠ .normal) (exec n w bound x labels (.tryStmt span body handler finalizer)) := by
    subst hf
    exact ends_finishing_right nofun (by simp) (hfinalizer node (by simp) hn)
  cases finalizer with
  | none =>
    cases handler with
    | none => exact hdecides (hcaught h (by simp))
    | some node =>
      simp only [completes, Bool.or_eq_false_iff] at h
      exact hdecides (hcaught h.1 (by simpa using h.2))
  | some last =>
    cases handler with
    | none =>
      simp only [completes, Bool.and_eq_false_iff] at h
      rcases h with h | h
      · exact hoverrides last rfl h
      · exact hdecides (hcaught h (by simp))
    | some node =>
      simp only [completes, Bool.and_eq_false_iff, Bool.or_eq_false_iff] at h
      rcases h with h | h
      · exact hoverrides last rfl h
      · exact hdecides (hcaught h.1 (by simpa using h.2))

theorem ends_exec_of_not_completes (stmt : Stmt) (h : completes stmt = false)
    (labels : List String) : Ends (· ≠ .normal) (exec n w bound x labels stmt : Step V σ) := by
  induction stmt using Node.induction_on_parts generalizing labels with
  | step stmt ih =>
  cases stmt
  case returnStmt span value =>
    cases value with
    | none => exact fun m h ↦ by cases h
    | some e =>
      rw [exec]
      split <;> exact ends_act (by simp) fun v m h ↦ by cases h
  case throwStmt span e => exact ends_act (by simp) fun v ↦ ends_done (by simp)
  case block span stmts =>
    rw [exec]
    split
    · exact fun m h ↦ by cases h
    · exact ends_execAll_of_not_completesAll (fun stmt hs hc ↦ ih stmt hs hc []) h
  case clause span test stmts =>
    refine ends_execAll_of_not_completesAll (fun stmt hs hc ↦ ih stmt ?_ hc []) h
    exact List.mem_append_right _ hs
  case ifStmt span test yes no =>
    cases no with
    | none => simp [completes] at h
    | some no =>
      simp only [completes, Bool.or_eq_false_iff] at h
      exact ends_choose (by simp) (ih yes (by simp [Node.children]) h.1 [])
        (ih no (by simp [Node.children]) h.2 [])
  case tryStmt span body handler finalizer =>
    exact ends_try_of_not_completes (fun hc ↦ ih body (by simp [Node.children]) hc [])
      (fun node hn hc ↦ ih node (by simp_all [Node.children]) hc [])
      (fun node hn hc ↦ ih node (by simp_all [Node.children]) hc []) h labels
  case handler span caught type body =>
    exact ih body (by simp [Node.children]) (by simpa [completes] using h) []
  case switchStmt span subject clauses =>
    exact ends_switch_of_not_completes
      (fun clause hc hcompletes ↦ ih clause (List.mem_append_right _ hc) hcompletes []) h labels
  case whileStmt span test body =>
    simp only [completes, Bool.or_eq_false_iff, Bool.not_eq_false'] at h
    exact ends_loop_of_not_breaks (fun a ha ↦ ends_whileTrue_of_isTrue h.1 ha) (fun a ha ↦ ha)
      (ends_exec_of_not_breaksOut h.2) bound
  case forStmt span init test update body =>
    have hround (hbreaks : breaksOut [body] = false) (hbefore : ∀ a : Step V σ,
        Ends (· ≠ .normal) a → Ends (· ≠ .normal) (whileTrue w test a)) :
        Ends (· ≠ .normal) (exec n w bound x labels (.forStmt span init test update body)) :=
      ends_seq (fun m ↦ Classical.em _) (ends_loop_of_not_breaks hbefore
        (fun a ha ↦ ends_seq (fun m ↦ Classical.em _) ha) (ends_exec_of_not_breaksOut hbreaks) bound)
    cases test with
    | none => exact hround h fun a ha ↦ ha
    | some test =>
      simp only [completes, Bool.or_eq_false_iff, Bool.not_eq_false'] at h
      exact hround h.2 fun a ha ↦ ends_whileTrue_of_isTrue h.1 ha
  all_goals simp [completes] at h

/-- Statements whose end cannot be reached never end there, whatever their expressions evaluate to. -/
theorem execAll_ne_normal_of_not_completesAll {stmts : List Stmt} (h : completesAll stmts = false)
    (m : Machine V σ) : (execAll n w bound x stmts m).1 ≠ .normal :=
  ends_execAll_of_not_completesAll (fun stmt _ hstmt ↦ ends_exec_of_not_completes stmt hstmt []) h m

/-- A `while (true)` whose only `break` leaves a `switch`, as the finalizer of a `try`. -/
def endlessFinalizer : List Stmt :=
  [.exprStmt ⟨0, 4⟩ (.ref ⟨0, 3⟩ "run"),
    .tryStmt ⟨5, 60⟩ (.block ⟨9, 15⟩ [.exprStmt ⟨10, 14⟩ (.ref ⟨10, 13⟩ "ask")]) none
      (some (.block ⟨23, 60⟩ [.whileStmt ⟨24, 59⟩ (.lit ⟨30, 34⟩ (.bool true))
        (.switchStmt ⟨36, 59⟩ (.ref ⟨43, 44⟩ "k")
          [.clause ⟨46, 58⟩ none [.breakStmt ⟨54, 58⟩ none]])]))]

def trueWorld : World Bool Unit where
  perform _ s := (.ok true, s)
  truthy := id
  equal := (· == ·)
  undefined := true
  perform_true _ _ := ⟨true, rfl, rfl⟩

theorem execAll_ne_normal_of_endlessFinalizer :
    completesAll endlessFinalizer = false ∧
      (execAll {} trueWorld 3 .unnoted endlessFinalizer { store := () }).1 ≠ .normal :=
  have h : completesAll endlessFinalizer = false := by decide
  ⟨h, execAll_ne_normal_of_not_completesAll h _⟩

end Recompose.Execution
