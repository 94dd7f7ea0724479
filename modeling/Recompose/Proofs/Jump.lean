import Recompose.Proofs.Execution
import Recompose.Proofs.Traverse

namespace Recompose.Execution

open Script

variable {V σ : Type} {w : World V σ} {n : RuntimeNames} {bound : Nat} {x : Exits}

theorem hazards_eq (t : JumpTargets) (node : Node) : hazards t node =
    if isSealed node then []
    else ownHazards t node ++ node.children.flatMap (hazards (t.enter node)) := by
  unfold hazards
  rw [Node.gather_eq]
  split <;> rfl

theorem ownHazards_subset {t : JumpTargets} {node : Node} (hs : isSealed node = false) :
    ownHazards t node ⊆ hazards t node := by
  rw [hazards_eq, if_neg (by simp [hs])]
  exact List.subset_append_left _ _

theorem hazards_part_subset {t : JumpTargets} {node part : Node} (hs : isSealed node = false)
    (hp : part ∈ node.children) : hazards (t.enter node) part ⊆ hazards t node := by
  intro h hh
  rw [hazards_eq, if_neg (by simp [hs])]
  exact List.mem_append_right _ (List.mem_flatMap.2 ⟨part, hp, hh⟩)

/-- A step that ends so jumps to a target in `t`, if it jumps, or `hs` has a hazard of its kind. -/
def Foretold (t : JumpTargets) (hs : List Hazard) : Completion V → Prop
  | .return _ => ∃ h ∈ hs, h.kind = .return
  | .break label => t.breakable label ∨ ∃ h ∈ hs, h.kind = .break
  | .continue label => t.continuable label ∨ ∃ h ∈ hs, h.kind = .continue
  | _ => True

namespace Foretold

variable {t : JumpTargets} {hs hs' : List Hazard} {c : Completion V}

theorem of_subset (h : Foretold t hs c) (hsub : hs ⊆ hs') : Foretold t hs' c := by
  cases c with
  | «return» v => exact h.imp fun k hk ↦ ⟨hsub hk.1, hk.2⟩
  | «break» label => exact h.imp_right fun ⟨k, hk, he⟩ ↦ ⟨k, hsub hk, he⟩
  | «continue» label => exact h.imp_right fun ⟨k, hk, he⟩ ↦ ⟨k, hsub hk, he⟩
  | normal | throw | unfinished => trivial

/-- A loop that is not gone on with is left by a plain `break`, or by what the surroundings of the
loop know. -/
theorem of_loop {labels : List String} (h : Foretold { t with inLoop := true } hs c)
    (hgo : goesOn labels c = false) : c = .break none ∨ Foretold t hs c := by
  rcases c with _ | _ | _ | (_ | label) | (_ | label) | _
  case «break».none => exact .inl rfl
  case «continue».none => simp [goesOn] at hgo
  all_goals exact .inr h

theorem of_switch (h : Foretold { t with inSwitch := true } hs c) :
    c = .break none ∨ Foretold t hs c := by
  rcases c with _ | _ | _ | (_ | label) | (_ | label) | _
  case «break».none => exact .inl rfl
  all_goals exact .inr h

/-- A label catches a `break` to it. A `continue` to it gets there only from a loop. -/
theorem of_labelled {label : String} {isLoop : Bool}
    (h : Foretold { t with labels := (label, isLoop) :: t.labels } hs c)
    (hloop : isLoop → c ≠ .continue (some label)) : c = .break (some label) ∨ Foretold t hs c := by
  rcases c with _ | _ | _ | (_ | l) | (_ | l) | _
  case «break».some =>
    simp only [Foretold, JumpTargets.breakable, List.any_cons, Bool.or_eq_true, beq_iff_eq] at h ⊢
    grind
  case «continue».some =>
    simp only [Foretold, JumpTargets.continuable, List.any_cons, Bool.or_eq_true, Bool.and_eq_true,
      beq_iff_eq] at h ⊢
    grind
  all_goals exact .inr h

end Foretold

theorem ends_exec_loop {labels : List String} {label : String} (hl : label ∈ labels) {stmt : Stmt}
    (h : isLoop stmt) :
    Ends (· ≠ .continue (some label)) (exec n w bound x labels stmt : Step V σ) := by
  have hleave (c : Completion V) (hc : goesOn labels c = false) :
      Ends (· ≠ .continue (some label)) (leave c : Step V σ) :=
    ends_leave nofun (.inr fun he ↦ by simp [he, goesOn, hl] at hc)
  have hround (b : Step V σ) : Ends (fun c ↦ goesOn labels c = false →
      Ends (· ≠ .continue (some label)) (leave c : Step V σ)) b := fun m ↦ hleave _
  cases stmt
  case whileStmt span test body =>
    exact ends_loop nofun (fun a ha ↦ ends_whileTrue (fun _ ↦ nofun) nofun ha) (fun a ha ↦ ha) (hround _) _
  case doWhile span body test =>
    exact ends_loop nofun (fun a ha ↦ ha) (fun a ha ↦ ends_whileTrue (fun _ ↦ nofun) nofun ha) (hround _) _
  case forStmt span init test update body =>
    refine ends_seq (ends_evaluatePart (fun _ ↦ .inr nofun) (.inl rfl)) (ends_loop nofun
      (fun a ha ↦ ends_whileTrue (fun _ ↦ nofun) nofun ha) (fun a ha ↦ ?_) (hround _) _)
    exact ends_seq (ends_evaluatePart (fun _ ↦ .inr nofun) (.inl rfl)) ha
  case forEach span kind head iterated body =>
    refine ends_act (fun _ ↦ nofun) fun v ↦ ends_loop nofun
      (fun a ha ↦ ends_choose (fun _ ↦ nofun) ha (ends_done nofun)) (fun a ha ↦ ha) (fun m hc ↦ ?_) _
    split
    · exact hleave _ hc
    · exact ends_leaveClosed nofun (fun _ ↦ nofun) (.inr fun he ↦ by simp [he, goesOn, hl] at hc)
  all_goals simp [isLoop] at h

theorem isVoidCommit_eq {stmts : List Stmt} (h : isVoidCommit n stmts) :
    ∃ call span, stmts = [call, .returnStmt span none] := by
  unfold isVoidCommit at h
  split at h
  · exact ⟨_, _, rfl⟩
  · exact absurd h (by simp)

theorem ends_exec (node : Node) (t : JumpTargets) (labels : List String) :
    Ends (Foretold t (hazards t node)) (exec n w bound x labels node : Step V σ) := by
  induction node using Node.induction_on_parts generalizing t labels with
  | step node ih =>
  have hpart (hs : isSealed node = false) (part : Node) (hp : part ∈ node.children)
      (labels : List String) : Ends (Foretold (t.enter node) (hazards t node))
        (exec n w bound x labels part : Step V σ) :=
    (ih part hp (t.enter node) labels).mono fun c hc ↦ hc.of_subset (hazards_part_subset hs hp)
  have hthrow (v : V) : Foretold t (hazards t node) (.throw v) := trivial
  have hnormal : Foretold t (hazards t node) (.normal : Completion V) := trivial
  have hunfinished : Foretold t (hazards t node) (.unfinished : Completion V) := trivial
  cases node
  case empty span => exact ends_done trivial
  case exprStmt span e => exact ends_execExpr hnormal hthrow hunfinished e
  case block span stmts =>
    rw [exec]
    split
    · next hc =>
      obtain ⟨call, span, rfl⟩ := isVoidCommit_eq hc.2
      refine fun m ↦ ⟨⟨.return, span⟩, ?_, rfl⟩
      refine hazards_part_subset (t := t) rfl (List.mem_cons_of_mem _ (List.mem_singleton_self _)) ?_
      exact ownHazards_subset rfl (List.mem_singleton_self _)
    · exact ends_execAll hnormal fun stmt hs ↦ hpart rfl stmt hs []
  case clause span test stmts =>
    exact ends_execAll hnormal fun stmt hs ↦ hpart rfl stmt (List.mem_append_right _ hs) []
  case ifStmt span test yes no =>
    refine ends_choose hthrow (hpart rfl yes (by simp [Node.children]) []) (ends_execPart hnormal ?_)
    exact fun stmt hs ↦ hpart rfl stmt (List.mem_append_right _ hs) []
  case whileStmt span test body =>
    have hbody := hpart rfl body (by simp [Node.children]) []
    refine ends_loop hunfinished (fun a ha ↦ ends_whileTrue hthrow hnormal ha) (fun a ha ↦ ha) ?_ _
    exact hbody.mono fun c hc hgo ↦ ends_leave hnormal (hc.of_loop hgo)
  case doWhile span body test =>
    have hbody := hpart rfl body (by simp [Node.children]) []
    refine ends_loop hunfinished (fun a ha ↦ ha) (fun a ha ↦ ends_whileTrue hthrow hnormal ha) ?_ _
    exact hbody.mono fun c hc hgo ↦ ends_leave hnormal (hc.of_loop hgo)
  case forStmt span init test update body =>
    have hbody := hpart rfl body (by simp [Node.children]) []
    have hpartly (part : Option Node) : Ends (fun c ↦ c = .normal ∨ Foretold t _ c)
        (evaluatePart w part : Step V σ) := ends_evaluatePart (fun v ↦ .inr (hthrow v)) (.inl rfl)
    refine ends_seq (hpartly init) (ends_loop hunfinished
      (fun a ha ↦ ends_whileTrue hthrow hnormal ha) (fun a ha ↦ ends_seq (hpartly update) ha) ?_ _)
    exact hbody.mono fun c hc hgo ↦ ends_leave hnormal (hc.of_loop hgo)
  case forEach span kind head iterated body =>
    have hbody := hpart rfl body (by simp [Node.children]) []
    refine ends_act hthrow fun v ↦ ends_loop hunfinished
      (fun a ha ↦ ends_choose hthrow ha (ends_done hnormal)) (fun a ha ↦ ha) ?_ _
    refine hbody.mono fun c hc hgo ↦ ?_
    split
    · exact ends_leave hnormal (hc.of_loop hgo)
    · exact ends_leaveClosed hnormal hthrow (hc.of_loop hgo)
  case switchStmt span subject clauses =>
    have hclauses (i : Nat) : Ends (Foretold { t with inSwitch := true }
        (hazards t (.switchStmt span subject clauses)))
        (execFrom n w bound x i clauses : Step V σ) := by
      refine ends_execFrom trivial (fun clause hc ↦ ends_execClause trivial ?_) i
      rintro span test stmts rfl
      exact hpart rfl _ (List.mem_append_right [subject] hc) []
    refine ends_act hthrow fun v ↦ ends_breaking hnormal (ends_select (fun v ↦ .inr (hthrow v)) _ _
      ?_ fun j _ ↦ (hclauses j).mono fun c hc ↦ hc.of_switch)
    split
    · exact (hclauses _).mono fun c hc ↦ hc.of_switch
    · exact ends_done (.inr hnormal)
  case returnStmt span value =>
    have hreturn (v : V) : Foretold t (hazards t (.returnStmt span value)) (.return v) :=
      ⟨⟨.return, span⟩, ownHazards_subset rfl (List.mem_singleton_self _), rfl⟩
    cases value with
    | none => exact fun m ↦ hreturn _
    | some e =>
      rw [exec]
      split
      · exact ends_act hthrow fun v m ↦ hreturn v
      · exact ends_act hthrow fun v m ↦ hreturn v
  case throwStmt span e => exact ends_act hthrow fun v ↦ ends_done (hthrow v)
  case breakStmt span label =>
    refine ends_done ?_
    by_cases hb : t.breakable label
    · exact .inl hb
    · exact .inr ⟨⟨.break, span⟩, ownHazards_subset rfl (by simp [ownHazards, hb]), rfl⟩
  case continueStmt span label =>
    refine ends_done ?_
    by_cases hc : t.continuable label
    · exact .inl hc
    · exact .inr ⟨⟨.continue, span⟩, ownHazards_subset rfl (by simp [ownHazards, hc]), rfl⟩
  case labelled span label body =>
    refine ends_labelling hnormal fun m ↦ ?_
    have hbody := hpart rfl body (List.mem_singleton_self body) (label :: labels) m
    exact hbody.of_labelled fun hloop ↦ ends_exec_loop (List.mem_cons_self) hloop m
  case tryStmt span body handler finalizer =>
    refine ends_finishing (ends_catching ?_ ?_) ?_
    · exact (hpart rfl body (by simp [Node.children]) []).mono fun _ ↦ .inr
    · exact ends_execCatch hthrow fun node hn ↦ hpart rfl node (by simp_all [Node.children]) []
    · refine (ends_execPart hnormal fun node hn ↦ ?_).mono fun _ ↦ .inr
      exact hpart rfl node (List.mem_append_right _ hn) []
  case handler span caught type body => exact hpart rfl body (by simp [Node.children]) []
  case withStmt span object body =>
    exact ends_act hthrow fun _ ↦ hpart rfl body (by simp [Node.children]) []
  case moduleDecl span declared title body => exact hpart rfl body (by simp [Node.children]) []
  case code span directives stmts => exact ends_execAll hnormal fun stmt hs ↦ hpart rfl stmt hs []
  all_goals exact ends_evaluate hthrow hnormal

end Recompose.Execution
