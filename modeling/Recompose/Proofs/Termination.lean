import Recompose.Proofs.Marked
import Recompose.Proofs.Weave.Ends
import Recompose.Proofs.Weave.Tame

namespace Recompose.Weave

open Script

variable {site : Site}

def State.Settled (s : State) : Prop :=
  Span.none ∉ s.pending

/-- A walk that is given enough depth awaits the closures of the file only. -/
def settled : Upkeep where
  holds := State.Settled
  allows note := ∀ spans, note = .awaits spans → Span.none ∉ spans
  stops := False
  quiet hpending _ _ hs := by
    rw [State.Settled, hpending]
    exact hs
  noted {s note} hnote hs := by
    cases note with
    | awaits spans => exact fun hmem ↦ (List.mem_append.1 hmem).elim (hnote spans rfl) hs
    | settles span => exact fun hmem ↦ hs (List.mem_of_mem_filter hmem)
    | reports d => exact hs
    | fails f => exact hs

theorem ends_mapM {f : Node → WeaveM Node} {nodes : List Node} (h : ∀ n ∈ nodes, Halts settled (f n))
    (s : State) (hs : s.Settled) : ∃ nodes' s', nodes.mapM f s = some (nodes', s') ∧ s'.Settled ∧ True :=
  (halts_mapM h s hs).resolve_left And.left

def Halting (site : Site) (n : Node) : Prop :=
  ∃ bound, ∀ depth, bound ≤ depth → Halts settled (walk site depth n)

theorem exists_bound {nodes : List Node} (h : ∀ n ∈ nodes, Halting site n) :
    ∃ bound, ∀ n ∈ nodes, ∀ depth, bound ≤ depth → Halts settled (walk site depth n) := by
  induction nodes with
  | nil => exact ⟨0, by simp⟩
  | cons n nodes ih =>
    obtain ⟨first, hfirst⟩ := h n List.mem_cons_self
    obtain ⟨rest, hrest⟩ := ih fun m hm ↦ h m (List.mem_cons_of_mem _ hm)
    refine ⟨max first rest, fun m hm depth hdepth ↦ ?_⟩
    rcases List.mem_cons.1 hm with rfl | hm
    · exact hfirst depth (by omega)
    · exact hrest m hm depth (by omega)

theorem halting_of_step {n : Node} (needs : List Node) (hneeds : ∀ m ∈ needs, Halting site m)
    (hstep : ∀ self : Self, (∀ m ∈ needs, Halts settled (self m)) → Halts settled (step site self n)) :
    Halting site n := by
  obtain ⟨bound, hbound⟩ := exists_bound hneeds
  refine ⟨bound + 1, fun depth hdepth ↦ ?_⟩
  obtain ⟨depth, rfl⟩ : ∃ d, depth = d + 1 := ⟨depth - 1, by omega⟩
  exact hstep _ fun m hm ↦ hbound m hm depth (by omega)

/-- The closures that a declaration marks are those of the file. -/
def isPlaced : Node → Bool
  | .method _ _ _ _ _ f => !(heldFunction f).contains .none
  | .vars _ _ _ items => items.all fun item ↦ !(initialClosure item).contains .none
  | _ => true

theorem settled_allows {n : Node} (hn : isPlaced n = true) {note : Note}
    (h : StepNote settled site n note) : settled.allows note := by
  rintro spans rfl
  cases h with
  | function form bears marks memo => exact absurd rfl (ne_awaits_of_memoNote memo spans)
  | argument mem resolves built =>
    cases built with
    | intro closure memo => exact absurd rfl (ne_awaits_of_memoNote memo spans)
  | member => simpa [isPlaced] using hn
  | declarators =>
    intro h
    obtain ⟨item, hitem, hspan⟩ := List.mem_flatMap.1 h
    simp only [isPlaced, List.all_eq_true] at hn
    exact absurd hspan (by simpa using hn item hitem)

theorem halting_of_needs {n : Node} (hn : isPlaced n = true)
    (h : ∀ m ∈ stepNeeds site n, Halting site m) : Halting site n :=
  halting_of_step _ h fun _ ↦ halts_step fun _ ↦ settled_allows hn

theorem halting_ref (span : Span) (name : String) : Halting site (.ref span name) :=
  halting_of_needs rfl (by simp [stepNeeds, Node.children])

def weight (n : Node) : Nat :=
  n.fold fun _ weights ↦ 1 + weights.sum

theorem weight_eq (n : Node) : weight n = 1 + (n.children.map weight).sum := by
  unfold weight
  rw [Node.fold_eq]

theorem weight_lt_of_mem {m n : Node} (h : m ∈ n.children) : weight m < weight n := by
  rw [weight_eq n]
  have hle : weight m ≤ (n.children.map weight).sum :=
    List.single_le_sum (fun _ _ ↦ Nat.zero_le _) _ (List.mem_map_of_mem h)
  omega

/-- The closures that declarations mark, here and further in, are those of the file. -/
inductive Placed : Node → Prop
  | intro {n : Node} (own : isPlaced n = true) (parts : ∀ m ∈ n.children, Placed m) : Placed n

theorem Placed.own {n : Node} (h : Placed n) : isPlaced n = true := by
  cases h with
  | intro own parts => exact own

theorem Placed.parts {n m : Node} (h : Placed n) (hm : m ∈ n.children) : Placed m := by
  cases h with
  | intro own parts => exact parts m hm

def Lighter (bound : Nat) (n : Node) : Prop :=
  weight n < bound ∧ Placed n

theorem Lighter.part {bound : Nat} {m n : Node} (h : Lighter bound n) (hm : m ∈ n.children) :
    Lighter (weight n) m ∧ Lighter bound m :=
  ⟨⟨weight_lt_of_mem hm, h.2.parts hm⟩, Nat.lt_trans (weight_lt_of_mem hm) h.1, h.2.parts hm⟩

theorem lighter_bodyParts {bound : Nat} {body m : Node} (h : Lighter bound body)
    (hm : m ∈ (bodyParts body).2.2) : Lighter bound m := by
  unfold bodyParts at hm
  split at hm
  · exact (h.part hm).2
  · next value =>
    obtain rfl := List.mem_singleton.1 hm
    have hvalue := (h.part (m := value) (by simp [Node.children])).2
    refine ⟨?_, .intro rfl fun m hm ↦ ?_⟩
    · have hweight : weight (Glue.returnOf value) = weight (.concise value) := by
        rw [weight_eq, weight_eq]
        rfl
      exact hweight ▸ h.1
    · obtain rfl : m = value := by simpa [Glue.returnOf, Node.children] using hm
      exact hvalue.2
  · obtain rfl := List.mem_singleton.1 hm
    exact h

/-- What is fixed of a file whose generated closures are told apart: they are neither declarations of
the file nor marked, and no declaration of the file takes the place of condition scopes. -/
structure Site.Apart (site : Site) : Prop where
  runtime : site.options.runtime = {}
  primitives : site.options.primitives = Primitive.defaults
  external : site.options.externalMemoFunctions = []
  undeclared : site.graph.nodeAt? .none = none
  unmarked : (site.annotations.markers 0).isMemoLike = false
  scope : ∀ d, site.graph.function? "ConditionScope" = some d → d.mode ≠ .entry →
    0 ∉ d.parameters.memoIndices

theorem lighter_armStmts {bound : Nat} {arm stmt : Stmt} (h : Lighter bound arm)
    (hm : stmt ∈ Condition.armStmts arm) : Lighter bound stmt := by
  unfold Condition.armStmts at hm
  split at hm
  · exact (h.part hm).2
  · obtain rfl := List.mem_singleton.1 hm
    exact h

theorem halting_block {span : Span} {stmts : List Stmt} (h : ∀ stmt ∈ stmts, Halting site stmt) :
    Halting site (.block span stmts) :=
  halting_of_needs rfl fun m hm ↦ h m (by simpa [stepNeeds, Node.children] using hm)

section

variable (hsite : site.Apart) {stmts : List Stmt}

include hsite

theorem ends_signatureFor_none (form : FuncForm) (params : List Param) :
    Ends settled (signatureFor site .none form params) fun r ↦ r = none := by
  have hmode : MemoMode.ofMarkers? (site.annotations.markers Span.none.start) = none := by
    have hunmarked : (site.annotations.markers Span.none.start).isMemoLike = false := hsite.unmarked
    simp only [Markers.isMemoLike, Bool.or_eq_false_iff] at hunmarked
    simp [MemoMode.ofMarkers?, hunmarked]
  unfold signatureFor
  rw [hsite.undeclared]
  refine ends_get fun r hr ↦ ?_
  have hnone : Span.none ∉ r.pending := hr
  have hpending : r.pending.contains Span.none = false := by simpa using hnone
  have hsettle : Halts settled (modify (·.note (.settles .none))) := halts_note fun _ h ↦ Note.noConfusion h
  refine hsettle.bind fun _ _ ↦ ?_
  dsimp only
  rw [hmode, hpending]
  exact ends_pure rfl

theorem halting_closure (h : ∀ stmt ∈ stmts, Halting site stmt) :
    Halting site (Condition.closure stmts) := by
  have hcode : Halting site (.code .none [] stmts) :=
    halting_of_needs rfl fun m hm ↦ h m (by simpa [stepNeeds, Node.children] using hm)
  refine halting_of_step [.code .none [] stmts] (by simpa using hcode) ?_
  intro self hself
  have hparts : ∀ m ∈ (Condition.closure stmts).children, Halts settled (self m) :=
    fun m hm ↦ hself m (by simpa [Condition.closure, Node.children] using hm)
  have hfunction : Halts settled (function site self .none { form := .arrow } [] none [] none
      (.code .none [] stmts)) := by
    unfold function
    dsimp only
    rw [if_neg (by simp)]
    refine (ends_signatureFor_none hsite _ _).bind ?_
    rintro _ rfl
    refine ends_get fun _ _ ↦ ends_inFrame (ends_inFunction ?_)
    exact (halts_modifyScopes _).bind fun _ _ ↦ halts_mapChildren hparts
  exact hfunction

theorem halting_branch {call : Stmt} (hcall : Glue.closureCall "ConditionBranch" stmts = .ok call)
    (hstmts : ∀ stmt ∈ stmts, Halting site stmt)
    (henclosed : ∀ stmt ∈ enclosedStmts site stmts, Halting site stmt) : Halting site call := by
  obtain ⟨span, inner, optional, isPure, place, rfl⟩ :=
    Condition.exists_of_closureCall rfl hcall
  have hclosure : Halting site (Condition.closure stmts) := halting_closure hsite hstmts
  have happly : Halting site (.apply inner (.call optional isPure) (.ref place "ConditionBranch") []
      [Condition.closure stmts]) := by
    refine halting_of_needs rfl fun m hm ↦ ?_
    simp only [stepNeeds, Node.children, List.mem_append, List.mem_cons, List.not_mem_nil, or_false,
      List.flatMap_cons, List.flatMap_nil, List.append_nil] at hm
    rcases hm with (rfl | rfl) | hm | hm
    · exact halting_ref _ _
    · exact hclosure
    · exact henclosed m hm
    · exact hstmts m hm
  exact halting_of_needs rfl fun m hm ↦ by
    obtain rfl : m = _ := by simpa [stepNeeds, Node.children] using hm
    exact happly

/-- A closure that a condition scope takes is not enclosed once more. -/
theorem reifies_of_conditionScope {scopes : Scopes} {classes : List String} {place : Span}
    {plan : CallPlan}
    (h : resolveCall? site scopes classes (.ref place "ConditionScope") 1 = some plan)
    (hplan : plan.closures.contains 0 = true) : plan.reifies = false := by
  unfold resolveCall? at h
  dsimp only at h
  split at h
  · split at h
    · obtain rfl := Option.some.inj h
      simp at hplan
    · simp at h
  · unfold planOfCallee? at h
    split at h
    · next d hd =>
      unfold CallPlan.ofDeclaration? at h
      split at h
      · simp at h
      · next hentry =>
        obtain rfl := Option.some.inj h
        exact absurd (by simpa using hplan) (hsite.scope d hd hentry)
    · have hprimitive : Primitive.defaults.find? (·.accepts "ConditionScope" 1) =
          some { name := "ConditionScope", arity := some 1, kind := .conditionScope,
                 closures := [.index 0] } := by decide
      have htext : (Node.ref place "ConditionScope").calleeText? = some "ConditionScope" := rfl
      rw [htext, Option.bind_some, planOfText?, Options.findPrimitive?, hsite.primitives,
        hprimitive] at h
      obtain rfl := Option.some.inj h
      rfl

theorem halting_scope {construct call : Stmt}
    (hcall : Glue.closureCall "ConditionScope" [construct] = .ok call)
    (hconstruct : Halting site construct) : Halting site call := by
  obtain ⟨span, inner, optional, isPure, place, rfl⟩ :=
    Condition.exists_of_closureCall rfl hcall
  let closure := Condition.closure [construct]
  have hclosure : Halting site closure := halting_closure hsite (by simpa using hconstruct)
  have hunmarked : isMarkedClosure site closure = false := hsite.unmarked
  have happly : Halting site
      (.apply inner (.call optional isPure) (.ref place "ConditionScope") [] [closure]) := by
    refine halting_of_step [.ref place "ConditionScope", closure, construct] ?_ fun self hself ↦ ?_
    · simpa using ⟨halting_ref _ _, hclosure, hconstruct⟩
    have hparts : ∀ m ∈ (Node.apply inner (.call optional isPure) (.ref place "ConditionScope") []
        [closure]).children, Halts settled (self m) := by
      intro m hm
      simp only [Node.children, List.append_nil, List.cons_append, List.nil_append, List.mem_cons,
        List.not_mem_nil, or_false] at hm
      rcases hm with rfl | rfl
      · exact hself _ (by simp)
      · exact hself _ (by simp)
    refine halts_call (fun _ _ _ _ _ h ↦ Note.noConfusion h) hparts fun scopes classes plan hplan parent ordinal ↦ ?_
    unfold threadArgs
    dsimp only
    split
    · next hbuilds =>
      obtain ⟨-, hbuilds⟩ := Bool.and_eq_true_iff.1 hbuilds
      rw [hunmarked, Bool.or_false] at hbuilds
      have hreifies := reifies_of_conditionScope hsite hplan hbuilds
      have hmemo : Halts settled (builderClosure site self (QualifiedName.nested parent ordinal 0) plan.reifies
          closure) := by
        rw [hreifies]
        simp only [closure, Condition.closure, builderClosure]
        refine halts_memoFunction (fun _ hnote spans hspans ↦
          absurd hspans (ne_awaits_of_memoNote hnote spans)) fun m hm ↦ hself m ?_
        simp only [bodyNeeds, Signature.ofClosure, bodyParts, if_true, Bool.false_eq_true, if_false,
          List.mem_singleton] at hm
        simp [hm]
      exact hmemo.bind fun _ _ ↦ ends_pure trivial
    · exact (hself closure (by simp)).bind fun _ _ ↦ ends_pure trivial
  exact halting_of_needs rfl fun m hm ↦ by
    obtain rfl : m = _ := by simpa [stepNeeds, Node.children] using hm
    exact happly

/-- What enclosing makes of lighter statements, the walk of the lighter nodes ending. -/
structure Descends (site : Site) (bound : Nat) : Prop where
  halting : ∀ n, Lighter bound n → Halting site n
  enclosed : ∀ stmts, (∀ stmt ∈ stmts, Lighter bound stmt) →
    ∀ stmt ∈ enclosedStmts site stmts, Halting site stmt

theorem halting_branches {bound : Nat} (hbound : Descends site bound) {arm arm' : Stmt}
    (h : Condition.Branches {} arm arm') (harm : Lighter bound arm) : Halting site arm' := by
  cases h with
  | intro calls =>
    refine halting_block fun stmt hm ↦ ?_
    obtain rfl := List.mem_singleton.1 hm
    exact halting_branch hsite calls (fun stmt hm ↦ hbound.halting stmt (lighter_armStmts harm hm))
      (hbound.enclosed _ fun stmt hm ↦ lighter_armStmts harm hm)

theorem halting_branchesArms {bound : Nat} (hbound : Descends site bound) {chain chain' : Stmt}
    (h : Condition.BranchesArms {} chain chain') (hparts : ∀ m ∈ chain.children, Lighter bound m)
    (hlast : (∀ span test yes no, chain ≠ .ifStmt span test yes no) → Lighter bound chain) :
    Halting site chain' := by
  induction h with
  | @only span test yes yes' branches =>
    have htest := hbound.halting test (hparts test (by simp [Node.children]))
    have hyes := halting_branches hsite hbound branches (hparts yes (by simp [Node.children]))
    refine halting_of_needs rfl fun m hm ↦ ?_
    simp only [stepNeeds, Node.children, Option.toList_none, List.append_nil, List.mem_cons,
      List.not_mem_nil, or_false] at hm
    rcases hm with rfl | rfl
    · exact htest
    · exact hyes
  | @other span test yes yes' no no' branches rest ih =>
    have htest := hbound.halting test (hparts test (by simp [Node.children]))
    have hyes := halting_branches hsite hbound branches (hparts yes (by simp [Node.children]))
    have hno : Lighter bound no := hparts no (by simp [Node.children])
    have hno' := ih (fun m hm ↦ (hno.part hm).2) fun _ ↦ hno
    refine halting_of_needs rfl fun m hm ↦ ?_
    simp only [stepNeeds, Node.children, Option.toList_some, List.append_nil, List.cons_append,
      List.nil_append, List.mem_cons, List.not_mem_nil, or_false] at hm
    rcases hm with rfl | rfl | rfl
    · exact htest
    · exact hyes
    · exact hno'
  | last noChain branches => exact halting_branches hsite hbound branches (hlast noChain)

theorem halting_branchesClause {bound : Nat} (hbound : Descends site bound) {clause clause' : Node}
    (h : Condition.BranchesClause {} clause clause') (hclause : Lighter bound clause) :
    Halting site clause' := by
  cases h with
  | kept empty => exact hbound.halting clause hclause
  | @arm span test stmts call nonempty calls =>
    have hstmts : ∀ stmt ∈ stmts, Lighter bound stmt :=
      fun stmt hm ↦ (hclause.part (by simp [Node.children, hm])).2
    have happend := Condition.splitCase_append stmts
    have harm : ∀ stmt ∈ (Condition.splitCase stmts).1, Lighter bound stmt :=
      fun stmt hm ↦ hstmts stmt (happend ▸ List.mem_append_left _ hm)
    have hcall := halting_branch hsite calls (fun stmt hm ↦ hbound.halting stmt (harm stmt hm))
      (hbound.enclosed _ harm)
    refine halting_of_needs rfl fun m hm ↦ ?_
    simp only [stepNeeds, Node.children, List.append_nil, List.mem_append, List.mem_cons] at hm
    rcases hm with hm | rfl | hm
    · exact hbound.halting m (hclause.part (by simp only [Node.children]; exact List.mem_append_left _ hm)).2
    · exact hcall
    · exact hbound.halting m (hstmts m (happend ▸ List.mem_append_right _ hm))

/-- Enclosed statements end if the lighter nodes do: what is put into closures is lighter. -/
theorem halting_enclosures {bound : Nat} (hhalting : ∀ n, Lighter bound n → Halting site n)
    (hdescends : ∀ bound' < bound, Descends site bound') {stmts stmts' : List Stmt}
    (h : Condition.Enclosures {} stmts stmts') (hstmts : ∀ stmt ∈ stmts, Lighter bound stmt) :
    ∀ stmt ∈ stmts', Halting site stmt := by
  induction h with
  | nil => simp
  | @kept stmt stmts stmts' rest ih =>
    intro m hm
    rcases List.mem_cons.1 hm with rfl | hm
    · exact hhalting _ (hstmts _ List.mem_cons_self)
    · exact ih (fun stmt hm ↦ hstmts stmt (List.mem_cons_of_mem _ hm)) m hm
  | @block span inner inner' stmts stmts' inside rest ihinside ih =>
    intro m hm
    rcases List.mem_cons.1 hm with rfl | hm
    · exact halting_block (ihinside fun stmt hm ↦ ((hstmts _ List.mem_cons_self).part hm).2)
    · exact ih (fun stmt hm ↦ hstmts stmt (List.mem_cons_of_mem _ hm)) m hm
  | @chain span test yes chain call no stmts stmts' safe branches calls rest ih =>
    intro m hm
    rcases List.mem_cons.1 hm with rfl | hm
    · have hif : Lighter bound (.ifStmt span test yes no) := hstmts _ List.mem_cons_self
      refine halting_scope hsite calls ?_
      exact halting_branchesArms hsite (hdescends _ hif.1) branches (fun m hm ↦ (hif.part hm).1)
        fun hno ↦ absurd rfl (hno _ _ _ _)
    · exact ih (fun stmt hm ↦ hstmts stmt (List.mem_cons_of_mem _ hm)) m hm
  | @switch span subject call clauses clauses' stmts stmts' safe branches calls rest ih =>
    intro m hm
    rcases List.mem_cons.1 hm with rfl | hm
    · have hswitch : Lighter bound (.switchStmt span subject clauses) := hstmts _ List.mem_cons_self
      refine halting_scope hsite calls (halting_of_needs rfl fun m hm ↦ ?_)
      simp only [stepNeeds, Node.children, List.append_nil, List.mem_append, List.mem_singleton] at hm
      rcases hm with rfl | hm
      · exact hhalting _ (hswitch.part (by simp [Node.children])).2
      · obtain ⟨clause, hclause, hbranches⟩ := exists_of_forall₂_right branches hm
        exact halting_branchesClause hsite (hdescends _ hswitch.1) hbranches
          (hswitch.part (by simp [Node.children, hclause])).1
    · exact ih (fun stmt hm ↦ hstmts stmt (List.mem_cons_of_mem _ hm)) m hm

theorem halting_hidden {hidden : List Param} {param : Param}
    (h : Glue.hiddenParameters site.options.runtime = .ok hidden) (hm : param ∈ hidden) :
    Halting site param := by
  have hbare := areBareParams_hiddenParameters
  rw [hsite.runtime] at h
  rw [h] at hbare
  have hparam := List.all_eq_true.1 hbare param hm
  split at hparam
  · next span mods place name tspan path =>
    have htype : Halting site (.typeRef tspan path []) :=
      halting_of_needs rfl (by simp [stepNeeds, Node.children])
    have hname : Halting site (.binding place name) :=
      halting_of_needs rfl (by simp [stepNeeds, Node.children])
    refine halting_of_needs rfl fun m hm ↦ ?_
    simp only [stepNeeds, Node.children, Option.toList_some, Option.toList_none, List.append_nil,
      List.nil_append, List.cons_append, List.mem_cons, List.not_mem_nil, or_false] at hm
    rcases hm with rfl | rfl
    · exact hname
    · exact htype
  · exact absurd hparam (by simp)

omit hsite in
theorem halting_func {bound : Nat} (hbound : Descends site bound) {span : Span} {head : FuncHead}
    {typeParams : List Node} {this : Option Node} {params : List Param} {result : Option Ty}
    {body : Node} (hbody : Lighter bound body)
    (hparts : ∀ m ∈ (Node.func span head typeParams this params result body).children,
      Halting site m) : Halting site (.func span head typeParams this params result body) := by
  refine halting_of_needs rfl fun m hm ↦ ?_
  rcases List.mem_append.1 hm with hm | hm
  · exact hparts m hm
  · rcases List.mem_append.1 hm with hm | hm
    · exact hbound.enclosed _ (fun stmt hm ↦ lighter_bodyParts hbody hm) m hm
    · exact hbound.halting m (hbody.part hm).2

omit hsite in
theorem halting_addToFunctionType {bound : Nat} (hbound : Descends site bound) {hidden : List Param}
    (hhidden : ∀ param ∈ hidden, Halting site param) {type : Ty} (htype : Lighter bound type) :
    Halting site (addToFunctionType hidden type) := by
  induction type using Node.induction_on_parts with
  | step type ih =>
    have hform {span : Span} {f : TypeForm} {parts : List Ty}
        (hparts : ∀ part ∈ parts, Lighter bound part)
        (ih : ∀ part ∈ parts, Halting site (addToFunctionType hidden part)) :
        Halting site (.typeForm span f (addToFirst hidden parts)) := by
      refine halting_of_needs rfl fun m hm ↦ ?_
      rcases mem_addToFirst (by simpa [stepNeeds, Node.children] using hm) with hm | ⟨part, hpart, rfl⟩
      · exact hbound.halting m (hparts m hm)
      · exact ih part hpart
    unfold addToFunctionType
    split
    · next span isAbstract fspan head tps this params result body =>
      have hf : Lighter bound (.func fspan head tps this params result body) :=
        (htype.part (by simp [Node.children])).2
      have hfunc : Halting site (.func fspan head tps this (hidden ++ params) result body) := by
        refine halting_func hbound (hf.part (by simp [Node.children])).2 fun m hm ↦ ?_
        simp only [Node.children, List.mem_append] at hm
        rcases hm with (((hm | hm) | hm | hm) | hm) | hm
        · exact hbound.halting m (hf.part (by simp [Node.children, hm])).2
        · exact hbound.halting m (hf.part (by simp only [Node.children, List.mem_append]; simp [hm])).2
        · exact hhidden m hm
        · exact hbound.halting m (hf.part (by simp [Node.children, hm])).2
        · exact hbound.halting m (hf.part (by simp only [Node.children, List.mem_append]; simp [hm])).2
        · exact hbound.halting m (hf.part (by simp only [Node.children, List.mem_append]; simp [hm])).2
      refine halting_of_needs rfl fun m hm ↦ ?_
      obtain rfl : m = _ := by simpa [stepNeeds, Node.children] using hm
      exact hfunc
    · exact hform (fun part hm ↦ (htype.part hm).2) fun part hm ↦ ih part hm (htype.part hm).2
    · exact hform (fun part hm ↦ (htype.part hm).2) fun part hm ↦ ih part hm (htype.part hm).2
    · exact hbound.halting _ htype

theorem halting_threadedTypes {bound : Nat} (hbound : Descends site bound) {type m : Ty}
    (htype : Lighter bound type) (hm : m ∈ threadedTypes site type) : Halting site m := by
  obtain ⟨hidden, hhidden, rfl⟩ := List.mem_map.1 hm
  have hread : Glue.hiddenParameters site.options.runtime = .ok hidden := by
    revert hhidden
    cases Glue.hiddenParameters site.options.runtime with
    | ok params =>
      intro h
      rw [List.mem_singleton.1 h]
    | error failure => simp [Except.toOption]
  exact halting_addToFunctionType hbound (fun param hm ↦ halting_hidden hsite hread hm) htype

omit hsite in
theorem halting_argNeeds {bound : Nat} (hbound : Descends site bound) {arg m : Node} {reifies : Bool}
    (harg : Lighter bound arg) (hm : m ∈ argNeeds site reifies arg) : Halting site m := by
  unfold argNeeds at hm
  split at hm
  · next body =>
    have hbody : Lighter bound body := (harg.part (by simp [Node.children])).2
    split at hm
    · exact hbound.enclosed _ (fun stmt hm ↦ lighter_bodyParts hbody hm) m hm
    · exact hbound.halting m (lighter_bodyParts hbody hm)
  · simp at hm

theorem halting_of_descends {n : Node} (hn : Placed n) (hbound : Descends site (weight n)) :
    Halting site n := by
  have hpart {m : Node} (hm : m ∈ n.children) : Lighter (weight n) m :=
    ⟨weight_lt_of_mem hm, hn.parts hm⟩
  refine halting_of_needs hn.own fun m hm ↦ ?_
  simp only [stepNeeds, List.mem_append] at hm
  rcases hm with hm | hm
  · exact hbound.halting m (hpart hm)
  split at hm
  · next body =>
    have hbody : Lighter _ body := hpart (by simp [Node.children])
    rcases List.mem_append.1 hm with hm | hm
    · exact hbound.enclosed _ (fun stmt hm ↦ lighter_bodyParts hbody hm) m hm
    · exact hbound.halting m (hbody.part hm).2
  · next args =>
    rcases List.mem_append.1 hm with hm | hm
    · obtain ⟨arg, harg, hm⟩ := List.mem_flatMap.1 hm
      exact halting_argNeeds hbound (hpart (by simp [Node.children, harg])) hm
    · obtain ⟨arg, harg, hm⟩ := List.mem_flatMap.1 hm
      exact halting_argNeeds hbound (hpart (by simp [Node.children, harg])) hm
  · next type init =>
    obtain ⟨type', htype', hm⟩ := List.mem_flatMap.1 hm
    refine halting_threadedTypes hsite hbound (hpart ?_) hm
    simp only [Node.children, List.mem_append]
    exact .inl (.inr htype')
  · next items =>
    obtain ⟨item, hitem, hm⟩ := List.mem_flatMap.1 hm
    have hlighter : Lighter _ item := hpart hitem
    unfold threadedDeclarators at hm
    split at hm
    · next span target definite type init =>
      obtain ⟨type', htype', rfl⟩ := List.mem_map.1 hm
      have htype := halting_threadedTypes hsite hbound
        (hlighter.part (m := type) (by simp [Node.children])).2 htype'
      refine halting_of_needs rfl fun m hm ↦ ?_
      simp only [stepNeeds, Node.children, Option.toList_some, List.append_nil, List.cons_append,
        List.nil_append, List.mem_cons] at hm
      rcases hm with rfl | rfl | hm
      · exact hbound.halting _ (hlighter.part (by simp [Node.children])).2
      · exact htype
      · exact hbound.halting m (hlighter.part (by simp [Node.children, hm])).2
    · simp at hm
  · next parents members =>
    obtain ⟨parent, hparent, hm⟩ := List.mem_flatMap.1 hm
    have hlighter : Lighter _ parent := hpart (by simp [Node.children, hparent])
    unfold extendedNames at hm
    split at hm
    · obtain rfl := List.mem_singleton.1 hm
      refine halting_of_needs rfl fun m hm ↦ ?_
      exact hbound.halting m (hlighter.part (by simpa [stepNeeds, Node.children] using hm)).2
    · simp at hm
  · simp at hm

theorem descends (bound : Nat) : Descends site bound := by
  induction bound using Nat.strong_induction_on with
  | _ bound ih =>
    have hhalting : ∀ n, Lighter bound n → Halting site n :=
      fun n hn ↦ halting_of_descends hsite hn.2 (ih _ hn.1)
    refine ⟨hhalting, fun stmts hstmts stmt hm ↦ ?_⟩
    unfold enclosedStmts at hm
    split at hm
    · next enclosed hrun =>
      have hencloses : Condition.Enclosures {} stmts enclosed := by
        rw [← hsite.runtime]
        exact Condition.enclosures_of_run (Prod.ext hrun rfl)
      exact halting_enclosures hsite hhalting ih hencloses hstmts stmt hm
    · simp at hm

end

theorem placed_of_functionSpans {n : Node} (h : Span.none ∉ functionSpans n) : Placed n := by
  have hheld {f : Node} (hf : Span.none ∉ functionSpans f) : Span.none ∉ heldFunction f := by
    intro hspan
    obtain ⟨head, typeParams, this, params, result, body, rfl⟩ := exists_of_mem_heldFunction hspan
    exact hf mem_functionSpans_self
  induction n using Node.induction_on_parts with
  | step n ih =>
    have hparts (m : Node) (hm : m ∈ n.children) : Span.none ∉ functionSpans m :=
      fun hspan ↦ h (mem_functionSpans_of_part hm hspan)
    refine .intro ?_ fun m hm ↦ ih m hm (hparts m hm)
    unfold isPlaced
    split
    · next f => simpa using hheld (hparts f (by simp [Node.children]))
    · refine List.all_eq_true.2 fun item hitem ↦ ?_
      simp only [Bool.not_eq_true', List.contains_eq_mem, decide_eq_false_iff_not]
      intro hspan
      obtain ⟨place, target, definite, type, init, rfl, hinit⟩ := exists_of_mem_initialClosure hspan
      refine hheld (fun hmem ↦ hparts _ hitem ?_) hinit
      exact mem_functionSpans_of_part (m := init) (by simp [Node.children]) hmem
    · rfl

def withDefaultNames (o : Options) : Options :=
  { o with runtime := {}, primitives := Primitive.defaults, externalMemoFunctions := [] }

/-- With enough depth the walk of a file ends, unless the file declares a memo function of its own for
condition scopes that takes a memo closure in front. -/
theorem walkAll_ends {source : String} {jsx : Bool} {parsed : Parsed} (o : Options)
    (hparsed : parse? source jsx = some parsed)
    (hscope : ∀ d, (siteOf source (withDefaultNames o) parsed).graph.function? "ConditionScope" = some d →
      d.mode = .entry ∨ 0 ∉ d.parameters.memoIndices) :
    ∃ bound, ∀ depth, bound ≤ depth → ∃ stmts' s,
      walkAll (siteOf source (withDefaultNames o) parsed) depth parsed.program.body =
        some (stmts', s) := by
  let site := siteOf source (withDefaultNames o) parsed
  have apart := toldApart_of_parse? hparsed
  have hsite : site.Apart := by
    refine ⟨rfl, rfl, rfl, nodeAt?_none_of_toldApart source _ parsed apart, ?_, fun d hd hmode ↦ ?_⟩
    · exact congrArg Markers.isMemoLike (markers_zero source parsed.comments)
    · exact (hscope d hd).resolve_left hmode
  have hspans (stmt : Stmt) (hstmt : stmt ∈ parsed.program.body) : Span.none ∉ functionSpans stmt :=
    fun hspan ↦ (List.nodup_cons.1 apart).1
      (List.mem_append_left _ (List.mem_flatMap.2 ⟨stmt, hstmt, hspan⟩))
  obtain ⟨bound, hbound⟩ := exists_bound fun stmt hstmt ↦
    halting_of_descends hsite (placed_of_functionSpans (hspans stmt hstmt)) (descends hsite _)
  refine ⟨bound, fun depth hdepth ↦ ?_⟩
  obtain ⟨stmts', s, hwalk, -, -⟩ := ends_mapM (fun stmt hstmt ↦ hbound stmt hstmt depth hdepth)
    (initial site.options.filePath) (by simp [State.Settled, initial])
  exact ⟨stmts', s, hwalk⟩

/-- The text of a memo function with a condition and of one for condition scopes, with a comment
before the parameter of the latter. -/
def ownScopeSource (comment : String) : String :=
  "/** @memo */\nfunction view(a: boolean): void \x7b\n  if (a) \x7b Text(\"x\"); \x7d\n\x7d\n"
    ++ "/** @memo */\nfunction ConditionScope(" ++ comment
    ++ " content: () => void): void \x7b\n  content();\n\x7d\n"

set_option maxRecDepth 100000 in
theorem memoIndices_plainScope : (parse? (ownScopeSource "/** plain */") false).map (fun parsed ↦
    ((siteOf (ownScopeSource "/** plain */") (withDefaultNames {}) parsed).graph.function?
      "ConditionScope").map fun d ↦ d.parameters.memoIndices) = some (some []) := by
  decide +kernel

theorem walkAll_ends_plainScope : ∃ parsed,
    parse? (ownScopeSource "/** plain */") false = some parsed ∧
      ∃ bound, ∀ depth, bound ≤ depth → ∃ stmts' s,
        walkAll (siteOf (ownScopeSource "/** plain */") (withDefaultNames {}) parsed) depth
          parsed.program.body = some (stmts', s) := by
  obtain ⟨parsed, hparsed, hindices⟩ := Option.map_eq_some_iff.1 memoIndices_plainScope
  refine ⟨parsed, hparsed, walkAll_ends {} hparsed fun d hd ↦ .inr ?_⟩
  obtain ⟨d', hd', hnone⟩ := Option.map_eq_some_iff.1 hindices
  obtain rfl : d = d' := Option.some.inj (hd.symm.trans hd')
  rw [hnone]
  exact List.not_mem_nil

section

variable {α β : Type} {s s' : State}

theorem bind_eq_none_of_left {x : WeaveM α} {f : α → WeaveM β} (h : x s = none) :
    (x >>= f) s = none := by
  simp [bind, StateT.bind, h]

theorem bind_eq_of_eq {x : WeaveM α} {f : α → WeaveM β} {a : α} (h : x s = some (a, s')) :
    (x >>= f) s = f a s' := by
  simp [bind, StateT.bind, h]

end

section

variable {s : ConditionSettings}

theorem armHazards_branch {stmts : List Stmt} {call : Stmt}
    (h : Glue.closureCall "ConditionBranch" stmts = .ok call) :
    armHazards [Glue.block [call]] = [] := by
  obtain ⟨span, inner, optional, isPure, place, rfl⟩ := Condition.exists_of_closureCall rfl h
  simp [armHazards, hazards, Node.gather_eq, Node.children, Glue.block, Condition.closure, isSealed,
    ownHazards]

theorem answers_branch (hn : s.names = {}) (arm : Stmt) :
    Condition.Answers (fun arm' ↦ armHazards [arm'] = [] ∧ Condition.chainHazards arm' = [])
      (Condition.branch s arm) := by
  have hbranch : Execution.isCondition {} "ConditionBranch" := rfl
  obtain ⟨span, inner, optional, isPure, place, hcall⟩ := Condition.exists_closureCall hbranch
  have hanswers (stmts : List Stmt) :
      Condition.Answers (fun arm' ↦ armHazards [arm'] = [] ∧ Condition.chainHazards arm' = [])
        (do return Glue.block [← Glue.closureCall s.names.conditionBranch stmts]) := by
    rw [hn]
    have hsafe := armHazards_branch (hcall stmts)
    refine Condition.answers_bind (Condition.answers_lift (hcall stmts) rfl) fun call h ↦ ?_
    exact Condition.answers_pure (h ▸ ⟨hsafe, hsafe⟩)
  unfold Condition.branch
  split
  · exact hanswers _
  · exact hanswers _

theorem answers_branchArms (hn : s.names = {}) (chain : Stmt) :
    Condition.Answers (fun chain' ↦ Condition.chainHazards chain' = [] ∧
      ∀ span test yes no, chain = .ifStmt span test yes no →
        ∃ yes' no', chain' = .ifStmt span test yes' no') (Condition.branchArms s chain) := by
  fun_induction Condition.chainHazards chain with
  | case1 span test yes no ih =>
    cases no with
    | none =>
      rw [Condition.branchArms_if]
      refine Condition.answers_bind (answers_branch hn yes) fun yes' hyes ↦ ?_
      refine Condition.answers_pure ⟨?_, fun _ _ _ _ h ↦ ?_⟩
      · rw [Condition.chainHazards, hyes.1]
        rfl
      · cases h
        exact ⟨_, _, rfl⟩
    | some no =>
      rw [Condition.branchArms_else]
      refine Condition.answers_bind (answers_branch hn yes) fun yes' hyes ↦ ?_
      refine Condition.answers_bind ih fun no' hno ↦ ?_
      refine Condition.answers_pure ⟨?_, fun _ _ _ _ h ↦ ?_⟩
      · rw [Condition.chainHazards, hyes.1]
        exact hno.1
      · cases h
        exact ⟨_, _, rfl⟩
  | case2 arm hif =>
    rw [Condition.branchArms_arm hif]
    intro t
    obtain ⟨arm', t', hrun, hsafe⟩ := answers_branch hn arm t
    exact ⟨arm', t', hrun, hsafe.2, fun _ _ _ _ h ↦ absurd h (hif _ _ _ _)⟩

theorem exists_run_chain (hn : s.names = {}) {span : Span} {test yes : Node} {no : Option Node}
    (h : Condition.chainHazards (.ifStmt span test yes no) = []) :
    ∃ yes' no' call tally, Condition.run s [.ifStmt span test yes no] = (.ok [call], tally) ∧
      Condition.chainHazards (.ifStmt span test yes' no') = [] ∧
      Glue.closureCall "ConditionScope" [.ifStmt span test yes' no'] = .ok call := by
  have hscope : Execution.isCondition {} "ConditionScope" := rfl
  obtain ⟨place, inner, optional, isPure, start, hcall⟩ := Condition.exists_closureCall hscope
  have hanswers : Condition.Answers (fun stmts ↦ ∃ yes' no' call, stmts = [call] ∧
      Condition.chainHazards (.ifStmt span test yes' no') = [] ∧
      Glue.closureCall "ConditionScope" [.ifStmt span test yes' no'] = .ok call)
      (Condition.encloseAll s [.ifStmt span test yes no]) := by
    rw [Condition.encloseAll, Condition.enclose, h]
    dsimp only [Condition.accepts, Condition.verdict]
    rw [pure_bind, if_pos rfl, bind_assoc]
    refine Condition.answers_bind (answers_branchArms hn _) fun chain hchain ↦ ?_
    obtain ⟨hsafe, hif⟩ := hchain
    obtain ⟨yes', no', rfl⟩ := hif _ _ _ _ rfl
    rw [Condition.scope, bind_assoc, hn]
    refine Condition.answers_bind (Condition.answers_modify _) fun _ _ ↦ ?_
    refine Condition.answers_bind (Condition.answers_lift (hcall _) rfl) fun call hok ↦ ?_
    subst hok
    exact Condition.answers_pure ⟨yes', no', _, rfl, hsafe, hcall _⟩
  obtain ⟨stmts, tally, hrun, yes', no', call, rfl, hsafe, hok⟩ := hanswers {}
  exact ⟨yes', no', call, tally, hrun, hsafe, hok⟩

end

/-- A place at which calls are threaded and nothing hides what the file declares. -/
def State.IsOpen (s : State) : Prop :=
  s.scopes.lookup "ConditionScope" = none ∧ s.threading = true

section

variable {self : Self} {span : Span} {test yes : Node} {no : Option Node}

/-- The walk of a body fails if the walk of its enclosed chain does. -/
theorem wrappedBody_eq_none (hruntime : site.options.runtime = {}) {sig : Signature}
    {params : List Param} {result : Option Ty} {place : Span} {directives : List String} {s : State}
    (hreifies : sig.reifies = true)
    (hsafe : Condition.chainHazards (.ifStmt span test yes no) = [])
    (hbinds : (s.scopes.pushFunction.bindAll
      (sig.parameters.bindings.flatMap (parameterBinding (sig.mode == .memo)) ++
        params.flatMap patternBindings)).lookup "ConditionScope" = none)
    (hself : ∀ yes no call, ∀ s' : State, s'.IsOpen →
      Condition.chainHazards (.ifStmt span test yes no) = [] →
      Glue.closureCall "ConditionScope" [.ifStmt span test yes no] = .ok call → self call s' = none) :
    wrappedBody site self sig params result
      (.code place directives [.ifStmt span test yes no]) s = none := by
  obtain ⟨yes', no', call, tally, hrun, hsafe', hcall⟩ := exists_run_chain
    (s := ⟨site.options.runtime, site.options.earlyExitPolicy, site.source, site.options.filePath⟩)
    hruntime hsafe
  let s₁ : State := { s with
    errors := s.errors ++ tally.errors
    stats := { s.stats with reifiedChains := s.stats.reifiedChains + tally.enclosed } }
  have hencloses : encloseConditions site [.ifStmt span test yes no] s = some (some [call], s₁) := by
    unfold encloseConditions
    rw [hrun]
    rfl
  have hhoisted : hoistedBindings site.annotations [call] = [] := by
    obtain ⟨place, inner, optional, isPure, start, rfl⟩ := Condition.exists_of_closureCall rfl hcall
    rfl
  unfold wrappedBody
  dsimp only [bodyParts]
  rw [if_pos hreifies, bind_eq_of_eq hencloses]
  dsimp only
  refine bind_eq_none_of_left ?_
  unfold inMemoBody inFunction
  rw [hhoisted, List.append_nil, bind_eq_of_eq rfl]
  refine bind_eq_none_of_left ?_
  rw [bind_eq_of_eq rfl]
  unfold inFrame
  rw [bind_eq_of_eq rfl]
  refine bind_eq_none_of_left ?_
  rw [List.mapM_cons]
  exact bind_eq_none_of_left (hself yes' no' call _ ⟨hbinds, rfl⟩ hsafe' hcall)

theorem threadParams_nil (site : Site) (index : Nat) (params : List Param) :
    threadParams site [] index params = pure params := by
  induction params generalizing index with
  | nil => rfl
  | cons param params ih =>
    unfold threadParams
    rw [ih]
    rfl

theorem memoFunction_eq_none {sig : Signature} {place fspan : Span} {head : FuncHead}
    {typeParams params : List Node} {this result : Option Node} {directives : List String}
    {stmts : List Stmt} {s : State} (hmode : sig.mode = .memo)
    (hplain : sig.parameters.memoIndices = [])
    (hruns : suspensionBreach? sig head fspan.start = none)
    (hobeys : breaches site.options.runtime sig params fspan.start = [])
    (hbody : wrappedBody site self sig (params.map plainParam) result (.code place directives stmts)
      { s with touched := true } = none) :
    memoFunction site self sig
      (.func fspan head typeParams this params result (.code place directives stmts)) s = none := by
  unfold memoFunction
  dsimp only
  rw [bind_eq_of_eq rfl, hruns]
  dsimp only
  rw [hobeys, if_neg (by simp), hplain, threadParams_nil, pure_bind, if_pos hmode]
  exact bind_eq_none_of_left hbody

/-- Where the file declares condition scopes as memo functions of memo closures, the closure of an
enclosed chain is enclosed once more, and so without end. -/
theorem walk_scope_eq_none (hruntime : site.options.runtime = {}) {d : MemoDeclaration}
    (hd : site.graph.function? "ConditionScope" = some d) (hmode : d.mode ≠ .entry)
    (hindex : 0 ∈ d.parameters.memoIndices) (depth : Nat) {call : Stmt} {s : State} (hs : s.IsOpen)
    (hsafe : Condition.chainHazards (.ifStmt span test yes no) = [])
    (hcall : Glue.closureCall "ConditionScope" [.ifStmt span test yes no] = .ok call) :
    walk site depth call s = none := by
  induction depth using Nat.strong_induction_on generalizing yes no call s with
  | _ depth ih =>
  obtain ⟨place, inner, optional, isPure, start, rfl⟩ := Condition.exists_of_closureCall rfl hcall
  match depth with
  | 0 => rfl
  | 1 => rfl
  | depth + 2 =>
    let callee : Expr := .ref start "ConditionScope"
    let closure := Condition.closure [.ifStmt span test yes no]
    have hplan : resolveCall? site s.scopes s.classes callee 1 =
        some ⟨d.parameters.memoIndices, true⟩ := by
      simp only [callee, resolveCall?, hs.1, planOfCallee?, declarationOf?, hd,
        CallPlan.ofDeclaration?, hmode, if_false]
    obtain ⟨counter, frames, hframes⟩ : ∃ counter frames, s.frames = .scope counter true :: frames := by
      have hthreading := hs.2
      unfold State.threading at hthreading
      split at hthreading
      · next counter frames h => exact ⟨counter, frames, h⟩
      · simp at hthreading
    let s₁ : State := { s with frames := .scope counter.nextCall.2 true :: frames }
    have hnext : nextCall s = some (some (counter.name, counter.nextCall.1), s₁) := by
      unfold nextCall
      rw [bind_eq_of_eq rfl, hframes]
      rfl
    have hclosure : (threadArgs site (walk site depth) ⟨d.parameters.memoIndices, true⟩ counter.name
        counter.nextCall.1 0 [closure]) s₁ = none := by
      unfold threadArgs
      have hbuilds : (closure.isClosure && (d.parameters.memoIndices.contains 0 ||
          isMarkedClosure site closure)) = true := by simp [closure, Condition.closure, hindex]; rfl
      dsimp only
      rw [if_pos hbuilds]
      refine bind_eq_none_of_left ?_
      dsimp only [closure, Condition.closure, builderClosure]
      refine memoFunction_eq_none rfl rfl rfl rfl ?_
      exact wrappedBody_eq_none hruntime rfl hsafe hs.1 fun yes no call s' hs' hsafe' hcall' ↦
        ih depth (by omega) hs' hsafe' hcall'
    have happly : walk site (depth + 1)
        (.apply inner (.call optional isPure) callee [] [closure]) s = none := by
      refine (bind_eq_of_eq rfl).trans ?_
      rw [List.length_singleton, hplan]
      dsimp only
      rw [if_pos hs.2]
      unfold threadCall
      rw [bind_eq_of_eq hnext]
      dsimp only
      have hcallee : walk site depth callee s₁ = none ∨ walk site depth callee s₁ = some (callee, s₁) := by
        cases depth with
        | zero => exact .inl rfl
        | succ depth =>
          refine .inr ((bind_eq_of_eq rfl).trans ?_)
          have hunwatched : s₁.scopes.isWatched "ConditionScope" = false := by
            simp [Scopes.isWatched, s₁, hs.1]
          rw [hunwatched]
          rfl
      rcases hcallee with hcallee | hcallee
      · exact bind_eq_none_of_left hcallee
      · rw [bind_eq_of_eq hcallee]
        exact bind_eq_none_of_left hclosure
    exact bind_eq_none_of_left happly

end

def viewChain : Stmt :=
  .ifStmt ⟨49, 70⟩ (.ref ⟨53, 54⟩ "a")
    (.block ⟨56, 70⟩ [.exprStmt ⟨58, 68⟩ (.apply ⟨58, 67⟩ (.call false false) (.ref ⟨58, 62⟩ "Text") []
      [.lit ⟨63, 66⟩ (.string ⟨"x", false⟩)])]) none

def chainView : Func :=
  .func ⟨13, 72⟩ { form := .declaration, name := some "view" } [] none
    [.param ⟨27, 37⟩ {} false [] (.binding ⟨27, 28⟩ "a") (some (.typeWord ⟨30, 37⟩ "boolean")) none]
    (some (.typeWord ⟨40, 44⟩ "void")) (.code ⟨45, 72⟩ [] [viewChain])

def ownScope : Func :=
  .func ⟨86, 166⟩ { form := .declaration, name := some "ConditionScope" } [] none
    [.param ⟨123, 142⟩ {} false [] (.binding ⟨123, 130⟩ "content")
      (some (.typeFunc ⟨132, 142⟩ false false (.func ⟨132, 142⟩ { form := .signature } [] none []
        (some (.typeWord ⟨138, 142⟩ "void")) .missing))) none]
    (some (.typeWord ⟨145, 149⟩ "void"))
    (.code ⟨150, 166⟩ [] [.exprStmt ⟨154, 164⟩
      (.apply ⟨154, 163⟩ (.call false false) (.ref ⟨154, 161⟩ "content") [] [])])

def ownScopeFile : Parsed where
  program := ⟨none, [], [chainView, ownScope], false⟩
  comments := [⟨⟨0, 12⟩, true⟩, ⟨⟨73, 85⟩, true⟩, ⟨⟨110, 122⟩, true⟩]

def ownScopeSite (comment : String) : Site :=
  siteOf (ownScopeSource comment) (withDefaultNames {}) ownScopeFile

set_option maxRecDepth 100000 in
theorem annotations_memoScope :
    Annotations.ofComments (ownScopeSource "/** @memo */") ownScopeFile.comments =
      ⟨[(13, { memo := true }), (86, { memo := true }), (123, { memo := true })]⟩ := by
  decide +kernel

theorem graph_ownScope {comment : String} {annotations : Annotations}
    (h : Annotations.ofComments (ownScopeSource comment) ownScopeFile.comments = annotations) :
    (ownScopeSite comment).graph =
      .build ownScopeFile.program.body "input.ts" annotations (.ofWidth ({} : Options).hashWidth) := by
  rw [← h]
  rfl

/-- The walk of a file that declares condition scopes itself may never end. -/
theorem walkAll_never_ends :
    (fun depth ↦ walkAll (ownScopeSite "/** @memo */") depth ownScopeFile.program.body) =
      fun _ ↦ none := by
  funext depth
  have hgraph := graph_ownScope annotations_memoScope
  have hscope : ((ownScopeSite "/** @memo */").graph.function? "ConditionScope").map
      (fun d ↦ (d.mode, d.parameters.memoIndices)) = some (.memo, [0]) := by
    rw [hgraph]
    decide +kernel
  have hview : ((ownScopeSite "/** @memo */").graph.nodeAt? ⟨13, 72⟩).map
      (fun d ↦ (d.mode, d.parameters)) =
        some (.memo, ⟨[⟨0, some "a", some 0, false, false, false, 27⟩]⟩) := by
    rw [hgraph]
    decide +kernel
  obtain ⟨d, hd, hdata⟩ := Option.map_eq_some_iff.1 hscope
  obtain ⟨hmode, hindices⟩ := Prod.mk.inj hdata
  obtain ⟨view, hview, hdata⟩ := Option.map_eq_some_iff.1 hview
  obtain ⟨hmemo, hparameters⟩ := Prod.mk.inj hdata
  have hsafe : Condition.chainHazards viewChain = [] := by decide +kernel
  let s := initial "input.ts"
  have hwalk : walk (ownScopeSite "/** @memo */") depth chainView s = none := by
    cases depth with
    | zero => rfl
    | succ depth =>
      have hsigned (params : List Param) :
          signatureFor (ownScopeSite "/** @memo */") ⟨13, 72⟩ .declaration params s =
            some (some (.ofDeclaration view), s) := by
        unfold signatureFor
        rw [hview]
        rfl
      refine (bind_eq_of_eq (hsigned _)).trans ?_
      refine memoFunction_eq_none hmemo ?_ rfl ?_ ?_
      · dsimp only [Signature.ofDeclaration]
        rw [hparameters]
        rfl
      · dsimp only [Signature.ofDeclaration, breaches]
        rw [hmemo, hparameters]
        rfl
      · refine wrappedBody_eq_none rfl rfl hsafe ?_ fun yes no call s' hs' hsafe' hcall' ↦ ?_
        · dsimp only [Signature.ofDeclaration]
          rw [hmemo, hparameters]
          decide +kernel
        · have hmemo : d.mode ≠ .entry := by simp [hmode]
          exact walk_scope_eq_none rfl hd hmemo (by simp [hindices]) depth hs' hsafe' hcall'
  exact bind_eq_none_of_left hwalk

end Recompose.Weave
