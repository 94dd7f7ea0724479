import Recompose.Proofs.Jump
import Recompose.Proofs.Reading.Order.File

namespace Recompose

open Script

/-- A node outside nested functions and classes, with what is around it there, the innermost first. -/
inductive Open (stmts : List Stmt) : List Node → Node → Prop where
  | top {stmt : Stmt} : stmt ∈ stmts → isSealed stmt = false → Open stmts [] stmt
  | part {around : List Node} {node part : Node} : Open stmts around node → part ∈ node.children →
    isSealed part = false → Open stmts (node :: around) part

def isLeftBy : Option String → Stmt → Bool
  | some label, .labelled _ l _ => l == label
  | none, .switchStmt .. => true
  | none, stmt => isLoop stmt
  | _, _ => false

def breakTarget? (around : List Node) (label : Option String) : Option Stmt :=
  around.find? (isLeftBy label)

def labelSet : List Node → List String
  | .labelled _ label _ :: around => label :: labelSet around
  | _ => []

def continueTarget? : List Node → Option String → Option Stmt
  | [], _ => none
  | node :: around, label =>
    if isLoop node && label.all (labelSet around).contains then some node
    else continueTarget? around label

/-- What makes a node a hazard: it returns, declares, suspends, or its target is not around it. -/
def hazardAt? (around : List Node) : Node → Option Hazard
  | .returnStmt span _ => some ⟨.return, span⟩
  | .breakStmt span label => if (breakTarget? around label).isSome then none else some ⟨.break, span⟩
  | .continueStmt span label =>
    if (continueTarget? around label).isSome then none else some ⟨.continue, span⟩
  | .vars span .hoisted _ _ => some ⟨.var, span⟩
  | .forEach span .awaited _ _ _ => some ⟨.await, span⟩
  | .form span .await _ => some ⟨.await, span⟩
  | .form span (.yield _) _ => some ⟨.yield, span⟩
  | _ => none

def labelsLoop (label : String) : Stmt → Bool
  | .labelled _ l body => l == label && isLoop body
  | _ => false

/-- A `continue` to a loop that is around it, with further labels between the loop and its own. -/
def farContinueAt? (around : List Node) : Node → Option Hazard
  | .continueStmt span (some label) =>
    if (continueTarget? around (some label)).isSome && !around.any (labelsLoop label) then
      some ⟨.continue, span⟩
    else none
  | _ => none

variable {stmts : List Stmt} {around : List Node} {node : Node} {k : Hazard} {label : String}

theorem breakable_enter (t : JumpTargets) (node : Node) (label : Option String) :
    (t.enter node).breakable label = (isLeftBy label node || t.breakable label) := by
  unfold JumpTargets.enter
  split
  · cases label <;> simp [JumpTargets.breakable, isLeftBy, isLoop]
  · cases label <;> simp [JumpTargets.breakable, isLeftBy]
  · next hlabelled hswitch =>
    cases label with
    | none =>
      have hleft : isLeftBy none node = isLoop node := by
        unfold isLeftBy
        split <;> simp_all
      rw [hleft]
      cases isLoop node <;> simp [JumpTargets.breakable]
    | some label =>
      have hleft : isLeftBy (some label) node = false := by
        unfold isLeftBy
        split <;> simp_all
      rw [hleft]
      split <;> rfl

theorem inLoop_enter (t : JumpTargets) (node : Node) :
    (t.enter node).inLoop = (isLoop node || t.inLoop) := by
  unfold JumpTargets.enter
  split
  · rfl
  · rfl
  · split <;> simp_all

theorem continuable_enter (t : JumpTargets) (node : Node) (label : String) :
    (t.enter node).continuable (some label) =
      (labelsLoop label node || t.continuable (some label)) := by
  unfold JumpTargets.enter
  split
  · simp [JumpTargets.continuable, labelsLoop, Bool.and_comm]
  · rfl
  · next hlabelled _ =>
    have hnone : labelsLoop label node = false := by
      unfold labelsLoop
      split <;> simp_all
    rw [hnone]
    split <;> rfl

def targets : List Node → JumpTargets
  | [] => {}
  | node :: around => (targets around).enter node

theorem breakable_targets (around : List Node) (label : Option String) :
    (targets around).breakable label = (breakTarget? around label).isSome := by
  rw [breakTarget?, List.isSome_find?]
  induction around with
  | nil => cases label <;> rfl
  | cons node around ih => rw [targets, breakable_enter, ih, List.any_cons]

theorem continuable_targets_none (around : List Node) :
    (targets around).continuable none = (continueTarget? around none).isSome := by
  induction around with
  | nil => rfl
  | cons node around ih =>
    rw [targets, JumpTargets.continuable, inLoop_enter, continueTarget?]
    cases isLoop node with
    | false => exact ih
    | true => rfl

theorem continuable_targets_some (around : List Node) (label : String) :
    (targets around).continuable (some label) = around.any (labelsLoop label) := by
  induction around with
  | nil => rfl
  | cons node around ih => rw [targets, continuable_enter, ih, List.any_cons]

/-- A label right before a loop is one of the loop's, and the loop is around all that the label is
around, but for itself. -/
theorem Open.isSome_continueTarget? (h : Open stmts around node)
    (hlabel : around.any (labelsLoop label)) :
    (isLoop node ∧ label ∈ labelSet around) ∨ (continueTarget? around (some label)).isSome := by
  induction h with
  | top => simp at hlabel
  | @part around node part _ hpart _ ih =>
    rw [List.any_cons, Bool.or_eq_true] at hlabel
    rw [continueTarget?]
    rcases hlabel with hnode | haround
    · unfold labelsLoop at hnode
      split at hnode
      · next span l body =>
        simp only [Bool.and_eq_true, beq_iff_eq] at hnode
        obtain rfl := List.mem_singleton.1 hpart
        exact .inl ⟨hnode.2, by simp [labelSet, hnode.1]⟩
      · cases hnode
    · right
      rcases ih haround with hloop | htarget
      · simp [hloop]
      · split
        · rfl
        · exact htarget

theorem mem_ownHazards_iff (h : Open stmts around node) :
    k ∈ ownHazards (targets around) node ↔
      hazardAt? around node = some k ∨ farContinueAt? around node = some k := by
  unfold ownHazards
  split
  case h_2 span label =>
    simp only [breakable_targets, hazardAt?, farContinueAt?]
    split <;> simp [eq_comm]
  case h_3 span label =>
    cases label with
    | none =>
      simp only [continuable_targets_none, hazardAt?, farContinueAt?]
      split <;> simp [eq_comm]
    | some label =>
      have htarget (hlabel : around.any (labelsLoop label)) :
          (continueTarget? around (some label)).isSome :=
        (h.isSome_continueTarget? hlabel).resolve_left (by simp [isLoop])
      simp only [continuable_targets_some, hazardAt?, farContinueAt?]
      grind
  case h_8 hreturn hbreak hcontinue hvars heach hawait hyield =>
    have hnone : hazardAt? around node = none := by
      unfold hazardAt?
      split <;> grind
    have hnear : farContinueAt? around node = none := by
      unfold farContinueAt?
      split <;> simp_all
    simp [hnone, hnear]
  all_goals
    simp only [hazardAt?, farContinueAt?, List.mem_singleton, Option.some.injEq, reduceCtorEq, or_false]
    exact eq_comm

theorem mem_armHazards_iff :
    k ∈ armHazards stmts ↔
      ∃ around node, Open stmts around node ∧ k ∈ ownHazards (targets around) node := by
  constructor
  · intro hk
    have hunder (around : List Node) (node : Node) (h : isSealed node = false → Open stmts around node)
        (hk : k ∈ hazards (targets around) node) :
        ∃ around node, Open stmts around node ∧ k ∈ ownHazards (targets around) node := by
      induction node using Node.induction_on_parts generalizing around with
      | step node ih =>
        rw [Execution.hazards_eq] at hk
        split at hk
        · cases hk
        · next hopen =>
          have hnode := h (by simpa using hopen)
          rcases List.mem_append.1 hk with hown | hparts
          · exact ⟨around, node, hnode, hown⟩
          · obtain ⟨part, hpart, hk⟩ := List.mem_flatMap.1 hparts
            exact ih part hpart (node :: around) (.part hnode hpart) hk
    obtain ⟨stmt, hstmt, hk⟩ := List.mem_flatMap.1 hk
    exact hunder [] stmt (.top hstmt) hk
  · rintro ⟨around, node, hopen, hk⟩
    have hsub : isSealed node = false ∧ hazards (targets around) node ⊆ armHazards stmts := by
      clear hk
      induction hopen with
      | @top stmt hstmt hsealed =>
        exact ⟨hsealed, fun k hk ↦ List.mem_flatMap.2 ⟨stmt, hstmt, hk⟩⟩
      | part _ hpart hsealed ih =>
        exact ⟨hsealed, fun k hk ↦ ih.2 (Execution.hazards_part_subset ih.1 hpart hk)⟩
    exact hsub.2 (Execution.ownHazards_subset hsub.1 hk)

def sweepAll (parts : List (Nat → Option Nat)) (offset : Nat) : Option Nat :=
  parts.foldlM (fun offset part ↦ part offset) offset

/-- Goes over a node from an offset on and gives the offset behind it. The spans of what can be a
hazard are to lie one after another, and inside one another behind a word of the outer one. -/
def sweep (node : Node) : Nat → Option Nat :=
  node.fold fun node parts offset ↦
    if isSealed node then some offset
    else match riskSpan? node with
      | none => sweepAll parts offset
      | some span =>
        if offset ≤ span.start ∧ (sweepAll parts (span.start + 1)).any (· ≤ span.stop) then
          some span.stop
        else none

/-- The spans of the statements are nested as in a text. -/
def WellNested (stmts : List Stmt) : Prop :=
  (sweepAll (stmts.map sweep) 0).isSome

instance (stmts : List Stmt) : Decidable (WellNested stmts) :=
  inferInstanceAs (Decidable (_ = true))

theorem sweep_of_not_isSealed {offset : Nat} (h : isSealed node = false) : sweep node offset =
    match riskSpan? node with
    | none => sweepAll (node.children.map sweep) offset
    | some span =>
      if offset ≤ span.start ∧ (sweepAll (node.children.map sweep) (span.start + 1)).any (· ≤ span.stop)
      then some span.stop
      else none := by
  unfold sweep
  rw [Node.fold_eq, h]
  rfl

theorem sweep_of_isSealed {offset : Nat} (h : isSealed node) : sweep node offset = some offset := by
  rw [sweep, Node.fold_eq, if_pos h]

/-- Hazards that lie in a range of offsets, in ascending order. -/
structure Ascending (first last : Nat) (hs : List Hazard) : Prop where
  le : first ≤ last
  within : ∀ k ∈ hs, first ≤ k.span.start ∧ k.span.start < last
  sorted : hs.Pairwise (·.span.start < ·.span.start)

namespace Ascending

variable {a b c : Nat} {hs ks : List Hazard}

theorem nil (h : a ≤ b) : Ascending a b [] :=
  ⟨h, by simp, .nil⟩

theorem append (hh : Ascending a b hs) (hk : Ascending b c ks) : Ascending a c (hs ++ ks) where
  le := Nat.le_trans hh.le hk.le
  within k hmem := by
    rcases List.mem_append.1 hmem with h | h
    · exact ⟨(hh.within k h).1, Nat.lt_of_lt_of_le (hh.within k h).2 hk.le⟩
    · exact ⟨Nat.le_trans hh.le (hk.within k h).1, (hk.within k h).2⟩
  sorted := List.pairwise_append.2 ⟨hh.sorted, hk.sorted, fun h hmem k hmem' ↦
    Nat.lt_of_lt_of_le (hh.within h hmem).2 (hk.within k hmem').1⟩

theorem of_append_nil (h : Ascending a b (hs ++ [])) : Ascending a b hs :=
  List.append_nil hs ▸ h

theorem of_sweepAll {f : Node → List Hazard} {nodes : List Node}
    (h : ∀ node ∈ nodes, ∀ {a b}, sweep node a = some b → Ascending a b (f node))
    (hsweep : sweepAll (nodes.map sweep) a = some b) : Ascending a b (nodes.flatMap f) := by
  induction nodes generalizing a with
  | nil =>
    obtain rfl := Option.some.inj hsweep
    exact nil (Nat.le_refl a)
  | cons node nodes ih =>
    obtain ⟨c, hnode, hrest⟩ := Option.bind_eq_some_iff.1 hsweep
    exact (h node List.mem_cons_self hnode).append
      (ih (fun n hn ↦ h n (List.mem_cons_of_mem _ hn)) hrest)

end Ascending

theorem marks_of_riskSpan? {span : Span} (h : riskSpan? node = some span) : marks node = (some span, []) := by
  unfold riskSpan? at h
  split at h
  case h_8 => cases h
  all_goals
    obtain rfl := Option.some.inj h
    rfl

theorem exists_sweepAll {nodes : List Node}
    (hnodes : ∀ node ∈ nodes, ∀ {low high a : Nat}, Ordered low high (places node) → a ≤ low → low ≤ high →
      ∃ b, sweep node a = some b ∧ b ≤ high)
    {low high a : Nat} (h : Ordered low high (places nodes)) (ha : a ≤ low) (hlow : low ≤ high) :
    ∃ b, sweepAll (nodes.map sweep) a = some b ∧ b ≤ high := by
  induction nodes generalizing low a with
  | nil => exact ⟨a, rfl, ha.trans hlow⟩
  | cons node nodes ih =>
    rw [places_cons] at h
    obtain ⟨mid, hmid, hhigh, hfirst, hrest⟩ := h.exists_of_append hlow
    obtain ⟨b, hb, hble⟩ := hnodes node List.mem_cons_self hfirst ha hmid
    obtain ⟨c, hc, hcle⟩ := ih (fun n hn ↦ hnodes n (List.mem_cons_of_mem _ hn)) hrest hble hhigh
    exact ⟨c, Option.bind_eq_some_iff.2 ⟨b, hb, hc⟩, hcle⟩

theorem exists_sweep {low high a : Nat} (h : Ordered low high (places node)) (ha : a ≤ low)
    (hlow : low ≤ high) : ∃ b, sweep node a = some b ∧ b ≤ high := by
  induction node using Node.induction_on_parts generalizing low high a with
  | step node ih =>
    cases hsealed : isSealed node with
    | true => exact ⟨a, sweep_of_isSealed hsealed, ha.trans hlow⟩
    | false =>
      rw [sweep_of_not_isSealed hsealed]
      split
      · obtain ⟨low', high', hle, hparts, hhigh, h⟩ := h.children hlow
        obtain ⟨b, hb, hble⟩ := exists_sweepAll ih h (ha.trans hle) hparts
        exact ⟨b, hb, hble.trans hhigh⟩
      · next span hrisk =>
        rw [places_marked (marks_of_riskSpan? hrisk)] at h
        cases h with
        | cons hstart hspan hinner hstop _ =>
          obtain ⟨b, hb, hble⟩ := exists_sweepAll ih hinner le_rfl hspan
          exact ⟨span.stop, by simp [hb, hble, ha.trans hstart], hstop⟩

theorem wellNested_of_ordered (h : ∃ high, Ordered 0 high (places stmts)) : WellNested stmts := by
  obtain ⟨high, h⟩ := h
  obtain ⟨b, hb, -⟩ := exists_sweepAll (fun _ _ _ _ _ ↦ exists_sweep) h le_rfl (Nat.zero_le _)
  exact Option.isSome_iff_exists.2 ⟨b, hb⟩

/-- Statements that stand one after another in a file are nested as in a text. -/
theorem wellNested_of_parse? {source : String} {jsx : Bool} {parsed : Parsed}
    (h : parse? source jsx = some parsed) {part : Node} (hpart : part ∈ parsed.program.body.flatMap Node.nodes)
    (hstmts : stmts <:+: part.children) : WellNested stmts := by
  obtain ⟨high, hordered⟩ := exists_ordered_children (exists_ordered_of_mem_nodes h hpart)
  obtain ⟨before, after, heq⟩ := hstmts
  rw [← heq, places_append, places_append] at hordered
  exact wellNested_of_ordered (hordered.exists_of_infix ⟨_, _, rfl⟩)

theorem ownHazards_of_riskSpan?_none (t : JumpTargets) (h : riskSpan? node = none) :
    ownHazards t node = [] := by
  unfold riskSpan? at h
  split at h <;> simp_all [ownHazards]

theorem ownHazards_of_riskSpan?_some (t : JumpTargets) {span : Span} (h : riskSpan? node = some span) :
    ownHazards t node = [] ∨ ∃ kind, ownHazards t node = [⟨kind, span⟩] := by
  unfold riskSpan? at h
  split at h
  case h_8 => cases h
  all_goals
    obtain rfl := Option.some.inj h
    simp only [ownHazards]
    grind

theorem ascending_hazards {t : JumpTargets} {a b : Nat} (h : sweep node a = some b) :
    Ascending a b (hazards t node) := by
  induction node using Node.induction_on_parts generalizing t a b with
  | step node ih =>
    rw [Execution.hazards_eq]
    split
    · next hsealed =>
      rw [sweep_of_isSealed hsealed] at h
      exact .nil (Nat.le_of_eq (Option.some.inj h))
    · next hopen =>
      rw [sweep_of_not_isSealed (by simpa using hopen)] at h
      have hparts {a b : Nat} (h : sweepAll (node.children.map sweep) a = some b) :
          Ascending a b (node.children.flatMap (hazards (t.enter node))) :=
        .of_sweepAll (fun part hpart _ _ hsweep ↦ ih part hpart hsweep) h
      split at h
      · next hrisk =>
        rw [ownHazards_of_riskSpan?_none t hrisk]
        exact hparts h
      · next span hrisk =>
        simp only [Option.any_eq_true, decide_eq_true_eq, Option.ite_none_right_eq_some,
          Option.some.injEq] at h
        obtain ⟨⟨hstart, last, hlast, hstop⟩, rfl⟩ := h
        have hown : Ascending a (span.start + 1) (ownHazards t node) := by
          rcases ownHazards_of_riskSpan?_some t hrisk with hown | ⟨kind, hown⟩ <;> rw [hown]
          · exact .nil (by omega)
          · exact ⟨by omega, by simp [hstart], List.pairwise_singleton _ _⟩
        exact ((hown.append (hparts hlast)).append (.nil hstop)).of_append_nil

theorem sorted_armHazards (h : WellNested stmts) :
    (armHazards stmts).Pairwise (·.span.start < ·.span.start) := by
  obtain ⟨last, hlast⟩ := Option.isSome_iff_exists.1 h
  exact (Ascending.of_sweepAll (fun _ _ _ _ ↦ ascending_hazards) hlast).sorted

/-- The hazards of statements are found exactly, and in the order of the text: what returns, declares
or suspends, the jumps to what is not around them, and continues whose label other labels part from
its loop. -/
theorem armHazards_exact (stmts : List Stmt) :
    (∀ k, k ∈ armHazards stmts ↔ ∃ around node, Open stmts around node ∧
      (hazardAt? around node = some k ∨ farContinueAt? around node = some k)) ∧
    (WellNested stmts → (armHazards stmts).Pairwise (·.span.start < ·.span.start)) := by
  refine ⟨fun k ↦ ?_, sorted_armHazards⟩
  rw [mem_armHazards_iff]
  exact exists_congr fun around ↦ exists_congr fun node ↦ and_congr_right mem_ownHazards_iff

/-- `for await (var x of xs) { if (await x) break; } return;` -/
def awaitingLoop : List Stmt :=
  [.forEach ⟨0, 46⟩ .awaited (.vars ⟨11, 16⟩ .hoisted false [.binding ⟨15, 16⟩ "x"])
      (.ref ⟨20, 22⟩ "xs") (.block ⟨24, 46⟩ [.ifStmt ⟨26, 44⟩
        (.form ⟨30, 37⟩ .await [.ref ⟨36, 37⟩ "x"]) (.breakStmt ⟨39, 44⟩ none) none]),
    .returnStmt ⟨47, 54⟩ none]

theorem armHazards_exact_awaitingLoop :
    WellNested awaitingLoop ∧
      (armHazards awaitingLoop).map (·.kind) = [.await, .var, .await, .return] ∧
      (armHazards awaitingLoop).Pairwise (·.span.start < ·.span.start) :=
  have hnested : WellNested awaitingLoop := by decide
  ⟨hnested, by decide, (armHazards_exact awaitingLoop).2 hnested⟩

def farBody : Stmt :=
  .block ⟨15, 30⟩ [.continueStmt ⟨17, 28⟩ (some "a")]

/-- `for (;;) { continue a; }` -/
def farLoop : Stmt :=
  .forStmt ⟨6, 30⟩ none none none farBody

/-- In `a: b: for (;;) { continue a; }` the loop is what the `continue` leads to, and the `continue`
is a hazard all the same. -/
theorem armHazards_twice_labelled :
    WellNested [.labelled ⟨0, 30⟩ "a" (.labelled ⟨3, 30⟩ "b" farLoop)] ∧
      armHazards [.labelled ⟨0, 30⟩ "a" (.labelled ⟨3, 30⟩ "b" farLoop)] =
        [⟨.continue, ⟨17, 28⟩⟩] ∧
      continueTarget? [farBody, farLoop, .labelled ⟨3, 30⟩ "b" farLoop,
        .labelled ⟨0, 30⟩ "a" (.labelled ⟨3, 30⟩ "b" farLoop)] (some "a") = some farLoop :=
  ⟨by decide, by decide, rfl⟩

end Recompose
