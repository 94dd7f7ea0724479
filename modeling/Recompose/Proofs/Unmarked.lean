import Recompose.Proofs.References

namespace Recompose.Weave

open Script Scoping

variable {site : Site} {s s₁ s' : State}

theorem forall₂_mapIdx {α β : Type} {R : β → α → Prop} {f : Nat → α → β} {l : List α}
    (h : ∀ i (hi : i < l.length), R (f i l[i]) l[i]) : List.Forall₂ R (l.mapIdx f) l := by
  refine List.forall₂_iff_get.2 ⟨by simp, fun i h₁ h₂ ↦ ?_⟩
  simpa using h i h₂

structure View where
  /-- Does scoping bind the name to a watched parameter of a memo function around? -/
  seen : String → Prop := fun _ ↦ False
  /-- Has the name lost that meaning to a declaration in code that obscures it? -/
  blurred : String → Prop := fun _ ↦ False

namespace View

def means (v : View) (y : String) : Prop :=
  v.seen y ∨ v.blurred y

/-- What names mean in a part of a node that makes declarations for it. -/
def part (v : View) (n m : Node) (inner : String → List Span) : View where
  seen y := v.seen y ∧ inner y = []
  blurred y := v.blurred y ∨ v.seen y ∧ inner y ≠ [] ∧ ¬(Clear y n ∧ refers y m = true)

def parts (v : View) (n n₁ : Node) : List View :=
  n₁.children.mapIdx fun i m ↦ v.part n m fun y ↦ (values y n₁).getD i []

/-- Does a name mean a watched parameter in the body of a memo function of some mode? -/
def seenInside (site : Site) (v : View) (mode : MemoMode) (f : Func) (y : String) : Prop :=
  bodyScope y f = [] ∧
    if headScope y f = [] then v.seen y else mode = .memo ∧ detects site y f = true

def inside (site : Site) (v : View) (mode : MemoMode) (f : Func) : View where
  seen := v.seenInside site mode f
  blurred y := v.blurred y ∨ (v.seen y ∨ mode = .memo ∧ detects site y f = true) ∧
    ¬v.seenInside site mode f y ∧ ¬(Clear y f ∧ site.options.runtime.IsTame)

end View

def Discerns (v : View) (s : State) : Prop :=
  ∀ y, s.scopes.isWatched y = true → v.means y

theorem Discerns.keeps {v : View} (h : Discerns v s) (hs : Keeps site s s') : Discerns v s' :=
  fun y hy ↦ h y (hs.scopes.isWatched hy)

theorem Discerns.part {v : View} {n m : Node} {inner : String → List Span} (h : Discerns v s)
    (hs : ∀ y, s₁.scopes.isWatched y = true → s.scopes.isWatched y = true)
    (hinner : ∀ y, Clear y n → refers y m = true → s₁.scopes.isWatched y = true → inner y = []) :
    Discerns (v.part n m inner) s₁ := by
  intro y hy
  obtain seen | blurred := h y (hs y hy)
  · by_cases hnil : inner y = []
    · exact .inl ⟨seen, hnil⟩
    · exact .inr (.inr ⟨seen, hnil, fun hplain ↦ hnil (hinner y hplain.1 hplain.2 hy)⟩)
  · exact .inr (.inl blurred)

theorem Discerns.enters {v : View} {n n₁ : Node} {leave : State → State} (h : Discerns v s)
    (henters : Enters site s n n₁ s₁ leave) :
    List.Forall₂ (fun w _ ↦ Discerns w s₁) (v.parts n n₁) n₁.children := by
  refine forall₂_mapIdx fun i hi ↦ h.part (fun y ↦ isWatched_of_entered henters) ?_
  intro y hclear hrefers hy
  obtain ⟨hlength, hget⟩ := List.forall₂_iff_get.1 (isWatched_of_enters henters hclear)
  have hwatched := hget i (hlength ▸ hi) hi hrefers
  rw [hy, eq_comm, Bool.and_eq_true_iff, List.isEmpty_iff] at hwatched
  rw [List.getD_eq_getElem _ _ (hlength ▸ hi)]
  exact hwatched.1

theorem Discerns.call {v : View} (h : Discerns v s) {n : Node} (hn : isCall n = true) :
    List.Forall₂ (fun w _ ↦ Discerns w s) (v.parts n n) n.children := by
  refine forall₂_mapIdx fun i hi ↦ h.part (fun _ ↦ id) fun y _ _ _ ↦ ?_
  have hvalues : List.Forall₂ (fun inner _ ↦ inner = []) (values y n) n.children := values_of_isCall hn
  have hlength : i < (values y n).length := hvalues.length_eq ▸ hi
  rw [List.getD_eq_getElem _ _ hlength]
  exact hvalues.get hlength hi

section

variable {span : Span} {head : FuncHead} {typeParams : List Node} {this : Option Node}
  {params params' : List Param} {result : Option Ty} {body : Node} {y : String}

/-- What is watched in the body of a memo function is one of its parameters or was so before. -/
theorem isWatched_of_openMemo {sig : Signature} {stmts : List Stmt}
    (hparams : sig.parameters = tableOf site (.func span head typeParams this params result body))
    (hreshapes : ReshapesAll site.options.runtime sig.parameters.memoIndices 0 params params')
    (h : (s.openMemo site sig params' stmts).scopes.isWatched y = true) :
    listed site y stmts = none ∧
      ((y ∈ params.flatMap paramNames ∧ sig.mode = .memo ∧
          detects site y (.func span head typeParams this params result body) = true) ∨
        y ∉ params.flatMap paramNames ∧ s.scopes.isWatched y = true) := by
  let f := Node.func span head typeParams this params result body
  have hnames := mem_paramNames_iff (x := y) site.annotations
    (if head.form = .arrow then some span.start else none) 0 0 params
  have hdetects : detects site y f = (!(params.flatMap patternNames).contains y &&
    ((tableOf site f).bindings.reverse.find? (·.name = some y)).any (·.slot.isSome)) := rfl
  rw [Scopes.isWatched_eq, lookup_openMemo, patternNames_reshapesAll hreshapes, hparams] at h
  cases hlisted : listed site y stmts with
  | some b => simp [hlisted, not_isWatched_of_lookup_hoisted hlisted] at h
  | none =>
    refine ⟨rfl, ?_⟩
    by_cases hpattern : y ∈ params.flatMap patternNames
    · simp [hlisted, hpattern, Binding.isWatched] at h
    · cases hfind : (tableOf site f).bindings.reverse.find? (·.name = some y) with
      | some b =>
        have hname : b.name = some y := by simpa using List.find?_some hfind
        have hmem : b ∈ (tableOf site f).bindings :=
          List.mem_reverse.1 (List.mem_of_find?_eq_some hfind)
        change (tableOf site f).bindings.reverse.find? _ = _ at hfind
        rw [hlisted, if_neg hpattern, hfind] at h
        obtain ⟨hmode, hslot⟩ : sig.mode = .memo ∧ b.slot.isSome = true := by
          simpa [Binding.isWatched] using h
        exact .inl ⟨hnames.2 (.inr ⟨b, hmem, hname⟩), hmode,
          hdetects.trans (by simp [hpattern, hfind, hslot])⟩
      | none =>
        rw [hlisted, if_neg hpattern, hfind] at h
        refine .inr ⟨fun hy ↦ ?_, by rw [Scopes.isWatched_eq]; exact h⟩
        obtain hy | ⟨b, hb, hname⟩ := hnames.1 hy
        · exact hpattern hy
        · simpa [hname] using List.find?_eq_none.1 hfind b (List.mem_reverse.2 hb)

theorem Discerns.inside {v : View} (h : Discerns v s) {sig : Signature} {stmts : List Stmt}
    (hparams : sig.parameters = tableOf site (.func span head typeParams this params result body))
    (hreshapes : ReshapesAll site.options.runtime sig.parameters.memoIndices 0 params params')
    (hstmts : ∀ y, Clear y (.func span head typeParams this params result body) →
      site.options.runtime.IsTame → lexicals y stmts = lexicals y (codeStmts body) ∧
        ∀ stmt ∈ stmts, unhoisted y stmt = false) :
    Discerns (v.inside site sig.mode (.func span head typeParams this params result body))
      (s.openMemo site sig params' stmts) := by
  let f := Node.func span head typeParams this params result body
  intro y hy
  obtain ⟨hlisted, hmeant⟩ := isWatched_of_openMemo hparams hreshapes hy
  -- Where nothing obscures the name the body has no declaration of it.
  have hscope (hplain : Clear y f ∧ site.options.runtime.IsTame) : bodyScope y f = [] := by
    obtain ⟨hlist, hhoisted⟩ := hstmts y hplain.1 hplain.2
    have hnone : (listed site y _).isSome = !(lexicals y _).isEmpty := isSome_listed hhoisted
    rw [hlisted, Option.isSome_none, eq_comm, Bool.not_eq_false', List.isEmpty_iff] at hnone
    rw [bodyScope_of_clear hplain.1, ← hlist, hnone]
  by_cases hseen : v.seenInside site sig.mode f y
  · exact .inl hseen
  obtain ⟨hown, hmode, hdetects⟩ | ⟨hforeign, houter⟩ := hmeant
  · refine .inr (.inr ⟨.inr ⟨hmode, hdetects⟩, hseen, fun hplain ↦ hseen ⟨hscope hplain, ?_⟩⟩)
    rw [if_neg fun hnil ↦ (headScope_eq_nil_iff hplain.1).1 hnil hown]
    exact ⟨hmode, hdetects⟩
  · obtain seen | blurred := h y houter
    · refine .inr (.inr ⟨.inl seen, hseen, fun hplain ↦ hseen ⟨hscope hplain, ?_⟩⟩)
      rw [if_pos ((headScope_eq_nil_iff hplain.1).2 hforeign)]
      exact seen
    · exact .inr (.inl blurred)

end

def viewing (site : Site) : Inherited (Role × View) where
  parts a n n₁ := List.zipWith (fun p v ↦ (p.1, v)) (placed site a.1 n n₁) (a.2.parts n n₁)
  argument a := (a.1.asArgument, a.2)
  body a mode f _ := (bodyRole a.1 f, a.2.inside site mode f)
  warrants a mode f := Warranted site mode f a.1

structure Views (site : Site) (a : Role × View) (s : State) (n : Node) : Prop where
  known : Known site s a.1 n
  discerns : a.1 ≠ .foreign → Discerns a.2 s

theorem Views.keeps {a : Role × View} {n : Node} (h : Views site a s n) (hs : Keeps site s s') :
    Views site a s' n :=
  ⟨h.known.keeps hs, fun hrole ↦ (h.discerns hrole).keeps hs⟩

theorem Views.enters {a : Role × View} {n n₁ : Node} {leave : State → State} (h : Views site a s n)
    (henters : Enters site s n n₁ s₁ leave) :
    List.Forall₂ (fun b m ↦ Views site b s₁ m) ((viewing site).parts a n n₁) n₁.children := by
  have hparts : List.Forall₂ (fun w _ ↦ a.1 ≠ .foreign → Discerns w s₁) (a.2.parts n n₁)
      n₁.children := by
    by_cases hrole : a.1 = .foreign
    · exact forall₂_mapIdx fun _ _ hne ↦ absurd hrole hne
    · exact ((h.discerns hrole).enters henters).imp fun _ _ hw _ ↦ hw
  refine forall₂_zipWith_placed hparts fun p hp _ w _ hw ↦ ?_
  exact ⟨h.known.enters henters hp, fun hrole ↦ hw (ne_foreign_of_mem_placed hp hrole)⟩

theorem Views.call {a : Role × View} {n : Node} (h : Views site a s n) (hn : isCall n = true) :
    List.Forall₂ (fun b m ↦ Views site b s m) ((viewing site).parts a n n) n.children := by
  have hparts : List.Forall₂ (fun w _ ↦ a.1 ≠ .foreign → Discerns w s) (a.2.parts n n) n.children := by
    by_cases hrole : a.1 = .foreign
    · exact forall₂_mapIdx fun _ _ hne ↦ absurd hrole hne
    · exact ((h.discerns hrole).call hn).imp fun _ _ hw _ ↦ hw
  refine forall₂_zipWith_placed hparts fun p hp _ w _ hw ↦ ?_
  exact ⟨h.known.part hp, fun hrole ↦ hw (ne_foreign_of_mem_placed hp hrole)⟩

theorem opens_viewing {a : Role × View} {sig : Signature} {span : Span} {head : FuncHead}
    {typeParams : List Node} {this : Option Node} {params params' : List Param} {result : Option Ty}
    {body : Node} (h : Views site a s (.func span head typeParams this params result body))
    (hparams : a.1 ≠ .foreign →
      sig.parameters = tableOf site (.func span head typeParams this params result body))
    (hreshapes : ReshapesAll site.options.runtime sig.parameters.memoIndices 0 params params') :
    Opens site (viewing site) (Views site) a s sig
      (.func span head typeParams this params result body) params' body where
  bare _ m hm := by
    refine ⟨h.known.of_bodyPart rfl hm, fun hrole ↦ ?_⟩
    have hrole := ne_foreign_of_bodyRole hrole
    refine (h.discerns hrole).inside (hparams hrole) hreshapes fun y hclear _ ↦ ⟨rfl, ?_⟩
    exact unhoisted_codeStmts (hclear.part (by simp [Node.children]))
  wrapped memo inner directives stmts enclosed count hparts hencloses m hm := by
    have hencloses := enclosures_of_encloses hencloses
    refine ⟨h.known.of_enclosed rfl hparts hencloses hm, fun hbodyRole ↦ ?_⟩
    have hrole := ne_foreign_of_bodyRole hbodyRole
    have hinside : Discerns _ (s.openMemo site sig params' enclosed) :=
      (h.discerns hrole).inside (hparams hrole) hreshapes fun y hclear htame ↦
        ⟨(Condition.lexicals_enclosures htame hencloses).trans (lexicals_codeStmts hparts hbodyRole),
          fun stmt hstmt ↦ (clear_enclosed htame hclear hparts hencloses stmt hstmt).1⟩
    rw [memo] at hinside
    exact hinside

theorem inherits_viewing (hnone : site.graph.nodeAt? .none = none) :
    Inherits site (viewing site) (Views site) (Keeps site) where
  kept h hs := h.keeps hs
  enters h henters := h.enters henters
  call h hn := h.call hn
  function h _ hsigned reshapes := opens_viewing (h.keeps (keeps_of_signs hsigned).1)
    (fun hrole ↦ h.known.parameters_eq hnone hrole hsigned) reshapes
  signed h hsigned := h.known.warranted hsigned
  builder _ := warranted_asArgument site _ _
  argument h reshapes := opens_viewing
    ⟨h.known.asArgument, fun hrole ↦ h.discerns (ne_foreign_of_asArgument hrole)⟩ (fun _ ↦ rfl) reshapes

inductive ReadsParent (names : RuntimeNames) (v : View) : Node → Node → Prop
  | kept {n : Node} : ReadsParent names v n n
  | read {span : Span} {name : String} {path : List String} {args : List Ty} (means : v.means name) :
      ReadsParent names v (.typeRef span (name :: path) args)
        (.typeRef span (names.parameter name :: names.value :: path) args)

/-- What a node is made to be before the references in it are read: a property is written out. -/
inductive SpellsOut (names : RuntimeNames) (v : View) : Node → Node → Prop
  | kept {n : Node} : SpellsOut names v n n
  | pair {span : Span} {key value : Node} {name : String} (refers : referenceName? value = some name)
      (means : v.means name) :
      SpellsOut names v (.pair span key value true) (.pair span key value false)
  | fieldPattern {span : Span} {key value : Node} {name : String}
      (refers : referenceName? value = some name) (means : v.means name) :
      SpellsOut names v (.fieldPattern span key value true) (.fieldPattern span key value false)
  | interfaceDecl {span : Span} {declared : Bool} {name : String}
      {typeParams parents parents' members : List Node}
      (reads : List.Forall₂ (ReadsParent names v) parents parents') :
      SpellsOut names v (.interfaceDecl span declared name typeParams parents members)
        (.interfaceDecl span declared name typeParams parents' members)

/-- Nothing changes but references to what is in view. -/
inductive ReadsOnly (names : RuntimeNames) : View → Node → Node → Prop
  | read {v : View} {span : Span} {name : String} (means : v.means name) :
      ReadsOnly names v (.ref span name) (Glue.parameterValue names name)
  | within {v : View} {n n₁ n' : Node} (spells : SpellsOut names v n n₁)
      (skeleton : n'.skeleton = n₁.skeleton)
      (parts : Align (ReadsOnly names) (v.parts n n₁) n₁.children n'.children) : ReadsOnly names v n n'

theorem View.not_means_part {v : View} {n m : Node} {inner : String → List Span}
    (h : ∀ y, ¬v.means y) (y : String) : ¬(v.part n m inner).means y := by
  rintro (seen | blurred | ⟨seen, -⟩)
  · exact h y (.inl seen.1)
  · exact h y (.inr blurred)
  · exact h y (.inl seen)

theorem ReadsOnly.eq_self {names : RuntimeNames} {v : View} {n n' : Node} (hv : ∀ y, ¬v.means y)
    (h : ReadsOnly names v n n') : n' = n := by
  induction n using Node.induction_on_parts generalizing v n' with
  | step n ih =>
    cases h with
    | read means => exact absurd means (hv _)
    | @within _ _ n₁ _ spells skeleton parts =>
      have hspells : n₁ = n := by
        cases spells with
        | kept => rfl
        | pair refers means => exact absurd means (hv _)
        | fieldPattern refers means => exact absurd means (hv _)
        | interfaceDecl reads =>
          refine congrArg (Node.interfaceDecl _ _ _ _ · _) ?_
          rw [← List.forall₂_eq_eq_eq]
          refine reads.flip.imp fun parent parent' hparent ↦ ?_
          cases hparent with
          | kept => rfl
          | read means => exact absurd means (hv _)
      subst hspells
      refine Node.eq_of_skeleton_eq skeleton ?_
      have hparts : ∀ w ∈ v.parts n₁ n₁, ∀ y, ¬w.means y := by
        intro w hw
        obtain ⟨i, hi, rfl⟩ := List.mem_mapIdx.1 hw
        exact View.not_means_part hv
      have hchildren {vs : List View} {ns ns' : List Node} (parts : Align (ReadsOnly names) vs ns ns')
          (hvs : ∀ w ∈ vs, ∀ y, ¬w.means y) (hns : ∀ m ∈ ns, m ∈ n₁.children) : ns' = ns := by
        induction parts with
        | nil => rfl
        | cons head _ ih' =>
          rw [ih _ (hns _ List.mem_cons_self) (hvs _ List.mem_cons_self) head,
            ih' (fun w hw ↦ hvs w (List.mem_cons_of_mem _ hw))
              fun m hm ↦ hns m (List.mem_cons_of_mem _ hm)]
      exact hchildren parts hparts fun _ ↦ id

/-- The walk knows nothing of the functions in a node, and they are not marked. -/
structure Quiet (site : Site) (v : View) (s : State) (n : Node) : Prop where
  unmarked : isUnmarked site n = true
  unknown : ∀ span ∈ functionSpans n, site.graph.nodeAt? span = none ∧ span ∉ s.pending
  discerns : Discerns v s

namespace Quiet

variable {v : View}

theorem keeps {n : Node} (h : Quiet site v s n) (hs : Keeps site s s') : Quiet site v s' n :=
  ⟨h.unmarked, fun span hspan ↦ ⟨(h.unknown span hspan).1, fun hp ↦
    (h.unknown span hspan).2 (hs.pending span hp (h.unknown span hspan).1)⟩, h.discerns.keeps hs⟩

theorem isMarked_eq {n : Node} (h : Quiet site v s n) : isMarked site n = false :=
  (isUnmarked_iff.1 h.unmarked).1

theorem not_signed {span : Span} {head : FuncHead} {typeParams : List Node}
    {this : Option Node} {params : List Param} {result : Option Ty} {body : Node} {sig : Signature}
    (h : Quiet site v s (.func span head typeParams this params result body)) :
    ¬Signs site s span head.form params (some sig) s' := by
  obtain ⟨hd, hp⟩ := h.unknown span mem_functionSpans_self
  have hmarked : (site.annotations.markers span.start).isMemoLike = false := h.isMarked_eq
  simp only [Markers.isMemoLike, Bool.or_eq_false_iff] at hmarked
  intro hsigned
  cases hsigned with
  | declared found => simp [hd] at found
  | closure absent marked named => simp [modeAt?, MemoMode.ofMarkers?, hmarked, hp] at marked

theorem spellsOut {n n₁ : Node} {leave : State → State} (h : Quiet site v s n)
    (henters : Enters site s n n₁ s₁ leave) : SpellsOut site.options.runtime v n n₁ := by
  have hmarked := h.isMarked_eq
  have hthreads {m : Markers} (hm : m.isMemoLike = false) : threadsCallers m = false := by
    simp [threadsCallers, hm]
  have hrefers {value : Node} (hv : isWatchedReference s.scopes value = true) :
      ∃ name, referenceName? value = some name ∧ v.means name := by
    rw [isWatchedReference_eq] at hv
    cases hname : referenceName? value with
    | none => simp [hname] at hv
    | some name => exact ⟨name, rfl, h.discerns name (by simpa [hname] using hv)⟩
  have hannotates {m : Markers} (hm : m.isMemoLike = false) {type type' : Option Ty}
      (ha : Annotates site.options.runtime (threadsCallers m) type type') : type' = type := by
    cases ha with
    | kept => rfl
    | threaded called retypes => simp [hthreads hm] at called
  cases henters with
  | method plain notes =>
    rw [withoutMarkers_eq_self (Bool.or_eq_false_iff.1 hmarked).2]
    exact .kept
  | memoMethod memo notes =>
    rw [withoutMarkers_eq_self (Bool.or_eq_false_iff.1 hmarked).2]
    exact .kept
  | field annotates notes =>
    obtain ⟨hcomment, hdecorators⟩ := Bool.or_eq_false_iff.1 hmarked
    rw [withoutMarkers_eq_self hdecorators,
      hannotates ((memberMarkers_of_hasMarker hdecorators).trans hcomment) annotates]
    exact .kept
  | param notes =>
    rw [withoutMarkers_eq_self hmarked]
    exact .kept
  | @pair span key value =>
    cases hv : isWatchedReference s.scopes value with
    | false => exact .kept
    | true =>
      obtain ⟨name, hname, hmeans⟩ := hrefers hv
      exact .pair hname hmeans
  | @fieldPattern span key value =>
    cases hv : isWatchedReference s.scopes value with
    | false => exact .kept
    | true =>
      obtain ⟨name, hname, hmeans⟩ := hrefers hv
      exact .fieldPattern hname hmeans
  | @vars span kind declared items items' noted awaiting _ redeclares notes awaits binds =>
    have hitems : items = items' := by
      rw [← List.forall₂_eq_eq_eq]
      refine redeclares.imp fun item item' hitem ↦ ?_
      cases hitem with
      | kept => rfl
      | annotated annotates => rw [hannotates hmarked annotates]
    rw [hitems]
    exact .kept
  | interfaceDecl extended notes =>
    refine .interfaceDecl (extended.imp fun parent parent' hparent ↦ ?_)
    cases hparent with
    | kept => exact .kept
    | read hwatched => exact .read (h.discerns _ hwatched)
  | _ => exact .kept

end Quiet

theorem isUnmarked_of_spellsOut {names : RuntimeNames} {v : View} {n n₁ : Node}
    (h : SpellsOut names v n n₁) (hn : isUnmarked site n = true) :
    (∀ m ∈ n₁.children, isUnmarked site m = true) ∧
      n₁.children.flatMap functionSpans = n.children.flatMap functionSpans := by
  obtain ⟨-, hparts⟩ := isUnmarked_iff.1 hn
  cases h with
  | kept => exact ⟨hparts, rfl⟩
  | pair refers means => exact ⟨hparts, rfl⟩
  | fieldPattern refers means => exact ⟨hparts, rfl⟩
  | @interfaceDecl span declared name typeParams parents parents' members reads =>
    have hparents : (∀ m ∈ parents, isUnmarked site m = true) →
        (∀ m ∈ parents', isUnmarked site m = true) ∧
          parents'.flatMap functionSpans = parents.flatMap functionSpans := by
      clear hparts hn
      induction reads with
      | nil => exact fun h ↦ ⟨h, rfl⟩
      | cons head _ ih =>
        intro h
        obtain ⟨hrest, hspans⟩ := ih fun m hm ↦ h m (List.mem_cons_of_mem _ hm)
        rw [List.flatMap_cons, List.flatMap_cons, hspans]
        cases head with
        | kept => exact ⟨List.forall_mem_cons.2 ⟨h _ List.mem_cons_self, hrest⟩, rfl⟩
        | read means =>
          refine ⟨List.forall_mem_cons.2 ⟨?_, hrest⟩, ?_⟩
          · exact isUnmarked_iff.2 ⟨rfl, (isUnmarked_iff.1 (h _ List.mem_cons_self)).2⟩
          · rw [functionSpans_eq, functionSpans_eq]
            rfl
    simp only [Node.children, List.mem_append] at hparts ⊢
    obtain ⟨hread, hspans⟩ := hparents fun m hm ↦ hparts m (.inl (.inr hm))
    refine ⟨fun m hm ↦ ?_, by simp only [List.flatMap_append, hspans]⟩
    obtain (hm | hm) | hm := hm
    · exact hparts m (.inl (.inl hm))
    · exact hread m hm
    · exact hparts m (.inr hm)

theorem threading_of_enters {n n₁ : Node} {leave : State → State}
    (h : Enters site s n n₁ s₁ leave) (hs : s.threading = false ∨ isFunction n = true) :
    s₁.threading = false := by
  obtain ⟨hn, hframes, -⟩ | ⟨frame, hframe, hframes, -⟩ := frames_of_enters h
  · rw [State.threading, hframes]
    exact hs.resolve_right (by simp [isFunction_eq_false hn])
  · rw [State.threading, hframes]
    rcases frame with ⟨counter, _ | _⟩ | _
    · rfl
    · exact absurd rfl (hframe.not_threading counter)
    · rfl

theorem pending_of_enters {n n₁ : Node} {leave : State → State} (h : Enters site s n n₁ s₁ leave)
    (hmarked : isMarked site n = false) {span : Span} (hpending : span ∈ s₁.pending) :
    span ∈ s.pending := by
  have hnotes {p : Prop} {s₁ : State} (hn : Notes p s s₁) : s₁.pending = s.pending := by
    obtain ⟨-, rfl⟩ | rfl := hn <;> rfl
  cases h with
  | function form plain =>
    cases plain with
    | unmarked absent plain => exact List.mem_of_mem_filter hpending
    | nameless absent marked unnamed => exact List.mem_of_mem_filter hpending
  | method plain notes => exact hnotes notes ▸ hpending
  | memoMethod memo notes =>
    obtain ⟨hcomment, hdecorators⟩ := Bool.or_eq_false_iff.1 hmarked
    simp [memberMarkers_of_hasMarker hdecorators, hcomment] at memo
  | field annotates notes => exact hnotes notes ▸ hpending
  | param notes => exact hnotes notes ▸ hpending
  | @vars start kind declared items items' noted awaiting _ redeclares notes awaits binds =>
    have hplain : (site.annotations.markers start.start).isMemoLike = false := hmarked
    have hbound : s₁.pending = noted.pending := by
      rw [binds, awaits, hplain]
      split <;> rfl
    exact hnotes notes ▸ hbound ▸ hpending
  | interfaceDecl extended notes => exact hnotes notes ▸ hpending
  | _ => exact hpending

theorem Quiet.enters {v : View} {n n₁ : Node} {leave : State → State} (h : Quiet site v s n)
    (henters : Enters site s n n₁ s₁ leave) :
    List.Forall₂ (fun w m ↦ Quiet site w s₁ m) (v.parts n n₁) n₁.children := by
  obtain ⟨hparts, hspans⟩ := isUnmarked_of_spellsOut (h.spellsOut henters) h.unmarked
  have hunknown (m : Node) (hm : m ∈ n₁.children) (span : Span) (hspan : span ∈ functionSpans m) :
      site.graph.nodeAt? span = none ∧ span ∉ s₁.pending := by
    have hmem : span ∈ functionSpans n := by
      rw [functionSpans_eq, ← hspans]
      exact List.mem_append_right _ (List.mem_flatMap.2 ⟨m, hm, hspan⟩)
    obtain ⟨hd, hp⟩ := h.unknown span hmem
    exact ⟨hd, fun hpending ↦ hp (pending_of_enters henters h.isMarked_eq hpending)⟩
  have hviews : List.Forall₂ (fun m w ↦ m ∈ n₁.children ∧ Discerns w s₁) n₁.children (v.parts n n₁) :=
    (List.forall₂_and_left _ _).2 ⟨fun _ hm ↦ hm, (h.discerns.enters henters).flip⟩
  exact (hviews.imp fun m w hw ↦ ⟨hparts m hw.1, hunknown m hw.1, hw.2⟩).flip

theorem readsOnly_of_threads {W : Walked}
    (hW : ∀ s v n n' s', W s n n' s' → Keeps site s s' ∧ (s.threading = false →
      Quiet site v s n → ReadsOnly site.options.runtime v n n'))
    {vs : List View} {ns ns' : List Node} (h : Threads W s ns ns' s') (hs : s.threading = false)
    (hns : List.Forall₂ (fun v n ↦ Quiet site v s n) vs ns) :
    Align (ReadsOnly site.options.runtime) vs ns ns' := by
  induction h generalizing vs with
  | nil =>
    cases hns
    exact .nil
  | cons head tail ih =>
    cases hns with
    | @cons v _ vs _ hfirst hrest =>
      obtain ⟨hkeeps, hhead⟩ := hW _ v _ _ _ head
      refine .cons (hhead hs hfirst) (ih (hkeeps.threading_eq.trans hs) ?_)
      exact hrest.imp fun _ _ hn ↦ hn.keeps hkeeps

theorem readsOnly_of_step {W : Walked}
    (hW : ∀ s v n n' s', W s n n' s' → Keeps site s s' ∧ (s.threading = false →
      Quiet site v s n → ReadsOnly site.options.runtime v n n'))
    {v : View} {n n' : Node} (h : Step site W s n n' s') (hs : s.threading = false ∨ isFunction n = true)
    (hn : Quiet site v s n) : ReadsOnly site.options.runtime v n n' := by
  cases h with
  | read hwatched => exact .read (hn.discerns _ hwatched)
  | thread resolves inside callees arguments identifies =>
    simp [State.threading, inside, isFunction] at hs
  | memo form signed memoises => exact absurd signed hn.not_signed
  | within enters parts =>
    exact .within (hn.spellsOut enters) parts.skeleton
      (readsOnly_of_threads hW parts.children (threading_of_enters enters hs) (hn.enters enters))

theorem Walks.readsOnly {v : View} {n n' : Node} (h : Walks site s n n' s')
    (hs : s.threading = false) (hn : Quiet site v s n) : ReadsOnly site.options.runtime v n n' := by
  revert v
  refine h.induct (R := fun s n n' _ ↦ s.threading = false → ∀ {v}, Quiet site v s n →
    ReadsOnly site.options.runtime v n n') (fun hstep hs _ hn ↦ ?_) hs
  exact readsOnly_of_step (fun _ _ _ _ _ hw ↦ ⟨hw.1.keeps, fun hs ↦ hw.2 hs⟩) hstep (.inl hs) hn

theorem quiet_of_known {v : View} {n : Node} (h : Known site s .free n)
    (hspans : Span.none ∉ functionSpans n) (hn : isUnmarked site n = true) (hs : Discerns v s) :
    Quiet site v s n := by
  refine ⟨hn, fun span hspan ↦ ?_, hs⟩
  obtain ⟨f, hf, rfl, hmarked⟩ := mem_census_of_unmarked hn hspans hspan
  have hd : site.graph.nodeAt? f.span = none := by
    refine Option.eq_none_iff_forall_ne_some.2 fun d hd ↦ ?_
    have hown := (h.declared _ hf d hd).free rfl
    simp only [Markers.isMemoLike, Bool.or_eq_false_iff] at hmarked
    simp [ownMode?, MemoMode.ofMarkers?, hmarked] at hown
  exact ⟨hd, fun hp ↦ h.awaited _ hf hd hp rfl⟩

/-- Of an ordinary function of the file in which nothing is marked only references change. -/
def SparesFunction (site : Site) (a : Role × View) (n n' : Node) : Prop :=
  a.1 = .free → isFunction n = true → n.span ≠ .none → isUnmarked site n = true →
    ReadsOnly site.options.runtime a.2 n n'

theorem sparesFunction_of_step {a : Role × View} {n n' : Node} (h : Views site a s n)
    (hstep : Step site (Walks site) s n n' s') : SparesFunction site a n n' := by
  intro hrole hfunction hspan hunmarked
  have hspans : Span.none ∉ functionSpans n := by
    cases n
    case func span head typeParams this params result body =>
      exact h.known.whole _ (mem_census_self (by simp [hrole]) hspan)
    all_goals simp [isFunction] at hfunction
  have hquiet : Quiet site a.2 s n :=
    quiet_of_known (hrole ▸ h.known) hspans hunmarked (h.discerns (by simp [hrole]))
  exact readsOnly_of_step (fun _ _ _ _ _ hw ↦ ⟨hw.keeps, hw.readsOnly⟩) hstep (.inr hfunction) hquiet

structure Outside (site : Site) (s : State) (stmt : Stmt) : Prop where
  views : Views site (.free, {}) s stmt
  threading : s.threading = false
  spans : Span.none ∉ functionSpans stmt

theorem Outside.keeps {stmt : Stmt} (h : Outside site s stmt) (hs : Keeps site s s') :
    Outside site s' stmt :=
  ⟨h.views.keeps hs, hs.threading_eq.trans h.threading, h.spans⟩

/-- Code without markers is spared: of a file with nothing wrong a statement in which nothing is
marked stays as it is, whatever the options name and the rest of the file declares, and of an ordinary
function in which nothing is marked, wherever it stands, nothing changes but references that mean a
watched parameter of a memo function around it, or have meant one up to a declaration in code that
obscures the name. -/
theorem walkAll_spares_unmarked {source : String} {jsx : Bool} {o : Options} {parsed : Parsed}
    {depth : Nat} {stmts' : List Stmt} (hparsed : parse? source jsx = some parsed)
    (h : walkAll (siteOf source o parsed) depth parsed.program.body = some (stmts', s))
    (hclean : walkErrors o.filePath s = []) :
    List.Forall₂ (fun stmt stmt' ↦
        (isUnmarked (siteOf source o parsed) stmt = true → stmt' = stmt) ∧
          Throughout (siteOf source o parsed) (viewing (siteOf source o parsed))
            (SparesFunction (siteOf source o parsed)) (.free, {}) stmt stmt')
      parsed.program.body stmts' := by
  let site := siteOf source o parsed
  have apart := toldApart_of_parse? hparsed
  have hG : Inherits site (viewing site) (Views site) (Keeps site) :=
    inherits_viewing (nodeAt?_none_of_toldApart source o parsed apart)
  have hbody : ∀ stmt ∈ parsed.program.body, Outside site (initial o.filePath) stmt := by
    intro stmt hstmt
    refine ⟨⟨known_of_toldApart source o parsed apart hstmt, fun _ y hy ↦ ?_⟩, rfl, fun hspan ↦ ?_⟩
    · simp [Scopes.isWatched, Scopes.lookup, initial] at hy
    · exact (List.nodup_cons.1 apart).1
        (List.mem_append_left _ (List.mem_flatMap.2 ⟨stmt, hstmt, hspan⟩))
  have hthreads : Threads (Walks site) (initial o.filePath) parsed.program.body stmts' s :=
    threads_walks_of_walkAll h (walkErrors_eq_nil.1 hclean)
  clear h hparsed apart
  generalize initial o.filePath = first, parsed.program.body = stmts at hthreads hbody
  induction hthreads with
  | nil => exact .nil
  | cons head tail ih =>
    obtain ⟨hviews, hthreading, hspans⟩ := hbody _ List.mem_cons_self
    refine .cons ⟨fun hunmarked ↦ ?_, ?_⟩ (ih hclean fun stmt hstmt ↦
      (hbody stmt (List.mem_cons_of_mem _ hstmt)).keeps head.keeps)
    · have hquiet := quiet_of_known hviews.known hspans hunmarked (hviews.discerns (by simp))
      exact (head.readsOnly hthreading hquiet).eq_self fun y ↦ by simp [View.means]
    · refine throughout_of_walks lasts_keeps hG sparesFunction_of_step ?_ head hviews
      intro a s arg arg' s' name index plan _ _ _ hrole
      simp only [viewing, Role.asArgument] at hrole
      split at hrole <;> simp at hrole

theorem walkAll_spares_unmarked_sparedSource : ∃ parsed stmts' s,
    parse? sparedSource false = some parsed ∧
      walkAll (siteOf sparedSource shortOptions parsed) 12 parsed.program.body = some (stmts', s) ∧
      walkErrors "input.ts" s = [] ∧
      parsed.program.body.map (isUnmarked (siteOf sparedSource shortOptions parsed)) = [false, true] ∧
      List.Forall₂ (fun stmt stmt' ↦
          (isUnmarked (siteOf sparedSource shortOptions parsed) stmt = true → stmt' = stmt) ∧
            Throughout (siteOf sparedSource shortOptions parsed)
              (viewing (siteOf sparedSource shortOptions parsed))
              (SparesFunction (siteOf sparedSource shortOptions parsed)) (.free, {}) stmt stmt')
        parsed.program.body stmts' := by
  obtain ⟨parsed, stmts', s, hparsed, h, hclean, hview⟩ := exists_of_wovenView wovenView_sparedSource
  obtain ⟨-, hrest⟩ := Prod.mk.inj hview
  exact ⟨parsed, stmts', s, hparsed, h, hclean, (Prod.mk.inj hrest).1,
    walkAll_spares_unmarked hparsed h hclean⟩

/-- In a closure without markers a reference to a variable of the closure itself is read. -/
theorem walkAll_reads_own_variable : ∃ parsed stmts' s, parse? hoistingSource false = some parsed ∧
    walkAll (siteOf hoistingSource shortOptions parsed) 16 parsed.program.body = some (stmts', s) ∧
      walkErrors "input.ts" s = [] ∧
      (arrows parsed.program.body).map (isUnmarked (siteOf hoistingSource shortOptions parsed)) =
        [true] ∧
      (arrows parsed.program.body).map (bodyScope "x") = [[⟨56, 61⟩]] ∧
      (arrows stmts').map (refers (shortNames.parameter "x")) = [true] := by
  obtain ⟨parsed, stmts', s, hparsed, h, hclean, hview⟩ := exists_of_wovenView wovenView_hoistingSource
  obtain ⟨hunmarked, hscopes⟩ := Prod.mk.inj hview
  exact ⟨parsed, stmts', s, hparsed, h, hclean, hunmarked, Prod.mk.inj hscopes⟩

end Recompose.Weave
