import Recompose.Proofs.Weave.Known

namespace Recompose.Weave

open Script

variable {site : Site} {s s' : State} {role : Role}

theorem byteWidth_le_of_suffix {cs ds : List Char} (h : cs <:+ ds) :
    Text.byteWidth cs ≤ Text.byteWidth ds := by
  obtain ⟨before, rfl⟩ := h
  rw [byteWidth_append]
  omega

theorem byteWidth_of_dropBytes? {n : Nat} {cs rest : List Char}
    (h : Text.dropBytes? n cs = some rest) : Text.byteWidth cs = n + Text.byteWidth rest := by
  fun_induction Text.dropBytes? n cs with
  | case1 cs =>
    obtain rfl := Option.some.inj h
    omega
  | case2 => simp at h
  | case3 n c cs hc ih =>
    have hrest := ih h
    simp only [Text.byteWidth]
    omega
  | case4 => simp at h

theorem suffix_of_afterWord? {word : String} {text rest : List Char}
    (h : Annotations.afterWord? word text = some rest) : rest <:+ text := by
  unfold Annotations.afterWord? at h
  split at h
  · next c blanks rest' hspan =>
    split at h
    · obtain rfl := Option.some.inj h
      rw [List.span_eq_takeWhile_dropWhile, Prod.mk.injEq] at hspan
      rw [← hspan.2]
      exact (List.dropWhile_suffix _).trans (List.drop_suffix _ _)
    · simp at h
  · simp at h

theorem suffix_of_afterExport? {text rest : List Char}
    (h : Annotations.afterExport? text = some rest) : rest <:+ text := by
  obtain ⟨rest', hrest', rfl⟩ := Option.map_eq_some_iff.1 h
  have hsuffix := suffix_of_afterWord? hrest'
  cases hdefault : Annotations.afterWord? "default" rest' with
  | none => exact hsuffix
  | some rest => exact (suffix_of_afterWord? hdefault).trans hsuffix

/-- A comment marks what stands behind it, which is not the start of the file. -/
theorem pos_of_mem_ofComment {text : List Char} {comment : Comment} {entry : Nat × Markers}
    (h : entry ∈ Annotations.ofComment text comment) : 0 < entry.1 := by
  unfold Annotations.ofComment at h
  split at h
  · next body after hbody hafter =>
    dsimp only at h
    split at h
    · simp at h
    · next hmarkers =>
      obtain ⟨offset, hoffset, rfl⟩ := List.mem_map.1 h
      have hwidth := byteWidth_of_dropBytes? hafter
      have hstop : 0 < comment.span.stop := by
        refine Nat.pos_of_ne_zero fun hstop ↦ hmarkers ?_
        rw [hstop, Text.sliceBytes?] at hbody
        split at hbody
        · next hstart =>
          rw [Nat.le_zero.1 hstart] at hbody
          obtain rfl : [] = body := by simpa [Text.dropBytes?, Text.takeBytes?] using hbody
          rfl
        · simp at hbody
      have hbehind {rest : List Char} (hrest : rest <:+ after) :
          0 < Text.byteWidth text - Text.byteWidth rest := by
        have := byteWidth_le_of_suffix hrest
        omega
      have htrim : Text.trimStart after <:+ after := List.dropWhile_suffix _
      simp only [Annotations.targets, List.mem_cons, Option.mem_toList, Option.map_eq_some_iff]
        at hoffset
      rcases hoffset with rfl | ⟨rest, hrest, rfl⟩
      · exact hbehind htrim
      · exact hbehind ((suffix_of_afterExport? hrest).trans htrim)
  · simp at h

theorem markers_zero (source : String) (comments : List Comment) :
    (Annotations.ofComments source comments).markers 0 = {} := by
  have hnone : (Annotations.ofComments source comments).entries.filter (·.1 == 0) = [] := by
    refine List.filter_eq_nil_iff.2 fun entry hentry hzero ↦ ?_
    obtain ⟨comment, -, hcomment⟩ := List.mem_flatMap.1 hentry
    have := pos_of_mem_ofComment hcomment
    simp at hzero
    omega
  rw [Annotations.markers, hnone]
  rfl

def hasMarker (decorators : List Expr) : Bool :=
  decorators.any fun d ↦ (Markers.ofDecorator? d).isSome

/-- Is a function, a variable, a member or a parameter marked? -/
def isMarked (site : Site) : Node → Bool
  | .func span _ _ _ _ _ _ => (site.annotations.markers span.start).isMemoLike
  | .vars span _ _ _ => (site.annotations.markers span.start).isMemoLike
  | .method span _ _ decorators _ _ =>
    (site.annotations.markers span.start).isMemoLike || hasMarker decorators
  | .field span _ _ decorators _ _ _ =>
    (site.annotations.markers span.start).isMemoLike || hasMarker decorators
  | .param _ _ _ decorators _ _ _ => hasMarker decorators
  | _ => false

def isUnmarked (site : Site) (n : Node) : Bool :=
  n.fold fun n parts ↦ !isMarked site n && parts.all id

theorem isUnmarked_iff {n : Node} : isUnmarked site n = true ↔
    isMarked site n = false ∧ ∀ m ∈ n.children, isUnmarked site m = true := by
  unfold isUnmarked
  rw [Node.fold_eq]
  simp

theorem withoutMarkers_eq_self {decorators : List Expr} (h : hasMarker decorators = false) :
    withoutMarkers decorators = decorators := by
  refine List.filter_eq_self.2 fun d hd ↦ ?_
  simpa using List.any_eq_false.1 h d hd

theorem memberMarkers_of_hasMarker {span : Span} {decorators : List Expr}
    (h : hasMarker decorators = false) :
    (memberMarkers site span decorators).isMemoLike =
      (site.annotations.markers span.start).isMemoLike := by
  have hnone : decorators.filterMap Markers.ofDecorator? = [] :=
    List.filterMap_eq_nil_iff.2 fun d hd ↦ by simpa using List.any_eq_false.1 h d hd
  simp [memberMarkers, Markers.ofDecorators, hnone, Markers.mergeAll, Markers.merge,
    Markers.isMemoLike]

theorem ofMarkers_eq_free {m : Markers} (h : m.isMemoLike = false) : Role.ofMarkers m = .free := by
  simp only [Markers.isMemoLike, Bool.or_eq_false_iff] at h
  simp [Role.ofMarkers, MemoMode.ofMarkers?, h]

theorem placed_of_unmarked {n : Node} (hmarked : isMarked site n = false)
    (hspans : Span.none ∉ functionSpans n) : placed site .free n n = n.children.map (.free, ·) := by
  unfold placed
  dsimp only
  rw [if_neg (by simp)]
  split
  · next span how callee types arg args =>
    have harg : isGenerated arg = false := by
      have hspans (hnone : Span.none ∈ functionSpans arg) : False :=
        hspans (mem_functionSpans_of_part (by simp [Node.children]) hnone)
      unfold isGenerated
      split
      · exact decide_eq_false fun hnone ↦ hspans (by rw [hnone]; exact mem_functionSpans_self)
      · rfl
    simp [harg, Node.children]
  · next span head typeParams this params result body =>
    have hspan : span ≠ .none := by
      rintro rfl
      exact hspans mem_functionSpans_self
    simp [hspan, Node.children]
  · next span kind declared items =>
    have hfree : Role.ofMarkers (site.annotations.markers span.start) = .free := ofMarkers_eq_free hmarked
    simp [valueRole, hfree, Node.children]
  · simp [valueRole, Role.ofType, Node.children]
  · next span kind mods decorators key f =>
    obtain ⟨hcomment, hdecorators⟩ := Bool.or_eq_false_iff.1 hmarked
    have hfree : Role.ofMarkers (memberMarkers site span decorators) = .free :=
      ofMarkers_eq_free ((memberMarkers_of_hasMarker hdecorators).trans hcomment)
    simp [valueRole, hfree, Node.children]
  · next span mods decorators key type init =>
    obtain ⟨hcomment, hdecorators⟩ := Bool.or_eq_false_iff.1 hmarked
    have hfree : Role.ofMarkers (memberMarkers site span decorators) = .free :=
      ofMarkers_eq_free ((memberMarkers_of_hasMarker hdecorators).trans hcomment)
    simp [valueRole, hfree, Role.ofType, Node.children]
  · rfl

theorem mem_census_of_unmarked {n : Node} (hunmarked : isUnmarked site n = true)
    (hspans : Span.none ∉ functionSpans n) {span : Span} (h : span ∈ functionSpans n) :
    ∃ f, (Role.free, f) ∈ census site n .free ∧ f.span = span ∧
      (site.annotations.markers span.start).isMemoLike = false := by
  induction n using Node.induction_on_parts with
  | step n ih =>
    obtain ⟨hown, hparts⟩ := isUnmarked_iff.1 hunmarked
    rw [functionSpans_eq] at h
    obtain h | h := List.mem_append.1 h
    · split at h
      · next place head typeParams this params result body =>
        obtain rfl := List.mem_singleton.1 h
        have hspan : span ≠ .none := by
          rintro rfl
          exact hspans mem_functionSpans_self
        exact ⟨_, mem_census_self (by simp) hspan, rfl, hown⟩
      · simp at h
    · obtain ⟨m, hm, h⟩ := List.mem_flatMap.1 h
      obtain ⟨f, hf, hrest⟩ := ih m hm (hparts m hm)
        (fun hspan ↦ hspans (mem_functionSpans_of_part hm hspan)) h
      refine ⟨f, ?_, hrest⟩
      rw [census_eq, placed_of_unmarked hown hspans, flatMap_placed_free]
      exact List.mem_append_right _ (List.mem_flatMap.2 ⟨m, hm, hf⟩)

/-- A function is woven in some mode: a memo function is given the hidden parameters and a cache scope,
an intrinsic one the hidden parameters, an entry nothing. -/
inductive RenderedIn (site : Site) : MemoMode → Func → Func → Prop
  | memo {span : Span} {head : FuncHead} {typeParams : List Node} {this : Option Node}
      {params params' hidden : List Param} {result : Option Ty} {body : Node} {inner : Span}
      {directives : List String} {walked cached : List Stmt} {offset : UInt64} {kind : ReturnKind}
      (reshapes : ReshapesAll site.options.runtime
        (tableOf site (.func span head typeParams this params result body)).memoIndices 0 params params')
      (hides : Glue.hiddenParameters site.options.runtime = .ok hidden)
      (wraps : CacheScope.wrap site.options.runtime offset kind
        (tableOf site (.func span head typeParams this params result body)).registered walked =
          .ok cached) :
      RenderedIn site .memo (.func span head typeParams this params result body)
        (.func span head typeParams this (hidden ++ params') result (.code inner directives cached))
  | intrinsic {span : Span} {head : FuncHead} {typeParams : List Node} {this : Option Node}
      {params params' hidden : List Param} {result : Option Ty} {body body' : Node}
      (reshapes : ReshapesAll site.options.runtime
        (tableOf site (.func span head typeParams this params result body)).memoIndices 0 params params')
      (hides : Glue.hiddenParameters site.options.runtime = .ok hidden)
      (skeleton : body'.skeleton = body.skeleton) :
      RenderedIn site .intrinsic (.func span head typeParams this params result body)
        (.func span head typeParams this (hidden ++ params') result body')
  | entry {span : Span} {head : FuncHead} {typeParams : List Node} {this : Option Node}
      {params params' : List Param} {result : Option Ty} {body body' : Node}
      (reshapes : ReshapesAll site.options.runtime
        (tableOf site (.func span head typeParams this params result body)).memoIndices 0 params params')
      (skeleton : body'.skeleton = body.skeleton) :
      RenderedIn site .entry (.func span head typeParams this params result body)
        (.func span head typeParams this params' result body')

/-- Does the marker of a function decide on its mode? A threaded call makes a memo function of any
closure that is marked, and of the members and variables of the file the marker counts as well. -/
def decidesMode (site : Site) (span : Span) (mode : MemoMode) : Role → Prop
  | .foreign => False
  | .free => True
  | .held outer => outer = mode ∨ site.graph.nodeAt? span = none
  | .argument => mode = .memo

/-- A function with a body and a marker before it is woven in the mode of the marker. -/
def HeedsMarker (site : Site) (role : Role) (n n' : Node) : Prop :=
  ∀ {span head typeParams this params result body mode},
    n = .func span head typeParams this params result body → head.form ≠ .signature → body ≠ .missing →
    MemoMode.ofMarkers? (site.annotations.markers span.start) = some mode →
    decidesMode site span mode role → RenderedIn site mode n n'

def roles (site : Site) : Inherited Role where
  parts role n n₁ := (placed site role n n₁).map Prod.fst
  argument := Role.asArgument
  body role _ f _ := bodyRole role f
  warrants role mode f := Warranted site mode f role

def State.Named (s : State) : Prop :=
  (takeClosureName s.frames).isSome = true

structure Meeting (site : Site) (role : Role) (s : State) (n : Node) : Prop where
  known : Known site s role n
  named : s.Named
  walked : role ≠ .argument

theorem isSome_takeClosureName_cons {frame : Frame} {frames : List Frame}
    (h : (takeClosureName frames).isSome = true) : (takeClosureName (frame :: frames)).isSome = true := by
  cases frame with
  | scope counter threading => rfl
  | boundary => simpa [takeClosureName] using h

theorem State.Named.keeps (h : s.Named) (hs : Keeps site s s') : s'.Named := by
  have hframes := hs.frames
  unfold State.Named at h ⊢
  generalize s.frames = fs, s'.frames = gs at h hframes
  induction hframes with
  | nil => exact h
  | cons head _ ih =>
    cases head with
    | boundary => exact isSome_takeClosureName_cons (ih (by simpa [takeClosureName] using h))
    | scope name => rfl

theorem State.Named.enters {n n₁ : Node} {s₁ : State} {leave : State → State} (h : s.Named)
    (henters : Enters site s n n₁ s₁ leave) : s₁.Named := by
  unfold State.Named at h ⊢
  obtain ⟨-, hframes, -⟩ | ⟨frame, -, hframes, -⟩ := frames_of_enters henters
  · rw [hframes]
    exact h
  · rw [hframes]
    exact isSome_takeClosureName_cons h

theorem ne_argument_of_mem_placed {n n₁ : Node} {p : Role × Node} (h : p ∈ placed site role n n₁)
    (hrole : role ≠ .argument) : p.1 ≠ .argument := by
  have hmarkers (m : Markers) : Role.ofMarkers m ≠ .argument := by
    unfold Role.ofMarkers
    split <;> simp
  have hvalue : valueRole site role n ≠ .argument := by
    unfold valueRole
    split <;> simp [hrole, hmarkers]
  have htype : (valueRole site role n).ofType ≠ .argument := by
    unfold Role.ofType
    split <;> simp
  have hmap {r : Role} {ms : List Node} (hr : r ≠ .argument) (h : p ∈ ms.map (r, ·)) :
      p.1 ≠ .argument := by
    obtain ⟨m, -, rfl⟩ := List.mem_map.1 h
    exact hr
  have hsplit {xs ys : List (Role × Node)} (h : p ∈ xs ++ ys) (hx : p ∈ xs → p.1 ≠ .argument)
      (hy : p ∈ ys → p.1 ≠ .argument) : p.1 ≠ .argument := (List.mem_append.1 h).elim hx hy
  unfold placed at h
  dsimp only at h
  split at h
  · exact hmap (by simp) h
  · split at h
    · split at h
      · obtain rfl | h := List.mem_cons.1 h
        · simp
        · refine hsplit h (hmap (by simp)) fun h ↦ ?_
          obtain rfl | h := List.mem_cons.1 h
          · simp
          · exact hmap (by simp) h
      · exact hmap (by simp) h
    · refine hsplit h (hmap (by split <;> simp)) fun h ↦ ?_
      rw [List.mem_singleton.1 h]
      simp
    · exact hmap hvalue h
    · obtain rfl | h := List.mem_cons.1 h
      · simp
      · exact hsplit h (hmap htype) (hmap hvalue)
    · refine hsplit h (hmap (by simp)) fun h ↦ ?_
      obtain rfl | h := List.mem_cons.1 h
      · simp
      · rw [List.mem_singleton.1 h]
        exact hvalue
    · refine hsplit h (hmap (by simp)) fun h ↦ ?_
      obtain rfl | h := List.mem_cons.1 h
      · simp
      · exact hsplit h (hmap htype) (hmap hvalue)
    · exact hmap (by simp) h

theorem bodyRole_ne_argument (role : Role) (f : Func) : bodyRole role f ≠ .argument := by
  unfold bodyRole
  split
  · split <;> simp
  · split <;> simp
  · simp

theorem opens_roles {sig : Signature} {span : Span} {head : FuncHead} {typeParams : List Node}
    {this : Option Node} {params params' : List Param} {result : Option Ty} {body : Node}
    (h : Known site s role (.func span head typeParams this params result body)) :
    Opens site (roles site) (Meeting site) role s sig
      (.func span head typeParams this params result body) params' body where
  bare _ _ hm := ⟨h.of_bodyPart rfl hm, rfl, bodyRole_ne_argument _ _⟩
  wrapped _ _ _ _ _ _ hparts hencloses _ hm :=
    ⟨h.of_enclosed rfl hparts (enclosures_of_encloses hencloses) hm, rfl, bodyRole_ne_argument _ _⟩

theorem inherits_roles : Inherits site (roles site) (Meeting site) (Keeps site) where
  kept h hs := ⟨h.known.keeps hs, h.named.keeps hs, h.walked⟩
  enters h henters := forall₂_placed fun _ hp ↦
    ⟨h.known.enters henters hp, h.named.enters henters, ne_argument_of_mem_placed hp h.walked⟩
  call h _ := forall₂_placed fun _ hp ↦
    ⟨h.known.part hp, h.named, ne_argument_of_mem_placed hp h.walked⟩
  function h _ hsigned _ := opens_roles (h.known.keeps (keeps_of_signs hsigned).1)
  signed h hsigned := h.known.warranted hsigned
  builder _ := warranted_asArgument site _ _
  argument h _ := opens_roles h.known.asArgument

theorem renderedIn_of_memoises {W : Walked} {sig : Signature} {span : Span} {head : FuncHead}
    {typeParams : List Node} {this : Option Node} {params : List Param} {result : Option Ty}
    {body : Node} {f' : Func} (hbody : body ≠ .missing)
    (hparams : sig.parameters = tableOf site (.func span head typeParams this params result body))
    (h : Memoises site W sig s (.func span head typeParams this params result body) f' s') :
    RenderedIn site sig.mode (.func span head typeParams this params result body) f' := by
  cases h with
  | bodiless faultless reshapes => exact absurd rfl hbody
  | wrapped faultless reshapes present memo wraps hides =>
    rw [hparams] at reshapes
    rw [Hides, if_neg (by simp [memo])] at hides
    cases wraps with
    | intro parts encloses walks wraps =>
      rw [hparams] at wraps
      rw [memo]
      exact .memo reshapes hides wraps
  | bare faultless reshapes present notMemo walks hides =>
    rw [hparams] at reshapes
    rw [Hides] at hides
    cases hmode : sig.mode with
    | memo => exact absurd hmode notMemo
    | intrinsic =>
      rw [if_neg (by simp [hmode])] at hides
      exact .intrinsic reshapes hides walks.skeleton
    | entry =>
      rw [if_pos hmode] at hides
      subst hides
      exact .entry reshapes walks.skeleton

theorem Meeting.mode_eq {span : Span} {head : FuncHead} {typeParams : List Node} {this : Option Node}
    {params : List Param} {result : Option Ty} {body : Node} {mode : MemoMode} {sig : Signature}
    (h : Meeting site role s (.func span head typeParams this params result body))
    (hspan : span ≠ .none)
    (hmode : MemoMode.ofMarkers? (site.annotations.markers span.start) = some mode)
    (hdecides : decidesMode site span mode role)
    (hsigned : Signs site s span head.form params (some sig) s') : sig.mode = mode := by
  cases hsigned with
  | @declared d found =>
    have hd (hrole : role ≠ .foreign) := h.known.declared _ (mem_census_self hrole hspan) d found
    cases role with
    | foreign => exact hdecides.elim
    | free => exact Option.some.inj (((hd (by simp)).free rfl).symm.trans hmode)
    | held outer =>
      obtain rfl | hnone := hdecides
      · exact (hd (by simp)).held outer rfl (.inr hmode)
      · simp [hnone] at found
    | argument => exact absurd rfl h.walked
  | closure absent marked named =>
    rw [modeAt?, hmode] at marked
    exact (Option.some.inj marked).symm

theorem heedsMarker_of_step (hnone : site.graph.nodeAt? .none = none)
    (hstart : site.annotations.markers 0 = {}) {n n' : Node} (h : Meeting site role s n)
    (hstep : Step site (Walks site) s n n' s') : HeedsMarker site role n n' := by
  rintro span head typeParams this params result body mode rfl hform hbody hmode hdecides
  have hspan : span ≠ .none := by
    rintro rfl
    have hzero : site.annotations.markers Span.none.start = {} := hstart
    simp [hzero, MemoMode.ofMarkers?] at hmode
  have hrole : role ≠ .foreign := by
    rintro rfl
    exact hdecides
  cases hstep with
  | memo form signed memoises =>
    rw [← h.mode_eq hspan hmode hdecides signed]
    exact renderedIn_of_memoises hbody (h.known.parameters_eq hnone hrole signed) memoises
  | within enters parts =>
    cases enters with
    | passive passive => simp [isPassive] at passive
    | signature form => exact absurd form hform
    | block opens => simp [blockBindings] at opens
    | function form plain =>
      cases plain with
      | unmarked absent plain => simp [modeAt?, hmode] at plain
      | nameless absent marked unnamed =>
        have hnamed := h.named
        simp [State.Named, unnamed] at hnamed

/-- Markers are heeded: in a file with nothing wrong every function with a body and a marker before it
that the walk reaches is woven in the mode of the marker, unless a call makes a memo function of it or
the marker of the declaration that holds it says otherwise. Hidden parameters are two if the names are
plain. -/
theorem walkAll_heeds_markers {source : String} {jsx : Bool} {o : Options} {parsed : Parsed}
    {depth : Nat} {stmts' : List Stmt} (hparsed : parse? source jsx = some parsed)
    (h : walkAll (siteOf source o parsed) depth parsed.program.body = some (stmts', s))
    (hclean : walkErrors o.filePath s = []) :
    List.Forall₂ (Throughout (siteOf source o parsed) (roles (siteOf source o parsed))
        (HeedsMarker (siteOf source o parsed)) .free) parsed.program.body stmts' ∧
      (o.runtime.IsPlain → ∃ p q, Glue.hiddenParameters o.runtime = .ok [p, q] ∧
        IsTypedParam o.runtime.context p ∧ IsTypedParam o.runtime.id q) := by
  refine ⟨?_, Glue.hiddenParameters_eq_ok⟩
  have apart := toldApart_of_parse? hparsed
  have hnone := nodeAt?_none_of_toldApart source o parsed apart
  have hstart := markers_zero source parsed.comments
  refine throughout_of_walkAll lasts_keeps inherits_roles (heedsMarker_of_step hnone hstart) ?_ h hclean
    fun stmt hstmt ↦ ⟨known_of_toldApart source o parsed apart hstmt, rfl, by simp⟩
  rintro role s f f' s' name index plan hmeets builds memoises
  rintro span head typeParams this params result body mode rfl hform hbody hmode hdecides
  have hmemo : mode = .memo := by
    simp only [roles, Role.asArgument] at hdecides
    split at hdecides
    · exact hdecides.elim
    · exact hdecides
  rw [hmemo]
  exact renderedIn_of_memoises hbody rfl memoises

def intrinsicSource : String :=
  "/** @memo_intrinsic */ function view() \x7b Card(/** @memo_intrinsic */ () => \x7b\x7d); "
    ++ "use(/** @memo_intrinsic */ () => \x7b\x7d); \x7d\n"

def intrinsicOptions : Options where
  runtime := shortNames
  externalMemoFunctions := ["Card"]

def arrowSizes (n : Node) : List (Nat × Nat) :=
  n.gather (fun (_ : Unit) n ↦ (some (), match n with
    | .func _ ⟨.arrow, _, _, _, _, _, _⟩ _ _ params _ body => [(params.length, (codeStmts body).length)]
    | _ => [])) ()

set_option maxRecDepth 100000 in
theorem wovenView_intrinsicSource :
    wovenView intrinsicSource intrinsicOptions 12 (fun parsed stmts' _ ↦
      ([69, 107].map (siteOf intrinsicSource intrinsicOptions parsed).annotations.markers,
        parsed.program.body.flatMap arrowSizes, stmts'.flatMap arrowSizes)) =
      some ([{ intrinsic := true }, { intrinsic := true }], [(0, 0), (0, 0)], [(2, 3), (2, 0)]) := by
  decide +kernel

theorem walkAll_heeds_markers_intrinsicSource : ∃ parsed stmts' s,
    parse? intrinsicSource false = some parsed ∧
      walkAll (siteOf intrinsicSource intrinsicOptions parsed) 12 parsed.program.body =
        some (stmts', s) ∧ walkErrors "input.ts" s = [] ∧
      List.Forall₂ (Throughout (siteOf intrinsicSource intrinsicOptions parsed)
        (roles (siteOf intrinsicSource intrinsicOptions parsed))
        (HeedsMarker (siteOf intrinsicSource intrinsicOptions parsed)) .free)
        parsed.program.body stmts' := by
  obtain ⟨parsed, stmts', s, hparsed, h, hclean, -⟩ := exists_of_wovenView wovenView_intrinsicSource
  exact ⟨parsed, stmts', s, hparsed, h, hclean, (walkAll_heeds_markers hparsed h hclean).1⟩

/-- Of two intrinsic closures with nothing in them that which is given to a threaded call is wrapped. -/
theorem walkAll_wraps_intrinsic_argument : ∃ parsed stmts' s,
    parse? intrinsicSource false = some parsed ∧
      walkAll (siteOf intrinsicSource intrinsicOptions parsed) 12 parsed.program.body =
        some (stmts', s) ∧ walkErrors "input.ts" s = [] ∧
      [69, 107].map (siteOf intrinsicSource intrinsicOptions parsed).annotations.markers =
        [{ intrinsic := true }, { intrinsic := true }] ∧
      parsed.program.body.flatMap arrowSizes = [(0, 0), (0, 0)] ∧
      stmts'.flatMap arrowSizes = [(2, 3), (2, 0)] := by
  obtain ⟨parsed, stmts', s, hparsed, h, hclean, hview⟩ :=
    exists_of_wovenView wovenView_intrinsicSource
  obtain ⟨hmarkers, hsizes⟩ := Prod.mk.inj hview
  exact ⟨parsed, stmts', s, hparsed, h, hclean, hmarkers, Prod.mk.inj hsizes⟩

end Recompose.Weave
