import Recompose.Proofs.Arity
import Recompose.Proofs.CacheScope
import Recompose.Proofs.Imports

namespace Recompose.Weave

open Script
open Node (Everywhere everywhere_iff)

/-- The type that a function declares, if any, reads as a type argument. -/
def ReadsResult (site : Site) (result : Option Ty) : Prop :=
  ∀ returnsValue, Preamble.IsReadable (.ofType (result.bind (typeText? site.source)) returnsValue)

def awaitedSpans (site : Site) : Node → List Span
  | .method span _ _ decorators _ f =>
    if (memberMarkers site span decorators).isMemoLike then heldFunction f else []
  | .vars span _ _ items =>
    if (site.annotations.markers span.start).isMemoLike then items.flatMap initialClosure else []
  | _ => []

/-- The body of the function at a span is wrapped: it is declared so, or marked, or awaited. -/
def IsWrappedAt (site : Site) (awaited : List Span) (span : Span) : Prop :=
  match site.graph.nodeAt? span with
  | some d => d.mode = .memo
  | none => MemoMode.ofMarkers? (site.annotations.markers span.start) = some .memo ∨ span ∈ awaited

def resultOf : Node → Option Ty
  | .func _ _ _ _ _ result _ => result
  | _ => none

/-- If a node is a memo function, or a call that may be threaded and pass on closures, the types that are
declared there read as type arguments. -/
def ReadsTypes (site : Site) (awaited : List Span) : Node → Prop
  | .func span head _ _ _ result _ =>
    head.form ≠ .signature → IsWrappedAt site awaited span → ReadsResult site result
  | .apply _ _ callee _ args => ∀ scopes classes plan,
    resolveCall? site scopes classes callee args.length = some plan →
      ∀ arg ∈ args, arg.isClosure = true → ReadsResult site (resultOf arg)
  | _ => True

variable {site : Site} {awaited : List Span}

theorem readsResult_none : ReadsResult site none := by
  intro returnsValue
  cases returnsValue <;> trivial

/-- The parameters of a function go by identifiers, and so do those that are recorded at its span. -/
def Registers (site : Site) : Node → Prop
  | .func span head _ _ params _ _ => head.form ≠ .signature →
    (∀ p ∈ params, IsParameter p) ∧ ∀ d, site.graph.nodeAt? span = some d →
      ∀ r ∈ d.parameters.registered, isIdentifierText r.2 = true
  | .typeFunc _ _ _ f => IsSignature f
  | _ => True

def GoesWell (site : Site) (awaited : List Span) (n : Node) : Prop :=
  ReadsTypes site awaited n ∧ Registers site n ∧ ∀ span ∈ awaitedSpans site n, span ∈ awaited

theorem endures_goesWell (hnone : site.graph.nodeAt? .none = none) :
    Condition.Endures site.options.runtime (fun _ ↦ True) (GoesWell site awaited) where
  statement := ⟨trivial, trivial, trivial, List.forall_mem_nil _⟩
  call := by
    refine ⟨fun _ _ _ _ arg harg _ ↦ ?_, trivial, List.forall_mem_nil _⟩
    obtain rfl := List.mem_singleton.1 harg
    exact readsResult_none
  callee _ := ⟨trivial, trivial, List.forall_mem_nil _⟩
  closure _ := ⟨⟨fun _ _ ↦ readsResult_none, fun _ ↦ ⟨by simp, fun d hd ↦ absurd hd (by simp [hnone])⟩,
    List.forall_mem_nil _⟩, trivial, trivial, List.forall_mem_nil _⟩
  block := ⟨fun _ _ _ ↦ trivial, fun _ ↦ ⟨trivial, trivial, List.forall_mem_nil _⟩⟩
  arms _ _ _ := trivial
  chain _ := ⟨trivial, trivial, List.forall_mem_nil _⟩
  branch _ := trivial
  clause := ⟨fun _ _ _ ↦ trivial, fun _ ↦ ⟨trivial, trivial, List.forall_mem_nil _⟩⟩
  clauses _ _ := ⟨trivial, trivial, List.forall_mem_nil _⟩
  switch := trivial
  result := ⟨trivial, trivial, trivial, List.forall_mem_nil _⟩

theorem wears_goesWell : Wears (GoesWell site awaited) where
  bare h := by
    unfold isBareNode at h
    split at h
    · exact ⟨trivial, trivial, List.forall_mem_nil _⟩
    · exact ⟨trivial, trivial, List.forall_mem_nil _⟩
    · exact ⟨trivial, trivial, List.forall_mem_nil _⟩
    · cases h
  form _ := ⟨trivial, trivial, List.forall_mem_nil _⟩
  function _ htype _ := ⟨⟨trivial, htype.2.1, List.forall_mem_nil _⟩, fun h ↦ absurd htype.2.1 h,
    fun h ↦ absurd htype.2.1 h, List.forall_mem_nil _⟩
  reference _ := ⟨trivial, trivial, List.forall_mem_nil _⟩
  declarator _ := ⟨trivial, trivial, List.forall_mem_nil _⟩

theorem isIdentifierText_of_bindingsFrom (a : Annotations) (start : Option Nat) {params : List Param}
    (h : ∀ p ∈ params, IsParameter p) (index slot : Nat) :
    ∀ b ∈ ParameterTable.bindingsFrom a start index slot params, ∀ name, b.name = some name →
      isIdentifierText name = true := by
  induction params generalizing index slot with
  | nil => simp [ParameterTable.bindingsFrom]
  | cons p params ih =>
    obtain ⟨hp, hparams⟩ := List.forall_mem_cons.1 h
    unfold IsParameter at hp
    split at hp
    · next span mods rest decorators target type init =>
      cases rest <;> exact List.forall_mem_cons.2 ⟨hp, ih hparams _ _⟩
    · exact hp.elim

theorem isIdentifierText_of_registered {a : Annotations} {start : Option Nat} {params : List Param}
    (h : ∀ p ∈ params, IsParameter p) :
    ∀ r ∈ (ParameterTable.ofParams params a start).registered, isIdentifierText r.2 = true := by
  intro r hr
  obtain ⟨b, hb, hr⟩ := List.mem_filterMap.1 hr
  split at hr
  · next hname =>
    obtain rfl := Option.some.inj hr
    exact isIdentifierText_of_bindingsFrom a start h 0 0 b hb _ hname
  · cases hr

/-- A walk in which generated code never fails, and marked closures are those of the file. -/
def glued (awaited : List Span) : Upkeep where
  holds s := s.failure = none ∧ (∀ d ∈ s.errors, d.code ≠ Rule.internal.code) ∧
    ∀ span ∈ s.pending, span ∈ awaited
  allows
    | .awaits spans => ∀ span ∈ spans, span ∈ awaited
    | .settles _ => True
    | .reports d => d.code ≠ Rule.internal.code
    | .fails _ => False
  stops := True
  quiet hpending herrors hfailure hs := by rwa [hpending, herrors, hfailure]
  noted {s note} hnote hs := by
    obtain ⟨hfailure, herrors, hpending⟩ := hs
    cases note with
    | awaits spans => exact ⟨hfailure, herrors, List.forall_mem_append.2 ⟨hnote, hpending⟩⟩
    | settles span =>
      exact ⟨hfailure, herrors, fun span hspan ↦ hpending span (List.mem_of_mem_filter hspan)⟩
    | reports d =>
      exact ⟨hfailure, List.forall_mem_append.2 ⟨herrors, List.forall_mem_singleton.2 hnote⟩, hpending⟩
    | fails f => exact hnote.elim

theorem isPlain_default : ({} : RuntimeNames).IsPlain := by
  constructor <;> decide

theorem not_fails_of_memoNote (hruntime : site.options.runtime = {}) {sig : Signature} {span : Span}
    {head : FuncHead} {typeParams : List Node} {this : Option Node} {params : List Param}
    {result : Option Ty} {body : Node} {f : Failure}
    (hregistered : ∀ r ∈ sig.parameters.registered, isIdentifierText r.2 = true)
    (hresult : sig.mode = .memo → ReadsResult site result) :
    ¬MemoNote site sig (.func span head typeParams this params result body) (.fails f) := by
  intro h
  cases h with
  | enclosing failed =>
    have tame : site.options.runtime.IsTame := hruntime ▸ RuntimeNames.isTame_default
    obtain ⟨stmts', tally, hrun, -⟩ :=
      Condition.run_reports_hazards (s := conditionSettings site) (calls_of_isTame tame) (bodyParts body).2.2
    rw [hrun] at failed
    cases failed
  | hidden failed =>
    obtain ⟨p, q, hread, -⟩ := Glue.hiddenParameters_eq_ok (hruntime ▸ isPlain_default)
    exact absurd (hread.symm.trans failed) (by simp)
  | @wrapping _ _ _ _ _ _ _ stmts _ mode failed =>
    obtain ⟨opening, rest, hwrap, -⟩ := CacheScope.exists_wrapped sig.offset
      (hresult mode (returnsValue (bodyParts body).2.2)) hregistered stmts
    rw [hruntime] at failed
    exact absurd (hwrap.symm.trans failed) (by simp)

theorem code_ne_internal_of_breach {sig : Signature} {head : FuncHead} {params : List Param} {start : Nat}
    {b : Breach} (hb : b ∈ foundBreaches site sig head params start) :
    (b.diagnostic site).code ≠ Rule.internal.code := by
  have hcode {rule : Rule} {message : String} {offset : Nat} {hints : List String}
      (hrule : rule ≠ .internal) :
      ((⟨rule, message, offset, hints⟩ : Breach).diagnostic site).code ≠ Rule.internal.code := by
    revert hrule
    cases rule <;> simp [Breach.diagnostic, Rule.code]
  unfold foundBreaches suspensionBreach? at hb
  split at hb
  · next heq =>
    split at heq
    · obtain rfl := Option.some.inj heq
      obtain rfl := List.mem_singleton.1 hb
      exact hcode (by simp)
    · cases heq
  unfold breaches at hb
  dsimp only at hb
  split at hb
  · obtain rfl := List.mem_singleton.1 hb
    exact hcode (by simp)
  split at hb
  · split at hb
    · cases hb
    · obtain rfl := List.mem_singleton.1 hb
      exact hcode (by simp)
  split at hb
  · obtain rfl := List.mem_singleton.1 hb
    exact hcode (by simp)
  split at hb
  · obtain ⟨binding, -, rfl⟩ := List.mem_map.1 hb
    exact hcode (by simp)
  · cases hb

theorem code_ne_internal_of_memoNote (tame : site.options.runtime.IsTame) {sig : Signature} {func : Func}
    {d : Diagnostic} (h : MemoNote site sig func (.reports d)) : d.code ≠ Rule.internal.code := by
  cases h with
  | breach found => exact code_ne_internal_of_breach found
  | @hazard _ _ _ _ _ _ body _ found =>
    obtain ⟨stmts', tally, hrun, hrecords⟩ :=
      Condition.run_reports_hazards (s := conditionSettings site) (calls_of_isTame tame) (bodyParts body).2.2
    rw [hrun] at found
    obtain ⟨construct, hazard, rfl⟩ := hrecords d found
    unfold Condition.hazardDiagnostic
    dsimp only
    split <;> simp [Rule.code]

theorem isWrappedAt_of_marks {span : Span} {sig : Signature}
    (marks : (glued awaited).Marks site span sig) (mode : sig.mode = .memo) :
    IsWrappedAt site awaited span := by
  unfold Upkeep.Marks at marks
  split at marks
  · next d hd =>
    subst marks
    rw [IsWrappedAt, hd]
    exact mode
  · next hnone =>
    obtain ⟨s, hs, hmode⟩ := marks
    rw [IsWrappedAt, hnone]
    obtain hmarked | ⟨-, hpending⟩ := Option.or_eq_some_iff.1 (hmode.trans (congrArg some mode))
    · exact .inl hmarked
    · split at hpending
      · next hmem => exact .inr (hs.2.2 span (by simpa using hmem))
      · cases hpending

theorem registered_of_bears {span : Span} {head : FuncHead} {typeParams : List Node} {this : Option Node}
    {params : List Param} {result : Option Ty} {body : Node} {sig : Signature}
    (hf : Registers site (.func span head typeParams this params result body))
    (hform : head.form ≠ .signature) (hsig : Bears site span head.form params sig) :
    ∀ r ∈ sig.parameters.registered, isIdentifierText r.2 = true := by
  obtain ⟨hparams, hdeclared⟩ := hf hform
  cases hsig with
  | declared found => exact hdeclared _ found
  | marked => exact isIdentifierText_of_registered hparams

theorem glued_allows (hruntime : site.options.runtime = {}) {n : Node}
    (hn : Everywhere (GoesWell site awaited) n) {note : Note} (h : StepNote (glued awaited) site n note) :
    (glued awaited).allows note := by
  obtain ⟨htypes, hregisters, hawaited⟩ := hn.self
  have tame : site.options.runtime.IsTame := hruntime ▸ RuntimeNames.isTame_default
  cases note with
  | reports d =>
    cases h with
    | function form bears marks memo => exact code_ne_internal_of_memoNote tame memo
    | argument mem resolves built =>
      cases built with
      | intro closure memo => exact code_ne_internal_of_memoNote tame memo
    | unsupported => simp [glued, Breach.diagnostic, Rule.code]
  | settles span => trivial
  | awaits spans =>
    cases h with
    | function form bears marks memo => exact absurd rfl (ne_awaits_of_memoNote memo spans)
    | argument mem resolves built =>
      cases built with
      | intro closure memo => exact absurd rfl (ne_awaits_of_memoNote memo spans)
    | member marked =>
      rw [awaitedSpans, if_pos marked] at hawaited
      exact hawaited
    | declarators marked =>
      rw [awaitedSpans, if_pos marked] at hawaited
      exact hawaited
  | fails f =>
    cases h with
    | function form bears marks memo =>
      exact not_fails_of_memoNote hruntime (registered_of_bears hregisters form bears)
        (fun mode ↦ htypes form (isWrappedAt_of_marks marks mode)) memo
    | argument mem resolves built =>
      cases built with
      | @intro span head typeParams this params result body name reifies note closure memo =>
        have hform : head.form ≠ .signature := by
          rintro hform
          simp [Node.isClosure, Node.closureSpan?, hform] at closure
        have hparams := (hn.part (List.mem_append_right _ mem)).self.2.1 hform
        exact not_fails_of_memoNote hruntime (isIdentifierText_of_registered hparams.1)
          (fun _ ↦ htypes _ _ _ resolves _ mem closure) memo
    | identity failed =>
      obtain ⟨e, hread, -⟩ := Glue.identityArgument_eq_ok (hruntime ▸ isPlain_default) _
      exact absurd (hread.symm.trans failed) (by simp)
    | hidden failed =>
      obtain ⟨p, q, hread, -⟩ := Glue.hiddenParameters_eq_ok (hruntime ▸ isPlain_default)
      exact absurd (hread.symm.trans failed) (by simp)

section

variable {source : String} {o : Options} {jsx : Bool} {parsed : Parsed}

/-- The functions of a file that the declarations around them mark. -/
def awaitedOf (site : Site) (program : List Stmt) : List Span :=
  (program.flatMap Node.nodes).flatMap (awaitedSpans site)

/-- The types that the memo functions of a file declare read as type arguments. -/
def TypesRead (site : Site) (program : List Stmt) : Prop :=
  ∀ n ∈ program.flatMap Node.nodes, ReadsTypes site (awaitedOf site program) n

theorem everywhere_goesWell (hparsed : parse? source jsx = some parsed)
    (htypes : TypesRead (siteOf source o parsed) parsed.program.body) {stmt : Stmt}
    (hstmt : stmt ∈ parsed.program.body) :
    Everywhere (GoesWell (siteOf source o parsed) (awaitedOf (siteOf source o parsed)
      parsed.program.body)) stmt := by
  intro n hn
  have hmem : n ∈ parsed.program.body.flatMap Node.nodes := List.mem_flatMap.2 ⟨stmt, hstmt, hn⟩
  have hnamed : OwnNames n := isNamed_of_parse? hparsed hstmt n hn
  refine ⟨htypes n hmem, ?_, fun span hspan ↦ List.mem_flatMap.2 ⟨n, hmem, hspan⟩⟩
  unfold Registers
  split
  · intro _
    refine ⟨hnamed, fun d hd ↦ ?_⟩
    rw [parameters_of_nodeAt? hparsed hmem hd]
    exact isIdentifierText_of_registered hnamed
  · exact hnamed
  · trivial

theorem walkErrors_of_walkAll (hparsed : parse? source jsx = some parsed) (hruntime : o.runtime = {})
    (htypes : TypesRead (siteOf source o parsed) parsed.program.body) {depth : Nat}
    {stmts' : List Stmt} {s : State}
    (hwalk : walkAll (siteOf source o parsed) depth parsed.program.body = some (stmts', s)) :
    ∀ d ∈ walkErrors o.filePath s, d.code ≠ Rule.internal.code := by
  have hnone := nodeAt?_none_of_toldApart source o parsed (toldApart_of_parse? hparsed)
  have tame : (siteOf source o parsed).options.runtime.IsTame :=
    hruntime ▸ RuntimeNames.isTame_default
  obtain ⟨hfailure, herrors, -⟩ := holds_of_walkAll (u := glued _) (endures_goesWell hnone)
    wears_goesWell tame trivial (fun n hn note ↦ glued_allows hruntime hn) ⟨rfl, by simp [initial]⟩
    (fun stmt hstmt ↦ everywhere_goesWell hparsed htypes hstmt) hwalk
  rw [walkErrors, hfailure]
  simpa using herrors

theorem errors_emit (hruntime : o.runtime = {}) (hmodule : isQuotable o.runtimeModule)
    (hbuilder : isQuotable o.builderModule) (program : Program) (stats : Stats) :
    (emit o program stats).errors = [] := by
  have hnames : ∀ name ∈ neededNames o true, isPlainName name := by
    unfold neededNames
    rw [hruntime]
    decide
  obtain ⟨added, hadded, -⟩ := insertImports_eq_ok (isReadable_missingLines hnames hmodule hbuilder
    (importedNames program.body) (0 < stats.reifiedChains))
  unfold emit
  dsimp only
  split
  · next hbody =>
    split at hbody
    · exact absurd (hadded.symm.trans hbody) (by simp)
    · cases hbody
  · rfl

end

/-- Generated code is well formed. With the default names of the runtime, and modules that can be quoted,
no file is refused because generated code does not read back, as long as the types that its memo functions
declare read as type arguments: the only such record is that of a walk that does not end. -/
theorem transform_glue_reads (source : String) (o : Options) (hruntime : o.runtime = {})
    (hmodule : isQuotable o.runtimeModule) (hbuilder : isQuotable o.builderModule)
    (htypes : ∀ parsed, parse? source (allowsElements o.filePath) = some parsed →
      TypesRead (siteOf source o parsed) parsed.program.body) :
    ∀ d ∈ (transform source o).errors, d.code = Rule.internal.code →
      d = Failure.depth.diagnostic o.filePath ∧
        ∃ parsed, parse? source (allowsElements o.filePath) = some parsed ∧
          walkAll (siteOf source o parsed) (walkDepth source.utf8ByteSize) parsed.program.body = none := by
  intro d hd hcode
  unfold transform at hd
  split at hd
  · next f hf =>
    obtain rfl := List.mem_singleton.1 hd
    unfold Options.validate at hf
    split at hf
    · cases hf
    · obtain rfl := Except.error.inj hf
      simp [Failure.diagnostic, Failure.rule, Rule.code] at hcode
  · split at hd
    · obtain rfl := List.mem_singleton.1 hd
      simp [parseDiagnostic, Rule.code] at hcode
    · next parsed hparsed =>
      unfold transformParsed at hd
      dsimp only at hd
      split at hd
      · next hwalk => exact ⟨List.mem_singleton.1 hd, parsed, hparsed, hwalk⟩
      · next body s hwalk =>
        split at hd
        · split at hd
          · rw [errors_emit hruntime hmodule hbuilder] at hd
            cases hd
          · cases hd
        · exact absurd hcode (walkErrors_of_walkAll hparsed hruntime (htypes parsed hparsed) hwalk d hd)

def declaredType? (site : Site) (n : Node) : Option String :=
  match ReturnKind.ofType ((resultOf n).bind (typeText? site.source)) true with
  | .typed type => some type
  | _ => none

theorem readsResult_of_spellsType {n : Node} (h : ∀ type ∈ declaredType? site n, SpellsType type) :
    ReadsResult site (resultOf n) := by
  intro returnsValue
  unfold declaredType? at h
  generalize (resultOf n).bind (typeText? site.source) = text at h ⊢
  cases text with
  | none => cases returnsValue <;> trivial
  | some text =>
    unfold ReturnKind.ofType at h ⊢
    dsimp only at h ⊢
    by_cases hvoid : String.ofList (Text.trim text.toList) = "void" ∨
        String.ofList (Text.trim text.toList) = "undefined"
    · rw [if_pos hvoid]
      trivial
    · rw [if_neg hvoid] at h ⊢
      by_cases hempty : String.ofList (Text.trim text.toList) = ""
      · rw [if_pos hempty]
        cases returnsValue <;> trivial
      · rw [if_neg hempty] at h ⊢
        exact isTypeText_of_spellsType hempty (h _ rfl)

/-- Types made of names, literals, type arguments, parentheses, array brackets, unions and intersections read
as type arguments. What a function tells about a parameter is none of these. -/
theorem typesRead_of_spellsType {program : List Stmt}
    (h : ∀ type ∈ (program.flatMap Node.nodes).filterMap (declaredType? site), SpellsType type) :
    TypesRead site program := by
  have hreads (n : Node) (hn : n ∈ program.flatMap Node.nodes) : ReadsResult site (resultOf n) :=
    readsResult_of_spellsType fun type htype ↦ h type (List.mem_filterMap.2 ⟨n, hn, htype⟩)
  intro n hn
  unfold ReadsTypes
  split
  · exact fun _ _ ↦ hreads _ hn
  · next span how callee types args =>
    intro scopes classes plan _ arg harg _
    obtain ⟨stmt, hstmt, hn⟩ := List.mem_flatMap.1 hn
    have hpart : arg ∈ (Node.apply span how callee types args).nodes :=
      Node.mem_nodes_of_part (List.mem_append_right _ harg) (Node.mem_nodes_self arg)
    exact hreads arg (List.mem_flatMap.2 ⟨stmt, hstmt, Node.mem_nodes_trans hpart hn⟩)
  · trivial

def nestedType : String :=
  "Map<string, T.U[]> | null"

theorem spellsType_nestedType : SpellsType nestedType := by
  let pieces : List Piece := [.sign '<', .name "Map", .sign '<', .name "string", .sign ',', .gap ' ',
    .name "T", .sign '.', .name "U", .sign '[', .sign ']', .sign '>', .gap ' ', .sign '|', .gap ' ',
    .name "null", .sign '>', .sign '(']
  have hstring : TypeTokens .union [.word "string" false] := typeTokens_word false (by decide) (by decide)
  have harray : TypeTokens .union [.word "T" false, .sign "." false, .word "U" false, .sign "[" false,
      .sign "]" false] :=
    .of_operand (.array 1 (.name ["U"] (by decide) (by decide)) (by decide))
  have hmap : TypeTokens .primary [.word "Map" false, .sign "<" false, .word "string" false,
      .sign "," false, .word "T" false, .sign "." false, .word "U" false, .sign "[" false,
      .sign "]" false, .sign ">" false] := by
    refine .applied [] [[.word "string" false], _] ?_ ?_ ?_ (by simp) (by simpa using ⟨hstring, harray⟩)
    all_goals decide
  have hnull : TypeTokens .intersection [.word "null" false] :=
    .intersection [] (.array 0 (.word (by decide)) (by simp)) (by simp)
  refine ⟨_, .union [(false, [.word "null" false])] (.intersection [] (.array 0 hmap (by simp)) (by simp))
    (by simpa using hnull), fun rest ↦ ?_⟩
  have hfit : Piece.fitAll pieces rest := rfl
  exact @spells_written (· = rest) pieces [] rest [] rfl hfit (.nil rfl) (.inr rfl)

def nestedTypeSource : String :=
  "/** @memo */ function f(a): " ++ nestedType ++ " \x7b\x7d\n"

set_option maxRecDepth 100000 in
theorem declaredType?_nestedTypeSource : (parse? nestedTypeSource false).map (fun parsed ↦
    (parsed.program.body.flatMap Node.nodes).filterMap
      (declaredType? (siteOf nestedTypeSource {} parsed))) = some [nestedType] := by
  decide +kernel

theorem transform_glue_reads_nestedTypeSource : ({} : Options).runtime = {} ∧
    isQuotable ({} : Options).runtimeModule ∧ isQuotable ({} : Options).builderModule ∧
    (∃ parsed, parse? nestedTypeSource (allowsElements ({} : Options).filePath) = some parsed ∧
      TypesRead (siteOf nestedTypeSource {} parsed) parsed.program.body) ∧
    ∀ d ∈ (transform nestedTypeSource {}).errors, d.code = Rule.internal.code →
      d = Failure.depth.diagnostic "input.ts" ∧
        ∃ parsed, parse? nestedTypeSource (allowsElements ({} : Options).filePath) = some parsed ∧
          walkAll (siteOf nestedTypeSource {} parsed) (walkDepth nestedTypeSource.utf8ByteSize)
            parsed.program.body = none := by
  have hmodule : isQuotable ({} : Options).runtimeModule := by decide +kernel
  have hbuilder : isQuotable ({} : Options).builderModule := by decide +kernel
  obtain ⟨parsed, hparsed, hdeclared⟩ := Option.map_eq_some_iff.1 declaredType?_nestedTypeSource
  have htypes : TypesRead (siteOf nestedTypeSource {} parsed) parsed.program.body := by
    refine typesRead_of_spellsType fun type htype ↦ ?_
    rw [hdeclared] at htype
    obtain rfl := List.mem_singleton.1 htype
    exact spellsType_nestedType
  refine ⟨rfl, hmodule, hbuilder, ⟨parsed, hparsed, htypes⟩,
    transform_glue_reads nestedTypeSource {} rfl hmodule hbuilder fun parsed' hparsed' ↦ ?_⟩
  obtain rfl := Option.some.inj (hparsed.symm.trans hparsed')
  exact htypes

def predicateSource : String :=
  "/** @memo */ function f(a): a is T \x7b\x7d\n"

set_option maxRecDepth 100000 in
/-- What a function tells about a parameter does not read as a type argument. -/
theorem transform_refuses_predicate :
    (transform predicateSource {}).errors.map (fun d ↦
      (d.code, d == Failure.depth.diagnostic "input.ts")) = [(Rule.internal.code, false)] := by
  decide +kernel

end Recompose.Weave
