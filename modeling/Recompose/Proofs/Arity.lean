import Recompose.Proofs.Apart
import Recompose.Proofs.Outcome
import Recompose.Proofs.Preamble
import Recompose.Proofs.Weave.Tame

namespace Recompose

open Script

/-- The record of a function that has another number of parameters than its table. -/
def Diagnostic.Miscounts (d : Diagnostic) : Prop :=
  d.code = Rule.arity.code ∧ ∃ (name : String) (declared recorded : Nat), d.message =
    Weave.quoted name ++ " declares " ++ toString declared ++
      " parameters but its binding table records " ++ toString recorded

namespace Weave

open Node (Everywhere everywhere_iff)

theorem not_miscounts_of_code {d : Diagnostic} (h : d.code ≠ Rule.arity.code) : ¬d.Miscounts :=
  fun hd ↦ h hd.1

theorem not_miscounts_of_failure (f : Failure) (file : String) : ¬(f.diagnostic file).Miscounts := by
  have hcode : f.rule.code ≠ Rule.arity.code := by cases f <;> simp [Failure.rule, Rule.code]
  exact not_miscounts_of_code hcode

theorem not_miscounts_of_carries {d : Diagnostic} {name : String}
    (h : d.message = quoted name ++ " already carries hidden memo parameters") : ¬d.Miscounts := by
  rintro ⟨-, other, declared, recorded, hd⟩
  obtain ⟨hne, hall⟩ := Bool.and_eq_true_iff.1 (Preamble.isDigits_toString recorded)
  have hlast : (toString recorded).toList.getLast? = some 's' := by
    have heq := congrArg (fun text : String ↦ text.toList.getLast?) (hd.symm.trans h)
    rw [String.toList_append, List.getLast?_append_of_ne_nil _ (by simp),
      String.toList_append, List.getLast?_append_of_ne_nil _ (by simp)] at heq
    exact heq
  have hdigit := List.all_eq_true.1 hall _ (List.mem_of_getLast? hlast)
  exact absurd hdigit (by decide)

def isParam : Node → Bool
  | .param .. => true
  | _ => false

theorem length_bindingsFrom (a : Annotations) (start : Option Nat) {params : List Param}
    (h : ∀ p ∈ params, isParam p = true) (index slot : Nat) :
    (ParameterTable.bindingsFrom a start index slot params).length = params.length := by
  induction params generalizing index slot with
  | nil => rfl
  | cons p params ih =>
    obtain ⟨hp, hparams⟩ := List.forall_mem_cons.1 h
    unfold isParam at hp
    split at hp
    · next span mods rest decorators target type init =>
      cases rest <;> exact congrArg Nat.succ (ih hparams _ _)
    · cases hp

variable {site : Site}

theorem declaredLength_tableOf {span : Span} {head : FuncHead} {typeParams : List Node}
    {this : Option Node} {params : List Param} {result : Option Ty} {body : Node}
    (h : ∀ p ∈ params, isParam p = true) :
    (tableOf site (.func span head typeParams this params result body)).declaredLength =
      params.length :=
  length_bindingsFrom _ _ h 0 0

/-- What is recorded at the span of a function counts the parameters that it has. -/
def Tabled (site : Site) : Node → Prop
  | .func span head _ _ params _ _ => head.form ≠ .signature →
    (∀ p ∈ params, isParam p = true) ∧
      ∀ d, site.graph.nodeAt? span = some d → d.parameters.declaredLength = params.length
  | .typeFunc _ _ _ f => IsSignature f
  | _ => True

theorem endures_tabled (hnone : site.graph.nodeAt? .none = none) :
    Condition.Endures site.options.runtime (fun _ ↦ True) (Tabled site) where
  statement := ⟨trivial, trivial⟩
  call := trivial
  callee _ := trivial
  closure _ := ⟨fun _ ↦ ⟨by simp, fun d hd ↦ absurd hd (by simp [hnone])⟩, trivial⟩
  block := ⟨fun _ _ _ ↦ trivial, fun _ ↦ trivial⟩
  arms _ _ _ := trivial
  chain _ := trivial
  branch _ := trivial
  clause := ⟨fun _ _ _ ↦ trivial, fun _ ↦ trivial⟩
  clauses _ _ := trivial
  switch := trivial
  result := ⟨trivial, trivial⟩

theorem wears_tabled : Wears (Tabled site) where
  bare h := by
    unfold isBareNode at h
    split at h
    · trivial
    · trivial
    · trivial
    · cases h
  form _ := trivial
  function _ htype _ := ⟨htype, fun hform ↦ absurd htype hform⟩
  reference _ := trivial
  declarator _ := trivial

theorem length_eq_of_bears {span : Span} {head : FuncHead} {typeParams : List Node} {this : Option Node}
    {params : List Param} {result : Option Ty} {body : Node} {sig : Signature}
    (htabled : Tabled site (.func span head typeParams this params result body))
    (hform : head.form ≠ .signature) (hsig : Bears site span head.form params sig) :
    sig.parameters.declaredLength = params.length := by
  obtain ⟨hparams, hdeclared⟩ := htabled hform
  cases hsig with
  | declared found => exact hdeclared _ found
  | marked => exact length_bindingsFrom _ _ hparams 0 0

theorem not_miscounts_of_breach {sig : Signature} {head : FuncHead} {params : List Param} {start : Nat}
    {b : Breach} (hlength : sig.parameters.declaredLength = params.length)
    (hb : b ∈ foundBreaches site sig head params start) : ¬(b.diagnostic site).Miscounts := by
  unfold foundBreaches suspensionBreach? at hb
  split at hb
  · next heq =>
    split at heq
    · obtain rfl := Option.some.inj heq
      obtain rfl := List.mem_singleton.1 hb
      exact not_miscounts_of_code (by simp [Breach.diagnostic, Rule.code])
    · cases heq
  unfold breaches at hb
  rw [if_neg (by simpa using hlength.symm)] at hb
  split at hb
  · split at hb
    · cases hb
    · obtain rfl := List.mem_singleton.1 hb
      exact not_miscounts_of_code (by simp [Breach.diagnostic, Rule.code])
  split at hb
  · obtain rfl := List.mem_singleton.1 hb
    exact not_miscounts_of_carries rfl
  split at hb
  · obtain ⟨binding, -, rfl⟩ := List.mem_map.1 hb
    exact not_miscounts_of_code (by simp [Breach.diagnostic, Rule.code])
  · cases hb

theorem not_miscounts_of_hazard (s : ConditionSettings) (construct : String) (h : Hazard) :
    ¬(Condition.hazardDiagnostic s construct h).Miscounts := by
  refine not_miscounts_of_code ?_
  unfold Condition.hazardDiagnostic
  dsimp only
  split <;> simp [Rule.code]

theorem calls_of_isTame {names : RuntimeNames} (h : names.IsTame) : Condition.Calls names := by
  intro callee hcallee stmts
  obtain ⟨span, inner, optional, isPure, place, heq⟩ := h.exists_call hcallee
  exact ⟨_, heq stmts⟩

theorem not_miscounts_of_memoNote (tame : site.options.runtime.IsTame) {sig : Signature} {span : Span}
    {head : FuncHead} {typeParams : List Node} {this : Option Node} {params : List Param}
    {result : Option Ty} {body : Node} {d : Diagnostic}
    (hlength : sig.parameters.declaredLength = params.length)
    (h : MemoNote site sig (.func span head typeParams this params result body) (.reports d)) :
    ¬d.Miscounts := by
  cases h with
  | breach found => exact not_miscounts_of_breach hlength found
  | hazard found =>
    obtain ⟨stmts', tally, hrun, hrecords⟩ :=
      Condition.run_reports_hazards (s := conditionSettings site) (calls_of_isTame tame) (bodyParts body).2.2
    rw [hrun] at found
    obtain ⟨construct, hazard, rfl⟩ := hrecords d found
    exact not_miscounts_of_hazard _ _ _

def counting : Upkeep where
  holds s := ∀ d ∈ s.errors, ¬d.Miscounts
  allows note := ∀ d, note = .reports d → ¬d.Miscounts
  stops := True
  quiet _ herrors _ hs := by rwa [herrors]
  noted {s note} hnote hs := by
    cases note with
    | reports d => exact List.forall_mem_append.2 ⟨hs, List.forall_mem_singleton.2 (hnote d rfl)⟩
    | _ => exact hs

theorem counting_allows (tame : site.options.runtime.IsTame) {n : Node}
    (hn : Everywhere (Tabled site) n) {note : Note} (h : StepNote counting site n note) :
    counting.allows note := by
  rintro d rfl
  cases h with
  | function form bears marks memo =>
    exact not_miscounts_of_memoNote tame (length_eq_of_bears hn.self form bears) memo
  | argument mem resolves built =>
    cases built with
    | @intro span head typeParams this params result body name reifies note closure memo =>
      have hform : head.form ≠ .signature := by
        rintro hform
        simp [Node.isClosure, Node.closureSpan?, hform] at closure
      have hparams := (hn.part (List.mem_append_right _ mem)).self hform
      have hlength : (Signature.ofClosure site name .memo params head.form span.start
          reifies).parameters.declaredLength = params.length := length_bindingsFrom _ _ hparams.1 0 0
      exact not_miscounts_of_memoNote tame hlength memo
  | unsupported => exact not_miscounts_of_code (by simp [Breach.diagnostic, Rule.code])

section

variable {source : String} {o : Options} {jsx : Bool} {parsed : Parsed}

theorem everywhere_tabled (hparsed : parse? source jsx = some parsed) {stmt : Stmt}
    (hstmt : stmt ∈ parsed.program.body) : Everywhere (Tabled (siteOf source o parsed)) stmt := by
  intro n hn
  have hnamed : OwnNames n := isNamed_of_parse? hparsed hstmt n hn
  unfold Tabled
  split
  · intro _
    have hparams : ∀ p ∈ _, isParam p = true := fun p hp ↦ by
      have hp := hnamed p hp
      unfold IsParameter at hp
      split at hp
      · rfl
      · exact hp.elim
    refine ⟨hparams, fun d hd ↦ ?_⟩
    rw [parameters_of_nodeAt? hparsed (List.mem_flatMap.2 ⟨stmt, hstmt, hn⟩) hd]
    exact declaredLength_tableOf hparams
  · exact hnamed
  · trivial

theorem not_miscounts_of_walkAll (hparsed : parse? source jsx = some parsed) (tame : o.runtime.IsTame)
    {depth : Nat} {stmts' : List Stmt} {s : State}
    (hwalk : walkAll (siteOf source o parsed) depth parsed.program.body = some (stmts', s)) :
    ∀ d ∈ s.errors, ¬d.Miscounts := by
  have hnone := nodeAt?_none_of_toldApart source o parsed (toldApart_of_parse? hparsed)
  exact holds_of_walkAll (u := counting) (endures_tabled hnone) wears_tabled tame trivial
    (fun n hn note ↦ counting_allows tame hn) (by simp [counting, initial])
    (fun stmt hstmt ↦ everywhere_tabled hparsed hstmt) hwalk

theorem not_miscounts_of_emit {program : Program} {stats : Stats} :
    ∀ d ∈ (emit o program stats).errors, ¬d.Miscounts := by
  unfold emit
  dsimp only
  split
  · exact List.forall_mem_singleton.2 (not_miscounts_of_failure _ _)
  · exact fun d hd ↦ absurd hd List.not_mem_nil

theorem not_miscounts_of_transformParsed (hparsed : parse? source jsx = some parsed)
    (tame : o.runtime.IsTame) : ∀ d ∈ (transformParsed source o parsed).errors, ¬d.Miscounts := by
  unfold transformParsed
  dsimp only
  split
  · exact List.forall_mem_singleton.2 (not_miscounts_of_failure _ _)
  · next body s hwalk =>
    split
    · split
      · exact not_miscounts_of_emit
      · exact fun d hd ↦ absurd hd List.not_mem_nil
    · intro d hd
      obtain hd | hd := List.mem_append.1 hd
      · exact not_miscounts_of_walkAll hparsed tame hwalk d hd
      · obtain ⟨f, -, rfl⟩ := Option.map_eq_some_iff.1 (Option.mem_toList.1 hd)
        exact not_miscounts_of_failure _ _

end

/-- The signature of a function counts the parameters of that function, and no file is ever refused
because one did not, as long as the names of the runtime read as names. -/
theorem transform_never_miscounts (source : String) (o : Options) (tame : o.runtime.IsTame) :
    (∀ d ∈ (transform source o).errors, ¬d.Miscounts) ∧
      ∀ parsed, parse? source (allowsElements o.filePath) = some parsed →
        ∀ span head typeParams this params result body sig,
          Node.func span head typeParams this params result body ∈
            parsed.program.body.flatMap Node.nodes →
          Bears (siteOf source o parsed) span head.form params sig →
          sig.parameters = tableOf (siteOf source o parsed)
            (.func span head typeParams this params result body) := by
  refine ⟨fun d hd ↦ ?_, fun parsed hparsed span head typeParams this params result body sig hf hsig ↦ ?_⟩
  · unfold transform at hd
    split at hd
    · exact List.mem_singleton.1 hd ▸ not_miscounts_of_failure _ _
    · split at hd
      · exact List.mem_singleton.1 hd ▸ not_miscounts_of_code (by simp [parseDiagnostic, Rule.code])
      · next parsed hparsed => exact not_miscounts_of_transformParsed hparsed tame d hd
  · cases hsig with
    | declared found => exact parameters_of_nodeAt? hparsed hf found
    | marked => rfl

def threadedSource : String :=
  "/** @memo */ function view(__memo_context) \x7b\x7d\n"

set_option maxRecDepth 100000 in
theorem codes_threadedSource : (transform threadedSource {}).errors.map (·.code) = [Rule.arity.code] := by
  decide +kernel

theorem transform_never_miscounts_threadedSource : ({} : Options).runtime.IsTame ∧
    ∃ d, (transform threadedSource {}).errors = [d] ∧ d.code = Rule.arity.code ∧ ¬d.Miscounts := by
  have tame : ({} : Options).runtime.IsTame := RuntimeNames.isTame_default
  obtain ⟨d, hd, hcode⟩ := List.map_eq_singleton_iff.1 codes_threadedSource
  refine ⟨tame, d, hd, hcode, (transform_never_miscounts threadedSource {} tame).1 d ?_⟩
  rw [hd]
  exact List.mem_singleton_self d

/-- The generated code holds a function expression, with a span of its own text. -/
def functionScope : Options where
  runtime := { shortNames with conditionScope := "(function(a)\x7b;\x7d)" }
  emitImports := false

def functionScopeSource : String :=
  "/** @memo_intrinsic       */ function v()\x7b\x7d\n/** @memo */ function w(x) \x7b if (x) x; \x7d\n"

set_option maxRecDepth 100000 in
theorem records_functionScope :
    (transform functionScopeSource functionScope).errors.map (fun d ↦ (d.code, d.message)) =
      [(Rule.arity.code, quoted "input.ts::v" ++ " declares " ++ toString 1 ++
        " parameters but its binding table records " ++ toString 0)] := by
  decide +kernel

/-- With such a name a function is taken for another, and the file is refused. -/
theorem transform_miscounts_functionScope :
    ∃ d ∈ (transform functionScopeSource functionScope).errors, d.Miscounts := by
  obtain ⟨d, hd, hrecord⟩ := List.map_eq_singleton_iff.1 records_functionScope
  obtain ⟨hcode, hmessage⟩ := Prod.mk.inj hrecord
  exact ⟨d, by simp [hd], hcode, _, _, _, hmessage⟩

end Weave

end Recompose
