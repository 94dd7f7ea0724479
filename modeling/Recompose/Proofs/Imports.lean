import Recompose.Proofs.Reading.Import

namespace Recompose

open Script

def neededNames (o : Options) (usesConditions : Bool) : List String :=
  [o.runtime.contextType, o.runtime.idType]
    ++ if usesConditions then [o.runtime.conditionScope, o.runtime.conditionBranch] else []

def missingLine (typeOnly : Bool) (names existing : List String) (source : String) :
    List ImportLine :=
  match names.filter (!existing.contains ·) with
  | [] => []
  | missing => [⟨typeOnly, missing, source⟩]

def missingLines (o : Options) (existing : List String) (usesConditions : Bool) : List ImportLine :=
  missingLine true [o.runtime.contextType, o.runtime.idType] existing o.runtimeModule
    ++ if usesConditions then
        missingLine false [o.runtime.conditionScope, o.runtime.conditionBranch] existing o.builderModule
      else []

theorem importText_eq_map (typeOnly : Bool) (names existing : List String) (source : String) :
    importText (if typeOnly then "import type" else "import") names existing source =
      (missingLine typeOnly names existing source).map ImportLine.text := by
  unfold importText missingLine
  cases names.filter (!existing.contains ·) with
  | nil => rfl
  | cons name names => rfl

theorem runtimeImports_eq_map (o : Options) (existing : List String) (usesConditions : Bool) :
    runtimeImports o existing usesConditions =
      (missingLines o existing usesConditions).map ImportLine.text := by
  have htypes := importText_eq_map true [o.runtime.contextType, o.runtime.idType] existing
    o.runtimeModule
  have hconditions := importText_eq_map false [o.runtime.conditionScope, o.runtime.conditionBranch]
    existing o.builderModule
  unfold runtimeImports missingLines
  rw [List.map_append, ← htypes]
  cases usesConditions with
  | false => rfl
  | true => exact congrArg (_ ++ ·) hconditions

theorem flatMap_names_missingLine (typeOnly : Bool) (names existing : List String) (source : String) :
    (missingLine typeOnly names existing source).flatMap ImportLine.names =
      names.filter (!existing.contains ·) := by
  unfold missingLine
  split
  · next h => rw [h]; rfl
  · next h => simp

theorem flatMap_names_missingLines (o : Options) (existing : List String) (usesConditions : Bool) :
    (missingLines o existing usesConditions).flatMap ImportLine.names =
      (neededNames o usesConditions).filter (!existing.contains ·) := by
  unfold missingLines neededNames
  rw [List.flatMap_append, flatMap_names_missingLine, List.filter_append]
  cases usesConditions with
  | false => rfl
  | true => exact congrArg (_ ++ ·) (flatMap_names_missingLine _ _ _ _)

theorem isReadable_of_mem_missingLine {typeOnly : Bool} {names existing : List String}
    {source : String} (hnames : names.all isPlainName) (hsource : isQuotable source) :
    ∀ line ∈ missingLine typeOnly names existing source, line.isReadable := by
  intro line hline
  unfold missingLine at hline
  split at hline
  · simp at hline
  · obtain rfl := List.mem_singleton.1 hline
    have hmissing : (names.filter (!existing.contains ·)).all isPlainName :=
      List.all_eq_true.2 fun name hname ↦ List.all_eq_true.1 hnames name (List.mem_filter.1 hname).1
    exact Bool.and_eq_true_iff.2 ⟨hmissing, hsource⟩

theorem importedNames_of_isRead {lines : List ImportLine} {stmts : List Stmt}
    (h : List.Forall₂ ImportLine.IsRead lines stmts) :
    importedNames stmts = lines.flatMap ImportLine.names := by
  induction h with
  | nil => rfl
  | @cons line stmt lines stmts hread _ ih =>
    obtain ⟨span, source, rfl⟩ := hread
    rw [importedNames, List.flatMap_cons, List.flatMap_cons, ← ih, importedNames]
    refine congrArg (· ++ _) ?_
    simp [boundByImport, ImportItem.local, Function.comp_def]

theorem isImport_of_isRead {lines : List ImportLine} {stmts : List Stmt}
    (h : List.Forall₂ ImportLine.IsRead lines stmts) : ∀ stmt ∈ stmts, isImport stmt := by
  induction h with
  | nil => simp
  | cons hread _ ih =>
    obtain ⟨span, source, rfl⟩ := hread
    exact List.forall_mem_cons.2 ⟨rfl, ih⟩

theorem missingLine_eq_nil {typeOnly : Bool} {names existing : List String} {source : String}
    (h : ∀ name ∈ names, name ∈ existing) : missingLine typeOnly names existing source = [] := by
  have hnone : names.filter (!existing.contains ·) = [] := by simpa using h
  rw [missingLine, hnone]

theorem insertImports_of_imported {o : Options} {usesConditions : Bool} {body : List Stmt}
    (h : ∀ name ∈ neededNames o usesConditions, name ∈ importedNames body) :
    insertImports o usesConditions body = .ok body := by
  have hlines : missingLines o (importedNames body) usesConditions = [] := by
    unfold missingLines neededNames at *
    rw [missingLine_eq_nil fun name hname ↦ h name (List.mem_append_left _ hname)]
    cases usesConditions with
    | false => rfl
    | true => exact missingLine_eq_nil fun name hname ↦ h name (List.mem_append_right _ hname)
  rw [insertImports, runtimeImports_eq_map, hlines]
  rfl

theorem isReadable_missingLines {o : Options} (hnames : ∀ name ∈ neededNames o true, isPlainName name)
    (hruntime : isQuotable o.runtimeModule) (hbuilder : isQuotable o.builderModule)
    (existing : List String) (usesConditions : Bool) :
    ∀ line ∈ missingLines o existing usesConditions, line.isReadable := by
  intro line hline
  rcases List.mem_append.1 hline with hline | hline
  · refine isReadable_of_mem_missingLine (List.all_eq_true.2 fun name hname ↦ ?_) hruntime line hline
    exact hnames name (List.mem_append_left _ hname)
  · cases usesConditions with
    | false => simp at hline
    | true =>
      refine isReadable_of_mem_missingLine (List.all_eq_true.2 fun name hname ↦ ?_) hbuilder line hline
      exact hnames name (List.mem_append_right _ hname)

theorem insertImports_eq_ok {o : Options} {usesConditions : Bool} {body : List Stmt}
    (h : ∀ line ∈ missingLines o (importedNames body) usesConditions, line.isReadable) :
    ∃ added, insertImports o usesConditions body =
        .ok (body.takeWhile isImport ++ added ++ body.dropWhile isImport) ∧
      List.Forall₂ ImportLine.IsRead (missingLines o (importedNames body) usesConditions) added := by
  rw [insertImports, runtimeImports_eq_map]
  generalize missingLines o (importedNames body) usesConditions = lines at h ⊢
  cases lines with
  | nil => exact ⟨[], by simp [pure, Except.pure, List.takeWhile_append_dropWhile], .nil⟩
  | cons line lines =>
    obtain ⟨stmts, hstmts, hread⟩ := moduleItems_eq_ok h (by simp)
    refine ⟨stmts, ?_, hread⟩
    rw [List.map_cons] at hstmts ⊢
    dsimp only
    rw [hstmts]
    rfl

/-- The imports of a woven file. Afterwards every needed name is imported. What is added stands
together behind the imports that the file starts with, imports needed names only, and none that the
file imported already; the rest of the file is as it was. Doing it again adds nothing. -/
theorem insertImports_complete (o : Options) (usesConditions : Bool) (body : List Stmt)
    (hnames : ∀ name ∈ neededNames o true, isPlainName name) (hruntime : isQuotable o.runtimeModule)
    (hbuilder : isQuotable o.builderModule) :
    ∃ added result, insertImports o usesConditions body = .ok result ∧
      result = body.takeWhile isImport ++ added ++ body.dropWhile isImport ∧
      (∀ stmt ∈ added, isImport stmt) ∧
      (∀ name ∈ neededNames o usesConditions, name ∈ importedNames result) ∧
      (∀ name ∈ importedNames added, name ∈ neededNames o usesConditions ∧
        name ∉ importedNames body) ∧
      insertImports o usesConditions result = .ok result := by
  obtain ⟨added, hresult, hread⟩ := insertImports_eq_ok
    (isReadable_missingLines hnames hruntime hbuilder (importedNames body) usesConditions)
  have hadded : importedNames added =
      (neededNames o usesConditions).filter (!(importedNames body).contains ·) := by
    rw [importedNames_of_isRead hread, flatMap_names_missingLines]
  have hsplit (name : String) : name ∈ importedNames
      (body.takeWhile isImport ++ added ++ body.dropWhile isImport) ↔
        name ∈ importedNames added ∨ name ∈ importedNames body := by
    nth_rewrite 3 [← List.takeWhile_append_dropWhile (p := isImport) (l := body)]
    simp only [importedNames, List.flatMap_append, List.mem_append]
    tauto
  have hneeded : ∀ name ∈ neededNames o usesConditions, name ∈ importedNames
      (body.takeWhile isImport ++ added ++ body.dropWhile isImport) := by
    intro name hname
    rw [hsplit, hadded, List.mem_filter]
    by_cases hexists : name ∈ importedNames body
    · exact .inr hexists
    · exact .inl ⟨hname, by simpa using hexists⟩
  refine ⟨added, _, hresult, rfl, isImport_of_isRead hread, hneeded, ?_,
    insertImports_of_imported hneeded⟩
  intro name hname
  rw [hadded, List.mem_filter] at hname
  exact ⟨hname.1, by simpa using hname.2⟩

/-- A namespace, a call, and an import further down that binds one of the types by a new name. -/
def scatteredImports : List Stmt :=
  [.importDecl .none ⟨false, none, some [.namespace "ConditionScope"], ⟨"a", false⟩, none⟩,
    .exprStmt .none (.apply .none (.call false false) (.ref .none "run") [] []),
    .importDecl .none
      ⟨true, none, some [.named false (.ident "Id") "__memo_id_type"], ⟨"b", false⟩, none⟩]

theorem insertImports_complete_scattered :
    (∀ name ∈ neededNames {} true, isPlainName name) ∧
      ∃ added result, insertImports {} true scatteredImports = .ok result ∧
        result = scatteredImports.takeWhile isImport ++ added ++ scatteredImports.dropWhile isImport ∧
        (∀ stmt ∈ added, isImport stmt) ∧
        (∀ name ∈ neededNames {} true, name ∈ importedNames result) ∧
        (∀ name ∈ importedNames added, name ∈ neededNames {} true ∧
          name ∉ importedNames scatteredImports) ∧
        insertImports {} true result = .ok result := by
  have hnames : ∀ name ∈ neededNames {} true, isPlainName name := by decide +kernel
  exact ⟨hnames, insertImports_complete {} true scatteredImports hnames (by decide +kernel)
    (by decide +kernel)⟩

end Recompose
