import Recompose.Proofs.Glue

namespace Recompose

open Script

namespace ParameterTable

open Weave (isParam)

def paramName? : Param → Option String
  | .param _ _ _ _ target _ _ => target.simpleName?
  | _ => none

def paramStart : Param → Nat
  | .param span _ _ _ _ _ _ => span.start
  | _ => 0

def isSkipped (a : Annotations) (functionStart : Option Nat) : Param → Bool
  | .param span _ _ decorators _ _ _ =>
    (commentMarkers a functionStart span.start).skip || (Markers.ofDecorators decorators).skip
  | _ => false

/-- Does the parameter go by a name, stand for one argument, and lack a mark to be skipped? -/
def isRegistered (a : Annotations) (functionStart : Option Nat) (p : Param) : Bool :=
  (paramName? p).isSome && !Glue.isRest p && !isSkipped a functionStart p

def unskipped (a : Annotations) (functionStart : Option Nat) (params : List Param) : List Param :=
  params.filter (!isSkipped a functionStart ·)

def numbered (slot : Nat) (names : List String) : List (Nat × String) :=
  (names.zipIdx slot).map Prod.swap

/-- What a binding says about its parameter. A rest parameter is skipped by a comment only. -/
structure Records (a : Annotations) (functionStart : Option Nat) (p : Param) (b : ParameterBinding) :
    Prop where
  name : b.name = paramName? p
  rest : b.rest = Glue.isRest p
  start : b.start = paramStart p
  skip : Glue.isRest p = false → b.skip = isSkipped a functionStart p
  skipped : b.skip = true → isSkipped a functionStart p = true
  slot : b.slot.isSome = isRegistered a functionStart p

variable {a : Annotations} {functionStart : Option Nat} {params : List Param}

theorem isRegistered_iff {p : Param} : isRegistered a functionStart p = true ↔
    (∃ name, paramName? p = some name) ∧ Glue.isRest p = false ∧
      isSkipped a functionStart p = false := by
  simp [isRegistered, Option.isSome_iff_exists, and_assoc]

theorem exists_binding {p : Param} (params : List Param) (hp : isParam p = true) (index slot : Nat) :
    ∃ b, Records a functionStart p b ∧ b.index = index ∧
      b.slot = (if isRegistered a functionStart p then some slot else none) ∧
      bindingsFrom a functionStart index slot (p :: params) =
        b :: bindingsFrom a functionStart (index + 1)
          (if isRegistered a functionStart p then slot + 1 else slot) params := by
  unfold isParam at hp
  split at hp
  · next span mods rest decorators target type init =>
    cases rest with
    | false =>
      have hwatched : (!((commentMarkers a functionStart span.start).merge
          (Markers.ofDecorators decorators)).skip && target.simpleName?.isSome) =
          isRegistered a functionStart (.param span mods false decorators target type init) := by
        simp [isRegistered, isSkipped, paramName?, Glue.isRest, Markers.merge, Bool.and_comm]
      rw [bindingsFrom, hwatched]
      refine ⟨_, ⟨rfl, rfl, rfl, fun _ ↦ rfl, id, ?_⟩, rfl, rfl, rfl⟩
      split <;> simp [*]
    | true =>
      have hwatched :
          isRegistered a functionStart (.param span mods true decorators target type init) = false := by
        simp [isRegistered, Glue.isRest]
      rw [bindingsFrom, hwatched]
      refine ⟨_, ⟨rfl, rfl, rfl, fun h ↦ Bool.noConfusion h, fun h ↦ ?_, ?_⟩, rfl, rfl, rfl⟩
      · rw [isSkipped, Bool.or_eq_true]
        exact .inl h
      · exact hwatched.symm
  · cases hp

theorem forall₂_records (h : ∀ p ∈ params, isParam p = true) (index slot : Nat) :
    List.Forall₂ (Records a functionStart) params (bindingsFrom a functionStart index slot params) := by
  induction params generalizing index slot with
  | nil => exact .nil
  | cons p params ih =>
    obtain ⟨hp, hparams⟩ := List.forall_mem_cons.1 h
    obtain ⟨b, hrecords, -, -, heq⟩ := exists_binding params hp index slot
    rw [heq]
    exact .cons hrecords (ih hparams _ _)

theorem map_index_bindingsFrom (h : ∀ p ∈ params, isParam p = true) (index slot : Nat) :
    (bindingsFrom a functionStart index slot params).map (·.index) =
      List.range' index params.length := by
  induction params generalizing index slot with
  | nil => rfl
  | cons p params ih =>
    obtain ⟨hp, hparams⟩ := List.forall_mem_cons.1 h
    obtain ⟨b, -, hindex, -, heq⟩ := exists_binding params hp index slot
    rw [heq, List.map_cons, ih hparams, hindex]
    rfl

def registeredNames (a : Annotations) (functionStart : Option Nat) (params : List Param) : List String :=
  (params.filter (isRegistered a functionStart)).filterMap paramName?

theorem map_some_registeredNames (a : Annotations) (functionStart : Option Nat) (params : List Param) :
    (registeredNames a functionStart params).map some =
      (params.filter (isRegistered a functionStart)).map paramName? := by
  induction params with
  | nil => rfl
  | cons p params ih =>
    unfold registeredNames at ih ⊢
    cases hreg : isRegistered a functionStart p with
    | true =>
      obtain ⟨name, hname⟩ := (isRegistered_iff.1 hreg).1
      simp [hreg, hname, ih]
    | false => simp [hreg, ih]

theorem registered_bindingsFrom (h : ∀ p ∈ params, isParam p = true) (index slot : Nat) :
    (⟨bindingsFrom a functionStart index slot params⟩ : ParameterTable).registered =
      numbered slot (registeredNames a functionStart params) := by
  induction params generalizing index slot with
  | nil => rfl
  | cons p params ih =>
    obtain ⟨hp, hparams⟩ := List.forall_mem_cons.1 h
    obtain ⟨b, hrecords, -, hslot, heq⟩ := exists_binding params hp index slot
    have hrest := ih hparams (index + 1) (if isRegistered a functionStart p then slot + 1 else slot)
    unfold registered at hrest ⊢
    rw [heq, List.filterMap_cons, hrest, hslot, hrecords.name]
    cases hreg : isRegistered a functionStart p with
    | true =>
      obtain ⟨name, hname⟩ := (isRegistered_iff.1 hreg).1
      simp [registeredNames, hreg, hname, numbered]
    | false => simp [registeredNames, hreg]

theorem map_fst_numbered (names : List String) :
    (numbered 0 names).map (·.1) = List.range names.length := by
  simp [numbered, List.range_eq_range', Function.comp_def]

theorem map_snd_numbered (slot : Nat) (names : List String) :
    (numbered slot names).map (·.2) = names := by
  simp [numbered, Function.comp_def]

theorem length_numbered (slot : Nat) (names : List String) :
    (numbered slot names).length = names.length := by
  simp [numbered]

/-- Only what goes by a name has a slot, so that nothing with a slot is left out. -/
theorem slotCount_eq_length {bs : List ParameterBinding}
    (h : List.Forall₂ (Records a functionStart) params bs) :
    (⟨bs⟩ : ParameterTable).slotCount = (⟨bs⟩ : ParameterTable).registered.length := by
  unfold slotCount registered
  dsimp only
  induction h with
  | nil => rfl
  | @cons p b params bs hb _ ih =>
    cases hslot : b.slot with
    | none => simpa [hslot] using ih
    | some slot =>
      have hreg : isRegistered a functionStart p = true := by rw [← hb.slot, hslot]; rfl
      obtain ⟨name, hname⟩ := (isRegistered_iff.1 hreg).1
      simpa [hslot, hb.name, hname] using ih

theorem registered_ofParams (h : ∀ p ∈ params, isParam p = true) :
    (ofParams params a functionStart).registered =
      numbered 0 (registeredNames a functionStart params) :=
  registered_bindingsFrom h 0 0

theorem map_rest_bindings {items : List Param} {rest : Option Param} {bs : List ParameterBinding}
    (hitems : ∀ p ∈ items, Glue.isRest p = false) (hrest : ∀ p ∈ rest, Glue.isRest p = true)
    (h : List.Forall₂ (Records a functionStart) (items ++ rest.toList) bs) :
    bs.map (·.rest) = List.replicate items.length false ++ List.replicate rest.toList.length true := by
  have hmap : bs.map (·.rest) = (items ++ rest.toList).map Glue.isRest := by
    generalize items ++ rest.toList = params at h
    induction h with
    | nil => rfl
    | cons hb _ ih => rw [List.map_cons, List.map_cons, hb.rest, ih]
  rw [hmap, List.map_append]
  congr 1
  · exact List.eq_replicate_iff.2 ⟨by simp, by simpa using hitems⟩
  · exact List.eq_replicate_iff.2 ⟨by simp, by simpa using hrest⟩

/-- A memo function whose parameters pass has only registered and skipped ones. -/
theorem isRegistered_of_passes {names : RuntimeNames} {sig : Weave.Signature} {start : Nat}
    (hparams : ∀ p ∈ params, isParam p = true) (hmode : sig.mode = .memo)
    (htable : sig.parameters = ofParams params a functionStart)
    (hpasses : Weave.breaches names sig params start = []) :
    ∀ p ∈ params, isSkipped a functionStart p = false → isRegistered a functionStart p = true := by
  intro p hp hskip
  have haddressable : ∀ b ∈ sig.parameters.bindings, b.isUnaddressable = false := by
    unfold Weave.breaches at hpasses
    dsimp only at hpasses
    split at hpasses
    · cases hpasses
    split at hpasses
    · next hentry => rw [hmode] at hentry; cases hentry
    split at hpasses
    · cases hpasses
    rw [List.map_eq_nil_iff, List.filter_eq_nil_iff] at hpasses
    exact fun b hb ↦ by simpa using hpasses b hb
  have hall : List.Forall₂ (Records a functionStart) params sig.parameters.bindings :=
    htable ▸ forall₂_records hparams 0 0
  obtain ⟨b, hb, hrecords⟩ := exists_of_forall₂_right hall.flip hp
  have hnoskip : b.skip = false := by
    cases hb : b.skip with
    | true => exact absurd (hrecords.skipped hb) (by simp [hskip])
    | false => rfl
  have hnamed := haddressable b hb
  rw [ParameterBinding.isUnaddressable, hnoskip, hrecords.name, hrecords.rest] at hnamed
  simp only [Bool.not_false, Bool.true_and, Bool.or_eq_false_iff, Option.isNone_eq_false_iff] at hnamed
  exact isRegistered_iff.2 ⟨Option.isSome_iff_exists.1 hnamed.1, hnamed.2, hskip⟩

theorem filter_isRegistered_of_passes
    (h : ∀ p ∈ params, isSkipped a functionStart p = false → isRegistered a functionStart p = true) :
    params.filter (isRegistered a functionStart) = unskipped a functionStart params := by
  refine List.filter_congr fun p hp ↦ ?_
  cases hskip : isSkipped a functionStart p with
  | true => simp [isRegistered, hskip]
  | false => simp [h p hp hskip]

/-- The table of a parameter list numbers its registered parameters. If the parameters of a memo function
pass, these are all that are not skipped, and its cache scope is opened with their number and with a
registration for each of them. -/
theorem ofParams_numbers (items : List Param) (rest : Option Param) (a : Annotations)
    (functionStart : Option Nat)
    (hitems : ∀ p ∈ items, isParam p = true ∧ Glue.isRest p = false)
    (hrest : ∀ p ∈ rest, isParam p = true ∧ Glue.isRest p = true) :
    let params := items ++ rest.toList
    let t := ofParams params a functionStart
    (List.Forall₂ (Records a functionStart) params t.bindings ∧
      t.bindings.map (·.index) = List.range params.length ∧
      t.bindings.map (·.rest) =
        List.replicate items.length false ++ List.replicate rest.toList.length true) ∧
    (t.registered.map (·.1) = List.range t.slotCount ∧
      t.registered.map (some ·.2) = (params.filter (isRegistered a functionStart)).map paramName?) ∧
    ∀ (names : RuntimeNames) (sig : Weave.Signature) (start : Nat), sig.mode = .memo →
      sig.parameters = t → Weave.breaches names sig params start = [] →
      List.Forall₂ (fun p b ↦ isSkipped a functionStart p = false → b.slot.isSome = true)
          params t.bindings ∧
        t.slotCount = (unskipped a functionStart params).length ∧
        t.registered.map (some ·.2) = (unskipped a functionStart params).map paramName? ∧
        (∀ offset kind, Glue.preamble names offset kind t.registered =
          Glue.statements (Glue.scopeText names offset kind (unskipped a functionStart params).length ++
            Glue.registrationsText names t.registered ++ Glue.shortcutText names kind)) ∧
        ((∀ p ∈ params, IsParameter p) → ∀ offset kind, Preamble.IsReadable kind →
          ∃ stmts, Glue.preamble {} offset kind t.registered = .ok stmts ∧
            Preamble.IsPreamble offset kind t.registered stmts) := by
  intro params t
  have hparams : ∀ p ∈ params, isParam p = true := by
    intro p hp
    obtain hp | hp := List.mem_append.1 hp
    · exact (hitems p hp).1
    · exact (hrest p (Option.mem_toList.1 hp)).1
  have hrecords : List.Forall₂ (Records a functionStart) params t.bindings :=
    forall₂_records hparams 0 0
  have hregistered : t.registered = numbered 0 (registeredNames a functionStart params) :=
    registered_ofParams hparams
  have hnames : t.registered.map (some ·.2) =
      (params.filter (isRegistered a functionStart)).map paramName? := by
    have hsome := congrArg (List.map some) (map_snd_numbered 0 (registeredNames a functionStart params))
    rw [List.map_map] at hsome
    rw [hregistered, ← map_some_registeredNames]
    exact hsome
  refine ⟨⟨hrecords, ?_, ?_⟩, ⟨?_, hnames⟩, fun names sig start hmode htable hpasses ↦ ?_⟩
  · rw [List.range_eq_range']
    exact map_index_bindingsFrom hparams 0 0
  · exact map_rest_bindings (fun p hp ↦ (hitems p hp).2) (fun p hp ↦ (hrest p hp).2) hrecords
  · rw [slotCount_eq_length hrecords, hregistered, map_fst_numbered, length_numbered]
  have hpass := isRegistered_of_passes hparams hmode htable hpasses
  rw [filter_isRegistered_of_passes hpass] at hnames
  have hlength : t.registered.length = (unskipped a functionStart params).length := by
    simpa using congrArg List.length hnames
  refine ⟨?_, (slotCount_eq_length hrecords).trans hlength, hnames, fun offset kind ↦ ?_,
    fun hnamed offset kind hkind ↦ Preamble.preamble_eq_ok hkind
      (Weave.isIdentifierText_of_registered hnamed)⟩
  · refine ((List.forall₂_and_left _ _).2 ⟨hpass, hrecords⟩).imp fun p b h hskip ↦ ?_
    rw [h.2.slot]
    exact h.1 hskip
  · rw [Glue.preamble, hlength]

def cardItems : List Param :=
  [.param ⟨14, 15⟩ {} false [] (.binding ⟨14, 15⟩ "x") none none,
    .param ⟨34, 37⟩ {} false [] (.arrayPattern ⟨34, 37⟩ [.binding ⟨35, 36⟩ "y"]) none none,
    .param ⟨39, 44⟩ {} false [] (.binding ⟨39, 40⟩ "z") none (some (.lit ⟨43, 44⟩ (.number "1")))]

def cardRest : Option Param :=
  some (.param ⟨63, 68⟩ {} true [] (.binding ⟨66, 68⟩ "ws") none none)

def cardMarks : Annotations :=
  ⟨[(34, { skip := true }), (63, { skip := true })]⟩

def cardSignature : Weave.Signature where
  qualifiedName := "input.ts::card"
  mode := .memo
  parameters := ofParams (cardItems ++ cardRest.toList) cardMarks none
  offset := 7
  reifies := true
  isLambda := false

theorem ofParams_numbers_card :
    (∀ p ∈ cardItems, isParam p = true ∧ Glue.isRest p = false) ∧
      (∀ p ∈ cardRest, isParam p = true ∧ Glue.isRest p = true) ∧
      Weave.breaches {} cardSignature (cardItems ++ cardRest.toList) 0 = [] ∧
      cardSignature.parameters.registered = [(0, "x"), (1, "z")] ∧
      cardSignature.parameters.slotCount =
        (unskipped cardMarks none (cardItems ++ cardRest.toList)).length ∧
      ∃ stmts, Glue.preamble {} 7 .void [(0, "x"), (1, "z")] = .ok stmts ∧
        Preamble.IsPreamble 7 .void [(0, "x"), (1, "z")] stmts := by
  have hitems : ∀ p ∈ cardItems, isParam p = true ∧ Glue.isRest p = false := by
    simp [cardItems, isParam, Glue.isRest]
  have hrest : ∀ p ∈ cardRest, isParam p = true ∧ Glue.isRest p = true := by
    simp [cardRest, isParam, Glue.isRest]
  have hpasses : Weave.breaches {} cardSignature (cardItems ++ cardRest.toList) 0 = [] := by decide
  have hregistered : cardSignature.parameters.registered = [(0, "x"), (1, "z")] := by decide
  have hnamed : ∀ p ∈ cardItems ++ cardRest.toList, IsParameter p := by
    simp [cardItems, cardRest, IsParameter, IsKnown, Node.simpleName?]
    decide
  obtain ⟨-, -, hchecked⟩ := ofParams_numbers cardItems cardRest cardMarks none hitems hrest
  obtain ⟨-, hcount, -, -, hread⟩ := hchecked {} cardSignature 0 rfl rfl hpasses
  exact ⟨hitems, hrest, hpasses, hregistered, hcount, hregistered ▸ hread hnamed 7 .void trivial⟩

end ParameterTable

end Recompose
