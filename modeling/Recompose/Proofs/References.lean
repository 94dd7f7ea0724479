import Recompose.Proofs.Marked
import Recompose.Proofs.Resolution
import Recompose.Proofs.Weave.Unobscured

namespace Recompose.Weave

open Script Scoping

variable {site : Site} {s s₁ s' : State} {x : String} {watched : List String}

theorem forall₂_zipWith {α β γ δ : Type} {R : γ → δ → Prop} {S : α → δ → Prop} {T : β → δ → Prop}
    {f : α → β → γ} {as : List α} {bs : List β} {ds : List δ} (h : List.Forall₂ S as ds)
    (h' : List.Forall₂ T bs ds) (hR : ∀ {a b d}, S a d → T b d → R (f a b) d) :
    List.Forall₂ R (List.zipWith f as bs) ds := by
  induction h generalizing bs with
  | nil => cases h'; exact .nil
  | cons head _ ih =>
    cases h' with
    | cons head' tail' => exact .cons (hR head head') (ih tail')

theorem forall₂_through {α β γ : Type} {R : β → γ → Prop} {S : α → γ → Prop} {T : α → β → Prop}
    {as : List α} {bs : List β} {cs : List γ} (h : List.Forall₂ S as cs) (h' : List.Forall₂ T as bs)
    (hR : ∀ a ∈ as, ∀ {b c}, S a c → T a b → R b c) : List.Forall₂ R bs cs := by
  induction h generalizing bs with
  | nil => cases h'; exact .nil
  | cons head _ ih =>
    cases h' with
    | cons head' tail' =>
      exact .cons (hR _ List.mem_cons_self head head')
        (ih tail' fun a ha ↦ hR a (List.mem_cons_of_mem _ ha))

def referenceName? : Node → Option String
  | .ref _ name => some name
  | .place (.ref _ name) => some name
  | .withDefault _ (.place (.ref _ name)) _ => some name
  | _ => none

def State.Watches (s : State) (watched : List String) : Prop :=
  s.scopes.All fun name b ↦ b.isWatched = true → name ∈ watched

theorem State.Watches.mem (h : s.Watches watched) {name : String}
    (hname : s.scopes.isWatched name = true) : name ∈ watched := by
  obtain ⟨b, hb, hmem⟩ := Scopes.All.exists_of_isWatched h hname
  exact hmem hb

theorem State.Watches.keeps (h : s.Watches watched) (hs : Keeps site s s') : s'.Watches watched :=
  hs.scopes.all (fun _ ↦ by simp [Binding.isWatched]) h

theorem isWatchedReference_eq (scopes : Scopes) (n : Node) :
    isWatchedReference scopes n = (referenceName? n).any scopes.isWatched := by
  unfold isWatchedReference referenceName?
  split <;> simp_all

def watchedNames (site : Site) (f : Func) : List String :=
  (tableOf site f).registered.map Prod.snd

def watching (site : Site) : Inherited (Role × List String) where
  parts a n n₁ := (placed site a.1 n n₁).map fun p ↦ (p.1, a.2)
  argument a := (a.1.asArgument, a.2)
  body a mode f _ := (bodyRole a.1 f, if mode = .memo then watchedNames site f ++ a.2 else a.2)
  warrants a mode f := Warranted site mode f a.1

/-- What goes with a role and the watched names around a place. -/
structure Attends (site : Site) (a : Role × List String) (s : State) (n : Node) : Prop where
  known : Known site s a.1 n
  watches : a.1 ≠ .foreign → s.Watches a.2

theorem watches_openMemo {sig : Signature} {f : Func} {params : List Param} {stmts : List Stmt}
    (hs : s.Watches watched) (hparams : sig.parameters = tableOf site f) :
    (s.openMemo site sig params stmts).Watches
      (if sig.mode = .memo then watchedNames site f ++ watched else watched) := by
  have houter : s.Watches (if sig.mode = .memo then watchedNames site f ++ watched else watched) := by
    split
    · exact fun frame hframe p hp hw ↦ List.mem_append_right _ (hs frame hframe p hp hw)
    · exact hs
  refine Scopes.All.bindAll (Scopes.All.pushFunction houter) fun p hp hw ↦ ?_
  rw [memoBindings, List.append_assoc] at hp
  obtain hp | hp := List.mem_append.1 hp
  · obtain ⟨b, hb, hp⟩ := List.mem_flatMap.1 hp
    obtain ⟨name, hname, rfl⟩ := List.mem_map.1 hp
    simp only [Binding.isWatched, Bool.and_eq_true, beq_iff_eq] at hw
    obtain ⟨hmode, hslot⟩ := hw
    obtain ⟨slot, hslot⟩ := Option.isSome_iff_exists.1 hslot
    rw [if_pos hmode]
    refine List.mem_append_left _ (List.mem_map.2 ⟨(slot, name), ?_, rfl⟩)
    refine List.mem_filterMap.2 ⟨b, hparams ▸ hb, ?_⟩
    rw [hslot, Option.mem_toList.1 hname]
  · obtain hp | hp := List.mem_append.1 hp
    · obtain ⟨param, -, hp⟩ := List.mem_flatMap.1 hp
      unfold patternBindings at hp
      split at hp
      · split at hp
        · obtain ⟨name, -, rfl⟩ := List.mem_map.1 hp
          simp [Binding.isWatched] at hw
        · simp at hp
      · simp at hp
    · simp [not_isWatched_of_mem_hoisted hp] at hw

theorem opens_watching {a : Role × List String} {sig : Signature} {span : Span} {head : FuncHead}
    {typeParams : List Node} {this : Option Node} {params params' : List Param} {result : Option Ty}
    {body : Node} (h : Attends site a s (.func span head typeParams this params result body))
    (hparams : a.1 ≠ .foreign →
      sig.parameters = tableOf site (.func span head typeParams this params result body)) :
    Opens site (watching site) (Attends site) a s sig
      (.func span head typeParams this params result body) params' body where
  bare _ m hm := by
    refine ⟨h.known.of_bodyPart rfl hm, fun hrole ↦ ?_⟩
    have hrole := ne_foreign_of_bodyRole hrole
    exact watches_openMemo (h.watches hrole) (hparams hrole)
  wrapped memo inner directives stmts enclosed count hparts hencloses m hm := by
    refine ⟨h.known.of_enclosed rfl hparts (enclosures_of_encloses hencloses) hm, fun hrole ↦ ?_⟩
    have hrole := ne_foreign_of_bodyRole hrole
    have hwatches : (s.openMemo site sig params' enclosed).Watches _ :=
      watches_openMemo (h.watches hrole) (hparams hrole)
    rw [memo] at hwatches
    exact hwatches

theorem inherits_watching (hnone : site.graph.nodeAt? .none = none) :
    Inherits site (watching site) (Attends site) (Keeps site) where
  kept h hs := ⟨h.known.keeps hs, fun hrole ↦ (h.watches hrole).keeps hs⟩
  enters {a s s₁ n n₁ leave} h henters := by
    refine forall₂_placed fun p hp ↦ ⟨h.known.enters henters hp, fun hrole ↦ ?_⟩
    have hwatches := h.watches (ne_foreign_of_mem_placed hp hrole)
    exact (all_of_enters (fun name b hb hw ↦ by simp [hb] at hw) henters hwatches).1
  call h _ := forall₂_placed fun p hp ↦
    ⟨h.known.part hp, fun hrole ↦ h.watches (ne_foreign_of_mem_placed hp hrole)⟩
  function h _ hsigned _ := by
    have hs := (keeps_of_signs hsigned).1
    exact opens_watching ⟨h.known.keeps hs, fun hrole ↦ (h.watches hrole).keeps hs⟩
      fun hrole ↦ h.known.parameters_eq hnone hrole hsigned
  signed h hsigned := h.known.warranted hsigned
  builder _ := warranted_asArgument site _ _
  argument h _ := by
    refine opens_watching ⟨h.known.asArgument, fun hrole ↦ ?_⟩ fun _ ↦ rfl
    exact h.watches (ne_foreign_of_asArgument hrole)

structure Sight where
  /-- The function of which it means a watched parameter. -/
  owner : Option Span := none
  /-- The innermost memo function around that has a constant for the name. -/
  opener : Option Span := none
deriving DecidableEq, Repr

def Sight.under (a : Sight) (inner : List Span) : Sight :=
  if inner.isEmpty then a else { a with owner := none }

def bodyScope (x : String) : Func → List Span
  | .func _ _ _ _ _ _ body => bodyDeclarations x (codeStmts body)
  | _ => []

def patternNames : Param → List String
  | .param _ _ _ _ target _ _ => if target.simpleName?.isNone then target.boundNames else []
  | _ => []

/-- Is the parameter that a name means watched if the function is wrapped? The last one of the name
counts. -/
def detects (site : Site) (x : String) : Func → Bool
  | .func span head typeParams this params result body =>
    !(params.flatMap patternNames).contains x &&
      ((tableOf site (.func span head typeParams this params result body)).bindings.reverse.find?
        (·.name = some x)).any (·.slot.isSome)
  | _ => false

/-- What a name means in the body of a memo function of some mode. -/
def Sight.inside (site : Site) (x : String) (a : Sight) (mode : MemoMode) (f : Func) : Sight where
  owner :=
    if !(bodyScope x f).isEmpty then none
    else if !(headScope x f).isEmpty then
      if mode = .memo ∧ detects site x f = true then some f.span else none
    else a.owner
  opener := if mode = .memo ∧ x ∈ watchedNames site f then some f.span else a.opener

def sighting (site : Site) (x : String) : Inherited (Role × Sight) where
  parts a n n₁ :=
    List.zipWith (fun p inner ↦ (p.1, a.2.under inner)) (placed site a.1 n n₁) (values x n₁)
  argument a := (a.1.asArgument, a.2)
  body a mode f _ := (bodyRole a.1 f, a.2.inside site x mode f)
  warrants a mode f := Warranted site mode f a.1

/-- References to a name are read where it means a watched parameter, and nowhere else; the constant
that is then read is that of the function which has the parameter. -/
structure Reads (site : Site) (x : String) (a : Role × Sight) (n n' : Node) : Prop where
  opener : ∀ owner, a.2.owner = some owner → a.2.opener = some owner
  reference : ∀ span, n = .ref span x →
    n' = if a.2.owner.isSome then Glue.parameterValue site.options.runtime x else .ref span x
  /-- A property that is written as a mere name is written out if the name is read. -/
  property : ∀ span key value, n = .pair span key value true → referenceName? value = some x →
    ∃ key' value', n' = .pair span key' value' a.2.owner.isNone
  field : ∀ span key value, n = .fieldPattern span key value true → referenceName? value = some x →
    ∃ key' value', n' = .fieldPattern span key' value' a.2.owner.isNone
  /-- A function is gone on with as it is or woven; the cache scope of a memo function opens with a
  constant for each of its watched parameters. -/
  function : ∀ {span head typeParams this params result body},
    n = .func span head typeParams this params result body → body ≠ .missing →
    n'.skeleton = n.skeleton ∨ ∃ mode, RenderedIn site mode n n'

def ReadsRight (site : Site) (x : String) (a : Role × Sight) (n n' : Node) : Prop :=
  a.1 ≠ .foreign → Reads site x a n n'

structure Sees (site : Site) (x : String) (a : Role × Sight) (s : State) (n : Node) : Prop where
  known : Known site s a.1 n
  clear : Clear x n
  opener : ∀ owner, a.2.owner = some owner → a.2.opener = some owner
  watched : a.1 ≠ .foreign → refers x n = true → s.scopes.isWatched x = a.2.owner.isSome

theorem Sight.opener_under {a : Sight} (h : ∀ owner, a.owner = some owner → a.opener = some owner)
    (inner : List Span) : ∀ owner, (a.under inner).owner = some owner →
      (a.under inner).opener = some owner := by
  unfold under
  split
  · exact h
  · simp

theorem Sight.owner_under (a : Sight) (inner : List Span) :
    (a.under inner).owner.isSome = (inner.isEmpty && a.owner.isSome) := by
  unfold under
  split <;> simp_all

theorem not_isWatched_of_lookup_hoisted {stmts : List Stmt} {b : Binding}
    (h : listed site x stmts = some b) : b.isWatched = false := by
  obtain ⟨l, r, hlist, -⟩ := List.lookup_eq_some_iff.1 h
  have hmem : (x, b) ∈ (hoistedBindings site.annotations stmts).reverse := by simp [hlist]
  exact not_isWatched_of_mem_hoisted (List.mem_reverse.1 hmem)

theorem not_isWatched_of_mem_opened {n : Node} {b : Binding} (h : some b ∈ opened site x n) :
    b.isWatched = false := by
  have hif {p : Prop} [Decidable p] (hb : (if p then some Binding.ordinary else none) = some b) :
      b.isWatched = false := by
    split at hb
    · obtain rfl := Option.some.inj hb
      rfl
    · simp at hb
  have hplain {params : List Param} (hb : plainParameter x params = some b) : b.isWatched = false :=
    hif hb
  have hheaded {init : Option Node} (hb : headed x init = some b) : b.isWatched = false := by
    unfold headed at hb
    split at hb
    · exact hif hb
    · simp at hb
  have hconst {ns : List Node} {o : Option Binding} (hmem : some b ∈ ns.map fun _ ↦ o) : o = some b := by
    obtain ⟨-, -, ho⟩ := List.mem_map.1 hmem
    exact ho
  unfold opened at h
  split at h
  · split at h
    · exact absurd (hconst h) (by simp)
    · obtain h | h := List.mem_append.1 h
      · exact hplain (hconst h)
      · obtain hb | ⟨-, hb⟩ := Option.or_eq_some_iff.1 (List.mem_singleton.1 h).symm
        · exact not_isWatched_of_lookup_hoisted hb
        · exact hplain hb
  · exact not_isWatched_of_lookup_hoisted (hconst h)
  · obtain h | h := List.mem_cons.1 h
    · simp at h
    · exact not_isWatched_of_lookup_hoisted (hconst h)
  · exact hheaded (hconst h)
  · exact hheaded (hconst h)
  · exact hif (hconst h)
  · exact absurd (hconst h) (by simp)

theorem isWatched_of_enters {n n₁ : Node} {leave : State → State} (h : Enters site s n n₁ s₁ leave)
    (hclear : Clear x n) :
    List.Forall₂ (fun inner m ↦ refers x m = true →
      s₁.scopes.isWatched x = (inner.isEmpty && s.scopes.isWatched x)) (values x n₁) n₁.children := by
  refine forall₂_through (binds_of_enters h hclear) (reflects_of_enters h hclear) ?_
  intro o ho inner m hbinds hreflects hrefers
  rw [Scopes.isWatched_eq, Scopes.isWatched_eq, hbinds hrefers]
  cases o with
  | none =>
    have hinner : inner.isEmpty = true := by simpa using hreflects
    simp [hinner]
  | some b =>
    have hinner : inner.isEmpty = false := by simpa using hreflects
    simp [hinner, not_isWatched_of_mem_opened ho]

structure KeepsFor (site : Site) (x : String) (s s' : State) : Prop where
  keeps : Keeps site s s'
  sameFor : s.scopes.SameFor x s'.scopes

theorem keepsFor_of_signs {span : Span} {form : FuncForm} {params : List Param} {o : Option Signature}
    (h : Signs site s span form params o s') : KeepsFor site x s s' := by
  have hscopes : s'.scopes = s.scopes := by cases h <;> rfl
  exact ⟨(keeps_of_signs h).1, by rw [hscopes]; exact .refl s.scopes⟩

theorem lasts_keepsFor {α : Type} {Inv : α → State → Node → Prop} (hnames : site.options.runtime.IsTame)
    (hclear : ∀ {a s n}, Inv a s n → Clear x n) : Lasts site Inv (KeepsFor site x) where
  trans h h' := ⟨h.keeps.trans h'.keeps, h.sameFor.trans h'.sameFor⟩
  walked h hw := ⟨hw.keeps, hw.sameFor hnames (hclear h)⟩
  built h _ hm := ⟨keeps_of_memoises (hm.mono Walks.rests),
    sameFor_of_memoises hnames (hm.mono fun hw ↦ hw.sameFor hnames) (hclear h)⟩
  next inside name := ⟨keeps_next inside name, .refl _⟩

theorem Sees.keeps {a : Role × Sight} {n : Node} (h : Sees site x a s n) (hs : KeepsFor site x s s') :
    Sees site x a s' n where
  known := h.known.keeps hs.keeps
  clear := h.clear
  opener := h.opener
  watched hrole hrefers := by
    rw [← h.watched hrole hrefers, Scopes.isWatched_eq, Scopes.isWatched_eq, hs.sameFor.lookup_eq]

theorem forall₂_zipWith_placed {α β : Type} {role : Role} {n n₁ : Node} {items : List α}
    {g : Role × Node → α → β} {R : β → Node → Prop} {P : α → Node → Prop}
    (hitems : List.Forall₂ P items n₁.children)
    (h : ∀ p ∈ placed site role n n₁, p.2 ∈ n₁.children → ∀ item ∈ items, P item p.2 →
      R (g p item) p.2) :
    List.Forall₂ R (List.zipWith g (placed site role n n₁) items) n₁.children := by
  have hplaced : List.Forall₂ (fun p m ↦ p ∈ placed site role n n₁ ∧ p.2 = m)
      ((placed site role n n₁).map id) n₁.children :=
    forall₂_placed fun p hp ↦ ⟨hp, rfl⟩
  rw [List.map_id] at hplaced
  have hmem : List.Forall₂ (fun item m ↦ item ∈ items ∧ P item m) items n₁.children :=
    (List.forall₂_and_left _ _).2 ⟨fun _ hitem ↦ hitem, hitems⟩
  refine forall₂_zipWith hplaced hmem fun {p item m} hp hitem ↦ ?_
  obtain ⟨hp, rfl⟩ := hp
  refine h p hp ?_ item hitem.1 hitem.2
  rw [← map_snd_placed site role n n₁]
  exact List.mem_map_of_mem hp

theorem Sees.enters (hnames : site.options.runtime.IsTame) {a : Role × Sight} {n n₁ : Node}
    {leave : State → State} (h : Sees site x a s n) (henters : Enters site s n n₁ s₁ leave) :
    List.Forall₂ (fun b m ↦ Sees site x b s₁ m) ((sighting site x).parts a n n₁) n₁.children := by
  refine forall₂_zipWith_placed (isWatched_of_enters henters h.clear) fun p hp hm inner _ hinner ↦ ?_
  refine ⟨h.known.enters henters hp, clear_of_enters hnames henters h.clear hm,
    Sight.opener_under h.opener inner, fun hrole hrefers ↦ ?_⟩
  have houter := h.watched (ne_foreign_of_mem_placed hp hrole)
    (refers_of_enters hnames henters hm hrefers)
  rw [hinner hrefers, houter, Sight.owner_under]

theorem values_of_isCall {n : Node} (h : isCall n = true) :
    List.Forall₂ (fun inner _ ↦ inner = []) (values x n) n.children := by
  cases n
  case apply => exact forall₂_map_const fun _ _ ↦ rfl
  all_goals simp [isCall] at h

theorem Sees.call {a : Role × Sight} {n : Node} (h : Sees site x a s n) (hn : isCall n = true) :
    List.Forall₂ (fun b m ↦ Sees site x b s m) ((sighting site x).parts a n n) n.children := by
  refine forall₂_zipWith_placed (values_of_isCall hn) fun p hp hm inner _ hinner ↦ ?_
  subst hinner
  refine ⟨h.known.part hp, h.clear.part hm, h.opener, fun hrole hrefers ↦ ?_⟩
  exact h.watched (ne_foreign_of_mem_placed hp hrole) (refers_of_part hm hrefers)

theorem boundNames_of_simpleName {target : Pattern} {name : String}
    (h : target.simpleName? = some name) : target.boundNames = [name] := by
  fun_induction Node.simpleName? target with
  | case1 span bound =>
    obtain rfl := Option.some.inj h
    rfl
  | case2 span target value ih => exact ih h
  | case3 => simp at h

theorem patternBindings_eq (param : Param) :
    patternBindings param = (patternNames param).map (·, .ordinary) := by
  cases param
  case param span mods rest decorators target type init =>
    rw [patternBindings, patternNames]
    split <;> rfl
  all_goals rfl

theorem patternNames_reshapes {names : RuntimeNames} {memoTyped : Bool} {param param' : Param}
    (h : Reshapes names memoTyped param param') : patternNames param' = patternNames param := by
  have hplain : patternNames (plainParam param) = patternNames param := by
    unfold plainParam
    split <;> rfl
  cases h with
  | kept => exact hplain
  | typed marked plain retyped =>
    rw [← hplain, plain]
    rfl

theorem patternNames_reshapesAll {names : RuntimeNames} {positions : List Nat} {index : Nat}
    {params params' : List Param} (h : ReshapesAll names positions index params params') :
    params'.flatMap patternNames = params.flatMap patternNames := by
  induction h with
  | nil => rfl
  | cons head _ ih => rw [List.flatMap_cons, List.flatMap_cons, ih, patternNames_reshapes head]

theorem lookup_patterns (params : List Param) :
    (params.flatMap patternBindings).reverse.lookup x =
      if x ∈ params.flatMap patternNames then some .ordinary else none := by
  have hbindings : params.flatMap patternBindings =
      (params.flatMap patternNames).map (·, .ordinary) := by
    rw [List.map_flatMap]
    exact List.flatMap_congr fun param _ ↦ patternBindings_eq param
  rw [hbindings, lookup_map_const]

theorem lookup_parameters (wrapped : Bool) (bindings : List ParameterBinding) :
    ((bindings.flatMap (parameterBinding wrapped)).reverse.lookup x) =
      (bindings.reverse.find? (·.name = some x)).map fun b ↦
        .parameter b.memoTyped (wrapped && b.slot.isSome) := by
  induction bindings with
  | nil => rfl
  | cons b bindings ih =>
    have hown : (parameterBinding wrapped b).reverse.lookup x =
        if b.name = some x then some (.parameter b.memoTyped (wrapped && b.slot.isSome)) else none := by
      unfold parameterBinding
      cases b.name with
      | none => rfl
      | some name =>
        by_cases hname : name = x
        · simp [hname]
        · have hne : (x == name) = false := beq_false_of_ne (Ne.symm hname)
          simp [List.lookup_cons, hne, hname]
    rw [List.flatMap_cons, List.reverse_append, List.lookup_append, ih, hown, List.reverse_cons,
      List.find?_append]
    cases bindings.reverse.find? (·.name = some x) with
    | some b => rfl
    | none => by_cases hname : b.name = some x <;> simp [hname]

theorem mem_paramNames_iff (a : Annotations) (start : Option Nat) (index slot : Nat)
    (params : List Param) : x ∈ params.flatMap paramNames ↔ x ∈ params.flatMap patternNames ∨
      ∃ b ∈ ParameterTable.bindingsFrom a start index slot params, b.name = some x := by
  have hparam (target : Pattern) : x ∈ target.boundNames ↔
      x ∈ (if target.simpleName?.isNone then target.boundNames else []) ∨
        target.simpleName? = some x := by
    cases hname : target.simpleName? with
    | none => simp
    | some name => simp [boundNames_of_simpleName hname, eq_comm]
  induction params generalizing index slot with
  | nil => simp [ParameterTable.bindingsFrom]
  | cons param params ih =>
    cases param
    case param span mods rest decorators target type init =>
      cases rest
      all_goals
        rw [List.flatMap_cons, List.flatMap_cons, List.mem_append, List.mem_append, paramNames,
          patternNames, hparam target, ParameterTable.bindingsFrom, List.exists_mem_cons_iff]
        exact (or_congr_right (ih _ _)).trans or_or_or_comm
    all_goals exact ih index slot

theorem lookup_openMemo {sig : Signature} {params : List Param} {stmts : List Stmt} :
    (s.openMemo site sig params stmts).scopes.lookup x =
      (listed site x stmts).or ((if x ∈ params.flatMap patternNames then some .ordinary else none).or
        (((sig.parameters.bindings.reverse.find? (·.name = some x)).map fun b ↦
          .parameter b.memoTyped (sig.mode == .memo && b.slot.isSome)).or (s.scopes.lookup x))) := by
  rw [State.openMemo, lookup_openFunction, memoBindings, List.reverse_append, List.reverse_append,
    List.lookup_append, List.lookup_append, lookup_patterns, lookup_parameters, Option.or_assoc,
    Option.or_assoc]
  rfl

section

variable {span : Span} {head : FuncHead} {typeParams : List Node} {this : Option Node}
  {params params' : List Param} {result : Option Ty} {body : Node}

theorem headScope_eq_nil_iff (h : Clear x (.func span head typeParams this params result body)) :
    headScope x (.func span head typeParams this params result body) = [] ↔
      x ∉ params.flatMap paramNames := by
  have hself := h.self
  rw [obscures, Bool.or_eq_false_iff, Bool.or_eq_false_iff] at hself
  have hown : ¬(head.form = .expression ∧ head.name = some x) := by simpa using hself.1.1
  have hparams := isSome_plainParameter (x := x) params
  rw [headScope, if_neg hown, ← List.isEmpty_iff, isEmpty_within, List.isEmpty_nil, Bool.true_and,
    ← Bool.not_eq_false', ← hparams]
  unfold plainParameter
  split <;> simp_all

theorem mem_watchedNames_of_find {f : Func} {b : ParameterBinding}
    (h : (tableOf site f).bindings.reverse.find? (·.name = some x) = some b) (hslot : b.slot.isSome = true) :
    x ∈ watchedNames site f := by
  obtain ⟨slot, hslot⟩ := Option.isSome_iff_exists.1 hslot
  have hname : b.name = some x := by simpa using List.find?_some h
  have hmem : b ∈ (tableOf site f).bindings := List.mem_reverse.1 (List.mem_of_find?_eq_some h)
  refine List.mem_map.2 ⟨(slot, x), List.mem_filterMap.2 ⟨b, hmem, ?_⟩, rfl⟩
  rw [hslot, hname]

theorem mem_table_of_watchedNames {f : Func} (h : x ∈ watchedNames site f) :
    ∃ b ∈ (tableOf site f).bindings, b.name = some x := by
  obtain ⟨p, hp, rfl⟩ := List.mem_map.1 h
  obtain ⟨b, hb, heq⟩ := List.mem_filterMap.1 hp
  split at heq
  · next slot name _ hname =>
    obtain rfl := Option.some.inj heq
    exact ⟨b, hb, hname⟩
  · simp at heq

theorem bodyScope_of_clear (h : Clear x (.func span head typeParams this params result body)) :
    bodyScope x (.func span head typeParams this params result body) = lexicals x (codeStmts body) :=
  bodyDeclarations_of_clear (clear_codeStmts (h.part (by simp [Node.children])))

theorem isWatched_openMemo {sig : Signature} {stmts : List Stmt} {a : Sight}
    (hclear : Clear x (.func span head typeParams this params result body))
    (hparams : sig.parameters = tableOf site (.func span head typeParams this params result body))
    (hreshapes : ReshapesAll site.options.runtime sig.parameters.memoIndices 0 params params')
    (hstmts : ∀ stmt ∈ stmts, unhoisted x stmt = false)
    (hlist : lexicals x stmts = lexicals x (codeStmts body))
    (houter : s.scopes.isWatched x = a.owner.isSome) :
    (s.openMemo site sig params' stmts).scopes.isWatched x =
      (a.inside site x sig.mode (.func span head typeParams this params result body)).owner.isSome := by
  let f := Node.func span head typeParams this params result body
  have hscope : bodyScope x f = lexicals x stmts := (bodyScope_of_clear hclear).trans hlist.symm
  have hhead : headScope x f = [] ↔ x ∉ params.flatMap paramNames := headScope_eq_nil_iff hclear
  have hnames := mem_paramNames_iff (x := x) site.annotations
    (if head.form = .arrow then some span.start else none) 0 0 params
  have htable : (tableOf site f).bindings = ParameterTable.bindingsFrom site.annotations
    (if head.form = .arrow then some span.start else none) 0 0 params := rfl
  have hlisted : (listed site x stmts).isSome = !(lexicals x stmts).isEmpty := isSome_listed hstmts
  have hdetects : detects site x f = (!(params.flatMap patternNames).contains x &&
    ((tableOf site f).bindings.reverse.find? (·.name = some x)).any (·.slot.isSome)) := rfl
  rw [← htable] at hnames
  rw [Scopes.isWatched_eq, lookup_openMemo, patternNames_reshapesAll hreshapes, hparams]
  rw [Scopes.isWatched_eq] at houter
  change _ = (a.inside site x sig.mode f).owner.isSome
  unfold Sight.inside
  dsimp only
  rw [hscope]
  cases hb : listed site x stmts with
  | some b =>
    have hne : (lexicals x stmts).isEmpty = false := by simpa [hb] using hlisted
    simp [hne, not_isWatched_of_lookup_hoisted hb]
  | none =>
    have hnil : (lexicals x stmts).isEmpty = true := by simpa [hb] using hlisted
    by_cases hpattern : x ∈ params.flatMap patternNames
    · have hne : headScope x f ≠ [] := fun h ↦ hhead.1 h (hnames.2 (.inl hpattern))
      have hundetected : detects site x f = false := by simp [hdetects, hpattern]
      rw [hundetected]
      simp [hnil, hne, hpattern, Binding.isWatched]
    · cases hfind : (tableOf site f).bindings.reverse.find? (·.name = some x) with
      | some b =>
        have hname : b.name = some x := by simpa using List.find?_some hfind
        have hmem : b ∈ (tableOf site f).bindings :=
          List.mem_reverse.1 (List.mem_of_find?_eq_some hfind)
        have hne : headScope x f ≠ [] := fun h ↦ hhead.1 h (hnames.2 (.inr ⟨b, hmem, hname⟩))
        have hdetected : detects site x f = b.slot.isSome := by simp [hdetects, hpattern, hfind]
        rw [hdetected]
        by_cases hmode : sig.mode = .memo <;> cases hslot : b.slot.isSome <;>
          simp [hnil, hne, hpattern, Binding.isWatched, hmode, hslot]
      | none =>
        have hnone : headScope x f = [] := by
          refine hhead.2 fun hx ↦ ?_
          obtain hx | ⟨b, hb, hname⟩ := hnames.1 hx
          · exact hpattern hx
          · simpa [hname] using List.find?_eq_none.1 hfind b (List.mem_reverse.2 hb)
        simp [hnil, hnone, hpattern, houter]

theorem opener_inside (mode : MemoMode) {a : Sight}
    (hclear : Clear x (.func span head typeParams this params result body))
    (h : ∀ owner, a.owner = some owner → a.opener = some owner) :
    ∀ owner,
      (a.inside site x mode (.func span head typeParams this params result body)).owner = some owner →
      (a.inside site x mode (.func span head typeParams this params result body)).opener =
        some owner := by
  let f := Node.func span head typeParams this params result body
  intro owner howner
  change (a.inside site x mode f).owner = some owner at howner
  change (a.inside site x mode f).opener = some owner
  unfold Sight.inside at *
  dsimp only at *
  split at howner
  · simp at howner
  · split at howner
    · split at howner
      · next hdetects =>
        obtain ⟨hmode, hdetects⟩ := hdetects
        obtain ⟨b, hfind, hslot⟩ := (Option.any_eq_true _ _).1 (Bool.and_eq_true_iff.1 hdetects).2
        rw [if_pos ⟨hmode, mem_watchedNames_of_find hfind hslot⟩]
        exact howner
      · simp at howner
    · next hhead =>
      have hnone : headScope x f = [] := by simpa using hhead
      rw [if_neg]
      · exact h owner howner
      · rintro ⟨-, hx⟩
        exact (headScope_eq_nil_iff hclear).1 hnone
          ((mem_paramNames_iff _ _ _ _ params).2 (.inr (mem_table_of_watchedNames hx)))

theorem lexicals_codeStmts {inner : Span} {directives : List String} {stmts : List Stmt} {role : Role}
    (hparts : bodyParts body = (inner, directives, stmts))
    (hrole : bodyRole role (.func span head typeParams this params result body) ≠ .foreign) :
    lexicals x stmts = lexicals x (codeStmts body) := by
  cases body
  case code =>
    obtain ⟨-, -, rfl⟩ := hparts
    rfl
  case concise =>
    obtain ⟨-, -, rfl⟩ := hparts
    rfl
  all_goals exact absurd rfl hrole

theorem opens_sighting (hnames : site.options.runtime.IsTame) (hx : ¬site.options.runtime.encloses x)
    {a : Role × Sight} {sig : Signature}
    (h : Sees site x a s (.func span head typeParams this params result body))
    (hparams : a.1 ≠ .foreign →
      sig.parameters = tableOf site (.func span head typeParams this params result body))
    (hreshapes : ReshapesAll site.options.runtime sig.parameters.memoIndices 0 params params') :
    Opens site (sighting site x) (Sees site x) a s sig
      (.func span head typeParams this params result body) params' body where
  bare notMemo m hm := by
    have hbody : Clear x body := h.clear.part (by simp [Node.children])
    refine ⟨h.known.of_bodyPart rfl hm, hbody.part hm, opener_inside _ h.clear h.opener,
      fun hrole hrefers ↦ ?_⟩
    have hrole := ne_foreign_of_bodyRole hrole
    have houter := h.watched hrole (refers_of_part (by simp [Node.children]) (refers_of_part hm hrefers))
    exact isWatched_openMemo h.clear (hparams hrole) hreshapes (unhoisted_codeStmts hbody) rfl houter
  wrapped memo inner directives stmts enclosed count hparts hencloses m hm := by
    have hencloses := enclosures_of_encloses hencloses
    have hclear := clear_enclosed hnames h.clear hparts hencloses
    refine ⟨h.known.of_enclosed rfl hparts hencloses hm, (hclear m hm).2,
      opener_inside _ h.clear h.opener, fun hbodyRole hrefers ↦ ?_⟩
    have hrole := ne_foreign_of_bodyRole hbodyRole
    have houter := h.watched hrole (refers_of_enclosed hnames hx hparts hencloses hm hrefers)
    have hlist : lexicals x enclosed = lexicals x (codeStmts body) :=
      (Condition.lexicals_enclosures hnames hencloses).trans (lexicals_codeStmts hparts hbodyRole)
    have hwatched : (s.openMemo site sig params' enclosed).scopes.isWatched x = _ :=
      isWatched_openMemo h.clear (hparams hrole) hreshapes
        (fun stmt hstmt ↦ (hclear stmt hstmt).1) hlist houter
    rw [memo] at hwatched
    exact hwatched

end

theorem inherits_sighting (hnames : site.options.runtime.IsTame)
    (hx : ¬site.options.runtime.encloses x) (hnone : site.graph.nodeAt? .none = none) :
    Inherits site (sighting site x) (Sees site x) (KeepsFor site x) where
  kept h hs := h.keeps hs
  enters h henters := h.enters hnames henters
  call h hn := h.call hn
  function h _ hsigned reshapes := opens_sighting hnames hx (h.keeps (keepsFor_of_signs hsigned))
    (fun hrole ↦ h.known.parameters_eq hnone hrole hsigned) reshapes
  signed h hsigned := h.known.warranted hsigned
  builder _ := warranted_asArgument site _ _
  argument h reshapes := by
    refine opens_sighting hnames hx
      ⟨h.known.asArgument, h.clear, h.opener, fun hrole ↦ ?_⟩ (fun _ ↦ rfl) reshapes
    exact h.watched (ne_foreign_of_asArgument hrole)

theorem isWatchedReference_of_eq {value : Node} (h : referenceName? value = some x) (scopes : Scopes) :
    isWatchedReference scopes value = scopes.isWatched x := by
  rw [isWatchedReference_eq, h]
  rfl

theorem refers_of_referenceName {value : Node} (h : referenceName? value = some x) :
    refers x value = true := by
  have href (span : Span) : refers x (.ref span x) = true :=
    List.any_eq_true.2 ⟨_, Node.mem_nodes_self _, beq_self_eq_true x⟩
  unfold referenceName? at h
  split at h
  · obtain rfl := Option.some.inj h
    exact href _
  · obtain rfl := Option.some.inj h
    exact refers_of_part List.mem_cons_self (href _)
  · obtain rfl := Option.some.inj h
    exact refers_of_part List.mem_cons_self (refers_of_part List.mem_cons_self (href _))
  · simp at h

theorem eq_ref_of_parts {W : Walked} {span : Span} {name : String} {n' : Node}
    (h : Parts W s (.ref span name) n' s') : n' = .ref span name := by
  refine Node.eq_of_skeleton_eq h.skeleton ?_
  have hchildren := h.children
  generalize n'.children = parts at hchildren ⊢
  cases hchildren
  rfl

theorem readsRight_of_step (hnone : site.graph.nodeAt? .none = none) {a : Role × Sight} {n n' : Node}
    (h : Sees site x a s n) (hstep : Step site (Walks site) s n n' s') : ReadsRight site x a n n' := by
  intro hrole
  have hvalue {value : Node} (hm : value ∈ n.children) (hname : referenceName? value = some x) :
      (!isWatchedReference s.scopes value) = a.2.owner.isNone := by
    rw [isWatchedReference_of_eq hname,
      h.watched hrole (refers_of_part hm (refers_of_referenceName hname)), Option.not_isSome]
  refine ⟨h.opener, ?_, ?_, ?_, ?_⟩
  · rintro span rfl
    have hname : referenceName? (.ref span x) = some x := rfl
    have hwatched := h.watched hrole (refers_of_referenceName hname)
    cases hstep with
    | read watched => rw [← hwatched, if_pos watched]
    | within enters parts =>
      cases enters with
      | passive passive => simp [isPassive] at passive
      | name plain =>
        rw [← hwatched, plain]
        exact eq_ref_of_parts parts
      | block opens => simp [blockBindings] at opens
  · rintro span key value rfl hname
    cases hstep with
    | within enters parts =>
      cases enters with
      | passive passive => simp [isPassive] at passive
      | pair =>
        rw [← hvalue (by simp [Node.children]) hname]
        exact Node.exists_of_skeleton_pair parts.skeleton
      | block opens => simp [blockBindings] at opens
  · rintro span key value rfl hname
    cases hstep with
    | within enters parts =>
      cases enters with
      | passive passive => simp [isPassive] at passive
      | fieldPattern =>
        rw [← hvalue (by simp [Node.children]) hname]
        exact Node.exists_of_skeleton_fieldPattern parts.skeleton
      | block opens => simp [blockBindings] at opens
  · rintro span head typeParams this params result body rfl hbody
    cases hstep with
    | memo form signed memoises =>
      exact .inr ⟨_, renderedIn_of_memoises hbody (h.known.parameters_eq hnone hrole signed) memoises⟩
    | within enters parts =>
      refine .inl ?_
      cases enters with
      | passive passive => simp [isPassive] at passive
      | signature form => exact parts.skeleton
      | function form plain => exact parts.skeleton
      | block opens => simp [blockBindings] at opens

theorem readsRight_of_built {a : Role × Sight} {arg arg' : Expr} {plan : CallPlan} {name : String}
    {index : Nat} (h : Sees site x a s arg) (hbuilds : plan.builds site index arg = true)
    (hmemo : Memoises site (Walks site) (builderSignature site name plan.reifies arg) s arg arg' s') :
    ReadsRight site x ((sighting site x).argument a) arg arg' := by
  intro _
  cases arg
  case func span head typeParams this params result body =>
    refine ⟨h.opener, by simp, by simp, by simp, fun heq hbody ↦ ?_⟩
    obtain ⟨rfl, rfl, rfl, rfl, rfl, rfl, rfl⟩ := Node.func.inj heq
    exact .inr ⟨_, renderedIn_of_memoises hbody rfl hmemo⟩
  all_goals exact absurd hbuilds (by simp [CallPlan.builds, Node.isClosure, Node.closureSpan?])

/-- In whatever does not obscure a name, and around which it is not that of a watched parameter, the
name is read where it means a watched parameter, and nowhere else. -/
def ReadsWithin (site : Site) (x : String) (a : Role × List String) (n n' : Node) : Prop :=
  a.1 ≠ .foreign → x ∉ a.2 → Clear x n →
    Throughout site (sighting site x) (ReadsRight site x) (a.1, {}) n n'

theorem Attends.sees {a : Role × List String} {n : Node} (h : Attends site a s n)
    (hrole : a.1 ≠ .foreign) (hx : x ∉ a.2) (hclear : Clear x n) : Sees site x (a.1, {}) s n where
  known := h.known
  clear := hclear
  opener := by simp
  watched _ _ := by
    rw [Option.isSome_none, ← Bool.not_eq_true]
    exact fun hwatched ↦ hx ((h.watches hrole).mem hwatched)

theorem readsWithin_of_step (hnames : site.options.runtime.IsTame)
    (hx : ¬site.options.runtime.encloses x) (hnone : site.graph.nodeAt? .none = none)
    {a : Role × List String} {n n' : Node} (h : Attends site a s n)
    (hstep : Step site (Walks site) s n n' s') : ReadsWithin site x a n n' := by
  intro hrole hname hclear
  exact throughout_of_step (lasts_keepsFor hnames Sees.clear) (inherits_sighting hnames hx hnone)
    (readsRight_of_step hnone) readsRight_of_built hstep (h.sees hrole hname hclear)

theorem readsWithin_of_built (hnames : site.options.runtime.IsTame)
    (hx : ¬site.options.runtime.encloses x) (hnone : site.graph.nodeAt? .none = none)
    {a : Role × List String} {arg arg' : Expr} {plan : CallPlan} {name : String} {index : Nat}
    (h : Attends site a s arg) (hbuilds : plan.builds site index arg = true)
    (hmemo : Memoises site (Walks site) (builderSignature site name plan.reifies arg) s arg arg' s') :
    ReadsWithin site x ((watching site).argument a) arg arg' := by
  intro hrole hname hclear
  have hK : Lasts site (Sees site x) (KeepsFor site x) := lasts_keepsFor hnames Sees.clear
  have hG := inherits_sighting hnames hx hnone
  have hsees := h.sees (ne_foreign_of_asArgument hrole) hname hclear
  refine .intro (readsRight_of_built hsees hbuilds hmemo)
    (made_of_built hG (fun s n n' s' hw b hb ↦ ⟨hK.walked hb hw, ?_⟩) hsees hbuilds hmemo)
  exact throughout_of_walks hK hG (readsRight_of_step hnone) readsRight_of_built hw hb

theorem resolutionsAll_enclosures {stmts enclosed : List Stmt} (free : ¬RuntimeNames.encloses {} x)
    (hencloses : Condition.Enclosures {} stmts enclosed)
    (hapart : ∀ clauses ∈ Condition.switches stmts, Condition.switchHazards clauses = [] →
      Condition.CasesApart x clauses) (outer : List Span) :
    resolutionsAll x enclosed outer = resolutionsAll x stmts outer := by
  refine ((Condition.keeps_enclosures hencloses hapart).resolutions outer).same ?_
  simpa [RuntimeNames.encloses, Execution.isCondition] using free

/-- References follow scoping. Wherever a name is not that of a watched parameter around a node of a
file and nothing in the node obscures it, each reference to it in the node, as a value or as a target,
becomes a read of the parameter's constant if scoping binds it to a watched parameter of a memo function
in the node, and stays as it is otherwise; the constant is that of the function which has the parameter,
and the cache scope of that function opens with it. Conditions are enclosed before the body of a function
is walked, which keeps what the references in it mean. -/
theorem walkAll_reads_watched {source : String} {jsx : Bool} {o : Options} {parsed : Parsed}
    {depth : Nat} {stmts' : List Stmt} (hparsed : parse? source jsx = some parsed)
    (tame : o.runtime.IsTame) (free : ¬o.runtime.encloses x)
    (h : walkAll (siteOf source o parsed) depth parsed.program.body = some (stmts', s))
    (hclean : walkErrors o.filePath s = []) :
    List.Forall₂ (Throughout (siteOf source o parsed) (watching (siteOf source o parsed))
        (ReadsWithin (siteOf source o parsed) x) (.free, [])) parsed.program.body stmts' ∧
      (o.runtime = {} → ∀ {stmts enclosed : List Stmt}, Condition.Enclosures {} stmts enclosed →
        (∀ clauses ∈ Condition.switches stmts, Condition.switchHazards clauses = [] →
          Condition.CasesApart x clauses) →
        ∀ outer, resolutionsAll x enclosed outer = resolutionsAll x stmts outer) := by
  let site := siteOf source o parsed
  have apart := toldApart_of_parse? hparsed
  have hnone : site.graph.nodeAt? .none = none := nodeAt?_none_of_toldApart source o parsed apart
  refine ⟨throughout_of_walkAll lasts_keeps (inherits_watching hnone) (readsWithin_of_step tame free hnone)
    (readsWithin_of_built tame free hnone) h hclean fun stmt hstmt ↦ ?_, ?_⟩
  · refine ⟨known_of_toldApart source o parsed apart hstmt, fun _ ↦ ?_⟩
    simp [State.Watches, Scopes.All, initial]
  · intro hnames stmts enclosed hencloses hapart outer
    exact resolutionsAll_enclosures (hnames ▸ free) hencloses hapart outer

def sparedSource : String :=
  "/** @memo */ function view(x) \x7b use(() => x); \x7d\nfunction other() \x7b Text(1); \x7d\n"

def arrows (stmts : List Stmt) : List Func :=
  (stmts.flatMap Node.nodes).filter fun
    | .func _ head _ _ _ _ _ => head.form = .arrow
    | _ => false

set_option maxRecDepth 100000 in
theorem wovenView_sparedSource : wovenView sparedSource shortOptions 12 (fun parsed stmts' _ ↦
    ((parsed.program.body.flatMap Node.nodes).any (obscures "x"),
      parsed.program.body.map (isUnmarked (siteOf sparedSource shortOptions parsed)),
      (arrows stmts').map (refers (shortNames.parameter "x")))) = some (false, [false, true], [true]) := by
  decide +kernel

theorem walkAll_reads_watched_sparedSource : shortNames.IsTame ∧ ¬shortNames.encloses "x" ∧
    ∃ parsed stmts' s, parse? sparedSource false = some parsed ∧
      walkAll (siteOf sparedSource shortOptions parsed) 12 parsed.program.body = some (stmts', s) ∧
      walkErrors "input.ts" s = [] ∧ (∀ stmt ∈ parsed.program.body, Clear "x" stmt) ∧
      (arrows stmts').map (refers (shortNames.parameter "x")) = [true] ∧
      List.Forall₂ (Throughout (siteOf sparedSource shortOptions parsed)
        (watching (siteOf sparedSource shortOptions parsed))
        (ReadsWithin (siteOf sparedSource shortOptions parsed) "x") (.free, []))
        parsed.program.body stmts' := by
  have hfree : ¬shortNames.encloses "x" := by
    unfold RuntimeNames.encloses
    decide
  obtain ⟨parsed, stmts', s, hparsed, h, hclean, hview⟩ := exists_of_wovenView wovenView_sparedSource
  obtain ⟨hclear, hread⟩ := Prod.mk.inj hview
  refine ⟨isTame_shortNames, hfree, parsed, stmts', s, hparsed, h, hclean, fun stmt hstmt m hm ↦ ?_,
    (Prod.mk.inj hread).2, (walkAll_reads_watched hparsed isTame_shortNames hfree h hclean).1⟩
  exact Bool.eq_false_iff.2 (List.any_eq_false.1 hclear m (List.mem_flatMap.2 ⟨stmt, hstmt, hm⟩))

def hoistingSource : String :=
  "/** @memo */ function view(x) \x7b run(() => \x7b use(x); var x = 1; \x7d); \x7d\n"

set_option maxRecDepth 100000 in
theorem wovenView_hoistingSource : wovenView hoistingSource shortOptions 16 (fun parsed stmts' _ ↦
    ((arrows parsed.program.body).map (isUnmarked (siteOf hoistingSource shortOptions parsed)),
      (arrows parsed.program.body).map (bodyScope "x"),
      (arrows stmts').map (refers (shortNames.parameter "x")))) =
    some ([true], [[⟨56, 61⟩]], [true]) := by
  decide +kernel

/-- A reference before a `var` is read, although it means the variable. -/
theorem walkAll_reads_hoisted : ∃ parsed stmts' s, parse? hoistingSource false = some parsed ∧
    walkAll (siteOf hoistingSource shortOptions parsed) 16 parsed.program.body = some (stmts', s) ∧
      walkErrors "input.ts" s = [] ∧
      (arrows parsed.program.body).map (bodyScope "x") = [[⟨56, 61⟩]] ∧
      (arrows stmts').map (refers (shortNames.parameter "x")) = [true] := by
  obtain ⟨parsed, stmts', s, hparsed, h, hclean, hview⟩ := exists_of_wovenView wovenView_hoistingSource
  obtain ⟨-, hscopes⟩ := Prod.mk.inj hview
  exact ⟨parsed, stmts', s, hparsed, h, hclean, Prod.mk.inj hscopes⟩

end Recompose.Weave
