import Recompose.Proofs.Enclosure
import Recompose.Proofs.Everywhere
import Recompose.Proofs.Weave.Step

namespace Recompose

open Script

def Binding.isWatched : Binding → Bool
  | .parameter _ watched => watched
  | _ => false

namespace Scopes

/-- Something holds of every binding around a place, of hidden ones as well. -/
def All (P : String → Binding → Prop) (s : Scopes) : Prop :=
  ∀ f ∈ s.frames, ∀ p ∈ f.names, P p.1 p.2

variable {P : String → Binding → Prop} {s : Scopes}

theorem isWatched_eq (name : String) :
    s.isWatched name = ((s.lookup name).map Binding.isWatched).getD false := by
  unfold isWatched
  rcases s.lookup name with _ | _ | _ | _ <;> rfl

theorem mem_of_lookup {name : String} {b : Binding} (h : s.lookup name = some b) :
    ∃ f ∈ s.frames, (name, b) ∈ f.names := by
  obtain ⟨f, hf, hb⟩ := List.exists_of_findSome?_eq_some h
  obtain ⟨l, r, hnames, -⟩ := List.lookup_eq_some_iff.1 hb
  exact ⟨f, hf, by simp [hnames]⟩

namespace All

theorem of_lookup (h : s.All P) {name : String} {b : Binding} (hb : s.lookup name = some b) :
    P name b := by
  obtain ⟨f, hf, hmem⟩ := mem_of_lookup hb
  exact h f hf _ hmem

theorem exists_of_isWatched (h : s.All P) {name : String} (hw : s.isWatched name = true) :
    ∃ b, b.isWatched = true ∧ P name b := by
  rw [isWatched_eq] at hw
  cases hb : s.lookup name with
  | none => simp [hb] at hw
  | some b => exact ⟨b, by simpa [hb] using hw, h.of_lookup hb⟩

theorem pushBlock (h : s.All P) : s.pushBlock.All P := by
  intro f hf
  obtain rfl | hf := List.mem_cons.1 hf
  · simp
  · exact h f hf

theorem pushFunction (h : s.All P) : s.pushFunction.All P := by
  intro f hf
  obtain rfl | hf := List.mem_cons.1 hf
  · simp
  · exact h f hf

theorem pop (h : s.All P) : s.pop.All P :=
  fun f hf ↦ h f (List.mem_of_mem_tail hf)

theorem bind (h : s.All P) {name : String} {b : Binding} (hb : P name b) : (s.bind name b).All P := by
  unfold Scopes.bind
  split
  · exact h
  · next f fs hframes =>
    intro g hg p hp
    obtain rfl | hg := List.mem_cons.1 hg
    · obtain rfl | hp := List.mem_cons.1 hp
      · exact hb
      · exact h f (by simp [hframes]) p hp
    · exact h g (by simp [hframes, hg]) p hp

theorem bindAll (h : s.All P) {bindings : List (String × Binding)}
    (hb : ∀ p ∈ bindings, P p.1 p.2) : (s.bindAll bindings).All P := by
  unfold Scopes.bindAll
  induction bindings generalizing s with
  | nil => exact h
  | cons p bindings ih =>
    exact ih (h.bind (hb p List.mem_cons_self)) fun q hq ↦ hb q (List.mem_cons_of_mem _ hq)

theorem bindVar (h : s.All P) {name : String} (hb : P name .ordinary) : (s.bindVar name).All P := by
  have hframes {fs gs : List ScopeFrame} (hfs : (⟨fs⟩ : Scopes).All P)
      (hgs : bindInFunction? name fs = some gs) : (⟨gs⟩ : Scopes).All P := by
    induction fs generalizing gs with
    | nil => simp [bindInFunction?] at hgs
    | cons f fs ih =>
      unfold bindInFunction? at hgs
      split at hgs
      · obtain rfl := Option.some.inj hgs
        exact hfs.bind (s := ⟨f :: fs⟩) hb
      · obtain ⟨rest, hrest, rfl⟩ := Option.map_eq_some_iff.1 hgs
        intro g hg
        obtain rfl | hg := List.mem_cons.1 hg
        · exact hfs g List.mem_cons_self
        · exact ih (fun g hg ↦ hfs g (List.mem_cons_of_mem _ hg)) hrest g hg
  unfold Scopes.bindVar
  split
  · next frames hgs => exact hframes h hgs
  · exact h.bind hb

end All

/-- Frames in which more ordinary names are bound. -/
def Gains (f f' : ScopeFrame) : Prop :=
  f'.isFunction = f.isFunction ∧ ∃ names : List String, f'.names = names.map (·, .ordinary) ++ f.names

/-- More ordinary names are bound around a place. -/
def Grows (s s' : Scopes) : Prop :=
  List.Forall₂ Gains s.frames s'.frames

theorem gains_refl (f : ScopeFrame) : Gains f f :=
  ⟨rfl, [], rfl⟩

theorem gains_insert (f : ScopeFrame) (name : String) : Gains f (f.insert name .ordinary) :=
  ⟨rfl, [name], rfl⟩

theorem Gains.trans {f g k : ScopeFrame} (h : Gains f g) (h' : Gains g k) : Gains f k := by
  obtain ⟨hfunction, names, hnames⟩ := h
  obtain ⟨hfunction', names', hnames'⟩ := h'
  exact ⟨hfunction'.trans hfunction, names' ++ names, by rw [hnames', hnames]; simp⟩

namespace Grows

variable {s₁ s' : Scopes}

theorem refl (s : Scopes) : s.Grows s :=
  List.forall₂_same.2 fun f _ ↦ gains_refl f

theorem trans (h : s.Grows s₁) (h' : s₁.Grows s') : s.Grows s' := by
  unfold Grows at h h' ⊢
  generalize s.frames = fs, s₁.frames = gs, s'.frames = ks at h h'
  induction h generalizing ks with
  | nil => exact h'
  | cons head _ ih =>
    cases h' with
    | cons head' tail' => exact .cons (head.trans head') (ih _ tail')

theorem pop {f : ScopeFrame} (h : Grows ⟨f :: s.frames⟩ s') : s.Grows s'.pop := by
  unfold Grows Scopes.pop at *
  generalize s'.frames = gs at h
  cases h with
  | cons head tail => exact tail

theorem all (h : s.Grows s') (hP : ∀ name, P name .ordinary) (hs : s.All P) : s'.All P := by
  intro f' hf' p hp
  obtain ⟨f, hf, -, names, hnames⟩ := exists_of_forall₂_right h hf'
  rw [hnames] at hp
  obtain hp | hp := List.mem_append.1 hp
  · obtain ⟨name, -, rfl⟩ := List.mem_map.1 hp
    exact hP name
  · exact hs f hf p hp

theorem bindVar (s : Scopes) (name : String) : s.Grows (s.bindVar name) := by
  have hframes {fs gs : List ScopeFrame} (hgs : bindInFunction? name fs = some gs) :
      List.Forall₂ Gains fs gs := by
    induction fs generalizing gs with
    | nil => simp [bindInFunction?] at hgs
    | cons f fs ih =>
      unfold bindInFunction? at hgs
      split at hgs
      · obtain rfl := Option.some.inj hgs
        exact .cons (gains_insert f name) (List.forall₂_same.2 fun f _ ↦ gains_refl f)
      · obtain ⟨rest, hrest, rfl⟩ := Option.map_eq_some_iff.1 hgs
        exact .cons (gains_refl f) (ih hrest)
  unfold Scopes.bindVar
  split
  · next hgs => exact hframes hgs
  · unfold Scopes.bind
    split
    · exact .refl s
    · next f fs hfs =>
      unfold Grows
      rw [hfs]
      exact .cons (gains_insert f name) (List.forall₂_same.2 fun f _ ↦ gains_refl f)

theorem bindVars (s : Scopes) (names : List String) : s.Grows (s.bindVars names) := by
  unfold Scopes.bindVars
  induction names generalizing s with
  | nil => exact .refl s
  | cons name names ih => exact (bindVar s name).trans (ih _)

theorem isWatched (h : s.Grows s') {name : String} (hw : s'.isWatched name = true) :
    s.isWatched name = true := by
  rw [isWatched_eq] at hw ⊢
  unfold Grows at h
  unfold lookup at hw ⊢
  generalize s.frames = fs, s'.frames = gs at h hw
  induction h with
  | nil => exact hw
  | @cons f g fs gs head _ ih =>
    obtain ⟨-, names, hnames⟩ := head
    rw [List.findSome?_cons, hnames, List.lookup_append] at hw
    rw [List.findSome?_cons]
    cases hnew : (names.map (·, Binding.ordinary)).lookup name with
    | none =>
      rw [hnew, Option.none_or] at hw
      cases hold : f.names.lookup name with
      | none => exact ih (by simpa [hold] using hw)
      | some b => simpa [hold] using hw
    | some b =>
      obtain ⟨l, r, hlist, -⟩ := List.lookup_eq_some_iff.1 hnew
      have hmem : (name, b) ∈ names.map (·, Binding.ordinary) := by simp [hlist]
      obtain ⟨_, -, heq⟩ := List.mem_map.1 hmem
      obtain rfl : Binding.ordinary = b := (Prod.mk.inj heq).2
      simp [hnew, Binding.isWatched] at hw

end Grows

theorem bindAll_cons (f : ScopeFrame) (fs : List ScopeFrame) (bindings : List (String × Binding)) :
    (⟨f :: fs⟩ : Scopes).bindAll bindings =
      ⟨{ f with names := bindings.reverse ++ f.names } :: fs⟩ := by
  unfold bindAll
  induction bindings generalizing f with
  | nil => rfl
  | cons p bindings ih =>
    rw [List.foldl_cons]
    exact (ih (f.insert p.1 p.2)).trans (by simp [ScopeFrame.insert])

theorem Grows.of_bindAll {f : ScopeFrame} {bindings : List (String × Binding)} {s' : Scopes}
    (h : Grows (bindAll ⟨f :: s.frames⟩ bindings) s') : s.Grows s'.pop := by
  rw [bindAll_cons] at h
  exact h.pop

end Scopes

theorem not_isWatched_of_mem_hoisted {a : Annotations} {stmts : List Stmt} {p : String × Binding}
    (h : p ∈ hoistedBindings a stmts) : p.2.isWatched = false := by
  have hmap {names : List String} {b : Binding} (hb : b.isWatched = false)
      (hp : p ∈ names.map (·, b)) : p.2.isWatched = false := by
    obtain ⟨name, -, rfl⟩ := List.mem_map.1 hp
    exact hb
  have hmarked (marked : Bool) :
      (if marked then Binding.memoFunction else .ordinary).isWatched = false := by
    cases marked <;> rfl
  obtain ⟨stmt, -, hp⟩ := List.mem_flatMap.1 h
  unfold hoistedBinding at hp
  split at hp
  · exact hmap (hmarked _) hp
  · exact hmap rfl hp
  · split at hp
    · simp at hp
    · obtain ⟨item, -, hp⟩ := List.mem_flatMap.1 hp
      unfold declaratorBindings at hp
      split at hp
      · exact hmap (hmarked _) hp
      · simp at hp
  · simp at hp

namespace Weave

variable {site : Site} {s : State}

theorem not_isWatched_of_mem_plainBindings {params : List Param} {body : Node} {p : String × Binding}
    (h : p ∈ plainBindings site params body) : p.2.isWatched = false := by
  obtain hp | hp := List.mem_append.1 h
  · obtain ⟨name, -, rfl⟩ := List.mem_map.1 hp
    rfl
  · split at hp
    · exact not_isWatched_of_mem_hoisted hp
    · simp at hp

/-- What entering a node does to the bindings, and how leaving it undoes that. -/
inductive Rescopes (scopes : Scopes) (n : Node) : Scopes → (Scopes → Scopes) → Prop
  | kept : Rescopes scopes n scopes id
  | vars {span : Span} {declared : Bool} {items : List Node}
      (hoists : .vars span .hoisted declared items ∈ n.nodes) :
      Rescopes scopes n (scopes.bindVars (Node.declaredNames items)) id
  | function {bindings : List (String × Binding)} (unwatched : ∀ p ∈ bindings, p.2.isWatched = false) :
      Rescopes scopes n (scopes.pushFunction.bindAll bindings) Scopes.pop
  | block {bindings : List (String × Binding)} (unwatched : ∀ p ∈ bindings, p.2.isWatched = false) :
      Rescopes scopes n (scopes.pushBlock.bindAll bindings) Scopes.pop
  | loop {span : Span} {declared : Bool} {items : List Node}
      (hoists : .vars span .hoisted declared items ∈ n.nodes) :
      Rescopes scopes n (scopes.pushBlock.bindVars (Node.declaredNames items)) Scopes.pop

theorem declaredNames_redeclares {names : RuntimeNames} {marked : Bool} {items items' : List Node}
    (h : List.Forall₂ (Redeclares names marked) items items') :
    Node.declaredNames items' = Node.declaredNames items := by
  induction h with
  | nil => rfl
  | cons head _ ih =>
    unfold Node.declaredNames at ih ⊢
    rw [List.flatMap_cons, List.flatMap_cons, ih]
    cases head <;> rfl

theorem rescopes_of_block {n : Node} {bind : Scopes → Scopes} (opens : blockBindings site n = some bind)
    (scopes : Scopes) : Rescopes scopes n (bind scopes.pushBlock) Scopes.pop := by
  have hnames (names : List String) :
      Rescopes scopes n (scopes.pushBlock.bindAll (names.map (·, .ordinary))) Scopes.pop := by
    refine .block fun p hp ↦ ?_
    obtain ⟨name, -, rfl⟩ := List.mem_map.1 hp
    rfl
  have hplain : Rescopes scopes n scopes.pushBlock Scopes.pop := hnames []
  have hhead {left : Node} (hleft : left ∈ n.children) :
      Rescopes scopes n (headBindings left scopes.pushBlock) Scopes.pop := by
    unfold headBindings
    split
    · unfold Scopes.bindDeclaration
      dsimp only
      split
      · next hkind =>
        subst hkind
        exact .loop (Node.mem_nodes_of_part hleft (Node.mem_nodes_self _))
      · exact hnames _
    · exact hplain
  unfold blockBindings at opens
  split at opens
  · obtain rfl := Option.some.inj opens
    exact .block fun p hp ↦ not_isWatched_of_mem_hoisted hp
  · obtain rfl := Option.some.inj opens
    exact hnames _
  · next init _ _ _ =>
    obtain rfl := Option.some.inj opens
    cases init with
    | none => exact hplain
    | some left => exact hhead (by simp [Node.children])
  · obtain rfl := Option.some.inj opens
    exact hhead (by simp [Node.children])
  · obtain rfl := Option.some.inj opens
    refine .block fun p hp ↦ ?_
    obtain ⟨clause, -, hp⟩ := List.mem_flatMap.1 hp
    unfold clauseBindings at hp
    split at hp
    · exact not_isWatched_of_mem_hoisted hp
    · simp at hp
  · simp at opens

theorem rescopes_of_enters {n n₁ : Node} {s₁ : State} {leave : State → State}
    (h : Enters site s n n₁ s₁ leave) :
    ∃ close, Rescopes s.scopes n s₁.scopes close ∧ ∀ t, (leave t).scopes = close t.scopes := by
  have hkept {s₁ : State} (hs : s₁.scopes = s.scopes) : Rescopes s.scopes n s₁.scopes id := hs ▸ .kept
  have hnotes {p : Prop} {s₁ : State} (hn : Notes p s s₁) : s₁.scopes = s.scopes := by
    obtain ⟨-, rfl⟩ | rfl := hn <;> rfl
  cases h with
  | @function span head typeParams this params result body s₁ form plain =>
    have hscopes : s₁.scopes = s.scopes := by cases plain <;> rfl
    exact ⟨Scopes.pop, hscopes ▸ .function fun _ ↦ not_isWatched_of_mem_plainBindings, fun _ ↦ rfl⟩
  | method plain notes => exact ⟨id, hkept (hnotes notes :), fun _ ↦ rfl⟩
  | memoMethod memo notes => split <;> exact ⟨id, hkept (hnotes notes :), fun _ ↦ rfl⟩
  | field annotates notes => exact ⟨id, hkept (hnotes notes), fun _ ↦ rfl⟩
  | param notes => exact ⟨id, hkept (hnotes notes), fun _ ↦ rfl⟩
  | interfaceDecl extended notes => exact ⟨id, hkept (hnotes notes), fun _ ↦ rfl⟩
  | @vars span kind declared items items' s₁ s₂ s₃ redeclares notes awaits binds =>
    have hscopes : s₂.scopes = s.scopes := by
      rw [awaits, ← hnotes notes]
      split <;> rfl
    subst binds
    split
    · next hkind =>
      subst hkind
      refine ⟨id, ?_, fun _ ↦ rfl⟩
      rw [State.bindVars, hscopes, declaredNames_redeclares redeclares]
      exact .vars (Node.mem_nodes_self _)
    · exact ⟨id, hkept hscopes, fun _ ↦ rfl⟩
  | block opens => exact ⟨Scopes.pop, rescopes_of_block opens s.scopes, fun _ ↦ rfl⟩
  | _ => exact ⟨id, .kept, fun _ ↦ rfl⟩

/-- Something holds of the bindings around a place and goes on to hold where no parameter of a memo
function is bound. -/
structure Absorbs (C : Scopes → Prop) : Prop where
  pushBlock {s : Scopes} : C s → C s.pushBlock
  pushFunction {s : Scopes} : C s → C s.pushFunction
  bind {s : Scopes} {name : String} {b : Binding} : C s → b.isWatched = false → C (s.bind name b)
  bindVar {s : Scopes} {name : String} : C s → C (s.bindVar name)

namespace Absorbs

variable {C : Scopes → Prop} {scopes : Scopes}

theorem bindAll (hC : Absorbs C) (h : C scopes) {bindings : List (String × Binding)}
    (hb : ∀ p ∈ bindings, p.2.isWatched = false) : C (scopes.bindAll bindings) := by
  unfold Scopes.bindAll
  induction bindings generalizing scopes with
  | nil => exact h
  | cons p bindings ih =>
    exact ih (hC.bind h (hb p List.mem_cons_self)) fun q hq ↦ hb q (List.mem_cons_of_mem _ hq)

theorem bindVars (hC : Absorbs C) (h : C scopes) (names : List String) : C (scopes.bindVars names) := by
  unfold Scopes.bindVars
  induction names generalizing scopes with
  | nil => exact h
  | cons name names ih => exact ih (hC.bindVar h)

theorem bindDeclaration (hC : Absorbs C) (h : C scopes) (kind : VarKind) (items : List Node) :
    C (scopes.bindDeclaration kind items) := by
  unfold Scopes.bindDeclaration
  dsimp only
  split
  · exact hC.bindVars h _
  · refine hC.bindAll h fun p hp ↦ ?_
    obtain ⟨name, -, rfl⟩ := List.mem_map.1 hp
    rfl

theorem enters (hC : Absorbs C) {n n₁ : Node} {s₁ : State} {leave : State → State}
    (h : Enters site s n n₁ s₁ leave) (hs : C s.scopes) : C s₁.scopes := by
  obtain ⟨close, hscopes, -⟩ := rescopes_of_enters h
  generalize s₁.scopes = scopes at hscopes ⊢
  cases hscopes with
  | kept => exact hs
  | vars hoists => exact hC.bindVars hs _
  | function unwatched => exact hC.bindAll (hC.pushFunction hs) unwatched
  | block unwatched => exact hC.bindAll (hC.pushBlock hs) unwatched
  | loop hoists => exact hC.bindVars (hC.pushBlock hs) _

end Absorbs

theorem absorbs_all {P : String → Binding → Prop} (hP : ∀ name b, b.isWatched = false → P name b) :
    Absorbs (Scopes.All P) where
  pushBlock := .pushBlock
  pushFunction := .pushFunction
  bind h hb := h.bind (hP _ _ hb)
  bindVar h := h.bindVar (hP _ _ rfl)

theorem absorbs_unwatched (name : String) : Absorbs fun scopes ↦ scopes.isWatched name = false where
  pushBlock h := h
  pushFunction h := h
  bind {scopes other b} h hb := by
    rw [Scopes.isWatched_eq] at h ⊢
    unfold Scopes.bind
    split
    · exact h
    · next f fs hframes =>
      unfold Scopes.lookup at h ⊢
      rw [hframes, List.findSome?_cons] at h
      rw [List.findSome?_cons, ScopeFrame.insert, List.lookup_cons]
      by_cases hname : name == other
      · simp [hname, hb]
      · simpa [hname] using h
  bindVar h := Bool.eq_false_iff.2 fun hw ↦ by
    simp [(Scopes.Grows.bindVar _ _).isWatched hw] at h

theorem all_of_enters {P : String → Binding → Prop} (hP : ∀ name b, b.isWatched = false → P name b)
    {n n₁ : Node} {s₁ : State} {leave : State → State} (h : Enters site s n n₁ s₁ leave)
    (hs : s.scopes.All P) :
    s₁.scopes.All P ∧ ∀ s₂, s₂.scopes.All P → (leave s₂).scopes.All P := by
  refine ⟨(absorbs_all hP).enters h hs, fun s₂ h₂ ↦ ?_⟩
  cases h <;> first
    | exact h₂
    | exact h₂.pop

theorem isWatched_of_entered {n n₁ : Node} {s₁ : State} {leave : State → State} {name : String}
    (h : Enters site s n n₁ s₁ leave) (hw : s₁.scopes.isWatched name = true) :
    s.scopes.isWatched name = true := by
  by_contra hs
  simp [(absorbs_unwatched name).enters h (Bool.eq_false_iff.2 hs)] at hw

theorem grows_of_enters {n n₁ : Node} {s₁ : State} {leave : State → State}
    (h : Enters site s n n₁ s₁ leave) {s₂ : State} (h₂ : s₁.scopes.Grows s₂.scopes) :
    s.scopes.Grows (leave s₂).scopes := by
  obtain ⟨close, hscopes, hleave⟩ := rescopes_of_enters h
  rw [hleave]
  generalize s₁.scopes = scopes at hscopes h₂
  cases hscopes with
  | kept => exact h₂
  | vars hoists => exact (Scopes.Grows.bindVars _ _).trans h₂
  | function unwatched => exact Scopes.Grows.of_bindAll h₂
  | block unwatched => exact Scopes.Grows.of_bindAll h₂
  | loop hoists => exact ((Scopes.Grows.bindVars _ _).trans h₂).pop

end Weave

end Recompose
