import Recompose.Proofs.Weave.Lookup

namespace Recompose

open Script

inductive ScopeEdit where
  | pushFunction
  | pushBlock
  | pop
  | bind (name : String) (b : Binding)
  | bindVar (name : String)
  | declare (kind : VarKind) (declarators : List Node)

namespace ScopeEdit

def vars : ScopeEdit → List String
  | .bindVar name => [name]
  | .declare .hoisted declarators => Node.declaredNames declarators
  | _ => []

/-- The frames that are open after an edit, by whether they are functions, the innermost first. There
has to be one to close. -/
def opens? : ScopeEdit → List Bool → Option (List Bool)
  | .pushFunction, kinds => some (true :: kinds)
  | .pushBlock, kinds => some (false :: kinds)
  | .pop, kinds => kinds.tail?
  | _, kinds => some kinds

def opened? (kinds : List Bool) (edits : List ScopeEdit) : Option (List Bool) :=
  edits.foldlM (fun kinds e ↦ e.opens? kinds) kinds

/-- The edits close what they open, and nothing else. -/
def Balanced (edits : List ScopeEdit) : Prop :=
  opened? [] edits = some []

instance : DecidablePred Balanced :=
  fun edits ↦ inferInstanceAs (Decidable (opened? [] edits = some []))

/-- The names that edits bind as `var` while no function that they open is open. -/
def escaping (kinds : List Bool) : List ScopeEdit → List String
  | [] => []
  | e :: edits =>
    (if true ∈ kinds then [] else e.vars) ++ escaping ((e.opens? kinds).getD kinds) edits

end ScopeEdit

namespace Scopes

def edit (s : Scopes) : ScopeEdit → Scopes
  | .pushFunction => s.pushFunction
  | .pushBlock => s.pushBlock
  | .pop => s.pop
  | .bind name b => s.bind name b
  | .bindVar name => s.bindVar name
  | .declare kind declarators => s.bindDeclaration kind declarators

def editAll (s : Scopes) (edits : List ScopeEdit) : Scopes :=
  edits.foldl edit s

/-- The frames with names bound in the innermost frame of a function, if there is one. -/
def receive (names : List String) : List ScopeFrame → List ScopeFrame
  | [] => []
  | f :: fs =>
    if f.isFunction then { f with names := (names.map (·, .ordinary)).reverse ++ f.names } :: fs
    else f :: receive names fs

theorem receive_nil (fs : List ScopeFrame) : receive [] fs = fs := by
  induction fs with
  | nil => rfl
  | cons f fs ih => simp [receive, ih]

theorem receive_append (names names' : List String) (fs : List ScopeFrame) :
    receive (names ++ names') fs = receive names' (receive names fs) := by
  induction fs with
  | nil => rfl
  | cons f fs ih =>
    cases hf : f.isFunction with
    | true => simp [receive, hf]
    | false => simp [receive, hf, ih]

theorem receive_of_blocks {names : List String} {fs : List ScopeFrame}
    (h : ∀ f ∈ fs, f.isFunction = false) : receive names fs = fs := by
  induction fs with
  | nil => rfl
  | cons f fs ih =>
    obtain ⟨hf, hfs⟩ := List.forall_mem_cons.1 h
    simp [receive, hf, ih hfs]

theorem receive_nearest {names : List String} {blocks outer : List ScopeFrame} {f : ScopeFrame}
    (hblocks : ∀ b ∈ blocks, b.isFunction = false) (hf : f.isFunction = true) :
    receive names (blocks ++ f :: outer) =
      blocks ++ { f with names := (names.map (·, .ordinary)).reverse ++ f.names } :: outer := by
  induction blocks with
  | nil => simp [receive, hf]
  | cons b blocks ih =>
    obtain ⟨hb, hblocks⟩ := List.forall_mem_cons.1 hblocks
    simp [receive, hb, ih hblocks]

theorem length_receive (names : List String) (fs : List ScopeFrame) :
    (receive names fs).length = fs.length := by
  induction fs with
  | nil => rfl
  | cons f fs ih =>
    cases hf : f.isFunction <;> simp [receive, hf, ih]

theorem sameFor_receive {names : List String} {x : String} (hx : x ∉ names) (fs : List ScopeFrame) :
    SameFor x ⟨fs⟩ ⟨receive names fs⟩ := by
  induction fs with
  | nil => exact .nil
  | cons f fs ih =>
    cases hf : f.isFunction with
    | true =>
      rw [receive, if_pos hf]
      refine .cons ?_ (SameFor.refl ⟨fs⟩)
      dsimp only
      rw [List.lookup_append, lookup_map_const, if_neg hx, Option.none_or]
    | false =>
      rw [receive, if_neg (by simp [hf])]
      exact .cons rfl ih

abbrev kinds (fs : List ScopeFrame) : List Bool :=
  fs.map (·.isFunction)

/-- Inner frames of these kinds are open around a place, and the outer ones have received names. -/
def Leaves (outer : List ScopeFrame) (names : List String) (left : List Bool) (s : Scopes) : Prop :=
  ∃ inner, kinds inner = left ∧ s = ⟨inner ++ receive names outer⟩

theorem leaves_nil (inner outer : List ScopeFrame) {left : List Bool} (h : kinds inner = left) :
    Leaves outer [] left ⟨inner ++ outer⟩ :=
  ⟨inner, h, by rw [receive_nil]⟩

variable {inner : List ScopeFrame}

theorem bindInFunction?_of_mem (name : String) (outer : List ScopeFrame) (h : true ∈ kinds inner) :
    ∃ inner', kinds inner' = kinds inner ∧
      bindInFunction? name (inner ++ outer) = some (inner' ++ outer) := by
  induction inner with
  | nil => cases h
  | cons f fs ih =>
    cases hf : f.isFunction with
    | true => exact ⟨f.insert name .ordinary :: fs, rfl, by simp [bindInFunction?, hf]⟩
    | false =>
      obtain ⟨fs', hkinds, hbound⟩ := ih (by simpa [kinds, hf] using h)
      exact ⟨f :: fs', by simpa [kinds] using hkinds, by simp [bindInFunction?, hf, hbound]⟩

theorem bindInFunction?_of_not_mem (name : String) (outer : List ScopeFrame)
    (h : true ∉ kinds inner) :
    bindInFunction? name (inner ++ outer) = (bindInFunction? name outer).map (inner ++ ·) := by
  induction inner with
  | nil => simp
  | cons f fs ih =>
    have hf : f.isFunction = false := by
      cases hf : f.isFunction with
      | true => exact absurd (by simp [kinds, hf]) h
      | false => rfl
    have hfs : true ∉ kinds fs := fun hm ↦ h (List.mem_cons_of_mem _ hm)
    simp [bindInFunction?, hf, ih hfs, Function.comp_def]

theorem bindInFunction?_eq (name : String) (fs : List ScopeFrame) :
    bindInFunction? name fs = if true ∈ kinds fs then some (receive [name] fs) else none := by
  induction fs with
  | nil => rfl
  | cons f fs ih =>
    cases hf : f.isFunction with
    | true => simp [bindInFunction?, receive, kinds, hf, ScopeFrame.insert]
    | false =>
      simp only [bindInFunction?, receive, hf, ih, kinds, List.map_cons]
      split <;> simp_all

theorem leaves_bind (outer : List ScopeFrame) (name : String) (b : Binding) (h : inner ≠ []) :
    Leaves outer [] (kinds inner) (bind ⟨inner ++ outer⟩ name b) := by
  obtain ⟨f, fs, rfl⟩ := List.exists_cons_of_ne_nil h
  exact leaves_nil (f.insert name b :: fs) outer rfl

theorem leaves_bindAll (outer : List ScopeFrame) (bindings : List (String × Binding)) (h : inner ≠ []) :
    Leaves outer [] (kinds inner) (bindAll ⟨inner ++ outer⟩ bindings) := by
  obtain ⟨f, fs, rfl⟩ := List.exists_cons_of_ne_nil h
  rw [List.cons_append, bindAll_cons]
  exact leaves_nil ({ f with names := bindings.reverse ++ f.names } :: fs) outer rfl

/-- A `var` name goes to the nearest inner function, else to the nearest outer one. Only if there is
none at all it stays in the innermost frame, which is an inner one. -/
theorem leaves_bindVar (outer : List ScopeFrame) (name : String) (h : inner ≠ []) :
    Leaves outer (if true ∈ kinds inner then [] else [name]) (kinds inner)
      (bindVar ⟨inner ++ outer⟩ name) := by
  unfold bindVar
  dsimp only
  by_cases hinner : true ∈ kinds inner
  · obtain ⟨inner', hkinds, hbound⟩ := bindInFunction?_of_mem name outer hinner
    rw [hbound, if_pos hinner]
    exact leaves_nil inner' outer hkinds
  · rw [bindInFunction?_of_not_mem name outer hinner, if_neg hinner, bindInFunction?_eq]
    by_cases houter : true ∈ kinds outer
    · rw [if_pos houter]
      exact ⟨inner, rfl, rfl⟩
    · have hblocks : ∀ f ∈ outer, f.isFunction = false := fun f hf ↦ by
        have hne : f.isFunction ≠ true := fun htrue ↦ houter (htrue ▸ List.mem_map_of_mem hf)
        simpa using hne
      rw [if_neg houter]
      obtain ⟨inner', hkinds, hbound⟩ := leaves_bind outer name .ordinary h
      exact ⟨inner', hkinds, by rw [receive_of_blocks hblocks]; rwa [receive_nil] at hbound⟩

theorem leaves_bindVars (outer : List ScopeFrame) (names : List String) (h : inner ≠ []) :
    Leaves outer (if true ∈ kinds inner then [] else names) (kinds inner)
      (bindVars ⟨inner ++ outer⟩ names) := by
  induction names generalizing inner outer with
  | nil => simpa [bindVars] using leaves_nil inner outer rfl
  | cons name names ih =>
    obtain ⟨inner₁, hkinds, hbound⟩ := leaves_bindVar outer name h
    have hne : inner₁ ≠ [] := by
      rintro rfl
      exact h (List.map_eq_nil_iff.1 hkinds.symm)
    obtain ⟨inner', hkinds', hbound'⟩ :=
      ih (receive (if true ∈ kinds inner then [] else [name]) outer) hne
    refine ⟨inner', hkinds'.trans hkinds, ?_⟩
    rw [bindVars, List.foldl_cons, hbound]
    refine hbound'.trans ?_
    rw [← receive_append, hkinds]
    split <;> rfl

variable {e : ScopeEdit} {edits : List ScopeEdit} {opened opened' : List Bool} {k : Bool}

theorem leaves_edit (outer : List ScopeFrame) (hinner : kinds inner = opened ++ [k]) (hopens : e.opens? opened = some opened') :
    Leaves outer (if true ∈ opened ++ [k] then [] else e.vars) (opened' ++ [k])
      (edit ⟨inner ++ outer⟩ e) := by
  have hne : inner ≠ [] := by
    rintro rfl
    simp [kinds] at hinner
  have hsilent (hvars : e.vars = []) (hs : Leaves outer [] (opened' ++ [k]) (edit ⟨inner ++ outer⟩ e)) :
      Leaves outer (if true ∈ opened ++ [k] then [] else e.vars) (opened' ++ [k])
        (edit ⟨inner ++ outer⟩ e) := by
    rwa [hvars, ite_self]
  cases e with
  | pushFunction =>
    obtain rfl := Option.some.inj hopens
    exact hsilent rfl (leaves_nil ({ isFunction := true } :: inner) outer (by simp [hinner]))
  | pushBlock =>
    obtain rfl := Option.some.inj hopens
    exact hsilent rfl (leaves_nil ({ isFunction := false } :: inner) outer (by simp [hinner]))
  | pop =>
    obtain ⟨f, fs, rfl⟩ := List.exists_cons_of_ne_nil hne
    cases opened with
    | nil => cases hopens
    | cons top opened =>
      obtain rfl := Option.some.inj hopens
      exact hsilent rfl (leaves_nil fs outer (List.cons.inj hinner).2)
  | bind name b =>
    obtain rfl := Option.some.inj hopens
    exact hsilent rfl (hinner ▸ leaves_bind outer name b hne)
  | bindVar name =>
    obtain rfl := Option.some.inj hopens
    exact hinner ▸ leaves_bindVar outer name hne
  | declare kind declarators =>
    obtain rfl := Option.some.inj hopens
    cases kind with
    | hoisted => exact hinner ▸ leaves_bindVars outer (Node.declaredNames declarators) hne
    | _ => exact hsilent rfl (hinner ▸ leaves_bindAll outer _ hne)

/-- The invariant of edits on top of a frame of kind `k`: that frame is still there, and the frames
around it have received the names that left it. -/
theorem leaves_editAll (outer : List ScopeFrame) (hinner : kinds inner = opened ++ [k])
    (hopened : ScopeEdit.opened? opened edits = some opened') :
    Leaves outer (if k then [] else ScopeEdit.escaping opened edits) (opened' ++ [k])
      (editAll ⟨inner ++ outer⟩ edits) := by
  induction edits generalizing inner outer opened with
  | nil =>
    obtain rfl := Option.some.inj hopened
    rw [ScopeEdit.escaping, ite_self]
    exact leaves_nil inner outer hinner
  | cons e edits ih =>
    obtain ⟨opened₁, (hopens : e.opens? opened = some opened₁), hrest⟩ :=
      Option.bind_eq_some_iff.1 hopened
    obtain ⟨inner₁, hinner₁, hedit⟩ := leaves_edit outer hinner hopens
    obtain ⟨inner', hinner', hedits⟩ := ih _ hinner₁ hrest
    refine ⟨inner', hinner', ?_⟩
    rw [editAll, List.foldl_cons, hedit]
    refine hedits.trans ?_
    rw [← receive_append, ScopeEdit.escaping, hopens, Option.getD_some]
    cases k <;> simp

theorem pop_editAll_pushFunction (s : Scopes) (h : ScopeEdit.Balanced edits) :
    (s.pushFunction.editAll edits).pop = s := by
  obtain ⟨inner, hinner, hedits⟩ :=
    leaves_editAll s.frames (show kinds [{ isFunction := true }] = [] ++ [true] from rfl) h
  obtain ⟨f, rfl, -⟩ := List.map_eq_singleton_iff.1 hinner
  rw [if_pos rfl, receive_nil] at hedits
  exact congrArg pop hedits

theorem pop_editAll_pushBlock (s : Scopes) (h : ScopeEdit.Balanced edits) :
    (s.pushBlock.editAll edits).pop = ⟨receive (ScopeEdit.escaping [] edits) s.frames⟩ := by
  obtain ⟨inner, hinner, hedits⟩ :=
    leaves_editAll s.frames (show kinds [{ isFunction := false }] = [] ++ [false] from rfl) h
  obtain ⟨f, rfl, -⟩ := List.map_eq_singleton_iff.1 hinner
  exact congrArg pop hedits

/-- Balanced edits inside a function leave everything around it as it was. Inside a block they add to
the nearest function around it, if there is one, exactly the `var` names that were bound outside the
functions opened on the way, and change nothing else. -/
theorem editAll_bracketed (s : Scopes) (edits : List ScopeEdit) (h : ScopeEdit.Balanced edits) :
    (s.pushFunction.editAll edits).pop = s ∧
      (s.pushBlock.editAll edits).pop.depth = s.depth ∧
      ((∀ f ∈ s.frames, f.isFunction = false) → (s.pushBlock.editAll edits).pop = s) ∧
      (∀ blocks f outer, s.frames = blocks ++ f :: outer →
        (∀ b ∈ blocks, b.isFunction = false) → f.isFunction = true →
        ∃ f', (s.pushBlock.editAll edits).pop.frames = blocks ++ f' :: outer ∧
          f'.isFunction = true ∧
          ∀ x, f'.names.lookup x =
            if x ∈ ScopeEdit.escaping [] edits then some .ordinary else f.names.lookup x) ∧
      ∀ x, x ∉ ScopeEdit.escaping [] edits →
        (s.pushBlock.editAll edits).pop.lookup x = s.lookup x := by
  rw [pop_editAll_pushBlock s h]
  refine ⟨pop_editAll_pushFunction s h, length_receive _ _,
    fun hblocks ↦ congrArg Scopes.mk (receive_of_blocks hblocks),
    fun blocks f outer hframes hblocks hf ↦ ?_, fun x hx ↦ (sameFor_receive hx s.frames).lookup_eq⟩
  refine ⟨_, (congrArg (receive _) hframes).trans (receive_nearest hblocks hf), hf, fun x ↦ ?_⟩
  rw [List.lookup_append, lookup_map_const]
  split <;> rfl

def nestedScopes : Scopes :=
  ⟨[{ isFunction := false, names := [("x", .memoFunction)] },
    { isFunction := true, names := [("x", .parameter true true), ("y", .parameter false true)] },
    { isFunction := true, names := [("z", .ordinary)] }]⟩

def nestedEdits : List ScopeEdit :=
  [.bind "x" .ordinary, .pushBlock, .bindVar "y",
    .declare .hoisted [.declarator .none (.binding .none "v") false none none], .pop,
    .pushFunction, .bindVar "z", .pushBlock, .bindVar "w", .pop, .pop]

theorem editAll_bracketed_nested : ScopeEdit.Balanced nestedEdits ∧
    ScopeEdit.escaping [] nestedEdits = ["y", "v"] ∧
      (nestedScopes.pushFunction.editAll nestedEdits).pop = nestedScopes ∧
      (nestedScopes.pushBlock.editAll nestedEdits).pop.lookup "x" = some .memoFunction ∧
      (nestedScopes.pushBlock.editAll nestedEdits).pop.lookup "y" = some .ordinary := by
  have hbalanced : ScopeEdit.Balanced nestedEdits := by decide
  have hescaping : ScopeEdit.escaping [] nestedEdits = ["y", "v"] := by decide
  obtain ⟨hfunction, -, -, -, hlookup⟩ := editAll_bracketed nestedScopes nestedEdits hbalanced
  refine ⟨hbalanced, hescaping, hfunction, ?_, by decide⟩
  rw [hlookup "x" (by simp [hescaping])]
  decide

end Scopes

end Recompose
