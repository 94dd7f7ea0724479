import Recompose.Proofs.Insertion
import Recompose.Proofs.Weave.Bindings

namespace Recompose.Weave

open Script

def State.Unwatched (s : State) : Prop :=
  s.scopes.All fun _ b ↦ b.isWatched = false

structure Spares (s : State) (n n' : Node) (s' : State) : Prop where
  noted : s.touched = true → s'.touched = true
  kept : s'.touched = false → s.Unwatched → n' = n ∧ s'.stats = s.stats ∧ s'.Unwatched

section

variable {site : Site} {s s' : State}

theorem State.Unwatched.isWatched_eq_false (h : s.Unwatched) (name : String) :
    s.scopes.isWatched name = false := by
  rw [Bool.eq_false_iff]
  intro hw
  obtain ⟨b, hb, hb'⟩ := Scopes.All.exists_of_isWatched h hw
  simp [hb] at hb'

theorem State.Unwatched.isWatchedReference_eq_false (h : s.Unwatched) (n : Node) :
    isWatchedReference s.scopes n = false := by
  unfold isWatchedReference
  split <;> first | exact h.isWatched_eq_false _ | rfl

theorem spares_of_threads {ns ns' : List Node} (h : Threads Spares s ns ns' s') :
    (s.touched = true → s'.touched = true) ∧
      (s'.touched = false → s.Unwatched → ns' = ns ∧ s'.stats = s.stats ∧ s'.Unwatched) := by
  induction h with
  | nil => exact ⟨id, fun _ hs ↦ ⟨rfl, rfl, hs⟩⟩
  | cons head tail ih =>
    refine ⟨fun hs ↦ ih.1 (head.noted hs), fun hs' hs ↦ ?_⟩
    have hs₁ := Bool.eq_false_iff.2 fun hs₁ ↦ absurd (ih.1 hs₁) (by simp [hs'])
    obtain ⟨rfl, hstats, hunwatched⟩ := head.kept hs₁ hs
    obtain ⟨rfl, hstats', hunwatched'⟩ := ih.2 hs' hunwatched
    exact ⟨rfl, hstats'.trans hstats, hunwatched'⟩

theorem touched_of_memoises {sig : Signature} {f f' : Func} (h : Memoises site Spares sig s f f' s') :
    s'.touched = true := by
  cases h with
  | bodiless faultless reshapes => rfl
  | wrapped faultless reshapes present memo wraps hides =>
    cases wraps with
    | intro parts encloses walks wraps => exact (spares_of_threads walks).1 rfl
  | bare faultless reshapes present notMemo walks hides => exact (spares_of_threads walks.children).1 rfl

theorem kept_of_enters {n n₁ : Node} {s₁ : State} {leave : State → State}
    (h : Enters site s n n₁ s₁ leave) :
    (s.touched = true → s₁.touched = true) ∧ (∀ s₂, (leave s₂).touched = s₂.touched) ∧
      (∀ s₂, (leave s₂).stats = s₂.stats) ∧
      (s₁.touched = false → s.Unwatched → n₁ = n ∧ s₁.stats = s.stats) := by
  have hnotes {p q : Prop} {s₁ : State} (hn : Notes p s s₁) (hp : p → q) :
      (s.touched = true → s₁.touched = true) ∧ (s₁.touched = false → q ∧ s₁.stats = s.stats) := by
    obtain ⟨hp', rfl⟩ | rfl := hn
    · exact ⟨id, fun _ ↦ ⟨hp hp', rfl⟩⟩
    · exact ⟨fun _ ↦ rfl, fun h ↦ absurd h (by simp [State.mark])⟩
  cases h with
  | pair =>
    refine ⟨id, fun _ ↦ rfl, fun _ ↦ rfl, fun _ hs ↦ ⟨?_, rfl⟩⟩
    rw [hs.isWatchedReference_eq_false]
    rfl
  | fieldPattern =>
    refine ⟨id, fun _ ↦ rfl, fun _ ↦ rfl, fun _ hs ↦ ⟨?_, rfl⟩⟩
    rw [hs.isWatchedReference_eq_false]
    rfl
  | @function span head typeParams this params result body s₁ form plain =>
    have hsigns : s₁.touched = s.touched ∧ s₁.stats = s.stats := by cases plain <;> exact ⟨rfl, rfl⟩
    exact ⟨fun h ↦ hsigns.1.trans h, fun _ ↦ rfl, fun _ ↦ rfl, fun _ _ ↦ ⟨rfl, hsigns.2⟩⟩
  | method plain notes =>
    obtain ⟨hnoted, hkept⟩ := hnotes notes (q := _ = _) (congrArg (Node.method _ _ _ · _ _))
    exact ⟨hnoted, fun _ ↦ rfl, fun _ ↦ rfl, fun h _ ↦ hkept h⟩
  | memoMethod memo notes =>
    obtain ⟨hnoted, hkept⟩ := hnotes notes (q := _ = _) (congrArg (Node.method _ _ _ · _ _))
    refine ⟨fun h ↦ ?_, fun _ ↦ rfl, fun _ ↦ rfl, ?_⟩
    · split <;> exact hnoted h
    · split <;> exact fun h _ ↦ hkept h
  | field annotates notes =>
    obtain ⟨hnoted, hkept⟩ := hnotes notes (q := _ = _) fun ⟨htype, hdecorators⟩ ↦
      congrArg₂ (Node.field _ _ _ · _ · _) hdecorators htype
    exact ⟨hnoted, fun _ ↦ rfl, fun _ ↦ rfl, fun h _ ↦ hkept h⟩
  | param notes =>
    obtain ⟨hnoted, hkept⟩ := hnotes notes (q := _ = _) (congrArg (Node.param _ _ _ · _ _ _))
    exact ⟨hnoted, fun _ ↦ rfl, fun _ ↦ rfl, fun h _ ↦ hkept h⟩
  | @vars span kind declared items items' noted awaited _ redeclares notes awaits binds =>
    obtain ⟨hnoted, hkept⟩ := hnotes notes (congrArg (Node.vars span kind declared))
    have hstate : s₁.touched = noted.touched ∧ s₁.stats = noted.stats := by
      rw [binds, awaits]
      split <;> split <;> exact ⟨rfl, rfl⟩
    refine ⟨fun h ↦ hstate.1.trans (hnoted h), fun _ ↦ rfl, fun _ ↦ rfl, fun h _ ↦ ?_⟩
    obtain ⟨hitems, hstats⟩ := hkept (hstate.1.symm.trans h)
    exact ⟨hitems, hstate.2.trans hstats⟩
  | interfaceDecl extended notes =>
    obtain ⟨hnoted, hkept⟩ := hnotes notes (q := _ = _) (congrArg (Node.interfaceDecl _ _ _ _ · _))
    exact ⟨hnoted, fun _ ↦ rfl, fun _ ↦ rfl, fun h _ ↦ hkept h⟩
  | _ => exact ⟨id, fun _ ↦ rfl, fun _ ↦ rfl, fun _ _ ↦ ⟨rfl, rfl⟩⟩

theorem spares_of_step {n n' : Node} (h : Step site Spares s n n' s') : Spares s n n' s' := by
  have htouched {n' : Node} (h : s'.touched = true) : Spares s n n' s' :=
    ⟨fun _ ↦ h, fun h' ↦ absurd h (by simp [h'])⟩
  cases h with
  | read watched => exact htouched rfl
  | thread resolves inside callees arguments identifies => exact htouched rfl
  | memo form signed memoises => exact htouched (touched_of_memoises memoises)
  | within enters parts =>
    obtain ⟨hnoted, hleave, hstats, hkept⟩ := kept_of_enters enters
    obtain ⟨hnoted', hparts⟩ := spares_of_threads parts.children
    refine ⟨fun hs ↦ (hleave _).trans (hnoted' (hnoted hs)), fun hs' hs ↦ ?_⟩
    rw [hleave] at hs'
    obtain ⟨hunwatched, hunwatched'⟩ := all_of_enters (fun _ _ h ↦ h) enters hs
    obtain ⟨hchildren, hstats₂, hs₂⟩ := hparts hs' hunwatched
    obtain ⟨rfl, hstats₁⟩ := hkept (Bool.eq_false_iff.2 fun h ↦ absurd (hnoted' h) (by simp [hs'])) hs
    exact ⟨Node.eq_of_skeleton_eq parts.skeleton hchildren,
      (hstats _).trans (hstats₂.trans hstats₁), hunwatched' _ hs₂⟩

/-- The note is sound: a file with nothing wrong of which the walk has noted no change is woven into
itself, and nothing is counted, whatever the options and the marked offsets. -/
theorem walkAll_eq_self_of_not_touched {depth : Nat} {stmts stmts' : List Stmt}
    (h : walkAll site depth stmts = some (stmts', s))
    (hclean : walkErrors site.options.filePath s = []) (htouched : s.touched = false) :
    stmts' = stmts ∧ s.stats = {} := by
  have hthreads := threads_of_walkAll (fun _ _ ↦ spares_of_step) h (walkErrors_eq_nil.1 hclean)
  obtain ⟨heq, hstats, -⟩ := (spares_of_threads hthreads).2 htouched
    (by simp [State.Unwatched, Scopes.All, initial])
  exact ⟨heq, hstats⟩

end

def unmarkedSite : Site :=
  { markedSite with annotations := ⟨[]⟩ }

set_option maxRecDepth 100000 in
theorem walkAll_eq_self_of_not_touched_textFunction : ∃ stmts' s,
    walkAll unmarkedSite 9 [textFunction] = some (stmts', s) ∧ walkErrors "input.ts" s = [] ∧
      s.touched = false ∧ stmts' = [textFunction] ∧ s.stats = {} := by
  have hrun : (walkAll unmarkedSite 9 [textFunction]).map
      (fun r ↦ (walkErrors "input.ts" r.2, r.2.touched)) = some ([], false) := by decide +kernel
  obtain ⟨⟨stmts', s⟩, h, hends⟩ := Option.map_eq_some_iff.1 hrun
  obtain ⟨hclean, htouched⟩ := Prod.ext_iff.1 hends
  exact ⟨stmts', s, h, hclean, htouched, walkAll_eq_self_of_not_touched h hclean htouched⟩

end Recompose.Weave
