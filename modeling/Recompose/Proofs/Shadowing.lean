import Recompose.Proofs.Insertion

namespace Recompose

open Script

/-- The name that a callee is rooted at, under parentheses and member accesses. -/
def Script.Node.calleeRoot? : Expr → Option String
  | .ref _ name => some name
  | .member _ owner _ false _ => owner.calleeRoot?
  | .form _ .paren [e] => e.calleeRoot?
  | _ => none

/-- The options name the callee, as a primitive of this arity, an external function or a condition. -/
def Options.Lists (o : Options) (callee : String) (arity : Nat) : Prop :=
  (∃ p ∈ o.primitives, p.accepts callee arity = true) ∨ callee ∈ o.externalMemoFunctions ∨
    callee = o.runtime.conditionScope ∨ callee = o.runtime.conditionBranch

namespace Weave

variable {site : Site} {scopes : Scopes} {classes : List String} {callee : Expr} {arity : Nat}
  {root : String}

theorem exists_calleeText?_of_calleeRoot? (h : callee.calleeRoot? = some root) :
    ∃ text, callee.calleeText? = some text := by
  suffices ∃ path, callee.calleePath? = some path by
    obtain ⟨path, hpath⟩ := this
    exact ⟨".".intercalate path, by rw [Node.calleeText?, hpath, Option.map_some]⟩
  fun_induction Node.calleeRoot? callee with
  | case1 span name => exact ⟨[name], rfl⟩
  | case2 span owner name optional ih =>
    obtain ⟨path, hpath⟩ := ih h
    exact ⟨path ++ [name], by rw [Node.calleePath?, hpath, Option.map_some]⟩
  | case3 span e ih => exact ih h
  | case4 => cases h

theorem planOfText?_eq_none_iff {o : Options} {text : String} :
    planOfText? o text arity = none ↔ ¬o.Lists text arity := by
  unfold planOfText? Options.Lists Options.findPrimitive? Options.isExternalMemo
  cases hfound : o.primitives.find? (·.accepts text arity) with
  | some p =>
    have hp := List.find?_some hfound
    simp only [reduceCtorEq, false_iff, not_not]
    exact .inl ⟨p, List.mem_of_find?_eq_some hfound, hp⟩
  | none =>
    have hnone : ¬∃ p ∈ o.primitives, p.accepts text arity = true := by
      simpa [List.find?_eq_none] using hfound
    simp only [hnone, false_or, not_or, List.contains_iff_mem]
    split
    · next hexternal => simp [hexternal]
    · next hexternal =>
      split
      · next hcondition => simp [hexternal, ← not_or, hcondition]
      · next hcondition => simpa [hexternal] using hcondition

theorem declarationOf?_eq_none (h : callee.calleeRoot? = some root) (hname : ∀ span, callee ≠ .ref span root) :
    declarationOf? site.graph classes callee = none := by
  unfold declarationOf?
  split
  · next span name =>
    obtain rfl := Option.some.inj h
    exact absurd rfl (hname span)
  · cases h
  · rfl

theorem resolveCall?_eq_planOfText? {text : String} (h : callee.calleeRoot? = some root)
    (hname : ∀ span, callee ≠ .ref span root) (htext : callee.calleeText? = some text) :
    resolveCall? site scopes classes callee arity = planOfText? site.options text arity := by
  have hplan : planOfCallee? site classes callee arity = planOfText? site.options text arity := by
    unfold planOfCallee?
    rw [declarationOf?_eq_none h hname, htext]
    rfl
  unfold resolveCall?
  split
  · next span name =>
    obtain rfl := Option.some.inj h
    exact absurd rfl (hname span)
  · exact hplan

/-- A binding that is not memo-callable keeps calls of its name from being threaded. Calls of something
else that is rooted at the name are threaded exactly if the options name their callee's text. -/
theorem resolveCall?_of_shadowed {b : Binding} (h : callee.calleeRoot? = some root)
    (hbound : scopes.lookup root = some b) (hplain : b.isMemoCallable = false) :
    resolveCall? site scopes classes callee arity = none ↔
      (∃ span, callee = .ref span root) ∨
        ∃ text, callee.calleeText? = some text ∧ ¬site.options.Lists text arity := by
  by_cases hname : ∃ span, callee = .ref span root
  · obtain ⟨span, rfl⟩ := hname
    refine iff_of_true ?_ (.inl ⟨span, rfl⟩)
    simp [resolveCall?, hbound, hplain]
  · obtain ⟨text, htext⟩ := exists_calleeText?_of_calleeRoot? h
    rw [resolveCall?_eq_planOfText? h (not_exists.1 hname) htext, planOfText?_eq_none_iff]
    simp [hname, htext]

def textScope : Scopes :=
  ⟨[{ isFunction := true, names := [("Text", .parameter false true)] }]⟩

theorem resolveCall?_of_shadowed_name :
    textScope.lookup "Text" = some (.parameter false true) ∧
      resolveCall? markedSite textScope [] (.ref ⟨0, 4⟩ "Text") 1 = none :=
  have hbound : textScope.lookup "Text" = some (.parameter false true) := by decide
  ⟨hbound, (resolveCall?_of_shadowed rfl hbound rfl).2 (.inl ⟨_, rfl⟩)⟩

/-- In parentheses the name of a primitive stands for the primitive, whatever it is bound to. -/
theorem resolveCall?_parenthesised :
    textScope.lookup "Text" = some (.parameter false true) ∧
      resolveCall? markedSite textScope [] (.form ⟨0, 6⟩ .paren [.ref ⟨1, 5⟩ "Text"]) 1 ≠ none := by
  decide +kernel

end Weave

end Recompose
