import Mathlib.Logic.Relation
import Mathlib.Tactic.ByContra
import Recompose.CallGraph

namespace Recompose.CallGraph

def Calls (g : CallGraph) (caller callee : String) : Prop :=
  callee ∈ g.callees caller

/-- Calls lead from one function to another, or the two are the same. -/
abbrev Reaches (g : CallGraph) : String → String → Prop :=
  Relation.ReflTransGen g.Calls

variable (g : CallGraph)

/-- Whatever a name in `seen` calls is itself seen or still to be looked at. -/
def Frontier (todo seen : List String) : Prop :=
  ∀ a ∈ seen, ∀ b, g.Calls a b → b ∈ seen ∨ b ∈ todo

variable {g}

theorem Frontier.reaches {seen : List String} (h : g.Frontier [] seen) {a b : String} (ha : a ∈ seen)
    (hab : g.Reaches a b) : b ∈ seen := by
  induction hab with
  | refl => exact ha
  | tail _ hcall ih => exact (h _ ih _ hcall).resolve_right List.not_mem_nil

theorem Frontier.skip {name : String} {todo seen : List String} (h : g.Frontier (name :: todo) seen)
    (hs : name ∈ seen) : g.Frontier todo seen := by
  intro a ha b hab
  rcases h a ha b hab with hb | hb
  · exact .inl hb
  · rcases List.mem_cons.1 hb with rfl | hb
    · exact .inl hs
    · exact .inr hb

theorem Frontier.look {name : String} {todo todo' seen : List String}
    (h : g.Frontier (name :: todo) seen) (hkeep : ∀ b ∈ todo, b ∈ todo')
    (hcallees : ∀ b, g.Calls name b → b ∈ name :: seen ∨ b ∈ todo') :
    g.Frontier todo' (name :: seen) := by
  intro a ha b hab
  rcases List.mem_cons.1 ha with rfl | ha
  · exact hcallees b hab
  · rcases h a ha b hab with hb | hb
    · exact .inl (List.mem_cons_of_mem _ hb)
    · rcases List.mem_cons.1 hb with rfl | hb
      · exact .inl List.mem_cons_self
      · exact .inr (hkeep b hb)

variable (g)

theorem explore_closed (queue seen : List String) (h : g.Frontier queue seen) :
    g.Frontier [] (g.explore queue seen) ∧ (∀ a ∈ seen, a ∈ g.explore queue seen) ∧
      ∀ a ∈ queue, a ∈ g.explore queue seen := by
  induction queue, seen using explore.induct g with
  | case1 seen =>
    rw [explore]
    exact ⟨h, fun a ha ↦ ha, fun a ha ↦ absurd ha List.not_mem_nil⟩
  | case2 seen name queue hs ih =>
    rw [explore, if_pos hs]
    obtain ⟨hclosed, hseen, hqueue⟩ := ih (h.skip hs)
    refine ⟨hclosed, hseen, fun a ha ↦ ?_⟩
    rcases List.mem_cons.1 ha with rfl | ha
    · exact hseen a hs
    · exact hqueue a ha
  | case3 seen name queue hs ih =>
    rw [explore, if_neg hs]
    have hlook : g.Frontier (queue ++ (g.callees name).filter (· ∉ name :: seen)) (name :: seen) := by
      refine h.look (fun b hb ↦ List.mem_append_left _ hb) fun b hb ↦ ?_
      by_cases hbs : b ∈ name :: seen
      · exact .inl hbs
      · exact .inr (List.mem_append_right _ (List.mem_filter.2 ⟨hb, by simpa using hbs⟩))
    obtain ⟨hclosed, hseen, hqueue⟩ := ih hlook
    refine ⟨hclosed, fun a ha ↦ hseen a (List.mem_cons_of_mem _ ha), fun a ha ↦ ?_⟩
    rcases List.mem_cons.1 ha with rfl | ha
    · exact hseen a List.mem_cons_self
    · exact hqueue a (List.mem_append_left _ ha)

theorem reaches_of_mem_explore (queue seen : List String) {name : String}
    (h : name ∈ g.explore queue seen) : name ∈ seen ∨ ∃ a ∈ queue, g.Reaches a name := by
  induction queue, seen using explore.induct g with
  | case1 seen =>
    rw [explore] at h
    exact .inl h
  | case2 seen first queue hs ih =>
    rw [explore, if_pos hs] at h
    obtain hseen | ⟨a, ha, hreach⟩ := ih h
    · exact .inl hseen
    · exact .inr ⟨a, List.mem_cons_of_mem _ ha, hreach⟩
  | case3 seen first queue hs ih =>
    rw [explore, if_neg hs] at h
    obtain hseen | ⟨a, ha, hreach⟩ := ih h
    · rcases List.mem_cons.1 hseen with rfl | hseen
      · exact .inr ⟨name, List.mem_cons_self, .refl⟩
      · exact .inl hseen
    · rcases List.mem_append.1 ha with ha | ha
      · exact .inr ⟨a, List.mem_cons_of_mem _ ha, hreach⟩
      · have hcall : g.Calls first a := (List.mem_filter.1 ha).1
        exact .inr ⟨first, List.mem_cons_self, .head hcall hreach⟩

theorem explore_nodup (queue seen : List String) (h : seen.Nodup) : (g.explore queue seen).Nodup := by
  induction queue, seen using explore.induct g with
  | case1 seen => rwa [explore]
  | case2 seen name queue hs ih =>
    rw [explore, if_pos hs]
    exact ih h
  | case3 seen name queue hs ih =>
    rw [explore, if_neg hs]
    exact ih (List.nodup_cons.2 ⟨hs, h⟩)

theorem mem_explore_iff {queue : List String} {name : String} :
    name ∈ g.explore queue [] ↔ ∃ a ∈ queue, g.Reaches a name := by
  constructor
  · intro h
    exact (g.reaches_of_mem_explore queue [] h).resolve_left List.not_mem_nil
  · rintro ⟨a, ha, hreach⟩
    obtain ⟨hclosed, -, hqueue⟩ := g.explore_closed queue [] fun b hb ↦ absurd hb List.not_mem_nil
    exact hclosed.reaches (hqueue a ha) hreach

theorem mem_roots_iff {name : String} :
    name ∈ g.roots ↔ ∃ d ∈ g.nodes, d.qualifiedName = name ∧
      (d.mode = .entry ∨ ∀ e ∈ g.nodes, e.mode ≠ .entry) := by
  simp only [roots, List.mem_map, List.isEmpty_iff]
  by_cases hentry : ∀ e ∈ g.nodes, e.mode ≠ .entry
  · have hnone : g.nodes.filter (·.mode == .entry) = [] := by simpa using hentry
    rw [if_pos hnone]
    constructor
    · rintro ⟨d, hd, hname⟩
      exact ⟨d, hd, hname, .inr hentry⟩
    · rintro ⟨d, hd, hname, -⟩
      exact ⟨d, hd, hname⟩
  · have hsome : g.nodes.filter (·.mode == .entry) ≠ [] := by simpa using hentry
    rw [if_neg hsome]
    constructor
    · rintro ⟨d, hd, hname⟩
      obtain ⟨hd, hmode⟩ := List.mem_filter.1 hd
      exact ⟨d, hd, hname, .inl (by simpa using hmode)⟩
    · rintro ⟨d, hd, hname, hmode⟩
      exact ⟨d, List.mem_filter.2 ⟨hd, by simpa using hmode.resolve_right hentry⟩, hname⟩

/-- The names found from the roots are, each once, those that zero or more calls lead to from an
entry or, in a file without entries, from any declaration. -/
theorem reachable_exact :
    g.reachable.Nodup ∧ ∀ name, name ∈ g.reachable ↔
      ∃ d ∈ g.nodes, (d.mode = .entry ∨ ∀ e ∈ g.nodes, e.mode ≠ .entry) ∧
        Relation.ReflTransGen (fun a b ↦ b ∈ g.callees a) d.qualifiedName name := by
  refine ⟨g.explore_nodup g.roots [] List.nodup_nil, fun name ↦ ?_⟩
  rw [reachable, mem_explore_iff]
  constructor
  · rintro ⟨a, ha, hreach⟩
    obtain ⟨d, hd, rfl, hroot⟩ := g.mem_roots_iff.1 ha
    exact ⟨d, hd, hroot, hreach⟩
  · rintro ⟨d, hd, hroot, hreach⟩
    exact ⟨d.qualifiedName, g.mem_roots_iff.2 ⟨d, hd, rfl, hroot⟩, hreach⟩

theorem reaches_of_leadsTo (target : String) (stack seen : List String)
    (h : g.leadsTo target stack seen) : ∃ a ∈ stack, g.Reaches a target := by
  induction stack, seen using leadsTo.induct g target with
  | case1 seen => simp [leadsTo] at h
  | case2 seen stack => exact ⟨target, List.mem_cons_self, .refl⟩
  | case3 seen name stack hne hs ih =>
    rw [leadsTo, if_neg hne, if_pos hs] at h
    obtain ⟨a, ha, hreach⟩ := ih h
    exact ⟨a, List.mem_cons_of_mem _ ha, hreach⟩
  | case4 seen name stack hne hs ih =>
    rw [leadsTo, if_neg hne, if_neg hs] at h
    obtain ⟨a, ha, hreach⟩ := ih h
    rcases List.mem_append.1 ha with ha | ha
    · exact ⟨name, List.mem_cons_self, .head ha hreach⟩
    · exact ⟨a, List.mem_cons_of_mem _ ha, hreach⟩

theorem closed_of_not_leadsTo (target : String) (stack seen : List String)
    (hfrontier : g.Frontier stack seen) (hseen : target ∉ seen) (h : ¬g.leadsTo target stack seen) :
    ∃ all, g.Frontier [] all ∧ target ∉ all ∧ (∀ a ∈ seen, a ∈ all) ∧ ∀ a ∈ stack, a ∈ all := by
  induction stack, seen using leadsTo.induct g target with
  | case1 seen =>
    exact ⟨seen, hfrontier, hseen, fun a ha ↦ ha, fun a ha ↦ absurd ha List.not_mem_nil⟩
  | case2 seen stack =>
    rw [leadsTo, if_pos rfl] at h
    exact absurd rfl h
  | case3 seen name stack hne hs ih =>
    rw [leadsTo, if_neg hne, if_pos hs] at h
    obtain ⟨all, hclosed, htarget, hold, hstack⟩ := ih (hfrontier.skip hs) hseen h
    refine ⟨all, hclosed, htarget, hold, fun a ha ↦ ?_⟩
    rcases List.mem_cons.1 ha with rfl | ha
    · exact hold a hs
    · exact hstack a ha
  | case4 seen name stack hne hs ih =>
    rw [leadsTo, if_neg hne, if_neg hs] at h
    have hlook : g.Frontier (g.callees name ++ stack) (name :: seen) :=
      hfrontier.look (fun b hb ↦ List.mem_append_right _ hb)
        fun b hb ↦ .inr (List.mem_append_left _ hb)
    have hfresh : target ∉ name :: seen := by
      rintro (_ | ⟨_, hmem⟩)
      · exact hne rfl
      · exact hseen hmem
    obtain ⟨all, hclosed, htarget, hold, hstack⟩ := ih hlook hfresh h
    refine ⟨all, hclosed, htarget, fun a ha ↦ hold a (List.mem_cons_of_mem _ ha), fun a ha ↦ ?_⟩
    rcases List.mem_cons.1 ha with rfl | ha
    · exact hold a List.mem_cons_self
    · exact hstack a (List.mem_append_right _ ha)

theorem leadsTo_iff {target : String} {stack : List String} :
    g.leadsTo target stack [] ↔ ∃ a ∈ stack, g.Reaches a target := by
  refine ⟨g.reaches_of_leadsTo target stack [], ?_⟩
  rintro ⟨a, ha, hreach⟩
  by_contra h
  obtain ⟨all, hclosed, htarget, -, hstack⟩ := g.closed_of_not_leadsTo target stack []
    (fun b hb ↦ absurd hb List.not_mem_nil) List.not_mem_nil h
  exact htarget (hclosed.reaches (hstack a ha) hreach)

/-- A function is found to be recursive if and only if one or more calls lead from it back to it. -/
theorem isRecursive_exact (name : String) :
    g.isRecursive name = true ↔ Relation.TransGen (fun a b ↦ b ∈ g.callees a) name name := by
  rw [isRecursive, leadsTo_iff, Relation.TransGen.head'_iff]
  rfl

theorem inheritedFrom?_eq (name : String) (seen : List String) (owner : String) :
    g.inheritedFrom? name seen owner = if owner ∈ seen then none else
      (g.member? owner name).or
        ((g.parents.lookup owner).bind (g.inheritedFrom? name (owner :: seen))) := by
  rw [inheritedFrom?]
  split
  · rfl
  · cases g.member? owner name with
    | some d => rfl
    | none =>
      dsimp only
      split
      · next hparent => rw [hparent]; rfl
      · next hparent => rw [hparent]; rfl

/-- The class that comes `n` steps after a class in the order of extension, if there is one. -/
def ancestor? (g : CallGraph) (owner : String) : Nat → Option String
  | 0 => some owner
  | n + 1 => (g.ancestor? owner n).bind (g.parents.lookup ·)

theorem ancestor?_succ (owner : String) (n : Nat) :
    g.ancestor? owner (n + 1) = (g.parents.lookup owner).bind (g.ancestor? · n) := by
  induction n with
  | zero => cases h : g.parents.lookup owner <;> simp [ancestor?, h]
  | succ n ih =>
    rw [ancestor?, ih, Option.bind_assoc]
    rfl

/-- Where the order of extension comes to a class a second time, it goes on as it did the first
time. -/
theorem ancestor?_add_of_eq {owner : String} {i j : Nat}
    (h : g.ancestor? owner i = g.ancestor? owner j) (n : Nat) :
    g.ancestor? owner (i + n) = g.ancestor? owner (j + n) := by
  induction n with
  | zero => exact h
  | succ n ih => rw [← Nat.add_assoc, ← Nat.add_assoc, ancestor?, ancestor?, ih]

/-- The class `n` steps after `owner` is the nearest with a member of this name. -/
def IsNearest (owner name : String) (n : Nat) (d : MemoDeclaration) : Prop :=
  (g.ancestor? owner n).bind (g.member? · name) = some d ∧
    ∀ m < n, (g.ancestor? owner m).bind (g.member? · name) = none

theorem exists_isNearest {name : String} {d : MemoDeclaration} (seen : List String) (owner : String)
    (h : g.inheritedFrom? name seen owner = some d) : ∃ n, g.IsNearest owner name n d := by
  induction seen, owner using inheritedFrom?.induct g name with
  | case1 seen owner hs =>
    rw [inheritedFrom?_eq, if_pos hs] at h
    cases h
  | case2 seen owner hs node hmember =>
    rw [inheritedFrom?_eq, if_neg hs, hmember] at h
    have hnode : node = d := Option.some.inj h
    exact ⟨0, hnode ▸ hmember, fun m hm ↦ absurd hm (Nat.not_lt_zero m)⟩
  | case3 seen owner hs hmember parent hparent ih =>
    rw [inheritedFrom?_eq, if_neg hs, hmember, hparent] at h
    obtain ⟨n, hfound, hbefore⟩ := ih h
    refine ⟨n + 1, by rwa [ancestor?_succ, hparent], fun m hm ↦ ?_⟩
    cases m with
    | zero => exact hmember
    | succ m =>
      rw [ancestor?_succ, hparent]
      exact hbefore m (Nat.lt_of_succ_lt_succ hm)
  | case4 seen owner hs hmember hparent =>
    rw [inheritedFrom?_eq, if_neg hs, hmember, hparent] at h
    cases h

/-- If nothing is found, no class has a member: the classes in `seen` have none, and the order of
extension leaves them only for `owner`. -/
theorem member?_eq_none_of_inheritedFrom? {name : String} (seen : List String) (owner : String)
    (hmembers : ∀ c ∈ seen, g.member? c name = none)
    (hparents : ∀ c ∈ seen, ∀ p, g.parents.lookup c = some p → p ∈ seen ∨ p = owner)
    (h : g.inheritedFrom? name seen owner = none) (n : Nat) :
    (g.ancestor? owner n).bind (g.member? · name) = none := by
  induction seen, owner using inheritedFrom?.induct g name generalizing n with
  | case1 seen owner hs =>
    -- `seen` is closed under extension, so the classes from here on are all in it
    have hin : ∀ n c, g.ancestor? owner n = some c → c ∈ seen := by
      intro n
      induction n with
      | zero =>
        intro c hc
        exact Option.some.inj hc ▸ hs
      | succ n ih =>
        intro c hc
        obtain ⟨b, hb, hc⟩ := Option.bind_eq_some_iff.1 hc
        rcases hparents b (ih b hb) c hc with hc | rfl
        · exact hc
        · exact hs
    cases hc : g.ancestor? owner n with
    | none => rfl
    | some c => exact hmembers c (hin n c hc)
  | case2 seen owner hs node hmember =>
    rw [inheritedFrom?_eq, if_neg hs, hmember] at h
    cases h
  | case3 seen owner hs hmember parent hparent ih =>
    rw [inheritedFrom?_eq, if_neg hs, hmember, hparent] at h
    cases n with
    | zero => exact hmember
    | succ n =>
      rw [ancestor?_succ, hparent]
      refine ih (fun c hc ↦ ?_) (fun c hc p hp ↦ ?_) h n
      · rcases List.mem_cons.1 hc with rfl | hc
        · exact hmember
        · exact hmembers c hc
      · rcases List.mem_cons.1 hc with rfl | hc
        · exact .inr (Option.some.inj (hp.symm.trans hparent))
        · rcases hparents c hc p hp with hp | rfl
          · exact .inl (List.mem_cons_of_mem _ hp)
          · exact .inl List.mem_cons_self
  | case4 seen owner hs hmember hparent =>
    cases n with
    | zero => exact hmember
    | succ n =>
      rw [ancestor?_succ, hparent]
      rfl

theorem inheritedMember?_eq_none_iff {owner name : String} :
    g.inheritedMember? owner name = none ↔
      ∀ n, (g.ancestor? owner n).bind (g.member? · name) = none := by
  constructor
  · intro h
    exact g.member?_eq_none_of_inheritedFrom? [] owner (fun c hc ↦ absurd hc List.not_mem_nil)
      (fun c hc ↦ absurd hc List.not_mem_nil) h
  · intro h
    cases hd : g.inheritedMember? owner name with
    | none => rfl
    | some d =>
      obtain ⟨n, hfound, -⟩ := g.exists_isNearest [] owner hd
      exact absurd (hfound.symm.trans (h n)) (Option.some_ne_none d)

theorem IsNearest.unique {owner name : String} {m n : Nat} {d e : MemoDeclaration}
    (hm : g.IsNearest owner name m d) (hn : g.IsNearest owner name n e) : d = e := by
  rcases Nat.lt_trichotomy m n with hlt | rfl | hlt
  · exact absurd (hm.1.symm.trans (hn.2 m hlt)) (Option.some_ne_none d)
  · exact Option.some.inj (hm.1.symm.trans hn.1)
  · exact absurd (hn.1.symm.trans (hm.2 n hlt)) (Option.some_ne_none e)

/-- The order of extension comes to no class twice in its first `n` steps. -/
def NoRepetition (owner : String) (n : Nat) : Prop :=
  ∀ i j, i < j → j ≤ n → g.ancestor? owner i ≠ g.ancestor? owner j

theorem member?_eq_none_of_noRepetition {owner name : String}
    (h : ∀ n, g.NoRepetition owner n → (g.ancestor? owner n).bind (g.member? · name) = none)
    (n : Nat) : (g.ancestor? owner n).bind (g.member? · name) = none := by
  induction n using Nat.strongRecOn with
  | _ n ih =>
    by_cases hfirst : g.NoRepetition owner n
    · exact h n hfirst
    · obtain ⟨i, j, hij, hjn, heq⟩ : ∃ i j, i < j ∧ j ≤ n ∧
          g.ancestor? owner i = g.ancestor? owner j := by
        simpa [NoRepetition] using hfirst
      have hsame := g.ancestor?_add_of_eq heq (n - j)
      rw [Nat.add_sub_cancel' hjn] at hsame
      rw [← hsame]
      exact ih (i + (n - j)) (by omega)

/-- The inherited member of a name is that of the first class with such a member in the order
`owner`, the class it extends, and so on; none is found if and only if no class has one before the
order ends or repeats itself. -/
theorem inheritedMember?_finds_nearest (owner name : String) :
    (∀ d, g.inheritedMember? owner name = some d ↔
      ∃ n c, g.ancestor? owner n = some c ∧ g.member? c name = some d ∧
        ∀ m < n, ∀ b, g.ancestor? owner m = some b → g.member? b name = none) ∧
    (g.inheritedMember? owner name = none ↔
      ∀ n c, (∀ i j, i < j → j ≤ n → g.ancestor? owner i ≠ g.ancestor? owner j) →
        g.ancestor? owner n = some c → g.member? c name = none) := by
  have hnearest : ∀ n d, g.IsNearest owner name n d ↔
      ∃ c, g.ancestor? owner n = some c ∧ g.member? c name = some d ∧
        ∀ m < n, ∀ b, g.ancestor? owner m = some b → g.member? b name = none := by
    intro n d
    simp only [IsNearest, Option.bind_eq_some_iff, Option.bind_eq_none_iff]
    constructor
    · rintro ⟨⟨c, hc, hd⟩, hbefore⟩
      exact ⟨c, hc, hd, hbefore⟩
    · rintro ⟨c, hc, hd, hbefore⟩
      exact ⟨⟨c, hc, hd⟩, hbefore⟩
  refine ⟨fun d ↦ ⟨fun h ↦ ?_, ?_⟩, ?_⟩
  · obtain ⟨n, hn⟩ := g.exists_isNearest [] owner h
    exact ⟨n, (hnearest n d).1 hn⟩
  · rintro ⟨n, hn⟩
    cases hfound : g.inheritedMember? owner name with
    | none =>
      have hnone := g.inheritedMember?_eq_none_iff.1 hfound n
      exact absurd (((hnearest n d).2 hn).1.symm.trans hnone) (Option.some_ne_none d)
    | some e =>
      obtain ⟨m, hm⟩ := g.exists_isNearest [] owner hfound
      rw [IsNearest.unique g hm ((hnearest n d).2 hn)]
  · rw [inheritedMember?_eq_none_iff]
    constructor
    · intro h n c _ hc
      exact Option.bind_eq_none_iff.1 (h n) c hc
    · intro h
      exact g.member?_eq_none_of_noRepetition fun n hn ↦ Option.bind_eq_none_iff.2 fun c ↦ h n c hn

end Recompose.CallGraph
