import Mathlib.Data.List.Forall2
import Recompose.Proofs.Traverse
import Recompose.Weave.Walk

namespace Recompose.Script.Node

def erase : Node → Id Node :=
  fun _ ↦ pure .missing

/-- The node with its direct parts erased. -/
def skeleton (node : Node) : Node :=
  (node.mapChildren erase).run

@[simp]
theorem run_erase (node : Node) : (erase node).run = .missing :=
  rfl

@[simp]
theorem run_mapM_erase (part : Option Node) :
    (part.mapM erase).run = part.map fun _ ↦ .missing := by
  cases part <;> rfl

section

variable {n : Node} {span : Span}

theorem exists_of_skeleton_pair {key value : Node} {shorthand : Bool}
    (h : n.skeleton = (pair span key value shorthand).skeleton) :
    ∃ key' value', n = .pair span key' value' shorthand := by
  cases n
  case pair =>
    obtain ⟨rfl, -, -, rfl⟩ := pair.inj h
    exact ⟨_, _, rfl⟩
  case ascribe =>
    simp only [skeleton, mapChildren] at h
    split at h <;> cases h
  all_goals cases h

theorem exists_of_skeleton_fieldPattern {key value : Node} {shorthand : Bool}
    (h : n.skeleton = (fieldPattern span key value shorthand).skeleton) :
    ∃ key' value', n = .fieldPattern span key' value' shorthand := by
  cases n
  case fieldPattern =>
    obtain ⟨rfl, -, -, rfl⟩ := fieldPattern.inj h
    exact ⟨_, _, rfl⟩
  case ascribe =>
    simp only [skeleton, mapChildren] at h
    split at h <;> cases h
  all_goals cases h

theorem exists_of_skeleton_place {target : Node} (h : n.skeleton = (place target).skeleton) :
    ∃ target', n = .place target' := by
  cases n
  case place => exact ⟨_, rfl⟩
  case ascribe =>
    simp only [skeleton, mapChildren] at h
    split at h <;> cases h
  all_goals cases h

theorem exists_of_skeleton_withDefault {target fallback : Node}
    (h : n.skeleton = (withDefault span target fallback).skeleton) :
    ∃ target' fallback', n = .withDefault span target' fallback' := by
  cases n
  case withDefault =>
    obtain ⟨rfl, -, -⟩ := withDefault.inj h
    exact ⟨_, _, rfl⟩
  case ascribe =>
    simp only [skeleton, mapChildren] at h
    split at h <;> cases h
  all_goals cases h

end

def take : Node → StateM (List Node) Node :=
  fun _ parts ↦ (parts.headD .missing, parts.tail)

def refill (node : Node) (parts : List Node) : Node :=
  (node.mapChildren take parts).1

section

variable {α β : Type} {parts : List Node}

theorem pure_parts_apply (a : α) : (pure a : StateM (List Node) α) parts = (a, parts) :=
  rfl

theorem bind_parts_apply (x : StateM (List Node) α) (f : α → StateM (List Node) β) :
    (x >>= f) parts = f (x parts).1 (x parts).2 :=
  rfl

theorem map_parts_apply (x : StateM (List Node) α) (f : α → β) :
    (f <$> x) parts = (f (x parts).1, (x parts).2) :=
  rfl

theorem take_apply (hole part : Node) : take hole (part :: parts) = (part, parts) :=
  rfl

theorem mapM_take_append (xs : List Node) :
    (List.replicate xs.length Node.missing).mapM take (xs ++ parts) = (xs, parts) := by
  induction xs with
  | nil => rfl
  | cons x xs ih =>
    simp only [List.length_cons, List.replicate_succ, List.mapM_cons, List.cons_append,
      bind_parts_apply, take_apply, ih, pure_parts_apply]

theorem mapM_take_self (xs : List Node) :
    (List.replicate xs.length Node.missing).mapM take xs = (xs, []) := by
  simpa using @mapM_take_append [] xs

theorem option_mapM_take_append (part : Option Node) :
    (part.map fun _ ↦ Node.missing).mapM take (part.toList ++ parts) = (part, parts) := by
  cases part <;> rfl

theorem option_mapM_take_self (part : Option Node) :
    (part.map fun _ ↦ Node.missing).mapM take part.toList = (part, []) := by
  cases part <;> rfl

end

theorem refill_skeleton (node : Node) : node.skeleton.refill node.children = node := by
  cases node
  case ascribe span how value type =>
    simp only [skeleton, mapChildren, children]
    split <;> simp_all [refill, mapChildren, bind_parts_apply, map_parts_apply, take_apply]
  all_goals
    simp [skeleton, refill, mapChildren, children, pure_parts_apply, bind_parts_apply,
      map_parts_apply, take_apply, mapM_take_append, mapM_take_self, option_mapM_take_append,
      option_mapM_take_self]

theorem eq_of_skeleton_eq {node node' : Node} (hskeleton : node'.skeleton = node.skeleton)
    (hparts : node'.children = node.children) : node' = node := by
  rw [← refill_skeleton node', hskeleton, hparts, refill_skeleton]

end Recompose.Script.Node

namespace Recompose.Weave

open Script

variable {α β : Type} {s s' : State}

theorem bind_apply_eq_some {x : WeaveM α} {f : α → WeaveM β} {r : β × State} :
    (x >>= f) s = some r ↔ ∃ a s₁, x s = some (a, s₁) ∧ f a s₁ = some r := by
  change Option.bind (x s) (fun p ↦ f p.1 p.2) = some r ↔ _
  simp [Option.bind_eq_some_iff]

theorem pure_apply_eq_some {a b : α} : (pure a : WeaveM α) s = some (b, s') ↔ b = a ∧ s' = s := by
  change some (a, s) = some (b, s') ↔ _
  simp [eq_comm]

theorem get_apply_eq_some {r : State} : (get : WeaveM State) s = some (r, s') ↔ r = s ∧ s' = s := by
  change some (s, s) = some (r, s') ↔ _
  simp [eq_comm]

theorem get_bind_apply (f : State → WeaveM β) : (get >>= f) s = f s s :=
  rfl

theorem modify_apply_eq_some {f : State → State} {u : Unit} :
    (modify f : WeaveM Unit) s = some (u, s') ↔ s' = f s := by
  change some ((), f s) = some (u, s') ↔ _
  simp [eq_comm]

/-- What may become of a node, and of the state in which it is met. -/
abbrev Walked := State → Node → Node → State → Prop

inductive Threads (W : Walked) : State → List Node → List Node → State → Prop
  | nil {s : State} : Threads W s [] [] s
  | cons {s s₁ s' : State} {n n' : Node} {ns ns' : List Node} (head : W s n n' s₁)
      (tail : Threads W s₁ ns ns' s') : Threads W s (n :: ns) (n' :: ns') s'

namespace Threads

variable {V W : Walked} {s₁ : State} {xs xs' ys ys' : List Node}

theorem single {x x' : Node} (h : W s x x' s') : Threads W s [x] [x'] s' :=
  .cons h .nil

theorem eq_of_nil (h : Threads W s [] xs' s') : xs' = [] ∧ s' = s := by
  cases h
  exact ⟨rfl, rfl⟩

theorem append (hx : Threads W s xs xs' s₁) (hy : Threads W s₁ ys ys' s') :
    Threads W s (xs ++ ys) (xs' ++ ys') s' := by
  induction hx with
  | nil => exact hy
  | cons head _ ih => exact .cons head (ih hy)

theorem length_eq (h : Threads W s xs xs' s') : xs'.length = xs.length := by
  induction h with
  | nil => rfl
  | cons _ _ ih => simp [ih]

theorem mono (h : Threads V s xs xs' s') (hVW : ∀ {s n n' s'}, V s n n' s' → W s n n' s') :
    Threads W s xs xs' s' := by
  induction h with
  | nil => exact .nil
  | cons head _ ih => exact .cons (hVW head) ih

theorem forall₂ {R : Node → Node → Prop} (h : Threads W s xs xs' s')
    (hR : ∀ {s n n' s'}, n ∈ xs → W s n n' s' → R n n') : List.Forall₂ R xs xs' := by
  induction h with
  | nil => exact .nil
  | cons head _ ih =>
    exact .cons (hR List.mem_cons_self head) (ih fun hn ↦ hR (List.mem_cons_of_mem _ hn))

end Threads

/-- A node whose parts are met one after the other and that stays the same otherwise. -/
structure Parts (W : Walked) (s : State) (n n' : Node) (s' : State) : Prop where
  skeleton : n'.skeleton = n.skeleton
  children : Threads W s n.children n'.children s'

theorem Parts.mono {V W : Walked} {n n' : Node} (h : Parts V s n n' s')
    (hVW : ∀ {s n n' s'}, V s n n' s' → W s n n' s') : Parts W s n n' s' :=
  ⟨h.skeleton, h.children.mono hVW⟩

def runOf (f : Node → WeaveM Node) : Walked :=
  fun s n n' s' ↦ f n s = some (n', s')

theorem mapM_apply_eq_some {f : Node → WeaveM Node} {xs xs' : List Node} :
    (xs.mapM f) s = some (xs', s') ↔
      xs'.map (fun _ ↦ Node.missing) = xs.map (fun _ ↦ Node.missing) ∧
        Threads (runOf f) s xs xs' s' := by
  suffices (xs.mapM f) s = some (xs', s') ↔ Threads (runOf f) s xs xs' s' from
    this.trans ⟨fun h ↦ ⟨by simp only [List.map_const', h.length_eq], h⟩, And.right⟩
  induction xs generalizing xs' s with
  | nil =>
    rw [List.mapM_nil, pure_apply_eq_some]
    constructor
    · intro h
      obtain ⟨rfl, rfl⟩ := h
      exact .nil
    · intro h
      cases h
      exact ⟨rfl, rfl⟩
  | cons x xs ih =>
    simp only [List.mapM_cons, bind_apply_eq_some, pure_apply_eq_some]
    constructor
    · intro h
      obtain ⟨a, s₁, ha, b, s₂, hb, rfl, rfl⟩ := h
      exact .cons ha (ih.1 hb)
    · intro h
      cases h with
      | cons head tail => exact ⟨_, _, head, _, _, ih.2 tail, rfl, rfl⟩

theorem option_mapM_apply_eq_some {f : Node → WeaveM Node} {o o' : Option Node} :
    (o.mapM f) s = some (o', s') ↔
      o'.map (fun _ ↦ Node.missing) = o.map (fun _ ↦ Node.missing) ∧
        Threads (runOf f) s o.toList o'.toList s' := by
  cases o with
  | none =>
    rw [Option.mapM_none, pure_apply_eq_some]
    constructor
    · intro h
      obtain ⟨rfl, rfl⟩ := h
      exact ⟨rfl, .nil⟩
    · intro ⟨ho, ht⟩
      obtain rfl : o' = none := by simpa using ho
      cases ht
      exact ⟨rfl, rfl⟩
  | some x =>
    simp only [Option.mapM_some, map_eq_pure_bind, bind_apply_eq_some, pure_apply_eq_some]
    constructor
    · intro h
      obtain ⟨a, s₁, ha, rfl, rfl⟩ := h
      exact ⟨rfl, .single ha⟩
    · intro ⟨ho, ht⟩
      obtain ⟨x', rfl⟩ : ∃ x', o' = some x' := by simpa using ho
      cases ht with
      | cons head tail =>
        cases tail
        exact ⟨_, _, head, rfl, rfl⟩

theorem parts_mapChildren {f : Node → WeaveM Node} {n n' : Node}
    (h : n.mapChildren f s = some (n', s')) : Parts (runOf f) s n n' s' := by
  revert h
  cases n
  case ascribe span how value type =>
    simp only [Node.mapChildren]
    split
    all_goals
      simp only [bind_apply_eq_some, pure_apply_eq_some]
      intro h
      obtain ⟨a, s₁, ha, b, s₂, hb, rfl, rfl⟩ := h
      exact ⟨by simp_all [Node.skeleton, Node.mapChildren],
        by simpa [Node.children, *] using .cons ha (.single hb)⟩
  -- every other node is put together again from its own fields and the parts, in their order
  all_goals
    simp only [Node.mapChildren, bind_apply_eq_some, pure_apply_eq_some, mapM_apply_eq_some,
      option_mapM_apply_eq_some, forall_exists_index, and_imp]
    intros
    subst_vars
    constructor
    · simp [Node.skeleton, Node.mapChildren, *]
    · simp only [Node.children]
      apply_rules [Threads.append, Threads.cons, Threads.nil]

/-- Nothing has been found wrong so far. -/
def State.Clean (s : State) : Prop :=
  s.errors = [] ∧ s.failure = none

/-- Whenever the step ends with nothing wrong, nothing was wrong before and `Q` describes it. -/
def Cleanly (x : WeaveM α) (Q : State → α → State → Prop) : Prop :=
  ∀ ⦃s a s'⦄, x s = some (a, s') → s'.Clean → s.Clean ∧ Q s a s'

theorem Cleanly.mono {x : WeaveM α} {P Q : State → α → State → Prop} (h : Cleanly x P)
    (hPQ : ∀ {s a s'}, P s a s' → Q s a s') : Cleanly x Q := by
  intro s a s' hx hc
  exact (h hx hc).imp_right hPQ

theorem cleanly_pure (a : α) : Cleanly (pure a) fun s b s' ↦ b = a ∧ s' = s := by
  intro s b s' h hc
  obtain ⟨rfl, rfl⟩ := pure_apply_eq_some.1 h
  exact ⟨hc, rfl, rfl⟩

theorem Cleanly.bind {x : WeaveM α} {f : α → WeaveM β} {P : State → α → State → Prop}
    {Q : α → State → β → State → Prop} (hx : Cleanly x P) (hf : ∀ a, Cleanly (f a) (Q a)) :
    Cleanly (x >>= f) fun s b s' ↦ ∃ a s₁, P s a s₁ ∧ Q a s₁ b s' := by
  intro s b s' h hc
  obtain ⟨a, s₁, ha, hb⟩ := bind_apply_eq_some.1 h
  obtain ⟨hc₁, hQ⟩ := hf a hb hc
  obtain ⟨hc₀, hP⟩ := hx ha hc₁
  exact ⟨hc₀, a, s₁, hP, hQ⟩

theorem cleanly_modify (f : State → State) (hf : ∀ s, (f s).Clean → s.Clean) :
    Cleanly (modify f) fun s _ s' ↦ s' = f s := by
  intro s u s' h hc
  obtain rfl := modify_apply_eq_some.1 h
  exact ⟨hf s hc, rfl⟩

theorem cleanly_get {f : State → WeaveM β} {Q : State → β → State → Prop}
    (hf : ∀ r, Cleanly (f r) fun s b s' ↦ r = s → Q s b s') : Cleanly (get >>= f) Q := by
  intro s b s' h hc
  obtain ⟨r, s₁, hr, hb⟩ := bind_apply_eq_some.1 h
  obtain ⟨rfl, rfl⟩ := get_apply_eq_some.1 hr
  exact (hf s₁ hb hc).imp_right fun h ↦ h rfl

theorem cleanly_record {e : Except Failure α} {f : Option α → WeaveM β} {P Q : State → β → State → Prop}
    (hnone : Cleanly (f none) P) (hsome : ∀ a, e = .ok a → Cleanly (f (some a)) Q) :
    Cleanly (record e >>= f) Q := by
  intro s b s' h hc
  obtain ⟨r, s₁, hr, hb⟩ := bind_apply_eq_some.1 h
  cases e with
  | ok a =>
    obtain ⟨rfl, rfl⟩ := pure_apply_eq_some.1 hr
    exact hsome a rfl hb hc
  | error failure =>
    simp only [record, bind_apply_eq_some, modify_apply_eq_some, pure_apply_eq_some] at hr
    obtain ⟨-, s₂, rfl, rfl, rfl⟩ := hr
    obtain ⟨⟨-, hclean⟩, -⟩ := hnone hb hc
    cases hs : s.failure <;> simp [hs] at hclean

theorem Threads.cleanly {f : Node → WeaveM Node} {W : Walked} {xs xs' : List Node}
    (hf : ∀ x ∈ xs, Cleanly (f x) fun s x' s' ↦ W s x x' s') (h : Threads (runOf f) s xs xs' s')
    (hc : s'.Clean) : s.Clean ∧ Threads W s xs xs' s' := by
  induction h with
  | nil => exact ⟨hc, .nil⟩
  | cons head tail ih =>
    obtain ⟨hc₁, htail⟩ := ih (fun x hx ↦ hf x (List.mem_cons_of_mem _ hx)) hc
    obtain ⟨hc₀, hhead⟩ := hf _ List.mem_cons_self head hc₁
    exact ⟨hc₀, .cons hhead htail⟩

theorem cleanly_mapM {f : Node → WeaveM Node} {W : Walked} {xs : List Node}
    (hf : ∀ x ∈ xs, Cleanly (f x) fun s x' s' ↦ W s x x' s') :
    Cleanly (xs.mapM f) fun s xs' s' ↦ Threads W s xs xs' s' := by
  intro s xs' s' h hc
  exact (mapM_apply_eq_some.1 h).2.cleanly hf hc

theorem cleanly_mapChildren {f : Node → WeaveM Node} {W : Walked} {n : Node}
    (hf : ∀ part, Cleanly (f part) fun s part' s' ↦ W s part part' s') :
    Cleanly (n.mapChildren f) fun s n' s' ↦ Parts W s n n' s' := by
  intro s n' s' h hc
  obtain ⟨hskeleton, hparts⟩ := parts_mapChildren h
  exact (hparts.cleanly (fun part _ ↦ hf part) hc).imp_right fun h ↦ ⟨hskeleton, h⟩

end Recompose.Weave
