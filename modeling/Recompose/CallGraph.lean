import Recompose.Identity
import Recompose.Parameter

namespace Recompose

open Script

inductive DeclarationKind where
  | function
  | closure
  | method
  | property
deriving DecidableEq, Repr, Inhabited

inductive MemoMode where
  | memo
  | intrinsic
  /-- Takes context and identity from its caller in plain sight. -/
  | entry
deriving DecidableEq, Repr, Inhabited

def MemoMode.ofMarkers? (m : Markers) : Option MemoMode :=
  if m.entry then some .entry
  else if m.intrinsic then some .intrinsic
  else if m.memo then some .memo
  else none

structure MemoDeclaration where
  qualifiedName : String
  name : String
  owner : Option String
  kind : DeclarationKind
  mode : MemoMode
  parameters : ParameterTable
  span : Span
  ownOffset : UInt64
  calls : List (List String)
deriving DecidableEq, Repr, Inhabited

structure CallGraph where
  nodes : List MemoDeclaration := []
  /-- The callees of each name; the first entry of a name counts. -/
  edges : List (String × List String) := []
  parents : List (String × String) := []
deriving DecidableEq, Repr, Inhabited

namespace CallGraph

def node? (g : CallGraph) (qualifiedName : String) : Option MemoDeclaration :=
  g.nodes.reverse.find? (·.qualifiedName == qualifiedName)

/-- The last declaration whose function takes up exactly this span. -/
def nodeAt? (g : CallGraph) (span : Span) : Option MemoDeclaration :=
  g.nodes.reverse.find? (·.span == span)

def function? (g : CallGraph) (name : String) : Option MemoDeclaration :=
  g.nodes.find? fun n => n.owner.isNone && n.name == name

def member? (g : CallGraph) (owner name : String) : Option MemoDeclaration :=
  g.nodes.find? fun n => n.owner == some owner && n.name == name

theorem length_filter_lt {α : Type} {p q : α → Bool} (hpq : ∀ a, p a → q a) :
    ∀ {as : List α} {a : α}, a ∈ as → q a → ¬p a → (as.filter p).length < (as.filter q).length
  | b :: as, a, ha, hq, hp => by
    have hle : (as.filter p).length ≤ (as.filter q).length := by
      rw [← List.countP_eq_length_filter, ← List.countP_eq_length_filter]
      exact List.countP_mono_left fun b _ => hpq b
    rcases List.mem_cons.1 ha with rfl | hm
    · rw [List.filter_cons_of_pos hq, List.filter_cons_of_neg hp]
      exact Nat.lt_succ_of_le hle
    · have ih := length_filter_lt hpq hm hq hp
      by_cases hb : p b
      · rw [List.filter_cons_of_pos hb, List.filter_cons_of_pos (hpq b hb)]
        exact Nat.succ_lt_succ ih
      · rw [List.filter_cons_of_neg hb]
        by_cases hc : q b
        · rw [List.filter_cons_of_pos hc]
          exact Nat.lt_succ_of_lt ih
        · rwa [List.filter_cons_of_neg hc]

def unseenClasses (g : CallGraph) (seen : List String) : List String :=
  (g.parents.map (·.1)).filter (· ∉ seen)

theorem unseenClasses_lt (g : CallGraph) {seen : List String} {owner parent : String}
    (hs : owner ∉ seen) (hp : g.parents.lookup owner = some parent) :
    (g.unseenClasses (owner :: seen)).length < (g.unseenClasses seen).length := by
  have hm : owner ∈ g.parents.map (·.1) := by
    rw [List.lookup_eq_some_iff] at hp
    obtain ⟨l, r, h, -⟩ := hp
    simp [h]
  exact length_filter_lt (by simp) hm (by simp [hs]) (by simp)

/-- The memo member of a class or of the nearest class that it extends, classes in `seen` left
out. -/
def inheritedFrom? (g : CallGraph) (name : String) (seen : List String) (owner : String) :
    Option MemoDeclaration :=
  if _hs : owner ∈ seen then none
  else
    match g.member? owner name with
    | some node => some node
    | none =>
      match _hp : g.parents.lookup owner with
      | some parent => inheritedFrom? g name (owner :: seen) parent
      | none => none
termination_by (g.unseenClasses seen).length
decreasing_by exact g.unseenClasses_lt _hs _hp

def inheritedMember? (g : CallGraph) (owner name : String) : Option MemoDeclaration :=
  g.inheritedFrom? name [] owner

def callees (g : CallGraph) (qualifiedName : String) : List String :=
  (g.edges.lookup qualifiedName).getD []

def unseenCallers (g : CallGraph) (seen : List String) : List String :=
  (g.edges.map (·.1)).filter (· ∉ seen)

theorem unseenCallers_le (g : CallGraph) (seen : List String) (name : String) :
    (g.unseenCallers (name :: seen)).length ≤ (g.unseenCallers seen).length := by
  unfold unseenCallers
  rw [← List.countP_eq_length_filter, ← List.countP_eq_length_filter]
  exact List.countP_mono_left fun _ _ => by simp

theorem callees_eq_nil_of_unseenCallers (g : CallGraph) {seen : List String} {name : String}
    (hs : name ∉ seen)
    (he : ¬(g.unseenCallers (name :: seen)).length < (g.unseenCallers seen).length) :
    g.callees name = [] := by
  unfold callees
  cases hn : g.edges.lookup name with
  | none => rfl
  | some names =>
    have hm : name ∈ g.edges.map (·.1) := by
      rw [List.lookup_eq_some_iff] at hn
      obtain ⟨l, r, h, -⟩ := hn
      simp [h]
    exact absurd (length_filter_lt (by simp) hm (by simp [hs]) (by simp)) he

/-- Looking at a name leaves fewer callers to look at or, if it calls nothing, fewer names. -/
theorem unseenCallers_lex (g : CallGraph) {seen : List String} {name : String} (hs : name ∉ seen)
    (todo : List String) {called : List String} (hc : g.callees name = [] → called.length ≤ todo.length) :
    Prod.Lex (· < ·) (· < ·) ((g.unseenCallers (name :: seen)).length, called.length)
      ((g.unseenCallers seen).length, (name :: todo).length) := by
  by_cases hl : (g.unseenCallers (name :: seen)).length < (g.unseenCallers seen).length
  · exact Prod.Lex.left _ _ hl
  · rw [Nat.le_antisymm (g.unseenCallers_le seen name) (Nat.le_of_not_lt hl)]
    exact Prod.Lex.right _ (Nat.lt_succ_of_le (hc (g.callees_eq_nil_of_unseenCallers hs hl)))

/-- The names that can be reached from a queue of names without passing through `seen`, added to
`seen`. -/
def explore (g : CallGraph) (queue seen : List String) : List String :=
  match queue with
  | [] => seen
  | name :: queue =>
    if name ∈ seen then explore g queue seen
    else explore g (queue ++ (g.callees name).filter (· ∉ name :: seen)) (name :: seen)
termination_by ((g.unseenCallers seen).length, queue.length)
decreasing_by
  · exact Prod.Lex.right _ (by simp)
  · exact g.unseenCallers_lex ‹_› queue fun hc => by simp [hc]

/-- Where calls start: the entries or, if there are none, every memo function. -/
def roots (g : CallGraph) : List String :=
  let entries := g.nodes.filter (·.mode == .entry)
  (if entries.isEmpty then g.nodes else entries).map (·.qualifiedName)

def reachable (g : CallGraph) : List String :=
  g.explore g.roots []

def leadsTo (g : CallGraph) (target : String) (stack seen : List String) : Bool :=
  match stack with
  | [] => false
  | name :: stack =>
    if name = target then true
    else if name ∈ seen then leadsTo g target stack seen
    else leadsTo g target (g.callees name ++ stack) (name :: seen)
termination_by ((g.unseenCallers seen).length, stack.length)
decreasing_by
  · exact Prod.Lex.right _ (by simp)
  · exact g.unseenCallers_lex ‹_› stack fun hc => by simp [hc]

/-- Can a function come back to itself through one or more calls? It is not seen at the start. -/
def isRecursive (g : CallGraph) (qualifiedName : String) : Bool :=
  g.leadsTo qualifiedName (g.callees qualifiedName) []

/-- The declaration that a callee means by its name alone. Of members only those of `this` count. -/
def resolve? (g : CallGraph) (owner : Option String) : List String → Option MemoDeclaration
  | [name] => g.function? name
  | ["this", name] => owner.bind (g.inheritedMember? · name)
  | _ => none

end CallGraph

def calledPaths (body : Node) : List (List String) :=
  body.gather (fun (_ : Unit) n =>
    match n with
    | .apply _ (.call _ _) callee _ _ => (some (), callee.calleePath?.toList)
    | _ => (some (), [])) ()

structure Collector where
  file : String
  annotations : Annotations
  identity : Identity

namespace Collector

def declaration (c : Collector) (name : String) (owner : Option String) (kind : DeclarationKind)
    (mode : MemoMode) (parameters : ParameterTable) (span : Span) (calls : List (List String)) :
    MemoDeclaration :=
  let qualifiedName := QualifiedName.declaration c.file owner name
  { qualifiedName, name, owner, kind, mode, parameters, span,
    ownOffset := c.identity.ownScope qualifiedName, calls }

/-- A function with a body, if the markers make it a memo function. A marker before an arrow
function is not one of its first parameter. -/
def ofFunc (c : Collector) (name : String) (owner : Option String) (kind : DeclarationKind)
    (markers : Markers) : Func → List MemoDeclaration
  | .func _ _ _ _ _ _ .missing => []
  | .func span head _ _ params _ body =>
    let functionStart := if head.form = .arrow then some span.start else none
    (MemoMode.ofMarkers? markers).toList.map fun mode =>
      c.declaration name owner kind mode (.ofParams params c.annotations functionStart) span
        (calledPaths body)
  | _ => []

def ofDeclarator (c : Collector) (outer : Markers) : Node → List MemoDeclaration
  | .declarator _ target _ _ (some init) =>
    match target.simpleName?, init.closureSpan? with
    | some name, some span => c.ofFunc name none .closure (outer.merge (c.annotations.markers span.start)) init
    | _, _ => []
  | _ => []

/-- A property is a declaration even if it holds no arrow function: calls through it are threaded. -/
def ofField (c : Collector) (name : String) (owner : String) (mode : MemoMode) (span : Span) :
    Option Expr → MemoDeclaration
  | some (.func fspan ⟨.arrow, _, _, _, _, _, _⟩ _ _ params _ body) =>
    c.declaration name (some owner) .property mode
      (.ofParams params c.annotations (some fspan.start)) fspan (calledPaths body)
  | _ => c.declaration name (some owner) .property mode {} span []

def ofMember (c : Collector) (owner : String) : Node → List MemoDeclaration
  | .method span .plain _ decorators key f =>
    let markers := (c.annotations.markers span.start).merge (Markers.ofDecorators decorators)
    match key.keyText? with
    | some name => c.ofFunc name (some owner) .method markers f
    | none => []
  | .field span false _ decorators key _ init =>
    let markers := (c.annotations.markers span.start).merge (Markers.ofDecorators decorators)
    match MemoMode.ofMarkers? markers, key.keyText? with
    | some mode, some name => [c.ofField name owner mode span init]
    | _, _ => []
  | _ => []

/-- The name of a class; an unnamed one is the default export. -/
def className (head : ClassHead) : String :=
  head.name.getD "default"

def ofDeclaration (c : Collector) : Node → List MemoDeclaration
  | .func span head tps this params result body =>
    c.ofFunc (head.name.getD "default") none .function (c.annotations.markers span.start)
      (.func span head tps this params result body)
  | .vars span _ _ items => items.flatMap (c.ofDeclarator (c.annotations.markers span.start))
  | .cls _ head _ _ _ _ _ members => members.flatMap (c.ofMember (className head))
  | _ => []

def parentOf : Node → List (String × String)
  | .cls _ head _ _ (some (.ref _ parent)) _ _ _ => [(className head, parent)]
  | _ => []

/-- The declaration under an export. A default export declares functions and classes only. -/
def declared : Stmt → Node
  | .exportDecl _ decl => decl
  | .exportDefault _ decl => decl
  | stmt => stmt

end Collector

def CallGraph.build (program : List Stmt) (file : String) (annotations : Annotations)
    (identity : Identity) : CallGraph :=
  let c : Collector := ⟨file, annotations, identity⟩
  let nodes := program.flatMap fun stmt => c.ofDeclaration (Collector.declared stmt)
  let parents := (program.flatMap fun stmt => Collector.parentOf (Collector.declared stmt)).reverse
  let bare : CallGraph := { nodes, parents }
  let targets (n : MemoDeclaration) : List String :=
    (n.calls.filterMap (bare.resolve? n.owner)).map (·.qualifiedName)
  { bare with edges := (nodes.map fun n => (n.qualifiedName, (targets n).eraseDups)).reverse }

end Recompose
