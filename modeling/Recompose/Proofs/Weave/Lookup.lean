import Recompose.Proofs.Everywhere
import Recompose.Proofs.Scoping
import Recompose.Proofs.Weave.Throughout

namespace Recompose

open Script

namespace Scopes

variable {s : Scopes} {x : String}

theorem lookup_cons (f : ScopeFrame) (fs : List ScopeFrame) :
    (⟨f :: fs⟩ : Scopes).lookup x = (f.names.lookup x).or ((⟨fs⟩ : Scopes).lookup x) := by
  unfold lookup
  rw [List.findSome?_cons]
  cases f.names.lookup x <;> rfl

theorem lookup_open (isFunction : Bool) (bindings : List (String × Binding)) :
    (bindAll ⟨{ isFunction } :: s.frames⟩ bindings).lookup x =
      (bindings.reverse.lookup x).or (s.lookup x) := by
  rw [bindAll_cons, lookup_cons, List.append_nil]

theorem lookup_push (isFunction : Bool) :
    (⟨{ isFunction } :: s.frames⟩ : Scopes).lookup x = s.lookup x :=
  lookup_open isFunction []

def SameFor (x : String) (s s' : Scopes) : Prop :=
  List.Forall₂ (fun f f' ↦ f'.names.lookup x = f.names.lookup x) s.frames s'.frames

namespace SameFor

theorem refl (s : Scopes) : SameFor x s s :=
  List.forall₂_same.2 fun _ _ ↦ rfl

theorem trans {s₁ s' : Scopes} (h : SameFor x s s₁) (h' : SameFor x s₁ s') : SameFor x s s' := by
  unfold SameFor at h h' ⊢
  generalize s.frames = fs, s₁.frames = gs, s'.frames = ks at h h'
  induction h generalizing ks with
  | nil => exact h'
  | cons head _ ih =>
    cases h' with
    | cons head' tail' => exact .cons (head'.trans head) (ih _ tail')

theorem pop {f : ScopeFrame} {s' : Scopes} (h : SameFor x ⟨f :: s.frames⟩ s') : SameFor x s s'.pop := by
  unfold SameFor Scopes.pop at *
  generalize s'.frames = gs at h
  cases h with
  | cons head tail => exact tail

theorem of_bindAll {f : ScopeFrame} {bindings : List (String × Binding)} {s' : Scopes}
    (h : SameFor x (bindAll ⟨f :: s.frames⟩ bindings) s') : SameFor x s s'.pop := by
  rw [bindAll_cons] at h
  exact h.pop

theorem lookup_eq {s' : Scopes} (h : SameFor x s s') : s'.lookup x = s.lookup x := by
  unfold SameFor at h
  obtain ⟨fs⟩ := s
  obtain ⟨gs⟩ := s'
  dsimp only at h
  induction h with
  | nil => rfl
  | cons head _ ih => rw [lookup_cons, lookup_cons, head, ih]

theorem bindVar {name : String} (hname : name ≠ x) (s : Scopes) : SameFor x s (s.bindVar name) := by
  have hinsert (f : ScopeFrame) : (f.insert name .ordinary).names.lookup x = f.names.lookup x := by
    have hne : (x == name) = false := beq_false_of_ne (Ne.symm hname)
    simp [ScopeFrame.insert, List.lookup_cons, hne]
  have hframes {fs gs : List ScopeFrame} (hgs : bindInFunction? name fs = some gs) :
      SameFor x ⟨fs⟩ ⟨gs⟩ := by
    induction fs generalizing gs with
    | nil => simp [bindInFunction?] at hgs
    | cons f fs ih =>
      unfold bindInFunction? at hgs
      split at hgs
      · obtain rfl := Option.some.inj hgs
        exact .cons (hinsert f) (refl ⟨fs⟩)
      · obtain ⟨rest, hrest, rfl⟩ := Option.map_eq_some_iff.1 hgs
        exact .cons rfl (ih hrest)
  unfold Scopes.bindVar
  split
  · next hgs => exact hframes hgs
  · unfold Scopes.bind
    split
    · exact refl s
    · next f fs hfs =>
      unfold SameFor
      rw [hfs]
      exact .cons (hinsert f) (refl ⟨fs⟩)

theorem bindVars {names : List String} (h : x ∉ names) (s : Scopes) :
    SameFor x s (s.bindVars names) := by
  unfold Scopes.bindVars
  induction names generalizing s with
  | nil => exact refl s
  | cons name names ih =>
    obtain ⟨hname, hnames⟩ := not_or.1 (mt List.mem_cons.2 h)
    exact (bindVar (Ne.symm hname) s).trans (ih hnames _)

end SameFor

end Scopes

theorem lookup_map_const (x : String) (b : Binding) (names : List String) :
    ((names.map (·, b)).reverse.lookup x) = if x ∈ names then some b else none := by
  rw [← List.map_reverse]
  have hreverse : x ∈ names ↔ x ∈ names.reverse := List.mem_reverse.symm
  simp only [hreverse]
  generalize names.reverse = names
  induction names with
  | nil => rfl
  | cons name names ih =>
    by_cases hname : x = name
    · simp [hname]
    · have hne : (x == name) = false := beq_false_of_ne hname
      simp [List.lookup_cons, hne, hname, ih]

def isRef (x : String) : Node → Bool
  | .ref _ name => name == x
  | _ => false

def refers (x : String) (n : Node) : Bool :=
  n.nodes.any (isRef x)

theorem refers_of_part {x : String} {m n : Node} (hm : m ∈ n.children) (h : refers x m = true) :
    refers x n = true := by
  unfold refers at *
  obtain ⟨k, hk, href⟩ := List.any_eq_true.1 h
  exact List.any_eq_true.2 ⟨k, Node.mem_nodes_of_part hm hk, href⟩

namespace Scoping

open Weave

/-- The declarations of a name that a function makes for all of it. -/
def headScope (x : String) : Func → List Span
  | .func span head _ _ params _ _ =>
    within (if head.form = .expression ∧ head.name = some x then [span] else []) (parameters x params)
  | _ => []

/-- The declarations of a name, as a value, that a node puts in scope for each of its parts. A function
opens the scope of its body. Function types have no values in them, and the class that a declaration
names is in scope around it. -/
def values (x : String) (n : Node) : List (List Span) :=
  match n with
  | .func _ head typeParams this params result body =>
    if head.form = .signature then n.children.map fun _ ↦ []
    else
      (typeParams ++ this.toList ++ params ++ result.toList).map (fun _ ↦ headScope x n) ++
        [within (headScope x n) (bodyDeclarations x (codeStmts body))]
  | .code _ _ stmts => stmts.map fun _ ↦ []
  | .moduleDecl _ _ _ body => [bodyDeclarations x (codeStmts body)]
  | .cls _ head _ _ _ _ _ _ => if head.isExpr then opens x n else n.children.map fun _ ↦ []
  | n => opens x n

/-- The names that a statement binds in its list before any statement of the list runs. -/
def hoistedNames : Stmt → List String
  | .func _ head _ _ _ _ _ => head.name.toList
  | .cls _ head _ _ _ _ _ _ => head.name.toList
  | .vars _ kind _ items => if kind = .hoisted then [] else Node.declaredNames items
  | _ => []

/-- Does the statement declare the name for its list without binding it there ahead? -/
def unhoisted (x : String) (stmt : Stmt) : Bool :=
  !(lexical x stmt).isEmpty && !(hoistedNames stmt).contains x

/-- Does the head of a loop declare the name other than as a variable? -/
def declaresOddly (x : String) : Node → Bool
  | .vars _ _ _ _ => false
  | n => !(lexical x n).isEmpty

/-- Does the walk take the name for something else somewhere in the node? A `var` is bound on sight;
what only some declarations bind, or bind for some parts only, is not bound or is bound for too much. -/
def obscures (x : String) : Node → Bool
  | .vars _ kind _ items => kind = .hoisted && (Node.declaredNames items).contains x
  | .func _ head typeParams this params result body =>
    (head.form = .expression && head.name = some x) || unhoisted x body ||
      (!(lexicals x (codeStmts body)).isEmpty &&
        (typeParams ++ this.toList ++ params ++ result.toList).any (refers x))
  | .cls _ head _ _ _ _ _ _ => head.isExpr && head.name = some x
  | .block _ stmts => stmts.any (unhoisted x)
  | .code _ _ stmts => stmts.any (unhoisted x)
  | .clause _ _ stmts => stmts.any (unhoisted x)
  | .staticBlock _ stmts => !(bodyDeclarations x stmts).isEmpty
  | .moduleDecl _ _ _ body => !(bodyDeclarations x (codeStmts body)).isEmpty
  | .switchStmt _ subject clauses =>
    refers x subject && !(lexicals x (clauses.flatMap clauseStmts)).isEmpty
  | .ifStmt _ _ yes no => (yes :: no.toList).any fun arm ↦ !(lexical x arm).isEmpty
  | .forStmt _ init _ _ _ => init.any (declaresOddly x)
  | .forEach _ _ left _ _ => declaresOddly x left
  | .enumDecl _ _ _ name members => name = x || !(enumMembers x members).isEmpty
  | _ => false

variable {x : String}

theorem declarators_eq_nil_iff {items : List Node} :
    declarators x items = [] ↔ x ∉ Node.declaredNames items := by
  unfold declarators Node.declaredNames
  rw [List.flatMap_eq_nil_iff]
  constructor
  · intro h hx
    obtain ⟨item, hitem, hx⟩ := List.mem_flatMap.1 hx
    have hnil := h item hitem
    split at hx
    · simp [hx] at hnil
    · simp at hx
  · intro h item hitem
    split
    · next span target definite type init =>
      exact if_neg fun hx ↦ h (List.mem_flatMap.2 ⟨_, hitem, hx⟩)
    · rfl

theorem lexical_ne_nil {stmt : Stmt} (h : x ∈ hoistedNames stmt) : lexical x stmt ≠ [] := by
  unfold hoistedNames at h
  split at h
  · simp [lexical, Option.mem_toList.1 h]
  · simp [lexical, Option.mem_toList.1 h]
  · split at h
    · simp at h
    · next hkind =>
      rw [lexical, if_neg hkind]
      exact fun hnil ↦ declarators_eq_nil_iff.1 hnil h
  · simp at h

theorem lexical_eq_nil_iff {stmt : Stmt} (h : unhoisted x stmt = false) :
    lexical x stmt = [] ↔ x ∉ hoistedNames stmt := by
  refine ⟨fun hnil hx ↦ lexical_ne_nil hx hnil, fun hx ↦ ?_⟩
  simpa [unhoisted, hx] using h

theorem lexicals_eq_nil_iff {stmts : List Stmt} (h : ∀ stmt ∈ stmts, unhoisted x stmt = false) :
    lexicals x stmts = [] ↔ x ∉ stmts.flatMap hoistedNames := by
  unfold lexicals
  rw [List.flatMap_eq_nil_iff]
  constructor
  · intro hnil hx
    obtain ⟨stmt, hstmt, hx⟩ := List.mem_flatMap.1 hx
    exact lexical_ne_nil hx (hnil stmt hstmt)
  · intro hx stmt hstmt
    exact (lexical_eq_nil_iff (h stmt hstmt)).2 fun hmem ↦ hx (List.mem_flatMap.2 ⟨stmt, hstmt, hmem⟩)

end Scoping

namespace Weave

open Scoping

variable {site : Site} {s s₁ s' : State} {x : String}

theorem map_fst_map_const (names : List String) (b : Binding) :
    (names.map (·, b)).map Prod.fst = names := by
  rw [List.map_map]
  exact List.map_id names

theorem map_fst_hoistedBindings (a : Annotations) (stmts : List Stmt) :
    (hoistedBindings a stmts).map Prod.fst = stmts.flatMap hoistedNames := by
  have hitems (marked : Bool) (items : List Node) :
      (items.flatMap (declaratorBindings a marked)).map Prod.fst = Node.declaredNames items := by
    unfold Node.declaredNames
    rw [List.map_flatMap]
    refine List.flatMap_congr fun item _ ↦ ?_
    cases item
    case declarator => exact map_fst_map_const _ _
    all_goals rfl
  unfold hoistedBindings
  rw [List.map_flatMap]
  refine List.flatMap_congr fun stmt _ ↦ ?_
  cases stmt
  case func => exact map_fst_map_const _ _
  case cls => exact map_fst_map_const _ _
  case vars span kind declared items =>
    rw [hoistedBinding, hoistedNames]
    split
    · rfl
    · exact hitems _ _
  all_goals rfl

theorem isSome_lookup_reverse (bindings : List (String × Binding)) :
    (bindings.reverse.lookup x).isSome = true ↔ x ∈ bindings.map Prod.fst := by
  rw [← not_iff_not, Bool.not_eq_true, Option.isSome_eq_false_iff, Option.isNone_iff_eq_none,
    List.lookup_eq_none_iff]
  constructor
  · intro h hx
    obtain ⟨p, hp, rfl⟩ := List.mem_map.1 hx
    simpa using h p (List.mem_reverse.2 hp)
  · intro h p hp
    exact bne_iff_ne.2 fun hx ↦ h (hx ▸ List.mem_map_of_mem (List.mem_reverse.1 hp))

def listed (site : Site) (x : String) (stmts : List Stmt) : Option Binding :=
  (hoistedBindings site.annotations stmts).reverse.lookup x

theorem isSome_listed {stmts : List Stmt} (h : ∀ stmt ∈ stmts, unhoisted x stmt = false) :
    (listed site x stmts).isSome = !(lexicals x stmts).isEmpty := by
  unfold listed
  rw [Bool.eq_iff_iff, isSome_lookup_reverse, map_fst_hoistedBindings, Bool.not_eq_true',
    List.isEmpty_eq_false_iff, Ne, lexicals_eq_nil_iff h, not_not]

theorem listed_eq_none {stmts : List Stmt} (h : lexicals x stmts = []) :
    listed site x stmts = none := by
  rw [← Option.not_isSome_iff_eq_none]
  unfold listed
  rw [isSome_lookup_reverse, map_fst_hoistedBindings]
  intro hx
  obtain ⟨stmt, hstmt, hx⟩ := List.mem_flatMap.1 hx
  exact lexical_ne_nil hx (List.flatMap_eq_nil_iff.1 h stmt hstmt)

def headed (x : String) : Option Node → Option Binding
  | some (.vars _ kind _ items) =>
    if kind ≠ .hoisted ∧ x ∈ Node.declaredNames items then some .ordinary else none
  | _ => none

def plainParameter (x : String) (params : List Param) : Option Binding :=
  if x ∈ params.flatMap paramNames then some .ordinary else none

def opened (site : Site) (x : String) (n : Node) : List (Option Binding) :=
  match n with
  | .func _ head typeParams this params result body =>
    if head.form = .signature then n.children.map fun _ ↦ none
    else
      (typeParams ++ this.toList ++ params ++ result.toList).map (fun _ ↦ plainParameter x params) ++
        [(listed site x (codeStmts body)).or (plainParameter x params)]
  | .block _ stmts => stmts.map fun _ ↦ listed site x stmts
  | .switchStmt _ _ clauses =>
    none :: clauses.map fun _ ↦ listed site x (clauses.flatMap clauseStmts)
  | .forStmt _ init _ _ _ => n.children.map fun _ ↦ headed x init
  | .forEach _ _ left _ _ => n.children.map fun _ ↦ headed x (some left)
  | .handler _ param _ _ =>
    n.children.map fun _ ↦ if x ∈ param.toList.flatMap Node.boundNames then some .ordinary else none
  | n => n.children.map fun _ ↦ none

/-- The binding of a name at each part of a node that the walk entered. -/
def Binds (x : String) (s s₁ : State) : List (Option Binding) → List Node → Prop :=
  List.Forall₂ fun o m ↦ refers x m = true → s₁.scopes.lookup x = o.or (s.scopes.lookup x)

theorem binds_const {o : Option Binding} {ns : List Node}
    (h : s₁.scopes.lookup x = o.or (s.scopes.lookup x)) : Binds x s s₁ (ns.map fun _ ↦ o) ns :=
  forall₂_map_const fun _ _ _ ↦ h

theorem binds_append {os os' : List (Option Binding)} {ns ns' : List Node} (h : Binds x s s₁ os ns)
    (h' : Binds x s s₁ os' ns') : Binds x s s₁ (os ++ os') (ns ++ ns') :=
  List.rel_append h h'

theorem opened_passive {n : Node} (h : isPassive n = true) :
    opened site x n = n.children.map fun _ ↦ none := by
  unfold opened
  split <;> first
    | rfl
    | simp [isPassive] at h

theorem lookup_headBindings {left : Node} {scopes : Scopes} {f : ScopeFrame}
    (hscopes : scopes = ⟨f :: s.scopes.frames⟩) (hf : f.names = [])
    (hvar : ∀ span declared items, left = .vars span .hoisted declared items →
      x ∉ Node.declaredNames items) :
    (headBindings left scopes).lookup x = (headed x (some left)).or (s.scopes.lookup x) := by
  have hpushed : scopes.lookup x = s.scopes.lookup x := by
    rw [hscopes, Scopes.lookup_cons, hf]
    rfl
  unfold headBindings
  split
  · next span kind declared items =>
    unfold Scopes.bindDeclaration
    dsimp only
    split
    · next hkind =>
      subst hkind
      rw [(Scopes.SameFor.bindVars (hvar _ _ _ rfl) scopes).lookup_eq, hpushed]
      simp [headed]
    · next hkind =>
      rw [hscopes, Scopes.bindAll_cons, Scopes.lookup_cons, hf, List.append_nil, lookup_map_const]
      simp [headed, hkind]
  · next hleft =>
    rw [hpushed]
    cases left
    case vars => exact absurd rfl (hleft _ _ _ _)
    all_goals rfl

abbrev Clear (x : String) (n : Node) : Prop :=
  n.Everywhere (obscures x · = false)

theorem not_mem_of_clear_vars {span : Span} {declared : Bool} {items : List Node}
    (h : Clear x (.vars span .hoisted declared items)) : x ∉ Node.declaredNames items := by
  have hself := h.self
  simpa [obscures] using hself

theorem lookup_openFunction {frame : Frame} {bindings : List (String × Binding)} :
    (s.openFunction frame bindings).scopes.lookup x =
      (bindings.reverse.lookup x).or (s.scopes.lookup x) :=
  Scopes.lookup_open true bindings

theorem lookup_plainBindings (params : List Param) (body : Node) :
    (plainBindings site params body).reverse.lookup x =
      (listed site x (codeStmts body)).or (plainParameter x params) := by
  have hbindings : plainBindings site params body =
      (params.flatMap paramNames).map (·, .ordinary) ++
        hoistedBindings site.annotations (codeStmts body) := by
    cases body <;> rfl
  rw [hbindings, List.reverse_append, List.lookup_append, lookup_map_const]
  rfl

theorem binds_of_block {n : Node} {bind : Scopes → Scopes} (opens : blockBindings site n = some bind)
    (hclear : Clear x n) : Binds x s (s.openBlock bind) (opened site x n) n.children := by
  unfold blockBindings at opens
  split at opens
  · obtain rfl := Option.some.inj opens
    exact binds_const (Scopes.lookup_open false _)
  · obtain rfl := Option.some.inj opens
    refine binds_const ?_
    rw [← lookup_map_const]
    exact Scopes.lookup_open false _
  · next span init test update body =>
    obtain rfl := Option.some.inj opens
    refine binds_const ?_
    cases init with
    | none => exact Scopes.lookup_push false
    | some left =>
      refine lookup_headBindings rfl rfl ?_
      rintro place declared items rfl
      exact not_mem_of_clear_vars (hclear.part List.mem_cons_self)
  · next span kind left right body =>
    obtain rfl := Option.some.inj opens
    refine binds_const (lookup_headBindings rfl rfl ?_)
    rintro place declared items rfl
    exact not_mem_of_clear_vars (hclear.part List.mem_cons_self)
  · next span subject clauses =>
    obtain rfl := Option.some.inj opens
    have hbindings : clauses.flatMap (clauseBindings site) =
        hoistedBindings site.annotations (clauses.flatMap clauseStmts) := by
      unfold hoistedBindings
      rw [List.flatMap_assoc]
      refine List.flatMap_congr fun clause _ ↦ ?_
      cases clause <;> rfl
    have hlookup : (s.openBlock (·.bindAll (clauses.flatMap (clauseBindings site)))).scopes.lookup x =
        (listed site x (clauses.flatMap clauseStmts)).or (s.scopes.lookup x) := by
      rw [hbindings]
      exact Scopes.lookup_open false _
    refine .cons (fun hsubject ↦ ?_) (binds_const hlookup)
    -- What is switched on is met inside the scope; it does not refer to what is declared there.
    have hself := hclear.self
    rw [obscures, hsubject, Bool.true_and, Bool.not_eq_false', List.isEmpty_iff] at hself
    rw [hlookup, listed_eq_none hself]
  · simp at opens

theorem binds_of_enters {n n₁ : Node} {leave : State → State} (h : Enters site s n n₁ s₁ leave)
    (hclear : Clear x n) : Binds x s s₁ (opened site x n₁) n₁.children := by
  have hnotes {p : Prop} {s₁ : State} (hn : Notes p s s₁) : s₁.scopes = s.scopes := by
    obtain ⟨-, rfl⟩ | rfl := hn <;> rfl
  have hsame {s₁ : State} (hs : s₁.scopes = s.scopes) :
      s₁.scopes.lookup x = Option.or none (s.scopes.lookup x) := by rw [hs, Option.none_or]
  cases h with
  | passive passive =>
    rw [opened_passive passive]
    exact binds_const (hsame rfl)
  | name plain => exact .nil
  | call plain => exact binds_const (hsame rfl)
  | signature form =>
    rw [opened, if_pos form]
    exact binds_const (hsame rfl)
  | @function span head typeParams this params result body s₁ form plain =>
    have hscopes : s₁.scopes = s.scopes := by cases plain <;> rfl
    have hlookup : ∀ frame, (s₁.openFunction frame (plainBindings site params body)).scopes.lookup x =
        ((listed site x (codeStmts body)).or (plainParameter x params)).or (s.scopes.lookup x) := by
      intro frame
      rw [lookup_openFunction, lookup_plainBindings, hscopes]
    rw [opened, if_neg form]
    refine binds_append (forall₂_map_const fun m hm hrefers ↦ ?_) (.cons (fun _ ↦ hlookup _) .nil)
    -- The head is met with the declarations of the body in scope and does not refer to them.
    have hself := hclear.self
    have hany : (typeParams ++ this.toList ++ params ++ result.toList).any (refers x) = true :=
      List.any_eq_true.2 ⟨m, hm, hrefers⟩
    rw [obscures, Bool.or_eq_false_iff, hany, Bool.and_true, Bool.not_eq_false', List.isEmpty_iff]
      at hself
    rw [hlookup, listed_eq_none hself.2, Option.none_or]
  | cls => exact binds_const (hsame rfl)
  | method plain notes =>
    have hs := hnotes notes
    exact binds_const (hsame hs)
  | memoMethod memo notes =>
    have hs := hnotes notes
    refine binds_const (hsame ?_)
    split <;> exact hs
  | field annotates notes => exact binds_const (hsame (hnotes notes))
  | param notes => exact binds_const (hsame (hnotes notes))
  | pair => exact binds_const (hsame rfl)
  | fieldPattern => exact binds_const (hsame rfl)
  | @vars span kind declared items items' s₁ s₂ s₃ redeclares notes awaits binds =>
    have hscopes : s₂.scopes = s.scopes := by
      rw [awaits, ← hnotes notes]
      split <;> rfl
    refine binds_const ?_
    subst binds
    split
    · next hkind =>
      subst hkind
      have hnames : x ∉ Node.declaredNames items' := by
        rw [declaredNames_redeclares redeclares]
        exact not_mem_of_clear_vars hclear
      rw [State.bindVars, (Scopes.SameFor.bindVars hnames _).lookup_eq]
      exact hsame hscopes
    · exact hsame hscopes
  | block opens => exact binds_of_block opens hclear
  | interfaceDecl extended notes => exact binds_const (hsame (hnotes notes))

/-- What is bound for a part of a node, over the declarations that are in scope there. -/
def Reflects : List (Option Binding) → List (List Span) → Prop :=
  List.Forall₂ fun o inner ↦ o.isSome = !inner.isEmpty

theorem reflects_const {o : Option Binding} {inner : List Span} (h : o.isSome = !inner.isEmpty)
    (ns : List Node) : Reflects (ns.map fun _ ↦ o) (ns.map fun _ ↦ inner) :=
  List.forall₂_map_left_iff.2 (List.forall₂_map_right_iff.2 (List.forall₂_same.2 fun _ _ ↦ h))

theorem isSome_plainParameter (params : List Param) :
    (plainParameter x params).isSome = !(parameters x params).isEmpty := by
  have hiff : x ∈ params.flatMap paramNames ↔ parameters x params ≠ [] := by
    unfold parameters
    rw [Ne, List.flatMap_eq_nil_iff, List.mem_flatMap]
    constructor
    · rintro ⟨param, hparam, hx⟩ hnil
      have hnone := hnil param hparam
      unfold paramNames at hx
      split at hx
      · simp [hx] at hnone
      · simp at hx
    · intro hne
      by_contra hall
      refine hne fun param hparam ↦ ?_
      split
      · exact if_neg fun hx ↦ hall ⟨_, hparam, hx⟩
      · rfl
  unfold plainParameter
  by_cases hx : x ∈ params.flatMap paramNames
  · simp [hx, hiff.1 hx]
  · simp [hx, not_not.1 (mt hiff.2 hx)]

theorem hoisted_eq_nil_of_clear {stmt : Stmt} (h : Clear x stmt) : hoisted x stmt = [] := by
  induction stmt using Node.induction_on_parts with
  | step stmt ih =>
    refine List.eq_nil_iff_forall_not_mem.2 fun span hspan ↦ ?_
    have hparts {parts : List (List Span)} (hparts : parts.Sublist (stmt.children.map (hoisted x)))
        (hspan : span ∈ parts.flatten) : False := by
      obtain ⟨found, hfound, hspan⟩ := List.mem_flatten.1 hspan
      obtain ⟨m, hm, rfl⟩ := List.mem_map.1 (hparts.subset hfound)
      rw [ih m hm (h.part hm)] at hspan
      exact List.not_mem_nil hspan
    unfold hoisted at hspan
    rw [Node.fold_eq] at hspan
    split at hspan
    · rw [declarators_eq_nil_iff.2 (not_mem_of_clear_vars h)] at hspan
      exact List.not_mem_nil hspan
    · exact hparts (List.tail_sublist _) hspan
    · exact hparts (List.tail_sublist _) hspan
    · exact hparts (List.drop_sublist _ _) hspan
    all_goals first
      | exact hparts (.refl _) hspan
      | exact List.not_mem_nil hspan

theorem bodyDeclarations_of_clear {stmts : List Stmt} (h : ∀ stmt ∈ stmts, Clear x stmt) :
    bodyDeclarations x stmts = lexicals x stmts := by
  have hnil : hoistedAll x stmts = [] :=
    List.flatMap_eq_nil_iff.2 fun stmt hstmt ↦ hoisted_eq_nil_of_clear (h stmt hstmt)
  rw [bodyDeclarations, hnil, List.append_nil]

theorem clear_codeStmts {body : Node} (h : Clear x body) : ∀ stmt ∈ codeStmts body, Clear x stmt := by
  intro stmt hstmt
  unfold codeStmts at hstmt
  split at hstmt
  · exact h.part hstmt
  · simp at hstmt

theorem unhoisted_codeStmts {body : Node} (h : Clear x body) :
    ∀ stmt ∈ codeStmts body, unhoisted x stmt = false := by
  intro stmt hstmt
  unfold codeStmts at hstmt
  split at hstmt
  · have hself := h.self
    rw [obscures, List.any_eq_false] at hself
    exact Bool.eq_false_iff.2 (hself stmt hstmt)
  · simp at hstmt

theorem isEmpty_within (outer inner : List Span) :
    (within outer inner).isEmpty = (outer.isEmpty && inner.isEmpty) := by
  unfold within
  cases inner <;> simp

theorem reflects_function {span : Span} {head : FuncHead} {typeParams : List Node}
    {this : Option Node} {params : List Param} {result : Option Ty} {body : Node}
    (hclear : Clear x (.func span head typeParams this params result body)) :
    Reflects (opened site x (.func span head typeParams this params result body))
      (values x (.func span head typeParams this params result body)) := by
  have hself := hclear.self
  rw [obscures, Bool.or_eq_false_iff, Bool.or_eq_false_iff] at hself
  have hbody : Clear x body := hclear.part (by simp [Node.children])
  have hhead : headScope x (.func span head typeParams this params result body) =
      parameters x params := by
    have hown : ¬(head.form = .expression ∧ head.name = some x) := by simpa using hself.1.1
    rw [headScope, if_neg hown]
    unfold within
    split
    · next hempty => exact (List.isEmpty_iff.1 hempty).symm
    · rfl
  unfold opened values
  dsimp only
  split
  · exact reflects_const rfl _
  · refine List.rel_append (reflects_const ?_ _) (.cons ?_ .nil)
    · rw [hhead, isSome_plainParameter]
    · rw [Option.isSome_or, isSome_listed (unhoisted_codeStmts hbody), isSome_plainParameter, hhead,
        isEmpty_within, bodyDeclarations_of_clear (clear_codeStmts hbody), Bool.not_and, Bool.or_comm]

theorem values_passive {n : Node} (hpassive : isPassive n = true) (h : obscures x n = false) :
    values x n = n.children.map fun _ ↦ [] := by
  unfold values
  split
  · simp [isPassive] at hpassive
  · rfl
  · simp only [obscures, Bool.not_eq_false', List.isEmpty_iff] at h
    rw [h]
    rfl
  · simp [isPassive] at hpassive
  · unfold opens
    split
    case h_1 hcode _ _ => exact absurd rfl (hcode _ _ _)
    case h_2 =>
      simp only [obscures, Bool.not_eq_false', List.isEmpty_iff] at h
      rw [h]
      rfl
    case h_5 span test yes no _ _ _ _ =>
      simp only [obscures, List.any_cons, Bool.or_eq_false_iff, Bool.not_eq_false', List.isEmpty_iff]
        at h
      cases no with
      | none => simp [h.1, Node.children]
      | some no =>
        have hno : lexical x no = [] := by simpa using h.2
        simp [h.1, hno, Node.children]
    case h_11 =>
      simp only [obscures, Bool.or_eq_false_iff, decide_eq_false_iff_not, Bool.not_eq_false',
        List.isEmpty_iff] at h
      rw [h.2, if_neg h.1]
      rfl
    all_goals first
      | rfl
      | simp [isPassive] at hpassive

theorem isSome_headed {left : Node} (h : declaresOddly x left = false) :
    (headed x (some left)).isSome = !(lexical x left).isEmpty := by
  unfold declaresOddly at h
  split at h
  · next span kind declared items =>
    have hiff : declarators x items = [] ↔ x ∉ Node.declaredNames items := declarators_eq_nil_iff
    rw [headed, lexical]
    by_cases hkind : kind = .hoisted
    · simp [hkind]
    · by_cases hx : x ∈ Node.declaredNames items
      · have hne : declarators x items ≠ [] := fun hnil ↦ hiff.1 hnil hx
        simp [hkind, hx, hne]
      · simp [hkind, hx, hiff.2 hx]
  · next hleft =>
    rw [Bool.not_eq_false', List.isEmpty_iff] at h
    have hnone : headed x (some left) = none := by
      unfold headed
      split
      · next heq => exact absurd (Option.some.inj heq) (hleft _ _ _ _)
      · rfl
    rw [hnone, h]
    rfl

theorem reflects_of_block {n : Node} {bind : Scopes → Scopes} (hopens : blockBindings site n = some bind)
    (hclear : Clear x n) : Reflects (opened site x n) (values x n) := by
  have hself := hclear.self
  unfold blockBindings at hopens
  split at hopens
  · rw [obscures, List.any_eq_false] at hself
    exact reflects_const (isSome_listed fun stmt hstmt ↦ Bool.eq_false_iff.2 (hself stmt hstmt)) _
  · next span param type body =>
    refine reflects_const ?_ _
    split <;> rfl
  · next span init test update body =>
    refine reflects_const ?_ _
    cases init with
    | none => rfl
    | some left =>
      rw [lexicals, Option.toList_some, List.flatMap_cons, List.flatMap_nil, List.append_nil]
      exact isSome_headed hself
  · next span kind left right body => exact reflects_const (isSome_headed hself) _
  · next span subject clauses =>
    refine .cons rfl (reflects_const (isSome_listed fun stmt hstmt ↦ ?_) _)
    obtain ⟨clause, hclause, hstmt⟩ := List.mem_flatMap.1 hstmt
    have hinner := (hclear.part (List.mem_cons_of_mem _ hclause)).self
    unfold clauseStmts at hstmt
    split at hstmt
    · rw [obscures, List.any_eq_false] at hinner
      exact Bool.eq_false_iff.2 (hinner stmt hstmt)
    · simp at hstmt
  · simp at hopens

theorem reflects_of_enters {n n₁ : Node} {leave : State → State} (h : Enters site s n n₁ s₁ leave)
    (hclear : Clear x n) : Reflects (opened site x n₁) (values x n₁) := by
  have hself := hclear.self
  cases h with
  | passive passive =>
    rw [opened_passive passive, values_passive passive hself]
    exact reflects_const rfl _
  | name plain => exact .nil
  | call plain => exact reflects_const rfl _
  | signature form =>
    rw [opened, values, if_pos form, if_pos form]
    exact reflects_const rfl _
  | function form plain => exact reflects_function hclear
  | @cls span head decorators typeParams parent parentTypes implemented members =>
    have hown : head.isExpr = true → head.name ≠ some x := by
      intro hexpr hname
      simp [obscures, hexpr, hname] at hself
    rw [values]
    split
    · next hexpr =>
      rw [opens, if_neg (hown hexpr), ← List.map_append]
      simp only [← List.append_assoc]
      exact reflects_const rfl _
    · exact reflects_const rfl _
  | block opens => exact reflects_of_block opens hclear
  | _ => exact reflects_const rfl _

end Weave

end Recompose
