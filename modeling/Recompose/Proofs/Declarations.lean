import Mathlib.Data.List.Perm.Basic
import Recompose.Proofs.Reachability
import Recompose.Proofs.Weave.Callee

namespace Recompose.Weave

open Script Scoping

theorem nodup_toldSpans_iff (ns : List Node) : (ns.flatMap toldSpans).Nodup ↔
    (ns.flatMap functionSpans ++ ns.flatMap fieldSpans).Nodup :=
  (List.flatMap_append_perm ns functionSpans fieldSpans).nodup_iff.symm

theorem nodup_children {n : Node} (h : (toldSpans n).Nodup) :
    (n.children.flatMap toldSpans).Nodup := by
  rw [nodup_toldSpans_iff]
  unfold toldSpans at h
  rw [functionSpans_eq, fieldSpans_eq] at h
  exact h.sublist ((List.sublist_append_right _ _).append (List.sublist_append_right _ _))

theorem nodup_spans_flatMap {f : Node → List MemoDeclaration} {ns : List Node}
    (hapart : (ns.flatMap toldSpans).Nodup)
    (hspans : ∀ n ∈ ns, ∀ d ∈ f n, d.span ∈ toldSpans n)
    (hown : ∀ n ∈ ns, ((f n).map (·.span)).Nodup) : ((ns.flatMap f).map (·.span)).Nodup := by
  rw [List.map_flatMap, List.nodup_flatMap]
  refine ⟨hown, (List.nodup_flatMap.1 hapart).2.imp_of_mem fun {m n} hm hn hdisjoint ↦ ?_⟩
  refine fun span hspan hspan' ↦ ?_
  obtain ⟨d, hd, rfl⟩ := List.mem_map.1 hspan
  obtain ⟨d', hd', heq⟩ := List.mem_map.1 hspan'
  exact hdisjoint (hspans m hm d hd) (heq ▸ hspans n hn d' hd')

section

variable {site : Site} {c : Collector} {d : MemoDeclaration}

theorem mem_toldSpans {n : Node} {role : Role} (h : Recorded site d n role) :
    d.span ∈ toldSpans n :=
  h.elim (List.mem_append_right _) fun h ↦ List.mem_append_left _ h.1

theorem nodup_of_length_le_one {α : Type} {l : List α} (h : l.length ≤ 1) : l.Nodup := by
  rcases l with _ | ⟨a, _ | ⟨b, l⟩⟩
  · exact .nil
  · exact List.nodup_singleton a
  · simp at h

theorem length_ofFunc (name : String) (owner : Option String) (kind : DeclarationKind)
    (markers : Markers) (f : Func) : (c.ofFunc name owner kind markers f).length ≤ 1 := by
  unfold Collector.ofFunc
  split
  · exact Nat.zero_le 1
  · rw [List.length_map]
    exact Option.length_toList_le
  · exact Nat.zero_le 1

theorem length_ofDeclarator (outer : Markers) (item : Node) : (c.ofDeclarator outer item).length ≤ 1 := by
  unfold Collector.ofDeclarator
  split
  · split
    · exact length_ofFunc _ _ _ _ _
    · exact Nat.zero_le 1
  · exact Nat.zero_le 1

theorem length_ofMember (owner : String) (member : Node) : (c.ofMember owner member).length ≤ 1 := by
  unfold Collector.ofMember
  split
  · dsimp only
    split
    · exact length_ofFunc _ _ _ _ _
    · exact Nat.zero_le 1
  · dsimp only
    split
    · exact Nat.le_refl 1
    · exact Nat.zero_le 1
  · exact Nat.zero_le 1

theorem nodup_ofDeclaration (hc : c.annotations = site.annotations) {n : Node}
    (h : (toldSpans n).Nodup) : ((c.ofDeclaration n).map (·.span)).Nodup := by
  have hone {l : List MemoDeclaration} (hl : l.length ≤ 1) : (l.map (·.span)).Nodup :=
    nodup_of_length_le_one (by rwa [List.length_map])
  have hchildren := nodup_children h
  unfold Collector.ofDeclaration
  split
  · exact hone (length_ofFunc _ _ _ _ _)
  · refine nodup_spans_flatMap hchildren (fun item _ d hd ↦ ?_) fun item _ ↦
      hone (length_ofDeclarator _ item)
    exact mem_toldSpans (recorded_of_ofDeclarator hc hd)
  · next members =>
    refine nodup_spans_flatMap (hchildren.sublist ?_) (fun member _ d hd ↦ ?_) fun member _ ↦
      hone (length_ofMember _ member)
    · exact (List.sublist_append_right _ members).flatMap _
    · exact mem_toldSpans (recorded_of_ofMember hc hd)
  · exact List.nodup_nil

theorem nodup_declared (hc : c.annotations = site.annotations) {stmt : Stmt}
    (h : (toldSpans stmt).Nodup) :
    ((c.ofDeclaration (Collector.declared stmt)).map (·.span)).Nodup := by
  have hchildren := nodup_children h
  unfold Collector.declared
  split
  · next decl => exact nodup_ofDeclaration hc (by simpa [Node.children] using hchildren)
  · next decl => exact nodup_ofDeclaration hc (by simpa [Node.children] using hchildren)
  · exact nodup_ofDeclaration hc h

end

section

variable {source : String} {o : Options} {parsed : Parsed}

theorem nodup_nodes (apart : ToldApart parsed.program.body) :
    ((siteOf source o parsed).graph.nodes.map (·.span)).Nodup := by
  let site := siteOf source o parsed
  let c : Collector := ⟨o.filePath, site.annotations, site.identity⟩
  have hc : c.annotations = site.annotations := rfl
  have hapart : (parsed.program.body.flatMap toldSpans).Nodup :=
    (nodup_toldSpans_iff _).2 (List.nodup_cons.1 apart).2
  refine nodup_spans_flatMap (f := fun stmt ↦ c.ofDeclaration (Collector.declared stmt)) hapart
    (fun stmt _ d hd ↦ mem_toldSpans (recorded_of_declared hc hd)) fun stmt hstmt ↦ ?_
  exact nodup_declared hc ((List.nodup_flatMap.1 hapart).1 stmt hstmt)

theorem nodeAt?_of_mem (apart : ToldApart parsed.program.body) {d : MemoDeclaration}
    (h : d ∈ (siteOf source o parsed).graph.nodes) :
    (siteOf source o parsed).graph.nodeAt? d.span = some d := by
  have hsome : ((siteOf source o parsed).graph.nodeAt? d.span).isSome = true := by
    refine List.find?_isSome.2 ⟨d, List.mem_reverse.2 h, beq_self_eq_true _⟩
  obtain ⟨d', hd'⟩ := Option.isSome_iff_exists.1 hsome
  have hspan : d'.span = d.span := by simpa using List.find?_some hd'
  rw [hd', List.inj_on_of_nodup_map (nodup_nodes apart)
    (List.mem_reverse.1 (List.mem_of_find?_eq_some hd')) h hspan]

end

section

variable {site : Site} {c : Collector} {d : MemoDeclaration} {x : String} {p : Role × Func}

theorem of_mem_ofFunc {name : String} {owner : Option String} {kind : DeclarationKind}
    {markers : Markers} {f : Func} (h : d ∈ c.ofFunc name owner kind markers f) :
    d.name = name ∧ d.owner = owner ∧ d.span = f.span ∧ MemoMode.ofMarkers? markers = some d.mode := by
  unfold Collector.ofFunc at h
  split at h
  · simp at h
  · obtain ⟨mode, hmode, rfl⟩ := List.mem_map.1 h
    exact ⟨rfl, rfl, rfl, Option.mem_toList.1 hmode⟩
  · simp at h

theorem exists_mem_ofFunc (name : String) (owner : Option String) (kind : DeclarationKind)
    {markers : Markers} {f : Func} (hf : isDefined f = true) (hmarkers : markers.isMemoLike = true) :
    ∃ d, d ∈ c.ofFunc name owner kind markers f := by
  obtain ⟨mode, hmode⟩ := ofMarkers?_of_isMemoLike hmarkers
  unfold Collector.ofFunc
  split
  · simp [isDefined] at hf
  · exact ⟨_, List.mem_map_of_mem (Option.mem_toList.2 hmode)⟩
  · next hother =>
    unfold isDefined at hf
    split at hf
    · simp at hf
    · exact absurd rfl (hother _ _ _ _ _ _ _)
    · simp at hf

theorem isMemoLike_merge (m m' : Markers) :
    (m.merge m').isMemoLike = (m.isMemoLike || m'.isMemoLike) := by
  rcases m with ⟨_ | _, _, _ | _, _ | _⟩ <;> rcases m' with ⟨_ | _, _, _ | _, _ | _⟩ <;> rfl

theorem of_mem_ofDeclarator {outer : Markers} {item : Node} (h : d ∈ c.ofDeclarator outer item) :
    d.owner = none ∧ ∃ span target definite type init,
      item = .declarator span target definite type (some init) ∧ target.simpleName? = some d.name ∧
      d.span = init.span := by
  unfold Collector.ofDeclarator at h
  split at h
  · split at h
    · next hname _ =>
      obtain ⟨rfl, howner, hspan, -⟩ := of_mem_ofFunc h
      exact ⟨howner, _, _, _, _, _, rfl, hname, hspan⟩
    · simp at h
  · simp at h

theorem declares_of_mem_ofDeclaration {n : Node} (hx : x ≠ "default") (h : d ∈ c.ofDeclaration n)
    (howner : d.owner = none) (hname : d.name = x) : declares x n ≠ [] := by
  unfold Collector.ofDeclaration at h
  split at h
  · next span head typeParams this params result body =>
    obtain ⟨hd, -⟩ := of_mem_ofFunc h
    have hhead : head.name = some x := by
      cases hhead : head.name with
      | none => exact absurd (hname.symm.trans (by simpa [hhead] using hd)) hx
      | some name => simp_all
    simp [declares, lexical, hhead]
  · next span kind declared items =>
    obtain ⟨item, hitem, hd⟩ := List.mem_flatMap.1 h
    obtain ⟨-, place, target, definite, type, init, rfl, htarget, -⟩ := of_mem_ofDeclarator hd
    rw [declares_vars, Ne, declarators_eq_nil_iff, not_not]
    refine List.mem_flatMap.2 ⟨_, hitem, ?_⟩
    rw [hname] at htarget
    simp [boundNames_of_simpleName htarget]
  · obtain ⟨member, -, hd⟩ := List.mem_flatMap.1 h
    unfold Collector.ofMember at hd
    split at hd
    · dsimp only at hd
      split at hd
      · simp [(of_mem_ofFunc hd).2.1] at howner
      · simp at hd
    · dsimp only at hd
      split at hd
      · obtain rfl := List.mem_singleton.1 hd
        unfold Collector.ofField at howner
        split at howner <;> simp [Collector.declaration] at howner
      · simp at hd
    · simp at hd
  · simp at h

theorem span_of_mem_ofDeclaration {n : Node} (hone : (declares x n).length = 1)
    (hp : p ∈ heldBy site x n) (h : d ∈ c.ofDeclaration n) (hname : d.name = x) :
    d.span = spanOf p := by
  unfold heldBy at hp
  split at hp
  · split at hp
    · obtain rfl := List.mem_singleton.1 hp
      exact (of_mem_ofFunc h).2.2.1
    · simp at hp
  · next span kind declared items =>
    rw [declares_vars] at hone
    obtain ⟨item, honly⟩ := exists_only_declarator hone
    obtain ⟨holding, hholding, hheld⟩ := List.mem_flatMap.1 hp
    obtain ⟨found, hfound, hd⟩ := List.mem_flatMap.1 h
    obtain ⟨-, place, target, definite, type, init, rfl, htarget, hspan⟩ := of_mem_ofDeclarator hd
    rw [hname] at htarget
    have hnamed := honly _ hfound (by simp [Node.declaredNames, boundNames_of_simpleName htarget])
    rw [honly holding hholding (mem_declaredNames_of_heldClosure hheld), ← hnamed, heldClosure] at hheld
    split at hheld
    · obtain rfl := List.mem_singleton.1 hheld
      exact hspan
    · simp at hheld
  · simp at hp

theorem exists_mem_ofDeclaration (hc : c.annotations = site.annotations) {n : Node}
    (hp : p ∈ heldBy site x n) (hcallable : isCallable site p = true) :
    ∃ d ∈ c.ofDeclaration n, d.owner = none ∧ d.name = x := by
  unfold heldBy at hp
  split at hp
  · split at hp
    · next hheld =>
      obtain rfl := List.mem_singleton.1 hp
      simp only [isCallable, ownMode?, isSome_ofMarkers?, Role.isHeld, Bool.or_false] at hcallable
      obtain ⟨d, hd⟩ := exists_mem_ofFunc (c := c) x none .function hheld.2 hcallable
      obtain ⟨hname, howner, -⟩ := of_mem_ofFunc hd
      refine ⟨d, ?_, howner, hname⟩
      rw [Collector.ofDeclaration, hheld.1, hc]
      exact hd
    · simp at hp
  · next span kind declared items =>
    obtain ⟨item, hitem, hp⟩ := List.mem_flatMap.1 hp
    unfold heldClosure at hp
    split at hp
    · next place target definite type init =>
      split at hp
      · next hheld =>
        obtain rfl := List.mem_singleton.1 hp
        obtain ⟨fspan, head, typeParams, this, params, result, body, rfl, hspan⟩ :=
          exists_of_isClosure hheld.2.1
        rw [isCallable, ownMode?, isSome_ofMarkers?, isHeld_ofMarkers, Bool.or_comm,
          ← isMemoLike_merge] at hcallable
        obtain ⟨d, hd⟩ := exists_mem_ofFunc (c := c) x none .closure hheld.2.2 hcallable
        obtain ⟨hname, howner, -⟩ := of_mem_ofFunc hd
        refine ⟨d, List.mem_flatMap.2 ⟨_, hitem, ?_⟩, howner, hname⟩
        rw [Collector.ofDeclarator, hheld.1, hspan, hc]
        exact hd
      · simp at hp
    · simp at hp
  · simp at hp

theorem isCallable_of_declares {role : Role} {f : Func} (hrole : role = .free ∨ role.isHeld = true)
    (h : Declares site role f d) : isCallable site (role, f) = true := by
  unfold isCallable
  obtain rfl | hheld := hrole
  · simp [h.free rfl]
  · simp [hheld]

theorem free_or_held_of_heldBy {n : Node} (hp : p ∈ heldBy site x n) :
    p.1 = .free ∨ p.1.isHeld = true := by
  have hmarkers (m : Markers) : Role.ofMarkers m = .free ∨ (Role.ofMarkers m).isHeld = true := by
    unfold Role.ofMarkers
    split
    · exact .inr rfl
    · exact .inl rfl
  unfold heldBy at hp
  split at hp
  · split at hp
    · obtain rfl := List.mem_singleton.1 hp
      exact .inl rfl
    · simp at hp
  · obtain ⟨item, -, hp⟩ := List.mem_flatMap.1 hp
    unfold heldClosure at hp
    split at hp
    · split at hp
      · obtain rfl := List.mem_singleton.1 hp
        exact hmarkers _
      · simp at hp
    · simp at hp
  · simp at hp

end

def memberName? : Node → Option String
  | .method _ _ _ _ key _ => key.keyText?
  | .field _ _ _ _ key _ _ => key.keyText?
  | _ => none

/-- The function that a member of a class is or holds, with its role. -/
def heldMember (site : Site) : Node → List (Role × Func)
  | .method span .plain _ decorators _ f =>
    if isDefined f = true then [(.ofMarkers (memberMarkers site span decorators), f)] else []
  | .field span false _ decorators _ _ (some (.func fspan head typeParams this params result body)) =>
    if head.form = .arrow ∧ isDefined (.func fspan head typeParams this params result body) = true then
      [(.ofMarkers (memberMarkers site span decorators),
        .func fspan head typeParams this params result body)]
    else []
  | _ => []

def classesOf (stmts : List Stmt) : List Node :=
  (stmts.map Collector.declared).filter fun
    | .cls _ _ _ _ _ _ _ _ => true
    | _ => false

def classNameOf : Node → String
  | .cls _ head _ _ _ _ _ _ => Collector.className head
  | _ => ""

def classMembers : Node → List Node
  | .cls _ _ _ _ _ _ _ members => members
  | _ => []

def membersNamed (m : String) (C : Node) : List Node :=
  (classMembers C).filter (memberName? · = some m)

def IsSubclass (classes : List Node) (C D : Node) : Prop :=
  D ∈ classes ∧ Collector.parentOf C = [(classNameOf C, classNameOf D)]

/-- The member of a name that an instance of a class has: that of the class or of the nearest class of
the file that it extends, apart from those that were passed. -/
inductive FindsMember (classes : List Node) (m : String) : List String → Node → Node → Node → Prop
  | own {passed : List String} {C member : Node} (fresh : classNameOf C ∉ passed)
      (named : membersNamed m C = [member]) : FindsMember classes m passed C C member
  | inherited {passed : List String} {C D E member : Node} (fresh : classNameOf C ∉ passed)
      (absent : membersNamed m C = []) (sub : IsSubclass classes C D)
      (rest : FindsMember classes m (classNameOf C :: passed) D E member) :
      FindsMember classes m passed C E member

section

variable {site : Site} {c : Collector} {d : MemoDeclaration} {m : String} {p : Role × Func}

theorem of_mem_ofField {name owner : String} {mode : MemoMode} {span : Span} {init : Option Expr} :
    (c.ofField name owner mode span init).name = name ∧
      (c.ofField name owner mode span init).owner = some owner := by
  unfold Collector.ofField
  split <;> exact ⟨rfl, rfl⟩

theorem of_mem_ofMember {owner : String} {member : Node} (h : d ∈ c.ofMember owner member) :
    d.owner = some owner ∧ memberName? member = some d.name := by
  unfold Collector.ofMember at h
  split at h
  · dsimp only at h
    split at h
    · next hname =>
      obtain ⟨rfl, howner, -⟩ := of_mem_ofFunc h
      exact ⟨howner, hname⟩
    · simp at h
  · dsimp only at h
    split at h
    · next hname =>
      obtain rfl := List.mem_singleton.1 h
      obtain ⟨hfield, howner⟩ := of_mem_ofField (c := c)
      exact ⟨howner, hname.trans (congrArg some hfield.symm)⟩
    · simp at h
  · simp at h

theorem span_of_mem_ofMember {owner : String} {member : Node} (hp : p ∈ heldMember site member)
    (h : d ∈ c.ofMember owner member) : d.span = spanOf p := by
  unfold heldMember at hp
  split at hp
  · split at hp
    · obtain rfl := List.mem_singleton.1 hp
      unfold Collector.ofMember at h
      dsimp only at h
      split at h
      · exact (of_mem_ofFunc h).2.2.1
      · simp at h
    · simp at hp
  · next span mods decorators key type fspan head typeParams this params result body =>
    split at hp
    · next harrow =>
      obtain rfl := List.mem_singleton.1 hp
      obtain ⟨form, name, kinds⟩ := head
      obtain rfl : form = .arrow := harrow.1
      unfold Collector.ofMember at h
      dsimp only at h
      split at h
      · obtain rfl := List.mem_singleton.1 h
        rfl
      · simp at h
    · simp at hp
  · simp at hp

theorem exists_mem_ofMember (hc : c.annotations = site.annotations) {owner : String} {member : Node}
    (hname : memberName? member = some m) (hp : p ∈ heldMember site member)
    (hheld : p.1.isHeld = true) : ∃ d, d ∈ c.ofMember owner member := by
  unfold heldMember at hp
  split at hp
  · next span mods decorators key f =>
    split at hp
    · next hf =>
      obtain rfl := List.mem_singleton.1 hp
      rw [isHeld_ofMarkers, memberMarkers, ← hc] at hheld
      have hkey : key.keyText? = some m := hname
      obtain ⟨d, hd⟩ := exists_mem_ofFunc (c := c) m (some owner) .method hf hheld
      refine ⟨d, ?_⟩
      rw [Collector.ofMember, hkey]
      exact hd
    · simp at hp
  · next span mods decorators key type fspan head typeParams this params result body =>
    split at hp
    · obtain rfl := List.mem_singleton.1 hp
      rw [isHeld_ofMarkers, memberMarkers, ← hc] at hheld
      have hkey : key.keyText? = some m := hname
      obtain ⟨mode, hmode⟩ := ofMarkers?_of_isMemoLike hheld
      refine ⟨c.ofField m owner mode span (some (.func fspan head typeParams this params result body)), ?_⟩
      rw [Collector.ofMember, hmode, hkey]
      exact List.mem_singleton.2 rfl
    · simp at hp
  · simp at hp

theorem isHeld_of_mem_ofMember (hc : c.annotations = site.annotations) {owner : String} {member : Node}
    (h : d ∈ c.ofMember owner member) : (valueRole site .free member).isHeld = true := by
  unfold Collector.ofMember at h
  split at h
  · dsimp only at h
    split at h
    · have hmode := (of_mem_ofFunc h).2.2.2
      rw [valueRole, isHeld_ofMarkers, ← isSome_ofMarkers?, memberMarkers, ← hc, hmode]
      rfl
    · simp at h
  · dsimp only at h
    split at h
    · next hmode _ =>
      rw [valueRole, isHeld_ofMarkers, ← isSome_ofMarkers?, memberMarkers, ← hc, hmode]
      rfl
    · simp at h
  · simp at h

end

section

variable {source : String} {o : Options} {parsed : Parsed} {x m : String} {p : Role × Func}

theorem function?_of_holder (apart : ToldApart parsed.program.body) (hx : x ≠ "default")
    (h : holder (siteOf source o parsed) x (parsed.program.body.map Collector.declared) = some p) :
    (siteOf source o parsed).graph.function? x = (siteOf source o parsed).graph.nodeAt? (spanOf p) ∧
      ((siteOf source o parsed).graph.nodeAt? (spanOf p) = none →
        isCallable (siteOf source o parsed) p = false) := by
  let site := siteOf source o parsed
  let c : Collector := ⟨o.filePath, site.annotations, site.identity⟩
  have hc : c.annotations = site.annotations := rfl
  obtain ⟨n, hn, hp, hone, honly⟩ := exists_of_holder h
  obtain ⟨stmt, hstmt, rfl⟩ := List.mem_map.1 hn
  have hnodes {d : MemoDeclaration} : d ∈ site.graph.nodes ↔
      ∃ other ∈ parsed.program.body, d ∈ c.ofDeclaration (Collector.declared other) := List.mem_flatMap
  -- Whatever is declared under the name is declared by the one statement.
  have hspan {d : MemoDeclaration} (hd : d ∈ site.graph.nodes) (howner : d.owner = none)
      (hname : d.name = x) : d.span = spanOf p := by
    obtain ⟨other, hother, hd⟩ := hnodes.1 hd
    have hdeclares := declares_of_mem_ofDeclaration hx hd howner hname
    rw [honly _ (List.mem_map_of_mem hother) hdeclares] at hd
    exact span_of_mem_ofDeclaration hone hp hd hname
  cases hfunction : site.graph.function? x with
  | some d =>
    have hfound := List.find?_some hfunction
    have hd := List.mem_of_find?_eq_some hfunction
    simp only [Bool.and_eq_true, Option.isNone_iff_eq_none, beq_iff_eq] at hfound
    have hat := nodeAt?_of_mem apart hd
    rw [hspan hd hfound.1 hfound.2] at hat
    refine ⟨hat.symm, fun hnone ↦ ?_⟩
    simp [hat] at hnone
  | none =>
    have huncallable : isCallable site p = false := by
      rw [← Bool.not_eq_true]
      intro hcallable
      obtain ⟨d, hd, howner, hname⟩ := exists_mem_ofDeclaration hc hp hcallable
      have hnone := List.find?_eq_none.1 hfunction d (hnodes.2 ⟨stmt, hstmt, hd⟩)
      simp [howner, hname] at hnone
    have hat : site.graph.nodeAt? (spanOf p) = none := by
      rw [Option.eq_none_iff_forall_not_mem]
      intro d hd
      have hcensus : p ∈ census site stmt .free := by
        have hmem := mem_census_of_heldBy hp
        unfold Collector.declared at hmem
        split at hmem
        · exact census_of_children (n := .exportDecl _ _) rfl rfl ▸ List.mem_append_left _ hmem
        · exact census_of_children (n := .exportDefault _ _) rfl rfl ▸ List.mem_append_left _ hmem
        · exact hmem
      have hdeclares := (known_of_toldApart source o parsed apart hstmt).declared p hcensus d hd
      exact absurd (isCallable_of_declares (free_or_held_of_heldBy hp) hdeclares)
        (Bool.not_eq_true _ ▸ huncallable)
    exact ⟨hat.symm, fun _ ↦ huncallable⟩

theorem mem_classesOf_iff {stmts : List Stmt} {C : Node} : C ∈ classesOf stmts ↔
    (∃ stmt ∈ stmts, Collector.declared stmt = C) ∧ ∃ span head decorators typeParams parent parentTypes
      implemented members, C = .cls span head decorators typeParams parent parentTypes implemented members := by
  unfold classesOf
  rw [List.mem_filter, List.mem_map]
  refine and_congr_right fun _ ↦ ?_
  cases C <;> simp

theorem exists_of_owner {d : MemoDeclaration} {owner : String}
    (hd : d ∈ (siteOf source o parsed).graph.nodes) (howner : d.owner = some owner) :
    ∃ C ∈ classesOf parsed.program.body, classNameOf C = owner ∧ ∃ member ∈ classMembers C,
      d ∈ (Collector.mk o.filePath (siteOf source o parsed).annotations
        (siteOf source o parsed).identity).ofMember owner member := by
  obtain ⟨stmt, hstmt, hd⟩ := List.mem_flatMap.1 hd
  unfold Collector.ofDeclaration at hd
  split at hd
  · simp [(of_mem_ofFunc hd).2.1] at howner
  · obtain ⟨item, -, hd⟩ := List.mem_flatMap.1 hd
    simp [(of_mem_ofDeclarator hd).1] at howner
  · next heq =>
    obtain ⟨member, hmember, hd⟩ := List.mem_flatMap.1 hd
    obtain rfl := Option.some.inj ((of_mem_ofMember hd).1.symm.trans howner)
    refine ⟨_, mem_classesOf_iff.2 ⟨⟨stmt, hstmt, heq⟩, _, _, _, _, _, _, _, _, rfl⟩, rfl, member, hmember, hd⟩
  · simp at hd

theorem exists_of_parent {owner parent : String}
    (h : (siteOf source o parsed).graph.parents.lookup owner = some parent) :
    ∃ C ∈ classesOf parsed.program.body, classNameOf C = owner ∧
      Collector.parentOf C = [(owner, parent)] := by
  obtain ⟨before, after, hlist, -⟩ := List.lookup_eq_some_iff.1 h
  have hmem : (owner, parent) ∈ (siteOf source o parsed).graph.parents := by simp [hlist]
  obtain ⟨stmt, hstmt, hparent⟩ := List.mem_flatMap.1 (List.mem_reverse.1 hmem)
  unfold Collector.parentOf at hparent
  split at hparent
  · next heq =>
    obtain ⟨rfl, rfl⟩ := Prod.mk.inj (List.mem_singleton.1 hparent)
    exact ⟨_, mem_classesOf_iff.2 ⟨⟨stmt, hstmt, heq⟩, _, _, _, _, _, _, _, _, rfl⟩, rfl, rfl⟩
  · simp at hparent

theorem lookup_parents {C : Node} {parent : String} (hC : C ∈ classesOf parsed.program.body)
    (hclasses : ((classesOf parsed.program.body).map classNameOf).Nodup)
    (h : Collector.parentOf C = [(classNameOf C, parent)]) :
    (siteOf source o parsed).graph.parents.lookup (classNameOf C) = some parent := by
  obtain ⟨⟨stmt, hstmt, hstmtC⟩, -⟩ := mem_classesOf_iff.1 hC
  have hmem : (classNameOf C, parent) ∈ (siteOf source o parsed).graph.parents := by
    refine List.mem_reverse.2 (List.mem_flatMap.2 ⟨stmt, hstmt, ?_⟩)
    rw [hstmtC, h]
    exact List.mem_singleton.2 rfl
  have hsome : (siteOf source o parsed).graph.parents.lookup (classNameOf C) ≠ none := by
    intro hnone
    simpa using List.lookup_eq_none_iff.1 hnone _ hmem
  obtain ⟨parent', hparent'⟩ := Option.ne_none_iff_exists'.1 hsome
  obtain ⟨D, hD, hname, hparent⟩ := exists_of_parent hparent'
  obtain rfl := List.inj_on_of_nodup_map hclasses hD hC hname
  rw [h] at hparent
  rw [hparent']
  simp_all

section

variable (hclasses : ((classesOf parsed.program.body).map classNameOf).Nodup)

include hclasses

theorem exists_of_member? {C : Node} {d : MemoDeclaration} (hC : C ∈ classesOf parsed.program.body)
    (h : (siteOf source o parsed).graph.member? (classNameOf C) m = some d) :
    d ∈ (siteOf source o parsed).graph.nodes ∧ ∃ member ∈ membersNamed m C,
      d ∈ (Collector.mk o.filePath (siteOf source o parsed).annotations
        (siteOf source o parsed).identity).ofMember (classNameOf C) member := by
  have hd := List.mem_of_find?_eq_some h
  have hfound := List.find?_some h
  simp only [Bool.and_eq_true, beq_iff_eq] at hfound
  obtain ⟨D, hD, hname, member, hmember, hof⟩ := exists_of_owner hd hfound.1
  obtain rfl := List.inj_on_of_nodup_map hclasses hD hC hname
  refine ⟨hd, member, List.mem_filter.2 ⟨hmember, ?_⟩, hof⟩
  rw [(of_mem_ofMember hof).2, hfound.2]
  simp

theorem inheritedFrom?_of_held {passed : List String} {C E member : Node}
    (h : FindsMember (classesOf parsed.program.body) m passed C E member)
    (hC : C ∈ classesOf parsed.program.body) (hp : p ∈ heldMember (siteOf source o parsed) member)
    (hheld : p.1.isHeld = true) :
    ∃ d ∈ (siteOf source o parsed).graph.nodes, d.span = spanOf p ∧
      (siteOf source o parsed).graph.inheritedFrom? m passed (classNameOf C) = some d := by
  let site := siteOf source o parsed
  let c : Collector := ⟨o.filePath, site.annotations, site.identity⟩
  have hc : c.annotations = site.annotations := rfl
  induction h with
  | @own passed C member fresh named =>
    have hmember : member ∈ classMembers C ∧ memberName? member = some m := by
      have hmem : member ∈ membersNamed m C := by rw [named]; exact List.mem_singleton.2 rfl
      simpa using List.mem_filter.1 hmem
    have hsome : site.graph.member? (classNameOf C) m ≠ none := by
      obtain ⟨d, hd⟩ : ∃ d, d ∈ c.ofMember (classNameOf C) member :=
        exists_mem_ofMember hc hmember.2 hp hheld
      obtain ⟨⟨stmt, hstmt, hdeclared⟩, span, head, decorators, typeParams, parent, parentTypes,
        implemented, members, rfl⟩ := mem_classesOf_iff.1 hC
      have hnode : d ∈ site.graph.nodes := by
        refine List.mem_flatMap.2 ⟨stmt, hstmt, ?_⟩
        rw [hdeclared]
        exact List.mem_flatMap.2 ⟨member, hmember.1, hd⟩
      intro hnone
      obtain ⟨howner, hname⟩ := of_mem_ofMember hd
      have hdiffers := List.find?_eq_none.1 hnone d hnode
      rw [howner, Option.some.inj (hname.symm.trans hmember.2)] at hdiffers
      simp at hdiffers
    obtain ⟨d, hd⟩ := Option.ne_none_iff_exists'.1 hsome
    obtain ⟨hnode, other, hother, hof⟩ := exists_of_member? hclasses hC hd
    rw [named] at hother
    obtain rfl := List.mem_singleton.1 hother
    refine ⟨d, hnode, span_of_mem_ofMember hp hof, ?_⟩
    rw [CallGraph.inheritedFrom?_eq, if_neg fresh, hd]
    rfl
  | @inherited passed C D E member fresh absent sub rest ih =>
    have hnone : site.graph.member? (classNameOf C) m = none := by
      rw [Option.eq_none_iff_forall_not_mem]
      intro d hd
      obtain ⟨-, other, hother, -⟩ := exists_of_member? hclasses hC hd
      rw [absent] at hother
      exact List.not_mem_nil hother
    obtain ⟨d, hnode, hspan, hfound⟩ := ih sub.1 hp
    refine ⟨d, hnode, hspan, ?_⟩
    rw [CallGraph.inheritedFrom?_eq, if_neg fresh, hnone, lookup_parents hC hclasses sub.2]
    exact hfound

end

theorem inheritedFrom?_eq_none {passed : List String} {owner : String}
    (h : ∀ C ∈ classesOf parsed.program.body, classNameOf C = owner →
      ∀ D, Relation.ReflTransGen (IsSubclass (classesOf parsed.program.body)) C D →
        ∀ member ∈ membersNamed m D, (valueRole (siteOf source o parsed) .free member).isHeld = false) :
    (siteOf source o parsed).graph.inheritedFrom? m passed owner = none := by
  let site := siteOf source o parsed
  have hmember {owner : String} (h : ∀ C ∈ classesOf parsed.program.body, classNameOf C = owner →
      ∀ D, Relation.ReflTransGen (IsSubclass (classesOf parsed.program.body)) C D →
        ∀ member ∈ membersNamed m D, (valueRole site .free member).isHeld = false) :
      site.graph.member? owner m = none := by
    rw [Option.eq_none_iff_forall_not_mem]
    intro d hd
    have hfound := List.find?_some hd
    simp only [Bool.and_eq_true, beq_iff_eq] at hfound
    obtain ⟨C, hC, hname, member, hmember, hof⟩ :=
      exists_of_owner (List.mem_of_find?_eq_some hd) hfound.1
    have hnamed : member ∈ membersNamed m C := by
      refine List.mem_filter.2 ⟨hmember, ?_⟩
      rw [(of_mem_ofMember hof).2, hfound.2]
      simp
    have hheld : (valueRole site .free member).isHeld = true := isHeld_of_mem_ofMember rfl hof
    simp [h C hC hname C .refl member hnamed] at hheld
  induction passed, owner using CallGraph.inheritedFrom?.induct site.graph m with
  | case1 passed owner seen => rw [CallGraph.inheritedFrom?_eq, if_pos seen]
  | case2 passed owner fresh d found => simp [hmember h] at found
  | case3 passed owner fresh absent parent hparent ih =>
    rw [CallGraph.inheritedFrom?_eq, if_neg fresh, hmember h, hparent]
    refine ih fun D hD hname E hE ↦ ?_
    obtain ⟨C, hC, hCname, hCparent⟩ := exists_of_parent hparent
    refine h C hC hCname E (.head ⟨hD, ?_⟩ hE)
    rw [hCparent, hCname, hname]
  | case4 passed owner fresh absent hparent =>
    rw [CallGraph.inheritedFrom?_eq, if_neg fresh, hmember h, hparent]
    rfl

end

end Recompose.Weave
