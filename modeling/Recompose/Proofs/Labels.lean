import Mathlib.Data.List.Nodup
import Recompose.Proofs.Identity
import Recompose.Proofs.Numbering
import Recompose.Proofs.Preamble
import Recompose.Proofs.Weave.Tame

namespace Recompose

open Script

namespace Weave

open QualifiedName (IsGiven within within_append within_concat within_injective)

namespace Ledger

def hashed (t : Ledger) : List String :=
  t.memos.flatMap fun m ↦
    Identity.path m.1 Identity.ownComponent :: m.2.map fun ordinal ↦ Identity.path m.1 (toString ordinal)

/-- The closures that are named after the scope around. -/
def Own (t : Ledger) : Component → Prop
  | .nested ordinal _ => ordinal ∈ t.calls
  | .free index => index ∈ t.closures

@[simp] theorem own_append {t t' : Ledger} {c : Component} : (t ++ t').Own c ↔ t.Own c ∨ t'.Own c := by
  cases c <;> exact List.mem_append

end Ledger

/-- The memo functions of a piece of the text in a scope are named after closures of the scope or after
names that the source gives, and all their names differ as soon as those that are given differ. -/
structure Ledger.Tells (t : Ledger) (own : Component → Prop) (scope : String) : Prop where
  numbered : ∀ m ∈ t.memos, m.2.Nodup
  named : ∀ m ∈ t.memos, (∃ c path, own c ∧ m.1 = within scope (c :: path)) ∨
    ∃ base ∈ t.given, ∃ path, m.1 = within base path
  apart : ∀ base path, scope = within base path → (∀ name ∈ t.given, IsGiven name) → t.given.Nodup →
    ((∃ c, own c) → IsGiven base ∧ base ∉ t.given) → (t.memos.map (·.1)).Nodup

namespace Ledger.Tells

variable {t t' : Ledger} {own own' : Component → Prop} {scope : String}

theorem of_empty (h : t.memos = []) : t.Tells own scope :=
  ⟨by simp [h], by simp [h], by simp [h]⟩

theorem none (h : t.memos = []) : t.Tells (fun _ ↦ False) scope :=
  of_empty h

theorem mono (h : t.Tells own scope) (hown : ∀ c, own c → own' c) : t.Tells own' scope := by
  refine ⟨h.numbered, fun m hm ↦ ?_, fun base path hscope hgiven hnodup hbase ↦ ?_⟩
  · obtain ⟨c, path, hc, hname⟩ | hname := h.named m hm
    · exact .inl ⟨c, path, hown c hc, hname⟩
    · exact .inr hname
  · refine h.apart base path hscope hgiven hnodup ?_
    rintro ⟨c, hc⟩
    exact hbase ⟨c, hown c hc⟩

theorem root (h : t.Tells own scope) {base : String} {path : List Component}
    (hscope : scope = within base path) {m : String × List Nat} (hm : m ∈ t.memos) :
    (∃ c rest, own c ∧ m.1 = within base (path ++ c :: rest)) ∨
      ∃ name ∈ t.given, ∃ rest, m.1 = within name rest := by
  obtain ⟨c, rest, hc, hname⟩ | hname := h.named m hm
  · exact .inl ⟨c, rest, hc, by rw [hname, hscope, within_append]⟩
  · exact .inr hname

theorem append (h : t.Tells own scope) (h' : t'.Tells own' scope) (hown : ∀ c, own c → ¬own' c) :
    (t ++ t').Tells (fun c ↦ own c ∨ own' c) scope := by
  refine ⟨List.forall_mem_append.2 ⟨h.numbered, h'.numbered⟩, fun m hm ↦ ?_,
    fun base path hscope hgiven hnodup hbase ↦ ?_⟩
  · obtain hm | hm := List.mem_append.1 hm
    · obtain ⟨c, path, hc, hname⟩ | ⟨base, hmem, hname⟩ := h.named m hm
      · exact .inl ⟨c, path, .inl hc, hname⟩
      · exact .inr ⟨base, List.mem_append_left _ hmem, hname⟩
    · obtain ⟨c, path, hc, hname⟩ | ⟨base, hmem, hname⟩ := h'.named m hm
      · exact .inl ⟨c, path, .inr hc, hname⟩
      · exact .inr ⟨base, List.mem_append_right _ hmem, hname⟩
  obtain ⟨hg, hg'⟩ := List.forall_mem_append.1 hgiven
  obtain ⟨hn, hn', hdisjoint⟩ := List.nodup_append.1 hnodup
  have hbase (c : Component) (hc : own c ∨ own' c) :
      IsGiven base ∧ base ∉ t.given ∧ base ∉ t'.given := by
    obtain ⟨hgiven, hnot⟩ := hbase ⟨c, hc⟩
    exact ⟨hgiven, not_or.1 (mt List.mem_append.2 hnot)⟩
  rw [memos_append, List.map_append]
  refine List.nodup_append.2 ⟨h.apart base path hscope hg hn ?_, h'.apart base path hscope hg' hn' ?_, ?_⟩
  · rintro ⟨c, hc⟩
    exact ⟨(hbase c (.inl hc)).1, (hbase c (.inl hc)).2.1⟩
  · rintro ⟨c, hc⟩
    exact ⟨(hbase c (.inr hc)).1, (hbase c (.inr hc)).2.2⟩
  intro name hname name' hname' heq
  obtain ⟨m, hm, rfl⟩ := List.mem_map.1 hname
  obtain ⟨m', hm', rfl⟩ := List.mem_map.1 hname'
  -- a name on both sides would have the same root and begin with the same closure
  obtain ⟨c, rest, hc, hname⟩ | ⟨g, hmem, rest, hname⟩ := h.root hscope hm
  · obtain ⟨hgiven, -, hnot⟩ := hbase c (.inl hc)
    obtain ⟨c', rest', hc', hname'⟩ | ⟨g', hmem', rest', hname'⟩ := h'.root hscope hm'
    · obtain ⟨-, hpath⟩ := within_injective hgiven hgiven (hname.symm.trans (heq.trans hname'))
      obtain ⟨rfl, -⟩ := List.cons.inj (List.append_cancel_left hpath)
      exact hown c hc hc'
    · obtain ⟨rfl, -⟩ := within_injective hgiven (hg' g' hmem') (hname.symm.trans (heq.trans hname'))
      exact hnot hmem'
  · obtain ⟨c', rest', hc', hname'⟩ | ⟨g', hmem', rest', hname'⟩ := h'.root hscope hm'
    · obtain ⟨hgiven, hnot, -⟩ := hbase c' (.inr hc')
      obtain ⟨rfl, -⟩ := within_injective (hg g hmem) hgiven (hname.symm.trans (heq.trans hname'))
      exact hnot hmem
    · obtain ⟨rfl, -⟩ := within_injective (hg g hmem) (hg' g' hmem') (hname.symm.trans (heq.trans hname'))
      exact hdisjoint g hmem g hmem' rfl

theorem memo_not_mem (h : t.Tells t.Own scope) {base : String} {path : List Component}
    (hscope : scope = within base path) (hgiven : ∀ name ∈ t.given, IsGiven name)
    (hbase : IsGiven base) (hnot : base ∉ t.given) : scope ∉ t.memos.map (·.1) := by
  intro hmem
  obtain ⟨m, hm, rfl⟩ := List.mem_map.1 hmem
  obtain ⟨c, rest, hc, hname⟩ | ⟨g, hg, rest, hname⟩ := h.root hscope hm
  · obtain ⟨-, hpath⟩ := within_injective hbase hbase (hscope.symm.trans hname)
    simp at hpath
  · obtain ⟨rfl, -⟩ := within_injective hbase (hgiven g hg) (hscope.symm.trans hname)
    exact hnot hg

theorem closure {c : Component} (h : t.Tells t.Own (c.name scope)) (hcalls : t.calls.Nodup) :
    (t.memo (c.name scope)).Tells (· = c) scope := by
  refine ⟨List.forall_mem_cons.2 ⟨hcalls, h.numbered⟩, ?_, fun base path hscope hgiven hnodup hbase ↦ ?_⟩
  · refine List.forall_mem_cons.2 ⟨.inl ⟨c, [], rfl, rfl⟩, fun m hm ↦ ?_⟩
    obtain ⟨c', rest, -, hname⟩ | hname := h.named m hm
    · exact .inl ⟨c, c' :: rest, rfl, hname⟩
    · exact .inr hname
  · obtain ⟨hbase, hnot⟩ := hbase ⟨c, rfl⟩
    have hinner : c.name scope = within base (path ++ [c]) := by rw [within_concat, hscope]
    exact List.nodup_cons.2 ⟨h.memo_not_mem hinner hgiven hbase hnot,
      h.apart base _ hinner hgiven hnodup fun _ ↦ ⟨hbase, hnot⟩⟩

theorem declared {name : String} (h : t.Tells t.Own name) (hcalls : t.calls.Nodup) :
    (({ given := [name] } : Ledger) ++ t.memo name).Tells (fun _ ↦ False) scope := by
  refine ⟨List.forall_mem_cons.2 ⟨hcalls, h.numbered⟩, fun m hm ↦ .inr ?_,
    fun base path hscope hgiven hnodup hbase ↦ ?_⟩
  · obtain rfl | hm := List.mem_cons.1 hm
    · exact ⟨name, List.mem_cons_self, [], rfl⟩
    · obtain ⟨c, rest, -, hname⟩ | ⟨g, hg, hname⟩ := h.named m hm
      · exact ⟨name, List.mem_cons_self, c :: rest, hname⟩
      · exact ⟨g, List.mem_cons_of_mem _ hg, hname⟩
  · obtain ⟨hname, hgiven⟩ := List.forall_mem_cons.1 hgiven
    obtain ⟨hnot, hnodup⟩ := List.nodup_cons.1 hnodup
    have hscope : name = within name [] := rfl
    exact List.nodup_cons.2 ⟨h.memo_not_mem hscope hgiven hname hnot,
      h.apart name [] hscope hgiven hnodup fun _ ↦ ⟨hname, hnot⟩⟩

theorem aside {name : String} (h : t.Tells t.Own name) (hcalls : t.calls = []) :
    (t.aside name).Tells (fun _ ↦ False) scope := by
  have hown (c : Component) (hc : t.Own c) : t.closures ≠ [] := by
    cases c with
    | nested i j => simp [Ledger.Own, hcalls] at hc
    | free k => exact List.ne_nil_of_mem hc
  refine ⟨h.numbered, fun m hm ↦ .inr ?_, fun base path hscope hgiven hnodup hbase ↦ ?_⟩
  · obtain ⟨c, rest, hc, hname⟩ | ⟨g, hg, hname⟩ := h.named m hm
    · exact ⟨name, by simp [Ledger.aside, hown c hc], c :: rest, hname⟩
    · refine ⟨g, ?_, hname⟩
      unfold Ledger.aside
      split
      · exact hg
      · exact List.mem_cons_of_mem _ hg
  · unfold Ledger.aside at hgiven hnodup
    split at hgiven
    · next hnone =>
      rw [if_pos hnone] at hnodup
      refine h.apart name [] rfl hgiven hnodup ?_
      rintro ⟨c, hc⟩
      exact absurd hnone (hown c hc)
    · next hsome =>
      rw [if_neg hsome] at hnodup
      obtain ⟨hname, hgiven⟩ := List.forall_mem_cons.1 hgiven
      obtain ⟨hnot, hnodup⟩ := List.nodup_cons.1 hnodup
      exact h.apart name [] rfl hgiven hnodup fun _ ↦ ⟨hname, hnot⟩

end Ledger.Tells

theorem nodup_hashed {t : Ledger} (hnumbered : ∀ m ∈ t.memos, m.2.Nodup)
    (hnames : (t.memos.map (·.1)).Nodup) : t.hashed.Nodup := by
  have hscope : '#' ∉ Identity.ownComponent.toList := by decide
  have hdigits (n : Nat) : '#' ∉ (toString n).toList := not_mem_toString (by decide) n
  -- the text before the last sharp is the name
  have hname {m : String × List Nat} {text : String}
      (h : text ∈ Identity.path m.1 Identity.ownComponent ::
        m.2.map fun ordinal ↦ Identity.path m.1 (toString ordinal)) :
      ∃ component : String, '#' ∉ component.toList ∧ text = Identity.path m.1 component := by
    obtain rfl | h := List.mem_cons.1 h
    · exact ⟨_, hscope, rfl⟩
    · obtain ⟨ordinal, -, rfl⟩ := List.mem_map.1 h
      exact ⟨_, hdigits ordinal, rfl⟩
  refine List.nodup_flatMap.2 ⟨fun m hm ↦ List.nodup_cons.2 ⟨fun hmem ↦ ?_, ?_⟩, ?_⟩
  · obtain ⟨ordinal, -, heq⟩ := List.mem_map.1 hmem
    obtain ⟨-, hown⟩ := Identity.path_injective (hdigits ordinal) hscope heq
    have hs : 's' ∈ (toString ordinal).toList := by
      rw [hown]
      decide
    exact not_mem_toString (by decide) ordinal hs
  · refine (List.nodup_map_iff_inj_on (hnumbered m hm)).2 fun i _ j _ heq ↦ ?_
    obtain ⟨-, hij⟩ := Identity.path_injective (hdigits i) (hdigits j) heq
    exact eq_of_toString_eq (congrArg String.toList hij)
  · refine (List.pairwise_map.1 hnames).imp fun hne text hm hm' ↦ hne ?_
    obtain ⟨component, hc, rfl⟩ := hname hm
    obtain ⟨component', hc', heq⟩ := hname hm'
    exact (Identity.path_injective hc hc' heq).1

/-- No two calls, and no two closures, of a piece of the text have one number. -/
structure Ledger.Distinct (t : Ledger) : Prop where
  calls : t.calls.Nodup
  closures : t.closures.Nodup

namespace Ledger

variable {t t' : Ledger}

theorem FromZero.distinct (h : t.FromZero) : t.Distinct :=
  ⟨h.calls ▸ List.nodup_range, h.closures ▸ List.nodup_range⟩

namespace Distinct

theorem left (h : (t ++ t').Distinct) : t.Distinct :=
  ⟨(List.nodup_append.1 h.calls).1, (List.nodup_append.1 h.closures).1⟩

theorem right (h : (t ++ t').Distinct) : t'.Distinct :=
  ⟨(List.nodup_append.1 h.calls).2.1, (List.nodup_append.1 h.closures).2.1⟩

theorem own_disjoint (h : (t ++ t').Distinct) (c : Component) (hc : t.Own c) : ¬t'.Own c := by
  cases c with
  | nested i j => exact fun hc' ↦ (List.nodup_append.1 h.calls).2.2 i hc i hc' rfl
  | free k => exact fun hc' ↦ (List.nodup_append.1 h.closures).2.2 k hc k hc' rfl

theorem not_mem {ordinal : Nat} (h : (({ calls := [ordinal] } : Ledger) ++ t).Distinct) :
    ordinal ∉ t.calls :=
  (List.nodup_cons.1 h.calls).1

end Distinct

/-- The closures of a piece of the arguments of a call, from a position on. -/
def OwnOrArgument (t : Ledger) (ordinal index : Nat) (c : Component) : Prop :=
  t.Own c ∨ ∃ argument, index ≤ argument ∧ c = .nested ordinal argument

end Ledger

variable {site : Site}

mutual

theorem Labels.tells : ∀ {p : Place} {n n' : Node} {t : Ledger}, Labels site p n n' t → t.Distinct →
    t.Tells t.Own p.scope
  | _, _, _, _, .reference, _ => .of_empty rfl
  | _, _, _, _, .call callees arguments _, ht => by
    have hparts := ht.right
    obtain ⟨hfirst, hrest⟩ := not_or.1 (mt List.mem_append.2 ht.not_mem)
    have hboth := (callees.tells hparts.left).append (arguments.tells hparts.right hrest) ?_
    · refine ((Ledger.Tells.none rfl).append hboth (by simp)).mono ?_
      rintro c (hfalse | hown | hown | ⟨argument, -, rfl⟩)
      · exact hfalse.elim
      · exact Ledger.own_append.2 (.inr (Ledger.own_append.2 (.inl hown)))
      · exact Ledger.own_append.2 (.inr (Ledger.own_append.2 (.inr hown)))
      · exact List.mem_cons_self
    · rintro c hown (hown' | ⟨argument, -, rfl⟩)
      · exact hparts.own_disjoint c hown hown'
      · exact hfirst hown
  | _, _, _, _, .declared _ _ woven, _ => by
    obtain ⟨htells, hinner⟩ := woven.tells
    exact (Ledger.Tells.declared htells hinner.calls).mono (by simp)
  | _, _, _, _, .free _ _ _ woven, _ => by
    obtain ⟨htells, hinner⟩ := woven.tells
    have hclosure := Ledger.Tells.closure (c := .free _) htells hinner.calls
    refine ((Ledger.Tells.none rfl).append hclosure (by simp)).mono ?_
    rintro c (hfalse | rfl)
    · exact hfalse.elim
    · exact List.mem_cons_self
  | _, _, _, _, .aside _ _ _ _ parts quiet numbered, _ =>
    ((parts.tells numbered.distinct).aside quiet).mono (by simp)
  | _, _, _, _, .within opens _ _ _ parts _, ht =>
    Place.scope_inside opens ▸ parts.tells ht

theorem LabelsAll.tells : ∀ {p : Place} {ns ns' : List Node} {t : Ledger}, LabelsAll site p ns ns' t →
    t.Distinct → t.Tells t.Own p.scope
  | _, _, _, _, .nil, _ => .of_empty rfl
  | _, _, _, _, .cons head tail, ht =>
    ((head.tells ht.left).append (tail.tells ht.right) ht.own_disjoint).mono fun _ hc ↦
      Ledger.own_append.2 hc

theorem LabelsArgs.tells : ∀ {p : Place} {ordinal index : Nat} {args args' : List Expr} {t : Ledger},
    LabelsArgs site p ordinal index args args' t → t.Distinct → ordinal ∉ t.calls →
    t.Tells (t.OwnOrArgument ordinal index) p.scope
  | _, _, _, _, _, _, .nil, _, _ => .of_empty rfl
  | _, ordinal, index, _, _, _, .closure woven tail, ht, hordinal => by
    obtain ⟨htells, hinner⟩ := woven.tells
    have hclosure := Ledger.Tells.closure (c := .nested ordinal index) htells hinner.calls
    refine (hclosure.append (tail.tells ht.right hordinal) ?_).mono ?_
    · rintro c rfl (hown | ⟨argument, hle, heq⟩)
      · exact hordinal hown
      · obtain ⟨-, rfl⟩ := Component.nested.inj heq
        omega
    · rintro c (rfl | hown | ⟨argument, hle, rfl⟩)
      · exact .inr ⟨index, Nat.le_refl index, rfl⟩
      · exact .inl (Ledger.own_append.2 (.inr hown))
      · exact .inr ⟨argument, Nat.le_of_succ_le hle, rfl⟩
  | _, _, _, _, _, _, .value head tail, ht, hordinal => by
    obtain ⟨hfirst, hrest⟩ := not_or.1 (mt List.mem_append.2 hordinal)
    refine ((head.tells ht.left).append (tail.tells ht.right hrest) ?_).mono ?_
    · rintro c hown (hown' | ⟨argument, hle, rfl⟩)
      · exact ht.own_disjoint c hown hown'
      · exact hfirst hown
    · rintro c (hown | hown | ⟨argument, hle, rfl⟩)
      · exact .inl (Ledger.own_append.2 (.inl hown))
      · exact .inl (Ledger.own_append.2 (.inr hown))
      · exact .inr ⟨argument, Nat.le_of_succ_le hle, rfl⟩

theorem LabelsMemo.tells : ∀ {p : Place} {offset : UInt64} {f f' : Func} {t : Ledger},
    LabelsMemo site p offset f f' t → t.Tells t.Own p.scope ∧ t.Distinct
  | _, _, _, _, _, .bodiless _ => ⟨.of_empty rfl, List.nodup_nil, List.nodup_nil⟩
  | _, _, _, _, _, .bare _ _ labelled numbered =>
    ⟨labelled.tells numbered.distinct, numbered.distinct⟩
  | _, _, _, _, _, .memo _ _ _ labelled numbered _ =>
    ⟨labelled.tells numbered.distinct, numbered.distinct⟩

end

/-- The offsets of declared memo functions are made from their names. -/
def Site.Offsets (site : Site) : Prop :=
  ∀ span d, site.graph.nodeAt? span = some d → d.ownOffset = site.identity.ownScope d.qualifiedName

section

variable {c : Collector} {d : MemoDeclaration}

theorem ownOffset_of_ofFunc {name : String} {owner : Option String} {kind : DeclarationKind}
    {markers : Markers} {f : Func} (h : d ∈ c.ofFunc name owner kind markers f) :
    d.ownOffset = c.identity.ownScope d.qualifiedName := by
  unfold Collector.ofFunc at h
  split at h
  · simp at h
  · obtain ⟨mode, -, rfl⟩ := List.mem_map.1 h
    rfl
  · simp at h

theorem ownOffset_of_ofMember {owner : String} {member : Node} (h : d ∈ c.ofMember owner member) :
    d.ownOffset = c.identity.ownScope d.qualifiedName := by
  unfold Collector.ofMember at h
  split at h
  · dsimp only at h
    split at h
    · exact ownOffset_of_ofFunc h
    · simp at h
  · dsimp only at h
    split at h
    · obtain rfl := List.mem_singleton.1 h
      unfold Collector.ofField
      split <;> rfl
    · simp at h
  · simp at h

theorem ownOffset_of_ofDeclaration {n : Node} (h : d ∈ c.ofDeclaration n) :
    d.ownOffset = c.identity.ownScope d.qualifiedName := by
  unfold Collector.ofDeclaration at h
  split at h
  · exact ownOffset_of_ofFunc h
  · obtain ⟨item, -, h⟩ := List.mem_flatMap.1 h
    unfold Collector.ofDeclarator at h
    split at h
    · split at h
      · exact ownOffset_of_ofFunc h
      · simp at h
    · simp at h
  · obtain ⟨member, -, h⟩ := List.mem_flatMap.1 h
    exact ownOffset_of_ofMember h
  · simp at h

end

theorem offsets_siteOf (source : String) (o : Options) (parsed : Parsed) :
    (siteOf source o parsed).Offsets := by
  intro span d h
  obtain ⟨stmt, -, hd⟩ := List.mem_flatMap.1 (List.mem_reverse.1 (List.mem_of_find?_eq_some h))
  exact ownOffset_of_ofDeclaration hd

theorem LabelsAll.tells_each {file : String} {ns ns' : List Node} {t : Ledger}
    (h : LabelsAll site (.top file) ns ns' t) (hcalls : t.calls = []) (ht : t.Distinct) :
    List.Forall₂ (fun n n' ↦ ∃ t, Labels site (.top file) n n' t ∧
      (t.aside (Place.top file).scope).Tells (fun _ ↦ False) (Place.top file).scope) ns ns' := by
  induction ns generalizing ns' t with
  | nil =>
    cases h
    exact .nil
  | cons n ns ih =>
    cases h with
    | cons head tail =>
      obtain ⟨hfirst, hrest⟩ := List.append_eq_nil_iff.1 hcalls
      exact .cons ⟨_, head, (head.tells ht.left).aside hfirst⟩ (ih tail hrest ht.right)

/-- Names are as different as the source makes them. In every statement of a file with nothing wrong,
if the names that the source gives to memo functions, and to functions that closures are named after,
differ and none of them reads like that of a closure, then all memo functions have different names, and
different texts are hashed for all their scopes and calls. -/
theorem walkAll_names_apart {source : String} {o : Options} {parsed : Parsed} {depth : Nat}
    {stmts' : List Stmt} {s : State}
    (h : walkAll (siteOf source o parsed) depth parsed.program.body = some (stmts', s))
    (hclean : walkErrors o.filePath s = []) :
    (siteOf source o parsed).Offsets ∧
      List.Forall₂ (fun stmt stmt' ↦ ∃ t,
        Labels (siteOf source o parsed) (.top o.filePath) stmt stmt' t ∧
          ((t.aside (Place.top o.filePath).scope).given.Nodup → (∀ name ∈ t.given, IsGiven name) →
            (t.memos.map (·.1)).Nodup ∧ t.hashed.Nodup))
        parsed.program.body stmts' := by
  refine ⟨offsets_siteOf source o parsed, ?_⟩
  obtain ⟨t, hlabels, hmoves⟩ :=
    labelsAll_of_threads (located_initial _) (threads_records_of_walkAll h hclean)
  obtain ⟨hnumbered, hquiet, -⟩ := hmoves.of_scope
  refine (hlabels.tells_each (hquiet rfl) hnumbered.distinct).imp fun stmt stmt' hlabels ↦ ?_
  obtain ⟨t, hlabels, htells⟩ := hlabels
  refine ⟨t, hlabels, fun hnodup hgiven ↦ ?_⟩
  have hmodule : IsGiven (QualifiedName.declaration o.filePath none "<module>") :=
    QualifiedName.isGiven_declaration o.filePath (by simp) (by decide)
  have hnames := htells.apart _ [] rfl (fun name hname ↦ ?_) hnodup (by simp)
  · exact ⟨hnames, nodup_hashed htells.numbered hnames⟩
  · unfold Ledger.aside at hname
    split at hname
    · exact hgiven name hname
    · obtain rfl | hname := List.mem_cons.1 hname
      · exact hmodule
      · exact hgiven name hname

def isAnonymous (site : Site) : Node → Bool
  | .func span head _ _ _ _ _ =>
    head.form = .signature || head.name.isNone && (site.graph.nodeAt? span).isNone
  | .method _ _ _ _ _ _ => false
  | _ => true

def IsAnonymous (site : Site) (n : Node) : Prop :=
  isAnonymous site n = true

instance (site : Site) : DecidablePred (IsAnonymous site) :=
  fun n ↦ inferInstanceAs (Decidable (isAnonymous site n = true))

theorem endures_isAnonymous {names : RuntimeNames} (hnone : site.graph.nodeAt? .none = none) :
    Condition.Endures names (fun _ ↦ True) (IsAnonymous site) where
  statement := ⟨trivial, rfl⟩
  call := rfl
  callee _ := rfl
  closure _ := ⟨by simp [IsAnonymous, isAnonymous, Condition.closure, hnone], rfl⟩
  block := by simp [IsAnonymous, isAnonymous]
  arms _ _ _ := trivial
  chain _ := rfl
  branch _ := trivial
  clause := by simp [IsAnonymous, isAnonymous]
  clauses _ _ := rfl
  switch := trivial
  result := ⟨trivial, rfl⟩

theorem wears_isAnonymous : Wears (IsAnonymous site) where
  bare h := by
    unfold isBareNode at h
    split at h <;> first | rfl | simp at h
  form _ := rfl
  function _ _ h := ⟨rfl, h⟩
  reference _ := rfl
  declarator _ := rfl

mutual

/-- Where nothing has a name of its own, the source gives none. -/
theorem Labels.given_eq_nil (hnone : site.graph.nodeAt? .none = none)
    (hnames : site.options.runtime.IsTame) : ∀ {p : Place} {n n' : Node} {t : Ledger},
    Labels site p n n' t → n.Everywhere (IsAnonymous site) → t.given = []
  | _, _, _, _, .reference, _ => rfl
  | _, _, _, _, .call callees arguments _, hn => by
    have hcallee := callees.given_eq_nil hnone hnames (hn.part (by simp [Node.children]))
    have hargs := arguments.given_eq_nil hnone hnames fun arg harg ↦ hn.part (by simp [Node.children, harg])
    simp [hcallee, hargs]
  | _, _, _, _, .declared function found _, hn => by
    have hown := hn.self
    unfold IsAnonymous isAnonymous at hown
    unfold isFunction at function
    split at hown
    · simp_all [Node.span]
    · simp at hown
    · simp_all
  | _, _, _, _, .free _ _ _ woven, hn => woven.given_eq_nil hnone hnames hn
  | _, _, _, _, .aside opens _ _ _ _ _ _, hn => by
    have hown := hn.self
    unfold IsAnonymous isAnonymous at hown
    unfold opensScope at opens
    split at hown <;> simp_all
  | _, _, _, _, .within _ _ alters _ parts _, hn =>
    parts.given_eq_nil hnone hnames (wears_isAnonymous.everywhere_parts hnames alters hn)

theorem LabelsAll.given_eq_nil (hnone : site.graph.nodeAt? .none = none)
    (hnames : site.options.runtime.IsTame) : ∀ {p : Place} {ns ns' : List Node} {t : Ledger},
    LabelsAll site p ns ns' t → (∀ n ∈ ns, n.Everywhere (IsAnonymous site)) → t.given = []
  | _, _, _, _, .nil, _ => rfl
  | _, _, _, _, .cons head tail, hns => by
    obtain ⟨hhead, htail⟩ := List.forall_mem_cons.1 hns
    simp [head.given_eq_nil hnone hnames hhead, tail.given_eq_nil hnone hnames htail]

theorem LabelsArgs.given_eq_nil (hnone : site.graph.nodeAt? .none = none)
    (hnames : site.options.runtime.IsTame) : ∀ {p : Place} {ordinal index : Nat}
    {args args' : List Expr} {t : Ledger}, LabelsArgs site p ordinal index args args' t →
    (∀ arg ∈ args, arg.Everywhere (IsAnonymous site)) → t.given = []
  | _, _, _, _, _, _, .nil, _ => rfl
  | _, _, _, _, _, _, .closure woven tail, hargs => by
    obtain ⟨hhead, htail⟩ := List.forall_mem_cons.1 hargs
    have hinner := woven.given_eq_nil hnone hnames hhead
    simp [Ledger.memo, hinner, tail.given_eq_nil hnone hnames htail]
  | _, _, _, _, _, _, .value head tail, hargs => by
    obtain ⟨hhead, htail⟩ := List.forall_mem_cons.1 hargs
    simp [head.given_eq_nil hnone hnames hhead, tail.given_eq_nil hnone hnames htail]

theorem LabelsMemo.given_eq_nil (hnone : site.graph.nodeAt? .none = none)
    (hnames : site.options.runtime.IsTame) : ∀ {p : Place} {offset : UInt64} {f f' : Func} {t : Ledger},
    LabelsMemo site p offset f f' t → f.Everywhere (IsAnonymous site) → t.given = []
  | _, _, _, _, _, .bodiless _, _ => rfl
  | _, _, _, _, _, .bare _ _ labelled _, hf => by
    have hbody := hf.part (List.mem_append_right _ List.mem_cons_self)
    exact labelled.given_eq_nil hnone hnames fun m hm ↦ hbody.part hm
  | _, _, _, _, _, .memo _ parts encloses labelled _ _, hf =>
    labelled.given_eq_nil hnone hnames ((endures_isAnonymous hnone).everywhere_enclosed hnames
      (hf.part (List.mem_append_right _ List.mem_cons_self)) parts encloses)

end

set_option maxRecDepth 100000 in
theorem isAnonymous_closuresSource : (parse? closuresSource false).map (fun parsed ↦
    decide (∀ stmt ∈ parsed.program.body,
      stmt.Everywhere (IsAnonymous (siteOf closuresSource shortOptions parsed)))) = some true := by
  decide +kernel

/-- Closures in closures, which no name of the source is needed for. -/
theorem walkAll_names_apart_closuresSource : ∃ parsed stmts' s,
    parse? closuresSource false = some parsed ∧
      walkAll (siteOf closuresSource shortOptions parsed) 16 parsed.program.body = some (stmts', s) ∧
      walkErrors "input.ts" s = [] ∧
      List.Forall₂ (fun stmt stmt' ↦ ∃ t,
        Labels (siteOf closuresSource shortOptions parsed) (.top "input.ts") stmt stmt' t ∧
          t.given = [] ∧ (t.memos.map (·.1)).Nodup ∧ t.hashed.Nodup) parsed.program.body stmts' := by
  obtain ⟨parsed, stmts', s, hparsed, h, hclean, -⟩ := exists_of_wovenView wovenView_closuresSource
  have hbody := isAnonymous_closuresSource
  rw [hparsed] at hbody
  have hnone := nodeAt?_none_of_toldApart closuresSource shortOptions parsed (toldApart_of_parse? hparsed)
  refine ⟨parsed, stmts', s, hparsed, h, hclean, ?_⟩
  have hlabels := (List.forall₂_and_left _ _).2
    ⟨of_decide_eq_true (Option.some.inj hbody), (walkAll_names_apart h hclean).2⟩
  refine hlabels.imp fun stmt stmt' hstmt ↦ ?_
  obtain ⟨hanonymous, t, hlabels, hapart⟩ := hstmt
  have hgiven := hlabels.given_eq_nil hnone isTame_shortNames hanonymous
  refine ⟨t, hlabels, hgiven, hapart ?_ (by simp [hgiven])⟩
  unfold Ledger.aside
  split <;> simp [hgiven]

def accessorSource : String :=
  "class C \x7b get x() \x7b wrap(/** @memo_intrinsic */ () => \x7b Text(); \x7d); \x7d "
    ++ "set x(v) \x7b wrap(/** @memo_intrinsic */ () => \x7b Text(); \x7d); \x7d \x7d\n"

set_option maxRecDepth 100000 in
/-- The closures of a getter and a setter have one name: the calls in them have one offset. -/
theorem wovenNumbers_repeat_in_accessors :
    wovenView accessorSource shortOptions 16 (fun _ stmts' _ ↦ stmts'.flatMap numbers) =
        some ["2164431556", "2164431556"] ∧
      (Identity.ofWidth 32).callSite
        (QualifiedName.free (QualifiedName.declaration "input.ts" (some "C") "x") 0) 0 = 2164431556 := by
  decide +kernel

end Weave

end Recompose
