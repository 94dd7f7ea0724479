import Mathlib.Data.List.Basic
import Mathlib.Data.List.Induction
import Recompose.Identity

namespace Recompose

theorem append_cons_inj {α : Type} {c : α} {p p' t t' : List α} (ht : c ∉ t) (ht' : c ∉ t')
    (h : p ++ c :: t = p' ++ c :: t') : p = p' ∧ t = t' := by
  obtain ⟨between, rfl, hc⟩ | ⟨between, rfl, hc⟩ := List.append_eq_append_iff.1 h
  · cases between with
    | nil => exact ⟨by simp, (List.cons.inj hc).2⟩
    | cons a between => exact absurd ((List.cons.inj hc).2 ▸ by simp) ht
  · cases between with
    | nil => exact ⟨by simp, (List.cons.inj hc).2.symm⟩
    | cons a between => exact absurd ((List.cons.inj hc).2 ▸ by simp) ht'

theorem not_mem_toString {c : Char} (hc : c.isDigit = false) (n : Nat) : c ∉ (toString n).toList := by
  intro hmem
  rw [Nat.toString_eq_ofList_toDigits, String.toList_ofList] at hmem
  have hdigit := Nat.isDigit_of_mem_toDigits (by decide) (by decide) hmem
  exact absurd hdigit (by simp [hc])

theorem eq_of_toString_eq {m n : Nat} (h : (toString m).toList = (toString n).toList) : m = n := by
  rw [Nat.toString_eq_ofList_toDigits, Nat.toString_eq_ofList_toDigits, String.toList_ofList,
    String.toList_ofList] at h
  simpa using congrArg (Nat.ofDigitChars 10 · 0) h

/-- How a closure is told from the others of the scope around it. -/
inductive Component where
  | nested (ordinal argument : Nat)
  | free (index : Nat)
deriving DecidableEq, Repr

namespace Component

def name (scope : String) : Component → String
  | nested ordinal argument => QualifiedName.nested scope ordinal argument
  | free index => QualifiedName.free scope index

def text : Component → List Char
  | nested ordinal argument => (toString ordinal).toList ++ ':' :: (toString argument).toList
  | free index => "memo-lambda#".toList ++ (toString index).toList

theorem text_nested (i j : Nat) :
    (nested i j).text = (toString i).toList ++ ':' :: (toString j).toList :=
  rfl

theorem text_free (k : Nat) : (free k).text = "memo-lambda#".toList ++ (toString k).toList :=
  rfl

theorem toList_name (scope : String) (c : Component) :
    (c.name scope).toList = scope.toList ++ '/' :: c.text := by
  cases c with
  | nested i j =>
    have hslash : "/".toList = ['/'] := by decide
    have hcolon : ":".toList = [':'] := by decide
    simp only [name, text_nested, QualifiedName.nested, String.toList_append, hslash, hcolon,
      List.append_assoc, List.cons_append, List.nil_append]
  | free k =>
    have hslash : "/memo-lambda#".toList = '/' :: "memo-lambda#".toList := by decide
    simp only [name, text_free, QualifiedName.free, String.toList_append, hslash, List.append_assoc,
      List.cons_append]

theorem slash_not_mem_text (c : Component) : '/' ∉ c.text := by
  have hdigits (n : Nat) : '/' ∉ (toString n).toList := not_mem_toString (by decide) n
  cases c with
  | nested i j =>
    exact List.not_mem_append (hdigits i) (List.not_mem_cons_of_ne_of_not_mem (by decide) (hdigits j))
  | free k => exact List.not_mem_append (by decide) (hdigits k)

theorem colon_not_mem_text (k : Nat) : ':' ∉ (free k).text :=
  List.not_mem_append (by decide) (not_mem_toString (by decide) k)

theorem count_colon_text_le (c : Component) : c.text.count ':' ≤ 1 := by
  have hdigits (n : Nat) : (toString n).toList.count ':' = 0 :=
    List.count_eq_zero.2 (not_mem_toString (by decide) n)
  cases c with
  | nested i j =>
    have hi := hdigits i
    have hj := hdigits j
    rw [text_nested, List.count_append, List.count_cons_self]
    omega
  | free k =>
    have hnone := List.count_eq_zero.2 (colon_not_mem_text k)
    omega

theorem text_injective {c c' : Component} (h : c.text = c'.text) : c = c' := by
  have hdigits (n : Nat) : ':' ∉ (toString n).toList := not_mem_toString (by decide) n
  have hnested (i j : Nat) : ':' ∈ (nested i j).text := List.mem_append_right _ List.mem_cons_self
  cases c with
  | nested i j =>
    cases c' with
    | nested i' j' =>
      obtain ⟨hi, hj⟩ := append_cons_inj (hdigits j) (hdigits j') h
      rw [eq_of_toString_eq hi, eq_of_toString_eq hj]
    | free k' => exact absurd (h ▸ hnested i j) (colon_not_mem_text k')
  | free k =>
    cases c' with
    | nested i' j' => exact absurd (h ▸ hnested i' j') (colon_not_mem_text k)
    | free k' => rw [eq_of_toString_eq (List.append_cancel_left h)]

theorem name_injective {scope scope' : String} {c c' : Component} (h : c.name scope = c'.name scope') :
    scope = scope' ∧ c = c' := by
  have hlist := congrArg String.toList h
  rw [toList_name, toList_name] at hlist
  obtain ⟨hscope, htext⟩ := append_cons_inj (slash_not_mem_text c) (slash_not_mem_text c') hlist
  exact ⟨String.toList_inj.1 hscope, text_injective htext⟩

end Component

namespace QualifiedName

/-- The name of a closure in closures, the outermost first, in the scope of a name. -/
def within (base : String) (path : List Component) : String :=
  path.foldl (fun scope c ↦ c.name scope) base

/-- A name that cannot be that of a closure. -/
def IsGiven (name : String) : Prop :=
  ∀ (scope : String) (c : Component), name ≠ c.name scope

theorem within_append (base : String) (path path' : List Component) :
    within base (path ++ path') = within (within base path) path' :=
  List.foldl_append

theorem within_concat (base : String) (path : List Component) (c : Component) :
    within base (path ++ [c]) = c.name (within base path) :=
  within_append base path [c]

theorem within_injective {base base' : String} {path path' : List Component} (hbase : IsGiven base)
    (hbase' : IsGiven base') (h : within base path = within base' path') :
    base = base' ∧ path = path' := by
  induction path using List.reverseRecOn generalizing path' with
  | nil =>
    obtain rfl | ⟨front, c, rfl⟩ := List.eq_nil_or_concat' path'
    · exact ⟨h, rfl⟩
    · exact absurd (h.trans (within_concat base' front c)) (hbase _ _)
  | append_singleton front c ih =>
    obtain rfl | ⟨front', c', rfl⟩ := List.eq_nil_or_concat' path'
    · exact absurd (h.symm.trans (within_concat base front c)) (hbase' _ _)
    · rw [within_concat, within_concat] at h
      obtain ⟨hfront, rfl⟩ := Component.name_injective h
      obtain ⟨rfl, rfl⟩ := ih hfront
      exact ⟨rfl, rfl⟩

theorem toList_within (base : String) (path : List Component) :
    (within base path).toList = base.toList ++ path.flatMap fun c ↦ '/' :: c.text := by
  induction path using List.reverseRecOn with
  | nil => simp [within]
  | append_singleton front c ih =>
    rw [within_concat, Component.toList_name, ih, List.flatMap_append, List.flatMap_singleton,
      List.append_assoc]

theorem within_left_injective {base : String} {path path' : List Component}
    (h : within base path = within base path') : path = path' := by
  have hadded : path.flatMap (fun c ↦ '/' :: c.text) = path'.flatMap fun c ↦ '/' :: c.text := by
    have hlist := congrArg String.toList h
    rw [toList_within, toList_within] at hlist
    exact List.append_cancel_left hlist
  clear h
  induction path using List.reverseRecOn generalizing path' with
  | nil =>
    obtain rfl | ⟨front', c', rfl⟩ := List.eq_nil_or_concat' path'
    · rfl
    · simp at hadded
  | append_singleton front c ih =>
    obtain rfl | ⟨front', c', rfl⟩ := List.eq_nil_or_concat' path'
    · simp at hadded
    · rw [List.flatMap_append, List.flatMap_append, List.flatMap_singleton, List.flatMap_singleton]
        at hadded
      obtain ⟨hfront, htext⟩ :=
        append_cons_inj c.slash_not_mem_text c'.slash_not_mem_text hadded
      rw [ih hfront, Component.text_injective htext]

theorem isGiven_declaration (file : String) {owner : Option String} {name : String}
    (howner : ∀ o ∈ owner, '/' ∉ o.toList) (hname : '/' ∉ name.toList) :
    IsGiven (declaration file owner name) := by
  have hcolons : "::".toList = [':', ':'] := by decide
  have hdot : ".".toList = ['.'] := by decide
  obtain ⟨rest, hrest, heq⟩ : ∃ rest : List Char, '/' ∉ rest ∧
      (declaration file owner name).toList = file.toList ++ ':' :: ':' :: rest := by
    cases owner with
    | none => exact ⟨_, hname, by simp only [declaration, String.toList_append, hcolons,
        List.append_assoc, List.cons_append, List.nil_append]⟩
    | some o => exact ⟨o.toList ++ '.' :: name.toList,
        List.not_mem_append (howner o rfl) (List.not_mem_cons_of_ne_of_not_mem (by decide) hname),
        by simp only [declaration, String.toList_append, hcolons, hdot, List.append_assoc,
          List.cons_append, List.nil_append]⟩
  intro scope c h
  have hlist := heq.symm.trans ((congrArg String.toList h).trans (c.toList_name scope))
  obtain ⟨between, -, hc⟩ | ⟨between, -, hc⟩ := List.append_eq_append_iff.1 hlist
  · -- the slash would stand behind the colons
    have hmem : '/' ∈ ':' :: ':' :: rest := hc ▸ by simp
    simp [hrest] at hmem
  · -- the colons stand behind the slash
    cases between with
    | nil => simp at hc
    | cons a between =>
      have htext : c.text = between ++ ':' :: ':' :: rest := (List.cons.inj hc).2
      have hcount := c.count_colon_text_le
      rw [htext, List.count_append, List.count_cons_self, List.count_cons_self] at hcount
      omega

end QualifiedName

namespace Identity

theorem path_injective {name name' component component' : String} (h : '#' ∉ component.toList)
    (h' : '#' ∉ component'.toList) (heq : path name component = path name' component') :
    name = name' ∧ component = component' := by
  have hsharp : "#".toList = ['#'] := by decide
  have hlist (name component : String) :
      (path name component).toList = name.toList ++ '#' :: component.toList := by
    simp only [path, String.toList_append, hsharp, List.append_assoc, List.cons_append,
      List.nil_append]
  have hpath := congrArg String.toList heq
  rw [hlist, hlist] at hpath
  obtain ⟨hname, hcomponent⟩ := append_cons_inj h h' hpath
  exact ⟨String.toList_inj.1 hname, String.toList_inj.1 hcomponent⟩

inductive Part where
  | call (ordinal : Nat)
  | scope
deriving DecidableEq, Repr

namespace Part

def component : Part → String
  | call ordinal => toString ordinal
  | scope => ownComponent

theorem sharp_not_mem_component (part : Part) : '#' ∉ part.component.toList := by
  cases part with
  | call ordinal => exact not_mem_toString (by decide) ordinal
  | scope => decide

theorem component_injective {part part' : Part} (h : part.component = part'.component) :
    part = part' := by
  have hscope (ordinal : Nat) : toString ordinal ≠ ownComponent := by
    intro heq
    have hmem : 's' ∈ (toString ordinal).toList := by
      rw [heq]
      decide
    exact not_mem_toString (by decide) ordinal hmem
  cases part with
  | call ordinal =>
    cases part' with
    | call ordinal' => rw [eq_of_toString_eq (congrArg String.toList h)]
    | scope => exact absurd h (hscope ordinal)
  | scope =>
    cases part' with
    | call ordinal' => exact absurd h.symm (hscope ordinal')
    | scope => rfl

end Part

def offset (i : Identity) (name : String) : Part → UInt64
  | .call ordinal => i.callSite name ordinal
  | .scope => i.ownScope name

theorem offset_eq (i : Identity) (name : String) (part : Part) :
    i.offset name part = digest (path name part.component) &&& i.mask := by
  cases part <;> rfl

/-- Different parts are hashed from different bytes, and closures at different places have different
names. -/
theorem offset_inputs_apart :
    (∀ (i : Identity) (name : String) (part : Part),
      i.offset name part = digest (path name part.component) &&& i.mask) ∧
    (∀ (name name' : String) (part part' : Part),
      (path name part.component).toUTF8 = (path name' part'.component).toUTF8 ↔
        name = name' ∧ part = part') ∧
    ∀ (root : String) (steps steps' : List Component),
      QualifiedName.within root steps = QualifiedName.within root steps' ↔ steps = steps' := by
  refine ⟨offset_eq, fun name name' part part' ↦ ⟨fun h ↦ ?_, ?_⟩, fun root steps steps' ↦
    ⟨QualifiedName.within_left_injective, fun h ↦ h ▸ rfl⟩⟩
  · obtain ⟨hname, hcomponent⟩ := path_injective part.sharp_not_mem_component
      part'.sharp_not_mem_component (String.toByteArray_inj.1 h)
    exact ⟨hname, Part.component_injective hcomponent⟩
  · rintro ⟨rfl, rfl⟩
    rfl

end Identity

end Recompose
