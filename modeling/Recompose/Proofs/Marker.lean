import Mathlib
import Recompose.Marker

namespace Recompose.Markers

open Text

inductive Kind where
  | memo | skip | intrinsic | entry
deriving DecidableEq, Repr

def Kind.name : Kind → String
  | memo => "memo"
  | skip => "memo_skip"
  | intrinsic => "memo_intrinsic"
  | entry => "memo_entry"

def has (m : Markers) : Kind → Bool
  | .memo => m.memo
  | .skip => m.skip
  | .intrinsic => m.intrinsic
  | .entry => m.entry

@[simp]
theorem has_empty (k : Kind) : ({} : Markers).has k = false := by
  cases k <;> rfl

@[simp]
theorem has_merge (m n : Markers) (k : Kind) : (m.merge n).has k = (m.has k || n.has k) := by
  cases k <;> rfl

def EndsWord (after : List Char) : Prop :=
  ∀ c ∈ after.head?, isWordChar c = false

/-- The name of the marker stands right behind an `@`, whatever the case of its letters, and the word
ends there. -/
def Mentions (text : List Char) (k : Kind) : Prop :=
  ∃ before word after, text = before ++ '@' :: (word ++ after) ∧ word.map Char.toLower = k.name.toList ∧
    EndsWord after

theorem takeWhile_append_of_endsWord {word after : List Char} (hword : ∀ c ∈ word, isWordChar c)
    (hafter : EndsWord after) : (word ++ after).takeWhile isWordChar = word := by
  rw [List.takeWhile_append_of_pos hword]
  cases after with
  | nil => simp
  | cons c cs => simp [hafter c rfl]

theorem endsWord_drop_takeWhile (text : List Char) :
    EndsWord (text.drop (text.takeWhile isWordChar).length) := by
  intro c hc
  induction text with
  | nil => simp at hc
  | cons d ds ih =>
    by_cases hd : isWordChar d
    · rw [List.takeWhile_cons_of_pos hd] at hc
      exact ih hc
    · rw [List.takeWhile_cons_of_neg hd] at hc
      obtain rfl : d = c := by simpa using hc
      simpa using hd

def isNameLetter (c : Char) : Bool :=
  c.isLower || c == '_'

theorem isNameLetter_of_mem {name : String} (hname : name ∈ names) {c : Char} (hc : c ∈ name.toList) :
    isNameLetter c := by
  have hall : ∀ name ∈ names, name.toList.all isNameLetter := by decide
  exact List.all_eq_true.1 (hall name hname) c hc

theorem name_mem_names (k : Kind) : k.name ∈ names := by
  cases k <;> decide

theorem isWordChar_of_isAlphanum {c : Char} (h : c.isAlphanum || c == '_') : isWordChar c := by
  have hsmall : c.toNat < 128 := by
    simp only [Char.isAlphanum, Char.isAlpha, Char.isUpper, Char.isLower, Char.isDigit, Bool.or_eq_true,
      Bool.and_eq_true, decide_eq_true_eq, beq_iff_eq, ge_iff_le, UInt32.le_iff_toNat_le] at h
    rcases h with ((h | h) | h) | rfl
    · exact Nat.lt_of_le_of_lt h.2 (by decide)
    · exact Nat.lt_of_le_of_lt h.2 (by decide)
    · exact Nat.lt_of_le_of_lt h.2 (by decide)
    · decide
  rw [isWordChar, if_pos hsmall]
  exact h

theorem isWordChar_of_toLower {c : Char} (h : isNameLetter c.toLower) : isWordChar c := by
  apply isWordChar_of_isAlphanum
  rw [Char.toLower] at h
  split at h
  · next hupper =>
    have hc : c.isUpper := by simpa [Char.isUpper] using hupper
    simp [Char.isAlphanum, Char.isAlpha, hc]
  · rw [isNameLetter, Bool.or_eq_true] at h
    rcases h with h | h
    · simp [Char.isAlphanum, Char.isAlpha, h]
    · simp [h]

theorem isWordChar_of_folded {c : Char} (h : isNameLetter (folded c)) : isWordChar c := by
  rw [folded] at h
  split at h
  · next hc => subst hc; decide +kernel
  · split at h
    · next hc => subst hc; decide +kernel
    · exact isWordChar_of_toLower h

theorem folded_eq_toLower {c : Char} (h : isNameLetter c.toLower) : folded c = c.toLower := by
  have hlong : c ≠ '\u017f' := by
    rintro rfl
    exact absurd h (by decide)
  have hkelvin : c ≠ '\u212a' := by
    rintro rfl
    exact absurd h (by decide)
  rw [folded, if_neg hlong, if_neg hkelvin]

section Find

variable {name : String} {text front : List Char}

theorem forall_isWordChar_of_folded (hname : name ∈ names) (h : front.map folded = name.toList) :
    ∀ c ∈ front, isWordChar c := fun _ hc ↦
  isWordChar_of_folded (isNameLetter_of_mem hname (h ▸ List.mem_map_of_mem hc))

theorem any_getLast?_of_folded (hname : name ∈ names) (h : front.map folded = name.toList) :
    front.getLast?.any isWordChar := by
  have hall : ∀ name ∈ names, name.toList ≠ [] := by decide
  have hne : front ≠ [] := by
    rintro rfl
    exact hall name hname h.symm
  rw [List.getLast?_eq_some_getLast hne]
  exact forall_isWordChar_of_folded hname h _ (List.getLast_mem hne)

theorem isBoundary_iff {after : List Char} (h : front.getLast?.any isWordChar) :
    isBoundary front after ↔ EndsWord after := by
  rw [isBoundary, h, EndsWord]
  cases after with
  | nil => simp
  | cons c cs => simp

/-- A name is found exactly if it is the whole word that the text starts with. -/
theorem front?_eq_some_iff (hname : name ∈ names) :
    front? name text = some front ↔
      front = text.takeWhile isWordChar ∧ front.map folded = name.toList := by
  rw [front?, Option.ite_none_right_eq_some, Option.some.injEq]
  constructor
  · rintro ⟨⟨hfolded, hboundary⟩, rfl⟩
    have hends := (isBoundary_iff (any_getLast?_of_folded hname hfolded)).1 hboundary
    have hwhole := takeWhile_append_of_endsWord (forall_isWordChar_of_folded hname hfolded) hends
    rw [List.take_append_drop] at hwhole
    exact ⟨hwhole.symm, hfolded⟩
  · rintro ⟨rfl, hfolded⟩
    have hlength : (text.takeWhile isWordChar).length = name.length := by
      rw [← List.length_map folded, hfolded, String.length_toList]
    have htake : text.take name.length = text.takeWhile isWordChar := by
      rw [← hlength]
      exact (List.prefix_iff_eq_take.1 (List.takeWhile_prefix isWordChar)).symm
    rw [htake, isBoundary_iff (any_getLast?_of_folded hname hfolded), ← hlength]
    exact ⟨⟨hfolded, endsWord_drop_takeWhile text⟩, rfl⟩

theorem findSome?_front?_eq_some_iff :
    names.findSome? (front? · text) = some front ↔
      front = text.takeWhile isWordChar ∧ String.ofList (front.map folded) ∈ names := by
  constructor
  · intro h
    obtain ⟨name, hname, hfront⟩ := List.exists_of_findSome?_eq_some h
    obtain ⟨hwhole, hfolded⟩ := (front?_eq_some_iff hname).1 hfront
    rw [hfolded, String.ofList_toList]
    exact ⟨hwhole, hname⟩
  · rintro ⟨hwhole, hname⟩
    have hsome : (names.findSome? (front? · text)).isSome := by
      have hfront := (front?_eq_some_iff hname).2 ⟨hwhole, by simp⟩
      exact List.findSome?_isSome_iff.2 ⟨_, hname, by simp [hfront]⟩
    obtain ⟨found, hfound⟩ := Option.isSome_iff_exists.1 hsome
    obtain ⟨other, hother, hfront⟩ := List.exists_of_findSome?_eq_some hfound
    rw [hfound, ((front?_eq_some_iff hother).1 hfront).1, hwhole]

end Find

theorem has_ofWord?_iff (word : List Char) (k : Kind) :
    ((ofWord? word).getD {}).has k ↔ word.map Char.toLower = k.name.toList := by
  rw [← String.ofList_inj, String.ofList_toList, ofWord?]
  split
  all_goals
    next h => cases k <;> simp_all [has, Kind.name]

def Opens (text : List Char) (k : Kind) : Prop :=
  (text.takeWhile isWordChar).map Char.toLower = k.name.toList

theorem opens_iff {text : List Char} {k : Kind} :
    Opens text k ↔ ∃ word after, text = word ++ after ∧ word.map Char.toLower = k.name.toList ∧
      EndsWord after := by
  constructor
  · intro h
    have hsplit : text.takeWhile isWordChar ++ text.drop (text.takeWhile isWordChar).length = text :=
      List.prefix_iff_eq_append.1 (List.takeWhile_prefix isWordChar)
    exact ⟨_, _, hsplit.symm, h, endsWord_drop_takeWhile text⟩
  · rintro ⟨word, after, rfl, hword, hafter⟩
    have hall : ∀ c ∈ word, isWordChar c := fun c hc ↦
      isWordChar_of_toLower (isNameLetter_of_mem (name_mem_names k) (hword ▸ List.mem_map_of_mem hc))
    rw [Opens, takeWhile_append_of_endsWord hall hafter]
    exact hword

theorem has_find_iff (text : List Char) (k : Kind) :
    (((names.findSome? (front? · text)).bind ofWord?).getD {}).has k ↔ Opens text k := by
  constructor
  · intro h
    cases hfind : names.findSome? (front? · text) with
    | none => simp [hfind] at h
    | some word =>
      rw [hfind, Option.bind_some, has_ofWord?_iff] at h
      rw [Opens, ← (findSome?_front?_eq_some_iff.1 hfind).1]
      exact h
  · intro h
    have hfolded : (text.takeWhile isWordChar).map folded = k.name.toList := by
      rw [← h]
      refine List.map_congr_left fun c hc ↦ folded_eq_toLower ?_
      exact isNameLetter_of_mem (name_mem_names k) (h ▸ List.mem_map_of_mem hc)
    have hname : String.ofList ((text.takeWhile isWordChar).map folded) ∈ names := by
      rw [hfolded, String.ofList_toList]
      exact name_mem_names k
    rw [findSome?_front?_eq_some_iff.2 ⟨rfl, hname⟩, Option.bind_some, has_ofWord?_iff]
    exact h

theorem mentions_nil (k : Kind) : ¬ Mentions [] k := by
  rintro ⟨before, word, after, h, -⟩
  simp at h

theorem mentions_cons {c : Char} {cs : List Char} {k : Kind} :
    Mentions (c :: cs) k ↔ c = '@' ∧ Opens cs k ∨ Mentions cs k := by
  constructor
  · rintro ⟨before, word, after, htext, hword, hafter⟩
    cases before with
    | nil =>
      obtain ⟨rfl, rfl⟩ := List.cons.inj htext
      exact .inl ⟨rfl, opens_iff.2 ⟨word, after, rfl, hword, hafter⟩⟩
    | cons b before => exact .inr ⟨before, word, after, (List.cons.inj htext).2, hword, hafter⟩
  · rintro (⟨rfl, h⟩ | ⟨before, word, after, rfl, hword, hafter⟩)
    · obtain ⟨word, after, rfl, hword, hafter⟩ := opens_iff.1 h
      exact ⟨[], word, after, rfl, hword, hafter⟩
    · exact ⟨c :: before, word, after, rfl, hword, hafter⟩

theorem mentions_cons_of_ne {c : Char} {cs : List Char} {k : Kind} (h : c ≠ '@') :
    Mentions (c :: cs) k ↔ Mentions cs k := by
  simp [mentions_cons, h]

theorem at_not_mem_takeWhile (text : List Char) : '@' ∉ text.takeWhile isWordChar := fun h ↦
  absurd (List.mem_takeWhile_imp h) (by decide)

/-- What the scan has covered holds no `@`, so that no find hides another. -/
theorem has_scan_iff (text : List Char) (k : Kind) (covered : Nat) (h : '@' ∉ text.take covered) :
    (scan covered text).has k ↔ Mentions text k := by
  induction text generalizing covered with
  | nil => simp [scan, mentions_nil]
  | cons c cs ih =>
    cases covered with
    | succ covered =>
      rw [List.take_succ_cons, List.mem_cons, not_or] at h
      rw [scan, ih covered h.2, mentions_cons_of_ne (Ne.symm h.1)]
    | zero =>
      have hnone : (scan 0 cs).has k ↔ Mentions cs k := ih 0 (by simp)
      by_cases hc : c = '@'
      · subst hc
        have hfound := has_find_iff cs k
        rw [scan, if_pos rfl, mentions_cons, ← hfound]
        cases hfind : names.findSome? (front? · cs) with
        | none => simpa using hnone
        | some word =>
          have hword := (findSome?_front?_eq_some_iff.1 hfind).1
          have hcover : '@' ∉ cs.take word.length := by
            rw [hword, ← List.prefix_iff_eq_take.1 (List.takeWhile_prefix isWordChar)]
            exact at_not_mem_takeWhile cs
          simp [ih word.length hcover]
      · rw [scan, if_neg hc, mentions_cons_of_ne hc]
        exact hnone

theorem ofText_has_iff (text : List Char) (k : Kind) :
    ((ofText text).has k ↔ Mentions text k) ∧
      ((ofText text).has k ↔ ∃ before behind, text = before ++ '@' :: behind ∧ Opens behind k) := by
  have hmentions : (ofText text).has k ↔ Mentions text k := has_scan_iff text k 0 (by simp)
  refine ⟨hmentions, hmentions.trans ⟨?_, ?_⟩⟩
  · rintro ⟨before, word, after, rfl, hword, hafter⟩
    exact ⟨before, word ++ after, rfl, opens_iff.2 ⟨word, after, rfl, hword, hafter⟩⟩
  · rintro ⟨before, behind, rfl, h⟩
    obtain ⟨word, after, rfl, hword, hafter⟩ := opens_iff.1 h
    exact ⟨before, word, after, rfl, hword, hafter⟩

end Recompose.Markers
