import Mathlib.Data.List.Induction
import Recompose.Diagnostic
import Recompose.Proofs.Reading.Token

namespace Recompose.Position

open Script Text

/-- Earlier in the text: on an earlier line, or further to the left on the same line. -/
def Before (p q : Position) : Prop :=
  p.line < q.line ∨ p.line = q.line ∧ p.column < q.column

instance (p q : Position) : Decidable (p.Before q) :=
  inferInstanceAs (Decidable (_ ∨ _))

theorem Before.trans {p q r : Position} (h : p.Before q) (h' : q.Before r) : p.Before r := by
  unfold Before at *
  omega

def dropLines? : Nat → List Char → Option (List Char)
  | 0, cs => some cs
  | _ + 1, [] => none
  | n + 1, c :: cs => if c = '\n' then dropLines? n cs else dropLines? (n + 1) cs

/-- What follows the first `n` characters of a line; `none` if the line has fewer. -/
def dropColumns? : Nat → List Char → Option (List Char)
  | 0, cs => some cs
  | _ + 1, [] => none
  | n + 1, c :: cs => if c = '\n' then none else dropColumns? n cs

def seek? (p : Position) (text : List Char) : Option (List Char) :=
  (dropLines? (p.line - 1) text).bind (dropColumns? (p.column - 1))

def offset? (source : String) (p : Position) : Option Nat :=
  (p.seek? source.toList).map fun rest ↦ byteWidth source.toList - byteWidth rest

theorem before_advance (p : Position) (c : Char) : p.Before (p.advance c) := by
  unfold advance Before
  split <;> simp

theorem before_foldl_advance (p : Position) {cs : List Char} (h : cs ≠ []) :
    p.Before (cs.foldl advance p) := by
  induction cs generalizing p with
  | nil => exact absurd rfl h
  | cons c cs ih =>
    have hc := before_advance p c
    cases cs with
    | nil => exact hc
    | cons d ds => exact hc.trans (ih _ (by simp))

theorem after_append (cs ds : List Char) : after (cs ++ ds) = ds.foldl advance (after cs) := by
  unfold after
  rw [List.foldl_append]

theorem after_concat (cs : List Char) (c : Char) : after (cs ++ [c]) = (after cs).advance c :=
  after_append cs [c]

theorem one_le_after (cs : List Char) : 1 ≤ (after cs).line ∧ 1 ≤ (after cs).column := by
  induction cs using List.reverseRecOn with
  | nil => exact ⟨Nat.le_refl 1, Nat.le_refl 1⟩
  | append_singleton cs c ih =>
    rw [after_concat, advance]
    split
    · exact ⟨by simp, Nat.le_refl 1⟩
    · exact ⟨ih.1, by simp⟩

variable {n : Nat} {c : Char} {text mid rest : List Char}

theorem dropLines?_succ (h : dropLines? n text = some mid) :
    dropLines? (n + 1) text = dropLines? 1 mid := by
  fun_induction dropLines? n text with
  | case1 text => rw [Option.some.inj h]
  | case2 => cases h
  | case3 n text ih => rw [dropLines?, if_pos rfl, ih h]
  | case4 n c text hc ih => rw [dropLines?, if_neg hc, ih h]

theorem dropLines?_one (h : dropColumns? n mid = some ('\n' :: rest)) :
    dropLines? 1 mid = some rest := by
  fun_induction dropColumns? n mid with
  | case1 mid =>
    rw [Option.some.inj h, dropLines?, if_pos rfl, dropLines?]
  | case2 => cases h
  | case3 => cases h
  | case4 n c mid hc ih => rw [dropLines?, if_neg hc, ih h]

theorem dropColumns?_succ (h : dropColumns? n mid = some (c :: rest)) (hc : c ≠ '\n') :
    dropColumns? (n + 1) mid = some rest := by
  fun_induction dropColumns? n mid with
  | case1 mid => rw [Option.some.inj h, dropColumns?, if_neg hc, dropColumns?]
  | case2 => cases h
  | case3 => cases h
  | case4 n d mid hd ih => rw [dropColumns?, if_neg hd, ih h]

theorem seek?_after (cs rest : List Char) : (after cs).seek? (cs ++ rest) = some rest := by
  induction cs using List.reverseRecOn generalizing rest with
  | nil => simp [after, seek?, dropLines?, dropColumns?]
  | append_singleton cs c ih =>
    obtain ⟨mid, hlines, hcolumns⟩ := Option.bind_eq_some_iff.1 (ih (c :: rest))
    obtain ⟨hline, hcolumn⟩ := one_le_after cs
    have hline : (after cs).line - 1 + 1 = (after cs).line := Nat.sub_add_cancel hline
    have hcolumn : (after cs).column - 1 + 1 = (after cs).column := Nat.sub_add_cancel hcolumn
    rw [after_concat, List.append_assoc, List.singleton_append]
    by_cases hc : c = '\n'
    · subst hc
      have hnext := dropLines?_succ hlines
      rw [hline, dropLines?_one hcolumns] at hnext
      simp [seek?, advance, hnext, dropColumns?]
    · have hnext := dropColumns?_succ hcolumns hc
      rw [hcolumn] at hnext
      simp [seek?, advance, hc, hlines, hnext]

theorem takeBytes?_append (cs ds : List Char) : takeBytes? (byteWidth cs) (cs ++ ds) = some cs := by
  induction cs with
  | nil => simp [byteWidth, takeBytes?]
  | cons c cs ih =>
    obtain ⟨width, hwidth⟩ := Nat.exists_eq_add_one.2 (byteWidth_pos (List.cons_ne_nil c cs))
    have hrest : width + 1 - c.utf8Size = byteWidth cs := by
      rw [← hwidth, byteWidth]
      omega
    have hle : c.utf8Size ≤ width + 1 := by
      rw [← hwidth, byteWidth]
      omega
    rw [hwidth, List.cons_append, takeBytes?, if_pos hle, hrest, ih]
    rfl

theorem le_byteWidth_of_takeBytes? {cs taken : List Char} (h : takeBytes? n cs = some taken) :
    n ≤ byteWidth cs := by
  fun_induction takeBytes? n cs generalizing taken with
  | case1 => exact Nat.zero_le _
  | case2 => cases h
  | case3 n c cs hc ih =>
    obtain ⟨taken', htaken, -⟩ := Option.map_eq_some_iff.1 h
    have hle := ih htaken
    rw [byteWidth]
    omega
  | case4 => cases h

theorem byteWidth_toList (s : String) : byteWidth s.toList = s.utf8ByteSize := by
  have hlist (cs : List Char) : byteWidth cs = (String.ofList cs).utf8ByteSize := by
    induction cs with
    | nil => rfl
    | cons c cs ih =>
      rw [byteWidth, ih, ← List.singleton_append, String.ofList_append, String.utf8ByteSize_append]
      simp
  rw [hlist, String.ofList_toList]

/-- An offset at which a character starts or the text ends cuts the text in two. -/
theorem exists_cut {source : String} {offset : Nat} (h : String.Pos.Raw.IsValid source ⟨offset⟩) :
    ∃ cs ds, source.toList = cs ++ ds ∧ byteWidth cs = offset := by
  obtain ⟨s, s', rfl, heq⟩ := String.Pos.Raw.isValid_iff_exists_append.1 h
  refine ⟨s.toList, s'.toList, String.toList_append, ?_⟩
  rw [byteWidth_toList]
  exact (congrArg String.Pos.Raw.byteIdx heq).symm

theorem ofOffset_of_cut {source : String} {cs ds : List Char} (h : source.toList = cs ++ ds) :
    ofOffset source (byteWidth cs) = after cs := by
  rw [ofOffset, h, takeBytes?_append, Option.getD_some]

theorem ofOffset_before {source : String} {o o' : Nat} (h : String.Pos.Raw.IsValid source ⟨o⟩)
    (h' : String.Pos.Raw.IsValid source ⟨o'⟩) (hlt : o < o') :
    (ofOffset source o).Before (ofOffset source o') := by
  obtain ⟨cs, ds, hcut, rfl⟩ := exists_cut h
  obtain ⟨cs', ds', hcut', rfl⟩ := exists_cut h'
  rw [ofOffset_of_cut hcut, ofOffset_of_cut hcut']
  obtain ⟨more, hmore, -⟩ | ⟨more, hmore, -⟩ := List.append_eq_append_iff.1 (hcut.symm.trans hcut')
  · have hne : more ≠ [] := by
      rintro rfl
      rw [hmore, List.append_nil] at hlt
      exact absurd hlt (Nat.lt_irrefl _)
    rw [hmore, after_append]
    exact before_foldl_advance _ hne
  · rw [hmore, byteWidth_append] at hlt
    omega

theorem offset?_ofOffset {source : String} {o : Nat} (h : String.Pos.Raw.IsValid source ⟨o⟩) :
    offset? source (ofOffset source o) = some o := by
  obtain ⟨cs, ds, hcut, rfl⟩ := exists_cut h
  rw [ofOffset_of_cut hcut, offset?, hcut, seek?_after, Option.map_some, byteWidth_append,
    Nat.add_sub_cancel]

theorem ofOffset_of_lt {source : String} {o : Nat} (h : source.utf8ByteSize < o) :
    ofOffset source o = ofOffset source source.utf8ByteSize := by
  have hend : ofOffset source source.utf8ByteSize = after source.toList := by
    rw [← byteWidth_toList]
    exact ofOffset_of_cut (List.append_nil _).symm
  have hnone : takeBytes? o source.toList = none := by
    cases htaken : takeBytes? o source.toList with
    | none => rfl
    | some taken =>
      have hle := le_byteWidth_of_takeBytes? htaken
      rw [byteWidth_toList] at hle
      omega
  rw [hend, ofOffset, hnone, Option.getD_none]

/-- Positions follow the order of the offsets in a text and lead back to them. What lies past the end
of the text has the position of the end. -/
theorem ofOffset_faithful (source : String) :
    (∀ o o', String.Pos.Raw.IsValid source ⟨o⟩ → String.Pos.Raw.IsValid source ⟨o'⟩ → o < o' →
        (ofOffset source o).Before (ofOffset source o')) ∧
      (∀ o, String.Pos.Raw.IsValid source ⟨o⟩ → offset? source (ofOffset source o) = some o) ∧
      ∀ o, source.utf8ByteSize < o →
        ofOffset source o = ofOffset source source.utf8ByteSize :=
  ⟨fun _ _ ↦ ofOffset_before, fun _ ↦ offset?_ofOffset, fun _ ↦ ofOffset_of_lt⟩

/-- Two lines, the first of which holds a character of two bytes. -/
def accentedLines : String :=
  "a\u00e9\nb\n"

theorem ofOffset_faithful_accentedLines :
    String.Pos.Raw.IsValid accentedLines ⟨3⟩ ∧ String.Pos.Raw.IsValid accentedLines ⟨4⟩ ∧
      ofOffset accentedLines 3 = ⟨1, 3⟩ ∧ ofOffset accentedLines 4 = ⟨2, 1⟩ ∧
      (ofOffset accentedLines 3).Before (ofOffset accentedLines 4) ∧
      offset? accentedLines ⟨1, 3⟩ = some 3 ∧ ofOffset accentedLines 9 = ⟨3, 1⟩ := by
  have hvalid : String.Pos.Raw.IsValid accentedLines ⟨3⟩ :=
    String.Pos.Raw.isValid_iff_exists_append.2 ⟨"a\u00e9", "\nb\n", by decide, by decide⟩
  have hvalid' : String.Pos.Raw.IsValid accentedLines ⟨4⟩ :=
    String.Pos.Raw.isValid_iff_exists_append.2 ⟨"a\u00e9\n", "b\n", by decide, by decide⟩
  obtain ⟨hbefore, hoffset, hend⟩ := ofOffset_faithful accentedLines
  refine ⟨hvalid, hvalid', by decide, by decide, hbefore 3 4 hvalid hvalid' (by decide),
    hoffset 3 hvalid, ?_⟩
  rw [hend 9 (by decide)]
  decide

end Recompose.Position
