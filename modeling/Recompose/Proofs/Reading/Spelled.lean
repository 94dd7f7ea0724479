import Recompose.Proofs.Reading.Expression

namespace Recompose.Script

open Text

namespace Scan

theorem nameParts_all {fuel : Nat} {cs name rest : List Char} {escaped : Bool}
    (h : nameParts? fuel cs = some (name, escaped, rest)) : name.all isNamePart := by
  induction fuel generalizing cs name escaped rest with
  | zero => simp [nameParts?] at h
  | succ fuel ih =>
    have hplain : (cs.span isNamePart).1.all isNamePart := by
      rw [List.span_eq_takeWhile_dropWhile]
      exact List.all_takeWhile
    unfold nameParts? at h
    dsimp only at h
    split at h
    · obtain ⟨⟨c, more⟩, -, h⟩ := Option.bind_eq_some_iff.1 h
      dsimp only at h
      split at h
      · next hpart =>
        obtain ⟨⟨tail, _, _⟩, htail, h⟩ := Option.bind_eq_some_iff.1 h
        simp only [Option.some.injEq, Prod.mk.injEq] at h
        obtain ⟨rfl, -, -⟩ := h
        rw [List.all_append, List.all_cons, hplain, hpart, ih htail]
        rfl
      · simp at h
    · simp at h
    · simp only [Option.some.injEq, Prod.mk.injEq] at h
      obtain ⟨rfl, -, -⟩ := h
      exact hplain

theorem isNameText_of_name? {fuel : Nat} {cs name rest : List Char} {escaped : Bool}
    (h : name? fuel cs = some (name, escaped, rest)) : isNameText name := by
  obtain ⟨⟨found, _, _⟩, hparts, h⟩ := Option.bind_eq_some_iff.1 h
  dsimp only at h
  split at h
  · next c tail =>
    split at h
    · next hstart =>
      obtain ⟨rfl, -, -⟩ := by simpa using h
      have hall := nameParts_all hparts
      simp_all [isNameText]
    · simp at h
  · simp at h

theorem kind_of_based? {lead cs raw rest : List Char} {isDigit : Char → Bool} {kind : TokenKind}
    (h : based? lead isDigit cs = some (kind, raw, rest)) : kind ≠ .name := by
  obtain ⟨⟨ds, more⟩, -, h⟩ := Option.bind_eq_some_iff.1 h
  dsimp only at h
  split at h
  all_goals
    split at h
    · obtain ⟨rfl, -, -⟩ := Prod.mk.inj (Option.some.inj h)
      simp
    · simp at h

theorem kind_of_decimal? {cs raw rest : List Char} {kind : TokenKind}
    (h : decimal? cs = some (kind, raw, rest)) : kind ≠ .name := by
  unfold decimal? at h
  dsimp only at h
  split at h
  all_goals
    obtain ⟨⟨whole, more⟩, -, h⟩ := Option.bind_eq_some_iff.1 h
    dsimp only [bind] at h
    repeat' split at h
    all_goals grind [Option.bind_eq_some_iff]

theorem kind_of_number? {cs raw rest : List Char} {kind : TokenKind}
    (h : number? cs = some (kind, raw, rest)) : kind ≠ .name := by
  unfold number? at h
  split at h
  iterate 6 exact kind_of_based? h
  exact kind_of_decimal? h

theorem isNameText_of_found? {fuel : Nat} {cs : List Char} {f : Found} (h : found? fuel cs = some f)
    (hkind : f.kind = .name) : isNameText f.text.toList := by
  unfold found? at h
  split at h
  · obtain rfl := Option.some.inj h
    simp at hkind
  split at h
  · obtain ⟨⟨name, escaped, rest⟩, hname, h⟩ := Option.bind_eq_some_iff.1 h
    obtain rfl := Option.some.inj h
    simpa using isNameText_of_name? hname
  split at h
  · obtain ⟨⟨kind, raw, rest⟩, hnumber, h⟩ := Option.bind_eq_some_iff.1 h
    obtain rfl := Option.some.inj h
    exact absurd hkind (kind_of_number? hnumber)
  split at h
  · obtain ⟨_, -, h⟩ := Option.bind_eq_some_iff.1 h
    obtain rfl := Option.some.inj h
    simp at hkind
  split at h
  · obtain ⟨_, -, h⟩ := Option.bind_eq_some_iff.1 h
    obtain rfl := Option.some.inj h
    simp at hkind
  split at h
  · obtain ⟨_, -, h⟩ := Option.bind_eq_some_iff.1 h
    obtain rfl := Option.some.inj h
    simp at hkind
  · obtain ⟨_, -, h⟩ := Option.bind_eq_some_iff.1 h
    obtain rfl := Option.some.inj h
    simp at hkind

end Scan

def Token.IsSpelled (t : Token) : Prop :=
  t.kind = .name → isNameText t.text.toList

def Scan.Found.IsSpelled (f : Scan.Found) : Prop :=
  f.kind = .name → isNameText f.text.toList

theorem Token.isIdentifierText_of_isIdentifier {t : Token} (h : t.IsSpelled) (ht : t.isIdentifier) :
    isIdentifierText t.text := by
  obtain ⟨hkind, hreserved⟩ := Bool.and_eq_true_iff.1 ht
  rw [isIdentifierText, h (by simpa using hkind), hreserved]
  rfl

end Recompose.Script
