import Mathlib.Data.List.TakeDrop
import Recompose.Script.Cursor

namespace Recompose.Script

open Text

namespace Token

def unplaced (t : Token) : Token :=
  { t with span := ⟨0, 0⟩ }

@[simps]
def placed (t : Token) (span : Span) : Token :=
  { t with span }

@[simps]
def word (name : String) (newline : Bool) : Token :=
  { kind := .name, text := name, raw := name, span := ⟨0, 0⟩, newline }

@[simps]
def digits (text : String) (newline : Bool) : Token :=
  { kind := .number, text, raw := text, span := ⟨0, 0⟩, newline }

@[simps]
def sign (text : String) (newline : Bool) : Token :=
  { kind := .punct, text, raw := text, span := ⟨0, 0⟩, newline }

@[simps]
def ending (newline : Bool) : Token :=
  { kind := .stop, text := "", raw := "", span := ⟨0, 0⟩, newline }

section Tests

variable (t : Token) (span : Span) (text s : String) (ss : List String) (newline : Bool)

@[simp]
theorem is_placed : (t.placed span).is s = t.is s :=
  rfl

@[simp]
theorem isAny_placed : (t.placed span).isAny ss = t.isAny ss :=
  rfl

@[simp]
theorem isIdentifier_placed : (t.placed span).isIdentifier = t.isIdentifier :=
  rfl

@[simp]
theorem isTemplate_placed : (t.placed span).isTemplate = t.isTemplate :=
  rfl

@[simp]
theorem isString_placed : (t.placed span).isString = t.isString :=
  rfl

@[simp]
theorem is_word : (word text newline).is s = (text == s) := by
  simp [is]

@[simp]
theorem isAny_word : (word text newline).isAny ss = ss.contains text := by
  simp [isAny]

@[simp]
theorem is_digits : (digits text newline).is s = false := by
  simp [is]

@[simp]
theorem isAny_digits : (digits text newline).isAny ss = false := by
  simp [isAny]

@[simp]
theorem is_sign : (sign text newline).is s = (text == s) := by
  simp [is]

@[simp]
theorem isAny_sign : (sign text newline).isAny ss = ss.contains text := by
  simp [isAny]

@[simp]
theorem is_ending : (ending newline).is s = false := by
  simp [is]

theorem is_of_isAny {t : Token} {ss : List String} (h : t.isAny ss = false) {s : String}
    (hs : s ∈ ss) : t.is s = false := by
  by_contra ht
  rw [Bool.not_eq_false, is, Bool.and_eq_true, beq_iff_eq] at ht
  rw [isAny, ht.1, ht.2] at h
  simp [hs] at h

end Tests

end Token

def isSpace (c : Char) : Bool :=
  isGap c || isLineEnd c

/-- The front of the text is a token of its own: neither blank nor comment, and read as given. -/
structure Fronts (raw rest : List Char) (kind : TokenKind) (text : String) : Prop where
  ne_nil : raw ≠ []
  skip_eq : ∀ g, Scan.skip .blank g (raw ++ rest) = some (g, raw ++ rest)
  found_eq : ∀ fuel, Scan.found? (fuel + 1) (raw ++ rest) = some ⟨kind, text, raw, rest, false⟩

/-- The text starts with these tokens. What stands behind them satisfies `E`, unless they reach the
end. -/
inductive Spells (E : List Char → Prop) : List Char → List Token → Prop
  | nil {text : List Char} (h : E text) : Spells E text []
  | ending {gap : List Char} (hgap : gap.all isSpace) :
    Spells E gap [.ending (gap.any isLineEnd)]
  | cons {gap raw rest : List Char} {kind : TokenKind} {text : String} {ts : List Token}
    (hgap : gap.all isSpace) (hfronts : Fronts raw rest kind text) (hrest : Spells E rest ts) :
    Spells E (gap ++ (raw ++ rest))
      (⟨kind, text, .ofList raw, ⟨0, 0⟩, gap.any isLineEnd, false, false, false⟩ :: ts)

theorem skip_blank {c : Char} (hslash : c ≠ '/') (g : Scan.Gap) (cs : List Char) :
    Scan.skip .blank g (c :: cs) =
      if isSpace c then Scan.skip .blank (g.step c) cs else some (g, c :: cs) := by
  rw [Scan.skip.eq_def]
  split
  all_goals simp_all [isSpace]

theorem skip_space {c : Char} (hc : isSpace c) (g : Scan.Gap) (cs : List Char) :
    Scan.skip .blank g (c :: cs) = Scan.skip .blank (g.step c) cs := by
  have hslash : c ≠ '/' := by
    rintro rfl
    exact absurd hc (by decide)
  rw [skip_blank hslash, if_pos hc]

theorem skip_token {c : Char} (hspace : isSpace c = false) (hslash : c ≠ '/') (g : Scan.Gap)
    (cs : List Char) : Scan.skip .blank g (c :: cs) = some (g, c :: cs) := by
  rw [skip_blank hslash, if_neg (by simp [hspace])]

theorem skip_append {gap cs : List Char} (hgap : gap.all isSpace)
    (hcs : ∀ g, Scan.skip .blank g cs = some (g, cs)) (g : Scan.Gap) :
    Scan.skip .blank g (gap ++ cs) =
      some ({ g with pos := g.pos + byteWidth gap, newline := g.newline || gap.any isLineEnd }, cs) := by
  induction gap generalizing g with
  | nil => simpa [byteWidth] using hcs g
  | cons c gap ih =>
    rw [List.all_cons, Bool.and_eq_true] at hgap
    rw [List.cons_append, skip_space hgap.1, ih hgap.2]
    simp [Scan.Gap.step, byteWidth, Nat.add_assoc, Bool.or_assoc]

theorem byteWidth_append (cs ds : List Char) :
    byteWidth (cs ++ ds) = byteWidth cs + byteWidth ds := by
  induction cs with
  | nil => simp [byteWidth]
  | cons c cs ih => simp [byteWidth, ih, Nat.add_assoc]

theorem byteWidth_pos {cs : List Char} (h : cs ≠ []) : 0 < byteWidth cs := by
  cases cs with
  | nil => exact absurd rfl h
  | cons c cs =>
    have := c.utf8Size_pos
    simp only [byteWidth]
    omega

theorem Spells.length_le {E : List Char → Prop} {cs : List Char} {ts : List Token}
    (h : Spells E cs ts) : ts.length ≤ byteWidth cs + 1 := by
  induction h with
  | nil => simp
  | ending => simp
  | cons _ hfronts _ ih =>
    have := byteWidth_pos hfronts.ne_nil
    simp only [List.length_cons, byteWidth_append]
    omega

def isNameText : List Char → Bool
  | [] => false
  | c :: cs => isNameStart c && cs.all isNamePart

def endsName : List Char → Bool
  | [] => true
  | c :: _ => !isNamePart c && c != '\\'

theorem isNamePart_of_isNameStart {c : Char} (h : isNameStart c) : isNamePart c := by
  unfold isNameStart at h
  unfold isNamePart
  split at h
  · next hc =>
    rw [if_pos hc]
    simp only [Bool.or_eq_true, Char.isAlphanum] at h ⊢
    tauto
  · next hc =>
    rw [if_neg hc]
    simp [h]

def spaces : List Nat :=
  List.range' 9 5 ++ List.range' 0x2000 12 ++
    [32, 0x85, 0xA0, 0xFEFF, 0x1680, 0x2028, 0x2029, 0x202F, 0x205F, 0x3000]

theorem mem_spaces {c : Char} (h : isSpace c) : c.toNat ∈ spaces := by
  have hfeed : c = '\n' → c.toNat = 10 := by
    rintro rfl
    rfl
  have hreturn : c = '\r' → c.toNat = 13 := by
    rintro rfl
    rfl
  simp only [isSpace, isGap, isLineEnd, Bool.or_eq_true, Bool.and_eq_true, beq_iff_eq,
    decide_eq_true_eq] at h
  simp only [spaces, List.mem_append, List.mem_range'_1, List.mem_cons, List.not_mem_nil, or_false]
  grind

theorem not_isNameStart_of_mem_spaces : ∀ n ∈ spaces, isNameStart (Char.ofNat n) = false := by
  decide +kernel

theorem not_isSpace_of_isNameStart {c : Char} (h : isNameStart c) : isSpace c = false := by
  by_contra hs
  have hc := not_isNameStart_of_mem_spaces _ (mem_spaces (by simpa using hs))
  rw [Char.ofNat_toNat, h] at hc
  exact absurd hc (by simp)

theorem fronts_name {name rest : List Char} (hname : isNameText name) (hrest : endsName rest) :
    Fronts name rest .name (.ofList name) := by
  obtain _ | ⟨c, cs⟩ := name
  · exact absurd hname (by simp [isNameText])
  obtain ⟨hstart, hparts⟩ := Bool.and_eq_true_iff.1 hname
  have hslash : c ≠ '/' := by
    rintro rfl
    exact absurd hstart (by decide)
  have hall : ∀ d ∈ c :: cs, isNamePart d := by
    intro d hd
    rcases List.mem_cons.1 hd with rfl | hd
    · exact isNamePart_of_isNameStart hstart
    · exact List.all_eq_true.1 hparts d hd
  have hspan : ((c :: cs) ++ rest).span isNamePart = (c :: cs, rest) := by
    rw [List.span_eq_takeWhile_dropWhile, List.takeWhile_append_of_pos hall,
      List.dropWhile_append_of_pos hall]
    cases rest with
    | nil => simp
    | cons d rest =>
      have hd : isNamePart d = false := by simp_all [endsName]
      simp [hd]
  refine ⟨by simp, fun g ↦ skip_token (not_isSpace_of_isNameStart hstart) hslash g _, fun fuel ↦ ?_⟩
  have hparts? : Scan.nameParts? (fuel + 1) ((c :: cs) ++ rest) = some (c :: cs, false, rest) := by
    rw [Scan.nameParts?, hspan]
    cases rest with
    | nil => rfl
    | cons d rest =>
      have hd : d ≠ '\\' := by
        rintro rfl
        simp [endsName] at hrest
      dsimp only
      split <;> simp_all
  simp only [List.cons_append] at hparts? ⊢
  simp [Scan.found?, Scan.name?, hstart, hparts?]

def isDigits (cs : List Char) : Bool :=
  cs ≠ [] && cs.all Char.isDigit

def endsNumber (rest : List Char) : Bool :=
  Scan.ends rest && rest.head? != some '.'

theorem separated_of_all_isDigit {cs : List Char} (h : cs.all Char.isDigit) : Scan.separated cs := by
  induction cs with
  | nil => rfl
  | cons c cs ih =>
    rw [List.all_cons, Bool.and_eq_true] at h
    have hc : c ≠ '_' := by
      rintro rfl
      exact absurd h.1 (by decide)
    rw [Scan.separated]
    · exact ih h.2
    · simp [hc]
    · simp [hc]

theorem digits?_append {cs rest : List Char} (hcs : isDigits cs) (hrest : endsNumber rest) :
    Scan.digits? Char.isDigit (cs ++ rest) = some (cs, rest) := by
  obtain ⟨hne, hall⟩ := Bool.and_eq_true_iff.1 hcs
  have hpos : ∀ d ∈ cs, (Char.isDigit d || d == '_') = true := by
    intro d hd
    simp [List.all_eq_true.1 hall d hd]
  have hspan : (cs ++ rest).span (fun c ↦ Char.isDigit c || c == '_') = (cs, rest) := by
    rw [List.span_eq_takeWhile_dropWhile, List.takeWhile_append_of_pos hpos,
      List.dropWhile_append_of_pos hpos]
    cases rest with
    | nil => simp
    | cons d rest =>
      have hd : (Char.isDigit d || d == '_') = false := by
        simp only [endsNumber, Scan.ends, Bool.and_eq_true, Bool.not_eq_true',
          Bool.or_eq_false_iff] at hrest
        have hunderscore : d ≠ '_' := by
          rintro rfl
          exact absurd hrest.1.1.1 (by decide)
        simp [hrest.1.1.2, hunderscore]
      simp [hd]
  rw [Scan.digits?, hspan]
  cases cs with
  | nil => simp at hne
  | cons d cs =>
    have hd : d ≠ '_' := by
      rintro rfl
      exact absurd hall (by simp)
    simp [hd, separated_of_all_isDigit hall]

theorem fraction?_of_endsNumber {rest : List Char} (h : endsNumber rest) :
    Scan.fraction? false rest = some ([], rest) := by
  cases rest with
  | nil => rfl
  | cons d rest =>
    have hd : d ≠ '.' := by
      rintro rfl
      simp [endsNumber] at h
    unfold Scan.fraction?
    split
    · next heq => exact absurd (List.cons.inj heq).1 hd
    · rfl

theorem exponent?_of_endsNumber {rest : List Char} (h : endsNumber rest) :
    Scan.exponent? rest = some ([], rest) := by
  have hstart (d : Char) (ds : List Char) (hd : rest = d :: ds) : (d == 'e' || d == 'E') = false := by
    subst hd
    simp only [endsNumber, Scan.ends, Bool.and_eq_true, Bool.not_eq_true', Bool.or_eq_false_iff] at h
    by_contra hc
    simp only [Bool.not_eq_false, Bool.or_eq_true, beq_iff_eq] at hc
    rcases hc with rfl | rfl
    · exact absurd h.1.1.1 (by decide)
    · exact absurd h.1.1.1 (by decide)
  unfold Scan.exponent?
  split
  · next e s more => rw [if_neg (by simp [hstart e _ rfl])]
  · next e => rw [if_neg (by simp [hstart e _ rfl])]
  · rfl

theorem decimal?_append {cs rest : List Char} (hcs : isDigits cs) (hrest : endsNumber rest) :
    Scan.decimal? (cs ++ rest) = some (.number, cs, rest) := by
  obtain ⟨hne, hall⟩ := Bool.and_eq_true_iff.1 hcs
  have hends : Scan.ends rest := (Bool.and_eq_true_iff.1 hrest).1
  have hpoint (r : List Char) : cs ++ rest ≠ '.' :: r := by
    intro heq
    cases cs with
    | nil => simp at hne
    | cons d cs =>
      obtain ⟨rfl, -⟩ := List.cons.inj heq
      exact absurd hall (by simp)
  have hbare : cs.contains '_' = false := by
    rw [List.contains_eq_any_beq, List.any_eq_false]
    intro d hd he
    obtain rfl := beq_iff_eq.1 he
    exact absurd (List.all_eq_true.1 hall _ hd) (by decide)
  have hbig (r : List Char) : rest ≠ 'n' :: r := by
    rintro rfl
    simp [Scan.ends, show isNameStart 'n' = true by decide] at hends
  have hempty : (cs == []) = false := by simpa using hne
  have hhead : (rest.head? != some '.') = true := (Bool.and_eq_true_iff.1 hrest).2
  unfold Scan.decimal?
  dsimp only
  split
  · next r heq => exact absurd heq (hpoint r)
  · simp only [digits?_append hcs hrest, Option.bind_eq_bind, Option.bind_some, hbare,
      Bool.and_false, Bool.false_eq_true, if_false]
    split
    · exact absurd rfl (hbig _)
    · simp only [hempty, hhead, hends, fraction?_of_endsNumber hrest, exponent?_of_endsNumber hrest,
        Bool.and_self, if_true, Option.bind_some, List.append_nil, ite_self]

theorem mem_range_of_isDigit {c : Char} (h : c.isDigit) : c.toNat ∈ List.range' 48 10 := by
  simp only [Char.isDigit, Bool.and_eq_true, decide_eq_true_eq, UInt32.le_iff_toNat_le] at h
  rw [List.mem_range'_1]
  exact ⟨h.1, Nat.lt_succ_of_le h.2⟩

theorem digit_marks : ∀ n ∈ List.range' 48 10, isSpace (Char.ofNat n) = false ∧
    isNameStart (Char.ofNat n) = false ∧ Char.ofNat n ≠ '/' ∧ Char.ofNat n ≠ '\\' := by
  decide +kernel

theorem number?_append {cs rest : List Char} (hcs : isDigits cs) (hrest : endsNumber rest) :
    Scan.number? (cs ++ rest) = some (.number, cs, rest) := by
  -- no letter of a base can stand behind the first digit
  have hbase (d : Char) (r : List Char) (hd : isNameStart d) : cs ++ rest ≠ '0' :: d :: r := by
    intro heq
    obtain ⟨hne, hall⟩ := Bool.and_eq_true_iff.1 hcs
    match cs, hall with
    | [], _ => simp at hne
    | [c], _ =>
      obtain rfl := (List.cons.inj heq).2
      simp [endsNumber, Scan.ends, hd] at hrest
    | c :: c' :: cs, hall =>
      obtain ⟨rfl, -⟩ := List.cons.inj (List.cons.inj heq).2
      have hdigit : c'.isDigit := by simp_all
      have := (digit_marks _ (mem_range_of_isDigit hdigit)).2.1
      simp [Char.ofNat_toNat, hd] at this
  unfold Scan.number?
  split
  case h_7 => exact decimal?_append hcs hrest
  all_goals next r heq => exact absurd heq (hbase _ r (by decide))

theorem fronts_digits {cs rest : List Char} (hcs : isDigits cs) (hrest : endsNumber rest) :
    Fronts cs rest .number (.ofList cs) := by
  obtain ⟨hne, hall⟩ := Bool.and_eq_true_iff.1 hcs
  have hnumber := number?_append hcs hrest
  obtain _ | ⟨c, cs⟩ := cs
  · simp at hne
  have hdigit : c.isDigit := (Bool.and_eq_true_iff.1 hall).1
  obtain ⟨hspace, hstart, hslash, hescape⟩ := digit_marks _ (mem_range_of_isDigit hdigit)
  rw [Char.ofNat_toNat] at hspace hstart hslash hescape
  have hpoint : c ≠ '.' := by
    rintro rfl
    exact absurd hdigit (by decide)
  refine ⟨by simp, fun g ↦ skip_token hspace hslash g _, fun fuel ↦ ?_⟩
  have hstarts : Scan.startsNumber (c :: (cs ++ rest)) = true := by
    unfold Scan.startsNumber
    split
    · next heq => exact absurd (List.cons.inj heq).1 hpoint
    · next heq => rw [← (List.cons.inj heq).1, hdigit]
    · next heq => simp at heq
  simp only [List.cons_append] at hnumber ⊢
  simp [Scan.found?, hstart, hescape, hstarts, hnumber]

/-- Signs that no character behind them changes. -/
def aloneSigns : List Char :=
  ['(', ')', '{', '}', '[', ']', ';', ',', ':', '>']

/-- Signs that end where a blank or a name follows. -/
def joinedSigns : List Char :=
  ['.', '=', '+', '<', '|', '&']

def endsSign : List Char → Bool
  | [] => true
  | c :: _ => isSpace c || isNameStart c || c == '(' || c == '"'

theorem sign_marks : ∀ c ∈ aloneSigns ++ joinedSigns, isSpace c = false ∧ isNameStart c = false ∧
    c ≠ '/' ∧ c ≠ '\\' ∧ c.isDigit = false ∧ c ≠ '"' ∧ c.toNat ≠ 39 ∧ c.toNat ≠ 96 ∧ c ≠ '#' := by
  intro c hc
  simp only [aloneSigns, joinedSigns, List.cons_append, List.nil_append, List.mem_cons,
    List.not_mem_nil, or_false] at hc
  rcases hc with rfl | rfl | rfl | rfl | rfl | rfl | rfl | rfl | rfl | rfl | rfl | rfl | rfl | rfl | rfl | rfl <;>
    decide

theorem fronts_sign {c : Char} {rest : List Char} (hc : c ∈ aloneSigns ++ joinedSigns)
    (hnumber : Scan.startsNumber (c :: rest) = false)
    (hpunct : Scan.punct? (c :: rest) = some (.singleton c, rest)) :
    Fronts [c] rest .punct (.singleton c) := by
  obtain ⟨hspace, hstart, hslash, hescape, -, hdouble, hsingle, hback, hprivate⟩ := sign_marks c hc
  refine ⟨by simp, fun g ↦ skip_token hspace hslash g _, fun fuel ↦ ?_⟩
  simp [Scan.found?, hstart, hescape, hnumber, hdouble, hsingle, hback, hprivate, hpunct]

theorem fronts_alone {c : Char} (hc : c ∈ aloneSigns) (rest : List Char) :
    Fronts [c] rest .punct (.singleton c) := by
  refine fronts_sign (List.mem_append_left _ hc) ?_ ?_
  · have hdigit := (sign_marks c (List.mem_append_left _ hc)).2.2.2.2.1
    unfold Scan.startsNumber
    split
    · next heq =>
      obtain ⟨rfl, -⟩ := List.cons.inj heq
      exact absurd hc (by decide)
    · next heq =>
      obtain ⟨rfl, -⟩ := List.cons.inj heq
      exact hdigit
    · rfl
  · simp only [aloneSigns, List.mem_cons, List.not_mem_nil, or_false] at hc
    rcases hc with rfl | rfl | rfl | rfl | rfl | rfl | rfl | rfl | rfl | rfl <;>
      simp [Scan.punct?, Scan.spellings, Scan.joins, ← String.length_toList]

theorem not_joined_of_endsSign {d : Char} {ds : List Char} (h : endsSign (d :: ds)) :
    d ∉ ['.', '=', '>', '+', '<', '|', '&'] ∧ d.isDigit = false := by
  constructor
  · intro hd
    have hstarts : ['.', '=', '>', '+', '<', '|', '&'].all (fun c ↦ !endsSign [c]) = true := by decide
    exact absurd h (by simpa [endsSign] using List.all_eq_true.1 hstarts d hd)
  · by_contra hd
    obtain ⟨hspace, hstart, -⟩ := digit_marks _ (mem_range_of_isDigit (by simpa using hd))
    rw [Char.ofNat_toNat] at hspace hstart
    simp only [endsSign, hspace, hstart, Bool.or_eq_true, Bool.false_eq_true, false_or, beq_iff_eq] at h
    rcases h with rfl | rfl <;> exact absurd hd (by decide)

theorem fronts_joined {c : Char} {rest : List Char} (hc : c ∈ joinedSigns) (hrest : endsSign rest) :
    Fronts [c] rest .punct (.singleton c) := by
  have hnext (d : Char) (ds : List Char) (heq : rest = d :: ds) :
      d ∉ ['.', '=', '>', '+', '<', '|', '&'] ∧ d.isDigit = false := by
    subst heq
    exact not_joined_of_endsSign hrest
  refine fronts_sign (List.mem_append_right _ hc) ?_ ?_
  · have hdigit := (sign_marks c (List.mem_append_right _ hc)).2.2.2.2.1
    unfold Scan.startsNumber
    split
    · next d ds heq => exact (hnext d ds (List.cons.inj heq).2).2
    · next heq =>
      obtain ⟨rfl, -⟩ := List.cons.inj heq
      exact hdigit
    · rfl
  · simp only [joinedSigns, List.mem_cons, List.not_mem_nil, or_false] at hc
    obtain _ | ⟨d, ds⟩ := rest
    · rcases hc with rfl | rfl | rfl | rfl | rfl | rfl <;> decide
    · obtain ⟨hd, -⟩ := hnext d ds rfl
      have hne (s : Char) (hs : s ∈ ['.', '=', '>', '+', '<', '|', '&']) : s ≠ d := fun h ↦ hd (h ▸ hs)
      rcases hc with rfl | rfl | rfl | rfl | rfl | rfl <;>
        simp [Scan.punct?, Scan.spellings, Scan.joins, ← String.length_toList, hne]

theorem Scan.eq_quote_of_stringBody? {acc units : List Nat} {b : Char} {tail : List Char}
    (h : stringBody? '"' none acc [b] = some (units, tail)) : b = '"' := by
  by_contra hb
  simp [stringBody?, hb] at h

theorem Scan.stringBody?_append {braces : Option (Option Nat)} {acc units : List Nat}
    {cs tail : List Char} (h : stringBody? '"' braces acc cs = some (units, tail)) (rest : List Char) :
    stringBody? '"' braces acc (cs ++ rest) = some (units, tail ++ rest) := by
  fun_induction stringBody? '"' braces acc cs with
  | case4 value acc c cs hc d hd n hn ih =>
    rw [List.cons_append, stringBody?.eq_def]
    simp_all [n]
  | case7 acc c cs hc =>
    obtain ⟨rfl, rfl⟩ := Prod.mk.inj (Option.some.inj h)
    rw [List.cons_append, stringBody?.eq_def]
    simp_all
  -- an escape looks at up to three characters, but not beyond the quote
  | case27 acc c hc hescape a b =>
    obtain rfl := eq_quote_of_stringBody? h
    cases rest <;> simp_all [stringBody?]
  | case28 acc c hc hescape a b =>
    obtain rfl := eq_quote_of_stringBody? h
    have hquote : isOctal '"' = false := by decide
    cases rest <;> simp_all [stringBody?]
  | case29 acc c hc hescape a b =>
    obtain rfl := eq_quote_of_stringBody? h
    have hquote : isOctal '"' = false := by decide
    cases rest <;> simp_all [stringBody?]
  | case32 acc c cs hc hescape hend ih =>
    rw [List.cons_append, stringBody?.eq_def]
    simp_all
  | _ => simp_all [stringBody?]

def isQuotable (text : String) : Bool :=
  (Scan.stringBody? '"' none [] (text.toList ++ ['"'])).any (·.2.isEmpty)

def quoted (text : String) : List Char :=
  '"' :: (text.toList ++ ['"'])

theorem fronts_quoted {text : String} (h : isQuotable text) (rest : List Char) :
    ∃ lone value, Fronts (quoted text) rest (.string lone) value := by
  obtain ⟨units, hbody⟩ :
      ∃ units, Scan.stringBody? '"' none [] (text.toList ++ ['"']) = some (units, []) := by
    unfold isQuotable at h
    cases hbody : Scan.stringBody? '"' none [] (text.toList ++ ['"']) with
    | none => simp [hbody] at h
    | some r =>
      obtain ⟨units, tail⟩ := r
      obtain rfl : tail = [] := by simpa [hbody] using h
      exact ⟨units, rfl⟩
  have hread := Scan.stringBody?_append hbody rest
  have hupTo : Scan.upTo (quoted text ++ rest) rest = quoted text := by simp [Scan.upTo]
  refine ⟨(Scan.stringText units).lone, (Scan.stringText units).value, by simp [quoted],
    fun g ↦ skip_token (by decide) (by decide) g _, fun fuel ↦ ?_⟩
  have hstart : Text.isNameStart '"' = false := by decide
  unfold quoted at hupTo ⊢
  generalize text.toList ++ ['"'] = body at hread hupTo ⊢
  have hnumber : Scan.startsNumber ('"' :: (body ++ rest)) = false := rfl
  rw [List.cons_append] at hupTo ⊢
  simp [Scan.found?, Scan.string?, hstart, hnumber, hread, hupTo]

section Spells

variable {E : List Char → Prop} {rest : List Char} {ts : List Token} {c : Char}

theorem Spells.alone (hc : c ∈ aloneSigns) (h : Spells E rest ts) :
    Spells E (c :: rest) (.sign (.singleton c) false :: ts) := by
  have : Spells E ([] ++ ([c] ++ rest)) _ := .cons rfl (fronts_alone hc rest) h
  simpa [Token.sign] using this

theorem Spells.joined (hc : c ∈ joinedSigns) (hrest : endsSign rest) (h : Spells E rest ts) :
    Spells E (c :: rest) (.sign (.singleton c) false :: ts) := by
  have : Spells E ([] ++ ([c] ++ rest)) _ := .cons rfl (fronts_joined hc hrest) h
  simpa [Token.sign] using this

theorem Spells.word {name : String} (hname : isNameText name.toList) (hrest : endsName rest)
    (h : Spells E rest ts) : Spells E (name.toList ++ rest) (.word name false :: ts) := by
  have : Spells E ([] ++ (name.toList ++ rest)) _ := .cons rfl (fronts_name hname hrest) h
  simpa [Token.word] using this

end Spells

inductive Piece where
  | gap (c : Char)
  | name (text : String)
  | digits (text : String)
  | sign (c : Char)

namespace Piece

def text : Piece → List Char
  | gap c => [c]
  | name text => text.toList
  | digits text => text.toList
  | sign c => [c]

def fits : Piece → List Char → Bool
  | gap c, _ => isSpace c
  | name text, rest => isNameText text.toList && endsName rest
  | digits text, rest => isDigits text.toList && endsNumber rest
  | sign c, rest => aloneSigns.contains c || (joinedSigns.contains c && endsSign rest)

def written : List Piece → List Char → List Char
  | [], rest => rest
  | p :: ps, rest => p.text ++ written ps rest

def fitAll : List Piece → List Char → Bool
  | [], _ => true
  | p :: ps, rest => p.fits (written ps rest) && fitAll ps rest

/-- The tokens of the pieces, and then those of the text behind them; `newline` if a line has just
ended. -/
def tokens (newline : Bool) : List Piece → List Token → List Token
  | [], [] => []
  | [], t :: ts => { t with newline := newline || t.newline } :: ts
  | gap c :: ps, ts => tokens (newline || isLineEnd c) ps ts
  | name text :: ps, ts => .word text newline :: tokens false ps ts
  | digits text :: ps, ts => .digits text newline :: tokens false ps ts
  | sign c :: ps, ts => .sign (.singleton c) newline :: tokens false ps ts

theorem written_append (ps qs : List Piece) (rest : List Char) :
    written (ps ++ qs) rest = written ps (written qs rest) := by
  induction ps with
  | nil => rfl
  | cons p ps ih => simp [written, ih]

/-- No blank stands at the end; `closed` if none has been read since the last token. -/
def endsInToken (closed : Bool) : List Piece → Bool
  | [] => closed
  | gap _ :: ps => endsInToken false ps
  | _ :: ps => endsInToken true ps

end Piece

/-- A text in pieces spells their tokens. The blanks read so far are kept apart: a token is found only
once they end. -/
theorem spells_written {E : List Char → Prop} {ps : List Piece} {gap rest : List Char}
    {ts : List Token} (hgap : gap.all isSpace) (hfit : Piece.fitAll ps rest) (hrest : Spells E rest ts)
    (hends : ts ≠ [] ∨ Piece.endsInToken gap.isEmpty ps) :
    Spells E (gap ++ Piece.written ps rest) (Piece.tokens (gap.any isLineEnd) ps ts) := by
  induction ps generalizing gap with
  | nil =>
    cases hrest with
    | nil h =>
      obtain rfl : gap = [] := by simpa [Piece.endsInToken] using hends
      exact .nil h
    | ending hgap' =>
      have : Spells E (gap ++ rest) _ := .ending (by simp [hgap, hgap'])
      simpa [Piece.written, Piece.tokens, Token.ending] using this
    | @cons gap' raw rest kind text ts hgap' hfronts hrest =>
      have : Spells E ((gap ++ gap') ++ _) _ := .cons (by simp [hgap, hgap']) hfronts hrest
      simpa [Piece.written, Piece.tokens] using this
  | cons p ps ih =>
    obtain ⟨hp, hps⟩ := Bool.and_eq_true_iff.1 hfit
    cases p with
    | gap c =>
      have hspace : isSpace c := hp
      have hopen : (gap ++ [c]).isEmpty = false := by
        rw [List.isEmpty_eq_false_iff]
        simp
      have := @ih (gap ++ [c]) (by simp [hgap, hspace]) hps (by rwa [hopen])
      simpa [Piece.written, Piece.tokens, Piece.text] using this
    | name text =>
      obtain ⟨hname, hbehind⟩ := Bool.and_eq_true_iff.1 hp
      simpa [Piece.written, Piece.tokens, Piece.text, Token.word]
        using Spells.cons hgap (fronts_name hname hbehind) (@ih [] rfl hps hends)
    | digits text =>
      obtain ⟨hdigits, hbehind⟩ := Bool.and_eq_true_iff.1 hp
      simpa [Piece.written, Piece.tokens, Piece.text, Token.digits]
        using Spells.cons hgap (fronts_digits hdigits hbehind) (@ih [] rfl hps hends)
    | sign c =>
      have hfronts : Fronts [c] (Piece.written ps rest) .punct (.singleton c) := by
        rcases Bool.or_eq_true_iff.1 hp with halone | hjoined
        · exact fronts_alone (by simpa using halone) _
        · obtain ⟨hc, hbehind⟩ := Bool.and_eq_true_iff.1 hjoined
          exact fronts_joined (by simpa using hc) hbehind
      simpa [Piece.written, Piece.tokens, Piece.text, Token.sign]
        using Spells.cons hgap hfronts (@ih [] rfl hps hends)

end Recompose.Script
