import Mathlib.Data.List.TakeDrop
import Recompose.Json

namespace Recompose.Json

def hexDigit (n : Nat) : Char :=
  if n < 10 then Char.ofNat (48 + n) else Char.ofNat (87 + n)

/-- Characters that have a short escape, with the letter of it. -/
def shortEscapes : List (Char × Char) :=
  [('"', '"'), ('\\', '\\'), ('\x08', 'b'), ('\x0c', 'f'), ('\n', 'n'), ('\r', 'r'), ('\t', 't')]

def escaped (c : Char) : List Char :=
  match shortEscapes.lookup c with
  | some e => ['\\', e]
  | none =>
    if c.toNat < 32 then ['\\', 'u', '0', '0', hexDigit (c.toNat / 16), hexDigit (c.toNat % 16)]
    else [c]

def writtenText (s : String) : List Char :=
  '"' :: (s.toList.flatMap escaped ++ ['"'])

mutual

def written : Json → List Char
  | .null => "null".toList
  | .bool true => "true".toList
  | .bool false => "false".toList
  | .natural n => (toString n).toList
  | .number text => text.toList
  | .string s => writtenText (s.getD "")
  | .array [] => ['[', ']']
  | .array (item :: items) => '[' :: (written item ++ writtenItems items)
  | .object [] => ['\x7b', '\x7d']
  | .object (field :: fields) => '\x7b' :: (writtenField field ++ writtenFields fields)

def writtenItems : List Json → List Char
  | [] => [']']
  | item :: items => ',' :: (written item ++ writtenItems items)

def writtenField : Option String × Json → List Char
  | (key, value) => writtenText (key.getD "") ++ ':' :: written value

def writtenFields : List (Option String × Json) → List Char
  | [] => ['\x7d']
  | field :: fields => ',' :: (writtenField field ++ writtenFields fields)

end

mutual

/-- All strings spell texts, and all numbers are written with digits only. -/
def isPlain : Json → Bool
  | .number _ => false
  | .string s => s.isSome
  | .array items => areAllPlain items
  | .object fields => areFieldsPlain fields
  | _ => true

def areAllPlain : List Json → Bool
  | [] => true
  | item :: items => isPlain item && areAllPlain items

def isFieldPlain : Option String × Json → Bool
  | (key, value) => key.isSome && isPlain value

def areFieldsPlain : List (Option String × Json) → Bool
  | [] => true
  | field :: fields => isFieldPlain field && areFieldsPlain fields

end

def compact (j : Json) : String :=
  String.ofList (written j)

theorem hexValue?_hexDigit : ∀ n < 16, hexValue? (hexDigit n) = some n := by
  decide

theorem of_lookup_shortEscapes {c e : Char} (h : shortEscapes.lookup c = some e) :
    e ≠ 'u' ∧ simpleEscape? e = some c := by
  have hall : ∀ p ∈ shortEscapes, p.2 ≠ 'u' ∧ simpleEscape? p.2 = some p.1 := by decide
  obtain ⟨front, rest, hsplit, -⟩ := List.lookup_eq_some_iff.1 h
  exact hall (c, e) (hsplit ▸ by simp)

theorem ne_of_lookup_shortEscapes {c : Char} (h : shortEscapes.lookup c = none) : c ≠ '"' ∧ c ≠ '\\' := by
  constructor
  · rintro rfl
    exact absurd h (by decide)
  · rintro rfl
    exact absurd h (by decide)

def pieceOf (c : Char) : Piece :=
  if (shortEscapes.lookup c).isSome ∨ ¬ c.toNat < 32 then .char c else .unit c.toNat

section Pieces

variable {c e : Char} {cs : List Char}

theorem pieces_self (hquote : c ≠ '"') (hslash : c ≠ '\\') (hc : ¬ c.toNat < 32) :
    pieces (c :: cs) = (pieces cs).map fun r ↦ (.char c :: r.1, r.2) := by
  rw [pieces.eq_def]
  split
  · contradiction
  · next heq => exact absurd (List.cons.inj heq).1 hquote
  · next heq => exact absurd (List.cons.inj heq).1 hslash
  · next heq => exact absurd (List.cons.inj heq).1 hslash
  · next heq =>
    obtain ⟨rfl, rfl⟩ := List.cons.inj heq
    rw [if_neg hc]
    cases pieces cs <;> rfl

theorem pieces_escape (he : e ≠ 'u') (hc : simpleEscape? e = some c) :
    pieces ('\\' :: e :: cs) = (pieces cs).map fun r ↦ (.char c :: r.1, r.2) := by
  rw [pieces.eq_def]
  split
  · contradiction
  · next heq => exact absurd (List.cons.inj heq).1 (by decide)
  · next heq => exact absurd (List.cons.inj (List.cons.inj heq).2).1 he
  · next heq =>
    obtain ⟨rfl, rfl⟩ := List.cons.inj (List.cons.inj heq).2
    rw [hc]
    cases pieces cs <;> rfl
  · next hnone heq =>
    obtain ⟨rfl, rfl⟩ := List.cons.inj heq
    exact absurd rfl (hnone _ _ rfl)

theorem pieces_unit {n : Nat} (hn : hexUnit? '0' '0' c e = some n) :
    pieces ('\\' :: 'u' :: '0' :: '0' :: c :: e :: cs) =
      (pieces cs).map fun r ↦ (.unit n :: r.1, r.2) := by
  rw [pieces, hn]
  cases pieces cs <;> rfl

theorem hexUnit?_hexDigit {n : Nat} (h : n < 32) :
    hexUnit? '0' '0' (hexDigit (n / 16)) (hexDigit (n % 16)) = some n := by
  have hzero : hexValue? '0' = some 0 := rfl
  have hhigh := hexValue?_hexDigit (n / 16) (by omega)
  have hlow := hexValue?_hexDigit (n % 16) (by omega)
  simp only [hexUnit?, hzero, hhigh, hlow, Option.bind_eq_bind, Option.bind_some, Option.pure_def]
  congr 1
  omega

theorem pieces_escaped (c : Char) (cs : List Char) :
    pieces (escaped c ++ cs) = (pieces cs).map fun r ↦ (pieceOf c :: r.1, r.2) := by
  unfold escaped pieceOf
  split
  · next e he =>
    obtain ⟨hu, hc⟩ := of_lookup_shortEscapes he
    rw [he, if_pos (.inl rfl)]
    exact pieces_escape hu hc
  · next hnone =>
    obtain ⟨hquote, hslash⟩ := ne_of_lookup_shortEscapes hnone
    split
    · next hc =>
      rw [hnone, if_neg (by simp [hc])]
      exact pieces_unit (hexUnit?_hexDigit hc)
    · next hc =>
      rw [if_pos (.inr hc)]
      exact pieces_self hquote hslash hc

end Pieces

theorem pieces_flatMap_escaped (cs rest : List Char) :
    pieces (cs.flatMap escaped ++ '"' :: rest) = some (cs.map pieceOf, rest) := by
  induction cs with
  | nil => rfl
  | cons c cs ih =>
    rw [List.flatMap_cons, List.append_assoc, pieces_escaped, ih]
    rfl

theorem spelled?_unit {n : Nat} (h : n < 32) (ps : List Piece) :
    spelled? (.unit n :: ps) = (spelled? ps).map (Char.ofNat n :: ·) := by
  have hhigh : ¬ (0xD800 ≤ n && n < 0xDC00) := by
    simp
    omega
  have hlow : ¬ (0xDC00 ≤ n && n < 0xE000) := by
    simp
    omega
  rw [spelled?.eq_def]
  simp only
  rw [if_neg hhigh, if_neg hlow]

theorem spelled?_map_pieceOf (cs : List Char) : spelled? (cs.map pieceOf) = some cs := by
  induction cs with
  | nil => rfl
  | cons c cs ih =>
    rw [List.map_cons, pieceOf]
    split
    · rw [spelled?, ih]
      rfl
    · next hc =>
      have hsmall : c.toNat < 32 := by
        rw [not_or, not_not] at hc
        exact hc.2
      rw [spelled?_unit hsmall, ih, Char.ofNat_toNat]
      rfl

theorem quoted_writtenText (s : String) (rest : List Char) :
    quoted (writtenText s ++ rest) = some (some s, rest) := by
  rw [writtenText, List.cons_append, List.append_assoc, List.singleton_append, quoted,
    pieces_flatMap_escaped, Option.map_some, spelled?_map_pieceOf, Option.map_some, String.ofList_toList]

/-- The text ends what stands before it: it is empty, or a mark comes. -/
def Closes (rest : List Char) : Prop :=
  rest = [] ∨ ∃ c rest', rest = c :: rest' ∧ c ∈ [',', ']', '\x7d']

theorem head?_toDigits_ne {n : Nat} (h : n ≠ 0) : (Nat.toDigits 10 n).head? ≠ some '0' := by
  induction n using Nat.strongRecOn with
  | _ n ih =>
    rw [Nat.toDigits_eq_if (by decide)]
    split
    · next hsmall =>
      have hall : ∀ n < 10, n ≠ 0 → [n.digitChar].head? ≠ some '0' := by decide
      exact hall n hsmall h
    · next hlarge =>
      have hfront := ih (n / 10) (by omega) (by omega)
      rw [List.head?_append]
      cases hhead : (Nat.toDigits 10 (n / 10)).head? with
      | none => exact absurd (List.head?_eq_none_iff.1 hhead) Nat.toDigits_ne_nil
      | some c => simpa [hhead] using hfront

theorem span_toDigits {n : Nat} {rest : List Char} (h : Closes rest) :
    (Nat.toDigits 10 n ++ rest).span Char.isDigit = (Nat.toDigits 10 n, rest) := by
  have hdigits : ∀ c ∈ Nat.toDigits 10 n, c.isDigit := fun _ hc ↦
    Nat.isDigit_of_mem_toDigits (by decide) (by decide) hc
  have hmark : ∀ c ∈ [',', ']', '\x7d'], c.isDigit = false := by simp
  rw [List.span_eq_takeWhile_dropWhile, List.takeWhile_append_of_pos hdigits,
    List.dropWhile_append_of_pos hdigits]
  obtain rfl | ⟨c, rest', rfl, hc⟩ := h
  · simp
  · simp [hmark c hc]

theorem wholeDigits_toDigits (n : Nat) {rest : List Char} (h : Closes rest) :
    wholeDigits (Nat.toDigits 10 n ++ rest) = some (Nat.toDigits 10 n, rest) := by
  rw [wholeDigits, span_toDigits h]
  by_cases hn : n = 0
  · subst hn
    rfl
  · have hhead := head?_toDigits_ne hn
    split
    · next heq => simp_all
    · next heq => simp_all
    · next heq => exact absurd (Prod.mk.inj heq).1 Nat.toDigits_ne_nil
    · next heq => exact congrArg some heq.symm

theorem fraction_of_closes {rest : List Char} (h : Closes rest) : fraction rest = some ([], rest) := by
  obtain rfl | ⟨c, rest', rfl, hc⟩ := h
  · rfl
  · have hpoint : ∀ c ∈ [',', ']', '\x7d'], c ≠ '.' := by simp
    rw [fraction.eq_def]
    split
    · next heq => exact absurd (List.cons.inj heq).1 (hpoint c hc)
    · rfl

theorem exponent_of_closes {rest : List Char} (h : Closes rest) : exponent rest = some ([], rest) := by
  obtain rfl | ⟨c, rest', rfl, hc⟩ := h
  · rfl
  · have hletter : ∀ c ∈ [',', ']', '\x7d'], (c == 'e' || c == 'E') = false := by simp
    rw [exponent, hletter c hc, if_neg (by decide)]

theorem numeral_toString (n : Nat) {rest : List Char} (h : Closes rest) :
    numeral ((toString n).toList ++ rest) = some (.natural n, rest) := by
  have hunsigned : unsigned (Nat.toDigits 10 n ++ rest) = some ((Nat.toDigits 10 n, []), rest) := by
    rw [unsigned, wholeDigits_toDigits n h]
    simp [fraction_of_closes h, exponent_of_closes h]
  have hvalue : ofDigits (Nat.toDigits 10 n) = n := Nat.ofDigitChars_ten_toDigits
  rw [Nat.toString_eq_ofList_toDigits, String.toList_ofList, numeral.eq_def]
  split
  · next heq =>
    have hminus : '-' ∈ Nat.toDigits 10 n := by
      cases hdigits : Nat.toDigits 10 n with
      | nil => exact absurd hdigits Nat.toDigits_ne_nil
      | cons c cs =>
        rw [hdigits] at heq
        simp [(List.cons.inj heq).1]
    exact absurd (Nat.isDigit_of_mem_toDigits (by decide) (by decide) hminus) (by decide)
  · rw [hunsigned, Option.map_some, List.isEmpty_nil, if_pos rfl, hvalue]

theorem skip_cons {c : Char} {cs : List Char} (h : isSpace c = false) : skip (c :: cs) = c :: cs := by
  rw [skip, List.dropWhile_cons_of_neg (by simp [h])]

theorem skip_writtenText (s : String) (rest : List Char) :
    skip (writtenText s ++ rest) = writtenText s ++ rest :=
  skip_cons (by decide)

theorem exists_cons_toString (n : Nat) : ∃ c cs, (toString n).toList = c :: cs ∧ c.isDigit := by
  rw [Nat.toString_eq_ofList_toDigits, String.toList_ofList]
  cases hdigits : Nat.toDigits 10 n with
  | nil => exact absurd hdigits Nat.toDigits_ne_nil
  | cons c cs =>
    exact ⟨c, cs, rfl, Nat.isDigit_of_mem_toDigits (by decide) (by decide) (hdigits ▸ List.mem_cons_self)⟩

theorem isSpace_of_isDigit {c : Char} (h : c.isDigit) : isSpace c = false := by
  by_contra hspace
  simp only [isSpace, Bool.not_eq_false, Bool.or_eq_true, beq_iff_eq] at hspace
  rcases hspace with ((rfl | rfl) | rfl) | rfl
  all_goals exact absurd h (by decide)

/-- A value starts with a mark of its own: neither a blank nor the end of an array. -/
theorem exists_cons_written {j : Json} (h : j.isPlain) :
    ∃ c cs, j.written = c :: cs ∧ isSpace c = false ∧ c ≠ ']' := by
  cases j with
  | null => exact ⟨'n', "ull".toList, rfl, by decide, by decide⟩
  | bool b =>
    cases b with
    | true => exact ⟨'t', "rue".toList, rfl, by decide, by decide⟩
    | false => exact ⟨'f', "alse".toList, rfl, by decide, by decide⟩
  | natural n =>
    obtain ⟨c, cs, heq, hdigit⟩ := exists_cons_toString n
    refine ⟨c, cs, heq, isSpace_of_isDigit hdigit, ?_⟩
    rintro rfl
    exact absurd hdigit (by decide)
  | number text => simp [isPlain] at h
  | string s => exact ⟨'"', _, rfl, by decide, by decide⟩
  | array items => cases items <;> exact ⟨'[', _, rfl, by decide, by decide⟩
  | object fields => cases fields <;> exact ⟨'\x7b', _, rfl, by decide, by decide⟩

theorem closes_writtenItems (items : List Json) (rest : List Char) :
    Closes (writtenItems items ++ rest) := by
  cases items <;> exact .inr ⟨_, _, rfl, by decide⟩

theorem closes_writtenFields (fields : List (Option String × Json)) (rest : List Char) :
    Closes (writtenFields fields ++ rest) := by
  cases fields <;> exact .inr ⟨_, _, rfl, by decide⟩

section Step

variable {depth : Nat} {rest : List Char}

theorem value_natural (n : Nat) (h : Closes rest) :
    value (depth + 1) ((toString n).toList ++ rest) = some (.natural n, rest) := by
  obtain ⟨c, cs, heq, hdigit⟩ := exists_cons_toString n
  have hnumeral := numeral_toString n h
  rw [heq, List.cons_append] at hnumeral ⊢
  have hne {d : Char} (hd : d.isDigit = false) : c ≠ d := by
    rintro rfl
    exact absurd hdigit (by simp [hd])
  rw [value.eq_def]
  simp only [skip_cons (isSpace_of_isDigit hdigit)]
  split
  · next hc => exact absurd (List.cons.inj hc).1 (hne (by decide))
  · next hc => exact absurd (List.cons.inj hc).1 (hne (by decide))
  · next hc => exact absurd (List.cons.inj hc).1 (hne (by decide))
  · next hc => exact absurd (List.cons.inj hc).1 (hne (by decide))
  · next hc => exact absurd (List.cons.inj hc).1 (hne (by decide))
  · next hc => exact absurd (List.cons.inj hc).1 (hne (by decide))
  · exact hnumeral

theorem value_string (s : String) :
    value (depth + 1) (writtenText s ++ rest) = some (.string (some s), rest) := by
  rw [value, skip_writtenText]
  change (quoted (writtenText s ++ rest)).map _ = _
  rw [quoted_writtenText]
  rfl

theorem value_array {item : Json} {items : List Json} {text : List Char} (h : item.isPlain)
    (hitems : Json.items depth (item.written ++ text) = some (item :: items, rest)) :
    value (depth + 1) ('[' :: (item.written ++ text)) = some (.array (item :: items), rest) := by
  obtain ⟨c, cs, heq, hspace, hbracket⟩ := exists_cons_written h
  rw [heq, List.cons_append] at hitems ⊢
  rw [value, skip_cons (by decide)]
  simp only [skip_cons hspace]
  split
  · next hc => exact absurd (List.cons.inj hc).1 hbracket
  · rw [hitems]
    rfl

theorem exists_cons_writtenField (field : Option String × Json) :
    ∃ cs, writtenField field = '"' :: cs := by
  cases field
  exact ⟨_, rfl⟩

theorem value_object {field : Option String × Json} {fields : List (Option String × Json)}
    {text : List Char}
    (hfields : Json.fields depth (writtenField field ++ text) = some (field :: fields, rest)) :
    value (depth + 1) ('\x7b' :: (writtenField field ++ text)) =
      some (.object (field :: fields), rest) := by
  obtain ⟨cs, heq⟩ := exists_cons_writtenField field
  have hquote : isSpace '"' = false := by decide
  rw [heq, List.cons_append] at hfields ⊢
  rw [value, skip_cons (by decide)]
  simp only [skip_cons hquote]
  split
  · next hc => exact absurd (List.cons.inj hc).1 (by decide)
  · rw [hfields]
    rfl

end Step

/-- What is read by depths up to `depth`: texts that are shorter. -/
structure ReadsBack (depth : Nat) : Prop where
  value_eq : ∀ (j : Json) (rest : List Char), j.isPlain → j.written.length < depth → Closes rest →
    value depth (j.written ++ rest) = some (j, rest)
  items_eq : ∀ (j : Json) (js : List Json) (rest : List Char), j.isPlain → areAllPlain js →
    (j.written ++ writtenItems js).length < depth →
    items depth (j.written ++ (writtenItems js ++ rest)) = some (j :: js, rest)
  fields_eq : ∀ (f : Option String × Json) (fs : List (Option String × Json)) (rest : List Char),
    isFieldPlain f → areFieldsPlain fs → (writtenField f ++ writtenFields fs).length < depth →
    fields depth (writtenField f ++ (writtenFields fs ++ rest)) = some (f :: fs, rest)

namespace ReadsBack

variable {depth : Nat} {rest : List Char} (ih : ReadsBack depth)
include ih

theorem value_succ {j : Json} (hj : j.isPlain) (hdepth : j.written.length < depth + 1)
    (hrest : Closes rest) : value (depth + 1) (j.written ++ rest) = some (j, rest) := by
  cases j with
  | null => rfl
  | bool b => cases b <;> rfl
  | natural n => exact value_natural n hrest
  | number text => simp [isPlain] at hj
  | string s =>
    obtain ⟨s, rfl⟩ := Option.isSome_iff_exists.1 hj
    exact value_string s
  | array items =>
    cases items with
    | nil => rfl
    | cons item items =>
      rw [isPlain, areAllPlain, Bool.and_eq_true] at hj
      rw [written, List.length_cons, Nat.succ_lt_succ_iff] at hdepth
      rw [written, List.cons_append, List.append_assoc]
      exact value_array hj.1 (ih.items_eq item items rest hj.1 hj.2 hdepth)
  | object fields =>
    cases fields with
    | nil => rfl
    | cons field fields =>
      rw [isPlain, areFieldsPlain, Bool.and_eq_true] at hj
      rw [written, List.length_cons, Nat.succ_lt_succ_iff] at hdepth
      rw [written, List.cons_append, List.append_assoc]
      exact value_object (ih.fields_eq field fields rest hj.1 hj.2 hdepth)

theorem items_succ {j : Json} {js : List Json} (hj : j.isPlain) (hjs : areAllPlain js)
    (hdepth : (j.written ++ writtenItems js).length < depth + 1) :
    items (depth + 1) (j.written ++ (writtenItems js ++ rest)) = some (j :: js, rest) := by
  rw [List.length_append] at hdepth
  cases js with
  | nil =>
    have hvalue := ih.value_eq j (writtenItems [] ++ rest) hj
      (by simpa [writtenItems] using hdepth) (closes_writtenItems [] rest)
    rw [items, hvalue]
    rfl
  | cons j' js =>
    rw [areAllPlain, Bool.and_eq_true] at hjs
    rw [writtenItems, List.length_cons] at hdepth
    have hvalue := ih.value_eq j (writtenItems (j' :: js) ++ rest) hj (by omega)
      (closes_writtenItems (j' :: js) rest)
    have hitems := ih.items_eq j' js rest hjs.1 hjs.2 (by omega)
    rw [items, hvalue]
    simp only [Option.bind_eq_bind, Option.bind_some, writtenItems, List.cons_append, List.append_assoc]
    rw [skip_cons (by decide)]
    simp only [hitems, Option.bind_some]

theorem fields_succ {f : Option String × Json} {fs : List (Option String × Json)} (hf : isFieldPlain f)
    (hfs : areFieldsPlain fs) (hdepth : (writtenField f ++ writtenFields fs).length < depth + 1) :
    fields (depth + 1) (writtenField f ++ (writtenFields fs ++ rest)) = some (f :: fs, rest) := by
  obtain ⟨key, v⟩ := f
  rw [isFieldPlain, Bool.and_eq_true] at hf
  obtain ⟨key, rfl⟩ := Option.isSome_iff_exists.1 hf.1
  rw [writtenField, Option.getD_some, List.length_append, List.length_append, List.length_cons] at hdepth
  have hvalue := ih.value_eq v (writtenFields fs ++ rest) hf.2 (by omega) (closes_writtenFields fs rest)
  rw [fields, writtenField, Option.getD_some, List.append_assoc, skip_writtenText, quoted_writtenText,
    List.cons_append]
  simp only [Option.bind_eq_bind, Option.bind_some]
  rw [skip_cons (by decide)]
  simp only [hvalue, Option.bind_some]
  cases fs with
  | nil => rfl
  | cons f' fs =>
    rw [areFieldsPlain, Bool.and_eq_true] at hfs
    rw [writtenFields, List.length_cons] at hdepth
    have hfields := ih.fields_eq f' fs rest hfs.1 hfs.2 (by omega)
    rw [writtenFields, List.cons_append, List.append_assoc, skip_cons (by decide)]
    simp only [hfields, Option.bind_some]

end ReadsBack

theorem readsBack (depth : Nat) : ReadsBack depth := by
  induction depth with
  | zero => constructor <;> simp
  | succ depth ih =>
    exact ⟨fun j rest ↦ ih.value_succ, fun j js rest ↦ ih.items_succ, fun f fs rest ↦ ih.fields_succ⟩

theorem parse?_compact {j : Json} (h : j.isPlain) : parse? j.compact = some j := by
  have hvalue := (readsBack (j.compact.length + 1)).value_eq j [] h
    (by simp [compact]) (.inl rfl)
  rw [parse?, compact, String.toList_ofList]
  rw [compact, List.append_nil] at hvalue
  rw [hvalue]
  rfl

end Recompose.Json
