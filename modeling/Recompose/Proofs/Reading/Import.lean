import Recompose.Imports
import Recompose.Proofs.Reading.Threading

namespace Recompose.Script

open Parse

structure ImportLine where
  typeOnly : Bool
  names : List String
  source : String

namespace ImportLine

/-- The names can be bound in a file and the module can be written as a string. -/
def isReadable (line : ImportLine) : Bool :=
  line.names.all isPlainName && isQuotable line.source

def tokens (newline : Bool) (line : ImportLine) (us : List Token) : List Token :=
  .word "import" newline :: ((if line.typeOnly then [.word "type" false] else []) ++
    .sign "\x7b" false :: listed (.sign "\x7d" false) (fun name ↦ [.word name false]) line.names
      (.word "from" false :: us))

def IsRead (line : ImportLine) (stmt : Stmt) : Prop :=
  ∃ span source, stmt = .importDecl span
    ⟨line.typeOnly, none, some (line.names.map fun name ↦ .named false (.ident name) name), source,
      none⟩

end ImportLine

section Imports

variable {E : List Char → Prop} {t u : Token} {us : List Token} {name : String} {s : Nat}
  {newline : Bool} {line : ImportLine} {goal : Goals}

theorem reads_moduleName :
    Reads moduleName (At E (plain true) (.word name newline :: u :: us)) (At E (plain true) (u :: us))
      (· = .ident name) := by
  refine reads_token.bind ?_
  rintro _ ⟨span, rfl⟩
  exact reads_next.bind fun _ _ ↦ .pure rfl

theorem reads_specifier (hu : u = .sign "\x7d" false ∨ u = .sign "," false) :
    Reads specifier (At E (plain true) (.word name false :: u :: us)) (At E (plain true) (u :: us))
      (· = (false, .ident name, none)) := by
  have hends : u.isAny [",", "\x7d"] = true := by rcases hu with rfl | rfl <;> rfl
  have has : u.is "as" = false := by rcases hu with rfl | rfl <;> rfl
  refine reads_moduleName.bind ?_
  rintro _ rfl
  split
  · refine reads_isAtAny.bind ?_
    rintro _ rfl
    rw [if_pos hends]
    exact .pure rfl
  · refine (reads_eat_of_not_is has).bind ?_
    rintro _ rfl
    exact .pure rfl

theorem reads_importItem (hname : isPlainName name)
    (hu : u = .sign "\x7d" false ∨ u = .sign "," false) :
    Reads importItem (At E (plain true) (.word name false :: u :: us)) (At E (plain true) (u :: us))
      (· = .named false (.ident name) name) := by
  simp only [isPlainName, isIdentifierText, Bool.and_eq_true, bne_iff_ne] at hname
  have hlocal : Reads (localName (.ident name)) (At E (plain true) (u :: us))
      (At E (plain true) (u :: us)) (· = name) := by
    refine reads_context.bind ?_
    rintro _ rfl
    refine (reads_guarded ?_).bind fun _ _ ↦ .pure rfl
    simpa [hname.2] using hname.1.2
  refine (reads_specifier hu).bind ?_
  rintro _ rfl
  refine hlocal.bind ?_
  rintro _ rfl
  exact .pure rfl

theorem reads_importItems (hnames : line.names.all isPlainName) :
    Reads importItems
      (At E (plain true) (.sign "\x7b" false ::
        listed (.sign "\x7d" false) (fun name ↦ [.word name false]) line.names (u :: us)))
      (At E (plain true) (u :: us)) (· = line.names.map fun name ↦ .named false (.ident name) name) := by
  have hlist : Reads (Parser.commaList "\x7d" importItem)
      (At E (plain true) (listed (.sign "\x7d" false) (fun name ↦ [.word name false]) line.names
        (u :: us)))
      (At E (plain true) (u :: us))
      (List.Forall₂ (fun name item ↦ item = .named false (.ident name) name) line.names) := by
    refine reads_commaList rfl rfl line.names (fun name hname ↦ ⟨_, _, rfl, ?_⟩)
      fun name hname v vs hv ↦ ?_
    · have hplain := List.all_eq_true.1 hnames name hname
      simp only [isPlainName, Bool.and_eq_true] at hplain
      simp [ne_of_isIdentifierText hplain.1 (s := "\x7d") (by decide)]
    · exact reads_importItem (List.all_eq_true.1 hnames name hname) hv
  refine reads_isAt.bind ?_
  rintro _ rfl
  obtain ⟨v, vs, hv⟩ := List.exists_cons_of_ne_nil
    (listed_ne_nil (.sign "\x7d" false) (fun name : String ↦ [.word name false]) line.names (u :: us))
  rw [hv] at hlist ⊢
  refine (reads_eat rfl).bind ?_
  rintro _ rfl
  refine hlist.mono fun items hitems ↦ ?_
  have hsame := List.forall₂_map_left_iff.2 (hitems.imp fun _ _ h ↦ h.symm)
  rw [List.forall₂_eq_eq_eq] at hsame
  exact hsame.symm

def IsString (t : Token) : Prop :=
  ∃ lone, t.kind = .string lone

theorem reads_importFrom {typeOnly : Bool} {items : List ImportItem} (ht : IsString t) :
    Reads (importFrom s typeOnly none items)
      (At E (plain true) (.word "from" false :: t :: .sign ";" false :: u :: us))
      (At E (plain true) (u :: us))
      (fun e ↦ ∃ span source, e = .importDecl span ⟨typeOnly, none, some items, source, none⟩) := by
  obtain ⟨lone, hkind⟩ := ht
  have hstring : Reads stringLiteral (At E (plain true) (t :: .sign ";" false :: u :: us))
      (At E (plain true) (.sign ";" false :: u :: us)) (fun _ ↦ True) := by
    refine reads_token.bind ?_
    rintro _ ⟨span, rfl⟩
    rw [Token.placed_kind, hkind]
    exact reads_next.bind fun _ _ ↦ .pure trivial
  have hattributes : Reads attributes (At E (plain true) (.sign ";" false :: u :: us))
      (At E (plain true) (.sign ";" false :: u :: us)) (· = none) := by
    refine reads_token.bind ?_
    rintro _ ⟨span, rfl⟩
    exact .pure rfl
  refine (reads_expect rfl).bind fun _ _ ↦ hstring.bind fun source _ ↦ hattributes.bind ?_
  rintro _ rfl
  refine (reads_semicolon rfl).bind fun _ _ ↦ reads_spanFrom.bind fun span _ ↦ ?_
  exact .pure ⟨span, source, rfl⟩

theorem reads_qualifiesImport :
    Reads qualifiesImport (At E (plain true) (.word "type" false :: .sign "\x7b" false :: us))
      (At E (plain true) (.word "type" false :: .sign "\x7b" false :: us)) (· = true) := by
  have hlook : Reads (do
      Parser.next
      let t ← Parser.token
      if t.isAny ["*", "\x7b"] then return true
      else if t.is "from" then Parser.ahead fun u => u.is "from" || u.is "="
      else return t.isIdentifier)
      (At E (plain true) (.word "type" false :: .sign "\x7b" false :: us))
      (At E (plain true) (.sign "\x7b" false :: us)) (· = true) := by
    refine reads_next.bind fun _ _ ↦ reads_token.bind ?_
    rintro _ ⟨span, rfl⟩
    exact .pure rfl
  refine (reads_look hlook).bind ?_
  rintro _ ⟨_, rfl, rfl⟩
  exact .pure rfl

theorem reads_qualifiesImport_any {A : Cursor → Prop} :
    Reads qualifiesImport A A (fun _ ↦ True) :=
  reads_look_any.bind fun _ _ ↦ .pure trivial

theorem reads_importList {typeOnly : Bool} (hnames : line.names.all isPlainName) (ht : IsString t) :
    Reads (do
      if (← Parser.atIdentifier) && (← Parser.ahead (·.is "=")) then
        let name ← Parser.identifier
        Parser.expect "="
        let target ← importTarget
        Parser.semicolon
        return .importEquals (← Parser.spanFrom s) typeOnly name target
      else
        let items ← importItems
        importFrom s typeOnly none items)
      (At E (plain true) (.sign "\x7b" false ::
        listed (.sign "\x7d" false) (fun name ↦ [.word name false]) line.names
          (.word "from" false :: t :: .sign ";" false :: u :: us)))
      (At E (plain true) (u :: us))
      (fun e ↦ ∃ span source, e = .importDecl span ⟨typeOnly, none,
        some (line.names.map fun name ↦ .named false (.ident name) name), source, none⟩) := by
  have hbrace (ts : List Token) : Reads Parser.atIdentifier (At E (plain true) (.sign "\x7b" false :: ts))
      (At E (plain true) (.sign "\x7b" false :: ts)) (· = false) := by
    refine reads_token.bind ?_
    rintro _ ⟨span, rfl⟩
    exact reads_isReferable
  refine (hbrace _).bind ?_
  rintro _ rfl
  refine reads_ahead_any.bind fun b _ ↦ (reads_importItems hnames).bind ?_
  rintro _ rfl
  exact reads_importFrom ht

theorem reads_importStatement (hnames : line.names.all isPlainName) (ht : IsString t) :
    Reads (importStatement s)
      (At E (plain true) (line.tokens newline (t :: .sign ";" false :: u :: us)))
      (At E (plain true) (u :: us)) line.IsRead := by
  unfold ImportLine.tokens ImportLine.IsRead
  unfold importStatement
  cases line.typeOnly with
  | false =>
    refine (reads_expect rfl).bind fun _ _ ↦ reads_token.bind ?_
    rintro _ ⟨span, rfl⟩
    refine reads_qualifiesImport_any.bind fun b _ ↦ ?_
    refine Reads.bind (P := (· = false)) (.pure rfl) ?_
    rintro _ rfl
    refine reads_qualifiesImport_any.bind fun b' _ ↦ ?_
    refine Reads.bind (P := (· = none)) (.pure rfl) ?_
    rintro _ rfl
    exact reads_importList hnames ht
  | true =>
    refine (reads_expect rfl).bind fun _ _ ↦ reads_token.bind ?_
    rintro _ ⟨span, rfl⟩
    refine reads_qualifiesImport.bind ?_
    rintro _ rfl
    refine reads_next.bind fun _ _ ↦ Reads.bind (P := (· = true)) (.pure rfl) ?_
    rintro _ rfl
    refine reads_qualifiesImport_any.bind fun b _ ↦ ?_
    refine Reads.bind (P := (· = none)) (.pure rfl) ?_
    rintro _ rfl
    exact reads_importList hnames ht

theorem reads_statement_import (hnames : line.names.all isPlainName) (ht : IsString t) :
    Reads (statement goal .top)
      (At E (plain true) (line.tokens newline (t :: .sign ";" false :: u :: us)))
      (At E (plain true) (u :: us)) line.IsRead := by
  obtain ⟨v, vs, hv, hcall⟩ : ∃ v vs, line.tokens newline (t :: .sign ";" false :: u :: us) =
      .word "import" newline :: v :: vs ∧ (v.is "(" || v.is ".") = false := by
    unfold ImportLine.tokens
    cases line.typeOnly with
    | false => exact ⟨_, _, rfl, rfl⟩
    | true => exact ⟨_, _, rfl, rfl⟩
  have hread (s : Nat) : Reads (importStatement s)
      (At E (plain true) (line.tokens newline (t :: .sign ";" false :: u :: us)))
      (At E (plain true) (u :: us)) line.IsRead := reads_importStatement hnames ht
  rw [hv] at hread ⊢
  refine reads_token.bind ?_
  rintro _ ⟨span, rfl⟩
  refine reads_ahead.bind ?_
  rintro _ ⟨_, rfl⟩
  simp only [Token.is_placed, Token.is_word, hcall, beq_self_eq_true, Bool.not_false, Bool.and_true,
    if_true]
  refine (reads_guarded rfl).bind fun _ _ ↦ (hread span.start).bind fun e he ↦ ?_
  exact .pure he

end Imports

namespace ImportLine

def text (line : ImportLine) : String :=
  (if line.typeOnly then "import type" else "import") ++ " \x7b " ++ ", ".intercalate line.names
    ++ " \x7d from \"" ++ line.source ++ "\";"

def namePieces : List String → List Piece
  | [] => [.gap ' ', .sign '\x7d', .gap ' ', .name "from", .gap ' ']
  | [name] => [.name name, .gap ' ', .sign '\x7d', .gap ' ', .name "from", .gap ' ']
  | name :: names => .name name :: .sign ',' :: .gap ' ' :: namePieces names

def pieces (line : ImportLine) : List Piece :=
  .name "import" :: .gap ' ' :: ((if line.typeOnly then [.name "type", .gap ' '] else []) ++
    .sign '\x7b' :: .gap ' ' :: namePieces line.names)

theorem written_namePieces (names : List String) (rest : List Char) :
    Piece.written (namePieces names) rest =
      (", ".intercalate names).toList ++ (" \x7d from ".toList ++ rest) := by
  induction names with
  | nil => rfl
  | cons name names ih =>
    cases names with
    | nil => simp [namePieces, Piece.written, Piece.text]
    | cons name' names =>
      rw [namePieces, Piece.written, Piece.written, Piece.written, ih]
      · simp [String.intercalate_cons_cons, Piece.text]
      · simp

theorem tokens_namePieces (names : List String) (t : Token) (ts : List Token) :
    Piece.tokens false (namePieces names) (t :: ts) =
      listed (.sign "\x7d" false) (fun name ↦ [.word name false]) names
        (.word "from" false :: t :: ts) := by
  induction names with
  | nil => rfl
  | cons name names ih =>
    cases names with
    | nil => rfl
    | cons name' names => exact congrArg ([.word name false, .sign "," false] ++ ·) ih

theorem fitAll_namePieces {names : List String} (hnames : names.all isPlainName) (rest : List Char) :
    Piece.fitAll (namePieces names) rest := by
  induction names with
  | nil => rfl
  | cons name names ih =>
    obtain ⟨hname, hnames⟩ := Bool.and_eq_true_iff.1 hnames
    have htext := Glue.isNameText_of_isPlainName hname
    cases names with
    | nil =>
      simp only [namePieces, Piece.fitAll, Piece.fits, htext]
      rfl
    | cons name' names =>
      rw [namePieces, Piece.fitAll, Piece.fitAll, Piece.fitAll, ih hnames]
      · simp only [Piece.fits, htext]
        rfl
      · simp

theorem written_pieces (line : ImportLine) (rest : List Char) :
    Piece.written line.pieces (quoted line.source ++ ';' :: rest) = line.text.toList ++ rest := by
  unfold pieces text
  cases line.typeOnly with
  | false => simp [Piece.written, Piece.text, written_namePieces, quoted]
  | true => simp [Piece.written, Piece.text, written_namePieces, quoted]

theorem tokens_pieces (line : ImportLine) (newline : Bool) (t : Token) (ts : List Token) :
    Piece.tokens newline line.pieces (t :: ts) = line.tokens newline (t :: ts) := by
  unfold pieces tokens
  rw [← tokens_namePieces]
  cases line.typeOnly with
  | false => rfl
  | true => rfl

theorem spells_text {E : List Char → Prop} {line : ImportLine} (h : line.isReadable)
    {gap rest : List Char} {ts : List Token} (hgap : gap.all isSpace) (hrest : Spells E rest ts) :
    ∃ t, IsString t ∧ Spells E (gap ++ (line.text.toList ++ rest))
      (line.tokens (gap.any Text.isLineEnd) (t :: .sign ";" false :: ts)) := by
  obtain ⟨hnames, hsource⟩ := Bool.and_eq_true_iff.1 h
  obtain ⟨lone, value, hfronts⟩ := fronts_quoted hsource (';' :: rest)
  let t : Token :=
    ⟨.string lone, value, .ofList (quoted line.source), ⟨0, 0⟩, false, false, false, false⟩
  have hbehind : Spells E ([] ++ (quoted line.source ++ ';' :: rest)) (t :: .sign ";" false :: ts) :=
    .cons rfl hfronts (.alone (by decide) hrest)
  have hfit : Piece.fitAll line.pieces ([] ++ (quoted line.source ++ ';' :: rest)) := by
    unfold pieces
    cases line.typeOnly <;>
    · simp only [Piece.fitAll, fitAll_namePieces hnames, List.nil_append, List.cons_append,
        if_true, if_false, Bool.false_eq_true]
      rfl
  have hspells := spells_written hgap hfit hbehind (.inl (by simp))
  rw [List.nil_append, written_pieces, tokens_pieces] at hspells
  exact ⟨t, ⟨lone, rfl⟩, hspells⟩

end ImportLine

section Files

variable {E : List Char → Prop}

/-- Tokens of imports, each with the string of its module; all but the first start a line. -/
def importTokens : List (Bool × ImportLine × Token) → List Token
  | [] => [.ending false]
  | (newline, line, t) :: items => line.tokens newline (t :: .sign ";" false :: importTokens items)

theorem importTokens_ne_nil (items : List (Bool × ImportLine × Token)) : importTokens items ≠ [] := by
  fun_cases importTokens items
  · simp
  · simp [ImportLine.tokens]

theorem suffix_listed {β : Type} (close : Token) (own : β → List Token) (items : List β)
    (us : List Token) : us <:+ listed close own items us := by
  induction items with
  | nil => exact List.suffix_cons close us
  | cons b bs ih =>
    cases bs with
    | nil => exact (List.suffix_cons close us).trans (List.suffix_append (own b) _)
    | cons b' bs => exact (ih.trans (List.suffix_cons _ _)).trans (List.suffix_append (own b) _)

theorem length_lt_importTokens (items : List (Bool × ImportLine × Token)) :
    items.length < (importTokens items).length := by
  induction items with
  | nil => simp [importTokens]
  | cons item items ih =>
    obtain ⟨newline, line, t⟩ := item
    have hlisted := (suffix_listed (.sign "\x7d" false) (fun name : String ↦ [.word name false])
      line.names (.word "from" false :: t :: .sign ";" false :: importTokens items)).length_le
    simp only [importTokens, ImportLine.tokens, List.length_cons, List.length_append] at hlisted ⊢
    omega

theorem spells_lines (lines : List ImportLine) (h : ∀ line ∈ lines, line.isReadable) {gap : List Char}
    (hgap : gap.all isSpace) (hne : lines ≠ []) :
    ∃ items : List (Bool × ImportLine × Token), items.map (·.2.1) = lines ∧
      (∀ item ∈ items, IsString item.2.2) ∧
      Spells E (gap ++ ("\n".intercalate (lines.map ImportLine.text)).toList) (importTokens items) := by
  induction lines generalizing gap with
  | nil => exact absurd rfl hne
  | cons line lines ih =>
    have hline := h line (by simp)
    cases lines with
    | nil =>
      have hend : Spells E [] [.ending false] := .ending rfl
      obtain ⟨t, ht, hspells⟩ := ImportLine.spells_text hline hgap hend
      refine ⟨[(gap.any Text.isLineEnd, line, t)], rfl, by simpa using ht, ?_⟩
      simpa [importTokens] using hspells
    | cons line' lines =>
      have hbreak : ['\n'].all isSpace := by decide
      obtain ⟨items, hitems, hstrings, hrest⟩ :=
        ih (fun l hl ↦ h l (List.mem_cons_of_mem _ hl)) hbreak (by simp)
      obtain ⟨t, ht, hspells⟩ := ImportLine.spells_text hline hgap hrest
      refine ⟨(gap.any Text.isLineEnd, line, t) :: items, by simp [hitems], ?_, ?_⟩
      · exact List.forall_mem_cons.2 ⟨ht, hstrings⟩
      · simpa [importTokens, String.intercalate_cons_cons] using hspells

theorem reads_bodyItems_imports {d : Nat} (items : List (Bool × ImportLine × Token))
    (h : ∀ item ∈ items, item.2.1.names.all isPlainName ∧ IsString item.2.2) :
    Reads (bodyItems (goals (d + 1)) .top Parser.atStop) (At E (plain true) (importTokens items))
      (At E (plain true) (importTokens []))
      (fun r ↦ r.1 = [] ∧ List.Forall₂ (fun item ↦ item.2.1.IsRead) items r.2) := by
  refine reads_bodyItems importTokens items (fun b bs hbs ↦ ?_) (fun b bs hbs ↦ ?_) reads_atStop
    (length_lt_importTokens items) fun b bs hbs ↦ ⟨_, _, rfl, rfl⟩
  · obtain ⟨hnames, hstring⟩ := h b (hbs.mem (by simp))
    obtain ⟨u, us, hus⟩ := List.exists_cons_of_ne_nil (importTokens_ne_nil bs)
    rw [importTokens, hus]
    exact reads_statement_import hnames hstring
  · exact reads_atStop

theorem hashbang_lines {lines : List ImportLine} (hne : lines ≠ []) :
    hashbang ("\n".intercalate (lines.map ImportLine.text)).toList =
      (none, ("\n".intercalate (lines.map ImportLine.text)).toList) := by
  have hline (line : ImportLine) : line.text.toList.head? = some 'i' := by
    unfold ImportLine.text
    cases line.typeOnly with
    | false => simp
    | true => simp
  have hlines : ("\n".intercalate (lines.map ImportLine.text)).toList.head? = some 'i' := by
    cases lines with
    | nil => exact absurd rfl hne
    | cons line lines =>
      cases lines with
      | nil => simpa using hline line
      | cons line' lines => simp [String.intercalate_cons_cons, List.head?_append, hline line]
  obtain ⟨cs, hcs⟩ := List.head?_eq_some_iff.1 hlines
  rw [hcs]
  exact hashbang_cons (by decide) cs

theorem moduleItems_eq_ok {lines : List ImportLine} (h : ∀ line ∈ lines, line.isReadable)
    (hne : lines ≠ []) :
    ∃ stmts, Glue.moduleItems ("\n".intercalate (lines.map ImportLine.text)) = .ok stmts ∧
      List.Forall₂ ImportLine.IsRead lines stmts := by
  have hgap : ([] : List Char).all isSpace := rfl
  obtain ⟨items, rfl, hstrings, hspells⟩ := spells_lines (E := fun _ ↦ False) lines h hgap hne
  have hashbang := hashbang_lines hne
  generalize "\n".intercalate ((items.map (·.2.1)).map ImportLine.text) = text at hspells hashbang ⊢
  let size := Text.byteWidth text.toList
  have hitems : ∀ item ∈ items, item.2.1.names.all isPlainName ∧ IsString item.2.2 := by
    intro item hitem
    have hreadable := h item.2.1 (List.mem_map_of_mem hitem)
    exact ⟨(Bool.and_eq_true_iff.1 hreadable).1, hstrings item hitem⟩
  obtain ⟨u, us, hus⟩ := List.exists_cons_of_ne_nil (importTokens_ne_nil items)
  have hread := reads_bodyItems_imports (E := fun _ ↦ False) (d := 8 * size + 63) items hitems
  rw [List.nil_append, hus] at hspells
  rw [hus] at hread
  have hbefore : Before (plain true) text.toList
      (Parser.initial text.toList (size - size) size false) :=
    ⟨rfl, rfl, rfl, rfl, by simp [Parser.initial, size]⟩
  obtain ⟨r, c, hrun, -, -, hr⟩ := reads_program_of_items hread _ ⟨text.toList, hspells, hbefore⟩
  refine ⟨r.2, ?_, List.forall₂_map_left_iff.2 hr⟩
  have hparse : parse? text false = some ⟨⟨none, r.1, r.2, false⟩, c.comments.reverse⟩ := by
    simp only [parse?, hashbang]
    rw [show depth (Text.byteWidth text.toList) = 8 * size + 63 + 1 from rfl, hrun]
    rfl
  rw [Glue.moduleItems, hparse]

end Files

end Recompose.Script
