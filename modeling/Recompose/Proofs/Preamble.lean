import Recompose.Proofs.Reading.Snippet

namespace Recompose.Preamble

open Script Parse Text

/-- The scope is opened with an identity and the number of its parameters. -/
def IsOpening (offset : UInt64) (count : Nat) : Node → Prop :=
  IsConst fun items ↦ ∃ item, items = [item] ∧
    IsDeclarator "__memo_scope" (IsMethodCall "__memo_context" "scope"
      (List.Forall₂ Atom.IsRead [.sum "__memo_id" (Identity.literal offset), .digits (toString count)]))
      item

def IsBox (r : Nat × String) : Node → Prop :=
  IsDeclarator ("__memo_parameter_" ++ r.2) (IsMethodCall "__memo_scope" "param"
    (List.Forall₂ Atom.IsRead [.digits (toString r.1), .name r.2]))

def IsShortcut (kind : ReturnKind) (stmt : Node) : Prop :=
  ∃ span test outer stmts, stmt = .ifStmt span test (.block outer stmts) none ∧
    IsField "__memo_scope" "unchanged" test ∧
    if kind.isVoid then
      ∃ s e s', stmts = [.exprStmt s e, .returnStmt s' none] ∧ IsField "__memo_scope" "cached" e
    else ∃ s e, stmts = [.returnStmt s (some e)] ∧ IsField "__memo_scope" "cached" e

inductive Part where
  | opening | boxes | shortcut

def openingPieces : List Piece :=
  [.name "function", .gap ' ', .name "__memo_snippet", .sign '(', .sign ')', .gap ' ', .sign '{',
    .gap '\n', .name "const", .gap ' ', .name "__memo_scope", .gap ' ', .sign '=', .gap ' ',
    .name "__memo_context", .sign '.', .name "scope"]

def argumentPieces (offset : UInt64) (count : Nat) : List Piece :=
  [.name "__memo_id", .gap ' ', .sign '+', .gap ' ', .digits (Identity.literal offset),
    .sign ',', .gap ' ', .digits (toString count), .sign ')', .sign ';']

def boxPieces (r : Nat × String) : List Piece :=
  [.name ("__memo_parameter_" ++ r.2), .gap ' ', .sign '=', .gap ' ', .name "__memo_scope", .sign '.',
    .name "param", .sign '(', .digits (toString r.1), .sign ',', .gap ' ', .name r.2, .sign ')']

def moreBoxPieces : List (Nat × String) → List Piece
  | [] => [.sign ';']
  | r :: rs => .sign ',' :: .gap ' ' :: (boxPieces r ++ moreBoxPieces rs)

def boxesPieces : List (Nat × String) → List Piece
  | [] => []
  | r :: rs => .gap '\n' :: .name "const" :: .gap ' ' :: (boxPieces r ++ moreBoxPieces rs)

def shortcutPieces (kind : ReturnKind) : List Piece :=
  [.gap '\n', .name "if", .gap ' ', .sign '(', .name "__memo_scope", .sign '.', .name "unchanged",
    .sign ')', .gap ' ', .sign '{', .gap '\n'] ++
  (if kind.isVoid then
    [.name "__memo_scope", .sign '.', .name "cached", .sign ';', .gap '\n', .name "return", .sign ';']
  else [.name "return", .gap ' ', .name "__memo_scope", .sign '.', .name "cached", .sign ';']) ++
  [.gap '\n', .sign '}', .gap '\n', .gap '\n', .sign '}']

def preambleText (offset : UInt64) (kind : ReturnKind) (registered : List (Nat × String)) : String :=
  Glue.scopeText {} offset kind registered.length ++ Glue.registrationsText {} registered ++
    Glue.shortcutText {} kind

theorem scopeText_eq (offset : UInt64) (kind : ReturnKind) (count : Nat) :
    Glue.scopeText {} offset kind count = "const " ++ "__memo_scope" ++ " = " ++ "__memo_context" ++ "."
      ++ "scope" ++ kind.typeArguments ++ "(" ++ "__memo_id" ++ " + " ++ Identity.literal offset ++ ", "
      ++ toString count ++ ");\n" :=
  rfl

theorem registrationText_eq (r : Nat × String) :
    Glue.registrationText {} r.1 r.2 = "__memo_parameter_" ++ r.2 ++ " = " ++ "__memo_scope" ++ "."
      ++ "param" ++ "(" ++ toString r.1 ++ ", " ++ r.2 ++ ")" :=
  rfl

theorem shortcutText_eq (kind : ReturnKind) :
    Glue.shortcutText {} kind = if kind.isVoid then
      "if (__memo_scope.unchanged) \x7b\n__memo_scope.cached;\nreturn;\n\x7d\n"
    else "if (__memo_scope.unchanged) \x7b\nreturn __memo_scope.cached;\n\x7d\n" := by
  cases h : kind.isVoid with
  | true =>
    simp only [Glue.shortcutText, h, if_true]
    rfl
  | false =>
    simp only [Glue.shortcutText, h, Bool.false_eq_true, if_false]
    rfl

theorem written_box (r : Nat × String) (rest : List Char) :
    Piece.written (boxPieces r) rest = (Glue.registrationText {} r.1 r.2).toList ++ rest := by
  simp [boxPieces, Piece.written, Piece.text, registrationText_eq]

theorem written_moreBoxes (r : Nat × String) (rs : List (Nat × String)) (rest : List Char) :
    Piece.written (boxPieces r ++ moreBoxPieces rs) rest =
      (", ".intercalate ((r :: rs).map fun r ↦ Glue.registrationText {} r.1 r.2)).toList ++ ';' :: rest := by
  induction rs generalizing r with
  | nil =>
    rw [Piece.written_append, written_box]
    simp [moreBoxPieces, Piece.written, Piece.text]
  | cons r' rs ih =>
    rw [Piece.written_append, written_box, moreBoxPieces, Piece.written, Piece.written, ih]
    simp only [List.map_cons, String.intercalate_cons_cons, String.toList_append, List.append_assoc]
    rfl

theorem written_boxes (registered : List (Nat × String)) (rest : List Char) :
    Piece.written (boxesPieces registered) ('\n' :: rest) =
      '\n' :: ((Glue.registrationsText {} registered).toList ++ rest) := by
  cases registered with
  | nil => rfl
  | cons r rs =>
    have htext : Glue.registrationsText {} (r :: rs) = "const " ++
        ", ".intercalate ((r :: rs).map fun r ↦ Glue.registrationText {} r.1 r.2) ++ ";\n" := rfl
    rw [htext, boxesPieces, Piece.written, Piece.written, Piece.written, written_moreBoxes]
    simp [Piece.text]

theorem toList_preambleText (offset : UInt64) (kind : ReturnKind) (registered : List (Nat × String)) :
    (snippetText "" (preambleText offset kind registered)).toList =
      Piece.written openingPieces (kind.typeArguments.toList ++ '(' ::
        Piece.written (argumentPieces offset registered.length ++ (boxesPieces registered ++
          shortcutPieces kind)) []) := by
  have hshortcut : Piece.written (shortcutPieces kind) [] =
      '\n' :: ((Glue.shortcutText {} kind).toList ++ "\n\x7d".toList) := by
    rw [shortcutText_eq, shortcutPieces]
    cases kind.isVoid <;> simp [Piece.written, Piece.text]
  rw [Piece.written_append, Piece.written_append, hshortcut, written_boxes, snippetText_eq]
  have htext : preambleText offset kind registered = Glue.scopeText {} offset kind registered.length ++
    Glue.registrationsText {} registered ++ Glue.shortcutText {} kind := rfl
  rw [htext, scopeText_eq]
  simp [openingPieces, argumentPieces, Piece.written, Piece.text]

def boxTokens (r : Nat × String) : List Token :=
  .word ("__memo_parameter_" ++ r.2) false :: .sign "=" false :: .word "__memo_scope" false ::
    .sign "." false :: .word "param" false :: .sign "(" false :: .digits (toString r.1) false ::
    .sign "," false :: .word r.2 false :: [.sign ")" false]

def argumentTokens (offset : UInt64) (count : Nat) (us : List Token) : List Token :=
  listed (.sign ")" false) Atom.tokens
    [.sum "__memo_id" (Identity.literal offset), .digits (toString count)] (.sign ";" false :: us)

def openingTokens (us : List Token) : List Token :=
  .word "const" true :: .word "__memo_scope" false :: .sign "=" false :: .word "__memo_context" false ::
    .sign "." false :: .word "scope" false :: us

def boxesTokens (registered : List (Nat × String)) (us : List Token) : List Token :=
  match registered with
  | [] => us
  | r :: rs => .word "const" true :: (boxTokens r ++ declared boxTokens rs us)

def shortcutTokens (kind : ReturnKind) (us : List Token) : List Token :=
  .word "if" true :: .sign "(" false :: .word "__memo_scope" false :: .sign "." false ::
    .word "unchanged" false :: .sign ")" false :: .sign "\x7b" false ::
    if kind.isVoid then
      .word "__memo_scope" true :: .sign "." false :: .word "cached" false :: .sign ";" false ::
        .word "return" true :: .sign ";" false :: .sign "\x7d" true :: us
    else
      .word "return" true :: .word "__memo_scope" false :: .sign "." false :: .word "cached" false ::
        .sign ";" false :: .sign "\x7d" true :: us

def endTokens : List Token :=
  [.sign "\x7d" true, .ending false]

theorem tokens_moreBoxes (rs : List (Nat × String)) (ps : List Piece) (ts : List Token) :
    Piece.tokens false (moreBoxPieces rs ++ ps) ts = declared boxTokens rs (Piece.tokens false ps ts) := by
  induction rs with
  | nil => rfl
  | cons r rs ih =>
    rw [declared, ← ih]
    rfl

theorem tokens_boxes (registered : List (Nat × String)) (ps : List Piece) (ts : List Token) :
    Piece.tokens false (boxesPieces registered ++ ps) ts =
      boxesTokens registered (Piece.tokens false ps ts) := by
  cases registered with
  | nil => rfl
  | cons r rs =>
    rw [boxesTokens, ← tokens_moreBoxes]
    rfl

theorem tokens_shortcut (kind : ReturnKind) :
    Piece.tokens false (shortcutPieces kind) [.ending false] = shortcutTokens kind endTokens := by
  rw [shortcutPieces, shortcutTokens]
  cases kind.isVoid <;> rfl

theorem tokens_arguments (offset : UInt64) (count : Nat) (ps : List Piece) (ts : List Token) :
    Piece.tokens false (argumentPieces offset count ++ ps) ts =
      argumentTokens offset count (Piece.tokens false ps ts) :=
  rfl

theorem isDigits_toString (n : Nat) : isDigits (toString n).toList := by
  rw [Nat.toString_eq_ofList_toDigits, String.toList_ofList, isDigits, Bool.and_eq_true]
  refine ⟨by simp [Nat.toDigits_ne_nil], List.all_eq_true.2 fun c hc ↦ ?_⟩
  exact Nat.isDigit_of_mem_toDigits (by decide) (by decide) hc

theorem isIdentifierText_of_mem :
    ∀ name ∈ ["__memo_scope", "__memo_context", "__memo_id", "undefined"], isIdentifierText name := by
  decide

theorem isIdentifierText_parameter {name : String} (h : isIdentifierText name) :
    isIdentifierText ("__memo_parameter_" ++ name) := by
  have htext : isNameText name.toList := (Bool.and_eq_true_iff.1 h).1
  have hparts : name.toList.all isNamePart := by
    cases hname : name.toList with
    | nil => rfl
    | cons c cs =>
      rw [hname] at htext
      obtain ⟨hstart, hall⟩ := Bool.and_eq_true_iff.1 htext
      simp only [List.all_cons, isNamePart_of_isNameStart hstart, hall, Bool.and_self]
  have hlist : ("__memo_parameter_" ++ name).toList = '_' :: ("_memo_parameter_".toList ++ name.toList) := by
    simp
  have hprefix : "_memo_parameter_".toList.all isNamePart := by decide
  have hunderscore : isNameStart '_' := by decide
  have hheads : ∀ r ∈ Token.reserved, r.toList.head? ≠ some '_' := by decide
  rw [isIdentifierText, Bool.and_eq_true, Bool.not_eq_true']
  constructor
  · rw [hlist, isNameText, hunderscore, List.all_append, hprefix, hparts]
    rfl
  · rw [List.contains_eq_any_beq, List.any_eq_false]
    intro r hr heq
    obtain rfl := beq_iff_eq.1 heq
    exact hheads _ hr (by rw [hlist, List.head?_cons])

theorem fitAll_append (ps qs : List Piece) (rest : List Char) :
    Piece.fitAll (ps ++ qs) rest = (Piece.fitAll ps (Piece.written qs rest) && Piece.fitAll qs rest) := by
  induction ps with
  | nil => rfl
  | cons p ps ih => simp [Piece.fitAll, ih, Piece.written_append, Bool.and_assoc]

theorem fitAll_arguments (offset : UInt64) (count : Nat) (rest : List Char) :
    Piece.fitAll (argumentPieces offset count) rest := by
  have hoffset : isDigits (Identity.literal offset).toList := isDigits_toString _
  have hcount : isDigits (toString count).toList := isDigits_toString _
  simp only [argumentPieces, Piece.fitAll, Piece.fits, Piece.written, Piece.text, hoffset, hcount]
  rfl

theorem fitAll_box {r : Nat × String} (hr : isIdentifierText r.2) (rest : List Char) :
    Piece.fitAll (boxPieces r) rest := by
  have hslot : isDigits (toString r.1).toList := isDigits_toString _
  have hname : isNameText r.2.toList := (Bool.and_eq_true_iff.1 hr).1
  have hbox : isNameText ("__memo_parameter_" ++ r.2).toList :=
    (Bool.and_eq_true_iff.1 (isIdentifierText_parameter hr)).1
  simp only [boxPieces, Piece.fitAll, Piece.fits, Piece.written, Piece.text, hslot, hname, hbox]
  rfl

theorem fitAll_moreBoxes {rs : List (Nat × String)} (hrs : ∀ r ∈ rs, isIdentifierText r.2)
    (rest : List Char) : Piece.fitAll (moreBoxPieces rs) rest := by
  induction rs with
  | nil => rfl
  | cons r rs ih =>
    have hbox := fitAll_box (hrs r (by simp)) (Piece.written (moreBoxPieces rs) rest)
    have hmore := ih fun r hr ↦ hrs r (List.mem_cons_of_mem _ hr)
    rw [moreBoxPieces, Piece.fitAll, Piece.fitAll, fitAll_append, hbox, hmore]
    rfl

theorem fitAll_boxes {registered : List (Nat × String)}
    (hregistered : ∀ r ∈ registered, isIdentifierText r.2) (rest : List Char) :
    Piece.fitAll (boxesPieces registered) rest := by
  cases registered with
  | nil => rfl
  | cons r rs =>
    have hbox := fitAll_box (hregistered r (by simp)) (Piece.written (moreBoxPieces rs) rest)
    have hmore := fitAll_moreBoxes (fun r hr ↦ hregistered r (List.mem_cons_of_mem _ hr)) rest
    rw [boxesPieces, Piece.fitAll, Piece.fitAll, Piece.fitAll, fitAll_append, hbox, hmore]
    rfl

theorem fitAll_shortcut (kind : ReturnKind) : Piece.fitAll (shortcutPieces kind) [] := by
  rw [shortcutPieces]
  cases kind.isVoid <;> rfl

section Statements

variable {E : List Char → Prop} {d : Nat} {u : Token} {ts us : List Token}

theorem reads_box {r : Nat × String} (hr : isIdentifierText r.2) (rs : List (Nat × String)) :
    Reads (declarator (goals (d + 5)) .constant true)
      (At E (plain false) (boxTokens r ++ declared boxTokens rs us))
      (At E (plain false) (declared boxTokens rs us)) (IsBox r) := by
  have hread (u : Token) (us : List Token) (hu : endsAssign u) :
      Reads (declarator (goals (d + 5)) .constant true) (At E (plain false) (boxTokens r ++ u :: us))
        (At E (plain false) (u :: us)) (IsBox r) := by
    have hcall : Reads (goals (d + 5) (.assign true))
        (At E (plain false) (.word "__memo_scope" false :: .sign "." false :: .word "param" false ::
          .sign "(" false :: listed (.sign ")" false) Atom.tokens
            [.digits (toString r.1), .name r.2] (u :: us)))
        (At E (plain false) (u :: us)) (IsMethodCall "__memo_scope" "param"
          (List.Forall₂ Atom.IsRead [.digits (toString r.1), .name r.2])) := by
      refine reads_methodCall (isIdentifierText_of_mem _ (by simp)) rfl readsMethod_of_open (fun atom hatom ↦ ?_) hu
      rcases List.mem_pair.1 hatom with rfl | rfl
      · rfl
      · simp [Atom.isReferable, hr]
    exact reads_declarator (isIdentifierText_parameter hr) rfl hcall
  cases rs with
  | nil => exact hread _ _ rfl
  | cons r' rs => exact hread _ _ rfl

theorem reads_boxes {r : Nat × String} {rs : List (Nat × String)}
    (hregistered : ∀ r' ∈ r :: rs, isIdentifierText r'.2) :
    Reads (goals (d + 6) (.stmt .list)) (At E (plain false) (boxesTokens (r :: rs) (u :: us)))
      (At E (plain false) (u :: us)) (IsConst (List.Forall₂ IsBox (r :: rs))) := by
  have hitems : Reads (declarators (goals (d + 5)) .constant true)
      (At E (plain false) (boxTokens r ++ declared boxTokens rs (u :: us)))
      (At E (plain false) (.sign ";" false :: u :: us)) (List.Forall₂ IsBox (r :: rs)) := by
    refine (reads_declarators (R := IsBox) (reads_box (hregistered r (by simp)) rs) (by simp [boxTokens])
      fun r' hr' bs ↦ reads_box (hregistered r' (List.mem_cons_of_mem _ hr')) bs).mono ?_
    rintro _ ⟨x, xs, rfl, hx, hxs⟩
    exact .cons hx hxs
  have henum : (Token.word ("__memo_parameter_" ++ r.2) false).is "enum" = false := by
    simp [ne_of_isIdentifierText (isIdentifierText_parameter (hregistered r (by simp))) (s := "enum")
      (by decide)]
  exact reads_statement rfl rfl (reads_localStatement_const (by simp) henum
    fun _ ↦ reads_varStatement hitems)

theorem reads_opening {offset : UInt64} {count : Nat}
    (hmethod : ReadsMethod E (plain false) (goals (d + 3)) "__memo_context" "scope" ts
      (argumentTokens offset count (u :: us))) :
    Reads (goals (d + 6) (.stmt .list)) (At E (plain false) (openingTokens ts))
      (At E (plain false) (u :: us)) (IsOpening offset count) := by
  have hcall : Reads (goals (d + 5) (.assign true))
      (At E (plain false) (.word "__memo_context" false :: .sign "." false :: .word "scope" false :: ts))
      (At E (plain false) (.sign ";" false :: u :: us)) (IsMethodCall "__memo_context" "scope"
        (List.Forall₂ Atom.IsRead
          [.sum "__memo_id" (Identity.literal offset), .digits (toString count)])) := by
    refine reads_methodCall (isIdentifierText_of_mem _ (by simp)) rfl hmethod (fun atom hatom ↦ ?_) rfl
    rcases List.mem_pair.1 hatom with rfl | rfl
    · have hname : isIdentifierText "__memo_id" := isIdentifierText_of_mem _ (by simp)
      simp [Atom.isReferable, hname]
    · rfl
  have hfirst : Reads (declarator (goals (d + 5)) .constant true)
      (At E (plain false) (.word "__memo_scope" false :: .sign "=" false ::
        .word "__memo_context" false :: .sign "." false :: .word "scope" false :: ts))
      (At E (plain false) (declared (fun _ : Empty ↦ []) [] (u :: us))) _ :=
    reads_declarator (isIdentifierText_of_mem _ (by simp)) rfl hcall
  have hitems := (reads_declarators (R := fun _ _ ↦ True) hfirst (fun b ↦ b.elim) (fun b ↦ b.elim))
  refine reads_statement rfl rfl (reads_localStatement_const (by simp) rfl
    fun _ ↦ reads_varStatement (hitems.mono ?_))
  rintro _ ⟨x, xs, rfl, hx, hxs⟩
  rw [List.forall₂_nil_left_iff.1 hxs]
  exact ⟨x, rfl, hx⟩

theorem reads_scopeField {field : String} {newline : Bool} (hu : endsExpr u) :
    Reads (goals (d + 3) .expr)
      (At E (plain false) (.word "__memo_scope" newline :: .sign "." false :: .word field false :: u :: us))
      (At E (plain false) (u :: us)) (IsField "__memo_scope" field) := by
  have hassign : endsAssign u := (Bool.and_eq_true_iff.1 hu).1
  have hname : isIdentifierText "__memo_scope" := isIdentifierText_of_mem _ (by simp)
  exact reads_sequence (reads_goal_assign (.word hname rfl newline) rfl
    (reads_operand_field hname rfl (endsOperand_of_endsAssign hassign)) hassign) hu

def shortcutItems (kind : ReturnKind) : List (List Token × (Node → Prop)) :=
  if kind.isVoid then
    [([.word "__memo_scope" true, .sign "." false, .word "cached" false, .sign ";" false],
      fun stmt ↦ ∃ span e, stmt = .exprStmt span e ∧ IsField "__memo_scope" "cached" e),
    ([.word "return" true, .sign ";" false], fun stmt ↦ ∃ span, stmt = .returnStmt span none)]
  else
    [([.word "return" true, .word "__memo_scope" false, .sign "." false, .word "cached" false,
      .sign ";" false],
      fun stmt ↦ ∃ span e, stmt = .returnStmt span (some e) ∧ IsField "__memo_scope" "cached" e)]

theorem reads_shortcutItem {kind : ReturnKind} {item : List Token × (Node → Prop)}
    (hitem : item ∈ shortcutItems kind) :
    Reads (goals (d + 6) (.stmt .list)) (At E (plain false) (item.1 ++ u :: us))
      (At E (plain false) (u :: us)) item.2 := by
  rw [shortcutItems] at hitem
  split at hitem
  · rcases List.mem_pair.1 hitem with rfl | rfl
    · exact reads_statement rfl rfl (reads_localStatement_scope
        (reads_expressionStatement rfl (reads_scopeField rfl)))
    · exact reads_statement rfl rfl (reads_localStatement_control (fun _ ↦ rfl)
        reads_returnStatement_none)
  · obtain rfl := List.mem_singleton.1 hitem
    exact reads_statement rfl rfl (reads_localStatement_control (fun _ ↦ rfl)
      (reads_returnStatement rfl (reads_scopeField rfl)))

theorem shortcutTokens_eq (kind : ReturnKind) (us : List Token) :
    shortcutTokens kind us = .word "if" true :: .sign "(" false :: .word "__memo_scope" false ::
      .sign "." false :: .word "unchanged" false :: .sign ")" false :: .sign "\x7b" false ::
      ((shortcutItems kind).flatMap (·.1) ++ .sign "\x7d" true :: us) := by
  rw [shortcutTokens, shortcutItems]
  cases kind.isVoid <;> rfl

theorem isShortcut_of_items {kind : ReturnKind} {test : Node} {stmts : List Node} {span outer : Span}
    (htest : IsField "__memo_scope" "unchanged" test)
    (hstmts : List.Forall₂ (fun item ↦ item.2) (shortcutItems kind) stmts) :
    IsShortcut kind (.ifStmt span test (.block outer stmts) none) := by
  refine ⟨span, test, outer, stmts, rfl, htest, ?_⟩
  rw [shortcutItems] at hstmts
  split
  · next hvoid =>
    rw [if_pos hvoid] at hstmts
    obtain _ | ⟨⟨s, e, rfl, he⟩, _ | ⟨⟨s', rfl⟩, _ | _⟩⟩ := hstmts
    exact ⟨s, e, s', rfl, he⟩
  · next hvoid =>
    rw [if_neg hvoid] at hstmts
    obtain _ | ⟨⟨s, e, rfl, he⟩, _ | _⟩ := hstmts
    exact ⟨s, e, rfl, he⟩

theorem reads_shortcut {kind : ReturnKind} (hu : u.is "else" = false) :
    Reads (goals (d + 8) (.stmt .list)) (At E (plain false) (shortcutTokens kind (u :: us)))
      (At E (plain false) (u :: us)) (IsShortcut kind) := by
  let tokens (items : List (List Token × (Node → Prop))) : List Token :=
    items.flatMap (·.1) ++ .sign "\x7d" true :: u :: us
  have hhead (item : List Token × (Node → Prop)) (hitem : item ∈ shortcutItems kind) :
      ∃ v vs, item.1 = v :: vs ∧ v.is "\x7d" = false := by
    rw [shortcutItems] at hitem
    split at hitem
    · rcases List.mem_pair.1 hitem with rfl | rfl <;> exact ⟨_, _, rfl, rfl⟩
    · obtain rfl := List.mem_singleton.1 hitem
      exact ⟨_, _, rfl, rfl⟩
  have hblock : Reads (block (goals (d + 6)))
      (At E (plain false) (.sign "\x7b" false :: tokens (shortcutItems kind)))
      (At E (plain false) (u :: us)) (fun e ↦ ∃ span stmts, e = .block span stmts ∧
        List.Forall₂ (fun item ↦ item.2) (shortcutItems kind) stmts) := by
    refine reads_block tokens (shortcutItems kind) ?_ (fun b bs hbs ↦ ?_) (fun b bs hbs ↦ ?_) rfl
    · rw [shortcutItems]
      cases kind.isVoid <;> simp [tokens]
    · obtain ⟨v, vs, hv, hclose⟩ := hhead b (hbs.mem (by simp))
      refine ⟨v, vs ++ tokens bs, ?_, hclose⟩
      simp only [tokens, List.flatMap_cons, hv, List.cons_append, List.append_assoc]
    · obtain ⟨v, vs, hv⟩ : ∃ v vs, tokens bs = v :: vs :=
        List.exists_cons_of_ne_nil (by simp [tokens])
      rw [show tokens (b :: bs) = b.1 ++ tokens bs by simp [tokens], hv]
      exact reads_shortcutItem (hbs.mem (by simp))
  have hyes : Reads (goals (d + 7) (.stmt .single))
      (At E (plain false) (.sign "\x7b" false :: tokens (shortcutItems kind)))
      (At E (plain false) (u :: us)) (fun e ↦ ∃ span stmts, e = .block span stmts ∧
        List.Forall₂ (fun item ↦ item.2) (shortcutItems kind) stmts) := by
    exact reads_statement rfl rfl (reads_localStatement_block hblock)
  rw [shortcutTokens_eq]
  refine reads_statement rfl rfl (reads_localStatement_control (fun _ ↦ rfl) ?_)
  refine (reads_ifStatement (reads_condition (reads_scopeField rfl)) hyes hu).mono ?_
  rintro _ ⟨span, test, _, rfl, htest, outer, stmts, rfl, hstmts⟩
  exact isShortcut_of_items htest hstmts

end Statements

def parts (registered : List (Nat × String)) : List Part :=
  .opening :: if registered.isEmpty then [.shortcut] else [.boxes, .shortcut]

def Part.IsRead (offset : UInt64) (kind : ReturnKind) (registered : List (Nat × String)) :
    Part → Node → Prop
  | .opening => IsOpening offset registered.length
  | .boxes => IsConst (List.Forall₂ IsBox registered)
  | .shortcut => IsShortcut kind

/-- The tokens from a part of the preamble on, with those behind the name of the method. -/
def partTokens (kind : ReturnKind) (registered : List (Nat × String)) (ts : List Token) :
    List Part → List Token
  | [] => endTokens
  | .opening :: _ => openingTokens ts
  | .boxes :: _ => boxesTokens registered (shortcutTokens kind endTokens)
  | .shortcut :: _ => shortcutTokens kind endTokens

section Whole

variable {E : List Char → Prop} {d : Nat} {ts : List Token} {offset : UInt64} {kind : ReturnKind}
  {registered : List (Nat × String)}

theorem exists_cons_boxesTokens (kind : ReturnKind) (registered : List (Nat × String)) :
    ∃ u us, boxesTokens registered (shortcutTokens kind endTokens) = u :: us := by
  cases registered <;> exact ⟨_, _, rfl⟩

theorem reads_part (hregistered : ∀ r ∈ registered, isIdentifierText r.2)
    (hmethod : ReadsMethod E (plain false) (goals (d + 5)) "__memo_context" "scope" ts
      (argumentTokens offset registered.length
        (boxesTokens registered (shortcutTokens kind endTokens))))
    {part : Part} {after : List Part} (hsuffix : part :: after <:+ parts registered) :
    Reads (goals (d + 8) (.stmt .list))
      (At E (plain false) (partTokens kind registered ts (part :: after)))
      (At E (plain false) (partTokens kind registered ts after))
      (part.IsRead offset kind registered) := by
  have hopening : Reads (goals (d + 8) (.stmt .list)) (At E (plain false) (openingTokens ts))
      (At E (plain false) (boxesTokens registered (shortcutTokens kind endTokens)))
      (IsOpening offset registered.length) := by
    obtain ⟨u, us, hu⟩ := exists_cons_boxesTokens kind registered
    rw [hu] at hmethod ⊢
    exact reads_opening hmethod
  have hshortcut : Reads (goals (d + 8) (.stmt .list))
      (At E (plain false) (shortcutTokens kind endTokens)) (At E (plain false) endTokens)
      (IsShortcut kind) :=
    reads_shortcut rfl
  cases registered with
  | nil =>
    rcases List.suffix_cons_iff.1 hsuffix with heq | hsuffix
    · cases heq
      exact hopening
    · rcases List.suffix_cons_iff.1 hsuffix with heq | hsuffix
      · cases heq
        exact hshortcut
      · exact absurd hsuffix.length_le (by simp)
  | cons r rs =>
    rcases List.suffix_cons_iff.1 hsuffix with heq | hsuffix
    · cases heq
      exact hopening
    rcases List.suffix_cons_iff.1 hsuffix with heq | hsuffix
    · cases heq
      exact reads_boxes hregistered
    rcases List.suffix_cons_iff.1 hsuffix with heq | hsuffix
    · cases heq
      exact hshortcut
    · exact absurd hsuffix.length_le (by simp)

theorem partTokens_cons (kind : ReturnKind) (registered : List (Nat × String)) (ts : List Token)
    (part : Part) (after : List Part) :
    ∃ v vs, partTokens kind registered ts (part :: after) = v :: vs ∧ v.is "\x7d" = false ∧
      v.isString = false := by
  cases part with
  | opening => exact ⟨_, _, rfl, rfl, rfl⟩
  | boxes => cases registered <;> exact ⟨_, _, rfl, rfl, rfl⟩
  | shortcut => exact ⟨_, _, rfl, rfl, rfl⟩

def IsPreamble (offset : UInt64) (kind : ReturnKind) (registered : List (Nat × String)) :
    List Node → Prop :=
  List.Forall₂ (Part.IsRead offset kind registered) (parts registered)

theorem preamble_of_spells (hregistered : ∀ r ∈ registered, isIdentifierText r.2)
    (hspells : Spells E (snippetText "" (preambleText offset kind registered)).toList
      (snippetTokens (.sign ")" false :: .sign "\x7b" false :: openingTokens ts)))
    (hmethod : ∀ d, 8 * byteWidth (snippetText "" (preambleText offset kind registered)).toList ≤ d →
      ReadsMethod E (plain false) (goals d) "__memo_context" "scope" ts
        (argumentTokens offset registered.length
          (boxesTokens registered (shortcutTokens kind endTokens)))) :
    ∃ stmts, Glue.preamble {} offset kind registered = .ok stmts ∧
      IsPreamble offset kind registered stmts := by
  let text := snippetText "" (preambleText offset kind registered)
  let tokens := partTokens kind registered ts
  obtain ⟨d, hd, hdepth⟩ : ∃ d, 8 * byteWidth text.toList ≤ d + 5 ∧ snippetDepth text = d + 8 :=
    ⟨8 * byteWidth text.toList + 55, by omega, rfl⟩
  have hitems : Reads (bodyItems (goals (snippetDepth text)) .list (Parser.isAt "\x7d"))
      (At E (plain false) (tokens (parts registered))) (At E (plain false) (tokens []))
      (fun r ↦ r.1 = [] ∧ IsPreamble offset kind registered r.2) := by
    rw [hdepth]
    refine reads_bodyItems tokens (parts registered)
      (fun part after hsuffix ↦ reads_part hregistered (hmethod _ hd) hsuffix)
      (fun part after _ ↦ ?_) reads_isAt ?_ (fun part after _ ↦ ?_)
    · obtain ⟨v, vs, hv, hclose, -⟩ := partTokens_cons kind registered ts part after
      simp only [tokens, hv]
      exact reads_isAt.mono fun b hb ↦ hb.trans hclose
    · cases registered <;> simp [parts, tokens, partTokens, openingTokens]
    · obtain ⟨v, vs, hv, -, hstring⟩ := partTokens_cons kind registered ts part after
      exact ⟨v, vs, hv, hstring⟩
  obtain ⟨f, hf, hshape⟩ := function_eq_ok hspells reads_parameters_nil (reads_codeBlock hitems)
  obtain ⟨span, head, tps, params, result, inner, r, rfl, -, -, -, hstmts⟩ := hshape
  unfold preambleText at hf
  refine ⟨r.2, ?_, hstmts⟩
  unfold Glue.preamble Glue.statements
  rw [hf]
  rfl

theorem spells_arguments (E : List Char → Prop) (offset : UInt64) (kind : ReturnKind)
    (hregistered : ∀ r ∈ registered, isIdentifierText r.2) :
    Spells E (Piece.written (argumentPieces offset registered.length ++ (boxesPieces registered ++
        shortcutPieces kind)) [])
      (argumentTokens offset registered.length (boxesTokens registered (shortcutTokens kind endTokens))) := by
  have hfit : Piece.fitAll (argumentPieces offset registered.length ++ (boxesPieces registered ++
      shortcutPieces kind)) [] := by
    rw [fitAll_append, fitAll_append, fitAll_arguments, fitAll_boxes hregistered, fitAll_shortcut]
    rfl
  have hend : Spells E [] [.ending false] := .ending rfl
  rw [← tokens_shortcut, ← tokens_boxes, ← tokens_arguments]
  exact @spells_written E _ [] _ _ rfl hfit hend (.inl (by simp))

theorem preamble_of_typeText {type : String} (hkind : kind.typeArguments = "<" ++ type ++ ">")
    (htype : IsTypeText type) (hregistered : ∀ r ∈ registered, isIdentifierText r.2) :
    ∃ stmts, Glue.preamble {} offset kind registered = .ok stmts ∧
      IsPreamble offset kind registered stmts := by
  let rest := Piece.written (argumentPieces offset registered.length ++ (boxesPieces registered ++
    shortcutPieces kind)) []
  let E (cs : List Char) : Prop := cs = '<' :: (type.toList ++ '>' :: '(' :: rest)
  have htext : (snippetText "" (preambleText offset kind registered)).toList =
      Piece.written openingPieces ('<' :: (type.toList ++ '>' :: '(' :: rest)) := by
    rw [toList_preambleText, hkind]
    simp [rest]
  have hspells : Spells E (snippetText "" (preambleText offset kind registered)).toList
      (snippetTokens (.sign ")" false :: .sign "\x7b" false :: openingTokens [])) := by
    have hfit : Piece.fitAll openingPieces ('<' :: (type.toList ++ '>' :: '(' :: rest)) := rfl
    rw [htext]
    exact @spells_written E _ [] _ _ rfl hfit (.nil rfl) (.inr rfl)
  refine preamble_of_spells hregistered hspells fun d hd ↦ ?_
  refine readsMethod_of_types htype ?_ (fun _ h ↦ h) (spells_arguments E offset kind hregistered)
  have hinside : (snippetText "" (preambleText offset kind registered)).toList =
      Piece.written openingPieces ['<'] ++ (type.toList ++ '>' :: '(' :: rest) := by
    rw [htext]
    simp [openingPieces, Piece.written, Piece.text]
  rw [hinside, byteWidth_append, byteWidth_append] at hd
  omega

def IsReadable : ReturnKind → Prop
  | .typed type => IsTypeText type
  | _ => True

theorem preamble_eq_ok (hkind : IsReadable kind) (hregistered : ∀ r ∈ registered, isIdentifierText r.2) :
    ∃ stmts, Glue.preamble {} offset kind registered = .ok stmts ∧
      IsPreamble offset kind registered stmts := by
  cases kind with
  | void =>
    have htype : IsTypeText "undefined" :=
      isTypeText_of_isIdentifierText (isIdentifierText_of_mem _ (by simp)) (by decide)
    exact preamble_of_typeText rfl htype hregistered
  | typed type => exact preamble_of_typeText rfl hkind hregistered
  | inferred =>
    refine preamble_of_spells (E := fun _ ↦ False) hregistered ?_ fun d hd ↦ readsMethod_of_open
    have hrest := spells_arguments (fun _ ↦ False) offset .inferred hregistered
    have hfit : Piece.fitAll (openingPieces ++ [.sign '(']) (Piece.written (argumentPieces offset
        registered.length ++ (boxesPieces registered ++ shortcutPieces .inferred)) []) := rfl
    rw [toList_preambleText]
    exact @spells_written _ _ [] _ _ rfl hfit hrest (.inl (by simp [argumentTokens, listed]))

end Whole

end Recompose.Preamble
