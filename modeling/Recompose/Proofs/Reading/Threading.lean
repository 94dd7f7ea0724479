import Recompose.Proofs.Preamble

namespace Recompose

open Script Parse

/-- A word that may stand for a variable or a type wherever generated code puts it. -/
def isPlainName (name : String) : Bool :=
  isIdentifierText name && name != "await"

/-- The names that are threaded through functions and calls are plain. -/
structure RuntimeNames.IsPlain (names : RuntimeNames) : Prop where
  context : isPlainName names.context
  id : isPlainName names.id
  contextType : isPlainName names.contextType
  idType : isPlainName names.idType

def IsTypedParam (name : String) (param : Param) : Prop :=
  ∃ span site type, param = .param span {} false [] (.binding site name) (some type) none

section Parameters

variable {E : List Char → Prop} {awaits newline : Bool} {d : Nat} {u : Token} {us : List Token}
  {name type : String}

theorem reads_parameter (hname : isPlainName name) (htype : isPlainName type)
    (hu : u = .sign ")" false ∨ u = .sign "," false) :
    Reads (parameter (goals (d + 1)))
      (At E (plain awaits) (.word name newline :: .sign ":" false :: .word type false :: u :: us))
      (At E (plain awaits) (u :: us)) (IsTypedParam name) := by
  simp only [isPlainName, Bool.and_eq_true, bne_iff_ne] at hname htype
  have hends : TypeRank.union.ends u := by rcases hu with rfl | rfl <;> rfl
  have hequals : u.is "=" = false := by rcases hu with rfl | rfl <;> rfl
  have hdecorators : Reads (decorators (goals (d + 1)))
      (At E (plain awaits) (.word name newline :: .sign ":" false :: .word type false :: u :: us))
      (At E (plain awaits) (.word name newline :: .sign ":" false :: .word type false :: u :: us))
      (· = []) := by
    refine reads_repeats_none ((reads_eat_of_not_is ?_).bind ?_)
    · simp [ne_of_isIdentifierText hname.1 (s := "@") (by decide)]
    · rintro _ rfl
      exact .pure rfl
  have hannotation : Reads (typeAfterColon (goals (d + 1)))
      (At E (plain awaits) (.sign ":" false :: .word type false :: u :: us))
      (At E (plain awaits) (u :: us)) (fun r ↦ ∃ t, r = some t) := by
    refine (reads_eat rfl).bind ?_
    rintro _ rfl
    refine (reads_within (reads_type htype.1 htype.2 hends)).bind fun t _ ↦ ?_
    exact .pure ⟨t, rfl⟩
  have hinit : Reads (enclosed (initializer (goals (d + 1)))) (At E (plain awaits) (u :: us))
      (At E (plain awaits) (u :: us)) (· = none) := by
    refine reads_within ((reads_eat_of_not_is hequals).bind ?_)
    rintro _ rfl
    exact .pure rfl
  refine reads_start.bind fun s _ ↦ hdecorators.bind ?_
  rintro _ rfl
  refine (reads_parameterModifiers_none (.inr fun _ ↦ rfl)).bind ?_
  rintro _ rfl
  refine (reads_eat_of_not_is ?_).bind ?_
  · simp [ne_of_isIdentifierText hname.1 (s := "...") (by decide)]
  rintro _ rfl
  refine (reads_bindingPattern hname.1 (by simp [hname.2])).bind ?_
  rintro _ ⟨site, rfl⟩
  refine (reads_eat_of_not_is rfl).bind ?_
  rintro _ rfl
  refine hannotation.bind ?_
  rintro _ ⟨t, rfl⟩
  refine hinit.bind ?_
  rintro _ rfl
  exact reads_spanFrom.bind fun span _ ↦ .pure ⟨span, site, t, rfl⟩

def typedTokens (p : String × String) : List Token :=
  [.word p.1 false, .sign ":" false, .word p.2 false]

theorem reads_receiver {v : Token} {vs : List Token} {goal : Goals} (hv : v.is "this" = false) :
    Reads (receiver goal) (At E (plain awaits) (v :: vs)) (At E (plain awaits) (v :: vs)) (· = none) := by
  refine reads_token.bind ?_
  rintro _ ⟨span, rfl⟩
  rw [Token.is_placed, hv]
  exact .pure rfl

theorem reads_parameters_two {p q : String × String} (hp : isPlainName p.1 ∧ isPlainName p.2)
    (hq : isPlainName q.1 ∧ isPlainName q.2) :
    Reads (parameters (goals (d + 1)))
      (At E (plain awaits) (.sign "(" false ::
        listed (.sign ")" false) typedTokens [p, q] (u :: us)))
      (At E (plain awaits) (u :: us))
      (fun r ↦ ∃ a b, r.2 = [a, b] ∧ IsTypedParam p.1 a ∧ IsTypedParam q.1 b) := by
  have hplain : ∀ r ∈ [p, q], isPlainName r.1 ∧ isPlainName r.2 := by simp [hp, hq]
  have hident (r : String × String) (hr : r ∈ [p, q]) : isIdentifierText r.1 := by
    have := (hplain r hr).1
    simp only [isPlainName, Bool.and_eq_true] at this
    exact this.1
  have hlist : Reads (Parser.commaList ")" (parameter (goals (d + 1))))
      (At E (plain awaits) (listed (.sign ")" false) typedTokens [p, q] (u :: us)))
      (At E (plain awaits) (u :: us)) (List.Forall₂ (fun r param ↦ IsTypedParam r.1 param) [p, q]) := by
    refine reads_commaList rfl rfl [p, q] (fun r hr ↦ ⟨_, _, rfl, ?_⟩) fun r hr v vs hv ↦ ?_
    · simp [ne_of_isIdentifierText (hident r hr) (s := ")") (by decide)]
    · exact reads_parameter (hplain r hr).1 (hplain r hr).2 hv
  refine (reads_expect rfl).bind fun _ _ ↦ (reads_receiver ?_).bind ?_
  · simp [ne_of_isIdentifierText (hident p (by simp)) (s := "this") (by decide)]
  rintro _ rfl
  refine hlist.bind fun params hparams ↦ .pure ?_
  cases hparams with
  | cons ha hrest =>
    cases hrest with
    | cons hb hnil =>
      cases hnil
      exact ⟨_, _, rfl, ha, hb⟩

end Parameters

namespace Glue

def hiddenPieces (names : RuntimeNames) : List Piece :=
  [.name "function", .gap ' ', .name "__memo_snippet", .sign '(', .name names.context, .sign ':',
    .gap ' ', .name names.contextType, .sign ',', .gap ' ', .name names.id, .sign ':', .gap ' ',
    .name names.idType, .sign ')', .gap ' ', .sign '\x7b', .gap '\n', .gap '\n', .sign '\x7d']

def hiddenText (names : RuntimeNames) : String :=
  names.context ++ ": " ++ names.contextType ++ ", " ++ names.id ++ ": " ++ names.idType

theorem written_hiddenPieces (names : RuntimeNames) :
    (snippetText (hiddenText names) "").toList = Piece.written (hiddenPieces names) [] := by
  have htext : hiddenText names =
      names.context ++ ": " ++ names.contextType ++ ", " ++ names.id ++ ": " ++ names.idType := rfl
  rw [snippetText_eq, htext]
  simp [hiddenPieces, Piece.written, Piece.text]

theorem isNameText_of_isPlainName {name : String} (h : isPlainName name) : isNameText name.toList := by
  simp only [isPlainName, isIdentifierText, Bool.and_eq_true] at h
  exact h.1.1

theorem fitAll_hiddenPieces {names : RuntimeNames} (h : names.IsPlain) :
    Piece.fitAll (hiddenPieces names) [] := by
  have hcontext := isNameText_of_isPlainName h.context
  have hid := isNameText_of_isPlainName h.id
  have hcontextType := isNameText_of_isPlainName h.contextType
  have hidType := isNameText_of_isPlainName h.idType
  simp only [hiddenPieces, Piece.fitAll, Piece.fits, Piece.written, Piece.text, hcontext, hid,
    hcontextType, hidType, Bool.true_and, List.cons_append, List.nil_append]
  rfl

/-- Functions get two parameters of which the names are those of the context and the identity. -/
theorem hiddenParameters_eq_ok {names : RuntimeNames} (h : names.IsPlain) :
    ∃ p q, hiddenParameters names = .ok [p, q] ∧ IsTypedParam names.context p ∧
      IsTypedParam names.id q := by
  let typed := [(names.context, names.contextType), (names.id, names.idType)]
  have hspells : Spells (fun _ ↦ False) (snippetText (hiddenText names) "").toList
      (snippetTokens (listed (.sign ")" false) typedTokens typed
        [.sign "\x7b" false, .sign "\x7d" true, .ending false])) := by
    rw [written_hiddenPieces]
    exact @spells_written _ _ [] _ _ rfl (fitAll_hiddenPieces h) (.ending rfl) (.inl (by simp))
  have hbody (d : Nat) : Reads (bodyItems (goals d) .list (Parser.isAt "\x7d"))
      (At (fun _ ↦ False) (plain false) [.sign "\x7d" true, .ending false])
      (At (fun _ ↦ False) (plain false) [.sign "\x7d" true, .ending false]) (fun _ ↦ True) :=
    (reads_bodyItems (R := fun _ _ ↦ True)
      (fun _ : List Empty ↦ [.sign "\x7d" true, .ending false]) [] (fun b ↦ b.elim) (fun b ↦ b.elim)
      reads_isAt (by simp) (fun b ↦ b.elim)).mono fun _ _ ↦ trivial
  obtain ⟨f, hf, span, head, tps, params, result, inner, r, rfl, -, ⟨a, b, hab, ha, hb⟩, -⟩ :=
    function_eq_ok hspells (reads_parameters_two ⟨h.context, h.contextType⟩ ⟨h.id, h.idType⟩)
      (reads_codeBlock (hbody _))
  refine ⟨a, b, ?_, ha, hb⟩
  obtain ⟨span, site, type, rfl⟩ := ha
  obtain ⟨span', site', type', rfl⟩ := hb
  unfold hiddenText at hf
  unfold hiddenParameters
  rw [hf]
  simp [bind, Except.bind, hab, isRest]

def identityPieces (names : RuntimeNames) (offset : UInt64) : List Piece :=
  [.name names.id, .gap ' ', .sign '+', .gap ' ', .digits (Identity.literal offset)]

/-- Calls get an identity that is the caller's own moved on by the offset. -/
theorem identityArgument_eq_ok {names : RuntimeNames} (h : names.IsPlain) (offset : UInt64) :
    ∃ e, identityArgument names offset = .ok e ∧
      (Atom.sum names.id (Identity.literal offset)).IsRead e := by
  let text := names.id ++ " + " ++ Identity.literal offset
  let atom := Atom.sum names.id (Identity.literal offset)
  have htext : text.toList = Piece.written (identityPieces names offset) [] := by
    simp [text, identityPieces, Piece.written, Piece.text]
  have hfit : Piece.fitAll (identityPieces names offset) [] := by
    have hid := isNameText_of_isPlainName h.id
    have hoffset : isDigits (Identity.literal offset).toList := Preamble.isDigits_toString _
    simp only [identityPieces, Piece.fitAll, Piece.fits, Piece.written, Piece.text, hid, hoffset]
    rfl
  have hspells : Spells (fun _ ↦ False) text.toList (atom.tokens ++ [.ending false]) := by
    rw [htext]
    exact @spells_written _ _ [] _ _ rfl hfit (.ending rfl) (.inl (by simp))
  have hreferable : atom.isReferable true := by
    have hid := h.id
    simp only [isPlainName, Bool.and_eq_true, bne_iff_ne] at hid
    simp [atom, Atom.isReferable, hid]
  have hbefore : Before (plain true) text.toList
      (Parser.initial text.toList 0 (Text.byteWidth text.toList) false) :=
    ⟨rfl, rfl, rfl, rfl, by simp [Parser.initial]⟩
  let goal := goals (Parse.depth (Text.byteWidth text.toList))
  have hnext : Reads Parser.next (Before (plain true) text.toList)
      (At (fun _ ↦ False) (plain true) (atom.tokens ++ [.ending false])) (fun _ ↦ True) := by
    intro c hc
    obtain ⟨b, hb, hat⟩ := hc.next hspells
    exact ⟨(), b, hb, hat, trivial⟩
  have hsum : Reads (goal .expr) (At (fun _ ↦ False) (plain true) (atom.tokens ++ [.ending false]))
      (At (fun _ ↦ False) (plain true) [.ending false]) atom.IsRead :=
    reads_sequence (reads_atom hreferable rfl rfl) rfl
  have hread : Reads (Parse.expression goal) (Before (plain true) text.toList)
      (At (fun _ ↦ False) (plain true) [.ending false]) atom.IsRead := by
    refine hnext.bind fun _ _ ↦ hsum.bind fun e he ↦ reads_get.bind fun c hc ↦ ?_
    have hcovers : c.covers.isEmpty := by
      obtain ⟨-, cs, -, hbefore⟩ := hc
      rw [hbefore.covers_eq]
      rfl
    exact (reads_guarded hcovers).bind fun _ _ ↦ .pure he
  obtain ⟨e, c, hrun, -, he⟩ := hread _ hbefore
  have hparse : parseExpression? text = some e := by
    simp only [parseExpression?]
    rw [hrun]
    rfl
  exact ⟨e, by rw [identityArgument, Glue.expression, hparse], he⟩

end Glue

end Recompose
