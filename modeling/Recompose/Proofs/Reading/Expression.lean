import Recompose.Proofs.Reading.Cursor
import Recompose.Script.Parse

namespace Recompose.Script

open Parse

/-- The context of a statement that stands in no special place. -/
def plain (awaits : Bool) : Context :=
  { awaits }

/-- A name that may be bound, written without escapes. -/
def isIdentifierText (name : String) : Bool :=
  isNameText name.toList && !Token.reserved.contains name

theorem ne_of_isIdentifierText {name s : String} (h : isIdentifierText name)
    (hs : isIdentifierText s = false) : (name == s) = false := by
  rw [beq_eq_false_iff_ne]
  rintro rfl
  simp [h] at hs

theorem isIdentifier_word {name : String} (h : isIdentifierText name) (newline : Bool) :
    (Token.word name newline).isIdentifier = true := by
  simp only [isIdentifierText, Bool.and_eq_true, Bool.not_eq_true'] at h
  simp only [Token.isIdentifier, Token.word_kind, Token.word_text, h.2]
  rfl

section Operands

variable {E : List Char → Prop} {k : Context} {awaits links newline newline' : Bool} {goal : Goals}
  {fuel : Nat} {x : Chain} {t u : Token} {ts us : List Token} {A B : Cursor → Prop}
  {P : Chain → Prop} {name field : String}

def endsMember (t : Token) : Bool :=
  !t.isAny ["?.", ".", "[", "!", "<", "<<"] && !t.isTemplate

theorem reads_memberRest_end (h : endsMember t) :
    Reads (memberRest goal links (fuel + 1) x) (At E k (t :: ts)) (At E k (t :: ts)) (· = x) := by
  simp only [endsMember, Bool.and_eq_true, Bool.not_eq_true'] at h
  obtain ⟨hsigns, htemplate⟩ := h
  have hlink : t.is "?." = false := Token.is_of_isAny hsigns (by simp)
  have hpoint : t.is "." = false := Token.is_of_isAny hsigns (by simp)
  have hbracket : t.is "[" = false := Token.is_of_isAny hsigns (by simp)
  have hmark : t.is "!" = false := Token.is_of_isAny hsigns (by simp)
  have hless : t.is "<" = false := Token.is_of_isAny hsigns (by simp)
  have hshift : t.is "<<" = false := Token.is_of_isAny hsigns (by simp)
  have htypes : Reads (typeArgumentsInExpr goal) (At E k (t :: ts)) (At E k (t :: ts)) (· = none) := by
    refine reads_attempt_of_fails (reads_token.bind_fails ?_)
    rintro _ ⟨span, rfl⟩
    exact (fails_guarded (by simp [hless, hshift])).bind
  rw [memberRest]
  refine reads_token.bind ?_
  rintro _ ⟨span, rfl⟩
  refine reads_ahead_any.bind fun b _ ↦ ?_
  simp only [Token.is_placed, hlink, Bool.and_false, Bool.false_and, Bool.false_eq_true, if_false]
  refine reads_token.bind ?_
  rintro _ ⟨span, rfl⟩
  simp only [hpoint, Bool.false_and, Bool.false_or, Bool.false_eq_true, if_false]
  refine reads_context.bind ?_
  rintro _ rfl
  simp only [Token.is_placed, Token.isTemplate_placed, hbracket, htemplate, hmark, Bool.false_and,
    Bool.false_eq_true, if_false]
  refine htypes.bind ?_
  rintro _ rfl
  exact .pure rfl

theorem reads_memberRest_member
    (hnext : Reads Parser.next (At E k (.word field newline' :: ts)) A (fun _ ↦ True))
    (hrest : ∀ span, Reads
      (memberRest goal links fuel ⟨.member span x.node field false false, x.linked⟩) A B P) :
    Reads (memberRest goal links (fuel + 1) x)
      (At E k (.sign "." newline :: .word field newline' :: ts)) B P := by
  rw [memberRest]
  refine reads_token.bind ?_
  rintro _ ⟨span, rfl⟩
  refine reads_ahead_any.bind fun b _ ↦ ?_
  have hlink : (Token.sign "." newline).is "?." = false := by simp
  have hpoint : (Token.sign "." newline).is "." = true := by simp
  simp only [Token.is_placed, hlink, hpoint, Bool.and_false, Bool.false_and, Bool.false_or,
    Bool.false_eq_true, if_false]
  refine reads_token.bind ?_
  rintro _ ⟨span, rfl⟩
  have hbracket : (Token.sign "." newline).is "[" = false := by simp
  have htemplate : (Token.sign "." newline).isTemplate = false := rfl
  simp only [Token.is_placed, Token.isTemplate_placed, hbracket, htemplate, Bool.not_false,
    Bool.and_true, if_true]
  refine reads_next.bind fun _ _ ↦ reads_token.bind ?_
  rintro _ ⟨span, rfl⟩
  refine (reads_guarded rfl).bind fun _ _ ↦ hnext.bind fun _ _ ↦ reads_spanFrom.bind fun span _ ↦ ?_
  rw [Bool.or_false]
  exact hrest span

def endsOperand (t : Token) : Bool :=
  endsMember t && !t.is "(" && !t.isAny ["++", "--"]

theorem endsMember_of_endsOperand (h : endsOperand t) : endsMember t := by
  simp only [endsOperand, Bool.and_eq_true] at h
  exact h.1.1

theorem reads_callRest_end {m : Nat} (hfuel : ∀ c, A c → m ≤ c.size + 2 - c.pos)
    (hmember : ∀ n, m ≤ n → Reads (memberRest goal true n x) A (At E k (t :: ts)) P)
    (h : endsOperand t) :
    Reads (callRest goal (fuel + 1) x) A (At E k (t :: ts)) P := by
  simp only [endsOperand, endsMember, Bool.and_eq_true, Bool.not_eq_true'] at h
  obtain ⟨⟨⟨hsigns, -⟩, hopen⟩, -⟩ := h
  have hlink : t.is "?." = false := Token.is_of_isAny hsigns (by simp)
  rw [callRest]
  refine reads_get.bind fun c hc ↦ (hmember _ (hfuel c hc)).bind fun y hy ↦ ?_
  refine (reads_eat_of_not_is hlink).bind ?_
  rintro _ rfl
  refine reads_isAt.bind ?_
  rintro _ rfl
  simp only [hopen, Bool.false_eq_true, if_false]
  exact .pure hy

theorem reads_callRest_of_endsOperand (h : endsOperand t) :
    Reads (callRest goal (fuel + 1) x) (At E k (t :: ts)) (At E k (t :: ts)) (· = x) := by
  refine reads_callRest_end (m := 1) (fun c hc ↦ ?_) (fun n hn ↦ ?_) h
  · have := hc.length_le
    simp only [List.length_cons] at this
    omega
  · obtain ⟨n, rfl⟩ := Nat.exists_eq_succ_of_ne_zero (Nat.one_le_iff_ne_zero.1 hn)
    exact reads_memberRest_end (endsMember_of_endsOperand h)

theorem reads_call {node callee : Node} {types : List Node} {Q : List Node → Prop}
    (hsplit : splitParent node = (callee, types)) (hargs : Reads (arguments goal) A B Q) :
    Reads (call goal node false []) A B
      (fun e ↦ ∃ span args, e = .apply span (.call false false) callee types args ∧ Q args) := by
  cases types with
  | nil =>
    simp only [call, hsplit, Bool.false_eq_true, if_false]
    exact hargs.bind fun args hQ ↦ reads_spanFrom.bind fun span _ ↦ .pure ⟨span, args, rfl, hQ⟩
  | cons type types =>
    simp only [call, hsplit, Bool.false_eq_true, if_false]
    exact hargs.bind fun args hQ ↦ reads_spanFrom.bind fun span _ ↦ .pure ⟨span, args, rfl, hQ⟩

theorem reads_callRest_call {m : Nat} {S : Node × List Node → Prop} {Q : List Node → Prop}
    (hfuel : ∀ c, A c → m ≤ c.size + 2 - c.pos)
    (hmember : ∀ n, m ≤ n → Reads (memberRest goal true n x) A (At E k (.sign "(" false :: us))
      (fun y ↦ y.linked = false ∧ S (splitParent y.node)))
    (hargs : Reads (arguments goal) (At E k (.sign "(" false :: us)) (At E k (t :: ts)) Q)
    (h : endsOperand t) :
    Reads (callRest goal (fuel + 2) x) A (At E k (t :: ts)) (fun y ↦ y.linked = false ∧
      ∃ span callee types args, y.node = .apply span (.call false false) callee types args ∧
        S (callee, types) ∧ Q args) := by
  rw [callRest]
  refine reads_get.bind fun c hc ↦ (hmember _ (hfuel c hc)).bind fun y hy ↦ ?_
  refine (reads_eat_of_not_is (by simp)).bind ?_
  rintro _ rfl
  refine reads_isAt.bind ?_
  rintro _ rfl
  simp only [Token.is_sign, BEq.rfl, if_true]
  refine (reads_call rfl hargs).bind ?_
  rintro _ ⟨span, args, rfl, hQ⟩
  refine (reads_callRest_of_endsOperand h).mono ?_
  rintro _ rfl
  exact ⟨hy.1, span, _, _, args, rfl, hy.2, hQ⟩

theorem reads_closeChain {x : Chain} (h : x.linked = false) :
    Reads (closeChain x) A A (· = x.node) := by
  rw [closeChain, if_neg (by simp [h])]
  exact .pure rfl

theorem reads_arguments {β : Type} {own : β → List Token} {R : β → Node → Prop} {items : List β}
    (hfirst : ∀ b ∈ items, ∃ v vs, own b = v :: vs ∧ v.isAny [")", "..."] = false)
    (hitem : ∀ b ∈ items, ∀ v vs, v = .sign ")" false ∨ v = .sign "," false →
      Reads (goal (.assign true)) (At E (plain awaits) (own b ++ v :: vs))
        (At E (plain awaits) (v :: vs)) (R b)) :
    Reads (arguments goal)
      (At E (plain awaits) (.sign "(" newline :: listed (.sign ")" false) own items (t :: ts)))
      (At E (plain awaits) (t :: ts)) (List.Forall₂ R items) := by
  obtain ⟨w, ws, hw⟩ := List.exists_cons_of_ne_nil
    (listed_ne_nil (.sign ")" false) own items (t :: ts))
  have hlist : Reads (Parser.commaList ")" (argument goal))
      (At E (plain awaits) (listed (.sign ")" false) own items (t :: ts)))
      (At E (plain awaits) (t :: ts)) (List.Forall₂ R items) := by
    refine reads_commaList (by simp) (by simp) items (fun b hb ↦ ?_) fun b hb v vs hv ↦ ?_
    · obtain ⟨v, vs, hvs, hv⟩ := hfirst b hb
      exact ⟨v, vs, hvs, Token.is_of_isAny hv (by simp)⟩
    · obtain ⟨w, ws, hws, hw⟩ := hfirst b hb
      have hspread : w.is "..." = false := Token.is_of_isAny hw (by simp)
      have hread := hitem b hb v vs hv
      rw [hws] at hread ⊢
      refine reads_isAt.bind ?_
      rintro _ rfl
      rw [if_neg (by simp [hspread])]
      exact hread
  rw [hw] at hlist ⊢
  exact (reads_expect (by simp)).bind fun _ _ ↦ reads_within hlist

theorem reads_primary_word (hname : isIdentifierText name)
    (hawait : (awaits && name == "await") = false) (hu : u.is "function" = false) :
    Reads (primary goal) (At E (plain awaits) (.word name newline :: u :: us))
      (At E (plain awaits) (u :: us)) (fun e ↦ ∃ span, e = .ref span name) := by
  have hidentifier : Reads Parser.identifier (At E (plain awaits) (.word name newline :: u :: us))
      (At E (plain awaits) (u :: us)) (· = name) :=
    reads_identifier (isIdentifier_word hname newline) hawait rfl
  refine reads_token.bind ?_
  rintro _ ⟨span, rfl⟩
  simp only [Token.placed_kind, Token.word_kind, Token.placed_escaped, Token.word_escaped,
    Bool.false_eq_true, if_false, Token.placed_text, Token.word_text]
  split
  case h_10 =>
    refine reads_ahead.bind ?_
    rintro _ ⟨_, rfl⟩
    rw [Token.is_placed, hu, Bool.false_and, Bool.and_false, if_neg (by simp)]
    refine hidentifier.bind ?_
    rintro _ rfl
    exact .pure ⟨_, rfl⟩
  all_goals exact absurd hname (by decide)

theorem reads_primary_digits {text : String} :
    Reads (primary goal) (At E k (.digits text newline :: u :: us)) (At E k (u :: us))
      (fun e ↦ ∃ span, e = .lit span (.number text)) := by
  refine reads_token.bind ?_
  rintro _ ⟨span, rfl⟩
  exact reads_next.bind fun _ _ ↦ .pure ⟨_, rfl⟩

theorem reads_operand {Q : Node → Prop} (hprimary : Reads (primary goal) A (At E k (t :: ts)) Q)
    (h : endsOperand t) : Reads (operand goal) A (At E k (t :: ts)) Q := by
  refine hprimary.bind fun e he ↦ reads_get.bind fun c hc ↦ ?_
  obtain ⟨fuel, hfuel⟩ : ∃ fuel, c.size + 2 - c.pos = fuel + 1 := by
    have := hc.length_le
    simp only [List.length_cons] at this
    exact ⟨c.size + 1 - c.pos, by omega⟩
  rw [hfuel]
  refine (reads_callRest_of_endsOperand h).bind ?_
  rintro _ rfl
  refine (reads_closeChain rfl).mono ?_
  rintro _ rfl
  exact he

def IsField (object field : String) (e : Node) : Prop :=
  ∃ span site, e = .member span (.ref site object) field false false

theorem reads_operand_field (hname : isIdentifierText name)
    (hawait : (awaits && name == "await") = false) (h : endsOperand t) :
    Reads (operand goal)
      (At E (plain awaits) (.word name newline :: .sign "." false :: .word field false :: t :: ts))
      (At E (plain awaits) (t :: ts)) (IsField name field) := by
  refine (reads_primary_word hname hawait rfl).bind ?_
  rintro _ ⟨site, rfl⟩
  refine reads_get.bind fun c hc ↦ ?_
  have := hc.length_le
  simp only [List.length_cons] at this
  obtain ⟨fuel, hfuel⟩ : ∃ fuel, c.size + 2 - c.pos = fuel + 1 := ⟨c.size + 1 - c.pos, by omega⟩
  rw [hfuel]
  have hmember (n : Nat) (hn : 2 ≤ n) : Reads (memberRest goal true n ⟨.ref site name, false⟩)
      (At E (plain awaits) (.sign "." false :: .word field false :: t :: ts))
      (At E (plain awaits) (t :: ts)) (fun y ↦ y.linked = false ∧ IsField name field y.node) := by
    obtain ⟨n, rfl⟩ : ∃ m, n = m + 2 := ⟨n - 2, by omega⟩
    refine reads_memberRest_member reads_next fun span ↦ ?_
    refine (reads_memberRest_end (endsMember_of_endsOperand h)).mono ?_
    rintro _ rfl
    exact ⟨rfl, span, site, rfl⟩
  refine (reads_callRest_end (fun c hc ↦ ?_) hmember h).bind fun y hy ↦ ?_
  · have := hc.length_le
    simp only [List.length_cons] at this
    omega
  · refine (reads_closeChain hy.1).mono ?_
    rintro _ rfl
    exact hy.2

def IsMethodCall (object method : String) (Q : List Node → Prop) (e : Node) : Prop :=
  ∃ span callee types args, e = .apply span (.call false false) callee types args ∧
    IsField object method callee ∧ Q args

/-- The name of a method is followed by its arguments, perhaps behind type arguments. -/
def ReadsMethod (E : List Char → Prop) (k : Context) (goal : Goals) (name field : String)
    (ts us : List Token) : Prop :=
  ∀ site n, Reads (memberRest goal true (n + 3) ⟨.ref site name, false⟩)
    (At E k (.sign "." false :: .word field false :: ts)) (At E k (.sign "(" false :: us))
    (fun y ↦ y.linked = false ∧ IsField name field (splitParent y.node).1)

theorem readsMethod_of_open :
    ReadsMethod E k goal name field (.sign "(" false :: ts) ts := by
  intro site n
  refine reads_memberRest_member reads_next fun span ↦ ?_
  refine (reads_memberRest_end (t := .sign "(" false) rfl).mono ?_
  rintro _ rfl
  exact ⟨rfl, span, site, rfl⟩

theorem reads_memberRest_types
    (htoken : ∀ c, A c → c.token.kind = .punct ∧ (c.token.text = "<" ∨ c.token.text = "<<"))
    (htypes : Reads (typeArguments goal) A (At E k (.sign "(" false :: us)) (fun _ ↦ True)) :
    Reads (memberRest goal links (fuel + 2) x) A (At E k (.sign "(" false :: us))
      (fun y ↦ ∃ span types, y = ⟨.apply span .instantiate x.node types [], x.linked⟩) := by
  have hread : Reads Parser.token A A
      (fun t ↦ t.kind = .punct ∧ (t.text = "<" ∨ t.text = "<<")) :=
    reads_get.bind fun c hc ↦ .pure (htoken c hc)
  have hsigns (t : Token) (h : t.kind = .punct ∧ (t.text = "<" ∨ t.text = "<<")) :
      t.isAny ["?.", ".", "[", "!"] = false ∧ t.isTemplate = false ∧ (t.is "<" || t.is "<<") = true := by
    obtain ⟨hkind, htext | htext⟩ := h
    · simp [Token.isAny, Token.isTemplate, Token.is, hkind, htext]
    · simp [Token.isAny, Token.isTemplate, Token.is, hkind, htext]
  have harguments : Reads (typeArgumentsInExpr goal) A (At E k (.sign "(" false :: us))
      (fun r ↦ ∃ types, r = some types) := by
    refine (reads_attempt (P := fun _ ↦ True) ?_).mono fun r hr ↦ ⟨hr.choose, hr.choose_spec.1⟩
    refine hread.bind fun t ht ↦ (reads_guarded (hsigns t ht).2.2).bind fun _ _ ↦ ?_
    refine htypes.bind fun types _ ↦ reads_token.bind ?_
    rintro _ ⟨span, rfl⟩
    rw [Token.is_placed, Token.is_sign, BEq.rfl, Bool.true_or, if_pos rfl]
    exact .pure trivial
  rw [memberRest]
  refine hread.bind fun t ht ↦ reads_ahead_any.bind fun b _ ↦ ?_
  have hlink : t.is "?." = false := Token.is_of_isAny (hsigns t ht).1 (by simp)
  have hpoint : t.is "." = false := Token.is_of_isAny (hsigns t ht).1 (by simp)
  have hmark : t.is "!" = false := Token.is_of_isAny (hsigns t ht).1 (by simp)
  simp only [hlink, hpoint, hmark, Bool.and_false, Bool.false_and, Bool.or_self, Bool.false_eq_true,
    if_false]
  refine hread.bind fun u hu ↦ ?_
  have hbracket : u.is "[" = false := Token.is_of_isAny (hsigns u hu).1 (by simp)
  have hcontext : Reads Parser.context A A (fun _ ↦ True) := reads_get.bind fun _ _ ↦ .pure trivial
  refine hcontext.bind fun _ _ ↦ ?_
  simp only [hbracket, (hsigns u hu).2.1, Bool.false_and, Bool.false_eq_true, if_false]
  refine harguments.bind ?_
  rintro _ ⟨types, rfl⟩
  refine reads_spanFrom.bind fun span _ ↦ (reads_memberRest_end (t := .sign "(" false) rfl).mono ?_
  rintro _ rfl
  exact ⟨span, types, rfl⟩

theorem reads_operand_call {vs : List Token} {Q : List Node → Prop} (hname : isIdentifierText name)
    (hawait : (awaits && name == "await") = false)
    (hmethod : ReadsMethod E (plain awaits) goal name field ts us)
    (hargs : Reads (arguments goal) (At E (plain awaits) (.sign "(" false :: us))
      (At E (plain awaits) (u :: vs)) Q) (h : endsOperand u) :
    Reads (operand goal)
      (At E (plain awaits) (.word name newline :: .sign "." false :: .word field false :: ts))
      (At E (plain awaits) (u :: vs)) (IsMethodCall name field Q) := by
  refine (reads_primary_word hname hawait rfl).bind ?_
  rintro _ ⟨site, rfl⟩
  refine reads_get.bind fun c hc ↦ ?_
  obtain ⟨fuel, hfuel⟩ : ∃ fuel, c.size + 2 - c.pos = fuel + 2 := by
    have := hc.length_lt (by simp)
    exact ⟨c.size - c.pos, by omega⟩
  rw [hfuel]
  have hmember (n : Nat) (hn : 3 ≤ n) :
      Reads (memberRest goal true n ⟨.ref site name, false⟩)
        (At E (plain awaits) (.sign "." false :: .word field false :: ts))
        (At E (plain awaits) (.sign "(" false :: us))
        (fun y ↦ y.linked = false ∧ IsField name field (splitParent y.node).1) := by
    obtain ⟨n, rfl⟩ : ∃ m, n = m + 3 := ⟨n - 3, by omega⟩
    exact hmethod site n
  refine (reads_callRest_call (S := fun r ↦ IsField name field r.1)
    (fun c hc ↦ hc.length_lt (by simp)) hmember hargs h).bind ?_
  rintro y ⟨hlinked, span, callee, types, args, hy, hcallee, hQ⟩
  refine (reads_closeChain hlinked).mono ?_
  rintro _ rfl
  exact ⟨span, callee, types, args, hy, hcallee, hQ⟩

end Operands

section Operators

variable {E : List Char → Prop} {k : Context} {awaits newline : Bool} {goal : Goals} {fuel : Nat}
  {level : Level} {t u v : Token} {ts us vs : List Token} {Q : Node → Prop}

inductive StartsOperand (awaits : Bool) : Token → Prop
  | word {name : String} (hname : isIdentifierText name)
    (hawait : (awaits && name == "await") = false) (newline : Bool) :
    StartsOperand awaits (.word name newline)
  | digits (text : String) (newline : Bool) : StartsOperand awaits (.digits text newline)

theorem StartsOperand.not_is (h : StartsOperand awaits t) {s : String}
    (hs : isIdentifierText s = false) : t.is s = false := by
  cases h with
  | word hname => simp [ne_of_isIdentifierText hname hs]
  | digits => simp

theorem StartsOperand.not_isAny (h : StartsOperand awaits t) {ss : List String}
    (hss : ∀ s ∈ ss, isIdentifierText s = false) : t.isAny ss = false := by
  cases h with
  | @word name hname =>
    rw [Token.isAny_word, List.contains_eq_any_beq, List.any_eq_false]
    intro s hs
    simp [ne_of_isIdentifierText hname (hss s hs)]
  | digits => simp

theorem unaryOp_ofText?_eq_none {name : String} (h : isIdentifierText name) :
    UnaryOp.ofText? name = none := by
  rw [UnaryOp.ofText?, List.find?_eq_none]
  intro op _ heq
  obtain rfl := beq_iff_eq.1 heq
  cases op <;> exact absurd h (by decide)

theorem reads_update (ht : StartsOperand awaits t)
    (hoperand : Reads (operand goal) (At E k (t :: ts)) (At E k (u :: us)) Q) (hu : endsOperand u) :
    Reads (update goal) (At E k (t :: ts)) (At E k (u :: us)) Q := by
  have hbefore : t.isAny ["++", "--"] = false := ht.not_isAny (by decide)
  have hbehind : u.isAny ["++", "--"] = false := by
    simp only [endsOperand, Bool.and_eq_true, Bool.not_eq_true'] at hu
    exact hu.2
  refine reads_token.bind ?_
  rintro _ ⟨span, rfl⟩
  simp only [Token.isAny_placed, hbefore, Bool.false_eq_true, if_false]
  refine hoperand.bind fun e he ↦ reads_token.bind ?_
  rintro _ ⟨_, rfl⟩
  simp only [Token.isAny_placed, hbehind, Bool.false_and, Bool.false_eq_true, if_false]
  exact .pure he

theorem reads_unary (ht : StartsOperand awaits t)
    (hoperand : Reads (operand goal) (At E (plain awaits) (t :: ts)) (At E (plain awaits) (u :: us)) Q)
    (hu : endsOperand u) :
    Reads (unary goal) (At E (plain awaits) (t :: ts)) (At E (plain awaits) (u :: us)) Q := by
  have hsign : (if t.kind == .punct || (t.kind == .name && !t.escaped) then UnaryOp.ofText? t.text
      else none) = none := by
    cases ht with
    | word hname =>
      rw [Token.word_text, unaryOp_ofText?_eq_none hname, ite_self]
    | digits => rfl
  have hless : t.is "<" = false := ht.not_is (by decide)
  have hawait : (t.is "await" && awaits) = false := by
    cases ht with
    | word _ hawait => rwa [Token.is_word, Bool.and_comm]
    | digits => simp
  refine reads_token.bind ?_
  rintro _ ⟨span, rfl⟩
  simp only [Token.placed_kind, Token.placed_escaped, Token.placed_text, hsign]
  refine reads_get.bind fun c _ ↦ ?_
  simp only [Token.is_placed, hless, Bool.false_and, Bool.false_eq_true, if_false]
  refine reads_context.bind ?_
  rintro _ rfl
  simp only [show (plain awaits).awaits = awaits from rfl, hawait, Bool.false_eq_true, if_false]
  exact reads_update ht hoperand hu

def endsBinary (t : Token) : Bool :=
  endsOperand t && !t.is ">" && (signLevel? t).isNone

theorem reads_binaryRest_end {left : Node} (hu : endsBinary u) :
    Reads (binaryRest goal level (fuel + 1) left) (At E k (u :: us)) (At E k (u :: us)) (· = left) := by
  simp only [endsBinary, Bool.and_eq_true, Bool.not_eq_true', Option.isNone_iff_eq_none] at hu
  obtain ⟨⟨-, hgreater⟩, hlevel⟩ := hu
  rw [binaryRest]
  refine (reads_joinGreater hgreater).bind fun _ _ ↦ reads_token.bind ?_
  rintro _ ⟨span, rfl⟩
  have hlevel : signLevel? (u.placed span) = none := hlevel
  simp only [hlevel]
  exact .pure rfl

theorem reads_binary_of_rest {R : Node → Prop} (ht : StartsOperand awaits t)
    (hoperand : Reads (operand goal) (At E (plain awaits) (t :: ts)) (At E (plain awaits) (u :: us)) Q)
    (hu : endsOperand u)
    (hrest : ∀ left fuel, Q left → us.length ≤ fuel → Reads (binaryRest goal level (fuel + 1) left)
      (At E (plain awaits) (u :: us)) (At E (plain awaits) (v :: vs)) R) :
    Reads (binary goal level) (At E (plain awaits) (t :: ts)) (At E (plain awaits) (v :: vs)) R := by
  have hkind : (t.kind == .privateName) = false := by
    cases ht <;> rfl
  refine reads_token.bind ?_
  rintro _ ⟨span, rfl⟩
  simp only [Token.placed_kind, hkind, Bool.false_eq_true, if_false]
  refine (reads_unary ht hoperand hu).bind fun left hleft ↦ reads_get.bind fun c hc ↦ ?_
  have := hc.length_le
  simp only [List.length_cons] at this
  obtain ⟨fuel, hfuel⟩ : ∃ fuel, c.size + 2 - c.pos = fuel + 1 := ⟨c.size + 1 - c.pos, by omega⟩
  rw [hfuel]
  exact hrest left fuel hleft (by omega)

theorem reads_binary (ht : StartsOperand awaits t)
    (hoperand : Reads (operand goal) (At E (plain awaits) (t :: ts)) (At E (plain awaits) (u :: us)) Q)
    (hu : endsBinary u) :
    Reads (binary goal level) (At E (plain awaits) (t :: ts)) (At E (plain awaits) (u :: us)) Q := by
  have hends : endsOperand u := by
    simp only [endsBinary, Bool.and_eq_true] at hu
    exact hu.1.1
  refine reads_binary_of_rest ht hoperand hends fun left fuel hleft _ ↦ ?_
  refine (reads_binaryRest_end hu).mono ?_
  rintro _ rfl
  exact hleft

def IsSum (Q R : Node → Prop) (e : Node) : Prop :=
  ∃ span left right, e = .form span (.binary .add) [left, right] ∧ Q left ∧ R right

theorem reads_binary_sum {R : Node → Prop} (ht : StartsOperand awaits t)
    (hoperand : Reads (operand goal) (At E (plain awaits) (t :: ts))
      (At E (plain awaits) (.sign "+" false :: v :: vs)) Q)
    (hlevel : level < Level.add)
    (hright : Reads (goal (.binary Level.add)) (At E (plain awaits) (v :: vs))
      (At E (plain awaits) (u :: us)) R)
    (hu : endsBinary u) :
    Reads (binary goal level) (At E (plain awaits) (t :: ts)) (At E (plain awaits) (u :: us))
      (IsSum Q R) := by
  refine reads_binary_of_rest ht hoperand rfl fun left fuel hleft hfuel ↦ ?_
  rw [binaryRest]
  refine (reads_joinGreater rfl).bind fun _ _ ↦ reads_token.bind ?_
  rintro _ ⟨span, rfl⟩
  have hsign : signLevel? ((Token.sign "+" false).placed span) = some Level.add :=
    (by decide : signLevel? (.sign "+" false) = some Level.add)
  have htight : ¬ Level.add ≤ level := Nat.not_le.2 hlevel
  have hlogical : LogicalOp.ofText? "+" = none := by decide
  have hbinary : BinaryOp.ofText? "+" = some .add := by decide
  simp only [hsign]
  refine reads_context.bind ?_
  rintro _ rfl
  have hpower : (Level.add == Level.power) = false := rfl
  simp only [hpower, htight, Token.is_placed, Token.is_sign, Bool.false_eq_true, if_false,
    decide_false, Bool.false_or, String.reduceBEq, Bool.false_and]
  refine reads_next.bind fun _ _ ↦ hright.bind fun right hR ↦ reads_spanFrom.bind fun span _ ↦ ?_
  simp only [Token.placed_text, Token.sign_text, hlogical, hbinary]
  obtain ⟨fuel, rfl⟩ : ∃ n, fuel = n + 1 := ⟨fuel - 1, by simp at hfuel; omega⟩
  refine (reads_binaryRest_end hu).mono ?_
  rintro _ rfl
  exact ⟨span, left, right, rfl, hleft, hR⟩

def endsAssign (t : Token) : Bool :=
  endsBinary t && !t.is "=>" && !t.is "?" &&
    (if t.kind == .punct then AssignOp.ofText? t.text else none).isNone

/-- What follows an operand: an assignment to it, or the rest of a conditional expression. -/
def assignRest (goal : Goal → Parser Node) (arrowTypes : Bool) (left : Node)
    (assigned : AssignOp → Parser Node) : Parser Node := do
  Parser.joinGreater
  let t ← Parser.token
  match if t.kind == .punct then AssignOp.ofText? t.text else none with
  | some op => assigned op
  | none => conditionalRest goal arrowTypes left

theorem reads_plainAssign {A : Cursor → Prop} {arrowTypes : Bool}
    (hleft : Reads (goal (.binary Level.lowest)) A (At E k (u :: us)) Q) (hu : endsAssign u) :
    Reads (plainAssign goal arrowTypes) A (At E k (u :: us)) Q := by
  simp only [endsAssign, endsBinary, Bool.and_eq_true, Bool.not_eq_true', Option.isNone_iff_eq_none]
    at hu
  obtain ⟨⟨⟨⟨⟨-, hgreater⟩, -⟩, harrow⟩, hquestion⟩, hassign⟩ := hu
  have hrest (left : Node) (f : AssignOp → Parser Node) (hQ : Q left) :
      Reads (assignRest goal arrowTypes left f) (At E k (u :: us)) (At E k (u :: us)) Q := by
    refine (reads_joinGreater hgreater).bind fun _ _ ↦ reads_token.bind ?_
    rintro _ ⟨span, rfl⟩
    simp only [Token.placed_kind, Token.placed_text, hassign]
    refine (reads_eat_of_not_is hquestion).bind ?_
    rintro _ rfl
    exact .pure hQ
  refine reads_start.bind fun s _ ↦ hleft.bind fun left hQ ↦ ?_
  split
  · refine reads_isAt.bind ?_
    rintro _ rfl
    refine reads_token.bind ?_
    rintro _ ⟨span, rfl⟩
    simp only [harrow, Bool.false_and, Bool.false_eq_true, if_false]
    exact hrest _ _ hQ
  · exact hrest _ _ hQ

/-- What follows the first token of an expression does not make it an arrow function. -/
def followsPlain (t : Token) : Bool :=
  t.kind != .name && !t.is "function" && !t.isAny ["(", "<"]

theorem fails_asyncBareArrow {arrowTypes : Bool} (ht : t.is "async") (hv : followsPlain v) :
    Fails (asyncBareArrow goal arrowTypes) (At E k (t :: v :: ts)) := by
  have hidentifier : v.isIdentifier = false := by
    simp only [followsPlain, Bool.and_eq_true, bne_iff_ne] at hv
    simp [Token.isIdentifier, hv.1.1]
  refine reads_start.bind_fails fun s _ ↦ (reads_expect ht).bind_fails fun _ _ ↦
    reads_token.bind_fails ?_
  rintro _ ⟨span, rfl⟩
  exact (fails_guarded (by simp [hidentifier])).bind

theorem reads_outlook (ht : StartsOperand awaits t) (hv : followsPlain v) :
    Reads outlook (At E k (t :: v :: ts)) (At E k (t :: v :: ts)) (· = .no) := by
  have hfollows : v.isAny ["(", "<"] = false := by
    simp only [followsPlain, Bool.and_eq_true, Bool.not_eq_true'] at hv
    exact hv.2
  have hopen : t.is "(" = false := ht.not_is (by decide)
  have hless : t.is "<" = false := ht.not_is (by decide)
  suffices hanswer : ∃ us, Reads _ (At E k (t :: v :: ts)) (At E k us) (· = Outlook.no) by
    obtain ⟨us, hus⟩ := hanswer
    refine (reads_look hus).bind ?_
    rintro _ ⟨_, rfl, rfl⟩
    exact .pure rfl
  cases hasync : t.is "async" with
  | true =>
    refine ⟨v :: ts, (reads_eat hasync).bind ?_⟩
    rintro _ rfl
    refine reads_token.bind ?_
    rintro _ ⟨span, rfl⟩
    rw [Token.isAny_placed, hfollows, Bool.not_false, Bool.or_true, if_pos rfl]
    exact .pure rfl
  | false =>
    refine ⟨t :: v :: ts, (reads_eat_of_not_is hasync).bind ?_⟩
    rintro _ rfl
    refine reads_token.bind ?_
    rintro _ ⟨span, rfl⟩
    simp only [Token.is_placed, hopen, hless, Bool.false_eq_true, if_false]
    exact .pure rfl

theorem reads_assign {arrowTypes : Bool} (ht : StartsOperand awaits t) (hv : followsPlain v)
    (hleft : Reads (goal (.binary Level.lowest)) (At E (plain awaits) (t :: v :: ts))
      (At E (plain awaits) (u :: us)) Q) (hu : endsAssign u) :
    Reads (assign goal arrowTypes) (At E (plain awaits) (t :: v :: ts))
      (At E (plain awaits) (u :: us)) Q := by
  have heffects : t.effectFreeMark = false := by
    cases ht <;> rfl
  have hpure : t.pureMark = false := by
    cases ht <;> rfl
  refine reads_token.bind ?_
  rintro _ ⟨span, rfl⟩
  refine reads_context.bind ?_
  rintro _ rfl
  simp only [show (plain awaits).yields = false from rfl, Token.placed_effectFreeMark,
    Token.placed_pureMark, heffects, hpure, Bool.and_false, Bool.false_eq_true, if_false]
  have hrest : Reads (plainAssign goal arrowTypes >>= pure) (At E (plain awaits) (t :: v :: ts))
      (At E (plain awaits) (u :: us)) Q :=
    (reads_plainAssign hleft hu).bind fun e he ↦ .pure he
  split
  · next hasync =>
    rw [Token.is_placed] at hasync
    refine (reads_attempt_of_fails (fails_asyncBareArrow hasync hv)).bind ?_
    rintro _ rfl
    refine (reads_outlook ht hv).bind ?_
    rintro _ rfl
    exact hrest
  · refine (reads_outlook ht hv).bind ?_
    rintro _ rfl
    exact hrest

def endsExpr (t : Token) : Bool :=
  endsAssign t && !t.is ","

theorem reads_sequence {A : Cursor → Prop}
    (hfirst : Reads (goal (.assign true)) A (At E k (u :: us)) Q) (hu : endsExpr u) :
    Reads (sequence goal) A (At E k (u :: us)) Q := by
  have hcomma : u.is "," = false := by
    simp only [endsExpr, Bool.and_eq_true, Bool.not_eq_true'] at hu
    exact hu.2
  have hmore : Reads (Parser.repeats do
      if ← Parser.eat "," then some <$> goal (.assign true) else return none)
      (At E k (u :: us)) (At E k (u :: us)) (· = []) := by
    refine reads_repeats_none ((reads_eat_of_not_is hcomma).bind ?_)
    rintro _ rfl
    exact .pure rfl
  refine reads_start.bind fun s _ ↦ hfirst.bind fun e he ↦ hmore.bind ?_
  rintro _ rfl
  exact .pure he

end Operators

section Goals

variable {E : List Char → Prop} {awaits newline arrowTypes : Bool} {d : Nat} {t u v : Token}
  {ts us vs : List Token} {Q : Node → Prop} {name field : String}

theorem endsBinary_of_endsAssign (h : endsAssign u) : endsBinary u := by
  simp only [endsAssign, Bool.and_eq_true] at h
  exact h.1.1.1

theorem endsOperand_of_endsAssign (h : endsAssign u) : endsOperand u := by
  have hbinary := endsBinary_of_endsAssign h
  simp only [endsBinary, Bool.and_eq_true] at hbinary
  exact hbinary.1.1

theorem reads_goal_assign (ht : StartsOperand awaits t) (hv : followsPlain v)
    (hoperand : Reads (operand (goals d)) (At E (plain awaits) (t :: v :: ts))
      (At E (plain awaits) (u :: us)) Q) (hu : endsAssign u) :
    Reads (goals (d + 2) (.assign arrowTypes)) (At E (plain awaits) (t :: v :: ts))
      (At E (plain awaits) (u :: us)) Q :=
  reads_assign ht hv (reads_binary ht hoperand (endsBinary_of_endsAssign hu)) hu

inductive Atom where
  | name (text : String)
  | digits (text : String)
  | sum (base offset : String)

namespace Atom

def tokens : Atom → List Token
  | .name text => [.word text false]
  | .digits text => [.digits text false]
  | .sum base offset => [.word base false, .sign "+" false, .digits offset false]

def isReferable (awaits : Bool) : Atom → Bool
  | .name text => isIdentifierText text && !(awaits && text == "await")
  | .digits _ => true
  | .sum base _ => isIdentifierText base && !(awaits && base == "await")

def IsRead : Atom → Node → Prop
  | .name text, e => ∃ span, e = .ref span text
  | .digits text, e => ∃ span, e = .lit span (.number text)
  | .sum base offset, e =>
    IsSum (fun e ↦ ∃ span, e = .ref span base) (fun e ↦ ∃ span, e = .lit span (.number offset)) e

end Atom

theorem Atom.startsOperand {atom : Atom} (h : atom.isReferable awaits) :
    ∃ v vs, atom.tokens = v :: vs ∧ StartsOperand awaits v := by
  cases atom with
  | name text =>
    simp only [Atom.isReferable, Bool.and_eq_true, Bool.not_eq_true'] at h
    exact ⟨_, _, rfl, .word h.1 h.2 false⟩
  | digits text => exact ⟨_, _, rfl, .digits text false⟩
  | sum base offset =>
    simp only [Atom.isReferable, Bool.and_eq_true, Bool.not_eq_true'] at h
    exact ⟨_, _, rfl, .word h.1 h.2 false⟩

theorem reads_atom {atom : Atom} (h : atom.isReferable awaits) (hfollows : followsPlain u)
    (hu : endsAssign u) :
    Reads (goals (d + 3) (.assign arrowTypes)) (At E (plain awaits) (atom.tokens ++ u :: us))
      (At E (plain awaits) (u :: us)) atom.IsRead := by
  have hword (n : String) (v : Token) (vs : List Token) (hn : isIdentifierText n)
      (hawait : (awaits && n == "await") = false) (hfunction : v.is "function" = false)
      (hv : endsOperand v) :
      Reads (operand (goals (d + 1))) (At E (plain awaits) (.word n false :: v :: vs))
        (At E (plain awaits) (v :: vs)) (fun e ↦ ∃ span, e = .ref span n) :=
    reads_operand (reads_primary_word hn hawait hfunction) hv
  have hdigits (text : String) (d : Nat) : Reads (operand (goals d))
      (At E (plain awaits) (.digits text false :: u :: us)) (At E (plain awaits) (u :: us))
      (fun e ↦ ∃ span, e = .lit span (.number text)) :=
    reads_operand reads_primary_digits (endsOperand_of_endsAssign hu)
  cases atom with
  | name text =>
    simp only [Atom.isReferable, Bool.and_eq_true, Bool.not_eq_true'] at h
    have hfunction : u.is "function" = false := by
      simp only [followsPlain, Bool.and_eq_true, Bool.not_eq_true'] at hfollows
      exact hfollows.1.2
    exact reads_goal_assign (.word h.1 h.2 false) hfollows
      (hword text u us h.1 h.2 hfunction (endsOperand_of_endsAssign hu)) hu
  | digits text => exact reads_goal_assign (.digits text false) hfollows (hdigits text (d + 1)) hu
  | sum base offset =>
    simp only [Atom.isReferable, Bool.and_eq_true, Bool.not_eq_true'] at h
    refine reads_assign (v := .sign "+" false) (.word h.1 h.2 false) rfl ?_ hu
    refine reads_binary_sum (.word h.1 h.2 false) (hword base _ _ h.1 h.2 rfl rfl) (by decide)
      ?_ (endsBinary_of_endsAssign hu)
    exact reads_binary (.digits offset false) (hdigits offset d) (endsBinary_of_endsAssign hu)

theorem reads_methodCall {atoms : List Atom} (hname : isIdentifierText name)
    (hawait : (awaits && name == "await") = false)
    (hmethod : ReadsMethod E (plain awaits) (goals (d + 3)) name field ts
      (listed (.sign ")" false) Atom.tokens atoms (u :: us)))
    (hatoms : ∀ atom ∈ atoms, atom.isReferable awaits) (hu : endsAssign u) :
    Reads (goals (d + 5) (.assign arrowTypes))
      (At E (plain awaits) (.word name newline :: .sign "." false :: .word field false :: ts))
      (At E (plain awaits) (u :: us))
      (IsMethodCall name field (List.Forall₂ Atom.IsRead atoms)) := by
  refine reads_goal_assign (v := .sign "." false) (.word hname hawait newline) rfl ?_ hu
  refine reads_operand_call hname hawait hmethod ?_ (endsOperand_of_endsAssign hu)
  refine reads_arguments (fun atom hatom ↦ ?_) fun atom hatom v vs hv ↦ ?_
  · obtain ⟨v, vs, hv, hstarts⟩ := Atom.startsOperand (hatoms atom hatom)
    exact ⟨v, vs, hv, hstarts.not_isAny (by decide)⟩
  · rcases hv with rfl | rfl
    · exact reads_atom (hatoms atom hatom) rfl rfl
    · exact reads_atom (hatoms atom hatom) rfl rfl

end Goals

end Recompose.Script
