import Recompose.Proofs.Reading.Expression

namespace Recompose.Script

open Parse

/-- How tightly the parts of a type hold together. -/
inductive TypeRank where
  | primary
  | operand
  | intersection
  | union

namespace TypeRank

/-- The signs that go on with what has been read. -/
def signs : TypeRank → List String
  | primary => [".", "<", "<<", "=>", "new", "this"]
  | operand => [".", "<", "<<", "=>", "new", "this", "[", "!", "?", "(", "\x7b"]
  | intersection => [".", "<", "<<", "=>", "new", "this", "[", "!", "?", "(", "\x7b", "&"]
  | union => [".", "<", "<<", "=>", "new", "this", "[", "!", "?", "(", "\x7b", "&", "|", "extends"]

def ends (r : TypeRank) (t : Token) : Bool :=
  t.kind == .punct && !t.isAny r.signs

theorem kind_of_ends {r : TypeRank} {t : Token} (h : r.ends t) : t.kind = .punct := by
  simp only [ends, Bool.and_eq_true, beq_iff_eq] at h
  exact h.1

theorem not_is_of_ends {r : TypeRank} {t : Token} (h : r.ends t) {s : String} (hs : s ∈ r.signs) :
    t.is s = false := by
  simp only [ends, Bool.and_eq_true, Bool.not_eq_true'] at h
  exact Token.is_of_isAny h.2 hs

theorem ends_of_subset {r r' : TypeRank} {t : Token} (hr : r'.signs ⊆ r.signs) (h : r.ends t) :
    r'.ends t := by
  have hkind := kind_of_ends h
  have hsigns : t.isAny r'.signs = false := by
    by_contra hany
    simp only [Token.isAny, hkind, Bool.not_eq_false, Bool.and_eq_true, List.contains_iff_mem] at hany
    have his := not_is_of_ends h (hr hany.2)
    simp [Token.is, hkind] at his
  simp [ends, hkind, hsigns]

def reader (goal : Goals) : TypeRank → Parser Node
  | primary => primaryType goal
  | operand => operatorType goal
  | intersection => joined "&" .intersection (operatorType goal)
  | union => type goal

end TypeRank

/-- Words that a bracket behind them makes into something else than a name. -/
def bracketWords : List String :=
  ["keyof", "unique", "readonly", "public", "protected", "private", "override"]

def wordTypes : List String :=
  ["null", "void", "true", "false"]

def isLiteral (t : Token) : Bool :=
  t.isString || t.kind == .number || t.kind == .bigint

def dotted (fields : List String) : List Token :=
  fields.flatMap fun field ↦ [.sign "." false, .word field false]

def brackets : Nat → List Token
  | 0 => []
  | n + 1 => .sign "[" false :: .sign "]" false :: brackets n

def joinedWith (sign : String) (more : List (Bool × List Token)) : List Token :=
  more.flatMap fun part ↦ .sign sign part.1 :: part.2

/-- The tokens of a type that is made of names, literals, type arguments, parentheses, array brackets,
unions and intersections. -/
inductive TypeTokens : TypeRank → List Token → Prop
  | literal {t : Token} (h : isLiteral t) : TypeTokens .primary [t]
  | word {name : String} {newline : Bool} (h : name ∈ wordTypes) :
    TypeTokens .primary [.word name newline]
  | name {name : String} {newline : Bool} (fields : List String) (hname : isIdentifierText name)
    (hawait : name ≠ "await") : TypeTokens .primary (.word name newline :: dotted fields)
  | applied {name : String} {newline newline' : Bool} (fields : List String) (args : List (List Token))
    (hname : isIdentifierText name) (hawait : name ≠ "await")
    (hword : fields = [] → typeWords.contains name = false) (hne : args ≠ [])
    (hargs : ∀ arg ∈ args, TypeTokens .union arg) :
    TypeTokens .primary (.word name newline :: (dotted fields ++
      .sign "<" false :: listed (.sign ">" newline') id args []))
  | paren {newline newline' : Bool} {ts : List Token} (h : TypeTokens .union ts) :
    TypeTokens .primary (.sign "(" newline :: (ts ++ [.sign ")" newline']))
  | array {t : Token} {ts : List Token} (n : Nat) (h : TypeTokens .primary (t :: ts))
    (ht : n ≠ 0 → t.isAny bracketWords = false) : TypeTokens .operand (t :: ts ++ brackets n)
  | intersection {first : List Token} (more : List (Bool × List Token))
    (hfirst : TypeTokens .operand first) (hmore : ∀ part ∈ more, TypeTokens .operand part.2) :
    TypeTokens .intersection (first ++ joinedWith "&" more)
  | union {first : List Token} (more : List (Bool × List Token))
    (hfirst : TypeTokens .intersection first)
    (hmore : ∀ part ∈ more, TypeTokens .intersection part.2) :
    TypeTokens .union (first ++ joinedWith "|" more)

def typeSigns : List String :=
  [".", "<", "[", "&", "|"]

/-- Behind the first token of a type stands a sign that goes on with it, or nothing. -/
def GoesOn (ts : List Token) : Prop :=
  ts = [] ∨ ∃ s newline rest, s ∈ typeSigns ∧ ts = Token.sign s newline :: rest

/-- What the first tokens of a type tell about it. -/
inductive OpensType : List Token → Prop
  | literal {t : Token} {ts : List Token} (h : isLiteral t) : OpensType (t :: ts)
  | word {name : String} {newline : Bool} {ts : List Token} (h : isIdentifierText name ∨ name ∈ wordTypes)
    (hts : GoesOn ts)
    (hbracket : bracketWords.contains name → ∀ v ∈ ts.head?, v.is "[" = false) :
    OpensType (.word name newline :: ts)
  | paren {newline newline' : Bool} {ts rest : List Token} (h : OpensType ts) (hrest : GoesOn rest) :
    OpensType (.sign "(" newline :: (ts ++ .sign ")" newline' :: rest))

theorem GoesOn.append {ts us : List Token} (hts : GoesOn ts) (hus : GoesOn us) : GoesOn (ts ++ us) := by
  rcases hts with rfl | ⟨s, newline, rest, hs, rfl⟩
  · exact hus
  · exact .inr ⟨s, newline, rest ++ us, hs, rfl⟩

theorem goesOn_dotted (fields : List String) : GoesOn (dotted fields) := by
  cases fields with
  | nil => exact .inl rfl
  | cons field fields => exact .inr ⟨".", false, _, by decide, rfl⟩

theorem goesOn_brackets (n : Nat) : GoesOn (brackets n) := by
  cases n with
  | zero => exact .inl rfl
  | succ n => exact .inr ⟨"[", false, _, by decide, rfl⟩

theorem goesOn_joinedWith {sign : String} (h : sign ∈ typeSigns) (more : List (Bool × List Token)) :
    GoesOn (joinedWith sign more) := by
  cases more with
  | nil => exact .inl rfl
  | cons part more => exact .inr ⟨sign, part.1, _, h, rfl⟩

theorem GoesOn.head {ts : List Token} (h : GoesOn ts) (u : Token) (us : List Token) :
    ∃ v vs, ts ++ u :: us = v :: vs ∧
      (v ∈ ts.head? ∧ (∃ s newline, s ∈ typeSigns ∧ v = .sign s newline) ∨ ts = [] ∧ v = u ∧ vs = us) := by
  rcases h with rfl | ⟨s, newline, rest, hs, rfl⟩
  · exact ⟨u, us, rfl, .inr ⟨rfl, rfl, rfl⟩⟩
  · exact ⟨_, _, rfl, .inl ⟨rfl, s, newline, hs, rfl⟩⟩

theorem OpensType.append {ts us : List Token} (h : OpensType ts) (hus : GoesOn us)
    (hbracket : (∀ v ∈ us.head?, v.is "[" = false) ∨ ∀ t ∈ ts.head?, t.isAny bracketWords = false) :
    OpensType (ts ++ us) := by
  cases h with
  | literal h => exact .literal h
  | @word name newline ts h hts hopens =>
    refine .word h (hts.append hus) fun hname v hv ↦ ?_
    rcases hts with rfl | ⟨s, newline', rest, hs, rfl⟩
    · rcases hbracket with hbracket | hbracket
      · exact hbracket v hv
      · have := hbracket _ rfl
        simp_all
    · exact hopens hname v hv
  | @paren newline newline' ts rest h hrest =>
    rw [List.cons_append, List.append_assoc, List.cons_append]
    exact .paren h (hrest.append hus)

theorem TypeTokens.opens {r : TypeRank} {ts : List Token} (h : TypeTokens r ts) : OpensType ts := by
  induction h with
  | literal h => exact .literal h
  | word h => exact .word (.inr h) (.inl rfl) (by simp)
  | @name name newline fields hname hawait =>
    refine .word (.inl hname) (goesOn_dotted fields) fun _ v hv ↦ ?_
    cases fields with
    | nil => simp [dotted] at hv
    | cons field fields =>
      obtain rfl : Token.sign "." false = v := by simpa [dotted] using hv
      rfl
  | @applied name newline newline' fields args hname hawait hword hne hargs ih =>
    refine .word (.inl hname) ?_ fun _ v hv ↦ ?_
    · exact (goesOn_dotted fields).append (.inr ⟨"<", false, _, by decide, rfl⟩)
    · cases fields with
      | nil =>
        obtain rfl : Token.sign "<" false = v := by simpa [dotted] using hv
        rfl
      | cons field fields =>
        obtain rfl : Token.sign "." false = v := by simpa [dotted] using hv
        rfl
  | paren h ih => exact .paren ih (.inl rfl)
  | @array t ts n h ht ih =>
    refine ih.append (goesOn_brackets n) ?_
    cases n with
    | zero => exact .inl (by simp [brackets])
    | succ n => exact .inr (by simpa using ht (by simp))
  | @intersection first more hfirst hmore ih =>
    refine ih.append (goesOn_joinedWith (by decide) more) (.inl fun v hv ↦ ?_)
    cases more with
    | nil => simp [joinedWith] at hv
    | cons part more =>
      obtain rfl : Token.sign "&" part.1 = v := by simpa [joinedWith] using hv
      simp
  | @union first more hfirst hmore ih =>
    refine ih.append (goesOn_joinedWith (by decide) more) (.inl fun v hv ↦ ?_)
    cases more with
    | nil => simp [joinedWith] at hv
    | cons part more =>
      obtain rfl : Token.sign "|" part.1 = v := by simpa [joinedWith] using hv
      simp

section Types

variable {E : List Char → Prop} {k : Context} {awaits newline : Bool} {goal : Goals} {d fuel : Nat}
  {t u v w : Token} {ts us vs : List Token} {name field : String}

theorem kind_of_isLiteral (h : isLiteral t) :
    (t.kind == .punct || (t.kind == .name && !t.escaped)) = false := by
  simp only [isLiteral, Token.isString] at h
  cases hk : t.kind <;> simp_all

theorem not_is_of_isLiteral (h : isLiteral t) (s : String) : t.is s = false := by
  simp [Token.is, kind_of_isLiteral h]

theorem not_isAny_of_isLiteral (h : isLiteral t) (ss : List String) : t.isAny ss = false := by
  simp [Token.isAny, kind_of_isLiteral h]

/-- A word that stands for a type is none of those that cannot. -/
theorem ne_of_isTypeWord {s : String} (h : isIdentifierText name ∨ name ∈ wordTypes)
    (hs : isIdentifierText s = false) (hs' : s ∉ wordTypes) : (name == s) = false := by
  rcases h with h | h
  · exact ne_of_isIdentifierText h hs
  · rw [beq_eq_false_iff_ne]
    rintro rfl
    exact hs' h

theorem OpensType.not_is (h : OpensType ts) : ∃ t ts', ts = t :: ts' ∧
    ∀ s ∈ ["|", "&", "!", ">", ")", "...", "<", "new"], t.is s = false := by
  cases h with
  | literal h => exact ⟨_, _, rfl, fun s _ ↦ not_is_of_isLiteral h s⟩
  | word h hts hbracket =>
    refine ⟨_, _, rfl, fun s hs ↦ ?_⟩
    have : isIdentifierText s = false ∧ s ∉ wordTypes := by
      revert s
      decide
    rw [Token.is_word]
    exact ne_of_isTypeWord h this.1 this.2
  | paren h hrest =>
    refine ⟨_, _, rfl, fun s hs ↦ ?_⟩
    rw [Token.is_sign]
    revert s
    decide

theorem reads_parameterModifiers_none
    (h : t.isAny ["public", "protected", "private", "readonly", "override"] = false ∨
      ∀ span, followsModifier (u.placed span) = false) :
    Reads (parameterModifiers 5 {}) (At E k (t :: u :: us)) (At E k (t :: u :: us)) (· = {}) := by
  have hone : Reads (parameterModifier {}) (At E k (t :: u :: us)) (At E k (t :: u :: us))
      (· = none) := by
    refine reads_token.bind ?_
    rintro _ ⟨span, rfl⟩
    refine reads_ahead.bind ?_
    rintro _ ⟨span', rfl⟩
    rw [if_neg]
    · exact .pure rfl
    · rcases h with h | h <;> simp [h]
  rw [parameterModifiers]
  refine hone.bind ?_
  rintro _ rfl
  exact .pure rfl

theorem fails_skipParameterStart (h : t.isIdentifier = false) (hthis : t.is "this" = false)
    (hopen : t.isAny ["[", "\x7b"] = false)
    (hmodifier : t.isAny ["public", "protected", "private", "readonly", "override"] = false) :
    Fails skipParameterStart (At E k (t :: u :: us)) := by
  refine (reads_parameterModifiers_none (.inl hmodifier)).bind_fails fun _ _ ↦ ?_
  refine reads_token.bind_fails ?_
  rintro _ ⟨span, rfl⟩
  simp only [Token.isIdentifier_placed, Token.is_placed, Token.isAny_placed, h, hthis, hopen,
    Bool.or_self, Bool.false_eq_true, if_false]
  exact fun _ _ ↦ rfl

/-- A parenthesis in front of a type opens no parameters. -/
theorem reads_opensFunctionType {newline' : Bool} (h : OpensType ts) (hw : w.is "=>" = false) :
    Reads opensFunctionType
      (At E k (.sign "(" newline :: (ts ++ .sign ")" newline' :: w :: us)))
      (At E k (.sign "(" newline :: (ts ++ .sign ")" newline' :: w :: us))) (· = false) := by
  obtain ⟨t, ts', rfl, hnot⟩ := h.not_is
  have hclose : t.isAny [")", "..."] = false := by
    have hparen := hnot ")" (by simp)
    have hdots := hnot "..." (by simp)
    simp only [Token.is, Token.isAny] at hparen hdots ⊢
    grind
  obtain ⟨v, vs, hv⟩ := List.exists_cons_of_ne_nil
    (show ts' ++ Token.sign ")" newline' :: w :: us ≠ [] by simp)
  rw [List.cons_append, hv]
  have hstop (hfails : Fails skipParameterStart (At E k (t :: v :: vs))) :
      Reads opensFunctionType (At E k (.sign "(" newline :: t :: v :: vs))
        (At E k (.sign "(" newline :: t :: v :: vs)) (· = false) := by
    refine reads_foresee_of_fails ((reads_expect rfl).bind_fails fun _ _ ↦ ?_)
    refine reads_isAtAny.bind_fails ?_
    rintro _ rfl
    rw [if_neg (by simp [hclose])]
    exact hfails.bind
  cases h with
  | literal h =>
    refine hstop (fails_skipParameterStart ?_ (not_is_of_isLiteral h _)
      (not_isAny_of_isLiteral h _) (not_isAny_of_isLiteral h _))
    simp only [isLiteral, Token.isString] at h
    cases hk : t.kind <;> simp_all [Token.isIdentifier]
  | paren h hrest => exact hstop (fails_skipParameterStart rfl rfl rfl rfl)
  | @word name newline _ h hts hbracket =>
    by_cases hname : isIdentifierText name
    · have hsign := hts.head (.sign ")" newline') (w :: us)
      rw [hv] at hsign
      obtain ⟨_, _, heq, hsign⟩ := hsign
      obtain ⟨rfl, rfl⟩ := List.cons.inj heq
      have hmodifier : (Token.word name newline).isAny
          ["public", "protected", "private", "readonly", "override"] = false ∨
          ∀ span, followsModifier (v.placed span) = false := by
        rcases hsign with ⟨hhead, s, newline', hs, rfl⟩ | ⟨-, rfl, -⟩
        · by_cases hword : bracketWords.contains name
          · have hs' : (s == "[") = false := by simpa using hbracket hword _ hhead
            have hfollows : ∀ s ∈ typeSigns, (s == "[") = false → ∀ newline' span,
                followsModifier ((Token.sign s newline').placed span) = false := by
              simp [typeSigns, followsModifier, Token.isString, Token.sign, Token.placed, Token.isAny]
            exact .inr (hfollows s hs hs' newline')
          · exact .inl (by simp_all [bracketWords])
        · exact .inr fun _ ↦ rfl
      have hbehind : v.isAny [":", ",", "?", "="] = false := by
        rcases hsign with ⟨-, s, newline', hs, rfl⟩ | ⟨-, rfl, -⟩
        · have happart : ∀ s ∈ typeSigns, [":", ",", "?", "="].contains s = false := by decide
          rw [Token.isAny_sign, happart s hs]
        · rfl
      have hskip : Reads skipParameterStart (At E k (.word name newline :: v :: vs))
          (At E k (v :: vs)) (fun _ ↦ True) := by
        refine (reads_parameterModifiers_none hmodifier).bind fun _ _ ↦ reads_token.bind ?_
        rintro _ ⟨span, rfl⟩
        rw [Token.isIdentifier_placed, isIdentifier_word hname, Bool.true_or, if_pos rfl]
        exact reads_next
      obtain ⟨B, hclosed⟩ : ∃ B, Reads (do if ← Parser.eat ")" then Parser.isAt "=>" else return false)
          (At E k (v :: vs)) B (· = false) := by
        rcases hsign with ⟨-, s, newline', hs, rfl⟩ | ⟨-, rfl, rfl⟩
        · have hparen : ∀ s ∈ typeSigns, (s == ")") = false := by decide
          refine ⟨At E k (.sign s newline' :: vs),
            (reads_eat_of_not_is (by rw [Token.is_sign, hparen s hs])).bind ?_⟩
          rintro _ rfl
          exact .pure rfl
        · refine ⟨At E k (w :: us), (reads_eat rfl).bind ?_⟩
          rintro _ rfl
          refine reads_isAt.mono ?_
          rintro _ rfl
          exact hw
      refine reads_foresee (B := B) ((reads_expect rfl).bind fun _ _ ↦ reads_isAtAny.bind ?_)
      rintro _ rfl
      rw [if_neg (by simp [hclose])]
      refine hskip.bind fun _ _ ↦ reads_isAtAny.bind ?_
      rintro _ rfl
      rw [if_neg (by simp [hbehind])]
      exact hclosed
    · have hword : name ∈ wordTypes := h.resolve_left hname
      have happart : ∀ name ∈ wordTypes, Token.reserved.contains name ∧ (name == "this") = false ∧
          ["[", "\x7b"].contains name = false ∧
          ["public", "protected", "private", "readonly", "override"].contains name = false := by
        decide
      obtain ⟨hreserved, hthis, hopen, hmodifier⟩ := happart name hword
      refine hstop (fails_skipParameterStart ?_ (by rw [Token.is_word, hthis])
        (by rw [Token.isAny_word, hopen]) (by rw [Token.isAny_word, hmodifier]))
      rw [Token.isIdentifier, Token.word_text, hreserved, Bool.not_true, Bool.and_false]

theorem reads_startsFunctionType (h : OpensType ts) (hu : TypeRank.primary.ends u) :
    Reads startsFunctionType (At E k (ts ++ u :: us)) (At E k (ts ++ u :: us)) (· = false) := by
  have hkind := TypeRank.kind_of_ends hu
  have hnew : u.is "new" = false := TypeRank.not_is_of_ends hu (by decide)
  have harrow : u.is "=>" = false := TypeRank.not_is_of_ends hu (by decide)
  cases h with
  | literal h =>
    refine reads_token.bind ?_
    rintro _ ⟨span, rfl⟩
    simp only [Token.is_placed, not_is_of_isLiteral h, Bool.or_self, Bool.false_eq_true, if_false]
    exact .pure rfl
  | @word name newline ts h hts hbracket =>
    obtain ⟨v, vs, hv, hsign⟩ := hts.head u us
    have hbehind : v.is "new" = false := by
      rcases hsign with ⟨-, s, newline', hs, rfl⟩ | ⟨-, rfl, -⟩
      · have hnew : ∀ s ∈ typeSigns, (s == "new") = false := by decide
        rw [Token.is_sign, hnew s hs]
      · exact hnew
    rw [List.cons_append, hv]
    refine reads_token.bind ?_
    rintro _ ⟨span, rfl⟩
    simp only [Token.is_placed, Token.is_word, ne_of_isTypeWord h (s := "<") (by decide) (by decide),
      ne_of_isTypeWord h (s := "new") (by decide) (by decide),
      ne_of_isTypeWord h (s := "(") (by decide) (by decide), Bool.or_self, Bool.false_eq_true, if_false]
    split
    · refine reads_ahead.mono ?_
      rintro _ ⟨_, rfl⟩
      exact hbehind
    · exact .pure rfl
  | @paren newline newline' ts rest h hrest =>
    obtain ⟨w, ws, hw, hsign⟩ := hrest.head u us
    have hbehind : w.is "=>" = false := by
      rcases hsign with ⟨-, s, newline', hs, rfl⟩ | ⟨-, rfl, -⟩
      · have harrow : ∀ s ∈ typeSigns, (s == "=>") = false := by decide
        rw [Token.is_sign, harrow s hs]
      · exact harrow
    rw [List.cons_append, List.append_assoc, List.cons_append, hw]
    refine reads_token.bind ?_
    rintro _ ⟨span, rfl⟩
    exact reads_opensFunctionType h hbehind

theorem reads_pathRest (fields : List String) (h : u.is "." = false) :
    Reads pathRest (At E k (dotted fields ++ u :: us)) (At E k (u :: us)) (fun _ ↦ True) := by
  refine (reads_repeats (R := fun _ _ ↦ True) (fun fields ↦ dotted fields ++ u :: us) fields ?_
    (fun field fields _ ↦ ?_) ?_).mono fun _ _ ↦ trivial
  · induction fields with
    | nil => simp [dotted]
    | cons field fields ih =>
      simp only [dotted, List.flatMap_cons, List.length_append, List.length_cons] at ih ⊢
      omega
  · have hcons : dotted (field :: fields) ++ u :: us =
        .sign "." false :: .word field false :: (dotted fields ++ u :: us) := rfl
    rw [hcons]
    refine (reads_eat rfl).bind ?_
    rintro _ rfl
    refine reads_token.bind ?_
    rintro _ ⟨span, rfl⟩
    rw [if_neg (by simp)]
    obtain ⟨v, vs, hv⟩ := List.exists_cons_of_ne_nil (show dotted fields ++ u :: us ≠ [] by simp)
    have hany : Reads Parser.anyName (At E k (.word field false :: v :: vs)) (At E k (v :: vs))
        (fun _ ↦ True) := by
      refine reads_token.bind ?_
      rintro _ ⟨span, rfl⟩
      exact (reads_guarded rfl).bind fun _ _ ↦ reads_next.bind fun _ _ ↦ .pure trivial
    rw [hv]
    exact hany.bind fun name _ ↦ .pure ⟨name, rfl, trivial⟩
  · refine (reads_eat_of_not_is h).bind ?_
    rintro _ rfl
    exact .pure rfl

theorem reads_typeArgumentsHere_none (hless : u.is "<" = false) (hshift : u.is "<<" = false) :
    Reads (typeArgumentsHere goal) (At E k (u :: us)) (At E k (u :: us)) (fun _ ↦ True) := by
  refine reads_token.bind ?_
  rintro _ ⟨span, rfl⟩
  rw [Token.is_placed, Token.is_placed, hless, hshift, Bool.or_self, Bool.and_false, if_neg (by simp)]
  exact .pure trivial

theorem reads_typeArguments (args : List (List Token)) (hne : args ≠ [])
    (hopens : ∀ arg ∈ args, OpensType arg)
    (hargs : ∀ arg ∈ args, ∀ v vs, TypeRank.union.ends v → Reads (goal .ty)
      (At E (plain awaits) (arg ++ v :: vs)) (At E (plain awaits) (v :: vs)) (fun _ ↦ True)) :
    Reads (typeArguments goal)
      (At E (plain awaits) (.sign "<" false :: listed (.sign ">" newline) id args (u :: us)))
      (At E (plain awaits) (u :: us)) (fun _ ↦ True) := by
  obtain ⟨v, vs, hv⟩ := List.exists_cons_of_ne_nil
    (listed_ne_nil (.sign ">" newline) id args (u :: us))
  have hcut : Reads Parser.cutLess (At E (plain awaits) (.sign "<" false :: v :: vs))
      (At E (plain awaits) (.sign "<" false :: v :: vs)) (fun _ ↦ True) := by
    refine reads_token.bind ?_
    rintro _ ⟨span, rfl⟩
    exact .pure trivial
  have hlist : Reads (Parser.commaList ">" (goal .ty))
      (At E (plain awaits) (listed (.sign ">" newline) id args (u :: us)))
      (At E (plain awaits) (u :: us)) (List.Forall₂ (fun _ _ ↦ True) args) := by
    refine reads_commaList (by simp) (by simp) args (fun arg harg ↦ ?_) fun arg harg v vs hv ↦ ?_
    · obtain ⟨t, ts, hts, hnot⟩ := (hopens arg harg).not_is
      exact ⟨t, ts, hts, hnot ">" (by simp)⟩
    · exact hargs arg harg v vs (by rcases hv with rfl | rfl <;> rfl)
  rw [hv] at hlist ⊢
  refine hcut.bind fun _ _ ↦ (reads_expect rfl).bind fun _ _ ↦ ?_
  refine (reads_within hlist).bind fun types htypes ↦ ?_
  refine (reads_guarded ?_).bind fun _ _ ↦ .pure trivial
  simpa [← htypes.length_eq] using List.length_pos_iff.2 hne

theorem reads_primaryType_literal (h : isLiteral t) :
    Reads (primaryType goal) (At E k (t :: u :: us)) (At E k (u :: us)) (fun _ ↦ True) := by
  refine reads_token.bind ?_
  rintro _ ⟨span, rfl⟩
  simp only [isLiteral, Token.isString] at h
  rw [Token.placed_kind]
  cases hkind : t.kind with
  | string lone => exact reads_next.bind fun _ _ ↦ .pure trivial
  | number => exact reads_next.bind fun _ _ ↦ .pure trivial
  | bigint => exact reads_next.bind fun _ _ ↦ .pure trivial
  | _ => simp [hkind] at h

theorem reads_primaryType_word (h : name ∈ wordTypes) (hu : TypeRank.primary.ends u) :
    Reads (primaryType goal) (At E k (.word name newline :: u :: us)) (At E k (u :: us))
      (fun _ ↦ True) := by
  have hpoint : u.is "." = false := TypeRank.not_is_of_ends hu (by decide)
  refine reads_token.bind ?_
  rintro _ ⟨span, rfl⟩
  simp only [Token.placed_kind, Token.word_kind, Token.is_placed, Token.is_word, Token.isAny_placed,
    Token.isAny_word]
  have hword : name = "true" ∨ name = "false" ∨ (name == "true") = false ∧ (name == "false") = false ∧
      (name == "typeof") = false ∧ (name == "import") = false ∧ (name == "this") = false ∧
      (name == "asserts") = false ∧ typeWords.contains name = true := by
    revert name
    decide
  rcases hword with rfl | rfl | ⟨htrue, hfalse, htypeof, himport, hthis, hasserts, hword⟩
  · exact reads_next.bind fun _ _ ↦ .pure trivial
  · exact reads_next.bind fun _ _ ↦ .pure trivial
  · simp only [htrue, hfalse, htypeof, himport, hthis, hasserts, hword, Bool.or_self, Bool.false_and,
      Bool.true_and, Bool.false_eq_true, if_false]
    refine reads_ahead_any.bind fun _ _ ↦ reads_ahead.bind ?_
    rintro _ ⟨_, rfl⟩
    rw [Token.is_placed, hpoint, Bool.not_false, if_pos rfl]
    exact reads_next.bind fun _ _ ↦ .pure trivial

/-- A word for a basic type takes nothing behind it; any other name may have a path and arguments. -/
theorem reads_primaryType_name {fields : List String} {B : Cursor → Prop} (hname : isIdentifierText name)
    (hawait : name ≠ "await") (hkind : v.kind = .punct) (hthis : v.is "this" = false)
    (hpoint : v.is "." = false)
    (hword : fields = [] → typeWords.contains name → B = At E (plain awaits) (v :: vs))
    (hargs : Reads (typeArgumentsHere goal) (At E (plain awaits) (v :: vs)) B (fun _ ↦ True)) :
    Reads (primaryType goal) (At E (plain awaits) (.word name newline :: (dotted fields ++ v :: vs))) B
      (fun _ ↦ True) := by
  have hne (s : String) (hs : isIdentifierText s = false) : (name == s) = false :=
    ne_of_isIdentifierText hname hs
  obtain ⟨w, ws, hw, hbehind⟩ : ∃ w ws, dotted fields ++ v :: vs = w :: ws ∧ w.kind = .punct ∧
      w.is "this" = false ∧ (w.is "." = false → fields = []) := by
    cases fields with
    | nil => exact ⟨v, vs, rfl, hkind, hthis, fun _ ↦ rfl⟩
    | cons field fields => exact ⟨_, _, rfl, rfl, rfl, by simp⟩
  have hidentifier : w.isIdentifier = false := by simp [Token.isIdentifier, hbehind.1]
  have hpath (s : Nat) : Reads (do typeName goal s (← Parser.identifier))
      (At E (plain awaits) (.word name newline :: (dotted fields ++ v :: vs))) B (fun _ ↦ True) := by
    rw [hw]
    refine (reads_identifier (isIdentifier_word hname newline) (by simp [hawait]) rfl).bind fun _ _ ↦ ?_
    rw [← hw]
    refine (reads_pathRest fields hpoint).bind fun _ _ ↦ hargs.bind fun _ _ ↦ ?_
    exact reads_spanFrom.bind fun _ _ ↦ .pure trivial
  rw [hw] at hpath ⊢
  refine reads_token.bind ?_
  rintro _ ⟨span, rfl⟩
  simp only [Token.placed_kind, Token.word_kind, Token.is_placed, Token.is_word,
    hne "true" (by decide), hne "false" (by decide), hne "typeof" (by decide),
    hne "import" (by decide), hne "this" (by decide), Bool.or_self, Bool.false_eq_true, if_false]
  refine reads_ahead.bind ?_
  rintro _ ⟨_, rfl⟩
  simp only [Token.isIdentifier_placed, Token.is_placed, hidentifier, hbehind.2.1, Bool.or_self,
    Bool.and_false, Bool.false_eq_true, if_false]
  refine reads_ahead.bind ?_
  rintro _ ⟨_, rfl⟩
  split
  · next htype =>
    simp only [Token.isAny_placed, Token.isAny_word, Token.is_placed, Bool.and_eq_true,
      Bool.not_eq_true'] at htype
    obtain rfl := hbehind.2.2 htype.2
    obtain ⟨rfl, rfl⟩ := List.cons.inj hw
    rw [hword rfl htype.1]
    exact reads_next.bind fun _ _ ↦ .pure trivial
  · exact hpath _

theorem reads_primaryType_paren {newline' : Bool} (hopens : OpensType ts)
    (hts : ∀ v vs, TypeRank.union.ends v → Reads (goal .ty)
      (At E (plain awaits) (ts ++ v :: vs)) (At E (plain awaits) (v :: vs)) (fun _ ↦ True)) :
    Reads (primaryType goal)
      (At E (plain awaits) (.sign "(" newline :: (ts ++ .sign ")" newline' :: u :: us)))
      (At E (plain awaits) (u :: us)) (fun _ ↦ True) := by
  obtain ⟨t, ts', rfl, -⟩ := hopens.not_is
  refine reads_token.bind ?_
  rintro _ ⟨span, rfl⟩
  refine reads_next.bind fun _ _ ↦ (reads_within (hts _ _ (by rfl))).bind fun _ _ ↦ ?_
  exact (reads_expect (by simp)).bind fun _ _ ↦ reads_spanFrom.bind fun _ _ ↦ .pure trivial

theorem reads_suffixes (hu : TypeRank.operand.ends u) (n : Nat) {s : Nat} {type : Node}
    (hfuel : n < fuel) :
    Reads (suffixes goal s fuel type) (At E k (brackets n ++ u :: us)) (At E k (u :: us))
      (fun _ ↦ True) := by
  obtain _ | fuel := fuel
  · exact absurd hfuel (by simp)
  induction n generalizing fuel type with
  | zero =>
    have hbracket : u.is "[" = false := TypeRank.not_is_of_ends hu (by decide)
    have hmark : u.is "!" = false := TypeRank.not_is_of_ends hu (by decide)
    have hquestion : u.is "?" = false := TypeRank.not_is_of_ends hu (by decide)
    rw [suffixes]
    refine reads_token.bind ?_
    rintro _ ⟨span, rfl⟩
    simp only [Token.is_placed, hbracket, hmark, hquestion, Bool.and_false, Bool.false_eq_true, if_false]
    exact .pure trivial
  | succ n ih =>
    obtain _ | fuel := fuel
    · exact absurd hfuel (by simp)
    obtain ⟨v, vs, hv⟩ := List.exists_cons_of_ne_nil (show brackets n ++ u :: us ≠ [] by simp)
    have hrest (type : Node) := @ih type fuel (by simpa using hfuel)
    rw [suffixes, brackets, List.cons_append, List.cons_append]
    rw [hv] at hrest ⊢
    refine reads_token.bind ?_
    rintro _ ⟨span, rfl⟩
    refine reads_next.bind fun _ _ ↦ (reads_eat (by simp)).bind ?_
    rintro _ rfl
    exact reads_spanFrom.bind fun _ _ ↦ hrest _

theorem length_brackets (n : Nat) : (brackets n).length = 2 * n := by
  induction n with
  | zero => rfl
  | succ n ih =>
    simp only [brackets, List.length_cons, ih]
    omega

theorem reads_arrayType {n : Nat} (hopens : OpensType ts) (hu : TypeRank.operand.ends u)
    (hprimary : ∀ v vs, TypeRank.primary.ends v →
      Reads (primaryType goal) (At E k (ts ++ v :: vs)) (At E k (v :: vs)) (fun _ ↦ True)) :
    Reads (arrayType goal) (At E k (ts ++ brackets n ++ u :: us)) (At E k (u :: us)) (fun _ ↦ True) := by
  obtain ⟨v, vs, hv, hends⟩ : ∃ v vs, brackets n ++ u :: us = v :: vs ∧ TypeRank.primary.ends v := by
    cases n with
    | zero => exact ⟨u, us, rfl, TypeRank.ends_of_subset (by decide) hu⟩
    | succ n => exact ⟨_, _, rfl, rfl⟩
  obtain ⟨t, ts', rfl, hnot⟩ := hopens.not_is
  rw [List.append_assoc, hv]
  refine reads_start.bind fun s _ ↦ (reads_eat_of_not_is (hnot "!" (by simp))).bind ?_
  rintro _ rfl
  refine (hprimary v vs hends).bind fun type _ ↦ reads_get.bind fun c hc ↦ ?_
  rw [← hv] at hc ⊢
  refine reads_suffixes hu n (Nat.lt_of_lt_of_le ?_ hc.length_le)
  simp only [List.length_append, length_brackets, List.length_cons]
  omega

theorem reads_operatorType {B : Cursor → Prop} (hopens : OpensType ts) (hu : TypeRank.operand.ends u)
    (harray : Reads (arrayType goal) (At E k (ts ++ u :: us)) B (fun _ ↦ True)) :
    Reads (operatorType goal) (At E k (ts ++ u :: us)) B (fun _ ↦ True) := by
  let starts (x : Token) : Bool :=
    x.kind == .name || x.isAny ["(", "[", "\x7b"] || x.isString || x.isTemplate || x.kind == .number
  obtain ⟨t, x, xs, hx, hoperator, hinfer⟩ : ∃ t x xs, ts ++ u :: us = t :: x :: xs ∧
      (t.isAny ["keyof", "unique", "readonly"] = false ∨ ∀ span, starts (x.placed span) = false) ∧
      (t.is "infer" = false ∨ x.isIdentifier = false) := by
    cases hopens with
    | @literal t ts h =>
      obtain ⟨x, xs, hx⟩ := List.exists_cons_of_ne_nil (show ts ++ u :: us ≠ [] by simp)
      exact ⟨t, x, xs, by rw [List.cons_append, hx], .inl (not_isAny_of_isLiteral h _),
        .inl (not_is_of_isLiteral h _)⟩
    | @paren newline newline' ts rest h hrest =>
      obtain ⟨t, ts, rfl, -⟩ := h.not_is
      exact ⟨_, _, _, rfl, .inl rfl, .inl rfl⟩
    | @word name newline ts h hts hbracket =>
      obtain ⟨x, xs, hx, hsign⟩ := hts.head u us
      refine ⟨_, x, xs, by rw [List.cons_append, hx], ?_, .inr ?_⟩
      · rcases hsign with ⟨hhead, s, newline', hs, rfl⟩ | ⟨-, rfl, -⟩
        · by_cases hword : bracketWords.contains name
          · have hs' : (s == "[") = false := by simpa using hbracket hword _ hhead
            have hstarts : ∀ s ∈ typeSigns, (s == "[") = false → ∀ newline' span,
                starts ((Token.sign s newline').placed span) = false := by
              simp [typeSigns, starts, Token.isString, Token.isTemplate, Token.sign, Token.placed,
                Token.isAny]
            exact .inr (hstarts s hs hs' newline')
          · exact .inl (by simp_all [bracketWords])
        · have hkind := TypeRank.kind_of_ends hu
          have hopen : x.isAny ["(", "[", "\x7b"] = false := by
            have h₁ : x.is "(" = false := TypeRank.not_is_of_ends hu (by decide)
            have h₂ : x.is "[" = false := TypeRank.not_is_of_ends hu (by decide)
            have h₃ : x.is "\x7b" = false := TypeRank.not_is_of_ends hu (by decide)
            simp only [Token.is, Token.isAny, hkind] at h₁ h₂ h₃ ⊢
            simp_all
          exact .inr fun span ↦ by simp [starts, hopen, Token.isString, Token.isTemplate, hkind]
      · have hkind : x.kind = .punct := by
          rcases hsign with ⟨-, s, newline', -, rfl⟩ | ⟨-, rfl, -⟩
          · rfl
          · exact TypeRank.kind_of_ends hu
        simp [Token.isIdentifier, hkind]
  rw [hx] at harray ⊢
  refine reads_token.bind ?_
  rintro _ ⟨span, rfl⟩
  refine reads_ahead.bind ?_
  rintro _ ⟨span', rfl⟩
  rw [if_neg (by rcases hoperator with h | h <;> simp_all [starts])]
  refine reads_ahead.bind ?_
  rintro _ ⟨span', rfl⟩
  rw [if_neg (by rcases hinfer with h | h <;> simp_all)]
  exact harray

theorem reads_joined {part : Parser Node} {sign : String} {form : TypeForm} {r : TypeRank}
    {first : List Token} {more : List (Bool × List Token)} (hstart : sign ∈ ["|", "&"])
    (hsign : ∀ newline, r.ends (.sign sign newline)) (hends : r.ends u) (hu : u.is sign = false)
    (hparts : ∀ ts ∈ first :: more.map Prod.snd, OpensType ts ∧ ∀ v vs, r.ends v →
      Reads part (At E k (ts ++ v :: vs)) (At E k (v :: vs)) (fun _ ↦ True)) :
    Reads (joined sign form part) (At E k (first ++ joinedWith sign more ++ u :: us)) (At E k (u :: us))
      (fun _ ↦ True) := by
  have hnext (more : List (Bool × List Token)) : ∃ v vs, joinedWith sign more ++ u :: us = v :: vs ∧
      r.ends v := by
    cases more with
    | nil => exact ⟨u, us, rfl, hends⟩
    | cons part more => exact ⟨_, _, rfl, hsign part.1⟩
  obtain ⟨hopens, hfirst⟩ := hparts first (by simp)
  obtain ⟨t, ts, rfl, hnot⟩ := hopens.not_is
  have ht : t.is sign = false :=
    hnot sign (List.mem_append_left ["!", ">", ")", "...", "<", "new"] hstart)
  obtain ⟨v, vs, hv, hbehind⟩ := hnext more
  have hrest : Reads (Parser.repeats do
      if ← Parser.eat sign then some <$> part else return none)
      (At E k (joinedWith sign more ++ u :: us)) (At E k (u :: us))
      (List.Forall₂ (fun _ _ ↦ True) more) := by
    refine reads_repeats (fun more ↦ joinedWith sign more ++ u :: us) more ?_ (fun b bs hsuffix ↦ ?_) ?_
    · clear hparts hv
      induction more with
      | nil => simp [joinedWith]
      | cons part more ih =>
        simp only [joinedWith, List.flatMap_cons, List.length_append, List.length_cons] at ih ⊢
        omega
    · have hb : b ∈ more := hsuffix.subset (by simp)
      obtain ⟨hopens, hread⟩ := hparts b.2 (List.mem_cons_of_mem _ (List.mem_map_of_mem hb))
      obtain ⟨x, xs, hx, -⟩ := hopens.not_is
      obtain ⟨v, vs, hv, hbehind⟩ := hnext bs
      have hcons : joinedWith sign (b :: bs) ++ u :: us = .sign sign b.1 :: (b.2 ++ v :: vs) := by
        rw [← hv]
        simp [joinedWith]
      replace hread := hread v vs hbehind
      rw [hx, List.cons_append] at hread
      rw [hcons, hv, hx, List.cons_append]
      refine (reads_eat (by simp)).bind ?_
      rintro _ rfl
      exact hread.map fun type _ ↦ ⟨type, rfl, trivial⟩
    · refine (reads_eat_of_not_is hu).bind ?_
      rintro _ rfl
      exact .pure rfl
  rw [List.append_assoc, hv]
  rw [hv] at hrest
  refine reads_start.bind fun s _ ↦ (reads_eat_of_not_is ht).bind ?_
  rintro _ rfl
  refine (hfirst v vs hbehind).bind fun first _ ↦ hrest.bind fun rest _ ↦ ?_
  split
  · exact reads_spanFrom.bind fun _ _ ↦ .pure trivial
  · exact .pure trivial

theorem length_lt_of_mem_listed (close : Token) {arg : List Token} {args : List (List Token)}
    (h : arg ∈ args) (us : List Token) : arg.length < (listed close id args us).length := by
  induction args with
  | nil => simp at h
  | cons first args ih =>
    cases args with
    | nil =>
      obtain rfl := List.mem_singleton.1 h
      simp only [listed, id, List.length_append, List.length_cons]
      omega
    | cons second args =>
      have hcons : listed close id (first :: second :: args) us =
          first ++ .sign "," false :: listed close id (second :: args) us := rfl
      rw [hcons, List.length_append, List.length_cons]
      rcases List.mem_cons.1 h with rfl | h
      · omega
      · have := ih h
        omega

theorem listed_append {close : Token} (args : List (List Token)) :
    listed close id args ts ++ us = listed close id args (ts ++ us) := by
  induction args with
  | nil => rfl
  | cons first args ih =>
    cases args with
    | nil => simp [listed]
    | cons second args =>
      have hcons (us : List Token) : listed close id (first :: second :: args) us =
          first ++ .sign "," false :: listed close id (second :: args) us := rfl
      rw [hcons, hcons, List.append_assoc, List.cons_append, ih]

theorem length_le_of_mem_parts {sign : String} {first part : List Token} {more : List (Bool × List Token)}
    (h : part ∈ first :: more.map Prod.snd) : part.length ≤ (first ++ joinedWith sign more).length := by
  rw [List.length_append]
  rcases List.mem_cons.1 h with rfl | h
  · omega
  · suffices part.length ≤ (joinedWith sign more).length by omega
    induction more with
    | nil => simp at h
    | cons b more ih =>
      simp only [joinedWith, List.flatMap_cons, List.length_append, List.length_cons] at ih ⊢
      rcases List.mem_cons.1 h with rfl | h
      · omega
      · have := ih (List.mem_cons_of_mem _ h) h
        omega

/-- Every type is read up to the token behind it. Each nesting takes one of the goals that are left. -/
theorem TypeTokens.reads {r : TypeRank} (h : TypeTokens r ts) (hd : ts.length ≤ d + 1) (hu : r.ends u) :
    Reads (r.reader (goals d)) (At E (plain awaits) (ts ++ u :: us)) (At E (plain awaits) (u :: us))
      (fun _ ↦ True) := by
  induction h generalizing d u us with
  | literal h => exact reads_primaryType_literal h
  | word h => exact reads_primaryType_word h hu
  | @name name newline fields hname hawait =>
    exact reads_primaryType_name hname hawait (TypeRank.kind_of_ends hu)
      (TypeRank.not_is_of_ends hu (by decide)) (TypeRank.not_is_of_ends hu (by decide))
      (fun _ _ ↦ rfl) (reads_typeArgumentsHere_none (TypeRank.not_is_of_ends hu (by decide))
        (TypeRank.not_is_of_ends hu (by decide)))
  | @applied name newline newline' fields args hname hawait hword hne hargs ih =>
    obtain ⟨d, rfl⟩ : ∃ n, d = n + 1 := by
      simp only [List.length_cons, List.length_append] at hd
      exact ⟨d - 1, by omega⟩
    have hshort (arg : List Token) (harg : arg ∈ args) : arg.length ≤ d + 1 := by
      have := length_lt_of_mem_listed (.sign ">" newline') harg []
      simp only [List.length_cons, List.length_append] at hd
      omega
    have htypes : Reads (typeArgumentsHere (goals (d + 1)))
        (At E (plain awaits) (.sign "<" false :: listed (.sign ">" newline') id args (u :: us)))
        (At E (plain awaits) (u :: us)) (fun _ ↦ True) := by
      refine reads_token.bind ?_
      rintro _ ⟨span, rfl⟩
      exact reads_typeArguments args hne (fun arg harg ↦ (hargs arg harg).opens)
        fun arg harg v vs hv ↦ ih arg harg (hshort arg harg) hv
    rw [List.cons_append, List.append_assoc, List.cons_append, listed_append, List.nil_append]
    exact reads_primaryType_name hname hawait rfl rfl rfl
      (fun hnil htype ↦ absurd ((hword hnil).symm.trans htype) (by simp)) htypes
  | @paren newline newline' ts h ih =>
    obtain ⟨d, rfl⟩ : ∃ n, d = n + 1 := by
      simp only [List.length_cons, List.length_append] at hd
      exact ⟨d - 1, by omega⟩
    have hshort : ts.length ≤ d + 1 := by
      simp only [List.length_cons, List.length_append] at hd
      omega
    rw [List.cons_append, List.append_assoc]
    exact reads_primaryType_paren h.opens fun v vs hv ↦ ih hshort hv
  | @array t ts n h ht ih =>
    refine reads_operatorType (TypeTokens.array n h ht).opens hu
      (reads_arrayType h.opens hu fun v vs hv ↦ ih ?_ hv)
    simp only [List.length_append] at hd
    omega
  | @intersection first more hfirst hmore ihfirst ihmore =>
    refine reads_joined (r := .operand) (by simp) (fun _ ↦ rfl) (TypeRank.ends_of_subset (by decide) hu)
      (TypeRank.not_is_of_ends hu (by decide)) fun ts hts ↦ ?_
    have hshort : ts.length ≤ d + 1 := Nat.le_trans (length_le_of_mem_parts hts) hd
    rcases List.mem_cons.1 hts with rfl | hmem
    · exact ⟨hfirst.opens, fun v vs hv ↦ ihfirst hshort hv⟩
    · obtain ⟨part, hpart, rfl⟩ := List.mem_map.1 hmem
      exact ⟨(hmore part hpart).opens, fun v vs hv ↦ ihmore part hpart hshort hv⟩
  | @union first more hfirst hmore ihfirst ihmore =>
    have hunion : Reads (unionType (goals d))
        (At E (plain awaits) (first ++ joinedWith "|" more ++ u :: us))
        (At E (plain awaits) (u :: us)) (fun _ ↦ True) := by
      refine reads_joined (r := .intersection) (by simp) (fun _ ↦ rfl)
        (TypeRank.ends_of_subset (by decide) hu) (TypeRank.not_is_of_ends hu (by decide)) fun ts hts ↦ ?_
      have hshort : ts.length ≤ d + 1 := Nat.le_trans (length_le_of_mem_parts hts) hd
      rcases List.mem_cons.1 hts with rfl | hmem
      · exact ⟨hfirst.opens, fun v vs hv ↦ ihfirst hshort hv⟩
      · obtain ⟨part, hpart, rfl⟩ := List.mem_map.1 hmem
        exact ⟨(hmore part hpart).opens, fun v vs hv ↦ ihmore part hpart hshort hv⟩
    have hextends : u.is "extends" = false := TypeRank.not_is_of_ends hu (by decide)
    refine (reads_startsFunctionType (TypeTokens.union more hfirst hmore).opens
      (TypeRank.ends_of_subset (by decide) hu)).bind ?_
    rintro _ rfl
    refine reads_start.bind fun s _ ↦ hunion.bind fun _ _ ↦ reads_token.bind ?_
    rintro _ ⟨span, rfl⟩
    refine reads_context.bind ?_
    rintro _ rfl
    simp only [Token.is_placed, hextends, Bool.false_and, Bool.false_eq_true, if_false]
    exact .pure trivial

theorem TypeTokens.of_operand (h : TypeTokens .operand ts) : TypeTokens .union ts := by
  have := TypeTokens.union [] (.intersection [] h (by simp)) (by simp)
  simpa [joinedWith] using this

theorem TypeTokens.of_primary (h : TypeTokens .primary (t :: ts)) : TypeTokens .union (t :: ts) := by
  have := TypeTokens.of_operand (.array 0 h (by simp))
  simpa [brackets] using this

theorem typeTokens_word (newline : Bool) (hname : isIdentifierText name) (hawait : name ≠ "await") :
    TypeTokens .union [.word name newline] :=
  .of_primary (.name [] hname hawait)

theorem reads_type (hname : isIdentifierText name) (hawait : name ≠ "await")
    (hu : TypeRank.union.ends u) :
    Reads (type (goals d)) (At E (plain awaits) (.word name newline :: u :: us))
      (At E (plain awaits) (u :: us)) (fun _ ↦ True) :=
  (typeTokens_word newline hname hawait).reads (by simp) hu

/-- The text is read as a type argument in front of a call. -/
def IsTypeText (type : String) : Prop :=
  ∀ (awaits : Bool) (d : Nat) (rest : List Char) (c : Cursor), 8 * Text.byteWidth type.toList ≤ d →
    Before (plain awaits) ('<' :: (type.toList ++ '>' :: '(' :: rest)) c →
      ∃ b e types, Parser.next.run c = some ((), b) ∧
        (b.token.kind = .punct ∧ (b.token.text = "<" ∨ b.token.text = "<<")) ∧
        (typeArguments (goals d)).run b = some (types, e) ∧
        e.token.unplaced = .sign "(" false ∧ Before (plain awaits) rest e

theorem readsMethod_of_types {type : String} {rest : List Char} (htype : IsTypeText type)
    (hd : 8 * Text.byteWidth type.toList ≤ d)
    (hE : ∀ cs, E cs → cs = '<' :: (type.toList ++ '>' :: '(' :: rest)) (hrest : Spells E rest us) :
    ReadsMethod E (plain awaits) (goals d) name field [] us := by
  intro site n
  let A : Cursor → Prop := fun b ↦ ∃ e types,
    (b.token.kind = .punct ∧ (b.token.text = "<" ∨ b.token.text = "<<")) ∧
    (typeArguments (goals d)).run b = some (types, e) ∧
    e.token.unplaced = .sign "(" false ∧ Before (plain awaits) rest e
  have hnext : Reads Parser.next (At E (plain awaits) [.word field false]) A (fun _ ↦ True) := by
    rintro c ⟨-, cs, hcs | hstop, hbefore⟩
    · obtain ⟨text, hnil⟩ : E cs ∧ True := by
        cases hcs with
        | nil h => exact ⟨h, trivial⟩
      obtain rfl := hE _ text
      obtain ⟨b, e, types, hb, htoken, hrun, he, hbefore⟩ := htype awaits d rest c hd hbefore
      exact ⟨(), b, hb, ⟨e, types, htoken, hrun, he, hbefore⟩, trivial⟩
    · simp at hstop
  have htypes : Reads (typeArguments (goals d)) A (At E (plain awaits) (.sign "(" false :: us))
      (fun _ ↦ True) := by
    rintro b ⟨e, types, -, hrun, he, hbefore⟩
    exact ⟨types, e, hrun, ⟨he, rest, .inl hrest, hbefore⟩, trivial⟩
  refine reads_memberRest_member hnext fun span ↦ ?_
  refine (reads_memberRest_types (fun c hc ↦ hc.choose_spec.choose_spec.1) htypes).mono ?_
  rintro _ ⟨outer, types, rfl⟩
  exact ⟨rfl, span, site, rfl⟩

/-- The text is that of a type made of names, literals, type arguments, parentheses, array brackets,
unions and intersections. -/
def SpellsType (type : String) : Prop :=
  ∃ ts, TypeTokens .union ts ∧ ∀ rest, Spells (· = rest) ('<' :: (type.toList ++ '>' :: '(' :: rest))
    (.sign "<" false :: (ts ++ [.sign ">" false, .sign "(" false]))

theorem isTypeText_of_spellsType {type : String} (hne : type ≠ "") (h : SpellsType type) :
    IsTypeText type := by
  obtain ⟨ts, htokens, hspells⟩ := h
  intro awaits d rest c hd hbefore
  have hlength : ts.length ≤ Text.byteWidth type.toList + 1 := by
    have := (hspells []).length_le
    simp only [List.length_cons, List.length_append, List.length_nil, Text.byteWidth,
      byteWidth_append] at this
    have hwidth : '<'.utf8Size = 1 ∧ '>'.utf8Size = 1 ∧ '('.utf8Size = 1 := by decide
    omega
  obtain ⟨d, rfl⟩ : ∃ n, d = n + 1 := by
    have : 0 < Text.byteWidth type.toList := byteWidth_pos (by simpa using hne)
    exact ⟨d - 1, by omega⟩
  obtain ⟨b, hb, hat⟩ := hbefore.next (hspells rest)
  have hsign : b.token.unplaced = .sign "<" false := hat.1
  have hkind : b.token.kind = .punct := congrArg Token.kind hsign
  have hless : b.token.text = "<" := congrArg Token.text hsign
  have hread : Reads (typeArguments (goals (d + 1)))
      (At (· = rest) (plain awaits) (.sign "<" false :: (ts ++ [.sign ">" false, .sign "(" false])))
      (At (· = rest) (plain awaits) [.sign "(" false]) (fun _ ↦ True) := by
    refine reads_typeArguments [ts] (by simp) (fun arg harg ↦ ?_) fun arg harg v vs hv ↦ ?_
    · obtain rfl := List.mem_singleton.1 harg
      exact htokens.opens
    · obtain rfl := List.mem_singleton.1 harg
      exact htokens.reads (by omega) hv
  obtain ⟨types, e, hrun, ⟨he, cs, hcs | hstop, hrest⟩, -⟩ := hread b hat
  · cases hcs with
    | nil hcs =>
      subst hcs
      exact ⟨b, e, types, hb, ⟨hkind, .inl hless⟩, hrun, he, hrest⟩
  · simp at hstop

theorem isTypeText_of_isIdentifierText (hname : isIdentifierText name) (hawait : name ≠ "await") :
    IsTypeText name := by
  have htext : isNameText name.toList := by
    simp only [isIdentifierText, Bool.and_eq_true] at hname
    exact hname.1
  have hne : name ≠ "" := by
    rintro rfl
    exact absurd htext (by decide)
  refine isTypeText_of_spellsType hne ⟨_, typeTokens_word false hname hawait, fun rest ↦ ?_⟩
  have hstart : endsSign (name.toList ++ '>' :: '(' :: rest) := by
    revert htext
    cases name.toList with
    | nil => simp [isNameText]
    | cons c cs => simp_all [isNameText, endsSign]
  refine .joined (by decide) hstart (.word htext rfl ?_)
  exact .alone (by decide) (.alone (by decide) (.nil rfl))

end Types

end Recompose.Script
