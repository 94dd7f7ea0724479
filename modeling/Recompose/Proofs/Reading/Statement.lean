import Recompose.Proofs.Reading.Type

namespace Recompose.Script

open Parse

section Statements

variable {E : List Char → Prop} {k : Context} {awaits newline needsValue : Bool} {goal : Goals}
  {d : Nat} {t u v : Token} {ts us vs : List Token} {A B : Cursor → Prop} {Q : Node → Prop}
  {name : String} {place : Place} {kind : VarKind}

theorem reads_bindingPattern (hname : isIdentifierText name)
    (hawait : (awaits && name == "await") = false) :
    Reads (bindingPattern goal) (At E (plain awaits) (.word name newline :: u :: us))
      (At E (plain awaits) (u :: us)) (fun e ↦ ∃ site, e = .binding site name) := by
  refine reads_token.bind ?_
  rintro _ ⟨span, rfl⟩
  simp only [Token.is_placed, Token.is_word, ne_of_isIdentifierText hname (s := "[") (by decide),
    ne_of_isIdentifierText hname (s := "\x7b") (by decide), Bool.false_eq_true, if_false]
  refine (reads_identifier (isIdentifier_word hname newline) hawait rfl).bind ?_
  rintro _ rfl
  exact .pure ⟨_, rfl⟩

def IsDeclarator (name : String) (Q : Node → Prop) (item : Node) : Prop :=
  ∃ span site value, item = .declarator span (.binding site name) false none (some value) ∧ Q value

theorem reads_declarator (hname : isIdentifierText name)
    (hawait : (awaits && name == "await") = false)
    (hvalue : Reads (goals (d + 1) (.assign true)) (At E (plain awaits) (v :: vs)) B Q) :
    Reads (declarator (goals (d + 1)) kind needsValue)
      (At E (plain awaits) (.word name newline :: .sign "=" false :: v :: vs)) B
      (IsDeclarator name Q) := by
  refine reads_start.bind fun s _ ↦ (reads_bindingPattern hname hawait).bind ?_
  rintro _ ⟨site, rfl⟩
  refine (reads_eat_of_not_is rfl).bind ?_
  rintro _ rfl
  have htype : Reads (typeAfterColon (goals (d + 1)))
      (At E (plain awaits) (.sign "=" false :: v :: vs))
      (At E (plain awaits) (.sign "=" false :: v :: vs)) (· = none) := by
    refine (reads_eat_of_not_is rfl).bind ?_
    rintro _ rfl
    exact .pure rfl
  refine htype.bind ?_
  rintro _ rfl
  have hinit : Reads (initializer (goals (d + 1))) (At E (plain awaits) (.sign "=" false :: v :: vs)) B
      (fun r ↦ ∃ value, r = some value ∧ Q value) := by
    refine (reads_eat rfl).bind ?_
    rintro _ rfl
    exact hvalue.bind fun value hQ ↦ .pure ⟨value, rfl, hQ⟩
  refine hinit.bind ?_
  rintro _ ⟨value, rfl, hQ⟩
  refine reads_spanFrom.bind fun span _ ↦ (reads_guarded ?_).bind fun _ _ ↦ ?_
  · simp [isComplete]
  · exact .pure ⟨span, site, value, rfl, hQ⟩

/-- The tokens behind a first declarator, up to the semicolon. -/
def declared {β : Type} (own : β → List Token) : List β → List Token → List Token
  | [], us => .sign ";" false :: us
  | b :: bs, us => .sign "," false :: (own b ++ declared own bs us)

theorem length_lt_declared {β : Type} (own : β → List Token) (bs : List β) (us : List Token) :
    bs.length < (declared own bs us).length := by
  induction bs with
  | nil => simp [declared]
  | cons b bs ih =>
    simp only [declared, List.length_cons, List.length_append]
    omega

theorem reads_declarators {β : Type} {own : β → List Token} {R : β → Node → Prop} {items : List β}
    (hfirst : Reads (declarator goal kind needsValue) A (At E k (declared own items us)) Q)
    (hown : ∀ b ∈ items, own b ≠ [])
    (hmore : ∀ b ∈ items, ∀ bs, Reads (declarator goal kind needsValue)
      (At E k (own b ++ declared own bs us)) (At E k (declared own bs us)) (R b)) :
    Reads (declarators goal kind needsValue) A (At E k (.sign ";" false :: us))
      (fun nodes ↦ ∃ x xs, nodes = x :: xs ∧ Q x ∧ List.Forall₂ R items xs) := by
  refine hfirst.bind fun x hx ↦ ?_
  refine (reads_repeats (R := R) (fun bs ↦ declared own bs us) items
    (length_lt_declared own items us) (fun b bs hbs ↦ ?_) ?_).bind
    fun xs hxs ↦ .pure ⟨x, xs, rfl, hx, hxs⟩
  · have hb : b ∈ items := hbs.mem (by simp)
    obtain ⟨w, ws, hw⟩ := List.exists_cons_of_ne_nil (hown b hb)
    have hread := hmore b hb bs
    simp only [declared, hw, List.cons_append] at hread ⊢
    refine (reads_eat rfl).bind ?_
    rintro _ rfl
    exact hread.map fun y hy ↦ ⟨y, rfl, hy⟩
  · refine (reads_eat_of_not_is rfl).bind ?_
    rintro _ rfl
    exact .pure rfl

def IsConst (P : List Node → Prop) (stmt : Node) : Prop :=
  ∃ span items, stmt = .vars span .constant false items ∧ P items

theorem reads_varStatement {s : Nat} {P : List Node → Prop}
    (hitems : Reads (declarators goal .constant true) (At E (plain awaits) (t :: ts))
      (At E (plain awaits) (.sign ";" false :: u :: us)) P) :
    Reads (varStatement goal s .constant false)
      (At E (plain awaits) (.word "const" newline :: t :: ts)) (At E (plain awaits) (u :: us))
      (IsConst P) := by
  have hpass : Reads (passVarKind .constant) (At E (plain awaits) (.word "const" newline :: t :: ts))
      (At E (plain awaits) (t :: ts)) (fun _ ↦ True) :=
    reads_next.bind fun _ _ ↦ .pure trivial
  refine hpass.bind fun _ _ ↦ reads_context.bind ?_
  rintro _ rfl
  refine hitems.bind fun items hP ↦ (reads_semicolon rfl).bind fun _ _ ↦ ?_
  exact reads_spanFrom.bind fun span _ ↦ .pure ⟨span, items, rfl, hP⟩

theorem reads_condition
    (htest : Reads (goal .expr) (At E (plain awaits) (t :: ts))
      (At E (plain awaits) (.sign ")" false :: u :: us)) Q) :
    Reads (condition goal) (At E (plain awaits) (.sign "(" false :: t :: ts))
      (At E (plain awaits) (u :: us)) Q := by
  refine (reads_expect rfl).bind fun _ _ ↦ (reads_within htest).bind fun e he ↦ ?_
  exact (reads_expect rfl).bind fun _ _ ↦ .pure he

theorem reads_block {β : Type} {R : β → Node → Prop} (tokens : List β → List Token) (items : List β)
    (hlength : items.length < (tokens items).length)
    (hstart : ∀ b bs, b :: bs <:+ items → ∃ v vs, tokens (b :: bs) = v :: vs ∧ v.is "\x7d" = false)
    (hitem : ∀ b bs, b :: bs <:+ items →
      Reads (goal (.stmt .list)) (At E k (tokens (b :: bs))) (At E k (tokens bs)) (R b))
    (hlast : tokens [] = .sign "\x7d" newline :: u :: us) :
    Reads (block goal) (At E k (.sign "\x7b" false :: tokens items)) (At E k (u :: us))
      (fun e ↦ ∃ span stmts, e = .block span stmts ∧ List.Forall₂ R items stmts) := by
  obtain ⟨w, ws, hw⟩ : ∃ w ws, tokens items = w :: ws :=
    List.exists_cons_of_length_pos (Nat.lt_of_le_of_lt (Nat.zero_le _) hlength)
  have hstmts : Reads (Parser.repeats do
      if ← Parser.isAt "\x7d" then return none else some <$> goal (.stmt .list))
      (At E k (tokens items)) (At E k (tokens [])) (List.Forall₂ R items) := by
    refine reads_repeats tokens items hlength (fun b bs hbs ↦ ?_) ?_
    · obtain ⟨v, vs, hv, hclose⟩ := hstart b bs hbs
      have hread := hitem b bs hbs
      rw [hv] at hread ⊢
      refine reads_isAt.bind ?_
      rintro _ rfl
      rw [if_neg (by simp [hclose])]
      exact hread.map fun x hx ↦ ⟨x, rfl, hx⟩
    · rw [hlast]
      refine reads_isAt.bind ?_
      rintro _ rfl
      exact .pure rfl
  rw [hw] at hstmts ⊢
  refine reads_start.bind fun s _ ↦ (reads_expect rfl).bind fun _ _ ↦ hstmts.bind fun stmts h ↦ ?_
  rw [hlast]
  refine (reads_expect rfl).bind fun _ _ ↦ ?_
  exact reads_spanFrom.bind fun span _ ↦ .pure ⟨span, stmts, rfl, h⟩

theorem reads_ifStatement {R : Node → Prop}
    (htest : Reads (condition goal) (At E k (t :: ts)) (At E k (u :: us)) Q)
    (hyes : Reads (goal (.stmt .single)) (At E k (u :: us)) (At E k (v :: vs)) R)
    (hv : v.is "else" = false) :
    Reads (ifStatement goal) (At E k (.word "if" newline :: t :: ts)) (At E k (v :: vs))
      (fun e ↦ ∃ span test yes, e = .ifStmt span test yes none ∧ Q test ∧ R yes) := by
  refine reads_start.bind fun s _ ↦ (reads_expect rfl).bind fun _ _ ↦ htest.bind fun test hQ ↦ ?_
  refine hyes.bind fun yes hR ↦ (reads_eat_of_not_is hv).bind ?_
  rintro _ rfl
  simp only [Bool.false_eq_true, if_false, pure_bind]
  exact reads_spanFrom.bind fun span _ ↦ .pure ⟨span, test, yes, rfl, hQ, hR⟩

theorem reads_returnStatement
    (ht : (t.is ";" || t.is "\x7d" || t.kind == .stop || t.newline) = false)
    (hvalue : Reads (goal .expr) (At E (plain awaits) (t :: ts))
      (At E (plain awaits) (.sign ";" false :: u :: us)) Q) :
    Reads (returnStatement goal) (At E (plain awaits) (.word "return" newline :: t :: ts))
      (At E (plain awaits) (u :: us))
      (fun e ↦ ∃ span value, e = .returnStmt span (some value) ∧ Q value) := by
  refine reads_start.bind fun s _ ↦ (reads_expect rfl).bind fun _ _ ↦ reads_canEnd.bind ?_
  rintro _ rfl
  simp only [ht, Bool.false_eq_true, if_false]
  refine ((reads_within hvalue).map (Q := fun r ↦ ∃ value, r = some value ∧ Q value)
    fun value hQ ↦ ⟨value, rfl, hQ⟩).bind ?_
  rintro _ ⟨value, rfl, hQ⟩
  refine (reads_semicolon rfl).bind fun _ _ ↦ ?_
  exact reads_spanFrom.bind fun span _ ↦ .pure ⟨span, value, rfl, hQ⟩

theorem reads_returnStatement_none :
    Reads (returnStatement goal) (At E k (.word "return" newline :: .sign ";" false :: u :: us))
      (At E k (u :: us)) (fun e ↦ ∃ span, e = .returnStmt span none) := by
  refine reads_start.bind fun s _ ↦ (reads_expect rfl).bind fun _ _ ↦ reads_canEnd.bind ?_
  rintro _ rfl
  simp only [Token.is_sign, BEq.rfl, Bool.true_or, if_true, pure_bind]
  refine (reads_semicolon rfl).bind fun _ _ ↦ ?_
  exact reads_spanFrom.bind fun span _ ↦ .pure ⟨span, rfl⟩

theorem reads_expressionStatement (hv : v.is ":" = false)
    (hvalue : Reads (goal .expr) (At E (plain awaits) (t :: v :: vs))
      (At E (plain awaits) (.sign ";" false :: u :: us)) Q) :
    Reads (expressionStatement goal) (At E (plain awaits) (t :: v :: vs)) (At E (plain awaits) (u :: us))
      (fun e ↦ ∃ span value, e = .exprStmt span value ∧ Q value) := by
  refine reads_start.bind fun s _ ↦ reads_token.bind ?_
  rintro _ ⟨span, rfl⟩
  refine reads_ahead.bind ?_
  rintro _ ⟨_, rfl⟩
  simp only [Token.is_placed, hv, Bool.and_false, Bool.false_eq_true, if_false]
  refine (reads_within hvalue).bind fun e he ↦ (reads_semicolon rfl).bind fun _ _ ↦ ?_
  exact reads_spanFrom.bind fun span _ ↦ .pure ⟨span, e, rfl, he⟩

theorem reads_statement (ht : t.isAny ["import", "export", "@"] = false)
    (hmark : t.effectFreeMark = false)
    (hlocal : Reads (localStatement goal place) (At E k (t :: ts)) B Q) :
    Reads (statement goal place) (At E k (t :: ts)) B Q := by
  have himport : t.is "import" = false := Token.is_of_isAny ht (by simp)
  have hexport : t.is "export" = false := Token.is_of_isAny ht (by simp)
  have hat : t.is "@" = false := Token.is_of_isAny ht (by simp)
  refine reads_token.bind ?_
  rintro _ ⟨span, rfl⟩
  refine reads_ahead_any.bind fun b _ ↦ ?_
  simp only [Token.is_placed, Token.placed_effectFreeMark, himport, hexport, hat, hmark,
    Bool.false_and, Bool.false_eq_true, if_false]
  exact hlocal.bind fun e he ↦ .pure he

theorem reads_localStatement_control {text : String} {p : Parser Node}
    (hcontrol : ∀ span, controlStatement goal ((Token.word text newline).placed span) = some p)
    (hp : Reads p (At E k (.word text newline :: ts)) B Q) :
    Reads (localStatement goal place) (At E k (.word text newline :: ts)) B Q := by
  refine reads_token.bind ?_
  rintro _ ⟨span, rfl⟩
  have hname : (((Token.word text newline).placed span).kind == .name &&
      !((Token.word text newline).placed span).escaped) = true := rfl
  simp only [hname, if_true, hcontrol span]
  exact hp

theorem reads_localStatement_const {place : Place} (hplace : place ≠ .single)
    (hv : v.is "enum" = false)
    (hvar : ∀ s, Reads (varStatement goal s .constant false)
      (At E k (.word "const" newline :: v :: vs)) B Q) :
    Reads (localStatement goal place) (At E k (.word "const" newline :: v :: vs)) B Q := by
  refine reads_token.bind ?_
  rintro _ ⟨span, rfl⟩
  have hcontrol : (if ((Token.word "const" newline).placed span).kind == .name &&
      !((Token.word "const" newline).placed span).escaped then
      controlStatement goal ((Token.word "const" newline).placed span) else none) = none := rfl
  simp only [hcontrol, Token.is_placed, Token.is_word, String.reduceBEq, Bool.false_eq_true, if_false,
    Bool.false_or, Bool.false_and, Bool.true_and]
  refine reads_ahead_any.bind fun _ _ ↦ reads_ahead.bind ?_
  rintro _ ⟨_, rfl⟩
  simp only [Token.is_placed, hv, Bool.false_eq_true, if_false]
  have hstarts : Reads (startsDeclaration 5) (At E k (.word "const" newline :: v :: vs))
      (At E k (.word "const" newline :: v :: vs)) (fun _ ↦ True) := by
    refine reads_token.bind ?_
    rintro _ ⟨_, rfl⟩
    exact .pure trivial
  have hkind : Reads varKind (At E k (.word "const" newline :: v :: vs))
      (At E k (.word "const" newline :: v :: vs)) (· = some .constant) := by
    refine reads_token.bind ?_
    rintro _ ⟨_, rfl⟩
    exact .pure rfl
  have hwords : ((Token.word "const" newline).placed span).isAny declarationWords = false := rfl
  refine hstarts.bind fun _ _ ↦ ?_
  simp only [hwords, Bool.false_and, Bool.false_eq_true, if_false]
  refine hkind.bind ?_
  rintro _ rfl
  exact (reads_guarded (by simp [hplace])).bind fun _ _ ↦ hvar _

theorem reads_localStatement_scope
    (hexpr : Reads (expressionStatement goal) (At E k (.word "__memo_scope" newline :: ts)) B Q) :
    Reads (localStatement goal place) (At E k (.word "__memo_scope" newline :: ts)) B Q := by
  refine reads_token.bind ?_
  rintro _ ⟨span, rfl⟩
  have hcontrol : (if ((Token.word "__memo_scope" newline).placed span).kind == .name &&
      !((Token.word "__memo_scope" newline).placed span).escaped then
      controlStatement goal ((Token.word "__memo_scope" newline).placed span) else none) = none := rfl
  have hstarts : Reads (startsDeclaration 5) (At E k (.word "__memo_scope" newline :: ts))
      (At E k (.word "__memo_scope" newline :: ts)) (fun _ ↦ True) := by
    refine reads_token.bind ?_
    rintro _ ⟨_, rfl⟩
    exact .pure trivial
  have hkind : Reads varKind (At E k (.word "__memo_scope" newline :: ts))
      (At E k (.word "__memo_scope" newline :: ts)) (· = none) := by
    refine reads_token.bind ?_
    rintro _ ⟨_, rfl⟩
    refine reads_context.bind ?_
    rintro _ rfl
    exact .pure rfl
  have hwords : ((Token.word "__memo_scope" newline).placed span).isAny declarationWords = false := rfl
  simp only [hcontrol, Token.is_placed, Token.is_word, String.reduceBEq, Bool.false_eq_true, if_false,
    Bool.false_or, Bool.false_and]
  refine reads_ahead_any.bind fun _ _ ↦ reads_ahead_any.bind fun _ _ ↦ hstarts.bind fun _ _ ↦ ?_
  simp only [hwords, Bool.false_and, Bool.false_eq_true, if_false]
  refine hkind.bind ?_
  rintro _ rfl
  exact hexpr

theorem reads_localStatement_block
    (hblock : Reads (block goal) (At E k (.sign "\x7b" newline :: ts)) B Q) :
    Reads (localStatement goal place) (At E k (.sign "\x7b" newline :: ts)) B Q := by
  refine reads_token.bind ?_
  rintro _ ⟨span, rfl⟩
  exact hblock

section Body

variable {β : Type} {R : β → Node → Prop} {stop : Parser Bool} (tokens : List β → List Token)
  (items : List β)
  (hitem : ∀ b bs, b :: bs <:+ items →
    Reads (goal (.stmt place)) (At E k (tokens (b :: bs))) (At E k (tokens bs)) (R b))
  (hstop : ∀ b bs, b :: bs <:+ items →
    Reads stop (At E k (tokens (b :: bs))) (At E k (tokens (b :: bs))) (· = false))
  (hlast : Reads stop (At E k (tokens [])) (At E k (tokens [])) (· = true))

include hitem hstop hlast

theorem reads_following {fuel : Nat} (hfuel : items.length < fuel) :
    Reads (bodyItems.following goal place stop fuel) (At E k (tokens items)) (At E k (tokens []))
      (List.Forall₂ R items) := by
  induction items generalizing fuel with
  | nil =>
    obtain _ | fuel := fuel
    · exact absurd hfuel (by simp)
    rw [bodyItems.following]
    refine hlast.bind ?_
    rintro _ rfl
    exact .pure .nil
  | cons b bs ih =>
    obtain _ | fuel := fuel
    · exact absurd hfuel (by simp)
    rw [bodyItems.following]
    refine (hstop b bs (List.suffix_refl _)).bind ?_
    rintro _ rfl
    refine (hitem b bs (List.suffix_refl _)).bind fun x hx ↦ ?_
    have hrest := ih (fun b' bs' h ↦ hitem b' bs' (h.trans (List.suffix_cons b bs)))
      (fun b' bs' h ↦ hstop b' bs' (h.trans (List.suffix_cons b bs))) (Nat.lt_of_succ_lt_succ hfuel)
    exact hrest.bind fun xs hxs ↦ .pure (.cons hx hxs)

theorem reads_bodyItems (hlength : items.length < (tokens items).length)
    (hstring : ∀ b bs, b :: bs <:+ items → ∃ v vs, tokens (b :: bs) = v :: vs ∧ v.isString = false) :
    Reads (bodyItems goal place stop) (At E k (tokens items)) (At E k (tokens []))
      (fun r ↦ r.1 = [] ∧ List.Forall₂ R items r.2) := by
  refine reads_get.bind fun c hc ↦ ?_
  obtain ⟨fuel, hfuel⟩ : ∃ fuel, c.size + 2 - c.pos = fuel + 1 := by
    have := hc.length_le
    exact ⟨c.size + 1 - c.pos, by omega⟩
  have hrounds : items.length < fuel + 1 := by
    have := hc.length_le
    omega
  rw [hfuel, bodyItems.leading]
  cases items with
  | nil =>
    refine hlast.bind ?_
    rintro _ rfl
    exact .pure ⟨rfl, .nil⟩
  | cons b bs =>
    refine (hstop b bs (List.suffix_refl _)).bind ?_
    rintro _ rfl
    obtain ⟨v, vs, hv, hplain⟩ := hstring b bs (List.suffix_refl _)
    have hread := hitem b bs (List.suffix_refl _)
    rw [hv] at hread ⊢
    refine reads_token.bind ?_
    rintro _ ⟨span, rfl⟩
    refine hread.bind fun x hx ↦ ?_
    have hrest := reads_following tokens bs
      (fun b' bs' h ↦ hitem b' bs' (h.trans (List.suffix_cons b bs)))
      (fun b' bs' h ↦ hstop b' bs' (h.trans (List.suffix_cons b bs))) hlast
      (Nat.lt_of_succ_lt_succ hrounds)
    split
    · next heq =>
      rw [Token.placed_kind] at heq
      simp [Token.isString, heq] at hplain
    · exact hrest.bind fun xs hxs ↦ .pure ⟨rfl, .cons hx hxs⟩

end Body

theorem reads_parameters_nil :
    Reads (parameters goal) (At E k (.sign "(" false :: .sign ")" false :: u :: us)) (At E k (u :: us))
      (· = (none, [])) := by
  have hreceiver : Reads (receiver goal) (At E k (.sign ")" false :: u :: us))
      (At E k (.sign ")" false :: u :: us)) (· = none) := by
    refine reads_token.bind ?_
    rintro _ ⟨span, rfl⟩
    exact .pure rfl
  have hlist : Reads (Parser.commaList ")" (parameter goal))
      (At E k (listed (.sign ")" false) (fun _ : Empty ↦ []) [] (u :: us))) (At E k (u :: us))
      (List.Forall₂ (fun _ _ ↦ True) []) :=
    reads_commaList rfl rfl [] (fun b ↦ b.elim) (fun b ↦ b.elim)
  refine (reads_expect rfl).bind fun _ _ ↦ hreceiver.bind ?_
  rintro _ rfl
  refine hlist.bind fun params hparams ↦ .pure ?_
  rw [List.forall₂_nil_left_iff.1 hparams]

theorem reads_codeBlock {S : List String × List Node → Prop}
    (hitems : Reads (bodyItems goal place (Parser.isAt "\x7d")) (At E k (t :: ts))
      (At E k (.sign "\x7d" newline :: u :: us)) S) :
    Reads (codeBlock goal place) (At E k (.sign "\x7b" false :: t :: ts)) (At E k (u :: us))
      (fun e ↦ ∃ span r, e = .code span r.1 r.2 ∧ S r) := by
  refine reads_start.bind fun s _ ↦ (reads_expect rfl).bind fun _ _ ↦ hitems.bind fun r hr ↦ ?_
  refine (reads_expect rfl).bind fun _ _ ↦ ?_
  exact reads_spanFrom.bind fun span _ ↦ .pure ⟨span, r, rfl, hr⟩

def IsFunction (P : Option Node × List Node → Prop) (S : List String × List Node → Prop)
    (e : Node) : Prop :=
  ∃ span head tps params result inner r,
    e = .func span head tps params.1 params.2 result (.code inner r.1 r.2) ∧ head.name.isSome ∧
      P params ∧ S r

section Function

variable {P : Option Node × List Node → Prop} {S : List String × List Node → Prop}
  (hparams : Reads (parameters goal) (At E (plain false) (.sign "(" false :: ts))
    (At E (plain false) (.sign "\x7b" false :: us)) P)
  (hbody : Reads (codeBlock goal .list) (At E (plain false) (.sign "\x7b" false :: us))
    (At E (plain false) (u :: vs)) (fun e ↦ ∃ span r, e = .code span r.1 r.2 ∧ S r))

include hparams hbody

theorem reads_functionTail {s : Nat} {head : FuncHead} (hhead : head.name.isSome)
    (hasync : head.isAsync = false) (hgenerator : head.isGenerator = false) :
    Reads (functionTail goal s head true) (At E (plain awaits) (.sign "(" false :: ts))
      (At E (plain awaits) (u :: vs)) (IsFunction P S) := by
  have htypes : Reads (typeParameters goal) (At E (plain awaits) (.sign "(" false :: ts))
      (At E (plain awaits) (.sign "(" false :: ts)) (· = []) := by
    refine (reads_eat_of_not_is rfl).bind ?_
    rintro _ rfl
    exact .pure rfl
  have hresult : Reads (resultAfterColon goal) (At E (plain awaits) (.sign "\x7b" false :: us))
      (At E (plain awaits) (.sign "\x7b" false :: us)) (· = none) := by
    refine (reads_eat_of_not_is rfl).bind ?_
    rintro _ rfl
    exact .pure rfl
  simp only [functionTail, functionBody, inFunction, hasync, hgenerator]
  refine htypes.bind ?_
  rintro _ rfl
  refine (reads_within hparams).bind fun params hP ↦ hresult.bind ?_
  rintro _ rfl
  refine reads_isAt.bind ?_
  rintro _ rfl
  simp only [Token.is_sign, BEq.rfl, if_true]
  refine (reads_within hbody).bind ?_
  rintro _ ⟨inner, r, rfl, hS⟩
  exact reads_spanFrom.bind fun span _ ↦
    .pure ⟨span, head, [], params, none, inner, r, rfl, hhead, hP, hS⟩

theorem reads_localStatement_function (hplace : place ≠ .single) (hname : isIdentifierText name)
    (hawait : (awaits && name == "await") = false) :
    Reads (localStatement goal place)
      (At E (plain awaits) (.word "function" newline :: .word name false :: .sign "(" false :: ts))
      (At E (plain awaits) (u :: vs)) (IsFunction P S) := by
  have hfunction (s : Nat) : Reads (function goal s .declaration false)
      (At E (plain awaits) (.word "function" newline :: .word name false :: .sign "(" false :: ts))
      (At E (plain awaits) (u :: vs)) (IsFunction P S) := by
    refine (reads_eat_of_not_is rfl).bind ?_
    rintro _ rfl
    refine (reads_expect rfl).bind fun _ _ ↦ (reads_eat_of_not_is ?_).bind ?_
    · simp [ne_of_isIdentifierText hname (s := "*") (by decide)]
    rintro _ rfl
    refine reads_token.bind ?_
    rintro _ ⟨span, rfl⟩
    simp only [Token.isIdentifier_placed, isIdentifier_word hname, if_true]
    have hown : Reads (some <$> function.own .declaration false false Parser.identifier)
        (At E (plain awaits) (.word name false :: .sign "(" false :: ts))
        (At E (plain awaits) (.sign "(" false :: ts)) (fun r ↦ r = some name) := by
      refine (reads_identifier (isIdentifier_word hname false) hawait rfl).map ?_
      rintro _ rfl
      rfl
    refine hown.bind ?_
    rintro _ rfl
    exact reads_functionTail hparams hbody rfl rfl rfl
  have hdeclaration (s : Nat) : Reads (functionDeclaration goal s false true)
      (At E (plain awaits) (.word "function" newline :: .word name false :: .sign "(" false :: ts))
      (At E (plain awaits) (u :: vs)) (IsFunction P S) := by
    refine (hfunction s).bind ?_
    rintro _ ⟨span, head, tps, params, result, inner, r, rfl, hhead, hP, hS⟩
    refine (reads_guarded (by simp [hhead])).bind fun _ _ ↦ ?_
    exact .pure ⟨span, head, tps, params, result, inner, r, rfl, hhead, hP, hS⟩
  refine reads_token.bind ?_
  rintro _ ⟨span, rfl⟩
  have hcontrol : (if ((Token.word "function" newline).placed span).kind == .name &&
      !((Token.word "function" newline).placed span).escaped then
      controlStatement goal ((Token.word "function" newline).placed span) else none) = none := rfl
  simp only [hcontrol, Token.is_placed, Token.is_word, String.reduceBEq, Bool.false_eq_true, if_false,
    Bool.true_or, if_true]
  refine reads_ahead_any.bind fun _ _ ↦ (hdeclaration _).bind fun f hf ↦ ?_
  exact (reads_guarded (by simp [hplace])).bind fun _ _ ↦ .pure hf

end Function

end Statements

end Recompose.Script
