import Mathlib.Data.List.Forall2
import Recompose.Proofs.Reading.Token

namespace Recompose.Script

open Text

/-- The cursor stands in front of a text. -/
structure Before (k : Context) (cs : List Char) (c : Cursor) : Prop where
  rest_eq : c.rest = cs
  context_eq : c.context = k
  covers_eq : c.covers = []
  jsx_eq : c.jsx = false
  size_eq : c.pos + byteWidth cs = c.size

/-- The cursor stands at the first of some tokens. -/
def At (E : List Char → Prop) (k : Context) : List Token → Cursor → Prop
  | [], _ => False
  | t :: ts, c => c.token.unplaced = t ∧
    ∃ cs, (Spells E cs ts ∨ t.kind = .stop ∧ ts = []) ∧ Before k cs c

theorem next_eq_some {k : Context} {gap raw rest : List Char} {kind : TokenKind} {text : String}
    {c : Cursor} (h : Before k (gap ++ (raw ++ rest)) c) (hgap : gap.all isSpace)
    (hskip : ∀ g, Scan.skip .blank g (raw ++ rest) = some (g, raw ++ rest))
    (hfound : ∀ fuel, Scan.found? (fuel + 1) (raw ++ rest) = some ⟨kind, text, raw, rest, false⟩) :
    ∃ d, Parser.next.run c = some ((), d) ∧ Before k rest d ∧
      d.token.unplaced =
        ⟨kind, text, .ofList raw, ⟨0, 0⟩, gap.any isLineEnd, false, false, false⟩ := by
  obtain ⟨hrest, hcontext, hcovers, hjsx, hsize⟩ := h
  rw [byteWidth_append, byteWidth_append] at hsize
  let start := c.pos + byteWidth gap
  let stop := start + byteWidth raw
  let t : Token := ⟨kind, text, .ofList raw, ⟨start, stop⟩, gap.any isLineEnd, false, false, false⟩
  refine ⟨{ c with token := t, rest, pos := stop, last := c.token.span.stop }, ?_, ?_, rfl⟩
  · simp [Parser.next, Parser.accept, hrest, skip_append hgap hskip, hfound, t, stop, start]
  · exact ⟨rfl, hcontext, hcovers, hjsx, by simp only [stop, start]; omega⟩

theorem Before.next {E : List Char → Prop} {k : Context} {cs : List Char} {c : Cursor} {t : Token}
    {ts : List Token} (h : Before k cs c) (hcs : Spells E cs (t :: ts)) :
    ∃ d, Parser.next.run c = some ((), d) ∧ At E k (t :: ts) d := by
  cases hcs with
  | ending hgap =>
    have hempty : Before k (cs ++ ([] ++ [])) c := by simpa using h
    have hfound (fuel : Nat) :
        Scan.found? (fuel + 1) ([] ++ []) = some ⟨.stop, "", [], [], false⟩ := rfl
    obtain ⟨d, hd, hbefore, ht⟩ := next_eq_some hempty hgap (fun _ ↦ rfl) hfound
    exact ⟨d, hd, ht, [], .inr ⟨rfl, rfl⟩, hbefore⟩
  | cons hgap hfronts hrest =>
    obtain ⟨d, hd, hbefore, ht⟩ := next_eq_some h hgap hfronts.skip_eq hfronts.found_eq
    exact ⟨d, hd, ht, _, .inl hrest, hbefore⟩

theorem At.length_le {E : List Char → Prop} {k : Context} {ts : List Token} {c : Cursor} (h : At E k ts c) :
    ts.length ≤ c.size + 2 - c.pos := by
  obtain _ | ⟨t, ts⟩ := ts
  · exact h.elim
  obtain ⟨-, cs, hcs, hbefore⟩ := h
  have hlength : ts.length ≤ byteWidth cs + 1 := by
    rcases hcs with hcs | ⟨-, rfl⟩
    · exact hcs.length_le
    · simp
  have := hbefore.size_eq
  simp only [List.length_cons]
  omega

theorem At.length_lt {E : List Char → Prop} {k : Context} {t u : Token} {ts : List Token} {c : Cursor}
    (h : At E k (t :: u :: ts) c) (hu : u.kind ≠ .stop) : 2 < c.size + 2 - c.pos := by
  obtain ⟨-, cs, hcs | hstop, hbefore⟩ := h
  · have hpos : 0 < byteWidth cs := by
      cases hcs with
      | ending => exact absurd rfl hu
      | cons _ hfronts _ =>
        have := byteWidth_pos hfronts.ne_nil
        simp only [byteWidth_append]
        omega
    have := hbefore.size_eq
    omega
  · simp at hstop

theorem At.within {E : List Char → Prop} {k : Context} {ts : List Token} {c : Cursor}
    (h : At E k ts c) (k' : Context) :
    At E k' ts { c with context := k' } := by
  obtain _ | ⟨t, ts⟩ := ts
  · exact h.elim
  obtain ⟨ht, cs, hcs, hrest, -, hcovers, hjsx, hsize⟩ := h
  exact ⟨ht, cs, hcs, hrest, rfl, hcovers, hjsx, hsize⟩

/-- From a cursor that satisfies `A` the parser gets to one that satisfies `B`, and its answer
satisfies `P`. -/
def Reads {α : Type} (p : Parser α) (A B : Cursor → Prop) (P : α → Prop) : Prop :=
  ∀ c, A c → ∃ a d, p.run c = some (a, d) ∧ B d ∧ P a

def Fails {α : Type} (p : Parser α) (A : Cursor → Prop) : Prop :=
  ∀ c, A c → p.run c = none

section Reads

variable {α β : Type} {A B C : Cursor → Prop} {p : Parser α} {f : α → Parser β} {P P' : α → Prop}
  {Q : β → Prop}

theorem Reads.mono (h : Reads p A B P) (hP : ∀ a, P a → P' a) : Reads p A B P' := by
  intro c hc
  obtain ⟨a, d, hp, hd, ha⟩ := h c hc
  exact ⟨a, d, hp, hd, hP a ha⟩

theorem Reads.pure {a : α} (h : P a) : Reads (pure a) A A P :=
  fun c hc ↦ ⟨a, c, rfl, hc, h⟩

theorem Reads.bind (hp : Reads p A B P) (hf : ∀ a, P a → Reads (f a) B C Q) :
    Reads (p >>= f) A C Q := by
  intro c hc
  obtain ⟨a, d, hpc, hd, ha⟩ := hp c hc
  obtain ⟨b, e, hfd, he, hb⟩ := hf a ha d hd
  exact ⟨b, e, by simp [StateT.run_bind, hpc, hfd], he, hb⟩

theorem Reads.map {g : α → β} (hp : Reads p A B P) (hg : ∀ a, P a → Q (g a)) :
    Reads (g <$> p) A B Q := by
  rw [map_eq_pure_bind]
  exact hp.bind fun a ha ↦ .pure (hg a ha)

theorem Fails.bind (hp : Fails p A) : Fails (p >>= f) A := by
  intro c hc
  simp [StateT.run_bind, hp c hc]

theorem Reads.bind_fails (hp : Reads p A B P) (hf : ∀ a, P a → Fails (f a) B) :
    Fails (p >>= f) A := by
  intro c hc
  obtain ⟨a, d, hpc, hd, ha⟩ := hp c hc
  simp [StateT.run_bind, hpc, hf a ha d hd]

theorem reads_get : Reads get A A A :=
  fun c hc ↦ ⟨c, c, rfl, hc, hc⟩

theorem reads_start : Reads Parser.start A A (fun _ ↦ True) :=
  reads_get.bind fun _ _ ↦ .pure trivial

theorem reads_spanFrom {start : Nat} : Reads (Parser.spanFrom start) A A (fun _ ↦ True) :=
  reads_get.bind fun _ _ ↦ .pure trivial

theorem reads_guarded {b : Bool} (h : b) : Reads (Parser.guarded b) A A (fun _ ↦ True) := by
  rw [Parser.guarded, if_pos h]
  exact .pure trivial

theorem fails_guarded {b : Bool} (h : b = false) : Fails (Parser.guarded b) A := by
  intro c _
  rw [Parser.guarded, if_neg (by simp [h])]
  rfl

theorem reads_look (hp : Reads p A B P) :
    Reads (Parser.look p) A A (fun b ↦ ∃ a, b = some a ∧ P a) := by
  intro c hc
  obtain ⟨a, d, hpc, -, ha⟩ := hp c hc
  refine ⟨some a, c, ?_, hc, a, rfl, ha⟩
  have hpc : p c = some (a, d) := hpc
  simp [Parser.look, StateT.run, hpc]

theorem reads_look_of_fails (hp : Fails p A) : Reads (Parser.look p) A A (· = none) := by
  intro c hc
  refine ⟨none, c, ?_, hc, rfl⟩
  have hpc : p c = none := hp c hc
  simp [Parser.look, StateT.run, hpc]

theorem reads_foresee {p : Parser Bool} {b : Bool} (hp : Reads p A B (· = b)) :
    Reads (Parser.foresee p) A A (· = b) := by
  refine (reads_look hp).bind ?_
  rintro _ ⟨_, rfl, rfl⟩
  exact .pure rfl

theorem reads_foresee_of_fails {p : Parser Bool} (hp : Fails p A) :
    Reads (Parser.foresee p) A A (· = false) := by
  refine (reads_look_of_fails hp).bind ?_
  rintro _ rfl
  exact .pure rfl

theorem reads_look_any : Reads (Parser.look p) A A (fun _ ↦ True) := by
  intro c hc
  cases hp : p c with
  | none => exact ⟨none, c, by simp [Parser.look, StateT.run, hp], hc, trivial⟩
  | some r => exact ⟨some r.1, c, by simp [Parser.look, StateT.run, hp], hc, trivial⟩

theorem reads_ahead_any {test : Token → Bool} : Reads (Parser.ahead test) A A (fun _ ↦ True) :=
  reads_look_any.bind fun _ _ ↦ .pure trivial

theorem reads_attempt (hp : Reads p A B P) :
    Reads (Parser.attempt p) A B (fun b ↦ ∃ a, b = some a ∧ P a) := by
  intro c hc
  obtain ⟨a, d, hpc, hd, ha⟩ := hp c hc
  refine ⟨some a, d, ?_, hd, a, rfl, ha⟩
  have hpc : p c = some (a, d) := hpc
  simp [Parser.attempt, StateT.run, hpc]

theorem reads_attempt_of_fails (hp : Fails p A) : Reads (Parser.attempt p) A A (· = none) := by
  intro c hc
  refine ⟨none, c, ?_, hc, rfl⟩
  have hpc : p c = none := hp c hc
  simp [Parser.attempt, StateT.run, hpc]

end Reads

section Tokens

variable {α β : Type} {E : List Char → Prop} {k : Context} {p : Parser α} {ts us : List Token}
  {t u : Token} {P : α → Prop} {s : String}

theorem reads_token :
    Reads Parser.token (At E k (t :: ts)) (At E k (t :: ts)) (fun u ↦ ∃ span, u = t.placed span) := by
  refine reads_get.bind fun c hc ↦ .pure ⟨c.token.span, ?_⟩
  rw [← hc.1]
  rfl

theorem reads_isAt : Reads (Parser.isAt s) (At E k (t :: ts)) (At E k (t :: ts)) (· = t.is s) := by
  refine reads_token.bind ?_
  rintro _ ⟨span, rfl⟩
  exact .pure rfl

theorem reads_isAtAny {ss : List String} :
    Reads (Parser.isAtAny ss) (At E k (t :: ts)) (At E k (t :: ts)) (· = t.isAny ss) := by
  refine reads_token.bind ?_
  rintro _ ⟨span, rfl⟩
  exact .pure rfl

theorem reads_context : Reads Parser.context (At E k ts) (At E k ts) (· = k) := by
  refine reads_get.bind fun c hc ↦ .pure ?_
  obtain _ | ⟨t, ts⟩ := ts
  · exact hc.elim
  · obtain ⟨-, cs, -, hbefore⟩ := hc
    exact hbefore.context_eq

theorem reads_atStop :
    Reads Parser.atStop (At E k (t :: ts)) (At E k (t :: ts)) (· = (t.kind == .stop)) := by
  refine reads_token.bind ?_
  rintro _ ⟨span, rfl⟩
  exact .pure rfl

theorem reads_next : Reads Parser.next (At E k (t :: u :: ts)) (At E k (u :: ts)) (fun _ ↦ True) := by
  rintro c ⟨-, cs, hcs | hstop, hbefore⟩
  · obtain ⟨d, hd, hat⟩ := hbefore.next hcs
    exact ⟨(), d, hd, hat, trivial⟩
  · simp at hstop

theorem reads_ahead {test : Token → Bool} :
    Reads (Parser.ahead test) (At E k (t :: u :: ts)) (At E k (t :: u :: ts))
      (fun b ↦ ∃ span, b = test (u.placed span)) := by
  have hp : Reads (do Parser.next; return test (← Parser.token)) (At E k (t :: u :: ts)) (At E k (u :: ts))
      (fun b ↦ ∃ span, b = test (u.placed span)) := by
    refine reads_next.bind fun _ _ ↦ reads_token.bind ?_
    rintro _ ⟨span, rfl⟩
    exact .pure ⟨span, rfl⟩
  refine (reads_look hp).bind ?_
  rintro _ ⟨b, rfl, hb⟩
  exact .pure hb

theorem reads_eat (h : t.is s) : Reads (Parser.eat s) (At E k (t :: u :: ts)) (At E k (u :: ts)) (· = true) := by
  refine reads_isAt.bind ?_
  rintro _ rfl
  rw [if_pos h]
  exact reads_next.bind fun _ _ ↦ .pure rfl

theorem reads_eat_of_not_is (h : t.is s = false) :
    Reads (Parser.eat s) (At E k (t :: ts)) (At E k (t :: ts)) (· = false) := by
  refine reads_isAt.bind ?_
  rintro _ rfl
  rw [if_neg (by simp [h])]
  exact .pure rfl

theorem reads_expect (h : t.is s) :
    Reads (Parser.expect s) (At E k (t :: u :: ts)) (At E k (u :: ts)) (fun _ ↦ True) := by
  refine reads_isAt.bind ?_
  rintro _ rfl
  rw [if_pos h]
  exact reads_next

theorem reads_within {change : Context → Context} (hp : Reads p (At E (change k) ts) (At E (change k) us) P) :
    Reads (Parser.within change p) (At E k ts) (At E k us) P := by
  intro c hc
  have hk : c.context = k := by
    obtain ⟨a, d, hrun, -, ha⟩ := reads_context c hc
    cases hrun
    exact ha
  obtain ⟨a, d, hpc, hd, ha⟩ := hp _ (hc.within (change k))
  refine ⟨a, { d with context := k }, ?_, hd.within k, ha⟩
  simp [Parser.within, hk, hpc]

theorem reads_isReferable :
    Reads (Parser.isReferable t) (At E k ts) (At E k ts)
      (· = (t.isIdentifier && !(k.awaits && t.text == "await") && !(k.yields && t.text == "yield"))) := by
  refine reads_context.bind ?_
  rintro _ rfl
  exact .pure rfl

theorem reads_identifier (h : t.isIdentifier) (hawait : (k.awaits && t.text == "await") = false)
    (hyield : (k.yields && t.text == "yield") = false) :
    Reads Parser.identifier (At E k (t :: u :: ts)) (At E k (u :: ts)) (· = t.text) := by
  refine reads_token.bind ?_
  rintro _ ⟨span, rfl⟩
  refine reads_isReferable.bind ?_
  rintro _ rfl
  have hreferable : ((t.placed span).isIdentifier && !(k.awaits && (t.placed span).text == "await") &&
      !(k.yields && (t.placed span).text == "yield")) = true := by
    change (t.isIdentifier && !(k.awaits && t.text == "await") &&
      !(k.yields && t.text == "yield")) = true
    simp [h, hawait, hyield]
  exact (reads_guarded hreferable).bind fun _ _ ↦ reads_next.bind fun _ _ ↦ .pure rfl

theorem reads_canEnd : Reads Parser.canEnd (At E k (t :: ts)) (At E k (t :: ts))
    (· = (t.is ";" || t.is "\x7d" || t.kind == .stop || t.newline)) := by
  refine reads_token.bind ?_
  rintro _ ⟨span, rfl⟩
  exact .pure rfl

theorem reads_semicolon (h : t.is ";") :
    Reads Parser.semicolon (At E k (t :: u :: ts)) (At E k (u :: ts)) (fun _ ↦ True) := by
  refine reads_isAt.bind ?_
  rintro _ rfl
  rw [if_pos h]
  exact reads_next

theorem reads_joinGreater (h : t.is ">" = false) :
    Reads Parser.joinGreater (At E k (t :: ts)) (At E k (t :: ts)) (fun _ ↦ True) := by
  refine reads_isAt.bind ?_
  rintro _ rfl
  rw [if_neg (by simp [h])]
  exact .pure trivial

theorem reads_repeats {q : Parser (Option α)} {R : β → α → Prop} (tokens : List β → List Token)
    (items : List β) (hlength : items.length < (tokens items).length)
    (hitem : ∀ b bs, b :: bs <:+ items →
      Reads q (At E k (tokens (b :: bs))) (At E k (tokens bs)) (fun a ↦ ∃ x, a = some x ∧ R b x))
    (hlast : Reads q (At E k (tokens [])) (At E k us) (· = none)) :
    Reads (Parser.repeats q) (At E k (tokens items)) (At E k us) (List.Forall₂ R items) := by
  have hgo (fuel : Nat) (hfuel : items.length < fuel) :
      Reads (Parser.repeats.go q fuel) (At E k (tokens items)) (At E k us) (List.Forall₂ R items) := by
    clear hlength
    induction items generalizing fuel with
    | nil =>
      obtain _ | fuel := fuel
      · exact absurd hfuel (by simp)
      · rw [Parser.repeats.go]
        refine hlast.bind ?_
        rintro _ rfl
        exact .pure .nil
    | cons b bs ih =>
      obtain _ | fuel := fuel
      · exact absurd hfuel (by simp)
      · rw [Parser.repeats.go]
        refine (hitem b bs (List.suffix_refl _)).bind ?_
        rintro _ ⟨x, rfl, hx⟩
        have hrest := ih (fun b' bs' h ↦ hitem b' bs' (h.trans (List.suffix_cons b bs))) fuel
          (by simpa using hfuel)
        exact hrest.bind fun xs hxs ↦ .pure (.cons hx hxs)
  exact reads_get.bind fun c hc ↦ hgo _ (Nat.lt_of_lt_of_le hlength hc.length_le)

theorem reads_repeats_none {q : Parser (Option α)}
    (hlast : Reads q (At E k (t :: ts)) (At E k (t :: ts)) (· = none)) :
    Reads (Parser.repeats q) (At E k (t :: ts)) (At E k (t :: ts)) (· = []) :=
  (reads_repeats (R := fun _ _ ↦ True) (fun _ : List Empty ↦ t :: ts) [] (by simp)
    (fun b ↦ b.elim) hlast).mono fun _ has ↦ List.forall₂_nil_left_iff.1 has

def listed (close : Token) (own : β → List Token) : List β → List Token → List Token
  | [], us => close :: us
  | [b], us => own b ++ close :: us
  | b :: bs, us => own b ++ .sign "," false :: listed close own bs us

theorem listed_ne_nil (close : Token) (own : β → List Token) (items : List β) (us : List Token) :
    listed close own items us ≠ [] := by
  fun_cases listed close own items us <;> simp

theorem length_lt_listed (close : Token) (own : β → List Token) (items : List β) :
    items.length < (listed close own items (u :: us)).length := by
  induction items with
  | nil => simp [listed]
  | cons b bs ih =>
    cases bs with
    | nil =>
      simp only [listed, List.length_append, List.length_cons, List.length_nil]
      omega
    | cons b' bs =>
      have hlisted : listed close own (b :: b' :: bs) (u :: us) =
          own b ++ .sign "," false :: listed close own (b' :: bs) (u :: us) := rfl
      simp only [hlisted, List.length_append, List.length_cons] at ih ⊢
      omega

theorem reads_commaList_go {item : Parser α} {R : β → α → Prop} {close : Token}
    {own : β → List Token} (hclose : close.is s) (hcomma : close.is "," = false) (items : List β)
    (hfirst : ∀ b ∈ items, ∃ v vs, own b = v :: vs ∧ v.is s = false)
    (hitem : ∀ b ∈ items, ∀ v vs, v = close ∨ v = .sign "," false →
      Reads item (At E k (own b ++ v :: vs)) (At E k (v :: vs)) (R b))
    (fuel : Nat) (hfuel : items.length < fuel) :
    Reads (Parser.commaList.go s item fuel) (At E k (listed close own items (u :: us)))
      (At E k (u :: us)) (List.Forall₂ R items) := by
  induction items generalizing fuel with
  | nil =>
    obtain _ | fuel := fuel
    · exact absurd hfuel (by simp)
    rw [Parser.commaList.go]
    refine (reads_eat hclose).bind ?_
    rintro _ rfl
    exact .pure .nil
  | cons b bs ih =>
    obtain _ | fuel := fuel
    · exact absurd hfuel (by simp)
    have hnot (vs : List Token) :
        Reads (Parser.eat s) (At E k (own b ++ vs)) (At E k (own b ++ vs)) (· = false) := by
      obtain ⟨w, ws, hb, hw⟩ := hfirst b (by simp)
      rw [hb]
      exact reads_eat_of_not_is hw
    rw [Parser.commaList.go]
    cases bs with
    | nil =>
      refine (hnot _).bind ?_
      rintro _ rfl
      refine (hitem b (by simp) _ _ (.inl rfl)).bind fun a ha ↦ ?_
      refine (reads_eat_of_not_is hcomma).bind ?_
      rintro _ rfl
      exact (reads_expect hclose).bind fun _ _ ↦ .pure (.cons ha .nil)
    | cons b' bs =>
      have hrest := ih (fun b hb ↦ hfirst b (List.mem_cons_of_mem _ hb))
        (fun b hb ↦ hitem b (List.mem_cons_of_mem _ hb)) fuel (by simpa using hfuel)
      refine (hnot _).bind ?_
      rintro _ rfl
      refine (hitem b (by simp) _ _ (.inr rfl)).bind fun a ha ↦ ?_
      obtain ⟨w, ws, hw⟩ := List.exists_cons_of_ne_nil
        (listed_ne_nil close own (b' :: bs) (u :: us))
      rw [hw] at hrest ⊢
      refine (reads_eat rfl).bind ?_
      rintro _ rfl
      exact hrest.bind fun as has ↦ .pure (.cons ha has)

theorem reads_commaList {item : Parser α} {R : β → α → Prop} {close : Token} {own : β → List Token}
    (hclose : close.is s) (hcomma : close.is "," = false) (items : List β)
    (hfirst : ∀ b ∈ items, ∃ v vs, own b = v :: vs ∧ v.is s = false)
    (hitem : ∀ b ∈ items, ∀ v vs, v = close ∨ v = .sign "," false →
      Reads item (At E k (own b ++ v :: vs)) (At E k (v :: vs)) (R b)) :
    Reads (Parser.commaList s item) (At E k (listed close own items (u :: us))) (At E k (u :: us))
      (List.Forall₂ R items) :=
  reads_get.bind fun _ hc ↦ reads_commaList_go hclose hcomma items hfirst hitem _
    (Nat.lt_of_lt_of_le (length_lt_listed close own items) hc.length_le)

end Tokens

end Recompose.Script
