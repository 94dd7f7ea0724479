import Recompose.Glue
import Recompose.Proofs.Reading.Statement

namespace Recompose

open Script Parse

section Function

variable {E : List Char → Prop} {d : Nat} {ts us : List Token} {newline : Bool}
  {P : Option Node × List Node → Prop} {S : List String × List Node → Prop}

def snippetTokens (ts : List Token) : List Token :=
  .word "function" false :: .word "__memo_snippet" false :: .sign "(" false :: ts

def itemTokens (newline : Bool) (ts : List Token) : List Unit → List Token
  | [] => [.ending newline]
  | _ => snippetTokens ts

theorem reads_program_of_items {goal : Goals} {t : Token} {ts us : List Token}
    {P : List String × List Node → Prop}
    (hitems : Reads (bodyItems goal .top Parser.atStop) (At E (plain true) (t :: ts))
      (At E (plain true) us) P) :
    Reads (program goal) (fun c ↦ ∃ cs, Spells E cs (t :: ts) ∧ Before (plain true) cs c)
      (At E (plain true) us) P := by
  have hnext : Reads Parser.next (fun c ↦ ∃ cs, Spells E cs (t :: ts) ∧ Before (plain true) cs c)
      (At E (plain true) (t :: ts)) (fun _ ↦ True) := by
    rintro c ⟨cs, hcs, hbefore⟩
    obtain ⟨b, hb, hat⟩ := hbefore.next hcs
    exact ⟨(), b, hb, hat, trivial⟩
  refine hnext.bind fun _ _ ↦ hitems.bind fun r hr ↦ reads_get.bind fun c hc ↦ ?_
  have hcovers : c.covers.isEmpty := by
    cases us with
    | nil => exact hc.elim
    | cons u us =>
      obtain ⟨-, cs, -, hbefore⟩ := hc
      rw [hbefore.covers_eq]
      rfl
  exact (reads_guarded hcovers).bind fun _ _ ↦ .pure hr

theorem reads_program
    (hparams : Reads (parameters (goals d)) (At E (plain false) (.sign "(" false :: ts))
      (At E (plain false) (.sign "\x7b" false :: us)) P)
    (hbody : Reads (codeBlock (goals d) .list) (At E (plain false) (.sign "\x7b" false :: us))
      (At E (plain false) [.ending newline]) (fun e ↦ ∃ span r, e = .code span r.1 r.2 ∧ S r)) :
    Reads (program (goals (d + 1)))
      (fun c ↦ ∃ cs, Spells E cs (snippetTokens ts) ∧ Before (plain true) cs c)
      (At E (plain true) [.ending newline]) (fun r ↦ ∃ f, r.2 = [f] ∧ IsFunction P S f) := by
  let tokens : List Unit → List Token := itemTokens newline ts
  have hone (b : Unit) (bs : List Unit) (h : b :: bs <:+ [()]) : bs = [] := by
    have := h.length_le
    simpa using this
  have hitems : Reads (bodyItems (goals (d + 1)) .top Parser.atStop) (At E (plain true) (tokens [()]))
      (At E (plain true) (tokens []))
      (fun r ↦ r.1 = [] ∧ List.Forall₂ (fun _ f ↦ IsFunction P S f) [()] r.2) := by
    refine reads_bodyItems tokens [()] (fun b bs h ↦ ?_) (fun b bs h ↦ ?_) ?_ (by simp [tokens, itemTokens, snippetTokens])
      fun b bs h ↦ ⟨_, _, rfl, rfl⟩
    · obtain rfl := hone b bs h
      exact reads_statement rfl rfl
        (reads_localStatement_function hparams hbody (by simp) (by decide) rfl)
    · exact reads_atStop
    · exact reads_atStop
  refine (reads_program_of_items hitems).mono ?_
  rintro ⟨ds, body⟩ ⟨-, hr⟩
  cases hr with
  | cons hf hnil =>
    cases hnil
    exact ⟨_, rfl, hf⟩

def snippetText (params body : String) : String :=
  "function __memo_snippet(" ++ params ++ ") \x7b\n" ++ body ++ "\n\x7d"

theorem hashbang_cons {c : Char} (hc : c ≠ '#') (cs : List Char) :
    hashbang (c :: cs) = (none, c :: cs) := by
  unfold hashbang
  split
  · next heq => exact absurd (List.cons.inj heq).1 hc
  · rfl

theorem snippetText_eq (params body : String) :
    snippetText params body =
      "function __memo_snippet(" ++ params ++ ") \x7b\n" ++ body ++ "\n\x7d" :=
  rfl

theorem hashbang_snippetText (params body : String) :
    hashbang (snippetText params body).toList = (none, (snippetText params body).toList) := by
  have hword : "function __memo_snippet(".toList = 'f' :: "unction __memo_snippet(".toList := by
    decide
  obtain ⟨cs, hcs⟩ : ∃ cs, (snippetText params body).toList = 'f' :: cs := by
    simp only [snippetText_eq, String.toList_append, hword, List.cons_append]
    exact ⟨_, rfl⟩
  rw [hcs]
  exact hashbang_cons (by decide) cs

def snippetDepth (text : String) : Nat :=
  8 * Text.byteWidth text.toList + 63

theorem function_eq_ok {params body : String}
    (hspells : Spells E (snippetText params body).toList (snippetTokens ts))
    (hparams : Reads (parameters (goals (snippetDepth (snippetText params body))))
      (At E (plain false) (.sign "(" false :: ts)) (At E (plain false) (.sign "\x7b" false :: us)) P)
    (hbody : Reads (codeBlock (goals (snippetDepth (snippetText params body))) .list)
      (At E (plain false) (.sign "\x7b" false :: us)) (At E (plain false) [.ending newline])
      (fun e ↦ ∃ span r, e = .code span r.1 r.2 ∧ S r)) :
    ∃ f, Glue.function params body = .ok f ∧ IsFunction P S f := by
  let text := snippetText params body
  let size := Text.byteWidth text.toList
  have hbefore : Before (plain true) text.toList (Parser.initial text.toList (size - size) size false) :=
    ⟨rfl, rfl, rfl, rfl, by simp [Parser.initial, size]⟩
  obtain ⟨r, c, hrun, -, f, hr, hf⟩ := reads_program hparams hbody _ ⟨text.toList, hspells, hbefore⟩
  have hparse : ∃ parsed, parse? text false = some parsed ∧ parsed.program.body = [f] := by
    refine ⟨⟨⟨none, r.1, r.2, false⟩, c.comments.reverse⟩, ?_, hr⟩
    simp only [parse?, text, hashbang_snippetText]
    rw [show depth (Text.byteWidth (snippetText params body).toList) =
      snippetDepth (snippetText params body) + 1 from rfl, hrun]
    rfl
  obtain ⟨parsed, hparsed, hsingle⟩ := hparse
  refine ⟨f, ?_, hf⟩
  obtain ⟨span, head, tps, params', result, inner, r', rfl, -⟩ := hf
  unfold Glue.function
  change parse? (snippetText params body) false = some parsed at hparsed
  unfold snippetText at hparsed
  simp only [hparsed, hsingle, Glue.firstFunction?]

end Function

end Recompose
