import Mathlib.Data.Nat.Basic
import Mathlib.Order.Basic
import Recompose.Proofs.Everywhere
import Recompose.Proofs.Reading.Spelled
import Recompose.Script.Names

namespace Recompose.Script

open Text

namespace Scan

theorem pos_le_skip {t : Trivia} {g g' : Gap} {cs cs' : List Char}
    (h : skip t g cs = some (g', cs')) : g.pos ≤ g'.pos := by
  fun_induction skip t g cs <;> grind [Gap.step, Gap.close]

theorem length_span_le {α : Type} (p : α → Bool) (as : List α) : (as.span p).2.length ≤ as.length := by
  rw [List.span_eq_takeWhile_dropWhile]
  exact (List.dropWhile_suffix p).length_le

theorem length_nameEscape {cs rest : List Char} {c : Char} (h : nameEscape? cs = some (c, rest)) :
    rest.length < cs.length := by
  unfold nameEscape? at h
  split at h
  · next more =>
    have := length_span_le isHex more
    grind
  · grind
  · simp at h

theorem length_nameParts {fuel : Nat} {cs name rest : List Char} {escaped : Bool}
    (h : nameParts? fuel cs = some (name, escaped, rest)) : rest.length ≤ cs.length := by
  induction fuel generalizing cs name escaped rest with
  | zero => simp [nameParts?] at h
  | succ fuel ih =>
    have hspan := length_span_le isNamePart cs
    unfold nameParts? at h
    dsimp only at h
    split at h
    · obtain ⟨⟨c, more⟩, hescape, h⟩ := Option.bind_eq_some_iff.1 h
      have := length_nameEscape hescape
      dsimp only at h
      split at h
      · obtain ⟨⟨tail, _, _⟩, htail, h⟩ := Option.bind_eq_some_iff.1 h
        have := ih htail
        grind
      · simp at h
    · simp at h
    · grind

theorem length_lt_of_name {fuel : Nat} {cs name rest : List Char}
    (h : name? fuel cs = some (name, true, rest)) : rest.length < cs.length := by
  obtain ⟨⟨found, escaped, more⟩, hparts, h⟩ := Option.bind_eq_some_iff.1 h
  obtain ⟨rfl, rfl⟩ : escaped = true ∧ more = rest := by grind
  cases fuel with
  | zero => simp [nameParts?] at hparts
  | succ fuel =>
    have hspan := length_span_le isNamePart cs
    unfold nameParts? at hparts
    dsimp only at hparts
    split at hparts
    · obtain ⟨⟨c, after⟩, hescape, hparts⟩ := Option.bind_eq_some_iff.1 hparts
      have := length_nameEscape hescape
      dsimp only at hparts
      split at hparts
      · obtain ⟨⟨tail, _, _⟩, htail, hparts⟩ := Option.bind_eq_some_iff.1 hparts
        have := length_nameParts htail
        grind
      · simp at hparts
    · simp at hparts
    · grind

theorem length_le_of_name {fuel : Nat} {cs name rest : List Char} {escaped : Bool}
    (h : name? fuel cs = some (name, escaped, rest)) : rest.length ≤ cs.length := by
  obtain ⟨⟨found, _, _⟩, hparts, h⟩ := Option.bind_eq_some_iff.1 h
  have := length_nameParts hparts
  grind

theorem upTo_ne_nil {cs rest : List Char} (h : rest.length < cs.length) : upTo cs rest ≠ [] := by
  rw [upTo, ne_eq, List.take_eq_nil_iff]
  grind

theorem digits_ne_nil {isDigit : Char → Bool} {cs ds rest : List Char}
    (h : digits? isDigit cs = some (ds, rest)) : ds ≠ [] := by
  unfold digits? at h
  grind

theorem fraction_ne_nil {cs ds rest : List Char} (h : fraction? true cs = some (ds, rest)) :
    ds ≠ [] := by
  unfold fraction? at h
  grind [Option.map_eq_some_iff]

theorem ne_nil_of_ite {b : Bool} {kind kind' : TokenKind} {raw raw' rest rest' : List Char}
    (hraw : raw' ≠ []) (h : (if b then some (kind', raw', rest') else none) = some (kind, raw, rest)) :
    raw ≠ [] := by
  cases b
  · simp at h
  · obtain ⟨-, rfl, -⟩ := by simpa using h
    exact hraw

theorem based_ne_nil {lead cs raw rest : List Char} {isDigit : Char → Bool} {kind : TokenKind}
    (h : based? lead isDigit cs = some (kind, raw, rest)) : raw ≠ [] := by
  obtain ⟨⟨ds, more⟩, hds, h⟩ := Option.bind_eq_some_iff.1 h
  have := digits_ne_nil hds
  dsimp only at h
  split at h
  all_goals exact ne_nil_of_ite (by simp [this]) h

theorem decimal_ne_nil {cs raw rest : List Char} {kind : TokenKind}
    (h : decimal? cs = some (kind, raw, rest)) : raw ≠ [] := by
  unfold decimal? at h
  extract_lets found at h
  -- Without digits in front of the point there are digits behind it.
  have hfound (whole more : List Char) (h : found (whole, more) = some (kind, raw, rest)) : raw ≠ [] := by
    cases whole with
    | nil =>
      simp only [found, Bool.false_and, Bool.false_eq_true, if_false] at h
      split at h
      · simp at h
      · obtain ⟨⟨fraction, _⟩, hfraction, h⟩ := Option.bind_eq_some_iff.1 h
        obtain ⟨⟨exponent, _⟩, -, h⟩ := Option.bind_eq_some_iff.1 h
        exact ne_nil_of_ite (by simp [fraction_ne_nil hfraction]) h
    | cons d ds =>
      dsimp -zeta only [found] at h
      extract_lets leadingZero digits at h
      clear_value leadingZero
      split at h
      · simp at h
      dsimp only [digits] at h
      split at h
      · exact ne_nil_of_ite (by simp) h
      split at h
      · exact ne_nil_of_ite (by simp) h
      · obtain ⟨_, -, h⟩ := Option.bind_eq_some_iff.1 h
        obtain ⟨_, -, h⟩ := Option.bind_eq_some_iff.1 h
        exact ne_nil_of_ite (by simp) h
  split at h
  all_goals
    obtain ⟨⟨whole, more⟩, -, h⟩ := Option.bind_eq_some_iff.1 h
    exact hfound whole more h

theorem number_ne_nil {cs raw rest : List Char} {kind : TokenKind}
    (h : number? cs = some (kind, raw, rest)) : raw ≠ [] := by
  unfold number? at h
  split at h
  iterate 6 exact based_ne_nil h
  exact decimal_ne_nil h

theorem length_stringBody {quote : Char} {braces : Option (Option Nat)} {acc units : List Nat}
    {cs rest : List Char} (h : stringBody? quote braces acc cs = some (units, rest)) :
    rest.length < cs.length := by
  fun_induction stringBody? quote braces acc cs <;> grind

theorem spellings_ne_nil {c : Char} {s : String} (h : s ∈ spellings c) : s.toList ≠ [] := by
  unfold spellings at h
  split at h
  all_goals aesop

theorem punct_ne_nil {cs rest : List Char} {s : String} (h : punct? cs = some (s, rest)) :
    s.toList ≠ [] := by
  obtain ⟨c, -, h⟩ := Option.bind_eq_some_iff.1 h
  obtain ⟨s', hs, h⟩ := List.exists_of_findSome?_eq_some h
  dsimp only at h
  split at h
  · obtain ⟨rfl, -⟩ := by simpa using h
    exact spellings_ne_nil hs
  · simp at h

theorem found_ne_nil {fuel : Nat} {cs : List Char} {f : Found} (h : found? fuel cs = some f)
    (hkind : f.kind ≠ .stop) : f.raw ≠ [] := by
  unfold found? at h
  split at h
  · obtain rfl := Option.some.inj h
    simp at hkind
  split at h
  · obtain ⟨⟨name, escaped, rest⟩, hname, h⟩ := Option.bind_eq_some_iff.1 h
    obtain rfl := Option.some.inj h
    cases escaped
    · intro hnil
      have := isNameText_of_name? hname
      simp_all [isNameText]
    · exact upTo_ne_nil (length_lt_of_name hname)
  split at h
  · obtain ⟨⟨kind, raw, rest⟩, hnumber, h⟩ := Option.bind_eq_some_iff.1 h
    obtain rfl := Option.some.inj h
    exact number_ne_nil hnumber
  split at h
  · obtain ⟨⟨units, rest⟩, hbody, h⟩ := Option.bind_eq_some_iff.1 h
    obtain rfl := Option.some.inj h
    exact upTo_ne_nil ((length_stringBody hbody).trans (Nat.lt_succ_self _))
  split at h
  · obtain ⟨_, -, h⟩ := Option.bind_eq_some_iff.1 h
    obtain rfl := Option.some.inj h
    simp
  split at h
  · obtain ⟨⟨name, escaped, rest⟩, hname, h⟩ := Option.bind_eq_some_iff.1 h
    obtain rfl := Option.some.inj h
    exact upTo_ne_nil (Nat.lt_succ_of_le (length_le_of_name hname))
  · obtain ⟨⟨s, rest⟩, hpunct, h⟩ := Option.bind_eq_some_iff.1 h
    obtain rfl := Option.some.inj h
    exact punct_ne_nil hpunct

structure Found.IsSound (f : Found) : Prop where
  spelled : f.IsSpelled
  solid : f.kind ≠ .stop → f.raw ≠ []

theorem isSound_of_found? {fuel : Nat} {cs : List Char} {f : Found} (h : found? fuel cs = some f) :
    f.IsSound :=
  ⟨isNameText_of_found? h, found_ne_nil h⟩

end Scan

/-- If the pattern is a mere name, the name is an identifier. -/
def IsKnown (n : Node) : Prop :=
  ∀ name, n.simpleName? = some name → isIdentifierText name = true

/-- It is a parameter, and if it goes by a name, the name is an identifier. -/
def IsParameter : Node → Prop
  | .param _ _ _ _ target _ _ => IsKnown target
  | _ => False

def IsSignature : Node → Prop
  | .func _ head _ _ _ _ _ => head.form = .signature
  | _ => False

/-- The names of a node itself that are referred to or that its parameters go by are identifiers, and
the function of a type is a mere signature. -/
def OwnNames : Node → Prop
  | .ref _ name => isIdentifierText name = true
  | .func _ _ _ _ params _ _ => ∀ p ∈ params, IsParameter p
  | .typeFunc _ _ _ f => IsSignature f
  | _ => True

def IsNamed (n : Node) : Prop :=
  n.Everywhere OwnNames

@[reducible]
def ownPlace : Node → List Span
  | .func span _ _ _ _ _ _ => [span]
  | .field span _ _ _ _ _ _ => [span]
  | _ => []

/-- The span of a node that can be a hazard. -/
def riskSpan? : Node → Option Span
  | .returnStmt span _ => some span
  | .breakStmt span _ => some span
  | .continueStmt span _ => some span
  | .vars span .hoisted _ _ => some span
  | .forEach span .awaited _ _ _ => some span
  | .form span .await _ => some span
  | .form span (.yield _) _ => some span
  | _ => none

/-- A place in the text, with the places inside it. -/
inductive Region where
  | mk (span : Span) (inner : List Region)

mutual

def Region.spans : Region → List Span
  | .mk span inner => span :: spansIn inner

def spansIn : List Region → List Span
  | [] => []
  | r :: rs => r.spans ++ spansIn rs

end

theorem spansIn_append (rs rs' : List Region) : spansIn (rs ++ rs') = spansIn rs ++ spansIn rs' := by
  induction rs with
  | nil => simp [spansIn]
  | cons r rs ih => simp [spansIn, ih]

open Classical in
/-- A name that is none counts as an empty place. Nothing that is read has one. -/
noncomputable def flaw (P : Prop) : List Region :=
  if P then [] else [.mk .none []]

theorem flaw_eq_nil {P : Prop} (h : P) : flaw P = [] :=
  if_pos h

@[reducible]
noncomputable def marks : Node → Option Span × List Region
  | .func span _ _ _ params _ _ => (some span, flaw (∀ p ∈ params, IsParameter p))
  | .field span _ _ _ _ _ _ => (some span, [])
  | .returnStmt span _ => (some span, [])
  | .breakStmt span _ => (some span, [])
  | .continueStmt span _ => (some span, [])
  | .vars span .hoisted _ _ => (some span, [])
  | .forEach span .awaited _ _ _ => (some span, [])
  | .form span .await _ => (some span, [])
  | .form span (.yield _) _ => (some span, [])
  | .ref _ name => (none, flaw (isIdentifierText name = true))
  | .typeFunc _ _ _ f => (none, flaw (IsSignature f))
  | _ => (none, [])

def enclosing (own : Option Span × List Region) (inner : List Region) : List Region :=
  match own.1 with
  | some span => [.mk span (own.2 ++ inner)]
  | none => own.2 ++ inner

theorem marks_snd (n : Node) : (marks n).2 = flaw (OwnNames n) := by
  cases n
  case ref | func | typeFunc => rfl
  case form span f operands => cases f <;> exact (flaw_eq_nil trivial).symm
  case vars span kind declared items => cases kind <;> exact (flaw_eq_nil trivial).symm
  case forEach span kind left right body => cases kind <;> exact (flaw_eq_nil trivial).symm
  all_goals exact (flaw_eq_nil trivial).symm

/-- The places of the functions and fields, and of what can be a hazard, in what a parser answers, in the
order of the text. -/
class Located (α : Type) where
  places : α → List Region

export Located (places)

noncomputable instance : Located Node where
  places := Node.fold fun n parts ↦ enclosing (marks n) parts.flatten

instance {α : Type} [Located α] : Located (Option α) where
  places o := o.toList.flatMap places

instance {α : Type} [Located α] : Located (List α) where
  places as := as.flatMap places

instance {α β : Type} [Located α] [Located β] : Located (α × β) where
  places r := places r.1 ++ places r.2

instance (priority := low) unlocated {α : Type} : Located α where
  places _ := []

theorem places_eq (n : Node) : places n = enclosing (marks n) (places n.children) := by
  change Node.fold _ _ = _
  rw [Node.fold_eq]
  rfl

theorem places_plain {n : Node} (h : marks n = (none, [])) : places n = places n.children := by
  rw [places_eq, h]
  rfl

theorem places_marked {n : Node} {span : Span} (h : marks n = (some span, [])) :
    places n = [.mk span (places n.children)] := by
  rw [places_eq, h]
  rfl

def regionIf (marked : Bool) (span : Span) (inner : List Region) : List Region :=
  if marked then [.mk span inner] else inner

theorem places_vars {span : Span} {kind : VarKind} {declared : Bool} {items : List Node} :
    places (Node.vars span kind declared items) = regionIf (kind == .hoisted) span (places items) := by
  cases kind
  case hoisted => exact places_marked rfl
  all_goals exact places_plain rfl

theorem places_forEach {span : Span} {kind : EachKind} {left right body : Node} :
    places (Node.forEach span kind left right body) =
      regionIf (kind == .awaited) span (places [left, right, body]) := by
  cases kind
  case awaited => exact places_marked rfl
  all_goals exact places_plain rfl

theorem places_ref {span : Span} {name : String} (h : isIdentifierText name = true) :
    places (Node.ref span name) = [] :=
  places_plain (Prod.ext rfl (flaw_eq_nil h))

theorem ownNames_of_places {n : Node} (h : .none ∉ spansIn (places n)) : OwnNames n := by
  by_contra hnames
  have hflaw : (marks n).2 = [.mk .none []] := (marks_snd n).trans (if_neg hnames)
  rw [places_eq, enclosing] at h
  split at h <;> simp [hflaw, spansIn, Region.spans] at h

section

variable {α β : Type} [Located α] [Located β]

@[simp]
theorem places_none : places (none : Option α) = [] :=
  rfl

@[simp]
theorem places_some (a : α) : places (some a) = places a :=
  List.append_nil _

@[simp]
theorem places_nil : places ([] : List α) = [] :=
  rfl

@[simp]
theorem places_cons (a : α) (as : List α) : places (a :: as) = places a ++ places as :=
  rfl

@[simp]
theorem places_append (as bs : List α) : places (as ++ bs) = places as ++ places bs :=
  List.flatMap_append

@[simp]
theorem places_pair (r : α × β) : places r = places r.1 ++ places r.2 :=
  rfl

@[simp]
theorem places_toList (o : Option α) : places o.toList = places o :=
  rfl

@[simp]
theorem places_flatten (as : List (List α)) : places as.flatten = places as := by
  induction as with
  | nil => rfl
  | cons a as ih => rw [List.flatten_cons, places_append, ih, places_cons]

end

class Silent (α : Type) [Located α] : Prop where
  places_eq_nil (a : α) : places a = []

attribute [simp] Silent.places_eq_nil

instance {α : Type} : @Silent α unlocated :=
  @Silent.mk α unlocated fun _ ↦ rfl

instance {α : Type} [Located α] [Silent α] : Silent (Option α) :=
  ⟨fun _ ↦ List.flatMap_eq_nil_iff.2 fun _ _ ↦ Silent.places_eq_nil _⟩

instance {α : Type} [Located α] [Silent α] : Silent (List α) :=
  ⟨fun _ ↦ List.flatMap_eq_nil_iff.2 fun _ _ ↦ Silent.places_eq_nil _⟩

instance {α β : Type} [Located α] [Located β] [Silent α] [Silent β] : Silent (α × β) :=
  ⟨fun r ↦ by rw [places_pair, Silent.places_eq_nil, Silent.places_eq_nil, List.append_nil]⟩

/-- Places one behind another from `low` up to `high`. What is inside a place starts behind its first
character. -/
inductive Ordered : Nat → Nat → List Region → Prop
  | nil {low high : Nat} : Ordered low high []
  | cons {low high : Nat} {span : Span} {inner rest : List Region} (hlow : low ≤ span.start)
    (hspan : span.start < span.stop) (hinner : Ordered (span.start + 1) span.stop inner)
    (hhigh : span.stop ≤ high) (hrest : Ordered span.stop high rest) :
    Ordered low high (.mk span inner :: rest)

/-- Spans in the order of the text, from `low` up to `high`. -/
structure InOrder (low high : Nat) (l : List Span) : Prop where
  ascending : l.Pairwise fun x y ↦ x.start < y.start
  within : ∀ x ∈ l, low ≤ x.start ∧ x.start < x.stop ∧ x.stop ≤ high

namespace Ordered

variable {low low' high high' : Nat} {l l' : List Region}

theorem mono (h : Ordered low high l) (hlow : low' ≤ low) (hhigh : high ≤ high') :
    Ordered low' high' l := by
  induction h generalizing low' with
  | nil => exact .nil
  | cons hstart hspan hinner hstop _ _ ih =>
    exact .cons (hlow.trans hstart) hspan hinner (hstop.trans hhigh) (ih le_rfl hhigh)

theorem append (h : Ordered low high l) (h' : Ordered low' high' l') (hlow : low ≤ low')
    (hmid : high ≤ low') (hhigh : high ≤ high') : Ordered low high' (l ++ l') := by
  induction h with
  | nil => exact h'.mono hlow le_rfl
  | cons hstart hspan hinner hstop _ _ ih =>
    exact .cons hstart hspan hinner (hstop.trans hhigh) (ih (hstop.trans hmid) hmid hhigh)

theorem around {s : Nat} (marked : Bool) (h : Ordered (s + 1) high l) (hs : s < high) :
    Ordered s high (regionIf marked ⟨s, high⟩ l) := by
  cases marked
  · exact h.mono (Nat.le_succ s) le_rfl
  · exact .cons le_rfl hs h le_rfl .nil

theorem exists_of_append (h : Ordered low high (l ++ l')) (hlow : low ≤ high) :
    ∃ mid, low ≤ mid ∧ mid ≤ high ∧ Ordered low mid l ∧ Ordered mid high l' := by
  induction l generalizing low with
  | nil => exact ⟨low, le_rfl, hlow, .nil, h⟩
  | cons r l ih =>
    cases h with
    | cons hstart hspan hinner hstop hrest =>
      obtain ⟨mid, hmid, hhigh, hl, hl'⟩ := ih hrest hstop
      exact ⟨mid, hstart.trans (hspan.le.trans hmid), hhigh, .cons hstart hspan hinner hmid hl, hl'⟩

theorem exists_of_infix (h : Ordered 0 high l') (hl : l <:+: l') : ∃ high', Ordered 0 high' l := by
  obtain ⟨before, after, rfl⟩ := hl
  obtain ⟨mid, -, -, hinit, -⟩ := h.exists_of_append (Nat.zero_le _)
  obtain ⟨_, -, -, -, hl⟩ := hinit.exists_of_append (Nat.zero_le _)
  exact ⟨mid, hl.mono (Nat.zero_le _) le_rfl⟩

theorem spans (h : Ordered low high l) : InOrder low high (spansIn l) := by
  induction h with
  | nil => exact ⟨.nil, by simp [spansIn]⟩
  | @cons low high span inner rest hstart hspan _ hstop _ hinner hrest =>
    have hfirst (x : Span) (hx : x ∈ spansIn rest) : span.start < x.start :=
      hspan.trans_le (hrest.within x hx).1
    refine ⟨?_, fun x hx ↦ ?_⟩
    · simp only [spansIn, Region.spans, List.cons_append, List.pairwise_cons, List.pairwise_append,
        List.forall_mem_append]
      refine ⟨⟨fun x hx ↦ (hinner.within x hx).1, hfirst⟩, hinner.ascending, hrest.ascending,
        fun x hx y hy ↦ ?_⟩
      have := hinner.within x hx
      have := hrest.within y hy
      omega
    · simp only [spansIn, Region.spans, List.cons_append, List.mem_cons, List.mem_append] at hx
      rcases hx with rfl | hx | hx
      · omega
      · have := hinner.within x hx
        omega
      · have := hrest.within x hx
        omega

theorem none_notMem (h : Ordered low high l) : .none ∉ spansIn l :=
  fun hnone ↦ absurd (h.spans.within _ hnone).2.1 (Nat.lt_irrefl 0)

end Ordered

theorem Token.kind_ne_stop {t : Token} {s : String} (h : t.is s = true) : t.kind ≠ .stop :=
  fun hkind ↦ by simp [Token.is, hkind] at h

namespace Cursor

def front (c : Cursor) : Nat :=
  c.token.span.start

structure Advancing (c : Cursor) : Prop where
  last_le : c.last ≤ c.front
  start_le : c.front ≤ c.token.span.stop
  stop_le : c.token.span.stop ≤ c.pos

/-- Only the last token is empty, and a name is spelled as one. -/
structure Sound (c : Cursor) : Prop extends Advancing c where
  solid : c.token.kind ≠ .stop → c.front < c.token.span.stop
  spelled : c.token.IsSpelled

end Cursor

/-- What a run from `c` to `d` that answers with these places keeps to. -/
structure Gets (low : Nat) (c d : Cursor) (l : List Region) : Prop where
  sound : d.Sound
  front_le : c.front ≤ d.front
  last_le : c.last ≤ d.last
  ordered : Ordered low d.last l

theorem Gets.mono {low low' : Nat} {c d : Cursor} {l : List Region} (h : Gets low c d l) (hlow : low' ≤ low) :
    Gets low' c d l :=
  ⟨h.sound, h.front_le, h.last_le, h.ordered.mono hlow le_rfl⟩

theorem Gets.trans {low low' : Nat} {c d e : Cursor} {l l' : List Region} (h : Gets low c d l)
    (h' : Gets low' d e l') : Gets low' c e l' :=
  ⟨h'.sound, h.front_le.trans h'.front_le, h.last_le.trans h'.last_le, h'.ordered⟩

/-- What is known where a parser starts, and where the places of its answer may start. -/
structure Outset where
  /-- The current token starts here or later. -/
  front : Nat
  /-- The previous token ends here or later. -/
  last : Nat
  /-- The places found so far start here or later. -/
  low : Nat
  /-- The places of the answer start here or later. -/
  first : Nat

namespace Outset

def start (s : Nat) : Outset :=
  ⟨s, 0, s, s⟩

def opening (s : Nat) : Outset :=
  ⟨s, 0, s + 1, s⟩

def opened (s : Nat) : Outset :=
  ⟨s + 1, s + 1, s + 1, s⟩

/-- In front of a token that nothing in the answer starts with. -/
def behind (s : Nat) : Outset :=
  ⟨s, 0, s + 1, s + 1⟩

/-- A cursor of which this is known, with places found so far. -/
structure Holds (w : Outset) (l : List Region) (c : Cursor) : Prop where
  front_le : w.front ≤ c.front
  last_le : w.last ≤ c.last
  ordered : Ordered w.low c.last l

end Outset

/-- Whenever the parser answers from such a cursor, with the given places found before, the places of
the answer are in order. -/
def Orders {α : Type} [Located α] (w : Outset) (l : List Region) (p : Parser α) : Prop :=
  ∀ ⦃c a d⦄, c.Sound → w.Holds l c → p c = some (a, d) → Gets w.first c d (places a)

/-- The places of the answer are in order, and none is in front of the first token. -/
class Finds {α : Type} [Located α] (p : Parser α) : Prop where
  orders (s : Nat) : Orders (.start s) [] p

/-- Moreover the first token starts no place of the answer. -/
class Follows {α : Type} [Located α] (p : Parser α) : Prop where
  orders (s : Nat) : Orders (.behind s) [] p

/-- The same for a parser that starts at the given token. -/
def OrdersAt {α : Type} [Located α] (t : Token) (w : Outset) (l : List Region) (p : Parser α) : Prop :=
  ∀ ⦃c a d⦄, c.Sound → c.token = t → w.Holds l c → p c = some (a, d) → Gets w.first c d (places a)

/-- Moreover at least one token is passed over. -/
class StepsOver {α : Type} [Located α] (p : Parser α) : Prop extends Follows p where
  front_lt : ∀ ⦃c a d⦄, c.Sound → p c = some (a, d) → c.front < d.last

def StepsOverAt {α : Type} [Located α] (t : Token) (p : Parser α) : Prop :=
  ∀ ⦃c a d⦄, c.Sound → c.token = t → p c = some (a, d) →
    Gets (c.front + 1) c d (places a) ∧ c.front < d.last

def Answers {α : Type} (p : Parser α) (P : α → Prop) : Prop :=
  ∀ ⦃c a d⦄, c.Sound → p c = some (a, d) → P a

/-- The cursor does not move. -/
def Stays {α : Type} (p : Parser α) : Prop :=
  ∀ ⦃c a d⦄, p c = some (a, d) → d = c

theorem stays_read {α : Type} {g : Cursor → α} : Stays (fun c ↦ some (g c, c)) :=
  fun _ _ _ h ↦ (Prod.mk.inj (Option.some.inj h)).2.symm

namespace Stays

variable {α β : Type} {p q : Parser α} {f : α → Parser β}

theorem bind (hp : Stays p) (hf : ∀ a, Stays (f a)) : Stays (p >>= f) := by
  intro c b e h
  obtain ⟨⟨a, d⟩, ha, hb⟩ := Option.bind_eq_some_iff.1 h
  obtain rfl := hp ha
  exact hf a hb

theorem cond {b : Bool} (hp : Stays p) (hq : Stays q) : Stays (if b then p else q) := by
  cases b
  · exact hq
  · exact hp

end Stays

/-- The parser goes on with what has been found so far. -/
def Resumes {α : Type} [Located α] (l : List Region) (p : Parser α) : Prop :=
  ∀ s, Orders (.start s) l p

namespace Orders

variable {α β : Type} [Located α] [Located β] {p : Parser α} {f : α → Parser β} {w : Outset} {l l' : List Region}
  {s : Nat} {c d : Cursor} {a : α}

theorem gets [h : Finds p] (hc : c.Sound) (heq : p c = some (a, d)) : Gets c.front c d (places a) :=
  h.orders c.front hc ⟨le_rfl, Nat.zero_le _, .nil⟩ heq

theorem gets_behind [h : Follows p] (hc : c.Sound) (heq : p c = some (a, d)) :
    Gets (c.front + 1) c d (places a) :=
  h.orders c.front hc ⟨le_rfl, Nat.zero_le _, .nil⟩ heq

instance finds_of_follows [Follows p] : Finds p where
  orders _ _ _ _ hc hw heq := (gets_behind hc heq).mono (hw.front_le.trans (Nat.le_succ _))

theorem run (hl : w.Holds l c) {low : Nat} (h : Gets low c d l') (hlow : w.low ≤ low)
    (hlast : c.last ≤ low) : w.Holds (l ++ l') d :=
  ⟨hl.front_le.trans h.front_le, hl.last_le.trans h.last_le,
    hl.ordered.append h.ordered hlow hlast h.last_le⟩

theorem run_step (hc : c.Sound) (hl : w.Holds l c) (h : Gets (c.front + 1) c d l') (hlt : c.front < d.last)
    (hw : w.low ≤ w.front + 1) : Outset.Holds ⟨w.front + 1, w.front + 1, w.low, w.first⟩ (l ++ l') d := by
  have hlast : w.front + 1 ≤ d.last := Nat.lt_of_le_of_lt hl.front_le hlt
  have hrun := run hl h (hw.trans (Nat.succ_le_succ hl.front_le)) (hc.last_le.trans (Nat.le_succ _))
  exact ⟨hlast.trans h.sound.last_le, hlast, hrun.ordered⟩

theorem seq (hp : ∀ ⦃c a d⦄, c.Sound → w.Holds l c → p c = some (a, d) →
      ∃ low, Gets low c d (places a) ∧ w.low ≤ low ∧ c.last ≤ low) {P : α → Prop} (hP : Answers p P)
    (hf : ∀ a, P a → Orders w (l ++ places a) (f a)) : Orders w l (p >>= f) := by
  intro c b e hc hl heq
  obtain ⟨⟨a, d⟩, ha, hb⟩ := Option.bind_eq_some_iff.1 heq
  obtain ⟨low, h, hlow, hlast⟩ := hp hc hl ha
  exact h.trans (hf a (hP hc ha) h.sound (run hl h hlow hlast) hb)

theorem learn [h : Finds p] {P : α → Prop} (hP : Answers p P)
    (hf : ∀ a, P a → Orders w (l ++ places a) (f a)) (hw : w.low ≤ w.front := by exact le_rfl) :
    Orders w l (p >>= f) :=
  seq (fun _ _ _ hc hl ha ↦ ⟨_, gets hc ha, hw.trans hl.front_le, hc.last_le⟩) hP hf

theorem bind [h : Finds p] (hf : ∀ a, Orders w (l ++ places a) (f a))
    (hw : w.low ≤ w.front := by exact le_rfl) : Orders w l (p >>= f) :=
  learn (P := fun _ ↦ True) (fun _ _ _ _ _ ↦ trivial) (fun a _ ↦ hf a) hw

theorem follow [h : Follows p] (hf : ∀ a, Orders w (l ++ places a) (f a))
    (hw : w.low ≤ w.front + 1 := by first | exact le_rfl | exact Nat.le_succ _) : Orders w l (p >>= f) :=
  seq (P := fun _ ↦ True) (fun _ _ _ hc hl ha ↦ ⟨_, gets_behind hc ha, hw.trans (Nat.succ_le_succ hl.front_le),
    hc.last_le.trans (Nat.le_succ _)⟩) (fun _ _ _ _ _ ↦ trivial) fun a _ ↦ hf a

theorem stepLearn [h : StepsOver p] {P : α → Prop} (hP : Answers p P)
    (hf : ∀ a, P a → Orders (.opened s) (l ++ places a) (f a)) : Orders (.opening s) l (p >>= f) := by
  intro c b e hc hl heq
  obtain ⟨⟨a, d⟩, ha, hb⟩ := Option.bind_eq_some_iff.1 heq
  have h := gets_behind hc ha
  exact h.trans (hf a (hP hc ha) h.sound (run_step hc hl h (StepsOver.front_lt hc ha) le_rfl) hb)

theorem step [h : StepsOver p] (hf : ∀ a, Orders (.opened s) (l ++ places a) (f a)) :
    Orders (.opening s) l (p >>= f) :=
  stepLearn (P := fun _ ↦ True) (fun _ _ _ _ _ ↦ trivial) fun a _ ↦ hf a

theorem stepBehind [h : StepsOver p] (hf : ∀ a, Orders (.start (s + 1)) (l ++ places a) (f a)) :
    Orders (.behind s) l (p >>= f) := by
  intro c b e hc hl heq
  obtain ⟨⟨a, d⟩, ha, hb⟩ := Option.bind_eq_some_iff.1 heq
  have h := gets_behind hc ha
  have hw := run_step hc hl h (StepsOver.front_lt hc ha) le_rfl
  exact h.trans (hf a h.sound ⟨hw.front_le, Nat.zero_le _, hw.ordered⟩ hb)

theorem resume (hp : Orders (.start w.low) l p) (hf : ∀ a, Orders w (places a) (f a))
    (hw : w.low ≤ w.front := by exact le_rfl) : Orders w l (p >>= f) := by
  intro c b e hc hl heq
  obtain ⟨⟨a, d⟩, ha, hb⟩ := Option.bind_eq_some_iff.1 heq
  have h := hp hc ⟨hw.trans hl.front_le, Nat.zero_le _, hl.ordered⟩ ha
  exact h.trans (hf a h.sound ⟨hl.front_le.trans h.front_le, hl.last_le.trans h.last_le, h.ordered⟩ hb)

theorem found (h : Orders w l' p) (hl : l = l' := by simp) : Orders w l p :=
  hl ▸ h

theorem pure (h : places a = l) (hw : w.first ≤ w.low := by first | exact le_rfl | exact Nat.le_succ _) :
    Orders w l (pure a) := by
  intro c b d hc hl heq
  obtain ⟨rfl, rfl⟩ := Prod.mk.inj (Option.some.inj heq)
  exact ⟨hc, le_rfl, le_rfl, h ▸ hl.ordered.mono hw le_rfl⟩

omit [Located α] in
theorem known (h : Orders w l (f a)) : Orders w l (Pure.pure a >>= f) :=
  h

theorem failure : Orders w l (failure : Parser α) :=
  fun _ _ _ _ _ h ↦ absurd h (by simp [Alternative.failure, StateT.failure])

theorem cond {b : Bool} {q : Parser α} (hp : Orders w l p) (hq : Orders w l q) :
    Orders w l (if b then p else q) := by
  split
  · exact hp
  · exact hq

theorem last [h : Finds p] (hl : l = [] := by simp) : Orders (.start s) l p :=
  hl ▸ h.orders s

theorem lastBehind [h : Follows p] (hl : l = [] := by simp) : Orders (.behind s) l p :=
  hl ▸ h.orders s

theorem ite {b : Bool} {q : Parser α} (hp : b = true → Orders w l p) (hq : b = false → Orders w l q) :
    Orders w l (if b then p else q) := by
  cases b
  · exact hq rfl
  · exact hp rfl

theorem node {n : Node} (h : places n.children = l) (own : marks n = (none, []) := by rfl)
    (hw : w.first ≤ w.low := by first | exact le_rfl | exact Nat.le_succ _) :
    Orders w l (Pure.pure n) :=
  .pure ((places_plain own).trans h) hw

theorem heed {n : Node} (hn : places n = l) (h : OwnNames n → Orders w l p) : Orders w l p := by
  intro c a d hc hl heq
  exact h (ownNames_of_places (hn ▸ hl.ordered.none_notMem)) hc hl heq

/-- What may have a place ends here. -/
theorem closeIf (marked : Bool) {g : Span → α} (h : ∀ span, places (g span) = regionIf marked span l) :
    Orders (.opened s) l (do let span ← Parser.spanFrom s; return g span) := by
  intro c n d hc hl heq
  obtain ⟨rfl, rfl⟩ := Prod.mk.inj (Option.some.inj heq)
  exact ⟨hc, le_rfl, le_rfl, h _ ▸ hl.ordered.around marked hl.last_le⟩

theorem close {g : Span → α} (h : ∀ span, places (g span) = [.mk span l]) :
    Orders (.opened s) l (do let span ← Parser.spanFrom s; return g span) :=
  closeIf true h

theorem opened (h : Orders (.start (s + 1)) l p) : Orders (.opened s) l p := by
  intro c a d hc hl heq
  exact (h hc ⟨hl.front_le, Nat.zero_le _, hl.ordered⟩ heq).mono (Nat.le_succ s)

theorem begins (h : Orders (.opening s) [] p) : Orders (.start s) [] p :=
  fun _ _ _ hc hl heq ↦ h hc ⟨hl.front_le, Nat.zero_le _, .nil⟩ heq

theorem forget (h : Orders (.start s) [] p) (hfront : s ≤ w.front := by exact le_rfl)
    (hfirst : w.first ≤ s := by exact le_rfl) : Orders w l p := by
  intro c a d hc hl heq
  exact (h hc ⟨hfront.trans hl.front_le, Nat.zero_le _, .nil⟩ heq).mono hfirst

theorem start {f : Nat → Parser α} (h : ∀ s, Orders (.start s) [] (f s)) :
    Orders (.start s) [] (Parser.start >>= f) := by
  intro c a d hc hl heq
  exact (h c.front hc ⟨le_rfl, Nat.zero_le _, .nil⟩ heq).mono hl.front_le

theorem here (h : ∀ t, OrdersAt t w l p) : Orders w l p :=
  fun c _ _ hc hl heq ↦ h c.token hc rfl hl heq

theorem tokenAt {f : Token → Parser α} (h : ∀ t, OrdersAt t (.start t.span.start) [] (f t)) :
    Orders (.start s) [] (Parser.token >>= f) := by
  intro c a d hc hl heq
  exact (h c.token hc rfl ⟨le_rfl, Nat.zero_le _, .nil⟩ heq).mono hl.front_le

theorem token {f : Token → Parser α} (h : ∀ t : Token, Orders (.start t.span.start) [] (f t)) :
    Orders (.start s) [] (Parser.token >>= f) :=
  tokenAt fun t _ _ _ hc _ hl heq ↦ h t hc hl heq

/-- What has a place starts here, behind what has been found before. -/
theorem fresh {g : Nat → Parser α} {f : Nat → α → Parser β} (hg : ∀ s, Orders (.opening s) [] (g s))
    (hf : ∀ s a, Orders w (l ++ places a) (f s a)) (hw : w.low ≤ w.front := by exact le_rfl) :
    Orders w l (do let s ← Parser.start; let a ← g s; f s a) := by
  intro c b e hc hl heq
  obtain ⟨⟨a, d⟩, ha, hb⟩ := Option.bind_eq_some_iff.1 heq
  have h := hg c.front hc ⟨le_rfl, Nat.zero_le _, .nil⟩ ha
  exact h.trans (hf c.front a h.sound (run hl h (hw.trans hl.front_le) hc.last_le) hb)

theorem guard {b : Bool} {f : Unit → Parser α} (h : b = true → Orders w l (f ())) :
    Orders w l (Parser.guarded b >>= f) := by
  cases b
  · exact fun _ _ _ _ _ h ↦ absurd h (by simp [Parser.guarded, Alternative.failure, StateT.failure, Bind.bind, StateT.bind])
  · exact h rfl

omit [Located α] in
theorem lift {o : Option α} (h : ∀ a, o = some a → Orders w l (f a)) : Orders w l (liftM o >>= f) := by
  intro c b d hc hl heq
  obtain ⟨⟨a, c'⟩, ha, hb⟩ := Option.bind_eq_some_iff.1 heq
  obtain ⟨a', ho, ha⟩ := Option.bind_eq_some_iff.1 ha
  obtain ⟨rfl, rfl⟩ := Prod.mk.inj (Option.some.inj ha)
  exact h a' ho hc hl hb

end Orders

namespace OrdersAt

variable {α β : Type} [Located α] [Located β] {t : Token} {p : Parser α} {f : α → Parser β} {w : Outset}
  {l : List Region} {s : Nat}

theorem of_orders (h : Orders w l p) : OrdersAt t w l p :=
  fun _ _ _ hc _ hl heq ↦ h hc hl heq

theorem begins (h : OrdersAt t (.opening s) [] p) : OrdersAt t (.start s) [] p :=
  fun _ _ _ hc ht hl heq ↦ h hc ht ⟨hl.front_le, Nat.zero_le _, .nil⟩ heq

theorem stay {γ : Type} {q : Parser γ} {g : γ → Parser α} (hq : Stays q) (h : ∀ a, OrdersAt t w l (g a)) :
    OrdersAt t w l (q >>= g) := by
  intro c a d hc ht hl heq
  obtain ⟨⟨b, e⟩, hb, ha⟩ := Option.bind_eq_some_iff.1 heq
  obtain rfl := hq hb
  exact h b hc ht hl ha

theorem cond {b : Bool} {q : Parser α} (hp : b = true → OrdersAt t w l p) (hq : OrdersAt t w l q) :
    OrdersAt t w l (if b then p else q) := by
  cases b
  · exact hq
  · exact hp rfl

theorem token {f : Token → Parser α} (h : OrdersAt t w l (f t)) : OrdersAt t w l (Parser.token >>= f) := by
  rintro c a d hc rfl hl heq
  exact h hc rfl hl heq

/-- What has a place starts with this token. -/
theorem step (hp : StepsOverAt t p) (hf : ∀ a, Orders (.opened s) (l ++ places a) (f a)) :
    OrdersAt t (.opening s) l (p >>= f) := by
  intro c b e hc ht hl heq
  obtain ⟨⟨a, d⟩, ha, hb⟩ := Option.bind_eq_some_iff.1 heq
  obtain ⟨h, hlast⟩ := hp hc ht ha
  exact h.trans (hf a h.sound (Orders.run_step hc hl h hlast le_rfl) hb)

/-- What may have a place starts with this token, behind what has been found before. -/
theorem region {opener : Parser Unit} [Finds p] {k : α → Span → Parser β} (marked : Bool)
    (hopener : StepsOverAt t opener) (hk : ∀ a span, Orders w (l ++ regionIf marked span (places a)) (k a span))
    (hw : w.low ≤ w.front := by exact le_rfl) :
    OrdersAt t w l (do opener; let a ← p; let span ← Parser.spanFrom t.span.start; k a span) := by
  rintro c b d hc rfl hl heq
  obtain ⟨⟨_, e⟩, hopen, heq⟩ := Option.bind_eq_some_iff.1 heq
  obtain ⟨⟨a, e'⟩, ha, hb⟩ := Option.bind_eq_some_iff.1 heq
  obtain ⟨hstep, hlt⟩ := hopener hc rfl hopen
  have hp := Orders.gets hstep.sound ha
  have hinner : Ordered (c.front + 1) e'.last (places a) :=
    hp.ordered.mono (hlt.trans_le hstep.sound.last_le) le_rfl
  have hgets : Gets c.front c e' (regionIf marked ⟨c.front, e'.last⟩ (places a)) :=
    ⟨hp.sound, hstep.front_le.trans hp.front_le, hstep.last_le.trans hp.last_le,
      hinner.around marked (hlt.trans_le hp.last_le)⟩
  exact hgets.trans (hk a _ hgets.sound (Orders.run hl hgets (hw.trans hl.front_le) hc.last_le) hb)

end OrdersAt

namespace Answers

variable {α β : Type} {p : Parser α} {f : α → Parser β} {P : α → Prop} {Q : β → Prop}

theorem pure {a : α} (h : P a) : Answers (Pure.pure a) P := by
  intro c b d _ heq
  obtain ⟨rfl, -⟩ := Prod.mk.inj (Option.some.inj heq)
  exact h

theorem seq [Located α] [Finds p] (hp : Answers p P) (hf : ∀ a, P a → Answers (f a) Q) :
    Answers (p >>= f) Q := by
  intro c b e hc heq
  obtain ⟨⟨a, d⟩, ha, hb⟩ := Option.bind_eq_some_iff.1 heq
  exact hf a (hp hc ha) (Orders.gets hc ha).sound hb

theorem bind [Located α] [Finds p] (hf : ∀ a, Answers (f a) Q) : Answers (p >>= f) Q :=
  seq (P := fun _ ↦ True) (fun _ _ _ _ _ ↦ trivial) fun a _ ↦ hf a

theorem cond {b : Bool} {q : Parser α} (hp : Answers p P) (hq : Answers q P) :
    Answers (if b then p else q) P := by
  split
  · exact hp
  · exact hq

theorem failure : Answers (failure : Parser α) P :=
  fun _ _ _ _ h ↦ absurd h (by simp [Alternative.failure, StateT.failure])

end Answers

namespace Parser

variable {α : Type} [Located α] {p : Parser α} {s : String} {t : Token} {w : Outset} {l : List Region}

theorem follows_of_stays [Silent α] (h : Stays p) : Follows p := by
  refine ⟨fun s c a d hc hl heq ↦ ?_⟩
  obtain rfl := h heq
  exact ⟨hc, le_rfl, le_rfl, by rw [Silent.places_eq_nil]; exact .nil⟩

theorem sound_of_found {d : Cursor} {f : Scan.Found} (hlast : d.last ≤ d.front)
    (hstop : d.token.span.stop = d.front + byteWidth f.raw) (hpos : d.pos = d.token.span.stop)
    (hkind : d.token.kind = f.kind) (htext : d.token.text = f.text) (hf : f.IsSound) : d.Sound := by
  refine ⟨⟨hlast, ?_, hpos.ge⟩, fun h ↦ ?_, fun h ↦ ?_⟩
  · rw [hstop]
    exact Nat.le_add_right _ _
  · rw [hstop]
    exact Nat.lt_add_of_pos_right (byteWidth_pos (hf.solid (hkind ▸ h)))
  · rw [htext]
    exact hf.spelled (hkind ▸ h)

theorem gets_next {c d : Cursor} {u : Unit} (hc : c.Advancing) (h : next c = some (u, d)) :
    Gets (c.front + 1) c d (places u) ∧ d.last = c.token.span.stop := by
  obtain ⟨⟨⟨g, cs⟩, _⟩, hskip, h⟩ := Option.bind_eq_some_iff.1 h
  obtain ⟨_, hr, hskip⟩ := Option.bind_eq_some_iff.1 hskip
  obtain ⟨rfl, rfl⟩ := Prod.mk.inj (Option.some.inj hskip)
  obtain ⟨⟨f, _⟩, hfound, h⟩ := Option.bind_eq_some_iff.1 h
  obtain ⟨_, hf, hfound⟩ := Option.bind_eq_some_iff.1 hfound
  obtain ⟨rfl, rfl⟩ := Prod.mk.inj (Option.some.inj hfound)
  obtain ⟨-, rfl⟩ := Prod.mk.inj (Option.some.inj h)
  have hpos : c.token.span.stop ≤ g.pos := hc.stop_le.trans (Scan.pos_le_skip hr)
  refine ⟨⟨?_, hc.start_le.trans hpos, hc.last_le.trans hc.start_le, .nil⟩, rfl⟩
  exact sound_of_found hpos rfl rfl rfl rfl (Scan.isSound_of_found? hf)

instance follows_next : Follows next where
  orders s := fun _ _ _ hc hl heq ↦ by
    have h := (gets_next hc.toAdvancing heq).1
    exact ⟨h.sound, h.front_le, h.last_le, .nil⟩

theorem front_lt_next {c d : Cursor} {u : Unit} (hc : c.Sound) (hkind : c.token.kind ≠ .stop)
    (h : next c = some (u, d)) : c.front < d.last := by
  rw [(gets_next hc.toAdvancing h).2]
  exact hc.solid hkind

theorem follows_modify {f : Cursor → Cursor}
    (h : ∀ c, (f c).token = c.token ∧ (f c).pos = c.pos ∧ (f c).last = c.last) :
    Follows (modify f : Parser Unit) := by
  refine ⟨fun s c u d hc hl heq ↦ ?_⟩
  obtain ⟨-, rfl⟩ := Prod.mk.inj (Option.some.inj heq)
  obtain ⟨htoken, hpos, hlast⟩ := h c
  have hfront : (f c).front = c.front := congrArg (·.span.start) htoken
  refine ⟨⟨⟨?_, ?_, ?_⟩, ?_, htoken ▸ hc.spelled⟩, hfront.ge, hlast.ge, .nil⟩
  · exact hlast ▸ hfront ▸ hc.last_le
  · exact htoken ▸ hfront ▸ hc.start_le
  · exact htoken ▸ hpos ▸ hc.stop_le
  · exact htoken ▸ hfront ▸ hc.solid

theorem follows_reread {reader : List Char → Option Scan.Found}
    (h : ∀ cs f, reader cs = some f → f.IsSound) : Follows (reread reader) := by
  refine ⟨fun s c u d hc hl heq ↦ ?_⟩
  obtain ⟨⟨f, _⟩, hf, heq⟩ := Option.bind_eq_some_iff.1 heq
  obtain ⟨_, hreader, hf⟩ := Option.bind_eq_some_iff.1 hf
  obtain ⟨rfl, rfl⟩ := Prod.mk.inj (Option.some.inj hf)
  obtain ⟨-, rfl⟩ := Prod.mk.inj (Option.some.inj heq)
  exact ⟨sound_of_found hc.last_le rfl rfl rfl rfl (h _ _ hreader), le_rfl, le_rfl, .nil⟩

instance follows_get : Follows (get : Parser Cursor) :=
  follows_of_stays stays_read

instance follows_token : Follows token :=
  follows_of_stays stays_read

instance follows_isAt : Follows (isAt s) :=
  follows_of_stays stays_read

instance follows_isAtAny {ss : List String} : Follows (isAtAny ss) :=
  follows_of_stays stays_read

instance follows_context : Follows context :=
  follows_of_stays stays_read

instance follows_start : Follows start :=
  follows_of_stays stays_read

instance follows_spanFrom {start : Nat} : Follows (spanFrom start) :=
  follows_of_stays stays_read

instance follows_atStop : Follows atStop :=
  follows_of_stays stays_read

instance follows_canEnd : Follows canEnd :=
  follows_of_stays stays_read

instance follows_isReferable : Follows (isReferable t) :=
  follows_of_stays stays_read

omit [Located α] in
theorem stays_look : Stays (look p) := by
  intro c o d h
  unfold look at h
  split at h
  all_goals exact (Prod.mk.inj (Option.some.inj h)).2.symm

theorem stays_foresee {test : Parser Bool} : Stays (foresee test) := by
  intro c b d h
  obtain ⟨⟨o, e⟩, ho, h⟩ := Option.bind_eq_some_iff.1 h
  obtain ⟨-, rfl⟩ := Prod.mk.inj (Option.some.inj h)
  exact stays_look ho

theorem follows_look [Silent α] : Follows (look p) :=
  follows_of_stays stays_look

instance follows_known {a : α} [Silent α] : Follows (Pure.pure a : Parser α) :=
  follows_of_stays stays_read

theorem stays_guarded {b : Bool} : Stays (guarded b) :=
  .cond stays_read fun _ _ _ h ↦ absurd h (by simp [failure, StateT.failure])

instance follows_guarded {b : Bool} : Follows (guarded b) :=
  follows_of_stays stays_guarded

instance follows_foresee {test : Parser Bool} : Follows (foresee test) :=
  follows_of_stays stays_foresee

instance follows_ahead {test : Token → Bool} : Follows (ahead test) :=
  follows_foresee

instance follows_eat : Follows (eat s) :=
  ⟨fun _ ↦ .follow fun _ ↦ .cond (.follow fun _ ↦ .pure (by simp)) (.pure (by simp))⟩

instance follows_expect : Follows (expect s) :=
  ⟨fun _ ↦ .follow fun _ ↦ .cond .lastBehind .failure⟩

instance stepsOver_expect : StepsOver (expect s) where
  front_lt c u d hc heq := by
    unfold expect at heq
    change (if c.token.is s then next else failure) c = _ at heq
    split at heq
    · next his => exact front_lt_next hc (Token.kind_ne_stop his) heq
    · simp [Alternative.failure, StateT.failure] at heq

theorem eat_eq (c : Cursor) :
    eat s c = if c.token.is s then (next >>= fun _ ↦ pure true) c else some (false, c) := by
  unfold eat
  change (if c.token.is s then (next >>= fun _ ↦ pure true) else pure false : Parser Bool) c = _
  split <;> rfl

/-- The first token starts nothing, whether it is the given one or not. -/
theorem orders_eat {f : Bool → Parser α} {n : Nat} (hyes : Orders (.start (n + 1)) l (f true))
    (hno : Orders (.behind n) l (f false)) : Orders (.behind n) l (eat s >>= f) := by
  intro c a d hc hl heq
  obtain ⟨⟨b, e⟩, hb, ha⟩ := Option.bind_eq_some_iff.1 heq
  rw [eat_eq] at hb
  split at hb
  · next his =>
    obtain ⟨⟨u, e'⟩, hnext, hb⟩ := Option.bind_eq_some_iff.1 hb
    obtain ⟨rfl, rfl⟩ := Prod.mk.inj (Option.some.inj hb)
    have hexpect : expect s c = some (u, e') := by
      change (if c.token.is s then next else failure) c = _
      rwa [if_pos his]
    exact Orders.stepBehind (p := expect s) (f := fun _ ↦ f true)
      (fun _ ↦ by simpa using hyes) hc hl (Option.bind_eq_some_iff.2 ⟨_, hexpect, ha⟩)
  · obtain ⟨rfl, rfl⟩ := Prod.mk.inj (Option.some.inj hb)
    exact hno hc hl ha

theorem stepsOver_seq {β : Type} [Located β] {f : β → Parser α} {q : Parser β} [StepsOver q]
    (hf : ∀ b, Resumes (places b) (f b)) : StepsOver (q >>= f) where
  orders n := .stepBehind fun b ↦ hf b (n + 1)
  front_lt c a d hc heq := by
    obtain ⟨⟨b, e⟩, hb, ha⟩ := Option.bind_eq_some_iff.1 heq
    have h := Orders.gets_behind hc hb
    have hd := hf b 0 h.sound ⟨Nat.zero_le _, Nat.zero_le _, h.ordered.mono (Nat.zero_le _) le_rfl⟩ ha
    exact (StepsOver.front_lt hc hb).trans_le hd.last_le

theorem stepsOver_token {f : Token → Parser α} (h : ∀ t, StepsOverAt t (f t)) :
    StepsOver (token >>= f) where
  orders _ c _ _ hc hl heq := (h c.token hc rfl heq).1.mono (Nat.succ_le_succ hl.front_le)
  front_lt c _ _ hc heq := (h c.token hc rfl heq).2

theorem stepsOverAt_of [h : StepsOver p] : StepsOverAt t p :=
  fun _ _ _ hc _ heq ↦ ⟨Orders.gets_behind hc heq, StepsOver.front_lt hc heq⟩

theorem stepsOverAt_pass (ht : t.kind ≠ .stop) : StepsOverAt t next := by
  rintro c a d hc rfl heq
  exact ⟨(gets_next hc.toAdvancing heq).1, front_lt_next hc ht heq⟩

theorem stepsOverAt_next {f : Unit → Parser α} (ht : t.kind ≠ .stop) (hf : Resumes [] (f ())) :
    StepsOverAt t (next >>= f) := by
  rintro c a d hc rfl heq
  obtain ⟨⟨_, e⟩, hnext, ha⟩ := Option.bind_eq_some_iff.1 heq
  obtain ⟨h, hlt⟩ := stepsOverAt_pass ht hc rfl hnext
  have hd := hf (c.front + 1) h.sound ⟨Nat.succ_le_of_lt (hlt.trans_le h.sound.last_le), Nat.zero_le _, .nil⟩ ha
  exact ⟨h.trans hd, hlt.trans_le hd.last_le⟩

theorem stepsOverAt_guard {b : Bool} {f : Unit → Parser α} (h : b = true → StepsOverAt t (f ())) :
    StepsOverAt t (guarded b >>= f) := by
  cases b
  · exact fun c a d _ _ heq ↦ absurd heq (by simp [guarded, failure, StateT.failure, Bind.bind, StateT.bind])
  · exact h rfl

theorem orders_attempt (hp : Orders w [] p) : Orders w [] (attempt p) := by
  intro c o d hc hl heq
  unfold attempt at heq
  split at heq
  · next a e ha =>
    obtain ⟨rfl, rfl⟩ := Prod.mk.inj (Option.some.inj heq)
    exact places_some a ▸ hp hc hl ha
  · obtain ⟨rfl, rfl⟩ := Prod.mk.inj (Option.some.inj heq)
    exact ⟨hc, le_rfl, le_rfl, .nil⟩

instance finds_attempt [h : Finds p] : Finds (attempt p) :=
  ⟨fun s ↦ orders_attempt (h.orders s)⟩

omit [Located α] in
theorem within_eq_some {change : Context → Context} {c d : Cursor} {a : α}
    (h : within change p c = some (a, d)) : ∃ e, p { c with context := change c.context } = some (a, e) ∧
      d = { e with context := c.context } := by
  obtain ⟨⟨b, e⟩, hb, h⟩ := Option.bind_eq_some_iff.1 h
  obtain ⟨rfl, rfl⟩ := Prod.mk.inj (Option.some.inj h)
  exact ⟨e, hb, rfl⟩

theorem sound_context {c : Cursor} (h : c.Sound) (k : Context) : Cursor.Sound { c with context := k } :=
  ⟨⟨h.last_le, h.start_le, h.stop_le⟩, h.solid, h.spelled⟩

theorem orders_within {change : Context → Context} (hp : Orders w l p) : Orders w l (within change p) := by
  intro c a d hc hl heq
  obtain ⟨e, hb, rfl⟩ := within_eq_some heq
  have h := hp (sound_context hc (change c.context)) ⟨hl.front_le, hl.last_le, hl.ordered⟩ hb
  exact ⟨sound_context h.sound _, h.front_le, h.last_le, h.ordered⟩

instance finds_within {change : Context → Context} [h : Finds p] : Finds (within change p) :=
  ⟨fun s ↦ orders_within (h.orders s)⟩

instance follows_within {change : Context → Context} [h : Follows p] : Follows (within change p) :=
  ⟨fun s ↦ orders_within (h.orders s)⟩

instance stepsOver_within {change : Context → Context} [StepsOver p] : StepsOver (within change p) where
  front_lt c a d hc heq := by
    obtain ⟨e, hb, rfl⟩ := within_eq_some heq
    have hlt := StepsOver.front_lt (sound_context hc (change c.context)) hb
    exact hlt

instance follows_semicolon : Follows semicolon :=
  ⟨fun _ ↦ .follow fun _ ↦ .cond .lastBehind (.follow fun _ ↦ .lastBehind)⟩

theorem finds_repeats {q : Parser (Option α)} (hq : Finds q) : Finds (repeats q) := by
  refine ⟨fun s ↦ .bind fun c ↦ ?_⟩
  generalize c.size + 2 - c.pos = fuel
  rw [Silent.places_eq_nil, List.append_nil]
  induction fuel generalizing s with
  | zero => exact .failure
  | succ fuel ih =>
    have hgo : Finds (repeats.go q fuel) := ⟨ih⟩
    refine .bind fun o ↦ ?_
    cases o with
    | none => exact .pure (by simp)
    | some a => exact .bind fun as ↦ .pure (by simp)

theorem follows_repeats {q : Parser (Option α)} (hq : Follows q) : Follows (repeats q) := by
  refine ⟨fun s ↦ .follow fun c ↦ ?_⟩
  generalize c.size + 2 - c.pos = fuel
  rw [Silent.places_eq_nil, List.append_nil]
  induction fuel generalizing s with
  | zero => exact .failure
  | succ fuel ih =>
    have hgo : Follows (repeats.go q fuel) := ⟨ih⟩
    refine .follow fun o ↦ ?_
    cases o with
    | none => exact .pure (by simp)
    | some a => exact .follow fun as ↦ .pure (by simp)

theorem finds_commaListGo {close : String} [Finds p] {fuel : Nat} : Finds (commaList.go close p fuel) := by
  induction fuel with
  | zero => exact ⟨fun _ ↦ .failure⟩
  | succ fuel ih =>
    refine ⟨fun _ ↦ .bind fun _ ↦ .cond (.pure (by simp)) (.bind fun a ↦ .bind fun _ ↦ .cond ?_ ?_)⟩
    · exact .bind fun as ↦ .pure (by simp)
    · exact .bind fun _ ↦ .pure (by simp)

instance finds_commaList {close : String} [Finds p] : Finds (commaList close p) :=
  ⟨fun _ ↦ .bind fun _ ↦ .last (h := finds_commaListGo)⟩

instance follows_atIdentifier : Follows atIdentifier :=
  ⟨fun _ ↦ .follow fun _ ↦ .lastBehind⟩

instance follows_identifier : Follows identifier :=
  ⟨fun _ ↦ .follow fun _ ↦ .follow fun _ ↦ .follow fun _ ↦ .follow fun _ ↦ .pure (by simp)⟩

instance follows_anyName : Follows anyName :=
  ⟨fun _ ↦ .follow fun _ ↦ .follow fun _ ↦ .follow fun _ ↦ .pure (by simp)⟩

instance follows_joinGreater : Follows joinGreater := by
  refine ⟨fun _ ↦ .follow fun _ ↦ .cond (.follow fun c ↦ ?_) (.pure (by simp))⟩
  dsimp only
  split
  · next s hs =>
    refine .lastBehind (h := follows_reread fun cs f hf ↦ ?_)
    obtain rfl := Option.some.inj hf
    have := List.mem_of_find?_eq_some hs
    exact ⟨fun h ↦ absurd h (by simp), by aesop⟩
  · exact .pure (by simp)

instance follows_cutLess : Follows cutLess := by
  refine ⟨fun _ ↦ .follow fun t ↦ .cond (.lastBehind (h := follows_reread fun cs f hf ↦ ?_)) (.pure (by simp))⟩
  obtain rfl := Option.some.inj hf
  exact ⟨fun h ↦ absurd h (by simp), by simp⟩

theorem answers_token : Answers token Token.IsSpelled := by
  intro c t d hc heq
  obtain ⟨rfl, -⟩ := Prod.mk.inj (Option.some.inj heq)
  exact hc.spelled

theorem answers_isReferable : Answers (isReferable t) fun b ↦ b = true → t.isIdentifier = true :=
  .bind fun k ↦ .pure fun h ↦ by
    simp only [Bool.and_eq_true] at h
    exact h.1.1

theorem answers_guarded {b : Bool} : Answers (guarded b) fun _ ↦ b = true := by
  cases b
  · exact .failure
  · exact .pure rfl

theorem answers_identifier : Answers identifier fun name ↦ isIdentifierText name = true :=
  .seq answers_token fun _ ht ↦ .seq answers_isReferable fun _ hb ↦ .seq answers_guarded fun _ hguard ↦
    .bind fun _ ↦ .pure (Token.isIdentifierText_of_isIdentifier ht (hb hguard))

omit [Located α] in
theorem answers_within {change : Context → Context} {P : α → Prop} (hp : Answers p P) :
    Answers (within change p) P := by
  intro c a d hc heq
  obtain ⟨e, ha, -⟩ := within_eq_some heq
  exact hp (sound_context hc (change c.context)) ha

theorem answers_commaList {close : String} [Finds p] {P : α → Prop} (hp : Answers p P) :
    Answers (commaList close p) fun as ↦ ∀ a ∈ as, P a := by
  refine .bind fun c ↦ ?_
  generalize c.size + 2 - c.pos = fuel
  induction fuel with
  | zero => exact .failure
  | succ fuel ih =>
    have hgo : Finds (commaList.go close p fuel) := finds_commaListGo
    refine .bind fun _ ↦ .cond (.pure (by simp)) (.seq hp fun a ha ↦ .bind fun _ ↦ .cond ?_ ?_)
    · exact .seq ih fun as has ↦ .pure (List.forall_mem_cons.2 ⟨ha, has⟩)
    · exact .bind fun _ ↦ .pure (List.forall_mem_singleton.2 ha)

end Parser

namespace Orders

variable {α β : Type} [Located α] [Located β] {p : Parser α} {w : Outset} {l : List Region} {b : Bool}

instance finds_some [Finds p] : Finds (some <$> p) := by
  refine ⟨fun s ↦ ?_⟩
  rw [map_eq_pure_bind]
  exact .bind fun a ↦ .pure (by simp)

instance follows_some [Follows p] : Follows (some <$> p) := by
  refine ⟨fun s ↦ ?_⟩
  rw [map_eq_pure_bind]
  exact .follow fun a ↦ .pure (by simp)

theorem perhaps {f : Option α → Parser β} [Finds p] (hf : ∀ o, Orders w (l ++ places o) (f o))
    (hw : w.low ≤ w.front := by exact le_rfl) :
    Orders w l (have next := f
      if b then (do let a ← some <$> p; next a) else (do let a ← Pure.pure none; next a)) :=
  .cond (.bind hf hw) (.known (by simpa using hf none))

theorem otherwise {f : Option α → Parser β} [Finds p] (hf : ∀ o, Orders w (l ++ places o) (f o))
    (hw : w.low ≤ w.front := by exact le_rfl) :
    Orders w l (have next := f
      if b then (do let a ← Pure.pure none; next a) else (do let a ← some <$> p; next a)) :=
  .cond (.known (by simpa using hf none)) (.bind hf hw)

theorem skip {q : Parser Unit} {f : Unit → Parser β} [Follows q] (hf : Orders w l (f ()))
    (hw : w.low ≤ w.front + 1 := by first | exact le_rfl | exact Nat.le_succ _) :
    Orders w l (have next := f
      if b then (do let r ← q; next r) else next ()) :=
  .cond (.follow (fun _ ↦ by simpa using hf) hw) hf

theorem confirm {q : Parser Bool} {test : Bool → Bool} {f : Unit → Parser β} [Follows q]
    (hf : Orders w l (f ())) (hw : w.low ≤ w.front + 1 := by first | exact le_rfl | exact Nat.le_succ _) :
    Orders w l (have next := f
      if b then (do let a ← q; let r ← Parser.guarded (test a); next r) else next ()) :=
  .cond (.follow (fun _ ↦ .guard fun _ ↦ by simpa using hf) hw) hf

theorem flag {f : Bool → Parser β} (hf : ∀ a, Orders w l (f a))
    (hw : w.low ≤ w.front + 1 := by first | exact le_rfl | exact Nat.le_succ _) :
    Orders w l (have next := f
      if b then (do Parser.next; let a ← Pure.pure true; next a)
      else (do let a ← Pure.pure false; next a)) :=
  .cond (.follow (fun _ ↦ .known (by simpa using hf true)) hw) (.known (hf false))

theorem accessor {b' : Bool} {f : MethodKind → Parser β} (hf : ∀ kind, Orders w l (f kind)) :
    Orders w l (have next := f
      if b then (do let kind ← Pure.pure .getter; next kind)
      else if b' then (do let kind ← Pure.pure .setter; next kind)
      else (do let kind ← Pure.pure .plain; next kind)) :=
  .cond (.known (hf _)) (.cond (.known (hf _)) (.known (hf _)))

end Orders

end Recompose.Script
