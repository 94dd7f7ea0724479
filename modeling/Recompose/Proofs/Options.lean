import Recompose.Options.Json
import Recompose.Proofs.Json

namespace Recompose

namespace Json

theorem mapM_eq_some_map {α β : Type} {f : α → Option β} {g : α → β} {xs : List α}
    (h : ∀ x ∈ xs, f x = some (g x)) : xs.mapM f = some (xs.map g) := by
  induction xs with
  | nil => rfl
  | cons x xs ih =>
    rw [List.forall_mem_cons] at h
    simp [List.mapM_cons, h.1, ih h.2]

theorem toList?_map {α : Type} {read : Json → Option α} {write : α → Json} (xs : List α)
    (h : ∀ x ∈ xs, read (write x) = some x) : toList? read (.array (xs.map write)) = some xs := by
  have hread : ∀ x ∈ xs, (read ∘ write) x = some (id x) := h
  rw [toList?, List.mapM_map, mapM_eq_some_map hread, List.map_id]

theorem filter_key {fields : List (String × Json)} (hnodup : (fields.map (·.1)).Nodup)
    {f : String × Json} (hf : f ∈ fields) :
    (fields.map fun f ↦ (some f.1, f.2)).filter (·.1 == some f.1) = [(some f.1, f.2)] := by
  induction fields with
  | nil => simp at hf
  | cons g fields ih =>
    rw [List.map_cons, List.nodup_cons] at hnodup
    rw [List.map_cons, List.filter_cons]
    obtain rfl | hf := List.mem_cons.1 hf
    · have hnone : (fields.map fun f ↦ (some f.1, f.2)).filter (·.1 == some f.1) = [] := by
        rw [List.filter_eq_nil_iff]
        intro x hx heq
        obtain ⟨f', hf', rfl⟩ := List.mem_map.1 hx
        rw [beq_iff_eq, Option.some.injEq] at heq
        exact hnodup.1 (heq ▸ List.mem_map_of_mem hf')
      rw [if_pos (by simp), hnone]
    · have hne : g.1 ≠ f.1 := fun heq ↦ hnodup.1 (heq ▸ List.mem_map_of_mem hf)
      rw [if_neg (by simpa using hne), ih hnodup.2 hf]

theorem components?_record {names : List String} (fields : List (String × Json))
    (hnames : fields.map (·.1) = names) (hnodup : names.Nodup) :
    components? names (record fields) = some (fields.map fun f ↦ some f.2) := by
  subst hnames
  have hkeys : (fields.map fun f ↦ (some f.1, f.2)).all (·.1.isSome) := by simp
  rw [record, components?, named?, if_pos hkeys, List.mapM_map]
  refine mapM_eq_some_map fun f hf ↦ ?_
  simp only [Function.comp_apply]
  rw [filter_key hnodup hf]

theorem isPlain_array {α : Type} {write : α → Json} {xs : List α} (h : ∀ x, (write x).isPlain) :
    (array (xs.map write)).isPlain := by
  rw [isPlain]
  induction xs with
  | nil => rfl
  | cons x xs ih => rw [List.map_cons, areAllPlain, h x, ih, Bool.and_self]

theorem isPlain_record {fields : List (String × Json)} (h : ∀ f ∈ fields, f.2.isPlain) :
    (record fields).isPlain := by
  rw [record, isPlain]
  induction fields with
  | nil => rfl
  | cons f fields ih =>
    rw [List.forall_mem_cons] at h
    rw [List.map_cons, areFieldsPlain, isFieldPlain, h.1, ih h.2]
    rfl

end Json

open Json

namespace EarlyExitPolicy

theorem ofJson?_toJson (p : EarlyExitPolicy) : ofJson? p.toJson = some p := by
  cases p <;> rfl

end EarlyExitPolicy

namespace PrimitiveKind

theorem ofJson?_toJson (k : PrimitiveKind) : ofJson? k.toJson = some k := by
  cases k <;> rfl

end PrimitiveKind

namespace RuntimeNames

theorem ofList?_toList (n : RuntimeNames) : ofList? n.toList = some n :=
  rfl

theorem ofJson?_toJson (n : RuntimeNames) : ofJson? n.toJson = some n := by
  have hparts : components? fieldNames n.toJson = some (n.toList.map fun s ↦ some (text s)) :=
    components?_record (fieldNames.zip (n.toList.map text)) rfl (by decide)
  have htexts : ((n.toList.map fun s ↦ some (text s)).zip ({} : RuntimeNames).toList).mapM
      (fun p ↦ orElse toText? p.2 p.1) = some n.toList := rfl
  simp only [ofJson?, hparts, htexts, ofList?_toList, Option.bind_eq_bind, Option.bind_some]

end RuntimeNames

theorem toNatBelow?_natural {bound n : Nat} (h : n < bound) :
    toNatBelow? bound (.natural n) = some n := by
  rw [toNatBelow?, if_pos h]

namespace ClosurePosition

def FitsWord : ClosurePosition → Prop
  | index i => i < wordBound
  | _ => True

theorem ofJson?_toJson {p : ClosurePosition} (h : p.FitsWord) : ofJson? p.toJson = some p := by
  cases p with
  | leading => rfl
  | trailing => rfl
  | index i =>
    change (toNatBelow? wordBound (.natural i)).map index = some (index i)
    rw [toNatBelow?_natural h]
    rfl

end ClosurePosition

namespace Primitive

structure FitsWord (p : Primitive) : Prop where
  arity : ∀ n ∈ p.arity, n < wordBound
  closures : ∀ c ∈ p.closures, c.FitsWord

theorem arityOfJson?_arityToJson {arity : Option Nat} (h : ∀ n ∈ arity, n < wordBound) :
    arityOfJson? (arityToJson arity) = some arity := by
  cases arity with
  | none => rfl
  | some n =>
    change (toNatBelow? wordBound (.natural n)).map some = some (some n)
    rw [toNatBelow?_natural (h n rfl)]
    rfl

theorem ofJson?_toJson {p : Primitive} (h : p.FitsWord) : ofJson? p.toJson = some p := by
  have hparts : components? fieldNames p.toJson = some [some (text p.name), some (arityToJson p.arity),
      some p.kind.toJson, some (.array (p.closures.map ClosurePosition.toJson))] :=
    components?_record _ rfl (by decide)
  have hclosures := toList?_map _ fun c hc ↦ ClosurePosition.ofJson?_toJson (h.closures c hc)
  have hname : toText? (text p.name) = some p.name := rfl
  simp only [ofJson?, hparts, orElse, hname, arityOfJson?_arityToJson h.arity,
    PrimitiveKind.ofJson?_toJson, hclosures, Option.bind_eq_bind, Option.bind_some]

end Primitive

namespace Options

structure FitsWord (o : Options) : Prop where
  hashWidth : o.hashWidth < 4294967296
  primitives : ∀ p ∈ o.primitives, p.FitsWord

theorem ofJson?_toJson {o : Options} (h : o.FitsWord) : ofJson? o.toJson = some o := by
  have hparts : components? fieldNames o.toJson = some [some (text o.filePath),
      some (.natural o.hashWidth), some o.earlyExitPolicy.toJson, some o.runtime.toJson,
      some (text o.runtimeModule), some (text o.builderModule), some (.bool o.emitImports),
      some (.array (o.primitives.map Primitive.toJson)),
      some (.array (o.externalMemoFunctions.map text))] :=
    components?_record _ rfl (by decide)
  have htext (s : String) : toText? (text s) = some s := rfl
  have hbool (b : Bool) : toBool? (.bool b) = some b := rfl
  have hprimitives := toList?_map _ fun p hp ↦ Primitive.ofJson?_toJson (h.primitives p hp)
  have hexternal := toList?_map o.externalMemoFunctions fun s _ ↦ htext s
  simp only [ofJson?, hparts, orElse, htext, hbool, toNatBelow?_natural h.hashWidth,
    EarlyExitPolicy.ofJson?_toJson, RuntimeNames.ofJson?_toJson, hprimitives, hexternal,
    Option.bind_eq_bind, Option.bind_some]

theorem read_toJson {o : Options} (h : o.FitsWord) :
    read o.toJson = if minHashWidth ≤ o.hashWidth ∧ o.hashWidth ≤ maxHashWidth then .ok o
      else .error (.hashWidth o.hashWidth) := by
  rw [read, ofJson?_toJson h]
  simp only [validate]
  split <;> rfl

theorem isPlain_toJson (o : Options) : o.toJson.isPlain := by
  have htext (s : String) : (text s).isPlain := rfl
  have hposition (c : ClosurePosition) : c.toJson.isPlain := by cases c <;> rfl
  have hprimitive (p : Primitive) : p.toJson.isPlain := by
    obtain ⟨name, arity, kind, closures⟩ := p
    refine isPlain_record (List.forall_mem_cons.2 ⟨htext name, List.forall_mem_cons.2 ⟨?_,
      List.forall_mem_cons.2 ⟨?_, List.forall_mem_singleton.2 (isPlain_array hposition)⟩⟩⟩)
    · cases arity <;> rfl
    · cases kind <;> rfl
  have hpolicy : o.earlyExitPolicy.toJson.isPlain := by cases o.earlyExitPolicy <;> rfl
  have hwidth : (natural o.hashWidth).isPlain := rfl
  have hruntime : o.runtime.toJson.isPlain := rfl
  have himports : (Json.bool o.emitImports).isPlain := rfl
  refine isPlain_record ?_
  simp only [List.forall_mem_cons, htext, hpolicy, hwidth, hruntime, himports,
    isPlain_array hprimitive, isPlain_array htext, List.not_mem_nil, false_imp_iff, implies_true, and_self]

theorem parse_of_parse? {o : Options} (h : o.FitsWord) {source : String}
    (hsource : Json.parse? source = some o.toJson) :
    parse source = if 8 ≤ o.hashWidth ∧ o.hashWidth ≤ 53 then .ok o
      else .error (.hashWidth o.hashWidth) := by
  rw [parse, hsource]
  exact read_toJson h

/-- Written options are read back, unless the width of their offsets is refused. Any other text that
spells them is read alike. -/
theorem parse_compact_toJson (o : Options) (h : o.FitsWord) :
    (parse o.toJson.compact = if 8 ≤ o.hashWidth ∧ o.hashWidth ≤ 53 then .ok o
      else .error (.hashWidth o.hashWidth)) ∧
    ∀ source, Json.parse? source = some o.toJson → parse source = parse o.toJson.compact := by
  have hcompact := parse_of_parse? h (parse?_compact (isPlain_toJson o))
  exact ⟨hcompact, fun source hsource ↦ (parse_of_parse? h hsource).trans hcompact.symm⟩

def cardOptions (hashWidth : Nat) : Options where
  filePath := "src/\"cards\"\n\x01.ts"
  hashWidth := hashWidth
  earlyExitPolicy := .leaveUntouched
  primitives := [⟨"Card.create", some 2, .builder, [.trailing, .index 0]⟩, ⟨"Deck", none, .conditionScope, []⟩]
  externalMemoFunctions := ["Card"]

theorem parse_compact_cardOptions :
    ((cardOptions 20).FitsWord ∧ parse (cardOptions 20).toJson.compact = .ok (cardOptions 20)) ∧
      (cardOptions 60).FitsWord ∧
        parse (cardOptions 60).toJson.compact = .error (.hashWidth 60) := by
  have hprimitives : ∀ p ∈ (cardOptions 0).primitives, p.FitsWord := by
    refine List.forall_mem_cons.2 ⟨⟨by decide, ?_⟩, List.forall_mem_singleton.2 ⟨by decide, ?_⟩⟩
    · exact List.forall_mem_cons.2 ⟨trivial, List.forall_mem_singleton.2 (by decide : 0 < wordBound)⟩
    · simp
  have hnarrow : (cardOptions 20).FitsWord := ⟨by decide, hprimitives⟩
  have hwide : (cardOptions 60).FitsWord := ⟨by decide, hprimitives⟩
  exact ⟨⟨hnarrow, (parse_compact_toJson _ hnarrow).1⟩, hwide, (parse_compact_toJson _ hwide).1⟩

end Options

end Recompose
