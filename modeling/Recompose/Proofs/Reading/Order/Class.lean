import Recompose.Proofs.Reading.Order

namespace Recompose.Script

/-- Whatever a goal answers has its places in order, and a pattern may become a parameter. -/
class FindsGoals (goal : Goals) : Prop where
  finds (g : Goal) : Finds (goal g)
  pattern : Answers (goal .pattern) IsKnown

namespace Parse

open Script.Parser

variable {α : Type} [Located α] {p : Parser α} {goal : Goals} {s : Nat} {l : List Region}

instance finds_enclosed [Finds p] : Finds (enclosed p) :=
  finds_within

instance finds_enclosedType [Finds p] : Finds (enclosedType p) :=
  finds_within

instance finds_inFunction {isAsync isGenerator : Bool} [Finds p] : Finds (inFunction isAsync isGenerator p) :=
  finds_within

instance follows_inFunction {isAsync isGenerator : Bool} [Follows p] :
    Follows (inFunction isAsync isGenerator p) :=
  follows_within

instance stepsOver_inFunction {isAsync isGenerator : Bool} [StepsOver p] :
    StepsOver (inFunction isAsync isGenerator p) :=
  stepsOver_within

instance follows_stringLiteral : Follows stringLiteral := by
  refine ⟨fun _ ↦ .follow fun t ↦ ?_⟩
  split
  · exact .follow fun _ ↦ .pure (by simp)
  · exact .failure

instance follows_parameterModifier {m : Modifiers} : Follows (parameterModifier m) := by
  refine ⟨fun _ ↦ .follow fun t ↦ .follow fun _ ↦ .cond (.follow fun _ ↦ ?_) (.pure (by simp))⟩
  split <;> exact .pure (by simp)

instance follows_parameterModifiers {n : Nat} {m : Modifiers} : Follows (parameterModifiers n m) := by
  induction n generalizing m with
  | zero => exact ⟨fun _ ↦ .pure (by simp)⟩
  | succ n ih =>
    refine ⟨fun _ ↦ .follow fun o ↦ ?_⟩
    split
    · exact .lastBehind
    · exact .pure (by simp)

variable [FindsGoals goal]

instance finds_goal {g : Goal} : Finds (goal g) :=
  FindsGoals.finds g

instance stepsOver_propertyKey : StepsOver (propertyKey goal) := by
  refine stepsOver_token fun t ↦ ?_
  split
  iterate 5
    next hkind =>
    exact stepsOverAt_next (by simp [hkind]) fun _ ↦ .node (by simp [Node.children])
  refine stepsOverAt_of (h := stepsOver_seq fun _ _ ↦ ?_)
  exact .bind fun e ↦ .bind fun _ ↦ .node (by simp [Node.children])

instance finds_typeAfterColon : Finds (typeAfterColon goal) :=
  ⟨fun _ ↦ .bind fun _ ↦ .cond (.bind fun _ ↦ .pure (by simp)) (.pure (by simp))⟩

instance finds_initializer : Finds (initializer goal) :=
  ⟨fun _ ↦ .bind fun _ ↦ .cond (.bind fun _ ↦ .pure (by simp)) (.pure (by simp))⟩

instance finds_bindingElement : Finds (bindingElement goal) := by
  refine ⟨fun _ ↦ .bind fun _ ↦ .bind fun target ↦ .bind fun o ↦ ?_⟩
  split
  · exact .bind fun _ ↦ .node (by simp [Node.children])
  · exact .pure (by simp)

instance finds_restElement : Finds (restElement goal) :=
  ⟨fun _ ↦ .bind fun _ ↦ .bind fun _ ↦ .bind fun target ↦ .bind fun _ ↦ .node (by simp [Node.children])⟩

instance finds_arrayBinding : Finds (arrayBinding goal) := by
  refine ⟨fun _ ↦ .bind fun _ ↦ .bind fun _ ↦ .bind (h := finds_repeats ?_) fun _ ↦ .bind fun _ ↦
    .bind fun _ ↦ .node (by simp [Node.children])⟩
  refine ⟨fun _ ↦ .bind fun _ ↦ .cond (.pure (by simp)) (.bind fun _ ↦ .cond (.pure ?_) ?_)⟩
  · simp [places_plain, Node.children]
  · refine .bind fun _ ↦ .cond (.bind fun _ ↦ .bind fun _ ↦ .bind fun _ ↦ .pure (by simp)) ?_
    exact .bind fun _ ↦ .bind fun _ ↦ .skip (.pure (by simp))

instance finds_bindingField : Finds (bindingField goal) := by
  refine ⟨fun _ ↦ .bind fun _ ↦ .bind fun t ↦ .cond ?_ (.bind fun key ↦ .bind fun _ ↦ .cond ?_ ?_)⟩
  · exact .bind fun _ ↦ .bind fun _ ↦ .bind fun _ ↦ .pure (by simp)
  · exact .bind fun _ ↦ .bind fun _ ↦ .node (by simp [Node.children])
  · refine .bind fun _ ↦ .bind fun _ ↦ .bind fun o ↦ ?_
    split
    · exact .bind fun span ↦ .node (by simp [places_plain, Node.children])
    · exact .bind fun _ ↦ .node (by simp [places_plain, Node.children])

theorem finds_bindingPattern : Finds (bindingPattern goal) := by
  refine ⟨fun _ ↦ .bind fun t ↦ .cond .last (.cond ?_ ?_)⟩
  · exact .bind fun _ ↦ .bind fun _ ↦ .bind fun _ ↦ .node (by simp [Node.children])
  · exact .bind fun name ↦ .node (by simp [Node.children])

theorem isKnown_of_isNone {n : Node} (h : n.simpleName? = none) : IsKnown n := by
  simp [IsKnown, h]

theorem answers_bindingPattern : Answers (bindingPattern goal) IsKnown := by
  refine .bind fun t ↦ .cond ?_ (.cond ?_ (.seq answers_identifier fun name hname ↦ .pure fun x hx ↦ ?_))
  · intro c n d _ heq
    obtain ⟨_, -, heq⟩ := Option.bind_eq_some_iff.1 heq
    obtain ⟨_, -, heq⟩ := Option.bind_eq_some_iff.1 heq
    obtain ⟨_, -, heq⟩ := Option.bind_eq_some_iff.1 heq
    obtain ⟨rfl, -⟩ := Prod.mk.inj (Option.some.inj heq)
    exact isKnown_of_isNone rfl
  · exact .bind fun _ ↦ .bind fun _ ↦ .bind fun _ ↦ .pure (isKnown_of_isNone rfl)
  · exact Option.some.inj hx ▸ hname

instance finds_typeParameter : Finds (typeParameter goal) := by
  refine ⟨fun _ ↦ .bind fun _ ↦ .bind (h := finds_repeats ?_) fun _ ↦ .bind fun _ ↦ .bind fun _ ↦
    .perhaps fun bound ↦ .bind fun _ ↦ .perhaps fun default ↦ .bind fun _ ↦
      .node (by simp [Node.children])⟩
  exact ⟨fun _ ↦ .bind fun _ ↦ .bind fun _ ↦ .cond (.bind fun _ ↦ .pure (by simp)) (.pure (by simp))⟩

instance follows_typeParameters : Follows (typeParameters goal) :=
  ⟨fun _ ↦ orders_eat (.bind fun _ ↦ .bind fun _ ↦ .pure (by simp)) (.pure (by simp))⟩

instance follows_decorators : Follows (decorators goal) :=
  follows_repeats ⟨fun _ ↦ orders_eat (.bind fun _ ↦ .pure (by simp)) (.pure (by simp))⟩

instance finds_parameter : Finds (parameter goal) := by
  refine ⟨fun _ ↦ .bind fun _ ↦ .bind fun decs ↦ .bind fun _ ↦ .bind fun rest ↦ .bind fun target ↦
    .bind fun _ ↦ .bind fun type ↦ ?_⟩
  extract_lets next
  have hnext (s : Nat) (init : Option Node) :
      Orders (.start s) (places decs ++ (places target ++ (places type ++ places init))) (next init) :=
    .confirm (.bind fun _ ↦ .node (by simp [Node.children]))
  exact .cond (.known (by simpa using hnext _ none)) (.bind fun init ↦ by simpa using hnext _ init)

theorem answers_parameter : Answers (parameter goal) IsParameter := by
  refine .bind fun _ ↦ .bind fun _ ↦ .bind fun _ ↦ .bind fun rest ↦ .seq FindsGoals.pattern fun target htarget ↦
    .bind fun _ ↦ .bind fun _ ↦ ?_
  extract_lets next
  have hnext (init : Option Node) : Answers (next init) IsParameter :=
    .cond (.bind fun _ ↦ .bind fun _ ↦ .bind fun _ ↦ .pure htarget) (.bind fun _ ↦ .pure htarget)
  exact .cond (hnext _) (.bind hnext)

instance finds_receiver : Finds (receiver goal) := by
  refine ⟨fun _ ↦ .bind fun t ↦ .cond (.bind fun _ ↦ .bind fun type ↦ .bind fun span ↦ .bind fun _ ↦
    .skip (.pure ?_)) (.pure (by simp))⟩
  simp [places_plain, Node.children]

instance stepsOver_parameters : StepsOver (parameters goal) :=
  stepsOver_seq fun _ _ ↦ .bind fun this ↦ .bind fun params ↦ .pure (by simp)

theorem answers_parameters : Answers (parameters goal) fun r ↦ ∀ p ∈ r.2, IsParameter p :=
  .bind fun _ ↦ .bind fun _ ↦ .seq (answers_commaList answers_parameter) fun _ h ↦ .pure h

instance finds_typeArguments : Finds (typeArguments goal) :=
  ⟨fun _ ↦ .bind fun _ ↦ .bind fun _ ↦ .bind fun _ ↦ .bind fun _ ↦ .pure (by simp)⟩

instance finds_typeArgumentsHere : Finds (typeArgumentsHere goal) :=
  ⟨fun _ ↦ .bind fun _ ↦ .cond .last (.pure (by simp))⟩

instance follows_pathRest : Follows pathRest := by
  refine follows_repeats ⟨fun _ ↦ .follow fun _ ↦ .cond (.follow fun _ ↦ .cond ?_ ?_) (.pure (by simp))⟩
  · exact .follow fun _ ↦ .pure (by simp)
  · exact .follow fun _ ↦ .pure (by simp)

instance finds_resultType : Finds (resultType goal) :=
  ⟨fun _ ↦ .bind fun _ ↦ .bind fun _ ↦ .cond
    (.bind fun _ ↦ .bind fun _ ↦ .bind fun _ ↦ .bind fun _ ↦ .node (by simp [Node.children])) .last⟩

instance finds_resultAfterColon : Finds (resultAfterColon goal) :=
  ⟨fun _ ↦ .bind fun _ ↦ .cond .last (.pure (by simp))⟩

theorem places_func {span : Span} {head : FuncHead} {tps params : List Node} {this result : Option Node}
    {body : Node} (h : ∀ p ∈ params, IsParameter p) :
    places (Node.func span head tps this params result body) =
      [.mk span (places tps ++ (places this ++ (places params ++ (places result ++ places body))))] := by
  have hmarks : marks (.func span head tps this params result body) = (some span, []) :=
    congrArg (Prod.mk _) (flaw_eq_nil h)
  rw [places_marked hmarks]
  simp [Node.children]

instance finds_functionType : Finds (functionType goal) := by
  refine ⟨fun _ ↦ .start fun s ↦ .begins (.follow fun _ ↦ .follow fun _ ↦ .follow fun tps ↦
    .stepLearn answers_parameters fun r hr ↦ .bind fun _ ↦ .bind fun result ↦ .close fun span ↦ ?_)⟩
  simp [places_plain, Node.children, places_func hr, flaw, IsSignature]

theorem opens_signature : Orders (.opening s) [] (signature goal s) :=
  .follow fun tps ↦ .stepLearn answers_parameters fun r hr ↦ .bind fun result ↦ .close fun _ ↦ by
    simp [places_func hr, places_plain, Node.children]

instance finds_indexer {mods : Modifiers} : Finds (indexer goal s mods) :=
  ⟨fun _ ↦ .bind fun _ ↦ .bind fun params ↦ .bind fun _ ↦ .bind fun type ↦ .bind fun _ ↦
    .node (by simp [Node.children])⟩

instance follows_opensIndexer : Follows opensIndexer :=
  follows_foresee

instance follows_memberEnd : Follows memberEnd :=
  ⟨fun _ ↦ .follow fun _ ↦ .cond .lastBehind (.pure (by simp))⟩

instance follows_accessorWord {word : String} : Follows (accessorWord word) :=
  ⟨fun _ ↦ .follow fun _ ↦ .cond (.follow fun _ ↦ .cond (.follow fun _ ↦ .pure (by simp))
    (.pure (by simp))) (.pure (by simp))⟩

instance finds_typeMember : Finds (typeMember goal) := by
  refine ⟨fun _ ↦ .start fun s ↦ .bind fun t ↦ ?_⟩
  extract_lets next
  have hnext (n : Node) : Orders (.start s) (places n) (next n) := .bind fun _ ↦ .pure (by simp)
  have hsig (constructs : Bool) : Orders (.start s) [] ((Node.callSig constructs <$> signature goal s) >>= next) := by
    rw [map_eq_pure_bind, bind_assoc]
    refine .resume (.begins opens_signature) fun f ↦ .known (.found (hnext _) ?_)
    simp [places_plain, Node.children]
  refine .cond (.found (hsig false)) (.bind fun _ ↦ .cond (.bind fun _ ↦ .found (hsig true)) ?_)
  refine .bind fun mods ↦ .bind fun _ ↦ .bind fun _ ↦ .cond (.bind fun n ↦ .found (hnext n)) ?_
  refine .bind fun _ ↦ .bind fun _ ↦ .accessor fun kind ↦ .bind fun key ↦ .bind fun optional ↦
    .bind fun _ ↦ .cond ?_ ?_
  · refine .fresh (fun s ↦ opens_signature) fun _ f ↦ .bind fun span ↦ .known (.found (hnext _) ?_)
    simp [places_plain, Node.children]
  · refine .bind fun type ↦ .bind fun span ↦ .known (.found (hnext _) ?_)
    simp [places_plain, Node.children]

instance finds_typeMembers : Finds (typeMembers goal) :=
  ⟨fun _ ↦ .bind fun _ ↦ .last (h := finds_repeats ⟨fun _ ↦ .bind fun _ ↦ .cond (.pure (by simp)) .last⟩)⟩

instance follows_opensMapped : Follows opensMapped :=
  follows_foresee

instance follows_mappedFlag {word : String} : Follows (mappedFlag word) :=
  ⟨fun _ ↦ .follow fun _ ↦ .cond (.follow fun _ ↦ .pure (by simp)) (.follow fun _ ↦ .cond
    (.follow fun _ ↦ .pure (by simp)) (.follow fun _ ↦ .cond (.pure (by simp)) (.pure (by simp))))⟩

instance finds_mappedType : Finds (mappedType goal) :=
  ⟨fun _ ↦ .bind fun _ ↦ .bind fun _ ↦ .bind fun _ ↦ .bind fun _ ↦ .bind fun _ ↦ .bind fun _ ↦
    .bind fun domain ↦ .bind fun _ ↦ .perhaps fun renamed ↦ .bind fun _ ↦ .bind fun _ ↦ .bind fun type ↦
    .bind fun _ ↦ .skip (.bind fun _ ↦ .bind fun _ ↦ .node (by simp [Node.children]))⟩

instance finds_labelledElement : Finds (labelledElement goal) :=
  ⟨fun _ ↦ .bind fun _ ↦ .bind fun _ ↦ .bind fun _ ↦ .bind fun _ ↦ .bind fun _ ↦ .bind fun _ ↦
    .node (by simp [Node.children])⟩

instance follows_labelsElement : Follows labelsElement :=
  follows_foresee

instance finds_tupleElement : Finds (tupleElement goal) := by
  refine ⟨fun _ ↦ .bind fun _ ↦ .bind fun rest ↦ .bind fun _ ↦ .cond (.bind fun _ ↦ .cond ?_ ?_)
    (.bind fun type ↦ .cond ?_ ?_)⟩
  · exact .bind fun _ ↦ .node (by simp [Node.children])
  · exact .pure (by simp)
  · exact .bind fun _ ↦ .node (by simp [Node.children])
  · refine .pure ?_
    unfold tupleElement.optionalElement
    split
    · simp [places_plain, Node.children]
    · simp

instance follows_rereadTemplate : Follows (reread Scan.template?) := by
  refine follows_reread fun cs f hf ↦ ?_
  unfold Scan.template? at hf
  split at hf
  · obtain ⟨_, -, hf⟩ := Option.bind_eq_some_iff.1 hf
    obtain rfl := Option.some.inj hf
    exact ⟨fun h ↦ absurd h (by simp), by simp⟩
  · simp at hf

instance finds_templateParts {tagged : Bool} {hole : Parser α} [Finds hole] :
    Finds (templateParts tagged hole) := by
  refine ⟨fun s ↦ .bind fun c ↦ ?_⟩
  generalize c.size + 2 - c.pos = fuel
  rw [Silent.places_eq_nil, List.append_nil]
  induction fuel generalizing s with
  | zero => exact .failure
  | succ fuel ih =>
    have hgo : Finds (templateParts.go tagged hole fuel) := ⟨ih⟩
    refine .bind fun t ↦ ?_
    split
    · refine .bind fun _ ↦ .bind fun _ ↦ .cond (.pure (by simp)) (.bind fun a ↦ .bind fun _ ↦ .bind fun _ ↦
        .bind fun _ ↦ .bind fun r ↦ .pure (by simp))
    · exact .failure

instance finds_typeName {first : String} : Finds (typeName goal s first) :=
  ⟨fun _ ↦ .bind fun _ ↦ .bind fun _ ↦ .bind fun _ ↦ .node (by simp [Node.children])⟩

instance finds_importType {queried : Bool} : Finds (importType goal s queried) := by
  refine ⟨fun _ ↦ .bind fun _ ↦ .bind fun _ ↦ .bind fun _ ↦ .bind fun _ ↦ ?_⟩
  extract_lets next
  have hnext (s : Nat) (o : Option Node) : Orders (.start s) (places o) (next o) :=
    .bind fun _ ↦ .bind fun _ ↦ .bind fun _ ↦ .bind fun _ ↦ .bind fun _ ↦ .node (by simp [Node.children])
  refine .cond (.bind fun _ ↦ .cond (.known ?_) (.bind fun o ↦ .found (hnext _ o))) (.known ?_)
  all_goals exact .found (hnext _ none)

instance finds_typeQuery : Finds (typeQuery goal) :=
  ⟨fun _ ↦ .bind fun _ ↦ .bind fun _ ↦ .bind fun _ ↦ .cond .last
    (.bind fun _ ↦ .bind fun _ ↦ .bind fun _ ↦ .bind fun _ ↦ .bind fun _ ↦
      .bind fun _ ↦ .node (by simp [Node.children]))⟩

instance finds_assertion : Finds (assertion goal) :=
  ⟨fun _ ↦ .bind fun _ ↦ .bind fun _ ↦ .bind fun _ ↦ .bind fun _ ↦ .bind fun _ ↦ .cond
    (.bind fun _ ↦ .bind fun _ ↦ .node (by simp [Node.children]))
    (.bind fun _ ↦ .node (by simp [Node.children]))⟩

instance finds_primaryType : Finds (primaryType goal) := by
  refine ⟨fun _ ↦ .bind fun t ↦ ?_⟩
  dsimp only
  split
  iterate 3 exact .bind fun _ ↦ .node (by simp [Node.children])
  · exact .bind fun _ ↦ .bind fun _ ↦ .node (by simp [Node.children])
  · split
    · refine .bind fun _ ↦ .bind fun u ↦ .bind fun _ ↦ ?_
      split
      iterate 2 exact .bind fun _ ↦ .node (by simp [Node.children])
      exact .failure
    · exact .bind fun _ ↦ .bind fun _ ↦ .bind fun _ ↦ .bind fun _ ↦ .node (by simp [Node.children])
    · exact .bind fun _ ↦ .bind fun _ ↦ .bind fun _ ↦ .node (by simp [Node.children])
    · exact .bind fun _ ↦ .bind fun _ ↦ .cond (.node (by simp [Node.children]))
        (.bind fun _ ↦ .bind fun _ ↦ .node (by simp [Node.children]))
    · exact .bind fun _ ↦ .cond .last (.bind fun _ ↦ .bind fun _ ↦ .node (by simp [Node.children]))
    · exact .failure
  · refine .cond (.bind fun _ ↦ .node (by simp [Node.children])) (.cond .last (.cond .last
      (.cond (.bind fun _ ↦ .bind fun _ ↦ .bind fun _ ↦ .cond ?_ ?_) ?_)))
    · exact .bind fun _ ↦ .bind fun _ ↦ .bind fun _ ↦ .node (by simp [Node.children])
    · exact .node (by simp [Node.children])
    · exact .bind fun _ ↦ .cond .last (.bind fun _ ↦ .cond (.bind fun _ ↦ .node (by simp [Node.children]))
        (.bind fun _ ↦ .last))
  · exact .failure

theorem resumes_suffixes {fuel : Nat} {type : Node} : Resumes (places type) (suffixes goal s fuel type) := by
  induction fuel generalizing type with
  | zero => exact fun _ ↦ .failure
  | succ fuel ih =>
    refine fun _ ↦ .bind fun _ ↦ .cond (.bind fun _ ↦ .bind fun _ ↦ .cond ?_ ?_) (.cond ?_ (.cond ?_ ?_))
    · exact .bind fun _ ↦ .found (ih _) (by simp [places_plain, Node.children])
    · exact .bind fun _ ↦ .bind fun _ ↦ .bind fun _ ↦ .found (ih _) (by simp [places_plain, Node.children])
    · exact .bind fun _ ↦ .bind fun _ ↦ .found (ih _) (by simp [places_plain, Node.children])
    · exact .bind fun _ ↦ .cond (.pure (by simp))
        (.bind fun _ ↦ .bind fun _ ↦ .found (ih _) (by simp [places_plain, Node.children]))
    · exact .pure (by simp)

instance finds_arrayType : Finds (arrayType goal) := by
  refine ⟨fun _ ↦ .bind fun _ ↦ .bind fun marked ↦ .bind fun type ↦ .bind fun _ ↦
    .found (resumes_suffixes _) ?_⟩
  cases marked <;> simp [places_plain, Node.children]

instance finds_inferType : Finds (inferType goal) := by
  refine ⟨fun _ ↦ .bind fun _ ↦ .bind fun _ ↦ .bind fun _ ↦ .bind (h := finds_attempt (h := ?_))
    fun o ↦ .bind fun _ ↦ .node (by simp [Node.children])⟩
  exact ⟨fun _ ↦ .bind fun _ ↦ .bind fun _ ↦ .bind fun _ ↦ .confirm (.pure (by simp))⟩

instance finds_operatorType : Finds (operatorType goal) :=
  ⟨fun _ ↦ .bind fun _ ↦ .bind fun _ ↦ .cond
    (.bind fun _ ↦ .bind fun _ ↦ .bind fun _ ↦ .node (by simp [Node.children]))
    (.bind fun _ ↦ .cond .last .last)⟩

instance finds_joined {sign : String} {f : TypeForm} {part : Parser Node} [Finds part] :
    Finds (joined sign f part) := by
  refine ⟨fun _ ↦ .bind fun _ ↦ .bind fun leading ↦ .bind fun first ↦ .bind (h := finds_repeats ?_)
    fun more ↦ .ite (fun _ ↦ .bind fun _ ↦ .node (by simp [Node.children])) fun h ↦ .pure ?_⟩
  · exact ⟨fun _ ↦ .bind fun _ ↦ .cond .last (.pure (by simp))⟩
  · obtain rfl : more = [] := by simp_all
    simp

instance finds_unionType : Finds (unionType goal) :=
  finds_joined

instance follows_startsFunctionType : Follows startsFunctionType :=
  ⟨fun _ ↦ .follow fun _ ↦ .cond (.pure (by simp)) (.cond .lastBehind (.cond (.lastBehind (h := follows_foresee))
    (.pure (by simp))))⟩

theorem finds_type : Finds (type goal) := by
  refine ⟨fun _ ↦ .bind fun _ ↦ .cond .last (.bind fun _ ↦ .bind fun check ↦
    .bind fun _ ↦ .bind fun _ ↦ .cond ?_ (.pure (by simp)))⟩
  exact .bind fun _ ↦ .bind fun bound ↦ .bind fun _ ↦ .bind fun yes ↦ .bind fun _ ↦
    .bind fun no ↦ .bind fun _ ↦ .node (by simp [Node.children])

theorem finds_bodyItems {place : Place} {stop : Parser Bool} [Follows stop] :
    Finds (bodyItems goal place stop) := by
  have hfollowing (fuel : Nat) : Finds (bodyItems.following goal place stop fuel) := by
    induction fuel with
    | zero => exact ⟨fun _ ↦ .failure⟩
    | succ fuel ih => exact ⟨fun _ ↦ .bind fun _ ↦ .cond (.pure (by simp))
        (.bind fun _ ↦ .bind fun _ ↦ .pure (by simp))⟩
  refine ⟨fun s ↦ .bind fun c ↦ ?_⟩
  generalize c.size + 2 - c.pos = fuel
  rw [Silent.places_eq_nil, List.append_nil]
  induction fuel generalizing s with
  | zero => exact .failure
  | succ fuel ih =>
    have hleading : Finds (bodyItems.leading goal place stop fuel) := ⟨ih⟩
    refine .bind fun _ ↦ .cond (.pure (by simp)) (.bind fun t ↦ .bind fun n ↦ ?_)
    split
    · exact .bind fun r ↦ .pure (by simp [places_plain, Node.children])
    · exact .bind fun _ ↦ .pure (by simp)

instance finds_codeBlock {place : Place} : Finds (codeBlock goal place) :=
  ⟨fun _ ↦ .bind fun _ ↦ .bind fun _ ↦ .bind (h := finds_bodyItems) fun _ ↦ .bind fun _ ↦
    .bind fun _ ↦ .node (by simp [Node.children])⟩

instance finds_functionBody {isAsync isGenerator : Bool} : Finds (functionBody goal isAsync isGenerator) :=
  finds_inFunction

theorem opens_functionTail {head : FuncHead} {bodiless : Bool} :
    Orders (.opening s) [] (functionTail goal s head bodiless) := by
  refine .follow fun tps ↦ .stepLearn (answers_within answers_parameters) fun r hr ↦ .bind fun result ↦
    .bind fun _ ↦ .cond ?_ ?_
  · exact .bind fun _ ↦ .close fun _ ↦ by simp [places_func hr]
  · exact .bind fun _ ↦ .bind fun _ ↦ .close fun _ ↦ by simp [places_func hr, places_plain, Node.children]

theorem opens_function {form : FuncForm} {declared : Bool} :
    Orders (.opening s) [] (function goal s form declared) := by
  have hown {isAsync isGenerator : Bool} : Follows (function.own form isAsync isGenerator identifier) := by
    unfold function.own
    split
    · exact follows_identifier
    · exact follows_inFunction
  refine .follow fun isAsync ↦ .follow fun _ ↦ .follow fun isGenerator ↦ .follow fun _ ↦ .cond ?_ ?_
  · exact .follow fun _ ↦ .found opens_functionTail
  · exact .known (.found opens_functionTail)

instance stepsOver_arrowBody {isAsync arrowTypes : Bool} : StepsOver (arrowBody goal isAsync arrowTypes) := by
  refine stepsOver_token fun t ↦ stepsOverAt_guard fun h ↦ stepsOverAt_next ?_ fun _ ↦ ?_
  · simp only [Bool.and_eq_true] at h
    exact Token.kind_ne_stop h.1
  · exact .bind fun _ ↦ .cond .last (.bind fun _ ↦ .node (by simp [Node.children]))

theorem opens_bareArrow {isAsync arrowTypes : Bool} {span : Span} {name : String}
    (hname : isIdentifierText name = true) :
    Orders (.opening s) [] (bareArrow goal s isAsync span name arrowTypes) := by
  have hparam : IsParameter (.param span {} false [] (.binding span name) none none) :=
    fun _ h ↦ Option.some.inj h ▸ hname
  refine .step fun body ↦ .close fun _ ↦ ?_
  rw [places_func (List.forall_mem_singleton.2 hparam)]
  simp [places_plain, Node.children]

instance finds_arrow {arrowTypes : Bool} : Finds (arrow goal arrowTypes) := by
  refine ⟨fun _ ↦ .start fun s ↦ .begins (.follow fun _ ↦ .follow fun tps ↦
    .stepLearn (answers_within answers_parameters) fun r hr ↦ .guard fun h ↦
    .bind fun result ↦ .bind fun body ↦ .confirm (.close fun _ ↦ ?_))⟩
  obtain ⟨this, params⟩ := r
  obtain rfl : this = none := by simpa using h
  simp [places_func hr]

instance follows_outlook : Follows outlook :=
  ⟨fun _ ↦ .follow (h := follows_look) fun _ ↦ .pure (by simp)⟩

instance finds_asyncBareArrow {arrowTypes : Bool} : Finds (asyncBareArrow goal arrowTypes) := by
  refine ⟨fun _ ↦ .start fun s ↦ .bind fun _ ↦ .learn answers_token fun t ht ↦ .guard fun hguard ↦
    .bind fun _ ↦ .found (.begins (opens_bareArrow (t.isIdentifierText_of_isIdentifier ht ?_)))⟩
  simp only [Bool.and_eq_true] at hguard
  exact hguard.1.2

instance follows_memberModifier {m : MemberHead} : Follows (memberModifier m) := by
  refine ⟨fun _ ↦ .follow fun t ↦ .follow (h := ?_) fun _ ↦
    .cond (.follow fun _ ↦ .pure (by simp)) (.pure (by simp))⟩
  exact ⟨fun _ ↦ .cond .lastBehind (.cond .lastBehind (.pure (by simp)))⟩

instance follows_memberModifiers {n : Nat} {m : MemberHead} : Follows (memberModifiers n m) := by
  induction n generalizing m with
  | zero => exact ⟨fun _ ↦ .pure (by simp)⟩
  | succ n ih =>
    refine ⟨fun _ ↦ .follow fun o ↦ ?_⟩
    split
    · exact .lastBehind
    · exact .pure (by simp)

instance finds_staticBlock : Finds (staticBlock goal s) := by
  refine ⟨fun _ ↦ .bind fun _ ↦ .bind fun _ ↦ .bind (h := finds_within (h := finds_repeats ?_)) fun _ ↦
    .bind fun _ ↦ .bind fun _ ↦ .node (by simp [Node.children])⟩
  exact ⟨fun _ ↦ .bind fun _ ↦ .cond (.pure (by simp)) .last⟩

theorem orders_methodMember {kind : MethodKind} {mods : Modifiers} {decs : List Node} {key : Node}
    {isAsync isGenerator : Bool} :
    Orders (.opened s) (places decs ++ places key) (methodMember goal s kind mods decs key isAsync isGenerator) :=
  .fresh (fun _ ↦ opens_functionTail) fun _ f ↦ .bind fun _ ↦ .node (by simp [Node.children])

theorem orders_fieldMember {accessor : Bool} {mods : Modifiers} {decs : List Node} {key : Node} :
    Orders (.opened s) (places decs ++ places key) (fieldMember goal s accessor mods decs key) := by
  refine .bind fun type ↦ .bind fun init ↦ .bind fun _ ↦ .close fun _ ↦ ?_
  rw [places_marked rfl]
  simp [Node.children]

instance finds_member : Finds (member goal) := by
  refine ⟨fun _ ↦ .start fun s ↦ .begins (.follow fun decs ↦ .follow fun _ ↦ .follow fun _ ↦
    .cond (.forget .last) ?_)⟩
  refine .follow fun m ↦ .follow fun _ ↦ .follow fun _ ↦ .cond (.forget ?_) ?_
  · exact .bind fun _ ↦ .bind fun _ ↦ .pure (by simp)
  refine .follow fun _ ↦ .follow fun _ ↦ .accessor fun kind ↦ .follow fun _ ↦ .follow fun _ ↦
    .flag fun isAsync ↦ ?_
  refine .follow fun isGenerator ↦ .step fun key ↦ .bind fun optional ↦ .bind fun _ ↦
    .bind fun _ ↦ .bind fun _ ↦ .cond (.bind fun _ ↦ .found orders_methodMember) ?_
  exact .bind fun _ ↦ .cond (.known (.found orders_fieldMember))
    (.bind fun _ ↦ .found orders_fieldMember)

instance finds_members : Finds (members goal) := by
  refine ⟨fun _ ↦ .bind fun _ ↦ .bind (h := finds_repeats ?_) fun ms ↦ .pure (by simp)⟩
  exact ⟨fun _ ↦ .bind fun _ ↦ .cond (.pure (by simp)) (.bind fun _ ↦ .cond (.pure (by simp))
    (.bind fun _ ↦ .pure (by simp)))⟩

theorem places_splitParent (n : Node) : places (splitParent n).1 ++ places (splitParent n).2 = places n := by
  unfold splitParent
  split
  · simp [places_plain, Node.children]
  · simp

instance finds_heritage : Finds (heritage goal) := by
  refine ⟨fun _ ↦ .bind fun n ↦ ?_⟩
  have hn := places_splitParent n
  dsimp only
  refine .ite (fun h ↦ .bind fun ts ↦ .pure ?_) fun _ ↦ .pure (by simpa using hn)
  have hnone : (splitParent n).2 = [] := by simpa using h
  simp [← hn, hnone]

instance follows_className : Follows className :=
  ⟨fun _ ↦ .follow fun _ ↦ .follow fun _ ↦ .cond .lastBehind (.pure (by simp))⟩

theorem resumes_classTail (decs : List Node) {isExpr isAbstract declared : Bool} :
    Resumes (places decs) (classTail goal s decs isExpr isAbstract declared) := by
  have himplemented : Finds (classTail.implementedType goal) :=
    ⟨fun _ ↦ .bind fun _ ↦ .bind fun _ ↦ .last⟩
  refine fun _ ↦ .bind fun _ ↦ .bind fun _ ↦ .bind fun tps ↦ .bind fun _ ↦ ?_
  extract_lets next
  have hnext (s : Nat) (r : Option Node × List Node) :
      Orders (.start s) (places decs ++ (places tps ++ places r)) (next r) := by
    refine .bind fun _ ↦ ?_
    extract_lets last
    have hlast (s : Nat) (ns : List Node) :
        Orders (.start s) (places decs ++ (places tps ++ (places r ++ places ns))) (last ns) :=
      .bind fun ms ↦ .bind fun _ ↦ .node (by simp [Node.children])
    refine .cond (.bind fun first ↦ .bind (h := finds_repeats ?_) fun more ↦ ?_)
      (.known (.found (hlast _ [])))
    · exact ⟨fun _ ↦ .bind fun _ ↦ .cond .last (.pure (by simp))⟩
    · exact .known (.found (hlast _ (first :: more)))
  exact .cond (.bind fun r ↦ .known (.found (hnext _ (some r.1, r.2)))) (.known (.found (hnext _ (none, []))))

end Parse
end Recompose.Script
