import Recompose.Proofs.Reading.Order.Class

namespace Recompose.Script.Parse

open Text Script.Parser

variable {goal : Goals} {s : Nat}

theorem places_simpleTarget {e e' : Expr} (h : simpleTarget? e = some e') : places e' = places e := by
  fun_induction simpleTarget? e with
  | case1 span e ih => simp [ih h, places_plain, Node.children]
  | case7 => simp at h
  | _ =>
    obtain rfl := Option.some.inj h
    rfl

def Recovers {α : Type} [Located α] (l : List Region) (a : Convert α) : Prop :=
  ∀ covers r, a covers = some r → places r.1 = l

section

variable {α β : Type} [Located α] [Located β] {a : Convert α} {f : α → Convert β} {l k : List Region}

theorem recovers_pure {r : α} (h : places r = l) : Recovers l (pure r) := by
  intro covers r' hr
  obtain rfl := Option.some.inj hr
  exact h

theorem recovers_bind (ha : Recovers l a) (hf : ∀ r, places r = l → Recovers k (f r)) :
    Recovers k (a >>= f) := by
  intro covers r hr
  obtain ⟨⟨b, covers'⟩, hb, hr⟩ := Option.bind_eq_some_iff.1 hr
  exact hf b (ha _ _ hb) _ _ hr

theorem recovers_lift {o : Option α} (h : ∀ r, o = some r → places r = l) : Recovers l (liftM o) := by
  intro covers r hr
  obtain ⟨b, hb, hr⟩ := Option.bind_eq_some_iff.1 hr
  obtain rfl := Option.some.inj hr
  exact h b hb

end

/-- The conversion of every expression in a node keeps what it holds. -/
def Recoverable (e : Expr) : Prop :=
  e.Everywhere fun m ↦ Recovers (places m) (target m)

theorem recovers_targets {es : List Expr} (hes : ∀ e ∈ es, Recoverable e) :
    Recovers (places es) (targets es) := by
  induction es with
  | nil => exact recovers_pure rfl
  | cons e es ih =>
    obtain ⟨he, hes'⟩ := List.forall_mem_cons.1 hes
    have htail := ih hes'
    unfold targets
    split
    · next heq => simp at heq
    · next span inner heq =>
      obtain ⟨rfl, rfl⟩ := List.cons.inj heq
      refine recovers_bind (Node.Everywhere.part he (by simp [Node.children])).self fun n hn ↦ recovers_pure ?_
      simp [places_plain, Node.children, hn]
    · next span es' heq =>
      obtain ⟨rfl, rfl⟩ := List.cons.inj heq
      exact recovers_bind htail fun ns hns ↦ recovers_pure (by simp [places_plain, Node.children, hns])
    · next span t v es' heq =>
      obtain ⟨rfl, rfl⟩ := List.cons.inj heq
      exact recovers_bind htail fun ns hns ↦ recovers_pure (by simp [places_plain, Node.children, hns])
    · next heq =>
      obtain ⟨rfl, rfl⟩ := List.cons.inj heq
      refine recovers_bind he.self fun n hn ↦ recovers_bind htail fun ns hns ↦ ?_
      exact recovers_pure (by simp [hn, hns])

theorem recovers_targetFields {ps : List Node} (hps : ∀ p ∈ ps, Recoverable p) :
    Recovers (places ps) (targetFields ps) := by
  induction ps with
  | nil => exact recovers_pure rfl
  | cons p ps ih =>
    obtain ⟨hp, hps'⟩ := List.forall_mem_cons.1 hps
    have htail := ih hps'
    unfold targetFields
    split
    · next heq => simp at heq
    · next span inner heq =>
      obtain ⟨rfl, rfl⟩ := List.cons.inj heq
      refine recovers_bind (Node.Everywhere.part hp (by simp [Node.children])).self fun n hn ↦ recovers_pure ?_
      simp [places_plain, Node.children, hn]
    · next span key place t v shorthand ps' heq =>
      obtain ⟨rfl, rfl⟩ := List.cons.inj heq
      have hrest : Recovers (places (Node.pair span key (.assign place .plain t v) shorthand :: ps))
          (targetFields ps >>= fun ns ↦ pure (.fieldPattern span key (.withDefault place t v) shorthand :: ns)) :=
        recovers_bind htail fun ns hns ↦ recovers_pure (by simp [places_plain, Node.children, hns])
      cases shorthand
      · exact hrest
      · intro covers r hr
        exact hrest _ _ hr
    · next span key e shorthand ps' _ heq =>
      obtain ⟨rfl, rfl⟩ := List.cons.inj heq
      refine recovers_bind (Node.Everywhere.part hp (by simp [Node.children])).self fun n hn ↦
        recovers_bind htail fun ns hns ↦ recovers_pure ?_
      simp [places_plain, Node.children, hn, hns]
    · intro covers r hr
      simp [failure, StateT.failure] at hr

theorem recoverable (e : Expr) : Recoverable e := by
  induction e using Node.induction_on_parts with
  | step e ih =>
    refine Node.everywhere_iff.2 ⟨?_, ih⟩
    unfold target
    split
    · exact recovers_bind (recovers_targets ih) fun ns hns ↦
        recovers_pure (by simpa [places_plain, Node.children] using hns)
    · exact recovers_bind (recovers_targetFields ih) fun ns hns ↦
        recovers_pure (by simpa [places_plain, Node.children] using hns)
    · exact recovers_bind (recovers_lift fun r hr ↦ places_simpleTarget hr) fun n hn ↦
        recovers_pure (by simpa [places_plain, Node.children] using hn)

theorem resumes_asTarget {e : Expr} : Resumes (places e) (asTarget e) := by
  refine fun _ ↦ .bind fun c ↦ .lift fun r hr ↦ ?_
  have hr := (recoverable e).self _ _ hr
  exact .follow (h := follows_modify fun _ ↦ ⟨rfl, rfl, rfl⟩) fun _ ↦ .pure (by simp [hr])

theorem places_markPure (e : Expr) : places (markPure e) = places e := by
  induction e using markPure.induct with
  | case3 _ _ _ _ ih | case4 _ _ _ _ ih | case5 _ _ _ ih => simp [markPure, places_plain, Node.children, ih]
  | case7 e => rw [markPure] <;> assumption
  | _ => simp [markPure, places_plain, Node.children]

theorem places_head {span : Span} {head head' : FuncHead} {tps params : List Node}
    {this result : Option Node} {body : Node} :
    places (Node.func span head tps this params result body) =
      places (Node.func span head' tps this params result body) := by
  rw [places_eq, places_eq]
  rfl

theorem places_markEffectFree (e : Node) : places (markEffectFree e) = places e := by
  unfold markEffectFree
  split
  · exact places_head
  · rfl

theorem places_keepParens (e : Expr) : places (keepParens e) = places e := by
  unfold keepParens
  split
  · exact places_head
  · rfl

variable [FindsGoals goal]

instance finds_spread : Finds (spread goal) :=
  ⟨fun _ ↦ .bind fun _ ↦ .bind fun _ ↦ .bind fun _ ↦ .bind fun _ ↦ .node (by simp [Node.children])⟩

instance finds_argument : Finds (argument goal) :=
  ⟨fun _ ↦ .bind fun _ ↦ .cond .last .last⟩

instance finds_arguments : Finds (arguments goal) :=
  ⟨fun _ ↦ .bind fun _ ↦ .last⟩

instance finds_arrayLiteral : Finds (arrayLiteral goal) := by
  refine ⟨fun _ ↦ .bind fun _ ↦ .bind fun _ ↦ .bind (h := finds_within (h := finds_repeats ?_)) fun _ ↦
    .bind fun _ ↦ .node (by simp [Node.children])⟩
  refine ⟨fun _ ↦ .bind fun _ ↦ .cond (.pure (by simp)) (.bind fun _ ↦ .cond ?_ ?_)⟩
  · exact .bind fun t ↦ .bind fun _ ↦ .pure (by simp [places_plain, Node.children])
  · exact .bind fun _ ↦ .bind fun _ ↦ .skip (.pure (by simp))

theorem resumes_objectMethod {kind : MethodKind} {key : Node} {isAsync isGenerator : Bool} :
    Resumes (places key) (objectMethod goal s kind key isAsync isGenerator) :=
  fun _ ↦ .fresh (fun _ ↦ opens_functionTail) fun _ f ↦ .bind fun _ ↦ .node (by simp [Node.children])

theorem resumes_shorthandProperty {t : Token} {key : Node} (ht : t.IsSpelled) :
    Resumes (places key) (shorthandProperty goal t key) := by
  refine fun _ ↦ .learn answers_isReferable fun _ hb ↦ .guard fun hguard ↦ ?_
  have hname := t.isIdentifierText_of_isIdentifier ht (hb hguard)
  refine .bind fun _ ↦ .cond (.bind fun e ↦ .bind fun span ↦ ?_) ?_
  · exact .follow (h := follows_modify fun _ ↦ ⟨rfl, rfl, rfl⟩) fun _ ↦
      .node (by simp [places_plain, Node.children, places_ref hname])
  · exact .node (by simp [Node.children, places_ref hname])

instance finds_property : Finds (property goal) := by
  refine ⟨fun _ ↦ .learn answers_token fun t ht ↦ .cond ?_ ?_⟩
  · exact .bind fun _ ↦ .bind fun _ ↦ .bind fun _ ↦ .node (by simp [Node.children])
  refine .bind fun _ ↦ .bind fun _ ↦ .accessor fun kind ↦ .bind fun _ ↦ .flag fun isAsync ↦ ?_
  refine .bind fun isGenerator ↦ .bind fun key ↦ .bind fun _ ↦ .cond (.found (resumes_objectMethod _)) ?_
  exact .bind fun _ ↦ .cond (.bind fun _ ↦ .bind fun _ ↦ .node (by simp [Node.children]))
    (.found (resumes_shorthandProperty ht _))

instance finds_objectLiteral : Finds (objectLiteral goal) :=
  ⟨fun _ ↦ .bind fun _ ↦ .bind fun _ ↦ .bind fun _ ↦ .bind fun _ ↦ .node (by simp [Node.children])⟩

instance finds_parenthesised : Finds (parenthesised goal) :=
  ⟨fun _ ↦ .bind fun _ ↦ .bind fun _ ↦ .bind fun _ ↦ .bind fun _ ↦ .bind fun _ ↦
    .node (by simp [Node.children, places_keepParens])⟩

instance finds_template : Finds (template goal) :=
  ⟨fun _ ↦ .bind fun _ ↦ .bind fun _ ↦ .bind fun _ ↦ .node (by simp [Node.children])⟩

instance finds_importExpression : Finds (importExpression goal) := by
  refine ⟨fun _ ↦ .bind fun s ↦ .bind fun _ ↦ ?_⟩
  extract_lets called
  have hcalled (phase : Option String) : Finds (called phase) :=
    ⟨fun _ ↦ .bind fun _ ↦ .bind fun _ ↦ .bind fun _ ↦ .node (by simp [Node.children])⟩
  exact .bind fun _ ↦ .cond (.bind fun _ ↦ .cond (.bind fun _ ↦ .node (by simp [Node.children]))
    (.cond .last .failure)) .last

instance finds_construction : Finds (construction goal) := by
  refine ⟨fun _ ↦ .bind fun _ ↦ .bind fun _ ↦ .bind fun _ ↦ .cond ?_ (.bind fun callee ↦ ?_)⟩
  · exact .bind fun _ ↦ .bind fun _ ↦ .bind fun _ ↦ .node (by simp [Node.children])
  have hcallee := places_splitParent callee
  dsimp only
  refine .bind fun _ ↦ .cond (.bind fun args ↦ ?_) (.known ?_)
  · exact .bind fun _ ↦ .node (by simp [Node.children, ← hcallee])
  · exact .bind fun _ ↦ .node (by simp [Node.children, ← hcallee])

theorem length_regexBody {inClass : Bool} {acc source cs rest : List Char}
    (h : Scan.regexBody? inClass acc cs = some (source, rest)) : rest.length < cs.length := by
  fun_induction Scan.regexBody? inClass acc cs <;> grind

instance follows_rereadRegex : Follows (reread Scan.regex?) := by
  refine follows_reread fun cs f hf ↦ ?_
  unfold Scan.regex? at hf
  split at hf
  · next c body =>
    obtain ⟨⟨source, rest⟩, hbody, hf⟩ := Option.bind_eq_some_iff.1 hf
    obtain ⟨⟨flags, rest'⟩, hflags, hf⟩ := Option.bind_eq_some_iff.1 hf
    obtain rfl := Option.some.inj hf
    have hbody := length_regexBody hbody
    have hrest : rest'.length ≤ rest.length := by
      unfold Scan.flags? at hflags
      have := Scan.length_span_le isNamePart rest
      grind
    refine ⟨fun h ↦ absurd h (by simp), fun _ ↦ Scan.upTo_ne_nil ?_⟩
    simp only [List.length_cons]
    omega
  · simp at hf

instance finds_primary : Finds (primary goal) := by
  have href {span : Span} : Finds (do let name ← identifier; return Node.ref span name) :=
    ⟨fun _ ↦ .learn answers_identifier fun _ hname ↦ .node (by simp [Node.children]) (congrArg (Prod.mk _) (flaw_eq_nil hname))⟩
  refine ⟨fun _ ↦ .token fun t ↦ ?_⟩
  split
  iterate 3 exact .bind fun _ ↦ .node (by simp [Node.children])
  · exact .last
  · split
    · exact .last
    · exact .last
    · exact .last
    iterate 2
      refine .bind fun _ ↦ .bind fun u ↦ ?_
      split
      · exact .bind fun _ ↦ .node (by simp [Node.children])
      · exact .failure
    · exact .bind fun _ ↦ .found (resumes_classTail _ _)
    · exact .bind fun _ ↦ .cond .last .failure
    · exact .failure
  · refine .cond .last ?_
    split
    · exact .bind fun _ ↦ .node (by simp [Node.children])
    · exact .bind fun _ ↦ .bind fun _ ↦ .bind fun _ ↦ .node (by simp [Node.children])
    iterate 3 exact .bind fun _ ↦ .node (by simp [Node.children])
    · exact .begins opens_function
    · exact .found (resumes_classTail [] _)
    · exact .last
    · exact .last
    · exact .bind fun _ ↦ .cond (.begins (.found opens_function)) .last
  · exact .failure

instance finds_typeArgumentsInExpr : Finds (typeArgumentsInExpr goal) := by
  refine finds_attempt (h := ⟨fun _ ↦ .bind fun t ↦ .bind fun _ ↦ .bind fun ts ↦ .bind fun u ↦ ?_⟩)
  exact .cond (.pure (by simp)) (.cond .failure (.bind fun _ ↦ .bind fun _ ↦ .pure (by simp)))

theorem resumes_tagged {tag : Node} : Resumes (places tag) (tagged goal tag) := by
  have htag := places_splitParent tag
  unfold tagged
  dsimp only
  exact fun _ ↦ .bind fun r ↦ .bind fun _ ↦ .node (by simp [Node.children, ← htag])

noncomputable instance : Located Chain where
  places x := places x.node

theorem resumes_memberRest {links : Bool} {fuel : Nat} {x : Chain} :
    Resumes (places x.node) (memberRest goal links fuel x) := by
  induction fuel generalizing x with
  | zero => exact fun _ ↦ .failure
  | succ fuel ih =>
    refine fun _ ↦ .bind fun t ↦ .bind fun _ ↦ .skip (.bind fun u ↦ .cond (.skip ?_) ?_)
    · exact .bind fun _ ↦ .bind fun _ ↦ .bind fun _ ↦ .bind fun _ ↦
        .found (ih _) (by simp [places_plain, Node.children])
    · refine .bind fun _ ↦ .cond (.bind fun _ ↦ .bind fun e ↦ .bind fun _ ↦ .bind fun _ ↦
        .found (ih _) (by simp [places_plain, Node.children])) (.cond ?_ (.cond ?_ (.bind fun o ↦ ?_)))
      · exact .bind fun _ ↦ .resume (.found (resumes_tagged _)) fun n ↦ ih (x := ⟨n, _⟩) _
      · exact .bind fun _ ↦ .bind fun _ ↦ .found (ih _) (by simp [places_plain, Node.children])
      · split
        · exact .bind fun _ ↦ .found (ih _) (by simp [places_plain, Node.children])
        · exact .pure (by simp; rfl)

theorem resumes_call {callee : Node} {optional : Bool} {types : List Node} (h : optional = false → types = []) :
    Resumes (places callee ++ places types) (call goal callee optional types) := by
  unfold call
  extract_lets s
  split
  next callee' types' heq =>
  have hr : places (callee', types') = places callee ++ places types := by
    have hcallee := places_splitParent callee
    rw [← heq]
    cases optional
    · obtain rfl := h rfl
      simp only [Bool.false_eq_true, if_false]
      split
      all_goals next hsplit => simpa [hsplit] using hcallee
    · rfl
  intro _
  refine .bind fun args ↦ .bind fun _ ↦ .node ?_
  rw [← hr]
  simp [Node.children]

theorem resumes_callRest {fuel : Nat} {x : Chain} : Resumes (places x.node) (callRest goal fuel x) := by
  induction fuel generalizing x with
  | zero => exact fun _ ↦ .failure
  | succ fuel ih =>
    refine fun _ ↦ .bind fun c ↦ .resume (.found (resumes_memberRest _)) fun y ↦ .bind fun _ ↦ .ite ?_ ?_
    · refine fun _ ↦ .bind fun o ↦ .resume (.found (resumes_call (by simp) _) ?_) fun n ↦ ih (x := ⟨n, _⟩) _
      cases o <;> simp <;> rfl
    · refine fun _ ↦ .bind fun _ ↦ .cond (.resume (.found (resumes_call (by simp) _) ?_) fun n ↦ ih (x := ⟨n, _⟩) _) ?_
      · simp
        rfl
      · exact .pure (by simp)

theorem resumes_closeChain {x : Chain} : Resumes (places x.node) (closeChain x) := by
  refine fun _ ↦ .cond ?_ (.pure rfl)
  split
  · next span e ts heq => exact .node (by simp [places_plain, Node.children, heq])
  · exact .bind fun _ ↦ .node (by simp [Node.children])

theorem finds_operand : Finds (operand goal) :=
  ⟨fun _ ↦ .bind fun e ↦ .bind fun _ ↦ .resume (.found (resumes_callRest _)) fun x ↦ resumes_closeChain _⟩

theorem finds_constructed : Finds (constructed goal) :=
  ⟨fun _ ↦ .bind fun e ↦ .bind fun _ ↦ .resume (.found (resumes_memberRest _)) fun x ↦ .bind fun _ ↦
    .bind fun _ ↦ .pure (by simp; rfl)⟩

instance finds_update : Finds (update goal) := by
  refine ⟨fun _ ↦ .bind fun t ↦ .cond (.bind fun _ ↦ .bind fun e ↦ .lift fun e' he' ↦ .bind fun _ ↦ ?_) ?_⟩
  · exact .node (by simp [Node.children, places_simpleTarget he'])
  · refine .bind (h := finds_operand) fun e ↦ .bind fun _ ↦ .cond (.lift fun e' he' ↦ .bind fun _ ↦
      .bind fun _ ↦ .node ?_) (.pure (by simp))
    simp [Node.children, places_simpleTarget he']

instance finds_constType {t : Token} : Finds (constType t) :=
  ⟨fun _ ↦ .cond (.bind fun _ ↦ .pure (by simp [places_plain, Node.children])) (.pure (by simp))⟩

instance finds_ascribedType : Finds (ascribedType goal) := by
  refine ⟨fun _ ↦ .bind fun t ↦ .bind fun o ↦ ?_⟩
  split
  · exact .pure (by simp)
  · exact .last

instance finds_unary : Finds (unary goal) := by
  refine ⟨fun _ ↦ .tokenAt fun t ↦ ?_⟩
  dsimp only
  split
  · exact .of_orders (.bind fun _ ↦ .bind fun _ ↦ .bind fun _ ↦ .bind fun _ ↦ .bind fun _ ↦
      .node (by simp [Node.children]))
  · refine .stay stays_read fun _ ↦ .cond (fun _ ↦ .of_orders (.bind fun _ ↦ .bind fun type ↦ .bind fun _ ↦
      .bind fun _ ↦ .bind fun _ ↦ .bind fun _ ↦ .bind fun _ ↦ .node (by simp [Node.children]))) ?_
    refine .stay stays_read fun _ ↦ .cond (fun h ↦ ?_) (.of_orders .last)
    have ht : t.is "await" = true := (Bool.and_eq_true_iff.1 h).1
    refine .begins (.step (stepsOverAt_pass (Token.kind_ne_stop ht)) fun _ ↦ .bind fun _ ↦ .bind fun _ ↦
      .bind fun _ ↦ .close fun _ ↦ ?_)
    simp [places_marked, Node.children]

theorem resumes_binaryRest {level : Level} {fuel : Nat} {left : Node} :
    Resumes (places left) (binaryRest goal level fuel left) := by
  induction fuel generalizing left with
  | zero => exact fun _ ↦ .failure
  | succ fuel ih =>
    refine fun _ ↦ .bind fun _ ↦ .bind fun t ↦ ?_
    dsimp only
    split
    · exact .pure (by simp)
    · next l _ =>
      refine .bind fun _ ↦ .cond (.pure (by simp)) (.cond (.cond (.pure (by simp)) ?_) ?_)
      · refine .bind fun _ ↦ .bind fun type ↦ .bind fun _ ↦ .found (ih _) ?_
        split <;> simp [places_plain, Node.children]
      · refine .bind fun _ ↦ .bind fun right ↦ .bind fun span ↦ ?_
        split
        · exact .bind fun _ ↦ .found (ih _) (by simp [places_plain, Node.children])
        · split
          · exact .found (ih _) (by simp [places_plain, Node.children])
          · exact .failure

theorem finds_binary {level : Level} : Finds (binary goal level) := by
  refine ⟨fun _ ↦ .bind fun t ↦ ?_⟩
  extract_lets next
  have hnext (s : Nat) (left : Node) : Orders (.start s) (places left) (next left) :=
    .bind fun _ ↦ .found (resumes_binaryRest _)
  refine .cond (.bind fun _ ↦ .bind fun _ ↦ .bind fun _ ↦ .bind fun _ ↦ ?_) (.bind fun left ↦ ?_)
  · exact .known (.found (hnext _ _) (by simp [places_plain, Node.children]))
  · exact .found (hnext _ left)

theorem resumes_conditionalRest {arrowTypes : Bool} {test : Node} :
    Resumes (places test) (conditionalRest goal arrowTypes test) :=
  fun _ ↦ .bind fun _ ↦ .cond (.bind fun _ ↦ .bind fun _ ↦ .bind fun _ ↦ .bind fun _ ↦
    .node (by simp [Node.children])) (.pure (by simp))

instance finds_yieldExpression : Finds (yieldExpression goal) := by
  refine ⟨fun _ ↦ .start fun s ↦ .begins (.step fun _ ↦ .bind fun _ ↦ .cond
    (.bind fun _ ↦ .bind fun _ ↦ .close fun _ ↦ ?_)
    (.cond (.close fun _ ↦ ?_) (.bind fun _ ↦ .close fun _ ↦ ?_)))⟩
  all_goals simp [places_marked, Node.children]

instance finds_plainAssign {arrowTypes : Bool} : Finds (plainAssign goal arrowTypes) := by
  refine ⟨fun _ ↦ .start fun s ↦ .bind fun left ↦ ?_⟩
  extract_lets rest
  have hrest : Orders (.start s) (places left) (rest ()) := by
    refine .bind fun _ ↦ .bind fun t ↦ ?_
    split
    · next op _ =>
      have hvalue (place : Node) : Orders (.start s) (places place) (do
          next
          let value ← goal (.assign arrowTypes)
          let span ← spanFrom s
          return Node.assign span op place value) :=
        .bind fun _ ↦ .bind fun _ ↦ .bind fun _ ↦ .node (by simp [Node.children])
      refine .cond (.resume (.found (resumes_asTarget _)) fun place ↦ hvalue place) (.lift fun e he ↦ ?_)
      exact .known (.found (hvalue _) (by simp [places_plain, Node.children, places_simpleTarget he]))
    · exact .found (resumes_conditionalRest _)
  split
  · next span name =>
    refine .heed (n := .ref span name) (by simp) fun hname ↦ .bind fun _ ↦ .bind fun _ ↦ .cond ?_ (.found hrest)
    exact .found (.begins (opens_bareArrow hname)) (by simp [places_ref hname])
  · exact .found hrest

theorem finds_assign {arrowTypes : Bool} : Finds (assign goal arrowTypes) := by
  have hmark {s : Nat} {t : Token} {n : Node} :
      Orders (.start s) (places n) (pure (if t.effectFreeMark then markEffectFree n else n)) :=
    .pure (by split; exacts [places_markEffectFree n, rfl])
  refine ⟨fun _ ↦ .bind fun t ↦ .bind fun _ ↦ .cond .last ?_⟩
  extract_lets found rest
  have hfound (s : Nat) (o : Option Node) : Orders (.start s) (places o) (found o) := by
    cases o with
    | some e => exact .found hmark
    | none => exact .bind fun e ↦ .found hmark (by split <;> simp [places_markPure])
  have hrest (s : Nat) : Orders (.start s) [] (rest ()) := by
    refine .bind fun o ↦ ?_
    split
    · exact .bind fun o ↦ .found (hfound _ o)
    · exact .bind fun o ↦ .found (hfound _ o)
    · exact .known (.found (hfound _ none))
  refine .cond (.bind fun o ↦ ?_) (.found (hrest _))
  cases o with
  | some e => exact .found hmark
  | none => exact .found (hrest _)

theorem finds_sequence : Finds (sequence goal) := by
  refine ⟨fun _ ↦ .bind fun _ ↦ .bind fun first ↦ .bind (h := finds_repeats ?_) fun more ↦
    .ite (fun h ↦ .pure ?_) fun _ ↦ .bind fun _ ↦ .node (by simp [Node.children])⟩
  · exact ⟨fun _ ↦ .bind fun _ ↦ .cond .last (.pure (by simp))⟩
  · obtain rfl : more = [] := by simpa using h
    simp

theorem follows_rereadPast {α : Type} [Located α] [Silent α] {reader : List Char → Option Scan.Found}
    {g : Token → α} : Follows (do reread reader; let t ← token; next; return g t) := by
  refine ⟨fun n c a d hc hl heq ↦ ?_⟩
  obtain ⟨⟨_, e⟩, hread, heq⟩ := Option.bind_eq_some_iff.1 heq
  have he : e.Advancing ∧ e.front = c.front ∧ e.last = c.last := by
    obtain ⟨⟨f, _⟩, hf, hread⟩ := Option.bind_eq_some_iff.1 hread
    obtain ⟨_, -, hf⟩ := Option.bind_eq_some_iff.1 hf
    obtain ⟨rfl, rfl⟩ := Prod.mk.inj (Option.some.inj hf)
    obtain ⟨-, rfl⟩ := Prod.mk.inj (Option.some.inj hread)
    exact ⟨⟨hc.last_le, Nat.le_add_right _ _, le_rfl⟩, rfl, rfl⟩
  obtain ⟨⟨_, d'⟩, hnext, heq⟩ := Option.bind_eq_some_iff.1 heq
  obtain ⟨-, rfl⟩ := Prod.mk.inj (Option.some.inj heq)
  have h := (gets_next he.1 hnext).1
  exact ⟨h.sound, he.2.1 ▸ h.front_le, he.2.2 ▸ h.last_le, by rw [Silent.places_eq_nil]; exact .nil⟩

instance follows_jsxWord : Follows jsxWord :=
  ⟨fun _ ↦ .follow fun _ ↦ .follow fun _ ↦ .lastBehind (h := follows_rereadPast)⟩

theorem isSound_of_quotedValue? {cs : List Char} {f : Scan.Found} (h : quotedValue? cs = some f) :
    f.IsSound := by
  unfold quotedValue? at h
  split at h
  · dsimp only at h
    split at h
    · obtain rfl := Option.some.inj h
      exact ⟨fun h ↦ absurd h (by simp), by simp⟩
    · simp at h
  · simp at h

theorem isSound_of_child? {cs : List Char} {f : Scan.Found} (h : child? cs = some f) : f.IsSound := by
  unfold child? at h
  split at h
  iterate 3
    obtain rfl := Option.some.inj h
    exact ⟨fun h ↦ absurd h (by simp), by simp⟩
  next hnil hopen hbrace =>
  dsimp only at h
  split at h
  · simp at h
  · obtain rfl := Option.some.inj h
    refine ⟨fun h ↦ absurd h (by simp), fun _ ↦ ?_⟩
    cases cs with
    | nil => exact absurd rfl hnil
    | cons c cs =>
      rw [List.span_eq_takeWhile_dropWhile, List.takeWhile_cons, if_pos]
      · simp
      · simp only [Bool.and_eq_true, bne_iff_ne]
        exact ⟨fun hc ↦ hopen cs (hc ▸ rfl), fun hc ↦ hbrace cs (hc ▸ rfl)⟩

theorem gets_accept {c d : Cursor} {g : Scan.Gap} {f : Scan.Found} {u : Unit} (hc : c.Sound)
    (hpos : c.pos ≤ g.pos) (hf : f.IsSound)
    (h : (do accept g f; modify fun e ↦ { e with last := c.token.span.stop } : Parser Unit) c = some (u, d)) :
    Gets (c.front + 1) c d (places u) := by
  obtain ⟨-, rfl⟩ := Prod.mk.inj (Option.some.inj h)
  have hstop := hc.stop_le.trans hpos
  refine ⟨sound_of_found hstop rfl rfl rfl rfl hf, hc.start_le.trans hstop, ?_, .nil⟩
  exact hc.last_le.trans hc.start_le

instance follows_nextValue : Follows nextValue := by
  refine ⟨fun n c a d hc hl heq ↦ ?_⟩
  obtain ⟨⟨⟨g, cs⟩, _⟩, hskip, heq⟩ := Option.bind_eq_some_iff.1 heq
  obtain ⟨_, hr, hskip⟩ := Option.bind_eq_some_iff.1 hskip
  obtain ⟨rfl, rfl⟩ := Prod.mk.inj (Option.some.inj hskip)
  dsimp only at heq
  split at heq
  · split at heq
    · obtain ⟨⟨f, _⟩, hfound, heq⟩ := Option.bind_eq_some_iff.1 heq
      obtain ⟨_, hf, hfound⟩ := Option.bind_eq_some_iff.1 hfound
      obtain ⟨rfl, rfl⟩ := Prod.mk.inj (Option.some.inj hfound)
      have h := gets_accept hc (Scan.pos_le_skip hr) (isSound_of_quotedValue? hf) heq
      exact ⟨h.sound, h.front_le, h.last_le, .nil⟩
    · exact follows_next.orders n hc hl heq
  · simp [failure, StateT.failure] at heq

instance follows_nextChild : Follows nextChild := by
  refine ⟨fun n c a d hc hl heq ↦ ?_⟩
  obtain ⟨⟨f, _⟩, hfound, heq⟩ := Option.bind_eq_some_iff.1 heq
  obtain ⟨_, hf, hfound⟩ := Option.bind_eq_some_iff.1 hfound
  obtain ⟨rfl, rfl⟩ := Prod.mk.inj (Option.some.inj hfound)
  have h := gets_accept hc le_rfl (isSound_of_child? hf) heq
  exact ⟨h.sound, h.front_le, h.last_le, .nil⟩

instance follows_closeTag {inside : Bool} : Follows (closeTag inside) :=
  ⟨fun _ ↦ .follow fun _ ↦ .follow fun _ ↦ .cond .lastBehind .lastBehind⟩

instance follows_jsxName : Follows jsxName := by
  refine ⟨fun _ ↦ .follow fun _ ↦ .follow fun _ ↦ .cond (.follow fun _ ↦ .pure (by simp)) ?_⟩
  refine .follow (h := follows_repeats ?_) fun _ ↦ .pure (by simp)
  exact ⟨fun _ ↦ .follow fun _ ↦ .cond .lastBehind (.pure (by simp))⟩

instance finds_jsxHole {advance : Parser Unit} [Follows advance] : Finds (jsxHole goal s advance) := by
  refine ⟨fun _ ↦ .bind fun _ ↦ .otherwise fun _ ↦ .bind fun _ ↦ .bind fun _ ↦ .bind fun _ ↦ .bind fun _ ↦ ?_⟩
  exact .node (by simp [Node.children])

instance finds_jsxAttribute : Finds (jsxAttribute goal) := by
  refine ⟨fun _ ↦ .bind fun t ↦ .cond ?_ (.bind fun _ ↦ .bind fun _ ↦ ?_)⟩
  · exact .bind fun _ ↦ .bind fun _ ↦ .bind fun _ ↦ .bind fun _ ↦ .bind fun _ ↦
      .node (by simp [Node.children])
  extract_lets rest
  have hrest (name : String) : Finds (rest name) := by
    refine ⟨fun _ ↦ .bind fun _ ↦ .cond (.bind fun _ ↦ .bind fun u ↦ ?_) ?_⟩
    · split
      · exact .bind fun _ ↦ .bind fun _ ↦ .node (by simp [places_plain, Node.children])
      · refine .bind fun _ ↦ .cond (.bind fun _ ↦ .bind fun _ ↦ ?_) ?_
        · exact .node (by simp [Node.children])
        · exact .bind fun _ ↦ .bind fun _ ↦ .node (by simp [Node.children])
    · exact .bind fun _ ↦ .node (by simp [Node.children])
  exact .cond (.bind fun _ ↦ .known .last) (.known .last)

instance finds_jsxChildren : Finds (jsxChildren goal) := by
  refine finds_repeats ⟨fun _ ↦ .bind fun t ↦ ?_⟩
  split
  · exact .bind fun _ ↦ .pure (by simp [places_plain, Node.children])
  · refine .cond (.bind fun _ ↦ .bind fun _ ↦ .cond ?_ .last) (.bind fun _ ↦ .cond (.pure (by simp)) .last)
    exact .bind fun _ ↦ .bind fun _ ↦ .bind fun _ ↦ .bind fun _ ↦ .bind fun _ ↦
      .pure (by simp [places_plain, Node.children])
  · exact .failure

theorem finds_jsxElement {inside : Bool} : Finds (jsxElement goal inside) := by
  refine ⟨fun _ ↦ .bind fun _ ↦ .bind fun _ ↦ .bind fun _ ↦ .cond ?_ ?_⟩
  · exact .bind fun _ ↦ .bind fun _ ↦ .bind fun _ ↦ .bind fun _ ↦ .bind fun _ ↦
      .bind fun _ ↦ .node (by simp [Node.children])
  refine .bind fun name ↦ .bind fun types ↦ .bind (h := finds_repeats ?_)
    fun attributes ↦ .bind fun _ ↦ .cond ?_ ?_
  · exact ⟨fun _ ↦ .bind fun _ ↦ .cond (.pure (by simp)) .last⟩
  · exact .bind fun _ ↦ .bind fun _ ↦ .node (by simp [Node.children])
  · exact .bind fun _ ↦ .bind fun _ ↦ .bind fun _ ↦ .bind fun _ ↦ .bind fun _ ↦
      .bind fun _ ↦ .bind fun _ ↦ .bind fun _ ↦ .bind fun _ ↦ .bind fun _ ↦ .node (by simp [Node.children])

end Recompose.Script.Parse
