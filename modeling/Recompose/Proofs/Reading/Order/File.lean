import Mathlib.Data.List.Flatten
import Recompose.Proofs.Reading.Order.Expression

namespace Recompose.Script

namespace Parse

open Text Script.Parser

variable {goal : Goals} {s : Nat} [FindsGoals goal]

instance finds_declarator {kind : VarKind} {needsValue : Bool} : Finds (declarator goal kind needsValue) :=
  ⟨fun _ ↦ .bind fun _ ↦ .bind fun target ↦ .bind fun _ ↦ .bind fun type ↦ .bind fun init ↦ .bind fun _ ↦
    .bind fun _ ↦ .node (by simp [Node.children])⟩

instance finds_declarators {kind : VarKind} {needsValue : Bool} :
    Finds (declarators goal kind needsValue) := by
  refine ⟨fun _ ↦ .bind fun first ↦ .bind (h := finds_repeats ?_) fun more ↦ .pure (by simp)⟩
  exact ⟨fun _ ↦ .bind fun _ ↦ .cond .last (.pure (by simp))⟩

instance follows_startsLet : Follows startsLet :=
  follows_ahead

instance follows_startsUsing : Follows startsUsing :=
  follows_ahead

theorem stays_varKind : Stays varKind := by
  have hstarts {test : Parser Bool} {kind : VarKind} (htest : Stays test) :
      Stays (do if ← test then return some kind else return none) :=
    .bind htest fun _ ↦ .cond stays_read stays_read
  refine .bind stays_read fun t ↦ .cond stays_read (.cond stays_read (.cond (hstarts stays_foresee)
    (.cond (hstarts stays_foresee) (.bind stays_read fun _ ↦ .cond ?_ stays_read))))
  exact .bind stays_foresee fun _ ↦ stays_read

instance follows_varKind : Follows varKind :=
  follows_of_stays stays_varKind

theorem varKind_of_stop {c : Cursor} (h : c.token.kind = .stop) : varKind c = some (none, c) := by
  have his (word : String) : c.token.is word = false := by simp [Token.is, h]
  unfold varKind
  change (if c.token.is "var" then _ else _ : Parser (Option VarKind)) c = _
  simp only [his, Bool.false_and, Bool.false_eq_true, if_false]
  rfl

theorem ordersAt_varKind {α : Type} [Located α] {t : Token} {w : Outset} {l : List Region}
    {f : Option VarKind → Parser α} (hsome : t.kind ≠ .stop → ∀ kind, OrdersAt t w l (f (some kind)))
    (hnone : OrdersAt t w l (f none)) : OrdersAt t w l (varKind >>= f) := by
  rintro c a d hc rfl hl heq
  obtain ⟨⟨o, e⟩, ho, ha⟩ := Option.bind_eq_some_iff.1 heq
  obtain rfl := stays_varKind ho
  cases o with
  | none => exact hnone hc rfl hl ha
  | some kind => exact hsome (fun h ↦ by simp [varKind_of_stop h] at ho) kind hc rfl hl ha

theorem stepsOverAt_passVarKind {t : Token} {kind : VarKind} (ht : t.kind ≠ .stop) :
    StepsOverAt t (passVarKind kind) :=
  stepsOverAt_next ht fun _ ↦ .cond .last (.pure (by simp))

theorem ordersAt_varStatement {t : Token} {kind : VarKind} {declared : Bool} (ht : t.kind ≠ .stop) :
    OrdersAt t (.opening s) [] (varStatement goal s kind declared) := by
  refine .step (stepsOverAt_passVarKind ht) fun _ ↦ .bind fun _ ↦ .bind fun items ↦ .bind fun _ ↦
    .closeIf (kind == .hoisted) fun _ ↦ ?_
  simp [places_vars]

instance finds_condition : Finds (condition goal) :=
  ⟨fun _ ↦ .bind fun _ ↦ .bind fun _ ↦ .bind fun _ ↦ .pure (by simp)⟩

instance finds_block : Finds (block goal) := by
  refine ⟨fun _ ↦ .bind fun _ ↦ .bind fun _ ↦ .bind (h := finds_repeats ?_) fun _ ↦
    .bind fun _ ↦ .bind fun _ ↦ .node (by simp [Node.children])⟩
  exact ⟨fun _ ↦ .bind fun _ ↦ .cond (.pure (by simp)) .last⟩

instance finds_ifStatement : Finds (ifStatement goal) :=
  ⟨fun _ ↦ .bind fun _ ↦ .bind fun _ ↦ .bind fun test ↦ .bind fun yes ↦ .bind fun _ ↦ .perhaps fun no ↦
    .bind fun _ ↦ .node (by simp [Node.children])⟩

instance finds_doStatement : Finds (doStatement goal) :=
  ⟨fun _ ↦ .bind fun _ ↦ .bind fun _ ↦ .bind fun _ ↦ .bind fun _ ↦ .bind fun _ ↦ .bind fun _ ↦
    .bind fun _ ↦ .node (by simp [Node.children])⟩

instance finds_whileStatement : Finds (whileStatement goal) :=
  ⟨fun _ ↦ .bind fun _ ↦ .bind fun _ ↦ .bind fun _ ↦ .bind fun _ ↦ .bind fun _ ↦
    .node (by simp [Node.children])⟩

theorem resumes_forRest (init : Option Node) : Resumes (places init) (forRest goal s init) :=
  fun _ ↦ .bind fun _ ↦ .bind fun _ ↦ .otherwise fun test ↦ .bind fun _ ↦ .bind fun _ ↦
    .otherwise fun update ↦ .bind fun _ ↦ .bind fun body ↦ .bind fun _ ↦ .node (by simp [Node.children])

theorem orders_eachRest {awaited : Bool} {left : Node} :
    Orders (.opened s) (places left) (eachRest goal s awaited left) := by
  refine .bind fun _ ↦ ?_
  extract_lets rest
  have hrest (kind : EachKind) : Orders (.opened s) (places left) (rest kind) :=
    .bind fun _ ↦ .bind fun _ ↦ .bind fun _ ↦ .closeIf (kind == .awaited) fun _ ↦ by simp [places_forEach]
  refine .cond (.known (.found (hrest _))) (.bind fun _ ↦ .bind fun _ ↦ .known (.found (hrest _)))

instance finds_forStatement : Finds (forStatement goal) := by
  refine ⟨fun _ ↦ .start fun s ↦ .begins (.step fun _ ↦ .bind fun awaited ↦ .bind fun _ ↦ .bind fun _ ↦
    .cond (.bind fun _ ↦ .opened (.found (resumes_forRest none _))) (.here fun t ↦ .token ?_))⟩
  refine ordersAt_varKind (fun ht kind ↦ ?_) (.of_orders ?_)
  · refine .region (kind == .hoisted) (stepsOverAt_passVarKind ht) fun items span ↦ .bind fun _ ↦
      .cond ?_ (.bind fun _ ↦ .opened ?_)
    · exact .found orders_eachRest (by simp [places_vars])
    · exact .found (resumes_forRest (some _) _) (by simp [places_vars])
  · refine .bind fun e ↦ .bind fun _ ↦ .cond (.bind fun _ ↦ .bind fun _ ↦ ?_) ?_
    · exact .resume (.found (resumes_asTarget _)) fun n ↦ orders_eachRest
    · exact .bind fun _ ↦ .opened (.found (resumes_forRest (some e) _))

theorem ordersAt_jump {t : Token} (ht : t.kind ≠ .stop) : OrdersAt t (.start t.span.start) [] jump := by
  refine .token (.begins (.step (stepsOverAt_pass ht) fun _ ↦ .bind fun u ↦ ?_))
  extract_lets rest
  have hrest (label : Option String) : Orders (.opened t.span.start) [] (rest label) := by
    refine .bind fun _ ↦ .close fun _ ↦ ?_
    split <;> simp [places_marked, Node.children]
  exact .cond (.bind fun _ ↦ .known (.found (hrest _))) (.known (.found (hrest _)))

instance finds_returnStatement : Finds (returnStatement goal) := by
  refine ⟨fun _ ↦ .start fun s ↦ .begins (.step fun _ ↦ .bind fun _ ↦ .otherwise fun _ ↦ .bind fun _ ↦
    .close fun _ ↦ ?_)⟩
  simp [places_marked, Node.children]

instance finds_throwStatement : Finds (throwStatement goal) :=
  ⟨fun _ ↦ .bind fun _ ↦ .bind fun _ ↦ .bind fun _ ↦ .bind fun _ ↦ .bind fun _ ↦ .bind fun _ ↦
    .bind fun _ ↦ .node (by simp [Node.children])⟩

instance finds_clause : Finds (clause goal) := by
  refine ⟨fun _ ↦ .bind fun _ ↦ .bind fun _ ↦ ?_⟩
  extract_lets rest
  have hrest (s : Nat) (test : Option Node) : Orders (.start s) (places test) (rest test) := by
    refine .bind fun _ ↦ .bind (h := finds_repeats ?_) fun _ ↦ .bind fun _ ↦ .node (by simp [Node.children])
    exact ⟨fun _ ↦ .bind fun _ ↦ .cond (.pure (by simp)) .last⟩
  exact .cond (.known (.found (hrest _ none))) (.bind fun _ ↦ .bind fun test ↦ .found (hrest _ test))

instance finds_switchStatement : Finds (switchStatement goal) := by
  refine ⟨fun _ ↦ .bind fun _ ↦ .bind fun _ ↦ .bind fun _ ↦ .bind fun _ ↦
    .bind (h := finds_repeats ?_) fun _ ↦ .bind fun _ ↦ .node (by simp [Node.children])⟩
  exact ⟨fun _ ↦ .bind fun _ ↦ .cond (.pure (by simp)) .last⟩

instance finds_tryStatement : Finds (tryStatement goal) := by
  refine ⟨fun _ ↦ .bind fun _ ↦ .bind fun _ ↦ .bind fun body ↦ .bind fun _ ↦ .bind fun _ ↦ ?_⟩
  extract_lets rest catching
  have hrest (s : Nat) (handler : Option Node) :
      Orders (.start s) (places body ++ places handler) (rest handler) :=
    .bind fun _ ↦ .perhaps fun finalizer ↦ .bind fun _ ↦ .bind fun _ ↦ .node (by simp [Node.children])
  have hcatching (s : Nat) (r : Option Node × Option Node) :
      Orders (.start s) (places body ++ places r) (catching r) :=
    .bind fun b ↦ .bind fun span ↦ .known (.found (hrest _ _) (by simp [places_plain, Node.children]))
  refine .cond (.bind fun _ ↦ .cond (.bind fun p ↦ .bind fun t ↦ .bind fun _ ↦ ?_) ?_) ?_
  · exact .known (.found (hcatching _ (some p, t)))
  · exact .known (.found (hcatching _ (none, none)))
  · exact .known (.found (hrest _ none))

instance finds_withStatement : Finds (withStatement goal) :=
  ⟨fun _ ↦ .bind fun _ ↦ .bind fun _ ↦ .bind fun _ ↦ .bind fun _ ↦ .bind fun _ ↦
    .node (by simp [Node.children])⟩

instance finds_expressionStatement : Finds (expressionStatement goal) :=
  ⟨fun _ ↦ .bind fun _ ↦ .bind fun _ ↦ .bind fun _ ↦ .cond
    (.bind fun _ ↦ .bind fun _ ↦ .bind fun _ ↦ .bind fun _ ↦ .node (by simp [Node.children]))
    (.bind fun _ ↦ .bind fun _ ↦ .bind fun _ ↦ .node (by simp [Node.children]))⟩

theorem opens_functionDeclaration {declared named : Bool} :
    Orders (.start s) [] (functionDeclaration goal s declared named) := by
  refine .resume (.begins opens_function) fun f ↦ ?_
  extract_lets rest
  split
  · exact .bind fun _ ↦ .pure (by simp)
  · exact .pure (by simp)

theorem resumes_classDeclaration (decs : List Node) {declared named : Bool} :
    Resumes (places decs) (classDeclaration goal s decs declared named) := by
  refine fun _ ↦ .bind fun _ ↦ .resume (.found (resumes_classTail _ _)) fun c ↦ ?_
  extract_lets rest
  split
  · exact .bind fun _ ↦ .pure (by simp)
  · exact .pure (by simp)

theorem resumes_decoratedClass {decs : List Node} {named : Bool} :
    Resumes (places decs) (decoratedClass goal s decs named) :=
  fun _ ↦ .bind fun _ ↦ .found (resumes_classDeclaration _ _)

instance finds_aliasDeclaration {declared : Bool} : Finds (aliasDeclaration goal s declared) :=
  ⟨fun _ ↦ .bind fun _ ↦ .bind fun _ ↦ .bind fun _ ↦ .bind fun _ ↦ .bind fun _ ↦
    .bind fun _ ↦ .bind fun _ ↦ .node (by simp [Node.children])⟩

instance finds_parent : Finds (interfaceDeclaration.parent goal) := by
  refine ⟨fun _ ↦ .bind fun _ ↦ .bind fun r ↦ .ite (fun h ↦ .pure ?_) fun _ ↦ .bind fun _ ↦
    .node (by simp [Node.children])⟩
  have hnone : r.2 = [] := by simpa using h
  simp [hnone]

instance finds_interfaceDeclaration {declared : Bool} : Finds (interfaceDeclaration goal s declared) := by
  refine ⟨fun _ ↦ .bind fun _ ↦ .bind fun _ ↦ .bind fun tps ↦ .bind fun _ ↦ ?_⟩
  extract_lets rest
  have hrest (s : Nat) (parents : List Node) : Orders (.start s) (places tps ++ places parents) (rest parents) :=
    .bind fun _ ↦ .bind fun _ ↦ .node (by simp [Node.children])
  refine .cond (.bind fun first ↦ .bind (h := finds_repeats ?_) fun more ↦ ?_) ?_
  · exact ⟨fun _ ↦ .bind fun _ ↦ .cond .last (.pure (by simp))⟩
  · exact .known (.found (hrest _ (first :: more)))
  · exact .known (.found (hrest _ []))

instance finds_enumMember : Finds (enumMember goal) := by
  refine ⟨fun _ ↦ .bind fun _ ↦ .bind fun key ↦ ?_⟩
  extract_lets rest
  have hrest (s : Nat) : Orders (.start s) (places key) (rest ()) :=
    .bind fun _ ↦ .bind fun _ ↦ .node (by simp [Node.children])
  split
  iterate 4 exact .known (.found (hrest _))
  exact .follow (h := ⟨fun _ ↦ .failure⟩) fun _ ↦ .found (hrest _)

instance finds_enumDeclaration {declared : Bool} : Finds (enumDeclaration goal s declared) :=
  ⟨fun _ ↦ .bind fun _ ↦ .bind fun _ ↦ .bind fun _ ↦ .bind fun _ ↦ .bind fun _ ↦ .bind fun _ ↦
    .node (by simp [Node.children])⟩

instance finds_moduleDeclaration {declared : Bool} : Finds (moduleDeclaration goal s declared) := by
  refine ⟨fun _ ↦ .bind fun t ↦ .bind fun _ ↦ ?_⟩
  extract_lets rest
  have hrest (title : ModuleTitle) : Finds (rest title) := by
    refine ⟨fun _ ↦ .bind fun _ ↦ .cond (.bind fun _ ↦ .bind fun _ ↦ .node (by simp [Node.children])) ?_⟩
    extract_lets close
    have hclose : Finds (close ()) := ⟨fun _ ↦ .bind fun _ ↦ .node (by simp [places_plain, Node.children])⟩
    split
    · exact .bind fun _ ↦ .last
    · exact .follow (h := ⟨fun _ ↦ .failure⟩) fun _ ↦ .last
  refine .cond (.known .last) (.bind fun _ ↦ .cond ?_ ?_)
  · exact .bind fun _ ↦ .known .last
  · exact .bind fun _ ↦ .bind fun _ ↦ .known .last

instance follows_startsDeclaration {fuel : Nat} : Follows (startsDeclaration fuel) := by
  cases fuel with
  | zero => exact ⟨fun _ ↦ .pure (by simp)⟩
  | succ fuel =>
    refine ⟨fun _ ↦ .follow fun t ↦ .cond (.pure (by simp)) (.cond .lastBehind (.cond .lastBehind ?_))⟩
    exact .cond .lastBehind (.cond .lastBehind (.cond .lastBehind (.pure (by simp))))

instance follows_importTarget : Follows importTarget := by
  refine ⟨fun _ ↦ .follow fun t ↦ .follow fun _ ↦ .cond ?_ ?_⟩
  · exact .follow fun _ ↦ .follow fun _ ↦ .follow fun _ ↦ .follow fun _ ↦ .pure (by simp)
  · exact .follow fun _ ↦ .follow fun _ ↦ .pure (by simp)

theorem orders_declarationBody {declared : Bool} :
    Orders (.start s) [] (declarationBody goal s declared) := by
  refine orders_within (.bind fun t ↦ .bind fun _ ↦ .cond .last (.cond (.found opens_functionDeclaration)
    (.cond (.found (resumes_classDeclaration [] _)) (.cond .last (.cond .last (.cond .last
      (.cond ?_ (.here fun t ↦ ?_))))))))
  · exact .bind fun _ ↦ .bind fun _ ↦ .bind fun _ ↦ .flag fun _ ↦ .bind fun _ ↦ .bind fun _ ↦
      .bind fun _ ↦ .bind fun _ ↦ .bind fun _ ↦ .node (by simp [Node.children])
  · exact ordersAt_varKind (fun ht _ ↦ .begins (ordersAt_varStatement ht)) (.of_orders .failure)

instance finds_declaration : Finds (declaration goal) :=
  ⟨fun _ ↦ .start fun s ↦ .bind fun _ ↦ .bind fun _ ↦ .cond (.bind fun _ ↦ .found orders_declarationBody)
    (.found orders_declarationBody)⟩

theorem places_markStatement (n : Node) : places (markStatement n) = places n := by
  unfold markStatement
  split
  · exact places_head
  · simpa [places_plain, Node.children] using places_head
  · simpa [places_plain, Node.children] using places_head
  · rfl

theorem ordersAt_controlStatement {t : Token} {p : Parser Node} (ht : t.kind ≠ .stop)
    (h : controlStatement goal t = some p) : OrdersAt t (.start t.span.start) [] p := by
  unfold controlStatement at h
  split at h
  all_goals try obtain rfl := Option.some.inj h
  · exact .of_orders (.last (h := finds_ifStatement))
  · exact .of_orders (.last (h := finds_doStatement))
  · exact .of_orders (.last (h := finds_whileStatement))
  · exact .of_orders (.last (h := finds_forStatement))
  · exact ordersAt_jump ht
  · exact ordersAt_jump ht
  · exact .of_orders (.last (h := finds_returnStatement))
  · exact .of_orders (.last (h := finds_withStatement))
  · exact .of_orders (.last (h := finds_switchStatement))
  · exact .of_orders (.last (h := finds_throwStatement))
  · exact .of_orders (.last (h := finds_tryStatement))
  · exact .of_orders (.bind fun _ ↦ .bind fun _ ↦ .bind fun _ ↦ .node (by simp [Node.children]))
  · simp at h

instance finds_localStatement {place : Place} : Finds (localStatement goal place) := by
  refine ⟨fun _ ↦ .tokenAt fun t ↦ ?_⟩
  extract_lets s
  split
  · next p heq =>
    split at heq
    · next hkind => exact ordersAt_controlStatement (fun h ↦ by simp [h] at hkind) heq
    · simp at heq
  refine .of_orders (.cond (.bind fun _ ↦ .node (by simp [Node.children])) (.cond .last (.cond ?_ (.cond ?_ ?_))))
  · exact .bind fun _ ↦ .bind fun _ ↦ .found (resumes_decoratedClass _)
  · exact .bind fun _ ↦ .found (resumes_classDeclaration [] _)
  refine .bind fun _ ↦ .cond (.resume (.found opens_functionDeclaration) fun f ↦ .bind fun _ ↦ .pure (by simp))
    (.bind fun _ ↦ ?_)
  refine .cond .last (.bind fun _ ↦ .cond .last (.here fun t ↦ ordersAt_varKind (fun ht kind ↦ ?_) ?_))
  · exact .stay stays_guarded fun _ ↦ .begins (ordersAt_varStatement ht)
  · exact .of_orders .last

instance follows_moduleName : Follows moduleName := by
  refine ⟨fun _ ↦ .follow fun t ↦ ?_⟩
  split
  · exact .follow fun _ ↦ .pure (by simp)
  · exact .follow fun _ ↦ .pure (by simp)
  · exact .failure

instance follows_withEntry : Follows withEntry :=
  ⟨fun _ ↦ .follow fun _ ↦ .follow fun _ ↦ .follow fun _ ↦ .pure (by simp)⟩

instance finds_attributes : Finds attributes :=
  ⟨fun _ ↦ .bind fun _ ↦ .cond (.bind fun _ ↦ .bind fun _ ↦ .bind fun _ ↦ .pure (by simp)) (.pure (by simp))⟩

instance follows_localName {name : ModuleName} : Follows (localName name) := by
  cases name with
  | ident => exact ⟨fun _ ↦ .follow fun _ ↦ .follow fun _ ↦ .pure (by simp)⟩
  | quoted => exact ⟨fun _ ↦ .failure⟩

instance finds_specifier : Finds specifier := by
  have hnamed {a : Bool} {b : ModuleName} : Finds (do return (a, b, some (← moduleName))) :=
    ⟨fun _ ↦ .bind fun _ ↦ .pure (by simp)⟩
  refine ⟨fun _ ↦ .bind fun _ ↦ .cond (.bind fun _ ↦ .cond (.pure (by simp)) (.bind fun _ ↦ .cond ?_ ?_)) ?_⟩
  · refine .bind fun _ ↦ .bind fun _ ↦ .cond ?_ ?_
    · exact .bind fun _ ↦ .bind fun _ ↦ .cond (.pure (by simp)) .last
    · exact .bind fun _ ↦ .cond (.pure (by simp)) .last
  · exact .bind fun _ ↦ .bind fun _ ↦ .cond .last (.pure (by simp))
  · exact .bind fun _ ↦ .cond .last (.pure (by simp))

instance finds_importItem : Finds importItem :=
  ⟨fun _ ↦ .bind fun _ ↦ .bind fun _ ↦ .pure (by simp)⟩

instance follows_namespaceItem : Follows namespaceItem :=
  ⟨fun _ ↦ .follow fun _ ↦ .follow fun _ ↦ .follow fun _ ↦ .pure (by simp)⟩

instance finds_importItems : Finds importItems := by
  refine ⟨fun _ ↦ .bind fun _ ↦ .cond (.bind fun _ ↦ .pure (by simp)) (.bind fun _ ↦ .cond .last ?_)⟩
  refine .bind fun _ ↦ .bind fun _ ↦ .cond (.bind fun _ ↦ .cond ?_ ?_) (.pure (by simp))
  · exact .bind fun _ ↦ .pure (by simp)
  · exact .bind fun _ ↦ .bind fun _ ↦ .pure (by simp)

instance finds_importFrom {typeOnly : Bool} {phase : Option String} {items : List ImportItem} :
    Finds (importFrom s typeOnly phase items) :=
  ⟨fun _ ↦ .bind fun _ ↦ .bind fun _ ↦ .bind fun _ ↦ .bind fun _ ↦ .bind fun _ ↦
    .node (by simp [Node.children])⟩

instance follows_qualifiesImport : Follows qualifiesImport :=
  follows_foresee

instance finds_importStatement : Finds (importStatement s) := by
  refine ⟨fun _ ↦ .bind fun _ ↦ .bind fun t ↦ .cond ?_ ?_⟩
  · exact .bind fun _ ↦ .bind fun _ ↦ .bind fun _ ↦ .bind fun _ ↦ .node (by simp [Node.children])
  · refine .bind fun _ ↦ .flag fun typeOnly ↦ .bind fun _ ↦ ?_
    extract_lets rest
    have hrest (phase : Option String) : Finds (rest phase) := by
      refine ⟨fun _ ↦ .bind fun _ ↦ .bind fun _ ↦ .cond ?_ (.bind fun _ ↦ .last)⟩
      exact .bind fun _ ↦ .bind fun _ ↦ .bind fun _ ↦ .bind fun _ ↦ .bind fun _ ↦
        .node (by simp [Node.children])
    exact .cond (.bind fun _ ↦ .known .last) (.known .last)

instance finds_exportItem : Finds exportItem :=
  ⟨fun _ ↦ .bind fun _ ↦ .pure (by simp)⟩

instance finds_exportList {typeOnly : Bool} : Finds (exportList s typeOnly) := by
  refine ⟨fun _ ↦ .bind fun _ ↦ .bind fun _ ↦ .bind fun _ ↦ .cond ?_ ?_⟩
  · exact .bind fun _ ↦ .bind fun _ ↦ .bind fun _ ↦ .bind fun _ ↦ .node (by simp [Node.children])
  · exact .bind fun _ ↦ .bind fun _ ↦ .bind fun _ ↦ .node (by simp [Node.children])

instance finds_exportEverything {typeOnly : Bool} : Finds (exportEverything s typeOnly) :=
  ⟨fun _ ↦ .bind fun _ ↦ .bind fun _ ↦ .perhaps fun _ ↦ .bind fun _ ↦ .bind fun _ ↦ .bind fun _ ↦
    .bind fun _ ↦ .bind fun _ ↦ .node (by simp [Node.children])⟩

theorem resumes_exportedClass (decs : List Node) {named : Bool} :
    Resumes (places decs) (exportedClass goal decs named) :=
  fun _ ↦ .bind fun _ ↦ .bind fun more ↦ .bind fun _ ↦ .found (resumes_decoratedClass _)

theorem resumes_exportDefault {decs : List Node} : Resumes (places decs) (exportDefault goal s decs) := by
  intro start
  cases decs with
  | nil =>
    refine .token fun t ↦ ?_
    extract_lets sd rest
    have hrest (decl : Node) : Orders (.start sd) (places decl) (rest decl) :=
      .bind fun _ ↦ .node (by simp [Node.children])
    refine .cond (.resume (resumes_exportedClass [] _) hrest) (.bind fun _ ↦ .cond ?_ ?_)
    · exact .resume (.found opens_functionDeclaration) hrest
    refine .bind fun _ ↦ .cond (.resume (.found (resumes_classDeclaration [] _)) hrest)
      (.bind fun _ ↦ ?_)
    refine .cond (.bind fun n ↦ .found (hrest n)) (.bind fun e ↦ .bind fun _ ↦ .bind fun _ ↦ ?_)
    exact .known (.found (hrest _) (by simp [places_plain, Node.children]))
  | cons d ds =>
    refine .bind fun t ↦ ?_
    extract_lets sd rest
    have hrest (s : Nat) (decl : Node) : Orders (.start s) (places decl) (rest decl) :=
      .bind fun _ ↦ .node (by simp [Node.children])
    exact .resume (.found (resumes_exportedClass _ _)) fun n ↦ hrest _ n

/-- Decorators in front of an export that is no class are lost. -/
theorem resumes_exportStatement (decs : List Node) : Resumes (places decs) (exportStatement goal s decs) := by
  refine fun _ ↦ .bind fun _ ↦ .bind fun t ↦ .cond ?_ (.cond (.forget ?_) ?_)
  · exact .bind fun _ ↦ .found (resumes_exportDefault _)
  · exact .bind fun _ ↦ .bind fun _ ↦ .bind fun _ ↦ .bind fun _ ↦ .node (by simp [Node.children])
  refine .bind fun _ ↦ .cond (.forget ?_) (.cond (.forget .last) (.cond (.forget .last) ?_))
  · exact .bind fun _ ↦ .bind fun _ ↦ .bind fun _ ↦ .bind fun _ ↦ .bind fun _ ↦
      .node (by simp [Node.children])
  refine .bind fun _ ↦ .cond (.forget (.bind fun _ ↦ .last)) (.bind fun _ ↦ .cond ?_ (.cond ?_ ?_))
  · exact .forget (.bind fun _ ↦ .last)
  · refine .resume (.found (resumes_exportedClass _ _)) fun c ↦ .bind fun _ ↦ .node (by simp [Node.children])
  · exact .forget (.bind fun _ ↦ .bind fun _ ↦ .node (by simp [Node.children]))

theorem finds_statement {place : Place} : Finds (statement goal place) := by
  refine ⟨fun _ ↦ .bind fun t ↦ .bind fun _ ↦ ?_⟩
  extract_lets rest
  have hrest (s : Nat) (node : Node) : Orders (.start s) (places node) (rest node) :=
    .pure (by split; exacts [places_markStatement node, rfl])
  refine .cond (.bind fun _ ↦ .bind fun n ↦ .found (hrest _ n)) (.cond ?_ (.cond (.bind fun decs ↦ ?_)
    (.bind fun n ↦ .found (hrest _ n))))
  · exact .bind fun _ ↦ .resume (.found (resumes_exportStatement [] _)) fun n ↦ hrest _ n
  · refine .bind fun _ ↦ .cond ?_ ?_
    · exact .bind fun _ ↦ .resume (.found (resumes_exportStatement _ _)) fun n ↦ hrest _ n
    · exact .bind fun _ ↦ .resume (.found (resumes_decoratedClass _)) fun n ↦ hrest _ n

instance findsGoals_step : FindsGoals (step goal) := by
  refine ⟨fun g ↦ ?_, answers_bindingPattern⟩
  cases g with
  | expr => exact finds_sequence
  | assign => exact finds_assign
  | binary => exact finds_binary
  | unary => exact finds_unary
  | operand => exact finds_operand
  | constructed => exact finds_constructed
  | ty => exact finds_type
  | tyOperator => exact finds_operatorType
  | pattern => exact finds_bindingPattern
  | stmt => exact finds_statement
  | jsx => exact finds_jsxElement

omit [FindsGoals goal] in
instance findsGoals_goals {depth : Nat} : FindsGoals (goals depth) := by
  induction depth with
  | zero => exact ⟨fun _ ↦ ⟨fun _ ↦ .failure⟩, .failure⟩
  | succ depth ih => exact findsGoals_step

theorem finds_program : Finds (program goal) :=
  ⟨fun _ ↦ .bind fun _ ↦ .bind (h := finds_bodyItems) fun _ ↦ .bind fun _ ↦ .bind fun _ ↦ .pure (by simp)⟩

end Parse

theorem Ordered.children {n : Node} {low high : Nat} (h : Ordered low high (places n)) (hlow : low ≤ high) :
    ∃ low' high', low ≤ low' ∧ low' ≤ high' ∧ high' ≤ high ∧ Ordered low' high' (places n.children) := by
  rw [places_eq, enclosing] at h
  split at h
  · cases h with
    | cons hstart hspan hinner hstop _ =>
      obtain ⟨mid, hmid, hhigh, -, hparts⟩ := hinner.exists_of_append hspan
      exact ⟨mid, _, by omega, hhigh, hstop, hparts⟩
  · obtain ⟨mid, hmid, hhigh, -, hparts⟩ := h.exists_of_append hlow
    exact ⟨mid, high, hmid, hhigh, le_rfl, hparts⟩

theorem exists_ordered_children {n : Node} (h : ∃ high, Ordered 0 high (places n)) :
    ∃ high, Ordered 0 high (places n.children) := by
  obtain ⟨_, h⟩ := h
  obtain ⟨_, high, -, -, -, hparts⟩ := h.children (Nat.zero_le _)
  exact ⟨high, hparts.mono (Nat.zero_le _) le_rfl⟩

theorem exists_ordered_part {ns : List Node} {n : Node} (h : ∃ high, Ordered 0 high (places ns))
    (hn : n ∈ ns) : ∃ high, Ordered 0 high (places n) := by
  obtain ⟨before, after, rfl⟩ := List.append_of_mem hn
  obtain ⟨high, h⟩ := h
  exact h.exists_of_infix ⟨places before, places after, by simp⟩

theorem exists_ordered_node {n m : Node} (h : ∃ high, Ordered 0 high (places n)) (hm : m ∈ n.nodes) :
    ∃ high, Ordered 0 high (places m) := by
  induction n using Node.induction_on_parts with
  | step n ih =>
    obtain rfl | ⟨part, hpart, hm⟩ := Node.mem_nodes_iff.1 hm
    · exact h
    · exact ih part hpart (exists_ordered_part (exists_ordered_children h) hpart) hm

theorem ownPlace_sublist (n : Node) : (ownPlace n).Sublist (marks n).1.toList := by
  cases n
  case func | field => exact .refl _
  all_goals exact List.nil_sublist _

theorem spansIn_enclosing (own : Option Span × List Region) (inner : List Region) :
    spansIn (enclosing own inner) = own.1.toList ++ (spansIn own.2 ++ spansIn inner) := by
  rw [enclosing, ← spansIn_append]
  split
  · next span heq => simp [heq, spansIn, Region.spans]
  · next heq => simp [heq]

theorem spansIn_places (ns : List Node) : spansIn (places ns) = ns.flatMap fun n ↦ spansIn (places n) := by
  induction ns with
  | nil => simp [spansIn]
  | cons n ns ih => rw [places_cons, spansIn_append, ih, List.flatMap_cons]

theorem nodes_sublist_spansIn (n : Node) : (n.nodes.flatMap ownPlace).Sublist (spansIn (places n)) := by
  induction n using Node.induction_on_parts with
  | step n ih =>
    rw [places_eq, spansIn_enclosing, spansIn_places, Node.nodes_eq, List.flatMap_cons, List.flatMap_assoc]
    exact (ownPlace_sublist n).append ((List.Sublist.flatMap_right _ ih).trans (List.sublist_append_right _ _))

section

variable {source : String} {jsx : Bool} {parsed : Parsed}

theorem exists_ordered (h : parse? source jsx = some parsed) :
    ∃ high, Ordered 0 high (places parsed.program.body) := by
  obtain ⟨⟨⟨directives, body⟩, cursor⟩, hrun, h⟩ := Option.bind_eq_some_iff.1 h
  obtain rfl := Option.some.inj h
  refine ⟨cursor.last, ?_⟩
  have hinitial {text : List Char} {pos size : Nat} : (Parser.initial text pos size jsx).Sound :=
    ⟨⟨le_rfl, le_rfl, Nat.zero_le _⟩, fun hkind ↦ absurd rfl hkind, by simp [Token.IsSpelled, Parser.initial]⟩
  have h := (Orders.gets (h := Parse.finds_program) hinitial hrun).ordered
  simpa using h.mono (Nat.zero_le _) le_rfl

theorem exists_ordered_of_mem_nodes (h : parse? source jsx = some parsed) {n : Node}
    (hn : n ∈ parsed.program.body.flatMap Node.nodes) : ∃ high, Ordered 0 high (places n) := by
  obtain ⟨stmt, hstmt, hn⟩ := List.mem_flatMap.1 hn
  exact exists_ordered_node (exists_ordered_part (exists_ordered h) hstmt) hn

theorem isNamed_of_parse? (h : parse? source jsx = some parsed) {stmt : Node}
    (hstmt : stmt ∈ parsed.program.body) : IsNamed stmt := by
  intro m hm
  obtain ⟨high, hordered⟩ := exists_ordered_of_mem_nodes h (List.mem_flatMap.2 ⟨stmt, hstmt, hm⟩)
  exact ownNames_of_places hordered.none_notMem

theorem inOrder_of_parse? (h : parse? source jsx = some parsed) :
    ∃ high, InOrder 0 high ((parsed.program.body.flatMap Node.nodes).flatMap ownPlace) := by
  obtain ⟨high, hordered⟩ := exists_ordered h
  have hsub : ((parsed.program.body.flatMap Node.nodes).flatMap ownPlace).Sublist
      (spansIn (places parsed.program.body)) := by
    rw [List.flatMap_assoc, spansIn_places]
    exact .flatMap_right _ fun stmt _ ↦ nodes_sublist_spansIn stmt
  have hspans := hordered.spans
  exact ⟨high, hspans.ascending.sublist hsub, fun span hspan ↦ hspans.within span (hsub.subset hspan)⟩

end

end Recompose.Script
