import JavaSubset.Proofs.Erasure
import JavaSubset.Proofs.Lockstep
import JavaSubset.Proofs.States
import JavaSubset.Proofs.Termination

/-!
# What productions are made of

* `OneLine s` : the text has no line feed in it;
* `Related worded place n R P Q` : with `n` levels left the parsers `P` and `Q` are made of the same
  steps. They are for two cursors that say the same, with places related by `place`, and the values
  that they come to are related by `R`. If `worded`, each diagnostic says in one line what is wrong;
* `Uniform worded place n R P` : `P` is related to itself. Every production is, up to the notes in
  what it makes (`program_uniform`).

What the steps keep holds of all productions, by induction on how they are made: that they run in
lockstep (`Related.lockstep`), how their diagnostics are worded, that they have runs at all.
-/

namespace JavaSubset

open Cursor

/-! ## Texts on one line -/

def OneLine (s : String) : Prop := '\n' ∉ s.toList

theorem OneLine.literal {l : List Char} (h : l.contains '\n' = false) :
    OneLine (String.ofList l) := by
  rw [OneLine, String.toList_ofList]
  simpa using h

theorem OneLine.append {s t : String} (h : OneLine s) (h' : OneLine t) : OneLine (s ++ t) := by
  rw [OneLine, String.toList_append, List.mem_append, not_or]
  exact ⟨h, h'⟩

theorem ControlWord.oneLine_spelling (word : ControlWord) : OneLine word.spelling := by
  cases word <;> exact .literal rfl

theorem Demand.oneLine_condition (word : ControlWord) : OneLine (condition word).message :=
  .append (.append (.literal rfl) word.oneLine_spelling) (.literal rfl)

theorem Demand.oneLine_conditionEnd (word : ControlWord) :
    OneLine (conditionEnd word).message :=
  .append (.append (.literal rfl) word.oneLine_spelling) (.literal rfl)

theorem Modifier.oneLine_spelling (m : Modifier) : OneLine m.spelling := by
  cases m <;> exact .literal rfl

/-! ## Values that are the same but for their notes -/

/-- The same in the view that `view` takes. -/
abbrev Agree {α β : Type} (view : α → β) (a b : α) : Prop := view a = view b

/-- Nodes that are the same wherever they stand. -/
abbrev AgreeNodes {α β : Type} (view : α → β) (f g : Location → α) : Prop :=
  ∀ l m, view (f l) = view (g m)

theorem map_eq_of_agree {α β : Type} {view : α → β} {as bs : List α}
    (h : List.Forall₂ (Agree view) as bs) : as.map view = bs.map view := by
  induction h with
  | nil => rfl
  | cons head _ ih => rw [List.map_cons, List.map_cons, head, ih]

theorem map_eq_of_rel {α β : Type} {view : α → β} {o o' : Option α}
    (h : Option.Rel (Agree view) o o') : o.map view = o'.map view := by
  cases h with
  | none => rfl
  | some value => exact congrArg some value

theorem filterMap_eq_of_rel {α β : Type} {view : α → β} {as bs : List (Option α)}
    (h : List.Forall₂ (Option.Rel (Agree view)) as bs) :
    (as.filterMap id).map view = (bs.filterMap id).map view := by
  have hmap := congrArg (List.filterMap id) (map_eq_of_agree (h.imp fun _ _ => map_eq_of_rel))
  simpa [List.filterMap_map, List.map_filterMap, Function.comp_def] using hmap

namespace Parser

variable {worded : Prop} {place : Location → Location → Prop} {n : Nat} {α β γ δ σ τ : Type}

/-! ## Steps -/

inductive Related (worded : Prop) (place : Location → Location → Prop) :
    Nat → {α β : Type} → (α → β → Prop) → (Nat → Parser α) → (Nat → Parser β) → Prop where
  /-- Looks ahead, and reads some tokens or none. -/
  | move {n : Nat} {α β : Type} {R : α → β → Prop} {look : Cursor → α} {look' : Cursor → β}
      (count : Cursor → Nat) (value : ∀ {c d}, c.Twin place d → R (look c) (look' d))
      (even : ∀ {c d}, c.Twin place d → count c = count d) :
      Related worded place n R (fun _ c => .ok (look c) (c.skip (count c)))
        (fun _ c => .ok (look' c) (c.skip (count c)))
  | giveUp {n : Nat} {α β : Type} {R : α → β → Prop} {d : Token → Diagnostic}
      (problem : ∀ {t u}, t.Twin place u → (d t).Twin place (d u))
      (words : worded → ∀ t, OneLine (d t).problem.message) :
      Related worded place n R (fun _ c => .error (d c.peek) c) (fun _ c => .error (d c.peek) c)
  | log {n : Nat} {x y : Diagnostic} (problem : x.Twin place y)
      (words : worded → OneLine x.problem.message) :
      Related worded place n Eq (fun _ => log x) (fun _ => log y)
  | bind {n : Nat} {α β γ δ : Type} {R : α → β → Prop} {S : γ → δ → Prop} {P : Nat → Parser α}
      {Q : Nat → Parser β} {F : Nat → α → Parser γ} {G : Nat → β → Parser δ}
      (first : Related worded place n R P Q)
      (rest : ∀ {a b}, R a b → Related worded place n S (fun m => F m a) fun m => G m b) :
      Related worded place n S (fun m => P m >>= F m) fun m => Q m >>= G m
  | map {n : Nat} {α β γ δ : Type} {R : α → β → Prop} {S : γ → δ → Prop} {P : Nat → Parser α}
      {Q : Nat → Parser β} {f : α → γ} {g : β → δ} (inner : Related worded place n R P Q)
      (value : ∀ {a b}, R a b → S (f a) (g b)) :
      Related worded place n S (fun m c => (P m c).map f) fun m c => (Q m c).map g
  | iterate {n : Nat} {β γ σ τ : Type} {R : β → γ → Prop} {S : σ → τ → Prop}
      {step : Nat → σ → Parser (Option (β × σ))} {step' : Nat → τ → Parser (Option (γ × τ))}
      {s : σ} {s' : τ} (loops : ∀ m, Looped (step m))
      (round : ∀ {s s'}, S s s' → Related worded place n
        (Option.Rel fun x y => R x.1 y.1 ∧ S x.2 y.2) (fun m => step m s) fun m => step' m s')
      (start : S s s') :
      Related worded place n (fun x y => List.Forall₂ R x.1 y.1 ∧ S x.2 y.2)
        (fun m => iterate (step m) s) fun m => iterate (step' m) s'
  | recover {n : Nat} {α β : Type} {R : α → β → Prop} {P : Nat → Parser α} {Q : Nat → Parser β}
      (point : SyncPoint) (inner : Related worded place n R P Q) :
      Related worded place n (Option.Rel R) (fun m => recover point (P m)) fun m =>
        recover point (Q m)
  | tooDeep {α β : Type} {R : α → β → Prop} {P : Nat → Parser α} {Q : Nat → Parser β} :
      Related worded place 0 R (guarded P) (guarded Q)
  | guarded {n : Nat} {α β : Type} {R : α → β → Prop} {P : Nat → Parser α} {Q : Nat → Parser β}
      (inner : Related worded place n R P Q) :
      Related worded place (n + 1) R (guarded P) (guarded Q)

abbrev Uniform (worded : Prop) (place : Location → Location → Prop) (n : Nat) (R : α → α → Prop)
    (P : Nat → Parser α) : Prop :=
  Related worded place n R P P

namespace Related

section Sequences

variable {R : α → β → Prop} {S : γ → δ → Prop} {P P' : Nat → Parser α} {Q Q' : Nat → Parser β}
  {F : Nat → α → Parser γ} {G : Nat → β → Parser δ}

theorem look {look : Cursor → α} {look' : Cursor → β}
    (value : ∀ {c d}, c.Twin place d → R (look c) (look' d)) :
    Related worded place n R (fun _ c => .ok (look c) c) (fun _ c => .ok (look' c) c) :=
  .move (fun _ => 0) value fun _ => rfl

theorem pure {a : α} {b : β} (h : R a b) :
    Related worded place n R (fun _ => Pure.pure a) fun _ => Pure.pure b :=
  look fun _ => h

/-- Both runs see the same and decide alike. -/
theorem same {P Q : Nat → Parser α} {F : Nat → α → Parser γ} {G : Nat → α → Parser δ}
    (h : Related worded place n Eq P Q)
    (rest : ∀ a, Related worded place n S (fun m => F m a) fun m => G m a) :
    Related worded place n S (fun m => P m >>= F m) fun m => Q m >>= G m :=
  h.bind fun heq => heq ▸ rest _

theorem map_bind {f : α → γ} {g : β → δ} (h : Related worded place n R P Q)
    (value : ∀ {a b}, R a b → S (f a) (g b)) :
    Related worded place n S (fun m => P m >>= fun a => Pure.pure (f a)) fun m =>
      Q m >>= fun b => Pure.pure (g b) :=
  h.bind fun hab => pure (value hab)

theorem imp {R' : α → β → Prop} (h : Related worded place n R P Q)
    (himp : ∀ {a b}, R a b → R' a b) : Related worded place n R' P Q := by
  have hmap := h.map (f := id) (g := id) himp
  simpa only [Reply.map_id] using hmap

theorem ite {b : Prop} [Decidable b] (h : Related worded place n R P Q)
    (h' : Related worded place n R P' Q') :
    Related worded place n R (fun m => if b then P m else P' m) fun m =>
      if b then Q m else Q' m := by
  by_cases hb : b
  · simpa only [hb, ↓reduceIte] using h
  · simpa only [hb, ↓reduceIte] using h'

end Sequences

section Tokens

variable {demand : Demand} {kind : Token.Kind}

theorem peek : Uniform worded place n (Token.Twin place) fun _ => peek :=
  .look fun twin => twin.peek

theorem peekKind : Uniform worded place n Eq fun _ => peekKind := .look fun twin => twin.peek.kind

theorem peekNextKind : Uniform worded place n Eq fun _ => peekNextKind :=
  .look fun twin => twin.peekNext.kind

theorem atEnd : Uniform worded place n Eq fun _ => atEnd := .look fun twin => twin.atEnd.symm

theorem sees : Uniform worded place n Eq fun _ => sees kind := peekKind.map_bind fun h => by rw [h]

theorem advance : Uniform worded place n (Token.Twin place) fun _ => advance :=
  .move (fun _ => 1) (fun twin => twin.peek) fun _ => rfl

theorem locationFrom {t u : Token} :
    Related worded place n (fun _ _ => True) (fun _ => Parser.locationFrom t) fun _ =>
      Parser.locationFrom u :=
  .look fun _ => trivial

theorem accept : Uniform worded place n Eq fun _ => accept kind := by
  refine .same sees fun seen => .ite ?_ (.pure rfl)
  exact advance.map_bind fun _ => rfl

theorem skipToEnd : Uniform worded place n Eq fun _ => skipToEnd :=
  .move (·.rest.length) (fun _ => rfl) fun twin => twin.length.symm

theorem fail {R : α → α → Prop} (words : worded → OneLine demand.message) :
    Uniform worded place n R fun _ => fail demand :=
  .giveUp (fun twin => twin.unexpected demand) fun hworded _ => words hworded

theorem complain (words : worded → OneLine demand.message) :
    Uniform worded place n Eq fun _ => complain demand :=
  peek.bind fun token => .log (token.unexpected demand) words

theorem expect (words : worded → OneLine demand.message) :
    Uniform worded place n (Token.Twin place) fun _ => expect demand :=
  .same peekKind fun _ => .ite advance (fail words)

theorem name (words : worded → OneLine demand.message) :
    Uniform worded place n Eq fun _ => name demand :=
  (expect words).map_bind fun token => token.text

theorem located {view : α → β} {P : Nat → Parser (Location → α)}
    (h : Uniform worded place n (AgreeNodes view) P) :
    Uniform worded place n (Agree view) fun m => located (P m) := by
  refine peek.bind fun _ => h.bind fun node => ?_
  exact locationFrom.map_bind fun _ => node _ _

end Tokens

section Loops

variable {R : α → α → Prop} {P : Nat → Parser α} {kind : Token.Kind}

theorem many {R : α → β → Prop} {step : Nat → Parser (Option α)} {step' : Nat → Parser (Option β)}
    (loops : ∀ m, Looped (round (step m))) (h : Related worded place n (Option.Rel R) step step') :
    Related worded place n (List.Forall₂ R) (fun m => many (step m)) fun m => many (step' m) := by
  have hround : ∀ {u u' : Unit}, u = u' → Related worded place n
      (Option.Rel fun x y => R x.1 y.1 ∧ x.2 = y.2) (fun m => round (step m) u)
      fun m => round (step' m) u' := by
    refine fun _ => h.map_bind fun value => ?_
    cases value with
    | none => exact .none
    | some value => exact .some ⟨value, rfl⟩
  exact (Related.iterate (R := R) (S := Eq) loops hround rfl).map fun items => items.1

theorem behind (h : Uniform worded place n R P) :
    Uniform worded place n (Option.Rel R) fun m => behind kind (P m) :=
  .same accept fun _ => .ite (h.map_bind .some) (.pure .none)

theorem separated (loops : ∀ m, Looped (round (Parser.behind (.punctuation .comma) (P m))))
    (h : Uniform worded place n R P) :
    Uniform worded place n (List.Forall₂ R) fun m => separated (P m) := by
  refine h.bind fun first => ?_
  exact (many loops (behind h)).map_bind fun more => .cons first more

theorem bodyOf {point : SyncPoint} {view : α → β}
    (loops : ∀ m, Looped (round (bodyItem point (P m))))
    (h : Uniform worded place n (Agree view) P) :
    Uniform worded place n (Agree (List.map view)) fun m => bodyOf point (P m) := by
  have hitem : Uniform worded place n (Option.Rel (Option.Rel (Agree view))) fun m =>
      bodyItem point (P m) := by
    refine .same atEnd fun _ => .same sees fun _ => .ite (.pure .none) ?_
    exact (h.recover point).map_bind .some
  exact (many loops hitem).map_bind filterMap_eq_of_rel

end Loops

end Related

variable {demand : Demand} {kind : Token.Kind}

/-- What is said in the source. -/
theorem plain {l : List Char} (h : l.contains '\n' = false) : worded → OneLine (String.ofList l) :=
  fun _ => .literal h

/-! ## Expressions -/

section Expressions

variable (hexpr : Uniform worded place n (Agree Expr.erase) expression)

include hexpr

theorem arguments_uniform (words : worded → OneLine demand.message) :
    Uniform worded place n (Agree (List.map Expr.erase)) fun m =>
      arguments (expression m) demand := by
  refine .bind (.expect words) fun _ => .same .sees fun _ => .ite ?_ ?_
  · exact .same (.pure rfl) fun _ => .map_bind (.expect (plain rfl)) fun _ => rfl
  · refine .bind (.separated .arguments hexpr) fun args => ?_
    exact .map_bind (.expect (plain rfl)) fun _ => map_eq_of_agree args

theorem primary_uniform :
    Uniform worded place n (Agree Expr.erase) fun m => primary (expression m) := by
  have hargs {demand : Demand} (words : worded → OneLine demand.message) :=
    arguments_uniform hexpr words
  refine .located (.same .peekKind fun kind => ?_)
  cases kind with
  | identifier =>
    refine .bind .advance fun token => .same .sees fun _ => .ite ?_ ?_
    · exact .map_bind (hargs (plain rfl)) fun args _ _ => by simp [token.text, args]
    · exact .pure fun _ _ => by simp [token.text]
  | number => exact Related.advance.map_bind fun token _ _ => by simp [token.text, token.literal]
  | stringLiteral => exact Related.advance.map_bind fun token _ _ => by simp [token.literal]
  | keyword word =>
    cases word with
    | expression word =>
      cases word with
      | thisKw => exact Related.advance.map_bind fun _ _ _ => rfl
      | superKw =>
        refine .bind .advance fun _ => .bind (.expect (plain rfl)) fun _ => ?_
        refine .same (.name (plain rfl)) fun method => ?_
        exact .map_bind (hargs (plain rfl)) fun args _ _ => by simp [args]
      | newKw =>
        refine .bind .advance fun _ => .same (.name (plain rfl)) fun className => ?_
        exact .map_bind (hargs (plain rfl)) fun args _ _ => by simp [args]
      | instanceofKw => exact .fail (plain rfl)
    | _ => exact .fail (plain rfl)
  | punctuation mark =>
    cases mark with
    | lparen =>
      refine .bind .advance fun _ => hexpr.bind fun inner => ?_
      exact .map_bind (.expect (plain rfl)) fun _ _ _ => by simp [inner]
    | _ => exact .fail (plain rfl)
  | _ => exact .fail (plain rfl)

theorem selector_related {t u : Token} :
    Related worded place n (Option.Rel (Agree Selector.erase))
      (fun m => selector (expression m) t) fun m => selector (expression m) u := by
  refine .same .accept fun _ => .ite ?_ (.pure .none)
  refine .same (.name (plain rfl)) fun property => .same .sees fun _ => .ite ?_ ?_
  · refine .bind (arguments_uniform hexpr (plain rfl)) fun args => ?_
    exact Related.locationFrom.map_bind fun _ => .some (by simp [Agree, Selector.erase, args])
  · exact Related.locationFrom.map_bind fun _ => .some rfl

theorem selection_uniform :
    Uniform worded place n (Agree Expr.erase) fun m => selection (expression m) := by
  refine .bind .peek fun {t _} _ => (primary_uniform hexpr).bind fun target => ?_
  refine (Related.many (.selectors · t) (selector_related hexpr)).map_bind fun selectors => ?_
  simp only [Agree, Expr.erase_foldl_apply, target, map_eq_of_agree selectors]

theorem unary_uniform :
    Uniform worded place n (Agree Expr.erase) fun m => unary (expression m) := by
  refine .same .peekKind fun kind => ?_
  cases sign? kind with
  | none => exact selection_uniform hexpr
  | some op =>
    refine .located (.bind .advance fun _ => ?_)
    exact (selection_uniform hexpr).map_bind fun operand _ _ => by simp [operand]

omit hexpr in
theorem chain_uniform (tier : Tier)
    (h : Uniform worded place n (Agree Expr.erase) fun m => operandOf (expression m) tier) :
    Uniform worded place n (Agree Expr.erase) fun m =>
      chain tier (operandOf (expression m) tier) := by
  have hlink : Uniform worded place n (Option.Rel (Agree (Prod.map id Expr.erase))) fun m =>
      link tier (operandOf (expression m) tier) := by
    refine .same .peekKind fun kind => ?_
    cases tierOp? tier kind with
    | none => exact .pure .none
    | some op =>
      exact .bind .advance fun _ => h.map_bind fun operand => .some (by simp [Agree, operand])
  refine h.bind fun first => (Related.many (.links · tier) hlink).map_bind fun links => ?_
  simp only [Agree, Expr.erase_foldl_join, first, map_eq_of_agree links]

theorem operandOf_uniform (tier : Tier) :
    Uniform worded place n (Agree Expr.erase) fun m => operandOf (expression m) tier := by
  have hunary := unary_uniform hexpr
  have hmultiplicative := chain_uniform .multiplicative hunary
  have hadditive := chain_uniform .additive hmultiplicative
  cases tier with
  | multiplicative => exact hunary
  | additive => exact hmultiplicative
  | relational => exact hadditive
  | logical => exact chain_uniform .relational hadditive

end Expressions

theorem expression_uniform (n : Nat) : Uniform worded place n (Agree Expr.erase) expression := by
  rw [expression_eq]
  induction n with
  | zero => exact .tooDeep
  | succ n ih =>
    rw [← expression_eq] at ih
    exact .guarded (chain_uniform .logical (operandOf_uniform ih .logical))

/-! ## Expression statements -/

theorem primitiveType_uniform (words : worded → OneLine demand.message) :
    Uniform worded place n Eq fun _ => primitiveType demand := by
  refine .same .peekKind fun kind => ?_
  cases kind.primitiveType? with
  | none => exact .fail words
  | some type => exact Related.advance.map_bind fun _ => rfl

theorem checkTarget_related {e e' : Expr Location} {t u : Token} (target : Agree Expr.erase e e')
    (token : t.Twin place u) :
    Related worded place n Eq (fun _ => checkTarget e t) fun _ => checkTarget e' u := by
  have hassignable : e.isAssignable = e'.isAssignable := by
    rw [← Expr.isAssignable_erase e, target, Expr.isAssignable_erase]
  unfold checkTarget
  rw [hassignable]
  exact .ite (.pure rfl) (.log (token.unexpected _) (plain rfl))

/-- The assignments behind an expression, as functions of the trees without notes. -/
theorem foldr_store_erase {links links' : List (Expr Location × AssignOp)} {e e' : Expr Location}
    (h : List.Forall₂ (Agree (Prod.map Expr.erase id)) links links') (he : Agree Expr.erase e e') :
    Agree Expr.erase (links.foldr store e) (links'.foldr store e') := by
  induction h with
  | nil => exact he
  | @cons link link' _ _ head _ ih =>
    obtain ⟨htarget, hop⟩ : link.1.erase = link'.1.erase ∧ link.2 = link'.2 := by
      simpa [Agree, Prod.map] using head
    change Expr.erase (store link _) = Expr.erase (store link' _)
    simp only [store, Expr.erase_assign, htarget, hop, ih]

theorem initializer_uniform :
    Uniform worded place n (Agree (Option.map Expr.erase)) fun m => initializer (expression m) := by
  refine .same .accept fun _ => .ite ?_ (.pure rfl)
  exact (expression_uniform n).map_bind fun value => congrArg some value

theorem declarator_uniform (words : worded → OneLine demand.message) :
    Uniform worded place n (Agree Declarator.erase) fun m => declarator (expression m) demand := by
  refine .same (.name words) fun _ => ?_
  exact initializer_uniform.map_bind fun init => by simp [Agree, init]

theorem localVariables_uniform :
    Uniform worded place n (AgreeNodes Stmt.erase) fun m => localVariables (expression m) := by
  refine .same (primitiveType_uniform (plain rfl)) fun type => ?_
  refine .bind (.separated (.declarators · _) (declarator_uniform (plain rfl))) fun ds => ?_
  exact .map_bind (.expect (plain rfl)) fun _ _ _ => by simp [map_eq_of_agree ds]

theorem assignment_related {e e' : Expr Location} (target : Agree Expr.erase e e') :
    Related worded place n
      (Option.Rel fun x y => Agree (Prod.map Expr.erase id) x.1 y.1 ∧ Agree Expr.erase x.2 y.2)
      (fun m => assignment (expression m) e) fun m => assignment (expression m) e' := by
  refine .same .peekKind fun kind => ?_
  cases assignOp? kind with
  | none => exact .pure .none
  | some op =>
    refine .bind .advance fun token => .bind (checkTarget_related target token) fun _ => ?_
    exact (expression_uniform n).map_bind fun value => .some ⟨by simp [Agree, target], value⟩

theorem assignments_related {e e' : Expr Location} (target : Agree Expr.erase e e') :
    Related worded place n (Agree Expr.erase) (fun m => assignments (expression m) e) fun m =>
      assignments (expression m) e' :=
  (Related.iterate .assignments assignment_related target).map fun h => foldr_store_erase h.1 h.2

theorem effect_uniform :
    Uniform worded place n (Agree Expr.erase) fun m => effect (expression m) := by
  have hexpr : Uniform worded place n (Agree Expr.erase) expression := expression_uniform n
  refine .bind .peek fun {t u} start => ?_
  rw [start.kind]
  cases step? u.kind with
  | some step =>
    refine .bind .advance fun token => (selection_uniform hexpr).bind fun target => ?_
    refine (checkTarget_related target token).bind fun _ => ?_
    exact Related.locationFrom.map_bind fun _ => by simp [Agree, target]
  | none =>
    refine hexpr.bind fun value => .same .peekKind fun kind => ?_
    cases step? kind with
    | some step =>
      refine .bind .advance fun token => (checkTarget_related value token).bind fun _ => ?_
      exact Related.locationFrom.map_bind fun _ => by simp [Agree, value]
    | none => exact assignments_related value

theorem effectStatement_uniform :
    Uniform worded place n (AgreeNodes Stmt.erase) fun m => effectStatement (expression m) := by
  refine effect_uniform.bind fun value => ?_
  exact .map_bind (.expect (plain rfl)) fun _ _ _ => by simp [value]

/-! ## Statements -/

theorem condition_uniform {word : ControlWord} :
    Uniform worded place n (Agree Expr.erase) fun m => condition (expression m) word := by
  refine .bind (.expect fun _ => Demand.oneLine_condition word) fun _ => ?_
  refine (expression_uniform n).bind fun value => ?_
  exact .map_bind (.expect fun _ => Demand.oneLine_conditionEnd word) fun _ => value

theorem label?_uniform : Uniform worded place n Eq fun _ => label? := by
  refine .same .sees fun _ => .ite ?_ (.pure rfl)
  exact Related.advance.map_bind fun token => congrArg some token.text

theorem jump_uniform (words : worded → OneLine demand.message) :
    Uniform worded place n Eq fun _ => jump demand := by
  refine .bind .advance fun _ => .same label?_uniform fun label => ?_
  exact .map_bind (.expect words) fun _ => rfl

theorem breakStatement_uniform :
    Uniform worded place n (AgreeNodes Stmt.erase) fun _ => breakStatement := by
  refine .map_bind (jump_uniform (plain rfl)) fun label _ _ => ?_
  rw [label, Stmt.erase_breakTo, Stmt.erase_breakTo]

theorem continueStatement_uniform :
    Uniform worded place n (AgreeNodes Stmt.erase) fun _ => continueStatement := by
  refine .map_bind (jump_uniform (plain rfl)) fun label _ _ => ?_
  rw [label, Stmt.erase_continueTo, Stmt.erase_continueTo]

theorem returnStatement_uniform :
    Uniform worded place n (AgreeNodes Stmt.erase) fun m => returnStatement (expression m) := by
  refine .bind .advance fun _ => .same .sees fun _ => .ite ?_ ?_
  · refine .same (.pure rfl) fun value => ?_
    exact .map_bind (.expect (plain rfl)) fun _ _ _ => rfl
  · have hvalue : Uniform worded place n (Agree (Option.map Expr.erase)) fun m =>
        some <$> expression m :=
      (expression_uniform n).map_bind fun value => congrArg some value
    refine hvalue.bind fun value => ?_
    exact .map_bind (.expect (plain rfl)) fun _ _ _ => by simp [value]

section Statements

variable (hstmt : Uniform worded place n (Agree Stmt.erase) statement)

include hstmt

theorem block_uniform (words : worded → OneLine demand.message) :
    Uniform worded place n (Agree (List.map Stmt.erase)) fun m => block (statement m) demand := by
  refine .bind (.expect words) fun _ => .bind (.bodyOf .block hstmt) fun body => ?_
  exact .map_bind (.expect (plain rfl)) fun _ => body

theorem labeledStatement_uniform :
    Uniform worded place n (AgreeNodes Stmt.erase) fun m => labeledStatement (statement m) := by
  refine .bind .advance fun label => .bind .advance fun _ => ?_
  exact hstmt.map_bind fun body _ _ => by simp [label.text, body]

theorem ifStatement_uniform :
    Uniform worded place n (AgreeNodes Stmt.erase) fun m =>
      ifStatement (statement m) (expression m) := by
  refine .bind .advance fun _ => condition_uniform.bind fun test => ?_
  refine hstmt.bind fun branch => .same .accept fun _ => .ite ?_ ?_
  · exact hstmt.map_bind fun other _ _ => by simp [test, branch, other]
  · exact .pure fun _ _ => by simp [test, branch]

theorem whileStatement_uniform :
    Uniform worded place n (AgreeNodes Stmt.erase) fun m =>
      whileStatement (statement m) (expression m) := by
  refine .bind .advance fun _ => condition_uniform.bind fun test => ?_
  exact hstmt.map_bind fun body _ _ => by simp [test, body]

theorem doStatement_uniform :
    Uniform worded place n (AgreeNodes Stmt.erase) fun m =>
      doStatement (statement m) (expression m) := by
  refine .bind .advance fun _ => hstmt.bind fun body => .bind (.expect (plain rfl)) fun _ => ?_
  refine condition_uniform.bind fun test => ?_
  exact .map_bind (.expect (plain rfl)) fun _ _ _ => by simp [body, test]

theorem catchClause_uniform :
    Uniform worded place n (Agree CatchClause.erase) fun m => catchClause (statement m) := by
  refine .bind (.expect (plain rfl)) fun _ => .same (.name (plain rfl)) fun exceptionType => ?_
  refine .same (.name (plain rfl)) fun name => .bind (.expect (plain rfl)) fun _ => ?_
  refine .map_bind (block_uniform hstmt (plain rfl)) fun body => ?_
  simp only [Agree, CatchClause.erase, body]

theorem tryStatement_uniform :
    Uniform worded place n (AgreeNodes Stmt.erase) fun m => tryStatement (statement m) := by
  refine .bind .advance fun _ => .bind (block_uniform hstmt (plain rfl)) fun body => ?_
  refine .bind (.many .catches (.behind (catchClause_uniform hstmt))) fun {catches catches'} h => ?_
  have hcatches : catches.map CatchClause.erase = catches'.map CatchClause.erase :=
    map_eq_of_agree h
  have hempty : catches.isEmpty = catches'.isEmpty := by
    simpa using congrArg List.isEmpty hcatches
  refine .same .accept fun _ => .ite ?_ ?_
  · refine .map_bind (block_uniform hstmt (plain rfl)) fun cleanup _ _ => ?_
    simp [body, hcatches, cleanup]
  · rw [hempty]
    refine .ite ?_ (.pure fun _ _ => by simp [body, hcatches])
    exact .map_bind (.complain (plain rfl)) fun _ _ _ => by simp [body, hcatches]

theorem statementOf_uniform (kind : Token.Kind) :
    Uniform worded place n (AgreeNodes Stmt.erase) fun m =>
      statementOf (statement m) (expression m) kind := by
  cases kind with
  | keyword word =>
    cases word with
    | primitive type => exact localVariables_uniform
    | control word =>
      cases word with
      | ifKw => exact ifStatement_uniform hstmt
      | whileKw => exact whileStatement_uniform hstmt
      | doKw => exact doStatement_uniform hstmt
      | breakKw => exact breakStatement_uniform
      | continueKw => exact continueStatement_uniform
      | returnKw => exact returnStatement_uniform
      | tryKw => exact tryStatement_uniform hstmt
      | _ => exact .fail (plain rfl)
    | expression word =>
      cases word with
      | instanceofKw => exact .fail (plain rfl)
      | _ => exact effectStatement_uniform
    | _ => exact .fail (plain rfl)
  | punctuation mark =>
    cases mark with
    | lbrace => exact .map_bind (block_uniform hstmt (plain rfl)) fun body _ _ => by simp [body]
    | semicolon => exact Related.advance.map_bind fun _ _ _ => rfl
    | _ => exact effectStatement_uniform
  | identifier =>
    refine .same .peekNextKind fun _ => ?_
    exact .ite (labeledStatement_uniform hstmt) effectStatement_uniform
  | _ => exact effectStatement_uniform

end Statements

theorem statement_uniform (n : Nat) : Uniform worded place n (Agree Stmt.erase) statement := by
  rw [statement_eq]
  induction n with
  | zero => exact .tooDeep
  | succ n ih =>
    rw [← statement_eq] at ih
    exact .guarded (.located (.same .peekKind (statementOf_uniform ih)))

/-! ## Members -/

section Members

variable {set : ModifierSet} {type : PrimitiveType} {word : String}

theorem addModifier_uniform {seen : List Modifier} {modifier : Modifier} :
    Uniform worded place n Eq fun _ => addModifier seen modifier := by
  have hwords : ∀ t, OneLine (Diagnostic.repeatedModifier modifier t).problem.message := fun _ =>
    .append (.append (.literal rfl) modifier.oneLine_spelling) (.literal rfl)
  refine .bind .advance fun {t u} token => .ite ?_ (.pure rfl)
  have htwin : (Diagnostic.repeatedModifier modifier t).Twin place
      (.repeatedModifier modifier u) := ⟨rfl, token.place⟩
  exact .same (.log htwin fun _ => hwords t) fun _ => .pure rfl

theorem classModifier_uniform (seen : List Modifier) :
    Uniform worded place n (Option.Rel fun x y => x.1 = y.1 ∧ x.2 = y.2) fun _ =>
      classModifier seen := by
  refine .same .peekKind fun kind => ?_
  cases kind.modifier? with
  | none => exact .pure .none
  | some modifier =>
    refine .ite (addModifier_uniform.map_bind fun seen => .some ⟨rfl, seen⟩) ?_
    refine .bind (.complain (plain rfl)) fun _ => ?_
    exact Related.advance.map_bind fun _ => .some ⟨rfl, rfl⟩

theorem memberModifier_uniform (seen : List Modifier) :
    Uniform worded place n (Option.Rel fun x y => x.1 = y.1 ∧ x.2 = y.2) fun _ =>
      memberModifier seen := by
  refine .same .peekKind fun kind => ?_
  cases kind.modifier? with
  | none => exact .pure .none
  | some modifier =>
    exact .ite (addModifier_uniform.map_bind fun seen => .some ⟨rfl, seen⟩) (.pure .none)

theorem modifiers_uniform {next : List Modifier → Parser (Option (Unit × List Modifier))}
    (loops : Looped next) (h : ∀ seen, Uniform worded place n
      (Option.Rel fun x y => x.1 = y.1 ∧ x.2 = y.2) fun _ => next seen) :
    Uniform worded place n Eq fun _ => modifiers next := by
  have hround : ∀ {seen seen' : List Modifier}, seen = seen' → Related worded place n
      (Option.Rel fun x y => x.1 = y.1 ∧ x.2 = y.2) (fun _ => next seen) fun _ => next seen' :=
    fun hseen => hseen ▸ h _
  exact (Related.iterate (R := Eq) (S := Eq) (fun _ => loops) hround rfl).map fun h =>
    congrArg ModifierSet.ofList h.2

theorem parameter_uniform : Uniform worded place n Eq fun _ => parameter := by
  refine .same (primitiveType_uniform (plain rfl)) fun type => ?_
  exact .map_bind (.name (plain rfl)) fun name => by rw [name]

theorem methodRest_uniform :
    Uniform worded place n (AgreeNodes Member.erase) fun m => methodRest m set type word := by
  have hbody (params : List Param) : Uniform worded place n (AgreeNodes Member.erase) fun m => do
      let _ ← expect .parametersEnd
      let body ← block (statement m) .methodBody
      return (.method · set type word params body) := by
    refine .bind (.expect (plain rfl)) fun _ => ?_
    exact .map_bind (block_uniform (statement_uniform n) (plain rfl)) fun body _ _ => by simp [body]
  refine .bind .advance fun _ => .same .sees fun _ => .ite ?_ ?_
  · exact .same (.pure rfl) hbody
  · refine .bind (.separated (fun _ => .parameters) parameter_uniform) fun params => ?_
    rw [List.forall₂_eq_eq_eq] at params
    exact params ▸ hbody _

theorem fieldRest_uniform :
    Uniform worded place n (AgreeNodes Member.erase) fun m => fieldRest m set type word := by
  refine initializer_uniform.bind fun init => ?_
  refine .bind (.many (.declarators · _) (.behind (declarator_uniform (plain rfl)))) fun more => ?_
  exact .map_bind (.expect (plain rfl)) fun _ _ _ => by simp [init, map_eq_of_agree more]

theorem member_uniform (n : Nat) : Uniform worded place n (Agree Member.erase) member := by
  refine .located (.same (modifiers_uniform .memberModifiers memberModifier_uniform) fun set => ?_)
  have htype : worded → OneLine (if set.isEmpty then Demand.member else .memberType).message := by
    intro _
    split <;> exact .literal rfl
  refine .same (primitiveType_uniform htype) fun type => .same (.name (plain rfl)) fun name => ?_
  exact .same .sees fun _ => .ite methodRest_uniform fieldRest_uniform

theorem classBody_uniform :
    Uniform worded place n (Agree (List.map Member.erase)) classBody := by
  refine .bind (.expect (plain rfl)) fun _ => ?_
  refine .bind (.bodyOf .classBody (member_uniform n)) fun members => ?_
  refine .same .accept fun _ => .ite (.pure members) ?_
  exact .map_bind (.complain (plain rfl)) fun _ => members

theorem classDecl_uniform (n : Nat) : Uniform worded place n (Agree ClassDecl.erase) classDecl := by
  refine .located (.same (modifiers_uniform .classModifiers classModifier_uniform) fun set => ?_)
  refine .bind (.expect (plain rfl)) fun _ => .same (.name (plain rfl)) fun name => ?_
  exact classBody_uniform.map_bind fun members _ _ => by simp [members]

end Members

/-! ## The whole source -/

theorem qualifiedName_uniform (words : worded → OneLine demand.message) :
    Uniform worded place n Eq fun _ => qualifiedName demand := by
  refine .same (.name words) fun first => ?_
  refine .map_bind (.many (fun _ => .names) (.behind (.name (plain rfl)))) fun more => ?_
  rw [List.forall₂_eq_eq_eq] at more
  rw [more]

theorem clause_uniform {ending : Demand} (words : worded → OneLine demand.message)
    (last : worded → OneLine ending.message) :
    Uniform worded place n Eq fun _ => clause demand ending := by
  refine .bind .advance fun _ => .same (qualifiedName_uniform words) fun name => ?_
  exact .map_bind (.expect last) fun _ => rfl

theorem package?_uniform : Uniform worded place n Eq fun _ => package? := by
  refine .same .sees fun _ => .ite ?_ (.pure rfl)
  have hclause : Uniform worded place n (Agree id) fun _ => packageDecl :=
    clause_uniform (plain rfl) (plain rfl)
  exact (hclause.recover .topLevel).imp fun name => by simpa using map_eq_of_rel name

theorem imports_uniform : Uniform worded place n Eq fun _ => imports := by
  have hclause : Uniform worded place n (Agree id) fun _ => importDecl :=
    clause_uniform (plain rfl) (plain rfl)
  have hnext : Uniform worded place n (Option.Rel (Option.Rel (Agree id))) fun _ => nextImport := by
    refine .same .sees fun _ => .ite ?_ (.pure .none)
    exact (hclause.recover .topLevel).map_bind .some
  refine .map_bind (.many (fun _ => .imports) hnext) fun names => ?_
  simpa using filterMap_eq_of_rel names

theorem locateClass_uniform {again : Bool} :
    Uniform worded place n Eq fun _ => locateClass again := by
  have hahead : Uniform worded place n Eq fun _ => classAhead := by
    refine .look fun twin => ?_
    have hany := congrArg (List.any · (· = Token.Kind.keyword (.declaration .classKw))) twin.kinds
    simpa [List.any_map, Function.comp_def] using hany
  have hto : Uniform worded place n Eq fun _ => skipTo (·.kind.startsClass) := by
    refine .move (·.rest.findIdx (·.kind.startsClass)) (fun _ => rfl) fun twin => ?_
    have hidx := congrArg (List.findIdx (·.startsClass)) twin.kinds
    simpa only [List.findIdx_map, Function.comp_def] using hidx
  refine .same hahead fun _ => .ite (.same .peekKind fun kind => .ite ?_ ?_) (.ite ?_ ?_)
  · exact .pure rfl
  · exact .bind (.complain (plain rfl)) fun _ => hto.map_bind fun _ => rfl
  · exact Related.skipToEnd.map_bind fun _ => rfl
  · refine .bind .peek fun {t u} token => ?_
    have htwin : (Diagnostic.missingClass t).Twin place (.missingClass u) := by
      refine ⟨?_, token.place⟩
      simp only [Diagnostic.missingClass, token.kind, token.text]
    exact .bind (.log htwin (plain rfl)) fun _ => Related.skipToEnd.map_bind fun _ => rfl

/-- Both searches have come equally far, to the same class if they have found one. -/
inductive SearchTwin : ClassSearch → ClassSearch → Prop where
  | first : SearchTwin .first .first
  | again : SearchTwin .again .again
  | found {decl decl' : ClassDecl Location} (agree : Agree ClassDecl.erase decl decl') :
      SearchTwin (.found decl) (.found decl')

theorem SearchTwin.refl (s : ClassSearch) : SearchTwin s s := by
  cases s with
  | first => exact .first
  | again => exact .again
  | found decl => exact .found rfl

theorem SearchTwin.result {s s' : ClassSearch} (h : SearchTwin s s') :
    Agree (Option.map ClassDecl.erase) s.result? s'.result? := by
  cases h with
  | first => rfl
  | again => rfl
  | found agree => exact congrArg some agree

theorem attempt_related {s s' : ClassSearch} (h : SearchTwin s s') :
    Related worded place n (Option.Rel fun x y => x.1 = y.1 ∧ SearchTwin x.2 y.2)
      (fun m => attempt m s) fun m => attempt m s' := by
  have hfrom : ∀ again, Uniform worded place n
      (Option.Rel fun x y => x.1 = y.1 ∧ SearchTwin x.2 y.2) fun m => attemptFrom m again := by
    intro again
    refine .same locateClass_uniform fun _ => .ite ?_ (.pure .none)
    refine ((classDecl_uniform n).recover .topLevel).bind fun {o o'} found => ?_
    cases found with
    | none => exact .pure (.some ⟨rfl, .again⟩)
    | some agree => exact .pure (.some ⟨rfl, .found agree⟩)
  cases h with
  | first => exact hfrom false
  | again => exact hfrom true
  | found => exact .pure .none

theorem classDeclaration_uniform :
    Uniform worded place n (Agree (Option.map ClassDecl.erase)) classDeclaration := by
  refine (Related.iterate (R := Eq) (S := SearchTwin) .attempts attempt_related .first).map ?_
  exact fun h => h.2.result

/-- **Every production takes the same steps wherever its tokens stand.** -/
theorem program_uniform (n : Nat) : Uniform worded place n (Agree Program.erase) program := by
  refine .same package?_uniform fun package => .same imports_uniform fun imports => ?_
  refine classDeclaration_uniform.bind fun decl => .same .atEnd fun _ => .ite ?_ ?_
  · exact .pure (by simp [Agree, decl])
  · refine .bind (.complain (plain rfl)) fun _ => Related.skipToEnd.map_bind fun _ => ?_
    simp [Agree, decl]

/-! ## Lockstep -/

theorem Related.lockstep {R : α → β → Prop} {P : Nat → Parser α} {Q : Nat → Parser β}
    (h : Related worded place n R P Q) : Lockstep place R (P n) (Q n) := by
  induction h with
  | @move _ _ _ _ look look' count value even =>
    intro c d twin
    change Reply.Twin place _ (.ok (look c) (c.skip (count c))) (.ok (look' d) (d.skip (count d)))
    rw [← even twin]
    exact .ok (value twin) .nil (twin.skip _)
  | giveUp problem words => exact fun c d twin => .error (problem twin.peek) .nil twin
  | log problem words => exact fun c d twin => .ok rfl (.cons problem .nil) twin
  | bind first rest ih ih' => exact ih.bind ih'
  | map inner value ih => exact ih.map value
  | iterate loops round start ih => exact .iterate ih start
  | recover point inner ih => exact ih.recover
  | tooDeep =>
    intro c d twin
    refine .error ⟨?_, twin.peek.place⟩ .nil twin
    simp only [Diagnostic.nestingTooDeep, twin.peek.kind, twin.peek.text]
  | guarded inner ih => exact ih

/-- **What a program parses to depends on where its tokens stand only in the notes.** -/
theorem program_lockstep (limit : Nat) :
    Lockstep place (Agree Program.erase) (program limit) (program limit) := by
  have huniform : Uniform False place limit (Agree Program.erase) program := program_uniform limit
  exact huniform.lockstep

/-- A parser that takes the same steps as another gives a value where that one does. -/
theorem Related.exists_value {R : α → β → Prop} {P : Nat → Parser α} {Q : Nat → Parser β}
    (h : Related worded Eq n R P Q) {c c' : Cursor} {a : α} {reports : List Diagnostic}
    (hp : P n c = ⟨.ok a, reports, c'⟩) : ∃ b, R a b := by
  have hreply := h.lockstep c c (.refl c)
  rw [hp] at hreply
  generalize Q n c = s at hreply
  cases hreply with
  | ok value reports cursor => exact ⟨_, value⟩

end Parser

end JavaSubset
