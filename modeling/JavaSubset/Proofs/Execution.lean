import JavaSubset.Lexed
import JavaSubset.Proofs.Productions

/-!
# Every production runs

* `Executes depth P` : from every sane state of this depth the parser `P` has a run. The steps that
  productions are made of keep this, loops because each round that goes on reads a token
  (`Related.executes`);
* `Rule P` : the productions. `EatingRule P` are those that read something when they succeed,
  `ExpressionRule P` those that report nothing;
* `Keeps tokens P s trace o s'` : what a run of a production keeps of the state;
* `rule_keeps_state` : every production has runs, and all of them keep the state;
* `exists_exec_parse` : a whole parse is such a run.
-/

namespace JavaSubset

open Cursor

namespace Parser

variable {α β σ : Type} {depth : Nat} {P : Nat → Parser α}

/-! ## Runs of the steps -/

/-- From every sane state of this depth the parser has a run. -/
def Executes (depth : Nat) (P : Nat → Parser α) : Prop :=
  ∀ (tokens : List Token) (s : State), s.Sane tokens → s.depth = depth →
    ∃ trace o s', Exec tokens P s trace o s'

namespace Executes

theorem bind {F : Nat → α → Parser β} (h : Executes depth P)
    (rest : ∀ {a c c' reports}, P (maxNesting - depth) c = ⟨.ok a, reports, c'⟩ →
      Executes depth fun n => F n a) :
    Executes depth fun n => P n >>= F n := by
  intro tokens s hs hdepth
  obtain ⟨trace, ⟨d⟩ | ⟨a⟩, s₁, hfirst⟩ := h tokens s hs hdepth
  · exact ⟨_, _, _, .bindError hfirst⟩
  · have hkeep := hfirst.upkeep hs
    obtain ⟨reports, hreply, -⟩ := hfirst.reply hs
    rw [hdepth] at hreply
    obtain ⟨later, o, s₂, hrest⟩ :=
      rest hreply tokens s₁ hkeep.sane (hkeep.restored.trans hdepth)
    exact ⟨_, _, _, .bind hfirst hrest⟩

theorem map {g : α → β} (h : Executes depth P) : Executes depth fun n c => (P n c).map g := by
  intro tokens s hs hdepth
  obtain ⟨trace, o, s₁, hinner⟩ := h tokens s hs hdepth
  exact ⟨_, _, _, .map g hinner⟩

/-- `valid` holds of the state that each round starts in. -/
theorem iterate (valid : σ → Prop) {step : Nat → σ → Parser (Option (β × σ))}
    (loops : ∀ n, Looped (step n)) (h : ∀ {x}, valid x → Executes depth fun n => step n x)
    (keep : ∀ {x c b x' reports c'}, valid x →
      step (maxNesting - depth) x c = ⟨.ok (some (b, x')), reports, c'⟩ → valid x')
    {x : σ} (hx : valid x) : Executes depth fun n => iterate (step n) x := by
  intro tokens s hs hdepth
  induction hleft : keptCount tokens - s.pos using Nat.strongRecOn generalizing s x with
  | ind _ ih =>
    obtain ⟨trace, ⟨d⟩ | ⟨_ | ⟨b, x'⟩⟩, s₁, hround⟩ := h hx tokens s hs hdepth
    · exact ⟨_, _, _, .loopError hround⟩
    · exact ⟨_, _, _, .loopStop hround⟩
    · -- the reply of the round tells how far it has read
      have hkeep := hround.upkeep hs
      obtain ⟨reports, hreply, -⟩ := hround.reply hs
      rw [hdepth] at hreply
      have hlt := ((loops _).advances x _).progress hreply rfl
      rw [State.length_rest_cursor, State.length_rest_cursor] at hlt
      obtain ⟨later, o, s₂, hrest⟩ := ih _ (by omega) (keep hx hreply) s₁ hkeep.sane
        (hkeep.restored.trans hdepth) rfl
      exact ⟨_, _, _, .loopNext hround (by omega) hrest⟩

theorem recover {point : SyncPoint} (h : Executes depth P) :
    Executes depth fun n => recover point (P n) := by
  intro tokens s hs hdepth
  obtain ⟨trace, ⟨d⟩ | ⟨a⟩, s₁, hinner⟩ := h tokens s hs hdepth
  · exact ⟨_, _, _, .recoverError point hinner⟩
  · exact ⟨_, _, _, .recoverOk point hinner⟩

theorem tooDeep (full : maxNesting ≤ depth) : Executes depth (guarded P) := by
  rintro tokens s hs rfl
  exact ⟨_, _, _, .tooDeep full⟩

theorem guarded (free : depth < maxNesting) (h : Executes (depth + 1) P) :
    Executes depth (guarded P) := by
  rintro tokens s hs rfl
  obtain ⟨trace, o, s₁, hinner⟩ := h tokens s.enter (hs.enter free) rfl
  exact ⟨_, _, _, .guarded free hinner⟩

end Executes

/-- `n` levels are left. -/
theorem Related.executes {worded : Prop} {n : Nat} {R : α → β → Prop} {Q : Nat → Parser β}
    (h : Related worded Eq n R P Q) (left : depth + n = maxNesting) : Executes depth P := by
  induction h generalizing depth with
  | @move _ _ _ _ look look' count value even =>
    exact fun tokens s hs hdepth => ⟨_, _, _, .move look count⟩
  | giveUp problem words => exact fun tokens s hs hdepth => ⟨_, _, _, .giveUp _⟩
  | log problem words => exact fun tokens s hs hdepth => ⟨_, _, _, .log _⟩
  | bind first rest ih ih' =>
    refine .bind (ih left) fun hp => ?_
    rw [← left, Nat.add_sub_cancel_left] at hp
    obtain ⟨b, hab⟩ := first.exists_value hp
    exact ih' hab left
  | map inner value ih => exact (ih left).map
  | @iterate n _ _ _ _ R S step step' s s' loops round start ih =>
    refine .iterate (fun s => ∃ s', S s s') loops (fun hs => ?_) (fun hs hround => ?_) ⟨s', start⟩
    · obtain ⟨_, hst⟩ := hs
      exact ih hst left
    · obtain ⟨_, hst⟩ := hs
      rw [← left, Nat.add_sub_cancel_left] at hround
      obtain ⟨y, hy⟩ := (round hst).exists_value hround
      cases hy with
      | some value => exact ⟨_, value.2⟩
  | recover point inner ih => exact (ih left).recover
  | tooDeep => exact .tooDeep (by omega)
  | guarded inner ih => exact .guarded (by omega) (ih (by omega))

/-! ## All productions -/

/-- The productions for expressions. -/
inductive ExpressionRule : {α : Type} → (Nat → Parser α) → Prop where
  | expression : ExpressionRule expression
  /-- The four tiers of binary operators. -/
  | chain (tier : Tier) : ExpressionRule fun n => chain tier (operandOf (expression n) tier)
  | unary : ExpressionRule fun n => unary (expression n)
  | selection : ExpressionRule fun n => selection (expression n)
  | primary : ExpressionRule fun n => primary (expression n)
  | arguments {demand : Demand} (opens : demand.expected = .token (.punctuation .lparen)) :
      ExpressionRule fun n => arguments (expression n) demand

/-- The productions that have read something when they succeed. -/
inductive EatingRule : {α : Type} → (Nat → Parser α) → Prop where
  | ofExpression {α : Type} {P : Nat → Parser α} (h : ExpressionRule P) : EatingRule P
  | statement : EatingRule statement
  | member : EatingRule member
  | packageDecl : EatingRule fun _ => packageDecl
  | importDecl : EatingRule fun _ => importDecl
  | classDecl : EatingRule classDecl

/-- All productions of the parser, the rounds of their loops and what they are made with. -/
inductive Rule : {α : Type} → (Nat → Parser α) → Prop where
  | ofEating {α : Type} {P : Nat → Parser α} (h : EatingRule P) : Rule P
  -- tokens and diagnostics
  | peek : Rule fun _ => peek
  | advance : Rule fun _ => advance
  | accept (kind : Token.Kind) : Rule fun _ => accept kind
  | expect (demand : Demand) : Rule fun _ => expect demand
  | name (demand : Demand) : Rule fun _ => name demand
  | log (d : Diagnostic) : Rule fun _ => log d
  | complain (demand : Demand) : Rule fun _ => complain demand
  | recover {α : Type} {P : Nat → Parser α} (point : SyncPoint) (h : Rule P) :
      Rule fun n => recover point (P n)
  | guarded {α : Type} {P : Nat → Parser α} (h : Rule P) : Rule (guarded P)
  -- expressions and what is made of them
  | selector (start : Token) : Rule fun n => selector (expression n) start
  | initializer : Rule fun n => initializer (expression n)
  | declarator (demand : Demand) : Rule fun n => declarator (expression n) demand
  | primitiveType (demand : Demand) : Rule fun _ => primitiveType demand
  | localVariables : Rule fun n => localVariables (expression n)
  | checkTarget (target : Expr Location) (op : Token) : Rule fun _ => checkTarget target op
  | assignment (target : Expr Location) : Rule fun n => assignment (expression n) target
  | assignments (target : Expr Location) : Rule fun n => assignments (expression n) target
  | effect : Rule fun n => effect (expression n)
  | effectStatement : Rule fun n => effectStatement (expression n)
  -- statements
  | condition (word : ControlWord) : Rule fun n => condition (expression n) word
  | label? : Rule fun _ => label?
  | jump (demand : Demand) : Rule fun _ => jump demand
  | breakStatement : Rule fun _ => breakStatement
  | continueStatement : Rule fun _ => continueStatement
  | returnStatement : Rule fun n => returnStatement (expression n)
  | block (demand : Demand) : Rule fun n => block (statement n) demand
  | labeledStatement : Rule fun n => labeledStatement (statement n)
  | ifStatement : Rule fun n => ifStatement (statement n) (expression n)
  | whileStatement : Rule fun n => whileStatement (statement n) (expression n)
  | doStatement : Rule fun n => doStatement (statement n) (expression n)
  | catchClause : Rule fun n => catchClause (statement n)
  | tryStatement : Rule fun n => tryStatement (statement n)
  | statementOf (kind : Token.Kind) :
      Rule fun n => statementOf (statement n) (expression n) kind
  -- members
  | addModifier (seen : List Modifier) (m : Modifier) : Rule fun _ => addModifier seen m
  | classModifier (seen : List Modifier) : Rule fun _ => classModifier seen
  | memberModifier (seen : List Modifier) : Rule fun _ => memberModifier seen
  | classModifiers : Rule fun _ => modifiers classModifier
  | memberModifiers : Rule fun _ => modifiers memberModifier
  | parameter : Rule fun _ => parameter
  | methodRest (set : ModifierSet) (type : PrimitiveType) (word : String) :
      Rule fun n => methodRest n set type word
  | fieldRest (set : ModifierSet) (type : PrimitiveType) (word : String) :
      Rule fun n => fieldRest n set type word
  | classBody : Rule classBody
  -- the whole source
  | qualifiedName (demand : Demand) : Rule fun _ => qualifiedName demand
  | package? : Rule fun _ => package?
  | imports : Rule fun _ => imports
  | locateClass (again : Bool) : Rule fun _ => locateClass again
  | attempt (search : ClassSearch) : Rule fun n => attempt n search
  | classDeclaration : Rule classDeclaration
  | program : Rule program

/-! ### Their runs -/

section Productions

variable {n : Nat}

theorem ExpressionRule.uniform (h : ExpressionRule P) : ∃ R, Uniform False Eq n R P := by
  have hexpr : Uniform False Eq n (Agree Expr.erase) Parser.expression := expression_uniform n
  cases h with
  | expression => exact ⟨_, hexpr⟩
  | chain tier => exact ⟨_, chain_uniform tier (operandOf_uniform hexpr tier)⟩
  | unary => exact ⟨_, unary_uniform hexpr⟩
  | selection => exact ⟨_, selection_uniform hexpr⟩
  | primary => exact ⟨_, primary_uniform hexpr⟩
  | arguments opens => exact ⟨_, arguments_uniform hexpr False.elim⟩

theorem EatingRule.uniform (h : EatingRule P) : ∃ R, Uniform False Eq n R P := by
  cases h with
  | ofExpression h => exact h.uniform
  | statement => exact ⟨_, statement_uniform n⟩
  | member => exact ⟨_, member_uniform n⟩
  | packageDecl => exact ⟨_, clause_uniform False.elim False.elim⟩
  | importDecl => exact ⟨_, clause_uniform False.elim False.elim⟩
  | classDecl => exact ⟨_, classDecl_uniform n⟩

theorem Rule.uniform (h : Rule P) : ∃ R, Uniform False Eq n R P := by
  have hexpr : Uniform False Eq n (Agree Expr.erase) expression := expression_uniform n
  have hstmt : Uniform False Eq n (Agree Stmt.erase) statement := statement_uniform n
  induction h generalizing n with
  | ofEating h => exact h.uniform
  | peek => exact ⟨_, .peek⟩
  | advance => exact ⟨_, .advance⟩
  | accept kind => exact ⟨_, .accept⟩
  | expect demand => exact ⟨_, .expect False.elim⟩
  | name demand => exact ⟨_, .name False.elim⟩
  | log d => exact ⟨_, .log ⟨rfl, rfl⟩ False.elim⟩
  | complain demand => exact ⟨_, .complain False.elim⟩
  | recover point _ ih =>
    obtain ⟨R, hinner⟩ := ih hexpr hstmt
    exact ⟨_, hinner.recover point⟩
  | guarded _ ih =>
    cases n with
    | zero => exact ⟨fun _ _ => True, .tooDeep⟩
    | succ n =>
      obtain ⟨R, hinner⟩ := ih (expression_uniform n) (statement_uniform n)
      exact ⟨_, .guarded hinner⟩
  | selector start => exact ⟨_, selector_related hexpr⟩
  | initializer => exact ⟨_, initializer_uniform⟩
  | declarator demand => exact ⟨_, declarator_uniform False.elim⟩
  | primitiveType demand => exact ⟨_, primitiveType_uniform False.elim⟩
  | localVariables => exact ⟨_, localVariables_uniform⟩
  | checkTarget target op => exact ⟨_, checkTarget_related rfl (.refl op)⟩
  | assignment target => exact ⟨_, assignment_related rfl⟩
  | assignments target => exact ⟨_, assignments_related rfl⟩
  | effect => exact ⟨_, effect_uniform⟩
  | effectStatement => exact ⟨_, effectStatement_uniform⟩
  | condition word => exact ⟨_, condition_uniform⟩
  | label? => exact ⟨_, label?_uniform⟩
  | jump demand => exact ⟨_, jump_uniform False.elim⟩
  | breakStatement => exact ⟨_, breakStatement_uniform⟩
  | continueStatement => exact ⟨_, continueStatement_uniform⟩
  | returnStatement => exact ⟨_, returnStatement_uniform⟩
  | block demand => exact ⟨_, block_uniform hstmt False.elim⟩
  | labeledStatement => exact ⟨_, labeledStatement_uniform hstmt⟩
  | ifStatement => exact ⟨_, ifStatement_uniform hstmt⟩
  | whileStatement => exact ⟨_, whileStatement_uniform hstmt⟩
  | doStatement => exact ⟨_, doStatement_uniform hstmt⟩
  | catchClause => exact ⟨_, catchClause_uniform hstmt⟩
  | tryStatement => exact ⟨_, tryStatement_uniform hstmt⟩
  | statementOf kind => exact ⟨_, statementOf_uniform hstmt kind⟩
  | addModifier seen m => exact ⟨_, addModifier_uniform⟩
  | classModifier seen => exact ⟨_, classModifier_uniform seen⟩
  | memberModifier seen => exact ⟨_, memberModifier_uniform seen⟩
  | classModifiers => exact ⟨_, modifiers_uniform .classModifiers classModifier_uniform⟩
  | memberModifiers => exact ⟨_, modifiers_uniform .memberModifiers memberModifier_uniform⟩
  | parameter => exact ⟨_, parameter_uniform⟩
  | methodRest set type word => exact ⟨_, methodRest_uniform⟩
  | fieldRest set type word => exact ⟨_, fieldRest_uniform⟩
  | classBody => exact ⟨_, classBody_uniform⟩
  | qualifiedName demand => exact ⟨_, qualifiedName_uniform False.elim⟩
  | package? => exact ⟨_, package?_uniform⟩
  | imports => exact ⟨_, imports_uniform⟩
  | locateClass again => exact ⟨_, locateClass_uniform⟩
  | attempt search => exact ⟨_, attempt_related (.refl search)⟩
  | classDeclaration => exact ⟨_, classDeclaration_uniform⟩
  | program => exact ⟨_, program_uniform n⟩

theorem Rule.executes (h : Rule P) {tokens : List Token} {s : State} (hs : s.Sane tokens) :
    ∃ trace o s', Exec tokens P s trace o s' := by
  obtain ⟨R, huniform⟩ := h.uniform
  exact huniform.executes (Nat.add_sub_cancel' hs.shallow) tokens s hs rfl

end Productions

/-! ## What they read and report -/

/-- An expression reports nothing, whether it succeeds or not. -/
theorem ExpressionRule.reports_eq_nil (h : ExpressionRule P) (n : Nat) (c : Cursor) :
    (P n c).reports = [] := by
  have hexpr : ∀ c, Orderly true [] (Parser.expression n) c := fun _ => expression_orderly n
  have hquiet : Orderly true [] (P n) c := by
    cases h with
    | expression => exact hexpr c
    | chain tier => exact chain_orderly (operandOf_orderly hexpr tier)
    | unary => exact unary_orderly hexpr
    | selection => exact selection_orderly hexpr
    | primary => exact primary_orderly hexpr
    | arguments opens => exact arguments_orderly hexpr
  obtain ⟨us, -, -, hreports⟩ := hquiet
  exact hreports rfl

theorem operandOf_walks {expr : Parser (Expr Location)}
    (h : ∀ seen c, Walks true true seen expr c) (tier : Tier) :
    ∀ seen c, Walks true true seen (operandOf expr tier) c := by
  have hunary : ∀ seen c, Walks true true seen (unary expr) c := fun _ _ => unary_walks h
  have hmultiplicative : ∀ seen c, Walks true true seen (multiplicative expr) c :=
    fun _ _ => chain_walks hunary
  have hadditive : ∀ seen c, Walks true true seen (additive expr) c :=
    fun _ _ => chain_walks hmultiplicative
  cases tier with
  | multiplicative => exact hunary
  | additive => exact hmultiplicative
  | relational => exact hadditive
  | logical => exact fun _ _ => chain_walks hadditive

theorem ExpressionRule.walks (h : ExpressionRule P) (n : Nat) (c : Cursor) :
    Walks true true [] (P n) c := by
  have hexpr : ∀ seen c, Walks true true seen (Parser.expression n) c :=
    fun _ _ => expression_walks n
  cases h with
  | expression => exact hexpr [] c
  | chain tier => exact chain_walks (operandOf_walks hexpr tier)
  | unary => exact unary_walks hexpr
  | selection => exact selection_walks hexpr
  | primary => exact primary_walks hexpr
  | arguments opens => exact arguments_walks hexpr opens

theorem EatingRule.advances (h : EatingRule P) (n : Nat) (c : Cursor) :
    Advances (fun _ => True) (P n) c := by
  cases h with
  | ofExpression h => exact (h.walks n c).advances
  | statement => exact (statement_walks n).advances
  | member => exact (member_walks n).advances
  | packageDecl => exact clause_advances rfl
  | importDecl => exact clause_advances rfl
  | classDecl => exact classDecl_advances

/-! ## The state -/

/-- What a run of a production keeps, on success and on failure. -/
structure Keeps (tokens : List Token) (P : Nat → Parser α) (s : State) (trace : List State)
    (o : Except Diagnostic α) (s' : State) : Prop where
  forward : s.pos ≤ s'.pos
  inside : s'.pos ≤ keptCount tokens
  restored : s'.depth = s.depth
  between : ∀ t ∈ trace, t.pos ≤ keptCount tokens ∧ t.depth ≤ maxNesting
  errors : s.errors <+: s'.errors
  eats : EatingRule P → ∀ a, o = .ok a → s.pos < s'.pos
  quiet : ExpressionRule P → s'.errors = s.errors

theorem Exec.keeps {tokens : List Token} {s s' : State} {trace : List State}
    {o : Except Diagnostic α} (h : Exec tokens P s trace o s') (hs : s.Sane tokens) :
    Keeps tokens P s trace o s' := by
  have hkeep := h.upkeep hs
  obtain ⟨reports, hreply, herrors⟩ := h.reply hs
  refine ⟨hkeep.grows.forward, hkeep.sane.inside, hkeep.restored, fun t ht => ?_,
    hkeep.grows.errors, ?_, fun hexpr => ?_⟩
  · obtain ⟨hsane, -, -⟩ := hkeep.between t ht
    exact ⟨hsane.inside, hsane.shallow⟩
  · rintro hrule a rfl
    have hlt := (hrule.advances _ _).progress hreply trivial
    rw [State.length_rest_cursor, State.length_rest_cursor] at hlt
    omega
  · have hnil := hexpr.reports_eq_nil (maxNesting - s.depth) (s.cursor tokens)
    rw [hreply] at hnil
    obtain rfl : reports = [] := hnil
    exact herrors

/-- **Every production keeps the state of the parser.** From every sane state it runs to an end,
with the reply that the parser gives. Whatever the outcome, the position has only moved forward, the
depth is what it was and was never out of range on the way, and errors were only added. Where it
succeeds, what has to read something has done so. Expressions add no errors. -/
theorem rule_keeps_state (h : Rule P) (tokens : List Token) (s : State) (hs : s.Sane tokens) :
    (∃ trace o s', Exec tokens P s trace o s') ∧
      ∀ trace o s', Exec tokens P s trace o s' →
        Replies tokens P s o s' ∧ Keeps tokens P s trace o s' :=
  ⟨h.executes hs, fun _ _ _ hexec => ⟨hexec.reply hs, hexec.keeps hs⟩⟩

/-- With two levels left, statements in a block inside of a block are too deep. -/
theorem rule_keeps_state_deep_block :
    let tokens := (lex "; \x7b 1 = a; \x7b \x7b \x7d \x7d ) \x7d").tokens
    let s : State := ⟨1, [.unexpected .memberName (.endOfInput 1 0)], 126⟩
    s.Sane tokens ∧ (statement 2 (s.cursor tokens)).reports.length = 3 ∧
      (∃ trace o s', Exec tokens statement s trace o s') ∧
      ∀ trace o s', Exec tokens statement s trace o s' →
        Replies tokens statement s o s' ∧ Keeps tokens statement s trace o s' := by
  intro tokens s
  have hs : s.Sane tokens := ⟨by decide +kernel, by decide⟩
  exact ⟨hs, by decide +kernel, rule_keeps_state (.ofEating .statement) tokens s hs⟩

/-- A parse is a run from the state in which nothing was read. -/
theorem exists_exec_parse (tokens : List Token) :
    ∃ trace s', Exec tokens program ⟨0, [], 0⟩ trace (.ok (parse tokens).program) s' ∧
      s'.errors = (parse tokens).diagnostics ∧ s'.pos = keptCount tokens := by
  have hs : State.Sane tokens ⟨0, [], 0⟩ := ⟨Nat.zero_le _, Nat.zero_le _⟩
  obtain ⟨trace, o, s', hexec⟩ := Rule.program.executes hs
  obtain ⟨reports, hreply, herrors⟩ := hexec.reply hs
  obtain ⟨prog, raised, c', hprogram, hreads⟩ := program_ends maxNesting (ofTokens tokens)
  have hparse : (⟨o, reports, s'.cursor tokens⟩ : Reply (Program Location)) =
      ⟨.ok prog, raised, c'⟩ := hreply.symm.trans hprogram
  cases hparse
  have hend : keptCount tokens - s'.pos = 0 := by
    have := hreads.length_eq
    rw [← State.length_rest_cursor]
    omega
  refine ⟨trace, s', ?_, ?_, ?_⟩
  · rwa [parse, hprogram]
  · rw [herrors, Diagnostic.foldl_push, parse, hprogram]
  · have := (hexec.upkeep hs).sane.inside
    omega

end Parser

end JavaSubset
