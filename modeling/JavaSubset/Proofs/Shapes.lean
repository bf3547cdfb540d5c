import JavaSubset.Proofs.Nodes
import JavaSubset.Proofs.Outcomes
import JavaSubset.Proofs.Termination

/-!
# What parsed trees are made of

The trees that a production gives, said with the trees that the productions inside it give.

* `Shape.Primary E`, …, `Shape.Effect E` : the expressions that are made of expressions in `E`;
* `Shape.Statement E S s c` : the statement `s`, in front of the cursor `c`, is made of expressions
  in `E` and of statements in `S`. `Shape.Member E S m` says so of a member;
* `Made n e`, `Stands n s c` : what `expression n` and `statement n` give;
* `parse_made` : the class in every parsed program is made so, whatever the source.

What is claimed of all parsed trees is shown from these rules, without another look at the parser.
-/

namespace JavaSubset

open Parser

/-! ## Shapes -/

namespace Shape

section Expressions

variable (E : Expr Location → Prop)

/-- Parentheses only change the note. -/
inductive Primary : Expr Location → Prop where
  | literal (loc : Location) (value : Literal) : Primary (.literal loc value)
  | ident (loc : Location) (name : String) : Primary (.ident loc name)
  | this (loc : Location) : Primary (.this loc)
  | call (loc : Location) (name : String) {args : List (Expr Location)}
      (given : ∀ e ∈ args, E e) : Primary (.call loc name args)
  | superCall (loc : Location) (name : String) {args : List (Expr Location)}
      (given : ∀ e ∈ args, E e) : Primary (.superCall loc name args)
  | new (loc : Location) (name : String) {args : List (Expr Location)}
      (given : ∀ e ∈ args, E e) : Primary (.new loc name args)
  | group (loc : Location) {e : Expr Location} (given : E e) : Primary (e.withNote loc)

inductive Selection : Expr Location → Prop where
  | primary {e : Expr Location} (given : Primary E e) : Selection e
  | field (loc : Location) (name : String) {target : Expr Location} (below : Selection target) :
      Selection (.field loc target name)
  | invoke (loc : Location) (name : String) {target : Expr Location} {args : List (Expr Location)}
      (below : Selection target) (given : ∀ e ∈ args, E e) :
      Selection (.invoke loc target name args)

inductive Unary : Expr Location → Prop where
  | selection {e : Expr Location} (given : Selection E e) : Unary e
  | sign (loc : Location) {kind : Token.Kind} {op : UnaryOp} {e : Expr Location}
      (sign : sign? kind = some op) (given : Selection E e) : Unary (.unary loc op e)

inductive Chain (tier : Tier) (operand : Expr Location → Prop) : Expr Location → Prop where
  | operand {e : Expr Location} (given : operand e) : Chain tier operand e
  | link (loc : Location) {op : BinaryOp} {left right : Expr Location} (level : op.tier = tier)
      (below : Chain tier operand left) (given : operand right) :
      Chain tier operand (.binary loc left op right)

inductive Assigned : Expr Location → Prop where
  | value {e : Expr Location} (given : E e) : Assigned e
  | assign (loc : Location) (op : AssignOp) {target value : Expr Location} (given : E target)
      (below : Assigned value) : Assigned (.assign loc target op value)

inductive Effect : Expr Location → Prop where
  | stepBefore (loc : Location) (step : Step) {e : Expr Location} (given : Selection E e) :
      Effect (.unary loc (.pre step) e)
  | stepBehind (loc : Location) (step : Step) {e : Expr Location} (given : E e) :
      Effect (.unary loc (.post step) e)
  | assigned {e : Expr Location} (given : Assigned E e) : Effect e

end Expressions

section Statements

variable (E : Expr Location → Prop) (S : Stmt Location → Cursor → Prop)

/-- Statements that stood somewhere each. -/
abbrev Body (body : List (Stmt Location)) : Prop := ∀ s ∈ body, ∃ c, S s c

/-- An `if` without `else` is in front of something else, and a branch with an `else` behind it was
in front of that. -/
inductive Statement : Stmt Location → Cursor → Prop where
  | block (loc : Location) {body : List (Stmt Location)} {c : Cursor} (given : Body S body) :
      Statement (.block loc body) c
  | ifThen (loc : Location) {test : Expr Location} {branch : Stmt Location} {c : Cursor}
      (condition : E test) (given : S branch c) (last : c.peek.kind ≠ .keyword (.control .elseKw)) :
      Statement (.ifThen loc test branch) c
  | ifElse (loc : Location) {test : Expr Location} {branch other : Stmt Location} {c c' : Cursor}
      (condition : E test) (given : S branch c) (more : c.peek.kind = .keyword (.control .elseKw))
      (behind : S other c') : Statement (.ifElse loc test branch other) c'
  | whileLoop (loc : Location) {test : Expr Location} {body : Stmt Location} {c : Cursor}
      (condition : E test) (given : S body c) : Statement (.whileLoop loc test body) c
  | doLoop (loc : Location) {body : Stmt Location} {test : Expr Location} {c c' : Cursor}
      (given : S body c) (condition : E test) : Statement (.doLoop loc body test) c'
  | breakTo (loc : Location) (label : Option String) {c : Cursor} : Statement (.breakTo loc label) c
  | continueTo (loc : Location) (label : Option String) {c : Cursor} :
      Statement (.continueTo loc label) c
  | returnWith (loc : Location) {value : Option (Expr Location)} {c : Cursor}
      (given : ∀ e ∈ value, E e) : Statement (.returnWith loc value) c
  | tryCatch (loc : Location) {body : List (Stmt Location)} {catches : List (CatchClause Location)}
      {c : Cursor} (given : Body S body) (clauses : ∀ clause ∈ catches, Body S clause.body) :
      Statement (.tryCatch loc body catches) c
  | tryFinally (loc : Location) {body cleanup : List (Stmt Location)}
      {catches : List (CatchClause Location)} {c : Cursor} (given : Body S body)
      (clauses : ∀ clause ∈ catches, Body S clause.body) (last : Body S cleanup) :
      Statement (.tryFinally loc body catches cleanup) c
  | expr (loc : Location) {e : Expr Location} {c : Cursor} (given : Effect E e) :
      Statement (.expr loc e) c
  | locals (loc : Location) (type : PrimitiveType) {declarators : List (Declarator Location)}
      {c : Cursor} (some : declarators ≠ []) (given : ∀ d ∈ declarators, ∀ e ∈ d.init, E e) :
      Statement (.locals loc type declarators) c
  | empty (loc : Location) {c : Cursor} : Statement (.empty loc) c
  | labeled (loc : Location) (label : String) {body : Stmt Location} {c : Cursor}
      (given : S body c) : Statement (.labeled loc label body) c

inductive Member : JavaSubset.Member Location → Prop where
  | field (loc : Location) {set : ModifierSet} (type : PrimitiveType) {first : Declarator Location}
      {more : List (Declarator Location)} (modifiers : ∀ m ∈ set, m.onMember = true)
      (given : ∀ e ∈ first.init, E e) (others : ∀ d ∈ more, ∀ e ∈ d.init, E e) :
      Member (.field loc set type first more)
  | method (loc : Location) {set : ModifierSet} (type : PrimitiveType) (name : String)
      (params : List Param) {body : List (Stmt Location)}
      (modifiers : ∀ m ∈ set, m.onMember = true) (given : Body S body) :
      Member (.method loc set type name params body)

end Statements

end Shape

/-- What `expression n` gives. -/
def Made : Nat → Expr Location → Prop
  | 0 => fun _ => False
  | n + 1 => Shape.Chain .logical <| Shape.Chain .relational <| Shape.Chain .additive <|
      Shape.Chain .multiplicative <| Shape.Unary (Made n)

/-- What `statement n` gives, and where it stops. -/
def Stands : Nat → Stmt Location → Cursor → Prop
  | 0 => fun _ _ => False
  | n + 1 => Shape.Statement (Made n) (Stands n)

/-- What `classDecl limit` gives. -/
structure Shape.Class (limit : Nat) (decl : ClassDecl Location) : Prop where
  modifiers : ∀ m ∈ decl.modifiers, m.onClass = true
  members : ∀ m ∈ decl.members, Shape.Member (Made limit) (Stands limit) m

namespace Parser

/-! ## Expressions -/

section Expressions

variable {E : Expr Location → Prop} {expr operand : Parser (Expr Location)} {c : Cursor}
  {demand : Demand}

theorem chain_made {tier : Tier} (h : ∀ c, Ensures (fun e _ => E e) operand c) :
    Ensures (fun e _ => Shape.Chain tier E e) (chain tier operand) c := by
  have hlink : ∀ c, Ensures (fun o _ => ∀ link ∈ o, link.1.tier = tier ∧ E link.2)
      (link tier operand) c := by
    refine fun _ => .peekKind_bind ?_
    split
    · exact .pure (by simp)
    · next op hop =>
      have htier := (tierOp?_eq_some.mp hop).2
      exact .skip fun _ _ => .map_bind <| (h _).imp fun _ _ he => by simpa using ⟨htier, he⟩
  refine (h c).bind fun first _ hfirst =>
    .map_bind ((Ensures.many_all hlink).imp fun links _ hall => ?_)
  refine List.foldlRecOn links join (.operand hfirst) fun e he link hlink => ?_
  obtain ⟨htier, hright⟩ := hall link hlink
  exact .link _ htier he hright

variable (hexpr : ∀ c, Ensures (fun e _ => E e) expr c)

include hexpr

theorem arguments_made : Ensures (fun args _ => ∀ e ∈ args, E e) (arguments expr demand) c := by
  have hend : ∀ (args : List (Expr Location)) {c}, (∀ e ∈ args, E e) →
      Ensures (fun args _ => ∀ e ∈ args, E e) (do
        let _ ← expect .argumentsEnd
        return args) c :=
    fun _ _ hargs => .skip fun _ _ => .pure hargs
  refine .skip fun _ _ => .sees_bind ?_
  split
  · exact hend [] (by simp)
  · exact (Ensures.separated_all hexpr).bind fun args _ hargs => hend args hargs.2

theorem primary_made : Ensures (fun e _ => Shape.Primary E e) (primary expr) c := by
  refine .located (.peekKind_bind ?_)
  split
  · refine .skip fun _ _ => .sees_bind ?_
    split
    · exact (arguments_made hexpr).bind fun _ _ hargs => .pure (.call _ _ hargs)
    · exact .pure (.ident _ _)
  · exact .skip fun _ _ => .pure (.literal _ _)
  · exact .skip fun _ _ => .pure (.literal _ _)
  · exact .skip fun _ _ => .pure (.this _)
  · refine .skip fun _ _ => .skip fun _ _ => .skip fun _ _ => ?_
    exact (arguments_made hexpr).bind fun _ _ hargs => .pure (.superCall _ _ hargs)
  · refine .skip fun _ _ => .skip fun _ _ => ?_
    exact (arguments_made hexpr).bind fun _ _ hargs => .pure (.new _ _ hargs)
  · refine .skip fun _ _ => (hexpr _).bind fun _ _ hinner => ?_
    exact .skip fun _ _ => .pure (.group _ hinner)
  · exact .fail

theorem selector_made {start : Token} :
    Ensures (fun o _ => ∀ s ∈ o, ∀ e, Shape.Selection E e → Shape.Selection E (Selector.apply e s))
      (selector expr start) c := by
  refine .accept_bind (fun _ => .skip fun _ _ => .sees_bind ?_) fun _ => .pure (by simp)
  split
  · refine (arguments_made hexpr).bind fun _ _ hargs => .locationFrom_bind (.pure ?_)
    rintro _ ⟨⟩ e he
    exact .invoke _ _ he hargs
  · refine .locationFrom_bind (.pure ?_)
    rintro _ ⟨⟩ e he
    exact .field _ _ he

theorem selection_made : Ensures (fun e _ => Shape.Selection E e) (selection expr) c := by
  refine .peek_bind ((primary_made hexpr).bind fun target _ htarget => ?_)
  refine .map_bind ((Ensures.many_all fun _ => selector_made hexpr).imp fun selectors _ hall => ?_)
  exact List.foldlRecOn selectors Selector.apply (.primary htarget) fun e he s hs => hall s hs e he

theorem unary_made : Ensures (fun e _ => Shape.Unary E e) (unary expr) c := by
  refine .peekKind_bind ?_
  split
  · exact (selection_made hexpr).imp fun _ _ he => .selection he
  · next op hop =>
    refine .located (.skip fun _ _ => (selection_made hexpr).bind fun operand _ h => ?_)
    exact .pure (.sign _ hop h)

end Expressions

theorem expression_made (n : Nat) (c : Cursor) :
    Ensures (fun e _ => Made n e) (expression n) c := by
  induction n generalizing c with
  | zero => exact .tooDeep
  | succ n ih =>
    -- a chain of the next tier for each operand, down to the unary ones
    refine chain_made fun _ => chain_made fun _ => chain_made fun _ => chain_made ?_
    exact fun _ => unary_made ih

/-! ## Expression statements -/

section Effects

variable {E : Expr Location → Prop} {expr : Parser (Expr Location)} {c : Cursor} {demand : Demand}
  (hexpr : ∀ c, Ensures (fun e _ => E e) expr c)

include hexpr

theorem assignments_made {target : Expr Location} (htarget : E target) :
    Ensures (fun e _ => Shape.Assigned E e) (assignments expr target) c := by
  refine .map ((Ensures.iterate (P := fun s _ links s' _ => E s →
    (∀ link ∈ links, E link.1) ∧ E s')
    (fun _ _ hs => ⟨by simp, hs⟩) fun s c => ?_).imp fun r _ hr => ?_)
  · refine .peekKind_bind ?_
    split
    · exact .pure fun hs => ⟨by simp, hs⟩
    · refine .skip fun _ _ => .skip fun _ _ => .map_bind ((hexpr _).imp fun value _ hvalue => ?_)
      intro links s' _ hrest hs
      obtain ⟨hlinks, hlast⟩ := hrest hvalue
      exact ⟨List.forall_mem_cons.mpr ⟨hs, hlinks⟩, hlast⟩
  · obtain ⟨hlinks, hlast⟩ := hr htarget
    exact List.foldrRecOn r.1 store (.value hlast) fun _ hvalue link hlink =>
      .assign _ _ (hlinks link hlink) hvalue

theorem effect_made : Ensures (fun e _ => Shape.Effect E e) (effect expr) c := by
  refine .peek_bind ?_
  split
  · refine .skip fun _ _ => (selection_made hexpr).bind fun target _ htarget => ?_
    exact .skip fun _ _ => .locationFrom_bind (.pure (.stepBefore _ _ htarget))
  · refine (hexpr _).bind fun value _ hvalue => .peekKind_bind ?_
    split
    · exact .skip fun _ _ => .skip fun _ _ => .locationFrom_bind (.pure (.stepBehind _ _ hvalue))
    · exact (assignments_made hexpr hvalue).imp fun _ _ he => .assigned he

theorem initializer_made : Ensures (fun o _ => ∀ e ∈ o, E e) (initializer expr) c :=
  .behind_all hexpr

theorem declarator_made : Ensures (fun d _ => ∀ e ∈ d.init, E e) (declarator expr demand) c :=
  .skip fun _ _ => .map_bind (initializer_made hexpr)

theorem condition_made {word : ControlWord} : Ensures (fun e _ => E e) (condition expr word) c :=
  .skip fun _ _ => (hexpr _).bind fun _ _ he => .skip fun _ _ => .pure he

end Effects

/-! ## Statements -/

section Statements

variable {E : Expr Location → Prop} {S : Stmt Location → Cursor → Prop}
  {expr : Parser (Expr Location)} {stmt : Parser (Stmt Location)} {c : Cursor} {demand : Demand}

/-- Wherever the statement starts, it is made of expressions in `E` and statements in `S`. -/
abbrev StmtNode (E : Expr Location → Prop) (S : Stmt Location → Cursor → Prop)
    (node : Location → Stmt Location) (c : Cursor) : Prop :=
  ∀ loc, Shape.Statement E S (node loc) c

section Values

variable (hexpr : ∀ c, Ensures (fun e _ => E e) expr c)

include hexpr

theorem effectStatement_made : Ensures (StmtNode E S) (effectStatement expr) c :=
  (effect_made hexpr).bind fun _ _ he => .skip fun _ _ => .pure fun loc => .expr loc he

theorem localVariables_made : Ensures (StmtNode E S) (localVariables expr) c := by
  refine .skip fun _ _ => (Ensures.separated_all fun _ => declarator_made hexpr).bind
    fun ds _ ⟨hsome, hall⟩ => ?_
  exact .skip fun _ _ => .pure fun loc => .locals loc _ hsome hall

theorem returnStatement_made : Ensures (StmtNode E S) (returnStatement expr) c := by
  have hend : ∀ (value : Option (Expr Location)) {c}, (∀ e ∈ value, E e) →
      Ensures (StmtNode E S) (do
        let _ ← expect .returnEnd
        return ((Stmt.returnWith · value) : Location → Stmt Location)) c :=
    fun value _ hvalue => .skip fun _ _ => .pure fun loc => .returnWith loc hvalue
  refine .skip fun _ _ => .sees_bind ?_
  split
  · exact hend none (by simp)
  · have hvalue : ∀ c, Ensures (fun value _ => ∀ e ∈ value, E e) (some <$> expr) c :=
      fun c => .map_bind ((hexpr c).imp fun _ _ he => by simpa using he)
    exact (hvalue _).bind fun value _ => hend value

end Values

section Nested

variable (hstmt : ∀ c, Ensures S stmt c)

include hstmt

theorem block_made : Ensures (fun body _ => Shape.Body S body) (block stmt demand) c := by
  have hitem : ∀ c, Ensures (fun s _ => ∃ c', S s c') stmt c :=
    fun c => (hstmt c).imp fun s c' hs => ⟨c', hs⟩
  refine .skip fun _ _ => (Ensures.bodyOf hitem).bind fun body _ hbody => ?_
  exact .skip fun _ _ => .pure hbody

theorem labeledStatement_made : Ensures (StmtNode E S) (labeledStatement stmt) c := by
  refine .skip fun _ _ => .skip fun _ _ => .map_bind ((hstmt _).imp fun body _ hbody loc => ?_)
  exact .labeled loc _ hbody

theorem catchClause_made :
    Ensures (fun clause _ => Shape.Body S clause.body) (catchClause stmt) c := by
  refine .skip fun _ _ => .skip fun _ _ => .skip fun _ _ => .skip fun _ _ => ?_
  exact .map_bind (block_made hstmt)

theorem tryStatement_made : Ensures (StmtNode E S) (tryStatement stmt) c := by
  refine .skip fun _ _ => (block_made hstmt).bind fun body _ hbody => ?_
  refine (Ensures.many_all fun _ => .behind_all fun _ => catchClause_made hstmt).bind
    fun catches _ hcatches => ?_
  refine .accept_bind (fun _ => ?_) fun _ => ?_
  · refine (block_made hstmt).bind fun cleanup _ hcleanup => .pure fun loc => ?_
    exact .tryFinally loc hbody hcatches hcleanup
  · have hend : ∀ {c}, Ensures (StmtNode E S)
        (Pure.pure (Stmt.tryCatch · body catches) : Parser (Location → Stmt Location)) c :=
      .pure fun loc => .tryCatch loc hbody hcatches
    simp only [Bool.false_eq_true, ↓reduceIte]
    split
    · exact .skip fun _ _ => hend
    · exact hend

variable (hexpr : ∀ c, Ensures (fun e _ => E e) expr c)

include hexpr

theorem ifStatement_made : Ensures (StmtNode E S) (ifStatement stmt expr) c := by
  refine .skip fun _ _ => (condition_made hexpr).bind fun test _ htest => ?_
  refine (hstmt _).bind fun branch _ hbranch => .accept_bind (fun hmore => ?_) fun hlast => ?_
  · refine .map_bind ((hstmt _).imp fun other _ hother loc => ?_)
    exact .ifElse loc htest hbranch hmore hother
  · exact .pure fun loc => .ifThen loc htest hbranch hlast

theorem whileStatement_made : Ensures (StmtNode E S) (whileStatement stmt expr) c := by
  refine .skip fun _ _ => (condition_made hexpr).bind fun test _ htest => ?_
  refine .map_bind ((hstmt _).imp fun body _ hbody loc => ?_)
  exact .whileLoop loc htest hbody

theorem doStatement_made : Ensures (StmtNode E S) (doStatement stmt expr) c := by
  refine .skip fun _ _ => (hstmt _).bind fun body _ hbody => .skip fun _ _ => ?_
  refine (condition_made hexpr).bind fun test _ htest => .skip fun _ _ => .pure fun loc => ?_
  exact .doLoop loc hbody htest

theorem statementOf_made (kind : Token.Kind) :
    Ensures (StmtNode E S) (statementOf stmt expr kind) c := by
  unfold statementOf
  split
  · exact (block_made hstmt).bind fun _ _ hbody => .pure fun loc => .block loc hbody
  · exact .skip fun _ _ => .pure fun loc => .empty loc
  · exact localVariables_made hexpr
  · exact ifStatement_made hstmt hexpr
  · exact whileStatement_made hstmt hexpr
  · exact doStatement_made hstmt hexpr
  · exact .skip fun _ _ => .pure fun loc => .breakTo loc _
  · exact .skip fun _ _ => .pure fun loc => .continueTo loc _
  · exact returnStatement_made hexpr
  · exact tryStatement_made hstmt
  · exact effectStatement_made hexpr
  · exact effectStatement_made hexpr
  · exact effectStatement_made hexpr
  · exact .fail
  · refine .skip fun _ _ => ?_
    split
    · exact labeledStatement_made hstmt
    · exact effectStatement_made hexpr
  · exact effectStatement_made hexpr

end Nested

end Statements

theorem statement_stands (n : Nat) (c : Cursor) : Ensures (Stands n) (statement n) c := by
  induction n generalizing c with
  | zero => exact .tooDeep
  | succ n ih =>
    refine .located (.peekKind_bind ?_)
    exact (statementOf_made ih (expression_made n) _).imp fun _ _ hs => hs _

/-! ## Classes -/

section Classes

variable {limit : Nat} {c : Cursor}

/-- A loop over modifiers keeps those that `allowed` lets in. -/
theorem modifiers_allowed {allowed : Modifier → Bool}
    {next : List Modifier → Parser (Option (Unit × List Modifier))}
    (h : ∀ seen c, (∀ m ∈ seen, allowed m = true) →
      Ensures (fun o _ => ∀ x ∈ o, ∀ m ∈ x.2, allowed m = true) (next seen) c) :
    Ensures (fun set _ => ∀ m ∈ set, allowed m = true) (modifiers next) c := by
  refine .map ((Ensures.iterate (P := fun seen _ _ seen' _ => (∀ m ∈ seen, allowed m = true) →
    ∀ m ∈ seen', allowed m = true) (fun _ _ hseen => hseen) fun seen c => ?_).imp
    fun r _ hr m hm => hr (by simp) m (ModifierSet.mem_ofList.mp hm))
  intro o reports c₁ hstep
  cases o with
  | none => exact fun hseen => hseen
  | some x => exact fun _ _ _ hrest hseen => hrest (h seen c hseen _ _ _ hstep x rfl)

theorem addModifier_allowed {allowed : Modifier → Bool} {seen : List Modifier}
    {modifier : Modifier} (hseen : ∀ m ∈ seen, allowed m = true)
    (hmodifier : allowed modifier = true) :
    Ensures (fun seen' _ => ∀ m ∈ seen', allowed m = true) (addModifier seen modifier) c := by
  refine .skip fun _ _ => ?_
  split
  · exact .skip fun _ _ => .pure hseen
  · exact .pure (List.forall_mem_append.mpr ⟨hseen, by simpa using hmodifier⟩)

theorem classModifier_allowed {seen : List Modifier} (hseen : ∀ m ∈ seen, m.onClass = true) :
    Ensures (fun o _ => ∀ x ∈ o, ∀ m ∈ x.2, m.onClass = true) (classModifier seen) c := by
  refine .peekKind_bind ?_
  split
  · exact .pure (by simp)
  · split
    · next hmodifier =>
      exact .map_bind <| (addModifier_allowed hseen hmodifier).imp fun _ _ h => by simpa using h
    · exact .skip fun _ _ => .skip fun _ _ => .pure (by simpa using hseen)

theorem memberModifier_allowed {seen : List Modifier} (hseen : ∀ m ∈ seen, m.onMember = true) :
    Ensures (fun o _ => ∀ x ∈ o, ∀ m ∈ x.2, m.onMember = true) (memberModifier seen) c := by
  refine .peekKind_bind ?_
  split
  · exact .pure (by simp)
  · split
    · next hmodifier =>
      exact .map_bind <| (addModifier_allowed hseen hmodifier).imp fun _ _ h => by simpa using h
    · exact .pure (by simp)

section Members

/-- Wherever the member starts, it is made of what `limit` levels give. -/
abbrev MemberNode (limit : Nat) (node : Location → Member Location) (_ : Cursor) : Prop :=
  ∀ loc, Shape.Member (Made limit) (Stands limit) (node loc)

variable {set : ModifierSet} {type : PrimitiveType} {name : String}
  (hset : ∀ m ∈ set, m.onMember = true)

include hset

theorem methodRest_made : Ensures (MemberNode limit) (methodRest limit set type name) c := by
  have hend : ∀ (params : List Param) {c}, Ensures (MemberNode limit) (do
      let _ ← expect .parametersEnd
      let body ← block (statement limit) .methodBody
      return ((Member.method · set type name params body) : Location → Member Location)) c := by
    refine fun params _ => .skip fun _ _ => (block_made (statement_stands limit)).bind
      fun body _ hbody => .pure fun loc => ?_
    exact .method loc type name params hset hbody
  refine .skip fun _ _ => .sees_bind ?_
  split
  · exact hend _
  · exact .skip fun _ _ => hend _

theorem fieldRest_made : Ensures (MemberNode limit) (fieldRest limit set type name) c := by
  have hexpr := expression_made limit
  refine (initializer_made hexpr).bind fun init _ hinit => ?_
  refine (Ensures.many_all fun _ => .behind_all fun _ => declarator_made hexpr).bind
    fun more _ hmore => ?_
  exact .skip fun _ _ => .pure fun loc => .field loc type hset hinit hmore

end Members

theorem member_made :
    Ensures (fun m _ => Shape.Member (Made limit) (Stands limit) m) (member limit) c := by
  refine .located ((modifiers_allowed fun _ _ => memberModifier_allowed).bind fun set _ hset => ?_)
  refine .skip fun _ _ => .skip fun _ _ => .sees_bind ?_
  split
  · exact (methodRest_made hset).imp fun _ _ hm => hm _
  · exact (fieldRest_made hset).imp fun _ _ hm => hm _

theorem classBody_made :
    Ensures (fun members _ => ∀ m ∈ members, Shape.Member (Made limit) (Stands limit) m)
      (classBody limit) c := by
  refine .skip fun _ _ => (Ensures.bodyOf fun _ => member_made).bind fun members _ hmembers => ?_
  refine .skip fun closed _ => ?_
  split
  · exact .pure hmembers
  · exact .skip fun _ _ => .pure hmembers

theorem classDecl_made : Ensures (fun decl _ => Shape.Class limit decl) (classDecl limit) c := by
  refine .located ((modifiers_allowed fun _ _ => classModifier_allowed).bind fun set _ hset => ?_)
  refine .skip fun _ _ => .skip fun _ _ => classBody_made.bind fun members _ hmembers => ?_
  exact .pure ⟨hset, hmembers⟩

end Classes

end Parser

theorem parse_made (tokens : List Token) :
    ∀ decl ∈ (parse tokens).program.classDecl, Shape.Class maxNesting decl :=
  parse_ensures fun _ _ _ => classDecl_made

/-! ## What is right below a node -/

section Children

variable {E : Expr Location → Prop} {S : Stmt Location → Cursor → Prop} {P : Node Location → Prop}
  {c : Cursor}

theorem nodes_of_body {body : List (Stmt Location)} (h : Shape.Body S body)
    (hstmt : ∀ s c, S s c → P (.stmt s)) : ∀ m ∈ body.map Node.stmt, P m := by
  refine List.forall_mem_map.mpr fun s hs => ?_
  obtain ⟨c, hc⟩ := h s hs
  exact hstmt s c hc

theorem nodes_of_clauses {catches : List (CatchClause Location)}
    (h : ∀ clause ∈ catches, Shape.Body S clause.body) (hstmt : ∀ s c, S s c → P (.stmt s)) :
    ∀ m ∈ catches.flatMap CatchClause.nodes, P m :=
  List.forall_mem_flatMap.mpr fun clause hclause => nodes_of_body (h clause hclause) hstmt

theorem nodes_of_declarator {d : Declarator Location} (h : ∀ e ∈ d.init, E e)
    (hexpr : ∀ e, E e → P (.expr e)) : ∀ m ∈ d.nodes, P m :=
  List.forall_mem_map.mpr fun e he => hexpr e (h e (Option.mem_toList.mp he))

/-- What holds of the parts of a statement holds of everything right below it. -/
theorem Shape.Statement.children {s : Stmt Location} (h : Shape.Statement E S s c)
    (hexpr : ∀ e, E e → P (.expr e)) (hstmt : ∀ s c, S s c → P (.stmt s))
    (heffect : ∀ loc e, s = .expr loc e → Shape.Effect E e → P (.expr e)) :
    ∀ m ∈ s.children, P m := by
  cases h with
  | block loc given => exact nodes_of_body given hstmt
  | ifThen loc condition given last =>
    simpa [Stmt.children] using ⟨hexpr _ condition, hstmt _ _ given⟩
  | ifElse loc condition given more behind =>
    simpa [Stmt.children] using ⟨hexpr _ condition, hstmt _ _ given, hstmt _ _ behind⟩
  | whileLoop loc condition given =>
    simpa [Stmt.children] using ⟨hexpr _ condition, hstmt _ _ given⟩
  | doLoop loc given condition =>
    simpa [Stmt.children] using ⟨hstmt _ _ given, hexpr _ condition⟩
  | breakTo | continueTo | empty => simp [Stmt.children]
  | returnWith loc given =>
    exact List.forall_mem_map.mpr fun e he => hexpr e (given e (Option.mem_toList.mp he))
  | tryCatch loc given clauses =>
    exact List.forall_mem_append.mpr ⟨nodes_of_body given hstmt, nodes_of_clauses clauses hstmt⟩
  | tryFinally loc given clauses last =>
    refine List.forall_mem_append.mpr ⟨?_, nodes_of_body last hstmt⟩
    exact List.forall_mem_append.mpr ⟨nodes_of_body given hstmt, nodes_of_clauses clauses hstmt⟩
  | expr loc given => exact List.forall_mem_singleton.mpr (heffect loc _ rfl given)
  | locals loc type some given =>
    exact List.forall_mem_flatMap.mpr fun d hd => nodes_of_declarator (given d hd) hexpr
  | labeled loc label given => exact List.forall_mem_singleton.mpr (hstmt _ _ given)

theorem Shape.Member.children {m : JavaSubset.Member Location} (h : Shape.Member E S m)
    (hexpr : ∀ e, E e → P (.expr e)) (hstmt : ∀ s c, S s c → P (.stmt s)) :
    ∀ n ∈ m.children, P n := by
  cases h with
  | field loc type modifiers given others =>
    refine List.forall_mem_append.mpr ⟨nodes_of_declarator given hexpr, ?_⟩
    exact List.forall_mem_flatMap.mpr fun d hd => nodes_of_declarator (others d hd) hexpr
  | method loc type name params modifiers given => exact nodes_of_body given hstmt

end Children

end JavaSubset
