import JavaSubset.Proofs.Grammar

/-!
# Facts about derivations

* `Leads` : the kinds of token that can stand first in an operand, an expression, a statement or a
  member (`Expression.leads`, `Statement.leads`, `MemberDecl.leads`);
* `ExprStatement.inner` : the kinds of token that stand in an expression; a colon is none of them, so
  one behind a name makes a label (`Only.noColon`);
* `CompilationUnit.mono` : a derivation stays one when more may be open at once.
-/

namespace JavaSubset

/-! ## Kinds of first tokens -/

namespace Token.Kind

def startsOperand : Token.Kind → Bool
  | .identifier | .number | .stringLiteral | .punctuation .lparen
  | .keyword (.expression .thisKw) | .keyword (.expression .superKw)
  | .keyword (.expression .newKw) => true
  | _ => false

def startsExpr : Token.Kind → Bool
  | .operator (.binary .add) | .operator (.binary .sub) => true
  | kind => kind.startsOperand

/-- What starts an expression statement. -/
def startsEffect : Token.Kind → Bool
  | .operator (.step _) => true
  | kind => kind.startsExpr

def startsStatement : Token.Kind → Bool
  | .punctuation .lbrace | .punctuation .semicolon | .keyword (.primitive _)
  | .keyword (.control .ifKw) | .keyword (.control .whileKw) | .keyword (.control .doKw)
  | .keyword (.control .breakKw) | .keyword (.control .continueKw)
  | .keyword (.control .returnKw) | .keyword (.control .tryKw) => true
  | kind => kind.startsEffect

def startsMember : Token.Kind → Bool
  | .keyword (.modifier _) | .keyword (.primitive _) => true
  | _ => false

/-- What stands in expressions, assignments and steps. -/
def inExpression : Token.Kind → Bool
  | .identifier | .number | .stringLiteral | .operator _ | .keyword (.expression _)
  | .punctuation .lparen | .punctuation .rparen | .punctuation .comma | .punctuation .dot => true
  | _ => false

variable {kind : Token.Kind}

theorem startsExpr_of_startsOperand (h : kind.startsOperand = true) : kind.startsExpr = true := by
  unfold startsExpr
  split <;> simp [h]

theorem startsEffect_of_startsExpr (h : kind.startsExpr = true) : kind.startsEffect = true := by
  unfold startsEffect
  split <;> simp [h]

theorem startsStatement_of_startsEffect (h : kind.startsEffect = true) :
    kind.startsStatement = true := by
  unfold startsStatement
  split <;> simp [h]

end Token.Kind

namespace Grammar

variable {α : Type} {us vs : List Token} {starts starts' : Token.Kind → Bool}

/-! ## First tokens -/

/-- A list whose first token is of one of these kinds. -/
def Leads (starts : Token.Kind → Bool) (us : List Token) : Prop :=
  ∃ t vs, us = t :: vs ∧ starts t.kind = true

theorem Leads.append (h : Leads starts us) (vs : List Token) : Leads starts (us ++ vs) := by
  obtain ⟨t, ws, rfl, ht⟩ := h
  exact ⟨t, ws ++ vs, rfl, ht⟩

theorem Leads.imp (h : Leads starts us) (himp : ∀ {k}, starts k = true → starts' k = true) :
    Leads starts' us := by
  obtain ⟨t, vs, rfl, ht⟩ := h
  exact ⟨t, vs, rfl, himp ht⟩

theorem leads_cons {t : Token} {kind : Token.Kind} (h : t.kind = kind) (hk : starts kind = true)
    (us : List Token) : Leads starts (t :: us) :=
  ⟨t, us, rfl, h ▸ hk⟩

theorem After.leads {mark : Punctuation} {item : Phrase α} {a : α} (h : After mark item us a) :
    Leads (· = .punctuation mark) us := by
  obtain ⟨separator, given⟩ := h
  exact leads_cons separator (by simp) _

theorem Enclosed.leads {item : Phrase α} {as : List α} (h : Enclosed item us as) :
    Leads (· = .punctuation .lparen) us := by
  cases h with
  | empty opening closing => exact leads_cons opening (by simp) _
  | list opening items closing => exact leads_cons opening (by simp) _

section Expressions

variable {expr operand : Phrase (Expr Unit)} {e : Expr Unit} {n : Nat} {tier : Tier}

theorem Primary.leads (h : Primary expr us e) : Leads (·.startsOperand) us := by
  cases h with
  | ident name => exact leads_cons name rfl _
  | call name arguments => exact leads_cons name rfl _
  | number literal => exact leads_cons literal rfl _
  | string literal => exact leads_cons literal rfl _
  | this word => exact leads_cons word rfl _
  | superCall word dot name arguments => exact leads_cons word rfl _
  | new word name arguments => exact leads_cons word rfl _
  | group opening inner closing => exact leads_cons opening rfl _

theorem Selection.leads {f : Expr Unit → Expr Unit} (h : Selection expr us f) :
    Leads (· = .punctuation .dot) us := by
  cases h with
  | field dot name => exact leads_cons dot (by simp) _
  | invoke dot name arguments => exact leads_cons dot (by simp) _

theorem Postfix.leads (h : Postfix expr us e) : Leads (·.startsOperand) us := by
  obtain ⟨head, selections⟩ := h
  exact head.leads.append _

theorem Unary.leads (h : Unary expr us e) : Leads (·.startsExpr) us := by
  cases h with
  | plain operand => exact operand.leads.imp Token.Kind.startsExpr_of_startsOperand
  | plus sign operand => exact leads_cons sign rfl _
  | minus sign operand => exact leads_cons sign rfl _

theorem Chain.leads (hoperand : ∀ {us e}, operand us e → Leads starts us)
    (h : Chain tier operand us e) : Leads starts us := by
  obtain ⟨first, more⟩ := h
  exact (hoperand first).append _

theorem Expression.leads : ∀ {n : Nat} {us : List Token} {e : Expr Unit},
    Expression n us e → Leads (·.startsExpr) us
  | 0, _, _, h => h.elim
  | _ + 1, _, _, h => Chain.leads (Chain.leads (Chain.leads (Chain.leads Unary.leads))) h

theorem Postfix.of_primary (h : Primary expr us e) : Postfix expr us e := by
  simpa using Postfix.mk h .nil

theorem Chain.single (h : operand us e) : Chain tier operand us e := by
  simpa using (.mk h .nil : Chain tier operand (us ++ []) e)

theorem Postfix.expression (h : Postfix (Expression n) us e) : Expression (n + 1) us e := by
  have hunary : Unary (Expression n) us e := .plain h
  exact Chain.single (Chain.single (Chain.single (Chain.single hunary)))

/-- What can be assigned to is an expression. -/
theorem Target.expression : ∀ {n : Nat} {us : List Token} {e : Expr Unit},
    Target n us e → Expression n us e
  | 0, _, _, h => h.elim
  | _ + 1, _, _, h => h.1.expression

theorem Target.isAssignable : ∀ {n : Nat} {us : List Token} {e : Expr Unit},
    Target n us e → e.isAssignable = true
  | 0, _, _, h => h.elim
  | _ + 1, _, _, h => h.2

theorem Assignment.leads (h : Assignment n us e) : Leads (·.startsExpr) us := by
  cases h with
  | last left operator right => exact left.expression.leads.append _
  | more left operator right => exact left.expression.leads.append _

theorem ExprStatement.leads (h : ExprStatement n us e) : Leads (·.startsEffect) us := by
  cases h with
  | assignment given => exact given.leads.imp Token.Kind.startsEffect_of_startsExpr
  | preStep operator target assignable => exact leads_cons operator rfl _
  | postStep target operator =>
    exact (target.expression.leads.imp Token.Kind.startsEffect_of_startsExpr).append _
  | plain given => exact given.leads.imp Token.Kind.startsEffect_of_startsExpr

end Expressions

theorem StatementForm.leads {n : Nat} {stmt : Phrase (Stmt Unit)} {s : Stmt Unit}
    (h : StatementForm n stmt us s) : Leads (·.startsStatement) us := by
  cases h with
  | block given =>
    obtain ⟨opening, statements, closing⟩ := given
    exact leads_cons opening rfl _
  | empty semicolon => exact leads_cons semicolon rfl _
  | locals word names semicolon => exact leads_cons word rfl _
  | expr given semicolon =>
    exact (given.leads.imp Token.Kind.startsStatement_of_startsEffect).append _
  | labeled name colon body => exact leads_cons name rfl _
  | ifThen word test body => exact leads_cons word rfl _
  | ifElse word test body nearest other body' => exact leads_cons word rfl _
  | whileLoop word test body => exact leads_cons word rfl _
  | doLoop word body loop test semicolon => exact leads_cons word rfl _
  | breakTo word target semicolon => exact leads_cons word rfl _
  | continueTo word target semicolon => exact leads_cons word rfl _
  | returnWith word given semicolon => exact leads_cons word rfl _
  | tryCatch word block handlers some => exact leads_cons word rfl _
  | tryFinally word block handlers last block' => exact leads_cons word rfl _

theorem Statement.leads : ∀ {n : Nat} {us : List Token} {s : Stmt Unit},
    Statement n us s → Leads (·.startsStatement) us
  | 0, _, _, h => h.elim
  | _ + 1, _, _, h => StatementForm.leads h

theorem Handler.leads {stmt : Phrase (Stmt Unit)} {clause : CatchClause Unit}
    (h : Handler stmt us clause) : Leads (· = .keyword (.control .catchKw)) us := by
  obtain ⟨word, opening, exceptionType, name, closing, block⟩ := h
  exact leads_cons word (by simp) _

/-- In front of a token that modifiers may precede stands a modifier or that token. -/
theorem Modifiers.leads {allowed : Modifier → Bool} {set : ModifierSet}
    (h : Modifiers allowed us set)
    (hmodifier : ∀ m, starts (.keyword (.modifier m)) = true) (hvs : Leads starts vs) :
    Leads starts (us ++ vs) := by
  obtain ⟨words, distinct, fitting⟩ := h
  rename_i ms
  cases us with
  | nil => exact hvs
  | cons t us =>
    cases ms with
    | nil => simp at words
    | cons m ms =>
      have hkind : t.kind = .keyword (.modifier m) := (List.cons.inj words).1
      exact leads_cons hkind (hmodifier m) _

theorem MemberDecl.leads {n : Nat} {m : Member Unit} (h : MemberDecl n us m) :
    Leads (·.startsMember) us := by
  cases h with
  | field modifiers word names semicolon =>
    rw [List.append_assoc]
    exact modifiers.leads (fun _ => rfl) (leads_cons word rfl _)
  | method modifiers word name parameters block =>
    rw [List.append_assoc]
    exact modifiers.leads (fun _ => rfl) (leads_cons word rfl _)

theorem Clause.leads {word : DeclarationWord} {name : String} (h : Clause word us name) :
    Leads (· = .keyword (.declaration word)) us := by
  obtain ⟨opening, given, semicolon⟩ := h
  exact leads_cons opening (by simp) _

/-! ## The tokens of an expression -/

/-- All tokens are of these kinds. -/
def Only (kinds : Token.Kind → Bool) (us : List Token) : Prop := ∀ t ∈ us, kinds t.kind = true

section Only

variable {kinds kinds' : Token.Kind → Bool} {t : Token} {kind : Token.Kind}

theorem only_nil : Only kinds [] := by simp [Only]

theorem Only.cons (h : Only kinds us) (ht : t.kind = kind) (hk : kinds kind = true) :
    Only kinds (t :: us) :=
  List.forall_mem_cons.mpr ⟨ht ▸ hk, h⟩

theorem Only.append (h : Only kinds us) (h' : Only kinds vs) : Only kinds (us ++ vs) :=
  List.forall_mem_append.mpr ⟨h, h'⟩

theorem Only.snoc (h : Only kinds us) (ht : t.kind = kind) (hk : kinds kind = true) :
    Only kinds (us ++ [t]) :=
  h.append (only_nil.cons ht hk)

theorem Only.imp (h : Only kinds us) (himp : ∀ k, kinds k = true → kinds' k = true) :
    Only kinds' us :=
  fun t ht => himp _ (h t ht)

variable {item : Phrase α} {as : List α} (hitem : ∀ {us a}, item us a → Only kinds us)

include hitem

theorem Repeated.only (h : Repeated item us as) : Only kinds us := by
  induction h with
  | nil => exact only_nil
  | cons first more ih => exact (hitem first).append ih

theorem Separated.only (comma : kinds (.punctuation .comma) = true) (h : Separated item us as) :
    Only kinds us := by
  obtain ⟨first, more⟩ := h
  refine (hitem first).append (more.only ?_)
  rintro _ _ ⟨separator, given⟩
  exact (hitem given).cons separator comma

theorem Enclosed.only (marks : kinds (.punctuation .lparen) = true ∧
      kinds (.punctuation .comma) = true ∧ kinds (.punctuation .rparen) = true)
    (h : Enclosed item us as) : Only kinds us := by
  obtain ⟨left, comma, right⟩ := marks
  cases h with
  | empty opening closing => exact (only_nil.cons closing right).cons opening left
  | list opening items closing =>
    exact ((items.only hitem comma).snoc closing right).cons opening left

end Only

/-- The tokens are those of an expression. -/
abbrev Inner (us : List Token) : Prop := Only (·.inExpression) us

section Expressions

variable {expr operand : Phrase (Expr Unit)} {e : Expr Unit} {n : Nat} {tier : Tier}

theorem Primary.inner (hexpr : ∀ {us e}, expr us e → Inner us) (h : Primary expr us e) :
    Inner us := by
  cases h with
  | ident name => exact only_nil.cons name rfl
  | call name arguments => exact (arguments.only hexpr ⟨rfl, rfl, rfl⟩).cons name rfl
  | number literal => exact only_nil.cons literal rfl
  | string literal => exact only_nil.cons literal rfl
  | this word => exact only_nil.cons word rfl
  | superCall word dot name arguments =>
    exact (((arguments.only hexpr ⟨rfl, rfl, rfl⟩).cons name rfl).cons dot rfl).cons word rfl
  | new word name arguments => exact ((arguments.only hexpr ⟨rfl, rfl, rfl⟩).cons name rfl).cons word rfl
  | group opening inner closing => exact ((hexpr inner).snoc closing rfl).cons opening rfl

theorem Postfix.inner (hexpr : ∀ {us e}, expr us e → Inner us) (h : Postfix expr us e) :
    Inner us := by
  obtain ⟨head, selections⟩ := h
  refine (head.inner hexpr).append (selections.only ?_)
  intro us f h
  cases h with
  | field dot name => exact (only_nil.cons name rfl).cons dot rfl
  | invoke dot name arguments => exact ((arguments.only hexpr ⟨rfl, rfl, rfl⟩).cons name rfl).cons dot rfl

theorem Unary.inner (hexpr : ∀ {us e}, expr us e → Inner us) (h : Unary expr us e) :
    Inner us := by
  cases h with
  | plain operand => exact operand.inner hexpr
  | plus sign operand => exact (operand.inner hexpr).cons sign rfl
  | minus sign operand => exact (operand.inner hexpr).cons sign rfl

theorem Chain.inner (hoperand : ∀ {us e}, operand us e → Inner us)
    (h : Chain tier operand us e) : Inner us := by
  obtain ⟨first, more⟩ := h
  refine (hoperand first).append (more.only ?_)
  rintro _ _ ⟨operator, level, right⟩
  exact (hoperand right).cons operator rfl

theorem Expression.inner : ∀ {n : Nat} {us : List Token} {e : Expr Unit},
    Expression n us e → Inner us
  | 0, _, _, h => h.elim
  | _ + 1, _, _, h =>
    Chain.inner (Chain.inner (Chain.inner (Chain.inner (Unary.inner Expression.inner)))) h

theorem Assignment.inner (h : Assignment n us e) : Inner us := by
  induction h with
  | last left operator right => exact left.expression.inner.append (right.inner.cons operator rfl)
  | more left operator right ih => exact left.expression.inner.append (ih.cons operator rfl)

theorem ExprStatement.inner (h : ExprStatement n us e) : Inner us := by
  cases h with
  | assignment given => exact given.inner
  | preStep operator target assignable => exact (target.inner Expression.inner).cons operator rfl
  | postStep target operator => exact target.expression.inner.snoc operator rfl
  | plain given => exact given.inner

end Expressions

/-! ## No colon in an expression -/

abbrev NoColon (us : List Token) : Prop := Only (· ≠ .punctuation .colon) us

theorem Only.noColon (h : Inner us) : NoColon us := by
  refine h.imp fun k hk => ?_
  cases k with
  | punctuation mark => cases mark <;> first | rfl | cases hk
  | _ => rfl

/-! ## More may be open -/

section Mono

variable {item item' : Phrase α} {a : α} {as : List α} {n m : Nat}

theorem Optional.mono {o : Option α} (hitem : ∀ {us a}, item us a → item' us a)
    (h : Optional item us o) : Optional item' us o := by
  cases h with
  | none => exact .none
  | some given => exact .some (hitem given)

theorem Repeated.mono (hitem : ∀ {us a}, item us a → item' us a) (h : Repeated item us as) :
    Repeated item' us as := by
  induction h with
  | nil => exact .nil
  | cons first more ih => exact .cons (hitem first) ih

theorem Separated.mono (hitem : ∀ {us a}, item us a → item' us a) (h : Separated item us as) :
    Separated item' us as := by
  obtain ⟨first, more⟩ := h
  refine .mk (hitem first) (more.mono ?_)
  rintro _ _ ⟨separator, given⟩
  exact .mk separator (hitem given)

theorem Enclosed.mono (hitem : ∀ {us a}, item us a → item' us a) (h : Enclosed item us as) :
    Enclosed item' us as := by
  cases h with
  | empty opening closing => exact .empty opening closing
  | list opening items closing => exact .list opening (items.mono hitem) closing

variable {expr expr' : Phrase (Expr Unit)} {e : Expr Unit} {tier : Tier}

theorem Primary.mono (hexpr : ∀ {us e}, expr us e → expr' us e) (h : Primary expr us e) :
    Primary expr' us e := by
  cases h with
  | ident name => exact .ident name
  | call name arguments => exact .call name (arguments.mono hexpr)
  | number literal => exact .number literal
  | string literal => exact .string literal
  | this word => exact .this word
  | superCall word dot name arguments => exact .superCall word dot name (arguments.mono hexpr)
  | new word name arguments => exact .new word name (arguments.mono hexpr)
  | group opening inner closing => exact .group opening (hexpr inner) closing

theorem Postfix.mono (hexpr : ∀ {us e}, expr us e → expr' us e) (h : Postfix expr us e) :
    Postfix expr' us e := by
  obtain ⟨head, selections⟩ := h
  refine .mk (head.mono hexpr) (selections.mono ?_)
  intro us f h
  cases h with
  | field dot name => exact .field dot name
  | invoke dot name arguments => exact .invoke dot name (arguments.mono hexpr)

theorem Unary.mono (hexpr : ∀ {us e}, expr us e → expr' us e) (h : Unary expr us e) :
    Unary expr' us e := by
  cases h with
  | plain operand => exact .plain (operand.mono hexpr)
  | plus sign operand => exact .plus sign (operand.mono hexpr)
  | minus sign operand => exact .minus sign (operand.mono hexpr)

theorem Chain.mono (hexpr : ∀ {us e}, expr us e → expr' us e) (h : Chain tier expr us e) :
    Chain tier expr' us e := by
  obtain ⟨first, more⟩ := h
  refine .mk (hexpr first) (more.mono ?_)
  rintro _ _ ⟨operator, level, right⟩
  exact .mk operator level (hexpr right)

theorem Expression.succ : ∀ {n : Nat} {us : List Token} {e : Expr Unit},
    Expression n us e → Expression (n + 1) us e
  | 0, _, _, h => h.elim
  | _ + 1, _, _, h => Chain.mono (Chain.mono (Chain.mono (Chain.mono (Unary.mono succ)))) h

theorem Target.succ : ∀ {n : Nat} {us : List Token} {e : Expr Unit},
    Target n us e → Target (n + 1) us e
  | 0, _, _, h => h.elim
  | _ + 1, _, _, h => ⟨h.1.mono Expression.succ, h.2⟩

theorem Declaration.mono {d : Declarator Unit} (hexpr : ∀ {us e}, expr us e → expr' us e)
    (h : Declaration expr us d) : Declaration expr' us d := by
  cases h with
  | plain name => exact .plain name
  | initialized name equals value => exact .initialized name equals (hexpr value)

theorem Assignment.succ (h : Assignment n us e) : Assignment (n + 1) us e := by
  induction h with
  | last left operator right => exact .last left.succ operator right.succ
  | more left operator right ih => exact .more left.succ operator ih

theorem ExprStatement.succ (h : ExprStatement n us e) : ExprStatement (n + 1) us e := by
  cases h with
  | assignment given => exact .assignment given.succ
  | preStep operator target assignable =>
    exact .preStep operator (target.mono Expression.succ) assignable
  | postStep target operator => exact .postStep target.succ operator
  | plain given => exact .plain given.succ

theorem Condition.mono (hexpr : ∀ {us e}, expr us e → expr' us e) (h : Condition expr us e) :
    Condition expr' us e := by
  obtain ⟨opening, test, closing⟩ := h
  exact .mk opening (hexpr test) closing

variable {stmt stmt' : Phrase (Stmt Unit)} {s : Stmt Unit}

theorem Block.mono {body : List (Stmt Unit)} (hstmt : ∀ {us s}, stmt us s → stmt' us s)
    (h : Block stmt us body) : Block stmt' us body := by
  obtain ⟨opening, statements, closing⟩ := h
  exact .mk opening (statements.mono hstmt) closing

theorem Handler.mono {clause : CatchClause Unit} (hstmt : ∀ {us s}, stmt us s → stmt' us s)
    (h : Handler stmt us clause) : Handler stmt' us clause := by
  obtain ⟨word, opening, exceptionType, name, closing, block⟩ := h
  exact .mk word opening exceptionType name closing (block.mono hstmt)

theorem StatementForm.succ (hstmt : ∀ {us s}, stmt us s → stmt' us s)
    (h : StatementForm n stmt us s) : StatementForm (n + 1) stmt' us s := by
  have hexpr : ∀ {us e}, Expression n us e → Expression (n + 1) us e := Expression.succ
  cases h with
  | block given => exact .block (given.mono hstmt)
  | empty semicolon => exact .empty semicolon
  | locals word names semicolon =>
    exact .locals word (names.mono (Declaration.mono hexpr)) semicolon
  | expr given semicolon => exact .expr given.succ semicolon
  | labeled name colon body => exact .labeled name colon (hstmt body)
  | ifThen word test body => exact .ifThen word (test.mono hexpr) (hstmt body)
  | ifElse word test body nearest other body' =>
    exact .ifElse word (test.mono hexpr) (hstmt body) nearest other (hstmt body')
  | whileLoop word test body => exact .whileLoop word (test.mono hexpr) (hstmt body)
  | doLoop word body loop test semicolon =>
    exact .doLoop word (hstmt body) loop (test.mono hexpr) semicolon
  | breakTo word target semicolon => exact .breakTo word target semicolon
  | continueTo word target semicolon => exact .continueTo word target semicolon
  | returnWith word given semicolon => exact .returnWith word (given.mono hexpr) semicolon
  | tryCatch word block handlers some =>
    exact .tryCatch word (block.mono hstmt) (handlers.mono (Handler.mono hstmt)) some
  | tryFinally word block handlers last block' =>
    exact .tryFinally word (block.mono hstmt) (handlers.mono (Handler.mono hstmt)) last
      (block'.mono hstmt)

theorem Statement.succ : ∀ {n : Nat} {us : List Token} {s : Stmt Unit},
    Statement n us s → Statement (n + 1) us s
  | 0, _, _, h => h.elim
  | _ + 1, _, _, h => StatementForm.succ succ h

theorem MemberDecl.succ {d : Member Unit} (h : MemberDecl n us d) : MemberDecl (n + 1) us d := by
  cases h with
  | field modifiers word names semicolon =>
    exact .field modifiers word (names.mono (Declaration.mono Expression.succ)) semicolon
  | method modifiers word name parameters block =>
    exact .method modifiers word name parameters (block.mono Statement.succ)

theorem ClassDeclaration.succ {d : ClassDecl Unit} (h : ClassDeclaration n us d) :
    ClassDeclaration (n + 1) us d := by
  obtain ⟨modifiers, word, name, opening, body, closing⟩ := h
  exact .mk modifiers word name opening (body.mono MemberDecl.succ) closing

theorem CompilationUnit.succ {p : Program Unit} (h : CompilationUnit n us p) :
    CompilationUnit (n + 1) us p := by
  obtain ⟨header, clauses, given⟩ := h
  exact .mk header clauses given.succ

theorem CompilationUnit.mono {p : Program Unit} (h : CompilationUnit n us p) (hle : n ≤ m) :
    CompilationUnit m us p := by
  induction hle with
  | refl => exact h
  | step _ ih => exact ih.succ

end Mono

end Grammar

end JavaSubset
