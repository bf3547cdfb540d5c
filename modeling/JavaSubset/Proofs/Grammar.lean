import JavaSubset.Tree.Program
import JavaSubset.Token

/-!
# The grammar

A nonterminal is a `Phrase`: the tokens it derives, each list with the tree it stands for. Trees
carry no places (their notes are `Unit`), parentheses leave no node, and names, types, operators
and literal values are those of the tokens. The rules are those of the language, from expressions
to the compilation unit, with these side conditions:

* no modifier occurs twice in one list (`Modifiers`);
* a `try` has a `catch` or a `finally` (`StatementForm.tryCatch`);
* what is assigned to or stepped is a postfix expression whose tree is a variable or a field
  (`Target`, `ExprStatement.preStep`);
* an `else` belongs to the nearest open `if` (`StatementForm.ifElse`, by `Stmt.endsOpen`).

`Expression n` and `Statement n` are the derivations in which at most `n` statements and
expressions are open inside one another; a rule that opens one takes the nonterminal of the level
below as its parameter.
-/

namespace JavaSubset

/-- Whether a statement ends in an `if` that could still take an `else`. -/
def Stmt.endsOpen {ι : Type} : Stmt ι → Bool
  | .ifThen .. => true
  | .ifElse _ _ _ elseBranch => elseBranch.endsOpen
  | .whileLoop _ _ body => body.endsOpen
  | .labeled _ _ body => body.endsOpen
  | _ => false

/-- The tokens a nonterminal derives, with their trees. -/
abbrev Phrase (α : Type) : Type := List Token → α → Prop

namespace Grammar

variable {α : Type}

/-! ## Building blocks -/

abbrev Mark (mark : Punctuation) (t : Token) : Prop := t.kind = .punctuation mark

abbrev Word (word : Keyword) (t : Token) : Prop := t.kind = .keyword word

inductive Identifier : Phrase String where
  | mk {t : Token} (name : t.kind = .identifier) : Identifier [t] t.text

inductive Optional (item : Phrase α) : Phrase (Option α) where
  | none : Optional item [] none
  | some {us : List Token} {a : α} (given : item us a) : Optional item us (some a)

/-- Any number of items, one behind the other. -/
inductive Repeated (item : Phrase α) : Phrase (List α) where
  | nil : Repeated item [] []
  | cons {us vs : List Token} {a : α} {as : List α} (first : item us a)
      (more : Repeated item vs as) : Repeated item (us ++ vs) (a :: as)

/-- An item behind a separator. -/
inductive After (mark : Punctuation) (item : Phrase α) : Phrase α where
  | mk {t : Token} {us : List Token} {a : α} (separator : Mark mark t) (given : item us a) :
      After mark item (t :: us) a

/-- One or more items with commas between them. -/
inductive Separated (item : Phrase α) : Phrase (List α) where
  | mk {us vs : List Token} {a : α} {as : List α} (first : item us a)
      (more : Repeated (After .comma item) vs as) : Separated item (us ++ vs) (a :: as)

/-- A list in parentheses, which may be empty. -/
inductive Enclosed (item : Phrase α) : Phrase (List α) where
  | empty {l r : Token} (opening : Mark .lparen l) (closing : Mark .rparen r) :
      Enclosed item [l, r] []
  | list {l r : Token} {us : List Token} {as : List α} (opening : Mark .lparen l)
      (items : Separated item us as) (closing : Mark .rparen r) :
      Enclosed item (l :: us ++ [r]) as

/-! ## Expressions -/

section Expressions

variable (expr : Phrase (Expr Unit))

inductive Primary : Phrase (Expr Unit) where
  | ident {x : Token} (name : x.kind = .identifier) : Primary [x] (.ident () x.text)
  | call {x : Token} {us : List Token} {args : List (Expr Unit)} (name : x.kind = .identifier)
      (arguments : Enclosed expr us args) : Primary (x :: us) (.call () x.text args)
  | number {t : Token} (literal : t.kind = .number) :
      Primary [t] (.literal () (.number (t.literal.getD t.text)))
  | string {t : Token} (literal : t.kind = .stringLiteral) :
      Primary [t] (.literal () (.string (t.literal.getD "")))
  | this {t : Token} (word : Word (.expression .thisKw) t) : Primary [t] (.this ())
  | superCall {t d x : Token} {us : List Token} {args : List (Expr Unit)}
      (word : Word (.expression .superKw) t) (dot : Mark .dot d) (name : x.kind = .identifier)
      (arguments : Enclosed expr us args) :
      Primary (t :: d :: x :: us) (.superCall () x.text args)
  | new {t x : Token} {us : List Token} {args : List (Expr Unit)}
      (word : Word (.expression .newKw) t) (name : x.kind = .identifier)
      (arguments : Enclosed expr us args) : Primary (t :: x :: us) (.new () x.text args)
  | group {l r : Token} {us : List Token} {e : Expr Unit} (opening : Mark .lparen l)
      (inner : expr us e) (closing : Mark .rparen r) : Primary (l :: us ++ [r]) e

/-- A dot and what follows it, as a function of what stands before the dot. -/
inductive Selection : Phrase (Expr Unit → Expr Unit) where
  | field {d x : Token} (dot : Mark .dot d) (name : x.kind = .identifier) :
      Selection [d, x] (.field () · x.text)
  | invoke {d x : Token} {us : List Token} {args : List (Expr Unit)} (dot : Mark .dot d)
      (name : x.kind = .identifier) (arguments : Enclosed expr us args) :
      Selection (d :: x :: us) (.invoke () · x.text args)

inductive Postfix : Phrase (Expr Unit) where
  | mk {us vs : List Token} {e : Expr Unit} {fs : List (Expr Unit → Expr Unit)}
      (head : Primary expr us e) (selections : Repeated (Selection expr) vs fs) :
      Postfix (us ++ vs) (fs.foldl (fun target f => f target) e)

inductive Unary : Phrase (Expr Unit) where
  | plain {us : List Token} {e : Expr Unit} (operand : Postfix expr us e) : Unary us e
  | plus {t : Token} {us : List Token} {e : Expr Unit} (sign : t.kind = .operator (.binary .add))
      (operand : Postfix expr us e) : Unary (t :: us) (.unary () .plus e)
  | minus {t : Token} {us : List Token} {e : Expr Unit} (sign : t.kind = .operator (.binary .sub))
      (operand : Postfix expr us e) : Unary (t :: us) (.unary () .neg e)

end Expressions

/-- An operator of one tier and the operand behind it. -/
inductive Link (tier : Tier) (operand : Phrase (Expr Unit)) : Phrase (BinaryOp × Expr Unit) where
  | mk {t : Token} {us : List Token} {op : BinaryOp} {e : Expr Unit}
      (operator : t.kind = .operator (.binary op)) (level : op.tier = tier)
      (right : operand us e) : Link tier operand (t :: us) (op, e)

/-- Operands with operators of one tier between them, grouped from the left. -/
inductive Chain (tier : Tier) (operand : Phrase (Expr Unit)) : Phrase (Expr Unit) where
  | mk {us vs : List Token} {e : Expr Unit} {links : List (BinaryOp × Expr Unit)}
      (first : operand us e) (more : Repeated (Link tier operand) vs links) :
      Chain tier operand (us ++ vs)
        (links.foldl (fun left (op, right) => .binary () left op right) e)

/-- The tiers of binary operators, from the loosest to the tightest. -/
def Logical (expr : Phrase (Expr Unit)) : Phrase (Expr Unit) :=
  Chain .logical (Chain .relational (Chain .additive (Chain .multiplicative (Unary expr))))

def Expression : Nat → Phrase (Expr Unit)
  | 0 => fun _ _ => False
  | n + 1 => Logical (Expression n)

/-- What stands in front of an operator that changes it. Like an expression it counts as open. -/
def Target : Nat → Phrase (Expr Unit)
  | 0 => fun _ _ => False
  | n + 1 => fun us e => Postfix (Expression n) us e ∧ e.isAssignable = true

theorem Repeated.of_nil {item : Phrase α} {us : List Token} (h : Repeated item us []) :
    us = [] := by
  cases h
  rfl

theorem Chain.operand_of_assignable {tier : Tier} {operand : Phrase (Expr Unit)}
    {us : List Token} {e : Expr Unit} (h : Chain tier operand us e)
    (he : e.isAssignable = true) : operand us e := by
  obtain ⟨first, more⟩ := h
  rename_i us vs e links
  rcases List.eq_nil_or_concat links with rfl | ⟨links, link, rfl⟩
  · rw [more.of_nil, List.append_nil]
    exact first
  · simp [Expr.isAssignable] at he

/-- An expression that can be assigned to is a postfix expression. -/
theorem target_of_expression : ∀ {n : Nat} {us : List Token} {e : Expr Unit},
    Expression n us e → e.isAssignable = true → Target n us e
  | 0, _, _, h, _ => h
  | n + 1, us, e, h, he => by
    have hrelational := Chain.operand_of_assignable h he
    have hadditive := Chain.operand_of_assignable hrelational he
    have hmultiplicative := Chain.operand_of_assignable hadditive he
    cases Chain.operand_of_assignable hmultiplicative he with
    | plain operand => exact ⟨operand, he⟩
    | plus sign operand => simp [Expr.isAssignable] at he
    | minus sign operand => simp [Expr.isAssignable] at he

/-! ## Statements -/

inductive Declaration (expr : Phrase (Expr Unit)) : Phrase (Declarator Unit) where
  | plain {x : Token} (name : x.kind = .identifier) : Declaration expr [x] ⟨x.text, none⟩
  | initialized {x t : Token} {us : List Token} {e : Expr Unit} (name : x.kind = .identifier)
      (equals : t.kind = .operator (.assign .assign)) (value : expr us e) :
      Declaration expr (x :: t :: us) ⟨x.text, some e⟩

/-- Assignments are grouped from the right. -/
inductive Assignment (n : Nat) : Phrase (Expr Unit) where
  | last {us vs : List Token} {t : Token} {target value : Expr Unit} {op : AssignOp}
      (left : Target n us target) (operator : t.kind = .operator (.assign op))
      (right : Expression n vs value) : Assignment n (us ++ t :: vs) (.assign () target op value)
  | more {us vs : List Token} {t : Token} {target value : Expr Unit} {op : AssignOp}
      (left : Target n us target) (operator : t.kind = .operator (.assign op))
      (right : Assignment n vs value) : Assignment n (us ++ t :: vs) (.assign () target op value)

inductive ExprStatement (n : Nat) : Phrase (Expr Unit) where
  | assignment {us : List Token} {e : Expr Unit} (given : Assignment n us e) : ExprStatement n us e
  | preStep {t : Token} {us : List Token} {e : Expr Unit} {step : Step}
      (operator : t.kind = .operator (.step step)) (target : Postfix (Expression n) us e)
      (assignable : e.isAssignable = true) : ExprStatement n (t :: us) (.unary () (.pre step) e)
  | postStep {t : Token} {us : List Token} {e : Expr Unit} {step : Step} (target : Target n us e)
      (operator : t.kind = .operator (.step step)) :
      ExprStatement n (us ++ [t]) (.unary () (.post step) e)
  | plain {us : List Token} {e : Expr Unit} (given : Expression n us e) : ExprStatement n us e

inductive Condition (expr : Phrase (Expr Unit)) : Phrase (Expr Unit) where
  | mk {l r : Token} {us : List Token} {e : Expr Unit} (opening : Mark .lparen l)
      (test : expr us e) (closing : Mark .rparen r) : Condition expr (l :: us ++ [r]) e

section Blocks

variable (stmt : Phrase (Stmt Unit))

inductive Block : Phrase (List (Stmt Unit)) where
  | mk {l r : Token} {us : List Token} {body : List (Stmt Unit)} (opening : Mark .lbrace l)
      (statements : Repeated stmt us body) (closing : Mark .rbrace r) : Block (l :: us ++ [r]) body

inductive Handler : Phrase (CatchClause Unit) where
  | mk {t l x y r : Token} {us : List Token} {body : List (Stmt Unit)}
      (word : Word (.control .catchKw) t) (opening : Mark .lparen l)
      (exceptionType : x.kind = .identifier) (name : y.kind = .identifier)
      (closing : Mark .rparen r) (block : Block stmt us body) :
      Handler (t :: l :: x :: y :: r :: us) ⟨x.text, y.text, body⟩

end Blocks

/-- The statements inside which `n` more statements and expressions may be open. -/
inductive StatementForm (n : Nat) (stmt : Phrase (Stmt Unit)) : Phrase (Stmt Unit) where
  | block {us : List Token} {body : List (Stmt Unit)} (given : Block stmt us body) :
      StatementForm n stmt us (.block () body)
  | empty {t : Token} (semicolon : Mark .semicolon t) : StatementForm n stmt [t] (.empty ())
  | locals {t s : Token} {us : List Token} {type : PrimitiveType} {ds : List (Declarator Unit)}
      (word : Word (.primitive type) t) (names : Separated (Declaration (Expression n)) us ds)
      (semicolon : Mark .semicolon s) :
      StatementForm n stmt (t :: us ++ [s]) (.locals () type ds)
  | expr {s : Token} {us : List Token} {e : Expr Unit} (given : ExprStatement n us e)
      (semicolon : Mark .semicolon s) : StatementForm n stmt (us ++ [s]) (.expr () e)
  | labeled {x t : Token} {us : List Token} {s : Stmt Unit} (name : x.kind = .identifier)
      (colon : Mark .colon t) (body : stmt us s) :
      StatementForm n stmt (x :: t :: us) (.labeled () x.text s)
  | ifThen {t : Token} {us vs : List Token} {e : Expr Unit} {s : Stmt Unit}
      (word : Word (.control .ifKw) t) (test : Condition (Expression n) us e) (body : stmt vs s) :
      StatementForm n stmt (t :: us ++ vs) (.ifThen () e s)
  | ifElse {t o : Token} {us vs ws : List Token} {e : Expr Unit} {s s' : Stmt Unit}
      (word : Word (.control .ifKw) t) (test : Condition (Expression n) us e) (body : stmt vs s)
      (nearest : s.endsOpen = false) (other : Word (.control .elseKw) o) (body' : stmt ws s') :
      StatementForm n stmt (t :: us ++ vs ++ o :: ws) (.ifElse () e s s')
  | whileLoop {t : Token} {us vs : List Token} {e : Expr Unit} {s : Stmt Unit}
      (word : Word (.control .whileKw) t) (test : Condition (Expression n) us e)
      (body : stmt vs s) : StatementForm n stmt (t :: us ++ vs) (.whileLoop () e s)
  | doLoop {t w m : Token} {us vs : List Token} {e : Expr Unit} {s : Stmt Unit}
      (word : Word (.control .doKw) t) (body : stmt us s) (loop : Word (.control .whileKw) w)
      (test : Condition (Expression n) vs e) (semicolon : Mark .semicolon m) :
      StatementForm n stmt (t :: us ++ w :: vs ++ [m]) (.doLoop () s e)
  | breakTo {t s : Token} {us : List Token} {label : Option String}
      (word : Word (.control .breakKw) t) (target : Optional Identifier us label)
      (semicolon : Mark .semicolon s) : StatementForm n stmt (t :: us ++ [s]) (.breakTo () label)
  | continueTo {t s : Token} {us : List Token} {label : Option String}
      (word : Word (.control .continueKw) t) (target : Optional Identifier us label)
      (semicolon : Mark .semicolon s) :
      StatementForm n stmt (t :: us ++ [s]) (.continueTo () label)
  | returnWith {t s : Token} {us : List Token} {value : Option (Expr Unit)}
      (word : Word (.control .returnKw) t) (given : Optional (Expression n) us value)
      (semicolon : Mark .semicolon s) :
      StatementForm n stmt (t :: us ++ [s]) (.returnWith () value)
  | tryCatch {t : Token} {us vs : List Token} {body : List (Stmt Unit)}
      {catches : List (CatchClause Unit)} (word : Word (.control .tryKw) t)
      (block : Block stmt us body) (handlers : Repeated (Handler stmt) vs catches)
      (some : catches ≠ []) : StatementForm n stmt (t :: us ++ vs) (.tryCatch () body catches)
  | tryFinally {t f : Token} {us vs ws : List Token} {body cleanup : List (Stmt Unit)}
      {catches : List (CatchClause Unit)} (word : Word (.control .tryKw) t)
      (block : Block stmt us body) (handlers : Repeated (Handler stmt) vs catches)
      (last : Word (.control .finallyKw) f) (block' : Block stmt ws cleanup) :
      StatementForm n stmt (t :: us ++ vs ++ f :: ws) (.tryFinally () body catches cleanup)

def Statement : Nat → Phrase (Stmt Unit)
  | 0 => fun _ _ => False
  | n + 1 => StatementForm n (Statement n)

/-! ## Classes -/

inductive Modifiers (allowed : Modifier → Bool) : Phrase ModifierSet where
  | mk {us : List Token} {ms : List Modifier}
      (words : us.map (·.kind) = ms.map (fun m => .keyword (.modifier m)))
      (distinct : ms.Nodup) (fitting : ∀ m ∈ ms, allowed m = true) :
      Modifiers allowed us (.ofList ms)

inductive Parameter : Phrase Param where
  | mk {t x : Token} {type : PrimitiveType} (word : Word (.primitive type) t)
      (name : x.kind = .identifier) : Parameter [t, x] ⟨type, x.text⟩

section Declarations

variable (n : Nat)

inductive MemberDecl : Phrase (Member Unit) where
  | field {us vs : List Token} {t s : Token} {set : ModifierSet} {type : PrimitiveType}
      {first : Declarator Unit} {more : List (Declarator Unit)}
      (modifiers : Modifiers Modifier.onMember us set) (word : Word (.primitive type) t)
      (names : Separated (Declaration (Expression n)) vs (first :: more))
      (semicolon : Mark .semicolon s) :
      MemberDecl (us ++ t :: vs ++ [s]) (.field () set type first more)
  | method {us vs ws : List Token} {t x : Token} {set : ModifierSet} {type : PrimitiveType}
      {params : List Param} {body : List (Stmt Unit)}
      (modifiers : Modifiers Modifier.onMember us set) (word : Word (.primitive type) t)
      (name : x.kind = .identifier) (parameters : Enclosed Parameter vs params)
      (block : Block (Statement n) ws body) :
      MemberDecl (us ++ t :: x :: vs ++ ws) (.method () set type x.text params body)

inductive ClassDeclaration : Phrase (ClassDecl Unit) where
  | mk {us vs : List Token} {t x l r : Token} {set : ModifierSet} {members : List (Member Unit)}
      (modifiers : Modifiers Modifier.onClass us set) (word : Word (.declaration .classKw) t)
      (name : x.kind = .identifier) (opening : Mark .lbrace l)
      (body : Repeated (MemberDecl n) vs members) (closing : Mark .rbrace r) :
      ClassDeclaration (us ++ t :: x :: l :: vs ++ [r]) ⟨(), set, x.text, members⟩

end Declarations

/-! ## The compilation unit -/

/-- Names with dots between them. -/
inductive QualifiedName : Phrase String where
  | mk {us : List Token} {x : Token} {names : List String} (first : x.kind = .identifier)
      (more : Repeated (After .dot Identifier) us names) :
      QualifiedName (x :: us) (".".intercalate (x.text :: names))

/-- A qualified name behind a word and in front of a semicolon. -/
inductive Clause (word : DeclarationWord) : Phrase String where
  | mk {t s : Token} {us : List Token} {name : String} (opening : Word (.declaration word) t)
      (given : QualifiedName us name) (semicolon : Mark .semicolon s) :
      Clause word (t :: us ++ [s]) name

/-- A whole source, in which at most `n` statements and expressions are open inside one another. -/
inductive CompilationUnit (n : Nat) : Phrase (Program Unit) where
  | mk {us vs ws : List Token} {package : Option String} {imports : List String}
      {decl : ClassDecl Unit} (header : Optional (Clause .packageKw) us package)
      (clauses : Repeated (Clause .importKw) vs imports) (given : ClassDeclaration n ws decl) :
      CompilationUnit n (us ++ vs ++ ws) ⟨package, imports, some decl⟩

theorem CompilationUnit.classDecl_isSome {n : Nat} {us : List Token} {p : Program Unit}
    (h : CompilationUnit n us p) : p.classDecl.isSome = true := by
  cases h
  rfl

end Grammar

end JavaSubset
