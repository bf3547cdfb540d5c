import JavaSubset.Proofs.Derivations

/-!
# Where statements and expressions are opened

A derivation with a gap: `Frame limit site n us ws` says that a phrase of the kind `site` can stand
between the tokens `us` and `ws` of a compilation unit, and that `n` of `limit` statements and
expressions can still be opened inside it. What stands in `us` stays within the limit everywhere;
`ws` may nest as deep as it likes. There is one rule for each part of each production.

Opening an `Entry`, a statement or an expression, takes one from `n` (`Frame.operators` and the
rules under a statement). Nothing else does: operands behind any number of operators
(`Frame.operand`), arguments behind any number of selections (`Frame.selected`), values behind any
number of targets (`Frame.value`) and statements behind any number of others (`Frame.item`) are as
deep as the first of them.

In `Frame limit (.entry entry) 0 us ws` the entry would be one too many, and it is the first such
one: no entry that starts in `us` is.
-/

namespace JavaSubset.Grammar

variable {α : Type} {us vs : List Token}

/-! ## Parts of productions -/

/-- An item behind a word. -/
inductive Behind (word : Keyword) (item : Phrase α) : Phrase α where
  | mk {t : Token} {us : List Token} {a : α} (opening : Word word t) (given : item us a) :
      Behind word item (t :: us) a

/-- What stands before an item of a list with commas. -/
inductive Preceding (item : Phrase α) : List Token → Prop where
  | first : Preceding item []
  | next {t : Token} {us : List Token} {as : List α} (items : Separated item us as)
      (separator : Mark .comma t) : Preceding item (us ++ [t])

theorem Repeated.snoc {item : Phrase α} {as : List α} {a : α} (h : Repeated item us as)
    (ha : item vs a) : Repeated item (us ++ vs) (as ++ [a]) := by
  induction h with
  | nil => simpa using Repeated.cons ha .nil
  | cons first more ih =>
    rw [List.append_assoc]
    exact .cons first ih

theorem Separated.snoc {item : Phrase α} {as : List α} {a : α} (h : Separated item us as)
    (ha : After .comma item vs a) : Separated item (us ++ vs) (as ++ [a]) := by
  obtain ⟨first, more⟩ := h
  rw [List.append_assoc]
  exact .mk first (more.snoc ha)

/-- The operand that the operators of a tier join. -/
def Operand (expr : Phrase (Expr Unit)) : Tier → Phrase (Expr Unit)
  | .multiplicative => Unary expr
  | .additive => Chain .multiplicative (Unary expr)
  | .relational => Chain .additive (Chain .multiplicative (Unary expr))
  | .logical => Chain .relational (Chain .additive (Chain .multiplicative (Unary expr)))

/-- Targets with assignment operators behind them. -/
inductive Targets (n : Nat) : List Token → Prop where
  | none : Targets n []
  | more {us vs : List Token} {t : Token} {e : Expr Unit} {op : AssignOp} (left : Targets n us)
      (target : Target n vs e) (operator : t.kind = .operator (.assign op)) :
      Targets n (us ++ (vs ++ [t]))

/-- What counts as open. -/
inductive Entry where
  | statement
  | expression

def Entry.Derives (n : Nat) (us : List Token) : Entry → Prop
  | statement => ∃ s, Statement n us s
  | expression => ∃ e, Expression n us e

/-- The parts of a compilation unit in which something can be opened. -/
inductive Site where
  | entry (entry : Entry)
  | member
  | block
  | names
  | condition
  | chain (tier : Tier)
  | unary
  | selection
  | primary
  | arguments

/-- What the operators of a tier join. -/
def Site.operand : Tier → Site
  | .multiplicative => unary
  | .additive => chain .multiplicative
  | .relational => chain .additive
  | .logical => chain .relational

/-! ## Derivations with a gap -/

inductive Frame (limit : Nat) : Site → Nat → List Token → List Token → Prop where
  | member {m : Nat} {us vs ws xs ys : List Token} {t x l r : Token} {package : Option String}
      {imports : List String} {set : ModifierSet} {members members' : List (Member Unit)}
      (header : Optional (Clause .packageKw) us package)
      (clauses : Repeated (Clause .importKw) vs imports)
      (modifiers : Modifiers Modifier.onClass ws set) (word : Word (.declaration .classKw) t)
      (name : x.kind = .identifier) (opening : Mark .lbrace l)
      (left : Repeated (MemberDecl limit) xs members)
      (right : Repeated (MemberDecl m) ys members') (closing : Mark .rbrace r) :
      Frame limit .member limit (us ++ vs ++ (ws ++ t :: x :: l :: xs)) (ys ++ [r])
  -- members
  | fieldNames {n : Nat} {before after us : List Token} {t s : Token} {set : ModifierSet}
      {type : PrimitiveType} (frame : Frame limit .member n before after)
      (modifiers : Modifiers Modifier.onMember us set) (word : Word (.primitive type) t)
      (semicolon : Mark .semicolon s) :
      Frame limit .names n (before ++ (us ++ [t])) (s :: after)
  | methodBody {n : Nat} {before after us vs : List Token} {t x : Token} {set : ModifierSet}
      {type : PrimitiveType} {params : List Param} (frame : Frame limit .member n before after)
      (modifiers : Modifiers Modifier.onMember us set) (word : Word (.primitive type) t)
      (name : x.kind = .identifier) (parameters : Enclosed Parameter vs params) :
      Frame limit .block n (before ++ (us ++ t :: x :: vs)) after
  | initial {n m : Nat} {before after us vs : List Token} {x t : Token}
      {ds : List (Declarator Unit)} (frame : Frame limit .names n before after)
      (left : Preceding (Declaration (Expression n)) us) (name : x.kind = .identifier)
      (equals : t.kind = .operator (.assign .assign))
      (right : Repeated (After .comma (Declaration (Expression m))) vs ds) :
      Frame limit (.entry .expression) n (before ++ (us ++ [x, t])) (vs ++ after)
  | item {n m : Nat} {before after us vs : List Token} {l r : Token} {ss ss' : List (Stmt Unit)}
      (frame : Frame limit .block n before after) (opening : Mark .lbrace l)
      (left : Repeated (Statement n) us ss) (right : Repeated (Statement m) vs ss')
      (closing : Mark .rbrace r) :
      Frame limit (.entry .statement) n (before ++ l :: us) (vs ++ r :: after)
  -- statements
  | block {n : Nat} {before after : List Token}
      (frame : Frame limit (.entry .statement) (n + 1) before after) :
      Frame limit .block n before after
  | locals {n : Nat} {before after : List Token} {t s : Token} {type : PrimitiveType}
      (frame : Frame limit (.entry .statement) (n + 1) before after)
      (word : Word (.primitive type) t) (semicolon : Mark .semicolon s) :
      Frame limit .names n (before ++ [t]) (s :: after)
  | value {n : Nat} {before after us : List Token} {s : Token}
      (frame : Frame limit (.entry .statement) (n + 1) before after) (left : Targets n us)
      (semicolon : Mark .semicolon s) :
      Frame limit (.entry .expression) n (before ++ us) (s :: after)
  | target {n m : Nat} {before after us vs : List Token} {t s : Token} {e : Expr Unit}
      {op : AssignOp} (frame : Frame limit (.entry .statement) (n + 1) before after)
      (left : Targets n us) (operator : t.kind = .operator (.assign op))
      (right : Expression m vs e ∨ Assignment m vs e) (semicolon : Mark .semicolon s) :
      Frame limit (.entry .expression) n (before ++ us) (t :: vs ++ s :: after)
  | stepped {n : Nat} {before after : List Token} {t s : Token} {step : Step}
      (frame : Frame limit (.entry .statement) (n + 1) before after)
      (operator : t.kind = .operator (.step step)) (semicolon : Mark .semicolon s) :
      Frame limit (.entry .expression) n before (t :: s :: after)
  | preStep {n : Nat} {before after : List Token} {t s : Token} {step : Step}
      (frame : Frame limit (.entry .statement) (n + 1) before after)
      (operator : t.kind = .operator (.step step)) (semicolon : Mark .semicolon s) :
      Frame limit .selection n (before ++ [t]) (s :: after)
  | labeled {n : Nat} {before after : List Token} {x t : Token}
      (frame : Frame limit (.entry .statement) (n + 1) before after) (name : x.kind = .identifier)
      (colon : Mark .colon t) : Frame limit (.entry .statement) n (before ++ [x, t]) after
  | ifTest {n m : Nat} {before after us vs : List Token} {t : Token} {s : Stmt Unit}
      {s' : Option (Stmt Unit)} (frame : Frame limit (.entry .statement) (n + 1) before after)
      (word : Word (.control .ifKw) t) (body : Statement m us s)
      (other : Optional (Behind (.control .elseKw) (Statement m)) vs s') :
      Frame limit .condition n (before ++ [t]) (us ++ vs ++ after)
  | ifBody {n m : Nat} {before after us vs : List Token} {t : Token} {e : Expr Unit}
      {s' : Option (Stmt Unit)} (frame : Frame limit (.entry .statement) (n + 1) before after)
      (word : Word (.control .ifKw) t) (test : Condition (Expression n) us e)
      (other : Optional (Behind (.control .elseKw) (Statement m)) vs s') :
      Frame limit (.entry .statement) n (before ++ t :: us) (vs ++ after)
  | elseBody {n : Nat} {before after us vs : List Token} {t o : Token} {e : Expr Unit}
      {s : Stmt Unit} (frame : Frame limit (.entry .statement) (n + 1) before after)
      (word : Word (.control .ifKw) t) (test : Condition (Expression n) us e)
      (body : Statement n vs s) (nearest : s.endsOpen = false)
      (other : Word (.control .elseKw) o) :
      Frame limit (.entry .statement) n (before ++ (t :: us ++ vs ++ [o])) after
  | whileTest {n m : Nat} {before after us : List Token} {t : Token} {s : Stmt Unit}
      (frame : Frame limit (.entry .statement) (n + 1) before after)
      (word : Word (.control .whileKw) t) (body : Statement m us s) :
      Frame limit .condition n (before ++ [t]) (us ++ after)
  | whileBody {n : Nat} {before after us : List Token} {t : Token} {e : Expr Unit}
      (frame : Frame limit (.entry .statement) (n + 1) before after)
      (word : Word (.control .whileKw) t) (test : Condition (Expression n) us e) :
      Frame limit (.entry .statement) n (before ++ t :: us) after
  | doBody {n m : Nat} {before after us : List Token} {t w s : Token} {e : Expr Unit}
      (frame : Frame limit (.entry .statement) (n + 1) before after)
      (word : Word (.control .doKw) t) (loop : Word (.control .whileKw) w)
      (test : Condition (Expression m) us e) (semicolon : Mark .semicolon s) :
      Frame limit (.entry .statement) n (before ++ [t]) (w :: us ++ s :: after)
  | doTest {n : Nat} {before after us : List Token} {t w m : Token} {s : Stmt Unit}
      (frame : Frame limit (.entry .statement) (n + 1) before after)
      (word : Word (.control .doKw) t) (body : Statement n us s)
      (loop : Word (.control .whileKw) w) (semicolon : Mark .semicolon m) :
      Frame limit .condition n (before ++ (t :: us ++ [w])) (m :: after)
  | returned {n : Nat} {before after : List Token} {t s : Token}
      (frame : Frame limit (.entry .statement) (n + 1) before after)
      (word : Word (.control .returnKw) t) (semicolon : Mark .semicolon s) :
      Frame limit (.entry .expression) n (before ++ [t]) (s :: after)
  | tryBody {n m : Nat} {before after us vs : List Token} {t : Token}
      {catches : List (CatchClause Unit)} {cleanup : Option (List (Stmt Unit))}
      (frame : Frame limit (.entry .statement) (n + 1) before after)
      (word : Word (.control .tryKw) t) (handlers : Repeated (Handler (Statement m)) us catches)
      (last : Optional (Behind (.control .finallyKw) (Block (Statement m))) vs cleanup) :
      Frame limit .block n (before ++ [t]) (us ++ vs ++ after)
  | catchBody {n m : Nat} {before after us vs ws xs : List Token} {t w l x y r : Token}
      {body : List (Stmt Unit)} {catches catches' : List (CatchClause Unit)}
      {cleanup : Option (List (Stmt Unit))}
      (frame : Frame limit (.entry .statement) (n + 1) before after)
      (word : Word (.control .tryKw) t) (block : Block (Statement n) us body)
      (left : Repeated (Handler (Statement n)) vs catches) (handler : Word (.control .catchKw) w)
      (opening : Mark .lparen l) (exceptionType : x.kind = .identifier)
      (name : y.kind = .identifier) (closing : Mark .rparen r)
      (right : Repeated (Handler (Statement m)) ws catches')
      (last : Optional (Behind (.control .finallyKw) (Block (Statement m))) xs cleanup) :
      Frame limit .block n (before ++ (t :: us ++ vs ++ [w, l, x, y, r])) (ws ++ xs ++ after)
  | finallyBody {n : Nat} {before after us vs : List Token} {t f : Token}
      {body : List (Stmt Unit)} {catches : List (CatchClause Unit)}
      (frame : Frame limit (.entry .statement) (n + 1) before after)
      (word : Word (.control .tryKw) t) (block : Block (Statement n) us body)
      (handlers : Repeated (Handler (Statement n)) vs catches)
      (last : Word (.control .finallyKw) f) :
      Frame limit .block n (before ++ (t :: us ++ vs ++ [f])) after
  | test {n : Nat} {before after : List Token} {l r : Token}
      (frame : Frame limit .condition n before after) (opening : Mark .lparen l)
      (closing : Mark .rparen r) :
      Frame limit (.entry .expression) n (before ++ [l]) (r :: after)
  -- expressions
  | operators {n : Nat} {before after : List Token}
      (frame : Frame limit (.entry .expression) (n + 1) before after) :
      Frame limit (.chain .logical) n before after
  | operand {n m : Nat} {tier : Tier} {before after vs : List Token}
      {links : List (BinaryOp × Expr Unit)} (frame : Frame limit (.chain tier) n before after)
      (right : Repeated (Link tier (Operand (Expression m) tier)) vs links) :
      Frame limit (.operand tier) n before (vs ++ after)
  | linked {n m : Nat} {tier : Tier} {before after us vs : List Token} {t : Token} {e : Expr Unit}
      {op : BinaryOp} {links : List (BinaryOp × Expr Unit)}
      (frame : Frame limit (.chain tier) n before after)
      (left : Chain tier (Operand (Expression n) tier) us e)
      (operator : t.kind = .operator (.binary op)) (level : op.tier = tier)
      (right : Repeated (Link tier (Operand (Expression m) tier)) vs links) :
      Frame limit (.operand tier) n (before ++ (us ++ [t])) (vs ++ after)
  | bare {n : Nat} {before after : List Token} (frame : Frame limit .unary n before after) :
      Frame limit .selection n before after
  | signed {n : Nat} {before after : List Token} {t : Token}
      (frame : Frame limit .unary n before after)
      (sign : t.kind = .operator (.binary .add) ∨ t.kind = .operator (.binary .sub)) :
      Frame limit .selection n (before ++ [t]) after
  | head {n m : Nat} {before after vs : List Token} {fs : List (Expr Unit → Expr Unit)}
      (frame : Frame limit .selection n before after)
      (right : Repeated (Selection (Expression m)) vs fs) :
      Frame limit .primary n before (vs ++ after)
  | selected {n m : Nat} {before after us vs : List Token} {d x : Token} {e : Expr Unit}
      {fs : List (Expr Unit → Expr Unit)} (frame : Frame limit .selection n before after)
      (left : Postfix (Expression n) us e) (dot : Mark .dot d) (name : x.kind = .identifier)
      (right : Repeated (Selection (Expression m)) vs fs) :
      Frame limit .arguments n (before ++ (us ++ [d, x])) (vs ++ after)
  | call {n : Nat} {before after : List Token} {x : Token}
      (frame : Frame limit .primary n before after) (name : x.kind = .identifier) :
      Frame limit .arguments n (before ++ [x]) after
  | superCall {n : Nat} {before after : List Token} {t d x : Token}
      (frame : Frame limit .primary n before after) (word : Word (.expression .superKw) t)
      (dot : Mark .dot d) (name : x.kind = .identifier) :
      Frame limit .arguments n (before ++ [t, d, x]) after
  | new {n : Nat} {before after : List Token} {t x : Token}
      (frame : Frame limit .primary n before after) (word : Word (.expression .newKw) t)
      (name : x.kind = .identifier) : Frame limit .arguments n (before ++ [t, x]) after
  | group {n : Nat} {before after : List Token} {l r : Token}
      (frame : Frame limit .primary n before after) (opening : Mark .lparen l)
      (closing : Mark .rparen r) :
      Frame limit (.entry .expression) n (before ++ [l]) (r :: after)
  | argument {n m : Nat} {before after us vs : List Token} {l r : Token} {es : List (Expr Unit)}
      (frame : Frame limit .arguments n before after) (opening : Mark .lparen l)
      (left : Preceding (Expression n) us)
      (right : Repeated (After .comma (Expression m)) vs es) (closing : Mark .rparen r) :
      Frame limit (.entry .expression) n (before ++ l :: us) (vs ++ r :: after)

end JavaSubset.Grammar
