import JavaSubset.Tree.Program

/-!
# The nodes of a tree

A class, its members, statements and expressions are the nodes of a program: each has a note of its
own. Blocks, declarators and `catch` clauses have none; what they hold belongs to the node around
them.

* `Node.children` : the nodes right below one, in the order of the source;
* `Node.Every P n`, `Program.Every P p` : `P` holds of `n` and of every node below it, of every node
  of `p`.
-/

namespace JavaSubset

variable {ι : Type}

inductive Node (ι : Type) where
  | expr (e : Expr ι)
  | stmt (s : Stmt ι)
  | member (m : Member ι)
  | classDecl (decl : ClassDecl ι)

/-! ## Children -/

def Expr.children : Expr ι → List (Expr ι)
  | binary _ left _ right => [left, right]
  | unary _ _ operand => [operand]
  | literal .. | ident .. | this _ => []
  | field _ target _ => [target]
  | call _ _ args | superCall _ _ args | new _ _ args => args
  | invoke _ target _ args => target :: args
  | assign _ target _ value => [target, value]

/-- The initial value, if there is one. -/
def Declarator.nodes (d : Declarator ι) : List (Node ι) := d.init.toList.map .expr

def CatchClause.nodes (clause : CatchClause ι) : List (Node ι) := clause.body.map .stmt

def Stmt.children : Stmt ι → List (Node ι)
  | block _ body => body.map .stmt
  | ifThen _ condition thenBranch => [.expr condition, .stmt thenBranch]
  | ifElse _ condition thenBranch elseBranch =>
    [.expr condition, .stmt thenBranch, .stmt elseBranch]
  | whileLoop _ condition body => [.expr condition, .stmt body]
  | doLoop _ body condition => [.stmt body, .expr condition]
  | breakTo .. | continueTo .. | empty _ => []
  | returnWith _ value => value.toList.map .expr
  | tryCatch _ body catches => body.map .stmt ++ catches.flatMap CatchClause.nodes
  | tryFinally _ body catches cleanup =>
    body.map .stmt ++ catches.flatMap CatchClause.nodes ++ cleanup.map .stmt
  | expr _ value => [.expr value]
  | locals _ _ declarators => declarators.flatMap Declarator.nodes
  | labeled _ _ body => [.stmt body]

def Member.children : Member ι → List (Node ι)
  | field _ _ _ first more => first.nodes ++ more.flatMap Declarator.nodes
  | method _ _ _ _ _ body => body.map .stmt

namespace Node

def note : Node ι → ι
  | expr e => e.note
  | stmt s => s.note
  | member m => m.note
  | classDecl decl => decl.note

def children : Node ι → List (Node ι)
  | expr e => e.children.map .expr
  | stmt s => s.children
  | member m => m.children
  | classDecl decl => decl.members.map .member

/-! ## All nodes of a tree -/

inductive Every (P : Node ι → Prop) : Node ι → Prop where
  | intro {n : Node ι} (here : P n) (below : ∀ m ∈ n.children, Every P m) : Every P n

variable {P Q : Node ι → Prop} {n : Node ι}

theorem Every.imp (h : n.Every P) (himp : ∀ m, P m → Q m) : n.Every Q := by
  induction h with
  | intro here _ ih => exact .intro (himp _ here) ih

theorem sizeOf_lt_of_mem_children {e e' : Expr ι} (h : e' ∈ e.children) :
    sizeOf e' < sizeOf e := by
  cases e with
  | binary | assign =>
    simp only [Expr.children, List.mem_cons, List.not_mem_nil, or_false] at h
    simp only [Expr.binary.sizeOf_spec, Expr.assign.sizeOf_spec]
    rcases h with rfl | rfl <;> omega
  | unary | field =>
    obtain rfl := List.mem_singleton.mp h
    simp only [Expr.unary.sizeOf_spec, Expr.field.sizeOf_spec]
    omega
  | literal | ident | this => cases h
  | call _ _ args | superCall _ _ args | new _ _ args =>
    have hlt : sizeOf e' < sizeOf args := List.sizeOf_lt_of_mem h
    simp only [Expr.call.sizeOf_spec, Expr.superCall.sizeOf_spec, Expr.new.sizeOf_spec]
    omega
  | invoke _ target _ args =>
    rw [Expr.invoke.sizeOf_spec]
    rcases List.mem_cons.mp h with rfl | h
    · omega
    · have hlt := List.sizeOf_lt_of_mem h
      omega

/-- Below an expression there are only expressions. -/
theorem every_expr (h : ∀ e, P (.expr e)) (e : Expr ι) : (expr e).Every P := by
  refine .intro (h e) fun m hm => ?_
  obtain ⟨e', he', rfl⟩ := List.mem_map.mp hm
  exact every_expr h e'
termination_by sizeOf e
decreasing_by exact sizeOf_lt_of_mem_children he'

end Node

def Program.Every (P : Node ι → Prop) (p : Program ι) : Prop :=
  ∀ decl ∈ p.classDecl, (Node.classDecl decl).Every P

end JavaSubset
