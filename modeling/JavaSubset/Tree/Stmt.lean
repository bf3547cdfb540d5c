import JavaSubset.Tree.Expr
import JavaSubset.Vocabulary.Keyword

/-!
# Statements

As in expressions, the first field of every node is its note.
-/

namespace JavaSubset

/-- A declared name and its initial value, if it has one. -/
structure Declarator (ι : Type) where
  name : String
  init : Option (Expr ι)

def Declarator.map {ι κ : Type} (f : ι → κ) (d : Declarator ι) : Declarator κ :=
  ⟨d.name, d.init.map (Expr.map f)⟩

mutual

inductive Stmt (ι : Type) where
  | block (note : ι) (body : List (Stmt ι))
  | ifThen (note : ι) (condition : Expr ι) (thenBranch : Stmt ι)
  | ifElse (note : ι) (condition : Expr ι) (thenBranch elseBranch : Stmt ι)
  | whileLoop (note : ι) (condition : Expr ι) (body : Stmt ι)
  | doLoop (note : ι) (body : Stmt ι) (condition : Expr ι)
  | breakTo (note : ι) (label : Option String)
  | continueTo (note : ι) (label : Option String)
  | returnWith (note : ι) (value : Option (Expr ι))
  | tryCatch (note : ι) (body : List (Stmt ι)) (catches : List (CatchClause ι))
  | tryFinally (note : ι) (body : List (Stmt ι)) (catches : List (CatchClause ι))
      (cleanup : List (Stmt ι))
  | expr (note : ι) (value : Expr ι)
  | locals (note : ι) (type : PrimitiveType) (declarators : List (Declarator ι))
  | empty (note : ι)
  | labeled (note : ι) (label : String) (body : Stmt ι)

structure CatchClause (ι : Type) where
  exceptionType : String
  name : String
  body : List (Stmt ι)

end

namespace Stmt

variable {ι κ : Type}

def note : Stmt ι → ι
  | block n .. | ifThen n .. | ifElse n .. | whileLoop n .. | doLoop n .. | breakTo n ..
  | continueTo n .. | returnWith n .. | tryCatch n .. | tryFinally n .. | expr n ..
  | locals n .. | empty n | labeled n .. => n

mutual

/-- The same statement with `f` applied to every note. -/
def map (f : ι → κ) : Stmt ι → Stmt κ
  | block n body => block (f n) (mapList f body)
  | ifThen n condition thenBranch => ifThen (f n) (condition.map f) (thenBranch.map f)
  | ifElse n condition thenBranch elseBranch =>
    ifElse (f n) (condition.map f) (thenBranch.map f) (elseBranch.map f)
  | whileLoop n condition body => whileLoop (f n) (condition.map f) (body.map f)
  | doLoop n body condition => doLoop (f n) (body.map f) (condition.map f)
  | breakTo n label => breakTo (f n) label
  | continueTo n label => continueTo (f n) label
  | returnWith n value => returnWith (f n) (value.map (Expr.map f))
  | tryCatch n body catches => tryCatch (f n) (mapList f body) (mapCatches f catches)
  | tryFinally n body catches cleanup =>
    tryFinally (f n) (mapList f body) (mapCatches f catches) (mapList f cleanup)
  | expr n value => expr (f n) (value.map f)
  | locals n type declarators => locals (f n) type (declarators.map (Declarator.map f))
  | empty n => empty (f n)
  | labeled n label body => labeled (f n) label (body.map f)

def mapList (f : ι → κ) : List (Stmt ι) → List (Stmt κ)
  | [] => []
  | s :: more => s.map f :: mapList f more

def mapCatches (f : ι → κ) : List (CatchClause ι) → List (CatchClause κ)
  | [] => []
  | ⟨exceptionType, name, body⟩ :: more => ⟨exceptionType, name, mapList f body⟩ :: mapCatches f more

end

theorem mapList_eq_map (f : ι → κ) (ss : List (Stmt ι)) : mapList f ss = ss.map (map f) := by
  induction ss with
  | nil => rfl
  | cons s more ih => simp [mapList, ih]

end Stmt

end JavaSubset
