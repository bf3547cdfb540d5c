import JavaSubset.Location
import JavaSubset.Outline
import JavaSubset.Text.Quoted
import JavaSubset.Tree.Program

/-!
# Listings of trees

The outline of every kind of node, down to the program. A node with a location is shown as a
record of the node, its span and its line.
-/

namespace JavaSubset

open Outline

/-- Number literals are shown as written, strings in quotes. -/
def Literal.display : Literal → String
  | number digits => digits
  | string value => quote value

/-- A text in quotes. -/
def Outline.quoted (text : String) : Outline := atom (quote text)

def Literal.outline : Literal → Outline
  | number digits => tuple "Number" [quoted digits]
  | string value => tuple "String" [quoted value]

def Span.outline (s : Span) : Outline :=
  record "Span" [("start", .number s.start), ("end", .number s.stop)]

/-- A node at its location. -/
def Location.outline (loc : Location) (node : Outline) : Outline :=
  record "Spanned" [("node", node), ("span", loc.span.outline), ("line", .number loc.line)]

def ModifierSet.outline (s : ModifierSet) : Outline := set (s.toList.map fun m => atom m.name)

def PrimitiveType.outline (t : PrimitiveType) : Outline := atom t.name

/-- A method call, with the object it is called on if there is one. -/
def Expr.callOutline (target : Option Outline) (name : String) (args : List Outline) :
    Outline :=
  record "MethodCall"
    [("target", option target), ("name", quoted name), ("args", list args)]

mutual

def Expr.outline : Expr Location → Outline
  | .binary loc left op right =>
    loc.outline (tuple "Binary" [left.outline, atom op.name, right.outline])
  | .unary loc op operand => loc.outline (tuple "Unary" [atom op.name, operand.outline])
  | .literal loc value => loc.outline (tuple "Literal" [value.outline])
  | .ident loc name => loc.outline (tuple "Ident" [quoted name])
  | .this loc => loc.outline (atom "This")
  | .field loc target name => loc.outline (tuple "Field" [target.outline, quoted name])
  | .call loc name args => loc.outline (Expr.callOutline none name (Expr.outlines args))
  | .invoke loc target name args =>
    loc.outline (Expr.callOutline (some target.outline) name (Expr.outlines args))
  | .superCall loc name args =>
    loc.outline (record "SuperCall" [("name", quoted name), ("args", list (Expr.outlines args))])
  | .new loc className args =>
    loc.outline
      (record "New" [("class_name", quoted className), ("args", list (Expr.outlines args))])
  | .assign loc target op value =>
    loc.outline
      (record "Assign" [("target", target.outline), ("op", atom op.name), ("value", value.outline)])

def Expr.outlines : List (Expr Location) → List Outline
  | [] => []
  | e :: more => e.outline :: Expr.outlines more

end

def Declarator.outline (d : Declarator Location) : Outline :=
  record "Declarator"
    [("name", quoted d.name), ("initializer", option (d.init.map Expr.outline))]

def Stmt.blockOutline (statements : List Outline) : Outline :=
  record "Block" [("statements", list statements)]

def Stmt.ifOutline (condition thenBranch : Outline) (elseBranch : Option Outline) : Outline :=
  tuple "If" [record "IfStmt"
    [("condition", condition), ("then_branch", thenBranch), ("else_branch", option elseBranch)]]

def Stmt.tryOutline (body catches : List Outline) (cleanup : Option (List Outline)) : Outline :=
  tuple "Try" [record "TryStmt"
    [("body", Stmt.blockOutline body), ("catches", list catches),
      ("finally", option (cleanup.map Stmt.blockOutline))]]

mutual

def Stmt.outline : Stmt Location → Outline
  | .block loc body => loc.outline (tuple "Block" [blockOutline (Stmt.outlines body)])
  | .ifThen loc condition thenBranch =>
    loc.outline (Stmt.ifOutline condition.outline thenBranch.outline none)
  | .ifElse loc condition thenBranch elseBranch =>
    loc.outline (Stmt.ifOutline condition.outline thenBranch.outline (some elseBranch.outline))
  | .whileLoop loc condition body =>
    loc.outline (tuple "While" [record "WhileStmt"
      [("condition", condition.outline), ("body", body.outline)]])
  | .doLoop loc body condition =>
    loc.outline (tuple "Do" [record "DoStmt"
      [("body", body.outline), ("condition", condition.outline)]])
  | .breakTo loc label => loc.outline (tuple "Break" [option (label.map quoted)])
  | .continueTo loc label => loc.outline (tuple "Continue" [option (label.map quoted)])
  | .returnWith loc value => loc.outline (tuple "Return" [option (value.map Expr.outline)])
  | .tryCatch loc body catches =>
    loc.outline (Stmt.tryOutline (Stmt.outlines body) (Stmt.catchOutlines catches) none)
  | .tryFinally loc body catches cleanup =>
    loc.outline (Stmt.tryOutline (Stmt.outlines body) (Stmt.catchOutlines catches)
      (some (Stmt.outlines cleanup)))
  | .expr loc value => loc.outline (tuple "Expr" [value.outline])
  | .locals loc type declarators =>
    loc.outline (tuple "VarDecl" [record "VarDecl"
      [("ty", type.outline), ("declarators", list (declarators.map Declarator.outline))]])
  | .empty loc => loc.outline (atom "Empty")
  | .labeled loc label body =>
    loc.outline (tuple "Labeled" [record "LabeledStmt"
      [("label", quoted label), ("body", body.outline)]])

def Stmt.outlines : List (Stmt Location) → List Outline
  | [] => []
  | s :: more => s.outline :: Stmt.outlines more

def Stmt.catchOutlines : List (CatchClause Location) → List Outline
  | [] => []
  | ⟨exceptionType, name, body⟩ :: more =>
    record "CatchClause"
      [("exception_type", quoted exceptionType), ("name", quoted name),
        ("body", Stmt.blockOutline (Stmt.outlines body))] :: Stmt.catchOutlines more

end

def Param.outline (p : Param) : Outline :=
  record "Param" [("ty", p.type.outline), ("name", quoted p.name)]

def Member.outline : Member Location → Outline
  | .field loc modifiers type first more =>
    loc.outline (tuple "Field" [record "FieldDecl"
      [("modifiers", modifiers.outline), ("ty", type.outline), ("name", quoted first.name),
        ("initializer", option (first.init.map Expr.outline)),
        ("extra", list (more.map Declarator.outline))]])
  | .method loc modifiers returnType name params body =>
    loc.outline (tuple "Method" [record "MethodDecl"
      [("modifiers", modifiers.outline), ("return_type", returnType.outline),
        ("name", quoted name), ("params", list (params.map Param.outline)),
        ("body", Stmt.blockOutline (Stmt.outlines body))]])

def ClassDecl.outline (c : ClassDecl Location) : Outline :=
  c.note.outline (record "ClassDecl"
    [("modifiers", c.modifiers.outline), ("name", quoted c.name),
      ("members", list (c.members.map Member.outline))])

def Program.outline (p : Program Location) : Outline :=
  record "Program"
    [("package", option (p.package.map quoted)), ("imports", list (p.imports.map quoted)),
      ("class_decl", option (p.classDecl.map ClassDecl.outline))]

end JavaSubset
