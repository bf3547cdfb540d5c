import JavaSubset.Tree.Modifiers
import JavaSubset.Tree.Stmt

/-!
# Programs

A program is a package name, imports and one class; each may be missing from a source that does
not parse. A class has fields and methods.
-/

namespace JavaSubset

structure Param where
  type : PrimitiveType
  name : String
  deriving DecidableEq

inductive Member (ι : Type) where
  /-- One or more fields of one type. -/
  | field (note : ι) (modifiers : ModifierSet) (type : PrimitiveType) (first : Declarator ι)
      (more : List (Declarator ι))
  | method (note : ι) (modifiers : ModifierSet) (returnType : PrimitiveType) (name : String)
      (params : List Param) (body : List (Stmt ι))

structure ClassDecl (ι : Type) where
  note : ι
  modifiers : ModifierSet
  name : String
  members : List (Member ι)

structure Program (ι : Type) where
  package : Option String
  imports : List String
  classDecl : Option (ClassDecl ι)

variable {ι κ : Type}

def Member.note : Member ι → ι
  | field n .. | method n .. => n

def Member.map (f : ι → κ) : Member ι → Member κ
  | field n modifiers type first more =>
    field (f n) modifiers type (first.map f) (more.map (Declarator.map f))
  | method n modifiers returnType name params body =>
    method (f n) modifiers returnType name params (Stmt.mapList f body)

def ClassDecl.map (f : ι → κ) (c : ClassDecl ι) : ClassDecl κ :=
  ⟨f c.note, c.modifiers, c.name, c.members.map (Member.map f)⟩

/-- The same program with `f` applied to every note. -/
def Program.map (f : ι → κ) (p : Program ι) : Program κ :=
  ⟨p.package, p.imports, p.classDecl.map (ClassDecl.map f)⟩

end JavaSubset
