import JavaSubset.Parse.Stmt
import JavaSubset.Proofs.Grammar

/-!
# Trees without places

`erase` drops the notes of a tree. What a production checks of a tree (`Expr.isAssignable`,
`Stmt.endsOpen`) does not depend on them, and neither does the note a pair of parentheses leaves.
-/

namespace JavaSubset

variable {ι : Type}

/-! ## Expressions -/

namespace Expr

def erase (e : Expr ι) : Expr Unit := e.map fun _ => ()

@[simp] theorem erase_binary (n : ι) (l r : Expr ι) (op : BinaryOp) :
    (binary n l op r).erase = .binary () l.erase op r.erase := rfl

@[simp] theorem erase_unary (n : ι) (op : UnaryOp) (e : Expr ι) :
    (unary n op e).erase = .unary () op e.erase := rfl

@[simp] theorem erase_literal (n : ι) (v : Literal) : (literal n v).erase = .literal () v := rfl

@[simp] theorem erase_ident (n : ι) (x : String) : (ident n x).erase = .ident () x := rfl

@[simp] theorem erase_this (n : ι) : (this n).erase = .this () := rfl

@[simp] theorem erase_field (n : ι) (e : Expr ι) (x : String) :
    (field n e x).erase = .field () e.erase x := rfl

@[simp] theorem erase_call (n : ι) (x : String) (args : List (Expr ι)) :
    (call n x args).erase = .call () x (args.map erase) := by
  simp only [erase, map, mapList_eq_map]
  rfl

@[simp] theorem erase_invoke (n : ι) (e : Expr ι) (x : String) (args : List (Expr ι)) :
    (invoke n e x args).erase = .invoke () e.erase x (args.map erase) := by
  simp only [erase, map, mapList_eq_map]
  rfl

@[simp] theorem erase_superCall (n : ι) (x : String) (args : List (Expr ι)) :
    (superCall n x args).erase = .superCall () x (args.map erase) := by
  simp only [erase, map, mapList_eq_map]
  rfl

@[simp] theorem erase_new (n : ι) (x : String) (args : List (Expr ι)) :
    (new n x args).erase = .new () x (args.map erase) := by
  simp only [erase, map, mapList_eq_map]
  rfl

@[simp] theorem erase_assign (n : ι) (l r : Expr ι) (op : AssignOp) :
    (assign n l op r).erase = .assign () l.erase op r.erase := rfl

@[simp] theorem erase_withNote (n : ι) (e : Expr ι) : (e.withNote n).erase = e.erase := by
  cases e <;> rfl

@[simp] theorem isAssignable_erase (e : Expr ι) : e.erase.isAssignable = e.isAssignable := by
  cases e <;> rfl

end Expr

/-! ## Trees in the making -/

/-- What follows a dot, as a function of what stands before it. -/
def Selector.erase : Selector → Expr Unit → Expr Unit
  | .field _ name => (.field () · name)
  | .call _ name args => (.invoke () · name (args.map Expr.erase))

theorem Expr.erase_apply (target : Expr Location) (s : Selector) :
    (s.apply target).erase = s.erase target.erase := by
  cases s <;> simp [Selector.apply, Selector.erase]

theorem Expr.erase_foldl_apply (target : Expr Location) (ss : List Selector) :
    (ss.foldl Selector.apply target).erase =
      (ss.map Selector.erase).foldl (fun e f => f e) target.erase := by
  induction ss generalizing target with
  | nil => rfl
  | cons s ss ih => rw [List.foldl_cons, ih, erase_apply, List.map_cons, List.foldl_cons]

theorem Expr.erase_foldl_join (left : Expr Location) (links : List (BinaryOp × Expr Location)) :
    (links.foldl Parser.join left).erase =
      (links.map (Prod.map id erase)).foldl (fun e (op, e') => .binary () e op e') left.erase := by
  induction links generalizing left with
  | nil => rfl
  | cons link links ih => rw [List.foldl_cons, ih, List.map_cons, List.foldl_cons]; rfl

/-! ## Statements -/

def Declarator.erase (d : Declarator ι) : Declarator Unit := d.map fun _ => ()

@[simp] theorem Declarator.erase_mk (name : String) (init : Option (Expr ι)) :
    erase ⟨name, init⟩ = ⟨name, init.map Expr.erase⟩ := rfl

namespace Stmt

def erase (s : Stmt ι) : Stmt Unit := s.map fun _ => ()

end Stmt

def CatchClause.erase (k : CatchClause ι) : CatchClause Unit :=
  ⟨k.exceptionType, k.name, k.body.map Stmt.erase⟩

namespace Stmt

theorem mapCatches_eq_map (ks : List (CatchClause ι)) :
    mapCatches (fun _ => ()) ks = ks.map CatchClause.erase := by
  induction ks with
  | nil => rfl
  | cons k more ih =>
    obtain ⟨exceptionType, name, body⟩ := k
    rw [mapCatches, ih, mapList_eq_map]
    rfl

@[simp] theorem erase_block (n : ι) (body : List (Stmt ι)) :
    (block n body).erase = .block () (body.map erase) := by
  simp only [erase, map, mapList_eq_map]
  rfl

@[simp] theorem erase_ifThen (n : ι) (e : Expr ι) (s : Stmt ι) :
    (ifThen n e s).erase = .ifThen () e.erase s.erase := rfl

@[simp] theorem erase_ifElse (n : ι) (e : Expr ι) (s s' : Stmt ι) :
    (ifElse n e s s').erase = .ifElse () e.erase s.erase s'.erase := rfl

@[simp] theorem erase_whileLoop (n : ι) (e : Expr ι) (s : Stmt ι) :
    (whileLoop n e s).erase = .whileLoop () e.erase s.erase := rfl

@[simp] theorem erase_doLoop (n : ι) (s : Stmt ι) (e : Expr ι) :
    (doLoop n s e).erase = .doLoop () s.erase e.erase := rfl

@[simp] theorem erase_breakTo (n : ι) (label : Option String) :
    (breakTo n label).erase = .breakTo () label := rfl

@[simp] theorem erase_continueTo (n : ι) (label : Option String) :
    (continueTo n label).erase = .continueTo () label := rfl

@[simp] theorem erase_returnWith (n : ι) (value : Option (Expr ι)) :
    (returnWith n value).erase = .returnWith () (value.map Expr.erase) := rfl

@[simp] theorem erase_tryCatch (n : ι) (body : List (Stmt ι)) (catches : List (CatchClause ι)) :
    (tryCatch n body catches).erase =
      .tryCatch () (body.map erase) (catches.map CatchClause.erase) := by
  simp only [erase, map, mapList_eq_map, mapCatches_eq_map]
  rfl

@[simp] theorem erase_tryFinally (n : ι) (body cleanup : List (Stmt ι))
    (catches : List (CatchClause ι)) :
    (tryFinally n body catches cleanup).erase =
      .tryFinally () (body.map erase) (catches.map CatchClause.erase) (cleanup.map erase) := by
  simp only [erase, map, mapList_eq_map, mapCatches_eq_map]
  rfl

@[simp] theorem erase_expr (n : ι) (e : Expr ι) : (expr n e).erase = .expr () e.erase := rfl

@[simp] theorem erase_locals (n : ι) (type : PrimitiveType) (ds : List (Declarator ι)) :
    (locals n type ds).erase = .locals () type (ds.map Declarator.erase) := rfl

@[simp] theorem erase_empty (n : ι) : (empty n).erase = .empty () := rfl

@[simp] theorem erase_labeled (n : ι) (label : String) (s : Stmt ι) :
    (labeled n label s).erase = .labeled () label s.erase := rfl

theorem endsOpen_erase : ∀ s : Stmt ι, s.erase.endsOpen = s.endsOpen
  | ifThen .. => rfl
  | ifElse _ _ _ elseBranch => endsOpen_erase elseBranch
  | whileLoop _ _ body => endsOpen_erase body
  | labeled _ _ body => endsOpen_erase body
  | block .. | doLoop .. | breakTo .. | continueTo .. | returnWith .. | tryCatch ..
  | tryFinally .. | expr .. | locals .. | empty .. => by simp [endsOpen]

end Stmt

/-! ## Programs -/

def Member.erase (m : Member ι) : Member Unit := m.map fun _ => ()

@[simp] theorem Member.erase_field (n : ι) (set : ModifierSet) (type : PrimitiveType)
    (first : Declarator ι) (more : List (Declarator ι)) :
    (field n set type first more).erase =
      .field () set type first.erase (more.map Declarator.erase) := rfl

@[simp] theorem Member.erase_method (n : ι) (set : ModifierSet) (type : PrimitiveType)
    (name : String) (params : List Param) (body : List (Stmt ι)) :
    (method n set type name params body).erase =
      .method () set type name params (body.map Stmt.erase) := by
  simp only [erase, map, Stmt.mapList_eq_map]
  rfl

def ClassDecl.erase (d : ClassDecl ι) : ClassDecl Unit := d.map fun _ => ()

@[simp] theorem ClassDecl.erase_mk (n : ι) (set : ModifierSet) (name : String)
    (members : List (Member ι)) :
    erase ⟨n, set, name, members⟩ = ⟨(), set, name, members.map Member.erase⟩ := rfl

def Program.erase (p : Program ι) : Program Unit := p.map fun _ => ()

@[simp] theorem Program.erase_mk (package : Option String) (imports : List String)
    (decl : Option (ClassDecl ι)) :
    erase ⟨package, imports, decl⟩ = ⟨package, imports, decl.map ClassDecl.erase⟩ := rfl

end JavaSubset
