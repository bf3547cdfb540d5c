import JavaSubset.Proofs.Grammar
import JavaSubset.Proofs.Shapes

/-!
# Where an `else` belongs

No statement that could still take an `else` is followed by one (`Settled`): it would have taken it.
So whatever stands between an `if` and its `else` is closed, and every `else` belongs to the nearest
`if` that is open, in programs with errors as well (`parse_elseNearest`).
-/

namespace JavaSubset

open JavaSubset.Parser

/-- If the node has an `else`, no `if` in front of that could have taken it. -/
def Node.ElseNearest {ι : Type} : Node ι → Prop
  | .stmt (.ifElse _ _ thenBranch _) => thenBranch.endsOpen = false
  | _ => True

open Node (ElseNearest)

/-- A statement in front of a cursor where no `else` follows that it could take. -/
structure Settled (s : Stmt Location) (c : Cursor) : Prop where
  nearest : (Node.stmt s).Every ElseNearest
  closed : s.endsOpen = true → c.peek.kind ≠ .keyword (.control .elseKw)

theorem nearest_expr (e : Expr Location) : (Node.expr e).Every ElseNearest :=
  Node.every_expr (fun _ => trivial) e

section Shapes

variable {E : Expr Location → Prop} {S : Stmt Location → Cursor → Prop} {s : Stmt Location}
  {c : Cursor} (hstmt : ∀ s c, S s c → Settled s c)

include hstmt

/-- A branch that could have taken the `else` behind it is not settled there. -/
theorem Shape.Statement.elseNearest (h : Shape.Statement E S s c) : ElseNearest (.stmt s) := by
  cases h with
  | ifElse loc condition given more behind =>
    refine Bool.eq_false_iff.mpr fun hopen => ?_
    exact (hstmt _ _ given).closed hopen more
  | _ => trivial

theorem Shape.Statement.closed (h : Shape.Statement E S s c) (hopen : s.endsOpen = true) :
    c.peek.kind ≠ .keyword (.control .elseKw) := by
  cases h with
  | ifThen loc condition given last => exact last
  | ifElse loc condition given more behind => exact (hstmt _ _ behind).closed hopen
  | whileLoop loc condition given => exact (hstmt _ _ given).closed hopen
  | labeled loc label given => exact (hstmt _ _ given).closed hopen
  | _ => cases hopen

theorem Shape.Statement.settled (h : Shape.Statement E S s c) : Settled s c := by
  refine ⟨.intro (h.elseNearest hstmt) (h.children ?_ ?_ ?_), h.closed hstmt⟩
  · exact fun e _ => nearest_expr e
  · exact fun s c hs => (hstmt s c hs).nearest
  · exact fun _ e _ _ => nearest_expr e

end Shapes

theorem settled_of_stands {n : Nat} {s : Stmt Location} {c : Cursor} (h : Stands n s c) :
    Settled s c := by
  induction n generalizing s c with
  | zero => cases h
  | succ n ih => exact h.settled fun _ _ => ih

theorem Shape.Class.elseNearest {limit : Nat} {decl : ClassDecl Location}
    (h : Shape.Class limit decl) : (Node.classDecl decl).Every ElseNearest := by
  refine .intro trivial (List.forall_mem_map.mpr fun m hm => .intro trivial ?_)
  refine (h.members m hm).children (fun e _ => nearest_expr e) fun s c hs => ?_
  exact (settled_of_stands hs).nearest

/-- **Every `else` belongs to the nearest open `if`.** In the program that parsing gives for any list
of tokens, with or without errors, the branch between an `if` and its `else` never ends in an `if`
without one. -/
theorem parse_elseNearest (tokens : List Token) : (parse tokens).program.Every ElseNearest :=
  fun decl hdecl => (parse_made tokens decl hdecl).elseNearest

end JavaSubset
