import JavaSubset.Proofs.Shapes

/-!
# The shape of parsed trees

What holds of every node of a program that parsing gives, with errors in the source or without
(`Node.WellFormed`, `parse_wellFormed`):

* `Node.ModifiersFit` : a class and its members have no modifier that does not belong there;
* `Node.DeclaresSome` : a declaration of variables declares at least one;
* `Node.EffectsPlaced` : assignments and steps stand where a statement starts, and nowhere below.

A production below statements gives nodes that are `Quiet`: well formed, and no assignment or step.
So parentheses, which leave no node, can not bring one in.
-/

namespace JavaSubset

open JavaSubset.Parser

variable {ι : Type}

namespace Expr

def isAssign : Expr ι → Bool
  | assign .. => true
  | _ => false

/-- A step in front of its operand or behind it. -/
def isStep : Expr ι → Bool
  | unary _ (.pre _) _ | unary _ (.post _) _ => true
  | _ => false

def isEffect (e : Expr ι) : Bool := e.isAssign || e.isStep

@[simp] theorem isEffect_withNote (n : ι) (e : Expr ι) : (e.withNote n).isEffect = e.isEffect := by
  cases e with
  | unary _ op _ => cases op <;> rfl
  | _ => rfl

end Expr

def Member.modifiers : Member ι → ModifierSet
  | field _ set .. | method _ set .. => set

namespace Node

def isEffect : Node ι → Bool
  | expr e => e.isEffect
  | _ => false

def ModifiersFit : Node ι → Prop
  | classDecl decl => ∀ m ∈ decl.modifiers, m = .publicMod ∨ m = .abstractMod ∨ m = .finalMod
  | member m => .abstractMod ∉ m.modifiers
  | _ => True

def DeclaresSome : Node ι → Prop
  | stmt (.locals _ _ declarators) => declarators ≠ []
  | _ => True

/-- Of what is right below a node, only the expression of a statement and the value of an assignment
can be an assignment, and only the first of them a step. -/
def EffectsPlaced : Node ι → Prop
  | stmt (.expr _ _) => True
  | expr (.assign _ target _ value) => target.isEffect = false ∧ value.isStep = false
  | n => ∀ m ∈ n.children, m.isEffect = false

structure WellFormed (n : Node ι) : Prop where
  modifiersFit : n.ModifiersFit
  declaresSome : n.DeclaresSome
  effectsPlaced : n.EffectsPlaced

/-- A tree that is well formed wherever it stands. -/
structure Quiet (n : Node ι) : Prop where
  wellFormed : n.Every WellFormed
  noEffect : n.isEffect = false

/-! ## Nodes above quiet ones -/

theorem effectsPlaced_of_quiet {n : Node ι} (below : ∀ m ∈ n.children, m.Quiet) :
    n.EffectsPlaced := by
  unfold EffectsPlaced
  split
  · trivial
  · next target _ value =>
    have htarget := below (.expr target) (by simp [children, Expr.children])
    have hvalue := below (.expr value) (by simp [children, Expr.children])
    exact ⟨htarget.noEffect, (Bool.or_eq_false_iff.mp hvalue.noEffect).2⟩
  · exact fun m hm => (below m hm).noEffect

theorem every_of_quiet {n : Node ι} (fits : n.ModifiersFit) (some : n.DeclaresSome)
    (below : ∀ m ∈ n.children, m.Quiet) : n.Every WellFormed :=
  .intro ⟨fits, some, effectsPlaced_of_quiet below⟩ fun m hm => (below m hm).wellFormed

theorem quiet_expr {e : Expr ι} (h : e.isEffect = false)
    (below : ∀ e' ∈ e.children, (expr e').Quiet) : (expr e).Quiet :=
  ⟨every_of_quiet trivial trivial (List.forall_mem_map.mpr below), h⟩

theorem quiet_stmt {s : Stmt ι} (some : (stmt s).DeclaresSome)
    (below : ∀ m ∈ s.children, m.Quiet) : (stmt s).Quiet :=
  ⟨every_of_quiet trivial some below, rfl⟩

end Node

open Node (Quiet quiet_expr quiet_stmt WellFormed)

/-! ## Expressions -/

theorem quiet_withNote {e : Expr Location} (h : (Node.expr e).Quiet) (loc : Location) :
    (Node.expr (e.withNote loc)).Quiet := by
  obtain ⟨⟨here, below⟩, hnone⟩ := h
  refine ⟨?_, (e.isEffect_withNote loc).trans hnone⟩
  cases e <;> exact .intro ⟨trivial, trivial, here.effectsPlaced⟩ below

section Expressions

variable {E : Expr Location → Prop} {e : Expr Location}

theorem Shape.Chain.quiet {tier : Tier} (h : Shape.Chain tier E e)
    (hoperand : ∀ e, E e → (Node.expr e).Quiet) : (Node.expr e).Quiet := by
  induction h with
  | operand given => exact hoperand _ given
  | link loc level below given ih =>
    exact quiet_expr rfl (List.forall_mem_cons.mpr ⟨ih, by simpa using hoperand _ given⟩)

variable (hexpr : ∀ e, E e → (Node.expr e).Quiet)

include hexpr

theorem Shape.Primary.quiet (h : Shape.Primary E e) : (Node.expr e).Quiet := by
  cases h with
  | literal | ident | this => exact quiet_expr rfl (by simp [Expr.children])
  | call loc name given | superCall loc name given | new loc name given =>
    exact quiet_expr rfl fun e he => hexpr e (given e he)
  | group loc given => exact quiet_withNote (hexpr _ given) loc

theorem Shape.Selection.quiet (h : Shape.Selection E e) : (Node.expr e).Quiet := by
  induction h with
  | primary given => exact given.quiet hexpr
  | field loc name below ih => exact quiet_expr rfl (List.forall_mem_singleton.mpr ih)
  | invoke loc name below given ih =>
    exact quiet_expr rfl (List.forall_mem_cons.mpr ⟨ih, fun e he => hexpr e (given e he)⟩)

theorem Shape.Unary.quiet (h : Shape.Unary E e) : (Node.expr e).Quiet := by
  cases h with
  | selection given => exact given.quiet hexpr
  | @sign loc kind op operand hsign given =>
    have hnone : (Expr.unary loc op operand).isEffect = false := by
      unfold sign? at hsign
      split at hsign <;> cases hsign <;> rfl
    exact quiet_expr hnone (List.forall_mem_singleton.mpr (given.quiet hexpr))

/-- An assignment is well formed as the value of another one, and as a statement. -/
theorem Shape.Assigned.wellFormed (h : Shape.Assigned E e) :
    (Node.expr e).Every WellFormed ∧ e.isStep = false := by
  induction h with
  | value given =>
    have hquiet := hexpr _ given
    exact ⟨hquiet.wellFormed, (Bool.or_eq_false_iff.mp hquiet.noEffect).2⟩
  | assign loc op given below ih =>
    obtain ⟨hvalue, hstep⟩ := ih
    have htarget := hexpr _ given
    refine ⟨.intro ⟨trivial, trivial, htarget.noEffect, hstep⟩ ?_, rfl⟩
    simpa [Node.children, Expr.children] using ⟨htarget.wellFormed, hvalue⟩

theorem Shape.Effect.wellFormed (h : Shape.Effect E e) : (Node.expr e).Every WellFormed := by
  cases h with
  | stepBefore loc step given =>
    refine Node.every_of_quiet trivial trivial ?_
    simpa [Node.children, Expr.children] using given.quiet hexpr
  | stepBehind loc step given =>
    refine Node.every_of_quiet trivial trivial ?_
    simpa [Node.children, Expr.children] using hexpr _ given
  | assigned given => exact (given.wellFormed hexpr).1

end Expressions

theorem quiet_of_made {n : Nat} {e : Expr Location} (h : Made n e) : (Node.expr e).Quiet := by
  induction n generalizing e with
  | zero => cases h
  | succ n ih =>
    refine h.quiet fun e he => he.quiet fun e he => he.quiet fun e he => he.quiet fun e he => ?_
    exact he.quiet fun e => ih

/-! ## Statements -/

section Statements

variable {E : Expr Location → Prop} {S : Stmt Location → Cursor → Prop} {s : Stmt Location}
  {c : Cursor}

theorem Shape.Statement.declaresSome (h : Shape.Statement E S s c) :
    (Node.stmt s).DeclaresSome := by
  cases h with
  | locals loc type some given => exact some
  | _ => trivial

/-- Only the expression of a statement may be an effect. -/
theorem Shape.Statement.quiet (h : Shape.Statement E S s c)
    (hexpr : ∀ e, E e → (Node.expr e).Quiet) (hstmt : ∀ s c, S s c → (Node.stmt s).Quiet) :
    (Node.stmt s).Quiet := by
  by_cases heffect : ∃ loc e, s = .expr loc e
  · obtain ⟨loc, e, rfl⟩ := heffect
    cases h with
    | expr _ given =>
      refine ⟨.intro ⟨trivial, trivial, trivial⟩ ?_, rfl⟩
      exact List.forall_mem_singleton.mpr (given.wellFormed hexpr)
  · refine quiet_stmt h.declaresSome (h.children hexpr hstmt fun loc e hs => ?_)
    exact absurd ⟨loc, e, hs⟩ heffect

end Statements

theorem quiet_of_stands {n : Nat} {s : Stmt Location} {c : Cursor} (h : Stands n s c) :
    (Node.stmt s).Quiet := by
  induction n generalizing s c with
  | zero => cases h
  | succ n ih => exact h.quiet (fun _ => quiet_of_made) fun _ _ => ih

/-! ## Classes -/

theorem Shape.Member.onMember {E : Expr Location → Prop} {S : Stmt Location → Cursor → Prop}
    {m : JavaSubset.Member Location} (h : Shape.Member E S m) :
    ∀ modifier ∈ m.modifiers, modifier.onMember = true := by
  cases h with
  | field loc type modifiers given others => exact modifiers
  | method loc type name params modifiers given => exact modifiers

theorem Shape.Class.wellFormed {limit : Nat} {decl : ClassDecl Location}
    (h : Shape.Class limit decl) : (Node.classDecl decl).Every WellFormed := by
  refine Node.every_of_quiet (fun m hm => ?_) trivial (List.forall_mem_map.mpr fun m hm => ?_)
  · have hallowed := h.modifiers m hm
    cases m <;> simp_all [Modifier.onClass]
  · have hshape := h.members m hm
    refine ⟨Node.every_of_quiet ?_ trivial ?_, rfl⟩
    · exact fun habstract => by cases hshape.onMember _ habstract
    · exact hshape.children (fun _ => quiet_of_made) fun _ _ => quiet_of_stands

/-- **Parsed trees are well formed.** In the program that parsing gives for any list of tokens, with
or without errors, a class has no modifiers but public, abstract and final, no member is abstract,
every declaration of variables declares one, an assignment is the whole expression of a statement or
the value of such an assignment, and a step is the whole expression of a statement. -/
theorem parse_wellFormed (tokens : List Token) : (parse tokens).program.Every Node.WellFormed :=
  fun decl hdecl => (parse_made tokens decl hdecl).wellFormed

end JavaSubset
