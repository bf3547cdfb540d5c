import JavaSubset.Proofs.Shapes

/-!
# How deep trees are

Operators of one tier, selectors and assignments are read in loops, and what a loop builds is a
spine of the tree: operators and selectors go down on the left, assignments on the right. All other
nodes are nested because one production is run inside another.

* `Spine` : the spines there are;
* `Expr.height cost`, `Stmt.height cost`, `Program.height cost` : how many expressions and
  statements are nested in one another, if it costs `cost` to go on along a spine. At cost 1 this
  is the height of the tree, at cost 0 (`free`) a spine is one level however long it is;
* `parse_height_free` : so counted, no tree is higher than a multiple of what may be open at once.
-/

namespace JavaSubset

variable {ι κ : Type}

/-! ## The highest of some numbers -/

def highest (hs : List Nat) : Nat := hs.foldr max 0

@[simp] theorem highest_nil : highest [] = 0 := rfl

@[simp] theorem highest_cons (h : Nat) (hs : List Nat) : highest (h :: hs) = max h (highest hs) :=
  rfl

@[simp] theorem highest_append (hs hs' : List Nat) :
    highest (hs ++ hs') = max (highest hs) (highest hs') := by
  induction hs with
  | nil => simp
  | cons h hs ih => rw [List.cons_append, highest_cons, highest_cons, ih, Nat.max_assoc]

theorem highest_le {hs : List Nat} {k : Nat} : highest hs ≤ k ↔ ∀ h ∈ hs, h ≤ k := by
  induction hs with
  | nil => simp
  | cons h hs ih => rw [highest_cons, Nat.max_le, ih, List.forall_mem_cons]

/-! ## Heights -/

inductive Spine where
  | operators (tier : Tier)
  | selectors
  | assignments
  deriving DecidableEq

/-- Going on along a spine costs nothing. -/
def free : Spine → Nat := fun _ => 0

namespace Expr

/-- The spine that an expression is on. -/
def spine? : Expr ι → Option Spine
  | binary _ _ op _ => some (.operators op.tier)
  | field .. | invoke .. => some .selectors
  | assign .. => some .assignments
  | unary .. | literal .. | ident .. | this _ | call .. | superCall .. | new .. => none

variable (cost : Spine → Nat)

/-- What it costs to go down to an expression from a node on a spine. -/
def linkCost (spine : Spine) (e : Expr ι) : Nat := if e.spine? = some spine then cost spine else 1

mutual

def height : Expr ι → Nat
  | binary _ left op right =>
    max (left.linkCost cost (.operators op.tier) + left.height) (1 + right.height)
  | unary _ _ operand => 1 + operand.height
  | literal .. | ident .. | this _ => 1
  | field _ target _ => target.linkCost cost .selectors + target.height
  | call _ _ args | superCall _ _ args | new _ _ args => 1 + heights args
  | invoke _ target _ args =>
    max (target.linkCost cost .selectors + target.height) (1 + heights args)
  | assign _ target _ value =>
    max (1 + target.height) (value.linkCost cost .assignments + value.height)

def heights : List (Expr ι) → Nat
  | [] => 0
  | e :: more => max e.height (heights more)

end

/-- The height of a node on a spine as far as the next one on it goes. -/
def reach (spine : Spine) (e : Expr ι) : Nat := e.linkCost cost spine + e.height cost

theorem heights_eq (es : List (Expr ι)) : heights cost es = highest (es.map (height cost)) := by
  induction es with
  | nil => rfl
  | cons e es ih => rw [heights, ih, List.map_cons, highest_cons]

/-- At cost 1 every node counts. -/
theorem height_one (e : Expr ι) :
    e.height (fun _ => 1) = 1 + highest (e.children.map (height fun _ => 1)) := by
  cases e <;> simp [height, linkCost, children, heights_eq]

end Expr

def Declarator.height (cost : Spine → Nat) (d : Declarator ι) : Nat :=
  highest (d.init.toList.map (Expr.height cost))

namespace Stmt

variable (cost : Spine → Nat)

mutual

def height : Stmt ι → Nat
  | block _ body => 1 + heights body
  | ifThen _ condition thenBranch => 1 + max (condition.height cost) thenBranch.height
  | ifElse _ condition thenBranch elseBranch =>
    1 + max (condition.height cost) (max thenBranch.height elseBranch.height)
  | whileLoop _ condition body => 1 + max (condition.height cost) body.height
  | doLoop _ body condition => 1 + max body.height (condition.height cost)
  | breakTo .. | continueTo .. | empty _ => 1
  | returnWith _ value => 1 + highest (value.toList.map (Expr.height cost))
  | tryCatch _ body catches => 1 + max (heights body) (catchHeights catches)
  | tryFinally _ body catches cleanup =>
    1 + max (heights body) (max (catchHeights catches) (heights cleanup))
  | expr _ value => 1 + value.height cost
  | locals _ _ declarators => 1 + highest (declarators.map (Declarator.height cost))
  | labeled _ _ body => 1 + body.height

def heights : List (Stmt ι) → Nat
  | [] => 0
  | s :: more => max s.height (heights more)

def catchHeights : List (CatchClause ι) → Nat
  | [] => 0
  | ⟨_, _, body⟩ :: more => max (heights body) (catchHeights more)

end

theorem heights_eq (ss : List (Stmt ι)) : heights cost ss = highest (ss.map (height cost)) := by
  induction ss with
  | nil => rfl
  | cons s ss ih => rw [heights, ih, List.map_cons, highest_cons]

end Stmt

def Member.height (cost : Spine → Nat) : Member ι → Nat
  | field _ _ _ first more =>
    max (first.height cost) (highest (more.map (Declarator.height cost)))
  | method _ _ _ _ _ body => Stmt.heights cost body

def ClassDecl.height (cost : Spine → Nat) (decl : ClassDecl ι) : Nat :=
  highest (decl.members.map (Member.height cost))

/-- Only expressions and statements count. -/
def Program.height (cost : Spine → Nat) (p : Program ι) : Nat :=
  highest (p.classDecl.toList.map (ClassDecl.height cost))

namespace Node

def height (cost : Spine → Nat) : Node ι → Nat
  | expr e => e.height cost
  | stmt s => s.height cost
  | member m => m.height cost
  | classDecl decl => decl.height cost

variable (cost : Spine → Nat)

@[simp] theorem highest_exprs (es : List (Expr ι)) :
    highest (es.map (height cost ∘ expr)) = highest (es.map (Expr.height cost)) := rfl

@[simp] theorem highest_stmts (ss : List (Stmt ι)) :
    highest (ss.map (height cost ∘ stmt)) = Stmt.heights cost ss :=
  (Stmt.heights_eq cost ss).symm

@[simp] theorem highest_declarators (ds : List (Declarator ι)) :
    highest ((ds.flatMap Declarator.nodes).map (height cost)) =
      highest (ds.map (Declarator.height cost)) := by
  induction ds with
  | nil => rfl
  | cons d ds ih =>
    rw [List.flatMap_cons, List.map_append, highest_append, ih, Declarator.nodes, List.map_map]
    rfl

@[simp] theorem highest_catches (ks : List (CatchClause ι)) :
    highest ((ks.flatMap CatchClause.nodes).map (height cost)) = Stmt.catchHeights cost ks := by
  induction ks with
  | nil => rfl
  | cons k ks ih =>
    obtain ⟨exceptionType, name, body⟩ := k
    rw [List.flatMap_cons, List.map_append, highest_append, ih, CatchClause.nodes, List.map_map,
      highest_stmts]
    rfl

end Node

theorem Stmt.height_eq (cost : Spine → Nat) (s : Stmt ι) :
    s.height cost = 1 + highest (s.children.map (Node.height cost)) := by
  cases s <;> simp [height, children, Node.height]

theorem Member.height_eq (cost : Spine → Nat) (m : Member ι) :
    m.height cost = highest (m.children.map (Node.height cost)) := by
  cases m <;> simp [height, children, Declarator.nodes, Declarator.height]

theorem Stmt.height_le {cost : Spine → Nat} {s : Stmt ι} {k : Nat}
    (h : ∀ m ∈ s.children, m.height cost ≤ k) : s.height cost ≤ k + 1 := by
  have hbelow := highest_le.mpr (List.forall_mem_map.mpr h)
  rw [height_eq]
  omega

theorem Member.height_le {cost : Spine → Nat} {m : Member ι} {k : Nat}
    (h : ∀ n ∈ m.children, n.height cost ≤ k) : m.height cost ≤ k := by
  rw [height_eq]
  exact highest_le.mpr (List.forall_mem_map.mpr h)

/-! ## Going on along a spine for free -/

namespace Expr

variable {spine : Spine} {e : Expr ι} {k : Nat}

theorem height_le_reach (cost : Spine → Nat) : e.height cost ≤ e.reach cost spine :=
  Nat.le_add_left ..

/-- One level more is enough for a whole spine. -/
theorem reach_free_le (h : e.height free ≤ k) : e.reach free spine ≤ k + 1 := by
  have hlink : e.linkCost free spine ≤ 1 := by
    unfold linkCost
    split
    · exact Nat.zero_le 1
    · exact Nat.le_refl 1
  rw [reach]
  omega

theorem reach_free_of_spine (h : e.spine? = some spine) : e.reach free spine = e.height free := by
  rw [reach, linkCost, if_pos h, free, Nat.zero_add]

theorem height_withNote (cost : Spine → Nat) (n : ι) (e : Expr ι) :
    (e.withNote n).height cost = e.height cost := by
  cases e <;> rfl

theorem heights_le (cost : Spine → Nat) {es : List (Expr ι)} :
    heights cost es ≤ k ↔ ∀ e ∈ es, e.height cost ≤ k := by
  rw [heights_eq, highest_le, List.forall_mem_map]

end Expr

/-! ## Expressions -/

section Expressions

variable {E : Expr Location → Prop} {e : Expr Location} {k : Nat}

/-- The height itself would grow with each operator: what an operator leaves as it is, is the
reach. -/
theorem Shape.Chain.reach_le {tier : Tier} (h : Shape.Chain tier E e)
    (hoperand : ∀ e, E e → e.height free ≤ k) : e.reach free (.operators tier) ≤ k + 1 := by
  induction h with
  | operand given => exact Expr.reach_free_le (hoperand _ given)
  | link loc level below given ih =>
    have hright := hoperand _ given
    rw [Expr.reach_free_of_spine (by rw [Expr.spine?, level]), Expr.height, level]
    exact Nat.max_le.mpr ⟨ih, by omega⟩

theorem Shape.Chain.low {tier : Tier} (h : Shape.Chain tier E e)
    (hoperand : ∀ e, E e → e.height free ≤ k) : e.height free ≤ k + 1 :=
  Nat.le_trans (Expr.height_le_reach free) (h.reach_le hoperand)

variable (hexpr : ∀ e, E e → e.height free ≤ k)

include hexpr

theorem heights_low {args : List (Expr Location)} (h : ∀ e ∈ args, E e) :
    Expr.heights free args ≤ k :=
  (Expr.heights_le free).mpr fun e he => hexpr e (h e he)

theorem Shape.Primary.low (h : Shape.Primary E e) : e.height free ≤ k + 1 := by
  cases h with
  | literal | ident | this =>
    rw [Expr.height]
    omega
  | call loc name given | superCall loc name given | new loc name given =>
    have hargs := heights_low hexpr given
    rw [Expr.height]
    omega
  | group loc given =>
    have hinner := hexpr _ given
    rw [Expr.height_withNote]
    omega

/-- A selector goes on along the spine below it. -/
theorem Shape.Selection.reach_le (h : Shape.Selection E e) :
    e.reach free .selectors ≤ k + 2 := by
  induction h with
  | primary given => exact Expr.reach_free_le (given.low hexpr)
  | field loc name below ih =>
    rw [Expr.reach_free_of_spine rfl]
    exact ih
  | invoke loc name below given ih =>
    have hargs := heights_low hexpr given
    rw [Expr.reach_free_of_spine rfl]
    exact Nat.max_le.mpr ⟨ih, by omega⟩

theorem Shape.Selection.low (h : Shape.Selection E e) : e.height free ≤ k + 2 :=
  Nat.le_trans (Expr.height_le_reach free) (h.reach_le hexpr)

theorem Shape.Unary.low (h : Shape.Unary E e) : e.height free ≤ k + 3 := by
  cases h with
  | selection given => exact Nat.le_succ_of_le (given.low hexpr)
  | sign loc hsign given =>
    have hoperand := given.low hexpr
    rw [Expr.height]
    omega

/-- An assignment goes on along the spine of its value. -/
theorem Shape.Assigned.reach_le (h : Shape.Assigned E e) :
    e.reach free .assignments ≤ k + 1 := by
  induction h with
  | value given => exact Expr.reach_free_le (hexpr _ given)
  | assign loc op given below ih =>
    have htarget := hexpr _ given
    rw [Expr.reach_free_of_spine rfl]
    exact Nat.max_le.mpr ⟨by omega, ih⟩

theorem Shape.Effect.low (h : Shape.Effect E e) : e.height free ≤ k + 3 := by
  cases h with
  | stepBefore loc step given =>
    have htarget := given.low hexpr
    rw [Expr.height]
    omega
  | stepBehind loc step given =>
    have htarget := hexpr _ given
    rw [Expr.height]
    omega
  | assigned given =>
    have hreach := given.reach_le hexpr
    have hheight : e.height free ≤ e.reach free .assignments := Expr.height_le_reach free
    omega

end Expressions

/-- Three levels for what an operand is made of, one for each tier. -/
theorem made_low {n : Nat} {e : Expr Location} (h : Made n e) : e.height free ≤ 7 * n := by
  induction n generalizing e with
  | zero => cases h
  | succ n ih =>
    exact h.low fun e he => he.low fun e he => he.low fun e he => he.low fun e he =>
      he.low fun e => ih

/-! ## Statements -/

theorem stands_low {n : Nat} {s : Stmt Location} {c : Cursor} (h : Stands n s c) :
    s.height free ≤ 7 * n := by
  induction n generalizing s c with
  | zero => cases h
  | succ n ih =>
    have hbelow : ∀ m ∈ s.children, m.height free ≤ 7 * n + 3 := by
      refine Shape.Statement.children h ?_ ?_ ?_
      · exact fun e he => Nat.le_add_right_of_le (made_low he)
      · exact fun s c hs => Nat.le_add_right_of_le (ih hs)
      · exact fun loc e _ he => he.low fun e => made_low
    have hheight := Stmt.height_le hbelow
    omega

/-! ## Classes -/

theorem Shape.Member.low {limit : Nat} {m : JavaSubset.Member Location}
    (h : Shape.Member (Made limit) (Stands limit) m) : m.height free ≤ 7 * limit := by
  refine Member.height_le (h.children ?_ ?_)
  · exact fun e he => made_low he
  · exact fun s c hs => stands_low hs

theorem Shape.Class.low {limit : Nat} {decl : ClassDecl Location} (h : Shape.Class limit decl) :
    decl.height free ≤ 7 * limit :=
  highest_le.mpr (List.forall_mem_map.mpr fun m hm => (h.members m hm).low)

/-- If spines are free, a program is at most seven times as high as what may be open at once. -/
theorem parse_height_free (tokens : List Token) :
    (parse tokens).program.height free ≤ 7 * maxNesting := by
  have hclass : ∀ decl ∈ (parse tokens).program.classDecl, decl.height free ≤ 7 * maxNesting :=
    fun decl hdecl => (parse_made tokens decl hdecl).low
  refine highest_le.mpr (List.forall_mem_map.mpr fun decl hdecl => hclass decl ?_)
  exact Option.mem_toList.mp hdecl

/-! ## Places play no part -/

namespace Expr

variable (f : ι → κ) (cost : Spine → Nat)

theorem linkCost_map (spine : Spine) (e : Expr ι) :
    (e.map f).linkCost cost spine = e.linkCost cost spine := by
  cases e <;> rfl

mutual

theorem height_map : ∀ e : Expr ι, (e.map f).height cost = e.height cost
  | binary _ left _ right => by
    simp only [map, height, linkCost_map, height_map left, height_map right]
  | unary _ _ operand => by simp only [map, height, height_map operand]
  | literal .. | ident .. | this _ => rfl
  | field _ target _ => by simp only [map, height, linkCost_map, height_map target]
  | call _ _ args | superCall _ _ args | new _ _ args => by
    simp only [map, height, heights_map args]
  | invoke _ target _ args => by
    simp only [map, height, linkCost_map, height_map target, heights_map args]
  | assign _ target _ value => by
    simp only [map, height, linkCost_map, height_map target, height_map value]

theorem heights_map : ∀ es : List (Expr ι), heights cost (mapList f es) = heights cost es
  | [] => rfl
  | e :: more => by simp only [mapList, heights, height_map e, heights_map more]

end

end Expr

variable (f : ι → κ) (cost : Spine → Nat)

theorem Declarator.height_map (d : Declarator ι) : (d.map f).height cost = d.height cost := by
  obtain ⟨name, init⟩ := d
  cases init <;> simp [height, map, Expr.height_map]

theorem highest_map_congr {α β : Type} {g : α → β} {h : β → Nat} {h' : α → Nat}
    (heq : ∀ a, h (g a) = h' a) (as : List α) :
    highest ((as.map g).map h) = highest (as.map h') := by
  rw [List.map_map]
  exact congrArg (fun k => highest (as.map k)) (funext heq)

mutual

theorem Stmt.height_map : ∀ s : Stmt ι, (s.map f).height cost = s.height cost
  | .block _ body => by simp only [map, height, heights_map body]
  | .ifThen _ _ thenBranch => by
    simp only [map, height, Expr.height_map, height_map thenBranch]
  | .ifElse _ _ thenBranch elseBranch => by
    simp only [map, height, Expr.height_map, height_map thenBranch, height_map elseBranch]
  | .whileLoop _ _ body => by simp only [map, height, Expr.height_map, height_map body]
  | .doLoop _ body _ => by simp only [map, height, Expr.height_map, height_map body]
  | .breakTo .. | .continueTo .. | .empty _ => rfl
  | .returnWith _ value => by cases value <;> simp [map, height, Expr.height_map]
  | .tryCatch _ body catches => by
    simp only [map, height, heights_map body, catchHeights_map catches]
  | .tryFinally _ body catches cleanup => by
    simp only [map, height, heights_map body, catchHeights_map catches, heights_map cleanup]
  | .expr _ _ => by simp only [map, height, Expr.height_map]
  | .locals _ _ declarators => by
    simp only [map, height, highest_map_congr (Declarator.height_map f cost)]
  | .labeled _ _ body => by simp only [map, height, height_map body]

theorem Stmt.heights_map : ∀ ss : List (Stmt ι), heights cost (mapList f ss) = heights cost ss
  | [] => rfl
  | s :: more => by simp only [mapList, heights, height_map s, heights_map more]

theorem Stmt.catchHeights_map : ∀ ks : List (CatchClause ι),
    catchHeights cost (mapCatches f ks) = catchHeights cost ks
  | [] => rfl
  | ⟨_, _, body⟩ :: more => by
    simp only [mapCatches, catchHeights, heights_map body, catchHeights_map more]

end

theorem Member.height_map (m : Member ι) : (m.map f).height cost = m.height cost := by
  cases m with
  | field _ _ _ first more =>
    simp only [map, height, Declarator.height_map, highest_map_congr (Declarator.height_map f cost)]
  | method _ _ _ _ _ body => simp only [map, height, Stmt.heights_map]

theorem Program.height_map (p : Program ι) : (p.map f).height cost = p.height cost := by
  obtain ⟨package, imports, decl⟩ := p
  cases decl with
  | none => rfl
  | some decl =>
    simp only [map, height, Option.map_some, Option.toList_some, List.map_cons, List.map_nil,
      ClassDecl.map, ClassDecl.height, highest_map_congr (Member.height_map f cost)]

end JavaSubset
