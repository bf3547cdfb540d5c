import JavaSubset.Proofs.Completeness
import JavaSubset.Proofs.Heights
import JavaSubset.Proofs.Viability

/-!
# Spines without end

What is read in a loop can be as long as one likes: for each spine and each length there are tokens
without errors whose tree has such a spine (`exists_parse_long`). So there is a bound on the height
of trees only if it costs nothing to go on along any of the spines, with errors or without
(`parse_height_bounded`).

* `Long spine n e` : below `e` the spine goes on `n` times.
-/

namespace JavaSubset

open Grammar

variable {tier : Tier} {spine : Spine} {n : Nat} {e : Expr Unit}

/-! ## Long spines -/

structure Long (spine : Spine) (n : Nat) (e : Expr Unit) : Prop where
  on : e.spine? = some spine
  high : ∀ cost, n * cost spine ≤ e.height cost

theorem long_zero (h : e.spine? = some spine) : Long spine 0 e := ⟨h, fun _ => by simp⟩

/-- A node that goes on along the spine of `e`. -/
theorem Long.succ {e' : Expr Unit} (h : Long spine n e) (hon : e'.spine? = some spine)
    (hreach : ∀ cost, e.reach cost spine ≤ e'.height cost) : Long spine (n + 1) e' := by
  refine ⟨hon, fun cost => Nat.le_trans ?_ (hreach cost)⟩
  have hhigh := h.high cost
  rw [Expr.reach, Expr.linkCost, if_pos h.on, Nat.succ_mul]
  omega

/-! ## Expressions with long spines -/

/-- The tokens that a production can meet. -/
def Kept (us : List Token) : Prop := ∀ t ∈ us, t.kind.isKept = true

theorem Kept.append {us vs : List Token} (h : Kept us) (h' : Kept vs) : Kept (us ++ vs) :=
  List.forall_mem_append.mpr ⟨h, h'⟩

theorem kept_sample (kinds : List Token.Kind) (h : kinds.all Token.Kind.isKept = true) :
    Kept (kinds.map sample) :=
  List.forall_mem_map.mpr (List.all_eq_true.mp h)

theorem postfix_name (n : Nat) : Postfix (Expression n) [sample .identifier] (.ident () "") :=
  .of_primary (.ident rfl)

theorem operand_name (n : Nat) (tier : Tier) :
    Operand (Expression n) tier [sample .identifier] (.ident () "") := by
  have hunary : Unary (Expression n) [sample .identifier] (.ident () "") := .plain (postfix_name n)
  cases tier with
  | multiplicative => exact hunary
  | additive => exact .single hunary
  | relational => exact .single (.single hunary)
  | logical => exact .single (.single (.single hunary))

theorem expression_of_chain {us : List Token}
    (h : Chain tier (Operand (Expression n) tier) us e) : Expression (n + 1) us e := by
  cases tier with
  | multiplicative => exact .single (.single (.single h))
  | additive => exact .single (.single h)
  | relational => exact .single h
  | logical => exact h

theorem Grammar.Chain.snoc {operand : Phrase (Expr Unit)} {us vs : List Token} {op : BinaryOp}
    {right : Expr Unit} (h : Chain tier operand us e) (hlink : Link tier operand vs (op, right)) :
    Chain tier operand (us ++ vs) (.binary () e op right) := by
  obtain ⟨first, more⟩ := h
  simpa using Chain.mk first (more.snoc hlink)

/-- Each tier has operators. -/
theorem exists_operator (tier : Tier) : ∃ op : BinaryOp, op.tier = tier := by
  cases tier with
  | multiplicative => exact ⟨.mul, rfl⟩
  | additive => exact ⟨.add, rfl⟩
  | relational => exact ⟨.eq, rfl⟩
  | logical => exact ⟨.or, rfl⟩

theorem exists_operators (tier : Tier) (n : Nat) :
    ∃ us e, Kept us ∧ Chain tier (Operand (Expression 0) tier) us e ∧
      Long (.operators tier) n e := by
  obtain ⟨op, hop⟩ := exists_operator tier
  have hspine : ∀ left right : Expr Unit,
      (Expr.binary () left op right).spine? = some (.operators tier) := by
    intro left right
    rw [Expr.spine?, hop]
  have hlink : Link tier (Operand (Expression 0) tier)
      [sample (.operator (.binary op)), sample .identifier] (op, .ident () "") :=
    .mk rfl hop (operand_name 0 tier)
  have hkept : Kept [sample (.operator (.binary op)), sample .identifier] :=
    kept_sample [.operator (.binary op), .identifier] rfl
  induction n with
  | zero =>
    refine ⟨_, _, ?_, (Chain.single (operand_name 0 tier)).snoc hlink, long_zero (hspine _ _)⟩
    exact .append (kept_sample [.identifier] rfl) hkept
  | succ n ih =>
    obtain ⟨us, e, hus, hchain, hlong⟩ := ih
    refine ⟨_, _, hus.append hkept, hchain.snoc hlink, hlong.succ (hspine _ _) fun cost => ?_⟩
    rw [Expr.height, hop]
    exact Nat.le_max_left ..

theorem exists_selectors (n : Nat) :
    ∃ us e, Kept us ∧ Postfix (Expression 0) us e ∧ Long .selectors n e := by
  have hkept : Kept [sample (.punctuation .dot), sample .identifier] :=
    kept_sample [.punctuation .dot, .identifier] rfl
  induction n with
  | zero =>
    refine ⟨_, _, ?_, (postfix_name 0).field (sample_kind _) (sample_kind _), long_zero rfl⟩
    exact .append (kept_sample [.identifier] rfl) hkept
  | succ n ih =>
    obtain ⟨us, e, hus, hpostfix, hlong⟩ := ih
    exact ⟨_, _, hus.append hkept, hpostfix.field (sample_kind _) (sample_kind _),
      hlong.succ rfl fun cost => Nat.le_refl _⟩

theorem exists_assignments (n : Nat) :
    ∃ us e, Kept us ∧ Assignment 1 us e ∧ Long .assignments n e := by
  have htarget : Target 1 [sample .identifier] (.ident () "") := ⟨postfix_name 0, rfl⟩
  have hassign := sample_kind (.operator (.assign .assign))
  have hkept : Kept [sample .identifier, sample (.operator (.assign .assign))] :=
    kept_sample [.identifier, .operator (.assign .assign)] rfl
  induction n with
  | zero =>
    refine ⟨_, _, ?_, .last htarget hassign (postfix_name 0).expression, long_zero rfl⟩
    exact hkept.append (kept_sample [.identifier] rfl)
  | succ n ih =>
    obtain ⟨us, e, hus, hassignment, hlong⟩ := ih
    exact ⟨_, _, hkept.append hus, .more htarget hassign hassignment,
      hlong.succ rfl fun cost => Nat.le_max_right ..⟩

theorem exists_long (spine : Spine) (n : Nat) :
    ∃ us e, Kept us ∧ ExprStatement 1 us e ∧ Long spine n e := by
  cases spine with
  | operators tier =>
    obtain ⟨us, e, hus, hchain, hlong⟩ := exists_operators tier n
    exact ⟨us, e, hus, .plain (expression_of_chain hchain), hlong⟩
  | selectors =>
    obtain ⟨us, e, hus, hpostfix, hlong⟩ := exists_selectors n
    exact ⟨us, e, hus, .plain hpostfix.expression, hlong⟩
  | assignments =>
    obtain ⟨us, e, hus, hassignment, hlong⟩ := exists_assignments n
    exact ⟨us, e, hus, .assignment hassignment, hlong⟩

/-! ## Programs with long spines -/

/-- A class with one method, whose body is one statement. -/
theorem exists_unit {us : List Token} {s : Stmt Unit} (hus : Kept us) (h : Statement n us s) :
    ∃ ws p, Kept ws ∧ CompilationUnit n ws p ∧ ∀ cost, s.height cost ≤ p.height cost := by
  have hmethod : MemberDecl n _ _ := .method (.none _) (sample_kind (.keyword (.primitive .void)))
    (sample_kind _) (.empty (sample_kind _) (sample_kind _))
    (.mk (sample_kind _) (.cons h .nil) (sample_kind _))
  have hclass : ClassDeclaration n _ _ := .mk (.none _) (sample_kind _) (sample_kind _)
    (sample_kind _) (.cons hmethod .nil) (sample_kind _)
  refine ⟨_, _, ?_, .mk .none .nil hclass, fun cost => ?_⟩
  · simpa [Kept, Token.Kind.isKept, or_imp, forall_and] using hus
  · simp [Program.height, ClassDecl.height, Member.height, Stmt.heights]

/-- Tokens without errors whose tree has a spine of any length. -/
theorem exists_parse_long (spine : Spine) (n : Nat) :
    ∃ tokens, (parse tokens).diagnostics = [] ∧
      ∀ cost, n * cost spine ≤ (parse tokens).program.height cost := by
  obtain ⟨us, e, hus, hstatement, hlong⟩ := exists_long spine n
  have hkept : Kept (us ++ [sample (.punctuation .semicolon)]) :=
    hus.append (kept_sample [.punctuation .semicolon] rfl)
  have hform : Statement 2 (us ++ [sample (.punctuation .semicolon)]) (.expr () e) :=
    StatementForm.expr hstatement (sample_kind _)
  obtain ⟨tokens, p, htokens, hunit, hheight⟩ := exists_unit hkept hform
  have hrest : (Cursor.ofTokens tokens).rest = tokens := List.filter_eq_self.mpr htokens
  obtain ⟨program, c, haccepts, rfl⟩ := Parser.program_complete (c := .ofTokens tokens)
    (hrest.symm ▸ hunit.mono (m := maxNesting) (by decide))
  refine ⟨tokens, ?_, fun cost => ?_⟩ <;> rw [parse_of_accepts haccepts]
  calc n * cost spine
    _ ≤ e.height cost := hlong.high cost
    _ ≤ (Stmt.expr () e).height cost := Nat.le_add_left ..
    _ ≤ program.erase.height cost := hheight cost
    _ = program.height cost := Program.height_map _ cost program

/-- **Only spines make trees high.** If it costs nothing to go on along a spine, a program is at
most seven times as high as what may be open at once, whatever the tokens are. At any other cost
there is no bound, not even over the token lists that are parsed without errors. -/
theorem parse_height_bounded :
    (∀ tokens, (parse tokens).program.height free ≤ 7 * maxNesting) ∧
      ∀ cost, (∃ bound, ∀ tokens, (parse tokens).diagnostics = [] →
        (parse tokens).program.height cost ≤ bound) ↔ cost = free := by
  refine ⟨parse_height_free, fun cost => ⟨?_, ?_⟩⟩
  · rintro ⟨bound, hbound⟩
    funext spine
    obtain ⟨tokens, hclean, hhigh⟩ := exists_parse_long spine (bound + 1)
    have hle := Nat.le_trans (hhigh cost) (hbound tokens hclean)
    refine Nat.eq_zero_of_not_pos fun hpos => ?_
    have hlong := Nat.le_mul_of_pos_right (bound + 1) hpos
    omega
  · rintro rfl
    exact ⟨7 * maxNesting, fun tokens _ => parse_height_free tokens⟩

/-- There is no bound on the height of trees: every node counts. -/
theorem parse_height_unbounded :
    ¬ ∃ bound, ∀ tokens, (parse tokens).program.height (fun _ => 1) ≤ bound := by
  rintro ⟨bound, hbound⟩
  obtain ⟨tokens, -, hhigh⟩ := exists_parse_long .assignments (bound + 1)
  have hle := Nat.le_trans (hhigh fun _ => 1) (hbound tokens)
  omega

end JavaSubset
