import JavaSubset.Proofs.Operands

/-!
# Precedence and association

A `Term` is a binary operator with the operand behind it. Operands with operators between them make
one tree (`Tree`): its root is the last one of the operators that bind the loosest, and below it are
the trees of what stands on either side.

Each tier of the parser reads such a sequence if no operator in it binds looser (`tree_chained`,
`chain_settles`): the operators of its own tier it joins from the left, and between these stand
sequences for the next tier. So all tiers together make the tree (`expression_precedence`).
-/

namespace JavaSubset

open Cursor Grammar JavaSubset.Parser

/-- What can follow an expression. -/
def Token.Kind.endsExpression : Token.Kind → Bool
  | .operator (.binary _) | .punctuation .dot | .punctuation .lparen => false
  | _ => true

/-- The tokens of a unary phrase. -/
structure Operand (n : Nat) where
  tokens : List Token
  unary : ∃ e, Unary (Expression n) tokens e

/-- A binary operator and the operand behind it. -/
structure Term (n : Nat) where
  token : Token
  op : BinaryOp
  spells : token.kind = .operator (.binary op)
  operand : Operand n

variable {n : Nat} {first : Operand n} {before after terms : List (Term n)} {t : Term n}
  {e left right : Expr Location} {kind : Token.Kind} {us : List Token} {tier : Tier} {bound : Nat}
  {operand : Parser (Expr Location)}

namespace Term

def tokens (t : Term n) : List Token := t.token :: t.operand.tokens

def precedence (t : Term n) : Nat := (Operator.binary t.op).precedence

end Term

/-- The tokens of an operand and of the terms behind it. -/
def phrase (first : Operand n) (terms : List (Term n)) : List Token :=
  first.tokens ++ terms.flatMap Term.tokens

theorem phrase_split : phrase first (before ++ t :: after) =
    phrase first before ++ t.token :: phrase t.operand after := by
  simp [phrase, Term.tokens]

/-- Wherever the tokens stand in front of one that can follow an expression, they are read as an
expression: all of them and no others, with nothing to report. -/
def Parses (n : Nat) (us : List Token) (e : Expr Location) : Prop :=
  ∀ ⦃c c'⦄, Reads c us c' → c'.peek.kind.endsExpression = true → Accepts (expression n) c e c'

/-! ## The tree of a sequence -/

inductive Tree : Operand n → List (Term n) → Expr Location → Prop where
  | operand {first : Operand n} {e : Expr Location}
      (settled : Settles 60 (unary (expression n)) first.tokens e) : Tree first [] e
  | join {first : Operand n} {before after : List (Term n)} {t : Term n}
      {left right : Expr Location} (front : Tree first before left)
      (rest : Tree t.operand after right) (lowest : ∀ u ∈ before, t.precedence ≤ u.precedence)
      (last : ∀ u ∈ after, t.precedence < u.precedence) :
      Tree first (before ++ t :: after) (join left (t.op, right))

/-- The last of the terms that bind the loosest. -/
theorem exists_last_lowest (h : terms ≠ []) : ∃ before t after, terms = before ++ t :: after ∧
    (∀ u ∈ before, Term.precedence t ≤ u.precedence) ∧ ∀ u ∈ after, t.precedence < u.precedence := by
  induction terms with
  | nil => exact absurd rfl h
  | cons u terms ih =>
    by_cases hterms : terms = []
    · subst hterms
      exact ⟨[], u, [], rfl, by simp, by simp⟩
    · obtain ⟨before, t, after, rfl, hlowest, hlast⟩ := ih hterms
      by_cases hu : t.precedence ≤ u.precedence
      · exact ⟨u :: before, t, after, rfl, List.forall_mem_cons.mpr ⟨hu, hlowest⟩, hlast⟩
      · refine ⟨[], u, before ++ t :: after, rfl, by simp, fun v hv => ?_⟩
        rw [List.mem_append, List.mem_cons] at hv
        obtain hv | rfl | hv := hv
        · have := hlowest v hv
          omega
        · omega
        · have := hlast v hv
          omega

theorem exists_tree (first : Operand n) (terms : List (Term n)) : ∃ e, Tree first terms e := by
  induction hn : terms.length using Nat.strongRecOn generalizing first terms with
  | ind _ ih =>
    by_cases hterms : terms = []
    · subst hterms
      obtain ⟨b, hunary⟩ := first.unary
      obtain ⟨e, hsettles⟩ := unary_settles hunary
      exact ⟨e, .operand hsettles⟩
    · obtain ⟨before, t, after, rfl, hlowest, hlast⟩ := exists_last_lowest hterms
      rw [List.length_append, List.length_cons] at hn
      obtain ⟨left, hleft⟩ := ih before.length (by omega) first before rfl
      obtain ⟨right, hright⟩ := ih after.length (by omega) t.operand after rfl
      exact ⟨_, .join hleft hright hlowest hlast⟩

/-! ## One tier -/

namespace Parser

/-- Operands of a tier with its operators between them, joined from the left. -/
inductive Chained (bound : Nat) (tier : Tier) (operand : Parser (Expr Location)) :
    List Token → Expr Location → Prop where
  | first {us : List Token} {e : Expr Location} (settled : Settles bound operand us e) :
      Chained bound tier operand us e
  | snoc {us vs : List Token} {t : Token} {op : BinaryOp} {left right : Expr Location}
      (front : Chained bound tier operand us left) (operator : t.kind = .operator (.binary op))
      (level : op.tier = tier) (settled : Settles bound operand vs right) :
      Chained bound tier operand (us ++ t :: vs) (join left (op, right))

theorem accepts_link {t : Token} {op : BinaryOp} {c c' : Cursor}
    (operator : t.kind = .operator (.binary op)) (level : op.tier = tier)
    (h : Settles bound operand us e) (hread : Reads c (t :: us) c')
    (hnext : c'.peek.kind.endsOperand bound = true) :
    Accepts (link tier operand) c (some (op, e)) c' := by
  obtain ⟨rfl, hrest⟩ := hread.of_cons
  rw [link, accepts_peekKind_bind, tierOp?_eq_some.mpr ⟨operator, level⟩]
  exact (h hrest hnext).bind (accepts_pure.mpr ⟨rfl, rfl⟩)

/-- Whatever links follow, they are joined to what comes before them. -/
theorem Chained.accepts (h : Chained bound tier operand us e) (hbound : tier.precedence < bound)
    {c c₁ c' : Cursor} {links : List (BinaryOp × Expr Location)} (hread : Reads c us c₁)
    (hnext : c₁.peek.kind.endsOperand bound = true)
    (hlinks : Accepts (many (link tier operand)) c₁ links c') :
    Accepts (chain tier operand) c (links.foldl join e) c' := by
  induction h generalizing c₁ links with
  | first settled =>
    exact (settled hread hnext).bind (hlinks.bind (accepts_pure.mpr ⟨rfl, rfl⟩))
  | @snoc us vs t op left right front operator level settled ih =>
    obtain ⟨c₂, hfront, hlink⟩ := hread.split
    have hoperator : c₂.peek.kind.endsOperand bound = true := by
      rw [hlink.of_cons.1, operator]
      simpa [Token.Kind.endsOperand, level] using hbound
    exact ih hfront hoperator (accepts_many_cons (accepts_link operator level settled hlink hnext)
      hlink.progress hlinks)

theorem Chained.settles (h : Chained bound tier operand us e) (hbound : tier.precedence < bound) :
    Settles tier.precedence (chain tier operand) us e := by
  intro c c' hread hnext
  have hdone : Accepts (link tier operand) c' none c' := by
    rw [link, accepts_peekKind_bind, tierOp?_of_endsOperand hnext]
    exact accepts_pure.mpr ⟨rfl, rfl⟩
  exact h.accepts hbound hread (endsOperand_mono hnext (Nat.le_of_lt hbound))
    (accepts_many_stop hdone)

end Parser

/-! ## All tiers -/

/-- The parser makes the tree of every sequence without operators below this precedence. -/
def ReadsTrees (n bound : Nat) (p : Parser (Expr Location)) : Prop :=
  ∀ ⦃first : Operand n⦄ ⦃terms e⦄, Tree first terms e → (∀ t ∈ terms, bound ≤ t.precedence) →
    Settles bound p (phrase first terms) e

theorem tier_eq_of_precedence {a b : Tier} (h : a.precedence = b.precedence) : a = b := by
  cases a <;> cases b <;> first | rfl | cases h

/-- The next tier is ten above. -/
theorem precedence_gap {a b : Tier} (h : a.precedence < b.precedence) :
    a.precedence + 10 ≤ b.precedence := by
  cases a <;> cases b <;> revert h <;> decide

theorem precedence_bounds (tier : Tier) : 20 ≤ tier.precedence ∧ tier.precedence < 60 := by
  cases tier <;> decide

/-- What stands between the operators of a tier is for the next tier to read. -/
theorem tree_chained (hoperand : ReadsTrees n (tier.precedence + 10) operand)
    (h : Tree first terms e) (hterms : ∀ t ∈ terms, tier.precedence ≤ t.precedence) :
    Chained (tier.precedence + 10) tier operand (phrase first terms) e := by
  induction h with
  | operand settled => exact .first (hoperand (.operand settled) (by simp))
  | @join first before after t left right front rest lowest last ihfront _ =>
    have ht := hterms t (by simp)
    by_cases hlevel : t.precedence = tier.precedence
    · rw [phrase_split]
      refine .snoc (ihfront fun u hu => hterms u (by simp [hu])) t.spells
        (tier_eq_of_precedence hlevel) (hoperand rest fun u hu => precedence_gap ?_)
      rw [← hlevel]
      exact last u hu
    · -- the root is of a tighter tier, and so are all operators
      refine .first (hoperand (.join front rest lowest last) fun u hu => precedence_gap ?_)
      have hu : t.precedence ≤ u.precedence := by
        rw [List.mem_append, List.mem_cons] at hu
        obtain hu | rfl | hu := hu
        · exact lowest u hu
        · exact Nat.le_refl _
        · exact Nat.le_of_lt (last u hu)
      change tier.precedence < u.precedence
      omega

theorem chain_readsTrees (tier : Tier) (h : ReadsTrees n (tier.precedence + 10) operand) :
    ReadsTrees n tier.precedence (chain tier operand) :=
  fun _ _ _ htree hterms => (tree_chained h htree hterms).settles (by omega)

/-- No binary operator binds as tightly as a sign. -/
theorem unary_readsTrees : ReadsTrees n 60 (unary (expression n)) := by
  intro first terms e h hterms
  cases h with
  | operand settled =>
    rw [phrase, List.flatMap_nil, List.append_nil]
    exact settled
  | @join _ before after t =>
    exact absurd (hterms t (by simp)) (Nat.not_le.mpr (precedence_bounds t.op.tier).2)

theorem endsOperand_of_endsExpression (h : kind.endsExpression = true) :
    kind.endsOperand bound = true := by
  unfold Token.Kind.endsExpression at h
  split at h
  · cases h
  · cases h
  · cases h
  · unfold Token.Kind.endsOperand
    split <;> simp_all

theorem tree_parses (h : Tree first terms e) : Parses (n + 1) (phrase first terms) e := by
  have hmultiplicative := chain_readsTrees .multiplicative (@unary_readsTrees n)
  have hlogical := chain_readsTrees .logical
    (chain_readsTrees .relational (chain_readsTrees .additive hmultiplicative))
  intro c c' hread hends
  exact hlogical h (fun t _ => (precedence_bounds t.op.tier).1) hread
    (endsOperand_of_endsExpression hends)

/-- **Precedence and association.** Operands with binary operators between them, in front of a token
that can follow an expression, are read as one expression: all their tokens and no others, with
nothing to report. If there is an operator, the root is the last one of those with the lowest
precedence, between what the tokens before it and those behind it are read as. The operators `&&`
and `||` make up one tier. -/
theorem expression_precedence (n : Nat) (first : Operand n) (terms : List (Term n)) :
    (∃ e, Parses (n + 1) (phrase first terms) e ∧
      (terms ≠ [] → ∃ before t after left right, terms = before ++ t :: after ∧
        (∀ u ∈ before, t.precedence ≤ u.precedence) ∧
        (∀ u ∈ after, t.precedence < u.precedence) ∧
        Parses (n + 1) (phrase first before) left ∧
        Parses (n + 1) (phrase t.operand after) right ∧
        e = .binary (left.note.merge right.note) left t.op right)) ∧
      ∀ op : BinaryOp, op.tier = .logical ↔ op = .and ∨ op = .or := by
  obtain ⟨e, htree⟩ := exists_tree first terms
  refine ⟨⟨e, tree_parses htree, fun hterms => ?_⟩, fun op => by cases op <;> decide⟩
  cases htree with
  | operand => exact absurd rfl hterms
  | @join _ before after t left right front rest lowest last =>
    exact ⟨before, t, after, left, right, rfl, lowest, last, tree_parses front, tree_parses rest,
      rfl⟩

/-- A name as an operand. -/
def sampleName : Operand 0 :=
  ⟨[sample .identifier], _, .plain (.of_primary (.ident (sample_kind _)))⟩

/-- An operator and a name. -/
def sampleTerm (op : BinaryOp) : Term 0 :=
  ⟨sample (.operator (.binary op)), op, sample_kind _, sampleName⟩

/-- In `a || b && c` the root is `&&`. -/
theorem expression_precedence_or_and : ∃ left right,
    Parses 1 (phrase sampleName [sampleTerm .or]) left ∧ Parses 1 (phrase sampleName []) right ∧
      Parses 1 (phrase sampleName [sampleTerm .or, sampleTerm .and])
        (.binary (left.note.merge right.note) left .and right) := by
  obtain ⟨⟨e, hparses, hroot⟩, -⟩ :=
    expression_precedence 0 sampleName [sampleTerm .or, sampleTerm .and]
  obtain ⟨before, t, after, left, right, hsplit, -, hlast, hleft, hright, rfl⟩ :=
    hroot (List.cons_ne_nil _ _)
  cases before with
  | nil =>
    cases hsplit
    exact absurd (hlast (sampleTerm .and) List.mem_cons_self) (by decide)
  | cons u before =>
    cases before with
    | nil =>
      cases hsplit
      exact ⟨left, right, hleft, hright, hparses⟩
    | cons v before => simp at hsplit

end JavaSubset
