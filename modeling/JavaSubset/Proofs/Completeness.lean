import JavaSubset.Proofs.Derivations
import JavaSubset.Proofs.Soundness

/-!
# What is in the language is accepted

`Complete p f L next` : where tokens of `L` stand ahead, followed by a token that `next` allows,
the parser `p` reads just these and reports nothing, and `f` makes their tree of its value. Each
production is complete for the nonterminal it is named after. What may follow an operand is
bounded by the operators of its own tier and tighter ones (`Token.Kind.endsOperand`), what may
follow a statement is anything but an `else`, `catch` or `finally` that would belong to it
(`EndsStatement`).

`program_complete` holds for every bound on what may be open at once, so that a list of tokens has
only one tree, however deep it nests.
-/

namespace JavaSubset

open Cursor Grammar

/-- Whether a token ends an operand of operators with at least this precedence. -/
def Token.Kind.endsOperand (bound : Nat) : Token.Kind → Bool
  | .punctuation .dot | .punctuation .lparen => false
  | .operator (.binary op) => op.tier.precedence < bound
  | _ => true

/-- What can follow a statement: no word that would continue it. -/
structure EndsStatement (s : Stmt Unit) (kind : Token.Kind) : Prop where
  noElse : s.endsOpen = true → kind ≠ .keyword (.control .elseKw)
  noCatch : kind ≠ .keyword (.control .catchKw)
  noFinally : kind ≠ .keyword (.control .finallyKw)

namespace Parser

variable {α β : Type} {c c' : Cursor} {demand : Demand} {kind found : Token.Kind}
  {starts : Token.Kind → Bool} {us : List Token}

/-! ## Building blocks -/

theorem accepts_expect_kind {g : Token → Parser β} {b : β} (hd : demand.expected = .token kind)
    (hkind : c.peek.kind = kind) (h : Accepts (g c.peek) c.advance b c') :
    Accepts (expect demand >>= g) c b c' := by
  refine accepts_expect_bind.mpr ⟨?_, h⟩
  simp [hd, Expected.admits, hkind]

theorem accepts_expect_last {b : β} (hd : demand.expected = .token kind)
    (hkind : c.peek.kind = kind) :
    Accepts (do let _ ← expect demand; return b) c b c.advance :=
  accepts_expect_kind hd hkind (accepts_pure.mpr ⟨rfl, rfl⟩)

theorem accepts_name_identifier {g : String → Parser β} {b : β}
    (hd : demand.expected = .identifier) (hkind : c.peek.kind = .identifier)
    (h : Accepts (g c.peek.text) c.advance b c') : Accepts (name demand >>= g) c b c' := by
  refine accepts_name_bind.mpr ⟨?_, h⟩
  simp [hd, Expected.admits, hkind]

theorem peek_of_leads (h : Leads starts us) (hread : Reads c us c') :
    starts c.peek.kind = true := by
  obtain ⟨t, vs, rfl, ht⟩ := h
  rwa [hread.of_cons.1]

theorem progress_of_leads (h : Leads starts us) (hread : Reads c us c') :
    c'.rest.length < c.rest.length := by
  obtain ⟨t, vs, rfl, ht⟩ := h
  exact hread.progress

def Complete (p : Parser α) (f : α → β) (L : Phrase β) (next : β → Token.Kind → Prop) : Prop :=
  ∀ ⦃us : List Token⦄ ⦃b : β⦄ ⦃c c' : Cursor⦄, L us b → Reads c us c' → next b c'.peek.kind →
    ∃ a, Accepts p c a c' ∧ f a = b

variable {p : Parser α} {f : α → β} {L : Phrase β} {next : β → Token.Kind → Prop}
  (stop : Token.Kind → Prop)

/-- Behind an item stands another one, or what follows them all. -/
theorem next_of_repeated {P : Token.Kind → Prop} {bs : List β}
    (leads : ∀ {us b}, L us b → Leads starts us) (h : Repeated L us bs) (hread : Reads c us c')
    (again : ∀ k, starts k = true → P k) (last : P c'.peek.kind) : P c.peek.kind := by
  cases h with
  | nil =>
    cases hread.of_nil
    exact last
  | cons first more => exact again _ (peek_of_leads ((leads first).append _) hread)

/-- A loop reads all items if each item may stand in front of another and in front of what stops
the loop. -/
theorem many_complete {step : Parser (Option α)} (starts : Token.Kind → Bool)
    (item : ∀ {us b c c'}, L us b → Reads c us c' → next b c'.peek.kind →
      ∃ a, Accepts step c (some a) c' ∧ f a = b)
    (done : ∀ {c}, stop c.peek.kind → Accepts step c none c)
    (leads : ∀ {us b}, L us b → Leads starts us)
    (again : ∀ b k, starts k = true → next b k) (last : ∀ b k, stop k → next b k) :
    Complete (many step) (List.map f) (Repeated L) (fun _ => stop) := by
  intro us bs c c' h hread hstop
  induction h generalizing c with
  | nil =>
    cases hread.of_nil
    exact ⟨[], accepts_many_stop (done hstop), rfl⟩
  | @cons us vs b bs first more ih =>
    obtain ⟨c₁, hread₁, hread₂⟩ := hread.split
    have hnext := next_of_repeated leads more hread₂ (again b) (last b _ hstop)
    obtain ⟨a, ha, rfl⟩ := item first hread₁ hnext
    obtain ⟨as, has, rfl⟩ := ih hread₂
    exact ⟨a :: as, accepts_many_cons ha (progress_of_leads (leads first) hread₁) has, rfl⟩

theorem manyAfter_complete {mark : Punctuation} (h : Complete p f L next)
    (again : ∀ b, next b (.punctuation mark)) (last : ∀ b k, stop k → next b k)
    (done : ∀ k, stop k → k ≠ .punctuation mark) :
    Complete (many do if ← accept (.punctuation mark) then return some (← p) else return none)
      (List.map f) (Repeated (After mark L)) (fun _ => stop) := by
  refine many_complete stop (· = .punctuation mark) ?_ ?_ After.leads ?_ last
  · rintro _ b c c' ⟨separator, given⟩ hread hnext
    obtain ⟨rfl, hrest⟩ := hread.of_cons
    obtain ⟨a, ha, rfl⟩ := h given hrest hnext
    refine ⟨a, ?_, rfl⟩
    simp only [accepts_accept_bind, separator, ↓reduceIte]
    exact ha.bind (accepts_pure.mpr ⟨rfl, rfl⟩)
  · intro c hstop
    simp [done _ hstop]
  · intro b k hk
    rw [of_decide_eq_true hk]
    exact again b

theorem separated_complete (h : Complete p f L next) (again : ∀ b, next b (.punctuation .comma))
    (last : ∀ b k, stop k → next b k) (done : ∀ k, stop k → k ≠ .punctuation .comma) :
    Complete (separated p) (List.map f) (Separated L) (fun _ => stop) := by
  rintro _ _ c c' ⟨first, more⟩ hread hstop
  rename_i us vs b bs
  obtain ⟨c₁, hread₁, hread₂⟩ := hread.split
  have hnext : next b c₁.peek.kind := by
    refine next_of_repeated After.leads more hread₂ ?_ (last b _ hstop)
    intro k hk
    rw [of_decide_eq_true hk]
    exact again b
  obtain ⟨a, ha, rfl⟩ := h first hread₁ hnext
  obtain ⟨as, has, rfl⟩ := manyAfter_complete stop h again last done more hread₂ hstop
  exact ⟨a :: as, ha.bind (has.bind (accepts_pure.mpr ⟨rfl, rfl⟩)), rfl⟩

/-- A list in parentheses, behind its opening one, and what follows it. -/
theorem enclosed_complete {bs : List β} (demand : Demand) (h : Complete p f L next)
    (again : ∀ b, next b (.punctuation .comma))
    (last : ∀ b, next b (.punctuation .rparen)) (leads : ∀ {us b}, L us b → Leads starts us)
    (closes : starts (.punctuation .rparen) = false)
    (hd : demand.expected = .token (.punctuation .rparen)) (items : Enclosed L us bs)
    (hread : Reads c us c') :
    ∃ as, as.map f = bs ∧ ∀ {γ : Type} {k : List α → Parser γ} {r c₁}, Accepts (k as) c' r c₁ →
      Accepts (do
        let as ← if ← sees (.punctuation .rparen) then pure [] else separated p
        let _ ← expect demand
        k as) c.advance r c₁ := by
  cases items with
  | empty opening closing =>
    obtain ⟨rfl, hrest⟩ := hread.of_cons
    obtain ⟨rfl, hend⟩ := hrest.of_cons
    cases hend.of_nil
    refine ⟨[], rfl, fun hk => ?_⟩
    simp only [accepts_sees_bind, closing, decide_true, ↓reduceIte, accepts_pure_bind]
    exact accepts_expect_kind hd closing hk
  | list opening items closing =>
    obtain ⟨rfl, hrest⟩ := hread.of_cons
    obtain ⟨c₁, hitems, rfl, rfl⟩ := hrest.of_snoc
    have hfirst : c.advance.peek.kind ≠ .punctuation .rparen := by
      obtain ⟨first, more⟩ := items
      intro hk
      have hstarts := peek_of_leads ((leads first).append _) hitems
      rw [hk, closes] at hstarts
      cases hstarts
    obtain ⟨as, has, rfl⟩ := separated_complete (· = .punctuation .rparen) h again
      (fun b _ hk => hk ▸ last b) (fun _ hk => by rw [hk]; decide) items hitems closing
    refine ⟨as, rfl, fun hk => ?_⟩
    simp only [accepts_sees_bind, hfirst, decide_false, Bool.false_eq_true, ↓reduceIte]
    exact has.bind (accepts_expect_kind hd closing hk)

theorem bodyOf_complete (point : SyncPoint) (h : Complete p f L next)
    (leads : ∀ {us b}, L us b → Leads starts us)
    (again : ∀ b k, starts k = true → next b k) (closes : starts (.punctuation .rbrace) = false)
    (last : ∀ b, next b (.punctuation .rbrace)) :
    Complete (bodyOf point p) (List.map f) (Repeated L)
      (fun _ k => k = .punctuation .rbrace) := by
  intro us bs c c' hitems hread hstop
  induction hitems generalizing c with
  | nil =>
    cases hread.of_nil
    exact ⟨[], accepts_bodyOf_stop hstop, rfl⟩
  | @cons us vs b bs first more ih =>
    obtain ⟨c₁, hread₁, hread₂⟩ := hread.split
    have hnext := next_of_repeated leads more hread₂ (again b) (hstop ▸ last b)
    have hprogress := progress_of_leads (leads first) hread₁
    have hend : c.atEnd = false := by
      rw [← Bool.not_eq_true, atEnd_iff]
      intro hnil
      simp [hnil] at hprogress
    have hbrace : c.peek.kind ≠ .punctuation .rbrace := by
      intro hk
      have hstarts := peek_of_leads (leads first) hread₁
      rw [hk, closes] at hstarts
      cases hstarts
    obtain ⟨a, ha, rfl⟩ := h first hread₁ hnext
    obtain ⟨as, has, rfl⟩ := ih hread₂
    exact ⟨a :: as, accepts_bodyOf_cons hend hbrace ha hprogress has, rfl⟩

/-! ## Expressions -/

section Expressions

variable {expr operand : Parser (Expr Location)} {E : Phrase (Expr Unit)} {bound : Nat}

theorem endsOperand_mono {bound' : Nat} (h : kind.endsOperand bound = true) (hle : bound ≤ bound') :
    kind.endsOperand bound' = true := by
  unfold Token.Kind.endsOperand at h ⊢
  split at h
  · cases h
  · cases h
  · simp only [decide_eq_true_eq] at h ⊢
    omega
  · rfl

theorem ne_dot_of_endsOperand (h : kind.endsOperand bound = true) : kind ≠ .punctuation .dot := by
  rintro rfl
  cases h

theorem ne_lparen_of_endsOperand (h : kind.endsOperand bound = true) :
    kind ≠ .punctuation .lparen := by
  rintro rfl
  cases h

/-- What ends a chain is no operator of its tier. -/
theorem tierOp?_of_endsOperand {tier : Tier} (h : kind.endsOperand tier.precedence = true) :
    tierOp? tier kind = none := by
  cases hop : tierOp? tier kind with
  | none => rfl
  | some op =>
    obtain ⟨rfl, rfl⟩ := tierOp?_eq_some.mp hop
    simp [Token.Kind.endsOperand] at h

theorem arguments_complete (hexpr : Complete expr Expr.erase E (fun _ k => k.endsOperand bound))
    (hleads : ∀ {us e}, E us e → Leads (·.startsExpr) us) (demand : Demand)
    (hd : demand.expected = .token (.punctuation .lparen)) :
    Complete (arguments expr demand) (List.map Expr.erase) (Enclosed E) (fun _ _ => True) := by
  intro us args c c' h hread _
  have hopen : c.peek.kind = .punctuation .lparen :=
    of_decide_eq_true (peek_of_leads h.leads hread)
  obtain ⟨args, rfl, hargs⟩ := enclosed_complete .argumentsEnd hexpr (fun _ => rfl)
    (fun _ => rfl) hleads rfl rfl h hread
  exact ⟨args, accepts_expect_kind hd hopen (hargs (accepts_pure.mpr ⟨rfl, rfl⟩)), rfl⟩

theorem primary_complete (hexpr : Complete expr Expr.erase E (fun _ k => k.endsOperand bound))
    (hleads : ∀ {us e}, E us e → Leads (·.startsExpr) us) :
    Complete (primary expr) Expr.erase (Primary E) (fun _ k => k ≠ .punctuation .lparen) := by
  have hargs := arguments_complete hexpr hleads
  intro us e c c' h hread hnext
  rw [primary]
  cases h with
  | ident name =>
    obtain ⟨rfl, hrest⟩ := hread.of_cons
    cases hrest.of_nil
    refine ⟨_, .located (.ident · c.peek.text) ?_, rfl⟩
    simp [accepts_peekKind_bind, name, hnext]
  | call name arguments =>
    obtain ⟨rfl, hrest⟩ := hread.of_cons
    obtain ⟨args, haccepts, rfl⟩ := hargs .methodArguments rfl arguments hrest trivial
    refine ⟨_, .located (.call · c.peek.text args) ?_, by simp⟩
    have hopen : c.advance.peek.kind = .punctuation .lparen :=
      of_decide_eq_true (peek_of_leads arguments.leads hrest)
    simp only [accepts_peekKind_bind, name, accepts_advance_bind, accepts_sees_bind, hopen,
      decide_true, ↓reduceIte]
    exact haccepts.bind (accepts_pure.mpr ⟨rfl, rfl⟩)
  | number literal =>
    obtain ⟨rfl, hrest⟩ := hread.of_cons
    cases hrest.of_nil
    refine ⟨_, .located (.literal · (.number (c.peek.literal.getD c.peek.text))) ?_, rfl⟩
    simp [accepts_peekKind_bind, literal]
  | string literal =>
    obtain ⟨rfl, hrest⟩ := hread.of_cons
    cases hrest.of_nil
    refine ⟨_, .located (.literal · (.string (c.peek.literal.getD ""))) ?_, rfl⟩
    simp [accepts_peekKind_bind, literal]
  | this word =>
    obtain ⟨rfl, hrest⟩ := hread.of_cons
    cases hrest.of_nil
    refine ⟨_, .located (.this ·) ?_, rfl⟩
    simp [accepts_peekKind_bind, word]
  | superCall word dot name arguments =>
    obtain ⟨rfl, hread₁⟩ := hread.of_cons
    obtain ⟨rfl, hread₂⟩ := hread₁.of_cons
    obtain ⟨rfl, hrest⟩ := hread₂.of_cons
    obtain ⟨args, haccepts, rfl⟩ := hargs .superArguments rfl arguments hrest trivial
    refine ⟨_, .located (.superCall · c.advance.advance.peek.text args) ?_, by simp⟩
    simp only [accepts_peekKind_bind, word, accepts_advance_bind]
    exact accepts_expect_kind rfl dot (accepts_name_identifier rfl name
      (haccepts.bind (accepts_pure.mpr ⟨rfl, rfl⟩)))
  | new word name arguments =>
    obtain ⟨rfl, hread₁⟩ := hread.of_cons
    obtain ⟨rfl, hrest⟩ := hread₁.of_cons
    obtain ⟨args, haccepts, rfl⟩ := hargs .newArguments rfl arguments hrest trivial
    refine ⟨_, .located (.new · c.advance.peek.text args) ?_, by simp⟩
    simp only [accepts_peekKind_bind, word, accepts_advance_bind]
    exact accepts_name_identifier rfl name (haccepts.bind (accepts_pure.mpr ⟨rfl, rfl⟩))
  | group opening inner closing =>
    obtain ⟨rfl, hrest⟩ := hread.of_cons
    obtain ⟨c₁, hinner, rfl, rfl⟩ := hrest.of_snoc
    have hends : c₁.peek.kind.endsOperand bound = true := by rw [closing]; rfl
    obtain ⟨e, haccepts, rfl⟩ := hexpr inner hinner hends
    refine ⟨_, .located (e.withNote ·) ?_, by simp⟩
    simp only [accepts_peekKind_bind, opening, accepts_advance_bind]
    exact haccepts.bind (accepts_expect_last rfl closing)

theorem selector_complete (hexpr : Complete expr Expr.erase E (fun _ k => k.endsOperand bound))
    (hleads : ∀ {us e}, E us e → Leads (·.startsExpr) us) {start : Token}
    {g : Expr Unit → Expr Unit} (h : Selection E us g) (hread : Reads c us c')
    (hnext : c'.peek.kind ≠ .punctuation .lparen) :
    ∃ sel, Accepts (selector expr start) c (some sel) c' ∧ sel.erase = g := by
  rw [selector]
  cases h with
  | field dot name =>
    obtain ⟨rfl, hread₁⟩ := hread.of_cons
    obtain ⟨rfl, hrest⟩ := hread₁.of_cons
    cases hrest.of_nil
    refine ⟨.field (c.advance.advance.locationFrom start) c.advance.peek.text, ?_, rfl⟩
    simp only [accepts_accept_bind, dot, ↓reduceIte]
    refine accepts_name_identifier rfl name ?_
    simp [hnext]
  | invoke dot name arguments =>
    obtain ⟨rfl, hread₁⟩ := hread.of_cons
    obtain ⟨rfl, hrest⟩ := hread₁.of_cons
    have hopen : c.advance.advance.peek.kind = .punctuation .lparen :=
      of_decide_eq_true (peek_of_leads arguments.leads hrest)
    obtain ⟨args, haccepts, rfl⟩ :=
      arguments_complete hexpr hleads .methodArguments rfl arguments hrest trivial
    refine ⟨.call (c'.locationFrom start) c.advance.peek.text args, ?_, rfl⟩
    simp only [accepts_accept_bind, dot, ↓reduceIte]
    refine accepts_name_identifier rfl name ?_
    simp only [accepts_sees_bind, hopen, decide_true, ↓reduceIte]
    refine haccepts.bind ?_
    simp only [accepts_locationFrom_bind, accepts_pure, and_self]

theorem selection_complete (hexpr : Complete expr Expr.erase E (fun _ k => k.endsOperand bound))
    (hleads : ∀ {us e}, E us e → Leads (·.startsExpr) us) :
    Complete (selection expr) Expr.erase (Postfix E) (fun _ k => k.endsOperand 60) := by
  rintro _ _ c c' ⟨head, selections⟩ hread hnext
  obtain ⟨c₁, hread₁, hread₂⟩ := hread.split
  have hdot : ∀ k : Token.Kind, decide (k = .punctuation .dot) = true →
      k ≠ .punctuation .lparen := by
    intro k hk
    rw [of_decide_eq_true hk]
    decide
  have hmany : Complete (many (selector expr c.peek)) (List.map Selector.erase)
      (Repeated (Selection E)) (fun _ k => k.endsOperand 60) := by
    refine many_complete _ _ (selector_complete hexpr hleads) ?_ Selection.leads (fun _ => hdot)
      (fun _ _ => ne_lparen_of_endsOperand)
    intro c hstop
    simp [selector, ne_dot_of_endsOperand hstop]
  have hnext₁ := next_of_repeated Selection.leads selections hread₂ hdot
    (ne_lparen_of_endsOperand hnext)
  obtain ⟨target, htarget, rfl⟩ := primary_complete hexpr hleads head hread₁ hnext₁
  obtain ⟨sels, hsels, rfl⟩ := hmany selections hread₂ hnext
  refine ⟨sels.foldl Selector.apply target, ?_, Expr.erase_foldl_apply target sels⟩
  rw [selection, accepts_peek_bind]
  exact htarget.bind (hsels.bind (accepts_pure.mpr ⟨rfl, rfl⟩))

theorem sign?_of_startsOperand (h : kind.startsOperand = true) : sign? kind = none := by
  unfold sign?
  split
  · cases h
  · cases h
  · rfl

theorem unary_complete (hexpr : Complete expr Expr.erase E (fun _ k => k.endsOperand bound))
    (hleads : ∀ {us e}, E us e → Leads (·.startsExpr) us) :
    Complete (unary expr) Expr.erase (Unary E) (fun _ k => k.endsOperand 60) := by
  intro us e c c' h hread hnext
  rw [unary]
  cases h with
  | plain operand =>
    have hsign := sign?_of_startsOperand (peek_of_leads operand.leads hread)
    simp only [accepts_peekKind_bind, hsign]
    exact selection_complete hexpr hleads operand hread hnext
  | plus sign operand =>
    obtain ⟨rfl, hrest⟩ := hread.of_cons
    obtain ⟨e, haccepts, rfl⟩ := selection_complete hexpr hleads operand hrest hnext
    refine ⟨.unary (c'.locationFrom c.peek) .plus e, ?_, rfl⟩
    simp only [accepts_peekKind_bind, sign, sign?]
    exact Accepts.located (Expr.unary · .plus e) (haccepts.bind (accepts_pure.mpr ⟨rfl, rfl⟩))
  | minus sign operand =>
    obtain ⟨rfl, hrest⟩ := hread.of_cons
    obtain ⟨e, haccepts, rfl⟩ := selection_complete hexpr hleads operand hrest hnext
    refine ⟨.unary (c'.locationFrom c.peek) .neg e, ?_, rfl⟩
    simp only [accepts_peekKind_bind, sign, sign?]
    exact Accepts.located (Expr.unary · .neg e) (haccepts.bind (accepts_pure.mpr ⟨rfl, rfl⟩))

theorem link_complete {tier : Tier} {link : BinaryOp × Expr Unit}
    (hoperand : Complete operand Expr.erase E (fun _ k => k.endsOperand bound))
    (h : Link tier E us link) (hread : Reads c us c')
    (hnext : c'.peek.kind.endsOperand bound = true) :
    ∃ a, Accepts (do
        match tierOp? tier (← peekKind) with
        | none => return none
        | some op =>
          let _ ← advance
          return some (op, ← operand)) c (some a) c' ∧ Prod.map id Expr.erase a = link := by
  obtain ⟨operator, level, right⟩ := h
  obtain ⟨rfl, hrest⟩ := hread.of_cons
  obtain ⟨e, haccepts, rfl⟩ := hoperand right hrest hnext
  rename_i us op
  refine ⟨(op, e), ?_, rfl⟩
  rw [accepts_peekKind_bind, tierOp?_eq_some.mpr ⟨operator, level⟩]
  exact haccepts.bind (accepts_pure.mpr ⟨rfl, rfl⟩)

/-- The operator of a tier ends the operand before it, and so does all that ends the chain. -/
theorem chain_complete (tier : Tier)
    (hoperand : Complete operand Expr.erase E (fun _ k => k.endsOperand bound))
    (hbound : tier.precedence < bound) :
    Complete (chain tier operand) Expr.erase (Chain tier E)
      (fun _ k => k.endsOperand tier.precedence) := by
  rintro _ _ c c' ⟨first, more⟩ hread hnext
  obtain ⟨c₁, hread₁, hread₂⟩ := hread.split
  have hagain : ∀ k, (tierOp? tier k).isSome = true → k.endsOperand bound = true := by
    intro k hk
    obtain ⟨op, hop⟩ := Option.isSome_iff_exists.mp hk
    obtain ⟨rfl, rfl⟩ := tierOp?_eq_some.mp hop
    simpa [Token.Kind.endsOperand] using hbound
  have hlast : ∀ k : Token.Kind, k.endsOperand tier.precedence = true →
      k.endsOperand bound = true :=
    fun k hk => endsOperand_mono hk (Nat.le_of_lt hbound)
  have hleads : ∀ {us link}, Link tier E us link → Leads (fun k => (tierOp? tier k).isSome) us := by
    rintro _ _ ⟨operator, level, right⟩
    exact leads_cons operator (by simp [tierOp?, level]) _
  have hlinks : Complete (many do
        match tierOp? tier (← peekKind) with
        | none => return none
        | some op =>
          let _ ← advance
          return some (op, ← operand)) (List.map (Prod.map id Expr.erase))
      (Repeated (Link tier E)) (fun _ k => k.endsOperand tier.precedence) := by
    refine many_complete _ _ (link_complete hoperand) ?_ hleads (fun _ => hagain) (fun _ => hlast)
    intro c hstop
    rw [accepts_peekKind_bind, tierOp?_of_endsOperand hstop]
    exact accepts_pure.mpr ⟨rfl, rfl⟩
  obtain ⟨e, he, rfl⟩ :=
    hoperand first hread₁ (next_of_repeated hleads more hread₂ hagain (hlast _ hnext))
  obtain ⟨links, hmore, rfl⟩ := hlinks more hread₂ hnext
  refine ⟨links.foldl join e, ?_, Expr.erase_foldl_join e links⟩
  exact he.bind (hmore.bind (accepts_pure.mpr ⟨rfl, rfl⟩))

theorem expression_complete : ∀ n,
    Complete (expression n) Expr.erase (Expression n) (fun _ k => k.endsOperand 20)
  | 0, _, _, _, _, h, _, _ => h.elim
  | n + 1, _, _, _, _, h, hread, hnext =>
    have hunary := unary_complete (expression_complete n) Expression.leads
    have hmultiplicative := chain_complete .multiplicative hunary (by decide)
    have hadditive := chain_complete .additive hmultiplicative (by decide)
    have hrelational := chain_complete .relational hadditive (by decide)
    chain_complete .logical hrelational (by decide) h hread hnext

end Expressions

/-! ## Expression statements -/

section Effects

variable {n : Nat} {expr : Parser (Expr Location)} {E : Phrase (Expr Unit)} {e : Expr Unit}

/-- What can follow a declared name and its value. -/
def EndsDeclarator (kind : Token.Kind) : Prop :=
  kind = .punctuation .comma ∨ kind = .punctuation .semicolon

theorem EndsDeclarator.endsOperand (h : EndsDeclarator kind) (bound : Nat) :
    kind.endsOperand bound = true := by
  rcases h with rfl | rfl <;> rfl

/-- A declared name, and behind it what `initializer` makes of the rest of its declaration. -/
theorem initializer_complete {d : Declarator Unit}
    (hexpr : Complete expr Expr.erase E (fun _ k => k.endsOperand 20)) (h : Declaration E us d)
    (hread : Reads c us c') (hnext : EndsDeclarator c'.peek.kind) :
    c.peek.kind = .identifier ∧ c.advance.peek.kind ≠ .punctuation .lparen ∧
      ∃ init, Accepts (initializer expr) c.advance init c' ∧
        Declarator.erase ⟨c.peek.text, init⟩ = d := by
  cases h with
  | plain name =>
    obtain ⟨rfl, hrest⟩ := hread.of_cons
    cases hrest.of_nil
    refine ⟨name, ne_lparen_of_endsOperand (hnext.endsOperand 60), none, ?_, rfl⟩
    have hequals : c.advance.peek.kind ≠ .operator (.assign .assign) := by
      rcases hnext with hk | hk <;> simp [hk]
    simp [initializer, hequals]
  | initialized name equals value =>
    obtain ⟨rfl, hread₁⟩ := hread.of_cons
    obtain ⟨rfl, hrest⟩ := hread₁.of_cons
    obtain ⟨e, haccepts, rfl⟩ := hexpr value hrest (hnext.endsOperand 20)
    refine ⟨name, by simp [equals], some e, ?_, rfl⟩
    simp only [initializer, accepts_accept_bind, equals, ↓reduceIte]
    exact haccepts.bind (accepts_pure.mpr ⟨rfl, rfl⟩)

theorem declarator_complete (hexpr : Complete expr Expr.erase E (fun _ k => k.endsOperand 20))
    (demand : Demand) (hd : demand.expected = .identifier) :
    Complete (declarator expr demand) Declarator.erase (Declaration E)
      (fun _ => EndsDeclarator) := by
  intro us d c c' h hread hnext
  obtain ⟨name, -, init, haccepts, rfl⟩ := initializer_complete hexpr h hread hnext
  exact ⟨_, accepts_name_identifier hd name (haccepts.bind (accepts_pure.mpr ⟨rfl, rfl⟩)), rfl⟩

/-- A round of the loop over assignments. -/
theorem assignment_complete {target value : Expr Location} {op : AssignOp}
    (hkind : c.peek.kind = .operator (.assign op)) (htarget : target.isAssignable = true)
    (hvalue : Accepts expr c.advance value c') :
    Accepts (assignment expr target) c (some ((target, op), value)) c' := by
  rw [assignment, accepts_peekKind_bind, assignOp?_eq_some.mpr hkind]
  simp only [accepts_advance_bind, accepts_checkTarget_bind]
  exact ⟨htarget, hvalue.bind (accepts_pure.mpr ⟨rfl, rfl⟩)⟩

theorem assignment_stops {value : Expr Location} (h : c.peek.kind = .punctuation .semicolon) :
    Accepts (assignment expr value) c none c := by
  rw [assignment, accepts_peekKind_bind, h]
  exact accepts_pure.mpr ⟨rfl, rfl⟩

/-- The first target of a chain of assignments, and behind it the rounds of the loop. -/
theorem assignments_complete
    (hexpr : Complete expr Expr.erase (Expression n) (fun _ k => k.endsOperand 20))
    (h : Assignment n us e) (hread : Reads c us c')
    (hnext : c'.peek.kind = .punctuation .semicolon) :
    ∃ ws target c₁ op links last, Reads c ws c₁ ∧ Accepts expr c target c₁ ∧
      c₁.peek.kind = .operator (.assign op) ∧
      Accepts (iterate (assignment expr) target) c₁ (links, last) c' ∧
      (links.foldr store last).erase = e := by
  induction h generalizing c with
  | @last us vs t left right op hleft operator hright =>
    obtain ⟨c₁, hread₁, hread₂⟩ := hread.split
    obtain ⟨rfl, hread₃⟩ := hread₂.of_cons
    obtain ⟨target, htarget, rfl⟩ := hexpr hleft.expression hread₁ (by rw [operator]; rfl)
    obtain ⟨value, hvalue, rfl⟩ := hexpr hright hread₃ (by rw [hnext]; rfl)
    have hassignable : target.isAssignable = true := by simpa using hleft.isAssignable
    have hround := assignment_complete operator hassignable hvalue
    refine ⟨us, target, c₁, op, [(target, op)], value, hread₁, htarget, operator, ?_, rfl⟩
    exact accepts_iterate_cons hround hread₂.progress
      (accepts_iterate_stop (assignment_stops hnext))
  | @more us vs t left right op hleft operator hright ih =>
    obtain ⟨c₁, hread₁, hread₂⟩ := hread.split
    obtain ⟨rfl, hread₃⟩ := hread₂.of_cons
    obtain ⟨target, htarget, rfl⟩ := hexpr hleft.expression hread₁ (by rw [operator]; rfl)
    obtain ⟨ws, target', c₂, op', links, last, hread₄, htarget', hop', hloop, rfl⟩ := ih hread₃
    have hassignable : target.isAssignable = true := by simpa using hleft.isAssignable
    have hround := assignment_complete operator hassignable htarget'
    have hprogress := ((reads_kind operator rfl).trans hread₄).progress
    exact ⟨us, target, c₁, op, (target, op) :: links, last, hread₁, htarget, operator,
      accepts_iterate_cons hround hprogress hloop, rfl⟩

theorem step?_of_startsExpr (h : kind.startsExpr = true) : step? kind = none := by
  unfold step?
  split
  · cases h
  · rfl

theorem effect_complete
    (hexpr : Complete expr Expr.erase (Expression n) (fun _ k => k.endsOperand 20)) :
    Complete (effect expr) Expr.erase (ExprStatement n)
      (fun _ k => k = .punctuation .semicolon) := by
  intro us e c c' h hread hnext
  rw [effect]
  cases h with
  | assignment given =>
    have hstep := step?_of_startsExpr (peek_of_leads given.leads hread)
    obtain ⟨ws, target, c₁, op, links, last, -, htarget, hop, hloop, rfl⟩ :=
      assignments_complete hexpr given hread hnext
    refine ⟨links.foldr store last, ?_, rfl⟩
    rw [accepts_peek_bind, hstep]
    refine htarget.bind ?_
    simp only [accepts_peekKind_bind, hop, step?]
    exact Reply.map_eq_ok_iff.mpr ⟨_, hloop, rfl⟩
  | preStep operator target assignable =>
    obtain ⟨rfl, hrest⟩ := hread.of_cons
    rename_i us e step
    obtain ⟨e, haccepts, rfl⟩ :=
      selection_complete hexpr Expression.leads target hrest (by rw [hnext]; rfl)
    refine ⟨.unary (c'.locationFrom c.peek) (.pre step) e, ?_, rfl⟩
    rw [accepts_peek_bind, step?_eq_some.mpr operator]
    refine haccepts.bind ?_
    simpa using assignable
  | postStep target operator =>
    obtain ⟨c₁, hread₁, rfl, rfl⟩ := hread.of_snoc
    rename_i us e step
    have hstep := step?_of_startsExpr (peek_of_leads target.expression.leads hread₁)
    obtain ⟨e, haccepts, rfl⟩ := hexpr target.expression hread₁ (by rw [operator]; rfl)
    refine ⟨.unary (c₁.advance.locationFrom c.peek) (.post step) e, ?_, rfl⟩
    rw [accepts_peek_bind, hstep]
    refine haccepts.bind ?_
    rw [accepts_peekKind_bind, step?_eq_some.mpr operator]
    simpa using target.isAssignable
  | plain given =>
    have hstep := step?_of_startsExpr (peek_of_leads given.leads hread)
    obtain ⟨e, haccepts, rfl⟩ := hexpr given hread (by rw [hnext]; rfl)
    refine ⟨e, ?_, rfl⟩
    rw [accepts_peek_bind, hstep]
    refine haccepts.bind ?_
    simp only [accepts_peekKind_bind, hnext, step?]
    exact Reply.map_eq_ok_iff.mpr ⟨([], e), accepts_iterate_stop (assignment_stops hnext), rfl⟩

end Effects

/-! ## Statements -/

/-- From `c` to `c'` the parser reads a statement whose tree is `s`, wherever it stands. -/
def AcceptsStatement (p : Parser (Location → Stmt Location)) (c : Cursor) (s : Stmt Unit)
    (c' : Cursor) : Prop :=
  ∃ node, Accepts p c node c' ∧ ∀ loc, (node loc).erase = s

section Statements

variable {n : Nat} {S : Phrase (Stmt Unit)} {stmt : Parser (Stmt Location)}
  {expr : Parser (Expr Location)} {e : Expr Unit} {s s' : Stmt Unit}

theorem endsStatement_of_startsStatement (h : kind.startsStatement = true) :
    EndsStatement s kind := by
  refine ⟨?_, ?_, ?_⟩
  · rintro - rfl
    cases h
  · rintro rfl
    cases h
  · rintro rfl
    cases h

theorem endsStatement_of_punctuation {mark : Punctuation} :
    EndsStatement s (.punctuation mark) :=
  ⟨fun _ => by simp, by simp, by simp⟩

theorem block_complete (hstmt : Complete stmt Stmt.erase S EndsStatement)
    (hleads : ∀ {us s}, S us s → Leads (·.startsStatement) us) (demand : Demand)
    (hd : demand.expected = .token (.punctuation .lbrace)) :
    Complete (block stmt demand) (List.map Stmt.erase) (Block S) (fun _ _ => True) := by
  rintro _ _ c c' ⟨opening, statements, closing⟩ hread -
  obtain ⟨rfl, hrest⟩ := hread.of_cons
  obtain ⟨c₁, hbody, rfl, rfl⟩ := hrest.of_snoc
  obtain ⟨body, haccepts, rfl⟩ := bodyOf_complete .statement hstmt hleads
    (fun _ _ => endsStatement_of_startsStatement) rfl (fun _ => endsStatement_of_punctuation)
    statements hbody closing
  refine ⟨body, accepts_expect_kind hd opening ?_, rfl⟩
  exact haccepts.bind (accepts_expect_last rfl closing)

section Conditions

variable (hexpr : Complete expr Expr.erase (Expression n) (fun _ k => k.endsOperand 20))

include hexpr

theorem condition_complete (word : ControlWord) :
    Complete (condition expr word) Expr.erase (Condition (Expression n)) (fun _ _ => True) := by
  rintro _ _ c c' ⟨opening, test, closing⟩ hread -
  obtain ⟨rfl, hrest⟩ := hread.of_cons
  obtain ⟨c₁, htest, rfl, rfl⟩ := hrest.of_snoc
  obtain ⟨e, haccepts, rfl⟩ := hexpr test htest (by rw [closing]; rfl)
  exact ⟨e, accepts_expect_kind rfl opening (haccepts.bind (accepts_expect_last rfl closing)), rfl⟩

theorem localVariables_complete {t m : Token} {type : PrimitiveType} {ds : List (Declarator Unit)}
    (word : Word (.primitive type) t) (names : Separated (Declaration (Expression n)) us ds)
    (semicolon : Mark .semicolon m) (hread : Reads c (t :: us ++ [m]) c') :
    AcceptsStatement (localVariables expr) c (.locals () type ds) c' := by
  obtain ⟨rfl, hrest⟩ := hread.of_cons
  obtain ⟨c₁, hds, rfl, rfl⟩ := hrest.of_snoc
  obtain ⟨ds, haccepts, rfl⟩ := separated_complete (· = .punctuation .semicolon)
    (declarator_complete hexpr .variableName rfl) (fun _ => .inl rfl) (fun _ _ => .inr)
    (fun _ hk => by rw [hk]; decide) names hds semicolon
  refine ⟨fun loc => .locals loc type ds, ?_, by simp⟩
  have htype : Accepts (primitiveType .type) c type c.advance := by
    rw [primitiveType, accepts_peekKind_bind, primitiveType?_eq_some.mpr word]
    simp
  exact htype.bind (haccepts.bind (accepts_expect_last rfl semicolon))

theorem effectStatement_complete {m : Token} (given : ExprStatement n us e)
    (semicolon : Mark .semicolon m) (hread : Reads c (us ++ [m]) c') :
    AcceptsStatement (effectStatement expr) c (.expr () e) c' := by
  obtain ⟨c₁, hvalue, rfl, rfl⟩ := hread.of_snoc
  obtain ⟨e, haccepts, rfl⟩ := effect_complete hexpr given hvalue semicolon
  exact ⟨fun loc => .expr loc e, haccepts.bind (accepts_expect_last rfl semicolon), fun _ => rfl⟩

theorem returnStatement_complete {t m : Token} {value : Option (Expr Unit)}
    (given : Optional (Expression n) us value) (semicolon : Mark .semicolon m)
    (hread : Reads c (t :: us ++ [m]) c') :
    AcceptsStatement (returnStatement expr) c (.returnWith () value) c' := by
  obtain ⟨rfl, hrest⟩ := hread.of_cons
  obtain ⟨c₁, hvalue, rfl, rfl⟩ := hrest.of_snoc
  cases given with
  | none =>
    cases hvalue.of_nil
    refine ⟨fun loc => .returnWith loc none, ?_, fun _ => rfl⟩
    rw [returnStatement, accepts_advance_bind, accepts_sees_bind, semicolon]
    exact accepts_expect_last rfl semicolon
  | some given =>
    obtain ⟨e, haccepts, rfl⟩ := hexpr given hvalue (by rw [semicolon]; rfl)
    have hfirst : c.advance.peek.kind ≠ .punctuation .semicolon := by
      intro hk
      have hstarts := peek_of_leads given.leads hvalue
      rw [hk] at hstarts
      cases hstarts
    refine ⟨fun loc => .returnWith loc (some e), ?_, fun _ => rfl⟩
    simp only [returnStatement, accepts_advance_bind, accepts_sees_bind, hfirst, decide_false,
      Bool.false_eq_true, ↓reduceIte]
    exact (accepts_map.mpr ⟨e, haccepts, rfl⟩).bind
      (accepts_expect_last rfl semicolon)

end Conditions

section Nested

variable (hstmt : Complete stmt Stmt.erase S EndsStatement)
  (hexpr : Complete expr Expr.erase (Expression n) (fun _ k => k.endsOperand 20))
  {t : Token} {vs ws : List Token}

include hstmt

theorem labeledStatement_complete {m : Token} (body : S us s)
    (hread : Reads c (t :: m :: us) c') (hnext : EndsStatement s c'.peek.kind) :
    AcceptsStatement (labeledStatement stmt) c (.labeled () t.text s) c' := by
  obtain ⟨rfl, hread₁⟩ := hread.of_cons
  obtain ⟨rfl, hrest⟩ := hread₁.of_cons
  obtain ⟨s, haccepts, rfl⟩ := hstmt body hrest hnext
  exact ⟨fun loc => .labeled loc c.peek.text s, haccepts.bind (accepts_pure.mpr ⟨rfl, rfl⟩),
    fun _ => rfl⟩

include hexpr

theorem ifThen_complete (test : Condition (Expression n) us e) (body : S vs s)
    (hread : Reads c (t :: us ++ vs) c') (hnext : EndsStatement (.ifThen () e s) c'.peek.kind) :
    AcceptsStatement (ifStatement stmt expr) c (.ifThen () e s) c' := by
  obtain ⟨rfl, hrest⟩ := hread.of_cons
  obtain ⟨c₁, hread₁, hread₂⟩ := hrest.split
  obtain ⟨e, htest, rfl⟩ := condition_complete hexpr .ifKw test hread₁ trivial
  have helse := hnext.noElse rfl
  obtain ⟨s, hbody, rfl⟩ := hstmt body hread₂ ⟨fun _ => helse, hnext.noCatch, hnext.noFinally⟩
  refine ⟨fun loc => .ifThen loc e s, htest.bind (hbody.bind ?_), fun _ => rfl⟩
  simp [helse]

theorem ifElse_complete {o : Token} (test : Condition (Expression n) us e) (body : S vs s)
    (nearest : s.endsOpen = false) (other : Word (.control .elseKw) o) (body' : S ws s')
    (hread : Reads c (t :: us ++ vs ++ o :: ws) c') (hnext : EndsStatement s' c'.peek.kind) :
    AcceptsStatement (ifStatement stmt expr) c (.ifElse () e s s') c' := by
  rw [List.cons_append, List.cons_append, List.append_assoc] at hread
  obtain ⟨rfl, hrest⟩ := hread.of_cons
  obtain ⟨c₁, hread₁, hrest₁⟩ := hrest.split
  obtain ⟨c₂, hread₂, hrest₂⟩ := hrest₁.split
  obtain ⟨rfl, hread₃⟩ := hrest₂.of_cons
  obtain ⟨e, htest, rfl⟩ := condition_complete hexpr .ifKw test hread₁ trivial
  have hnext₂ : EndsStatement s c₂.peek.kind := by
    rw [other]
    refine ⟨?_, by decide, by decide⟩
    rw [nearest]
    intro hopen
    cases hopen
  obtain ⟨s, hbody, rfl⟩ := hstmt body hread₂ hnext₂
  obtain ⟨s', hbody', rfl⟩ := hstmt body' hread₃ hnext
  refine ⟨fun loc => .ifElse loc e s s', htest.bind (hbody.bind ?_), fun _ => rfl⟩
  simp only [accepts_accept_bind, other, ↓reduceIte]
  exact hbody'.bind (accepts_pure.mpr ⟨rfl, rfl⟩)

theorem whileStatement_complete (test : Condition (Expression n) us e) (body : S vs s)
    (hread : Reads c (t :: us ++ vs) c') (hnext : EndsStatement s c'.peek.kind) :
    AcceptsStatement (whileStatement stmt expr) c (.whileLoop () e s) c' := by
  obtain ⟨rfl, hrest⟩ := hread.of_cons
  obtain ⟨c₁, hread₁, hread₂⟩ := hrest.split
  obtain ⟨e, htest, rfl⟩ := condition_complete hexpr .whileKw test hread₁ trivial
  obtain ⟨s, hbody, rfl⟩ := hstmt body hread₂ hnext
  exact ⟨fun loc => .whileLoop loc e s,
    htest.bind (hbody.bind (accepts_pure.mpr ⟨rfl, rfl⟩)), fun _ => rfl⟩

theorem doStatement_complete {w m : Token} (body : S us s) (loop : Word (.control .whileKw) w)
    (test : Condition (Expression n) vs e) (semicolon : Mark .semicolon m)
    (hread : Reads c (t :: us ++ w :: vs ++ [m]) c') :
    AcceptsStatement (doStatement stmt expr) c (.doLoop () s e) c' := by
  rw [List.cons_append, List.cons_append, List.append_assoc] at hread
  obtain ⟨rfl, hrest⟩ := hread.of_cons
  obtain ⟨c₁, hread₁, hrest₁⟩ := hrest.split
  obtain ⟨rfl, hrest₂⟩ := hrest₁.of_cons
  obtain ⟨c₂, hread₂, rfl, rfl⟩ := hrest₂.of_snoc
  obtain ⟨s, hbody, rfl⟩ := hstmt body hread₁ (by
    rw [loop]
    exact ⟨fun _ => by decide, by decide, by decide⟩)
  obtain ⟨e, htest, rfl⟩ := condition_complete hexpr .whileKw test hread₂ trivial
  exact ⟨fun loc => .doLoop loc s e, hbody.bind (accepts_expect_kind rfl loop
    (htest.bind (accepts_expect_last rfl semicolon))), fun _ => rfl⟩

end Nested

theorem jump_complete {t m : Token} {label : Option String} (demand : Demand)
    (hd : demand.expected = .token (.punctuation .semicolon))
    (target : Optional Identifier us label)
    (semicolon : Mark .semicolon m) (hread : Reads c (t :: us ++ [m]) c') :
    Accepts (jump demand) c label c' := by
  obtain ⟨rfl, hrest⟩ := hread.of_cons
  obtain ⟨c₁, hlabel, rfl, rfl⟩ := hrest.of_snoc
  have haccepts : Accepts label? c.advance label c₁ := by
    cases target with
    | none =>
      cases hlabel.of_nil
      simp [label?, semicolon]
    | some given =>
      obtain ⟨name⟩ := given
      obtain ⟨rfl, hend⟩ := hlabel.of_cons
      cases hend.of_nil
      simp [label?, name]
  exact haccepts.bind (accepts_expect_last hd semicolon)

section Handlers

variable (hstmt : Complete stmt Stmt.erase S EndsStatement)
  (hleads : ∀ {us s}, S us s → Leads (·.startsStatement) us)

include hstmt hleads

theorem catchClause_complete {clause : CatchClause Unit} (h : Handler S us clause)
    (hread : Reads c us c') :
    ∃ k, Accepts (do
        if ← accept (.keyword (.control .catchKw)) then return some (← catchClause stmt)
        else return none) c (some k) c' ∧ k.erase = clause := by
  obtain ⟨word, opening, exceptionType, name, closing, block⟩ := h
  obtain ⟨rfl, hread₁⟩ := hread.of_cons
  obtain ⟨rfl, hread₂⟩ := hread₁.of_cons
  obtain ⟨rfl, hread₃⟩ := hread₂.of_cons
  obtain ⟨rfl, hread₄⟩ := hread₃.of_cons
  obtain ⟨rfl, hrest⟩ := hread₄.of_cons
  obtain ⟨body, haccepts, rfl⟩ := block_complete hstmt hleads .catchBody rfl block hrest trivial
  refine ⟨⟨c.advance.advance.peek.text, c.advance.advance.advance.peek.text, body⟩, ?_, rfl⟩
  simp only [accepts_accept_bind, word, ↓reduceIte]
  refine Accepts.bind ?_ (accepts_pure.mpr ⟨rfl, rfl⟩)
  exact accepts_expect_kind rfl opening (accepts_name_identifier rfl exceptionType
    (accepts_name_identifier rfl name (accepts_expect_kind rfl closing
      (haccepts.bind (accepts_pure.mpr ⟨rfl, rfl⟩)))))

theorem catches_complete :
    Complete (many do
        if ← accept (.keyword (.control .catchKw)) then return some (← catchClause stmt)
        else return none) (List.map CatchClause.erase) (Repeated (Handler S))
      (fun _ k => k ≠ .keyword (.control .catchKw)) := by
  have hitem : ∀ {us clause c c'}, Handler S us clause → Reads c us c' → True → _ :=
    fun h hread _ => catchClause_complete hstmt hleads h hread
  refine many_complete _ (· = .keyword (.control .catchKw)) hitem ?_ Handler.leads
    (fun _ _ _ => trivial) (fun _ _ _ => trivial)
  intro c hstop
  simp [hstop]

theorem tryCatch_complete {t : Token} {vs : List Token} {body : List (Stmt Unit)}
    {catches : List (CatchClause Unit)} (block : Block S us body)
    (handlers : Repeated (Handler S) vs catches) (hsome : catches ≠ [])
    (hread : Reads c (t :: us ++ vs) c')
    (hnext : EndsStatement (.tryCatch () body catches) c'.peek.kind) :
    AcceptsStatement (tryStatement stmt) c (.tryCatch () body catches) c' := by
  obtain ⟨rfl, hrest⟩ := hread.of_cons
  obtain ⟨c₁, hread₁, hread₂⟩ := hrest.split
  obtain ⟨body, hbody, rfl⟩ := block_complete hstmt hleads .tryBody rfl block hread₁ trivial
  obtain ⟨catches, hcatches, rfl⟩ := catches_complete hstmt hleads handlers hread₂ hnext.noCatch
  refine ⟨fun loc => .tryCatch loc body catches, hbody.bind (hcatches.bind ?_), by simp⟩
  have hne : catches ≠ [] := by
    rintro rfl
    exact hsome rfl
  simp [hnext.noFinally, hne]

theorem tryFinally_complete {t f : Token} {vs ws : List Token} {body cleanup : List (Stmt Unit)}
    {catches : List (CatchClause Unit)} (block : Block S us body)
    (handlers : Repeated (Handler S) vs catches) (last : Word (.control .finallyKw) f)
    (block' : Block S ws cleanup) (hread : Reads c (t :: us ++ vs ++ f :: ws) c') :
    AcceptsStatement (tryStatement stmt) c (.tryFinally () body catches cleanup) c' := by
  rw [List.cons_append, List.cons_append, List.append_assoc] at hread
  obtain ⟨rfl, hrest⟩ := hread.of_cons
  obtain ⟨c₁, hread₁, hrest₁⟩ := hrest.split
  obtain ⟨c₂, hread₂, hrest₂⟩ := hrest₁.split
  obtain ⟨rfl, hread₃⟩ := hrest₂.of_cons
  obtain ⟨body, hbody, rfl⟩ := block_complete hstmt hleads .tryBody rfl block hread₁ trivial
  obtain ⟨catches, hcatches, rfl⟩ :=
    catches_complete hstmt hleads handlers hread₂ (by simp [last])
  obtain ⟨cleanup, hcleanup, rfl⟩ :=
    block_complete hstmt hleads .finallyBody rfl block' hread₃ trivial
  refine ⟨fun loc => .tryFinally loc body catches cleanup, hbody.bind (hcatches.bind ?_), by simp⟩
  simp only [accepts_accept_bind, last, ↓reduceIte]
  exact hcleanup.bind (accepts_pure.mpr ⟨rfl, rfl⟩)

end Handlers

/-- What starts an expression statement and is no name starts nothing else. -/
theorem statementOf_of_startsEffect (h : kind.startsEffect = true) (hname : kind ≠ .identifier) :
    statementOf stmt expr kind = effectStatement expr := by
  unfold Token.Kind.startsEffect Token.Kind.startsExpr Token.Kind.startsOperand at h
  split at h
  · rfl
  · split at h
    · rfl
    · rfl
    · split at h
      · exact absurd rfl hname
      · rfl
      · rfl
      · rfl
      · rfl
      · rfl
      · rfl
      · cases h

/-- What starts as an expression does and holds no colon is no labeled statement. -/
theorem statementOf_effect {m : Token} (hleads : Leads (·.startsEffect) us)
    (hcolon : NoColon (us ++ [m])) (hread : Reads c (us ++ [m]) c') :
    statementOf stmt expr c.peek.kind c = effectStatement expr c := by
  by_cases hname : c.peek.kind = .identifier
  · have hother : c.peekNext.kind ≠ .punctuation .colon := by
      obtain ⟨t, vs, rfl, -⟩ := hleads
      have hmem := hread.of_cons.2.peek_mem (by simp)
      rw [peekNext_eq]
      exact of_decide_eq_true (hcolon _ (List.mem_cons_of_mem _ hmem))
    rw [hname]
    change (if c.peekNext.kind = .punctuation .colon then _ else _ :
      Parser (Location → Stmt Location)) c = _
    rw [if_neg hother]
  · rw [statementOf_of_startsEffect (peek_of_leads (hleads.append _) hread) hname]

theorem statementOf_complete (hstmt : Complete stmt Stmt.erase S EndsStatement)
    (hleads : ∀ {us s}, S us s → Leads (·.startsStatement) us)
    (hexpr : Complete expr Expr.erase (Expression n) (fun _ k => k.endsOperand 20))
    (h : StatementForm n S us s) (hread : Reads c us c') (hnext : EndsStatement s c'.peek.kind) :
    AcceptsStatement (statementOf stmt expr c.peek.kind) c s c' := by
  cases h with
  | block given =>
    have hkind : c.peek.kind = .punctuation .lbrace := by
      obtain ⟨opening, statements, closing⟩ := given
      rwa [hread.of_cons.1]
    obtain ⟨body, haccepts, rfl⟩ := block_complete hstmt hleads .block rfl given hread trivial
    rw [hkind]
    exact ⟨fun loc => .block loc body, haccepts.bind (accepts_pure.mpr ⟨rfl, rfl⟩), by simp⟩
  | empty semicolon =>
    obtain ⟨rfl, hrest⟩ := hread.of_cons
    cases hrest.of_nil
    rw [semicolon]
    exact ⟨fun loc => .empty loc, rfl, fun _ => rfl⟩
  | locals word names semicolon =>
    rw [hread.of_cons.1, word]
    exact localVariables_complete hexpr word names semicolon hread
  | expr given semicolon =>
    obtain ⟨node, haccepts, herase⟩ := effectStatement_complete hexpr given semicolon hread
    refine ⟨node, ?_, herase⟩
    rw [Accepts, statementOf_effect given.leads (given.inner.noColon.snoc semicolon (by decide)) hread]
    exact haccepts
  | labeled name colon body =>
    obtain ⟨node, haccepts, herase⟩ := labeledStatement_complete hstmt body hread
      ⟨hnext.noElse, hnext.noCatch, hnext.noFinally⟩
    have hcolon : c.peekNext.kind = .punctuation .colon := by
      rw [peekNext_eq, hread.of_cons.2.of_cons.1]
      exact colon
    refine ⟨node, ?_, herase⟩
    rw [hread.of_cons.1, name]
    simp only [statementOf, accepts_peekNextKind_bind, hcolon, ↓reduceIte]
    exact haccepts
  | ifThen word test body =>
    rw [hread.of_cons.1, word]
    exact ifThen_complete hstmt hexpr test body hread hnext
  | ifElse word test body nearest other body' =>
    rw [hread.of_cons.1, word]
    exact ifElse_complete hstmt hexpr test body nearest other body' hread
      ⟨hnext.noElse, hnext.noCatch, hnext.noFinally⟩
  | whileLoop word test body =>
    rw [hread.of_cons.1, word]
    exact whileStatement_complete hstmt hexpr test body hread
      ⟨hnext.noElse, hnext.noCatch, hnext.noFinally⟩
  | doLoop word body loop test semicolon =>
    rw [hread.of_cons.1, word]
    exact doStatement_complete hstmt hexpr body loop test semicolon hread
  | breakTo word target semicolon =>
    rw [hread.of_cons.1, word]
    have hjump := jump_complete .breakEnd rfl target semicolon hread
    exact ⟨_, hjump.bind (accepts_pure.mpr ⟨rfl, rfl⟩), fun _ => rfl⟩
  | continueTo word target semicolon =>
    rw [hread.of_cons.1, word]
    have hjump := jump_complete .continueEnd rfl target semicolon hread
    exact ⟨_, hjump.bind (accepts_pure.mpr ⟨rfl, rfl⟩), fun _ => rfl⟩
  | returnWith word given semicolon =>
    rw [hread.of_cons.1, word]
    exact returnStatement_complete hexpr given semicolon hread
  | tryCatch word block handlers some =>
    rw [hread.of_cons.1, word]
    exact tryCatch_complete hstmt hleads block handlers some hread hnext
  | tryFinally word block handlers last block' =>
    rw [hread.of_cons.1, word]
    exact tryFinally_complete hstmt hleads block handlers last block' hread

theorem statement_complete : ∀ n,
    Complete (statement n) Stmt.erase (Statement n) EndsStatement
  | 0, _, _, _, _, h, _, _ => h.elim
  | n + 1, us, s, c, c', h, hread, hnext => by
    obtain ⟨node, haccepts, herase⟩ := statementOf_complete (statement_complete n)
      Statement.leads (expression_complete n) h hread hnext
    exact ⟨_, Accepts.located node haccepts, herase _⟩

end Statements

/-! ## Classes -/

section Classes

variable {set : ModifierSet} {type : PrimitiveType} {limit : Nat}

theorem addModifier_complete {seen : List Modifier} {m : Modifier} (h : m ∉ seen) :
    Accepts (addModifier seen m) c (seen ++ [m]) c.advance := by
  rw [addModifier, accepts_advance_bind]
  simp [h]

/-- A round of a modifier list reads a new modifier that fits, and stops in front of what is no
modifier. -/
structure ModifierRound (allowed : Modifier → Bool)
    (next : List Modifier → Parser (Option (Unit × List Modifier))) : Prop where
  stop : ∀ {seen c}, c.peek.kind.modifier? = none → Accepts (next seen) c none c
  more : ∀ {seen c m}, c.peek.kind = .keyword (.modifier m) → m ∉ seen → allowed m = true →
    Accepts (next seen) c (some ((), seen ++ [m])) c.advance

theorem classModifier_round : ModifierRound Modifier.onClass classModifier where
  stop hnone := by
    rw [classModifier, accepts_peekKind_bind, hnone]
    exact accepts_pure.mpr ⟨rfl, rfl⟩
  more hkind hnew hfits := by
    rw [classModifier, accepts_peekKind_bind, modifier?_eq_some.mpr hkind]
    simp only [hfits, ↓reduceIte]
    exact (addModifier_complete hnew).bind (accepts_pure.mpr ⟨rfl, rfl⟩)

theorem memberModifier_round : ModifierRound Modifier.onMember memberModifier where
  stop hnone := by
    rw [memberModifier, accepts_peekKind_bind, hnone]
    exact accepts_pure.mpr ⟨rfl, rfl⟩
  more hkind hnew hfits := by
    rw [memberModifier, accepts_peekKind_bind, modifier?_eq_some.mpr hkind]
    simp only [hfits, ↓reduceIte]
    exact (addModifier_complete hnew).bind (accepts_pure.mpr ⟨rfl, rfl⟩)

theorem modifiers_complete {allowed : Modifier → Bool}
    {next : List Modifier → Parser (Option (Unit × List Modifier))}
    (hnext : ModifierRound allowed next) :
    Complete (modifiers next) id (Modifiers allowed) (fun _ k => k.modifier? = none) := by
  rintro _ _ c c' ⟨words, distinct, fitting⟩ hread hstop
  rename_i us ms
  have key : ∀ {seen : List Modifier} {c us},
      us.map (·.kind) = ms.map (fun m => .keyword (.modifier m)) →
      (seen ++ ms).Nodup → (∀ m ∈ ms, allowed m = true) → Reads c us c' →
      ∃ units, Accepts (iterate next seen) c (units, seen ++ ms) c' := by
    clear words distinct fitting hread
    induction ms with
    | nil =>
      intro seen c us words _ _ hread
      cases List.map_eq_nil_iff.mp words
      cases hread.of_nil
      rw [List.append_nil]
      exact ⟨[], accepts_iterate_stop (hnext.stop hstop)⟩
    | cons m ms ih =>
      intro seen c us words distinct fitting hread
      obtain ⟨t, us, rfl, hkind, hwords⟩ := List.map_eq_cons_iff.mp words
      obtain ⟨rfl, hrest⟩ := hread.of_cons
      rw [List.append_cons] at distinct ⊢
      have hnew : m ∉ seen := by
        intro hm
        have hnodup := (List.nodup_append.mp distinct).1
        exact (List.nodup_append.mp hnodup).2.2 m hm m (by simp) rfl
      have hround := hnext.more hkind hnew (fitting m List.mem_cons_self)
      obtain ⟨units, hloop⟩ := ih hwords distinct
        (fun m' hm' => fitting m' (List.mem_cons_of_mem _ hm')) hrest
      exact ⟨() :: units, accepts_iterate_cons hround (reads_kind hkind rfl).progress hloop⟩
  obtain ⟨units, hloop⟩ := @key [] c us words distinct fitting hread
  exact ⟨.ofList ms, Reply.map_eq_ok_iff.mpr ⟨_, hloop, rfl⟩, rfl⟩

theorem primitiveType_complete (demand : Demand) (h : c.peek.kind = .keyword (.primitive type)) :
    Accepts (primitiveType demand) c type c.advance := by
  rw [primitiveType, accepts_peekKind_bind, primitiveType?_eq_some.mpr h]
  simp

theorem parameter_complete : Complete parameter id Parameter (fun _ _ => True) := by
  rintro _ _ c c' ⟨word, name⟩ hread -
  obtain ⟨rfl, hread₁⟩ := hread.of_cons
  obtain ⟨rfl, hrest⟩ := hread₁.of_cons
  cases hrest.of_nil
  exact ⟨_, (primitiveType_complete .type word).bind
    (accepts_name_identifier rfl name (accepts_pure.mpr ⟨rfl, rfl⟩)), rfl⟩

theorem methodRest_complete {ws : List Token} {params : List Param} {body : List (Stmt Unit)}
    (parameters : Enclosed Parameter us params) (block : Block (Statement limit) ws body)
    (hread : Reads c (us ++ ws) c') (word : String) :
    ∃ node, Accepts (methodRest limit set type word) c node c' ∧
      ∀ loc, (node loc).erase = .method () set type word params body := by
  obtain ⟨c₁, hread₁, hread₂⟩ := hread.split
  have hleads : ∀ {us param}, Parameter us param → Leads (·.startsMember) us := by
    rintro _ _ ⟨word, name⟩
    exact leads_cons word rfl _
  obtain ⟨params, rfl, hparams⟩ := enclosed_complete .parametersEnd parameter_complete
    (fun _ => trivial) (fun _ => trivial) hleads rfl rfl parameters hread₁
  obtain ⟨body, hbody, rfl⟩ := block_complete (statement_complete limit) Statement.leads
    .methodBody rfl block hread₂ trivial
  refine ⟨fun loc => .method loc set type word params body, ?_, by simp⟩
  exact hparams (hbody.bind (accepts_pure.mpr ⟨rfl, rfl⟩))

theorem fieldRest_complete {m : Token} {first : Declarator Unit} {more : List (Declarator Unit)}
    (names : Separated (Declaration (Expression limit)) us (first :: more))
    (semicolon : Mark .semicolon m) (hread : Reads c (us ++ [m]) c') :
    c.peek.kind = .identifier ∧ c.advance.peek.kind ≠ .punctuation .lparen ∧
      ∃ node, Accepts (fieldRest limit set type c.peek.text) c.advance node c' ∧
        ∀ loc, (node loc).erase = .field () set type first more := by
  obtain ⟨c₁, hnames, rfl, rfl⟩ := hread.of_snoc
  cases names with
  | @mk us vs _ _ hfirst hmore =>
    obtain ⟨c₂, hread₁, hread₂⟩ := hnames.split
    have hexpr := expression_complete limit
    have hnext : EndsDeclarator c₂.peek.kind := by
      refine next_of_repeated After.leads hmore hread₂ ?_ (.inr semicolon)
      intro k hk
      exact .inl (of_decide_eq_true hk)
    obtain ⟨name, hopen, init, hinit, rfl⟩ := initializer_complete hexpr hfirst hread₁ hnext
    obtain ⟨more, hrest, rfl⟩ := manyAfter_complete (· = .punctuation .semicolon)
      (declarator_complete hexpr .fieldName rfl) (fun _ => .inl rfl) (fun _ _ => .inr)
      (fun _ hk => by rw [hk]; decide) hmore hread₂ semicolon
    refine ⟨name, hopen, fun loc => .field loc set type ⟨c.peek.text, init⟩ more, ?_, by simp⟩
    exact hinit.bind (hrest.bind (accepts_expect_last rfl semicolon))

theorem member_complete (limit : Nat) :
    Complete (member limit) Member.erase (MemberDecl limit) (fun _ _ => True) := by
  intro us m c c' h hread _
  have hmodifiers := modifiers_complete memberModifier_round
  cases h with
  | field modifiers word names semicolon =>
    rw [List.append_assoc] at hread
    obtain ⟨c₁, hread₁, hrest⟩ := hread.split
    obtain ⟨rfl, hread₂⟩ := hrest.of_cons
    obtain ⟨set, hset, rfl⟩ := hmodifiers modifiers hread₁ (by rw [word]; rfl)
    obtain ⟨name, hopen, node, hnode, herase⟩ := fieldRest_complete names semicolon hread₂
    refine ⟨_, Accepts.located node (hset.bind ((primitiveType_complete _ word).bind
      (accepts_name_identifier rfl name ?_))), herase _⟩
    simp only [accepts_sees_bind, hopen, decide_false, Bool.false_eq_true, ↓reduceIte]
    exact hnode
  | method modifiers word name parameters block =>
    rw [List.append_assoc] at hread
    obtain ⟨c₁, hread₁, hrest⟩ := hread.split
    obtain ⟨rfl, hread₂⟩ := hrest.of_cons
    obtain ⟨rfl, hread₃⟩ := hread₂.of_cons
    obtain ⟨set, hset, rfl⟩ := hmodifiers modifiers hread₁ (by rw [word]; rfl)
    have hopen : c₁.advance.advance.peek.kind = .punctuation .lparen :=
      of_decide_eq_true (peek_of_leads (parameters.leads.append _) hread₃)
    obtain ⟨node, hnode, herase⟩ :=
      methodRest_complete parameters block hread₃ c₁.advance.peek.text
    refine ⟨_, Accepts.located node (hset.bind ((primitiveType_complete _ word).bind
      (accepts_name_identifier rfl name ?_))), herase _⟩
    simp only [accepts_sees_bind, hopen, decide_true, ↓reduceIte]
    exact hnode

theorem classDecl_complete (limit : Nat) :
    Complete (classDecl limit) ClassDecl.erase (ClassDeclaration limit) (fun _ _ => True) := by
  rintro _ _ c c' ⟨modifiers, word, name, opening, body, closing⟩ hread -
  rw [List.append_assoc] at hread
  obtain ⟨c₁, hread₁, hrest⟩ := hread.split
  obtain ⟨rfl, hread₂⟩ := hrest.of_cons
  obtain ⟨rfl, hread₃⟩ := hread₂.of_cons
  obtain ⟨rfl, hread₄⟩ := hread₃.of_cons
  obtain ⟨c₂, hread₅, rfl, rfl⟩ := hread₄.of_snoc
  obtain ⟨set, hset, rfl⟩ :=
    modifiers_complete classModifier_round modifiers hread₁ (by rw [word]; rfl)
  obtain ⟨members, hmembers, rfl⟩ := bodyOf_complete .member (member_complete limit)
    MemberDecl.leads (fun _ _ _ => trivial) rfl (fun _ => trivial) body hread₅ closing
  have hbody : Accepts (classBody limit) c₁.advance.advance members c₂.advance := by
    refine accepts_expect_kind rfl opening (hmembers.bind ?_)
    simp [closing]
  refine ⟨_, Accepts.located (fun loc => ⟨loc, set, c₁.advance.peek.text, members⟩)
    (hset.bind (accepts_expect_kind rfl word (accepts_name_identifier rfl name
      (hbody.bind (accepts_pure.mpr ⟨rfl, rfl⟩))))), by simp⟩

end Classes

/-! ## The compilation unit -/

theorem name_complete (demand : Demand) (hd : demand.expected = .identifier) :
    Complete (name demand) id Identifier (fun _ _ => True) := by
  rintro _ _ c c' ⟨name⟩ hread -
  obtain ⟨rfl, hend⟩ := hread.of_cons
  cases hend.of_nil
  refine ⟨c.peek.text, ?_, rfl⟩
  simp [Parser.name, hd, Expected.admits, name]

theorem qualifiedName_complete (hd : demand.expected = .identifier) :
    Complete (qualifiedName demand) id QualifiedName
      (fun _ k => k ≠ .punctuation .dot) := by
  rintro _ _ c c' ⟨first, more⟩ hread hnext
  obtain ⟨rfl, hrest⟩ := hread.of_cons
  obtain ⟨names, hnames, rfl⟩ := manyAfter_complete (· ≠ .punctuation .dot)
    (name_complete .nameAfterDot rfl) (fun _ => trivial) (fun _ _ _ => trivial)
    (fun _ hk => hk) more hrest hnext
  refine ⟨_, accepts_name_identifier hd first (hnames.bind (accepts_pure.mpr ⟨rfl, rfl⟩)), ?_⟩
  rw [List.map_id, id]

theorem clause_complete {nameDemand endDemand : Demand} {word : DeclarationWord}
    (hname : nameDemand.expected = .identifier)
    (hend : endDemand.expected = .token (.punctuation .semicolon)) :
    Complete (clause nameDemand endDemand) id (Clause word) (fun _ _ => True) := by
  rintro _ _ c c' ⟨opening, given, semicolon⟩ hread -
  obtain ⟨rfl, hrest⟩ := hread.of_cons
  obtain ⟨c₁, hgiven, rfl, rfl⟩ := hrest.of_snoc
  obtain ⟨name, haccepts, rfl⟩ :=
    qualifiedName_complete hname given hgiven (by simp [semicolon])
  exact ⟨name, haccepts.bind (accepts_expect_last hend semicolon), rfl⟩

theorem package?_complete {package : Option String}
    (h : Optional (Clause .packageKw) us package) (hread : Reads c us c')
    (hnext : c'.peek.kind ≠ .keyword (.declaration .packageKw)) :
    Accepts package? c package c' := by
  rw [package?, accepts_sees_bind]
  cases h with
  | none =>
    cases hread.of_nil
    simp only [hnext, decide_false, Bool.false_eq_true, ↓reduceIte]
    exact accepts_pure.mpr ⟨rfl, rfl⟩
  | some clause =>
    have hkind : c.peek.kind = .keyword (.declaration .packageKw) :=
      of_decide_eq_true (peek_of_leads clause.leads hread)
    obtain ⟨name, hname, rfl⟩ : ∃ name, Accepts packageDecl c name c' ∧ id name = _ :=
      clause_complete rfl rfl clause hread trivial
    simp only [hkind, decide_true, ↓reduceIte]
    exact accepts_recover.mpr ⟨name, hname, rfl⟩

theorem imports_complete {names : List String} (h : Repeated (Clause .importKw) us names)
    (hread : Reads c us c') (hnext : c'.peek.kind ≠ .keyword (.declaration .importKw)) :
    Accepts imports c names c' := by
  suffices ∃ items, Accepts (many do
      if ← sees (.keyword (.declaration .importKw)) then
        return some (← recover .topLevel importDecl)
      else return none) c items c' ∧ items.filterMap id = names by
    obtain ⟨items, hitems, rfl⟩ := this
    exact hitems.bind (accepts_pure.mpr ⟨rfl, rfl⟩)
  induction h generalizing c with
  | nil =>
    cases hread.of_nil
    refine ⟨[], accepts_many_stop ?_, rfl⟩
    simp [hnext]
  | cons first more ih =>
    obtain ⟨c₁, hread₁, hread₂⟩ := hread.split
    have hkind : c.peek.kind = .keyword (.declaration .importKw) :=
      of_decide_eq_true (peek_of_leads first.leads hread₁)
    obtain ⟨name, hname, rfl⟩ : ∃ name, Accepts importDecl c name c₁ ∧ id name = _ :=
      clause_complete rfl rfl first hread₁ trivial
    obtain ⟨items, hitems, rfl⟩ := ih hread₂
    refine ⟨some name :: items, accepts_many_cons ?_ (progress_of_leads first.leads hread₁) hitems,
      rfl⟩
    simp only [accepts_sees_bind, hkind, decide_true, ↓reduceIte]
    exact (accepts_recover.mpr ⟨name, hname, rfl⟩).bind (accepts_pure.mpr ⟨rfl, rfl⟩)

theorem startsClass_of_classDeclaration {n : Nat} {decl : ClassDecl Unit}
    (h : ClassDeclaration n us decl) : Leads (·.startsClass) us := by
  obtain ⟨modifiers, word, name, opening, body, closing⟩ := h
  rw [List.append_assoc]
  exact modifiers.leads (fun _ => rfl) (leads_cons word rfl _)

/-- In front of a class declaration the search ends where it starts. -/
theorem locateClass_complete {n : Nat} {decl : ClassDecl Unit} (h : ClassDeclaration n us decl)
    (hread : Reads c us c') : Accepts (locateClass false) c true c := by
  have hstarts := peek_of_leads (startsClass_of_classDeclaration h) hread
  have hahead : c.rest.any (·.kind = .keyword (.declaration .classKw)) = true := by
    obtain ⟨modifiers, word, name, opening, body, closing⟩ := h
    rw [hread.rest_eq]
    simp [word]
  rw [locateClass, accepts_classAhead_bind, hahead]
  simp [hstarts]

/-- The first attempt at the class succeeds. -/
theorem classDeclaration_of_classDecl {limit : Nat} {decl : ClassDecl Unit}
    {a : ClassDecl Location} (h : ClassDeclaration limit us decl) (hread : Reads c us c')
    (haccepts : Accepts (classDecl limit) c a c') :
    Accepts (classDeclaration limit) c (some a) c' := by
  have hattempt : Accepts (attempt limit .first) c (some ((), .found a)) c' := by
    refine (locateClass_complete h hread).bind ?_
    exact (accepts_recover.mpr ⟨a, haccepts, rfl⟩).bind (accepts_pure.mpr ⟨rfl, rfl⟩)
  have hstop : Accepts (attempt limit (.found a)) c' none c' := accepts_pure.mpr ⟨rfl, rfl⟩
  exact Reply.map_eq_ok_iff.mpr ⟨_, accepts_iterate_cons hattempt
    (progress_of_leads (startsClass_of_classDeclaration h) hread) (accepts_iterate_stop hstop), rfl⟩

theorem classDeclaration_complete {limit : Nat} {decl : ClassDecl Unit}
    (h : ClassDeclaration limit us decl) (hread : Reads c us c') :
    ∃ a, Accepts (classDeclaration limit) c (some a) c' ∧ a.erase = decl := by
  obtain ⟨a, haccepts, rfl⟩ := classDecl_complete limit h hread trivial
  exact ⟨a, classDeclaration_of_classDecl h hread haccepts, rfl⟩

/-- The clauses in front of a class. -/
theorem header_complete {vs : List Token} {c₁ : Cursor} {package : Option String}
    {names : List String} (header : Optional (Clause .packageKw) us package)
    (clauses : Repeated (Clause .importKw) vs names) (hread : Reads c us c₁)
    (hread' : Reads c₁ vs c') (hclass : c'.peek.kind.startsClass = true) :
    Accepts package? c package c₁ ∧ Accepts imports c₁ names c' := by
  -- the words of the clauses start no class
  have hother : ∀ word, word ≠ .classKw → c'.peek.kind ≠ .keyword (.declaration word) := by
    intro word hword hk
    rw [hk] at hclass
    cases word with
    | packageKw => cases hclass
    | importKw => cases hclass
    | classKw => exact hword rfl
  refine ⟨package?_complete header hread ?_,
    imports_complete clauses hread' (hother .importKw (by decide))⟩
  refine next_of_repeated (P := (· ≠ .keyword (.declaration .packageKw))) Clause.leads clauses
    hread' ?_ (hother .packageKw (by decide))
  intro k hk
  rw [of_decide_eq_true hk]
  decide

theorem program_complete {limit : Nat} {p : Program Unit} (h : CompilationUnit limit c.rest p) :
    ∃ a c', Accepts (program limit) c a c' ∧ a.erase = p := by
  obtain ⟨c', hread⟩ : ∃ c', Reads c c.rest c' := by
    have hskip := reads_skip (c := c) (Nat.le_refl c.rest.length)
    rw [List.take_length] at hskip
    exact ⟨_, hskip⟩
  have hend : c'.atEnd = true := by
    have hlen := hread.length_eq
    rw [atEnd_iff]
    exact List.length_eq_zero_iff.mp (by omega)
  generalize c.rest = us at h hread
  obtain ⟨header, clauses, given⟩ := h
  rename_i package imports decl
  obtain ⟨c₂, hread₁₂, hread₃⟩ := hread.split
  obtain ⟨c₁, hread₁, hread₂⟩ := hread₁₂.split
  obtain ⟨hpackage, himports⟩ := header_complete header clauses hread₁ hread₂
    (peek_of_leads (startsClass_of_classDeclaration given) hread₃)
  obtain ⟨decl, hdecl, rfl⟩ := classDeclaration_complete given hread₃
  refine ⟨⟨package, imports, some decl⟩, c', hpackage.bind (himports.bind (hdecl.bind ?_)), rfl⟩
  simp only [accepts_atEnd_bind, hend, ↓reduceIte]
  exact accepts_pure.mpr ⟨rfl, rfl⟩

end Parser

/-! ## Whole sources -/

/-- A list of tokens has one tree, whatever may be open at once. -/
theorem Grammar.CompilationUnit.unique {n m : Nat} {us : List Token} {p q : Program Unit}
    (hkept : ∀ t ∈ us, t.kind.isKept = true) (hp : CompilationUnit n us p)
    (hq : CompilationUnit m us q) : p = q := by
  have hrest : (Cursor.ofTokens us).rest = us := List.filter_eq_self.mpr hkept
  obtain ⟨a, c, ha, rfl⟩ := Parser.program_complete (c := .ofTokens us)
    (hrest.symm ▸ hp.mono (Nat.le_max_left n m))
  obtain ⟨b, c', hb, rfl⟩ := Parser.program_complete (c := .ofTokens us)
    (hrest.symm ▸ hq.mono (Nat.le_max_right n m))
  rw [(ha.unique hb).1]

theorem parse_of_accepts {tokens : List Token} {p : Program Location} {c : Cursor}
    (h : Parser.Accepts (Parser.program maxNesting) (.ofTokens tokens) p c) :
    parse tokens = ⟨p, []⟩ := by
  unfold parse
  rw [h]
  rfl

/-- **What the grammar derives is parsed.** If the tokens that count derive `p` with no more than
`maxNesting` statements and expressions open at once, nothing is reported and the program is `p`
but for its places; no other tree has these tokens. -/
theorem parse_complete (tokens : List Token) {p : Program Unit}
    (h : CompilationUnit maxNesting (tokens.filter (·.kind.isKept)) p) :
    (parse tokens).diagnostics = [] ∧ (parse tokens).program.erase = p ∧
      ∀ m q, CompilationUnit m (tokens.filter (·.kind.isKept)) q → q = p := by
  obtain ⟨a, c, haccepts, rfl⟩ := Parser.program_complete (c := .ofTokens tokens) h
  rw [parse_of_accepts haccepts]
  refine ⟨rfl, rfl, fun m q hq => hq.unique (fun t ht => ?_) h⟩
  exact (List.mem_filter.mp ht).2

/-- The `else` goes with the second `if`, and with no other. -/
theorem parse_complete_nested_if :
    let token (kind : Token.Kind) (text : String) : Token := ⟨kind, text, none, ⟨⟨0, 0⟩, 1⟩⟩
    let mark (m : Punctuation) := token (.punctuation m) ""
    let word (w : Keyword) := token (.keyword w) ""
    let name := token .identifier
    let tokens := [word (.declaration .classKw), name "A", mark .lbrace, word (.primitive .void),
      name "m", mark .lparen, mark .rparen, mark .lbrace, word (.control .ifKw), mark .lparen,
      name "a", mark .rparen, word (.control .ifKw), mark .lparen, name "b", mark .rparen, name "c",
      mark .semicolon, word (.control .elseKw), name "d", mark .semicolon, mark .rbrace,
      mark .rbrace]
    let inner : Stmt Unit := .ifElse () (.ident () "b") (.expr () (.ident () "c"))
      (.expr () (.ident () "d"))
    let p : Program Unit := ⟨none, [], some ⟨(), .ofList [], "A",
      [.method () (.ofList []) .void "m" [] [.ifThen () (.ident () "a") inner]]⟩⟩
    CompilationUnit maxNesting (tokens.filter (·.kind.isKept)) p ∧
      (parse tokens).diagnostics = [] ∧ (parse tokens).program.erase = p ∧
      ∀ m q, CompilationUnit m (tokens.filter (·.kind.isKept)) q → q = p := by
  intro token mark word name tokens inner p
  have operand (x : String) (n : Nat) : Expression (n + 1) [name x] (.ident () x) :=
    (Postfix.of_primary (.ident rfl)).expression
  have test (x : String) (n : Nat) : Condition (Expression (n + 1))
      [mark .lparen, name x, mark .rparen] (.ident () x) :=
    .mk rfl (operand x n) rfl
  have effect (x : String) (n : Nat) :
      Statement (n + 2) [name x, mark .semicolon] (.expr () (.ident () x)) :=
    StatementForm.expr (.plain (operand x n)) rfl
  have hinner : Statement 3 _ inner :=
    StatementForm.ifElse (t := word (.control .ifKw)) (o := word (.control .elseKw)) rfl
      (test "b" 1) (effect "c" 0) rfl rfl (effect "d" 0)
  have houter : Statement 4 _ (.ifThen () (.ident () "a") inner) :=
    StatementForm.ifThen (t := word (.control .ifKw)) rfl (test "a" 2) hinner
  have hmodifiers (allowed : Modifier → Bool) : Modifiers allowed [] (.ofList []) :=
    .mk rfl .nil (by simp)
  have hmethod := MemberDecl.method (t := word (.primitive .void)) (x := name "m")
    (hmodifiers _) rfl rfl (.empty (l := mark .lparen) (r := mark .rparen) rfl rfl)
    (.mk (l := mark .lbrace) (r := mark .rbrace) rfl (.cons houter .nil) rfl)
  have hclass := ClassDeclaration.mk (t := word (.declaration .classKw)) (x := name "A")
    (l := mark .lbrace) (r := mark .rbrace) (hmodifiers _) rfl rfl rfl (.cons hmethod .nil) rfl
  have hunit : CompilationUnit 4 (tokens.filter (·.kind.isKept)) p := .mk .none .nil hclass
  have hderived := hunit.mono (m := maxNesting) (by decide)
  exact ⟨hderived, parse_complete tokens hderived⟩

end JavaSubset
