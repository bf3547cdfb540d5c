import JavaSubset.Proofs.Completeness
import JavaSubset.Proofs.FirstReport
import JavaSubset.Proofs.Frames
import JavaSubset.Proofs.Termination

/-!
# The limit on nesting

A phrase of a compilation unit, derived without a limit, either stays within the limit or has a
first entry that is one too many, and there the parser gives up (`Overflows`). So the limit is the
only reason to reject what the grammar derives. Each production is treated part by part from the
left: a part that stays within the limit is accepted, and the first one that does not decides what
is raised first.

* `many_fits`, `separated_fits`, `bodyOf_fits` : lists;
* `expression_fits`, `statement_fits`, `program_fits` : phrases;
* `parse_nesting` : whole sources.
-/

namespace JavaSubset

open Cursor Grammar

namespace Parser

variable {α β : Type} {limit n m : Nat} {before after us vs : List Token} {c c' d : Cursor}
  {p : Parser α} {demand : Demand}

/-! ## The first entry too many -/

/-- Among the tokens `us`, between `before` and `after`, an entry is opened that is one too many,
the first one, and there `p` gives up. -/
def Overflows (limit : Nat) (before after : List Token) (p : Parser α) (c : Cursor)
    (us : List Token) : Prop :=
  ∃ (entry : Entry) (m : Nat) (ls : List Token) (t : Token) (es rs : List Token),
    us = ls ++ t :: es ++ rs ∧ Frame limit (.entry entry) 0 (before ++ ls) (rs ++ after) ∧
      entry.Derives m (t :: es) ∧ First p c (.nestingTooDeep t)

/-- A part that overflows, in a whole that raises first what the part does. -/
theorem Overflows.lift {q : Parser β} {before' after' : List Token} (left right : List Token)
    (h : Overflows limit before' after' p c us)
    (hsplit : before' = before ++ left ∧ after' = right ++ after ∧ vs = left ++ us ++ right)
    (hfirst : ∀ {e}, First p c e → First q d e) : Overflows limit before after q d vs := by
  obtain ⟨entry, m, ls, t, es, rs, rfl, hframe, hentry, hraised⟩ := h
  obtain ⟨rfl, rfl, rfl⟩ := hsplit
  refine ⟨entry, m, left ++ ls, t, es, rs ++ right, by simp, ?_, hentry, hfirst hraised⟩
  rwa [← List.append_assoc, List.append_assoc rs]

theorem Overflows.here {entry : Entry} (hframe : Frame limit (.entry entry) 0 before after)
    (hentry : entry.Derives m us) (hread : Reads c us c') (hus : us ≠ []) :
    Overflows limit before after (tooDeep : Parser α) c us := by
  cases us with
  | nil => exact absurd rfl hus
  | cons t us =>
    refine ⟨entry, m, [], t, us, [], by simp, by simpa using hframe, hentry, ?_⟩
    rw [first_tooDeep, hread.of_cons.1]

theorem Overflows.ne_nil (h : Overflows limit before after p c us) : us ≠ [] := by
  obtain ⟨entry, m, ls, t, es, rs, rfl, -⟩ := h
  simp

/-! ## Lists -/

section Lists

variable {L L' : Phrase β} {f : α → β} {next : β → Token.Kind → Prop} {starts : Token.Kind → Bool}
  {bs : List β}

theorem starts_of_repeated (leads : ∀ {us b}, L' us b → Leads starts us) (h : Repeated L' us bs)
    (hread : Reads c us c') (hne : us ≠ []) : starts c.peek.kind = true := by
  cases h with
  | nil => exact absurd rfl hne
  | cons first more => exact peek_of_leads ((leads first).append _) hread

/-- The rounds of a loop: `L'` derives its items, and those in `L` stay within the limit. `Left`
says what stands before an item. -/
theorem many_fits {step : Parser (Option α)} (Left : List Token → Prop)
    (item : ∀ {ls us rs b bs c c'}, Left ls → L' us b → Repeated L' rs bs → Reads c us c' →
      L us b ∨ Overflows limit (before ++ ls) (rs ++ after) step c us)
    (accepts : ∀ {us b c c'}, L us b → Reads c us c' → starts c'.peek.kind = true →
      ∃ a, Accepts step c (some a) c')
    (grow : ∀ {ls us b}, Left ls → L us b → Left (ls ++ us))
    (leads : ∀ {us b}, L' us b → Leads starts us) {ls : List Token} (hleft : Left ls)
    (h : Repeated L' us bs) (hread : Reads c us c') :
    Repeated L us bs ∨ Overflows limit (before ++ ls) after (many step) c us := by
  induction h generalizing ls c with
  | nil => exact .inl .nil
  | @cons us vs b bs first more ih =>
    obtain ⟨c₁, hread₁, hread₂⟩ := hread.split
    rcases item hleft first more hread₁ with hfits | hover
    · rcases ih (grow hleft hfits) hread₂ with hmore | hover
      · exact .inl (.cons hfits hmore)
      · -- an item that overflows stands behind this one, which is accepted
        have hnext := starts_of_repeated leads more hread₂ hover.ne_nil
        obtain ⟨a, haccepts⟩ := accepts hfits hread₁ hnext
        refine .inr (hover.lift us [] (by simp) fun hfirst => first_many.mpr (.inr ?_))
        exact ⟨a, c₁, haccepts, progress_of_leads (leads first) hread₁, hfirst⟩
    · exact .inr (hover.lift [] vs (by simp) fun hfirst => first_many.mpr (.inl hfirst))

variable (before after : List Token) (item : ∀ {ls us rs b bs c c'}, Preceding L ls → L' us b →
    Repeated (After .comma L') rs bs → Reads c us c' →
    L us b ∨ Overflows limit (before ++ ls) (rs ++ after) p c us)
  (complete : Complete p f L next) (again : ∀ b, next b (.punctuation .comma))

include item complete again

/-- More items, each behind a comma. -/
theorem manyAfter_fits {ls : List Token} {as : List β} (hleft : Separated L ls as)
    (h : Repeated (After .comma L') us bs) (hread : Reads c us c') :
    Repeated (After .comma L) us bs ∨ Overflows limit (before ++ ls) after
      (many do if ← accept (.punctuation .comma) then return some (← p) else return none) c us := by
  refine many_fits (fun ls => ∃ as, Separated L ls as) ?_ ?_ ?_ After.leads ⟨as, hleft⟩ h hread
  · rintro ls _ rs b bs c c' ⟨as, hleft⟩ ⟨separator, given⟩ hright hread
    obtain ⟨rfl, hrest⟩ := hread.of_cons
    rcases item (.next hleft separator) given hright hrest with hfits | hover
    · exact .inl (.mk separator hfits)
    · refine .inr (hover.lift [c.peek] [] (by simp) fun hfirst => ?_)
      rw [first_accept_bind, if_pos separator]
      exact hfirst.bind
  · rintro _ b c c' ⟨separator, given⟩ hread hnext
    obtain ⟨rfl, hrest⟩ := hread.of_cons
    obtain ⟨a, ha, -⟩ := complete given hrest (of_decide_eq_true hnext ▸ again b)
    refine ⟨a, ?_⟩
    simp only [accepts_accept_bind, separator, ↓reduceIte]
    exact ha.bind (accepts_pure.mpr ⟨rfl, rfl⟩)
  · rintro ls us b ⟨as, hleft⟩ hitem
    exact ⟨_, hleft.snoc hitem⟩

theorem separated_fits (h : Separated L' us bs) (hread : Reads c us c') :
    Separated L us bs ∨ Overflows limit before after (separated p) c us := by
  obtain ⟨first, more⟩ := h
  rename_i us vs b bs
  obtain ⟨c₁, hread₁, hread₂⟩ := hread.split
  rcases item .first first more hread₁ with hfits | hover
  · have hleft : Separated L us [b] := by simpa using Separated.mk hfits .nil
    rcases manyAfter_fits before after item complete again hleft more hread₂ with hmore | hover
    · exact .inl (.mk hfits hmore)
    · have hcomma : c₁.peek.kind = .punctuation .comma :=
        of_decide_eq_true (starts_of_repeated After.leads more hread₂ hover.ne_nil)
      obtain ⟨a, ha, -⟩ := complete hfits hread₁ (hcomma ▸ again b)
      exact .inr (hover.lift us [] (by simp) fun hfirst => ha.first_bind hfirst.bind)
  · exact .inr (hover.lift [] vs (by simp) fun hfirst => hfirst.bind)

end Lists

section Bodies

variable {L L' : Phrase β} {f : α → β} {next : β → Token.Kind → Prop} {starts : Token.Kind → Bool}
  {bs : List β}

theorem bodyOf_fits (point : SyncPoint)
    (item : ∀ {ls us rs as b bs c c'}, Repeated L ls as → L' us b → Repeated L' rs bs →
      Reads c us c' → L us b ∨ Overflows limit (before ++ ls) (rs ++ after) p c us)
    (complete : Complete p f L next) (leads : ∀ {us b}, L' us b → Leads starts us)
    (again : ∀ b k, starts k = true → next b k) (closes : starts (.punctuation .rbrace) = false)
    (h : Repeated L' us bs) (hread : Reads c us c') :
    Repeated L us bs ∨ Overflows limit before after (bodyOf point p) c us := by
  have hopens : ∀ {us b c c'}, L' us b → Reads c us c' →
      c.rest ≠ [] ∧ c.peek.kind ≠ .punctuation .rbrace := by
    intro us b c c' hitem hread
    have hstarts := peek_of_leads (leads hitem) hread
    refine ⟨?_, fun hk => ?_⟩
    · intro hnil
      have hlt := progress_of_leads (leads hitem) hread
      simp [hnil] at hlt
    · rw [hk, closes] at hstarts
      cases hstarts
  have hmany : Repeated (fun us b => L us b ∧ L' us b) us bs ∨
      Overflows limit (before ++ []) after (many (bodyItem point p)) c us := by
    refine many_fits (fun ls => ∃ as, Repeated L ls as) ?_ ?_ ?_ leads ⟨[], .nil⟩ h hread
    · rintro ls us rs b bs c c' ⟨as, hleft⟩ hitem hright hread
      rcases item hleft hitem hright hread with hfits | hover
      · exact .inl ⟨hfits, hitem⟩
      · obtain ⟨hrest, hne⟩ := hopens hitem hread
        refine .inr (hover.lift [] [] (by simp) fun hfirst => ?_)
        exact first_bodyItem.mpr ⟨hrest, hne, hfirst⟩
    · rintro us b c c' ⟨hitem, hitem'⟩ hread hnext
      obtain ⟨a, ha, -⟩ := complete hitem hread (again b _ hnext)
      obtain ⟨hrest, hne⟩ := hopens hitem' hread
      have hend : c.atEnd = false := by simpa [Cursor.atEnd] using hrest
      refine ⟨some a, ?_⟩
      simp [bodyItem, hend, hne, ha]
    · rintro ls us b ⟨as, hleft⟩ ⟨hitem, -⟩
      exact ⟨_, hleft.snoc hitem⟩
  rcases hmany with hfits | hover
  · exact .inl (hfits.mono And.left)
  · exact .inr (hover.lift [] [] (by simp) first_bodyOf.mpr)

end Bodies

/-! ## Expressions -/

section Expressions

variable {e : Expr Unit}
  (hexpr : ∀ {us e c c' before after}, Expression m us e →
    Frame limit (.entry .expression) n before after → Reads c us c' →
    Expression n us e ∨ Overflows limit before after (expression n) c us)

include hexpr

theorem arguments_fits {args : List (Expr Unit)} (demand : Demand)
    (hd : demand.expected = .token (.punctuation .lparen)) (h : Enclosed (Expression m) us args)
    (hframe : Frame limit .arguments n before after) (hread : Reads c us c') :
    Enclosed (Expression n) us args ∨
      Overflows limit before after (arguments (expression n) demand) c us := by
  cases h with
  | empty opening closing => exact .inl (.empty opening closing)
  | list opening items closing =>
    obtain ⟨rfl, hrest⟩ := hread.of_cons
    obtain ⟨c₁, hitems, rfl, rfl⟩ := hrest.of_snoc
    have hfirst : c.advance.peek.kind ≠ .punctuation .rparen := by
      obtain ⟨first, more⟩ := items
      intro hk
      have hstarts := peek_of_leads (first.leads.append _) hitems
      rw [hk] at hstarts
      cases hstarts
    rcases separated_fits (before ++ [c.peek]) (c₁.peek :: after)
      (fun hleft hitem hright hread => by
        simpa using hexpr hitem (.argument hframe opening hleft hright closing) hread)
      (expression_complete n) (fun _ => rfl) items hitems with hfits | hover
    · exact .inl (.list opening hfits closing)
    · refine .inr (hover.lift [c.peek] [c₁.peek] (by simp) fun hraised => ?_)
      refine first_expect_kind hd opening ?_
      simp only [first_sees_bind, hfirst, decide_false, Bool.false_eq_true, ↓reduceIte]
      exact hraised.bind

theorem primary_fits (h : Primary (Expression m) us e)
    (hframe : Frame limit .primary n before after) (hread : Reads c us c') :
    Primary (Expression n) us e ∨
      Overflows limit before after (primary (expression n)) c us := by
  cases h with
  | ident name => exact .inl (.ident name)
  | number literal => exact .inl (.number literal)
  | string literal => exact .inl (.string literal)
  | this word => exact .inl (.this word)
  | call name arguments =>
    obtain ⟨rfl, hrest⟩ := hread.of_cons
    have hopen : c.advance.peek.kind = .punctuation .lparen :=
      of_decide_eq_true (peek_of_leads arguments.leads hrest)
    rcases arguments_fits hexpr .methodArguments rfl arguments (.call hframe name) hrest
      with hfits | hover
    · exact .inl (.call name hfits)
    · refine .inr (hover.lift [c.peek] [] (by simp) fun hraised => ?_)
      rw [primary, first_located, first_peekKind_bind, name]
      simp only [first_advance_bind, first_sees_bind, hopen, decide_true, ↓reduceIte]
      exact hraised.bind
  | superCall word dot name arguments =>
    obtain ⟨rfl, hread₁⟩ := hread.of_cons
    obtain ⟨rfl, hread₂⟩ := hread₁.of_cons
    obtain ⟨rfl, hrest⟩ := hread₂.of_cons
    rcases arguments_fits hexpr .superArguments rfl arguments
      (.superCall hframe word dot name) hrest with hfits | hover
    · exact .inl (.superCall word dot name hfits)
    · refine .inr (hover.lift [c.peek, c.advance.peek, c.advance.advance.peek] [] (by simp)
        fun hraised => ?_)
      rw [primary, first_located, first_peekKind_bind, word]
      exact first_expect_kind rfl dot (first_name_identifier rfl name hraised.bind)
  | new word name arguments =>
    obtain ⟨rfl, hread₁⟩ := hread.of_cons
    obtain ⟨rfl, hrest⟩ := hread₁.of_cons
    rcases arguments_fits hexpr .newArguments rfl arguments (.new hframe word name) hrest
      with hfits | hover
    · exact .inl (.new word name hfits)
    · refine .inr (hover.lift [c.peek, c.advance.peek] [] (by simp) fun hraised => ?_)
      rw [primary, first_located, first_peekKind_bind, word]
      exact first_name_identifier rfl name hraised.bind
  | group opening inner closing =>
    obtain ⟨rfl, hrest⟩ := hread.of_cons
    obtain ⟨c₁, hinner, rfl, rfl⟩ := hrest.of_snoc
    rcases hexpr inner (.group hframe opening closing) hinner with hfits | hover
    · exact .inl (.group opening hfits closing)
    · refine .inr (hover.lift [c.peek] [c₁.peek] (by simp) fun hraised => ?_)
      rw [primary, first_located, first_peekKind_bind, opening]
      exact hraised.bind

theorem selection_fits (h : Postfix (Expression m) us e)
    (hframe : Frame limit .selection n before after) (hread : Reads c us c') :
    Postfix (Expression n) us e ∨
      Overflows limit before after (selection (expression n)) c us := by
  obtain ⟨head, selections⟩ := h
  rename_i us vs e fs
  obtain ⟨c₁, hread₁, hread₂⟩ := hread.split
  have hdot : ∀ k : Token.Kind, decide (k = .punctuation .dot) = true →
      k ≠ .punctuation .lparen := by
    intro k hk
    rw [of_decide_eq_true hk]
    decide
  rcases primary_fits hexpr head (.head hframe selections) hread₁ with hfits | hover
  · have hmany : Repeated (Selection (Expression n)) vs fs ∨
        Overflows limit (before ++ us) after (many (selector (expression n) c.peek)) c₁ vs := by
      refine many_fits (fun ls => ∃ e, Postfix (Expression n) ls e) ?_
        (fun hsel hread hnext => (selector_complete (expression_complete n) Expression.leads hsel
          hread (hdot _ hnext)).imp fun _ h => h.1) ?_ Selection.leads ⟨e, .of_primary hfits⟩
        selections hread₂
      · rintro ls us rs f fs c c' ⟨e, hleft⟩ hsel hright hread
        cases hsel with
        | field dot name => exact .inl (.field dot name)
        | invoke dot name arguments =>
          obtain ⟨rfl, hread₁⟩ := hread.of_cons
          obtain ⟨rfl, hrest⟩ := hread₁.of_cons
          have hopen : c.advance.advance.peek.kind = .punctuation .lparen :=
            of_decide_eq_true (peek_of_leads arguments.leads hrest)
          rcases arguments_fits hexpr .methodArguments rfl arguments
            (.selected hframe hleft dot name hright) hrest with hargs | hover
          · exact .inl (.invoke dot name hargs)
          · refine .inr (hover.lift [c.peek, c.advance.peek] [] (by simp) fun hraised => ?_)
            simp only [selector, first_accept_bind, dot, ↓reduceIte]
            refine first_name_identifier rfl name ?_
            simp only [first_sees_bind, hopen, decide_true, ↓reduceIte]
            exact hraised.bind
      · rintro ls us f ⟨_, head, selections⟩ hsel
        rw [List.append_assoc]
        exact ⟨_, .mk head (selections.snoc hsel)⟩
    rcases hmany with hsels | hover
    · exact .inl (.mk hfits hsels)
    · have hnext := hdot _ (starts_of_repeated Selection.leads selections hread₂ hover.ne_nil)
      obtain ⟨target, htarget, -⟩ :=
        primary_complete (expression_complete n) Expression.leads hfits hread₁ hnext
      refine .inr (hover.lift us [] (by simp) fun hraised => ?_)
      rw [selection, first_peek_bind]
      exact htarget.first_bind hraised.bind
  · refine .inr (hover.lift [] vs (by simp) fun hraised => ?_)
    rw [selection, first_peek_bind]
    exact hraised.bind

theorem unary_fits (h : Unary (Expression m) us e) (hframe : Frame limit .unary n before after)
    (hread : Reads c us c') :
    Unary (Expression n) us e ∨ Overflows limit before after (unary (expression n)) c us := by
  cases h with
  | plain operand =>
    rcases selection_fits hexpr operand (.bare hframe) hread with hfits | hover
    · exact .inl (.plain hfits)
    · have hsign := sign?_of_startsOperand (peek_of_leads operand.leads hread)
      refine .inr (hover.lift [] [] (by simp) fun hraised => ?_)
      rw [unary, first_peekKind_bind, hsign]
      exact hraised
  | plus sign operand =>
    obtain ⟨rfl, hrest⟩ := hread.of_cons
    rcases selection_fits hexpr operand (.signed hframe (.inl sign)) hrest with hfits | hover
    · exact .inl (.plus sign hfits)
    · refine .inr (hover.lift [c.peek] [] (by simp) fun hraised => ?_)
      rw [unary, first_peekKind_bind, sign]
      exact first_located.mpr hraised.bind
  | minus sign operand =>
    obtain ⟨rfl, hrest⟩ := hread.of_cons
    rcases selection_fits hexpr operand (.signed hframe (.inr sign)) hrest with hfits | hover
    · exact .inl (.minus sign hfits)
    · refine .inr (hover.lift [c.peek] [] (by simp) fun hraised => ?_)
      rw [unary, first_peekKind_bind, sign]
      exact first_located.mpr hraised.bind

omit hexpr in
/-- Operands with the operators of one tier between them; they may be as many as they like. -/
theorem chain_fits (tier : Tier) {bound : Nat} (hbound : tier.precedence < bound)
    (hoperand : ∀ {us e c c' before after}, Operand (Expression m) tier us e →
      Frame limit (.operand tier) n before after → Reads c us c' →
      Operand (Expression n) tier us e ∨
        Overflows limit before after (operandOf (expression n) tier) c us)
    (complete : Complete (operandOf (expression n) tier) Expr.erase (Operand (Expression n) tier)
      (fun _ k => k.endsOperand bound)) (h : Chain tier (Operand (Expression m) tier) us e)
    (hframe : Frame limit (.chain tier) n before after) (hread : Reads c us c') :
    Chain tier (Operand (Expression n) tier) us e ∨
      Overflows limit before after (chain tier (operandOf (expression n) tier)) c us := by
  obtain ⟨first, more⟩ := h
  rename_i us vs e links
  obtain ⟨c₁, hread₁, hread₂⟩ := hread.split
  have hleads : ∀ {us link}, Link tier (Operand (Expression m) tier) us link →
      Leads (fun k => (tierOp? tier k).isSome) us := by
    rintro _ _ ⟨operator, level, right⟩
    exact leads_cons operator (by simp [tierOp?, level]) _
  have hagain : ∀ k, (tierOp? tier k).isSome = true → k.endsOperand bound = true := by
    intro k hk
    obtain ⟨op, hop⟩ := Option.isSome_iff_exists.mp hk
    obtain ⟨rfl, rfl⟩ := tierOp?_eq_some.mp hop
    simpa [Token.Kind.endsOperand] using hbound
  rcases hoperand first (.operand hframe more) hread₁ with hfits | hover
  · have hmany : Repeated (Link tier (Operand (Expression n) tier)) vs links ∨
        Overflows limit (before ++ us) after (many (link tier (operandOf (expression n) tier)))
          c₁ vs := by
      refine many_fits (fun ls => ∃ e, Chain tier (Operand (Expression n) tier) ls e) ?_
        (fun hlink hread hnext =>
          (link_complete complete hlink hread (hagain _ hnext)).imp fun _ h => h.1) ?_ hleads
        ⟨e, .single hfits⟩ more hread₂
      · rintro ls _ rs _ links c c' ⟨e, hleft⟩ ⟨operator, level, right⟩ hright hread
        obtain ⟨rfl, hrest⟩ := hread.of_cons
        rcases hoperand right (.linked hframe hleft operator level hright) hrest
          with hfits | hover
        · exact .inl (.mk operator level hfits)
        · refine .inr (hover.lift [c.peek] [] (by simp) fun hraised => ?_)
          rw [link, first_peekKind_bind, tierOp?_eq_some.mpr ⟨operator, level⟩]
          exact hraised.bind
      · rintro ls us link ⟨_, first, more⟩ hlink
        rw [List.append_assoc]
        exact ⟨_, .mk first (more.snoc hlink)⟩
    rcases hmany with hmore | hover
    · exact .inl (.mk hfits hmore)
    · have hnext := hagain _ (starts_of_repeated hleads more hread₂ hover.ne_nil)
      obtain ⟨e, haccepts, -⟩ := complete hfits hread₁ hnext
      exact .inr (hover.lift us [] (by simp) fun hraised => haccepts.first_bind hraised.bind)
  · exact .inr (hover.lift [] vs (by simp) fun hraised => hraised.bind)

end Expressions

theorem expression_fits : ∀ {n m : Nat} {us : List Token} {e : Expr Unit} {c c' : Cursor}
    {before after : List Token}, Expression m us e →
      Frame limit (.entry .expression) n before after → Reads c us c' →
      Expression n us e ∨ Overflows limit before after (expression n) c us
  | 0, _, us, e, _, _, _, _, h, hframe, hread => by
    refine .inr (.here hframe ⟨e, h⟩ hread ?_)
    obtain ⟨t, vs, rfl, -⟩ := h.leads
    exact List.cons_ne_nil _ _
  | _ + 1, 0, _, _, _, _, _, _, h, _, _ => h.elim
  | n + 1, m + 1, _, _, _, _, _, _, h, hframe, hread => by
    have hexpr := expression_complete n
    have hunary := unary_complete hexpr Expression.leads
    have hmultiplicative := chain_complete .multiplicative hunary (by decide)
    have hadditive := chain_complete .additive hmultiplicative (by decide)
    have hrelational := chain_complete .relational hadditive (by decide)
    exact chain_fits .logical (by decide)
      (chain_fits .relational (by decide)
        (chain_fits .additive (by decide)
          (chain_fits .multiplicative (by decide) (unary_fits expression_fits) hunary)
          hmultiplicative)
        hadditive)
      hrelational h (.operators hframe) hread

/-! ## Statements -/

section Declarators

variable {d : Declarator Unit} {ds : List (Declarator Unit)} {ls rs : List Token}

/-- A declared name, and behind it the value. -/
theorem initializer_fits (hframe : Frame limit .names n before after)
    (hleft : Preceding (Declaration (Expression n)) ls)
    (hright : Repeated (After .comma (Declaration (Expression m))) rs ds)
    (h : Declaration (Expression m) us d) (hread : Reads c us c') :
    Declaration (Expression n) us d ∨
      c.peek.kind = .identifier ∧ c.advance.peek.kind = .operator (.assign .assign) ∧
        ∃ vs, us = c.peek :: vs ∧ Overflows limit (before ++ (ls ++ [c.peek])) (rs ++ after)
          (initializer (expression n)) c.advance vs := by
  cases h with
  | plain name => exact .inl (.plain name)
  | initialized name equals value =>
    obtain ⟨rfl, hread₁⟩ := hread.of_cons
    obtain ⟨rfl, hrest⟩ := hread₁.of_cons
    rcases expression_fits value (.initial hframe hleft name equals hright) hrest
      with hfits | hover
    · exact .inl (.initialized name equals hfits)
    · refine .inr ⟨name, equals, _, rfl, hover.lift [c.advance.peek] [] (by simp) fun hraised => ?_⟩
      rw [initializer, first_accept_bind, if_pos equals]
      exact hraised.bind

theorem declarator_fits (hd : demand.expected = .identifier)
    (hframe : Frame limit .names n before after)
    (hleft : Preceding (Declaration (Expression n)) ls) (h : Declaration (Expression m) us d)
    (hright : Repeated (After .comma (Declaration (Expression m))) rs ds)
    (hread : Reads c us c') :
    Declaration (Expression n) us d ∨ Overflows limit (before ++ ls) (rs ++ after)
      (declarator (expression n) demand) c us := by
  rcases initializer_fits hframe hleft hright h hread with hfits | ⟨name, -, vs, rfl, hover⟩
  · exact .inl hfits
  · refine .inr (hover.lift [c.peek] [] (by simp) fun hraised => ?_)
    exact first_name_identifier hd name hraised.bind

end Declarators

section Effects

variable {e : Expr Unit} {s : Token} {ls : List Token}

theorem accepts_checkTarget {value : Expr Location} {t : Token}
    (h : value.isAssignable = true) : Accepts (checkTarget value t) c () c := by
  simp [checkTarget, h]

/-- What a round of the loop over assignments raises first is raised by its value. -/
theorem first_assignment {expr : Parser (Expr Location)} {target : Expr Location} {op : AssignOp}
    {d : Diagnostic} (hop : c.peek.kind = .operator (.assign op))
    (htarget : target.isAssignable = true) (h : First expr c.advance d) :
    First (assignment expr target) c d := by
  rw [assignment, first_peekKind_bind, assignOp?_eq_some.mpr hop]
  exact (accepts_checkTarget htarget).first_bind h.bind

/-- The loop over assignments raises nothing unless there is one. -/
theorem assignOp_of_first {expr : Parser (Expr Location)} {value : Expr Location} {d : Diagnostic}
    (h : First (iterate (assignment expr) value) c d) :
    ∃ op, c.peek.kind = .operator (.assign op) := by
  cases hop : assignOp? c.peek.kind with
  | some op => exact ⟨op, assignOp?_eq_some.mp hop⟩
  | none =>
    have hround : Accepts (assignment expr value) c none c := by
      rw [assignment, accepts_peekKind_bind, hop]
      exact accepts_pure.mpr ⟨rfl, rfl⟩
    exact absurd (accepts_iterate_stop hround) h.not_accepts

/-- A chain of assignments: each value is behind the targets before it, but not inside them. -/
theorem assignment_fits (hframe : Frame limit (.entry .statement) (n + 1) before after)
    (hsemi : Mark .semicolon s) (h : Assignment m us e) (hleft : Targets n ls)
    (hread : Reads c us c') :
    Assignment n us e ∨ Overflows limit (before ++ ls) (s :: after)
      (expression n >>= fun value => iterate (assignment (expression n)) value) c us := by
  induction h generalizing ls c with
  | @last us vs t target value op left operator right =>
    obtain ⟨c₁, hread₁, hread₂⟩ := hread.split
    obtain ⟨rfl, hread₃⟩ := hread₂.of_cons
    rcases expression_fits left.expression (.target hframe hleft operator (.inl right) hsemi)
      hread₁ with hfits | hover
    · have htarget := target_of_expression hfits left.isAssignable
      obtain ⟨a, haccepts, rfl⟩ := expression_complete n hfits hread₁ (by rw [operator]; rfl)
      have hassignable : a.isAssignable = true := by simpa using left.isAssignable
      rcases expression_fits right (.value hframe (.more hleft htarget operator) hsemi) hread₃
        with hvalue | hover
      · exact .inl (.last htarget operator hvalue)
      · refine .inr (hover.lift (us ++ [c₁.peek]) [] (by simp) fun hraised => ?_)
        refine haccepts.first_bind ?_
        exact first_iterate.mpr (.inl (first_assignment operator hassignable hraised))
    · exact .inr (hover.lift [] (c₁.peek :: vs) (by simp) fun hraised => hraised.bind)
  | @more us vs t target value op left operator right ih =>
    obtain ⟨c₁, hread₁, hread₂⟩ := hread.split
    obtain ⟨rfl, hread₃⟩ := hread₂.of_cons
    rcases expression_fits left.expression (.target hframe hleft operator (.inr right) hsemi)
      hread₁ with hfits | hover
    · have htarget := target_of_expression hfits left.isAssignable
      obtain ⟨a, haccepts, rfl⟩ := expression_complete n hfits hread₁ (by rw [operator]; rfl)
      have hassignable : a.isAssignable = true := by simpa using left.isAssignable
      rcases ih (.more hleft htarget operator) hread₃ with hvalue | hover
      · exact .inl (.more htarget operator hvalue)
      · refine .inr (hover.lift (us ++ [c₁.peek]) [] (by simp) fun hraised => ?_)
        refine haccepts.first_bind ?_
        rcases first_bind.mp hraised with hraised | ⟨value, c₂, hvalue, hraised⟩
        · exact first_iterate.mpr (.inl (first_assignment operator hassignable hraised))
        · have hround := assignment_complete operator hassignable hvalue
          obtain ⟨ws, hread₄, -⟩ := expression_sound n hvalue
          have hprogress := ((reads_kind operator rfl).trans hread₄).progress
          exact first_iterate.mpr (.inr ⟨_, value, c₂, hround, hprogress, hraised⟩)
    · exact .inr (hover.lift [] (c₁.peek :: vs) (by simp) fun hraised => hraised.bind)

theorem effect_fits (hframe : Frame limit (.entry .statement) (n + 1) before after)
    (hsemi : Mark .semicolon s) (h : ExprStatement m us e) (hread : Reads c us c') :
    ExprStatement n us e ∨
      Overflows limit before (s :: after) (effect (expression n)) c us := by
  cases h with
  | assignment given =>
    have hstep := step?_of_startsExpr (peek_of_leads given.leads hread)
    rcases assignment_fits hframe hsemi given .none hread with hfits | hover
    · exact .inl (.assignment hfits)
    · refine .inr (hover.lift [] [] (by simp) fun hraised => ?_)
      rw [effect, first_peek_bind, hstep]
      rcases first_bind.mp hraised with hraised | ⟨value, c₁, hvalue, hraised⟩
      · exact hraised.bind
      · obtain ⟨op, hop⟩ := assignOp_of_first hraised
        refine hvalue.first_bind ?_
        rw [first_peekKind_bind, hop]
        exact first_map_reply.mpr hraised
  | preStep operator target assignable =>
    obtain ⟨rfl, hrest⟩ := hread.of_cons
    rcases selection_fits expression_fits target (.preStep hframe operator hsemi) hrest
      with hfits | hover
    · exact .inl (.preStep operator hfits assignable)
    · refine .inr (hover.lift [c.peek] [] (by simp) fun hraised => ?_)
      rw [effect, first_peek_bind, step?_eq_some.mpr operator]
      exact hraised.bind
  | postStep target operator =>
    obtain ⟨c₁, hread₁, rfl, rfl⟩ := hread.of_snoc
    have hstep := step?_of_startsExpr (peek_of_leads target.expression.leads hread₁)
    rcases expression_fits target.expression (.stepped hframe operator hsemi) hread₁
      with hfits | hover
    · exact .inl (.postStep (target_of_expression hfits target.isAssignable) operator)
    · refine .inr (hover.lift [] [c₁.peek] (by simp) fun hraised => ?_)
      rw [effect, first_peek_bind, hstep]
      exact hraised.bind
  | plain given =>
    have hstep := step?_of_startsExpr (peek_of_leads given.leads hread)
    rcases expression_fits given (.value hframe .none hsemi) hread with hfits | hover
    · exact .inl (.plain hfits)
    · refine .inr (hover.lift [] [] (by simp) fun hraised => ?_)
      rw [effect, first_peek_bind, hstep]
      exact hraised.bind

end Effects

section Blocks

variable {e : Expr Unit}

theorem condition_fits (word : ControlWord) (h : Condition (Expression m) us e)
    (hframe : Frame limit .condition n before after) (hread : Reads c us c') :
    Condition (Expression n) us e ∨
      Overflows limit before after (condition (expression n) word) c us := by
  obtain ⟨opening, test, closing⟩ := h
  obtain ⟨rfl, hrest⟩ := hread.of_cons
  obtain ⟨c₁, htest, rfl, rfl⟩ := hrest.of_snoc
  rcases expression_fits test (.test hframe opening closing) htest with hfits | hover
  · exact .inl (.mk opening hfits closing)
  · refine .inr (hover.lift [c.peek] [c₁.peek] (by simp) fun hraised => ?_)
    exact first_expect_kind rfl opening hraised.bind

variable {s : Stmt Unit}
  (hstmt : ∀ {us s c c' before after}, Statement m us s →
    Frame limit (.entry .statement) n before after → Reads c us c' →
    Statement n us s ∨ Overflows limit before after (statement n) c us)

include hstmt

theorem block_fits {body : List (Stmt Unit)} (demand : Demand)
    (hd : demand.expected = .token (.punctuation .lbrace)) (h : Block (Statement m) us body)
    (hframe : Frame limit .block n before after) (hread : Reads c us c') :
    Block (Statement n) us body ∨
      Overflows limit before after (block (statement n) demand) c us := by
  obtain ⟨opening, statements, closing⟩ := h
  rename_i us
  obtain ⟨rfl, hrest⟩ := hread.of_cons
  obtain ⟨c₁, hbody, rfl, rfl⟩ := hrest.of_snoc
  have hitems : Repeated (Statement n) us body ∨
      Overflows limit (before ++ [c.peek]) (c₁.peek :: after)
        (bodyOf .statement (statement n)) c.advance us := by
    refine bodyOf_fits .statement (fun hleft hitem hright hread => ?_) (statement_complete n)
      Statement.leads (fun _ _ => endsStatement_of_startsStatement) rfl statements hbody
    simpa using hstmt hitem (.item hframe opening hleft hright closing) hread
  rcases hitems with hfits | hover
  · exact .inl (.mk opening hfits closing)
  · refine .inr (hover.lift [c.peek] [c₁.peek] (by simp) fun hraised => ?_)
    exact first_expect_kind hd opening hraised.bind

variable (hframe : Frame limit (.entry .statement) (n + 1) before after)

include hframe

theorem ifThen_fits {t : Token} (word : Word (.control .ifKw) t)
    (test : Condition (Expression m) us e) (body : Statement m vs s)
    (hread : Reads c (t :: us ++ vs) c') :
    StatementForm n (Statement n) (t :: us ++ vs) (.ifThen () e s) ∨
      Overflows limit before after (ifStatement (statement n) (expression n)) c
        (t :: us ++ vs) := by
  obtain ⟨rfl, hrest⟩ := hread.of_cons
  obtain ⟨c₁, hread₁, hread₂⟩ := hrest.split
  rcases condition_fits .ifKw test (.ifTest hframe word body .none) hread₁ with htest | hover
  · rcases hstmt body (.ifBody hframe word htest (m := m) .none) hread₂ with hbody | hover
    · exact .inl (.ifThen word htest hbody)
    · obtain ⟨e, haccepts, -⟩ := condition_complete (expression_complete n) .ifKw htest hread₁
        trivial
      refine .inr (hover.lift (c.peek :: us) [] (by simp) fun hraised => ?_)
      exact haccepts.first_bind hraised.bind
  · exact .inr (hover.lift [c.peek] vs (by simp) fun hraised => hraised.bind)

theorem ifElse_fits {t o : Token} {ws : List Token} {s' : Stmt Unit}
    (word : Word (.control .ifKw) t) (test : Condition (Expression m) us e)
    (body : Statement m vs s) (nearest : s.endsOpen = false) (other : Word (.control .elseKw) o)
    (body' : Statement m ws s') (hread : Reads c (t :: us ++ vs ++ o :: ws) c') :
    StatementForm n (Statement n) (t :: us ++ vs ++ o :: ws) (.ifElse () e s s') ∨
      Overflows limit before after (ifStatement (statement n) (expression n)) c
        (t :: us ++ vs ++ o :: ws) := by
  rw [List.cons_append, List.cons_append, List.append_assoc] at hread
  obtain ⟨rfl, hrest⟩ := hread.of_cons
  obtain ⟨c₁, hread₁, hrest₁⟩ := hrest.split
  obtain ⟨c₂, hread₂, hrest₂⟩ := hrest₁.split
  obtain ⟨rfl, hread₃⟩ := hrest₂.of_cons
  have hother : Optional (Behind (.control .elseKw) (Statement m)) (c₂.peek :: ws) (some s') :=
    .some (.mk other body')
  rcases condition_fits .ifKw test (.ifTest hframe word body hother) hread₁ with htest | hover
  · obtain ⟨_, htest', -⟩ := condition_complete (expression_complete n) .ifKw htest hread₁ trivial
    rcases hstmt body (.ifBody hframe word htest hother) hread₂ with hbody | hover
    · have hnext : EndsStatement s c₂.peek.kind := by
        rw [other]
        exact ⟨by simp [nearest], by decide, by decide⟩
      obtain ⟨_, hbody', -⟩ := statement_complete n hbody hread₂ hnext
      rcases hstmt body' (.elseBody hframe word htest hbody nearest other) hread₃
        with hlast | hover
      · exact .inl (.ifElse word htest hbody nearest other hlast)
      · refine .inr (hover.lift (c.peek :: us ++ vs ++ [c₂.peek]) [] (by simp) fun hraised => ?_)
        refine htest'.first_bind (hbody'.first_bind ?_)
        rw [first_accept_bind, if_pos other]
        exact hraised.bind
    · exact .inr (hover.lift (c.peek :: us) (c₂.peek :: ws) (by simp) fun hraised =>
        htest'.first_bind hraised.bind)
  · exact .inr (hover.lift [c.peek] (vs ++ c₂.peek :: ws) (by simp) fun hraised => hraised.bind)

theorem whileLoop_fits {t : Token} (word : Word (.control .whileKw) t)
    (test : Condition (Expression m) us e) (body : Statement m vs s)
    (hread : Reads c (t :: us ++ vs) c') :
    StatementForm n (Statement n) (t :: us ++ vs) (.whileLoop () e s) ∨
      Overflows limit before after (whileStatement (statement n) (expression n)) c
        (t :: us ++ vs) := by
  obtain ⟨rfl, hrest⟩ := hread.of_cons
  obtain ⟨c₁, hread₁, hread₂⟩ := hrest.split
  rcases condition_fits .whileKw test (.whileTest hframe word body) hread₁ with htest | hover
  · rcases hstmt body (.whileBody hframe word htest) hread₂ with hbody | hover
    · exact .inl (.whileLoop word htest hbody)
    · obtain ⟨_, haccepts, -⟩ := condition_complete (expression_complete n) .whileKw htest hread₁
        trivial
      refine .inr (hover.lift (c.peek :: us) [] (by simp) fun hraised => ?_)
      exact haccepts.first_bind hraised.bind
  · exact .inr (hover.lift [c.peek] vs (by simp) fun hraised => hraised.bind)

theorem doLoop_fits {t w m' : Token} (word : Word (.control .doKw) t) (body : Statement m us s)
    (loop : Word (.control .whileKw) w) (test : Condition (Expression m) vs e)
    (semicolon : Mark .semicolon m') (hread : Reads c (t :: us ++ w :: vs ++ [m']) c') :
    StatementForm n (Statement n) (t :: us ++ w :: vs ++ [m']) (.doLoop () s e) ∨
      Overflows limit before after (doStatement (statement n) (expression n)) c
        (t :: us ++ w :: vs ++ [m']) := by
  rw [List.cons_append, List.cons_append, List.append_assoc] at hread
  obtain ⟨rfl, hrest⟩ := hread.of_cons
  obtain ⟨c₁, hread₁, hrest₁⟩ := hrest.split
  obtain ⟨rfl, hrest₂⟩ := hrest₁.of_cons
  obtain ⟨c₂, hread₂, rfl, rfl⟩ := hrest₂.of_snoc
  rcases hstmt body (.doBody hframe word loop test semicolon) hread₁ with hbody | hover
  · have hnext : EndsStatement s c₁.peek.kind := by
      rw [loop]
      exact ⟨fun _ => by decide, by decide, by decide⟩
    obtain ⟨_, haccepts, -⟩ := statement_complete n hbody hread₁ hnext
    rcases condition_fits .whileKw test (.doTest hframe word hbody loop semicolon) hread₂
      with htest | hover
    · exact .inl (.doLoop word hbody loop htest semicolon)
    · refine .inr (hover.lift (c.peek :: us ++ [c₁.peek]) [c₂.peek] (by simp) fun hraised => ?_)
      exact haccepts.first_bind (first_expect_kind rfl loop hraised.bind)
  · refine .inr (hover.lift [c.peek] (c₁.peek :: vs ++ [c₂.peek]) (by simp) fun hraised => ?_)
    exact hraised.bind

theorem catches_fits {t : Token} {ws : List Token} {body : List (Stmt Unit)}
    {catches : List (CatchClause Unit)} {cleanup : Option (List (Stmt Unit))}
    (word : Word (.control .tryKw) t) (block : Block (Statement n) us body)
    (handlers : Repeated (Handler (Statement m)) vs catches)
    (last : Optional (Behind (.control .finallyKw) (Block (Statement m))) ws cleanup)
    (hread : Reads c vs c') :
    Repeated (Handler (Statement n)) vs catches ∨
      Overflows limit (before ++ (t :: us)) (ws ++ after) (many (Parser.behind
        (.keyword (.control .catchKw)) (catchClause (statement n)))) c vs := by
  have hmany : Repeated (Handler (Statement n)) vs catches ∨
      Overflows limit (before ++ (t :: us) ++ []) (ws ++ after) (many (Parser.behind
        (.keyword (.control .catchKw)) (catchClause (statement n)))) c vs := by
    refine many_fits (fun ls => ∃ cs, Repeated (Handler (Statement n)) ls cs) ?_ ?_ ?_
      Handler.leads ⟨[], .nil⟩ handlers hread
    · rintro ls _ rs _ cs c c' ⟨_, hleft⟩ ⟨handler, opening, type, name, closing, given⟩ hright
        hread
      obtain ⟨rfl, hread₁⟩ := hread.of_cons
      obtain ⟨rfl, hread₂⟩ := hread₁.of_cons
      obtain ⟨rfl, hread₃⟩ := hread₂.of_cons
      obtain ⟨rfl, hread₄⟩ := hread₃.of_cons
      obtain ⟨rfl, hrest⟩ := hread₄.of_cons
      rcases block_fits hstmt .catchBody rfl given (.catchBody hframe word block hleft handler
        opening type name closing hright last) hrest with hfits | hover
      · exact .inl (.mk handler opening type name closing hfits)
      · refine .inr (hover.lift [c.peek, c.advance.peek, c.advance.advance.peek,
          c.advance.advance.advance.peek, c.advance.advance.advance.advance.peek] [] (by simp)
          fun hraised => ?_)
        rw [Parser.behind, first_accept_bind, if_pos handler]
        refine First.bind (first_expect_kind rfl opening (first_name_identifier rfl type ?_))
        exact first_name_identifier rfl name (first_expect_kind rfl closing hraised.bind)
    · intro us clause c c' hclause hread _
      exact (catchClause_complete (statement_complete n) Statement.leads hclause hread).imp
        fun _ h => h.1
    · rintro ls us clause ⟨_, hleft⟩ hclause
      exact ⟨_, hleft.snoc hclause⟩
  rwa [List.append_nil] at hmany

theorem tryCatch_fits {t : Token} {body : List (Stmt Unit)} {catches : List (CatchClause Unit)}
    (word : Word (.control .tryKw) t) (block : Block (Statement m) us body)
    (handlers : Repeated (Handler (Statement m)) vs catches) (some : catches ≠ [])
    (hread : Reads c (t :: us ++ vs) c') :
    StatementForm n (Statement n) (t :: us ++ vs) (.tryCatch () body catches) ∨
      Overflows limit before after (tryStatement (statement n)) c (t :: us ++ vs) := by
  obtain ⟨rfl, hrest⟩ := hread.of_cons
  obtain ⟨c₁, hread₁, hread₂⟩ := hrest.split
  rcases block_fits hstmt .tryBody rfl block (.tryBody hframe word handlers .none) hread₁
    with hblock | hover
  · rcases catches_fits hstmt hframe word hblock handlers .none hread₂ with hcatches | hover
    · exact .inl (.tryCatch word hblock hcatches some)
    · obtain ⟨_, haccepts, -⟩ := block_complete (statement_complete n) Statement.leads .tryBody rfl
        hblock hread₁ trivial
      refine .inr (hover.lift (c.peek :: us) [] (by simp) fun hraised => ?_)
      exact haccepts.first_bind hraised.bind
  · exact .inr (hover.lift [c.peek] vs (by simp) fun hraised => hraised.bind)

theorem tryFinally_fits {t f : Token} {ws : List Token} {body cleanup : List (Stmt Unit)}
    {catches : List (CatchClause Unit)} (word : Word (.control .tryKw) t)
    (block : Block (Statement m) us body) (handlers : Repeated (Handler (Statement m)) vs catches)
    (last : Word (.control .finallyKw) f) (block' : Block (Statement m) ws cleanup)
    (hread : Reads c (t :: us ++ vs ++ f :: ws) c') :
    StatementForm n (Statement n) (t :: us ++ vs ++ f :: ws) (.tryFinally () body catches cleanup) ∨
      Overflows limit before after (tryStatement (statement n)) c (t :: us ++ vs ++ f :: ws) := by
  rw [List.cons_append, List.cons_append, List.append_assoc] at hread
  obtain ⟨rfl, hrest⟩ := hread.of_cons
  obtain ⟨c₁, hread₁, hrest₁⟩ := hrest.split
  obtain ⟨c₂, hread₂, hrest₂⟩ := hrest₁.split
  obtain ⟨rfl, hread₃⟩ := hrest₂.of_cons
  have hlast : Optional (Behind (.control .finallyKw) (Block (Statement m))) (c₂.peek :: ws)
      (some cleanup) := .some (.mk last block')
  rcases block_fits hstmt .tryBody rfl block (.tryBody hframe word handlers hlast) hread₁
    with hblock | hover
  · obtain ⟨_, hbody, -⟩ := block_complete (statement_complete n) Statement.leads .tryBody rfl
      hblock hread₁ trivial
    rcases catches_fits hstmt hframe word hblock handlers hlast hread₂ with hcatches | hover
    · obtain ⟨_, hhandlers, -⟩ := catches_complete (statement_complete n) Statement.leads hcatches
        hread₂ (by simp [last])
      rcases block_fits hstmt .finallyBody rfl block'
        (.finallyBody hframe word hblock hcatches last) hread₃ with hcleanup | hover
      · exact .inl (.tryFinally word hblock hcatches last hcleanup)
      · refine .inr (hover.lift (c.peek :: us ++ vs ++ [c₂.peek]) [] (by simp) fun hraised => ?_)
        refine hbody.first_bind (hhandlers.first_bind ?_)
        rw [first_accept_bind, if_pos last]
        exact hraised.bind
    · exact .inr (hover.lift (c.peek :: us) (c₂.peek :: ws) (by simp) fun hraised =>
        hbody.first_bind hraised.bind)
  · exact .inr (hover.lift [c.peek] (vs ++ c₂.peek :: ws) (by simp) fun hraised => hraised.bind)

omit hstmt in
theorem locals_fits {t m' : Token} {type : PrimitiveType} {ds : List (Declarator Unit)}
    (word : Word (.primitive type) t) (names : Separated (Declaration (Expression m)) us ds)
    (semicolon : Mark .semicolon m') (hread : Reads c (t :: us ++ [m']) c') :
    StatementForm n (Statement n) (t :: us ++ [m']) (.locals () type ds) ∨
      Overflows limit before after (localVariables (expression n)) c (t :: us ++ [m']) := by
  obtain ⟨rfl, hrest⟩ := hread.of_cons
  obtain ⟨c₁, hnames, rfl, rfl⟩ := hrest.of_snoc
  rcases separated_fits (before ++ [c.peek]) (c₁.peek :: after)
    (declarator_fits rfl (.locals hframe word semicolon))
    (declarator_complete (expression_complete n) .variableName rfl) (fun _ => .inl rfl) names hnames
    with hfits | hover
  · exact .inl (.locals word hfits semicolon)
  · refine .inr (hover.lift [c.peek] [c₁.peek] (by simp) fun hraised => ?_)
    exact (primitiveType_complete .type word).first_bind hraised.bind

omit hstmt in
theorem returnWith_fits {t m' : Token} {value : Option (Expr Unit)}
    (word : Word (.control .returnKw) t) (given : Optional (Expression m) us value)
    (semicolon : Mark .semicolon m') (hread : Reads c (t :: us ++ [m']) c') :
    StatementForm n (Statement n) (t :: us ++ [m']) (.returnWith () value) ∨
      Overflows limit before after (returnStatement (expression n)) c (t :: us ++ [m']) := by
  cases given with
  | none => exact .inl (.returnWith word .none semicolon)
  | some given =>
    obtain ⟨rfl, hrest⟩ := hread.of_cons
    obtain ⟨c₁, hvalue, rfl, rfl⟩ := hrest.of_snoc
    rcases expression_fits given (.returned hframe word semicolon) hvalue with hfits | hover
    · exact .inl (.returnWith word (.some hfits) semicolon)
    · have hfirst : c.advance.peek.kind ≠ .punctuation .semicolon := by
        intro hk
        have hstarts := peek_of_leads given.leads hvalue
        rw [hk] at hstarts
        cases hstarts
      refine .inr (hover.lift [c.peek] [c₁.peek] (by simp) fun hraised => ?_)
      simp only [returnStatement, first_advance_bind, first_sees_bind, hfirst, decide_false,
        Bool.false_eq_true, ↓reduceIte]
      exact (first_map_bind.mpr hraised).bind

theorem statementOf_fits (h : StatementForm m (Statement m) us s) (hread : Reads c us c') :
    StatementForm n (Statement n) us s ∨ Overflows limit before after
      (statementOf (statement n) (expression n) c.peek.kind) c us := by
  cases h with
  | empty semicolon => exact .inl (.empty semicolon)
  | breakTo word target semicolon => exact .inl (.breakTo word target semicolon)
  | continueTo word target semicolon => exact .inl (.continueTo word target semicolon)
  | block given =>
    have hkind : c.peek.kind = .punctuation .lbrace := by
      obtain ⟨opening, statements, closing⟩ := given
      rwa [hread.of_cons.1]
    rcases block_fits hstmt .block rfl given (.block hframe) hread with hfits | hover
    · exact .inl (.block hfits)
    · rw [hkind]
      exact .inr (hover.lift [] [] (by simp) fun hraised => hraised.bind)
  | locals word names semicolon =>
    rw [hread.of_cons.1, word]
    exact locals_fits hframe word names semicolon hread
  | expr given semicolon =>
    obtain ⟨c₁, hvalue, rfl, rfl⟩ := hread.of_snoc
    rcases effect_fits hframe semicolon given hvalue with hfits | hover
    · exact .inl (.expr hfits semicolon)
    · refine .inr (hover.lift [] [c₁.peek] (by simp) fun hraised => ?_)
      unfold First
      rw [statementOf_effect given.leads (given.inner.noColon.snoc semicolon (by decide)) hread]
      exact hraised.bind
  | labeled name colon body =>
    obtain ⟨rfl, hread₁⟩ := hread.of_cons
    obtain ⟨rfl, hrest⟩ := hread₁.of_cons
    rcases hstmt body (.labeled hframe name colon) hrest with hfits | hover
    · exact .inl (.labeled name colon hfits)
    · refine .inr (hover.lift [c.peek, c.advance.peek] [] (by simp) fun hraised => ?_)
      rw [name, statementOf, first_peekNextKind_bind, peekNext_eq, if_pos colon]
      exact hraised.bind
  | ifThen word test body =>
    rw [hread.of_cons.1, word]
    exact ifThen_fits hstmt hframe word test body hread
  | ifElse word test body nearest other body' =>
    rw [hread.of_cons.1, word]
    exact ifElse_fits hstmt hframe word test body nearest other body' hread
  | whileLoop word test body =>
    rw [hread.of_cons.1, word]
    exact whileLoop_fits hstmt hframe word test body hread
  | doLoop word body loop test semicolon =>
    rw [hread.of_cons.1, word]
    exact doLoop_fits hstmt hframe word body loop test semicolon hread
  | returnWith word given semicolon =>
    rw [hread.of_cons.1, word]
    exact returnWith_fits hframe word given semicolon hread
  | tryCatch word block handlers some =>
    rw [hread.of_cons.1, word]
    exact tryCatch_fits hstmt hframe word block handlers some hread
  | tryFinally word block handlers last block' =>
    rw [hread.of_cons.1, word]
    exact tryFinally_fits hstmt hframe word block handlers last block' hread

end Blocks

theorem statement_fits {s : Stmt Unit} (h : Statement m us s)
    (hframe : Frame limit (.entry .statement) n before after) (hread : Reads c us c') :
    Statement n us s ∨ Overflows limit before after (statement n) c us := by
  induction n generalizing m us s c c' before after with
  | zero =>
    refine .inr (.here hframe ⟨s, h⟩ hread ?_)
    obtain ⟨t, vs, rfl, -⟩ := h.leads
    exact List.cons_ne_nil _ _
  | succ n ih =>
    cases m with
    | zero => exact h.elim
    | succ m =>
      rcases statementOf_fits ih hframe h hread with hfits | hover
      · exact .inl hfits
      · exact .inr (hover.lift [] [] (by simp) first_located.mpr)

/-! ## Classes -/

section Classes

variable {set : ModifierSet} {type : PrimitiveType}

/-- What follows a list in parentheses raises first what the whole does. -/
theorem enclosed_first {L : Phrase β} {f : α → β} {next : β → Token.Kind → Prop} {bs : List β}
    {starts : Token.Kind → Bool} (demand : Demand) (h : Complete p f L next)
    (again : ∀ b, next b (.punctuation .comma)) (last : ∀ b, next b (.punctuation .rparen))
    (leads : ∀ {us b}, L us b → Leads starts us) (closes : starts (.punctuation .rparen) = false)
    (hd : demand.expected = .token (.punctuation .rparen)) (items : Enclosed L us bs)
    (hread : Reads c us c') :
    ∃ as, ∀ {γ : Type} {k : List α → Parser γ} {e}, First (k as) c' e →
      First (do
        let as ← if ← sees (.punctuation .rparen) then pure [] else separated p
        let _ ← expect demand
        k as) c.advance e := by
  obtain ⟨as, -, haccepts⟩ := enclosed_complete demand h again last leads closes hd items hread
  have hlist := haccepts (k := pure) (accepts_pure.mpr ⟨rfl, rfl⟩)
  refine ⟨as, fun hraised => ?_⟩
  rw [accepts_sees_bind] at hlist
  rw [first_sees_bind]
  split at hlist
  · next hparen =>
    simp only [accepts_pure_bind, accepts_expect_bind, accepts_pure] at hlist
    obtain ⟨hadmits, rfl, rfl⟩ := hlist
    simp only [hparen, ↓reduceIte, first_pure_bind]
    rwa [first_expect_bind, if_pos hadmits]
  · next hparen =>
    rw [accepts_bind] at hlist
    obtain ⟨as', c₁, hitems, hclose⟩ := hlist
    simp only [accepts_expect_bind, accepts_pure] at hclose
    obtain ⟨hadmits, rfl, rfl⟩ := hclose
    rw [if_neg hparen]
    refine hitems.first_bind ?_
    rwa [first_expect_bind, if_pos hadmits]

theorem methodRest_first {params : List Param} {word : String} {e : Diagnostic}
    (parameters : Enclosed Parameter us params) (hread : Reads c us c')
    (h : First (block (statement n) .methodBody) c' e) :
    First (methodRest n set type word) c e := by
  have hleads : ∀ {us param}, Parameter us param → Leads (·.startsMember) us := by
    rintro _ _ ⟨word, name⟩
    exact leads_cons word rfl _
  obtain ⟨params, hparams⟩ := enclosed_first .parametersEnd parameter_complete (fun _ => trivial)
    (fun _ => trivial) hleads rfl rfl parameters hread
  exact hparams h.bind

/-- The names of a field, and the values behind them. -/
theorem fieldRest_fits {first : Declarator Unit} {more : List (Declarator Unit)}
    (names : Separated (Declaration (Expression m)) us (first :: more))
    (hframe : Frame limit .names n before after) (hread : Reads c us c') :
    Separated (Declaration (Expression n)) us (first :: more) ∨
      c.peek.kind = .identifier ∧ c.advance.peek.kind ≠ .punctuation .lparen ∧
        ∃ vs, us = c.peek :: vs ∧ Overflows limit (before ++ [c.peek]) after
          (fieldRest n set type c.peek.text) c.advance vs := by
  cases names with
  | @mk us vs _ _ hfirst hmore =>
    obtain ⟨c₁, hread₁, hread₂⟩ := hread.split
    rcases initializer_fits hframe .first hmore hfirst hread₁
      with hfits | ⟨name, equals, ws, rfl, hover⟩
    · have hsingle : Separated (Declaration (Expression n)) us [first] := by
        simpa using Separated.mk hfits .nil
      rcases manyAfter_fits before after (declarator_fits rfl hframe)
        (declarator_complete (expression_complete n) .fieldName rfl) (fun _ => .inl rfl) hsingle
        hmore hread₂ with hrest | hover
      · exact .inl (.mk hfits hrest)
      · have hcomma : c₁.peek.kind = .punctuation .comma :=
          of_decide_eq_true (starts_of_repeated After.leads hmore hread₂ hover.ne_nil)
        obtain ⟨name, hopen, init, hinit, -⟩ :=
          initializer_complete (expression_complete n) hfits hread₁ (.inl hcomma)
        obtain ⟨x, ws, rfl, -⟩ : Leads (· = .identifier) us := by
          cases hfits with
          | plain name => exact leads_cons name (by simp) _
          | initialized name equals value => exact leads_cons name (by simp) _
        obtain rfl := hread₁.of_cons.1
        refine .inr ⟨name, hopen, ws ++ vs, rfl, hover.lift ws [] (by simp) fun hraised => ?_⟩
        exact hinit.first_bind hraised.bind
    · refine .inr ⟨name, by simp [equals], ws ++ vs, rfl, ?_⟩
      exact hover.lift [] vs (by simp) fun hraised => hraised.bind

theorem member_fits {d : Member Unit} (h : MemberDecl m us d)
    (hframe : Frame limit .member n before after) (hread : Reads c us c') :
    MemberDecl n us d ∨ Overflows limit before after (member n) c us := by
  have hmodifiers := modifiers_complete memberModifier_round
  cases h with
  | @field us vs t s set type _ _ modifiers word names semicolon =>
    rw [List.append_assoc] at hread
    obtain ⟨c₁, hread₁, hrest⟩ := hread.split
    obtain ⟨rfl, hread₂⟩ := hrest.of_cons
    obtain ⟨c₂, hnames, rfl, rfl⟩ := hread₂.of_snoc
    obtain ⟨set, hset, rfl⟩ := hmodifiers modifiers hread₁ (by rw [word]; rfl)
    rcases fieldRest_fits names (.fieldNames hframe modifiers word semicolon) hnames
      with hfits | ⟨name, hopen, ws, rfl, hover⟩
    · exact .inl (.field modifiers word hfits semicolon)
    · refine .inr (hover.lift (us ++ [c₁.peek, c₁.advance.peek]) [c₂.peek] (by simp)
        fun hraised => ?_)
      refine first_located.mpr (hset.first_bind ((primitiveType_complete _ word).first_bind ?_))
      refine first_name_identifier rfl name ?_
      simp only [first_sees_bind, hopen, decide_false, Bool.false_eq_true, ↓reduceIte]
      exact hraised
  | @method us vs ws t x set type params body modifiers word name parameters given =>
    rw [List.append_assoc] at hread
    obtain ⟨c₁, hread₁, hrest⟩ := hread.split
    obtain ⟨rfl, hread₂⟩ := hrest.of_cons
    obtain ⟨rfl, hread₃⟩ := hread₂.of_cons
    obtain ⟨c₂, hparameters, hgiven⟩ := hread₃.split
    obtain ⟨set, hset, rfl⟩ := hmodifiers modifiers hread₁ (by rw [word]; rfl)
    have hopen : c₁.advance.advance.peek.kind = .punctuation .lparen :=
      of_decide_eq_true (peek_of_leads parameters.leads hparameters)
    rcases block_fits statement_fits .methodBody rfl given
      (.methodBody hframe modifiers word name parameters) hgiven with hfits | hover
    · exact .inl (.method modifiers word name parameters hfits)
    · refine .inr (hover.lift (us ++ c₁.peek :: c₁.advance.peek :: vs) [] (by simp)
        fun hraised => ?_)
      refine first_located.mpr (hset.first_bind ((primitiveType_complete _ word).first_bind ?_))
      refine first_name_identifier rfl name ?_
      simp only [first_sees_bind, hopen, decide_true, ↓reduceIte]
      exact methodRest_first parameters hparameters hraised

/-- The members of a class, behind what stands before it. -/
theorem classDecl_fits {package : Option String} {imports : List String} {decl : ClassDecl Unit}
    {ws : List Token} (header : Optional (Clause .packageKw) us package)
    (clauses : Repeated (Clause .importKw) vs imports) (h : ClassDeclaration m ws decl)
    (hread : Reads c ws c') :
    ClassDeclaration n ws decl ∨ Overflows n (us ++ vs) [] (classDecl n) c ws := by
  obtain ⟨modifiers, word, name, opening, body, closing⟩ := h
  rename_i ws xs t x l r set members
  rw [List.append_assoc] at hread
  obtain ⟨c₁, hread₁, hrest⟩ := hread.split
  obtain ⟨rfl, hread₂⟩ := hrest.of_cons
  obtain ⟨rfl, hread₃⟩ := hread₂.of_cons
  obtain ⟨rfl, hread₄⟩ := hread₃.of_cons
  obtain ⟨c₂, hread₅, rfl, rfl⟩ := hread₄.of_snoc
  obtain ⟨set, hset, rfl⟩ :=
    modifiers_complete classModifier_round modifiers hread₁ (by rw [word]; rfl)
  have hbody : Repeated (MemberDecl n) xs members ∨
      Overflows n (us ++ vs ++ (ws ++ [c₁.peek, c₁.advance.peek, c₁.advance.advance.peek]))
        [c₂.peek] (bodyOf .member (member n)) c₁.advance.advance.advance xs := by
    refine bodyOf_fits .member (fun hleft hitem hright hread => ?_) (member_complete n)
      MemberDecl.leads (fun _ _ _ => trivial) rfl body hread₅
    simpa using member_fits hitem
      (.member header clauses modifiers word name opening hleft hright closing) hread
  rcases hbody with hfits | hover
  · exact .inl (.mk modifiers word name opening hfits closing)
  · refine .inr (hover.lift (ws ++ [c₁.peek, c₁.advance.peek, c₁.advance.advance.peek]) [c₂.peek]
      (by simp) fun hraised => ?_)
    refine first_located.mpr (hset.first_bind (first_expect_kind rfl word ?_))
    exact first_name_identifier rfl name (First.bind (first_expect_kind rfl opening hraised.bind))

theorem program_fits {prog : Program Unit} (h : CompilationUnit m c.rest prog) :
    CompilationUnit n c.rest prog ∨ Overflows n [] [] (program n) c c.rest := by
  obtain ⟨c', hread⟩ : ∃ c', Reads c c.rest c' := by
    have hskip := reads_skip (c := c) (Nat.le_refl c.rest.length)
    rw [List.take_length] at hskip
    exact ⟨_, hskip⟩
  generalize c.rest = us at h hread
  obtain ⟨header, clauses, given⟩ := h
  rename_i us vs ws package imports decl
  obtain ⟨c₂, hread₁₂, hread₃⟩ := hread.split
  obtain ⟨c₁, hread₁, hread₂⟩ := hread₁₂.split
  rcases classDecl_fits header clauses given hread₃ with hfits | hover
  · exact .inl (.mk header clauses hfits)
  · obtain ⟨hpackage, himports⟩ := header_complete header clauses hread₁ hread₂
      (peek_of_leads (startsClass_of_classDeclaration given) hread₃)
    refine .inr (hover.lift (us ++ vs) [] (by simp) fun hraised => ?_)
    refine hpackage.first_bind (himports.first_bind (First.bind (first_map_reply.mpr ?_)))
    refine first_iterate.mpr (.inl ((locateClass_complete given hread₃).first_bind ?_))
    exact First.bind (first_recover.mpr hraised)

end Classes

end Parser

/-! ## Whole sources -/

/-- **The limit on nesting is exact.** Suppose the tokens that count are a compilation unit, however
deep it nests. Nothing is reported if no more than `maxNesting` statements and expressions are open
inside one another. Otherwise the first diagnostic says that nesting is too deep, at the first token
of the first statement or expression that is one too many: `maxNesting` are open around it, and all
that stands before it is within the limit. -/
theorem parse_nesting (tokens : List Token) {m : Nat} {p : Program Unit}
    (h : CompilationUnit m (tokens.filter (·.kind.isKept)) p) :
    ((parse tokens).diagnostics = [] ↔
      CompilationUnit maxNesting (tokens.filter (·.kind.isKept)) p) ∧
    (¬ CompilationUnit maxNesting (tokens.filter (·.kind.isKept)) p →
      ∃ (entry : Entry) (k : Nat) (us : List Token) (t : Token) (es ws : List Token),
        tokens.filter (·.kind.isKept) = us ++ t :: es ++ ws ∧
          Frame maxNesting (.entry entry) 0 us ws ∧ entry.Derives k (t :: es) ∧
          (parse tokens).diagnostics.head? = some (.nestingTooDeep t)) := by
  refine ⟨⟨fun hclean => ?_, fun hunit => ?_⟩, fun hdeep => ?_⟩
  · obtain ⟨c, haccepts⟩ := parse_diagnostics_eq_nil hclean
    have hunit := Parser.program_sound haccepts
    have hkept : ∀ t ∈ tokens.filter (·.kind.isKept), t.kind.isKept = true :=
      fun t ht => (List.mem_filter.mp ht).2
    rwa [← h.unique hkept hunit] at hunit
  · obtain ⟨a, c, haccepts, -⟩ := Parser.program_complete (c := .ofTokens tokens) hunit
    rw [parse_of_accepts haccepts]
  · rcases Parser.program_fits (c := .ofTokens tokens) h with hunit | hover
    · exact absurd hunit hdeep
    · obtain ⟨entry, k, us, t, es, ws, hsplit, hframe, hentry, hraised⟩ := hover
      refine ⟨entry, k, us, t, es, ws, hsplit, ?_, hentry, (parse_head? tokens _).mpr hraised⟩
      simpa using hframe

/-- `k` pairs of parentheses around a name. -/
theorem Grammar.expression_groups {l x r : Token} (opening : Mark .lparen l)
    (name : x.kind = .identifier) (closing : Mark .rparen r) (k : Nat) :
    Expression (k + 1) (List.replicate k l ++ x :: List.replicate k r) (.ident () x.text) := by
  induction k with
  | zero => exact (Postfix.of_primary (.ident name)).expression
  | succ k ih =>
    have hgroup := (Postfix.of_primary (.group opening ih closing)).expression
    rw [List.replicate_succ, List.replicate_succ']
    simpa using hgroup

/-- With 128 pairs of parentheses around it, an initial value is the 129th expression. -/
theorem parse_nesting_groups :
    let token (kind : Token.Kind) (text : String) : Token := ⟨kind, text, none, ⟨⟨0, 0⟩, 1⟩⟩
    let mark (m : Punctuation) := token (.punctuation m) ""
    let name := token .identifier
    let tokens := [token (.keyword (.declaration .classKw)) "", name "A", mark .lbrace,
      token (.keyword (.primitive .int)) "", name "f", token (.operator (.assign .assign)) ""] ++
      (List.replicate 128 (mark .lparen) ++ name "x" :: List.replicate 128 (mark .rparen)) ++
      [mark .semicolon, mark .rbrace]
    let kept := tokens.filter (·.kind.isKept)
    let p : Program Unit := ⟨none, [], some ⟨(), .ofList [], "A",
      [.field () (.ofList []) .int ⟨"f", some (.ident () "x")⟩ []]⟩⟩
    CompilationUnit 129 kept p ∧ ¬ CompilationUnit maxNesting kept p ∧
      ((parse tokens).diagnostics = [] ↔ CompilationUnit maxNesting kept p) ∧
      ∃ (entry : Entry) (k : Nat) (us : List Token) (t : Token) (es ws : List Token),
        kept = us ++ t :: es ++ ws ∧ Frame maxNesting (.entry entry) 0 us ws ∧
          entry.Derives k (t :: es) ∧
          (parse tokens).diagnostics.head? = some (.nestingTooDeep t) := by
  intro token mark name tokens kept p
  have hmodifiers (allowed : Modifier → Bool) : Modifiers allowed [] (.ofList []) :=
    .mk rfl .nil (by simp)
  have hsource (es : List Token) (hvalue : Expression 129 es (.ident () "x")) :
      CompilationUnit 129 ([token (.keyword (.declaration .classKw)) "", name "A", mark .lbrace,
        token (.keyword (.primitive .int)) "", name "f", token (.operator (.assign .assign)) ""] ++
        es ++ [mark .semicolon, mark .rbrace]) p := by
    have hnames := Separated.mk (Declaration.initialized (x := name "f")
      (t := token (.operator (.assign .assign)) "") rfl rfl hvalue) .nil
    have hfield := MemberDecl.field (t := token (.keyword (.primitive .int)) "")
      (s := mark .semicolon) (hmodifiers _) rfl hnames rfl
    have hclass := ClassDeclaration.mk (t := token (.keyword (.declaration .classKw)) "")
      (x := name "A") (l := mark .lbrace) (r := mark .rbrace) (hmodifiers _) rfl rfl rfl
      (.cons hfield .nil) rfl
    simpa using CompilationUnit.mk .none .nil hclass
  have hunit : CompilationUnit 129 kept p := by
    rw [show kept = tokens from List.filter_eq_self.mpr (by decide +kernel)]
    exact hsource _ (expression_groups rfl rfl rfl 128)
  have hexact := parse_nesting tokens hunit
  have hreported : (parse tokens).diagnostics ≠ [] := by decide +kernel
  have hdeep : ¬ CompilationUnit maxNesting kept p := fun h => hreported (hexact.1.mpr h)
  exact ⟨hunit, hdeep, hexact.1, hexact.2 hdeep⟩

end JavaSubset
