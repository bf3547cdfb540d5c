import JavaSubset.Lexed
import JavaSubset.Parse.Program
import JavaSubset.Proofs.Accepts
import JavaSubset.Proofs.Erasure

/-!
# What is accepted is in the language

`Sound p f L` : whatever the parser `p` accepts without a report, the tokens it has read are in
`L` with the tree `f` makes of its value. Every production is sound for the nonterminal it is
named after, by the soundness of the productions it calls; `expression_sound` and
`statement_sound` close the circle by induction on the nesting that is left.

`parse_sound` : a list of tokens that parses without a diagnostic is a compilation unit, and the
program is its tree.
-/

namespace JavaSubset

open Cursor Grammar

namespace Parser

variable {α β : Type} {c c' : Cursor} {demand : Demand} {kind found : Token.Kind}

/-! ## Building blocks -/

def Sound (p : Parser α) (f : α → β) (L : Phrase β) : Prop :=
  ∀ {c : Cursor} {a : α} {c' : Cursor}, Accepts p c a c' → ∃ us, Reads c us c' ∧ L us (f a)

variable {p : Parser α} {f : α → β} {L : Phrase β}

theorem many_sound {step : Parser (Option α)}
    (some : ∀ {c a c'}, Accepts step c (some a) c' → ∃ us, Reads c us c' ∧ L us (f a))
    (none : ∀ {c c'}, Accepts step c none c' → c' = c) :
    Sound (many step) (List.map f) (Repeated L) := by
  intro c as c' h
  refine many_accepts (P := fun c as c' => ∃ us, Reads c us c' ∧ Repeated L us (as.map f))
    (fun c => ⟨[], .nil c, .nil⟩) (fun c c' => none) ?_ h
  rintro c a c₁ as c' h ⟨vs, hread', hmore⟩
  obtain ⟨us, hread, hfirst⟩ := some h
  exact ⟨us ++ vs, hread.trans hread', .cons hfirst hmore⟩

/-- A part that stands behind a token of its own, or is left out with it. -/
theorem accepts_behind {o : Option α} :
    Accepts (do if ← accept kind then return some (← p) else return none) c o c' ↔
      (∃ a, o = some a ∧ c.peek.kind = kind ∧ Accepts p c.advance a c') ∨
        o = none ∧ c.peek.kind ≠ kind ∧ c' = c := by
  simp only [accepts_accept_bind, ↓reduceIte, Bool.false_eq_true]
  split
  · next hkind =>
    simp only [accepts_bind, accepts_pure]
    constructor
    · rintro ⟨a, _, ha, rfl, rfl⟩
      exact .inl ⟨a, rfl, hkind, ha⟩
    · rintro (⟨a, rfl, -, ha⟩ | ⟨-, hne, -⟩)
      · exact ⟨a, _, ha, rfl, rfl⟩
      · exact absurd hkind hne
  · next hkind => simp [hkind, eq_comm]

theorem manyAfter_sound (h : Sound p f L) {mark : Punctuation} :
    Sound (many do if ← accept (.punctuation mark) then return some (← p) else return none)
      (List.map f) (Repeated (After mark L)) := by
  refine many_sound ?_ ?_
  · intro c a c' ha
    obtain ⟨_, ⟨⟩, hmark, ha⟩ | ⟨⟨⟩, -⟩ := accepts_behind.mp ha
    obtain ⟨us, hread, hitem⟩ := h ha
    exact ⟨_, (reads_kind hmark rfl).trans hread, .mk hmark hitem⟩
  · intro c c' ha
    obtain ⟨_, ⟨⟩, -⟩ | ⟨-, -, hstill⟩ := accepts_behind.mp ha
    exact hstill

theorem separated_sound (h : Sound p f L) : Sound (separated p) (List.map f) (Separated L) := by
  intro c as c' ha
  simp only [separated, accepts_bind, accepts_pure] at ha
  obtain ⟨first, c₁, hfirst, more, _, hmore, rfl, rfl⟩ := ha
  obtain ⟨us, hread, hus⟩ := h hfirst
  obtain ⟨vs, hread', hvs⟩ := manyAfter_sound h hmore
  exact ⟨us ++ vs, hread.trans hread', .mk hus hvs⟩

theorem bodyOf_sound {point : SyncPoint} (h : Sound p f L) :
    Sound (bodyOf point p) (List.map f) (Repeated L) := by
  intro c as c' ha
  refine bodyOf_accepts (P := fun c as c' => ∃ us, Reads c us c' ∧ Repeated L us (as.map f))
    (fun c => ⟨[], .nil c, .nil⟩) ?_ ha
  rintro c a c₁ as c' ha ⟨vs, hread', hmore⟩
  obtain ⟨us, hread, hfirst⟩ := h ha
  exact ⟨us ++ vs, hread.trans hread', .cons hfirst hmore⟩

/-! ## Expressions -/

section Expressions

variable {expr : Parser (Expr Location)} {E : Phrase (Expr Unit)}

theorem arguments_sound (hexpr : Sound expr Expr.erase E)
    (hd : demand.expected = .token (.punctuation .lparen)) :
    Sound (arguments expr demand) (List.map Expr.erase) (Enclosed E) := by
  intro c args c' h
  simp only [arguments, accepts_expect_bind, accepts_sees_bind] at h
  obtain ⟨hopen, h⟩ := h
  have hopen := kind_of_admits hd hopen
  split at h
  · simp only [accepts_pure_bind, accepts_expect_bind, accepts_pure] at h
    obtain ⟨hclose, rfl, rfl⟩ := h
    have hclose := kind_of_admits rfl hclose
    exact ⟨_, (reads_kind hopen rfl).trans (reads_kind hclose rfl), .empty hopen hclose⟩
  · rw [accepts_bind] at h
    obtain ⟨args, c₁, hargs, h⟩ := h
    simp only [accepts_expect_bind, accepts_pure] at h
    obtain ⟨hclose, rfl, rfl⟩ := h
    have hclose := kind_of_admits rfl hclose
    obtain ⟨us, hread, hus⟩ := separated_sound hexpr hargs
    exact ⟨_, ((reads_kind hopen rfl).trans hread).trans (reads_kind hclose rfl),
      .list hopen hus hclose⟩

theorem primary_sound (hexpr : Sound expr Expr.erase E) :
    Sound (primary expr) Expr.erase (Primary E) := by
  intro c e c' h
  simp only [primary, accepts_located, accepts_peekKind_bind] at h
  obtain ⟨node, h, rfl⟩ := h
  split at h
  · next hkind =>
    simp only [accepts_advance_bind, accepts_sees_bind] at h
    split at h
    · simp only [accepts_bind, accepts_pure] at h
      obtain ⟨args, c₁, hargs, rfl, rfl⟩ := h
      obtain ⟨us, hread, hus⟩ := arguments_sound hexpr rfl hargs
      exact ⟨_, (reads_kind hkind rfl).trans hread, by simpa using .call hkind hus⟩
    · simp only [accepts_pure] at h
      obtain ⟨rfl, rfl⟩ := h
      exact ⟨_, reads_kind hkind rfl, .ident hkind⟩
  · next hkind =>
    simp only [accepts_advance_bind, accepts_pure] at h
    obtain ⟨rfl, rfl⟩ := h
    exact ⟨_, reads_kind hkind rfl, .number hkind⟩
  · next hkind =>
    simp only [accepts_advance_bind, accepts_pure] at h
    obtain ⟨rfl, rfl⟩ := h
    exact ⟨_, reads_kind hkind rfl, .string hkind⟩
  · next hkind =>
    simp only [accepts_advance_bind, accepts_pure] at h
    obtain ⟨rfl, rfl⟩ := h
    exact ⟨_, reads_kind hkind rfl, .this hkind⟩
  · next hkind =>
    simp only [accepts_advance_bind, accepts_expect_bind, accepts_name_bind] at h
    obtain ⟨hdot, hname, h⟩ := h
    rw [accepts_bind] at h
    obtain ⟨args, c₁, hargs, h⟩ := h
    obtain ⟨rfl, rfl⟩ := accepts_pure.mp h
    have hdot := kind_of_admits rfl hdot
    have hname := identifier_of_admits rfl hname
    obtain ⟨us, hread, hus⟩ := arguments_sound hexpr rfl hargs
    have hreads := (reads_kind hdot rfl).trans ((reads_kind hname rfl).trans hread)
    refine ⟨_, (reads_kind hkind rfl).trans hreads, ?_⟩
    simpa using .superCall hkind hdot hname hus
  · next hkind =>
    simp only [accepts_advance_bind, accepts_name_bind] at h
    obtain ⟨hname, h⟩ := h
    rw [accepts_bind] at h
    obtain ⟨args, c₁, hargs, h⟩ := h
    obtain ⟨rfl, rfl⟩ := accepts_pure.mp h
    have hname := identifier_of_admits rfl hname
    obtain ⟨us, hread, hus⟩ := arguments_sound hexpr rfl hargs
    exact ⟨_, (reads_kind hkind rfl).trans ((reads_kind hname rfl).trans hread),
      by simpa using .new hkind hname hus⟩
  · next hkind =>
    rw [accepts_advance_bind, accepts_bind] at h
    obtain ⟨inner, c₁, hinner, h⟩ := h
    simp only [accepts_expect_bind, accepts_pure] at h
    obtain ⟨hclose, rfl, rfl⟩ := h
    have hclose := kind_of_admits rfl hclose
    obtain ⟨us, hread, hus⟩ := hexpr hinner
    exact ⟨_, ((reads_kind hkind rfl).trans hread).trans (reads_kind hclose rfl),
      by simpa using .group hkind hus hclose⟩
  · exact absurd h not_accepts_fail

theorem selector_sound (hexpr : Sound expr Expr.erase E) {start : Token} {sel : Selector}
    (h : Accepts (selector expr start) c (some sel) c') :
    ∃ us, Reads c us c' ∧ Selection E us sel.erase := by
  simp only [selector, accepts_accept_bind, ↓reduceIte, Bool.false_eq_true] at h
  split at h
  · next hdot =>
    simp only [accepts_name_bind, accepts_sees_bind] at h
    obtain ⟨hname, h⟩ := h
    have hname := identifier_of_admits rfl hname
    split at h
    · rw [accepts_bind] at h
      obtain ⟨args, c₁, hargs, h⟩ := h
      simp only [accepts_locationFrom_bind, accepts_pure, Option.some.injEq] at h
      obtain ⟨rfl, rfl⟩ := h
      obtain ⟨us, hread, hus⟩ := arguments_sound hexpr rfl hargs
      exact ⟨_, (reads_kind hdot rfl).trans ((reads_kind hname rfl).trans hread),
        .invoke hdot hname hus⟩
    · simp only [accepts_locationFrom_bind, accepts_pure, Option.some.injEq] at h
      obtain ⟨rfl, rfl⟩ := h
      exact ⟨_, (reads_kind hdot rfl).trans (reads_kind hname rfl), .field hdot hname⟩
  · simp at h

theorem selection_sound (hexpr : Sound expr Expr.erase E) :
    Sound (selection expr) Expr.erase (Postfix E) := by
  intro c e c' h
  rw [selection, accepts_peek_bind] at h
  simp only [accepts_bind, accepts_pure] at h
  obtain ⟨target, c₁, htarget, sels, _, hsels, rfl, rfl⟩ := h
  obtain ⟨us, hread, hus⟩ := primary_sound hexpr htarget
  have hmany : Sound (many (selector expr c.peek)) (List.map Selector.erase)
      (Repeated (Selection E)) := by
    refine many_sound (selector_sound hexpr) ?_
    intro c c' h
    simp only [selector, accepts_accept_bind, ↓reduceIte, Bool.false_eq_true] at h
    split at h
    · simp only [accepts_name_bind, accepts_sees_bind] at h
      split at h <;> simp at h
    · exact (accepts_pure.mp h).2.symm
  obtain ⟨vs, hread', hvs⟩ := hmany hsels
  rw [Expr.erase_foldl_apply]
  exact ⟨us ++ vs, hread.trans hread', .mk hus hvs⟩

theorem unary_sound (hexpr : Sound expr Expr.erase E) :
    Sound (unary expr) Expr.erase (Unary E) := by
  intro c e c' h
  simp only [unary, accepts_peekKind_bind] at h
  split at h
  · obtain ⟨us, hread, hus⟩ := selection_sound hexpr h
    exact ⟨us, hread, .plain hus⟩
  · next op hsign =>
    simp only [accepts_located, accepts_advance_bind] at h
    simp only [accepts_bind, accepts_pure] at h
    obtain ⟨_, ⟨operand, _, hoperand, rfl, rfl⟩, rfl⟩ := h
    obtain ⟨us, hread, hus⟩ := selection_sound hexpr hoperand
    unfold sign? at hsign
    split at hsign
    · next hkind =>
      cases hsign
      exact ⟨_, (reads_kind hkind rfl).trans hread, .plus hkind hus⟩
    · next hkind =>
      cases hsign
      exact ⟨_, (reads_kind hkind rfl).trans hread, .minus hkind hus⟩
    · cases hsign

/-- A round of the loop that reads a chain. -/
theorem link_sound {tier : Tier} {operand : Parser (Expr Location)}
    (h : Sound operand Expr.erase E) {link : BinaryOp × Expr Location}
    (ha : Accepts (do
        match tierOp? tier (← peekKind) with
        | none => return none
        | some op =>
          let _ ← advance
          return some (op, ← operand)) c (some link) c') :
    ∃ us, Reads c us c' ∧ Link tier E us (link.map id Expr.erase) := by
  rw [accepts_peekKind_bind] at ha
  split at ha
  · simp at ha
  · next op hop =>
    rw [accepts_advance_bind] at ha
    simp only [accepts_bind, accepts_pure, Option.some.injEq] at ha
    obtain ⟨e, _, ha, rfl, rfl⟩ := ha
    obtain ⟨hkind, htier⟩ := tierOp?_eq_some.mp hop
    obtain ⟨us, hread, hus⟩ := h ha
    exact ⟨_, (reads_kind hkind rfl).trans hread, .mk hkind htier hus⟩

theorem chain_sound {tier : Tier} {operand : Parser (Expr Location)}
    (h : Sound operand Expr.erase E) : Sound (chain tier operand) Expr.erase (Chain tier E) := by
  intro c e c' ha
  simp only [chain, accepts_bind, accepts_pure] at ha
  obtain ⟨first, c₁, hfirst, links, _, hlinks, rfl, rfl⟩ := ha
  obtain ⟨us, hread, hus⟩ := h hfirst
  refine (many_sound (f := Prod.map id Expr.erase) (L := Link tier E) (link_sound h) ?_ hlinks).elim
    ?_
  · intro c c' ha
    rw [accepts_peekKind_bind] at ha
    split at ha
    · exact (accepts_pure.mp ha).2.symm
    · simp at ha
  · rintro vs ⟨hread', hvs⟩
    rw [Expr.erase_foldl_join]
    exact ⟨us ++ vs, hread.trans hread', .mk hus hvs⟩

theorem expression_sound : ∀ n, Sound (expression n) Expr.erase (Expression n)
  | 0, _, _, _, h => by simp [Accepts, expression, tooDeep, Reply.error] at h
  | n + 1, _, _, _, h =>
    chain_sound (chain_sound (chain_sound (chain_sound (unary_sound (expression_sound n))))) h

end Expressions

/-! ## Expression statements -/

section Effects

variable {n : Nat} {expr : Parser (Expr Location)} {e : Expr Location} {t : Token}

/-- A declared name and what `initializer` finds behind it. -/
theorem initializer_sound {E : Phrase (Expr Unit)} (hexpr : Sound expr Expr.erase E)
    {init : Option (Expr Location)} (hname : t.kind = .identifier)
    (h : Accepts (initializer expr) c init c') :
    ∃ us, Reads c us c' ∧ Declaration E (t :: us) ⟨t.text, init.map Expr.erase⟩ := by
  obtain ⟨value, rfl, hequals, hvalue⟩ | ⟨rfl, -, rfl⟩ := accepts_behind.mp h
  · obtain ⟨us, hread, hus⟩ := hexpr hvalue
    exact ⟨_, (reads_kind hequals rfl).trans hread, .initialized hname hequals hus⟩
  · exact ⟨[], .nil _, .plain hname⟩

theorem declarator_sound {E : Phrase (Expr Unit)} (hexpr : Sound expr Expr.erase E)
    (hd : demand.expected = .identifier) :
    Sound (declarator expr demand) Declarator.erase (Declaration E) := by
  intro c d c' h
  rw [declarator, accepts_name_bind] at h
  obtain ⟨hname, h⟩ := h
  have hname := identifier_of_admits hd hname
  simp only [accepts_bind, accepts_pure] at h
  obtain ⟨init, _, hinit, rfl, rfl⟩ := h
  obtain ⟨us, hread, hus⟩ := initializer_sound hexpr hname hinit
  exact ⟨_, (reads_kind hname rfl).trans hread, hus⟩

@[simp] theorem accepts_checkTarget_bind {f : Unit → Parser β} {b : β} :
    Accepts (checkTarget e t >>= f) c b c' ↔ e.isAssignable = true ∧ Accepts (f ()) c b c' := by
  rw [accepts_bind]
  constructor
  · rintro ⟨_, c₁, hcheck, h⟩
    cases he : e.isAssignable <;> simp [checkTarget, he] at hcheck
    exact ⟨rfl, hcheck ▸ h⟩
  · rintro ⟨he, h⟩
    exact ⟨(), c, by simp [checkTarget, he], h⟩

/-- A round of the loop that reads assignments. -/
theorem assignment_accepts {link : (Expr Location × AssignOp) × Expr Location}
    (h : Accepts (assignment expr e) c (some link) c') :
    ∃ op value, link = ((e, op), value) ∧ c.peek.kind = .operator (.assign op) ∧
      e.isAssignable = true ∧ Accepts expr c.advance value c' := by
  rw [assignment, accepts_peekKind_bind] at h
  split at h
  · simp at h
  · next op hop =>
    rw [accepts_advance_bind, accepts_checkTarget_bind] at h
    obtain ⟨hassignable, h⟩ := h
    simp only [accepts_bind, accepts_pure, Option.some.injEq] at h
    obtain ⟨value, _, h, rfl, rfl⟩ := h
    exact ⟨op, value, rfl, assignOp?_eq_some.mp hop, hassignable, h⟩

/-- The assignments behind an expression: none, or a chain that starts with it. -/
theorem assignments_sound (hexpr : Sound expr Expr.erase (Expression n)) {value : Expr Location}
    {vs : List Token} (htarget : Expression n vs e.erase)
    (h : Accepts (assignments expr e) c value c') :
    ∃ us, Reads c us c' ∧ ExprStatement n (vs ++ us) value.erase := by
  obtain ⟨⟨links, last⟩, hloop, rfl⟩ := Reply.map_eq_ok_iff.mp h
  have key := iterate_accepts
    (P := fun e c links last c' => ∃ us, Reads c us c' ∧ ∀ vs, Expression n vs e.erase →
      (links = [] ∧ us = [] ∧ e = last) ∨
        Assignment n (vs ++ us) (links.foldr store last).erase)
    (fun e c => ⟨[], .nil c, fun _ _ => .inl ⟨rfl, rfl, rfl⟩⟩) ?stop ?cons hloop
  case stop =>
    intro e c c' h
    rw [assignment, accepts_peekKind_bind] at h
    split at h
    · exact (accepts_pure.mp h).2.symm
    · rw [accepts_advance_bind, accepts_checkTarget_bind] at h
      simp at h
  case cons =>
    rintro e c target e₁ c₁ links last c' h ⟨us, hread, hrest⟩
    obtain ⟨op, value, ⟨⟩, hkind, hassignable, h⟩ := assignment_accepts h
    obtain ⟨ws, hread', hws⟩ := hexpr h
    refine ⟨_, (reads_kind hkind rfl).trans (hread'.trans hread), fun vs hvs => .inr ?_⟩
    have htarget := target_of_expression hvs (by simpa using hassignable)
    rcases hrest ws hws with ⟨rfl, rfl, rfl⟩ | hchain
    · simpa [store] using Assignment.last htarget hkind hws
    · simpa [store] using Assignment.more htarget hkind hchain
  obtain ⟨us, hread, hchain⟩ := key
  rcases hchain vs htarget with ⟨rfl, rfl, rfl⟩ | hchain
  · exact ⟨[], hread, .plain (by simpa using htarget)⟩
  · exact ⟨us, hread, .assignment hchain⟩

theorem effect_sound (hexpr : Sound expr Expr.erase (Expression n)) :
    Sound (effect expr) Expr.erase (ExprStatement n) := by
  intro c e c' h
  rw [effect, accepts_peek_bind] at h
  split at h
  · next step hstep =>
    rw [accepts_advance_bind, accepts_bind] at h
    obtain ⟨target, c₁, htarget, h⟩ := h
    simp only [accepts_checkTarget_bind, accepts_locationFrom_bind, accepts_pure] at h
    obtain ⟨hassignable, rfl, rfl⟩ := h
    have hkind := step?_eq_some.mp hstep
    obtain ⟨us, hread, hus⟩ := selection_sound hexpr htarget
    have htarget := (Expr.isAssignable_erase target).trans hassignable
    exact ⟨_, (reads_kind hkind rfl).trans hread, .preStep hkind hus htarget⟩
  · rw [accepts_bind] at h
    obtain ⟨value, c₁, hvalue, h⟩ := h
    obtain ⟨us, hread, hus⟩ := hexpr hvalue
    rw [accepts_peekKind_bind] at h
    split at h
    · next step hstep =>
      simp only [accepts_advance_bind, accepts_checkTarget_bind, accepts_locationFrom_bind,
        accepts_pure] at h
      obtain ⟨hassignable, rfl, rfl⟩ := h
      have hkind := step?_eq_some.mp hstep
      have htarget := target_of_expression hus (by simpa using hassignable)
      exact ⟨_, hread.trans (reads_kind hkind rfl), .postStep htarget hkind⟩
    · obtain ⟨vs, hread', hvs⟩ := assignments_sound hexpr hus h
      exact ⟨_, hread.trans hread', hvs⟩

end Effects

/-! ## Statements -/

/-- From `c` to `c'` stands the statement `s`, and if `s` could still take an `else` there is none
at `c'`. -/
def StatementAt (L : Phrase (Stmt Unit)) (c : Cursor) (s : Stmt Location) (c' : Cursor) : Prop :=
  ∃ us, Reads c us c' ∧ L us s.erase ∧
    (s.endsOpen = true → c'.peek.kind ≠ .keyword (.control .elseKw))

section Statements

variable {n : Nat} {S : Phrase (Stmt Unit)} {stmt : Parser (Stmt Location)}
  {expr : Parser (Expr Location)} {node : Location → Stmt Location}

theorem block_sound (hstmt : Sound stmt Stmt.erase S)
    (hd : demand.expected = .token (.punctuation .lbrace)) :
    Sound (block stmt demand) (List.map Stmt.erase) (Block S) := by
  intro c body c' h
  rw [block, accepts_expect_bind, accepts_bind] at h
  obtain ⟨hopen, body, c₁, hbody, h⟩ := h
  simp only [accepts_expect_bind, accepts_pure] at h
  obtain ⟨hclose, rfl, rfl⟩ := h
  have hopen := kind_of_admits hd hopen
  have hclose := kind_of_admits rfl hclose
  obtain ⟨us, hread, hus⟩ := bodyOf_sound hstmt hbody
  have hreads := ((reads_kind hopen rfl).trans hread).trans (reads_kind hclose rfl)
  exact ⟨_, hreads, .mk hopen hus hclose⟩

theorem condition_sound {E : Phrase (Expr Unit)} (hexpr : Sound expr Expr.erase E)
    {word : ControlWord} : Sound (condition expr word) Expr.erase (Condition E) := by
  intro c e c' h
  rw [condition, accepts_expect_bind, accepts_bind] at h
  obtain ⟨hopen, value, c₁, hvalue, h⟩ := h
  simp only [accepts_expect_bind, accepts_pure] at h
  obtain ⟨hclose, rfl, rfl⟩ := h
  have hopen := kind_of_admits rfl hopen
  have hclose := kind_of_admits rfl hclose
  obtain ⟨us, hread, hus⟩ := hexpr hvalue
  have hreads := ((reads_kind hopen rfl).trans hread).trans (reads_kind hclose rfl)
  exact ⟨_, hreads, .mk hopen hus hclose⟩

theorem blockStatement_sound (hstmt : Sound stmt Stmt.erase S)
    (h : Accepts (do let body ← block stmt .block; return (.block · body)) c node c')
    (loc : Location) : StatementAt (StatementForm n S) c (node loc) c' := by
  simp only [accepts_bind, accepts_pure] at h
  obtain ⟨body, _, hbody, rfl, rfl⟩ := h
  obtain ⟨us, hread, hus⟩ := block_sound hstmt rfl hbody
  exact ⟨us, hread, by simpa using .block hus, by simp [Stmt.endsOpen]⟩

theorem localVariables_sound (hexpr : Sound expr Expr.erase (Expression n))
    {type : PrimitiveType} (hkind : c.peek.kind = .keyword (.primitive type))
    (h : Accepts (localVariables expr) c node c') (loc : Location) :
    StatementAt (StatementForm n S) c (node loc) c' := by
  have htype : c.peek.kind.primitiveType? = some type := by simp [hkind, Token.Kind.primitiveType?,
    Keyword.primitiveType?]
  rw [localVariables, accepts_bind] at h
  obtain ⟨_, c₁, h₁, h⟩ := h
  simp only [primitiveType, accepts_peekKind_bind, htype, accepts_advance_bind, accepts_pure] at h₁
  obtain ⟨rfl, rfl⟩ := h₁
  rw [accepts_bind] at h
  obtain ⟨ds, c₂, hds, h⟩ := h
  simp only [accepts_expect_bind, accepts_pure] at h
  obtain ⟨hsemi, rfl, rfl⟩ := h
  have hsemi := kind_of_admits rfl hsemi
  obtain ⟨us, hread, hus⟩ := separated_sound (declarator_sound hexpr rfl) hds
  exact ⟨_, ((reads_kind hkind rfl).trans hread).trans (reads_kind hsemi rfl),
    by simpa using .locals hkind hus hsemi, by simp [Stmt.endsOpen]⟩

theorem effectStatement_sound (hexpr : Sound expr Expr.erase (Expression n))
    (h : Accepts (effectStatement expr) c node c') (loc : Location) :
    StatementAt (StatementForm n S) c (node loc) c' := by
  rw [effectStatement, accepts_bind] at h
  obtain ⟨value, c₁, hvalue, h⟩ := h
  simp only [accepts_expect_bind, accepts_pure] at h
  obtain ⟨hsemi, rfl, rfl⟩ := h
  have hsemi := kind_of_admits rfl hsemi
  obtain ⟨us, hread, hus⟩ := effect_sound hexpr hvalue
  exact ⟨_, hread.trans (reads_kind hsemi rfl), .expr hus hsemi, by simp [Stmt.endsOpen]⟩

theorem ifStatement_sound (hstmt : ∀ {c s c'}, Accepts stmt c s c' → StatementAt S c s c')
    (hexpr : Sound expr Expr.erase (Expression n)) (hkind : c.peek.kind = .keyword (.control .ifKw))
    (h : Accepts (ifStatement stmt expr) c node c') (loc : Location) :
    StatementAt (StatementForm n S) c (node loc) c' := by
  rw [ifStatement, accepts_advance_bind, accepts_bind] at h
  obtain ⟨test, c₁, htest, h⟩ := h
  rw [accepts_bind] at h
  obtain ⟨s, c₂, hs, h⟩ := h
  obtain ⟨us, hread, hus⟩ := condition_sound hexpr htest
  obtain ⟨vs, hread', hvs, helse⟩ := hstmt hs
  simp only [accepts_accept_bind, ↓reduceIte, Bool.false_eq_true] at h
  split at h
  · next hword =>
    simp only [accepts_bind, accepts_pure] at h
    obtain ⟨s', _, hs', rfl, rfl⟩ := h
    obtain ⟨ws, hread'', hws, helse'⟩ := hstmt hs'
    have hclosed : s.endsOpen = false := by
      cases hopen : s.endsOpen with
      | false => rfl
      | true => exact absurd hword (helse hopen)
    have hreads := (((reads_kind hkind rfl).trans hread).trans hread').trans
      ((reads_kind hword rfl).trans hread'')
    exact ⟨_, hreads, .ifElse hkind hus hvs ((Stmt.endsOpen_erase s).trans hclosed) hword hws,
      helse'⟩
  · next hword =>
    obtain ⟨rfl, rfl⟩ := accepts_pure.mp h
    have hreads := ((reads_kind hkind rfl).trans hread).trans hread'
    exact ⟨_, hreads, .ifThen hkind hus hvs, fun _ => hword⟩

theorem whileStatement_sound (hstmt : ∀ {c s c'}, Accepts stmt c s c' → StatementAt S c s c')
    (hexpr : Sound expr Expr.erase (Expression n))
    (hkind : c.peek.kind = .keyword (.control .whileKw))
    (h : Accepts (whileStatement stmt expr) c node c') (loc : Location) :
    StatementAt (StatementForm n S) c (node loc) c' := by
  rw [whileStatement, accepts_advance_bind] at h
  simp only [accepts_bind, accepts_pure] at h
  obtain ⟨test, c₁, htest, s, _, hs, rfl, rfl⟩ := h
  obtain ⟨us, hread, hus⟩ := condition_sound hexpr htest
  obtain ⟨vs, hread', hvs, helse⟩ := hstmt hs
  exact ⟨_, ((reads_kind hkind rfl).trans hread).trans hread', .whileLoop hkind hus hvs, helse⟩

theorem doStatement_sound (hstmt : Sound stmt Stmt.erase S)
    (hexpr : Sound expr Expr.erase (Expression n)) (hkind : c.peek.kind = .keyword (.control .doKw))
    (h : Accepts (doStatement stmt expr) c node c') (loc : Location) :
    StatementAt (StatementForm n S) c (node loc) c' := by
  rw [doStatement, accepts_advance_bind, accepts_bind] at h
  obtain ⟨s, c₁, hs, h⟩ := h
  rw [accepts_expect_bind, accepts_bind] at h
  obtain ⟨hloop, test, c₂, htest, h⟩ := h
  simp only [accepts_expect_bind, accepts_pure] at h
  obtain ⟨hsemi, rfl, rfl⟩ := h
  have hloop := kind_of_admits rfl hloop
  have hsemi := kind_of_admits rfl hsemi
  obtain ⟨us, hread, hus⟩ := hstmt hs
  obtain ⟨vs, hread', hvs⟩ := condition_sound hexpr htest
  have hbody := (reads_kind hkind rfl).trans hread
  have hreads := (hbody.trans ((reads_kind hloop rfl).trans hread')).trans (reads_kind hsemi rfl)
  exact ⟨_, hreads, .doLoop hkind hus hloop hvs hsemi, by simp [Stmt.endsOpen]⟩

theorem label?_sound : Sound label? id (Optional Identifier) := by
  intro c label c' h
  simp only [label?, accepts_sees_bind, decide_eq_true_eq] at h
  split at h
  · next hname =>
    simp only [accepts_advance_bind, accepts_pure] at h
    obtain ⟨rfl, rfl⟩ := h
    exact ⟨_, reads_kind hname rfl, .some (.mk hname)⟩
  · obtain ⟨rfl, rfl⟩ := accepts_pure.mp h
    exact ⟨[], .nil _, .none⟩

theorem jump_sound (hd : demand.expected = .token (.punctuation .semicolon))
    {label : Option String} (h : Accepts (jump demand) c label c') :
    ∃ us s, Reads c.advance (us ++ [s]) c' ∧ Optional Identifier us label ∧ Mark .semicolon s := by
  rw [jump, accepts_advance_bind, accepts_bind] at h
  obtain ⟨label, c₁, hlabel, h⟩ := h
  simp only [accepts_expect_bind, accepts_pure] at h
  obtain ⟨hsemi, rfl, rfl⟩ := h
  have hsemi := kind_of_admits hd hsemi
  obtain ⟨us, hread, hus⟩ := label?_sound hlabel
  exact ⟨us, _, hread.trans (reads_kind hsemi rfl), hus, hsemi⟩

theorem breakStatement_sound (hkind : c.peek.kind = .keyword (.control .breakKw))
    (h : Accepts breakStatement c node c') (loc : Location) :
    StatementAt (StatementForm n S) c (node loc) c' := by
  simp only [breakStatement, accepts_bind, accepts_pure] at h
  obtain ⟨label, _, hjump, rfl, rfl⟩ := h
  obtain ⟨us, s, hread, hus, hsemi⟩ := jump_sound rfl hjump
  exact ⟨_, (reads_kind hkind rfl).trans hread, .breakTo hkind hus hsemi, by simp [Stmt.endsOpen]⟩

theorem continueStatement_sound (hkind : c.peek.kind = .keyword (.control .continueKw))
    (h : Accepts continueStatement c node c') (loc : Location) :
    StatementAt (StatementForm n S) c (node loc) c' := by
  simp only [continueStatement, accepts_bind, accepts_pure] at h
  obtain ⟨label, _, hjump, rfl, rfl⟩ := h
  obtain ⟨us, s, hread, hus, hsemi⟩ := jump_sound rfl hjump
  exact ⟨_, (reads_kind hkind rfl).trans hread, .continueTo hkind hus hsemi,
    by simp [Stmt.endsOpen]⟩

theorem returnStatement_sound (hexpr : Sound expr Expr.erase (Expression n))
    (hkind : c.peek.kind = .keyword (.control .returnKw))
    (h : Accepts (returnStatement expr) c node c') (loc : Location) :
    StatementAt (StatementForm n S) c (node loc) c' := by
  simp only [returnStatement, accepts_advance_bind, accepts_sees_bind] at h
  split at h
  · simp only [accepts_pure_bind, accepts_expect_bind, accepts_pure] at h
    obtain ⟨hsemi, rfl, rfl⟩ := h
    have hsemi := kind_of_admits rfl hsemi
    exact ⟨_, (reads_kind hkind rfl).trans (reads_kind hsemi rfl), .returnWith hkind .none hsemi,
      by simp [Stmt.endsOpen]⟩
  · simp only [accepts_bind, accepts_map] at h
    obtain ⟨_, c₁, ⟨value, hvalue, rfl⟩, _, _, h₂, h⟩ := h
    obtain ⟨hsemi, rfl, rfl⟩ := accepts_expect.mp h₂
    obtain ⟨rfl, rfl⟩ := accepts_pure.mp h
    have hsemi := kind_of_admits rfl hsemi
    obtain ⟨us, hread, hus⟩ := hexpr hvalue
    exact ⟨_, ((reads_kind hkind rfl).trans hread).trans (reads_kind hsemi rfl),
      .returnWith hkind (.some hus) hsemi, by simp [Stmt.endsOpen]⟩

theorem labeledStatement_sound (hstmt : ∀ {c s c'}, Accepts stmt c s c' → StatementAt S c s c')
    (hkind : c.peek.kind = .identifier) (hcolon : c.peekNext.kind = .punctuation .colon)
    (h : Accepts (labeledStatement stmt) c node c') (loc : Location) :
    StatementAt (StatementForm n S) c (node loc) c' := by
  rw [peekNext_eq] at hcolon
  rw [labeledStatement, accepts_advance_bind, accepts_advance_bind] at h
  simp only [accepts_bind, accepts_pure] at h
  obtain ⟨s, _, hs, rfl, rfl⟩ := h
  obtain ⟨us, hread, hus, helse⟩ := hstmt hs
  have hreads := (reads_kind hkind rfl).trans ((reads_kind hcolon rfl).trans hread)
  exact ⟨_, hreads, .labeled hkind hcolon hus, helse⟩

theorem catchClause_sound (hstmt : Sound stmt Stmt.erase S) {clause : CatchClause Location}
    (hword : c.peek.kind = .keyword (.control .catchKw))
    (h : Accepts (catchClause stmt) c.advance clause c') :
    ∃ us, Reads c us c' ∧ Handler S us clause.erase := by
  simp only [catchClause, accepts_expect_bind, accepts_name_bind] at h
  obtain ⟨hopen, htype, hname, hclose, h⟩ := h
  simp only [accepts_bind, accepts_pure] at h
  obtain ⟨body, _, hbody, rfl, rfl⟩ := h
  have hopen := kind_of_admits rfl hopen
  have htype := identifier_of_admits rfl htype
  have hname := identifier_of_admits rfl hname
  have hclose := kind_of_admits rfl hclose
  obtain ⟨us, hread, hus⟩ := block_sound hstmt rfl hbody
  have hreads := (reads_kind hword rfl).trans ((reads_kind hopen rfl).trans
    ((reads_kind htype rfl).trans ((reads_kind hname rfl).trans
      ((reads_kind hclose rfl).trans hread))))
  exact ⟨_, hreads, .mk hword hopen htype hname hclose hus⟩

theorem catches_sound (hstmt : Sound stmt Stmt.erase S) :
    Sound (many do
        if ← accept (.keyword (.control .catchKw)) then return some (← catchClause stmt)
        else return none) (List.map CatchClause.erase) (Repeated (Handler S)) := by
  refine many_sound ?_ ?_
  · intro c clause c' h
    obtain ⟨_, ⟨⟩, hword, h⟩ | ⟨⟨⟩, -⟩ := accepts_behind.mp h
    exact catchClause_sound hstmt hword h
  · intro c c' h
    obtain ⟨_, ⟨⟩, -⟩ | ⟨-, -, hstill⟩ := accepts_behind.mp h
    exact hstill

theorem tryStatement_sound (hstmt : Sound stmt Stmt.erase S)
    (hkind : c.peek.kind = .keyword (.control .tryKw))
    (h : Accepts (tryStatement stmt) c node c') (loc : Location) :
    StatementAt (StatementForm n S) c (node loc) c' := by
  rw [tryStatement, accepts_advance_bind, accepts_bind] at h
  obtain ⟨body, c₁, hbody, h⟩ := h
  rw [accepts_bind] at h
  obtain ⟨catches, c₂, hcatches, h⟩ := h
  obtain ⟨us, hread, hus⟩ := block_sound hstmt rfl hbody
  obtain ⟨vs, hread', hvs⟩ := catches_sound hstmt hcatches
  have hreads := ((reads_kind hkind rfl).trans hread).trans hread'
  simp only [accepts_accept_bind, ↓reduceIte, Bool.false_eq_true] at h
  split at h
  · next hword =>
    simp only [accepts_bind, accepts_pure] at h
    obtain ⟨cleanup, _, hcleanup, rfl, rfl⟩ := h
    obtain ⟨ws, hread'', hws⟩ := block_sound hstmt rfl hcleanup
    refine ⟨_, hreads.trans ((reads_kind hword rfl).trans hread''), ?_, by simp [Stmt.endsOpen]⟩
    rw [Stmt.erase_tryFinally]
    exact .tryFinally hkind hus hvs hword hws
  · split at h
    · simp at h
    · next hsome =>
      obtain ⟨rfl, rfl⟩ := accepts_pure.mp h
      have hne : catches.map CatchClause.erase ≠ [] := by simpa using hsome
      exact ⟨_, hreads, by simpa using .tryCatch hkind hus hvs hne, by simp [Stmt.endsOpen]⟩

theorem statementOf_sound (hstmt : ∀ {c s c'}, Accepts stmt c s c' → StatementAt S c s c')
    (hexpr : Sound expr Expr.erase (Expression n))
    (h : Accepts (statementOf stmt expr c.peek.kind) c node c') (loc : Location) :
    StatementAt (StatementForm n S) c (node loc) c' := by
  have hsound : Sound stmt Stmt.erase S := by
    intro c s c' h
    obtain ⟨us, hread, hus, -⟩ := hstmt h
    exact ⟨us, hread, hus⟩
  unfold statementOf at h
  split at h
  · exact blockStatement_sound hsound h loc
  · next hkind =>
    simp only [accepts_advance_bind, accepts_pure] at h
    obtain ⟨rfl, rfl⟩ := h
    exact ⟨_, reads_kind hkind rfl, .empty hkind, by simp [Stmt.endsOpen]⟩
  · next hkind => exact localVariables_sound hexpr hkind h loc
  · next hkind => exact ifStatement_sound hstmt hexpr hkind h loc
  · next hkind => exact whileStatement_sound hstmt hexpr hkind h loc
  · next hkind => exact doStatement_sound hsound hexpr hkind h loc
  · next hkind => exact breakStatement_sound hkind h loc
  · next hkind => exact continueStatement_sound hkind h loc
  · next hkind => exact returnStatement_sound hexpr hkind h loc
  · next hkind => exact tryStatement_sound hsound hkind h loc
  · exact effectStatement_sound hexpr h loc
  · exact effectStatement_sound hexpr h loc
  · exact effectStatement_sound hexpr h loc
  · exact absurd h not_accepts_fail
  · next hkind =>
    rw [accepts_peekNextKind_bind] at h
    split at h
    · next hcolon => exact labeledStatement_sound hstmt hkind hcolon h loc
    · exact effectStatement_sound hexpr h loc
  · exact effectStatement_sound hexpr h loc

theorem statement_accepts : ∀ (n : Nat) {c s c'}, Accepts (statement n) c s c' →
    StatementAt (Statement n) c s c'
  | 0, _, _, _, h => by simp [Accepts, statement, tooDeep, Reply.error] at h
  | n + 1, c, s, c', h => by
    obtain ⟨node, hnode, rfl⟩ := accepts_located.mp h
    exact statementOf_sound (statement_accepts n) (expression_sound n) hnode _

theorem statement_sound (n : Nat) : Sound (statement n) Stmt.erase (Statement n) := by
  intro c s c' h
  obtain ⟨us, hread, hus, -⟩ := statement_accepts n h
  exact ⟨us, hread, hus⟩

end Statements

/-! ## Classes -/

section Classes

variable {limit : Nat} {set : ModifierSet} {type : PrimitiveType} {word : String}

/-- A round of a modifier list without a report reads one more modifier, a new one that fits. -/
structure ModifierStep (allowed : Modifier → Bool)
    (next : List Modifier → Parser (Option (Unit × List Modifier))) : Prop where
  stop : ∀ {seen c c'}, Accepts (next seen) c none c' → c' = c
  more : ∀ {seen c seen' c'}, Accepts (next seen) c (some ((), seen')) c' →
    ∃ m, c.peek.kind = .keyword (.modifier m) ∧ c' = c.advance ∧ seen' = seen ++ [m] ∧
      m ∉ seen ∧ allowed m = true

theorem addModifier_accepts {seen seen' : List Modifier} {m : Modifier}
    (h : Accepts (addModifier seen m) c seen' c') :
    m ∉ seen ∧ seen' = seen ++ [m] ∧ c' = c.advance := by
  rw [addModifier, accepts_advance_bind] at h
  split at h
  · simp at h
  · next hnew =>
    obtain ⟨rfl, rfl⟩ := accepts_pure.mp h
    exact ⟨hnew, rfl, rfl⟩

theorem classModifier_step : ModifierStep Modifier.onClass classModifier where
  stop h := by
    rw [classModifier, accepts_peekKind_bind] at h
    split at h
    · exact (accepts_pure.mp h).2.symm
    · split at h <;> simp at h
  more h := by
    rw [classModifier, accepts_peekKind_bind] at h
    split at h
    · simp at h
    · next m hm =>
      split at h
      · next hfits =>
        simp only [accepts_bind, accepts_pure, Option.some.injEq, Prod.mk.injEq, true_and] at h
        obtain ⟨_, _, h, rfl, rfl⟩ := h
        obtain ⟨hnew, rfl, rfl⟩ := addModifier_accepts h
        exact ⟨m, modifier?_eq_some.mp hm, rfl, rfl, hnew, hfits⟩
      · simp at h

theorem memberModifier_step : ModifierStep Modifier.onMember memberModifier where
  stop h := by
    rw [memberModifier, accepts_peekKind_bind] at h
    split at h
    · exact (accepts_pure.mp h).2.symm
    · split at h
      · simp at h
      · exact (accepts_pure.mp h).2.symm
  more h := by
    rw [memberModifier, accepts_peekKind_bind] at h
    split at h
    · simp at h
    · next m hm =>
      split at h
      · next hfits =>
        simp only [accepts_bind, accepts_pure, Option.some.injEq, Prod.mk.injEq, true_and] at h
        obtain ⟨_, _, h, rfl, rfl⟩ := h
        obtain ⟨hnew, rfl, rfl⟩ := addModifier_accepts h
        exact ⟨m, modifier?_eq_some.mp hm, rfl, rfl, hnew, hfits⟩
      · simp at h

theorem modifiers_sound {allowed : Modifier → Bool}
    {next : List Modifier → Parser (Option (Unit × List Modifier))}
    (hnext : ModifierStep allowed next) : Sound (modifiers next) id (Modifiers allowed) := by
  intro c set c' h
  obtain ⟨⟨_, seen⟩, hloop, rfl⟩ := Reply.map_eq_ok_iff.mp h
  -- the modifiers read in the rounds that are left, behind those already seen
  have key := iterate_accepts
    (P := fun seen c _ seen' c' => ∃ us ms, Reads c us c' ∧
      us.map (·.kind) = ms.map (fun m => .keyword (.modifier m)) ∧ seen' = seen ++ ms ∧
      (seen.Nodup → seen'.Nodup) ∧ ∀ m ∈ ms, allowed m = true)
    (fun seen c => ⟨[], [], .nil c, rfl, by simp, id, by simp⟩) (fun _ _ _ => hnext.stop) ?_ hloop
  · obtain ⟨us, ms, hread, hkinds, rfl, hnodup, hfits⟩ := key
    exact ⟨us, hread, .mk hkinds (hnodup .nil) hfits⟩
  · rintro seen c _ seen₁ c₁ _ seen' c' h ⟨us, ms, hread, hkinds, rfl, hnodup, hfits⟩
    obtain ⟨m, hkind, rfl, rfl, hnew, hfit⟩ := hnext.more h
    refine ⟨_, m :: ms, (reads_kind hkind rfl).trans hread, ?_, by simp, fun hseen => ?_, ?_⟩
    · simp [hkind, hkinds]
    · exact hnodup (List.nodup_append.mpr ⟨hseen, by simp, by rintro a ha b hb rfl; simp_all⟩)
    · intro m' hm'
      rcases List.mem_cons.mp hm' with rfl | hm'
      · exact hfit
      · exact hfits m' hm'

theorem primitiveType_accepts (h : Accepts (primitiveType demand) c type c') :
    c.peek.kind = .keyword (.primitive type) ∧ c' = c.advance := by
  rw [primitiveType, accepts_peekKind_bind] at h
  split at h
  · next htype =>
    simp only [accepts_advance_bind, accepts_pure] at h
    obtain ⟨rfl, rfl⟩ := h
    exact ⟨primitiveType?_eq_some.mp htype, rfl⟩
  · exact absurd h not_accepts_fail

theorem parameter_sound : Sound parameter id Parameter := by
  intro c param c' h
  rw [parameter, accepts_bind] at h
  obtain ⟨type, c₁, htype, h⟩ := h
  obtain ⟨hword, rfl⟩ := primitiveType_accepts htype
  rw [accepts_name_bind] at h
  obtain ⟨hname, h⟩ := h
  obtain ⟨rfl, rfl⟩ := accepts_pure.mp h
  have hname := identifier_of_admits rfl hname
  exact ⟨_, (reads_kind hword rfl).trans (reads_kind hname rfl), .mk hword hname⟩

theorem methodRest_sound {us : List Token} {t x : Token} (hus : Modifiers Modifier.onMember us set)
    (hword : Word (.primitive type) t) (hname : x.kind = .identifier)
    {node : Location → Member Location} (hopen : c.peek.kind = .punctuation .lparen)
    (h : Accepts (methodRest limit set type x.text) c node c') (loc : Location) :
    ∃ vs, Reads c vs c' ∧ MemberDecl limit (us ++ t :: x :: vs) (node loc).erase := by
  -- the list of parameters, from its opening parenthesis to its closing one
  have hparams : ∃ params vs c₁, Reads c vs c₁ ∧ Enclosed Parameter vs params ∧
      Accepts (do
        let body ← block (statement limit) .methodBody
        return (.method · set type x.text params body)) c₁ node c' := by
    simp only [methodRest, accepts_advance_bind, accepts_sees_bind] at h
    split at h
    · simp only [accepts_pure_bind, accepts_expect_bind] at h
      obtain ⟨hclose, h⟩ := h
      have hclose := kind_of_admits rfl hclose
      exact ⟨[], _, _, (reads_kind hopen rfl).trans (reads_kind hclose rfl), .empty hopen hclose, h⟩
    · rw [accepts_bind] at h
      obtain ⟨params, c₁, hparams, h⟩ := h
      rw [accepts_expect_bind] at h
      obtain ⟨hclose, h⟩ := h
      have hclose := kind_of_admits rfl hclose
      obtain ⟨vs, hread, hvs⟩ := separated_sound parameter_sound hparams
      rw [List.map_id] at hvs
      exact ⟨params, _, _, ((reads_kind hopen rfl).trans hread).trans (reads_kind hclose rfl),
        .list hopen hvs hclose, h⟩
  obtain ⟨params, vs, c₁, hread, hvs, h⟩ := hparams
  simp only [accepts_bind, accepts_pure] at h
  obtain ⟨body, _, hbody, rfl, rfl⟩ := h
  obtain ⟨ws, hread', hws⟩ := block_sound (statement_sound limit) rfl hbody
  refine ⟨vs ++ ws, hread.trans hread', ?_⟩
  rw [Member.erase_method]
  simpa using MemberDecl.method hus hword hname hvs hws

theorem fieldRest_sound {us : List Token} {t x : Token} (hus : Modifiers Modifier.onMember us set)
    (hword : Word (.primitive type) t) (hname : x.kind = .identifier)
    {node : Location → Member Location} (h : Accepts (fieldRest limit set type x.text) c node c')
    (loc : Location) :
    ∃ vs, Reads c vs c' ∧ MemberDecl limit (us ++ t :: x :: vs) (node loc).erase := by
  have hexpr : Sound (expression limit) Expr.erase (Expression limit) := expression_sound limit
  rw [fieldRest, accepts_bind] at h
  obtain ⟨init, c₁, hinit, h⟩ := h
  rw [accepts_bind] at h
  obtain ⟨more, c₂, hmore, h⟩ := h
  simp only [accepts_expect_bind, accepts_pure] at h
  obtain ⟨hsemi, rfl, rfl⟩ := h
  have hsemi := kind_of_admits rfl hsemi
  obtain ⟨vs, hread, hvs⟩ := initializer_sound hexpr hname hinit
  obtain ⟨ws, hread', hws⟩ := manyAfter_sound (declarator_sound hexpr rfl) hmore
  refine ⟨_, (hread.trans hread').trans (reads_kind hsemi rfl), ?_⟩
  simpa using MemberDecl.field hus hword (.mk hvs hws) hsemi

theorem member_sound (limit : Nat) : Sound (member limit) Member.erase (MemberDecl limit) := by
  intro c m c' h
  rw [member, accepts_located] at h
  obtain ⟨node, h, rfl⟩ := h
  rw [accepts_bind] at h
  obtain ⟨set, c₁, hset, h⟩ := h
  rw [accepts_bind] at h
  obtain ⟨type, c₂, htype, h⟩ := h
  obtain ⟨us, hread, hus⟩ := modifiers_sound memberModifier_step hset
  obtain ⟨hword, rfl⟩ := primitiveType_accepts htype
  rw [accepts_name_bind, accepts_sees_bind] at h
  obtain ⟨hname, h⟩ := h
  have hname := identifier_of_admits rfl hname
  have hhead := hread.trans ((reads_kind hword rfl).trans (reads_kind hname rfl))
  split at h
  · next hopen =>
    obtain ⟨vs, hread', hvs⟩ :=
      methodRest_sound hus hword hname (of_decide_eq_true hopen) h (c'.locationFrom c.peek)
    exact ⟨_, hhead.trans hread', by simpa using hvs⟩
  · obtain ⟨vs, hread', hvs⟩ := fieldRest_sound hus hword hname h (c'.locationFrom c.peek)
    exact ⟨_, hhead.trans hread', by simpa using hvs⟩

theorem classDecl_sound (limit : Nat) :
    Sound (classDecl limit) ClassDecl.erase (ClassDeclaration limit) := by
  intro c decl c' h
  rw [classDecl, accepts_located] at h
  obtain ⟨node, h, rfl⟩ := h
  rw [accepts_bind] at h
  obtain ⟨set, c₁, hset, h⟩ := h
  rw [accepts_expect_bind, accepts_name_bind, accepts_bind] at h
  obtain ⟨hword, hname, members, c₂, hbody, h⟩ := h
  obtain ⟨rfl, rfl⟩ := accepts_pure.mp h
  rw [classBody, accepts_expect_bind, accepts_bind] at hbody
  obtain ⟨hopen, items, c₃, hitems, hbody⟩ := hbody
  simp only [accepts_accept_bind, ↓reduceIte, Bool.false_eq_true] at hbody
  split at hbody
  · next hclose =>
    obtain ⟨rfl, rfl⟩ := accepts_pure.mp hbody
    have hword := kind_of_admits rfl hword
    have hname := identifier_of_admits rfl hname
    have hopen := kind_of_admits rfl hopen
    obtain ⟨us, hread, hus⟩ := modifiers_sound classModifier_step hset
    obtain ⟨vs, hread', hvs⟩ := bodyOf_sound (member_sound limit) hitems
    have hreads := hread.trans ((reads_kind hword rfl).trans ((reads_kind hname rfl).trans
      ((reads_kind hopen rfl).trans (hread'.trans (reads_kind hclose rfl)))))
    refine ⟨_, hreads, ?_⟩
    simpa using ClassDeclaration.mk hus hword hname hopen hvs hclose
  · simp at hbody

end Classes

/-! ## The compilation unit -/

theorem name_sound (hd : demand.expected = .identifier) : Sound (name demand) id Identifier := by
  intro c part c' h
  rw [name, accepts_expect_bind] at h
  obtain ⟨hname, h⟩ := h
  obtain ⟨rfl, rfl⟩ := accepts_pure.mp h
  have hname := identifier_of_admits hd hname
  exact ⟨_, reads_kind hname rfl, .mk hname⟩

theorem qualifiedName_sound (hd : demand.expected = .identifier) :
    Sound (qualifiedName demand) id QualifiedName := by
  intro c word c' h
  rw [qualifiedName, accepts_name_bind, accepts_bind] at h
  obtain ⟨hfirst, more, c₁, hmore, h⟩ := h
  obtain ⟨rfl, rfl⟩ := accepts_pure.mp h
  have hfirst := identifier_of_admits hd hfirst
  obtain ⟨us, hread, hus⟩ := manyAfter_sound (name_sound rfl) hmore
  rw [List.map_id] at hus
  exact ⟨_, (reads_kind hfirst rfl).trans hread, .mk hfirst hus⟩

theorem clause_sound {nameDemand endDemand : Demand} (hname : nameDemand.expected = .identifier)
    (hend : endDemand.expected = .token (.punctuation .semicolon)) {opening : DeclarationWord}
    {word : String} (hkind : c.peek.kind = .keyword (.declaration opening))
    (h : Accepts (clause nameDemand endDemand) c word c') :
    ∃ us, Reads c us c' ∧ Clause opening us word := by
  rw [clause, accepts_advance_bind, accepts_bind] at h
  obtain ⟨word, c₁, hword, h⟩ := h
  simp only [accepts_expect_bind, accepts_pure] at h
  obtain ⟨hsemi, rfl, rfl⟩ := h
  have hsemi := kind_of_admits hend hsemi
  obtain ⟨us, hread, hus⟩ := qualifiedName_sound hname hword
  exact ⟨_, ((reads_kind hkind rfl).trans hread).trans (reads_kind hsemi rfl), .mk hkind hus hsemi⟩

theorem package?_sound : Sound package? id (Optional (Clause .packageKw)) := by
  intro c package c' h
  rw [package?, accepts_sees_bind] at h
  split at h
  · next hkind =>
    obtain ⟨word, hword, rfl⟩ := accepts_recover.mp h
    obtain ⟨us, hread, hus⟩ := clause_sound rfl rfl (of_decide_eq_true hkind) hword
    exact ⟨us, hread, .some hus⟩
  · obtain ⟨rfl, rfl⟩ := accepts_pure.mp h
    exact ⟨[], .nil c, .none⟩

theorem nextImport_sound {item : Option String}
    (h : Accepts (do
        if ← sees (.keyword (.declaration .importKw)) then
          return some (← recover .topLevel importDecl)
        else return none) c (some item) c') :
    ∃ us name, item = some name ∧ Reads c us c' ∧ Clause .importKw us name := by
  rw [accepts_sees_bind] at h
  split at h
  · next hkind =>
    simp only [accepts_bind, accepts_recover, accepts_pure, Option.some.injEq] at h
    obtain ⟨_, _, ⟨name, hname, rfl⟩, rfl, rfl⟩ := h
    obtain ⟨us, hread, hus⟩ := clause_sound rfl rfl (of_decide_eq_true hkind) hname
    exact ⟨us, name, rfl, hread, hus⟩
  · simp at h

theorem imports_sound : Sound imports id (Repeated (Clause .importKw)) := by
  intro c names c' h
  simp only [imports, accepts_bind, accepts_pure] at h
  obtain ⟨items, _, hitems, rfl, rfl⟩ := h
  refine many_accepts (P := fun c items c' => ∃ us, Reads c us c' ∧
    Repeated (Clause .importKw) us (items.filterMap id)) (fun c => ⟨[], .nil c, .nil⟩) ?_ ?_ hitems
  · intro c c' h
    rw [accepts_sees_bind] at h
    split at h
    · simp at h
    · exact (accepts_pure.mp h).2.symm
  · rintro c item c₁ items c' h ⟨vs, hread', hvs⟩
    obtain ⟨us, name, rfl, hread, hus⟩ := nextImport_sound h
    exact ⟨us ++ vs, hread.trans hread', .cons hus hvs⟩

@[simp] theorem accepts_classAhead_bind {f : Bool → Parser β} {b : β} :
    Accepts (classAhead >>= f) c b c' ↔
      Accepts (f (c.rest.any (·.kind = .keyword (.declaration .classKw)))) c b c' := Iff.rfl

theorem locateClass_accepts {found : Bool} (h : Accepts (locateClass false) c found c') :
    found = true ∧ c' = c := by
  rw [locateClass, accepts_classAhead_bind] at h
  split at h
  · rw [accepts_peekKind_bind] at h
    split at h
    · obtain ⟨rfl, rfl⟩ := accepts_pure.mp h
      exact ⟨rfl, rfl⟩
    · simp at h
  · simp at h

/-- Without a report the first attempt at a class succeeds. -/
theorem attempt_accepts {limit : Nat} {o : Option (Unit × ClassSearch)}
    (h : Accepts (attempt limit .first) c o c') :
    ∃ decl, o = some ((), .found decl) ∧ Accepts (classDecl limit) c decl c' := by
  rw [attempt, attemptFrom, accepts_bind] at h
  obtain ⟨there, c₁, hlocate, h⟩ := h
  obtain ⟨rfl, rfl⟩ := locateClass_accepts hlocate
  simp only [↓reduceIte, accepts_bind, accepts_recover] at h
  obtain ⟨_, _, ⟨decl, hdecl, rfl⟩, h⟩ := h
  obtain ⟨rfl, rfl⟩ := accepts_pure.mp h
  exact ⟨decl, rfl, hdecl⟩

theorem classDeclaration_accepts {limit : Nat} {found : Option (ClassDecl Location)}
    (h : Accepts (classDeclaration limit) c found c') :
    ∃ decl, found = some decl ∧ Accepts (classDecl limit) c decl c' := by
  obtain ⟨⟨units, search⟩, hloop, rfl⟩ := Reply.map_eq_ok_iff.mp h
  obtain ⟨hstop, -, -⟩ | ⟨_, _, c₁, units', hstep, -, hrest⟩ := iterate_accepts_cases hloop
  · obtain ⟨decl, hnone, -⟩ := attempt_accepts hstop
    cases hnone
  · obtain ⟨decl, hfound, hdecl⟩ := attempt_accepts hstep
    cases hfound
    -- once the class is found the loop only stops
    obtain ⟨-, hrest⟩ | ⟨-, rfl, rfl⟩ := hrest
    · obtain ⟨hstop, -, rfl⟩ | ⟨_, _, _, _, hstep, -⟩ := iterate_accepts_cases hrest
      · obtain ⟨-, rfl⟩ := accepts_pure.mp hstop
        exact ⟨decl, rfl, hdecl⟩
      · exact absurd (accepts_pure.mp hstep).1 (by simp)
    · exact ⟨decl, rfl, hdecl⟩

/-- What an accepted source consists of. -/
theorem program_accepts {limit : Nat} {prog : Program Location} (h : Accepts (program limit) c prog c') :
    ∃ us vs ws c₁ c₂ decl, Reads c us c₁ ∧ Reads c₁ vs c₂ ∧ Reads c₂ ws c' ∧ c'.rest = [] ∧
      Optional (Clause .packageKw) us prog.package ∧
      Repeated (Clause .importKw) vs prog.imports ∧ ClassDeclaration limit ws decl.erase ∧
      Accepts (classDecl limit) c₂ decl c' ∧ prog.classDecl = some decl := by
  obtain ⟨package, c₁, hpackage, h⟩ := accepts_bind.mp h
  obtain ⟨imports, c₂, himports, h⟩ := accepts_bind.mp h
  obtain ⟨found, c₃, hclass, h⟩ := accepts_bind.mp h
  obtain ⟨us, hus, header⟩ := package?_sound hpackage
  obtain ⟨vs, hvs, clauses⟩ := imports_sound himports
  obtain ⟨decl, rfl, hdecl⟩ := classDeclaration_accepts hclass
  obtain ⟨ws, hws, given⟩ := classDecl_sound limit hdecl
  rw [accepts_atEnd_bind] at h
  split at h
  · next hend =>
    obtain ⟨rfl, rfl⟩ := accepts_pure.mp h
    exact ⟨us, vs, ws, c₁, c₂, decl, hus, hvs, hws, atEnd_iff.mp hend, header, clauses, given,
      hdecl, rfl⟩
  · simp at h

theorem program_sound {limit : Nat} {p : Program Location}
    (h : Accepts (program limit) c p c') : CompilationUnit limit c.rest p.erase := by
  obtain ⟨us, vs, ws, c₁, c₂, decl, hus, hvs, hws, hend, header, clauses, given, -, hdecl⟩ :=
    program_accepts h
  have hall := ((hus.trans hvs).trans hws).rest_eq
  rw [hend, List.append_nil] at hall
  rw [hall, Program.erase, Program.map, hdecl]
  exact .mk header clauses given

end Parser

/-! ## Whole sources -/

theorem Diagnostic.withoutCascades_eq_nil {ds : List Diagnostic} :
    withoutCascades ds = [] ↔ ds = [] := by
  cases ds <;> simp [withoutCascades]

theorem parse_diagnostics_eq_nil {tokens : List Token} (h : (parse tokens).diagnostics = []) :
    ∃ c, Parser.Accepts (Parser.program maxNesting) (.ofTokens tokens)
      (parse tokens).program c := by
  unfold parse at h ⊢
  rcases hreply : Parser.program maxNesting (.ofTokens tokens) with ⟨⟨d⟩ | ⟨p⟩, reports, c⟩
  · simp [hreply, Diagnostic.withoutCascades_eq_nil] at h
  · simp only [hreply, Diagnostic.withoutCascades_eq_nil] at h
    subst h
    exact ⟨c, hreply⟩

/-- **A clean parse is a derivation.** If nothing is reported there is a class, and the tokens
that count, all of them and in order, derive the program without its places. -/
theorem parse_sound (tokens : List Token) (h : (parse tokens).diagnostics = []) :
    (parse tokens).program.classDecl.isSome = true ∧
      CompilationUnit maxNesting (tokens.filter (·.kind.isKept)) (parse tokens).program.erase := by
  obtain ⟨c, haccepts⟩ := parse_diagnostics_eq_nil h
  have hunit := Parser.program_sound haccepts
  refine ⟨?_, hunit⟩
  have hclass := hunit.classDecl_isSome
  rwa [Program.erase, Program.map, Option.isSome_map] at hclass

theorem parse_sound_labeled_loop :
    let tokens := (lex "class A \x7b int f = 1 + x.y; void m() \x7b l: while (f < 9)
      if (g) f = h += 2; else ++this.f; \x7d \x7d").tokens
    (parse tokens).diagnostics = [] ∧ (parse tokens).program.classDecl.isSome = true ∧
      CompilationUnit maxNesting (tokens.filter (·.kind.isKept))
        (parse tokens).program.erase := by
  intro tokens
  have hclean : (parse tokens).diagnostics = [] := by decide +kernel
  exact ⟨hclean, parse_sound tokens hclean⟩

end JavaSubset
