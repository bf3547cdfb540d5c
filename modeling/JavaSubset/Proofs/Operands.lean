import JavaSubset.Proofs.Earliest

/-!
# Operands wherever they stand

`Portable stop p c` : what `p` accepts from `c` on, it accepts in the same way wherever the same
tokens stand, if the token behind them is the same or one that `stop` allows. Whatever is enclosed
in parentheses has the same token behind it anyway, so that only names, selections and signs need
an argument of their own (`unary_portable`). A chain needs that no operator of its tier follows
(`chain_portable`).

`Settles bound p us e` : wherever the tokens `us` stand in front of one that ends an operand, `p`
reads them and gives `e`, with its locations. A unary phrase settles what it gives
(`unary_settles`), and so does an expression (`expression_settles`).
-/

namespace JavaSubset

open Cursor Grammar

namespace Parser

variable {α β γ σ : Type} {p : Parser α} {f : α → Parser β} {c c' d d' : Cursor} {us : List Token}
  {stop stop' : Token.Kind → Prop} {demand : Demand} {kind : Token.Kind}

/-! ## The token behind -/

/-- The same token is next at both cursors, or one that `stop` allows is next at the second. -/
def Followed (stop : Token.Kind → Prop) (c d : Cursor) : Prop :=
  (∃ v, v ≠ [] ∧ Ahead v c d) ∨ stop d.peek.kind

/-- Before tokens that both cursors read, the first of these is next. -/
theorem Followed.before (h : Followed stop c' d') (hc : Reads c us c') (hd : Reads d us d')
    (hstop : us = [] → ∀ k, stop k → stop' k) : Followed stop' c d := by
  by_cases hus : us = []
  · subst hus
    rw [hc.of_nil, hd.of_nil] at h
    exact h.imp id (hstop rfl _)
  · exact .inl ⟨us, hus, ahead_of_reads hc hd⟩

/-- The next token is the same, unless nothing is read. -/
theorem Followed.peek_cases (h : Followed stop c' d') (hc : Reads c us c') (hd : Reads d us d') :
    d.peek = c.peek ∨ c' = c ∧ stop d.peek.kind := by
  cases us with
  | nil =>
    rw [hc.of_nil, hd.of_nil] at h
    obtain ⟨v, hv, hahead⟩ | hstop := h
    · exact .inl (hahead.peek_eq hv)
    · exact .inr ⟨hc.of_nil, hstop⟩
  | cons t us => exact .inl (by rw [hc.of_cons.1, hd.of_cons.1])

/-! ## Portable parsers -/

def Portable (stop : Token.Kind → Prop) (p : Parser α) (c : Cursor) : Prop :=
  ∀ ⦃a c'⦄, Accepts p c a c' → ∃ us, Reads c us c' ∧ ∀ ⦃d d'⦄, d.last = c.last → Reads d us d' →
    Followed stop c' d' → Accepts p d a d'

/-- The parser accepts nothing without reading something. -/
def Moves (p : Parser α) (c : Cursor) : Prop := ∀ a, ¬ Accepts p c a c

theorem Advances.moves (h : Advances (fun _ => True) p c) : Moves p c :=
  fun _ haccepts => Nat.lt_irrefl _ (h.progress haccepts trivial)

theorem Moves.of_located {p : Parser (Location → α)} (h : Moves (located p) c) : Moves p c :=
  fun node haccepts => h _ (.located node haccepts)

/-- What is accepted depends on the next token at most. -/
theorem Timely.portable {B : List Token → Prop} (h : Timely B p c) :
    Portable (fun _ => False) p c := by
  intro a c' haccepts
  obtain ⟨us, hread, hconfirmed⟩ := h.accepts haccepts
  refine ⟨us, hread, fun d d' hlast hread' hfollowed => ?_⟩
  obtain ⟨v, hv, hahead⟩ | hfalse := hfollowed
  · have hshares : Shares (us ++ v) c d := ⟨hahead.before hread hread', hlast.symm⟩
    obtain ⟨d₁, haccepts', hread₁⟩ := hconfirmed hv hshares
    rwa [hread'.eq_skip, ← hread₁.eq_skip]
  · exact hfalse.elim

namespace Portable

/-! ## Sequence -/

theorem pure (a : α) : Portable stop (Pure.pure a) c := by
  intro a' c' haccepts
  obtain ⟨rfl, rfl⟩ := accepts_pure.mp haccepts
  refine ⟨[], .nil c, fun d d' _ hread _ => ?_⟩
  exact accepts_pure.mpr ⟨rfl, hread.of_nil.symm⟩

/-- If the rest reads nothing, what stops it has to stop the first part. -/
theorem bind_of (h : Portable stop' p c)
    (hstop : ∀ {a b c₁}, Accepts p c a c₁ → Accepts (f a) c₁ b c₁ → ∀ k, stop k → stop' k)
    (rest : ∀ {a c₁}, Accepts p c a c₁ → Portable stop (f a) c₁) : Portable stop (p >>= f) c := by
  intro b c' haccepts
  obtain ⟨a, c₁, hfirst, hrest⟩ := accepts_bind.mp haccepts
  obtain ⟨us, hread, hreplay⟩ := h hfirst
  obtain ⟨vs, hread', hreplay'⟩ := rest hfirst hrest
  refine ⟨us ++ vs, hread.trans hread', fun d d' hlast hreadd hfollowed => ?_⟩
  obtain ⟨d₁, hd, hd'⟩ := hreadd.split
  have hlast' : d₁.last = c₁.last := last_eq_of_reads hd hread fun _ => hlast
  have hbetween : Followed stop' c₁ d₁ := hfollowed.before hread' hd' fun hvs => by
    subst hvs
    exact hstop hfirst (hread'.of_nil ▸ hrest)
  exact (hreplay hlast hd hbetween).bind (hreplay' hlast' hd' hfollowed)

theorem bind (h : Portable stop p c) (rest : ∀ {a c₁}, Accepts p c a c₁ → Portable stop (f a) c₁) :
    Portable stop (p >>= f) c :=
  h.bind_of (fun _ _ _ => id) rest

/-- The rest reads something, so that the first part sees the same token behind it. -/
theorem andThen (h : Portable (fun _ => False) p c)
    (hmoves : ∀ {a c₁}, Accepts p c a c₁ → Moves (f a) c₁)
    (rest : ∀ {a c₁}, Accepts p c a c₁ → Portable stop (f a) c₁) : Portable stop (p >>= f) c :=
  h.bind_of (fun hfirst hstays => absurd hstays (hmoves hfirst _)) rest

/-! ## Looking ahead and reading -/

/-- What is seen of the next token makes no difference wherever `stop` allows it, unless the token is
read. -/
theorem look_bind {g : Token → γ} {f : γ → Parser β} (h : Portable stop (f (g c.peek)) c)
    (hsame : ∀ {b}, Accepts (f (g c.peek)) c b c →
      ∀ t : Token, stop t.kind → f (g t) = f (g c.peek)) :
    Portable stop ((fun c => .ok (g c.peek) c) >>= f) c := by
  intro b c' haccepts
  obtain ⟨us, hread, hreplay⟩ := h haccepts
  refine ⟨us, hread, fun d d' hlast hread' hfollowed => ?_⟩
  have hg : f (g d.peek) = f (g c.peek) := by
    obtain hpeek | ⟨rfl, hstop⟩ := hfollowed.peek_cases hread hread'
    · rw [hpeek]
    · exact hsame haccepts _ hstop
  change Accepts (f (g d.peek)) d b d'
  rw [hg]
  exact hreplay hlast hread' hfollowed

theorem peek_bind {f : Token → Parser β} (hmoves : Moves (peek >>= f) c)
    (h : Portable stop (f c.peek) c) : Portable stop (peek >>= f) c :=
  look_bind (g := id) h fun hstays => absurd (accepts_peek_bind.mpr hstays) (hmoves _)

theorem peekKind_bind {f : Token.Kind → Parser β} (hmoves : Moves (peekKind >>= f) c)
    (h : Portable stop (f c.peek.kind) c) : Portable stop (peekKind >>= f) c :=
  look_bind (g := (·.kind)) h fun hstays => absurd (accepts_peekKind_bind.mpr hstays) (hmoves _)

/-- Either something is read in any case, or nothing that `stop` allows is of the kind. -/
theorem sees_bind {f : Bool → Parser β}
    (hmoves : Moves (f (c.peek.kind = kind)) c ∨ c.peek.kind ≠ kind ∧ ∀ k, stop k → k ≠ kind)
    (h : Portable stop (f (c.peek.kind = kind)) c) : Portable stop (sees kind >>= f) c := by
  refine look_bind (g := fun t => decide (t.kind = kind)) h fun hstays t ht => ?_
  obtain hmoves | ⟨hkind, hstop⟩ := hmoves
  · exact absurd hstays (hmoves _)
  · simp [hkind, hstop _ ht]

theorem advance (h : c.peek.kind ≠ .eof) : Portable stop advance c := by
  intro t c' haccepts
  obtain ⟨rfl, rfl⟩ := accepts_advance.mp haccepts
  refine ⟨[c.peek], reads_peek h, fun d d' _ hread _ => ?_⟩
  obtain ⟨hpeek, hrest⟩ := hread.of_cons
  exact accepts_advance.mpr ⟨hpeek, hrest.of_nil.symm⟩

theorem expect (h : demand.expected.admits .eof = false) : Portable stop (expect demand) c := by
  intro t c' haccepts
  obtain ⟨hadmits, rfl, rfl⟩ := accepts_expect.mp haccepts
  have hkind : c.peek.kind ≠ .eof := by
    intro hkind
    rw [hkind, h] at hadmits
    cases hadmits
  refine ⟨[c.peek], reads_peek hkind, fun d d' _ hread _ => ?_⟩
  obtain ⟨hpeek, hrest⟩ := hread.of_cons
  exact accepts_expect.mpr ⟨hpeek ▸ hadmits, hpeek, hrest.of_nil.symm⟩

theorem name (h : demand.expected.admits .eof = false) : Portable stop (name demand) c :=
  (expect h).bind fun _ => pure _

theorem accept_bind {f : Bool → Parser β} (hkept : kind.isKept = true)
    (hstop : ∀ k, stop k → k ≠ kind)
    (yes : c.peek.kind = kind → Portable stop (f true) c.advance)
    (no : c.peek.kind ≠ kind → Portable stop (f false) c) :
    Portable stop (accept kind >>= f) c := by
  intro b c' haccepts
  rw [accepts_accept_bind] at haccepts
  split at haccepts
  · next hkind =>
    obtain ⟨us, hread, hreplay⟩ := yes hkind haccepts
    have hfirst := reads_kind hkind hkept
    refine ⟨c.peek :: us, hfirst.trans hread, fun d d' _ hread' hfollowed => ?_⟩
    obtain ⟨hpeek, hrest⟩ := hread'.of_cons
    have hfirst' : Reads d [c.peek] d.advance := hpeek ▸ reads_kind (hpeek ▸ hkind) hkept
    have hlast := last_eq_of_reads hfirst' hfirst (by simp)
    rw [accepts_accept_bind, if_pos (hpeek ▸ hkind)]
    exact hreplay hlast hrest hfollowed
  · next hkind =>
    obtain ⟨us, hread, hreplay⟩ := no hkind haccepts
    refine ⟨us, hread, fun d d' hlast hread' hfollowed => ?_⟩
    have hkind' : d.peek.kind ≠ kind := by
      obtain hpeek | ⟨-, hallowed⟩ := hfollowed.peek_cases hread hread'
      · rwa [hpeek]
      · exact hstop _ hallowed
    rw [accepts_accept_bind, if_neg hkind']
    exact hreplay hlast hread' hfollowed

theorem locationFrom_bind {f : Location → Parser β} {start : Token}
    (h : Portable stop (f (c.locationFrom start)) c) : Portable stop (locationFrom start >>= f) c := by
  intro b c' haccepts
  obtain ⟨us, hread, hreplay⟩ := h haccepts
  refine ⟨us, hread, fun d d' hlast hread' hfollowed => ?_⟩
  have hloc : d.locationFrom start = c.locationFrom start := by
    rw [Cursor.locationFrom, hlast]
    rfl
  rw [accepts_locationFrom_bind, hloc]
  exact hreplay hlast hread' hfollowed

theorem located {p : Parser (Location → α)} (hmoves : Moves (located p) c)
    (h : Portable stop p c) : Portable stop (located p) c :=
  peek_bind hmoves (h.bind fun _ => locationFrom_bind (pure _))

/-! ## Repetition -/

theorem iterate {step : σ → Parser (Option (β × σ))} {s : σ}
    (h : ∀ s c, Portable stop (step s) c)
    (hreads : ∀ s c, Advances (·.isSome = true) (step s) c) :
    Portable stop (iterate step s) c := by
  rintro ⟨bs, s'⟩ c' haccepts
  induction hn : c.rest.length using Nat.strongRecOn generalizing s c bs with
  | ind n ih =>
    obtain ⟨hdone, rfl, rfl⟩ | ⟨b, s₁, c₁, hstep, hrest⟩ := accepts_iterate.mp haccepts
    · obtain ⟨us, hread, hreplay⟩ := h _ c hdone
      exact ⟨us, hread, fun d d' hlast hread' hfollowed =>
        accepts_iterate_stop (hreplay hlast hread' hfollowed)⟩
    · have hless := (hreads s c).progress hstep rfl
      rw [if_pos hless] at hrest
      obtain ⟨bs, rfl, hrest⟩ := hrest
      obtain ⟨us, hread, hreplay⟩ := h s c hstep
      obtain ⟨vs, hread', hreplay'⟩ := ih _ (hn ▸ hless) _ hrest rfl
      refine ⟨us ++ vs, hread.trans hread', fun d d' hlast hreadd hfollowed => ?_⟩
      obtain ⟨d₁, hd, hd'⟩ := hreadd.split
      have hlast' : d₁.last = c₁.last := last_eq_of_reads hd hread fun _ => hlast
      have hbetween : Followed stop c₁ d₁ := hfollowed.before hread' hd' fun _ _ => id
      have hless' : d₁.rest.length < d.rest.length := by
        have hc := hread.length_eq
        have hd := hd.length_eq
        omega
      exact accepts_iterate_cons (hreplay hlast hd hbetween) hless'
        (hreplay' hlast' hd' hfollowed)

theorem many {step : Parser (Option α)} (h : ∀ c, Portable stop step c)
    (hreads : ∀ c, Advances (·.isSome = true) step c) : Portable stop (many step) c := by
  intro as c' haccepts
  have hloop : Portable stop (Parser.iterate (round step) ()) c :=
    iterate (fun _ c => (h c).bind fun _ => pure _) fun _ c => round_advances (hreads c)
  obtain ⟨us, hread, hreplay⟩ := hloop (accepts_many_iff.mp haccepts)
  exact ⟨us, hread, fun d d' hlast hread' hfollowed =>
    accepts_many_iff.mpr (hreplay hlast hread' hfollowed)⟩

end Portable

/-! ## Unary phrases -/

section Phrases

variable {n : Nat} {start : Token}

theorem arguments_advances (hd : demand.expected = .token (.punctuation .lparen)) :
    Advances (fun _ => True) (arguments (expression n) demand) c := by
  have hwalks : Walks true true [] (arguments (expression n) demand) c :=
    arguments_walks (fun _ _ => expression_walks n) hd
  exact hwalks.advances

theorem arguments_portable (hd : demand.expected.admits .eof = false) :
    Portable stop (arguments (expression n) demand) c := by
  have hend : ∀ (args : List (Expr Location)) (c : Cursor), Portable stop (do
      let _ ← expect .argumentsEnd
      return args) c :=
    fun _ _ => (Portable.expect rfl).bind fun _ => .pure _
  have hreads : ∀ (args : List (Expr Location)) (c : Cursor), Advances (fun _ => True) (do
      let _ ← expect .argumentsEnd
      return args) c :=
    fun _ _ => .andThen (.expect rfl) fun _ => (Orderly.pure _).advances
  have hitems : ∀ c, Orderly false [] (separated (expression n)) c :=
    fun _ => (Orderly.separated fun _ => expression_orderly n).loud
  refine (Portable.expect hd).bind fun {_ c} _ => .sees_bind (.inl ?_) ?_
  · split
    · exact (hreads [] c).moves
    · exact (Advances.seq (hitems c).advances fun _ => hreads _ _).moves
  · split
    · exact hend [] c
    · exact (separated_timely (expression_sound_succ n) (expression_timely n)).portable.andThen
        (fun _ => (hreads _ _).moves) fun _ => hend _ _

/-- A name is a call if a parenthesis follows. -/
theorem primary_portable :
    Portable (· ≠ .punctuation .lparen) (primary (expression n)) c := by
  have hwalks : Walks true true [] (primary (expression n)) c :=
    primary_walks fun _ _ => expression_walks n
  have hmoves : Moves (primary (expression n)) c := hwalks.advances.moves
  refine .located hmoves (.peekKind_bind hmoves.of_located ?_)
  split
  · next hkind =>
    refine (Portable.advance (by simp [hkind])).bind fun {_ c} _ => .sees_bind ?_ ?_
    · by_cases hopen : c.peek.kind = .punctuation .lparen
      · rw [if_pos (by simp [hopen])]
        exact .inl (Advances.andThen (arguments_advances rfl) fun _ =>
          (Orderly.pure _).advances).moves
      · exact .inr ⟨hopen, fun _ => id⟩
    · split
      · exact (arguments_portable rfl).bind fun _ => .pure _
      · exact .pure _
  · next hkind => exact (Portable.advance (by simp [hkind])).bind fun _ => .pure _
  · next hkind => exact (Portable.advance (by simp [hkind])).bind fun _ => .pure _
  · next hkind => exact (Portable.advance (by simp [hkind])).bind fun _ => .pure _
  · next hkind =>
    exact (Portable.advance (by simp [hkind])).bind fun _ => (Portable.expect rfl).bind fun _ =>
      (Portable.name rfl).bind fun _ => (arguments_portable rfl).bind fun _ => .pure _
  · next hkind =>
    exact (Portable.advance (by simp [hkind])).bind fun _ => (Portable.name rfl).bind fun _ =>
      (arguments_portable rfl).bind fun _ => .pure _
  · next hkind =>
    refine (Portable.advance (by simp [hkind])).bind fun _ =>
      (expression_timely n).portable.andThen (fun _ => ?_) fun _ =>
        (Portable.expect rfl).bind fun _ => .pure _
    exact (Advances.andThen (.expect rfl) fun _ => (Orderly.pure _).advances).moves
  · exact fun _ _ haccepts => absurd haccepts not_accepts_fail

/-- A selection goes on behind a dot, and calls what it selects if a parenthesis follows. -/
theorem selector_portable :
    Portable (·.endsOperand 60 = true) (selector (expression n) start) c := by
  refine .accept_bind rfl (fun _ => ne_dot_of_endsOperand) (fun _ => ?_) fun _ => .pure _
  refine (Portable.name rfl).bind fun {_ c} _ => .sees_bind ?_ ?_
  · by_cases hopen : c.peek.kind = .punctuation .lparen
    · rw [if_pos (by simp [hopen])]
      exact .inl (Advances.andThen (arguments_advances rfl) fun _ =>
        (Advances.still rfl).seq fun _ => (Orderly.pure _).advances).moves
    · exact .inr ⟨hopen, fun _ => ne_lparen_of_endsOperand⟩
  · split
    · exact (arguments_portable rfl).bind fun _ => .locationFrom_bind (.pure _)
    · exact .locationFrom_bind (.pure _)

theorem selection_portable :
    Portable (·.endsOperand 60 = true) (selection (expression n)) c := by
  have hwalks : Walks true true [] (selection (expression n)) c :=
    selection_walks fun _ _ => expression_walks n
  have horderly : ∀ c, Orderly true [] (expression n) c := fun _ => expression_orderly n
  refine .peek_bind hwalks.advances.moves ?_
  refine primary_portable.bind_of (fun _ _ _ => ne_lparen_of_endsOperand) fun _ => ?_
  exact (Portable.many (fun _ => selector_portable) fun _ => selector_advances horderly).bind
    fun _ => .pure _

theorem unary_portable : Portable (·.endsOperand 60 = true) (unary (expression n)) c := by
  have hwalks : Walks true true [] (unary (expression n)) c :=
    unary_walks fun _ _ => expression_walks n
  refine .peekKind_bind hwalks.advances.moves ?_
  split
  · exact selection_portable
  · next op hop =>
    have hkind : c.peek.kind ≠ .eof := by
      intro hkind
      rw [hkind] at hop
      cases hop
    have hreads : Walks true true [] (located do
        let _ ← advance
        let operand ← selection (expression n)
        return ((Expr.unary · op operand) : Location → Expr Location)) c :=
      .located (.advance_bind (sign?_eq_some hop)
        (selection_walks fun _ _ => expression_walks n).last)
    exact .located hreads.advances.moves
      ((Portable.advance hkind).bind fun _ => selection_portable.bind fun _ => .pure _)

/-- Behind an operator of the tier an operand follows. What ends the chain is none of them. -/
theorem link_portable {tier : Tier} {operand : Parser (Expr Location)} {bound : Nat}
    (hoperand : ∀ c, Portable (·.endsOperand bound = true) operand c)
    (horderly : ∀ c, Orderly true [] operand c) (hbound : tier.precedence < bound) :
    Portable (·.endsOperand tier.precedence = true) (link tier operand) c := by
  refine Portable.look_bind (g := (·.kind)) ?_ fun {o} hstays t ht => ?_
  · split
    · exact .pure _
    · next op hop =>
      have hkind := (tierOp?_eq_some.mp hop).1
      exact (Portable.advance (by simp [hkind])).bind fun _ => (hoperand _).bind_of
        (fun _ _ _ hk => endsOperand_mono hk (Nat.le_of_lt hbound)) fun _ => .pure _
  · cases o with
    | some link => exact absurd ((link_advances horderly).progress hstays rfl) (Nat.lt_irrefl _)
    | none =>
      rw [tierOp?_of_endsOperand ht]
      cases hop : tierOp? tier c.peek.kind with
      | none => rfl
      | some op => simp [hop] at hstays

theorem chain_portable {tier : Tier} {operand : Parser (Expr Location)} {bound : Nat}
    (hoperand : ∀ c, Portable (·.endsOperand bound = true) operand c)
    (horderly : ∀ c, Orderly true [] operand c) (hbound : tier.precedence < bound) :
    Portable (·.endsOperand tier.precedence = true) (chain tier operand) c := by
  have hlinks : ∀ c, Portable (·.endsOperand tier.precedence = true)
      (many (link tier operand)) c :=
    fun _ => .many (fun _ => link_portable hoperand horderly hbound) fun _ => link_advances horderly
  exact (hoperand c).bind_of (fun _ _ _ hk => endsOperand_mono hk (Nat.le_of_lt hbound)) fun _ =>
    (hlinks _).bind fun _ => .pure _

theorem expression_portable : ∀ {n c}, Portable (·.endsOperand 20 = true) (expression n) c
  | 0, _ => fun _ _ haccepts => by cases haccepts
  | n + 1, _ => by
    have horderly : ∀ tier c, Orderly true [] (operandOf (expression n) tier) c :=
      operandOf_orderly fun _ => expression_orderly n
    have hmultiplicative : ∀ c, Portable (·.endsOperand 50 = true) (multiplicative (expression n)) c :=
      fun _ => chain_portable (fun _ => unary_portable) (horderly .multiplicative) (by decide)
    have hadditive : ∀ c, Portable (·.endsOperand 40 = true) (additive (expression n)) c :=
      fun _ => chain_portable hmultiplicative (horderly .additive) (by decide)
    have hrelational : ∀ c, Portable (·.endsOperand 30 = true) (relational (expression n)) c :=
      fun _ => chain_portable hadditive (horderly .relational) (by decide)
    exact chain_portable hrelational (horderly .logical) (by decide)

end Phrases

/-! ## Settled phrases -/

def Settles (bound : Nat) (p : Parser α) (us : List Token) (a : α) : Prop :=
  ∀ ⦃c c'⦄, Reads c us c' → c'.peek.kind.endsOperand bound = true → Accepts p c a c'

/-- The tokens stand alone, in front of a semicolon. -/
def alone (us : List Token) (last : Token) : Cursor where
  eof := endOf []
  last := last
  rest := us ++ [sample (.punctuation .semicolon)]
  eof_kind := endOf_kind []

theorem reads_alone (us : List Token) (last : Token) :
    ∃ c, Reads (alone us last) us c ∧ c.rest = [sample (.punctuation .semicolon)] :=
  exists_reads_append rfl

/-- What accepts the tokens in front of a semicolon settles what it gives, if it is portable. The
token before them does not matter. -/
theorem settles_of_accepts {bound : Nat} {Q : α → Prop} (hwalks : ∀ c, Walks false true [] p c)
    (hportable : ∀ c, Portable (·.endsOperand bound = true) p c)
    (haccepts : ∀ {c c'}, Reads c us c' → c'.peek.kind = .punctuation .semicolon →
      ∃ a, Accepts p c a c' ∧ Q a) : ∃ a, Settles bound p us a ∧ Q a := by
  obtain ⟨c₀, hread₀, hrest₀⟩ := reads_alone us (endOf [])
  obtain ⟨a, haccepts₀, ha⟩ := haccepts hread₀ (by rw [peek_of_rest hrest₀]; rfl)
  refine ⟨a, fun c c' hread hnext => ?_, ha⟩
  obtain ⟨c₁, hread₁, hrest₁⟩ := reads_alone us c.last
  have haccepts₁ : Accepts p (alone us c.last) a c₁ := by
    refine (hwalks _).elsewhere haccepts₀ hread₀ hread₁ (v := [sample (.punctuation .semicolon)])
      ⟨⟨[], by rw [hrest₀]; rfl⟩, ⟨[], by rw [hrest₁]; rfl⟩⟩ ?_
    exact ⟨sample (.punctuation .semicolon), by simp, rfl⟩
  obtain ⟨vs, hvs, hreplay⟩ := hportable _ haccepts₁
  obtain rfl := hvs.unique hread₁
  exact hreplay rfl hread (.inr hnext)

theorem unary_settles {n : Nat} {b : Expr Unit} (h : Unary (Expression n) us b) :
    ∃ e, Settles 60 (unary (expression n)) us e := by
  have haccepts : ∀ {c c'}, Reads c us c' → c'.peek.kind = .punctuation .semicolon →
      ∃ e, Accepts (unary (expression n)) c e c' ∧ e.erase = b := fun hread hkind =>
    unary_complete (expression_complete n) Expression.leads h hread (by rw [hkind]; rfl)
  obtain ⟨e, hsettles, -⟩ := settles_of_accepts
    (fun _ => unary_walks fun _ _ => expression_walks n) (fun _ => unary_portable) haccepts
  exact ⟨e, hsettles⟩

theorem expression_settles {n : Nat} {b : Expr Unit} (h : Expression n us b) :
    ∃ e, Settles 20 (expression n) us e ∧ e.erase = b :=
  settles_of_accepts (fun _ => expression_walks n) (fun _ => expression_portable)
    fun hread hkind => expression_complete n h hread (by rw [hkind]; rfl)

end Parser

end JavaSubset
