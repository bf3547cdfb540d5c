import JavaSubset.Proofs.Replies

/-!
# How productions move

`Walks nested eats seen p c` : run from `c`, behind the tokens `seen`, the parser `p` moves in the
ways listed here. It looks no further than the next token (than the one after a name), reads plain
tokens one by one, gives up and reports at tokens it has seen, repeats, and, if `nested`, reads
blocks and goes on after an error. If `eats`, it reads something when it succeeds.

What is true of every such move holds for all productions between the braces of a class
(`bodyOf_walks`, `member_walks`), since these walk.
-/

namespace JavaSubset

/-- What may be read one token at a time: no brace and no end, and a semicolon only where statements
are read. -/
def Token.Kind.isPlain (nested : Bool) : Token.Kind → Bool
  | .punctuation .lbrace | .punctuation .rbrace | .eof => false
  | .punctuation .semicolon => nested
  | _ => true

/-- A diagnostic that asks for the end of the source. -/
def Diagnostic.asksForEnd (d : Diagnostic) : Bool :=
  match d.problem with
  | .unexpectedToken demand _ _ => demand.expected = .endOfInput
  | _ => false

/-- A diagnostic at a token, about something else than the end of the source. -/
structure Diagnostic.Marks (d : Diagnostic) (t : Token) : Prop where
  place : d.loc = t.loc
  other : d.asksForEnd = false

theorem Diagnostic.marks_unexpected {demand : Demand} {t : Token}
    (h : demand.expected ≠ .endOfInput) : (unexpected demand t).Marks t :=
  ⟨rfl, by simpa [asksForEnd, unexpected] using h⟩

open Cursor

namespace Parser

inductive Walks (nested : Bool) : Bool → List Token → {α : Type} → Parser α → Cursor → Prop where
  | pure {seen : List Token} {α : Type} {c : Cursor} (a : α) :
      Walks nested false seen (Pure.pure a : Parser α) c
  | bind {eats eats₁ eats₂ : Bool} {seen : List Token} {α β : Type} {p : Parser α}
      {f : α → Parser β} {c : Cursor} (first : Walks nested eats₁ seen p c)
      (rest : ∀ {a us reports c'}, p c = ⟨.ok a, reports, c'⟩ → Reads c us c' →
        (eats₁ = true → us ≠ []) → Walks nested eats₂ (seen ++ us) (f a) c')
      (one : eats = true → eats₁ = true ∨ eats₂ = true) : Walks nested eats seen (p >>= f) c
  | map {eats : Bool} {seen : List Token} {α β : Type} {p : Parser α} {c : Cursor} (g : α → β)
      (inner : Walks nested eats seen p c) : Walks nested eats seen (fun c => (p c).map g) c
  | look {seen : List Token} {α : Type} {c : Cursor} (g : Token → α) :
      Walks nested false seen (fun c => .ok (g c.peek) c) c
  | lookNext {seen : List Token} {c : Cursor} (name : c.peek.kind = .identifier) :
      Walks nested false seen peekNextKind c
  | atEnd {seen : List Token} {c : Cursor} : Walks nested false seen atEnd c
  | locationFrom {seen : List Token} {c : Cursor} (start : Token) (read : seen ≠ []) :
      Walks nested false seen (locationFrom start) c
  | advance {eats : Bool} {seen : List Token} {c : Cursor}
      (plain : c.peek.kind.isPlain nested = true) : Walks nested eats seen advance c
  | giveUp {eats : Bool} {seen : List Token} {α : Type} {c : Cursor} (d : Token → Diagnostic)
      (marks : ∀ t, (d t).Marks t) :
      Walks nested eats seen (fun c => .error (d c.peek) c : Parser α) c
  | log {seen : List Token} {c : Cursor} {d : Diagnostic} {t : Token} (marks : d.Marks t)
      (place : t ∈ seen ++ [c.peek]) : Walks nested false seen (log d) c
  | iterate {seen : List Token} {β σ : Type} {step : σ → Parser (Option (β × σ))} {s : σ}
      {c : Cursor} (first : Walks nested false seen (step s) c)
      (rest : ∀ {b s' us reports c'}, step s c = ⟨.ok (some (b, s')), reports, c'⟩ →
        Reads c us c' → c'.rest.length < c.rest.length →
        Walks nested false (seen ++ us) (iterate step s') c') :
      Walks nested false seen (iterate step s) c
  | recover {eats : Bool} {seen : List Token} {α : Type} {p : Parser α} {c : Cursor}
      (point : SyncPoint) (deep : nested = true) (inner : Walks nested true seen p c)
      (ahead : c.rest ≠ []) (inside : c.peek.kind ≠ .punctuation .rbrace) :
      Walks nested eats seen (recover point p) c
  | block {eats : Bool} {seen : List Token} {stmt : Parser (Stmt Location)} {c : Cursor}
      {demand : Demand} (deep : nested = true)
      (opens : demand.expected = .token (.punctuation .lbrace))
      (items : ∀ seen c, Walks nested true seen stmt c)
      (body : ∀ seen c, Walks nested false seen (bodyOf .statement stmt) c) :
      Walks nested eats seen (block stmt demand) c

variable {nested eats : Bool} {seen : List Token} {α β σ : Type} {p : Parser α} {f : α → Parser β}
  {c c' : Cursor} {demand : Demand} {kind : Token.Kind}

/-! ## Sequences -/

namespace Walks

/-- The second part reads something. -/
theorem seq (first : Walks nested false seen p c)
    (rest : ∀ {a us reports c'}, p c = ⟨.ok a, reports, c'⟩ → Reads c us c' →
      Walks nested eats (seen ++ us) (f a) c') : Walks nested eats seen (p >>= f) c :=
  .bind first (fun h hread _ => rest h hread) .inr

/-- The first part reads something. -/
theorem andThen (first : Walks nested true seen p c)
    (rest : ∀ {a us reports c'}, p c = ⟨.ok a, reports, c'⟩ → Reads c us c' → us ≠ [] →
      Walks nested false (seen ++ us) (f a) c') : Walks nested eats seen (p >>= f) c :=
  .bind first (fun h hread hne => rest h hread (hne rfl)) (fun _ => .inl rfl)

/-- A look at the next token, which may decide what comes then. -/
theorem look_bind {g : Token → α} (h : Walks nested eats seen (f (g c.peek)) c) :
    Walks nested eats seen ((fun c => .ok (g c.peek) c) >>= f) c := by
  refine .seq (.look g) ?_
  intro a us reports c' heq hread
  cases heq
  rwa [(hread.unique (.nil c) : us = []), List.append_nil]

theorem peek_bind {f : Token → Parser β} (h : Walks nested eats seen (f c.peek) c) :
    Walks nested eats seen (peek >>= f) c :=
  look_bind (g := id) h

theorem peekKind_bind {f : Token.Kind → Parser β} (h : Walks nested eats seen (f c.peek.kind) c) :
    Walks nested eats seen (peekKind >>= f) c :=
  look_bind (g := (·.kind)) h

theorem sees_bind {f : Bool → Parser β}
    (h : Walks nested eats seen (f (c.peek.kind = kind)) c) :
    Walks nested eats seen (sees kind >>= f) c :=
  look_bind (g := fun t => decide (t.kind = kind)) h

theorem lookNext_bind {f : Token.Kind → Parser β} (name : c.peek.kind = .identifier)
    (h : Walks nested eats seen (f c.peekNext.kind) c) :
    Walks nested eats seen (peekNextKind >>= f) c := by
  refine .seq (.lookNext name) ?_
  intro a us reports c' heq hread
  cases heq
  rwa [(hread.unique (.nil c) : us = []), List.append_nil]

theorem atEnd_bind {f : Bool → Parser β} (h : Walks nested eats seen (f c.atEnd) c) :
    Walks nested eats seen (Parser.atEnd >>= f) c := by
  refine .seq .atEnd ?_
  intro a us reports c' heq hread
  cases heq
  rwa [(hread.unique (.nil c) : us = []), List.append_nil]

theorem ne_eof_of_isPlain (h : kind.isPlain nested = true) : kind ≠ .eof := by
  rintro rfl
  cases h

theorem advance_bind {f : Token → Parser β} (plain : c.peek.kind.isPlain nested = true)
    (h : Walks nested false (seen ++ [c.peek]) (f c.peek) c.advance) :
    Walks nested eats seen (Parser.advance >>= f) c := by
  refine .andThen (.advance plain) ?_
  intro a us reports c' heq hread _
  cases heq
  rwa [hread.unique (reads_peek (ne_eof_of_isPlain plain))]

theorem fail (h : demand.expected ≠ .endOfInput) :
    Walks nested eats seen (Parser.fail demand : Parser α) c :=
  .giveUp (.unexpected demand) fun _ => Diagnostic.marks_unexpected h

theorem tooDeep : Walks nested eats seen (Parser.tooDeep : Parser α) c :=
  .giveUp .nestingTooDeep fun _ => ⟨rfl, rfl⟩

end Walks

/-! ## Tokens that are asked for -/

/-- What a single plain token settles. -/
structure Asks (nested : Bool) (demand : Demand) : Prop where
  other : demand.expected ≠ .endOfInput
  plain : ∀ kind, demand.expected.admits kind = true → kind.isPlain nested = true

theorem Asks.token (h : demand.expected = .token kind) (plain : kind.isPlain nested = true) :
    Asks nested demand := by
  refine ⟨by simp [h], fun found hfound => ?_⟩
  rw [h, Expected.admits, decide_eq_true_eq] at hfound
  rwa [← hfound]

theorem Asks.identifier (h : demand.expected = .identifier) : Asks nested demand := by
  refine ⟨by simp [h], fun found hfound => ?_⟩
  rw [h, Expected.admits, decide_eq_true_eq] at hfound
  rw [hfound]
  rfl

namespace Walks

theorem expect (h : Asks nested demand) : Walks nested eats seen (Parser.expect demand) c := by
  refine .peekKind_bind ?_
  split
  · next hadmits => exact .advance (h.plain _ hadmits)
  · exact .fail h.other

theorem expect_bind {f : Token → Parser β} (h : Asks nested demand)
    (rest : demand.expected.admits c.peek.kind = true →
      Walks nested false (seen ++ [c.peek]) (f c.peek) c.advance) :
    Walks nested eats seen (Parser.expect demand >>= f) c := by
  refine .andThen (.expect h) ?_
  intro a us reports c' heq hread _
  by_cases hadmits : demand.expected.admits c.peek.kind = true
  · have hplain := h.plain _ hadmits
    rw [expect_of_admits hadmits] at heq
    cases heq
    rw [hread.unique (reads_peek (ne_eof_of_isPlain hplain))]
    exact rest hadmits
  · rw [expect_of_not_admits hadmits] at heq
    cases heq

theorem name_bind {f : String → Parser β} (h : Asks nested demand)
    (rest : Walks nested false (seen ++ [c.peek]) (f c.peek.text) c.advance) :
    Walks nested eats seen (name demand >>= f) c := by
  rw [name, bind_assoc]
  exact .expect_bind h fun _ => rest

theorem accept_bind {f : Bool → Parser β} (plain : kind.isPlain nested = true)
    (yes : c.peek.kind = kind → Walks nested false (seen ++ [c.peek]) (f true) c.advance)
    (no : Walks nested eats seen (f false) c) :
    Walks nested eats seen (accept kind >>= f) c := by
  rw [accept, bind_assoc]
  refine .sees_bind ?_
  split
  · next hkind =>
    have hkind : c.peek.kind = kind := of_decide_eq_true hkind
    rw [bind_assoc]
    exact .advance_bind (hkind ▸ plain) (yes hkind)
  · exact no

theorem located {p : Parser (Location → α)} (h : Walks nested true seen p c) :
    Walks nested eats seen (located p) c := by
  refine .peek_bind (.andThen h ?_)
  intro node us reports c' _ _ hne
  refine .seq (.locationFrom _ (by simp [hne])) ?_
  intro loc vs reports' c'' _ _
  exact .pure _

theorem complain (h : demand.expected ≠ .endOfInput) :
    Walks nested false seen (complain demand) c :=
  .peek_bind (.log (Diagnostic.marks_unexpected h) (by simp))

theorem complain_bind {f : Unit → Parser β} (h : demand.expected ≠ .endOfInput)
    (rest : Walks nested eats seen (f ()) c) :
    Walks nested eats seen (Parser.complain demand >>= f) c := by
  refine .seq (.complain h) ?_
  intro a us reports c' heq hread
  cases heq
  rwa [(hread.unique (.nil c) : us = []), List.append_nil]

theorem map_bind {g : α → β} (h : Walks nested eats seen p c) :
    Walks nested eats seen (p >>= fun a => Pure.pure (g a)) c :=
  .bind h (fun _ _ _ => .pure _) .inl

theorem last {g : α → β} (h : Walks nested true seen p c) :
    Walks nested eats seen (p >>= fun a => Pure.pure (g a)) c :=
  .andThen h fun _ _ _ => .pure _

/-! ## Loops -/

/-- A loop walks if its rounds do. -/
theorem loop {step : σ → Parser (Option (β × σ))} {s : σ}
    (h : ∀ seen s c, Walks nested false seen (step s) c) :
    Walks nested false seen (Parser.iterate step s) c := by
  induction hn : c.rest.length using Nat.strongRecOn generalizing seen s c with
  | ind n ih =>
    refine .iterate (h seen s c) ?_
    intro b s' us reports c' _ _ hlt
    exact ih _ (hn ▸ hlt) rfl

theorem many {step : Parser (Option α)} (h : ∀ seen c, Walks nested false seen step c) :
    Walks nested false seen (many step) c :=
  .map Prod.fst (.loop fun seen _ c => (h seen c).map_bind)

theorem separated {p : Parser α} (h : ∀ seen c, Walks nested true seen p c) :
    Walks nested eats seen (separated p) c := by
  refine .andThen (h seen c) ?_
  intro a us reports c' _ _ _
  refine (Walks.many ?_).map_bind
  intro seen c
  exact .accept_bind rfl (fun _ => (h _ _).last) (.pure _)

end Walks

/-! ## Expressions -/

section Expressions

variable {expr operand : Parser (Expr Location)}

theorem arguments_walks (hexpr : ∀ seen c, Walks nested true seen expr c)
    (hd : demand.expected = .token (.punctuation .lparen)) :
    Walks nested eats seen (arguments expr demand) c := by
  refine .expect_bind (.token hd rfl) fun _ => .sees_bind ?_
  have hend : ∀ {args : List (Expr Location)} {seen c}, Walks nested false seen (do
      let _ ← expect .argumentsEnd
      return args) c := (Walks.expect (.token rfl rfl)).last
  split
  · exact hend
  · exact .andThen (.separated hexpr) fun _ _ _ => hend

theorem primary_walks (hexpr : ∀ seen c, Walks nested true seen expr c) :
    Walks nested eats seen (primary expr) c := by
  refine .located (.peekKind_bind ?_)
  split
  · next hkind =>
    refine .advance_bind (by rw [hkind]; rfl) (.sees_bind ?_)
    split
    · exact (arguments_walks hexpr rfl).last
    · exact .pure _
  · next hkind => exact .advance_bind (by rw [hkind]; rfl) (.pure _)
  · next hkind => exact .advance_bind (by rw [hkind]; rfl) (.pure _)
  · next hkind => exact .advance_bind (by rw [hkind]; rfl) (.pure _)
  · next hkind =>
    refine .advance_bind (by rw [hkind]; rfl) (.expect_bind (.token rfl rfl) fun _ => ?_)
    exact .name_bind (.identifier rfl) (arguments_walks hexpr rfl).last
  · next hkind =>
    refine .advance_bind (by rw [hkind]; rfl) ?_
    exact .name_bind (.identifier rfl) (arguments_walks hexpr rfl).last
  · next hkind =>
    refine .advance_bind (by rw [hkind]; rfl) (.andThen (hexpr _ _) fun _ _ _ => ?_)
    exact (Walks.expect (.token rfl rfl)).last
  · exact .fail (by decide)

theorem selector_walks (hexpr : ∀ seen c, Walks nested true seen expr c) {start : Token} :
    Walks nested false seen (selector expr start) c := by
  refine .accept_bind rfl (fun _ => .name_bind (.identifier rfl) (.sees_bind ?_)) (.pure _)
  split
  · refine .andThen (arguments_walks hexpr rfl) fun _ _ _ => ?_
    exact (Walks.locationFrom start (by simp)).map_bind
  · exact (Walks.locationFrom start (by simp)).map_bind

theorem selection_walks (hexpr : ∀ seen c, Walks nested true seen expr c) :
    Walks nested eats seen (selection expr) c := by
  refine .peek_bind (.andThen (primary_walks hexpr) fun _ _ _ => ?_)
  exact (Walks.many fun _ _ => selector_walks hexpr).map_bind

theorem sign?_eq_some {op : UnaryOp} (h : sign? kind = some op) : kind.isPlain nested = true := by
  unfold sign? at h
  split at h
  · rfl
  · rfl
  · cases h

theorem unary_walks (hexpr : ∀ seen c, Walks nested true seen expr c) :
    Walks nested eats seen (unary expr) c := by
  refine .peekKind_bind ?_
  split
  · exact selection_walks hexpr
  · next op hop =>
    exact .located (.advance_bind (sign?_eq_some hop) (selection_walks hexpr).last)

theorem chain_walks {tier : Tier} (hoperand : ∀ seen c, Walks nested true seen operand c) :
    Walks nested eats seen (chain tier operand) c := by
  refine .andThen (hoperand _ _) fun _ _ _ => (Walks.many fun seen c => ?_).map_bind
  refine .peekKind_bind ?_
  split
  · exact .pure _
  · next op hop =>
    have hkind := (tierOp?_eq_some.mp hop).1
    exact .advance_bind (by rw [hkind]; rfl) (hoperand _ _).last

theorem expression_walks (n : Nat) {eats : Bool} {seen : List Token} {c : Cursor} :
    Walks nested eats seen (expression n) c := by
  induction n generalizing eats seen c with
  | zero => exact .tooDeep
  | succ n ih =>
    have hunary : ∀ seen c, Walks nested true seen (unary (expression n)) c :=
      fun _ _ => unary_walks fun _ _ => ih
    have hmultiplicative : ∀ seen c, Walks nested true seen (multiplicative (expression n)) c :=
      fun _ _ => chain_walks hunary
    have hadditive : ∀ seen c, Walks nested true seen (additive (expression n)) c :=
      fun _ _ => chain_walks hmultiplicative
    have hrelational : ∀ seen c, Walks nested true seen (relational (expression n)) c :=
      fun _ _ => chain_walks hadditive
    exact chain_walks hrelational

end Expressions

/-! ## Expression statements -/

section Effects

variable {expr : Parser (Expr Location)} {e : Expr Location} {t : Token}

theorem checkTarget_walks (h : t ∈ seen) : Walks nested false seen (checkTarget e t) c := by
  unfold checkTarget
  split
  · exact .pure _
  · exact .log (Diagnostic.marks_unexpected (by decide)) (List.mem_append_left _ h)

theorem initializer_walks (hexpr : ∀ seen c, Walks nested true seen expr c) :
    Walks nested false seen (initializer expr) c :=
  .accept_bind rfl (fun _ => (hexpr _ _).last) (.pure _)

theorem declarator_walks (hexpr : ∀ seen c, Walks nested true seen expr c)
    (hd : demand.expected = .identifier) : Walks nested eats seen (declarator expr demand) c :=
  .name_bind (.identifier hd) (initializer_walks hexpr).map_bind

theorem primitiveType_walks (hd : demand.expected ≠ .endOfInput) :
    Walks nested eats seen (primitiveType demand) c := by
  refine .peekKind_bind ?_
  split
  · next type htype =>
    have hkind := primitiveType?_eq_some.mp htype
    exact .advance_bind (by rw [hkind]; rfl) (.pure _)
  · exact .fail hd

theorem localVariables_walks (hexpr : ∀ seen c, Walks true true seen expr c) :
    Walks true eats seen (localVariables expr) c := by
  refine .andThen (primitiveType_walks (by decide)) fun _ _ _ => ?_
  refine .andThen (.separated fun _ _ => declarator_walks hexpr rfl) fun _ _ _ => ?_
  exact (Walks.expect (.token rfl rfl)).last

theorem assignment_walks (hexpr : ∀ seen c, Walks nested true seen expr c) :
    Walks nested false seen (assignment expr e) c := by
  refine .peekKind_bind ?_
  split
  · exact .pure _
  · next op hop =>
    have hkind := assignOp?_eq_some.mp hop
    refine .advance_bind (by rw [hkind]; rfl) ?_
    exact .seq (checkTarget_walks (by simp)) fun _ _ => (hexpr _ _).last

theorem effect_walks (hexpr : ∀ seen c, Walks nested true seen expr c) :
    Walks nested eats seen (effect expr) c := by
  refine .peek_bind ?_
  split
  · next step hstep =>
    have hkind := step?_eq_some.mp hstep
    refine .advance_bind (by rw [hkind]; rfl) ?_
    refine .andThen (selection_walks hexpr) fun _ _ _ => ?_
    refine .seq (checkTarget_walks (by simp)) fun _ _ => ?_
    exact (Walks.locationFrom _ (by simp)).map_bind
  · refine .andThen (hexpr _ _) fun _ _ _ => .peekKind_bind ?_
    split
    · next step hstep =>
      have hkind := step?_eq_some.mp hstep
      refine .advance_bind (by rw [hkind]; rfl) ?_
      refine .seq (checkTarget_walks (by simp)) fun _ _ => ?_
      exact (Walks.locationFrom _ (by simp)).map_bind
    · exact .map _ (.loop fun _ _ _ => assignment_walks hexpr)

end Effects

/-! ## Statements -/

section Statements

variable {expr : Parser (Expr Location)} {stmt : Parser (Stmt Location)}

theorem bodyOf_walks {point : SyncPoint} (h : ∀ seen c, Walks true true seen p c) :
    Walks true false seen (bodyOf point p) c := by
  refine (Walks.many fun seen c => ?_).map_bind
  refine .atEnd_bind (.sees_bind ?_)
  split
  · exact .pure _
  · next hopen =>
    simp only [Bool.or_eq_true, atEnd_iff, decide_eq_true_eq, not_or] at hopen
    exact (Walks.recover point rfl (h _ _) hopen.1 hopen.2).last

section Nested

variable (hstmt : ∀ seen c, Walks true true seen stmt c)
  (hexpr : ∀ seen c, Walks true true seen expr c)

include hstmt in
theorem block_walks (hd : demand.expected = .token (.punctuation .lbrace)) :
    Walks true eats seen (block stmt demand) c :=
  .block rfl hd hstmt fun _ _ => bodyOf_walks hstmt

include hexpr in
theorem condition_walks {word : ControlWord} : Walks true eats seen (condition expr word) c := by
  refine .expect_bind (.token rfl rfl) fun _ => .andThen (hexpr _ _) fun _ _ _ => ?_
  exact (Walks.expect (.token rfl rfl)).last

include hexpr in
theorem effectStatement_walks : Walks true eats seen (effectStatement expr) c := by
  refine .andThen (effect_walks hexpr) fun _ _ _ => ?_
  exact (Walks.expect (.token rfl rfl)).last

include hstmt hexpr in
theorem ifStatement_walks (hkind : c.peek.kind = .keyword (.control .ifKw)) :
    Walks true eats seen (ifStatement stmt expr) c := by
  refine .advance_bind (by rw [hkind]; rfl) ?_
  refine .andThen (condition_walks hexpr) fun _ _ _ => .andThen (hstmt _ _) fun _ _ _ => ?_
  exact .accept_bind rfl (fun _ => (hstmt _ _).last) (.pure _)

include hstmt hexpr in
theorem whileStatement_walks (hkind : c.peek.kind = .keyword (.control .whileKw)) :
    Walks true eats seen (whileStatement stmt expr) c := by
  refine .advance_bind (by rw [hkind]; rfl) ?_
  exact .andThen (condition_walks hexpr) fun _ _ _ => (hstmt _ _).last

include hstmt hexpr in
theorem doStatement_walks (hkind : c.peek.kind = .keyword (.control .doKw)) :
    Walks true eats seen (doStatement stmt expr) c := by
  refine .advance_bind (by rw [hkind]; rfl) (.andThen (hstmt _ _) fun _ _ _ => ?_)
  refine .expect_bind (.token rfl rfl) fun _ => .andThen (condition_walks hexpr) fun _ _ _ => ?_
  exact (Walks.expect (.token rfl rfl)).last

theorem jump_walks {word : ControlWord} (hkind : c.peek.kind = .keyword (.control word))
    (hd : demand.expected = .token (.punctuation .semicolon)) :
    Walks true eats seen (jump demand) c := by
  have hlabel : ∀ {seen c}, Walks true false seen label? c := by
    intro seen c
    refine .sees_bind ?_
    split
    · next hname =>
      have hname : c.peek.kind = .identifier := of_decide_eq_true hname
      exact .advance_bind (by rw [hname]; rfl) (.pure _)
    · exact .pure _
  refine .advance_bind (by rw [hkind]; rfl) (.seq hlabel fun _ _ => ?_)
  exact (Walks.expect (.token hd rfl)).last

include hexpr in
theorem returnStatement_walks (hkind : c.peek.kind = .keyword (.control .returnKw)) :
    Walks true eats seen (returnStatement expr) c := by
  have hend : ∀ {value : Option (Expr Location)} {seen c}, Walks true false seen (do
      let _ ← expect .returnEnd
      return ((Stmt.returnWith · value) : Location → Stmt Location)) c :=
    (Walks.expect (.token rfl rfl)).last
  refine .advance_bind (by rw [hkind]; rfl) (.sees_bind ?_)
  split
  · exact hend
  · exact .andThen (hexpr _ _).last fun _ _ _ => hend

include hstmt in
theorem labeledStatement_walks (hname : c.peek.kind = .identifier)
    (hcolon : c.peekNext.kind = .punctuation .colon) :
    Walks true eats seen (labeledStatement stmt) c := by
  rw [peekNext_eq] at hcolon
  refine .advance_bind (by rw [hname]; rfl) (.advance_bind (by rw [hcolon]; rfl) ?_)
  exact (hstmt _ _).last

include hstmt in
theorem catchClause_walks : Walks true eats seen (catchClause stmt) c := by
  refine .expect_bind (.token rfl rfl) fun _ => .name_bind (.identifier rfl) ?_
  refine .name_bind (.identifier rfl) (.expect_bind (.token rfl rfl) fun _ => ?_)
  exact (block_walks hstmt rfl).last

include hstmt in
theorem tryStatement_walks (hkind : c.peek.kind = .keyword (.control .tryKw)) :
    Walks true eats seen (tryStatement stmt) c := by
  refine .advance_bind (by rw [hkind]; rfl) (.andThen (block_walks hstmt rfl) fun _ _ _ => ?_)
  refine .seq (.many fun _ _ => ?_) fun _ _ => ?_
  · exact .accept_bind rfl (fun _ => (catchClause_walks hstmt).last) (.pure _)
  · refine .accept_bind rfl (fun _ => (block_walks hstmt rfl).last) ?_
    simp only [Bool.false_eq_true, ↓reduceIte]
    split
    · exact (Walks.complain (by decide)).map_bind
    · exact .pure _

include hstmt hexpr in
theorem statementOf_walks : Walks true eats seen (statementOf stmt expr c.peek.kind) c := by
  unfold statementOf
  split
  · exact (block_walks hstmt rfl).last
  · next hkind => exact .advance_bind (by rw [hkind]; rfl) (.pure _)
  · exact localVariables_walks hexpr
  · next hkind => exact ifStatement_walks hstmt hexpr hkind
  · next hkind => exact whileStatement_walks hstmt hexpr hkind
  · next hkind => exact doStatement_walks hstmt hexpr hkind
  · next hkind => exact (jump_walks hkind rfl).last
  · next hkind => exact (jump_walks hkind rfl).last
  · next hkind => exact returnStatement_walks hexpr hkind
  · next hkind => exact tryStatement_walks hstmt hkind
  · exact effectStatement_walks hexpr
  · exact effectStatement_walks hexpr
  · exact effectStatement_walks hexpr
  · exact .fail (by decide)
  · next hname =>
    refine .lookNext_bind hname ?_
    split
    · next hcolon => exact labeledStatement_walks hstmt hname hcolon
    · exact effectStatement_walks hexpr
  · exact effectStatement_walks hexpr

end Nested

theorem statement_walks (n : Nat) {eats : Bool} {seen : List Token} {c : Cursor} :
    Walks true eats seen (statement n) c := by
  induction n generalizing eats seen c with
  | zero => exact .tooDeep
  | succ n ih =>
    refine .located (.peekKind_bind ?_)
    exact statementOf_walks (fun _ _ => ih) fun _ _ => expression_walks n

end Statements

/-! ## Members -/

section Members

variable {set : ModifierSet} {type : PrimitiveType} {word : String} {limit : Nat}

theorem addModifier_walks {ms : List Modifier} {m : Modifier}
    (hkind : c.peek.kind = .keyword (.modifier m)) :
    Walks nested eats seen (addModifier ms m) c := by
  refine .advance_bind (by rw [hkind]; rfl) ?_
  split
  · exact (Walks.log (t := c.peek) ⟨rfl, rfl⟩ (by simp)).map_bind
  · exact .pure _

theorem memberModifier_walks {ms : List Modifier} :
    Walks nested false seen (memberModifier ms) c := by
  refine .peekKind_bind ?_
  split
  · exact .pure _
  · next m hm =>
    split
    · exact (addModifier_walks (modifier?_eq_some.mp hm)).last
    · exact .pure _

theorem classModifier_walks {ms : List Modifier} :
    Walks nested false seen (classModifier ms) c := by
  refine .peekKind_bind ?_
  split
  · exact .pure _
  · next m hm =>
    have hkind := modifier?_eq_some.mp hm
    split
    · exact (addModifier_walks hkind).last
    · exact .complain_bind (by decide) (.advance_bind (by rw [hkind]; rfl) (.pure _))

theorem modifiers_walks {next : List Modifier → Parser (Option (Unit × List Modifier))}
    (h : ∀ seen ms c, Walks nested false seen (next ms) c) :
    Walks nested false seen (modifiers next) c :=
  .map _ (.loop h)

theorem parameter_walks : Walks nested eats seen parameter c := by
  refine .andThen (primitiveType_walks (by decide)) fun _ _ _ => ?_
  exact .name_bind (.identifier rfl) (.pure _)

theorem methodRest_walks (hopen : c.peek.kind = .punctuation .lparen) :
    Walks true eats seen (methodRest limit set type word) c := by
  have hend : ∀ {params : List Param} {seen c}, Walks true false seen (do
      let _ ← expect .parametersEnd
      let body ← block (statement limit) .methodBody
      return ((Member.method · set type word params body) : Location → Member Location)) c :=
    .expect_bind (.token rfl rfl) fun _ => (block_walks (fun _ _ => statement_walks limit) rfl).last
  refine .advance_bind (by rw [hopen]; rfl) (.sees_bind ?_)
  split
  · exact hend
  · exact .andThen (.separated fun _ _ => parameter_walks) fun _ _ _ => hend

theorem fieldRest_walks : Walks true eats seen (fieldRest limit set type word) c := by
  have hexpr : ∀ seen c, Walks true true seen (expression limit) c :=
    fun _ _ => expression_walks limit
  refine .seq (initializer_walks hexpr) fun _ _ => .seq (.many fun _ _ => ?_) fun _ _ => ?_
  · exact .accept_bind rfl (fun _ => (declarator_walks hexpr rfl).last) (.pure _)
  · exact (Walks.expect (.token rfl rfl)).last

theorem member_walks (limit : Nat) : Walks true eats seen (member limit) c := by
  refine .located (.seq (modifiers_walks fun _ _ _ => memberModifier_walks) fun _ _ => ?_)
  refine .andThen (primitiveType_walks ?_) fun _ _ _ => ?_
  · split <;> decide
  · refine .name_bind (.identifier rfl) (.sees_bind ?_)
    split
    · next hopen => exact methodRest_walks (of_decide_eq_true hopen)
    · exact fieldRest_walks

end Members

end Parser

end JavaSubset
