import JavaSubset.Proofs.BlockStatements
import JavaSubset.Proofs.Precedence

/-!
# Chains of assignments

Expressions with assignment operators between them are read as one statement, grouped from the
right (`Nested`). An operator behind something that can not be assigned to is reported and keeps its
node (`blamed`).

The parser goes round once for each operator and groups what it has read when it is done. From the
first operand on, a round does what its operator does in the tree (`assignments_cons`), so that the
loop follows the tree (`assignments_nested`). In a block (`block_assignments`) the reports also
outlast the suppression of cascades, since no earlier one stands at an operator of the chain. A
parse comes so to each statement of a block that it enters (`Entered.atStatement`).
-/

namespace JavaSubset

open Cursor Grammar JavaSubset.Parser

/-- The tokens of an expression, and its tree. -/
structure Side (n : Nat) where
  tokens : List Token
  tree : Expr Unit
  derived : Expression n tokens tree

/-- An assignment operator and the expression behind it. -/
structure Storing (n : Nat) where
  token : Token
  op : AssignOp
  spells : token.kind = .operator (.assign op)
  value : Side n

/-- Expressions with assignment operators between them, and a semicolon behind. -/
structure AssignmentChain (n : Nat) where
  first : Side n
  more : List (Storing n)
  stop : Token
  stop_kind : stop.kind = .punctuation .semicolon

variable {n : Nat} {side : Side n} {more : List (Storing n)} {e : Expr Location} {c c' c₁ : Cursor}

def Storing.tokens (s : Storing n) : List Token := s.token :: s.value.tokens

def AssignmentChain.tokens (chain : AssignmentChain n) : List Token :=
  chain.first.tokens ++ chain.more.flatMap Storing.tokens ++ [chain.stop]

/-- The operators whose left side can not be assigned to. -/
def blamed : Side n → List (Storing n) → List Token
  | _, [] => []
  | side, s :: more =>
    if side.tree.isAssignable then blamed s.value more else s.token :: blamed s.value more

def AssignmentChain.reports (chain : AssignmentChain n) : List Diagnostic :=
  (blamed chain.first chain.more).map (.unexpected .assignmentTarget)

/-- Wherever the tokens are read as an expression, `e` is what they are read as. -/
structure Side.Gives (side : Side n) (e : Expr Location) : Prop where
  parses : Parses n side.tokens e
  shape : e.erase = side.tree

/-- Assignments grouped from the right, with what the sides give as their operands. -/
inductive Nested : Side n → List (Storing n) → Expr Location → Prop where
  | value {side : Side n} {e : Expr Location} (gives : side.Gives e) : Nested side [] e
  | assign {side : Side n} {s : Storing n} {more : List (Storing n)} {e value : Expr Location}
      (gives : side.Gives e) (rest : Nested s.value more value) :
      Nested side (s :: more) (.assign (e.note.merge value.note) e s.op value)

theorem Side.exists_gives (side : Side n) : ∃ e, side.Gives e := by
  obtain ⟨e, hsettles, hshape⟩ := expression_settles side.derived
  refine ⟨e, fun c c' hread hends => hsettles hread ?_, hshape⟩
  exact endsOperand_of_endsExpression hends

theorem Side.Gives.isAssignable (h : side.Gives e) :
    e.isAssignable = side.tree.isAssignable := by
  rw [← h.shape]
  simp

namespace AssignmentChain

theorem leads (chain : AssignmentChain n) :
    Leads (·.startsEffect) (chain.first.tokens ++ chain.more.flatMap Storing.tokens) :=
  (chain.first.derived.leads.append _).imp Token.Kind.startsEffect_of_startsExpr

theorem noColon (chain : AssignmentChain n) : NoColon chain.tokens := by
  refine (chain.first.derived.inner.noColon.append fun t ht => ?_).snoc chain.stop_kind (by decide)
  obtain ⟨s, -, ht⟩ := List.mem_flatMap.mp ht
  exact s.value.derived.inner.noColon.cons s.spells (by simp) t ht

end AssignmentChain

/-! ## The loop -/

namespace Parser

variable {expr : Parser (Expr Location)} {target value : Expr Location} {op : AssignOp}

theorem assignments_stop (h : c.peek.kind = .punctuation .semicolon) :
    assignments expr value c = ⟨.ok value, [], c⟩ := by
  rw [assignments, iterate_stop (assignment_stops h)]
  rfl

theorem assignments_cons (hkind : c.peek.kind = .operator (.assign op))
    (hvalue : Accepts expr c.advance value c₁) (hlt : c₁.rest.length < c.rest.length) :
    assignments expr target c = ((assignments expr value c₁).map (store (target, op))).after
      (if target.isAssignable then [] else [.unexpected .assignmentTarget c.peek]) := by
  have hcheck : checkTarget target c.peek c.advance = ⟨.ok (),
      if target.isAssignable then [] else [.unexpected .assignmentTarget c.peek], c.advance⟩ := by
    unfold checkTarget
    split <;> rfl
  have hround : assignment expr target c = ⟨.ok (some ((target, op), value)),
      if target.isAssignable then [] else [.unexpected .assignmentTarget c.peek], c₁⟩ := by
    have hpeek : peekKind c = ⟨.ok (.operator (.assign op)), [], c⟩ := by
      rw [← hkind]
      rfl
    have hadvance : advance c = ⟨.ok c.peek, [], c.advance⟩ := rfl
    have hread : assignment expr target c = (do
        checkTarget target (← advance)
        return some ((target, op), ← expr)) c := by
      rw [assignment, bind_of_ok hpeek]
      rfl
    rw [hread, bind_of_ok hadvance, bind_of_ok hcheck, bind_pure, hvalue]
    simp [Reply.map, Reply.after, Except.map]
  rw [assignments, iterate_next hround hlt, assignments, Reply.map_after, Reply.map_map,
    Reply.map_map]
  rfl

/-- What can follow a side: an assignment operator or the semicolon. -/
theorem ends_side (hread : Reads c (more.flatMap Storing.tokens) c')
    (hstop : c'.peek.kind = .punctuation .semicolon) :
    c.peek.kind.endsExpression = true ∧ step? c.peek.kind = none := by
  cases more with
  | nil =>
    rw [← hread.of_nil, hstop]
    exact ⟨rfl, rfl⟩
  | cons s more =>
    rw [List.flatMap_cons, Storing.tokens] at hread
    rw [hread.of_cons.1, s.spells]
    exact ⟨rfl, rfl⟩

/-- The loop over the assignments behind a side makes the nested tree. -/
theorem assignments_nested (h : side.Gives e) (hread : Reads c (more.flatMap Storing.tokens) c')
    (hstop : c'.peek.kind = .punctuation .semicolon) :
    ∃ tree, Nested side more tree ∧ assignments (expression n) e c =
      ⟨.ok tree, (blamed side more).map (.unexpected .assignmentTarget), c'⟩ := by
  induction more generalizing side e c with
  | nil =>
    cases hread.of_nil
    exact ⟨e, .value h, assignments_stop hstop⟩
  | cons s more ih =>
    rw [List.flatMap_cons] at hread
    obtain ⟨c₁, hs, hmore⟩ := hread.split
    obtain ⟨hpeek, hvalue⟩ := hs.of_cons
    obtain ⟨value, hgives⟩ := s.value.exists_gives
    obtain ⟨tree, hnested, hrest⟩ := ih hgives hmore
    have haccepts := hgives.parses hvalue (ends_side hmore hstop).1
    refine ⟨_, .assign h hnested, ?_⟩
    rw [assignments_cons (hpeek ▸ s.spells) haccepts hs.progress, hrest, h.isAssignable, hpeek,
      blamed]
    by_cases hassignable : side.tree.isAssignable = true
    · simp [hassignable, Reply.map, Reply.after, Except.map, store]
    · simp [hassignable, Reply.map, Reply.after, Except.map, store]

/-! ## The statement -/

theorem effect_nested (hread : Reads c side.tokens c₁)
    (hmore : Reads c₁ (more.flatMap Storing.tokens) c')
    (hstop : c'.peek.kind = .punctuation .semicolon) :
    ∃ tree, Nested side more tree ∧ effect (expression n) c =
      ⟨.ok tree, (blamed side more).map (.unexpected .assignmentTarget), c'⟩ := by
  obtain ⟨e, hgives⟩ := side.exists_gives
  obtain ⟨hends, hother⟩ := ends_side hmore hstop
  obtain ⟨tree, hnested, hloop⟩ := assignments_nested hgives hmore hstop
  have hstart : peek c = ⟨.ok c.peek, [], c⟩ := rfl
  have hnext : peekKind c₁ = ⟨.ok c₁.peek.kind, [], c₁⟩ := rfl
  refine ⟨tree, hnested, ?_⟩
  rw [effect, bind_of_ok hstart, step?_of_startsExpr (peek_of_leads side.derived.leads hread)]
  change (((expression n >>= _) c).after []) = _
  rw [bind_of_ok (hgives.parses hread hends), bind_of_ok hnext, hother]
  exact hloop

theorem statement_nested (chain : AssignmentChain n) (hread : Reads c chain.tokens c') :
    ∃ tree, Nested chain.first chain.more tree ∧ statement (n + 1) c =
      ⟨.ok (.expr (c'.locationFrom c.peek) tree), chain.reports, c'⟩ := by
  obtain ⟨c₂, hphrase, hpeek, rfl⟩ := hread.of_snoc
  obtain ⟨c₁, hfirst, hmore⟩ := hphrase.split
  obtain ⟨tree, hnested, heffect⟩ := effect_nested hfirst hmore (hpeek ▸ chain.stop_kind)
  have hstatement : effectStatement (expression n) c =
      ⟨.ok (.expr · tree), chain.reports, c₂.advance⟩ := by
    rw [effectStatement, bind_of_ok heffect,
      bind_of_ok (expect_of_admits (by rw [hpeek, chain.stop_kind]; rfl))]
    simp [Reply.after, Pure.pure, Reply.ok, AssignmentChain.reports]
  have hkind : peekKind c = ⟨.ok c.peek.kind, [], c⟩ := rfl
  have hnode : (peekKind >>= statementOf (statement n) (expression n)) c =
      ⟨.ok (.expr · tree), chain.reports, c₂.advance⟩ := by
    rw [bind_of_ok hkind, statementOf_effect chain.leads chain.noColon hread, hstatement]
    rfl
  exact ⟨tree, hnested, located_of_ok hnode⟩

end Parser

/-! ## Diagnostics -/

theorem blamed_sublist (side : Side n) (more : List (Storing n)) :
    (blamed side more).Sublist (more.flatMap Storing.tokens) := by
  induction more generalizing side with
  | nil => exact .slnil
  | cons s more ih =>
    have hrest := (ih s.value).trans (List.sublist_append_right s.value.tokens _)
    rw [List.flatMap_cons, Storing.tokens, List.cons_append, blamed]
    split
    · exact hrest.cons s.token
    · exact hrest.cons_cons s.token

/-- What was raised before a chain does not hide its reports, and these do not hide one another. -/
theorem AssignmentChain.reports_kept (chain : AssignmentChain n) (hread : Reads c chain.tokens c')
    {front : List Token} {before : List Diagnostic} (hmarked : Marked (front ++ [c.peek]) before)
    (hspans : ((front ++ chain.tokens).map (·.loc.span)).Nodup) :
    Diagnostic.withoutCascades (before ++ chain.reports) =
      Diagnostic.withoutCascades before ++ chain.reports := by
  have hpeek : c.peek ∈ chain.first.tokens := by
    obtain ⟨t, vs, hfirst, -⟩ := chain.first.derived.leads
    rw [AssignmentChain.tokens, hfirst] at hread
    rw [hread.of_cons.1, hfirst]
    exact List.mem_cons_self
  have hsplit : front ++ chain.tokens =
      front ++ chain.first.tokens ++ (chain.more.flatMap Storing.tokens ++ [chain.stop]) := by
    simp [AssignmentChain.tokens]
  rw [hsplit, List.map_append, List.nodup_append] at hspans
  obtain ⟨-, hback, hapart⟩ := hspans
  have hblamed := (blamed_sublist chain.first chain.more).trans
    (List.sublist_append_left _ [chain.stop])
  have hown : (chain.reports.map (·.loc.span)).Nodup := by
    rw [reports, List.map_map]
    exact (hblamed.map _).nodup hback
  rw [Diagnostic.withoutCascades_append, Diagnostic.withoutCascades_of_nodup hown]
  intro d hd d' hd'
  obtain ⟨t, ht, hmarks⟩ := hmarked d hd
  obtain ⟨u, hu, rfl⟩ := List.mem_map.mp hd'
  have ht : t ∈ front ++ chain.first.tokens := by
    rw [List.mem_append, List.mem_singleton] at ht
    rcases ht with ht | rfl
    · exact List.mem_append_left _ ht
    · exact List.mem_append_right _ hpeek
  rw [hmarks.place]
  exact hapart _ (List.mem_map_of_mem ht) _ (List.mem_map_of_mem (hblamed.subset hu))

/-- The parse comes to a statement of a block at `c`, behind the diagnostics `before` and in front
of the diagnostics `after`. -/
structure AtStatement (tokens : List Token) (n : Nat) (c : Cursor)
    (before after : List Diagnostic) : Prop where
  comes : ComesTo (program maxNesting) (.ofTokens tokens) before
    (recover .statement (statement n)) c
  raised : (program maxNesting (.ofTokens tokens)).raised =
    before ++ (recover .statement (statement n) c).raised ++ after

/-- **A parse comes to each statement of a block that it enters.** -/
theorem Parser.Entered.atStatement {tokens : List Token}
    (h : Entered tokens (recover .statement (statement n)) c) :
    ∃ before after, AtStatement tokens n c before after := by
  obtain ⟨before, after, hcomes, hraised⟩ := h.reaches
  exact ⟨before, after, hcomes, hraised⟩

/-- **Assignment chains are grouped from the right, and every bad target is reported once.** In a
block a chain of assignments is read as one statement, up to its semicolon. Behind whatever was
raised before, which stands at tokens that were read or at the next one, each operator whose left
side is neither a variable nor a field is added to the diagnostics, in order. -/
theorem block_assignments (chain : AssignmentChain n) (hread : Reads c chain.tokens c') :
    ∃ tree, Nested chain.first chain.more tree ∧
      bodyOf .statement (statement (n + 1)) c =
        ((bodyOf .statement (statement (n + 1)) c').map
          (.expr (c'.locationFrom c.peek) tree :: ·)).after chain.reports ∧
      (∀ front before, Marked (front ++ [c.peek]) before →
        ((front ++ chain.tokens).map (·.loc.span)).Nodup →
        Diagnostic.withoutCascades (before ++ chain.reports) =
          Diagnostic.withoutCascades before ++ chain.reports) ∧
      ∀ tokens before after, AtStatement tokens (n + 1) c before after →
        ((tokens.filter (·.kind.isKept)).map (·.loc.span)).Nodup →
        Diagnostic.withoutCascades before ++ chain.reports <+: (parse tokens).diagnostics := by
  obtain ⟨tree, hnested, hstatement⟩ := statement_nested chain hread
  have hrecover : recover .statement (statement (n + 1)) c =
      ⟨.ok (some (.expr (c'.locationFrom c.peek) tree)), chain.reports, c'⟩ := by
    rw [recover, hstatement]
  refine ⟨tree, hnested, ?_, fun front before => chain.reports_kept hread, ?_⟩
  · obtain ⟨t, vs, hphrase, hstarts⟩ := chain.leads
    rw [AssignmentChain.tokens, hphrase] at hread
    have hbrace : c.peek.kind ≠ .punctuation .rbrace := by
      intro hkind
      rw [← hread.of_cons.1, hkind] at hstarts
      cases hstarts
    have hrest : c.rest ≠ [] := by
      rw [hread.rest_eq]
      exact List.cons_ne_nil _ _
    exact bodyOf_cons hrest hbrace hrecover hread.progress
  · intro tokens before after hat hspans
    obtain ⟨us, hus, hmarked⟩ := hat.comes.places
    have hkept : tokens.filter (·.kind.isKept) = us ++ chain.tokens ++ c'.rest :=
      (hus.trans hread).rest_eq
    rw [hkept, List.map_append, List.nodup_append] at hspans
    rw [parse_diagnostics, hat.raised, hrecover, Reply.raised_ok,
      ← chain.reports_kept hread hmarked hspans.1]
    exact Diagnostic.withoutCascades_prefix _ after

/-- Behind a broken statement, `1 = x += f() = y;` is one statement with two bad targets. -/
theorem block_assignments_behind_error :
    let token (kind : Token.Kind) (n : Nat) : Token := ⟨kind, "", none, ⟨⟨n, n + 1⟩, 1⟩⟩
    let mark (m : Punctuation) := token (.punctuation m)
    let name := token .identifier
    let equals := token (.operator (.assign .assign))
    let plus := token (.operator (.assign .addAssign))
    let sideOf (us : List Token) (e : Expr Unit) (h : Primary (Expression 126) us e) : Side 127 :=
      ⟨us, e, (Postfix.of_primary h).expression⟩
    let number := sideOf [token .number 10] _ (.number rfl)
    let x := sideOf [name 12] _ (.ident rfl)
    let call := sideOf [name 14, mark .lparen 15, mark .rparen 16] _ (.call rfl (.empty rfl rfl))
    let y := sideOf [name 18] _ (.ident rfl)
    let chain : AssignmentChain 127 := ⟨number, [⟨equals 11, .assign, rfl, x⟩,
      ⟨plus 13, .addAssign, rfl, call⟩, ⟨equals 17, .assign, rfl, y⟩], mark .semicolon 19, rfl⟩
    let tokens := [token (.keyword (.declaration .classKw)) 0, name 1, mark .lbrace 2,
      token (.keyword (.primitive .int)) 3, name 4, mark .lparen 5, mark .rparen 6,
      mark .lbrace 7, mark .rparen 8, mark .semicolon 9] ++ chain.tokens ++
      [mark .rbrace 20, mark .rbrace 21]
    let start := Cursor.ofTokens tokens
    let broken := Diagnostic.unexpected .expression (mark .rparen 8)
    let reports := [Diagnostic.unexpected .assignmentTarget (equals 11),
      .unexpected .assignmentTarget (equals 17)]
    AtStatement tokens 128 (start.skip 10) [broken] [] ∧
      (∃ tree, Nested chain.first chain.more tree ∧
        bodyOf .statement (statement 128) (start.skip 10) =
          ((bodyOf .statement (statement 128) (start.skip 20)).map
            (.expr ((start.skip 20).locationFrom (token .number 10)) tree :: ·)).after reports) ∧
      broken :: reports <+: (parse tokens).diagnostics := by
  intro token mark name equals plus sideOf number x call y chain tokens start broken reports
  have hread : Reads (start.skip 10) chain.tokens (start.skip 20) :=
    reads_skip (c := start.skip 10) (n := 10) (by decide)
  have hmodifiers : ∀ next c, next [] c = ⟨.ok none, [], c⟩ →
      modifiers next c = ⟨.ok (.ofList []), [], c⟩ := by
    intro next c h
    rw [modifiers, iterate, h]
    rfl
  have himports : imports start = ⟨.ok [], [], start⟩ := by
    rw [imports, bind_pure, many, iterate]
    rfl
  have hclass : Entered tokens (classBody maxNesting) (start.skip 2) :=
    .part (.part (.part .program (.search rfl himports)) (.classDecl rfl rfl))
      (.classBody (hmodifiers _ _ rfl) rfl rfl)
  have hmember : Entered tokens (member maxNesting) (start.skip 3) :=
    .part (.part (.part hclass (.members rfl)) (.item (by decide) (by decide))) .recovered
  have hblock : Entered tokens (itemLoop .statement (statement 128)) (start.skip 8) :=
    .part (.part hmember (.methodBody (hmodifiers _ _ rfl) rfl rfl rfl rfl rfl)) (.statements rfl)
  have hround : round (bodyItem .statement (statement 128)) () (start.skip 8) =
      ⟨.ok (some (none, ())), [broken], start.skip 10⟩ := rfl
  have hentered : Entered tokens (recover .statement (statement 128)) (start.skip 10) :=
    .part (.part hblock (.otherItems (.statement 128) hround (by decide)))
      (.item (by decide) (by decide))
  have hat : AtStatement tokens 128 (start.skip 10) [broken] [] := by
    obtain ⟨_, _, hcomes, -⟩ := hentered.reaches
    refine ⟨⟨hcomes.runs, _, reads_skip (by decide), ?_⟩, by decide +kernel⟩
    exact marked_singleton (t := mark .rparen 8) ⟨rfl, rfl⟩ (by decide)
  obtain ⟨tree, hnested, hbody, -, hparse⟩ := block_assignments chain hread
  exact ⟨hat, ⟨tree, hnested, hbody⟩, hparse tokens _ _ hat (by decide)⟩

end JavaSubset
