import JavaSubset.Proofs.Search
import JavaSubset.Proofs.Termination

/-!
# The statements a parse comes to

* `Reaches p c q d` : from `c` on the parser `p` comes to run `q` at `d`, with all diagnostics placed
  on the way, and raises what `q` raises between those and others;
* `Inside p c q d` : the production `p`, run from `c`, runs the production or the loop `q` at `d` as
  one of its own parts. There is one rule for each place in the source where a class, a member, a
  block or a statement is read;
* `Entered tokens p c` : so from part to part the parse of `tokens` enters `p` at `c`.

Whatever is entered is reached (`Entered.reaches`), be it a statement of a body, of a branch or of a
block of its own, at any depth.
-/

namespace JavaSubset

open Cursor

namespace Parser

variable {α β γ σ : Type} {p : Parser α} {q : Parser β} {r : Parser γ} {c c₁ c₂ c₃ d e : Cursor}
  {reports : List Diagnostic} {limit n : Nat}

/-! ## Parts that are reached -/

def Reaches (p : Parser α) (c : Cursor) (q : Parser β) (d : Cursor) : Prop :=
  ∃ before after, ComesTo p c before q d ∧ (p c).raised = before ++ (q d).raised ++ after

namespace Reaches

theorem self : Reaches p c p c :=
  ⟨[], [], .self, by simp⟩

theorem trans (h : Reaches p c q d) (h' : Reaches q d r e) : Reaches p c r e := by
  obtain ⟨before, after, hcomes, hraised⟩ := h
  obtain ⟨before', after', hcomes', hraised'⟩ := h'
  refine ⟨before ++ before', after' ++ after, hcomes.trans hcomes', ?_⟩
  rw [hraised, hraised']
  simp only [List.append_assoc]

theorem first {f : α → Parser γ} (h : Reaches p c q d) : Reaches (p >>= f) c q d := by
  obtain ⟨before, after, hcomes, hraised⟩ := h
  rcases hp : p c with ⟨⟨x⟩ | ⟨a⟩, reports, c₁⟩
  · refine ⟨before, after, hcomes.first, ?_⟩
    rw [bind_of_error hp, ← hraised, hp]
    rfl
  · rw [hp, Reply.raised_ok] at hraised
    refine ⟨before, after ++ (f a c₁).raised, hcomes.first, ?_⟩
    rw [raised_next hp, hraised]
    simp only [List.append_assoc]

/-- What a part raises in front is placed. -/
theorem next {f : α → Parser γ} {a : α} (done : p c = ⟨.ok a, reports, c₁⟩) (places : Places [] p c)
    (h : Reaches (f a) c₁ q d) : Reaches (p >>= f) c q d := by
  obtain ⟨before, after, hcomes, hraised⟩ := h
  refine ⟨reports ++ before, after, .next done places hcomes, ?_⟩
  rw [raised_next done, hraised]
  simp only [List.append_assoc]

/-- A part that only looks ahead or reads. -/
theorem skip {f : α → Parser γ} {a : α} (k : Nat) (done : p c = ⟨.ok a, [], c.skip k⟩)
    (h : Reaches (f a) (c.skip k) q d) : Reaches (p >>= f) c q d :=
  next done (places_skip k done) h

theorem expect {demand : Demand} {f : Token → Parser γ}
    (h : demand.expected.admits c.peek.kind = true) (rest : Reaches (f c.peek) c.advance q d) :
    Reaches (expect demand >>= f) c q d :=
  skip 1 (expect_of_admits h) rest

theorem accept {kind : Token.Kind} {f : Bool → Parser γ} (h : c.peek.kind = kind)
    (rest : Reaches (f true) c.advance q d) : Reaches (accept kind >>= f) c q d :=
  skip 1 (accept_of_kind h) rest

theorem advance {f : Token → Parser γ} (h : Reaches (f c.peek) c.advance q d) :
    Reaches (Parser.advance >>= f) c q d :=
  skip 1 rfl h

theorem sees {kind : Token.Kind} {f : Bool → Parser γ}
    (h : Reaches (f (c.peek.kind = kind)) c q d) : Reaches (Parser.sees kind >>= f) c q d :=
  skip 0 rfl h

theorem name {demand : Demand} {f : String → Parser γ}
    (h : demand.expected.admits c.peek.kind = true) (rest : Reaches (f c.peek.text) c.advance q d) :
    Reaches (Parser.name demand >>= f) c q d := by
  refine skip 1 ?_ rest
  rw [Parser.name, bind_pure, expect_of_admits h]
  rfl

/-- What stands behind a token. -/
theorem behind {kind : Token.Kind} (h : c.peek.kind = kind) (rest : Reaches p c.advance q d) :
    Reaches (Parser.behind kind p) c q d :=
  accept h rest.first

theorem map {g : α → γ} (h : Reaches p c q d) : Reaches (fun c => (p c).map g) c q d := by
  obtain ⟨before, after, ⟨hruns, hplaces⟩, hraised⟩ := h
  refine ⟨before, after, ⟨.map g hruns, hplaces⟩, ?_⟩
  rw [Reply.raised_map]
  exact hraised

theorem located {p : Parser (Location → α)} (h : Reaches p c q d) : Reaches (located p) c q d :=
  skip 0 rfl h.first

theorem recover (point : SyncPoint) (h : Reaches p c q d) : Reaches (recover point p) c q d := by
  obtain ⟨before, after, hcomes, hraised⟩ := h
  refine ⟨before, after, hcomes.recover point, ?_⟩
  rw [raised_recover]
  exact hraised

section Loops

variable {step : σ → Parser (Option (γ × σ))} {s s' : σ} {b : γ}

theorem round (h : Reaches (step s) c q d) : Reaches (iterate step s) c q d := by
  obtain ⟨before, after, ⟨hruns, hplaces⟩, hraised⟩ := h
  have hcomes : ComesTo (iterate step s) c before q d := ⟨.round hruns, hplaces⟩
  rcases hstep : step s c with ⟨⟨x⟩ | ⟨_ | ⟨b, s'⟩⟩, reports, c₁⟩
  · refine ⟨before, after, hcomes, ?_⟩
    rw [iterate_error hstep, ← hraised, hstep]
    rfl
  · refine ⟨before, after, hcomes, ?_⟩
    rw [iterate_stop hstep, ← hraised, hstep]
    rfl
  · rw [hstep, Reply.raised_ok] at hraised
    by_cases hlt : c₁.rest.length < c.rest.length
    · refine ⟨before, after ++ (iterate step s' c₁).raised, hcomes, ?_⟩
      rw [raised_rounds hstep hlt, hraised]
      simp only [List.append_assoc]
    · refine ⟨before, after, hcomes, ?_⟩
      rw [iterate_stuck hstep hlt, ← hraised]
      rfl

theorem rounds (done : step s c = ⟨.ok (some (b, s')), reports, c₁⟩)
    (reads : c₁.rest.length < c.rest.length) (places : Places [] (step s) c) :
    Reaches (iterate step s) c (iterate step s') c₁ := by
  obtain ⟨us, hreads, hmarked⟩ := places
  rw [done] at hreads hmarked
  refine ⟨reports, [], ⟨.rounds done reads .self, us, hreads, hmarked⟩, ?_⟩
  rw [raised_rounds done reads, List.append_nil]

end Loops

theorem statement (h : Reaches (statementOf (statement n) (expression n) c.peek.kind) c q d) :
    Reaches (statement (n + 1)) c q d :=
  located (p := do statementOf (Parser.statement n) (expression n) (← peekKind)) (skip 0 rfl h)

end Reaches

/-! ## What is run in front of a part -/

section Front

variable {seen : List Token} {point : SyncPoint} {kind : Token.Kind}

theorem clause_places {nameDemand endDemand : Demand} (hname : nameDemand.expected = .identifier)
    (hend : endDemand.expected ≠ .endOfInput) :
    Places seen (clause nameDemand endDemand) c := by
  refine places_bind advance_places fun {_ us _ c₁} _ _ => ?_
  have hwalks : Walks false false (seen ++ us) (qualifiedName nameDemand) c₁ :=
    qualifiedName_walks hname
  exact places_bind hwalks.places fun _ _ => places_bind (expect_places hend) fun _ _ =>
    places_skip 0 rfl

theorem statement_places : Places seen (Parser.statement n) c := by
  have hwalks : Walks true true seen (Parser.statement n) c := statement_walks n
  exact hwalks.places

theorem member_places : Places seen (member limit) c := by
  have hwalks : Walks true true seen (member limit) c := member_walks limit
  exact hwalks.places

theorem Recovered.places (h : Recovered point p) : Places seen p c := by
  cases h with
  | packageDecl => exact clause_places rfl (by decide)
  | importDecl => exact clause_places rfl (by decide)
  | classDecl limit => exact classDecl_places
  | member limit => exact member_places
  | statement n => exact statement_places

theorem round_places {step : Parser (Option α)} {u : Unit} (h : Places seen step c) :
    Places seen (round step u) c :=
  places_bind h fun _ _ => places_skip 0 rfl

theorem bodyItem_places (h : Recovered point p) : Places seen (bodyItem point p) c := by
  refine places_bind (places_skip 0 rfl) fun _ _ => places_bind (places_skip 0 rfl) fun _ _ => ?_
  split
  · exact places_skip 0 rfl
  · exact places_bind (recover_places h.places) fun _ _ => places_skip 0 rfl

theorem behind_places (h : ∀ seen c, Places seen p c) : Places seen (behind kind p) c := by
  refine places_bind accept_places fun _ _ => ?_
  split
  · exact places_bind (h _ _) fun _ _ => places_skip 0 rfl
  · exact places_skip 0 rfl

theorem catchClause_places : Places seen (catchClause (Parser.statement n)) c := by
  have hwalks : Walks true true seen (catchClause (Parser.statement n)) c :=
    catchClause_walks fun _ _ => statement_walks n
  exact hwalks.places

theorem catches_places :
    Places seen (many (behind (.keyword (.control .catchKw))
      (catchClause (Parser.statement n)))) c := by
  have hclause : ∀ seen c, Walks true false seen
      (behind (.keyword (.control .catchKw)) (catchClause (Parser.statement n))) c := fun _ _ =>
    .accept_bind rfl (fun _ => (catchClause_walks fun _ _ => statement_walks n).last) (.pure _)
  exact (Walks.many hclause).places

theorem attempt_places {s : ClassSearch} : Places seen (attempt limit s) c := by
  cases s with
  | first => exact attemptFrom_places
  | again => exact attemptFrom_places
  | found decl => exact places_skip 0 rfl

theorem condition_places {word : ControlWord} :
    Places seen (condition (expression n) word) c := by
  have hwalks : Walks true true seen (condition (expression n) word) c :=
    condition_walks fun _ _ => expression_walks n
  exact hwalks.places

theorem memberModifiers_places : Places seen (modifiers memberModifier) c := by
  have hwalks : Walks true false seen (modifiers memberModifier) c :=
    modifiers_walks fun _ _ _ => memberModifier_walks
  exact hwalks.places

theorem memberType_places {set : ModifierSet} :
    Places seen (primitiveType (if set.isEmpty then .member else .memberType)) c := by
  have hwalks : Walks true true seen
      (primitiveType (if set.isEmpty then .member else .memberType)) c :=
    primitiveType_walks (by split <;> decide)
  exact hwalks.places

theorem parameters_places : Places seen (separated parameter) c := by
  have hwalks : Walks true true seen (separated parameter) c :=
    .separated fun _ _ => parameter_walks
  exact hwalks.places

theorem block_statement_places {demand : Demand}
    (h : demand.expected = .token (.punctuation .lbrace)) :
    Places seen (block (Parser.statement n) demand) c := by
  have hwalks : Walks true true seen (block (Parser.statement n) demand) c :=
    block_walks (fun _ _ => statement_walks n) h
  exact hwalks.places

end Front

/-! ## Parts of productions -/

/-- The loop over the items of a body. -/
abbrev itemLoop (point : SyncPoint) (p : Parser α) : Parser (List (Option α) × Unit) :=
  iterate (round (bodyItem point p)) ()

/-- The loop over the `catch` clauses of a `try`. -/
abbrev catchLoop (n : Nat) : Parser (List (CatchClause Location) × Unit) :=
  iterate (round (behind (.keyword (.control .catchKw)) (catchClause (statement n)))) ()

inductive Inside : {α β : Type} → Parser α → Cursor → Parser β → Cursor → Prop where
  -- the class
  | search {limit : Nat} {package : Option String} {names : List String}
      {reports reports' : List Diagnostic} {c c₁ c₂ : Cursor}
      (header : package? c = ⟨.ok package, reports, c₁⟩)
      (clauses : imports c₁ = ⟨.ok names, reports', c₂⟩) :
      Inside (program limit) c (iterate (attempt limit) .first) c₂
  | searchOn {limit : Nat} {s s' : ClassSearch} {u : Unit} {reports : List Diagnostic}
      {c c₁ : Cursor} (done : attempt limit s c = ⟨.ok (some (u, s')), reports, c₁⟩)
      (reads : c₁.rest.length < c.rest.length) :
      Inside (iterate (attempt limit) s) c (iterate (attempt limit) s') c₁
  | classDecl {limit : Nat} {s : ClassSearch} {again : Bool} {reports : List Diagnostic}
      {c c₁ : Cursor} (searching : attempt limit s = attemptFrom limit again)
      (ahead : locateClass again c = ⟨.ok true, reports, c₁⟩) :
      Inside (iterate (attempt limit) s) c (classDecl limit) c₁
  | classBody {limit : Nat} {set : ModifierSet} {reports : List Diagnostic} {c c₁ : Cursor}
      (modifiers : modifiers classModifier c = ⟨.ok set, reports, c₁⟩)
      (word : c₁.peek.kind = .keyword (.declaration .classKw))
      (name : c₁.advance.peek.kind = .identifier) :
      Inside (classDecl limit) c (classBody limit) c₁.advance.advance
  -- bodies
  | members {limit : Nat} {c : Cursor} (opening : c.peek.kind = .punctuation .lbrace) :
      Inside (classBody limit) c (itemLoop .member (member limit)) c.advance
  | statements {n : Nat} {demand : Demand} {c : Cursor}
      (opening : demand.expected.admits c.peek.kind = true) :
      Inside (block (statement n) demand) c (itemLoop .statement (statement n)) c.advance
  | otherItems {α : Type} {point : SyncPoint} {p : Parser α} {item : Option α} {u : Unit}
      {reports : List Diagnostic} {c c₁ : Cursor} (recovered : Recovered point p)
      (done : round (bodyItem point p) () c = ⟨.ok (some (item, u)), reports, c₁⟩)
      (reads : c₁.rest.length < c.rest.length) :
      Inside (itemLoop point p) c (itemLoop point p) c₁
  | item {α : Type} {point : SyncPoint} {p : Parser α} {c : Cursor} (ahead : c.rest ≠ [])
      (inside : c.peek.kind ≠ .punctuation .rbrace) :
      Inside (itemLoop point p) c (recover point p) c
  | recovered {α : Type} {point : SyncPoint} {p : Parser α} {c : Cursor} :
      Inside (recover point p) c p c
  -- blocks and statements in members and statements
  | methodBody {limit : Nat} {set : ModifierSet} {type : PrimitiveType} {params : List Param}
      {r₁ r₂ r₃ : List Diagnostic} {c c₁ c₂ c₃ : Cursor}
      (modifiers : modifiers memberModifier c = ⟨.ok set, r₁, c₁⟩)
      (type : primitiveType (if set.isEmpty then .member else .memberType) c₁ = ⟨.ok type, r₂, c₂⟩)
      (name : c₂.peek.kind = .identifier) (opening : c₂.advance.peek.kind = .punctuation .lparen)
      (parameters : (if c₂.advance.advance.peek.kind = .punctuation .rparen then pure []
        else separated parameter) c₂.advance.advance = ⟨.ok params, r₃, c₃⟩)
      (closing : c₃.peek.kind = .punctuation .rparen) :
      Inside (member limit) c (block (statement limit) .methodBody) c₃.advance
  | block {n : Nat} {c : Cursor} (kind : c.peek.kind = .punctuation .lbrace) :
      Inside (statement (n + 1)) c (block (statement n) .block) c
  | ifBody {n : Nat} {e : Expr Location} {reports : List Diagnostic} {c c₁ : Cursor}
      (kind : c.peek.kind = .keyword (.control .ifKw))
      (test : condition (expression n) .ifKw c.advance = ⟨.ok e, reports, c₁⟩) :
      Inside (statement (n + 1)) c (statement n) c₁
  | elseBody {n : Nat} {e : Expr Location} {s : Stmt Location} {r₁ r₂ : List Diagnostic}
      {c c₁ c₂ : Cursor} (kind : c.peek.kind = .keyword (.control .ifKw))
      (test : condition (expression n) .ifKw c.advance = ⟨.ok e, r₁, c₁⟩)
      (body : statement n c₁ = ⟨.ok s, r₂, c₂⟩)
      (other : c₂.peek.kind = .keyword (.control .elseKw)) :
      Inside (statement (n + 1)) c (statement n) c₂.advance
  | whileBody {n : Nat} {e : Expr Location} {reports : List Diagnostic} {c c₁ : Cursor}
      (kind : c.peek.kind = .keyword (.control .whileKw))
      (test : condition (expression n) .whileKw c.advance = ⟨.ok e, reports, c₁⟩) :
      Inside (statement (n + 1)) c (statement n) c₁
  | doBody {n : Nat} {c : Cursor} (kind : c.peek.kind = .keyword (.control .doKw)) :
      Inside (statement (n + 1)) c (statement n) c.advance
  | labeled {n : Nat} {c : Cursor} (kind : c.peek.kind = .identifier)
      (colon : c.peekNext.kind = .punctuation .colon) :
      Inside (statement (n + 1)) c (statement n) c.advance.advance
  | tryBody {n : Nat} {c : Cursor} (kind : c.peek.kind = .keyword (.control .tryKw)) :
      Inside (statement (n + 1)) c (block (statement n) .tryBody) c.advance
  | catches {n : Nat} {body : List (Stmt Location)} {reports : List Diagnostic} {c c₁ : Cursor}
      (kind : c.peek.kind = .keyword (.control .tryKw))
      (body : block (statement n) .tryBody c.advance = ⟨.ok body, reports, c₁⟩) :
      Inside (statement (n + 1)) c (catchLoop n) c₁
  | otherCatches {n : Nat} {clause : CatchClause Location} {u : Unit} {reports : List Diagnostic}
      {c c₁ : Cursor} (done : round (behind (.keyword (.control .catchKw))
        (catchClause (statement n))) () c = ⟨.ok (some (clause, u)), reports, c₁⟩)
      (reads : c₁.rest.length < c.rest.length) : Inside (catchLoop n) c (catchLoop n) c₁
  | catchBody {n : Nat} {c : Cursor} (kind : c.peek.kind = .keyword (.control .catchKw))
      (opening : c.advance.peek.kind = .punctuation .lparen)
      (exceptionType : c.advance.advance.peek.kind = .identifier)
      (name : c.advance.advance.advance.peek.kind = .identifier)
      (closing : c.advance.advance.advance.advance.peek.kind = .punctuation .rparen) :
      Inside (catchLoop n) c (block (statement n) .catchBody)
        c.advance.advance.advance.advance.advance
  | finallyBody {n : Nat} {body : List (Stmt Location)} {clauses : List (CatchClause Location)}
      {r₁ r₂ : List Diagnostic} {c c₁ c₂ : Cursor} (kind : c.peek.kind = .keyword (.control .tryKw))
      (body : block (statement n) .tryBody c.advance = ⟨.ok body, r₁, c₁⟩)
      (clauses : many (behind (.keyword (.control .catchKw)) (catchClause (statement n))) c₁ =
        ⟨.ok clauses, r₂, c₂⟩)
      (last : c₂.peek.kind = .keyword (.control .finallyKw)) :
      Inside (statement (n + 1)) c (block (statement n) .finallyBody) c₂.advance

theorem Inside.reaches (h : Inside p c q d) : Reaches p c q d := by
  cases h with
  | search header clauses =>
    refine .next header package?_walks.places (.next clauses imports_walks.places ?_)
    exact Reaches.self.map.first
  | searchOn done reads => exact .rounds done reads attempt_places
  | classDecl searching ahead =>
    refine .round ?_
    rw [searching]
    refine .next ahead locateClass_places (.first ?_)
    exact Reaches.self.recover .topLevel
  | classBody modifiers word name =>
    refine .located (.next modifiers classModifiers_places (.expect (by rw [word]; rfl) ?_))
    exact .name (by rw [name]; rfl) (.first .self)
  | members opening =>
    refine .expect (by rw [opening]; rfl) (.first (.first ?_))
    exact Reaches.self.map
  | statements opening =>
    refine .expect opening (.first (.first ?_))
    exact Reaches.self.map
  | otherItems recovered done reads =>
    exact .rounds done reads (round_places (bodyItem_places recovered))
  | @item _ _ _ c ahead inside =>
    have hopen : ¬(c.atEnd || decide (c.peek.kind = .punctuation .rbrace)) = true := by
      simpa only [Bool.or_eq_true, atEnd_iff, decide_eq_true_eq, not_or] using ⟨ahead, inside⟩
    refine .round (.first (.skip 0 rfl (.sees ?_)))
    exact if_neg hopen ▸ .first .self
  | recovered => exact Reaches.self.recover _
  | @methodBody _ _ _ _ _ _ _ _ _ c₂ _ modifiers type name opening parameters closing =>
    refine .located (.next modifiers memberModifiers_places ?_)
    refine .next type memberType_places (.name (by rw [name]; rfl) (.sees ?_))
    rw [opening]
    refine .advance (.sees ?_)
    by_cases hnone : c₂.advance.advance.peek.kind = .punctuation .rparen
    · rw [if_pos hnone] at parameters
      rw [hnone]
      exact .next parameters (places_skip 0 rfl) (.expect (by rw [closing]; rfl) (.first .self))
    · rw [if_neg hnone] at parameters
      rw [decide_eq_false hnone]
      exact .next parameters parameters_places (.expect (by rw [closing]; rfl) (.first .self))
  | block kind =>
    refine .statement ?_
    rw [kind]
    exact Reaches.self.first
  | ifBody kind test =>
    refine .statement ?_
    rw [kind]
    exact .advance (.next test condition_places (.first .self))
  | elseBody kind test body other =>
    refine .statement ?_
    rw [kind]
    refine .advance (.next test condition_places (.next body statement_places ?_))
    exact .accept other (.first .self)
  | whileBody kind test =>
    refine .statement ?_
    rw [kind]
    exact .advance (.next test condition_places (.first .self))
  | doBody kind =>
    refine .statement ?_
    rw [kind]
    exact .advance (.first .self)
  | labeled kind colon =>
    refine .statement ?_
    rw [kind]
    refine .skip 0 rfl ?_
    rw [colon]
    exact .advance (.advance (.first .self))
  | tryBody kind =>
    refine .statement ?_
    rw [kind]
    exact .advance (.first .self)
  | catches kind body =>
    refine .statement ?_
    rw [kind]
    refine .advance (.next body (block_statement_places rfl) (.first ?_))
    exact Reaches.self.map
  | otherCatches done reads =>
    exact .rounds done reads (round_places (behind_places fun _ _ => catchClause_places))
  | catchBody kind opening exceptionType name closing =>
    refine .round (.first (.behind kind ?_))
    refine .expect (by rw [opening]; rfl) (.name (by rw [exceptionType]; rfl) ?_)
    refine .name (by rw [name]; rfl) (.expect (by rw [closing]; rfl) (.first .self))
  | finallyBody kind body clauses last =>
    refine .statement ?_
    rw [kind]
    refine .advance (.next body (block_statement_places rfl) (.next clauses catches_places ?_))
    exact .accept last (.first .self)

/-! ## What a parse enters -/

inductive Entered (tokens : List Token) : {α : Type} → Parser α → Cursor → Prop where
  | program : Entered tokens (program maxNesting) (.ofTokens tokens)
  | part {α β : Type} {p : Parser α} {q : Parser β} {c d : Cursor} (whole : Entered tokens p c)
      (inside : Inside p c q d) : Entered tokens q d

theorem Entered.reaches {tokens : List Token} (h : Entered tokens p c) :
    Reaches (Parser.program maxNesting) (.ofTokens tokens) p c := by
  induction h with
  | program => exact .self
  | part whole inside ih => exact ih.trans inside.reaches

end Parser

end JavaSubset
