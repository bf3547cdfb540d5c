import JavaSubset.Parse.Program
import JavaSubset.Proofs.Places

/-!
# The order of diagnostics

* `Diagnostic.Anchored d t` : the diagnostic stands at the token and says what the token is;
* `Along tokens ds` : going along the tokens one meets the diagnostics in order, several of them
  possibly at the same token;
* `Parser.Orderly quiet seen p c` : the parser `p`, run from `c` behind the tokens `seen`, raises
  its diagnostics along the tokens it reads. If `quiet`, it reports none unless it gives up.

Expressions are quiet, so that an operator can be reported behind its operand. All productions are
orderly (`program_orderly`).
-/

namespace JavaSubset

open Cursor

/-! ## Diagnostics at tokens -/

/-- What a problem tells about a token is true of this one. No lexical problem does. -/
def Problem.Shows (t : Token) : Problem → Prop
  | unexpectedToken _ found lexeme | missingClass found lexeme | nestingTooDeep found lexeme =>
    found = t.kind ∧ lexeme = t.text
  | repeatedModifier modifier => t.kind = .keyword (.modifier modifier)
  | unterminatedString | unterminatedComment | illegalCharacter _ => False

structure Diagnostic.Anchored (d : Diagnostic) (t : Token) : Prop where
  place : d.loc = t.loc
  shows : d.problem.Shows t

theorem Diagnostic.anchored_unexpected (demand : Demand) (t : Token) :
    (unexpected demand t).Anchored t :=
  ⟨rfl, rfl, rfl⟩

inductive Along : List Token → List Diagnostic → Prop where
  | nil {ts : List Token} : Along ts []
  | skip {t : Token} {ts : List Token} {ds : List Diagnostic} (more : Along ts ds) :
      Along (t :: ts) ds
  | here {t : Token} {ts : List Token} {d : Diagnostic} {ds : List Diagnostic}
      (anchored : d.Anchored t) (more : Along (t :: ts) ds) : Along (t :: ts) (d :: ds)

section Along

variable {t : Token} {ts us vs : List Token} {d : Diagnostic} {ds es : List Diagnostic}
  {c c' : Cursor}

theorem along_singleton (h : d.Anchored t) (ht : t ∈ ts) : Along ts [d] := by
  induction ts with
  | nil => cases ht
  | cons u ts ih =>
    rcases List.mem_cons.mp ht with rfl | ht
    · exact .here h .nil
    · exact .skip (ih ht)

theorem Along.behind (us : List Token) (h : Along ts ds) : Along (us ++ ts) ds := by
  induction us with
  | nil => exact h
  | cons u us ih => exact .skip ih

/-- Going on from the token where one has arrived. -/
theorem Along.append (h : Along (us ++ [t]) ds) (h' : Along (t :: vs) es) :
    Along (us ++ t :: vs) (ds ++ es) := by
  generalize hts : us ++ [t] = ts at h
  induction h generalizing us with
  | nil => exact h'.behind us
  | skip more ih =>
    cases us with
    | nil =>
      cases hts
      cases more
      exact h'
    | cons u us =>
      cases hts
      exact .skip (ih rfl)
  | @here u _ _ _ anchored more ih =>
    cases us with
    | nil =>
      cases hts
      exact .here anchored (@ih [] rfl)
    | cons v us =>
      cases hts
      exact .here anchored (@ih (u :: us) rfl)

/-- The next token is the first one read, or is still the next one. -/
theorem peek_of_reads (h : Reads c vs c') : ∃ ts, vs ++ [c'.peek] = c.peek :: ts := by
  cases h with
  | nil => exact ⟨[], rfl⟩
  | cons next _ =>
    rw [peek_of_rest next]
    exact ⟨_, rfl⟩

theorem Along.reads (h : Along (us ++ [c.peek]) ds) (hreads : Reads c vs c')
    (h' : Along (vs ++ [c'.peek]) es) : Along (us ++ vs ++ [c'.peek]) (ds ++ es) := by
  obtain ⟨ts, hts⟩ := peek_of_reads hreads
  rw [hts] at h'
  rw [List.append_assoc, hts]
  exact h.append h'

end Along

namespace Parser

variable {α β σ : Type} {p : Parser α} {f : α → Parser β} {c c' : Cursor} {quiet : Bool}
  {seen us : List Token} {d : Diagnostic} {reports : List Diagnostic} {demand : Demand}
  {kind : Token.Kind}

def Orderly (quiet : Bool) (seen : List Token) (p : Parser α) (c : Cursor) : Prop :=
  ∃ us, Reads c us (p c).cursor ∧ Along (seen ++ us ++ [(p c).cursor.peek]) (p c).raised ∧
    (quiet = true → (p c).reports = [])

namespace Orderly

/-! ## Single steps -/

theorem skipped {a : α} (n : Nat) (h : p c = ⟨.ok a, [], c.skip n⟩) : Orderly quiet seen p c := by
  obtain ⟨us, hreads⟩ := exists_reads_skip c n
  rw [Orderly, h]
  exact ⟨us, hreads, .nil, fun _ => rfl⟩

theorem still {a : α} (h : p c = ⟨.ok a, [], c⟩) : Orderly quiet seen p c := skipped 0 h

theorem pure (a : α) : Orderly quiet seen (Pure.pure a : Parser α) c := still rfl

theorem advance : Orderly quiet seen advance c := skipped 1 rfl

theorem gaveUp (h : p c = ⟨.error d, [], c⟩) (hd : d.Anchored c.peek) : Orderly quiet seen p c := by
  rw [Orderly, h]
  exact ⟨[], .nil c, along_singleton hd (by simp), fun _ => rfl⟩

theorem fail : Orderly quiet seen (fail demand : Parser α) c :=
  gaveUp rfl (Diagnostic.anchored_unexpected demand _)

theorem tooDeep : Orderly quiet seen (tooDeep : Parser α) c := gaveUp rfl ⟨rfl, rfl, rfl⟩

/-- A token that was seen may be reported, or the next one. -/
theorem log {t : Token} (h : d.Anchored t) (ht : t ∈ seen ++ [c.peek]) :
    Orderly false seen (log d) c :=
  ⟨[], .nil c, along_singleton h (by rwa [List.append_nil]), by simp⟩

theorem weaken (h : Orderly quiet [] p c) : Orderly quiet seen p c := by
  obtain ⟨us, hreads, halong, hquiet⟩ := h
  refine ⟨us, hreads, ?_, hquiet⟩
  rw [List.append_assoc]
  exact halong.behind seen

theorem loud (h : Orderly true seen p c) : Orderly quiet seen p c := by
  obtain ⟨us, hreads, halong, hquiet⟩ := h
  exact ⟨us, hreads, halong, fun _ => hquiet rfl⟩

/-! ## Sequences -/

/-- A part that was read with its diagnostics, and the rest behind it. -/
theorem after {q : Parser β} {c₁ : Cursor} {g : β → α} (hreads : Reads c us c₁)
    (halong : Along (seen ++ us ++ [c₁.peek]) reports) (hquiet : quiet = true → reports = [])
    (hrest : Orderly quiet [] q c₁) (h : p c = ((q c₁).map g).after reports) :
    Orderly quiet seen p c := by
  obtain ⟨vs, hreads', halong', hquiet'⟩ := hrest
  refine ⟨us ++ vs, ?_, ?_, fun hq => ?_⟩
  · rw [h]
    exact hreads.trans hreads'
  · rw [h, Reply.raised_after, Reply.raised_map, ← List.append_assoc]
    exact halong.reads hreads' halong'
  · rw [h, Reply.after, hquiet hq]
    exact hquiet' hq

theorem bind (h : Orderly quiet seen p c)
    (rest : ∀ {a reports c'}, p c = ⟨.ok a, reports, c'⟩ → Orderly quiet [] (f a) c') :
    Orderly quiet seen (p >>= f) c := by
  obtain ⟨us, hreads, halong, hquiet⟩ := h
  rcases hp : p c with ⟨⟨d⟩ | ⟨a⟩, reports, c₁⟩
  · rw [hp] at hreads halong hquiet
    rw [Orderly, bind_of_error hp]
    exact ⟨us, hreads, halong, hquiet⟩
  · rw [hp] at hreads hquiet
    have halong : Along (seen ++ us ++ [c₁.peek]) reports := by rwa [hp] at halong
    refine after (g := id) hreads halong hquiet (rest hp) ?_
    rw [bind_of_ok hp, Reply.map_id]

/-- What a quiet part has read may still be reported. -/
theorem hold (h : Orderly true seen p c)
    (rest : ∀ {a us c'}, p c = ⟨.ok a, [], c'⟩ → Reads c us c' →
      Orderly quiet (seen ++ us) (f a) c') : Orderly quiet seen (p >>= f) c := by
  obtain ⟨us, hreads, halong, hquiet⟩ := h
  rcases hp : p c with ⟨⟨d⟩ | ⟨a⟩, reports, c₁⟩
  · rw [hp] at hreads halong hquiet
    rw [Orderly, bind_of_error hp]
    exact ⟨us, hreads, halong, fun _ => hquiet rfl⟩
  · rw [hp] at hreads halong hquiet
    obtain rfl : reports = [] := hquiet rfl
    obtain ⟨vs, hreads', halong', hquiet'⟩ := rest hp hreads
    rw [Orderly, bind_of_ok hp, Reply.after_nil]
    refine ⟨us ++ vs, hreads.trans hreads', ?_, hquiet'⟩
    rwa [← List.append_assoc]

theorem map {g : α → β} (h : Orderly quiet seen p c) :
    Orderly quiet seen (fun c => (p c).map g) c := by
  obtain ⟨us, hreads, halong, hquiet⟩ := h
  refine ⟨us, hreads, ?_, hquiet⟩
  rw [Reply.raised_map]
  exact halong

theorem map_bind {g : α → β} (h : Orderly quiet seen p c) :
    Orderly quiet seen (p >>= fun a => Pure.pure (g a)) c :=
  h.bind fun _ => .pure _

theorem peek_bind {f : Token → Parser β} (h : Orderly quiet seen (f c.peek) c) :
    Orderly quiet seen (peek >>= f) c := h

theorem peekKind_bind {f : Token.Kind → Parser β} (h : Orderly quiet seen (f c.peek.kind) c) :
    Orderly quiet seen (peekKind >>= f) c := h

theorem sees_bind {f : Bool → Parser β} (h : Orderly quiet seen (f (c.peek.kind = kind)) c) :
    Orderly quiet seen (sees kind >>= f) c := h

/-- A token that is read may still be reported. -/
theorem advance_bind {f : Token → Parser β} (hkind : c.peek.kind ≠ .eof)
    (h : Orderly quiet (seen ++ [c.peek]) (f c.peek) c.advance) :
    Orderly quiet seen (Parser.advance >>= f) c := by
  refine .hold .advance fun heq hreads => ?_
  cases heq
  rwa [hreads.unique (reads_peek hkind)]

theorem expect : Orderly quiet seen (expect demand) c := by
  refine .peekKind_bind ?_
  split
  · exact .advance
  · exact .fail

theorem name : Orderly quiet seen (name demand) c := expect.map_bind

theorem accept : Orderly quiet seen (accept kind) c := by
  refine .sees_bind ?_
  split
  · exact advance.map_bind
  · exact .pure _

theorem located {p : Parser (Location → α)} (h : Orderly quiet seen p c) :
    Orderly quiet seen (located p) c :=
  .peek_bind (h.bind fun _ => .still rfl)

theorem complain : Orderly false seen (complain demand) c :=
  .peek_bind (.log (Diagnostic.anchored_unexpected demand _) (by simp))

/-! ## Loops -/

theorem iterate {step : σ → Parser (Option (β × σ))} {s : σ}
    (h : ∀ s c, Orderly quiet [] (step s) c) : Orderly quiet [] (iterate step s) c := by
  induction hn : c.rest.length using Nat.strongRecOn generalizing s c with
  | ind n ih =>
    obtain ⟨us, hreads, halong, hquiet⟩ := h s c
    rcases hstep : step s c with ⟨⟨d⟩ | ⟨_ | ⟨b, s'⟩⟩, reports, c₁⟩
    · rw [hstep] at hreads halong hquiet
      unfold Orderly
      rw [iterate_error hstep]
      exact ⟨us, hreads, halong, hquiet⟩
    · rw [hstep] at hreads halong hquiet
      unfold Orderly
      rw [iterate_stop hstep]
      exact ⟨us, hreads, halong, hquiet⟩
    · rw [hstep] at hreads halong hquiet
      -- a loop goes on only if its step has read something
      by_cases hlt : c₁.rest.length < c.rest.length
      · exact after hreads halong hquiet (ih _ (hn ▸ hlt) rfl) (iterate_next hstep hlt)
      · unfold Orderly
        rw [iterate_stuck hstep hlt]
        exact ⟨us, hreads, halong, hquiet⟩

theorem many {step : Parser (Option α)} (h : ∀ c, Orderly quiet [] step c) :
    Orderly quiet [] (many step) c :=
  .map (.iterate fun _ c => (h c).map_bind)

/-- An item behind a token of its own. -/
theorem behind {p : Parser α} (h : ∀ c, Orderly quiet [] p c) : Orderly quiet []
    (do if ← Parser.accept kind then return some (← p) else return none) c := by
  refine accept.bind fun _ => ?_
  split
  · exact (h _).map_bind
  · exact .pure _

theorem separated {p : Parser α} (h : ∀ c, Orderly quiet [] p c) :
    Orderly quiet [] (separated p) c := by
  refine (h c).bind fun _ => ?_
  exact (many fun _ => .behind h).map_bind

/-! ## Recovery -/

theorem recover {point : SyncPoint} (h : Orderly quiet seen p c) :
    Orderly false seen (recover point p) c := by
  obtain ⟨us, hreads, halong, -⟩ := h
  have hskip : ∃ vs, Reads (p c).cursor vs (Parser.recover point p c).cursor := by
    unfold Parser.recover
    rcases p c with ⟨⟨d⟩ | ⟨a⟩, reports, c₁⟩
    · dsimp only
      split
      · rw [Cursor.synchronize, ← skip_succ]
        exact exists_reads_skip _ _
      · exact exists_reads_skip _ _
    · exact ⟨[], .nil _⟩
  obtain ⟨vs, hvs⟩ := hskip
  -- recovery raises nothing more, so the way only gets longer
  refine ⟨us ++ vs, hreads.trans hvs, ?_, by simp⟩
  rw [raised_recover, ← List.append_nil (p c).raised, ← List.append_assoc]
  exact halong.reads hvs .nil

theorem bodyOf {point : SyncPoint} (h : ∀ c, Orderly quiet [] p c) :
    Orderly false [] (bodyOf point p) c := by
  refine (many fun c => .bind (.still rfl) fun _ => .sees_bind ?_).map_bind
  split
  · exact .pure _
  · exact (h _).recover.map_bind

end Orderly

/-! ## Expressions -/

section Expressions

variable {expr operand : Parser (Expr Location)} (hexpr : ∀ c, Orderly true [] expr c)

include hexpr

theorem arguments_orderly : Orderly true [] (arguments expr demand) c := by
  refine .bind .expect fun _ => .sees_bind ?_
  split
  · exact .bind (.pure _) fun _ => Orderly.expect.map_bind
  · exact .bind (.separated hexpr) fun _ => Orderly.expect.map_bind

theorem primary_orderly : Orderly true [] (primary expr) c := by
  refine .located (.peekKind_bind ?_)
  split
  · refine .bind .advance fun _ => .sees_bind ?_
    split
    · exact (arguments_orderly hexpr).map_bind
    · exact .pure _
  · exact Orderly.advance.map_bind
  · exact Orderly.advance.map_bind
  · exact Orderly.advance.map_bind
  · refine .bind .advance fun _ => .bind .expect fun _ => .bind .name fun _ => ?_
    exact (arguments_orderly hexpr).map_bind
  · exact .bind .advance fun _ => .bind .name fun _ => (arguments_orderly hexpr).map_bind
  · exact .bind .advance fun _ => (hexpr _).bind fun _ => Orderly.expect.map_bind
  · exact .fail

theorem selection_orderly : Orderly true [] (selection expr) c := by
  refine .peek_bind ((primary_orderly hexpr).bind fun _ => (Orderly.many fun c => ?_).map_bind)
  refine .bind .accept fun _ => ?_
  split
  · refine .bind .name fun _ => .sees_bind ?_
    split
    · exact (arguments_orderly hexpr).bind fun _ => .still rfl
    · exact .still rfl
  · exact .pure _

theorem unary_orderly : Orderly true [] (unary expr) c := by
  refine .peekKind_bind ?_
  split
  · exact selection_orderly hexpr
  · exact .located (.bind .advance fun _ => (selection_orderly hexpr).map_bind)

end Expressions

theorem chain_orderly {tier : Tier} {operand : Parser (Expr Location)}
    (h : ∀ c, Orderly true [] operand c) : Orderly true [] (chain tier operand) c := by
  refine (h c).bind fun _ => (Orderly.many fun c => .peekKind_bind ?_).map_bind
  split
  · exact .pure _
  · exact .bind .advance fun _ => (h _).map_bind

theorem expression_orderly (n : Nat) {c : Cursor} : Orderly true [] (expression n) c := by
  induction n generalizing c with
  | zero => exact .tooDeep
  | succ n ih =>
    have hunary : ∀ c, Orderly true [] (unary (expression n)) c :=
      fun _ => unary_orderly fun _ => ih
    have hmultiplicative : ∀ c, Orderly true [] (multiplicative (expression n)) c :=
      fun _ => chain_orderly hunary
    have hadditive : ∀ c, Orderly true [] (additive (expression n)) c :=
      fun _ => chain_orderly hmultiplicative
    have hrelational : ∀ c, Orderly true [] (relational (expression n)) c :=
      fun _ => chain_orderly hadditive
    exact chain_orderly hrelational

/-! ## Expression statements -/

section Effects

variable {expr : Parser (Expr Location)} {e : Expr Location} {t : Token}

theorem checkTarget_orderly (h : t ∈ seen) : Orderly false seen (checkTarget e t) c := by
  unfold checkTarget
  split
  · exact .pure _
  · exact .log (Diagnostic.anchored_unexpected _ t) (List.mem_append_left _ h)

theorem primitiveType_orderly : Orderly quiet seen (primitiveType demand) c := by
  refine .peekKind_bind ?_
  split
  · exact Orderly.advance.map_bind
  · exact .fail

variable (hexpr : ∀ c, Orderly true [] expr c)

include hexpr

theorem initializer_orderly : Orderly true [] (initializer expr) c := .behind hexpr

theorem declarator_orderly : Orderly true [] (declarator expr demand) c := by
  refine .bind .name fun _ => ?_
  exact (initializer_orderly hexpr).map_bind

theorem localVariables_orderly : Orderly true [] (localVariables expr) c := by
  refine .bind primitiveType_orderly fun _ => ?_
  refine .bind (.separated fun _ => declarator_orderly hexpr) fun _ => ?_
  exact Orderly.expect.map_bind

theorem assignment_orderly : Orderly false [] (assignment expr e) c := by
  refine .peekKind_bind ?_
  split
  · exact .pure _
  · next op hop =>
    have hkind := assignOp?_eq_some.mp hop
    refine .advance_bind (by simp [hkind]) ?_
    exact (checkTarget_orderly (by simp)).bind fun _ => (hexpr _).loud.map_bind

/-- The operator of a step in front stands before the operand, which is quiet. -/
theorem effect_orderly : Orderly false [] (effect expr) c := by
  refine .peek_bind ?_
  split
  · next step hstep =>
    have hkind := step?_eq_some.mp hstep
    refine .advance_bind (by simp [hkind]) ?_
    refine .hold (selection_orderly hexpr).weaken fun _ _ => ?_
    exact (checkTarget_orderly (by simp)).bind fun _ => .still rfl
  · refine (hexpr c).loud.bind fun _ => .peekKind_bind ?_
    split
    · next step hstep =>
      have hkind := step?_eq_some.mp hstep
      refine .advance_bind (by simp [hkind]) ?_
      exact (checkTarget_orderly (by simp)).bind fun _ => .still rfl
    · exact .map (.iterate fun _ _ => assignment_orderly hexpr)

theorem effectStatement_orderly : Orderly false [] (effectStatement expr) c :=
  (effect_orderly hexpr).bind fun _ => Orderly.expect.map_bind

end Effects

/-! ## Statements -/

section Statements

variable {expr : Parser (Expr Location)} {stmt : Parser (Stmt Location)} {word : ControlWord}

theorem jump_orderly : Orderly true [] (jump demand) c := by
  refine .bind .advance fun _ => .bind (.sees_bind ?_) fun _ => Orderly.expect.map_bind
  split
  · exact Orderly.advance.map_bind
  · exact .pure _

section Expression

variable (hexpr : ∀ c, Orderly true [] expr c)

include hexpr

theorem condition_orderly : Orderly true [] (condition expr word) c := by
  refine .bind .expect fun _ => (hexpr _).bind fun _ => ?_
  exact Orderly.expect.map_bind

theorem returnStatement_orderly : Orderly true [] (returnStatement expr) c := by
  refine .bind .advance fun _ => .sees_bind ?_
  split
  · exact .bind (.pure _) fun _ => Orderly.expect.map_bind
  · exact (hexpr _).map_bind.bind fun _ => Orderly.expect.map_bind

end Expression

section Nested

variable (hstmt : ∀ c, Orderly false [] stmt c)

include hstmt

theorem block_orderly : Orderly false [] (block stmt demand) c := by
  refine .bind .expect fun _ => .bind (.bodyOf hstmt) fun _ => ?_
  exact Orderly.expect.map_bind

theorem labeledStatement_orderly : Orderly false [] (labeledStatement stmt) c := by
  refine .bind .advance fun _ => .bind .advance fun _ => ?_
  exact (hstmt _).map_bind

theorem catchClause_orderly : Orderly false [] (catchClause stmt) c := by
  refine .bind .expect fun _ => .bind .name fun _ => ?_
  refine .bind .name fun _ => .bind .expect fun _ => ?_
  exact (block_orderly hstmt).map_bind

theorem tryStatement_orderly : Orderly false [] (tryStatement stmt) c := by
  refine .bind .advance fun _ => (block_orderly hstmt).bind fun _ => ?_
  refine .bind (.many fun _ => .behind fun _ => catchClause_orderly hstmt) fun _ => ?_
  refine .bind .accept fun _ => ?_
  split
  · exact (block_orderly hstmt).map_bind
  · split
    · exact Orderly.complain.map_bind
    · exact .pure _

variable (hexpr : ∀ c, Orderly true [] expr c)

include hexpr

theorem ifStatement_orderly : Orderly false [] (ifStatement stmt expr) c := by
  refine .bind .advance fun _ => (condition_orderly hexpr).loud.bind fun _ => ?_
  refine (hstmt _).bind fun _ => .bind .accept fun _ => ?_
  split
  · exact (hstmt _).map_bind
  · exact .pure _

theorem whileStatement_orderly : Orderly false [] (whileStatement stmt expr) c := by
  refine .bind .advance fun _ => (condition_orderly hexpr).loud.bind fun _ => ?_
  exact (hstmt _).map_bind

theorem doStatement_orderly : Orderly false [] (doStatement stmt expr) c := by
  refine .bind .advance fun _ => (hstmt _).bind fun _ => ?_
  refine .bind .expect fun _ => (condition_orderly hexpr).loud.bind fun _ => ?_
  exact Orderly.expect.map_bind

theorem statementOf_orderly (kind : Token.Kind) :
    Orderly false [] (statementOf stmt expr kind) c := by
  unfold statementOf
  split
  · exact (block_orderly hstmt).map_bind
  · exact Orderly.advance.map_bind
  · exact (localVariables_orderly hexpr).loud
  · exact ifStatement_orderly hstmt hexpr
  · exact whileStatement_orderly hstmt hexpr
  · exact doStatement_orderly hstmt hexpr
  · exact jump_orderly.loud.map_bind
  · exact jump_orderly.loud.map_bind
  · exact (returnStatement_orderly hexpr).loud
  · exact tryStatement_orderly hstmt
  · exact effectStatement_orderly hexpr
  · exact effectStatement_orderly hexpr
  · exact effectStatement_orderly hexpr
  · exact .fail
  · refine .bind (.still rfl) fun _ => ?_
    split
    · exact labeledStatement_orderly hstmt
    · exact effectStatement_orderly hexpr
  · exact effectStatement_orderly hexpr

end Nested

theorem statement_orderly (n : Nat) {c : Cursor} : Orderly false [] (statement n) c := by
  induction n generalizing c with
  | zero => exact .tooDeep
  | succ n ih =>
    refine .located (.peekKind_bind ?_)
    exact statementOf_orderly (fun _ => ih) (fun _ => expression_orderly n) _

end Statements

/-! ## Members -/

section Members

variable {limit : Nat} {set : ModifierSet} {type : PrimitiveType} {word : String}
  {ms : List Modifier}

theorem addModifier_orderly {m : Modifier} (hkind : c.peek.kind = .keyword (.modifier m)) :
    Orderly false [] (addModifier ms m) c := by
  have hrepeated : (Diagnostic.repeatedModifier m c.peek).Anchored c.peek := ⟨rfl, hkind⟩
  refine .advance_bind (by simp [hkind]) ?_
  split
  · exact (Orderly.log hrepeated (by simp)).map_bind
  · exact .pure _

theorem memberModifier_orderly : Orderly false [] (memberModifier ms) c := by
  refine .peekKind_bind ?_
  split
  · exact .pure _
  · next m hm =>
    split
    · exact (addModifier_orderly (modifier?_eq_some.mp hm)).map_bind
    · exact .pure _

theorem classModifier_orderly : Orderly false [] (classModifier ms) c := by
  refine .peekKind_bind ?_
  split
  · exact .pure _
  · next m hm =>
    split
    · exact (addModifier_orderly (modifier?_eq_some.mp hm)).map_bind
    · exact .bind .complain fun _ => Orderly.advance.map_bind

theorem methodRest_orderly : Orderly false [] (methodRest limit set type word) c := by
  have hend : ∀ (params : List Param) {c}, Orderly false [] (do
      let _ ← expect .parametersEnd
      let body ← block (statement limit) .methodBody
      return ((Member.method · set type word params body) : Location → Member Location)) c :=
    fun _ _ => .bind .expect fun _ => (block_orderly fun _ => statement_orderly limit).map_bind
  refine .bind .advance fun _ => .sees_bind ?_
  split
  · exact .bind (.pure _) fun _ => hend _
  · refine .bind (.separated fun _ => ?_) fun _ => hend _
    exact .bind primitiveType_orderly fun _ => Orderly.name.map_bind

theorem fieldRest_orderly : Orderly true [] (fieldRest limit set type word) c := by
  have hexpr : ∀ c, Orderly true [] (expression limit) c := fun _ => expression_orderly limit
  refine .bind (initializer_orderly hexpr) fun _ => ?_
  refine .bind (.many fun _ => .behind fun _ => declarator_orderly hexpr) fun _ => ?_
  exact Orderly.expect.map_bind

theorem member_orderly (limit : Nat) : Orderly false [] (member limit) c := by
  refine .located (.bind (.map (.iterate fun _ _ => memberModifier_orderly)) fun _ => ?_)
  refine .bind primitiveType_orderly fun _ => .bind .name fun _ => .sees_bind ?_
  split
  · exact methodRest_orderly
  · exact fieldRest_orderly.loud

theorem classBody_orderly : Orderly false [] (classBody limit) c := by
  refine .bind .expect fun _ => .bind (.bodyOf fun _ => member_orderly limit) fun _ => ?_
  refine .bind .accept fun _ => ?_
  split
  · exact .pure _
  · exact Orderly.complain.map_bind

theorem classDecl_orderly (limit : Nat) : Orderly false [] (classDecl limit) c := by
  refine .located (.bind (.map (.iterate fun _ _ => classModifier_orderly)) fun _ => ?_)
  exact .bind .expect fun _ => .bind .name fun _ => classBody_orderly.map_bind

end Members

/-! ## Programs -/

theorem qualifiedName_orderly : Orderly true [] (qualifiedName demand) c := by
  refine .bind .name fun _ => ?_
  exact (Orderly.many fun _ => .behind fun _ => .name).map_bind

theorem clause_orderly {ending : Demand} : Orderly true [] (clause demand ending) c := by
  refine .bind .advance fun _ => qualifiedName_orderly.bind fun _ => ?_
  exact Orderly.expect.map_bind

theorem package?_orderly : Orderly false [] package? c := by
  refine .sees_bind ?_
  split
  · exact clause_orderly.recover
  · exact .pure _

theorem imports_orderly : Orderly false [] imports c := by
  refine (Orderly.many fun _ => .sees_bind ?_).map_bind
  split
  · exact clause_orderly.recover.map_bind
  · exact .pure _

theorem locateClass_orderly {again : Bool} : Orderly false [] (locateClass again) c := by
  refine .bind (.still rfl) fun _ => ?_
  split
  · refine .bind (.still rfl) fun _ => ?_
    split
    · exact .pure _
    · refine .bind .complain fun _ => ?_
      exact (Orderly.skipped _ rfl).map_bind
  · split
    · exact (Orderly.skipped _ rfl).map_bind
    · refine .peek_bind (.bind (.log ⟨rfl, rfl, rfl⟩ (by simp)) fun _ => ?_)
      exact (Orderly.skipped _ rfl).map_bind

theorem attempt_orderly {limit : Nat} {search : ClassSearch} :
    Orderly false [] (attempt limit search) c := by
  have hfrom : ∀ again, Orderly false [] (attemptFrom limit again) c := by
    intro again
    refine .bind locateClass_orderly fun _ => ?_
    split
    · refine .bind (classDecl_orderly limit).recover fun _ => ?_
      split <;> exact .pure _
    · exact .pure _
  cases search with
  | first => exact hfrom _
  | again => exact hfrom _
  | found => exact .pure _

theorem program_orderly (limit : Nat) : Orderly false [] (program limit) c := by
  refine .bind package?_orderly fun _ => .bind imports_orderly fun _ => ?_
  refine .bind (.map (.iterate fun _ _ => attempt_orderly)) fun _ => .bind (.still rfl) fun _ => ?_
  split
  · exact .pure _
  · refine .bind .complain fun _ => ?_
    exact (Orderly.skipped _ rfl).map_bind

end Parser

end JavaSubset
