import JavaSubset.Proofs.Layout
import JavaSubset.Proofs.Nesting
import JavaSubset.Proofs.Timely

/-!
# The first diagnostic comes as early as it can

Every production is timely for the beginnings of its phrases. Wherever it gives up, what it has read
is completed to a phrase, with `sample` tokens. That what is raised is settled by the token it
points at comes with the combinators.

What raises something is not grammatical, or nests too deep (`program_not_balks`). So a list of
tokens that dooms the parser is not the beginning of a compilation unit (`Doomed.not_viable`).

* `expression_timely`, `statement_timely`, `member_timely`, `program_timely` : phrases;
* `parse_earliest` : whole sources.

Two productions look further than the next token. A statement that starts with a name depends on the
token behind it, but reads the name in any case (`statementOf_timely`). The search for a class looks
for the word anywhere ahead (`attempt_timely`).
-/

namespace JavaSubset

open Cursor Grammar

namespace Parser

variable {α β : Type} {p : Parser α} {f : α → β} {L : Phrase β} {c c' : Cursor} {a : α}
  {B : List Token → Prop} {demand : Demand} {kind : Token.Kind}

/-! ## Lists -/

theorem Sound.mono {L' : Phrase β} (h : Sound p f L) (hL : ∀ {us b}, L us b → L' us b) :
    Sound p f L' := by
  intro c a c' haccepts
  obtain ⟨us, hread, hus⟩ := h haccepts
  exact ⟨us, hread, hL hus⟩

theorem behind_timely (hkept : kind.isKept = true)
    (h : c.peek.kind = kind → Timely (fun us => B (c.peek :: us)) p c.advance) :
    Timely B (behind kind p) c :=
  .accept_bind hkept (fun hkind => (h hkind).bind fun _ _ => .pure _) fun _ => .pure _

/-- More items, each behind a mark. -/
theorem manyAfter_timely {mark : Punctuation} (sound : Sound p f L)
    (item : ∀ {ls as t c}, Repeated (After mark L) ls as → Mark mark t →
      Timely (fun us => B (ls ++ t :: us)) p c) :
    Timely B (many (behind (.punctuation mark) p)) c := by
  refine .many_phrase (g := f) (L := After mark L) (fun hstep => ?_) fun hls => ?_
  · obtain ⟨_, ⟨⟩, hmark, haccepts⟩ | ⟨⟨⟩, -⟩ := accepts_behind.mp hstep
    obtain ⟨us, hread, hus⟩ := sound haccepts
    exact ⟨_, (reads_kind hmark rfl).trans hread, .mk hmark hus⟩
  · exact behind_timely rfl fun hmark => item hls hmark

theorem separated_timely (sound : Sound p f L) (item : ∀ {c}, Timely (Begins L) p c) :
    Timely (Begins (Separated L)) (separated p) c := by
  refine item.part sound (·.imp fun h => ⟨_, by simpa using Separated.mk h .nil⟩) ?_
  intro a c₁ ls hls _
  refine (manyAfter_timely sound fun {rs as t c} hrs hmark => ?_).bind fun _ _ => .pure _
  refine item.imp fun hus => ?_
  exact hus.inside [] fun h => ⟨_, by simpa using Separated.mk hls (hrs.snoc (.mk hmark h))⟩

/-! ## Expressions -/

section Expressions

variable {expr : Parser (Expr Location)} {E : Phrase (Expr Unit)}
  (hexpr : ∀ {c}, Timely (Begins E) expr c) (sound : Sound expr Expr.erase E)

include hexpr sound

theorem arguments_timely (hd : demand.expected = .token (.punctuation .lparen)) :
    Timely (Begins (Enclosed E)) (arguments expr demand) c := by
  refine .expect_bind hd rfl (begins_nil (.empty (sample_kind _) (sample_kind _))) fun hopen => ?_
  refine .sees_bind ?_
  split
  · refine .pure_bind (.expect_bind rfl rfl ?_ fun _ => .pure _)
    exact ⟨_, _, .empty hopen (sample_kind _)⟩
  · refine (separated_timely sound hexpr).part (separated_sound sound) (fun hus => ?_)
      fun _ hls => .expect_bind rfl rfl (by simpa using hls) fun _ => .pure _
    exact hus.inside [sample _] fun h => ⟨_, by simpa using Enclosed.list hopen h (sample_kind _)⟩

theorem primary_timely : Timely (Begins (Primary E)) (primary expr) c := by
  refine .located (.peekKind_bind ?_)
  split
  · next hkind =>
    refine .advance_bind hkind rfl (.sees_bind ?_)
    split
    · refine (arguments_timely hexpr sound rfl).last_part fun hus => ?_
      exact hus.inside [] fun h => ⟨_, by simpa using Primary.call hkind h⟩
    · exact .pure _
  · next hkind => exact .advance_bind hkind rfl (.pure _)
  · next hkind => exact .advance_bind hkind rfl (.pure _)
  · next hkind => exact .advance_bind hkind rfl (.pure _)
  · next hkind =>
    refine .advance_bind hkind rfl (.expect_bind rfl rfl ?_ fun hdot => ?_)
    · exact ⟨_, _, .superCall hkind (sample_kind _) (sample_kind _)
        (.empty (sample_kind _) (sample_kind _))⟩
    · refine .name_bind rfl ?_ fun hname => ?_
      · exact ⟨_, _, .superCall hkind hdot (sample_kind _)
          (.empty (sample_kind _) (sample_kind _))⟩
      · refine (arguments_timely hexpr sound rfl).last_part fun hus => ?_
        exact hus.inside [] fun h => ⟨_, by simpa using Primary.superCall hkind hdot hname h⟩
  · next hkind =>
    refine .advance_bind hkind rfl (.name_bind rfl ?_ fun hname => ?_)
    · exact ⟨_, _, .new hkind (sample_kind _) (.empty (sample_kind _) (sample_kind _))⟩
    · refine (arguments_timely hexpr sound rfl).last_part fun hus => ?_
      exact hus.inside [] fun h => ⟨_, by simpa using Primary.new hkind hname h⟩
  · next hkind =>
    refine .advance_bind hkind rfl (hexpr.part sound (fun hus => ?_) fun _ hls => ?_)
    · exact hus.inside [sample _] fun h => ⟨_, by simpa using Primary.group hkind h (sample_kind _)⟩
    · exact .expect_bind rfl rfl (by simpa using hls) fun _ => .pure _
  · exact .fail (begins_nil (.ident (sample_kind _)))

theorem selector_timely {start : Token}
    (grow : ∀ {us}, Begins (Selection E) us → B us) : Timely B (selector expr start) c := by
  refine .accept_bind rfl (fun hdot => ?_) fun _ => .pure _
  refine .name_bind rfl (grow ⟨_, _, .field hdot (sample_kind _)⟩) fun hname => .sees_bind ?_
  split
  · refine ((arguments_timely hexpr sound rfl).imp fun hus => grow ?_).bind fun _ _ =>
      .locationFrom_bind (.pure _)
    exact hus.inside [] fun h => ⟨_, by simpa using Selection.invoke hdot hname h⟩
  · exact .locationFrom_bind (.pure _)

theorem selection_timely : Timely (Begins (Postfix E)) (selection expr) c := by
  refine .peek_bind ((primary_timely hexpr sound).part (primary_sound sound) ?_ ?_)
  · exact (·.imp fun h => ⟨_, .of_primary h⟩)
  · intro target c₁ ls hls _
    refine (Timely.many_phrase (selector_sound sound) fun {rs fs c} hrs => ?_).bind fun _ _ =>
      .pure _
    refine selector_timely hexpr sound fun hus => ?_
    exact hus.inside [] fun h => ⟨_, by simpa using Postfix.mk hls (hrs.snoc h)⟩

theorem unary_timely : Timely (Begins (Unary E)) (unary expr) c := by
  refine .peekKind_bind ?_
  split
  · exact (selection_timely hexpr sound).imp (·.imp fun h => ⟨_, .plain h⟩)
  · next op hsign =>
    unfold sign? at hsign
    split at hsign
    · next hkind =>
      refine .located (.advance_bind hkind rfl ((selection_timely hexpr sound).last_part ?_))
      exact (·.inside [] fun h => ⟨_, by simpa using Unary.plus hkind h⟩)
    · next hkind =>
      refine .located (.advance_bind hkind rfl ((selection_timely hexpr sound).last_part ?_))
      exact (·.inside [] fun h => ⟨_, by simpa using Unary.minus hkind h⟩)
    · cases hsign

theorem chain_timely {tier : Tier} : Timely (Begins (Chain tier E)) (chain tier expr) c := by
  refine hexpr.part sound (·.imp fun h => ⟨_, .single h⟩) fun {first c₁ ls} hls _ => ?_
  refine (Timely.many_phrase (link_sound sound) fun {rs fs c} hrs => ?_).bind fun _ _ => .pure _
  refine .peekKind_bind ?_
  split
  · exact .pure _
  · next op hop =>
    obtain ⟨hkind, htier⟩ := tierOp?_eq_some.mp hop
    refine .advance_bind hkind rfl (hexpr.last_part fun hus => ?_)
    exact hus.inside [] fun h => ⟨_, by simpa using Chain.mk hls (hrs.snoc (.mk hkind htier h))⟩

end Expressions

theorem expression_sound_succ (n : Nat) :
    Sound (expression n) Expr.erase (Expression (n + 1)) :=
  Sound.mono (expression_sound n) Expression.succ

theorem expression_timely (n : Nat) : Timely (Begins (Expression (n + 1))) (expression n) c := by
  induction n generalizing c with
  | zero => exact .tooDeep (begins_nil (.name (sample_kind _) 0))
  | succ n ih =>
    have sound : Sound (expression n) Expr.erase (Expression (n + 1)) := expression_sound_succ n
    refine chain_timely (chain_timely (chain_timely (chain_timely ?_ ?_) ?_) ?_) ?_
    · exact unary_timely ih sound
    · exact unary_sound sound
    · exact chain_sound (unary_sound sound)
    · exact chain_sound (chain_sound (unary_sound sound))
    · exact chain_sound (chain_sound (chain_sound (unary_sound sound)))

/-! ## Expression statements -/

section Effects

variable {n : Nat}

theorem checkTarget_timely {e : Expr Location} {f : Token → Parser β} (hkind : c.peek.kind = kind)
    (hkept : kind.isKept = true) (hB : B [])
    (rest : e.isAssignable = true → Timely (fun us => B (c.peek :: us)) (f c.peek) c.advance) :
    Timely B (do let t ← advance; checkTarget e t; f t) c := by
  cases he : e.isAssignable with
  | true =>
    have hcheck : ∀ t, checkTarget e t = pure () := by simp [checkTarget, he]
    simp only [hcheck]
    exact .advance_bind hkind hkept (.pure_bind (rest he))
  | false =>
    have hcheck : ∀ t, checkTarget e t = log (.unexpected .assignmentTarget t) := by
      simp [checkTarget, he]
    simp only [hcheck]
    exact .advance_log_bind hB (fun _ => rfl) (unexpected_ne_nestingTooDeep _)

theorem assignments_timely {e : Expr Location} {vs : List Token}
    (hvs : Expression (n + 1) vs e.erase) :
    Timely (fun us => Begins (ExprStatement (n + 1)) (vs ++ us))
      (assignments (expression n) e) c := by
  refine .map (.iterate (fun e ls => ∃ ts ws, vs ++ ls = ts ++ ws ∧ Targets (n + 1) ts ∧
    Expression (n + 1) ws e.erase) ?_ ?_ ?_)
  · exact ⟨[], vs, by simp, .none, hvs⟩
  · rintro e ls c ⟨ts, ws, hsplit, hts, hws⟩
    refine .peekKind_bind ?_
    split
    · exact .pure _
    · next op hop =>
      have hkind := assignOp?_eq_some.mp hop
      refine checkTarget_timely hkind rfl ?_ fun he => ?_
      · obtain ⟨e, he⟩ := hts.exprStatement hws
        rw [List.append_nil, hsplit]
        exact .of he
      · have htarget := target_of_expression hws (by simpa using he)
        refine (expression_timely n).last_part fun hus => ?_
        rw [← List.append_assoc, hsplit]
        exact hus.inside [] fun h => by simpa using (hts.more htarget hkind).exprStatement h
  · rintro e ls us target e₁ c c₁ ⟨ts, ws, hsplit, hts, hws⟩ hstep hread
    obtain ⟨op, value, ⟨⟩, hkind, he, hvalue⟩ := assignment_accepts hstep
    obtain ⟨ws', hread', hws'⟩ := expression_sound_succ n hvalue
    obtain rfl := hread.unique ((reads_kind hkind rfl).trans hread')
    have htarget := target_of_expression hws (by simpa using he)
    refine ⟨_, ws', ?_, hts.more htarget hkind, hws'⟩
    rw [← List.append_assoc, hsplit]
    simp

/-- A step in front of an operand: that the operand can not be stepped is reported at the step. -/
theorem preStep_timely {operand : Parser (Expr Location)} {start : Token} {step : Step}
    {node : Expr Location → Location → Expr Location}
    (hkind : c.peek.kind = .operator (.step step)) (hB : B [])
    (hstart : ∀ {w}, Word (.control .returnKw) w → B [w])
    (h : Timely (fun us => B (c.peek :: us)) operand c.advance) :
    Timely B (do
      let op ← advance
      let target ← operand
      checkTarget target op
      return node target (← locationFrom start)) c where
  accepts haccepts := by
    rw [accepts_advance_bind, accepts_bind] at haccepts
    obtain ⟨target, c₁, htarget, hrest⟩ := haccepts
    simp only [accepts_checkTarget_bind, accepts_locationFrom_bind, accepts_pure] at hrest
    obtain ⟨hassignable, rfl, rfl⟩ := hrest
    obtain ⟨us, hread, hconfirmed⟩ := h.accepts htarget
    refine ⟨c.peek :: us, (reads_kind hkind rfl).trans hread, fun v d hv hshares => ?_⟩
    obtain ⟨d', htarget', hread'⟩ := hconfirmed hv hshares.advance
    have hlast := (hshares.advance.after hread hread').last
    refine ⟨d', htarget'.bind ?_, hshares.toAhead.reads.2.trans hread'⟩
    simp [hassignable, Cursor.locationFrom, hlast]
  first hraised := by
    rcases first_bind.mp (first_advance_bind.mp hraised) with hraised | ⟨target, c₁, -, hraised⟩
    · obtain ⟨us, c₁, hread, hloc, hus, hlate⟩ := h.first hraised
      refine ⟨c.peek :: us, c₁, (reads_kind hkind rfl).trans hread, hloc, hus, ?_⟩
      refine hlate.imp (·.imp fun hw => hw) fun hdoomed v d hv hshares => ?_
      exact (hdoomed hv hshares.advance).imp fun hraised => first_advance_bind.mpr hraised.bind
    · cases hassignable : target.isAssignable with
      | true =>
        simp only [checkTarget, hassignable] at hraised
        exact absurd hraised not_first_pure
      | false =>
        simp only [checkTarget, hassignable] at hraised
        obtain rfl := first_log_bind.mp hraised
        exact ⟨[], c, .nil c, rfl, hB, .inl (.preStep hkind hstart)⟩

theorem effect_timely (grow : ∀ {us}, Begins (ExprStatement (n + 1)) us → B us)
    (hstart : ∀ {w}, Word (.control .returnKw) w → B [w]) :
    Timely B (effect (expression n)) c := by
  have sound : Sound (expression n) Expr.erase (Expression (n + 1)) := expression_sound_succ n
  refine .peek_bind ?_
  split
  · next step hstep =>
    have hkind := step?_eq_some.mp hstep
    have hname : Begins (ExprStatement (n + 1)) [] :=
      begins_nil (.plain (.name (sample_kind .identifier) n))
    refine preStep_timely hkind (grow hname) hstart ?_
    refine (selection_timely (expression_timely n) sound).imp fun hus => grow ?_
    -- whatever stands behind the step, a field of it can be stepped
    exact hus.inside [sample (.punctuation .dot), sample .identifier] fun h =>
      ⟨_, by simpa using ExprStatement.preStep hkind (h.field rfl rfl) rfl⟩
  · refine (expression_timely n).part sound (grow <| ·.imp fun h => ⟨_, .plain h⟩)
      fun {value c₁ ls} hls hBls => .peekKind_bind ?_
    split
    · next step hstep =>
      have hkind := step?_eq_some.mp hstep
      refine checkTarget_timely hkind rfl (by simpa using hBls) fun _ => ?_
      exact .locationFrom_bind (.pure _)
    · exact (assignments_timely hls).imp grow

end Effects

/-! ## Statements -/

section Statements

variable {n : Nat} {S : Phrase (Stmt Unit)} {stmt : Parser (Stmt Location)}

theorem primitiveType_bind {f : PrimitiveType → Parser β} (hB : B [])
    (rest : ∀ {type}, Word (.primitive type) c.peek →
      Timely (fun us => B (c.peek :: us)) (f type) c.advance) :
    Timely B (primitiveType demand >>= f) c := by
  have htype : Timely B (primitiveType demand) c := by
    refine .peekKind_bind ?_
    split
    · next type htype =>
      exact .advance_bind (primitiveType?_eq_some.mp htype) rfl (.pure _)
    · exact .fail hB
  refine htype.bind fun haccepts hread => ?_
  obtain ⟨hkind, rfl⟩ := primitiveType_accepts haccepts
  obtain rfl := hread.unique (reads_kind hkind rfl)
  exact rest hkind

theorem initializer_timely (grow : ∀ {us}, Begins (Expression (n + 1)) us →
      c.peek.kind = .operator (.assign .assign) → B (c.peek :: us)) :
    Timely B (initializer (expression n)) c :=
  behind_timely rfl fun hkind => (expression_timely n).imp fun hus => grow hus hkind

theorem declarator_timely (hd : demand.expected = .identifier) :
    Timely (Begins (Declaration (Expression (n + 1)))) (declarator (expression n) demand) c := by
  refine .name_bind hd (begins_nil (.plain (sample_kind _))) fun hname => ?_
  refine .bind (initializer_timely fun hus hequals => ?_) fun _ _ => .pure _
  exact hus.inside [] fun h => ⟨_, by simpa using Declaration.initialized hname hequals h⟩

theorem declarators_timely (hd : demand.expected = .identifier) :
    Timely (Begins (Separated (Declaration (Expression (n + 1)))))
      (separated (declarator (expression n) demand)) c :=
  separated_timely (declarator_sound (expression_sound_succ n) hd) (declarator_timely hd)

theorem localVariables_timely :
    Timely (Begins (StatementForm (n + 1) S)) (localVariables (expression n)) c := by
  have hname {type : PrimitiveType} {t : Token} (hword : Word (.primitive type) t) :
      Begins (StatementForm (n + 1) S) [t] :=
    begins_of_start (.locals hword (.mk (Declaration.plain (sample_kind _)) .nil) (sample_kind _))
      (by simp)
  refine primitiveType_bind (Begins.shorter (hname (sample_kind (.keyword (.primitive .int))))) ?_
  intro type hword
  refine (declarators_timely rfl).part
    (separated_sound (declarator_sound (expression_sound_succ n) rfl)) (fun hus => ?_)
    fun _ hls => .expect_bind rfl rfl (by simpa using hls) fun _ => .pure _
  exact hus.inside [sample _] fun h =>
    ⟨_, by simpa using StatementForm.locals hword h (sample_kind _)⟩

theorem effectStatement_timely :
    Timely (Begins (StatementForm (n + 1) S)) (effectStatement (expression n)) c := by
  have heffect : Timely (Begins (StatementForm (n + 1) S)) (effect (expression n)) c := by
    refine effect_timely (fun hus => ?_) fun hword => ?_
    · exact hus.inside [sample _] fun h => ⟨_, by simpa using StatementForm.expr h (sample_kind _)⟩
    · exact ⟨[sample _], _, .returnWith hword .none (sample_kind _)⟩
  refine heffect.bind_phrase (effect_sound (expression_sound_succ n)) fun hls => ?_
  refine .expect_bind rfl rfl ?_ fun _ => .pure _
  exact begins_of_start (.expr hls (sample_kind _)) (by simp)

theorem condition_timely {word : ControlWord} :
    Timely (Begins (Condition (Expression (n + 1)))) (condition (expression n) word) c := by
  have hopen {l : Token} (opening : Mark .lparen l) {us : List Token}
      (hus : Begins (Expression (n + 1)) us) : Begins (Condition (Expression (n + 1))) (l :: us) :=
    hus.inside [sample _] fun h => ⟨_, by simpa using Condition.mk opening h (sample_kind _)⟩
  have hname : Begins (Expression (n + 1)) [] := begins_nil (.name (sample_kind _) n)
  refine .expect_bind rfl rfl (Begins.shorter (hopen (sample_kind _) hname)) fun opening => ?_
  refine (expression_timely n).part (expression_sound_succ n) (hopen opening) fun _ hls => ?_
  exact .expect_bind rfl rfl (by simpa using hls) fun _ => .pure _

theorem jump_timely (hd : demand.expected = .token (.punctuation .semicolon))
    (hkind : c.peek.kind = kind) (hkept : kind.isKept = true)
    (grow : ∀ {us label}, Optional Identifier us label → B (c.peek :: us)) :
    Timely B (jump demand) c := by
  have hlabel : Timely (fun us => B (c.peek :: us)) label? c.advance := by
    refine .sees_bind ?_
    split
    · next hname => exact .advance_bind (of_decide_eq_true hname) rfl (.pure _)
    · exact .pure _
  refine .advance_bind hkind hkept (hlabel.bind_phrase label?_sound fun hls => ?_)
  exact .expect_bind hd rfl (by simpa using grow hls) fun _ => .pure _

theorem returnStatement_timely (hkind : c.peek.kind = .keyword (.control .returnKw)) :
    Timely (Begins (StatementForm (n + 1) S)) (returnStatement (expression n)) c := by
  refine .advance_bind hkind rfl (.sees_bind ?_)
  split
  · refine .pure_bind (.expect_bind rfl rfl ?_ fun _ => .pure _)
    exact ⟨[sample _], _, .returnWith hkind .none (sample_kind _)⟩
  · have hvalue : Timely (fun us => Begins (StatementForm (n + 1) S) (c.peek :: us))
        (expression n) c.advance :=
      (expression_timely n).imp fun hus => hus.inside [sample _] fun h =>
        ⟨_, by simpa using StatementForm.returnWith hkind (.some h) (sample_kind _)⟩
    refine hvalue.mapped.bind fun haccepts hread => ?_
    obtain ⟨value, hvalue, rfl⟩ := accepts_map.mp haccepts
    obtain ⟨us, hread', hus⟩ := expression_sound_succ n hvalue
    obtain rfl := hread.unique hread'
    refine .expect_bind rfl rfl ?_ fun _ => .pure _
    exact begins_of_start (.returnWith hkind (.some hus) (sample_kind _)) (by simp)

variable (hstmt : ∀ {c}, Timely (Begins S) stmt c)

include hstmt

theorem block_timely (sound : Sound stmt Stmt.erase S)
    (hd : demand.expected = .token (.punctuation .lbrace)) :
    Timely (Begins (Block S)) (block stmt demand) c := by
  refine .expect_bind hd rfl ?_ fun hopen => ?_
  · exact begins_nil (.mk (sample_kind _) .nil (sample_kind _))
  have hbody : Timely (fun us => Begins (Block S) (c.peek :: us)) (bodyOf .statement stmt)
      c.advance := by
    refine .bodyOf sound fun {ls as c₁} hls => hstmt.imp fun hus => ?_
    exact hus.inside [sample _] fun h =>
      ⟨_, by simpa using Block.mk hopen (hls.snoc h) (sample_kind _)⟩
  refine hbody.bind_phrase (bodyOf_sound sound) fun hls => ?_
  refine .expect_bind rfl rfl ?_ fun _ => .pure _
  exact begins_of_start (.mk hopen hls (sample_kind _)) (by simp)

theorem labeledStatement_timely (hkind : c.peek.kind = .identifier)
    (hcolon : c.peekNext.kind = .punctuation .colon) :
    Timely (Begins (StatementForm n S)) (labeledStatement stmt) c := by
  rw [peekNext_eq] at hcolon
  refine .advance_bind hkind rfl (.advance_bind hcolon rfl (hstmt.last_part fun hus => ?_))
  exact hus.inside [] fun h => ⟨_, by simpa using StatementForm.labeled hkind hcolon h⟩

/-- An `else` belongs to the nearest `if`, so none is left for the statement in front of it. -/
theorem ifStatement_timely (sound : ∀ {c s c'}, Accepts stmt c s c' → StatementAt S c s c')
    (hS : Begins S []) (hkind : c.peek.kind = .keyword (.control .ifKw)) :
    Timely (Begins (StatementForm (n + 1) S)) (ifStatement stmt (expression n)) c := by
  obtain ⟨rs, b, hb⟩ := hS
  refine .advance_bind hkind rfl (condition_timely.part (condition_sound (expression_sound_succ n))
    (fun hus => ?_) fun {test c₁ ls} htest _ => ?_)
  · exact hus.inside rs fun h => ⟨_, by simpa using StatementForm.ifThen hkind h hb⟩
  have hbody : Timely (fun us => Begins (StatementForm (n + 1) S) (c.peek :: (ls ++ us))) stmt c₁ :=
    hstmt.imp fun hus => hus.inside [] fun h =>
      ⟨_, by simpa using StatementForm.ifThen hkind htest h⟩
  refine hbody.bind fun {s c₂ vs} hs hread => ?_
  obtain ⟨vs', hread', hvs, hopen⟩ := sound hs
  obtain rfl := hread.unique hread'
  refine .accept_bind rfl (fun hword => hstmt.last_part fun hus => ?_) fun _ => .pure _
  have hclosed : s.erase.endsOpen = false := by
    rw [Stmt.endsOpen_erase]
    exact Bool.eq_false_iff.mpr fun h => hopen h hword
  exact hus.inside [] fun h =>
    ⟨_, by simpa using StatementForm.ifElse hkind htest hvs hclosed hword h⟩

theorem whileStatement_timely (hS : Begins S [])
    (hkind : c.peek.kind = .keyword (.control .whileKw)) :
    Timely (Begins (StatementForm (n + 1) S)) (whileStatement stmt (expression n)) c := by
  obtain ⟨rs, b, hb⟩ := hS
  refine .advance_bind hkind rfl (condition_timely.part (condition_sound (expression_sound_succ n))
    (fun hus => ?_) fun {test c₁ ls} htest _ => hstmt.last_part fun hus => ?_)
  · exact hus.inside rs fun h => ⟨_, by simpa using StatementForm.whileLoop hkind h hb⟩
  · exact hus.inside [] fun h => ⟨_, by simpa using StatementForm.whileLoop hkind htest h⟩

theorem doStatement_timely (sound : Sound stmt Stmt.erase S)
    (hkind : c.peek.kind = .keyword (.control .doKw)) :
    Timely (Begins (StatementForm (n + 1) S)) (doStatement stmt (expression n)) c := by
  obtain ⟨ts, e, htest⟩ : Begins (Condition (Expression (n + 1))) [] :=
    begins_nil (.mk (sample_kind _) (.name (sample_kind _) n) (sample_kind _))
  refine .advance_bind hkind rfl (hstmt.part sound (fun hus => ?_) fun {s c₁ ls} hls hbody => ?_)
  · exact hus.inside (sample _ :: ts ++ [sample _]) fun h =>
      ⟨_, by simpa using StatementForm.doLoop hkind h (sample_kind _) htest (sample_kind _)⟩
  refine .expect_bind rfl rfl (by simpa using hbody) fun hloop => ?_
  refine condition_timely.part (condition_sound (expression_sound_succ n)) (fun hus => ?_)
    fun _ htest => .expect_bind rfl rfl (by simpa using htest) fun _ => .pure _
  exact hus.inside [sample _] fun h =>
    ⟨_, by simpa using StatementForm.doLoop hkind hls hloop h (sample_kind _)⟩

theorem catchClause_timely (sound : Sound stmt Stmt.erase S) {t : Token}
    (hword : Word (.control .catchKw) t) :
    Timely (fun us => Begins (Handler S) (t :: us)) (catchClause stmt) c := by
  have hbody : Block S [sample _, sample _] [] := .mk (sample_kind _) .nil (sample_kind _)
  refine .expect_bind rfl rfl ?_ fun hopen => .name_bind rfl ?_ fun htype => .name_bind rfl ?_
    fun hname => .expect_bind rfl rfl ?_ fun hclose => ?_
  · exact ⟨_, _, .mk hword (sample_kind _) (sample_kind _) (sample_kind _) (sample_kind _) hbody⟩
  · exact ⟨_, _, .mk hword hopen (sample_kind _) (sample_kind _) (sample_kind _) hbody⟩
  · exact ⟨_, _, .mk hword hopen htype (sample_kind _) (sample_kind _) hbody⟩
  · exact ⟨_, _, .mk hword hopen htype hname (sample_kind _) hbody⟩
  refine (block_timely hstmt sound rfl).last_part fun hus => ?_
  exact hus.inside [] fun h => ⟨_, by simpa using Handler.mk hword hopen htype hname hclose h⟩

theorem tryStatement_timely (sound : Sound stmt Stmt.erase S)
    (hkind : c.peek.kind = .keyword (.control .tryKw)) :
    Timely (Begins (StatementForm n S)) (tryStatement stmt) c := by
  have hbody : Block S [sample _, sample _] [] := .mk (sample_kind _) .nil (sample_kind _)
  refine .advance_bind hkind rfl ((block_timely hstmt sound rfl).part (block_sound sound rfl)
    (fun hus => ?_) fun {body c₁ ls} hls _ => ?_)
  · exact hus.inside [sample _, sample _, sample _] fun h =>
      ⟨_, by simpa using StatementForm.tryFinally hkind h .nil (sample_kind _) hbody⟩
  have hcatches : Timely (fun us => Begins (StatementForm n S) (c.peek :: (ls ++ us)))
      (many (behind (.keyword (.control .catchKw)) (catchClause stmt))) c₁ := by
    refine .many_phrase (L := Handler S) (g := CatchClause.erase) (fun hstep => ?_)
      fun {rs cs c₂} hrs => behind_timely rfl fun hword => ?_
    · obtain ⟨_, ⟨⟩, hword, haccepts⟩ | ⟨⟨⟩, -⟩ := accepts_behind.mp hstep
      exact catchClause_sound sound hword haccepts
    · refine (catchClause_timely hstmt sound hword).imp fun hus => ?_
      exact hus.inside [sample _, sample _, sample _] fun h => ⟨_, by
          simpa using StatementForm.tryFinally hkind hls (hrs.snoc h) (sample_kind _) hbody⟩
  refine hcatches.bind_phrase (catches_sound sound) fun {catches c₂ rs} hrs => ?_
  refine .accept_bind rfl (fun hword => ?_) fun _ => ?_
  · refine (block_timely hstmt sound rfl).last_part fun hus => ?_
    exact hus.inside [] fun h => ⟨_, by simpa using StatementForm.tryFinally hkind hls hrs hword h⟩
  · simp only [Bool.false_eq_true, ↓reduceIte]
    split
    · refine .complain_bind ?_
      exact begins_of_start (.tryFinally hkind hls hrs (sample_kind _) hbody) (by simp)
    · exact .pure _

end Statements

/-! ## All statements -/

section AllStatements

variable {n : Nat}

theorem not_balks_of_accepts (h : Accepts p c a c') : ¬ Balks p c := by
  rintro ⟨e, hraised, -⟩
  exact hraised.not_accepts h

theorem not_balks_of_first {t : Token} (h : First p c (.nestingTooDeep t)) : ¬ Balks p c := by
  rintro ⟨e, hraised, hplain⟩
  exact hplain t (hraised.unique h)

/-- A name and what stands behind it at `c` decide nothing if `p` does not balk at a list that
starts with the name. -/
theorem not_doomed_of_name (ts : List Token) (hkind : c.peek.kind = .identifier)
    (h : ¬ Balks p { c with rest := c.peek :: ts }) : ¬ Doomed p c [] := by
  intro hdoomed
  have hread := reads_kind hkind rfl
  have hshares : Shares [c.peek] c { c with rest := c.peek :: ts } :=
    ⟨⟨⟨_, hread.rest_eq.symm⟩, ⟨ts, rfl⟩⟩, rfl⟩
  exact h (hdoomed (by simp) hshares)

theorem effectStatement_not_doomed (hkind : c.peek.kind = .identifier) :
    ¬ Doomed (effectStatement (expression n)) c [] := by
  refine not_doomed_of_name [sample (.punctuation .semicolon)] hkind ?_
  cases n with
  | zero =>
    have hdeep {d : Cursor} (hkind : d.peek.kind = .identifier) :
        First (effectStatement (expression 0)) d (.nestingTooDeep d.peek) := by
      have hstep : step? d.peek.kind = none := by
        rw [hkind]
        rfl
      refine First.bind ?_
      rw [effect, first_peek_bind, hstep]
      exact First.bind (first_tooDeep.mpr rfl)
    exact not_balks_of_first (hdeep hkind)
  | succ n =>
    have hread : Reads { c with rest := [c.peek, sample (.punctuation .semicolon)] }
        ([c.peek] ++ [sample (.punctuation .semicolon)]) _ := .cons rfl (.cons rfl (.nil _))
    obtain ⟨node, haccepts, -⟩ := effectStatement_complete (expression_complete (n + 1))
      (.plain (.name hkind n)) (sample_kind _) hread
    exact not_balks_of_accepts haccepts

theorem labeledStatement_not_doomed (hkind : c.peek.kind = .identifier) :
    ¬ Doomed (labeledStatement (statement n)) c [] := by
  refine not_doomed_of_name [sample (.punctuation .colon), sample (.punctuation .semicolon)] hkind
    ?_
  cases n with
  | zero =>
    refine not_balks_of_first (t := sample (.punctuation .semicolon)) ?_
    exact first_advance_bind.mpr (first_advance_bind.mpr (First.bind (first_tooDeep.mpr rfl)))
  | succ n =>
    have hread : Reads { c with rest := [c.peek, sample (.punctuation .colon),
        sample (.punctuation .semicolon)] } (c.peek :: sample (.punctuation .colon) ::
        [sample (.punctuation .semicolon)]) _ := .cons rfl (.cons rfl (.cons rfl (.nil _)))
    have hnext : EndsStatement (.empty ()) c.eof.kind := by
      rw [c.eof_kind]
      exact ⟨by simp, by simp, by simp⟩
    obtain ⟨node, haccepts, -⟩ := labeledStatement_complete (statement_complete (n + 1))
      (.semicolon (sample_kind _) n) hread hnext
    exact not_balks_of_accepts haccepts

theorem statementOf_moves {node : Location → Stmt Location} :
    ¬ Accepts (statementOf (statement n) (expression n) c.peek.kind) c node c := by
  intro haccepts
  obtain ⟨us, hread, hus, -⟩ :=
    statementOf_sound (statement_accepts n) (expression_sound n) haccepts c.peek.loc
  obtain ⟨t, vs, rfl, -⟩ := hus.leads
  exact Nat.lt_irrefl _ hread.progress

theorem statementOf_timely (hstmt : ∀ {c}, Timely (Begins (Statement (n + 1))) (statement n) c) :
    Timely (Begins (Statement (n + 2))) (statementOf (statement n) (expression n) c.peek.kind)
      c := by
  have sound : Sound (statement n) Stmt.erase (Statement (n + 1)) :=
    Sound.mono (statement_sound n) Statement.succ
  have hS : Begins (Statement (n + 1)) [] := begins_nil (.semicolon (sample_kind _) n)
  unfold statementOf
  split
  · exact (block_timely hstmt sound rfl).last_part (·.imp fun h => ⟨_, .block h⟩)
  · next hkind => exact .advance_bind hkind rfl (.pure _)
  · exact localVariables_timely
  · next hkind =>
    refine ifStatement_timely hstmt (fun h => ?_) hS hkind
    obtain ⟨us, hread, hus, helse⟩ := statement_accepts n h
    exact ⟨us, hread, hus.succ, helse⟩
  · next hkind => exact whileStatement_timely hstmt hS hkind
  · next hkind => exact doStatement_timely hstmt sound hkind
  · next hkind =>
    refine (jump_timely rfl hkind rfl fun hlabel => ?_).bind fun _ _ => .pure _
    exact ⟨[sample _], _, .breakTo hkind hlabel (sample_kind _)⟩
  · next hkind =>
    refine (jump_timely rfl hkind rfl fun hlabel => ?_).bind fun _ _ => .pure _
    exact ⟨[sample _], _, .continueTo hkind hlabel (sample_kind _)⟩
  · next hkind => exact returnStatement_timely hkind
  · next hkind => exact tryStatement_timely hstmt sound hkind
  · exact effectStatement_timely
  · exact effectStatement_timely
  · exact effectStatement_timely
  · exact .fail (begins_nil (.semicolon (sample_kind _) (n + 1)))
  · next hkind =>
    refine .peekNextKind_bind ?_ ?_ ?_
    · split
      · next hcolon => exact labeledStatement_timely hstmt hkind hcolon
      · exact effectStatement_timely
    · intro node haccepts
      have hof : Accepts (statementOf (statement n) (expression n) c.peek.kind) c node c := by
        rw [hkind]
        exact accepts_peekNextKind_bind.mpr haccepts
      exact statementOf_moves hof
    · split
      · exact labeledStatement_not_doomed hkind
      · exact effectStatement_not_doomed hkind
  · exact effectStatement_timely

theorem statement_timely (n : Nat) : Timely (Begins (Statement (n + 1))) (statement n) c := by
  induction n generalizing c with
  | zero => exact .tooDeep (begins_nil (.semicolon (sample_kind _) 0))
  | succ n ih => exact .located (.peekKind_bind (statementOf_timely ih))

end AllStatements

/-! ## Members -/

section Members

variable {limit : Nat}

theorem addModifier_timely {seen : List Modifier} {m : Modifier}
    (hkind : c.peek.kind = .keyword (.modifier m)) (hB : B []) :
    Timely B (addModifier seen m) c := by
  unfold addModifier
  split
  · refine .advance_log_bind hB (fun _ => rfl) fun t t' => ?_
    simp [Diagnostic.repeatedModifier, Diagnostic.nestingTooDeep]
  · exact .advance_bind hkind rfl (.pure _)

theorem classModifier_timely {seen : List Modifier} (hB : B []) :
    Timely B (classModifier seen) c := by
  refine .peekKind_bind ?_
  split
  · exact .pure _
  · next m hm =>
    split
    · exact (addModifier_timely (modifier?_eq_some.mp hm) hB).bind fun _ _ => .pure _
    · exact .complain_bind hB

theorem memberModifier_timely {seen : List Modifier} (hB : B []) :
    Timely B (memberModifier seen) c := by
  refine .peekKind_bind ?_
  split
  · exact .pure _
  · next m hm =>
    split
    · exact (addModifier_timely (modifier?_eq_some.mp hm) hB).bind fun _ _ => .pure _
    · exact .pure _

theorem modifiers_timely {allowed : Modifier → Bool}
    {next : List Modifier → Parser (Option (Unit × List Modifier))}
    (sound : ModifierStep allowed next)
    (round : ∀ {B seen c}, B [] → Timely B (next seen) c)
    (grow : ∀ {us set}, Modifiers allowed us set → B us) : Timely B (modifiers next) c := by
  refine .map (.iterate (fun seen ls => ls.map (·.kind) = seen.map (.keyword <| .modifier ·) ∧
    seen.Nodup ∧ ∀ m ∈ seen, allowed m = true) ⟨rfl, .nil, by simp⟩ ?_ ?_)
  · rintro seen ls c ⟨hwords, hdistinct, hfitting⟩
    refine round ?_
    rw [List.append_nil]
    exact grow (.mk hwords hdistinct hfitting)
  · rintro seen ls us _ seen₁ c c₁ ⟨hwords, hdistinct, hfitting⟩ hstep hread
    obtain ⟨m, hkind, rfl, rfl, hnew, hfits⟩ := sound.more hstep
    obtain rfl := hread.unique (reads_kind hkind rfl)
    refine ⟨by simp [hwords, hkind], List.nodup_append.mpr ⟨hdistinct, by simp, ?_⟩, ?_⟩
    · rintro m₁ hseen m₂ hm rfl
      exact hnew (List.mem_singleton.mp hm ▸ hseen)
    · intro m' hm'
      rcases List.mem_append.mp hm' with hm' | hm'
      · exact hfitting m' hm'
      · rwa [List.mem_singleton.mp hm']

theorem parameter_timely : Timely (Begins Parameter) parameter c := by
  have hname {type : PrimitiveType} {t : Token} (hword : Word (.primitive type) t) :
      Begins Parameter [t] := ⟨[sample _], _, .mk hword (sample_kind _)⟩
  refine primitiveType_bind (Begins.shorter (hname (sample_kind (.keyword (.primitive .int))))) ?_
  exact fun hword => .name_bind rfl (hname hword) fun _ => .pure _

/-- A method from its parameters on, behind the modifiers `us`, a type and a name. -/
theorem methodBody_timely {us vs : List Token} {t x : Token} {set : ModifierSet}
    {type : PrimitiveType} {params : List Param} (hus : Modifiers Modifier.onMember us set)
    (hword : Word (.primitive type) t) (hname : x.kind = .identifier)
    (hvs : Enclosed Parameter vs params) :
    Timely (fun ws => Begins (MemberDecl (limit + 1)) (us ++ t :: x :: (vs ++ ws)))
      (do
        let body ← block (statement limit) .methodBody
        return (.method · set type x.text params body : Location → Member Location)) c := by
  have sound : Sound (statement limit) Stmt.erase (Statement (limit + 1)) :=
    Sound.mono (statement_sound limit) Statement.succ
  refine (block_timely (statement_timely limit) sound rfl).last_part fun hws => ?_
  exact hws.inside [] fun h => ⟨_, by simpa using MemberDecl.method hus hword hname hvs h⟩

theorem methodRest_timely {us : List Token} {t x : Token} {set : ModifierSet}
    {type : PrimitiveType} (hus : Modifiers Modifier.onMember us set)
    (hword : Word (.primitive type) t) (hname : x.kind = .identifier)
    (hopen : c.peek.kind = .punctuation .lparen) :
    Timely (fun vs => Begins (MemberDecl (limit + 1)) (us ++ t :: x :: vs))
      (methodRest limit set type x.text) c := by
  have hbody : Block (Statement (limit + 1)) [sample _, sample _] [] :=
    .mk (sample_kind _) .nil (sample_kind _)
  refine .advance_bind hopen rfl (.sees_bind ?_)
  split
  · refine .pure_bind (.expect_bind rfl rfl ?_ fun hclose => ?_)
    · exact begins_of_start (.method hus hword hname (.empty hopen (sample_kind _)) hbody)
        (by simp)
    · exact methodBody_timely hus hword hname (.empty hopen hclose)
  · refine (separated_timely parameter_sound parameter_timely).part
      (separated_sound parameter_sound) (fun hvs => ?_) fun {params c₁ vs} hvs hparams => ?_
    · exact hvs.inside [sample _, sample _, sample _] fun h => ⟨_, by
          simpa using MemberDecl.method hus hword hname (.list hopen h (sample_kind _)) hbody⟩
    · refine .expect_bind rfl rfl (by simpa using hparams) fun hclose => ?_
      rw [List.map_id] at hvs
      refine (methodBody_timely hus hword hname (.list hopen hvs hclose)).imp fun hws => ?_
      simpa using hws

theorem fieldRest_timely {us : List Token} {t x : Token} {set : ModifierSet}
    {type : PrimitiveType} (hus : Modifiers Modifier.onMember us set)
    (hword : Word (.primitive type) t) (hname : x.kind = .identifier) :
    Timely (fun vs => Begins (MemberDecl (limit + 1)) (us ++ t :: x :: vs))
      (fieldRest limit set type x.text) c := by
  have sound : Sound (expression limit) Expr.erase (Expression (limit + 1)) :=
    expression_sound_succ limit
  have hinit : Timely (fun vs => Begins (MemberDecl (limit + 1)) (us ++ t :: x :: vs))
      (initializer (expression limit)) c := by
    refine initializer_timely fun {vs} hvs hequals => ?_
    exact hvs.inside [sample _] fun h => ⟨_, by
        simpa using MemberDecl.field hus hword (.mk (.initialized hname hequals h) .nil)
          (sample_kind _)⟩
  refine hinit.bind fun {init c₁ ls} haccepts hread => ?_
  obtain ⟨ls', hread', hfirst⟩ := initializer_sound sound hname haccepts
  obtain rfl := hread.unique hread'
  have hmore : Timely (fun vs => Begins (MemberDecl (limit + 1)) (us ++ t :: x :: (ls ++ vs)))
      (many (behind (.punctuation .comma) (declarator (expression limit) .fieldName))) c₁ := by
    refine manyAfter_timely (declarator_sound sound rfl) fun {rs ds m c₂} hrs hmark =>
      (declarator_timely rfl).imp fun hvs => ?_
    exact hvs.inside [sample _] fun h => ⟨_, by
        simpa using MemberDecl.field hus hword (.mk hfirst (hrs.snoc (.mk hmark h)))
          (sample_kind _)⟩
  refine hmore.bind_phrase (manyAfter_sound (declarator_sound sound rfl)) fun hrs => ?_
  refine .expect_bind rfl rfl ?_ fun _ => .pure _
  exact begins_of_start (.field hus hword (.mk hfirst hrs) (sample_kind _)) (by simp)

theorem member_timely (limit : Nat) :
    Timely (Begins (MemberDecl (limit + 1))) (member limit) c := by
  have htype {us : List Token} {t : Token} {set : ModifierSet} {type : PrimitiveType}
      (hus : Modifiers Modifier.onMember us set) (hword : Word (.primitive type) t) :
      Begins (MemberDecl (limit + 1)) (us ++ [t]) :=
    begins_of_start (.field hus hword (.mk (.plain (sample_kind _)) .nil) (sample_kind _))
      (by simp)
  have hset {us : List Token} {set : ModifierSet} (hus : Modifiers Modifier.onMember us set) :
      Begins (MemberDecl (limit + 1)) us :=
    Begins.shorter (htype hus (sample_kind (.keyword (.primitive .int))))
  refine .located ((modifiers_timely memberModifier_step memberModifier_timely hset).bind_phrase
    (modifiers_sound memberModifier_step) fun {set c₁ us} hus => ?_)
  refine primitiveType_bind (by simpa using hset hus) fun hword => ?_
  refine .name_bind rfl (htype hus hword) fun hname => .sees_bind ?_
  split
  · next hopen => exact methodRest_timely hus hword hname (of_decide_eq_true hopen)
  · exact fieldRest_timely hus hword hname

end Members

/-! ## The class -/

section Classes

variable {limit : Nat}

/-- A class body behind the modifiers `us`, the word `class` and a name. -/
theorem classBody_timely {us : List Token} {t x : Token} {set : ModifierSet}
    (hus : Modifiers Modifier.onClass us set) (hword : Word (.declaration .classKw) t)
    (hname : x.kind = .identifier) :
    Timely (fun vs => Begins (ClassDeclaration (limit + 1)) (us ++ t :: x :: vs))
      (classBody limit) c := by
  refine .expect_bind rfl rfl ?_ fun hopen => ?_
  · exact begins_of_start (.mk hus hword hname (sample_kind _) .nil (sample_kind _)) (by simp)
  have sound : Sound (member limit) Member.erase (MemberDecl (limit + 1)) :=
    Sound.mono (member_sound limit) MemberDecl.succ
  have hmembers : Timely
      (fun vs => Begins (ClassDeclaration (limit + 1)) (us ++ t :: x :: c.peek :: vs))
      (bodyOf .member (member limit)) c.advance := by
    refine .bodyOf sound fun {ls ms c₁} hls => (member_timely limit).imp fun hvs => ?_
    exact hvs.inside [sample _] fun h => ⟨_, by
        simpa using ClassDeclaration.mk hus hword hname hopen (hls.snoc h) (sample_kind _)⟩
  refine hmembers.bind_phrase (bodyOf_sound sound) fun {members c₁ ls} hls => ?_
  refine .accept_bind rfl (fun _ => .pure _) fun _ => .complain_bind ?_
  exact begins_of_start (.mk hus hword hname hopen hls (sample_kind _)) (by simp)

theorem classDecl_timely (limit : Nat) :
    Timely (Begins (ClassDeclaration (limit + 1))) (classDecl limit) c := by
  have hclass {us : List Token} {t : Token} {set : ModifierSet}
      (hus : Modifiers Modifier.onClass us set) (hword : Word (.declaration .classKw) t) :
      Begins (ClassDeclaration (limit + 1)) (us ++ [t]) :=
    begins_of_start (.mk hus hword (sample_kind _) (sample_kind _) .nil (sample_kind _)) (by simp)
  have hset {us : List Token} {set : ModifierSet} (hus : Modifiers Modifier.onClass us set) :
      Begins (ClassDeclaration (limit + 1)) us :=
    Begins.shorter (hclass hus (sample_kind _))
  refine .located ((modifiers_timely classModifier_step classModifier_timely hset).bind_phrase
    (modifiers_sound classModifier_step) fun {set c₁ us} hus => ?_)
  refine .expect_bind rfl rfl (by simpa using hset hus) fun hword => ?_
  refine .name_bind rfl (hclass hus hword) fun hname => ?_
  exact (classBody_timely hus hword hname).bind fun _ _ => .pure _

theorem accepts_attempt {o : Option (Unit × ClassSearch)} :
    Accepts (attempt limit .first) c o c' ↔
      ∃ decl, o = some ((), .found decl) ∧ Accepts (classDecl limit) c decl c' := by
  refine ⟨attempt_accepts, ?_⟩
  rintro ⟨decl, rfl, hdecl⟩
  obtain ⟨us, hread, hus⟩ := classDecl_sound limit hdecl
  refine (locateClass_complete hus hread).bind ?_
  exact (accepts_recover.mpr ⟨decl, hdecl, rfl⟩).bind (accepts_pure.mpr ⟨rfl, rfl⟩)

theorem first_attempt {e : Diagnostic} :
    First (attempt limit .first) c e ↔
      if c.rest.any (·.kind = .keyword (.declaration .classKw)) then
        if c.peek.kind.startsClass then First (classDecl limit) c e
        else e = .unexpected .classDeclaration c.peek
      else e = .missingClass c.peek := by
  have hlocate := locateClass_eq false c
  rw [attempt, attemptFrom, first_bind]
  split at hlocate
  · next hahead =>
    rw [if_pos hahead]
    split at hlocate
    · next hstarts =>
      rw [if_pos hstarts]
      have hthere : Accepts (locateClass false) c true c := hlocate
      constructor
      · rintro (hraised | ⟨there, c₁, haccepts, hraised⟩)
        · exact absurd hthere hraised.not_accepts
        · obtain ⟨rfl, rfl⟩ := hthere.unique haccepts
          simp only [↓reduceIte] at hraised
          rcases first_bind.mp hraised with hraised | ⟨found, c₂, -, hraised⟩
          · exact first_recover.mp hraised
          · cases found <;> exact absurd hraised not_first_pure
      · intro hraised
        exact .inr ⟨true, c, hthere, First.bind (first_recover.mpr hraised)⟩
    · next hstarts =>
      rw [if_neg hstarts]
      simp [First, Accepts, hlocate, eq_comm]
  · next hnone =>
    rw [if_neg hnone]
    simp [First, Accepts, hlocate, eq_comm]

theorem attempt_balks (h : c.peek.kind.startsClass = true → Balks (classDecl limit) c) :
    Balks (attempt limit .first) c := by
  unfold Balks
  simp only [first_attempt]
  split
  · split
    · next hstarts => exact h hstarts
    · exact ⟨_, rfl, unexpected_ne_nestingTooDeep _ _⟩
  · exact ⟨_, rfl, by simp [Diagnostic.missingClass, Diagnostic.nestingTooDeep]⟩

/-- Whether there is a class at all is not known before the end, and nothing else depends on more
than the next token. -/
theorem attempt_timely :
    Timely (Begins (ClassDeclaration (limit + 1))) (attempt limit .first) c where
  accepts haccepts := by
    obtain ⟨decl, rfl, hdecl⟩ := accepts_attempt.mp haccepts
    obtain ⟨us, hread, hconfirmed⟩ := (classDecl_timely limit).accepts hdecl
    refine ⟨us, hread, fun v d hv hshares => ?_⟩
    obtain ⟨d', hdecl', hread'⟩ := hconfirmed hv hshares
    exact ⟨d', accepts_attempt.mpr ⟨decl, rfl, hdecl'⟩, hread'⟩
  first hraised := by
    have hclass : Begins (ClassDeclaration (limit + 1)) [] := begins_class _
    have hcases := first_attempt.mp hraised
    split at hcases
    · split at hcases
      · obtain ⟨us, c₁, hread, hloc, hus, hlate⟩ := (classDecl_timely limit).first hcases
        refine ⟨us, c₁, hread, hloc, hus, hlate.imp id fun hdoomed v d hv hshares => ?_⟩
        exact attempt_balks fun _ => hdoomed hv hshares
      · next hstarts =>
        subst hcases
        refine ⟨[], c, .nil c, rfl, hclass, .inr fun v d hv hshares => attempt_balks fun h => ?_⟩
        rw [hshares.peek_eq hv] at h
        exact absurd h hstarts
    · subst hcases
      exact ⟨[], c, .nil c, rfl, hclass, .inl (.noClass _)⟩

theorem classDeclaration_timely :
    Timely (Begins (ClassDeclaration (limit + 1))) (classDeclaration limit) c := by
  refine .map (.iterate (fun search ls => search = .first ∧ ls = [] ∨ search.result?.isSome = true)
    (.inl ⟨rfl, rfl⟩) ?_ ?_)
  · rintro search ls c (⟨rfl, rfl⟩ | hfound)
    · exact attempt_timely
    · cases search with
      | found decl => exact .pure _
      | first => cases hfound
      | again => cases hfound
  · rintro search ls us _ search₁ c c₁ (⟨rfl, rfl⟩ | hfound) hstep -
    · obtain ⟨decl, hfound, -⟩ := accepts_attempt.mp hstep
      cases hfound
      exact .inr rfl
    · cases search with
      | found decl => exact absurd (accepts_pure.mp hstep).1 (by simp)
      | first => cases hfound
      | again => cases hfound

end Classes

/-! ## The compilation unit -/

section Units

variable {limit : Nat}

theorem qualifiedName_timely (hd : demand.expected = .identifier) :
    Timely (Begins QualifiedName) (qualifiedName demand) c := by
  refine .name_bind hd (begins_nil (.mk (sample_kind _) .nil)) fun hname => ?_
  refine (manyAfter_timely (name_sound rfl) fun {ls parts d c₁} hls hdot => ?_).bind
    fun _ _ => .pure _
  refine .name rfl (begins_of_start (.mk hname (hls.snoc (.mk hdot (.mk (sample_kind _))))) ?_)
  simp

theorem clause_timely {nameDemand endDemand : Demand} {word : DeclarationWord}
    (hname : nameDemand.expected = .identifier)
    (hend : endDemand.expected = .token (.punctuation .semicolon))
    (hkind : c.peek.kind = .keyword (.declaration word)) :
    Timely (Begins (Clause word)) (clause nameDemand endDemand) c := by
  refine .advance_bind hkind rfl ((qualifiedName_timely hname).part (qualifiedName_sound hname)
    (fun hus => ?_) fun _ hls => .expect_bind hend rfl (by simpa using hls) fun _ => .pure _)
  exact hus.inside [sample _] fun h => ⟨_, by simpa using Clause.mk hkind h (sample_kind _)⟩

theorem package?_timely (grow : ∀ {us}, Begins (Clause .packageKw) us → B us) :
    Timely B package? c := by
  refine .sees_bind ?_
  split
  · next hkind =>
    exact ((clause_timely rfl rfl (of_decide_eq_true hkind)).imp grow).recover
  · exact .pure _

theorem imports_timely
    (grow : ∀ {ls names us}, Repeated (Clause .importKw) ls names → Begins (Clause .importKw) us →
      B (ls ++ us)) : Timely B imports c := by
  refine (Timely.many (fun ls => ∃ names, Repeated (Clause .importKw) ls names) ⟨[], .nil⟩
    ?_ ?_).bind fun _ _ => .pure _
  · rintro ls c ⟨names, hls⟩
    refine .sees_bind ?_
    split
    · next hkind =>
      refine .bind (.recover ?_) fun _ _ => .pure _
      exact (clause_timely rfl rfl (of_decide_eq_true hkind)).imp (grow hls)
    · exact .pure _
  · rintro ls us item c c₁ ⟨names, hls⟩ hstep hread
    obtain ⟨us', name, rfl, hread', hus⟩ := nextImport_sound hstep
    obtain rfl := hread.unique hread'
    exact ⟨_, hls.snoc hus⟩

theorem program_timely (limit : Nat) :
    Timely (Begins (CompilationUnit (limit + 1))) (program limit) c := by
  obtain ⟨rs, decl, hclass⟩ := begins_class (limit + 1)
  have hpackage : Timely (Begins (CompilationUnit (limit + 1))) package? c :=
    package?_timely fun hus => hus.inside rs fun h =>
      ⟨_, by simpa using CompilationUnit.mk (.some h) .nil hclass⟩
  refine hpackage.bind_phrase package?_sound fun {package c₁ us} hus => ?_
  have himports : Timely (fun vs => Begins (CompilationUnit (limit + 1)) (us ++ vs)) imports
      c₁ := by
    refine imports_timely fun {ls names vs} hls hvs => ?_
    exact hvs.inside rs fun h => ⟨_, by simpa using CompilationUnit.mk hus (hls.snoc h) hclass⟩
  refine himports.bind_phrase imports_sound fun {names c₂ vs} hvs => ?_
  have hdecl : Timely (fun ws => Begins (CompilationUnit (limit + 1)) (us ++ (vs ++ ws)))
      (classDeclaration limit) c₂ := by
    refine classDeclaration_timely.imp fun hws => ?_
    exact hws.inside [] fun h => ⟨_, by simpa using CompilationUnit.mk hus hvs h⟩
  refine hdecl.bind fun {found c₃ ws} haccepts hread => .atEnd_bind ?_
  obtain ⟨decl, rfl, hdecl⟩ := classDeclaration_accepts haccepts
  obtain ⟨ws', hread', hws⟩ := Sound.mono (classDecl_sound limit) ClassDeclaration.succ hdecl
  obtain rfl := hread.unique hread'
  split
  · exact .pure _
  · exact .complain_bind (begins_of_start (.mk hus hvs hws) (by simp))

/-- What is grammatical is accepted, or nests too deep. -/
theorem program_not_balks {n : Nat} {p : Program Unit} (h : CompilationUnit n c.rest p) :
    ¬ Balks (program limit) c := by
  rcases program_fits h with hfits | hover
  · obtain ⟨a, c', haccepts, -⟩ := program_complete hfits
    exact not_balks_of_accepts haccepts
  · obtain ⟨_, _, _, t, _, _, _, _, _, hraised⟩ := hover
    exact not_balks_of_first hraised

theorem Doomed.not_viable {us rest : List Token} {t : Token} (h : Doomed (program limit) c us)
    (hrest : c.rest = us ++ t :: rest) : ¬ Viable (us ++ [t]) := by
  rintro ⟨n, vs, p, hunit⟩
  have hshares : Shares (us ++ [t]) c { c with rest := us ++ [t] ++ vs } :=
    ⟨⟨⟨rest, by simp [hrest]⟩, ⟨vs, rfl⟩⟩, rfl⟩
  exact program_not_balks hunit (h (by simp) hshares)

end Units

end Parser

/-! ## Whole sources -/

theorem Cursor.Reads.getElem?_peek {c c' : Cursor} {us : List Token} (h : Reads c us c') :
    (c.rest ++ [c.eof])[us.length]? = some c'.peek := by
  rw [h.rest_eq, List.append_assoc, List.getElem?_append_right (Nat.le_refl _), Nat.sub_self]
  cases hrest : c'.rest with
  | nil => simp [peek_of_nil hrest, h.eof_eq]
  | cons t rest => simp [peek_of_rest hrest]

/-- **The first diagnostic comes as early as it can.** Let no two tokens that count have the same
span, nor one of them and the end. The first diagnostic points at one of them, the one at `k`. What
stands before it can be completed to a compilation unit, and with it no more, or, at the end, is not
complete; unless the diagnostic is one that is excused. -/
theorem parse_earliest (tokens : List Token) {e : Diagnostic}
    (hspans : ((tokens.filter (·.kind.isKept) ++ [endOf tokens]).map (·.loc.span)).Nodup)
    (h : (parse tokens).diagnostics.head? = some e) :
    ∃ k, (∀ j, (tokens.filter (·.kind.isKept) ++ [endOf tokens])[j]?.map (·.loc.span) =
        some e.loc.span ↔ j = k) ∧
      Viable ((tokens.filter (·.kind.isKept)).take k) ∧
      (Excused Viable ((tokens.filter (·.kind.isKept)).take k) e ∨
        (k < (tokens.filter (·.kind.isKept)).length →
          ¬ Viable ((tokens.filter (·.kind.isKept)).take (k + 1))) ∧
        (k = (tokens.filter (·.kind.isKept)).length →
          ∀ n p, ¬ CompilationUnit n (tokens.filter (·.kind.isKept)) p)) := by
  have hfirst := (parse_head? tokens e).mp h
  obtain ⟨us, c, hread, hloc, hus, hlate⟩ := (Parser.program_timely maxNesting).first hfirst
  have htoken : (tokens.filter (·.kind.isKept) ++ [endOf tokens])[us.length]? = some c.peek :=
    hread.getElem?_peek
  have hsplit : tokens.filter (·.kind.isKept) = us ++ c.rest := hread.rest_eq
  have hbefore : (tokens.filter (·.kind.isKept)).take us.length = us := by
    rw [hsplit, List.take_left]
  refine ⟨us.length, fun j => ⟨fun hj => ?_, ?_⟩, ?_, ?_⟩
  · obtain ⟨t, ht, hspan⟩ := Option.map_eq_some_iff.mp hj
    exact (index_of_span hspans ht htoken).mp (by rw [hspan, hloc])
  · rintro rfl
    rw [htoken, Option.map_some, hloc]
  · rw [hbefore]
    exact ⟨_, hus⟩
  rw [hbefore]
  by_cases hdeep : ∃ t, e = .nestingTooDeep t
  · obtain ⟨t, rfl⟩ := hdeep
    exact .inl (.nesting t)
  refine hlate.imp (·.imp fun hw => ⟨_, hw⟩) fun hdoomed => ⟨fun hlt => ?_, fun _ n p hunit => ?_⟩
  · obtain ⟨t, rest, hrest⟩ : ∃ t rest, c.rest = t :: rest := by
      refine List.exists_cons_of_ne_nil fun hnil => ?_
      simp [hsplit, hnil] at hlt
    rw [hrest] at hsplit
    have hupTo : (tokens.filter (·.kind.isKept)).take (us.length + 1) = us ++ [t] := by
      rw [hsplit, List.append_cons, List.take_left' (by simp)]
    rw [hupTo]
    exact hdoomed.not_viable hsplit
  · have hbalks : Parser.Balks (Parser.program maxNesting) (.ofTokens tokens) :=
      ⟨e, hfirst, not_exists.mp hdeep⟩
    exact Parser.program_not_balks hunit hbalks

/-- What a call returns can not be stepped, and the step behind it is the first token that does not
fit. It is not excused, as `return` does not fit there either. -/
theorem parse_earliest_step :
    let tokens := (lex "class A \x7b void m() \x7b if (x) f(1)++; \x7d \x7d").tokens
    let kept := tokens.filter (·.kind.isKept)
    let step : Token := ⟨.operator (.step .increment), "++", none, ⟨⟨32, 34⟩, 1⟩⟩
    ((kept ++ [endOf tokens]).map (·.loc.span)).Nodup ∧
      (parse tokens).diagnostics.head? = some (.unexpected .assignmentTarget step) ∧
      kept[16]? = some step ∧ Viable (kept.take 16) ∧ ¬ Viable (kept.take 17) := by
  intro tokens kept step
  have hspans : ((kept ++ [endOf tokens]).map (·.loc.span)).Nodup := by decide +kernel
  have hfirst : (parse tokens).diagnostics.head? = some (.unexpected .assignmentTarget step) := by
    decide +kernel
  let word : Token := ⟨.keyword (.control .returnKw), "return", none, ⟨⟨32, 38⟩, 1⟩⟩
  have hreturn : ¬ Viable (kept.take 16 ++ [word]) := by
    let others := (lex "class A \x7b void m() \x7b if (x) f(1)return").tokens
    have hword : kept.take 16 ++ [word] = (others.filter (·.kind.isKept)).take 17 := by
      decide +kernel
    obtain ⟨k, hk, -, hlate⟩ := parse_earliest others (e := .unexpected .expressionEnd word)
      (by decide +kernel) (by decide +kernel)
    obtain rfl : 16 = k := (hk 16).mp (by decide +kernel)
    rw [hword]
    rcases hlate with hexcused | ⟨hlate, -⟩
    · obtain ⟨⟨_, hstep⟩, -⟩ := hexcused.of_unexpected
      cases hstep
    · exact hlate (by decide +kernel)
  obtain ⟨k, hk, hviable, hlate⟩ := parse_earliest tokens hspans hfirst
  obtain rfl : 16 = k := (hk 16).mp (by decide +kernel)
  refine ⟨hspans, hfirst, by decide +kernel, hviable, ?_⟩
  rcases hlate with hexcused | ⟨hlate, -⟩
  · exact absurd (hexcused.of_unexpected.2 rfl) hreturn
  · exact hlate (by decide +kernel)

end JavaSubset
