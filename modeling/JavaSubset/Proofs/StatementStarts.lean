import JavaSubset.Proofs.Timely
import Mathlib.Order.Monotone.Basic

/-!
# Where statements start

* `StatementStarts us` : behind the tokens `us` a statement starts, in the derivation of some
  compilation unit;
* `StatementStarts.viable` : there whatever begins a statement can go on to a compilation unit;
* `StartsAtReturns before us` : every `return` among the tokens `us` behind `before` starts a
  statement. This holds of every part of a compilation unit, as no expression has a `return` in it
  (`CompilationUnit.startsAtReturns`).

So `return` fits behind `us` just if a statement starts there (`viable_return_iff`), and the steps
that are excused are those that start a statement (`excused_assignmentTarget_iff`).
-/

namespace JavaSubset

namespace Grammar

variable {α : Type} {limit n m : Nat} {us vs ws before after : List Token} {t w : Token}
  {kind : Token.Kind}

def StatementStarts (us : List Token) : Prop :=
  ∃ limit n after, Frame limit (.entry .statement) n us after

/-! ## More may be open -/

theorem expression_mono : Monotone Expression :=
  monotone_nat_of_le_succ fun _ _ _ => Expression.succ

theorem statement_mono : Monotone Statement := monotone_nat_of_le_succ fun _ _ _ => Statement.succ

theorem memberDecl_mono : Monotone MemberDecl :=
  monotone_nat_of_le_succ fun _ _ _ => MemberDecl.succ

theorem Condition.raise {e : Expr Unit} (h : Condition (Expression n) us e) (hle : n ≤ m) :
    Condition (Expression m) us e :=
  h.mono (expression_mono hle _ _)

theorem Block.raise {body : List (Stmt Unit)} (h : Block (Statement n) us body) (hle : n ≤ m) :
    Block (Statement m) us body :=
  h.mono (statement_mono hle _ _)

/-! ## What fits where a statement starts -/

/-- The tokens begin a phrase of this kind, however deep it nests. -/
def Site.Begun : Site → List Token → Prop
  | .entry .statement, us => ∃ m, Begins (Statement m) us
  | .block, us => ∃ m, Begins (Block (Statement m)) us
  | .member, us => ∃ m, Begins (MemberDecl m) us
  | _, _ => False

/-- A part of a statement, in which `k` statements and expressions may be open. -/
theorem Begins.statement {L : Phrase α} (h : Begins L us) (k : Nat) (rs : List Token)
    (whole : ∀ {vs a}, L (us ++ vs) a → ∃ s, StatementForm k (Statement k) (ws ++ (vs ++ rs)) s) :
    Site.Begun (.entry .statement) ws :=
  ⟨k + 1, h.inside rs whole⟩

/-- What begins a statement, a block or a member goes on to a compilation unit, in any of the places
where such a phrase can stand. -/
theorem Frame.viable {site : Site} (h : Frame limit site n us ws) (hvs : site.Begun vs) :
    Viable (us ++ vs) := by
  induction h generalizing vs with
  | @member _ _ _ _ _ _ _ _ _ r _ _ _ _ _ header clauses modifiers word name opening left right
      closing =>
    obtain ⟨m, hvs⟩ := hvs
    refine ⟨max limit m, hvs.inside [r] fun hmember => ?_⟩
    have hleft := left.mono (memberDecl_mono (Nat.le_max_left limit m) _ _)
    have hmembers := hleft.snoc (memberDecl_mono (Nat.le_max_right limit m) _ _ hmember)
    have hclass := ClassDeclaration.mk modifiers word name opening hmembers closing
    exact ⟨_, by simpa using CompilationUnit.mk header clauses hclass⟩
  | methodBody frame modifiers word name parameters ih =>
    obtain ⟨m, hvs⟩ := hvs
    rw [List.append_assoc]
    refine ih ⟨m, hvs.inside [] fun hblock => ?_⟩
    exact ⟨_, by simpa using MemberDecl.method modifiers word name parameters hblock⟩
  | @item n _ _ _ _ _ _ r _ _ frame opening left right closing ih =>
    obtain ⟨m, hvs⟩ := hvs
    rw [List.append_assoc]
    refine ih ⟨max n m, hvs.inside [r] fun hstmt => ?_⟩
    have hleft := left.mono (statement_mono (Nat.le_max_left n m) _ _)
    have hbody := hleft.snoc (statement_mono (Nat.le_max_right n m) _ _ hstmt)
    exact ⟨_, by simpa using Block.mk opening hbody closing⟩
  | block frame ih =>
    obtain ⟨m, hvs⟩ := hvs
    exact ih ⟨m + 1, hvs.imp fun hblock => ⟨_, StatementForm.block hblock⟩⟩
  | labeled frame name colon ih =>
    obtain ⟨m, hvs⟩ := hvs
    rw [List.append_assoc]
    refine ih (hvs.statement m [] fun hbody => ?_)
    exact ⟨_, by simpa using StatementForm.labeled name colon hbody⟩
  | @ifBody n _ _ _ _ _ _ _ _ frame word test other ih =>
    obtain ⟨m, hvs⟩ := hvs
    rw [List.append_assoc]
    refine ih (hvs.statement (max n m) [] fun hbody => ?_)
    have hbody := statement_mono (Nat.le_max_right n m) _ _ hbody
    exact ⟨_, by simpa using
      StatementForm.ifThen word (test.raise (Nat.le_max_left n m)) hbody⟩
  | @elseBody n _ _ _ _ _ _ _ _ frame word test body nearest other ih =>
    obtain ⟨m, hvs⟩ := hvs
    rw [List.append_assoc]
    refine ih (hvs.statement (max n m) [] fun hother => ?_)
    have hbody := statement_mono (Nat.le_max_left n m) _ _ body
    have hother := statement_mono (Nat.le_max_right n m) _ _ hother
    exact ⟨_, by simpa using
      StatementForm.ifElse word (test.raise (Nat.le_max_left n m)) hbody nearest other hother⟩
  | @whileBody n _ _ _ _ _ frame word test ih =>
    obtain ⟨m, hvs⟩ := hvs
    rw [List.append_assoc]
    refine ih (hvs.statement (max n m) [] fun hbody => ?_)
    have hbody := statement_mono (Nat.le_max_right n m) _ _ hbody
    exact ⟨_, by simpa using
      StatementForm.whileLoop word (test.raise (Nat.le_max_left n m)) hbody⟩
  | @doBody _ k _ _ xs _ u s _ frame word loop test semicolon ih =>
    obtain ⟨m, hvs⟩ := hvs
    rw [List.append_assoc]
    refine ih (hvs.statement (max k m) (u :: xs ++ [s]) fun hbody => ?_)
    have hbody := statement_mono (Nat.le_max_right k m) _ _ hbody
    exact ⟨_, by simpa using
      StatementForm.doLoop word hbody loop (test.raise (Nat.le_max_left k m)) semicolon⟩
  | tryBody frame word handlers last ih =>
    -- what stands behind the block need not be a handler
    obtain ⟨m, hvs⟩ := hvs
    rw [List.append_assoc]
    refine ih (hvs.statement m [sample (.keyword (.control .finallyKw)),
      sample (.punctuation .lbrace), sample (.punctuation .rbrace)] fun hblock => ?_)
    have hcleanup : Block (Statement m) _ [] := .mk (sample_kind _) .nil (sample_kind _)
    exact ⟨_, by simpa using StatementForm.tryFinally word hblock .nil (sample_kind _) hcleanup⟩
  | @catchBody n _ _ _ _ _ _ _ _ _ _ _ _ _ _ _ _ _ frame word block left handler opening
      exceptionType name closing right last ih =>
    obtain ⟨m, hvs⟩ := hvs
    rw [List.append_assoc]
    refine ih (hvs.statement (max n m) [] fun hbody => ?_)
    have hbody := hbody.raise (Nat.le_max_right n m)
    have hleft := left.mono (Handler.mono (statement_mono (Nat.le_max_left n m) _ _))
    have hhandlers := hleft.snoc (.mk handler opening exceptionType name closing hbody)
    exact ⟨_, by simpa using
      StatementForm.tryCatch word (block.raise (Nat.le_max_left n m)) hhandlers (by simp)⟩
  | @finallyBody n _ _ _ _ _ _ _ _ frame word block handlers last ih =>
    obtain ⟨m, hvs⟩ := hvs
    rw [List.append_assoc]
    refine ih (hvs.statement (max n m) [] fun hcleanup => ?_)
    have hcleanup := hcleanup.raise (Nat.le_max_right n m)
    have hhandlers := handlers.mono (Handler.mono (statement_mono (Nat.le_max_left n m) _ _))
    exact ⟨_, by simpa using
      StatementForm.tryFinally word (block.raise (Nat.le_max_left n m)) hhandlers last hcleanup⟩
  | @operand _ _ tier | @linked _ _ tier => cases tier <;> exact hvs.elim
  | _ => exact hvs.elim

theorem StatementStarts.viable (h : StatementStarts us) (hvs : Begins (Statement n) vs) :
    Viable (us ++ vs) := by
  obtain ⟨limit, k, after, hframe⟩ := h
  exact hframe.viable ⟨n, hvs⟩

/-! ## Tokens that are not `return` -/

abbrev NoReturn (us : List Token) : Prop := Only (· ≠ .keyword (.control .returnKw)) us

theorem Only.noReturn (h : Inner us) : NoReturn us := by
  refine h.imp fun k hk => ?_
  cases k with
  | keyword word => cases word <;> first | rfl | cases hk
  | _ => rfl

theorem Condition.noReturn {e : Expr Unit} (h : Condition (Expression n) us e) : NoReturn us := by
  obtain ⟨opening, test, closing⟩ := h
  exact ((test.inner.snoc closing rfl).cons opening rfl).noReturn

theorem Identifier.inner {x : String} (h : Identifier us x) : Inner us := by
  obtain ⟨name⟩ := h
  exact only_nil.cons name rfl

theorem Declaration.inner {d : Declarator Unit} (h : Declaration (Expression n) us d) :
    Inner us := by
  cases h with
  | plain name => exact only_nil.cons name rfl
  | initialized name equals value => exact (value.inner.cons equals rfl).cons name rfl

theorem Modifiers.noReturn {allowed : Modifier → Bool} {set : ModifierSet}
    (h : Modifiers allowed us set) : NoReturn us := by
  obtain ⟨words, distinct, fitting⟩ := h
  intro t ht
  have hkind := List.mem_map_of_mem (f := fun t : Token => t.kind) ht
  rw [words] at hkind
  obtain ⟨m, -, hm⟩ := List.mem_map.mp hkind
  rw [← hm]
  rfl

theorem Parameter.noReturn {param : Param} (h : Parameter us param) : NoReturn us := by
  obtain ⟨word, name⟩ := h
  exact (only_nil.cons name rfl).cons word (by simp)

theorem Clause.noReturn {word : DeclarationWord} {name : String} (h : Clause word us name) :
    NoReturn us := by
  obtain ⟨opening, ⟨first, more⟩, semicolon⟩ := h
  have hmore : Only (·.inExpression) _ := more.only fun h => by
    obtain ⟨separator, given⟩ := h
    exact given.inner.cons separator rfl
  exact ((hmore.cons first rfl).noReturn.snoc semicolon (by decide)).cons opening (by simp)

theorem Optional.noReturn {item : Phrase α} {o : Option α}
    (hitem : ∀ {us a}, item us a → NoReturn us) (h : Optional item us o) : NoReturn us := by
  cases h with
  | none => exact only_nil
  | some given => exact hitem given

/-! ## Every `return` starts a statement -/

def StartsAtReturns (before us : List Token) : Prop :=
  ∀ ls rs w, us = ls ++ w :: rs → Word (.control .returnKw) w → StatementStarts (before ++ ls)

namespace StartsAtReturns

theorem of_noReturn (h : NoReturn us) : StartsAtReturns before us := by
  rintro ls rs w rfl hw
  have hne := of_decide_eq_true (h w (by simp))
  exact absurd hw hne

/-- A first token, which may be `return` if a statement starts there. -/
theorem cons (first : Word (.control .returnKw) t → StatementStarts before)
    (h : StartsAtReturns (before ++ [t]) us) : StartsAtReturns before (t :: us) := by
  intro ls rs w hsplit hw
  cases ls with
  | nil =>
    obtain ⟨rfl, rfl⟩ := List.cons.inj hsplit
    rw [List.append_nil]
    exact first hw
  | cons u ls =>
    obtain ⟨rfl, rfl⟩ := List.cons.inj hsplit
    rw [List.append_cons]
    exact h _ _ _ rfl hw

theorem behind (h : StartsAtReturns (before ++ [t]) us) (ht : t.kind = kind)
    (hk : kind ≠ .keyword (.control .returnKw)) : StartsAtReturns before (t :: us) :=
  cons (fun hw => absurd (ht.symm.trans hw) hk) h

theorem append (h : StartsAtReturns before us) (h' : StartsAtReturns (before ++ us) vs) :
    StartsAtReturns before (us ++ vs) := by
  intro ls rs w hsplit hw
  rcases List.append_eq_append_iff.mp hsplit with ⟨ms, rfl, hvs⟩ | ⟨ms, hus, hrest⟩
  · rw [← List.append_assoc]
    exact h' _ _ _ hvs hw
  · cases ms with
    | nil =>
      rw [List.append_nil] at hus
      subst hus
      rw [← List.append_nil us, ← List.append_assoc]
      exact h' [] _ _ hrest.symm hw
    | cons u ms =>
      obtain ⟨rfl, -⟩ := List.cons.inj hrest
      exact h _ _ _ hus hw

theorem snoc (h : StartsAtReturns before us) (ht : t.kind = kind)
    (hk : kind ≠ .keyword (.control .returnKw)) : StartsAtReturns before (us ++ [t]) :=
  h.append (behind (of_noReturn only_nil) ht hk)

/-- In front of each item stand items. -/
theorem repeated {item : Phrase α} {as : List α}
    (hitem : ∀ {ls us as a}, Repeated item ls as → item us a → StartsAtReturns (before ++ ls) us)
    (h : Repeated item us as) : StartsAtReturns before us := by
  suffices hmore : ∀ {ls as'}, Repeated item ls as' → StartsAtReturns (before ++ ls) us by
    simpa using hmore .nil
  induction h with
  | nil => exact fun _ => of_noReturn only_nil
  | cons first more ih =>
    intro ls as' hls
    have hmore := ih (hls.snoc first)
    rw [← List.append_assoc] at hmore
    exact (hitem hls first).append hmore

end StartsAtReturns

open StartsAtReturns (of_noReturn)

section Nested

variable (hstmt : ∀ {before after us s}, Frame limit (.entry .statement) n before after →
  Statement n us s → StartsAtReturns before us)

include hstmt

theorem Block.startsAtReturns {body : List (Stmt Unit)} (frame : Frame limit .block n before after)
    (h : Block (Statement n) us body) : StartsAtReturns before us := by
  obtain ⟨opening, statements, closing⟩ := h
  refine StartsAtReturns.snoc (.behind (.repeated ?_ statements) opening (by decide)) closing
    (by decide)
  intro ls us ss s hls hs
  have hframe := Frame.item (m := 0) frame opening hls .nil closing
  rw [List.append_assoc]
  exact hstmt hframe hs

theorem Handler.startsAtReturns {clause : CatchClause Unit} {bs vs : List Token} {t : Token}
    {body : List (Stmt Unit)} {catches : List (CatchClause Unit)}
    (frame : Frame limit (.entry .statement) (n + 1) before after)
    (word : Word (.control .tryKw) t) (block : Block (Statement n) bs body)
    (left : Repeated (Handler (Statement n)) vs catches) (h : Handler (Statement n) us clause) :
    StartsAtReturns (before ++ (t :: bs ++ vs)) us := by
  obtain ⟨handler, opening, exceptionType, name, closing, given⟩ := h
  have hgiven := given.startsAtReturns hstmt (Frame.catchBody (m := 0) frame word block left
    handler opening exceptionType name closing .nil .none)
  refine .behind (.behind (.behind (.behind (.behind ?_ closing (by decide)) name (by decide))
    exceptionType (by decide)) opening (by decide)) handler (by decide)
  simpa using hgiven

theorem StatementForm.startsAtReturns {s : Stmt Unit}
    (frame : Frame limit (.entry .statement) (n + 1) before after)
    (h : StatementForm n (Statement n) us s) : StartsAtReturns before us := by
  cases h with
  | block given => exact given.startsAtReturns hstmt (.block frame)
  | empty semicolon => exact (of_noReturn only_nil).behind semicolon (by decide)
  | locals word names semicolon =>
    have hnames := names.only Declaration.inner rfl
    exact ((of_noReturn hnames.noReturn).behind word (by simp)).snoc semicolon (by decide)
  | expr given semicolon => exact (of_noReturn given.inner.noReturn).snoc semicolon (by decide)
  | labeled name colon body =>
    have hbody := hstmt (.labeled frame name colon) body
    refine .behind (.behind ?_ colon (by decide)) name (by decide)
    simpa using hbody
  | ifThen word test body =>
    have hbody := hstmt (.ifBody (m := 0) frame word test .none) body
    refine ((of_noReturn test.noReturn).behind word (by decide)).append ?_
    exact hbody
  | ifElse word test body nearest other body' =>
    have hbody := hstmt (.ifBody (m := 0) frame word test .none) body
    have hbody' := hstmt (.elseBody frame word test body nearest other) body'
    refine (((of_noReturn test.noReturn).behind word (by decide)).append hbody).append ?_
    refine .behind ?_ other (by decide)
    simpa using hbody'
  | whileLoop word test body =>
    have hbody := hstmt (.whileBody frame word test) body
    exact ((of_noReturn test.noReturn).behind word (by decide)).append hbody
  | doLoop word body loop test semicolon =>
    have hbody := hstmt (.doBody frame word loop test semicolon) body
    have htest := test.noReturn.cons loop rfl
    exact ((hbody.behind word (by decide)).append (of_noReturn htest)).snoc semicolon (by decide)
  | breakTo word target semicolon | continueTo word target semicolon =>
    have htarget := target.noReturn fun h => h.inner.noReturn
    exact ((of_noReturn htarget).behind word (by decide)).snoc semicolon (by decide)
  | returnWith word given semicolon =>
    have hgiven := given.noReturn fun h => h.inner.noReturn
    refine StartsAtReturns.snoc (.cons (fun _ => ⟨limit, n + 1, after, frame⟩) ?_) semicolon
      (by decide)
    exact of_noReturn hgiven
  | tryCatch word block handlers some =>
    have hblock := block.startsAtReturns hstmt (.tryBody (m := 0) frame word .nil .none)
    refine (hblock.behind word (by decide)).append ?_
    refine .repeated (fun hls hs => ?_) handlers
    simpa using Handler.startsAtReturns hstmt frame word block hls hs
  | tryFinally word block handlers last block' =>
    have hblock := block.startsAtReturns hstmt (.tryBody (m := 0) frame word .nil .none)
    have hblock' := block'.startsAtReturns hstmt (.finallyBody frame word block handlers last)
    refine ((hblock.behind word (by decide)).append ?_).append ?_
    · refine .repeated (fun hls hs => ?_) handlers
      simpa using Handler.startsAtReturns hstmt frame word block hls hs
    · refine .behind ?_ last (by decide)
      simpa using hblock'

end Nested

theorem Statement.startsAtReturns {s : Stmt Unit}
    (frame : Frame limit (.entry .statement) n before after) (h : Statement n us s) :
    StartsAtReturns before us := by
  induction n generalizing before after us s with
  | zero => exact h.elim
  | succ n ih => exact StatementForm.startsAtReturns (fun frame => ih frame) frame h

theorem MemberDecl.startsAtReturns {d : Member Unit} (frame : Frame limit .member n before after)
    (h : MemberDecl n us d) : StartsAtReturns before us := by
  cases h with
  | field modifiers word names semicolon =>
    have hnames := (names.only Declaration.inner rfl).noReturn.cons word (by simp)
    exact of_noReturn ((modifiers.noReturn.append hnames).snoc semicolon (by decide))
  | method modifiers word name parameters block =>
    have hparameters := parameters.only Parameter.noReturn ⟨rfl, rfl, rfl⟩
    have hhead := modifiers.noReturn.append ((hparameters.cons name rfl).cons word (by simp))
    refine (of_noReturn hhead).append ?_
    exact block.startsAtReturns Statement.startsAtReturns
      (.methodBody frame modifiers word name parameters)

theorem ClassDeclaration.startsAtReturns {d : ClassDecl Unit} {package : Option String}
    {imports : List String} (header : Optional (Clause .packageKw) us package)
    (clauses : Repeated (Clause .importKw) vs imports) (h : ClassDeclaration n ws d) :
    StartsAtReturns (us ++ vs) ws := by
  obtain ⟨modifiers, word, name, opening, body, closing⟩ := h
  have hhead := ((modifiers.noReturn.snoc word rfl).snoc name rfl).snoc opening rfl
  refine StartsAtReturns.snoc ?_ closing (by decide)
  rw [List.append_cons, List.append_cons, List.append_cons]
  refine (of_noReturn hhead).append (.repeated ?_ body)
  intro ls ms members m hls hm
  have hframe :=
    Frame.member (m := 0) header clauses modifiers word name opening hls .nil closing
  have hmember := hm.startsAtReturns hframe
  simpa using hmember

theorem CompilationUnit.startsAtReturns {p : Program Unit} (h : CompilationUnit n us p) :
    StartsAtReturns [] us := by
  obtain ⟨header, clauses, given⟩ := h
  have hheader := (header.noReturn Clause.noReturn).append (clauses.only Clause.noReturn)
  refine (of_noReturn hheader).append ?_
  rw [List.nil_append]
  exact given.startsAtReturns header clauses

/-! ## Excuses -/

/-- Where `return` fits, a statement starts, and nowhere else. -/
theorem viable_return_iff :
    (∀ {w}, Word (.control .returnKw) w → Viable (us ++ [w])) ↔ StatementStarts us := by
  constructor
  · intro h
    obtain ⟨n, vs, p, hunit⟩ := h (w := sample (.keyword (.control .returnKw))) rfl
    rw [List.append_assoc] at hunit
    exact hunit.startsAtReturns us vs _ rfl rfl
  · intro h w hw
    refine h.viable (n := 1) ?_
    exact begins_of_start (.returnWith hw .none (sample_kind (.punctuation .semicolon)))
      (List.prefix_append [w] [_])

end Grammar

open Grammar

/-- **The steps that are excused start a statement.** -/
theorem excused_assignmentTarget_iff {us : List Token} {t : Token} :
    Excused Viable us (.unexpected .assignmentTarget t) ↔
      (∃ step, t.kind = .operator (.step step)) ∧ StatementStarts us := by
  rw [← viable_return_iff]
  constructor
  · exact Excused.of_unexpected
  · rintro ⟨⟨step, hstep⟩, hstart⟩
    exact .preStep hstep hstart

end JavaSubset
