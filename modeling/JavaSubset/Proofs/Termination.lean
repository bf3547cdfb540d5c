import JavaSubset.Parse.Program
import JavaSubset.Proofs.Order

/-!
# Parsing comes to an end

`Parser.iterate` stops when a round reads nothing. No loop of the parser needs that: each one ends
because its step has nothing more to give, and does so in time, since every round that goes on reads
a token.

* `Rounds step n s c r` : the loop without that check gives `r` after `n` rounds that went on;
* `Recovered point p`, `Looped step` : what the parser runs with recovery, and the steps of all its
  loops;
* `Recovered.advances`, `Looped.advances` : each of them reads something;
* `parsing_terminates` : so every loop ends, and `parse` returns with all tokens read.

Productions call one another only through `statement` and `expression`, which count down how deep
they are nested.
-/

namespace JavaSubset

open Cursor

namespace Parser

variable {α β σ : Type} {p : Parser α} {f : α → Parser β} {c c' : Cursor} {quiet : Bool}
  {kind : Token.Kind} {limit : Nat}

/-! ## Loops that nothing bounds -/

inductive Rounds (step : σ → Parser (Option (β × σ))) :
    Nat → σ → Cursor → Reply (List β × σ) → Prop where
  | error {s : σ} {c c' : Cursor} {e : Diagnostic} {reports : List Diagnostic}
      (round : step s c = ⟨.error e, reports, c'⟩) : Rounds step 0 s c ⟨.error e, reports, c'⟩
  | stop {s : σ} {c c' : Cursor} {reports : List Diagnostic}
      (round : step s c = ⟨.ok none, reports, c'⟩) : Rounds step 0 s c ⟨.ok ([], s), reports, c'⟩
  | next {s s' : σ} {c c' : Cursor} {b : β} {reports : List Diagnostic} {n : Nat}
      {r : Reply (List β × σ)} (round : step s c = ⟨.ok (some (b, s')), reports, c'⟩)
      (more : Rounds step n s' c' r) :
      Rounds step (n + 1) s c ((r.map (Prod.map (b :: ·) id)).after reports)

theorem Rounds.unique {step : σ → Parser (Option (β × σ))} {m n : Nat} {s : σ}
    {r r' : Reply (List β × σ)} (h : Rounds step m s c r) (h' : Rounds step n s c r') :
    m = n ∧ r = r' := by
  induction h generalizing n r' with
  | error round =>
    cases h' with
    | error round' =>
      cases round.symm.trans round'
      exact ⟨rfl, rfl⟩
    | stop round' => cases round.symm.trans round'
    | next round' => cases round.symm.trans round'
  | stop round =>
    cases h' with
    | error round' => cases round.symm.trans round'
    | stop round' =>
      cases round.symm.trans round'
      exact ⟨rfl, rfl⟩
    | next round' => cases round.symm.trans round'
  | next round more ih =>
    cases h' with
    | error round' => cases round.symm.trans round'
    | stop round' => cases round.symm.trans round'
    | next round' more' =>
      cases round.symm.trans round'
      obtain ⟨rfl, rfl⟩ := ih more'
      exact ⟨rfl, rfl⟩

/-! ## Parsers that read something -/

theorem rest_ne_nil (h : c.peek.kind ≠ .eof) : c.rest ≠ [] := by
  rw [rest_of_peek h]
  exact List.cons_ne_nil _ _

/-- The cursor moves forward, and by one token at least if the parser gives a value with the
property `P`. -/
def Advances (P : α → Prop) (p : Parser α) (c : Cursor) : Prop :=
  ∃ us, Reads c us (p c).cursor ∧ ∀ a, (p c).outcome = .ok a → P a → us ≠ []

theorem Orderly.advances (h : Orderly false [] p c) : Advances (fun _ => False) p c := by
  obtain ⟨us, hreads, -⟩ := h
  exact ⟨us, hreads, fun _ _ hfalse => hfalse.elim⟩

theorem Walks.advances {nested : Bool} {P : α → Prop} (h : Walks nested true [] p c) :
    Advances P p c := by
  obtain ⟨us, htravels, heats⟩ := h.goes
  exact ⟨us, htravels.reads, fun a ha _ => heats rfl a ha⟩

namespace Advances

variable {P : α → Prop} {Q : β → Prop}

theorem progress {a : α} {reports : List Diagnostic} (h : Advances P p c)
    (hp : p c = ⟨.ok a, reports, c'⟩) (ha : P a) : c'.rest.length < c.rest.length := by
  obtain ⟨us, hreads, hne⟩ := h
  rw [hp] at hreads hne
  cases us with
  | nil => exact absurd rfl (hne a rfl ha)
  | cons t us => exact hreads.progress

theorem still (h : (p c).cursor = c) : Advances (fun _ => False) p c := by
  refine ⟨[], ?_, fun _ _ hfalse => hfalse.elim⟩
  rw [h]
  exact .nil c

theorem never {a : α} (h : ¬ P a) : Advances P (pure a) c := by
  refine ⟨[], .nil c, fun a' ha' hP => ?_⟩
  cases ha'
  exact absurd hP h

theorem advance {P : Token → Prop} (h : c.peek.kind ≠ .eof) : Advances P advance c :=
  ⟨[c.peek], reads_peek h, fun _ _ _ => List.cons_ne_nil _ _⟩

theorem expect {P : Token → Prop} {demand : Demand} (h : demand.expected.admits .eof = false) :
    Advances P (expect demand) c := by
  by_cases hadmits : demand.expected.admits c.peek.kind = true
  · have hkind : c.peek.kind ≠ .eof := by
      intro hkind
      rw [hkind, h] at hadmits
      cases hadmits
    rw [Advances, expect_of_admits hadmits]
    exact ⟨[c.peek], reads_peek hkind, fun _ _ _ => List.cons_ne_nil _ _⟩
  · rw [Advances, expect_of_not_admits hadmits]
    exact ⟨[], .nil c, fun a ha => by cases ha⟩

/-- One of two parts reads something. -/
theorem bind (h : Advances P p c) (hrest : ∀ {a reports c'}, p c = ⟨.ok a, reports, c'⟩ →
      Advances (fun b => Q b ∧ ¬ P a) (f a) c') : Advances Q (p >>= f) c := by
  obtain ⟨us, hreads, hne⟩ := h
  rcases hp : p c with ⟨⟨d⟩ | ⟨a⟩, reports, c₁⟩
  · rw [hp] at hreads
    rw [Advances, bind_of_error hp]
    exact ⟨us, hreads, fun b hb => by cases hb⟩
  · rw [hp] at hreads hne
    obtain ⟨vs, hmore, hne'⟩ := hrest hp
    rw [Advances, bind_of_ok hp]
    refine ⟨us ++ vs, hreads.trans hmore, fun b hb hQ hnil => ?_⟩
    obtain ⟨rfl, rfl⟩ := List.append_eq_nil_iff.mp hnil
    by_cases ha : P a
    · exact hne a rfl ha rfl
    · exact hne' b hb ⟨hQ, ha⟩ rfl

theorem imp {P' : α → Prop} (h : Advances P p c) (hP : ∀ a, P' a → P a) : Advances P' p c := by
  obtain ⟨us, hreads, hne⟩ := h
  exact ⟨us, hreads, fun a ha hP' => hne a ha (hP a hP')⟩

/-- The first part reads something. -/
theorem andThen (h : Advances (fun _ => True) p c)
    (hrest : ∀ {a reports c'}, p c = ⟨.ok a, reports, c'⟩ → Advances (fun _ => False) (f a) c') :
    Advances Q (p >>= f) c :=
  h.bind fun hp => (hrest hp).imp fun _ hb => hb.2 trivial

/-- The second part reads something. -/
theorem seq (h : Advances (fun _ => False) p c)
    (hrest : ∀ {a reports c'}, p c = ⟨.ok a, reports, c'⟩ → Advances Q (f a) c') :
    Advances Q (p >>= f) c :=
  h.bind fun hp => (hrest hp).imp fun _ hb => hb.1

theorem peekKind_bind {f : Token.Kind → Parser β} (h : Advances Q (f c.peek.kind) c) :
    Advances Q (peekKind >>= f) c := h

theorem sees_bind {f : Bool → Parser β} (h : Advances Q (f (c.peek.kind = kind)) c) :
    Advances Q (sees kind >>= f) c := h

theorem atEnd_bind {f : Bool → Parser β} (h : Advances Q (f c.atEnd) c) :
    Advances Q (Parser.atEnd >>= f) c := h

theorem accept_bind {f : Bool → Parser β} (hkind : kind ≠ .eof)
    (htrue : ∀ c, Advances (fun _ => False) (f true) c) (hfalse : Advances Q (f false) c) :
    Advances Q (accept kind >>= f) c := by
  by_cases h : c.peek.kind = kind
  · have hread : Advances (fun _ => False) (f true) c.advance := htrue _
    obtain ⟨us, hreads, -⟩ := hread
    rw [Advances, bind_of_ok (accept_of_kind h)]
    exact ⟨c.peek :: us, .cons (rest_of_peek (h ▸ hkind)) hreads,
      fun _ _ _ => List.cons_ne_nil _ _⟩
  · rw [Advances, bind_of_ok (accept_of_ne h)]
    exact hfalse

/-- On success and on failure alike recovery reads something, unless nothing is left. -/
theorem recover {point : SyncPoint} {P : Option α → Prop} (h : Advances (fun _ => True) p c)
    (hrest : c.rest ≠ []) : Advances P (recover point p) c := by
  obtain ⟨us, hreads, hne⟩ := h
  rcases hp : p c with ⟨⟨d⟩ | ⟨a⟩, reports, c₁⟩
  · rw [hp] at hreads
    obtain ⟨vs, hskip⟩ := exists_reads_skip c₁ (point.skip 0 c₁.rest)
    rw [Advances, recover_error point hp (hreads.trans hskip)]
    split
    · obtain ⟨t, rest, hcons⟩ := List.exists_cons_of_ne_nil hrest
      exact ⟨[t], .one hcons, fun _ _ _ => List.cons_ne_nil _ _⟩
    · next hvs => exact ⟨us ++ vs, hreads.trans hskip, fun _ _ _ => hvs⟩
  · rw [hp] at hreads hne
    rw [Advances, Parser.recover, hp]
    exact ⟨us, hreads, fun _ _ _ => hne a rfl trivial⟩

end Advances

/-- The loop ends by itself, and there are at most as many rounds as tokens. -/
theorem rounds_iterate {step : σ → Parser (Option (β × σ))} {s : σ}
    (h : ∀ s c, Advances (·.isSome = true) (step s) c) :
    ∃ n ≤ c.rest.length, Rounds step n s c (iterate step s c) := by
  induction hn : c.rest.length using Nat.strongRecOn generalizing s c with
  | ind _ ih =>
    rcases hstep : step s c with ⟨⟨d⟩ | ⟨_ | ⟨b, s'⟩⟩, reports, c₁⟩
    · rw [iterate_error hstep]
      exact ⟨0, Nat.zero_le _, .error hstep⟩
    · rw [iterate_stop hstep]
      exact ⟨0, Nat.zero_le _, .stop hstep⟩
    · have hlt := (h s c).progress hstep rfl
      obtain ⟨n, hle, hrest⟩ := ih _ (hn ▸ hlt) (s := s') rfl
      rw [iterate_next hstep hlt]
      exact ⟨n + 1, by omega, .next hstep hrest⟩

/-! ## What is recovered -/

/-- What the parser runs with recovery. -/
inductive Recovered : {α : Type} → SyncPoint → Parser α → Prop where
  | packageDecl : Recovered .topLevel packageDecl
  | importDecl : Recovered .topLevel importDecl
  | classDecl (limit : Nat) : Recovered .topLevel (classDecl limit)
  | member (limit : Nat) : Recovered .member (member limit)
  | statement (n : Nat) : Recovered .statement (statement n)

theorem clause_advances {P : String → Prop} {nameDemand endDemand : Demand}
    (h : nameDemand.expected = .identifier) : Advances P (clause nameDemand endDemand) c := by
  have hname : ∀ {c}, Advances (fun _ => True) (name nameDemand) c := fun {c} =>
    .andThen (.expect (by rw [h]; rfl)) fun _ => .never id
  refine .seq Orderly.advance.advances fun _ => .andThen (.andThen hname fun _ => ?_) fun _ => ?_
  · exact (Orderly.many fun _ => .behind fun _ => .name).map_bind.advances
  · exact Orderly.expect.map_bind.advances

theorem classDecl_advances {P : ClassDecl Location → Prop} : Advances P (classDecl limit) c := by
  refine .seq (Orderly.still rfl).advances fun _ => .andThen ?_ fun _ =>
    (Orderly.still rfl).advances
  refine .seq (Orderly.map (.iterate fun _ _ => classModifier_orderly)).advances fun _ => ?_
  refine .andThen (.expect rfl) fun _ => ?_
  exact (Orderly.name.bind fun _ => classBody_orderly.map_bind).advances

/-- Whatever is recovered has read something when it succeeds. -/
theorem Recovered.advances {point : SyncPoint} (h : Recovered point p) :
    Advances (fun _ => True) p c := by
  cases h with
  | packageDecl => exact clause_advances rfl
  | importDecl => exact clause_advances rfl
  | classDecl limit => exact classDecl_advances
  | member limit => exact (member_walks limit).advances
  | statement n => exact (statement_walks n).advances

theorem Recovered.orderly {point : SyncPoint} (h : Recovered point p) : Orderly false [] p c := by
  cases h with
  | packageDecl => exact clause_orderly.loud
  | importDecl => exact clause_orderly.loud
  | classDecl limit => exact classDecl_orderly limit
  | member limit => exact member_orderly limit
  | statement n => exact statement_orderly n

/-! ## What is repeated -/

/-- A round of a loop without a state. -/
def round (step : Parser (Option α)) : Unit → Parser (Option (α × Unit)) :=
  fun _ => do return (← step).map (·, ())

/-- What stands behind a token of this kind, if there is one. -/
def behind (kind : Token.Kind) (p : Parser α) : Parser (Option α) := do
  if ← accept kind then return some (← p) else return none

/-- A binary operator and the operand behind it. -/
def link (tier : Tier) (operand : Parser (Expr Location)) :
    Parser (Option (BinaryOp × Expr Location)) := do
  match tierOp? tier (← peekKind) with
  | none => return none
  | some op =>
    let _ ← advance
    return some (op, ← operand)

/-- One more import. -/
def nextImport : Parser (Option (Option String)) := do
  if ← sees (.keyword (.declaration .importKw)) then
    return some (← recover .topLevel importDecl)
  else return none

/-- The operand that the operators of a tier join. -/
def operandOf (expr : Parser (Expr Location)) : Tier → Parser (Expr Location)
  | .multiplicative => unary expr
  | .additive => multiplicative expr
  | .relational => additive expr
  | .logical => relational expr

/-- The steps of all loops of the parser. -/
inductive Looped : {β σ : Type} → (σ → Parser (Option (β × σ))) → Prop where
  | arguments (n : Nat) : Looped (round (behind (.punctuation .comma) (expression n)))
  | selectors (n : Nat) (start : Token) : Looped (round (selector (expression n) start))
  | links (n : Nat) (tier : Tier) : Looped (round (link tier (operandOf (expression n) tier)))
  | declarators (n : Nat) (demand : Demand) :
      Looped (round (behind (.punctuation .comma) (declarator (expression n) demand)))
  | assignments (n : Nat) : Looped (assignment (expression n))
  | catches (n : Nat) :
      Looped (round (behind (.keyword (.control .catchKw)) (catchClause (statement n))))
  | block (n : Nat) : Looped (round (bodyItem .statement (statement n)))
  | parameters : Looped (round (behind (.punctuation .comma) parameter))
  | memberModifiers : Looped memberModifier
  | classModifiers : Looped classModifier
  | classBody (limit : Nat) : Looped (round (bodyItem .member (member limit)))
  | names : Looped (round (behind (.punctuation .dot) (name .nameAfterDot)))
  | imports : Looped (round nextImport)
  | attempts (limit : Nat) : Looped (attempt limit)

theorem round_advances {step : Parser (Option α)} {u : Unit}
    (h : Advances (·.isSome = true) step c) : Advances (·.isSome = true) (round step u) c := by
  refine h.bind fun _ => .never ?_
  rintro ⟨hsome, hnone⟩
  rw [Option.isSome_map] at hsome
  exact hnone hsome

theorem behind_advances (hkind : kind ≠ .eof) (h : ∀ c, Orderly false [] p c) :
    Advances (·.isSome = true) (behind kind p) c :=
  .accept_bind hkind (fun c => (h c).map_bind.advances) (.never (by simp))

theorem selector_advances {expr : Parser (Expr Location)} {start : Token}
    (h : ∀ c, Orderly true [] expr c) : Advances (·.isSome = true) (selector expr start) c := by
  refine .accept_bind (by simp) (fun _ => ?_) (.never (by simp))
  refine Orderly.advances (.bind .name fun _ => .sees_bind ?_)
  split
  · exact (arguments_orderly h).loud.bind fun _ => .still rfl
  · exact .still rfl

theorem link_advances {tier : Tier} {operand : Parser (Expr Location)}
    (h : ∀ c, Orderly true [] operand c) : Advances (·.isSome = true) (link tier operand) c := by
  refine .peekKind_bind ?_
  split
  · exact .never (by simp)
  · next op hop =>
    have hkind := (tierOp?_eq_some.mp hop).1
    exact .andThen (.advance (by simp [hkind])) fun _ => (h _).loud.map_bind.advances

theorem operandOf_orderly {expr : Parser (Expr Location)} (h : ∀ c, Orderly true [] expr c)
    (tier : Tier) : ∀ c, Orderly true [] (operandOf expr tier) c := by
  have hunary : ∀ c, Orderly true [] (unary expr) c := fun _ => unary_orderly h
  have hmultiplicative : ∀ c, Orderly true [] (multiplicative expr) c :=
    fun _ => chain_orderly hunary
  have hadditive : ∀ c, Orderly true [] (additive expr) c := fun _ => chain_orderly hmultiplicative
  cases tier with
  | multiplicative => exact hunary
  | additive => exact hmultiplicative
  | relational => exact hadditive
  | logical => exact fun _ => chain_orderly hadditive

theorem assignment_advances {expr : Parser (Expr Location)} {e : Expr Location}
    (h : ∀ c, Orderly true [] expr c) : Advances (·.isSome = true) (assignment expr e) c := by
  refine .peekKind_bind ?_
  split
  · exact .never (by simp)
  · next op hop =>
    have hkind := assignOp?_eq_some.mp hop
    refine .andThen (.advance (by simp [hkind])) fun _ => .seq (.still ?_) fun _ =>
      (h _).loud.map_bind.advances
    unfold checkTarget
    split <;> rfl

theorem bodyItem_advances {point : SyncPoint} (h : Recovered point p) :
    Advances (·.isSome = true) (bodyItem point p) c := by
  refine .atEnd_bind (.sees_bind ?_)
  split
  · exact .never (by simp)
  · next hgo =>
    have hrest : c.rest ≠ [] := by
      intro hrest
      simp [Cursor.atEnd, hrest] at hgo
    exact .andThen (h.advances.recover hrest) fun _ => .never id

theorem nextImport_advances : Advances (·.isSome = true) nextImport c := by
  refine .sees_bind ?_
  split
  · next himport =>
    have hrest : c.rest ≠ [] := rest_ne_nil (by simp [of_decide_eq_true himport])
    exact .andThen (Recovered.importDecl.advances.recover hrest) fun _ => .never id
  · exact .never (by simp)

theorem locateClass_eq (again : Bool) (c : Cursor) :
    locateClass again c =
      if c.rest.any (·.kind = .keyword (.declaration .classKw)) then
        if c.peek.kind.startsClass then ⟨.ok true, [], c⟩
        else ⟨.ok true, [.unexpected .classDeclaration c.peek], c.skipTo (·.kind.startsClass)⟩
      else ⟨.ok false, if again then [] else [.missingClass c.peek], c.toEnd⟩ := by
  rw [locateClass]
  change (if (c.rest.any fun t => t.kind = .keyword (.declaration .classKw)) = true then _
    else _ : Parser Bool) c = _
  split
  · change (if c.peek.kind.startsClass = true then _ else _ : Parser Bool) c = _
    split <;> rfl
  · cases again <;> rfl

theorem startsClass_peek_skipTo
    (h : c.rest.any (·.kind = .keyword (.declaration .classKw)) = true) :
    (c.skipTo (·.kind.startsClass)).peek.kind.startsClass = true := by
  obtain ⟨t, ht, hclass⟩ := List.any_eq_true.mp h
  have hstarts : t.kind.startsClass = true := by
    rw [of_decide_eq_true hclass]
    rfl
  have hlt : c.rest.findIdx (·.kind.startsClass) < c.rest.length :=
    List.findIdx_lt_length_of_exists ⟨t, ht, hstarts⟩
  rw [Cursor.skipTo, peek_skip, List.getElem?_eq_getElem hlt]
  exact List.findIdx_getElem (p := fun t : Token => t.kind.startsClass)

/-- The search stops in front of a token that starts a class, since one is ahead. -/
theorem startsClass_of_locateClass {again : Bool} {reports : List Diagnostic}
    (h : locateClass again c = ⟨.ok true, reports, c'⟩) : c'.peek.kind.startsClass = true := by
  rw [locateClass_eq] at h
  split at h
  · next hahead =>
    split at h
    · next hstarts =>
      cases h
      exact hstarts
    · cases h
      exact startsClass_peek_skipTo hahead
  · cases h

theorem attemptFrom_advances {again : Bool} :
    Advances (·.isSome = true) (attemptFrom limit again) c := by
  refine .seq locateClass_orderly.advances fun hlocate => ?_
  split
  · next hfound =>
    subst hfound
    refine .andThen ((Recovered.classDecl limit).advances.recover (rest_ne_nil ?_)) fun _ => ?_
    · intro hkind
      have hstarts := startsClass_of_locateClass hlocate
      rw [hkind] at hstarts
      cases hstarts
    · split <;> exact .never id
  · exact .never (by simp)

theorem attempt_advances {search : ClassSearch} :
    Advances (·.isSome = true) (attempt limit search) c := by
  cases search with
  | first => exact attemptFrom_advances
  | again => exact attemptFrom_advances
  | found => exact .never (by simp)

theorem addModifier_advances {P : List Modifier → Prop} {ms : List Modifier} {m : Modifier}
    (h : c.peek.kind = .keyword (.modifier m)) : Advances P (addModifier ms m) c := by
  refine .andThen (.advance (by simp [h])) fun _ => ?_
  split
  · exact .seq (.still rfl) fun _ => .never id
  · exact .never id

theorem memberModifier_advances {ms : List Modifier} :
    Advances (·.isSome = true) (memberModifier ms) c := by
  refine .peekKind_bind ?_
  split
  · exact .never (by simp)
  · next m hm =>
    split
    · exact .andThen (addModifier_advances (modifier?_eq_some.mp hm)) fun _ => .never id
    · exact .never (by simp)

theorem classModifier_advances {ms : List Modifier} :
    Advances (·.isSome = true) (classModifier ms) c := by
  refine .peekKind_bind ?_
  split
  · exact .never (by simp)
  · next m hm =>
    have hkind := modifier?_eq_some.mp hm
    split
    · exact .andThen (addModifier_advances hkind) fun _ => .never id
    · refine .seq (.still rfl) fun hcomplain => ?_
      cases hcomplain
      exact .andThen (.advance (hkind ▸ by simp : c.peek.kind ≠ .eof)) fun _ => .never id

/-- A round that goes on has read something. -/
theorem Looped.advances {step : σ → Parser (Option (β × σ))} (h : Looped step) (s : σ)
    (c : Cursor) : Advances (·.isSome = true) (step s) c := by
  have hexpr : ∀ n c, Orderly true [] (expression n) c := fun n _ => expression_orderly n
  cases h with
  | arguments n => exact round_advances (behind_advances (by simp) fun _ => (hexpr n _).loud)
  | selectors n start => exact round_advances (selector_advances (hexpr n))
  | links n tier => exact round_advances (link_advances (operandOf_orderly (hexpr n) tier))
  | declarators n demand =>
    exact round_advances (behind_advances (by simp) fun _ => (declarator_orderly (hexpr n)).loud)
  | assignments n => exact assignment_advances (hexpr n)
  | catches n =>
    have hstmt : ∀ c, Orderly false [] (statement n) c := fun _ => statement_orderly n
    exact round_advances (behind_advances (by simp) fun _ => catchClause_orderly hstmt)
  | block n => exact round_advances (bodyItem_advances (.statement n))
  | parameters =>
    refine round_advances (behind_advances (by simp) fun _ => ?_)
    exact .bind primitiveType_orderly fun _ => Orderly.name.map_bind
  | memberModifiers => exact memberModifier_advances
  | classModifiers => exact classModifier_advances
  | classBody limit => exact round_advances (bodyItem_advances (.member limit))
  | names => exact round_advances (behind_advances (by simp) fun _ => .name)
  | imports => exact round_advances nextImport_advances
  | attempts limit => exact attempt_advances

/-! ## The whole source -/

/-- The parser does not give up. -/
def Succeeds (p : Parser α) (c : Cursor) : Prop := ∃ a reports c', p c = ⟨.ok a, reports, c'⟩

theorem Succeeds.bind (h : Succeeds p c) (hrest : ∀ a c', Succeeds (f a) c') :
    Succeeds (p >>= f) c := by
  obtain ⟨a, reports, c₁, hp⟩ := h
  obtain ⟨b, own, c₂, hf⟩ := hrest a c₁
  rw [Succeeds, bind_of_ok hp, hf]
  exact ⟨b, reports ++ own, c₂, rfl⟩

theorem Succeeds.iterate {step : σ → Parser (Option (β × σ))} {s : σ}
    (h : ∀ s c, Succeeds (step s) c) : Succeeds (iterate step s) c := by
  induction hn : c.rest.length using Nat.strongRecOn generalizing s c with
  | ind _ ih =>
    obtain ⟨_ | ⟨b, s'⟩, reports, c₁, hstep⟩ := h s c
    · exact ⟨_, _, _, iterate_stop hstep⟩
    · by_cases hlt : c₁.rest.length < c.rest.length
      · obtain ⟨rest, own, c₂, hrest⟩ := ih _ (hn ▸ hlt) (s := s') rfl
        have hloop := iterate_next hstep hlt
        rw [hrest] at hloop
        exact ⟨_, _, _, hloop⟩
      · exact ⟨_, _, _, iterate_stuck hstep hlt⟩

theorem Succeeds.map {g : α → β} (h : Succeeds p c) : Succeeds (fun c => (p c).map g) c := by
  obtain ⟨a, reports, c', hp⟩ := h
  refine ⟨g a, reports, c', ?_⟩
  change (p c).map g = _
  rw [hp]
  rfl

theorem Succeeds.many {step : Parser (Option α)} (h : ∀ c, Succeeds step c) :
    Succeeds (many step) c :=
  .map (.iterate fun _ c => (h c).bind fun _ _ => ⟨_, _, _, rfl⟩)

theorem attempt_succeeds {search : ClassSearch} : Succeeds (attempt limit search) c := by
  have hfrom : ∀ again, Succeeds (attemptFrom limit again) c := by
    intro again
    refine .bind ?_ fun found c' => ?_
    · rw [Succeeds, locateClass_eq]
      split
      · split <;> exact ⟨_, _, _, rfl⟩
      · exact ⟨_, _, _, rfl⟩
    · split
      · refine (recover_ok .topLevel (classDecl limit) c').elim fun o h => ?_
        refine .bind ⟨o, h⟩ fun decl c' => ?_
        split <;> exact ⟨_, _, _, rfl⟩
      · exact ⟨_, _, _, rfl⟩
  cases search with
  | first => exact hfrom false
  | again => exact hfrom true
  | found => exact ⟨_, _, _, rfl⟩

theorem package?_succeeds : Succeeds package? c := by
  refine .bind ⟨_, _, _, rfl⟩ fun given c' => ?_
  split
  · exact recover_ok _ _ _
  · exact ⟨_, _, _, rfl⟩

theorem imports_succeeds : Succeeds imports c := by
  refine .bind (.many fun c => .bind ⟨_, _, _, rfl⟩ fun given c' => ?_) fun _ _ => ⟨_, _, _, rfl⟩
  split
  · exact .bind (recover_ok _ _ _) fun _ _ => ⟨_, _, _, rfl⟩
  · exact ⟨_, _, _, rfl⟩

/-- What is left behind the class is reported at its first token, and skipped. -/
theorem program_end (package : Option String) (imports : List String)
    (decl : Option (ClassDecl Location)) (c : Cursor) :
    ∃ c', (do
        unless ← atEnd do
          complain .sourceEnd
          skipToEnd
        return ⟨package, imports, decl⟩ : Parser (Program Location)) c =
      ⟨.ok ⟨package, imports, decl⟩, (c.rest.head?.map (.unexpected .sourceEnd)).toList, c'⟩ ∧
      c'.rest = [] := by
  cases hrest : c.rest with
  | nil =>
    refine ⟨c, ?_, hrest⟩
    simp [Bind.bind, atEnd, Reply.ok, Reply.andThen, Reply.after, atEnd_iff.mpr hrest, Pure.pure]
  | cons t rest =>
    refine ⟨c.toEnd, ?_, ?_⟩
    · have hgo : c.atEnd = false := by simp [Cursor.atEnd, hrest]
      simp [Bind.bind, atEnd, Reply.ok, Reply.andThen, Reply.after, hgo, Pure.pure, complain, peek,
        log, skipToEnd, peek_of_rest hrest]
    · rw [Cursor.toEnd, skip_rest, List.drop_length]

/-- The parser never gives up, and leaves nothing. -/
theorem program_ends (limit : Nat) (c : Cursor) :
    ∃ prog reports c', program limit c = ⟨.ok prog, reports, c'⟩ ∧ Reads c c.rest c' := by
  obtain ⟨package, r₁, c₁, hpackage⟩ := package?_succeeds (c := c)
  obtain ⟨imports, r₂, c₂, himports⟩ := imports_succeeds (c := c₁)
  obtain ⟨decl, r₃, c₃, hdecl⟩ : Succeeds (classDeclaration limit) c₂ :=
    .map (.iterate fun _ _ => attempt_succeeds)
  obtain ⟨c', hend, hrest⟩ := program_end package imports decl c₃
  have hprogram : ∃ reports, program limit c = ⟨.ok ⟨package, imports, decl⟩, reports, c'⟩ := by
    rw [program, bind_of_ok hpackage, bind_of_ok himports, bind_of_ok hdecl, hend]
    exact ⟨_, rfl⟩
  obtain ⟨reports, hprogram⟩ := hprogram
  obtain ⟨us, hreads, -⟩ := (program_orderly (c := c) limit).advances
  rw [hprogram] at hreads
  have hall := hreads.rest_eq
  rw [hrest, List.append_nil] at hall
  exact ⟨_, _, _, hprogram, hall ▸ hreads⟩

/-- What a parse is made of, down to the rounds of its loops. -/
inductive Production : {α : Type} → Parser α → Prop where
  | program (limit : Nat) : Production (program limit)
  | expression (n : Nat) : Production (expression n)
  | recovered {α : Type} {point : SyncPoint} {p : Parser α} (h : Recovered point p) : Production p
  | recover {α : Type} {point : SyncPoint} {p : Parser α} (h : Recovered point p) :
      Production (recover point p)
  | round {β σ : Type} {step : σ → Parser (Option (β × σ))} (h : Looped step) (s : σ) :
      Production (step s)

/-- The cursor never moves backwards. -/
theorem Production.forward (h : Production p) (c : Cursor) : ∃ us, Reads c us (p c).cursor := by
  have hforward : Advances (fun _ => False) p c := by
    cases h with
    | program limit => exact (program_orderly limit).advances
    | expression n => exact (expression_orderly n).loud.advances
    | recovered h => exact h.orderly.advances
    | recover h => exact h.orderly.recover.advances
    | round h s => exact (h.advances s c).imp fun _ hfalse => hfalse.elim
  obtain ⟨us, hreads, -⟩ := hforward
  exact ⟨us, hreads⟩

/-- As long as anything is left, recovery moves on. -/
theorem Recovered.moves {point : SyncPoint} (h : Recovered point p) (hrest : c.rest ≠ []) :
    ∃ t us, Reads c (t :: us) (recover point p c).cursor := by
  obtain ⟨o, reports, c', hrecover⟩ := recover_ok point p c
  obtain ⟨us, hreads, hne⟩ := (h.advances (c := c)).recover (P := fun _ => True) hrest
  obtain ⟨t, vs, rfl⟩ := List.exists_cons_of_ne_nil (hne o (by rw [hrecover]) trivial)
  exact ⟨t, vs, hreads⟩

/-- The loop without a bound gives what `iterate` gives, and nothing else. -/
theorem Looped.rounds {step : σ → Parser (Option (β × σ))} (h : Looped step) (s : σ) (c : Cursor) :
    ∃ n ≤ c.rest.length, ∀ m r, Rounds step m s c r ↔ m = n ∧ r = iterate step s c := by
  obtain ⟨n, hle, hrounds⟩ := rounds_iterate (s := s) (c := c) h.advances
  refine ⟨n, hle, fun m r => ⟨fun h' => h'.unique hrounds, ?_⟩⟩
  rintro ⟨rfl, rfl⟩
  exact hrounds

/-- **Parsing terminates.** Every list of tokens is read to its end. The cursor moves forward only,
recovery moves it on as long as anything is left, and every loop ends by itself, having gone round
at most once for each token; the search for a class stops in front of one. -/
theorem parsing_terminates :
    (∀ tokens, ∃ reports c', program maxNesting (.ofTokens tokens) =
        ⟨.ok (parse tokens).program, reports, c'⟩ ∧
      Reads (.ofTokens tokens) (tokens.filter (·.kind.isKept)) c') ∧
    (∀ {α : Type} {p : Parser α}, Production p → ∀ c, ∃ us, Reads c us (p c).cursor) ∧
    (∀ {α : Type} {point : SyncPoint} {p : Parser α}, Recovered point p → ∀ c, c.rest ≠ [] →
      ∃ t us, Reads c (t :: us) (recover point p c).cursor) ∧
    (∀ {β σ : Type} {step : σ → Parser (Option (β × σ))}, Looped step → ∀ s c,
      ∃ n ≤ c.rest.length, ∀ m r, Rounds step m s c r ↔ m = n ∧ r = iterate step s c) ∧
    ∀ again c reports c', locateClass again c = ⟨.ok true, reports, c'⟩ →
      c'.peek.kind.startsClass = true := by
  refine ⟨fun tokens => ?_, Production.forward, fun h c => h.moves, Looped.rounds, ?_⟩
  · obtain ⟨prog, reports, c', hprogram, hreads⟩ := program_ends maxNesting (.ofTokens tokens)
    refine ⟨reports, c', ?_, hreads⟩
    rw [parse, hprogram]
  · intro again c reports c' h
    exact startsClass_of_locateClass h

end Parser

end JavaSubset
