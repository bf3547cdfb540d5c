import JavaSubset.Proofs.Accepts
import JavaSubset.Proofs.Bodies

/-!
# The first diagnostic

`Parser.First p c e` : from `c` on the parser `p` raises `e` before anything else. Then it does not
accept (`First.not_accepts`). As in `Accepts` each combinator has one equivalence:

* `first_bind`, `first_located`, `first_recover`, `first_expect`, ... : what runs first raises
  first;
* `first_iterate`, `first_many`, `first_bodyOf` : the first round of a loop, or a later one behind
  an accepted first;
* `parse_head?` : what `parse` shows first.
-/

namespace JavaSubset

open Cursor

namespace Parser

variable {α β σ : Type} {p : Parser α} {f : α → Parser β} {a : α} {c c' c₁ : Cursor}
  {e : Diagnostic} {kind : Token.Kind} {t : Token} {demand : Demand}

def First (p : Parser α) (c : Cursor) (e : Diagnostic) : Prop := (p c).raised.head? = some e

theorem raised_eq_nil : (p c).raised = [] ↔ ∃ a c', Accepts p c a c' := by
  unfold Accepts
  rcases p c with ⟨⟨d⟩ | ⟨a⟩, reports, c₁⟩ <;> simp [Reply.raised]

theorem First.not_accepts (h : First p c e) : ¬ Accepts p c a c' := by
  intro haccepts
  rw [First, raised_eq_nil.mpr ⟨a, c', haccepts⟩] at h
  cases h

theorem First.unique {e' : Diagnostic} (h : First p c e) (h' : First p c e') : e = e' := by
  unfold First at h h'
  rw [h] at h'
  exact Option.some.inj h'

/-! ## Sequence -/

@[simp] theorem not_first_pure : ¬ First (pure a) c e := by
  simp [First, Pure.pure, Reply.ok, Reply.raised]

theorem first_bind :
    First (p >>= f) c e ↔ First p c e ∨ ∃ a c₁, Accepts p c a c₁ ∧ First (f a) c₁ e := by
  unfold First Accepts
  rcases hp : p c with ⟨⟨d⟩ | ⟨a⟩, _ | ⟨r, reports⟩, c₁⟩
  · simp [bind_of_error hp, Reply.raised]
  · simp [bind_of_error hp, Reply.raised]
  · simp [bind_of_ok hp, and_assoc]
  · simp [bind_of_ok hp]

theorem First.bind (h : First p c e) : First (p >>= f) c e := first_bind.mpr (.inl h)

theorem Accepts.first_bind (h : Accepts p c a c₁) (h' : First (f a) c₁ e) :
    First (p >>= f) c e :=
  Parser.first_bind.mpr (.inr ⟨a, c₁, h, h'⟩)

theorem first_map_reply {g : α → β} : First (fun c => (p c).map g) c e ↔ First p c e := by
  change ((p c).map g).raised.head? = some e ↔ _
  rw [Reply.raised_map, First]

theorem first_map_bind {g : α → β} : First (do return g (← p)) c e ↔ First p c e := by
  rw [first_bind]
  simp

theorem first_located {p : Parser (Location → α)} : First (located p) c e ↔ First p c e := by
  change First (p >>= fun node => locationFrom c.peek >>= fun loc => pure (node loc)) c e ↔ _
  have hrest : ∀ {node : Location → α} {c₁ : Cursor},
      ¬ First (locationFrom c.peek >>= fun loc => pure (node loc)) c₁ e :=
    fun {node c₁} => not_first_pure (a := node (c₁.locationFrom c.peek))
  simp [first_bind, hrest]

/-! ## Looking ahead and reading -/

@[simp] theorem first_pure_bind : First (pure a >>= f) c e ↔ First (f a) c e := Iff.rfl

@[simp] theorem first_peek_bind {f : Token → Parser β} :
    First (peek >>= f) c e ↔ First (f c.peek) c e := Iff.rfl

@[simp] theorem first_peekKind_bind {f : Token.Kind → Parser β} :
    First (peekKind >>= f) c e ↔ First (f c.peek.kind) c e := Iff.rfl

@[simp] theorem first_peekNextKind_bind {f : Token.Kind → Parser β} :
    First (peekNextKind >>= f) c e ↔ First (f c.peekNext.kind) c e := Iff.rfl

@[simp] theorem first_atEnd_bind {f : Bool → Parser β} :
    First (atEnd >>= f) c e ↔ First (f c.atEnd) c e := Iff.rfl

@[simp] theorem first_sees_bind {f : Bool → Parser β} :
    First (sees kind >>= f) c e ↔ First (f (c.peek.kind = kind)) c e := Iff.rfl

@[simp] theorem first_advance_bind {f : Token → Parser β} :
    First (advance >>= f) c e ↔ First (f c.peek) c.advance e := Iff.rfl

@[simp] theorem first_accept_bind {f : Bool → Parser β} :
    First (accept kind >>= f) c e ↔
      if c.peek.kind = kind then First (f true) c.advance e else First (f false) c e := by
  by_cases h : c.peek.kind = kind
  · rw [First, bind_of_ok (accept_of_kind h), if_pos h]
    rfl
  · rw [First, bind_of_ok (accept_of_ne h), if_neg h]
    rfl

@[simp] theorem first_fail :
    First (fail demand : Parser α) c e ↔ e = .unexpected demand c.peek := by
  simp [First, fail, Reply.error, Reply.raised, eq_comm]

@[simp] theorem first_tooDeep : First (tooDeep : Parser α) c e ↔ e = .nestingTooDeep c.peek := by
  simp [First, tooDeep, Reply.error, Reply.raised, eq_comm]

@[simp] theorem first_expect :
    First (expect demand) c e ↔
      ¬ demand.expected.admits c.peek.kind = true ∧ e = .unexpected demand c.peek := by
  by_cases h : demand.expected.admits c.peek.kind = true
  · simp [First, expect_of_admits h, h]
  · simp [First, expect_of_not_admits h, h, Reply.raised, eq_comm]

theorem first_expect_bind {f : Token → Parser β} :
    First (expect demand >>= f) c e ↔
      if demand.expected.admits c.peek.kind = true then First (f c.peek) c.advance e
      else e = .unexpected demand c.peek := by
  rw [first_bind]
  by_cases h : demand.expected.admits c.peek.kind = true <;> simp [h, and_assoc]

theorem first_name_bind {f : String → Parser β} :
    First (name demand >>= f) c e ↔
      if demand.expected.admits c.peek.kind = true then First (f c.peek.text) c.advance e
      else e = .unexpected demand c.peek := by
  have hassoc : name demand >>= f = expect demand >>= fun t => f t.text := bind_assoc
  rw [hassoc, first_expect_bind]

/-- The token that was asked for is there. -/
theorem first_expect_kind {f : Token → Parser β} (hd : demand.expected = .token kind)
    (hkind : c.peek.kind = kind) (h : First (f c.peek) c.advance e) :
    First (expect demand >>= f) c e := by
  rwa [first_expect_bind, if_pos (by simp [hd, Expected.admits, hkind])]

theorem first_name_identifier {f : String → Parser β} (hd : demand.expected = .identifier)
    (hkind : c.peek.kind = .identifier) (h : First (f c.peek.text) c.advance e) :
    First (name demand >>= f) c e := by
  rwa [first_name_bind, if_pos (by simp [hd, Expected.admits, hkind])]

/-! ## Reports -/

@[simp] theorem first_log_bind {d : Diagnostic} {f : Unit → Parser β} :
    First (log d >>= f) c e ↔ e = d := by
  have hlog : First (log d) c e ↔ e = d := by simp [First, log, eq_comm]
  rw [first_bind, hlog]
  simp

@[simp] theorem first_complain_bind {f : Unit → Parser β} :
    First (complain demand >>= f) c e ↔ e = .unexpected demand c.peek :=
  first_log_bind

theorem first_recover {point : SyncPoint} : First (recover point p) c e ↔ First p c e := by
  rw [First, raised_recover, First]

/-! ## Repetition -/

section Iterate

variable {step : σ → Parser (Option (β × σ))} {s : σ}

theorem first_iterate :
    First (iterate step s) c e ↔ First (step s) c e ∨
      ∃ b s₁ c₁, Accepts (step s) c (some (b, s₁)) c₁ ∧ c₁.rest.length < c.rest.length ∧
        First (iterate step s₁) c₁ e := by
  unfold First Accepts
  rcases hstep : step s c with ⟨⟨d⟩ | ⟨_ | ⟨b, s₁⟩⟩, reports, c₁⟩
  · simp [iterate_error hstep, Reply.raised]
  · simp [iterate_stop hstep]
  · by_cases hlt : c₁.rest.length < c.rest.length
    · rw [iterate_next hstep hlt]
      cases reports with
      | nil => simp [hlt, and_assoc]
      | cons r reports => simp
    · rw [iterate_stuck hstep hlt]
      cases reports with
      | nil => simp [hlt]
      | cons r reports => simp

end Iterate

theorem first_many {step : Parser (Option α)} :
    First (many step) c e ↔ First step c e ∨
      ∃ a c₁, Accepts step c (some a) c₁ ∧ c₁.rest.length < c.rest.length ∧
        First (many step) c₁ e := by
  have hloop : ∀ {c}, First (many step) c e ↔
      First (iterate (fun _ => do return (← step).map (·, ())) ()) c e := first_map_reply
  rw [hloop, first_iterate, first_map_bind]
  simp only [hloop, accepts_bind, accepts_pure]
  constructor
  · rintro (h | ⟨a, _, c₁, ⟨o, _, hstep, ho, rfl⟩, hlt, hrest⟩)
    · exact .inl h
    · obtain ⟨a', rfl, heq⟩ := Option.map_eq_some_iff.mp ho
      cases heq
      exact .inr ⟨_, _, hstep, hlt, hrest⟩
  · rintro (h | ⟨a, c₁, hstep, hlt, hrest⟩)
    · exact .inl h
    · exact .inr ⟨a, (), c₁, ⟨_, _, hstep, rfl, rfl⟩, hlt, hrest⟩

theorem first_bodyItem {point : SyncPoint} :
    First (bodyItem point p) c e ↔
      c.rest ≠ [] ∧ c.peek.kind ≠ .punctuation .rbrace ∧ First p c e := by
  by_cases hstop : c.rest = [] ∨ c.peek.kind = .punctuation .rbrace
  · rw [First, bodyItem_stop hstop]
    rcases hstop with hrest | hbrace
    · simp [hrest]
    · simp [hbrace]
  · obtain ⟨hrest, hbrace⟩ := not_or.mp hstop
    rw [First, bodyItem_next hrest hbrace, Reply.raised_map, raised_recover]
    simp [hrest, hbrace, First]

theorem first_bodyOf {point : SyncPoint} :
    First (bodyOf point p) c e ↔ First (many (bodyItem point p)) c e := first_map_bind

end Parser

/-! ## Whole sources -/

theorem Diagnostic.head?_withoutCascades (ds : List Diagnostic) :
    (withoutCascades ds).head? = ds.head? := by
  cases ds <;> rfl

theorem parse_head? (tokens : List Token) (e : Diagnostic) :
    (parse tokens).diagnostics.head? = some e ↔
      Parser.First (Parser.program maxNesting) (.ofTokens tokens) e := by
  rw [parse_diagnostics, Diagnostic.head?_withoutCascades, Parser.First]

end JavaSubset
