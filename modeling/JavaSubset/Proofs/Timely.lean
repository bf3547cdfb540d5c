import JavaSubset.Proofs.FirstReport
import JavaSubset.Proofs.Locality
import JavaSubset.Proofs.Soundness
import JavaSubset.Proofs.Viability

/-!
# Diagnostics in time

`Timely B p c` : from `c` on, the first diagnostic of the parser `p` comes in time.

* It is not early: the tokens in front of it satisfy `B`, which stands for "can still go on well".
* It is not late: those tokens and the one it points at settle that something is raised, whatever
  follows (`Doomed`). `Excused` diagnostics may be late.

Nor does what is accepted depend on more than the tokens that are read and the next one
(`Confirmed`). All combinators keep a parser timely, if `B` holds wherever they raise something.
-/

namespace JavaSubset

open Cursor Grammar

/-- The tokens `us` are ahead of both cursors, and the token before them is the same. -/
structure Shares (us : List Token) (c d : Cursor) : Prop extends Ahead us c d where
  last : c.last = d.last

section Shares

variable {c c' d d' : Cursor} {us v : List Token}

theorem Shares.peek_eq (h : Shares v c d) (hv : v ≠ []) : d.peek = c.peek :=
  h.toAhead.peek_eq hv

theorem Shares.after (h : Shares (us ++ v) c d) (hc : Reads c us c') (hd : Reads d us d') :
    Shares v c' d' :=
  ⟨h.toAhead.after hc hd, Parser.last_eq_of_reads hc hd fun _ => h.last⟩

theorem Shares.advance {t : Token} (h : Shares (t :: v) c d) : Shares v c.advance d.advance := by
  obtain ⟨hc, hd⟩ := h.toAhead.reads
  rw [← List.singleton_append] at h
  exact h.after hc hd

end Shares

/-! ## Excuses -/

/-- What may come late or point back, behind `us`: that nesting is too deep, that there is no class,
and that what stands behind a step can not be stepped. Then a statement starts with the step, and
another could start with `return`, which can not stand anywhere else
(`excused_assignmentTarget_iff`). -/
inductive Excused (B : List Token → Prop) (us : List Token) : Diagnostic → Prop where
  | nesting (t : Token) : Excused B us (.nestingTooDeep t)
  | noClass (t : Token) : Excused B us (.missingClass t)
  | preStep {t : Token} {step : Step} (operator : t.kind = .operator (.step step))
      (start : ∀ {w}, Word (.control .returnKw) w → B (us ++ [w])) :
      Excused B us (.unexpected .assignmentTarget t)

theorem Excused.imp {B B' : List Token → Prop} {us us' : List Token} {e : Diagnostic}
    (h : Excused B us e) (hB : ∀ {w}, B (us ++ [w]) → B' (us' ++ [w])) : Excused B' us' e := by
  cases h with
  | nesting t => exact .nesting t
  | noClass t => exact .noClass t
  | preStep operator start => exact .preStep operator fun hw => hB (start hw)

/-- A token that does not fit is excused only if it is a step, where a statement can start. -/
theorem Excused.of_unexpected {B : List Token → Prop} {us : List Token} {demand : Demand}
    {t : Token} (h : Excused B us (.unexpected demand t)) :
    (∃ step, t.kind = .operator (.step step)) ∧
      ∀ {w}, Word (.control .returnKw) w → B (us ++ [w]) := by
  generalize he : Diagnostic.unexpected demand t = e at h
  cases h with
  | nesting => simp [Diagnostic.unexpected, Diagnostic.nestingTooDeep] at he
  | noClass => simp [Diagnostic.unexpected, Diagnostic.missingClass] at he
  | @preStep t' step operator start =>
    have hkind : t.kind = t'.kind := by
      simp only [Diagnostic.unexpected, Diagnostic.mk.injEq] at he
      injection he.1
    exact ⟨⟨step, hkind.trans operator⟩, start⟩

namespace Parser

variable {α β σ : Type} {p q : Parser α} {f : α → Parser β} {a : α} {c c' d : Cursor}
  {us v : List Token} {B B' : List Token → Prop} {e : Diagnostic} {demand : Demand}
  {kind : Token.Kind}

/-! ## In time -/

/-- Something is raised, and first of all not that nesting is too deep. -/
def Balks (p : Parser α) (c : Cursor) : Prop := ∃ e, First p c e ∧ ∀ t, e ≠ .nestingTooDeep t

/-- Wherever the tokens `us` and the next one are ahead as they are at `c`, `p` accepts `us`. -/
def Confirmed (p : Parser α) (c : Cursor) (us : List Token) (a : α) : Prop :=
  ∀ ⦃v d⦄, v ≠ [] → Shares (us ++ v) c d → ∃ d', Accepts p d a d' ∧ Reads d us d'

/-- Wherever the tokens `us` and the next one are ahead as they are at `c`, `p` balks. -/
def Doomed (p : Parser α) (c : Cursor) (us : List Token) : Prop :=
  ∀ ⦃v d⦄, v ≠ [] → Shares (us ++ v) c d → Balks p d

structure Timely (B : List Token → Prop) (p : Parser α) (c : Cursor) : Prop where
  accepts : ∀ {a c'}, Accepts p c a c' → ∃ us, Reads c us c' ∧ Confirmed p c us a
  first : ∀ {e}, First p c e → ∃ us c₁, Reads c us c₁ ∧ e.loc = c₁.peek.loc ∧ B us ∧
    (Excused B us e ∨ Doomed p c us)

theorem Balks.imp {q : Parser β} (h : Balks p c) (raise : ∀ {e}, First p c e → First q d e) :
    Balks q d := by
  obtain ⟨e, hraised, hplain⟩ := h
  exact ⟨e, raise hraised, hplain⟩

theorem unexpected_ne_nestingTooDeep (demand : Demand) (t t' : Token) :
    Diagnostic.unexpected demand t ≠ .nestingTooDeep t' := by
  simp [Diagnostic.unexpected, Diagnostic.nestingTooDeep]

/-- A loop ends with its first round, or goes on behind it unless it reads nothing. -/
theorem accepts_iterate {step : σ → Parser (Option (β × σ))} {s s' : σ} {bs : List β} :
    Accepts (iterate step s) c (bs, s') c' ↔
      (Accepts (step s) c none c' ∧ bs = [] ∧ s' = s) ∨
        ∃ b s₁ c₁, Accepts (step s) c (some (b, s₁)) c₁ ∧
          if c₁.rest.length < c.rest.length then
            ∃ bs', bs = b :: bs' ∧ Accepts (iterate step s₁) c₁ (bs', s') c'
          else bs = [b] ∧ s' = s₁ ∧ c' = c₁ := by
  constructor
  · intro h
    obtain ⟨hstop, rfl, rfl⟩ | ⟨b, s₁, c₁, _, hstep, -, -⟩ := iterate_accepts_cases h
    · exact .inl ⟨hstop, rfl, rfl⟩
    · refine .inr ⟨b, s₁, c₁, hstep, ?_⟩
      unfold Accepts at h
      split
      · next hlt =>
        rw [iterate_next hstep hlt] at h
        obtain ⟨⟨bs', s''⟩, hrest, heq⟩ := Reply.map_eq_ok_iff.mp h
        cases heq
        exact ⟨bs', rfl, hrest⟩
      · next hstuck =>
        rw [iterate_stuck hstep hstuck] at h
        cases h
        exact ⟨rfl, rfl, rfl⟩
  · rintro (⟨hstop, rfl, rfl⟩ | ⟨b, s₁, c₁, hstep, hrest⟩)
    · exact accepts_iterate_stop hstop
    · split at hrest
      · next hlt =>
        obtain ⟨bs', rfl, hrest⟩ := hrest
        exact accepts_iterate_cons hstep hlt hrest
      · next hstuck =>
        obtain ⟨rfl, rfl, rfl⟩ := hrest
        exact iterate_stuck hstep hstuck

namespace Timely

theorem imp (h : Timely B' p c) (hB : ∀ {us}, B' us → B us) : Timely B p c where
  accepts := h.accepts
  first hfirst := by
    obtain ⟨us, c₁, hread, hloc, hus, hlate⟩ := h.first hfirst
    exact ⟨us, c₁, hread, hloc, hB hus, hlate.imp (·.imp hB) id⟩

/-- A parser is timely if it does the same as one that is, here and wherever the next token is the
same. -/
theorem congr (h : Timely B q c) (hc : p c = q c)
    (hd : ∀ {v d}, v ≠ [] → Shares v c d → p d = q d) : Timely B p c where
  accepts haccepts := by
    obtain ⟨us, hread, hconfirmed⟩ := h.accepts (hc.symm.trans haccepts)
    refine ⟨us, hread, fun v d hv hshares => ?_⟩
    obtain ⟨d', haccepts', hread'⟩ := hconfirmed hv hshares
    exact ⟨d', (hd (by simp [hv]) hshares).trans haccepts', hread'⟩
  first hfirst := by
    unfold First at hfirst
    rw [hc] at hfirst
    obtain ⟨us, c₁, hread, hloc, hus, hlate⟩ := h.first hfirst
    refine ⟨us, c₁, hread, hloc, hus, hlate.imp id fun hdoomed v d hv hshares => ?_⟩
    refine (hdoomed hv hshares).imp fun hraised => ?_
    unfold First
    rwa [hd (by simp [hv]) hshares]

/-! ## Sequence -/

theorem pure (a : α) : Timely B (Pure.pure a) c where
  accepts haccepts := by
    obtain ⟨rfl, rfl⟩ := accepts_pure.mp haccepts
    exact ⟨[], .nil c, fun v d _ _ => ⟨d, accepts_pure.mpr ⟨rfl, rfl⟩, .nil d⟩⟩
  first hfirst := absurd hfirst not_first_pure

theorem pure_bind (h : Timely B (f a) c) : Timely B (Pure.pure a >>= f) c := h

theorem bind (h : Timely B p c) (rest : ∀ {a c₁ ls}, Accepts p c a c₁ → Reads c ls c₁ →
      Timely (fun us => B (ls ++ us)) (f a) c₁) : Timely B (p >>= f) c where
  accepts haccepts := by
    obtain ⟨a, c₁, hfirst, hrest⟩ := accepts_bind.mp haccepts
    obtain ⟨ls, hread, hconfirmed⟩ := h.accepts hfirst
    obtain ⟨us, hread', hconfirmed'⟩ := (rest hfirst hread).accepts hrest
    refine ⟨ls ++ us, hread.trans hread', fun v d hv hshares => ?_⟩
    rw [List.append_assoc] at hshares
    obtain ⟨d₁, hfirst', hread₁⟩ := hconfirmed (by simp [hv]) hshares
    obtain ⟨d', hrest', hread₂⟩ := hconfirmed' hv (hshares.after hread hread₁)
    exact ⟨d', hfirst'.bind hrest', hread₁.trans hread₂⟩
  first hraised := by
    rcases first_bind.mp hraised with hraised | ⟨a, c₁, hfirst, hraised⟩
    · obtain ⟨us, c₁, hread, hloc, hus, hlate⟩ := h.first hraised
      refine ⟨us, c₁, hread, hloc, hus, hlate.imp id fun hdoomed v d hv hshares => ?_⟩
      exact (hdoomed hv hshares).imp (·.bind)
    · obtain ⟨ls, hread, hconfirmed⟩ := h.accepts hfirst
      obtain ⟨us, c₂, hread', hloc, hus, hlate⟩ := (rest hfirst hread).first hraised
      refine ⟨ls ++ us, c₂, hread.trans hread', hloc, hus, ?_⟩
      refine hlate.imp (·.imp fun hw => by simpa using hw) fun hdoomed v d hv hshares => ?_
      rw [List.append_assoc] at hshares
      obtain ⟨d₁, hfirst', hread₁⟩ := hconfirmed (by simp [hv]) hshares
      exact (hdoomed hv (hshares.after hread hread₁)).imp hfirst'.first_bind

/-- What is read first is a phrase of `L`. -/
theorem bind_phrase {g : α → σ} {L : Phrase σ} (h : Timely B p c) (sound : Sound p g L)
    (rest : ∀ {a c₁ ls}, L ls (g a) → Timely (fun us => B (ls ++ us)) (f a) c₁) :
    Timely B (p >>= f) c := by
  refine h.bind fun hfirst hread => ?_
  obtain ⟨us, hread', hus⟩ := sound hfirst
  obtain rfl := hread.unique hread'
  exact rest hus

/-- A part of a production: a phrase of `L`, of which each beginning is one of the whole. -/
theorem part {g : α → σ} {L : Phrase σ} (h : Timely (Begins L) p c) (sound : Sound p g L)
    (grow : ∀ {us}, Begins L us → B us)
    (rest : ∀ {a c₁ ls}, L ls (g a) → B ls → Timely (fun us => B (ls ++ us)) (f a) c₁) :
    Timely B (p >>= f) c :=
  (h.imp grow).bind_phrase sound fun hls => rest hls (grow (.of hls))

/-- The last part. -/
theorem last_part {g : α → β} {L : Phrase σ} (h : Timely (Begins L) p c)
    (grow : ∀ {us}, Begins L us → B us) : Timely B (do return g (← p)) c :=
  (h.imp grow).bind fun _ _ => pure _

theorem mapped {g : α → β} (h : Timely B p c) : Timely B (g <$> p) c := h.bind fun _ _ => pure _

/-- What does as `p` does, and gives something else. -/
theorem wrapped {q : Parser β} {g : α → β} (h : Timely B p c)
    (haccepts : ∀ {d b d'}, Accepts q d b d' ↔ ∃ a, Accepts p d a d' ∧ g a = b)
    (hfirst : ∀ {d e}, First q d e ↔ First p d e) : Timely B q c where
  accepts hwhole := by
    obtain ⟨a, hinner, rfl⟩ := haccepts.mp hwhole
    obtain ⟨us, hread, hconfirmed⟩ := h.accepts hinner
    refine ⟨us, hread, fun v d hv hshares => ?_⟩
    obtain ⟨d', hinner', hread'⟩ := hconfirmed hv hshares
    exact ⟨d', haccepts.mpr ⟨a, hinner', rfl⟩, hread'⟩
  first hraised := by
    obtain ⟨us, c₁, hread, hloc, hus, hlate⟩ := h.first (hfirst.mp hraised)
    refine ⟨us, c₁, hread, hloc, hus, hlate.imp id fun hdoomed v d hv hshares => ?_⟩
    exact (hdoomed hv hshares).imp hfirst.mpr

theorem map {g : α → β} (h : Timely B p c) : Timely B (fun c => (p c).map g) c :=
  h.wrapped Reply.map_eq_ok_iff first_map_reply

theorem recover {point : SyncPoint} (h : Timely B p c) : Timely B (recover point p) c :=
  h.wrapped accepts_recover first_recover

/-! ## Looking ahead and reading -/

theorem peek_bind {f : Token → Parser β} (h : Timely B (f c.peek) c) :
    Timely B (peek >>= f) c :=
  h.congr rfl fun {_ d} hv hshares => congrArg (f · d) (hshares.peek_eq hv)

theorem peekKind_bind {f : Token.Kind → Parser β} (h : Timely B (f c.peek.kind) c) :
    Timely B (peekKind >>= f) c :=
  h.congr rfl fun {_ d} hv hshares => congrArg (fun t : Token => f t.kind d) (hshares.peek_eq hv)

theorem sees_bind {f : Bool → Parser β} (h : Timely B (f (c.peek.kind = kind)) c) :
    Timely B (sees kind >>= f) c :=
  h.congr rfl fun {_ d} hv hshares =>
    congrArg (fun t : Token => f (t.kind = kind) d) (hshares.peek_eq hv)

theorem atEnd_bind {f : Bool → Parser β} (h : Timely B (f c.atEnd) c) :
    Timely B (atEnd >>= f) c :=
  h.congr rfl fun {_ d} hv hshares => congrArg (f · d) (hshares.toAhead.atEnd_eq hv)

theorem locationFrom_bind {f : Location → Parser β} {start : Token}
    (h : Timely B (f (c.locationFrom start)) c) : Timely B (locationFrom start >>= f) c := by
  refine h.congr rfl fun {v d} _ hshares => ?_
  change f (d.locationFrom start) d = _
  rw [Cursor.locationFrom, ← hshares.last]
  rfl

theorem advance (h : c.peek.kind ≠ .eof) : Timely B Parser.advance c where
  accepts haccepts := by
    obtain ⟨rfl, rfl⟩ := accepts_advance.mp haccepts
    refine ⟨[c.peek], reads_peek h, fun v d _ hshares => ?_⟩
    have hpeek := hshares.peek_eq (by simp)
    refine ⟨d.advance, accepts_advance.mpr ⟨hpeek, rfl⟩, ?_⟩
    rw [← hpeek] at h ⊢
    exact reads_peek h
  first hraised := by cases hraised

theorem advance_bind {f : Token → Parser β} (hkind : c.peek.kind = kind)
    (hkept : kind.isKept = true)
    (h : Timely (fun us => B (c.peek :: us)) (f c.peek) c.advance) :
    Timely B (Parser.advance >>= f) c := by
  have hread := reads_kind hkind hkept
  have hne : c.peek.kind ≠ .eof := by
    rw [hkind]
    rintro rfl
    cases hkept
  refine (advance hne).bind fun haccepts hread' => ?_
  obtain ⟨rfl, rfl⟩ := accepts_advance.mp haccepts
  rw [← hread.unique hread']
  exact h

theorem accept_bind {f : Bool → Parser β} (hkept : kind.isKept = true)
    (yes : c.peek.kind = kind → Timely (fun us => B (c.peek :: us)) (f true) c.advance)
    (no : c.peek.kind ≠ kind → Timely B (f false) c) : Timely B (accept kind >>= f) c := by
  by_cases hkind : c.peek.kind = kind
  · have hread := advance_bind (f := fun _ => f true) hkind hkept (yes hkind)
    refine hread.congr (bind_of_ok (accept_of_kind hkind)) fun {v d} hv hshares => ?_
    rw [← hshares.peek_eq hv] at hkind
    exact bind_of_ok (accept_of_kind hkind)
  · refine (no hkind).congr (bind_of_ok (accept_of_ne hkind)) fun {v d} hv hshares => ?_
    rw [← hshares.peek_eq hv] at hkind
    exact bind_of_ok (accept_of_ne hkind)

theorem located {p : Parser (Location → α)} (h : Timely B p c) : Timely B (located p) c :=
  peek_bind (h.bind fun _ _ => locationFrom_bind (pure _))

/-! ## Giving up -/

/-- What is raised at the next token, and depends on nothing else. -/
theorem raise {raised : Token → Diagnostic} (hB : B []) (hloc : ∀ t, (raised t).loc = t.loc)
    (hplain : ∀ t t', raised t ≠ .nestingTooDeep t') (haccepts : ∀ {a c'}, ¬ Accepts p c a c')
    (hfirst : ∀ {d}, d.peek = c.peek → First p d (raised d.peek)) : Timely B p c where
  accepts h := absurd h haccepts
  first h := by
    obtain rfl := h.unique (hfirst rfl)
    refine ⟨[], c, .nil c, hloc _, hB, .inr fun v d hv hshares => ?_⟩
    exact ⟨_, hfirst (hshares.peek_eq hv), hplain _⟩

theorem fail (hB : B []) : Timely B (Parser.fail demand : Parser α) c :=
  raise hB (fun _ => rfl) (unexpected_ne_nestingTooDeep demand) not_accepts_fail
    fun _ => first_fail.mpr rfl

theorem tooDeep (hB : B []) : Timely B (Parser.tooDeep : Parser α) c where
  accepts h := by simp [Accepts, Parser.tooDeep, Reply.error] at h
  first h := by
    obtain rfl := first_tooDeep.mp h
    exact ⟨[], c, .nil c, rfl, hB, .inl (.nesting _)⟩

/-- The token that was asked for is read, or `p` gives up here. -/
theorem demand_bind {f : Token → Parser β} (hB : B []) (hkept : kind.isKept = true)
    (hadmits : ∀ {found}, demand.expected.admits found = true → found = kind)
    (rest : c.peek.kind = kind → Timely (fun us => B (c.peek :: us)) (f c.peek) c.advance) :
    Timely B (expect demand >>= f) c := by
  by_cases h : demand.expected.admits c.peek.kind = true
  · have hread := advance_bind (hadmits h) hkept (rest (hadmits h))
    refine hread.congr (bind_of_ok (expect_of_admits h)) fun {v d} hv hshares => ?_
    rw [← hshares.peek_eq hv] at h
    exact bind_of_ok (expect_of_admits h)
  · refine raise hB (fun _ => rfl) (unexpected_ne_nestingTooDeep demand) ?_ fun hpeek => ?_
    · intro a c' haccepts
      exact h (accepts_expect_bind.mp haccepts).1
    · rw [← hpeek] at h
      rw [first_expect_bind, if_neg h]

theorem expect_bind {f : Token → Parser β} (hd : demand.expected = .token kind)
    (hkept : kind.isKept = true) (hB : B [])
    (rest : c.peek.kind = kind → Timely (fun us => B (c.peek :: us)) (f c.peek) c.advance) :
    Timely B (expect demand >>= f) c :=
  demand_bind hB hkept (kind_of_admits hd) rest

theorem name_bind {f : String → Parser β} (hd : demand.expected = .identifier) (hB : B [])
    (rest : c.peek.kind = .identifier →
      Timely (fun us => B (c.peek :: us)) (f c.peek.text) c.advance) :
    Timely B (Parser.name demand >>= f) c := by
  have hassoc : Parser.name demand >>= f = expect demand >>= fun t => f t.text := bind_assoc
  rw [hassoc]
  exact demand_bind hB rfl (identifier_of_admits hd) rest

theorem name (hd : demand.expected = .identifier) (hB : B []) : Timely B (Parser.name demand) c :=
  demand_bind hB rfl (identifier_of_admits hd) fun _ => pure _

theorem complain_bind {f : Unit → Parser β} (hB : B []) : Timely B (complain demand >>= f) c := by
  refine raise hB (fun _ => rfl) (unexpected_ne_nestingTooDeep demand) ?_
    fun _ => first_complain_bind.mpr rfl
  intro a c' haccepts
  obtain ⟨_, _, hcomplain, -⟩ := accepts_bind.mp haccepts
  exact not_accepts_complain hcomplain

/-- A token is read before something is reported about it. -/
theorem advance_log_bind {raised : Token → Diagnostic} {f : Token → Unit → Parser β}
    (hB : B []) (hloc : ∀ t, (raised t).loc = t.loc)
    (hplain : ∀ t t', raised t ≠ .nestingTooDeep t') :
    Timely B (Parser.advance >>= fun t => log (raised t) >>= f t) c := by
  refine raise hB hloc hplain ?_ fun _ => first_advance_bind.mpr (first_log_bind.mpr rfl)
  intro a c' haccepts
  obtain ⟨_, _, hlog, -⟩ := accepts_bind.mp (accepts_advance_bind.mp haccepts)
  exact not_accepts_log hlog

/-! ## Repetition -/

/-- The rounds of a loop from state `s` on. `P` says what the tokens read in the rounds before have
to do with the state. -/
theorem rounds {step : σ → Parser (Option (β × σ))} (P : σ → List Token → Prop)
    (round : ∀ {s ls c}, P s ls → Timely (fun us => B (ls ++ us)) (step s) c)
    (grow : ∀ {s ls us b s₁ c c₁}, P s ls → Accepts (step s) c (some (b, s₁)) c₁ →
      Reads c us c₁ → P s₁ (ls ++ us)) {s : σ} {ls : List Token} (hls : P s ls) :
    Timely (fun us => B (ls ++ us)) (iterate step s) c := by
  induction hn : c.rest.length using Nat.strongRecOn generalizing s ls c with
  | ind n ih =>
    have hround := round (c := c) hls
    constructor
    · rintro ⟨bs, s'⟩ c' haccepts
      obtain ⟨hstop, rfl, rfl⟩ | ⟨b, s₁, c₁, hstep, hrest⟩ := accepts_iterate.mp haccepts
      · obtain ⟨us, hread, hconfirmed⟩ := hround.accepts hstop
        refine ⟨us, hread, fun v d hv hshares => ?_⟩
        obtain ⟨d', hstop', hread'⟩ := hconfirmed hv hshares
        exact ⟨d', accepts_iterate_stop hstop', hread'⟩
      · obtain ⟨us, hread, hconfirmed⟩ := hround.accepts hstep
        -- a round reads as much from another cursor, so it is the last there if it is here
        have hlen := hread.length_eq
        split at hrest
        · next hlt =>
          obtain ⟨bs', rfl, hrest⟩ := hrest
          have hnext := ih _ (hn ▸ hlt) (c := c₁) (grow hls hstep hread) rfl
          obtain ⟨vs, hread', hconfirmed'⟩ := hnext.accepts hrest
          refine ⟨us ++ vs, hread.trans hread', fun v d hv hshares => ?_⟩
          rw [List.append_assoc] at hshares
          obtain ⟨d₁, hstep', hread₁⟩ := hconfirmed (by simp [hv]) hshares
          obtain ⟨d', hrest', hread₂⟩ := hconfirmed' hv (hshares.after hread hread₁)
          have hlen' := hread₁.length_eq
          exact ⟨d', accepts_iterate_cons hstep' (by omega) hrest', hread₁.trans hread₂⟩
        · next hstuck =>
          obtain ⟨rfl, rfl, rfl⟩ := hrest
          refine ⟨us, hread, fun v d hv hshares => ?_⟩
          obtain ⟨d', hstep', hread'⟩ := hconfirmed hv hshares
          have hlen' := hread'.length_eq
          refine ⟨d', accepts_iterate.mpr (.inr ⟨b, _, d', hstep', ?_⟩), hread'⟩
          rw [if_neg (by omega)]
          exact ⟨rfl, rfl, rfl⟩
    · intro e hraised
      rcases first_iterate.mp hraised with hraised | ⟨b, s₁, c₁, hstep, hlt, hraised⟩
      · obtain ⟨us, c₁, hread, hloc, hus, hlate⟩ := hround.first hraised
        refine ⟨us, c₁, hread, hloc, hus, hlate.imp id fun hdoomed v d hv hshares => ?_⟩
        exact (hdoomed hv hshares).imp fun hraised => first_iterate.mpr (.inl hraised)
      · obtain ⟨us, hread, hconfirmed⟩ := hround.accepts hstep
        have hnext := ih _ (hn ▸ hlt) (c := c₁) (grow hls hstep hread) rfl
        obtain ⟨vs, c₂, hread', hloc, hvs, hlate⟩ := hnext.first hraised
        refine ⟨us ++ vs, c₂, hread.trans hread', hloc, by simpa using hvs, ?_⟩
        refine hlate.imp (·.imp fun hw => by simpa using hw) fun hdoomed v d hv hshares => ?_
        rw [List.append_assoc] at hshares
        obtain ⟨d₁, hstep', hread₁⟩ := hconfirmed (by simp [hv]) hshares
        have hlen := hread.length_eq
        have hlen' := hread₁.length_eq
        refine (hdoomed hv (hshares.after hread hread₁)).imp fun hraised => ?_
        exact first_iterate.mpr (.inr ⟨b, s₁, d₁, hstep', by omega, hraised⟩)

theorem iterate {step : σ → Parser (Option (β × σ))} {s : σ} (P : σ → List Token → Prop)
    (start : P s []) (round : ∀ {s ls c}, P s ls → Timely (fun us => B (ls ++ us)) (step s) c)
    (grow : ∀ {s ls us b s₁ c c₁}, P s ls → Accepts (step s) c (some (b, s₁)) c₁ →
      Reads c us c₁ → P s₁ (ls ++ us)) : Timely B (iterate step s) c :=
  rounds P round grow start

theorem many {step : Parser (Option α)} (P : List Token → Prop) (start : P [])
    (round : ∀ {ls c}, P ls → Timely (fun us => B (ls ++ us)) step c)
    (grow : ∀ {ls us a c c₁}, P ls → Accepts step c (some a) c₁ → Reads c us c₁ → P (ls ++ us)) :
    Timely B (many step) c := by
  refine map (iterate (fun _ => P) start (fun hls => ?_) fun {_ _ _ _ _ _ _} hls hstep hread => ?_)
  · exact (round hls).bind fun _ _ => pure _
  · simp only [accepts_bind, accepts_pure] at hstep
    obtain ⟨o, _, hstep, ho, rfl⟩ := hstep
    obtain ⟨a, rfl, heq⟩ := Option.map_eq_some_iff.mp ho
    exact grow hls hstep hread

/-- The rounds of a loop read phrases of `L`. -/
theorem many_phrase {step : Parser (Option α)} {g : α → σ} {L : Phrase σ}
    (sound : ∀ {c a c'}, Accepts step c (some a) c' → ∃ us, Reads c us c' ∧ L us (g a))
    (round : ∀ {ls as c}, Repeated L ls as → Timely (fun us => B (ls ++ us)) step c) :
    Timely B (Parser.many step) c := by
  refine many (fun ls => ∃ as, Repeated L ls as) ⟨[], .nil⟩ ?_ ?_
  · rintro ls c ⟨as, hls⟩
    exact round hls
  · rintro ls us a c c₁ ⟨as, hls⟩ hstep hread
    obtain ⟨us', hread', hus⟩ := sound hstep
    obtain rfl := hread.unique hread'
    exact ⟨_, hls.snoc hus⟩

theorem bodyOf {point : SyncPoint} {g : α → σ} {L : Phrase σ} (sound : Sound p g L)
    (round : ∀ {ls as c}, Repeated L ls as → Timely (fun us => B (ls ++ us)) p c) :
    Timely B (Parser.bodyOf point p) c := by
  refine (many (fun ls => ∃ as, Repeated L ls as) ⟨[], .nil⟩ ?_ ?_).bind fun _ _ => pure _
  · rintro ls c ⟨as, hls⟩
    refine atEnd_bind (sees_bind ?_)
    split
    · exact pure _
    · exact (round hls).recover.bind fun _ _ => pure _
  · rintro ls us o c c₁ ⟨as, hls⟩ hstep hread
    simp only [bodyItem, accepts_atEnd_bind, accepts_sees_bind] at hstep
    split at hstep
    · simp at hstep
    · simp only [accepts_bind, accepts_recover, accepts_pure, Option.some.injEq] at hstep
      obtain ⟨_, _, ⟨a, ha, rfl⟩, rfl, rfl⟩ := hstep
      obtain ⟨us', hread', hus⟩ := sound ha
      obtain rfl := hread.unique hread'
      exact ⟨_, hls.snoc hus⟩

/-! ## The token after the next -/

/-- To look at the token after the next is safe where the next one is read in any case. -/
theorem peekNextKind_bind {f : Token.Kind → Parser β} (h : Timely B (f c.peekNext.kind) c)
    (hreads : ∀ {a}, ¬ Accepts (f c.peekNext.kind) c a c)
    (hstarts : ¬ Doomed (f c.peekNext.kind) c []) : Timely B (peekNextKind >>= f) c := by
  -- where one token is read and the next one is the same, so is the token after the first
  have hsame : ∀ {us v d}, us ≠ [] → v ≠ [] → Shares (us ++ v) c d →
      (peekNextKind >>= f) d = f c.peekNext.kind d := by
    intro us v d hus hv hshares
    obtain ⟨t, us, rfl⟩ := List.exists_cons_of_ne_nil hus
    have hahead : Ahead (us ++ v) c.advance d.advance := hshares.toAhead.advance
    change f d.peekNext.kind d = _
    rw [Cursor.peekNext_eq, Cursor.peekNext_eq, hahead.peek_eq (by simp [hv])]
  constructor
  · intro a c' haccepts
    obtain ⟨us, hread, hconfirmed⟩ := h.accepts (accepts_peekNextKind_bind.mp haccepts)
    refine ⟨us, hread, fun v d hv hshares => ?_⟩
    have hus : us ≠ [] := by
      rintro rfl
      obtain rfl := hread.of_nil
      exact hreads haccepts
    obtain ⟨d', haccepts', hread'⟩ := hconfirmed hv hshares
    exact ⟨d', (hsame hus hv hshares).trans haccepts', hread'⟩
  · intro e hraised
    obtain ⟨us, c₁, hread, hloc, hB, hlate⟩ := h.first (first_peekNextKind_bind.mp hraised)
    refine ⟨us, c₁, hread, hloc, hB, hlate.imp id fun hdoomed v d hv hshares => ?_⟩
    have hus : us ≠ [] := by
      rintro rfl
      exact hstarts hdoomed
    refine (hdoomed hv hshares).imp fun hraised => ?_
    unfold First
    rwa [hsame hus hv hshares]

end Timely

end Parser

end JavaSubset
