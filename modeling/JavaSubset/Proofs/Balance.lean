import JavaSubset.Proofs.Braces
import JavaSubset.Proofs.Walks

/-!
# Productions keep braces balanced

`Travels nested c us c'` : the tokens `us` lead from `c` to `c'`; on the way no brace is closed that
was not opened, and all are closed in the end unless nothing is left to read. Such ways can be
joined (`Travels.trans`), an error is followed by one (`travels_synchronize`), and everything that
walks goes one (`Walks.goes`).

* `bodyOf_stops` : the loop over a body ends in front of a closing brace or at the end;
* `block_cases` : so a block is read up to the brace that closes it, or to the end.
-/

namespace JavaSubset

open Cursor

/-! ## Ways -/

structure Travels (nested : Bool) (c : Cursor) (us : List Token) (c' : Cursor) : Prop where
  reads : Reads c us c'
  level : Level us
  even : depth us = 0 ∨ c'.rest = []
  flat : nested = false → ∀ t ∈ us, t.kind.isPlain false = true

section Travels

variable {nested : Bool} {c c₁ c₂ : Cursor} {us vs : List Token} {point : SyncPoint}

theorem Travels.refl (c : Cursor) : Travels nested c [] c :=
  ⟨.nil c, level_nil, .inl rfl, by simp⟩

theorem Travels.trans (h : Travels nested c us c₁) (h' : Travels nested c₁ vs c₂) :
    Travels nested c (us ++ vs) c₂ where
  reads := h.reads.trans h'.reads
  level := h.level.trans h'.level
  even := by
    rcases h.even with heven | hend
    · rw [depth_append, heven, Int.zero_add]
      exact h'.even
    · obtain ⟨rfl, rfl⟩ := h'.reads.eq_nil hend
      exact .inr hend
  flat hflat t ht := by
    rcases List.mem_append.mp ht with ht | ht
    · exact h.flat hflat t ht
    · exact h'.flat hflat t ht

/-- All braces are closed before a token that is not read, unless more were closed than opened. -/
theorem Travels.even_of_ahead (h : Travels nested c us c₁) (hahead : vs <+: c₁.rest)
    (hdepth : depth (us ++ vs) ≤ 0) : depth us = 0 := by
  rcases h.even with heven | hend
  · exact heven
  · rw [hend, List.prefix_nil] at hahead
    rw [hahead, List.append_nil] at hdepth
    have := h.level.depth_nonneg
    omega

theorem weight_of_isPlain {kind : Token.Kind} (h : kind.isPlain nested = true) :
    kind.weight = 0 := by
  apply weight_of_ne
  · rintro rfl
    cases h
  · rintro rfl
    cases h

theorem isPlain_false_of {kind : Token.Kind} (h : kind.isPlain nested = true)
    (hnested : nested = false) : kind.isPlain false = true := by
  rwa [hnested] at h

theorem travels_one {t : Token} {rest : List Token} (h : c.rest = t :: rest)
    (hweight : t.kind.weight = 0) (hflat : nested = false → t.kind.isPlain false = true) :
    Travels nested c [t] c.advance where
  reads := .one h
  level := level_of_weight (by simpa using hweight)
  even := .inl (by simpa using hweight)
  flat hnested := by simpa using hflat hnested

theorem travels_synchronize (c : Cursor) (point : SyncPoint) :
    Travels true c (c.rest.take (point.skip 0 c.rest)) (c.synchronize point) := by
  have hskip := SyncPoint.skip_leaves point 0 c.rest
  have hreads : Reads c _ (c.synchronize point) := reads_skip hskip.inside
  refine ⟨hreads, fun m => ?_, ?_, by simp⟩
  · rw [List.take_take]
    exact hskip.level _ (Nat.min_le_right _ _)
  · rcases hskip.even with heven | hend
    · exact .inl heven
    · right
      have hlen := hreads.length_eq
      rw [hend, List.take_length] at hlen
      exact List.length_eq_zero_iff.mp (by omega)

/-- Where nothing is skipped no block opens. -/
theorem ne_lbrace_of_skip {t : Token} {rest : List Token} (h : point.skip 0 (t :: rest) = 0) :
    t.kind ≠ .punctuation .lbrace := by
  intro hopen
  have hresume : point.resumesAt (.punctuation .lbrace) = false := by
    cases point <;> rfl
  rw [SyncPoint.skip, hopen, hresume] at h
  simp at h

end Travels

namespace Parser

variable {α β : Type} {p : Parser α} {point : SyncPoint} {c c' : Cursor} {nested eats : Bool}
  {seen : List Token}

/-! ## One way for every walk -/

/-- From `c` on `p` goes a way, and if `eats` it does not succeed on an empty one. -/
def Goes (nested eats : Bool) (p : Parser α) (c : Cursor) : Prop :=
  ∃ us, Travels nested c us (p c).cursor ∧
    (eats = true → ∀ a, (p c).outcome = .ok a → us ≠ [])

theorem Goes.travels {us : List Token} {o : Except Diagnostic α} {reports : List Diagnostic}
    (h : Goes nested eats p c) (hp : p c = ⟨o, reports, c'⟩) (hreads : Reads c us c') :
    Travels nested c us c' := by
  obtain ⟨us', htravels, -⟩ := h
  rw [hp] at htravels
  rwa [hreads.unique htravels.reads]

theorem Goes.ne_nil {us : List Token} {a : α} {reports : List Diagnostic}
    (h : Goes nested true p c) (hp : p c = ⟨.ok a, reports, c'⟩) (hreads : Reads c us c') :
    us ≠ [] := by
  obtain ⟨us', htravels, heats⟩ := h
  rw [hp] at htravels heats
  rw [hreads.unique htravels.reads]
  exact heats rfl a rfl

theorem goes_still (hcursor : (p c).cursor = c) : Goes nested false p c := by
  refine ⟨[], ?_, by simp⟩
  rw [hcursor]
  exact .refl c

/-- After an error at least one token is read. -/
theorem recover_goes (point : SyncPoint) (h : Goes true true p c) (hrest : c.rest ≠ [])
    (hbrace : c.peek.kind ≠ .punctuation .rbrace) :
    ∃ us, Travels true c us (recover point p c).cursor ∧ us ≠ [] := by
  obtain ⟨us, htravels, heats⟩ := h
  rcases hp : p c with ⟨⟨d⟩ | ⟨a⟩, reports, c₁⟩
  · rw [hp] at htravels
    have hsync := htravels.trans (travels_synchronize c₁ point)
    rw [recover_error point hp hsync.reads]
    by_cases hnone : us ++ c₁.rest.take (point.skip 0 c₁.rest) = []
    · -- nothing was read: the token that is read now opens no block
      rw [if_pos hnone]
      obtain ⟨rfl, htake⟩ := List.append_eq_nil_iff.mp hnone
      have hc₁ : c₁ = c := htravels.reads.of_nil
      rw [hc₁] at htake
      cases hc : c.rest with
      | nil => exact absurd hc hrest
      | cons t rest =>
        rw [hc] at htake
        have hskip : point.skip 0 (t :: rest) = 0 := by
          rcases List.take_eq_nil_iff.mp htake with hzero | hnil
          · exact hzero
          · cases hnil
        rw [peek_of_rest hc] at hbrace
        refine ⟨[t], travels_one hc (weight_of_ne (ne_lbrace_of_skip hskip) hbrace) (by simp), ?_⟩
        simp
    · rw [if_neg hnone]
      exact ⟨_, hsync, hnone⟩
  · simp only [recover, hp]
    rw [hp] at htravels heats
    exact ⟨us, htravels, heats rfl a rfl⟩

/-- The loop over a body ends in front of a closing brace or at the end. -/
theorem bodyOf_stops (point : SyncPoint) (h : ∀ c, Goes true true p c) (c : Cursor) :
    ∃ items, (bodyOf point p c).outcome = .ok items ∧
      ((bodyOf point p c).cursor.rest = [] ∨
        (bodyOf point p c).cursor.peek.kind = .punctuation .rbrace) := by
  induction hn : c.rest.length using Nat.strongRecOn generalizing c with
  | ind n ih =>
    by_cases hstop : c.rest = [] ∨ c.peek.kind = .punctuation .rbrace
    · rw [bodyOf_stop hstop]
      exact ⟨[], rfl, hstop⟩
    · rw [not_or] at hstop
      obtain ⟨o, reports, c₁, hrecover⟩ := recover_ok point p c
      obtain ⟨us, htravels, hne⟩ := recover_goes point (h c) hstop.1 hstop.2
      rw [hrecover] at htravels
      have hlt : c₁.rest.length < c.rest.length := by
        cases us with
        | nil => exact absurd rfl hne
        | cons t us => exact htravels.reads.progress
      obtain ⟨items, hok, hend⟩ := ih _ (hn ▸ hlt) c₁ rfl
      rw [bodyOf_cons hstop.1 hstop.2 hrecover hlt]
      refine ⟨o.toList ++ items, ?_, hend⟩
      simp [Reply.after, Reply.map, hok, Except.map]

/-! ## Bodies in braces -/

/-- From the brace at `c` on all is read up to `c'`, in front of the one that closes it. -/
def ReadsClosed (c c' : Cursor) : Prop :=
  ∃ us, Reads c (c.peek :: us) c' ∧ Balanced us ∧ c'.peek.kind = .punctuation .rbrace

/-- From the brace at `c` on all is read to the end, and it is not closed. -/
def ReadsOpen (c c' : Cursor) : Prop :=
  ∃ us, Reads c (c.peek :: us) c' ∧ Level us ∧ c'.rest = []

theorem body_cases (items : ∀ c, Goes true true p c)
    (body : Goes true false (bodyOf point p) c.advance)
    (hopen : c.peek.kind = .punctuation .lbrace) :
    ∃ as reports c', bodyOf point p c.advance = ⟨.ok as, reports, c'⟩ ∧
      (ReadsClosed c c' ∨ ReadsOpen c c') := by
  obtain ⟨as, hok, hstop⟩ := bodyOf_stops point items c.advance
  obtain ⟨us, htravels, -⟩ := body
  rcases hbody : bodyOf point p c.advance with ⟨o, reports, c'⟩
  rw [hbody] at hok hstop htravels
  simp only at hok hstop htravels
  refine ⟨as, reports, c', by rw [hok], ?_⟩
  have hreads : Reads c (c.peek :: us) c' := (reads_kind hopen rfl).trans htravels.reads
  rcases hstop with hend | hclose
  · exact .inr ⟨us, hreads, htravels.level, hend⟩
  · refine .inl ⟨us, hreads, ⟨htravels.level, ?_⟩, hclose⟩
    rcases htravels.even with heven | hend
    · exact heven
    · rw [peek_of_nil hend, c'.eof_kind] at hclose
      cases hclose

theorem ReadsClosed.travels (h : ReadsClosed c c') (hopen : c.peek.kind = .punctuation .lbrace) :
    ∃ us, Travels true c us c'.advance ∧ us ≠ [] := by
  obtain ⟨us, hreads, hbalanced, hclose⟩ := h
  have hall := hbalanced.enclose hopen hclose
  exact ⟨_, ⟨hreads.trans (reads_kind hclose rfl), hall.level, .inl hall.even, by simp⟩, by simp⟩

theorem ReadsOpen.travels (h : ReadsOpen c c') (hopen : c.peek.kind = .punctuation .lbrace) :
    ∃ us, Travels true c us c' ∧ us ≠ [] := by
  obtain ⟨us, hreads, hlevel, hend⟩ := h
  exact ⟨_, ⟨hreads, hlevel.cons hopen, .inr hend, by simp⟩, by simp⟩

/-- A block is read up to the brace that closes it, or given up at the end. -/
theorem block_cases {stmt : Parser (Stmt Location)} {demand : Demand}
    (items : ∀ c, Goes true true stmt c) (body : ∀ c, Goes true false (bodyOf .statement stmt) c)
    (opens : demand.expected = .token (.punctuation .lbrace))
    (hopen : c.peek.kind = .punctuation .lbrace) :
    ∃ as reports c', bodyOf .statement stmt c.advance = ⟨.ok as, reports, c'⟩ ∧
      ((ReadsClosed c c' ∧ block stmt demand c = ⟨.ok as, reports, c'.advance⟩) ∨
        (ReadsOpen c c' ∧
          block stmt demand c = ⟨.error (.unexpected .blockEnd c'.eof), reports, c'⟩)) := by
  have hadmits : demand.expected.admits c.peek.kind = true := by
    simp [opens, Expected.admits, hopen]
  obtain ⟨as, reports, c', hbody, hcases⟩ := body_cases items (body _) hopen
  refine ⟨as, reports, c', hbody, ?_⟩
  have hblock : block stmt demand c = ((expect .blockEnd c').map fun _ => as).after reports := by
    rw [block, bind_of_ok (expect_of_admits hadmits), bind_of_ok hbody, bind_pure, Reply.after_nil]
  rcases hcases with hclosed | hleft
  · refine .inl ⟨hclosed, ?_⟩
    obtain ⟨us, -, -, hclose⟩ := hclosed
    rw [hblock, expect_of_admits (by rw [hclose]; rfl)]
    simp [Reply.map, Reply.after, Except.map]
  · refine .inr ⟨hleft, ?_⟩
    obtain ⟨us, -, -, hend⟩ := hleft
    rw [hblock, expect_of_not_admits (by rw [peek_of_nil hend, c'.eof_kind]; decide),
      peek_of_nil hend]
    simp [Reply.map, Reply.after, Except.map]

theorem block_goes {stmt : Parser (Stmt Location)} {demand : Demand}
    (items : ∀ c, Goes true true stmt c) (body : ∀ c, Goes true false (bodyOf .statement stmt) c)
    (opens : demand.expected = .token (.punctuation .lbrace)) :
    Goes true eats (block stmt demand) c := by
  by_cases hopen : c.peek.kind = .punctuation .lbrace
  · obtain ⟨as, reports, c', -, ⟨hclosed, hblock⟩ | ⟨hleft, hblock⟩⟩ :=
      block_cases items body opens hopen
    · obtain ⟨us, htravels, hne⟩ := hclosed.travels hopen
      exact ⟨us, by rwa [hblock], fun _ _ _ => hne⟩
    · obtain ⟨us, htravels, hne⟩ := hleft.travels hopen
      exact ⟨us, by rwa [hblock], fun _ _ _ => hne⟩
  · have hadmits : ¬ demand.expected.admits c.peek.kind = true := by
      simpa [opens, Expected.admits] using Ne.symm hopen
    have hblock : block stmt demand c = ⟨.error (.unexpected demand c.peek), [], c⟩ :=
      bind_of_error (expect_of_not_admits hadmits)
    rw [Goes, hblock]
    exact ⟨[], .refl c, by simp⟩

/-- **Whatever walks keeps braces balanced.** It opens and closes braces in pairs, unless it runs
into the end. -/
theorem Walks.goes (h : Walks nested eats seen p c) : Goes nested eats p c := by
  induction h with
  | pure a => exact goes_still rfl
  | @bind eats eats₁ eats₂ seen α β p f c first rest one ih ih' =>
    obtain ⟨us, htravels, heats⟩ := ih
    have hbind : (p >>= f) c = (p c).andThen f := rfl
    rcases hp : p c with ⟨⟨d⟩ | ⟨a⟩, reports, c₁⟩
    · rw [Goes, hbind, hp]
      rw [hp] at htravels
      exact ⟨us, htravels, by simp [Reply.andThen]⟩
    · rw [hp] at htravels heats
      have hne : eats₁ = true → us ≠ [] := fun he => heats he a rfl
      obtain ⟨vs, htravels', heats'⟩ := ih' hp htravels.reads hne
      rw [Goes, hbind, hp]
      refine ⟨us ++ vs, htravels.trans htravels', fun he b hb hnone => ?_⟩
      obtain ⟨hus, hvs⟩ := List.append_eq_nil_iff.mp hnone
      rcases one he with he | he
      · exact hne he hus
      · exact heats' he b hb hvs
  | @map eats seen α β p c g inner ih =>
    obtain ⟨us, htravels, heats⟩ := ih
    refine ⟨us, htravels, fun he b hb => ?_⟩
    rcases hp : p c with ⟨⟨d⟩ | ⟨a⟩, reports, c₁⟩
    · simp [hp, Reply.map, Except.map] at hb
    · exact heats he a (by rw [hp])
  | look g => exact goes_still rfl
  | lookNext name => exact goes_still rfl
  | atEnd => exact goes_still rfl
  | locationFrom start read => exact goes_still rfl
  | advance plain =>
    have hrest := rest_of_peek (ne_eof_of_isPlain plain)
    exact ⟨_, travels_one hrest (weight_of_isPlain plain) (isPlain_false_of plain), by simp⟩
  | giveUp d marks => exact ⟨[], .refl _, by simp [Reply.error]⟩
  | log marks place => exact goes_still rfl
  | @iterate seen β σ step s c first rest ih ih' =>
    obtain ⟨us, htravels, -⟩ := ih
    unfold Goes
    rcases hstep : step s c with ⟨⟨d⟩ | ⟨_ | ⟨b, s'⟩⟩, reports, c₁⟩
    · rw [hstep] at htravels
      rw [iterate_error hstep]
      exact ⟨us, htravels, by simp⟩
    · rw [hstep] at htravels
      rw [iterate_stop hstep]
      exact ⟨us, htravels, by simp⟩
    · rw [hstep] at htravels
      by_cases hlt : c₁.rest.length < c.rest.length
      · obtain ⟨vs, htravels', -⟩ := ih' hstep htravels.reads hlt
        rw [iterate_next hstep hlt]
        exact ⟨us ++ vs, htravels.trans htravels', by simp⟩
      · rw [iterate_stuck hstep hlt]
        exact ⟨us, htravels, by simp⟩
  | recover point deep inner ahead inside ih =>
    subst deep
    obtain ⟨us, htravels, hne⟩ := recover_goes point ih ahead inside
    exact ⟨us, htravels, fun _ _ _ => hne⟩
  | block deep opens items body ih ih' =>
    subst deep
    exact block_goes (fun c => ih [] c) (fun c => ih' [] c) opens

end Parser

end JavaSubset
