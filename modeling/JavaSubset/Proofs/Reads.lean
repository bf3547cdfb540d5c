import JavaSubset.Parse.Parser

/-!
# The tokens between two cursors

* `Cursor.Reads c us c'` : from `c` on the tokens `us` are read, which leads to `c'`;
* `Reads.trans`, `Reads.split` : reading one list after another;
* `Reads.rest_eq`, `Reads.eq_skip` : `us` is what `c` has ahead of `c'`, and fixes `c'`.
-/

namespace JavaSubset.Cursor

variable {c c' c₁ c₂ : Cursor} {t : Token} {us vs rest : List Token} {m n : Nat}

/-! ## The next token -/

theorem peek_of_rest (h : c.rest = t :: rest) : c.peek = t := by
  simp [peek, h]

theorem peek_of_nil (h : c.rest = []) : c.peek = c.eof := by
  simp [peek, h]

theorem atEnd_iff : c.atEnd = true ↔ c.rest = [] := by
  simp [atEnd]

/-- Only behind the last token is the next one the end of the source. -/
theorem rest_of_peek (h : c.peek.kind ≠ .eof) : c.rest = c.peek :: c.advance.rest := by
  cases hr : c.rest with
  | nil => exact absurd (by rw [peek_of_nil hr, c.eof_kind]) h
  | cons t rest => simp [peek, advance, hr]

theorem advance_of_nil (h : c.rest = []) : c.advance = c := by
  simp [advance, h]

theorem advance_rest : c.advance.rest = c.rest.tail := by
  cases h : c.rest <;> simp [advance, h]

@[simp] theorem advance_eof : c.advance.eof = c.eof := by
  cases h : c.rest <;> simp [advance, h]

theorem advance_last (h : c.rest = t :: rest) : c.advance.last = t := by
  simp [advance, h]

theorem peekNext_eq : c.peekNext = c.advance.peek := by
  rw [peek, peekNext, advance_rest, advance_eof]

/-! ## Reading several tokens -/

inductive Reads : Cursor → List Token → Cursor → Prop where
  | nil (c : Cursor) : Reads c [] c
  | cons {c c' : Cursor} {t : Token} {us rest : List Token} (next : c.rest = t :: rest)
      (more : Reads c.advance us c') : Reads c (t :: us) c'

theorem Reads.one (h : c.rest = t :: rest) : Reads c [t] c.advance :=
  .cons h (.nil _)

theorem reads_peek (h : c.peek.kind ≠ .eof) : Reads c [c.peek] c.advance :=
  .one (rest_of_peek h)

/-- A token of a kind that a production can meet is read. -/
theorem reads_kind {kind : Token.Kind} (h : c.peek.kind = kind) (hk : kind.isKept = true) :
    Reads c [c.peek] c.advance := by
  apply reads_peek
  rw [h]
  rintro rfl
  cases hk

theorem Reads.trans (h : Reads c us c₁) (h' : Reads c₁ vs c₂) : Reads c (us ++ vs) c₂ := by
  induction h with
  | nil => exact h'
  | cons next _ ih => exact .cons next (ih h')

theorem Reads.split (h : Reads c (us ++ vs) c₂) : ∃ c₁, Reads c us c₁ ∧ Reads c₁ vs c₂ := by
  induction us generalizing c with
  | nil => exact ⟨c, .nil c, h⟩
  | cons t us ih =>
    cases h with
    | cons next more =>
      obtain ⟨c₁, h₁, h₂⟩ := ih more
      exact ⟨c₁, .cons next h₁, h₂⟩

theorem Reads.rest_eq (h : Reads c us c') : c.rest = us ++ c'.rest := by
  induction h with
  | nil => rfl
  | cons next _ ih => rw [next, List.cons_append, ← ih, advance_rest, next, List.tail_cons]

theorem Reads.eof_eq (h : Reads c us c') : c'.eof = c.eof := by
  induction h with
  | nil => rfl
  | cons _ _ ih => rw [ih, advance_eof]

theorem Reads.eq_skip (h : Reads c us c') : c' = c.skip us.length := by
  induction h with
  | nil => rfl
  | cons _ _ ih => exact ih

theorem Reads.length_eq (h : Reads c us c') : c.rest.length = us.length + c'.rest.length := by
  rw [h.rest_eq, List.length_append]

theorem Reads.progress (h : Reads c (t :: us) c') : c'.rest.length < c.rest.length := by
  have hlen := h.length_eq
  rw [List.length_cons] at hlen
  omega

theorem Reads.of_nil (h : Reads c [] c') : c' = c := by
  cases h
  rfl

theorem Reads.of_cons (h : Reads c (t :: us) c') : c.peek = t ∧ Reads c.advance us c' := by
  cases h with
  | cons next more => exact ⟨peek_of_rest next, more⟩

theorem Reads.peek_mem (h : Reads c us c') (hne : us ≠ []) : c.peek ∈ us := by
  cases h with
  | nil => exact absurd rfl hne
  | cons next _ =>
    rw [peek_of_rest next]
    exact List.mem_cons_self

theorem Reads.of_snoc (h : Reads c (us ++ [t]) c') :
    ∃ c₁, Reads c us c₁ ∧ c₁.peek = t ∧ c₁.advance = c' := by
  obtain ⟨c₁, h₁, h₂⟩ := h.split
  obtain ⟨hpeek, hnil⟩ := h₂.of_cons
  exact ⟨c₁, h₁, hpeek, hnil.of_nil.symm⟩

/-- The list of tokens between two cursors is unique. -/
theorem Reads.unique (h : Reads c us c') (h' : Reads c vs c') : us = vs := by
  have heq : us ++ c'.rest = vs ++ c'.rest := by rw [← h.rest_eq, ← h'.rest_eq]
  exact List.append_cancel_right heq

theorem reads_skip (h : n ≤ c.rest.length) : Reads c (c.rest.take n) (c.skip n) := by
  induction n generalizing c with
  | zero => exact .nil c
  | succ n ih =>
    cases hr : c.rest with
    | nil => simp [hr] at h
    | cons t rest =>
      have hadv : c.advance.rest = rest := by rw [advance_rest, hr, List.tail_cons]
      have hlen : n ≤ c.advance.rest.length := by
        rw [hadv]
        simpa [hr] using h
      rw [List.take_succ_cons, ← hadv]
      exact .cons hr (ih hlen)

theorem skip_rest : (c.skip n).rest = c.rest.drop n := by
  induction n generalizing c with
  | zero => rfl
  | succ n ih => rw [skip, ih, advance_rest, List.drop_tail]

theorem exists_reads_append (h : c.rest = us ++ vs) : ∃ c', Reads c us c' ∧ c'.rest = vs := by
  have hread := reads_skip (c := c) (n := us.length) (by simp [h])
  rw [h, List.take_left] at hread
  refine ⟨_, hread, ?_⟩
  rw [skip_rest, h, List.drop_left]

theorem exists_reads_skip (c : Cursor) (n : Nat) : ∃ us, Reads c us (c.skip n) := by
  induction n generalizing c with
  | zero => exact ⟨[], .nil c⟩
  | succ n ih =>
    obtain ⟨us, hreads⟩ := ih c.advance
    cases hr : c.rest with
    | nil =>
      refine ⟨us, ?_⟩
      rw [skip]
      rwa [advance_of_nil hr] at hreads ⊢
    | cons t rest => exact ⟨t :: us, .cons hr hreads⟩

theorem skip_succ : c.skip (n + 1) = (c.skip n).advance := by
  induction n generalizing c with
  | zero => rfl
  | succ n ih => exact ih

theorem skip_skip : (c.skip m).skip n = c.skip (m + n) := by
  induction m generalizing c with
  | zero => rw [skip, Nat.zero_add]
  | succ m ih => rw [skip, ih, Nat.add_right_comm, skip]

theorem skip_eof : (c.skip n).eof = c.eof := by
  induction n generalizing c with
  | zero => rfl
  | succ n ih => rw [skip, ih, advance_eof]

theorem peek_skip : (c.skip n).peek = c.rest[n]?.getD c.eof := by
  rw [peek, List.headD_eq_head?_getD, skip_rest, List.head?_drop, skip_eof]

theorem getElem?_of_peek (h : (c.skip n).peek.kind ≠ .eof) :
    c.rest[n]? = some (c.skip n).peek := by
  rw [← List.head?_drop, ← skip_rest, rest_of_peek h, List.head?_cons,
    peek_of_rest (rest_of_peek h)]

/-- At the end nothing is left to read. -/
theorem Reads.eq_nil (h : Reads c us c') (hc : c.rest = []) : us = [] ∧ c' = c := by
  have hus : us = [] := by
    have := h.rest_eq
    rw [hc] at this
    exact (List.append_eq_nil_iff.mp this.symm).1
  subst hus
  exact ⟨rfl, h.of_nil⟩

end JavaSubset.Cursor
