import JavaSubset.Proofs.Balance

/-!
# Where diagnostics are placed

`Reply.raised` : the diagnostics of a reply in order, the one it gave up with last. Everything that
walks places them at tokens it has read, or at the one it stops in front of, and none of them asks
for the end of the source (`Walks.places`).
-/

namespace JavaSubset

open Cursor

def Reply.raised {α : Type} (r : Reply α) : List Diagnostic :=
  match r.outcome with
  | .ok _ => r.reports
  | .error d => r.reports ++ [d]

section Raised

variable {α β : Type} {r : Reply α}

@[simp] theorem Reply.raised_ok {a : α} {reports : List Diagnostic} {c : Cursor} :
    (⟨.ok a, reports, c⟩ : Reply α).raised = reports := rfl

@[simp] theorem Reply.raised_after (earlier : List Diagnostic) :
    (r.after earlier).raised = earlier ++ r.raised := by
  rcases r with ⟨⟨d⟩ | ⟨a⟩, reports, c⟩ <;> simp [after, raised]

@[simp] theorem Reply.raised_map (f : α → β) : (r.map f).raised = r.raised := by
  rcases r with ⟨⟨d⟩ | ⟨a⟩, reports, c⟩ <;> rfl

end Raised

/-- Each diagnostic is placed at one of the tokens. -/
def Marked (ts : List Token) (ds : List Diagnostic) : Prop := ∀ d ∈ ds, ∃ t ∈ ts, d.Marks t

variable {ts us vs : List Token} {ds ds' : List Diagnostic} {c c' : Cursor}

theorem marked_nil : Marked ts [] := by
  simp [Marked]

theorem Marked.append (h : Marked ts ds) (h' : Marked ts ds') : Marked ts (ds ++ ds') := by
  intro d hd
  rcases List.mem_append.mp hd with hd | hd
  · exact h d hd
  · exact h' d hd

theorem Marked.mono (h : Marked us ds) (hsub : us ⊆ vs) : Marked vs ds := by
  intro d hd
  obtain ⟨t, ht, hmarks⟩ := h d hd
  exact ⟨t, hsub ht, hmarks⟩

theorem marked_singleton {d : Diagnostic} {t : Token} (h : d.Marks t) (ht : t ∈ ts) :
    Marked ts [d] := by
  simpa [Marked] using ⟨t, ht, h⟩

/-- The next token is read on the way, or is still the next one. -/
theorem peek_mem_of_reads (h : Reads c us c') : c.peek ∈ us ++ [c'.peek] := by
  cases h with
  | nil => simp
  | cons next _ =>
    rw [peek_of_rest next]
    exact List.mem_append_left _ List.mem_cons_self

/-- What was the next token once was read since, or is still the next one. -/
theorem Marked.trans (hds : Marked (ts ++ us ++ [c.peek]) ds) (hreads : Reads c vs c') :
    Marked (ts ++ (us ++ vs) ++ [c'.peek]) ds := by
  refine hds.mono fun t ht => ?_
  have hpeek := peek_mem_of_reads hreads
  simp only [List.append_assoc, List.mem_append, List.mem_singleton] at ht hpeek ⊢
  rcases ht with ht | ht | rfl
  · exact .inl ht
  · exact .inr (.inl ht)
  · exact .inr (.inr hpeek)

namespace Parser

variable {α β : Type} {p : Parser α} {nested eats : Bool} {seen : List Token}
  {demand : Demand}

def Places (seen : List Token) (p : Parser α) (c : Cursor) : Prop :=
  ∃ us, Reads c us (p c).cursor ∧ Marked (seen ++ us ++ [(p c).cursor.peek]) (p c).raised

theorem places_still (hcursor : (p c).cursor = c)
    (hraised : Marked (seen ++ [c.peek]) (p c).raised) : Places seen p c := by
  refine ⟨[], ?_, ?_⟩
  · rw [hcursor]
    exact .nil c
  · rwa [hcursor, List.append_nil]

theorem places_skip {a : α} (n : Nat) (h : p c = ⟨.ok a, [], c.skip n⟩) : Places seen p c := by
  obtain ⟨us, hreads⟩ := exists_reads_skip c n
  rw [Places, h]
  exact ⟨us, hreads, marked_nil⟩

/-- A part that was read with its diagnostics, and the rest behind it. -/
theorem places_after {q : Parser β} {us : List Token} {reports : List Diagnostic} {c₁ : Cursor}
    {g : β → α} (hreads : Reads c us c₁) (hmarked : Marked (seen ++ us ++ [c₁.peek]) reports)
    (hrest : Places (seen ++ us) q c₁) (h : p c = ((q c₁).map g).after reports) :
    Places seen p c := by
  obtain ⟨vs, hreads', hmarked'⟩ := hrest
  refine ⟨us ++ vs, ?_, ?_⟩
  · rw [h]
    exact hreads.trans hreads'
  · rw [h, Reply.raised_after, Reply.raised_map]
    rw [List.append_assoc seen] at hmarked'
    exact (hmarked.trans hreads').append hmarked'

theorem places_bind {f : α → Parser β} (h : Places seen p c)
    (rest : ∀ {a us reports c'}, p c = ⟨.ok a, reports, c'⟩ → Reads c us c' →
      Places (seen ++ us) (f a) c') : Places seen (p >>= f) c := by
  obtain ⟨us, hreads, hmarked⟩ := h
  rcases hp : p c with ⟨⟨d⟩ | ⟨a⟩, reports, c₁⟩
  · rw [hp] at hreads hmarked
    rw [Places, bind_of_error hp]
    exact ⟨us, hreads, hmarked⟩
  · rw [hp] at hreads
    have hmarked : Marked (seen ++ us ++ [c₁.peek]) reports := by rwa [hp] at hmarked
    refine places_after (g := id) hreads hmarked (rest hp hreads) ?_
    rw [bind_of_ok hp, Reply.map_id]

theorem expect_places (h : demand.expected ≠ .endOfInput) : Places seen (expect demand) c := by
  by_cases hadmits : demand.expected.admits c.peek.kind = true
  · exact places_skip 1 (expect_of_admits hadmits)
  · rw [Places, expect_of_not_admits hadmits]
    exact ⟨[], .nil c, marked_singleton (Diagnostic.marks_unexpected h) (by simp)⟩

theorem raised_recover (point : SyncPoint) : (recover point p c).raised = (p c).raised := by
  unfold recover
  rcases p c with ⟨⟨d⟩ | ⟨a⟩, reports, c'⟩ <;> rfl

theorem recover_places {point : SyncPoint} (h : Places seen p c) :
    Places seen (recover point p) c := by
  obtain ⟨us, hreads, hmarked⟩ := h
  rcases hp : p c with ⟨⟨d⟩ | ⟨a⟩, reports, c₁⟩
  · rw [hp] at hreads hmarked
    obtain ⟨vs, hvs⟩ : ∃ vs, Reads c₁ vs (recover point p c).cursor := by
      simp only [recover, hp]
      split
      · have hnext : (c₁.synchronize point).advance = c₁.skip (point.skip 0 c₁.rest + 1) :=
          skip_skip (n := 1)
        rw [hnext]
        exact exists_reads_skip c₁ _
      · exact exists_reads_skip c₁ _
    refine ⟨us ++ vs, hreads.trans hvs, ?_⟩
    rw [raised_recover, hp]
    exact hmarked.trans hvs
  · rw [hp] at hreads hmarked
    simp only [Places, recover, hp]
    exact ⟨us, hreads, hmarked⟩

theorem block_places {stmt : Parser (Stmt Location)}
    (opens : demand.expected = .token (.punctuation .lbrace))
    (body : ∀ seen c, Places seen (bodyOf .statement stmt) c) :
    Places seen (block stmt demand) c := by
  refine places_bind (expect_places (by simp [opens])) fun _ _ => ?_
  refine places_bind (body _ _) fun _ _ => ?_
  exact places_bind (expect_places (by decide)) fun _ _ => places_still rfl marked_nil

/-- **Diagnostics are placed where parsing is.** What walks raises them at tokens it has read or at
the next one. -/
theorem Walks.places (h : Walks nested eats seen p c) : Places seen p c := by
  induction h with
  | pure a => exact places_still rfl marked_nil
  | bind first rest one ih ih' =>
    refine places_bind ih fun hp hreads => ih' hp hreads fun he => ?_
    subst he
    exact first.goes.ne_nil hp hreads
  | @map eats seen α β p c g inner ih =>
    obtain ⟨us, hreads, hmarked⟩ := ih
    refine ⟨us, hreads, ?_⟩
    rw [Reply.raised_map]
    exact hmarked
  | look g => exact places_still rfl marked_nil
  | lookNext name => exact places_still rfl marked_nil
  | atEnd => exact places_still rfl marked_nil
  | locationFrom start read => exact places_still rfl marked_nil
  | advance plain => exact ⟨_, reads_peek (ne_eof_of_isPlain plain), marked_nil⟩
  | giveUp d marks => exact places_still rfl (marked_singleton (marks _) (by simp))
  | log marks place => exact places_still rfl (marked_singleton marks place)
  | @iterate seen β σ step s c first rest ih ih' =>
    obtain ⟨us, hreads, hmarked⟩ := ih
    rcases hstep : step s c with ⟨⟨d⟩ | ⟨_ | ⟨b, s'⟩⟩, reports, c₁⟩
    · rw [hstep] at hreads hmarked
      unfold Places
      rw [iterate_error hstep]
      exact ⟨us, hreads, hmarked⟩
    · rw [hstep] at hreads hmarked
      unfold Places
      rw [iterate_stop hstep]
      exact ⟨us, hreads, hmarked⟩
    · rw [hstep] at hreads hmarked
      by_cases hlt : c₁.rest.length < c.rest.length
      · exact places_after hreads hmarked (ih' hstep hreads hlt) (iterate_next hstep hlt)
      · unfold Places
        rw [iterate_stuck hstep hlt]
        exact ⟨us, hreads, hmarked⟩
  | recover point deep inner ahead inside ih => exact recover_places ih
  | @block eats seen stmt c demand deep opens items body ih ih' => exact block_places opens ih'

end Parser

end JavaSubset
