import JavaSubset.Diagnostic

/-!
# Which diagnostics are kept

`withoutCascades` looks at one diagnostic after another and remembers the last one it kept, so a
list is taken apart at any place:

* `withoutRepeats_append` : what follows is compared with the last one kept;
* `withoutCascades_cons_behind` : what becomes of a single diagnostic in the middle;
* `withoutCascades_append` : lists whose spans differ do not interfere;
* `withoutCascades_of_nodup` : nothing is left out of a list without two equal spans.
-/

namespace JavaSubset.Diagnostic

variable {d : Diagnostic} {ds es : List Diagnostic} {span : Span}

/-- The span of the last diagnostic. -/
def lastSpan? (ds : List Diagnostic) : Option Span := ds.getLast?.map (·.loc.span)

theorem lastSpan?_cons : lastSpan? (d :: ds) = some ((lastSpan? ds).getD d.loc.span) := by
  unfold lastSpan?
  cases ds with
  | nil => rfl
  | cons e ds => simp [List.getLast?_cons]

theorem withoutRepeats_sublist (span : Span) (ds : List Diagnostic) :
    (withoutRepeats span ds).Sublist ds := by
  fun_induction withoutRepeats span ds with
  | case1 => exact .slnil
  | case2 d more ih => exact ih.cons d
  | case3 span d more hspan ih => exact ih.cons_cons d

theorem withoutCascades_sublist (ds : List Diagnostic) : (withoutCascades ds).Sublist ds := by
  cases ds with
  | nil => exact .slnil
  | cons d more => exact (withoutRepeats_sublist _ more).cons_cons d

theorem withoutRepeats_append (span : Span) (ds es : List Diagnostic) :
    withoutRepeats span (ds ++ es) = withoutRepeats span ds ++
      withoutRepeats ((lastSpan? (withoutRepeats span ds)).getD span) es := by
  fun_induction withoutRepeats span ds with
  | case1 span => rfl
  | case2 d more ih => rw [List.cons_append, withoutRepeats, if_pos rfl, ih]
  | case3 span d more hspan ih =>
    rw [List.cons_append, withoutRepeats, if_neg hspan, ih, lastSpan?_cons]
    rfl

/-- A diagnostic is left out if the last one kept before it has the same span. -/
theorem withoutCascades_cons_behind (ds : List Diagnostic) (d : Diagnostic)
    (es : List Diagnostic) :
    withoutCascades (ds ++ d :: es) = withoutCascades ds ++
      (if lastSpan? (withoutCascades ds) = some d.loc.span then [] else [d]) ++
      withoutRepeats d.loc.span es := by
  cases ds with
  | nil => rfl
  | cons e ds =>
    rw [List.cons_append, withoutCascades, withoutCascades, withoutRepeats_append, lastSpan?_cons,
      withoutRepeats]
    by_cases hspan : (lastSpan? (withoutRepeats e.loc.span ds)).getD e.loc.span = d.loc.span
    · simp [hspan]
    · simp [hspan, Ne.symm hspan]

theorem exists_of_lastSpan? (h : lastSpan? ds = some span) : ∃ d ∈ ds, d.loc.span = span := by
  obtain ⟨d, hlast, hspan⟩ := Option.map_eq_some_iff.mp h
  exact ⟨d, List.mem_of_getLast? hlast, hspan⟩

/-- Lists whose spans differ do not interfere. -/
theorem withoutCascades_append (h : ∀ d ∈ ds, ∀ e ∈ es, d.loc.span ≠ e.loc.span) :
    withoutCascades (ds ++ es) = withoutCascades ds ++ withoutCascades es := by
  cases es with
  | nil => rw [List.append_nil, withoutCascades, List.append_nil]
  | cons e es =>
    have hkept : lastSpan? (withoutCascades ds) ≠ some e.loc.span := by
      intro hlast
      obtain ⟨d, hd, hspan⟩ := exists_of_lastSpan? hlast
      exact h d ((withoutCascades_sublist ds).subset hd) e List.mem_cons_self hspan
    rw [withoutCascades_cons_behind, if_neg hkept, withoutCascades, List.append_assoc]
    rfl

/-- What is kept so far stays, whatever follows. -/
theorem withoutCascades_prefix (ds es : List Diagnostic) :
    withoutCascades ds <+: withoutCascades (ds ++ es) := by
  cases ds with
  | nil => exact List.nil_prefix
  | cons d more =>
    rw [List.cons_append, withoutCascades, withoutCascades, withoutRepeats_append]
    exact List.prefix_append (d :: withoutRepeats d.loc.span more) _

theorem withoutRepeats_of_nodup (h : (span :: ds.map (·.loc.span)).Nodup) :
    withoutRepeats span ds = ds := by
  fun_induction withoutRepeats span ds with
  | case1 => rfl
  | case2 d more => simp at h
  | case3 span d more hspan ih => rw [ih h.tail]

theorem withoutCascades_of_nodup (h : (ds.map (·.loc.span)).Nodup) : withoutCascades ds = ds := by
  cases ds with
  | nil => rfl
  | cons d more => rw [withoutCascades, withoutRepeats_of_nodup h]

end JavaSubset.Diagnostic
