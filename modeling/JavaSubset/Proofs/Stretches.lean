import JavaSubset.Proofs.Nodes
import JavaSubset.Proofs.Reads

/-!
# Nodes over stretches of tokens

* `Laid ts` : the tokens follow one another in the text, and none of them is empty;
* `Lies us loc` : the location reaches from the first of the tokens to the last;
* `Over us n` : the node lies where the tokens lie, and so does all that is below it (`Parts`);
* `Parts us ns` : the nodes lie over stretches of the tokens, one behind the other.

A node comes to lie over tokens in two ways: a production makes it around the parts it has read
(`Parts.around`), or two nodes become its children (`Parts.merge`). Nodes over tokens that are laid
out form a proper tree of spans (`Node.Proper`, `Over.proper`).
-/

namespace JavaSubset

open Cursor

variable {us vs ts : List Token} {t u : Token} {a b loc : Location} {m n : Node Location}
  {ns ms : List (Node Location)} {c c' : Cursor}

/-! ## Tokens in the text -/

structure Laid (ts : List Token) : Prop where
  apart : ts.Pairwise fun t u => t.loc.span.stop ≤ u.loc.span.start
  solid : ∀ t ∈ ts, t.loc.span.start < t.loc.span.stop

namespace Laid

theorem sublist (h : Laid ts) (hsub : us.Sublist ts) : Laid us :=
  ⟨h.apart.sublist hsub, fun t ht => h.solid t (hsub.subset ht)⟩

theorem across (h : Laid (us ++ vs)) (ht : t ∈ us) (hu : u ∈ vs) :
    t.loc.span.stop ≤ u.loc.span.start :=
  (List.pairwise_append.mp h.apart).2.2 t ht u hu

theorem head_le (h : Laid us) (ht : t ∈ us.head?) (hu : u ∈ us) :
    t.loc.span.start ≤ u.loc.span.start := by
  obtain ⟨rest, rfl⟩ := List.head?_eq_some_iff.mp ht
  rcases List.mem_cons.mp hu with rfl | hu
  · exact Nat.le_refl _
  · have hsolid := h.solid t List.mem_cons_self
    have hapart := List.rel_of_pairwise_cons h.apart hu
    omega

theorem le_last (h : Laid us) (ht : t ∈ us) (hu : u ∈ us.getLast?) :
    t.loc.span.stop ≤ u.loc.span.stop := by
  obtain ⟨front, rfl⟩ := List.getLast?_eq_some_iff.mp hu
  rcases List.mem_append.mp ht with ht | ht
  · have hsolid := h.solid u (by simp)
    have hapart := h.across ht List.mem_cons_self
    omega
  · exact Nat.le_of_eq (by rw [List.mem_singleton.mp ht])

theorem read (h : Laid c.rest) (hreads : Reads c us c') : Laid us := by
  rw [hreads.rest_eq] at h
  exact h.sublist (List.sublist_append_left _ _)

theorem after (h : Laid c.rest) (hreads : Reads c us c') : Laid c'.rest := by
  rw [hreads.rest_eq] at h
  exact h.sublist (List.sublist_append_right _ _)

end Laid

/-! ## Where tokens lie -/

structure Lies (us : List Token) (loc : Location) : Prop where
  start : ∃ t ∈ us.head?, loc.span.start = t.loc.span.start ∧ loc.line = t.loc.line
  stop : ∃ t ∈ us.getLast?, loc.span.stop = t.loc.span.stop

namespace Lies

theorem ne_nil (h : Lies us loc) : us ≠ [] := by
  rintro rfl
  obtain ⟨t, ht, -⟩ := h.start
  cases ht

theorem mem_start (h : Lies us loc) : ∃ t ∈ us, loc.span.start = t.loc.span.start := by
  obtain ⟨t, ht, hstart, -⟩ := h.start
  exact ⟨t, List.mem_of_mem_head? ht, hstart⟩

theorem mem_stop (h : Lies us loc) : ∃ t ∈ us, loc.span.stop = t.loc.span.stop := by
  obtain ⟨t, ht, hstop⟩ := h.stop
  exact ⟨t, List.mem_of_getLast? ht, hstop⟩

theorem start_le (h : Lies us loc) (hlaid : Laid us) (ht : t ∈ us) :
    loc.span.start ≤ t.loc.span.start := by
  obtain ⟨first, hfirst, hstart, -⟩ := h.start
  rw [hstart]
  exact hlaid.head_le hfirst ht

theorem le_stop (h : Lies us loc) (hlaid : Laid us) (ht : t ∈ us) :
    t.loc.span.stop ≤ loc.span.stop := by
  obtain ⟨last, hlast, hstop⟩ := h.stop
  rw [hstop]
  exact hlaid.le_last ht hlast

theorem start_lt_stop (h : Lies us loc) (hlaid : Laid us) : loc.span.start < loc.span.stop := by
  obtain ⟨t, ht, hstart⟩ := h.mem_start
  have hsolid := hlaid.solid t ht
  have hstop := h.le_stop hlaid ht
  omega

/-- A stretch of the tokens lies within what they cover. -/
theorem within (h : Lies us a) (h' : Lies vs b) (hlaid : Laid us) (hsub : vs.Sublist us) :
    a.span.start ≤ b.span.start ∧ b.span.stop ≤ a.span.stop := by
  obtain ⟨t, ht, hstart⟩ := h'.mem_start
  obtain ⟨u, hu, hstop⟩ := h'.mem_stop
  rw [hstart, hstop]
  exact ⟨h.start_le hlaid (hsub.subset ht), h.le_stop hlaid (hsub.subset hu)⟩

theorem stop_le_start (h : Lies us a) (h' : Lies vs b) (hlaid : Laid (us ++ vs)) :
    a.span.stop ≤ b.span.start := by
  obtain ⟨t, ht, hstop⟩ := h.mem_stop
  obtain ⟨u, hu, hstart⟩ := h'.mem_start
  rw [hstop, hstart]
  exact hlaid.across ht hu

/-- Two stretches, and whatever stands between them. -/
theorem merge {mid : List Token} (h : Lies us a) (h' : Lies vs b)
    (hlaid : Laid (us ++ (mid ++ vs))) : Lies (us ++ (mid ++ vs)) (a.merge b) := by
  have hus : Laid us := hlaid.sublist (List.sublist_append_left _ _)
  have hvs : Laid vs := hlaid.sublist
    ((List.sublist_append_right mid vs).trans (List.sublist_append_right us _))
  have horder : a.span.stop ≤ b.span.start := h.stop_le_start h'
    (hlaid.sublist ((List.Sublist.refl us).append (List.sublist_append_right mid vs)))
  have hfirst := h.start_lt_stop hus
  have hsecond := h'.start_lt_stop hvs
  obtain ⟨t, ht, hstart, hline⟩ := h.start
  obtain ⟨u, hu, hstop⟩ := h'.stop
  refine ⟨⟨t, ?_, ?_, hline⟩, u, ?_, ?_⟩
  · rw [List.head?_append, ht]
    rfl
  · rw [← hstart]
    exact Nat.min_eq_left (by omega)
  · rw [← List.append_assoc, List.getLast?_append, hu]
    rfl
  · rw [← hstop]
    exact Nat.max_eq_right (by omega)

end Lies

theorem last_of_reads (h : Reads c us c') (hne : us ≠ []) : c'.last ∈ us.getLast? := by
  induction h with
  | nil => exact absurd rfl hne
  | @cons c c' t us rest next more ih =>
    cases us with
    | nil =>
      rw [more.of_nil, advance_last next]
      rfl
    | cons u us =>
      rw [List.getLast?_cons_cons]
      exact ih (List.cons_ne_nil u us)

/-- A node that starts with the next token ends with the one just read. -/
theorem lies_locationFrom (hlaid : Laid c.rest) (hreads : Reads c us c') (hne : us ≠ []) :
    Lies us (c'.locationFrom c.peek) := by
  have hus := hlaid.read hreads
  have hlast := last_of_reads hreads hne
  have hpeek := hreads.peek_mem hne
  have hfirst : c.peek ∈ us.head? := by
    cases hreads with
    | nil => exact absurd rfl hne
    | cons next _ =>
      rw [peek_of_rest next]
      rfl
  have hsolid := hus.solid _ hpeek
  have hstop := hus.le_last hpeek hlast
  exact ⟨⟨c.peek, hfirst, rfl, rfl⟩, c'.last, hlast, Nat.max_eq_left (by omega)⟩

/-! ## Nodes over tokens -/

mutual

inductive Over : List Token → Node Location → Prop where
  | intro {us : List Token} {n : Node Location} (lies : Lies us n.note)
      (parts : Parts us n.children) : Over us n

inductive Parts : List Token → List (Node Location) → Prop where
  | nil (us : List Token) : Parts us []
  | skip {vs : List Token} {ns : List (Node Location)} (us : List Token) (more : Parts vs ns) :
      Parts (us ++ vs) ns
  | cons {us vs : List Token} {n : Node Location} {ns : List (Node Location)} (first : Over us n)
      (more : Parts vs ns) : Parts (us ++ vs) (n :: ns)

end

theorem Over.lies (h : Over us n) : Lies us n.note := by
  cases h with
  | intro lies _ => exact lies

theorem Over.parts (h : Over us n) : Parts us n.children := by
  cases h with
  | intro _ parts => exact parts

namespace Parts

theorem append : ∀ {us : List Token} {ns : List (Node Location)}, Parts us ns → Parts vs ms →
    Parts (us ++ vs) (ns ++ ms)
  | _, _, .nil us, h' => .skip us h'
  | _, _, .skip front more, h' => by
    rw [List.append_assoc]
    exact .skip front (append more h')
  | _, _, .cons first more, h' => by
    rw [List.append_assoc]
    exact .cons first (append more h')

theorem single (h : Over us n) : Parts us [n] := by
  rw [← List.append_nil us]
  exact .cons h (.nil [])

theorem exists_over : ∀ {us : List Token} {ns : List (Node Location)}, Parts us ns →
    ∀ n ∈ ns, ∃ before vs after, us = before ++ (vs ++ after) ∧ Over vs n
  | _, _, .nil _, _, hn => nomatch hn
  | _, _, .skip front more, n, hn => by
    obtain ⟨before, vs, after, rfl, hover⟩ := exists_over more n hn
    exact ⟨front ++ before, vs, after, by simp, hover⟩
  | _, _, @cons us _ _ _ first more, n, hn => by
    rcases List.mem_cons.mp hn with rfl | hn
    · exact ⟨[], us, _, rfl, first⟩
    · obtain ⟨before, vs, after, rfl, hover⟩ := exists_over more n hn
      exact ⟨us ++ before, vs, after, by simp, hover⟩

theorem ne_nil (h : Parts us [n]) : us ≠ [] := by
  obtain ⟨before, vs, after, rfl, hover⟩ := h.exists_over n List.mem_cons_self
  have hvs := hover.lies.ne_nil
  simp [hvs]

/-- What is below a node lies over the same tokens. -/
theorem children (h : Parts us [n]) : Parts us n.children := by
  obtain ⟨before, vs, after, rfl, hover⟩ := h.exists_over n List.mem_cons_self
  have hparts := hover.parts.append (.nil after)
  rw [List.append_nil] at hparts
  exact .skip before hparts

/-- Two nodes become the children of one that reaches from the first to the second. -/
theorem merge (h : Parts us [m]) (h' : Parts vs [n]) (hlaid : Laid (us ++ vs)) {n' : Node Location}
    (hnote : n'.note = m.note.merge n.note) (hchildren : n'.children = [m, n]) :
    Parts (us ++ vs) [n'] := by
  obtain ⟨before, us, mid, rfl, hm⟩ := h.exists_over m List.mem_cons_self
  obtain ⟨mid', vs, after, rfl, hn⟩ := h'.exists_over n List.mem_cons_self
  have hassoc : before ++ (us ++ mid) ++ (mid' ++ (vs ++ after)) =
      before ++ (us ++ ((mid ++ mid') ++ vs) ++ after) := by simp
  rw [hassoc] at hlaid ⊢
  refine .skip before (.cons (.intro ?_ ?_) (.nil after))
  · rw [hnote]
    refine hm.lies.merge hn.lies (hlaid.sublist ?_)
    exact (List.sublist_append_left _ _).trans (List.sublist_append_right _ _)
  · rw [hchildren]
    exact .cons hm (.skip _ (.single hn))

/-- A production that has read its parts makes a node around them. -/
theorem around (h : Parts us n.children) (hlaid : Laid c.rest) (hreads : Reads c us c')
    (hne : us ≠ []) (hnote : n.note = c'.locationFrom c.peek) : Parts us [n] := by
  refine .single (.intro ?_ h)
  rw [hnote]
  exact lies_locationFrom hlaid hreads hne

end Parts

/-! ## Trees of spans -/

/-- A node whose span reaches from a token to a token, with the spans of its children inside, one
behind the other. -/
structure Node.Proper (tokens : List Token) (n : Node Location) : Prop where
  nonempty : n.note.span.start < n.note.span.stop
  starts : ∃ t ∈ tokens, n.note.span.start = t.loc.span.start
  stops : ∃ t ∈ tokens, n.note.span.stop = t.loc.span.stop
  within : ∀ m ∈ n.children,
    n.note.span.start ≤ m.note.span.start ∧ m.note.span.stop ≤ n.note.span.stop
  apart : n.children.Pairwise fun m m' => m.note.span.stop ≤ m'.note.span.start

theorem Parts.exists_sublist (h : Parts us ns) (hn : n ∈ ns) :
    ∃ vs, vs.Sublist us ∧ Over vs n := by
  obtain ⟨before, vs, after, rfl, hover⟩ := h.exists_over n hn
  exact ⟨vs, (List.sublist_append_left _ _).trans (List.sublist_append_right _ _), hover⟩

theorem Parts.apart : ∀ {us : List Token} {ns : List (Node Location)}, Parts us ns → Laid us →
    ns.Pairwise fun m n => m.note.span.stop ≤ n.note.span.start
  | _, _, .nil _, _ => .nil
  | _, _, .skip _ more, hlaid => more.apart (hlaid.sublist (List.sublist_append_right _ _))
  | _, _, .cons first more, hlaid => by
    refine .cons (fun n hn => ?_) (more.apart (hlaid.sublist (List.sublist_append_right _ _)))
    obtain ⟨vs, hsub, hover⟩ := more.exists_sublist hn
    exact first.lies.stop_le_start hover.lies (hlaid.sublist ((List.Sublist.refl _).append hsub))

mutual

/-- Whatever is below a node lies over tokens of its own. -/
theorem Over.every : ∀ {us : List Token} {n : Node Location}, Over us n → us.Sublist ts →
    n.Every fun m => ∃ vs, vs.Sublist ts ∧ Over vs m
  | us, _, .intro lies parts, hsub => .intro ⟨us, hsub, .intro lies parts⟩ (parts.every hsub)

theorem Parts.every : ∀ {us : List Token} {ns : List (Node Location)}, Parts us ns →
    us.Sublist ts → ∀ n ∈ ns, n.Every fun m => ∃ vs, vs.Sublist ts ∧ Over vs m
  | _, _, .nil _, _ => List.forall_mem_nil _
  | _, _, .skip _ more, hsub => more.every ((List.sublist_append_right _ _).trans hsub)
  | _, _, .cons first more, hsub => by
    refine List.forall_mem_cons.mpr ⟨first.every ?_, more.every ?_⟩
    · exact (List.sublist_append_left _ _).trans hsub
    · exact (List.sublist_append_right _ _).trans hsub

end

theorem Over.proper (h : Over us n) (hlaid : Laid us) : n.Proper us where
  nonempty := h.lies.start_lt_stop hlaid
  starts := h.lies.mem_start
  stops := h.lies.mem_stop
  within m hm := by
    obtain ⟨vs, hsub, hover⟩ := h.parts.exists_sublist hm
    exact h.lies.within hover.lies hlaid hsub
  apart := h.parts.apart hlaid

end JavaSubset
