import JavaSubset.Proofs.Accepts
import JavaSubset.Proofs.Balance

/-!
# What a production depends on

Two cursors with the tokens `v` ahead of both (`Ahead`) are not told apart by what walks, as long as
`v` holds a token that ends the walk (`Holds`): a brace that is not opened in it, or, where no
semicolon is read, any semicolon or brace. The replies are the same, and so are the tokens that are
read (`Walks.within`). Neither what follows `v` nor what was read before plays a part, so that what
is accepted at one place is accepted at any other (`Walks.elsewhere`).
-/

namespace JavaSubset

open Cursor

section Ahead

variable {nested : Bool} {c c' d d' : Cursor} {t : Token} {us v v' x y : List Token}

/-- The tokens `v` are ahead of both cursors. -/
structure Ahead (v : List Token) (c d : Cursor) : Prop where
  left : v <+: c.rest
  right : v <+: d.rest

theorem Ahead.peek (h : Ahead (t :: v) c d) : c.peek = t ∧ d.peek = t := by
  obtain ⟨⟨x, hx⟩, ⟨y, hy⟩⟩ := h
  exact ⟨peek_of_rest hx.symm, peek_of_rest hy.symm⟩

theorem Ahead.peek_eq (h : Ahead v c d) (hv : v ≠ []) : d.peek = c.peek := by
  cases v with
  | nil => exact absurd rfl hv
  | cons t v => rw [h.peek.1, h.peek.2]

theorem Ahead.reads (h : Ahead (t :: v) c d) :
    Reads c [t] c.advance ∧ Reads d [t] d.advance := by
  obtain ⟨⟨x, hx⟩, ⟨y, hy⟩⟩ := h
  exact ⟨.one hx.symm, .one hy.symm⟩

theorem prefix_of_reads (h : us ++ v <+: c.rest) (hreads : Reads c us c') : v <+: c'.rest := by
  rw [hreads.rest_eq] at h
  exact (List.prefix_append_right_inj us).mp h

theorem Ahead.after (h : Ahead (us ++ v) c d) (hc : Reads c us c') (hd : Reads d us d') :
    Ahead v c' d' :=
  ⟨prefix_of_reads h.left hc, prefix_of_reads h.right hd⟩

theorem ahead_of_reads (hc : Reads c us c') (hd : Reads d us d') : Ahead us c d :=
  ⟨⟨_, hc.rest_eq.symm⟩, ⟨_, hd.rest_eq.symm⟩⟩

theorem Ahead.before (h : Ahead v c' d') (hc : Reads c us c') (hd : Reads d us d') :
    Ahead (us ++ v) c d := by
  refine ⟨?_, ?_⟩
  · rw [hc.rest_eq]
    exact (List.prefix_append_right_inj us).mpr h.left
  · rw [hd.rest_eq]
    exact (List.prefix_append_right_inj us).mpr h.right

theorem Ahead.advance (h : Ahead (t :: v) c d) : Ahead v c.advance d.advance :=
  ⟨prefix_of_reads h.left h.reads.1, prefix_of_reads h.right h.reads.2⟩

theorem Ahead.atEnd_eq (h : Ahead v c d) (hv : v ≠ []) : d.atEnd = c.atEnd := by
  cases v with
  | nil => exact absurd rfl hv
  | cons t v => simp [atEnd, h.reads.1.rest_eq, h.reads.2.rest_eq]

/-! ## Tokens that end a walk -/

/-- What walks does not get over all of `v`. -/
def Holds (nested : Bool) (v : List Token) : Prop :=
  if nested then depth v < 0 else ∃ t ∈ v, t.kind.isPlain false = false

theorem Holds.ne_nil (h : Holds nested v) : v ≠ [] := by
  rintro rfl
  cases nested <;> simp [Holds] at h

theorem Holds.tail (h : Holds nested (t :: v)) (hplain : t.kind.isPlain nested = true) :
    Holds nested v := by
  cases nested with
  | true =>
    change depth (t :: v) < 0 at h
    rw [depth_cons, weight_of_isPlain hplain] at h
    change depth v < 0
    omega
  | false =>
    obtain ⟨u, hu, hstop⟩ : ∃ u ∈ t :: v, u.kind.isPlain false = false := h
    rcases List.mem_cons.mp hu with rfl | hu
    · rw [hplain] at hstop
      cases hstop
    · exact ⟨u, hu, hstop⟩

/-- Behind a plain token there is another. -/
theorem Ahead.peekNext_eq (h : Ahead v c d) (hholds : Holds nested v)
    (hplain : c.peek.kind.isPlain nested = true) : d.peekNext = c.peekNext := by
  cases v with
  | nil => exact absurd rfl hholds.ne_nil
  | cons t v =>
    rw [h.peek.1] at hplain
    rw [Cursor.peekNext_eq, Cursor.peekNext_eq, h.advance.peek_eq (hholds.tail hplain).ne_nil]

/-- A walk comes to an end before the token that holds it. -/
theorem Holds.after (h : Holds nested (us ++ v)) (htravels : Travels nested c us c')
    (hahead : v <+: c'.rest) : Holds nested v ∧ depth v = depth (us ++ v) := by
  cases nested with
  | true =>
    have hdeep : depth (us ++ v) < 0 := h
    have heven : depth us = 0 := htravels.even_of_ahead hahead (Int.le_of_lt hdeep)
    rw [depth_append, heven, Int.zero_add] at hdeep
    exact ⟨hdeep, by rw [depth_append, heven, Int.zero_add]⟩
  | false =>
    have hplain := htravels.flat rfl
    have heven : depth us = 0 := depth_eq_zero fun t ht => weight_of_isPlain (hplain t ht)
    obtain ⟨t, ht, hstop⟩ : ∃ t ∈ us ++ v, t.kind.isPlain false = false := h
    rcases List.mem_append.mp ht with ht | ht
    · rw [hplain t ht] at hstop
      cases hstop
    · exact ⟨⟨t, ht, hstop⟩, by rw [depth_append, heven, Int.zero_add]⟩

end Ahead

/-! ## Skipping -/

/-- The last token is a semicolon or a closing brace. -/
def Ended (v : List Token) : Prop :=
  ∃ t, v.getLast? = some t ∧ (t.kind = .punctuation .semicolon ∨ t.kind = .punctuation .rbrace)

namespace SyncPoint

variable {n n' : Nat} {t : Token} {v rest : List Token}

/-- `n` blocks deep, skipping does not get over all of `v`. -/
def Decides (n : Nat) (v : List Token) : Prop :=
  depth v < -(n : Int) ∨ (depth v = -(n : Int) ∧ Ended v)

theorem Decides.tail (h : Decides n (t :: rest)) (hn : (n' : Int) = n + t.kind.weight)
    (hgo : n' = 0 → t.kind ≠ .punctuation .semicolon ∧ t.kind ≠ .punctuation .rbrace) :
    Decides n' rest := by
  rw [Decides, depth_cons] at h
  rcases h with hdeep | ⟨heven, last, hlast, hkind⟩
  · left
    omega
  · right
    refine ⟨by omega, last, ?_, hkind⟩
    cases rest with
    | nil =>
      -- then `t` itself is the last one
      rw [depth_nil] at heven
      obtain rfl : t = last := by simpa using hlast
      have hother := hgo (by omega)
      rcases hkind with hkind | hkind
      · exact absurd hkind hother.1
      · exact absurd hkind hother.2
    | cons u rest => rwa [List.getLast?_cons_cons] at hlast

/-- Where skipping stops does not depend on what follows. -/
theorem Decides.skip_append {point : SyncPoint} (h : Decides n v) (x : List Token) :
    point.skip n (v ++ x) = point.skip n v := by
  fun_induction skip point n v with
  | case1 n =>
    rcases h with hdeep | ⟨-, last, hlast, -⟩
    · rw [depth_nil] at hdeep
      omega
    · cases hlast
  | case2 t rest hresume => rw [List.cons_append, skip, if_pos hresume]
  | case3 t rest hresume hsemi => rw [List.cons_append, skip, if_neg hresume, if_pos hsemi]
  | case4 t rest hresume hsemi hclose =>
    rw [List.cons_append, skip, if_neg hresume, if_neg hsemi, if_pos hclose]
  | case5 t rest hresume hsemi hclose hopen ih =>
    have hrest : Decides 1 rest := h.tail (by rw [hopen]; rfl) (by omega)
    rw [List.cons_append, skip, if_neg hresume, if_neg hsemi, if_neg hclose, if_pos hopen, ih hrest]
  | case6 t rest hresume hsemi hclose hopen ih =>
    have hrest : Decides 0 rest :=
      h.tail (by rw [weight_of_ne hopen hclose]; rfl) fun _ => ⟨hsemi, hclose⟩
    rw [List.cons_append, skip, if_neg hresume, if_neg hsemi, if_neg hclose, if_neg hopen, ih hrest]
  | case7 n t rest hopen ih =>
    have hrest : Decides (n + 2) rest := h.tail (by rw [hopen]; rfl) (by omega)
    rw [List.cons_append, skip, if_pos hopen, ih hrest]
  | case8 t rest hopen hclose =>
    rw [List.cons_append, skip, if_neg hopen, if_pos hclose, if_pos rfl]
  | case9 n t rest hopen hclose hn ih =>
    have hrest : Decides n rest :=
      h.tail (by rw [hclose, Token.Kind.weight]; omega) fun hzero => absurd hzero hn
    rw [List.cons_append, skip, if_neg hopen, if_pos hclose, if_neg hn, ih hrest]
  | case10 n t rest hopen hclose ih =>
    have hrest : Decides (n + 1) rest :=
      h.tail (by rw [weight_of_ne hopen hclose]; rfl) (by omega)
    rw [List.cons_append, skip, if_neg hopen, if_neg hclose, ih hrest]

end SyncPoint

/-! ## The same run from two cursors -/

namespace Parser

variable {α β : Type} {p : Parser α} {f : α → Parser β} {c c' d d' : Cursor}
  {us v v' : List Token} {nested eats : Bool} {seen : List Token} {reports : List Diagnostic}

/-- From both cursors `p` reads the tokens `us` and replies the same. -/
structure Agrees (p : Parser α) (c d : Cursor) (us : List Token) (o : Except Diagnostic α)
    (reports : List Diagnostic) (c' d' : Cursor) : Prop where
  left : p c = ⟨o, reports, c'⟩
  right : p d = ⟨o, reports, d'⟩
  readsLeft : Reads c us c'
  readsRight : Reads d us d'

/-- From both cursors `p` replies the same and reads no more than `v`, less if it gives up. -/
def Within (v : List Token) (p : Parser α) (c d : Cursor) : Prop :=
  ∃ us v' o reports c' d', v = us ++ v' ∧ Agrees p c d us o reports c' d' ∧
    ∀ e, o = .error e → v' ≠ []

theorem within_ok {a : α} (hv : v = us ++ v') (h : Agrees p c d us (.ok a) reports c' d') :
    Within v p c d :=
  ⟨us, v', .ok a, reports, c', d', hv, h, by simp⟩

theorem within_still {a : α} (hc : p c = ⟨.ok a, reports, c⟩) (hd : p d = ⟨.ok a, reports, d⟩) :
    Within v p c d :=
  within_ok (List.nil_append v).symm ⟨hc, hd, .nil c, .nil d⟩

theorem within_pure (a : α) : Within v (pure a) c d := within_still rfl rfl

theorem within_giveUp {e : Diagnostic} (hc : p c = ⟨.error e, reports, c⟩)
    (hd : p d = ⟨.error e, reports, d⟩) (hv : v ≠ []) : Within v p c d :=
  ⟨[], v, .error e, reports, c, d, rfl, ⟨hc, hd, .nil c, .nil d⟩, fun _ _ => hv⟩

/-- A part that was read, and the rest behind it. -/
theorem within_after {q : Parser β} {g : β → α} (hv : v = us ++ v')
    (hc : p c = ((q c').map g).after reports) (hd : p d = ((q d').map g).after reports)
    (hreads : Reads c us c') (hreads' : Reads d us d') (h : Within v' q c' d') :
    Within v p c d := by
  obtain ⟨vs, v'', o, later, c₂, d₂, rfl, hagrees, hfails⟩ := h
  refine ⟨us ++ vs, v'', o.map g, reports ++ later, c₂, d₂, by rw [hv, List.append_assoc],
    ⟨?_, ?_, hreads.trans hagrees.readsLeft, hreads'.trans hagrees.readsRight⟩, fun e he => ?_⟩
  · rw [hc, hagrees.left]
    rfl
  · rw [hd, hagrees.right]
    rfl
  · cases o with
    | ok a => cases he
    | error e' => exact hfails e' rfl

theorem within_bind (h : Within v p c d)
    (rest : ∀ {a us v' reports c' d'}, v = us ++ v' →
      Agrees p c d us (.ok a) reports c' d' → Within v' (f a) c' d') :
    Within v (p >>= f) c d := by
  obtain ⟨us, v', ⟨e⟩ | ⟨a⟩, reports, c', d', hv, hagrees, hfails⟩ := h
  · exact ⟨us, v', .error e, reports, c', d', hv, ⟨bind_of_error hagrees.left,
      bind_of_error hagrees.right, hagrees.readsLeft, hagrees.readsRight⟩, fun _ _ => hfails e rfl⟩
  · have hc : (p >>= f) c = ((f a c').map id).after reports := by
      rw [bind_of_ok hagrees.left, Reply.map_id]
    have hd : (p >>= f) d = ((f a d').map id).after reports := by
      rw [bind_of_ok hagrees.right, Reply.map_id]
    exact within_after hv hc hd hagrees.readsLeft hagrees.readsRight (rest hv hagrees)

theorem within_expect_bind {f : Token → Parser β} {t : Token} {demand : Demand}
    (h : Ahead (t :: v) c d)
    (rest : demand.expected.admits t.kind = true → Within v (f t) c.advance d.advance) :
    Within (t :: v) (expect demand >>= f) c d := by
  obtain ⟨hc, hd⟩ := h.peek
  by_cases hadmits : demand.expected.admits t.kind = true
  · have hleft : (expect demand >>= f) c = ((f t c.advance).map id).after [] := by
      rw [bind_of_ok (expect_of_admits (by rwa [hc])), hc, Reply.map_id]
    have hright : (expect demand >>= f) d = ((f t d.advance).map id).after [] := by
      rw [bind_of_ok (expect_of_admits (by rwa [hd])), hd, Reply.map_id]
    exact within_after (List.singleton_append).symm hleft hright h.reads.1 h.reads.2 (rest hadmits)
  · have hfails : ∀ {c : Cursor}, c.peek = t →
        (expect demand >>= f) c = ⟨.error (.unexpected demand t), [], c⟩ := by
      intro c hpeek
      rw [bind_of_error (expect_of_not_admits (by rwa [hpeek])), hpeek]
    exact within_giveUp (hfails hc) (hfails hd) (by simp)

theorem within_advance (h : Ahead v c d) (hv : v ≠ []) : Within v advance c d := by
  cases v with
  | nil => exact absurd rfl hv
  | cons t v =>
    have hleft : Parser.advance c = ⟨.ok t, [], c.advance⟩ := by
      rw [← h.peek.1]
      rfl
    have hright : Parser.advance d = ⟨.ok t, [], d.advance⟩ := by
      rw [← h.peek.2]
      rfl
    exact within_ok (List.singleton_append).symm ⟨hleft, hright, h.reads.1, h.reads.2⟩

/-! ## Recovery -/

theorem reads_synchronize (point : SyncPoint) (hahead : v <+: c.rest)
    (hdecides : SyncPoint.Decides 0 v) :
    Reads c (v.take (point.skip 0 v)) (c.synchronize point) := by
  obtain ⟨x, hx⟩ := hahead
  have hskip : point.skip 0 c.rest = point.skip 0 v := by rw [← hx, hdecides.skip_append x]
  have hinside := (SyncPoint.skip_leaves point 0 v).inside
  have hlen : point.skip 0 v ≤ c.rest.length := by
    rw [← hx, List.length_append]
    omega
  have hreads := reads_skip hlen
  rw [← hx, List.take_append_of_le_length hinside] at hreads
  rwa [Cursor.synchronize, hskip]

theorem recover_within {point : SyncPoint} (h : Within v p c d) (hahead : Ahead v c d)
    (hv : v ≠ []) (hdecides : ∀ {us v'}, v = us ++ v' → Reads c us (p c).cursor → v' ≠ [] →
      SyncPoint.Decides 0 v') : Within v (recover point p) c d := by
  obtain ⟨us, v', ⟨e⟩ | ⟨a⟩, reports, c', d', rfl, hagrees, hfails⟩ := h
  · have hdec : SyncPoint.Decides 0 v' := by
      refine hdecides rfl ?_ (hfails e rfl)
      rw [hagrees.left]
      exact hagrees.readsLeft
    have hahead' := hahead.after hagrees.readsLeft hagrees.readsRight
    have hc := hagrees.readsLeft.trans (reads_synchronize point hahead'.left hdec)
    have hd := hagrees.readsRight.trans (reads_synchronize point hahead'.right hdec)
    have hleft := recover_error point hagrees.left hc
    have hright := recover_error point hagrees.right hd
    by_cases hnone : us ++ v'.take (point.skip 0 v') = []
    · rw [if_pos hnone] at hleft hright
      cases hsplit : us ++ v' with
      | nil => exact absurd hsplit hv
      | cons t rest =>
        rw [hsplit] at hahead
        exact within_ok (List.singleton_append).symm
          ⟨hleft, hright, hahead.reads.1, hahead.reads.2⟩
    · rw [if_neg hnone] at hleft hright
      have hsplit : us ++ v' =
          us ++ v'.take (point.skip 0 v') ++ v'.drop (point.skip 0 v') := by
        rw [List.append_assoc, List.take_append_drop]
      exact within_ok hsplit ⟨hleft, hright, hc, hd⟩
  · have hleft : recover point p c = ⟨.ok (some a), reports, c'⟩ := by rw [recover, hagrees.left]
    have hright : recover point p d = ⟨.ok (some a), reports, d'⟩ := by rw [recover, hagrees.right]
    exact within_ok rfl ⟨hleft, hright, hagrees.readsLeft, hagrees.readsRight⟩

theorem block_within {stmt : Parser (Stmt Location)} {demand : Demand}
    (opens : demand.expected = .token (.punctuation .lbrace)) (hahead : Ahead v c d) (hv : v ≠ [])
    (hdepth : depth v ≤ 0) (hgoes : ∀ c, Goes true false (bodyOf .statement stmt) c)
    (hbody : ∀ {v c d}, Ahead v c d → Holds true v → Within v (bodyOf .statement stmt) c d) :
    Within v (block stmt demand) c d := by
  cases v with
  | nil => exact absurd rfl hv
  | cons t v =>
    refine within_expect_bind hahead fun hadmits => ?_
    have hopen : t.kind = .punctuation .lbrace := kind_of_admits opens hadmits
    have hholds : Holds true v := by
      rw [depth_cons, hopen, Token.Kind.weight] at hdepth
      change depth v < 0
      omega
    have hahead' := hahead.advance
    refine within_bind (hbody hahead' hholds) fun {a us v' reports c' d'} hv' hagrees => ?_
    subst hv'
    have hrest := hahead'.after hagrees.readsLeft hagrees.readsRight
    have htravels := (hgoes c.advance).travels hagrees.left hagrees.readsLeft
    have hmore := (hholds.after htravels hrest.left).1.ne_nil
    cases v' with
    | nil => exact absurd rfl hmore
    | cons r v' => exact within_expect_bind hrest fun _ => within_pure _

/-! ## Walks -/

theorem last_eq_of_reads (hc : Reads c us c') (hd : Reads d us d')
    (h : us = [] → c.last = d.last) : c'.last = d'.last := by
  induction hc generalizing d with
  | nil c =>
    rw [hd.of_nil]
    exact h rfl
  | cons next more ih =>
    cases hd with
    | cons next' more' =>
      refine ih more' fun _ => ?_
      rw [advance_last next, advance_last next']

/-- Cursors that what walks does not tell apart. -/
structure Alike (nested : Bool) (seen v : List Token) (c d : Cursor) : Prop where
  ahead : Ahead v c d
  holds : Holds nested v
  last : seen ≠ [] → c.last = d.last

/-- Behind a walk they are still alike. -/
theorem Alike.after {o : Except Diagnostic α} (h : Alike nested seen (us ++ v) c d)
    (hwalks : Walks nested eats seen p c) (hagrees : Agrees p c d us o reports c' d') :
    Alike nested (seen ++ us) v c' d' := by
  have htravels := hwalks.goes.travels hagrees.left hagrees.readsLeft
  have hahead := h.ahead.after hagrees.readsLeft hagrees.readsRight
  refine ⟨hahead, (h.holds.after htravels hahead.left).1, fun hseen => ?_⟩
  refine last_eq_of_reads hagrees.readsLeft hagrees.readsRight fun hus => h.last ?_
  simpa [hus] using hseen

/-- **Walks are local.** Nothing but the tokens that are read and the next one decides how a walk
goes. -/
theorem Walks.within (h : Walks nested eats seen p c) (halike : Alike nested seen v c d) :
    Within v p c d := by
  induction h generalizing v d with
  | pure a => exact within_pure a
  | bind first rest one ih ih' =>
    refine within_bind (ih halike) fun {a us v' reports c' d'} hv hagrees => ?_
    subst hv
    refine ih' hagrees.left hagrees.readsLeft (fun he => ?_) (halike.after first hagrees)
    subst he
    exact first.goes.ne_nil hagrees.left hagrees.readsLeft
  | @map eats seen α β p c g inner ih =>
    have hcursor (c : Cursor) : (p c).map g = ((p c).map g).after [] := rfl
    exact within_after (List.nil_append v).symm (hcursor c) (hcursor d) (.nil c) (.nil d)
      (ih halike)
  | @look seen α c g =>
    have hright : Reply.ok (g d.peek) d = ⟨.ok (g c.peek), [], d⟩ := by
      rw [halike.ahead.peek_eq halike.holds.ne_nil]
      rfl
    exact within_still rfl hright
  | @lookNext seen c name =>
    have hright : peekNextKind d = ⟨.ok c.peekNext.kind, [], d⟩ := by
      rw [← halike.ahead.peekNext_eq halike.holds (by rw [name]; rfl)]
      rfl
    exact within_still rfl hright
  | @atEnd seen c =>
    have hright : Parser.atEnd d = ⟨.ok c.atEnd, [], d⟩ := by
      rw [← halike.ahead.atEnd_eq halike.holds.ne_nil]
      rfl
    exact within_still rfl hright
  | @locationFrom seen c start read =>
    have hright : Parser.locationFrom start d = ⟨.ok (c.locationFrom start), [], d⟩ := by
      rw [Cursor.locationFrom, halike.last read]
      rfl
    exact within_still rfl hright
  | @advance eats seen c plain => exact within_advance halike.ahead halike.holds.ne_nil
  | @giveUp eats seen α c e marks =>
    have hright : (.error (e d.peek) d : Reply α) = ⟨.error (e c.peek), [], d⟩ := by
      rw [halike.ahead.peek_eq halike.holds.ne_nil]
      rfl
    exact within_giveUp rfl hright halike.holds.ne_nil
  | log marks place => exact within_still rfl rfl
  | @iterate seen β σ step s c first rest ih ih' =>
    obtain ⟨us, v', ⟨e⟩ | ⟨_ | ⟨b, s'⟩⟩, reports, c', d', rfl, hagrees, hfails⟩ := ih halike
    · exact ⟨us, v', .error e, reports, c', d', rfl, ⟨iterate_error hagrees.left,
        iterate_error hagrees.right, hagrees.readsLeft, hagrees.readsRight⟩,
        fun _ _ => hfails e rfl⟩
    · exact within_ok rfl ⟨iterate_stop hagrees.left, iterate_stop hagrees.right,
        hagrees.readsLeft, hagrees.readsRight⟩
    · have hc := hagrees.readsLeft.length_eq
      have hd := hagrees.readsRight.length_eq
      by_cases hlt : c'.rest.length < c.rest.length
      · exact within_after rfl (iterate_next hagrees.left hlt)
          (iterate_next hagrees.right (by omega)) hagrees.readsLeft hagrees.readsRight
          (ih' hagrees.left hagrees.readsLeft hlt (halike.after first hagrees))
      · exact within_ok rfl ⟨iterate_stuck hagrees.left hlt, iterate_stuck hagrees.right (by omega),
          hagrees.readsLeft, hagrees.readsRight⟩
  | recover point deep inner ahead inside ih =>
    subst deep
    refine recover_within (ih halike) halike.ahead halike.holds.ne_nil fun {us v'} hv hreads _ => ?_
    subst hv
    have htravels := inner.goes.travels rfl hreads
    exact .inl (halike.holds.after htravels (prefix_of_reads halike.ahead.left hreads)).1
  | block deep opens items body ih ih' =>
    subst deep
    refine block_within opens halike.ahead halike.holds.ne_nil (Int.le_of_lt halike.holds)
      (fun c => (body [] c).goes) fun {v c d} hahead hholds => ?_
    exact ih' [] c ⟨hahead, hholds, by simp⟩

/-- What a walk accepts it accepts wherever the same tokens stand, with the same ones behind them up
to one that ends the walk. -/
theorem Walks.elsewhere {a : α} (h : Walks nested eats [] p c) (haccepts : Accepts p c a c')
    (hc : Reads c us c') (hd : Reads d us d') (hahead : Ahead v c' d')
    (hholds : Holds nested (us ++ v)) : Accepts p d a d' := by
  obtain ⟨vs, v', o, reports, c₁, d₁, -, hagrees, -⟩ :=
    h.within ⟨hahead.before hc hd, hholds, by simp⟩
  cases haccepts.symm.trans hagrees.left
  obtain rfl := hc.unique hagrees.readsLeft
  rw [hd.eq_skip, ← hagrees.readsRight.eq_skip]
  exact hagrees.right

end Parser

end JavaSubset
