import JavaSubset.CommandLine.Invocation

/-!
# Sessions line by line

* `linesBetween` : the lines of an input as what stands between its line feeds; they are the lines
  a session reads (`inputLines_eq`);
* `exists_decode?_of_mem` : the lines of a text are texts;
* `rounds` : what a session does on lines that it checks. These lines come in front of whatever the
  session does on later ones (`sessionLines_append`);
* `runPrompt_append` : a session goes on as if it had just begun.
-/

namespace JavaSubset

/-! ## Lines -/

/-- A line without the carriage return at its end. -/
def chomp (line : List UInt8) : List UInt8 :=
  if line.getLast? = some 13 then line.dropLast else line

/-- The lines that the parts between line feeds make. The last part has no line feed behind it: it
stays as it is, and if it is empty it is no line. -/
def linesOfParts : List (List UInt8) → List (List UInt8)
  | [] => []
  | [last] => if last = [] then [] else [last]
  | part :: next :: parts => chomp part :: linesOfParts (next :: parts)

/-- The lines of an input, split at its line feeds. -/
def linesBetween (input : List UInt8) : List (List UInt8) := linesOfParts (input.splitOn 10)

section Lines

variable {b : UInt8} {part rest : List UInt8} {parts more : List (List UInt8)}

theorem chomp_cons (h : part ≠ []) : chomp (b :: part) = b :: chomp part := by
  obtain ⟨c, cs, rfl⟩ := List.exists_cons_of_ne_nil h
  unfold chomp
  rw [List.getLast?_cons_cons]
  split <;> rfl

theorem linesOfParts_append (h : more ≠ []) :
    linesOfParts (parts ++ more) = parts.map chomp ++ linesOfParts more := by
  induction parts with
  | nil => rfl
  | cons part parts ih =>
    obtain ⟨next, later, hnext⟩ :=
      List.exists_cons_of_ne_nil (List.append_ne_nil_of_right_ne_nil parts h)
    rw [List.cons_append, hnext, linesOfParts, ← hnext, ih]
    rfl

theorem splitOn_cons_newline : (10 :: rest).splitOn 10 = [] :: rest.splitOn 10 := by
  rw [List.splitOn_cons_eq_if_modifyHead]
  rfl

theorem splitOn_cons_of_ne (h : b ≠ 10) (hparts : rest.splitOn 10 = part :: parts) :
    (b :: rest).splitOn 10 = (b :: part) :: parts := by
  rw [List.splitOn_cons_eq_if_modifyHead, if_neg (by simpa using h), hparts]
  rfl

/-- The first part is empty exactly if the input starts with a line feed. -/
theorem splitOn_newline (rest : List UInt8) :
    (∃ parts, parts ≠ [] ∧ rest.splitOn 10 = [] :: parts) ↔ rest.head? = some 10 := by
  cases rest with
  | nil => simp
  | cons c rest =>
    obtain ⟨part, parts, hparts⟩ := List.exists_cons_of_ne_nil (List.splitOn_ne_nil 10 rest)
    by_cases hc : c = 10
    · simp [hc, splitOn_cons_newline, List.splitOn_ne_nil]
    · simp [hc, splitOn_cons_of_ne hc hparts]

/-- The lines a session reads are those between line feeds. -/
theorem inputLines_eq (input : List UInt8) : inputLines input = linesBetween input := by
  induction input with
  | nil => rfl
  | cons b rest ih =>
    obtain ⟨part, parts, hparts⟩ := List.exists_cons_of_ne_nil (List.splitOn_ne_nil 10 rest)
    rw [linesBetween, hparts] at ih
    rw [linesBetween, inputLines]
    by_cases hline : b = 10
    · rw [if_pos hline, hline, splitOn_cons_newline, hparts, linesOfParts, ih]
      rfl
    · rw [if_neg hline, splitOn_cons_of_ne hline hparts]
      have hempty := splitOn_newline rest
      rw [hparts] at hempty
      cases parts with
      | nil =>
        have hhead : rest.head? ≠ some 10 := by simpa using hempty
        rw [if_neg (fun h => hhead h.2), ih]
        by_cases hpart : part = [] <;> simp [hpart, linesOfParts]
      | cons next parts =>
        by_cases hpart : part = []
        · -- the line feed follows at once, so a carriage return here is dropped
          have hhead : rest.head? = some 10 := hempty.mp ⟨_, List.cons_ne_nil _ _, by rw [hpart]⟩
          subst hpart
          by_cases hreturn : b = 13 <;> simp [hreturn, hhead, ih, linesOfParts, chomp]
        · have hhead : rest.head? ≠ some 10 := by
            intro h
            obtain ⟨_, -, heq⟩ := hempty.mpr h
            exact hpart (List.cons.inj heq).1
          rw [if_neg (fun h => hhead h.2), ih, linesOfParts, linesOfParts, chomp_cons hpart]

/-- Behind a line feed the lines start anew. -/
theorem linesBetween_newline (before after : List UInt8) :
    linesBetween (before ++ 10 :: after) =
      (before.splitOn 10).map chomp ++ linesBetween after := by
  rw [linesBetween, List.splitOn_append_cons_self,
    linesOfParts_append (List.splitOn_ne_nil 10 after), linesBetween]

theorem linesBetween_append {a b : List UInt8} (h : a = [] ∨ a.getLast? = some 10) :
    linesBetween (a ++ b) = linesBetween a ++ linesBetween b := by
  rcases h with rfl | h
  · rfl
  · obtain ⟨before, rfl⟩ := List.getLast?_eq_some_iff.mp h
    rw [List.append_assoc, List.singleton_append, linesBetween_newline, linesBetween_newline]
    exact congrArg (· ++ _) (List.append_nil _).symm

end Lines

/-! ## Texts as bytes -/

/-- The bytes of a text. -/
def encode (text : List Char) : List UInt8 := text.flatMap String.utf8EncodeChar

theorem decode?_eq_some_iff {bytes : List UInt8} {text : String} :
    decode? bytes = some text ↔ text.toByteArray = bytes.toByteArray := by
  have hdata : (⟨bytes.toArray⟩ : ByteArray) = bytes.toByteArray := ByteArray.ext (by simp)
  rw [decode?, hdata, String.fromUTF8?]
  constructor
  · intro h
    split at h <;> cases h
    rfl
  · intro h
    rw [← h, dif_pos text.isValidUTF8]
    rfl

theorem decode?_encode (text : List Char) : decode? (encode text) = some (String.ofList text) :=
  decode?_eq_some_iff.mpr String.toByteArray_ofList

theorem eq_encode_of_decode? {bytes : List UInt8} {text : String} (h : decode? bytes = some text) :
    bytes = encode text.toList := by
  rw [← List.toByteArray_inj, ← decode?_eq_some_iff.mp h]
  conv => lhs; rw [← text.ofList_toList, String.toByteArray_ofList]
  rfl

/-- A character is one byte below 128, or all its bytes are above. -/
theorem utf8EncodeChar_cases (c : Char) :
    String.utf8EncodeChar c = [UInt8.ofNat c.toNat] ∧ c.toNat < 128 ∨
      ∀ b ∈ String.utf8EncodeChar c, 128 ≤ b.toNat := by
  have hval : c.val.toNat = c.toNat := rfl
  unfold String.utf8EncodeChar
  simp only [hval]
  split
  · exact .inl ⟨rfl, by omega⟩
  · refine .inr ?_
    have hbyte : ∀ n, 128 ≤ n → n < 256 → 128 ≤ (UInt8.ofNat n).toNat := by
      intro n hn hn'
      rw [UInt8.toNat_ofNat', Nat.mod_eq_of_lt hn']
      exact hn
    split
    · simp only [List.forall_mem_cons]
      refine ⟨hbyte _ ?_ ?_, hbyte _ ?_ ?_, by simp⟩ <;> omega
    · split
      · simp only [List.forall_mem_cons]
        refine ⟨hbyte _ ?_ ?_, hbyte _ ?_ ?_, hbyte _ ?_ ?_, by simp⟩ <;> omega
      · simp only [List.forall_mem_cons]
        refine ⟨hbyte _ ?_ ?_, hbyte _ ?_ ?_, hbyte _ ?_ ?_, hbyte _ ?_ ?_, by simp⟩ <;> omega

/-- A byte below 128 stands for a character of its own. -/
theorem eq_of_mem_utf8EncodeChar {c d : Char} (hd : d.toNat < 128)
    (h : UInt8.ofNat d.toNat ∈ String.utf8EncodeChar c) : c = d := by
  have hbyte : ∀ e : Char, e.toNat < 128 → (UInt8.ofNat e.toNat).toNat = e.toNat := by
    intro e he
    rw [UInt8.toNat_ofNat']
    omega
  rcases utf8EncodeChar_cases c with ⟨hc, hsmall⟩ | hlarge
  · rw [hc, List.mem_singleton] at h
    have hnat := congrArg UInt8.toNat h
    rw [hbyte d hd, hbyte c hsmall] at hnat
    exact Char.toNat_inj.mp hnat.symm
  · have hle := hlarge _ h
    rw [hbyte d hd] at hle
    omega

/-! ## The lines of a text -/

section Text

variable {bytes rest part : List UInt8} {parts : List (List UInt8)} {text : List Char}

theorem splitOn_append (h : 10 ∉ bytes) (hparts : rest.splitOn 10 = part :: parts) :
    (bytes ++ rest).splitOn 10 = (bytes ++ part) :: parts := by
  induction bytes with
  | nil => exact hparts
  | cons b bytes ih =>
    rw [List.mem_cons, not_or] at h
    obtain ⟨hb, hbytes⟩ := h
    exact splitOn_cons_of_ne (Ne.symm hb) (ih hbytes)

/-- Between line feeds of a text there are texts. -/
theorem splitOn_encode (text : List Char) :
    (encode text).splitOn 10 = (text.splitOn '\n').map encode := by
  induction text with
  | nil => rfl
  | cons c text ih =>
    obtain ⟨first, later, hsplit⟩ := List.exists_cons_of_ne_nil (List.splitOn_ne_nil '\n' text)
    rw [encode, List.flatMap_cons, ← encode, List.splitOn_cons_eq_if_modifyHead]
    by_cases hc : c = '\n'
    · rw [if_pos (by simpa using hc), hc, List.map_cons, ← ih]
      exact splitOn_cons_newline
    · have hbytes : 10 ∉ String.utf8EncodeChar c :=
        fun h => hc (eq_of_mem_utf8EncodeChar (d := '\n') (by decide) h)
      rw [hsplit, List.map_cons] at ih
      rw [if_neg (by simpa using hc), hsplit, splitOn_append hbytes ih]
      rfl

theorem utf8EncodeChar_ne_nil (c : Char) : String.utf8EncodeChar c ≠ [] := by
  rw [← List.length_pos_iff, String.length_utf8EncodeChar]
  exact c.utf8Size_pos

/-- A text without a carriage return at its end is a text. -/
theorem chomp_encode (text : List Char) : ∃ line, chomp (encode text) = encode line := by
  unfold chomp
  split
  · next hreturn =>
    rcases List.eq_nil_or_concat text with rfl | ⟨line, c, rfl⟩
    · cases hreturn
    · have hencode : encode (line.concat c) = encode line ++ String.utf8EncodeChar c := by
        rw [List.concat_eq_append, encode, List.flatMap_append, List.flatMap_singleton, ← encode]
      rw [hencode, List.getLast?_append, List.getLast?_eq_some_getLast (utf8EncodeChar_ne_nil c),
        Option.some_or, Option.some_inj] at hreturn
      have hmem : 13 ∈ String.utf8EncodeChar c := hreturn ▸ List.getLast_mem _
      obtain rfl := eq_of_mem_utf8EncodeChar (d := '\r') (by decide) hmem
      refine ⟨line, ?_⟩
      rw [hencode]
      exact List.dropLast_concat
  · exact ⟨text, rfl⟩

theorem mem_linesOfParts {line : List UInt8} (h : line ∈ linesOfParts parts) :
    ∃ part ∈ parts, line = part ∨ line = chomp part := by
  induction parts with
  | nil => cases h
  | cons part parts ih =>
    cases parts with
    | nil =>
      have hline : part ≠ [] ∧ line = part := by
        by_cases hpart : part = [] <;> simp_all [linesOfParts]
      exact ⟨part, List.mem_cons_self, .inl hline.2⟩
    | cons next parts =>
      rw [linesOfParts, List.mem_cons] at h
      rcases h with rfl | h
      · exact ⟨part, List.mem_cons_self, .inr rfl⟩
      · obtain ⟨found, hfound, hline⟩ := ih h
        exact ⟨found, List.mem_cons_of_mem _ hfound, hline⟩

/-- The lines of a text are texts. -/
theorem exists_decode?_of_mem {line : List UInt8} (h : (decode? bytes).isSome = true)
    (hline : line ∈ linesBetween bytes) : ∃ text, decode? line = some text := by
  obtain ⟨text, htext⟩ := Option.isSome_iff_exists.mp h
  rw [linesBetween, eq_encode_of_decode? htext, splitOn_encode] at hline
  obtain ⟨part, hpart, hline⟩ := mem_linesOfParts hline
  obtain ⟨chars, -, rfl⟩ := List.mem_map.mp hpart
  rcases hline with rfl | rfl
  · exact ⟨_, decode?_encode chars⟩
  · obtain ⟨chars', heq⟩ := chomp_encode chars
    rw [heq]
    exact ⟨_, decode?_encode chars'⟩

end Text

/-! ## What is written -/

/-- All that actions write on a channel. -/
def written (channel : Channel) (actions : List Action) : String :=
  String.join (actions.map (·.textOn channel))

theorem written_append (channel : Channel) (first later : List Action) :
    written channel (first ++ later) = written channel first ++ written channel later := by
  rw [written, List.map_append, String.join_append, written, written]

/-- Streams that do not fail take everything. -/
theorem perform_faultless (actions : List Action) :
    perform {} actions = ⟨written .out actions, written .err actions, none⟩ := by
  induction actions with
  | nil => rfl
  | cons action more ih =>
    have hnone : ({} : Faults).refusal action = none := by
      cases action with
      | write channel text => cases channel <;> rfl
      | flush => rfl
    simp only [perform, hnone, ih, written, List.map_cons, String.join_cons]

/-! ## Rounds -/

section Rounds

variable {render : Renderer} {options : Options} {lines more : List (List UInt8)}
  {texts : List String}

/-- What a session does on lines that it checks. -/
def rounds (render : Renderer) (options : Options) (texts : List String) : List Action :=
  texts.flatMap fun text => prompt ++ answer render options text

theorem ofLine_eq_check {line : List UInt8} {text : String} (h : decode? line = some text)
    (hexit : text ≠ "exit") : Request.ofLine line = .check text := by
  simp only [Request.ofLine, h, if_neg hexit]

/-- Lines that are checked come first, and the session goes on with the others. -/
theorem sessionLines_append (h : lines.map Request.ofLine = texts.map .check) :
    sessionLines render options (lines ++ more) =
      ⟨rounds render options texts ++ (sessionLines render options more).actions,
        (sessionLines render options more).ending⟩ := by
  induction lines generalizing texts with
  | nil =>
    cases texts with
    | nil => rfl
    | cons => cases h
  | cons line lines ih =>
    cases texts with
    | nil => cases h
    | cons text texts =>
      obtain ⟨hline, hlines⟩ := List.cons.inj h
      rw [List.cons_append, sessionLines, hline, ih hlines]
      simp only [rounds, List.flatMap_cons, List.append_assoc]

/-- The session breaks off at a line that is not UTF-8, unless an earlier one says `exit`. -/
def BreaksOff (lines : List (List UInt8)) : Prop :=
  ∃ before line after, lines = before ++ line :: after ∧ decode? line = none ∧
    ∀ earlier ∈ before, decode? earlier ≠ some "exit"

theorem breaksOff_cons {line : List UInt8} :
    BreaksOff (line :: more) ↔
      decode? line = none ∨ decode? line ≠ some "exit" ∧ BreaksOff more := by
  constructor
  · rintro ⟨before, found, after, heq, hfound, hbefore⟩
    cases before with
    | nil =>
      cases heq
      exact .inl hfound
    | cons first before =>
      cases heq
      obtain ⟨hfirst, hbefore⟩ := List.forall_mem_cons.mp hbefore
      exact .inr ⟨hfirst, before, found, after, rfl, hfound, hbefore⟩
  · rintro (hnone | ⟨hline, before, found, after, rfl, hfound, hbefore⟩)
    · exact ⟨[], line, more, rfl, hnone, by simp⟩
    · exact ⟨line :: before, found, after, rfl, hfound, List.forall_mem_cons.mpr ⟨hline, hbefore⟩⟩

theorem ending_eq_notUtf8_iff :
    (sessionLines render options lines).ending = .notUtf8 ↔ BreaksOff lines := by
  induction lines with
  | nil =>
    refine iff_of_false (by simp [sessionLines]) ?_
    rintro ⟨before, line, after, heq, -⟩
    simp at heq
  | cons line more ih =>
    rw [breaksOff_cons, sessionLines]
    cases hline : decode? line with
    | none => simp [Request.ofLine, hline]
    | some text =>
      by_cases hexit : text = "exit"
      · simp [Request.ofLine, hline, hexit]
      · rw [ofLine_eq_check hline hexit]
        simp [ih, hexit]

end Rounds

/-! ## Whole sessions -/

theorem runPrompt_faultless (render : Renderer) (options : Options) (input : List UInt8) :
    runPrompt options {} input render =
      ⟨written .out (session render options input).actions,
        written .err (session render options input).actions,
        (session render options input).ending.result⟩ := by
  rw [runPrompt, runActions, perform_faultless]

/-- Lines that are texts, none of them `exit`, are checked one after the other. -/
theorem exists_texts {lines : List (List UInt8)}
    (h : ∀ line ∈ lines, ∃ text, decode? line = some text)
    (hexit : ∀ line ∈ lines, decode? line ≠ some "exit") :
    ∃ texts : List String, lines.map decode? = texts.map some ∧
      lines.map Request.ofLine = texts.map .check := by
  induction lines with
  | nil => exact ⟨[], rfl, rfl⟩
  | cons line lines ih =>
    obtain ⟨⟨text, htext⟩, h⟩ := List.forall_mem_cons.mp h
    obtain ⟨hline, hexit⟩ := List.forall_mem_cons.mp hexit
    obtain ⟨texts, hdecode, hrequests⟩ := ih h hexit
    have hcheck := ofLine_eq_check htext fun heq => hline (heq ▸ htext)
    exact ⟨text :: texts, by simp [htext, hdecode], by simp [hcheck, hrequests]⟩

/-- What a session writes on lines that are all checked. -/
theorem session_checked {render : Renderer} {options : Options} {a : List UInt8}
    {texts : List String} (h : (inputLines a).map Request.ofLine = texts.map .check) :
    session render options a = ⟨rounds render options texts ++ prompt, .finished⟩ := by
  rw [session, ← List.append_nil (inputLines a), sessionLines_append h]
  rfl

theorem result_of_breaksOff (render : Renderer) (options : Options) {b : List UInt8}
    (h : BreaksOff (linesBetween b)) :
    (runPrompt options {} b render).result = .error (.io notUtf8Reason) := by
  rw [← inputLines_eq, ← ending_eq_notUtf8_iff, ← session] at h
  rw [runPrompt_faultless, h]
  rfl

theorem result_of_not_breaksOff (render : Renderer) (options : Options) {b : List UInt8}
    (h : ¬ BreaksOff (linesBetween b)) :
    (runPrompt options {} b render).result = .ok ExitCode.success := by
  rw [← inputLines_eq, ← ending_eq_notUtf8_iff, ← session] at h
  rw [runPrompt_faultless]
  cases hending : (session render options b).ending with
  | finished => rfl
  | notUtf8 => exact absurd hending h

/-- **A session goes on as if it had just begun.** Behind lines of text, none of which says `exit`,
the rest of the input is answered as if it stood alone. Each of these lines is checked by itself,
and how the session ends is up to the rest: only a line that is not UTF-8 makes it fail. -/
theorem runPrompt_append (render : Renderer) (options : Options) {a b : List UInt8}
    (hutf8 : (decode? a).isSome = true) (hend : a = [] ∨ a.getLast? = some 10)
    (hexit : ∀ line ∈ linesBetween a, decode? line ≠ some "exit") :
    let run := fun input => runPrompt options {} input render
    (∃ texts, (linesBetween a).map decode? = texts.map some ∧
      (run a).out = written .out (rounds render options texts) ++ "> " ∧
      (run (a ++ b)).out = written .out (rounds render options texts) ++ (run b).out) ∧
    (run (a ++ b)).err = (run a).err ++ (run b).err ∧
    (run (a ++ b)).result = (run b).result ∧
    (BreaksOff (linesBetween b) →
      (run b).result = .error (.io notUtf8Reason) ∧ (run b).exit.code = 74) ∧
    (¬ BreaksOff (linesBetween b) → (run b).result = .ok 0 ∧ (run b).exit.code = 0) := by
  intro run
  have hrun : ∀ input, run input = _ := runPrompt_faultless render options
  obtain ⟨texts, hdecode, hrequests⟩ :=
    exists_texts (fun line => exists_decode?_of_mem hutf8) hexit
  rw [← inputLines_eq] at hrequests
  have hfirst : session render options a = ⟨rounds render options texts ++ prompt, .finished⟩ :=
    session_checked hrequests
  have hboth : session render options (a ++ b) =
      ⟨rounds render options texts ++ (session render options b).actions,
        (session render options b).ending⟩ := by
    rw [session, inputLines_eq, linesBetween_append hend, ← inputLines_eq, ← inputLines_eq,
      sessionLines_append hrequests, session]
  refine ⟨⟨texts, hdecode, ?_, ?_⟩, ?_, ?_, ?_, ?_⟩
  · rw [hrun, hfirst]
    exact written_append ..
  · rw [hrun, hboth, hrun]
    exact written_append ..
  · rw [hrun, hboth, hrun, hfirst, hrun]
    change written .err (_ ++ _) = written .err (_ ++ _) ++ _
    rw [written_append, written_append]
    exact congrArg (· ++ _) String.append_empty.symm
  · rw [hrun, hboth, hrun]
  · intro h
    have hresult := result_of_breaksOff render options h
    exact ⟨hresult, by rw [Run.exit, hresult]; rfl⟩
  · intro h
    have hresult := result_of_not_breaksOff render options h
    exact ⟨hresult, by rw [Run.exit, hresult]; rfl⟩

/-- A class and an illegal character on lines of their own, then a line that is not UTF-8 and one
that says `exit` too late. -/
theorem runPrompt_append_broken_line :
    let a := encode "class A \x7b\x7d\r\n@ é\n".toList
    let b := encode "int\n".toList ++ 255 :: encode "\nexit\n".toList
    let options : Options := ⟨true, true, false⟩
    let run := fun input => runPrompt options {} input .oneLine
    (decode? a).isSome = true ∧ a.getLast? = some 10 ∧
      (∀ line ∈ linesBetween a, decode? line ≠ some "exit") ∧ BreaksOff (linesBetween b) ∧
      (∃ texts, (linesBetween a).map decode? = texts.map some ∧
        (run a).out = written .out (rounds .oneLine options texts) ++ "> " ∧
        (run (a ++ b)).out = written .out (rounds .oneLine options texts) ++ (run b).out) ∧
      (run (a ++ b)).err = (run a).err ++ (run b).err ∧
      (run (a ++ b)).result = .error (.io notUtf8Reason) := by
  intro a b options run
  have hutf8 : (decode? a).isSome = true := by rw [decode?_encode]; rfl
  have hend : a.getLast? = some 10 := by decide +kernel
  have hexit : ∀ line ∈ linesBetween a, decode? line ≠ some "exit" := by decide +kernel
  have hbreaks : BreaksOff (linesBetween b) := by
    refine ⟨[encode "int".toList], [255], [encode "exit".toList], ?_, ?_, ?_⟩ <;> decide +kernel
  obtain ⟨hout, herr, hresult, hfails, -⟩ :=
    runPrompt_append .oneLine options hutf8 (.inr hend) hexit
  exact ⟨hutf8, hend, hexit, hbreaks, hout, herr, hresult.trans (hfails hbreaks).1⟩

end JavaSubset
