/-!
# Text without terminal commands

A terminal takes an escape character for the start of a command, such as a change of colour, and
obeys most control characters. `plainText` leaves out what a terminal would not show, so text from
outside can be part of a message: the commands, also one that is cut off by the end of the text,
and the control characters that do not lay text out. What is left keeps its order
(`TerminalMode.shown_sublist`), and text without control characters stays as it is
(`plainText_eq_self`).
-/

namespace JavaSubset

/-- What a terminal is reading. -/
inductive TerminalMode where
  /-- Characters to show. -/
  | text
  /-- A command of which only the escape character has come. -/
  | escape
  /-- A command that ends with a letter, digit or sign. -/
  | charset
  /-- A command that ends with a letter, after numbers. -/
  | control
  /-- A command for the window, which a bell ends. -/
  | window
  /-- A command for a device, which lasts up to the next escape character. -/
  | device
  deriving DecidableEq

namespace TerminalMode

/-- The control characters that lay text out. -/
def isLayout (c : Char) : Bool := c = '\t' || c = '\n' || c = '\x0c' || c = '\r'

/-- Layout is obeyed also inside a short command. -/
def shows : TerminalMode → Char → Bool
  | text, c => isLayout c || (' ' ≤ c && c ≠ '\x7f')
  | escape, c | charset, c | control, c => isLayout c
  | window, _ | device, _ => false

/-- The mode behind a character. An escape character starts a command anywhere, and two control
characters cancel it; a command also ends where something is shown. -/
def next (m : TerminalMode) (c : Char) : TerminalMode :=
  if c = '\x1b' then escape
  else if c = '\x18' ∨ c = '\x1a' ∨ m.shows c then text
  else
    match m with
    | text => text
    | escape =>
      if ' ' ≤ c ∧ c ≤ '/' then charset
      else if c = '[' then control
      else if c = ']' then window
      else if c = 'P' ∨ c = 'X' ∨ c = '^' ∨ c = '_' then device
      else if '0' ≤ c ∧ c ≤ '~' then text
      else escape
    | charset => if '0' ≤ c ∧ c ≤ '~' then text else charset
    | control => if '@' ≤ c ∧ c ≤ '~' then text else control
    | window => if c = '\x07' then text else window
    | device => device

/-- The characters that are shown. -/
def shown (m : TerminalMode) : List Char → List Char
  | [] => []
  | c :: rest => if m.shows c then c :: (m.next c).shown rest else (m.next c).shown rest

theorem shown_sublist (m : TerminalMode) (input : List Char) : (m.shown input).Sublist input := by
  induction input generalizing m with
  | nil => exact .refl []
  | cons c rest ih =>
    unfold shown
    split
    · exact (ih _).cons_cons c
    · exact (ih _).cons c

theorem next_text {c : Char} (h : c ≠ '\x1b') : text.next c = text := by
  simp [next, h]

theorem shown_eq_self {input : List Char} (h : ∀ c ∈ input, text.shows c) :
    text.shown input = input := by
  induction input with
  | nil => rfl
  | cons c rest ih =>
    have hc : text.shows c := h c (by simp)
    have hne : c ≠ '\x1b' := by rintro rfl; exact absurd hc (by decide)
    simp [shown, hc, next_text hne, ih fun d hd => h d (by simp [hd])]

end TerminalMode

def plainText (text : String) : String := String.ofList (TerminalMode.text.shown text.toList)

theorem plainText_eq_self {text : String} (h : ∀ c ∈ text.toList, TerminalMode.text.shows c) :
    plainText text = text := by
  simp [plainText, TerminalMode.shown_eq_self h]

end JavaSubset
