/-!
# MachineInterface.Text.Blank

Blank characters (the Unicode property White_Space) and the trimming of
texts.  Blanks separate the tokens of a command line, and every text that a
client may surround with blanks is trimmed before it is read.
-/

namespace MachineInterface.Text

/-- The characters with the Unicode property White_Space. -/
def isBlank (c : Char) : Bool :=
  let n := c.toNat
  (0x09 ≤ n && n ≤ 0x0d) || n == 0x20 || n == 0x85 || n == 0xa0 || n == 0x1680 ||
    (0x2000 ≤ n && n ≤ 0x200a) || n == 0x2028 || n == 0x2029 || n == 0x202f ||
    n == 0x205f || n == 0x3000

/-- Every ASCII blank of the core library is a blank. -/
theorem isBlank_of_isWhitespace {c : Char} (h : c.isWhitespace) : isBlank c := by
  simp only [Char.isWhitespace, Bool.or_eq_true, decide_eq_true_eq] at h
  rcases h with ((rfl | rfl) | rfl) | rfl <;> rfl

/-- Drop the leading blanks. -/
def trimStart (cs : List Char) : List Char := cs.dropWhile isBlank

/-- Drop the trailing blanks. -/
def trimEnd (cs : List Char) : List Char := (trimStart cs.reverse).reverse

/-- Drop the blanks on both sides. -/
def trim (cs : List Char) : List Char := trimEnd (trimStart cs)

/-- A string without the blanks at its two ends; see `trim`. -/
def trimmed (s : String) : String := String.ofList (trim s.toList)

/-- A text of blanks only, the empty text included. -/
def isAllBlank (cs : List Char) : Bool := cs.all isBlank

/-- Nothing but blanks is dropped at the start. -/
theorem takeWhile_append_trimStart (cs : List Char) :
    cs.takeWhile isBlank ++ trimStart cs = cs :=
  List.takeWhile_append_dropWhile

/-- What remains after trimming the start does not start with a blank. -/
theorem isBlank_head_trimStart {cs : List Char} {c : Char} (h : (trimStart cs).head? = some c) :
    isBlank c = false := by
  have := List.head?_dropWhile_not isBlank cs
  rw [← trimStart, h] at this
  exact this

end MachineInterface.Text
