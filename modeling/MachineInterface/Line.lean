import MachineInterface.Text.Blank
import MachineInterface.Error

/-!
# MachineInterface.Line

Command lines: `[token]-verb arguments`.  The token is the longest prefix of
ASCII digits, the dash behind it may be left out, and the verb is a word of
ASCII letters, digits, `-` and `_` that a blank or the end of the line
follows.  `Line.token?` reads the token of any line, so that the answer to a
malformed line carries it too.
-/

namespace MachineInterface

open Text

/-- A command line, split into its parts. -/
structure Line where
  /-- Digits by which the client recognises the answer. -/
  token : Option String
  verb : String
  /-- The text behind the verb, trimmed and not yet split. -/
  arguments : String
deriving DecidableEq, Repr

namespace Line

/-- What is missing at the end of a malformed line. -/
inductive Malformed
  /-- The line is a token alone. -/
  | dashOrVerb
  /-- The line ends with the dash. -/
  | verb
  | other
deriving DecidableEq, Repr

def Malformed.text : Malformed → String
  | dashOrVerb => "found end of input expected '-', or command name"
  | verb => "found end of input expected command name"
  | other => "found end of input expected something else"

def Malformed.toError (m : Malformed) : Error := .malformed m.text

/-- The characters of verbs. -/
def isVerbChar (c : Char) : Bool := c.isAlphanum || c == '-' || c == '_'

/-- A text, `none` if it is empty. -/
def nonEmpty? (cs : List Char) : Option String :=
  if cs = [] then none else some (String.ofList cs)

/-- Drop one dash. -/
def withoutDash : List Char → List Char
  | '-' :: rest => rest
  | cs => cs

/-- Read the verb and the arguments behind the token and the dash. -/
def ofVerb (token : List Char) (cs : List Char) : Option Line :=
  let verb := cs.takeWhile isVerbChar
  let rest := cs.dropWhile isVerbChar
  if verb ≠ [] ∧ (rest = [] ∨ rest.head?.any isBlank) then
    some ⟨nonEmpty? token, String.ofList verb, String.ofList (trim rest)⟩
  else none

/-- Read a trimmed line that is not empty. -/
def ofTrimmed (cs : List Char) : Except Malformed Line :=
  let token := cs.takeWhile Char.isDigit
  let rest := cs.dropWhile Char.isDigit
  match ofVerb token (withoutDash rest) with
  | some line => .ok line
  | none =>
    if rest = [] then .error .dashOrVerb
    else if rest = ['-'] then .error .verb
    else .error .other

/-- Read a line, `none` if it is blank. -/
def parse (text : String) : Except Malformed (Option Line) :=
  match trim text.toList with
  | [] => .ok none
  | cs => (ofTrimmed cs).map some

/-- The token of any line, malformed or not. -/
def token? (text : String) : Option String :=
  nonEmpty? ((trim text.toList).takeWhile Char.isDigit)

/-- A line that is read carries the token of its text. -/
theorem token_of_parse {text : String} {line : Line} (h : parse text = .ok (some line)) :
    line.token = token? text := by
  unfold parse at h
  split at h
  · simp at h
  · rename_i cs hcs
    simp only [ofTrimmed] at h
    split at h
    · rename_i l hl
      obtain rfl : l = line := by simpa [Except.map] using h
      simp only [ofVerb] at hl
      split at hl
      · obtain rfl := Option.some.inj hl
        rfl
      · cases hl
    · split at h
      · cases h
      · split at h <;> cases h

end Line

end MachineInterface
