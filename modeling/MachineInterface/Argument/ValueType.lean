import MachineInterface.Text.DecimalDigit
import MachineInterface.Text.Numeral
import MachineInterface.Text.Quoted

/-!
# MachineInterface.Argument.ValueType

The values that a single token can hold: a number, a word or a thread group.
Bare words are told apart from numbers, flags, thread groups and paths, so
that an optional word does not swallow a token meant for another argument.
-/

namespace MachineInterface.Argument

open Text

/-- What a word may be besides a bare word. -/
structure WordForm where
  /-- A quoted token, whose quotes are taken off. -/
  quotes : Bool := false
  /-- A number. -/
  numbers : Bool := false
  /-- A path, that is a token with a slash or a backslash. -/
  paths : Bool := false
deriving DecidableEq, Repr

/-- The type of a value that one token holds. -/
inductive ValueType
  | number
  | word (form : WordForm)
  | threadGroup
deriving DecidableEq, Repr

/-- Numbers are integers, thread groups the numbers in their names. -/
@[reducible] def ValueType.Value : ValueType → Type
  | number => Int
  | word _ => String
  | threadGroup => Nat

/-! ## Tokens -/

/-- The digits of a token that has the shape of a thread group's name. -/
def threadGroupDigits? : List Char → Option (List Char)
  | 'i' :: digits => if digits ≠ [] ∧ digits.all isDecimalDigit then some digits else none
  | _ => none

/-- The number in a thread group's name. -/
def threadGroup? (token : List Char) : Option Nat :=
  ((threadGroupDigits? token).bind (unsigned? 10)).filter fits32

/-- A flag: two dashes and more, or a dash and one ASCII character. -/
def isFlagLike : List Char → Bool
  | '-' :: '-' :: _ => true
  | ['-', c] => c.toNat < 0x80
  | _ => false

/-- A token without quotes that may be a word. -/
def isBareWord (form : WordForm) (token : List Char) : Bool :=
  if (integer? token).isSome then form.numbers
  else if isFlagLike token then false
  else if (threadGroupDigits? token).isSome then false
  else if token.any (fun c => c = '/' || c = '\\') then form.paths
  else true

/-- Decode a word. -/
def word? (form : WordForm) (token : String) : Option String :=
  if form.quotes ∧ quoted token then some (unquoted token)
  else if isBareWord form token.toList then some token
  else none

/-- Decode a token. -/
def ValueType.decode : (type : ValueType) → String → Option type.Value
  | number, token => integer? token.toList
  | word form, token => word? form token
  | threadGroup, token => threadGroup? token.toList

/-- A quoted token is a word wherever quotes are accepted. -/
theorem decode_word_of_quoted {form : WordForm} {token : String} (hf : form.quotes = true)
    (ht : quoted token = true) :
    (ValueType.word form).decode token = some (unquoted token) := by
  simp [ValueType.decode, word?, hf, ht]

end MachineInterface.Argument
