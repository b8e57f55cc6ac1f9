import MachineInterface.Text.Blank
import MachineInterface.Text.Numeral
import MachineInterface.Error

/-!
# MachineInterface.Location

Places for breakpoints: `*address`, `file:line`, `file:function` or
`function`.  The forms overlap, so they are tried in this order.  The
function of `file:function` does not start with a colon, so that `ns::f` is a
function.
-/

namespace MachineInterface

open Text

/-- The place where a breakpoint is set. -/
inductive Location
  | address (address : UInt64)
  | line (file : String) (number : Nat)
  | fileFunction (file function : String)
  | function (name : String)
deriving DecidableEq, Repr

namespace Location

/-- The written form of a place. -/
def text : Location → String
  | address a => "*" ++ hex 1 a.toNat
  | line file n => s!"{file}:{n}"
  | fileFunction file name => s!"{file}:{name}"
  | function name => name

/-- Read an address: `0x` and hexadecimal digits or decimal digits, blanks on
both sides allowed. -/
def address? (cs : List Char) : Option UInt64 :=
  let digits := match trim cs with
    | '0' :: 'x' :: digits => word64? 16 digits
    | '0' :: 'X' :: digits => word64? 16 digits
    | digits => word64? 10 digits
  digits.map UInt64.ofNat

/-- Split at the first colon. -/
def splitColon (cs : List Char) : Option (List Char × List Char) :=
  match cs.dropWhile (· ≠ ':') with
  | [] => none
  | _ :: rest => some (cs.takeWhile (· ≠ ':'), rest)

/-- Reads `*address`. -/
def ofAddress (cs : List Char) : Option Location :=
  match cs with
  | '*' :: rest => (address? rest).map address
  | _ => none

/-- Reads `file:line`. -/
def ofLine (cs : List Char) : Option Location :=
  match splitColon cs with
  | some (file@(_ :: _), digits) =>
    (word64? 10 digits).map fun n => line (String.ofList (trim file)) n
  | _ => none

/-- Reads `file:function`. -/
def ofFileFunction (cs : List Char) : Option Location :=
  match splitColon cs with
  | some (file@(_ :: _), name@(c :: _)) =>
    if c = ':' then none
    else some (fileFunction (String.ofList (trim file)) (String.ofList (trim name)))
  | _ => none

/-- Reads `function`. -/
def ofFunction (cs : List Char) : Option Location :=
  match cs with
  | [] => none
  | c :: _ => if c = '*' then none else some (function (String.ofList (trim cs)))

/-- Read a trimmed text: the first form that fits. -/
def ofTrimmed (cs : List Char) : Option Location :=
  (ofAddress cs) <|> (ofLine cs) <|> (ofFileFunction cs) <|> (ofFunction cs)

/-- What is missing at the end of a text that is no place. -/
def expected (cs : List Char) : String :=
  if cs = [] then "breakpoint location"
  else if cs = ['*'] then "address, or ':'"
  else if ':' ∈ cs then "something else"
  else "':'"

/-- Read a place. -/
def parse (text : String) : Except Error Location :=
  let cs := trim text.toList
  match ofTrimmed cs with
  | some location => .ok location
  | none => .error (.malformed s!"found end of input expected {expected cs}")

end Location

end MachineInterface
