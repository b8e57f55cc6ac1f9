import MachineInterface.Config.Toml.Literal
import MachineInterface.Config.Toml.Value

/-!
# MachineInterface.Config.Toml

The part of TOML in which settings are written: entries `key = value` with
dotted keys, strings, integers, booleans, empty arrays and inline tables, and
headers `[table]`.  Arrays with items, arrays of tables, floats and dates are
the values of no setting, so they are refused with everything else that is
malformed.
-/

namespace MachineInterface.Toml

/-! ## Keys -/

/-- Characters of keys without quotes, and of numbers and words. -/
def isBare (c : Char) : Bool := c.isAlphanum || c == '_' || c == '-'

/-- Read a key without dots. -/
def name? : Reader String := fun cs =>
  let characters : Option (List Char × List Char) := match cs with
    | '"' :: rest => readUntil (closeLine '"') basicPiece rest
    | '\x27' :: rest => readUntil (closeLine '\x27') (plain? '\x27') rest
    | _ =>
      if cs.takeWhile isBare = [] then none
      else some (cs.takeWhile isBare, cs.dropWhile isBare)
  characters.map fun (name, rest) => (String.ofList name, rest)

/-- Read one item or more with a separator between two of them.  Blanks may
stand around each item. -/
def separated (separator : Char) (item : Reader α) (cs : List Char) :
    Option (List α × List Char) :=
  match item (skipSpace cs) with
  | none => none
  | some (first, rest) =>
    match skipSpace rest with
    | [] => some ([first], [])
    | c :: tail =>
      if c = separator then
        if tail.length < cs.length then
          (separated separator item tail).map fun (more, rest) => (first :: more, rest)
        else none
      else some ([first], c :: tail)
termination_by cs.length

/-- Read a dotted key. -/
def key? : Reader (List String) := separated '.' name?

/-! ## Values -/

/-- Read a string, an integer or a boolean. -/
def literal? : Reader Value := fun cs =>
  match string? cs with
  | some (text, rest) => some (.string (String.ofList text), rest)
  | none =>
    let isWord (c : Char) : Bool := isBare c || c == '+'
    let word := cs.takeWhile isWord
    let rest := cs.dropWhile isWord
    if word = "true".toList then some (.boolean true, rest)
    else if word = "false".toList then some (.boolean false, rest)
    else (integer? word).map fun n => (.integer n, rest)

/-- Drop blanks, line ends and comments. -/
def skipLines (cs : List Char) : List Char :=
  match lineEnd? cs with
  | none => skipSpace cs
  | some rest => if rest.length < cs.length then skipLines rest else rest
termination_by cs.length

/-- Read an array without items behind its bracket. -/
def emptyArray? : Reader Value := fun cs =>
  match skipLines cs with
  | ']' :: rest => some (.emptyArray, rest)
  | _ => none

/-- Read `key = value`. -/
def pair? (value? : Reader Value) : Reader (List String × Value) := fun cs => do
  match ← key? cs with
  | (key, '=' :: rest) =>
    let (value, rest) ← value? (skipSpace rest)
    return ((key, value), rest)
  | _ => none

/-- The table of these pairs, if they do not contradict each other. -/
def tableOf? (pairs : List (List String × Value)) : Option Value :=
  (pairs.foldlM (fun entries (key, value) => put value key entries) []).map (.table .inline)

/-- Read an inline table behind its brace. -/
def inlineTable? (value? : Reader Value) : Reader Value := fun cs =>
  match skipSpace cs with
  | '\x7d' :: rest => some (.table .inline [], rest)
  | cs => do
    match ← separated ',' (pair? value?) cs with
    | (pairs, '\x7d' :: rest) => return (← tableOf? pairs, rest)
    | _ => none

/-- Read a value in which inline tables nest at most so deep. -/
def valueTo? : (depth : Nat) → Reader Value
  | 0, cs => literal? cs
  | depth + 1, cs =>
    match cs with
    | '[' :: rest => emptyArray? rest
    | '\x7b' :: rest => inlineTable? (valueTo? depth) rest
    | cs => literal? cs

/-- Inline tables nest at most that deep. -/
def deepest : Nat := 80

/-! ## Documents -/

/-- A line of a document that is not blank. -/
inductive Statement
  /-- The entries that follow belong to this table. -/
  | header (path : List String)
  | entry (key : List String) (value : Value)
deriving Repr, Inhabited

/-- Read a header behind its bracket. -/
def header? : Reader Statement := fun cs => do
  match ← key? cs with
  | (path, ']' :: rest) => return (.header path, rest)
  | _ => none

/-- Read a header or an entry. -/
def statement? : Reader Statement := fun cs =>
  match cs with
  | '[' :: rest => header? rest
  | cs => (pair? (valueTo? deepest) cs).map fun ((key, value), rest) => (.entry key value, rest)

/-- Read a header or an entry to the end of its line. -/
def line? : Reader Statement := fun cs => do
  let (statement, rest) ← statement? cs
  return (statement, ← lineEnd? rest)

/-- Read all lines of a text. -/
def statements? (cs : List Char) : Option (List Statement) :=
  match skipLines cs with
  | [] => some []
  | first :: more =>
    match line? (first :: more) with
    | none => none
    | some (statement, rest) =>
      if rest.length < cs.length then (statements? rest).map (statement :: ·) else none
termination_by cs.length

/-- The entries of a document, given those of the lines before and the path of
the table to which the next lines belong. -/
def build (path : List String) (entries : Entries) : List Statement → Option Entries
  | [] => some entries
  | .header path :: statements => (openTable path entries).bind (build path · statements)
  | .entry key value :: statements =>
    (putBelow value key path entries).bind (build path · statements)

/-- Read a document; a byte order mark at its start is dropped. -/
def parse (text : String) : Option Entries :=
  let cs := match text.toList with
    | '\ufeff' :: cs => cs
    | cs => cs
  (statements? cs).bind (build [] [])

end MachineInterface.Toml
