import MachineInterface.Text.Numeral

/-!
# MachineInterface.Config.Toml.Literal

Strings, integers and booleans as TOML writes them, and the blanks, comments
and line ends between them.
-/

namespace MachineInterface.Toml

/-- Gives what it has read and the rest of the text, or nothing. -/
abbrev Reader (α : Type) := List Char → Option (α × List Char)

/-! ## Characters -/

/-- Characters that may stand in strings and comments as they are. -/
def isPlain (c : Char) : Bool := c == '\t' || (0x20 ≤ c.toNat && c.toNat ≠ 0x7f)

/-- Blanks inside a line. -/
def isSpace (c : Char) : Bool := c == ' ' || c == '\t'

def skipSpace (cs : List Char) : List Char := cs.dropWhile isSpace

/-- Read a line end. -/
def newline? : List Char → Option (List Char)
  | '\n' :: rest => some rest
  | '\r' :: '\n' :: rest => some rest
  | _ => none

/-- Read the end of a line: blanks, perhaps a comment, and a line end or the
end of the text. -/
def lineEnd? (cs : List Char) : Option (List Char) :=
  let cs := match skipSpace cs with
    | '#' :: comment => comment.dropWhile isPlain
    | cs => cs
  match cs with
  | [] => some []
  | cs => newline? cs

/-! ## Strings -/

/-- Read pieces, at most so many, up to a closing delimiter; `close` reads the
delimiter and may give the last characters of the contents. -/
def readPieces (close piece : Reader (List Char)) : Nat → Reader (List Char)
  | 0, cs => close cs
  | n + 1, cs =>
    match close cs with
    | some result => some result
    | none => do
      let (first, rest) ← piece cs
      let (more, rest) ← readPieces close piece n rest
      return (first ++ more, rest)

/-- Read pieces up to a closing delimiter.  Every piece takes a character at
least, so there are no more pieces than characters. -/
def readUntil (close piece : Reader (List Char)) : Reader (List Char) := fun cs =>
  readPieces close piece cs.length cs

/-- The character with a code point, if there is one. -/
def scalar? (digits : List Char) : Option Char :=
  (Text.unsigned? 16 digits).bind fun n =>
    if n.isValidChar then some (Char.ofNat n) else none

/-- Read a code point of so many hexadecimal digits. -/
def codePoint? (width : Nat) : Reader (List Char) := fun cs =>
  if (cs.take width).length = width then
    (scalar? (cs.take width)).map fun c => ([c], cs.drop width)
  else none

/-- Read an escape behind its backslash. -/
def escape? : Reader (List Char)
  | 'b' :: rest => some (['\x08'], rest)
  | 't' :: rest => some (['\t'], rest)
  | 'n' :: rest => some (['\n'], rest)
  | 'f' :: rest => some (['\x0c'], rest)
  | 'r' :: rest => some (['\r'], rest)
  | '"' :: rest => some (['"'], rest)
  | '\\' :: rest => some (['\\'], rest)
  | 'u' :: rest => codePoint? 4 rest
  | 'U' :: rest => codePoint? 8 rest
  | _ => none

/-- Read a character that stands for itself. -/
def plain? (quote : Char) : Reader (List Char)
  | c :: rest => if isPlain c ∧ c ≠ quote then some ([c], rest) else none
  | [] => none

/-- The closing delimiter of a string on one line. -/
def closeLine (quote : Char) : Reader (List Char)
  | c :: rest => if c = quote then some ([], rest) else none
  | [] => none

/-- The closing delimiter of a string on several lines.  Up to two quotes
before the delimiter belong to the contents. -/
def closeLines (quote : Char) : Reader (List Char) := fun cs =>
  let quotes := cs.takeWhile (· = quote)
  if 3 ≤ quotes.length ∧ quotes.length ≤ 5 then
    some (quotes.drop 3, cs.dropWhile (· = quote))
  else none

/-- A piece of a basic string. -/
def basicPiece : Reader (List Char)
  | '\\' :: rest => escape? rest
  | cs => plain? '"' cs

/-- A piece of a string on several lines: a line end, a quote that does not
close it, or a piece of a line. -/
def linesPiece (quote : Char) (piece : Reader (List Char)) : Reader (List Char) := fun cs =>
  match newline? cs with
  | some rest => some (['\n'], rest)
  | none =>
    match cs with
    | c :: d :: e :: rest =>
      if c = quote then
        if d = quote ∧ e = quote then none else some ([c], d :: e :: rest)
      else piece cs
    | c :: rest => if c = quote then some ([c], rest) else piece cs
    | [] => none

/-- A piece of a basic string on several lines; a backslash at the end of a
line drops the blanks and line ends that follow. -/
def basicLinesPiece : Reader (List Char)
  | '\\' :: rest =>
    match newline? (skipSpace rest) with
    | some rest => some ([], skipLines rest rest.length)
    | none => escape? rest
  | _ => none
where
  /-- Drop blanks and line ends. -/
  skipLines (cs : List Char) : Nat → List Char
    | 0 => skipSpace cs
    | n + 1 =>
      match newline? (skipSpace cs) with
      | some rest => skipLines rest n
      | none => skipSpace cs

/-- Drop the line end behind an opening delimiter. -/
def dropNewline (cs : List Char) : List Char := (newline? cs).getD cs

/-- Read a string of any of the four kinds. -/
def string? : Reader (List Char)
  | '"' :: '"' :: '"' :: rest =>
    readUntil (closeLines '"')
      (fun cs => basicLinesPiece cs <|> linesPiece '"' basicPiece cs) (dropNewline rest)
  | '\x27' :: '\x27' :: '\x27' :: rest =>
    readUntil (closeLines '\x27') (linesPiece '\x27' (plain? '\x27')) (dropNewline rest)
  | '"' :: rest => readUntil (closeLine '"') basicPiece rest
  | '\x27' :: rest => readUntil (closeLine '\x27') (plain? '\x27') rest
  | _ => none

/-! ## Numbers -/

/-- Digits in which underscores may stand between two digits. -/
def ungrouped? : List Char → Option (List Char)
  | [] => some []
  | ['_'] => none
  | '_' :: '_' :: _ => none
  | c :: rest => (ungrouped? rest).map fun digits => if c = '_' then digits else c :: digits

/-- The number of a non-empty list of grouped digits. -/
def grouped? (base : Nat) (cs : List Char) : Option Nat :=
  if cs.head? = some '_' then none else (ungrouped? cs).bind (Text.unsigned? base)

/-- Decimal digits without leading zeros. -/
def decimal? (cs : List Char) : Option Nat :=
  match cs with
  | '0' :: _ :: _ => none
  | _ => grouped? 10 cs

/-- Read an integer from its whole text. -/
def integer? : List Char → Option Int
  | '0' :: 'x' :: digits => (grouped? 16 digits).map Int.ofNat
  | '0' :: 'o' :: digits => (grouped? 8 digits).map Int.ofNat
  | '0' :: 'b' :: digits => (grouped? 2 digits).map Int.ofNat
  | '+' :: digits => (decimal? digits).map Int.ofNat
  | '-' :: digits => (decimal? digits).map fun n => -(n : Int)
  | digits => (decimal? digits).map Int.ofNat

end MachineInterface.Toml
