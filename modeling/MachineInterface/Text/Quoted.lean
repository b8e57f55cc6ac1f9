import MachineInterface.Text.Blank

/-!
# MachineInterface.Text.Quoted

Quoted texts, as clients write them: enclosed in double quotes, with a
backslash before each inner quote and each backslash.  `quote` writes this
form and `unquote` takes it off again; a backslash before any other character
is kept.
-/

namespace MachineInterface.Text

/-- Enclosed in double quotes: at least two characters, a quote first and a
quote last. -/
def isQuoted : List Char → Bool
  | '"' :: rest => rest.getLast? == some '"'
  | _ => false

/-- Drop each backslash that stands before a quote or a backslash. -/
def unescape : List Char → List Char
  | '\\' :: '"' :: rest => '"' :: unescape rest
  | '\\' :: '\\' :: rest => '\\' :: unescape rest
  | c :: rest => c :: unescape rest
  | [] => []

/-- The text between enclosing quotes, the whole text if there are none. -/
def withoutQuotes (cs : List Char) : List Char :=
  if isQuoted cs then (cs.drop 1).dropLast else cs

/-- Trim, take the enclosing quotes off, and drop the escaping backslashes. -/
def unquote (cs : List Char) : List Char := unescape (withoutQuotes (trim cs))

/-- Put a backslash before each quote and each backslash. -/
def escapeQuotes : List Char → List Char
  | [] => []
  | c :: rest =>
    if c = '"' ∨ c = '\\' then '\\' :: c :: escapeQuotes rest else c :: escapeQuotes rest

/-- The quoted form of a text. -/
def quote (cs : List Char) : List Char := '"' :: (escapeQuotes cs ++ ['"'])

/-! ## On strings -/

/-- Whether a string is quoted; see `isQuoted`. -/
def quoted (s : String) : Bool := isQuoted s.toList

/-- A string without its quotes; see `unquote`. -/
def unquoted (s : String) : String := String.ofList (unquote s.toList)

/-- A string without its backslashes; see `unescape`. -/
def unescaped (s : String) : String := String.ofList (unescape s.toList)

/-- The quoted form of a string; see `quote`. -/
def quotation (s : String) : String := String.ofList (quote s.toList)

/-! ## Laws -/

/-- Dropping the escapes undoes their insertion. -/
theorem unescape_escapeQuotes (cs : List Char) : unescape (escapeQuotes cs) = cs := by
  induction cs with
  | nil => rfl
  | cons c rest ih =>
    rw [escapeQuotes]
    split
    · rename_i h
      rcases h with rfl | rfl <;> simp [unescape, ih]
    · rename_i h
      rw [unescape.eq_3 _ _ (by grind) (by grind), ih]

@[simp] theorem isQuoted_quote (cs : List Char) : isQuoted (quote cs) = true := by
  simp [isQuoted, quote]

/-- A quoted form starts and ends with a quote, so trimming keeps it. -/
theorem trim_quote (cs : List Char) : trim (quote cs) = quote cs := by
  have hq : isBlank '"' = false := rfl
  simp [trim, trimEnd, trimStart, quote, hq]

/-- Quoting is undone by unquoting. -/
@[simp] theorem unquote_quote (cs : List Char) : unquote (quote cs) = cs := by
  rw [unquote, trim_quote, withoutQuotes, if_pos (isQuoted_quote cs)]
  simp [quote, unescape_escapeQuotes]

@[simp] theorem toList_quotation (s : String) : (quotation s).toList = quote s.toList := by
  simp [quotation]

@[simp] theorem quoted_quotation (s : String) : quoted (quotation s) = true := by
  simp [quoted]

@[simp] theorem unquoted_quotation (s : String) : unquoted (quotation s) = s := by
  simp [unquoted]

end MachineInterface.Text
