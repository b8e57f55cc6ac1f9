import MachineInterface.Text.Blank

/-!
# MachineInterface.Text.Token

The tokens of an argument text.  Tokens are separated by blanks; a token that
starts with a double quote runs to the first unescaped quote that a blank or
the end of the text follows, so that it may contain blanks.  The quotes stay
part of the token.
-/

namespace MachineInterface.Text

/-- The end of the text or a blank. -/
def atBoundary : List Char → Bool
  | [] => true
  | c :: _ => isBlank c

/-- Split behind the quote that closes a quoted token; the text starts behind
the opening quote.  Without a closing quote the token takes the whole text. -/
def splitQuoted : List Char → List Char × List Char
  | [] => ([], [])
  | ['\\'] => (['\\'], [])
  | '\\' :: c :: rest =>
    let (token, rest) := splitQuoted rest
    ('\\' :: c :: token, rest)
  | c :: rest =>
    if c = '"' ∧ atBoundary rest then ([c], rest)
    else
      let (token, rest) := splitQuoted rest
      (c :: token, rest)

/-- Split behind the token that starts with `c`. -/
def splitToken (c : Char) (rest : List Char) : List Char × List Char :=
  if c = '"' then
    let (token, rest) := splitQuoted rest
    (c :: token, rest)
  else
    (c :: rest.takeWhile (!isBlank ·), rest.dropWhile (!isBlank ·))

/-- Nothing is lost at a closing quote. -/
theorem splitQuoted_append (cs : List Char) : (splitQuoted cs).1 ++ (splitQuoted cs).2 = cs := by
  fun_induction splitQuoted cs with
  | case1 => rfl
  | case2 => rfl
  | case3 c rest token tail h ih => simp_all
  | case4 c rest _ _ h => simp
  | case5 c rest _ _ _ token tail h ih => simp_all

/-- Nothing is lost at the end of a token. -/
theorem splitToken_append (c : Char) (rest : List Char) :
    (splitToken c rest).1 ++ (splitToken c rest).2 = c :: rest := by
  unfold splitToken
  split
  · simp [splitQuoted_append]
  · simp

/-- A token takes its first character at least. -/
theorem length_splitToken (c : Char) (rest : List Char) :
    (splitToken c rest).2.length ≤ rest.length := by
  unfold splitToken
  split
  · have h := congrArg List.length (splitQuoted_append rest)
    simp only [List.length_append] at h
    simp only []
    omega
  · exact (List.dropWhile_sublist _).length_le

/-- The tokens of a text, in order. -/
def tokenize : List Char → List (List Char)
  | [] => []
  | c :: rest =>
    if isBlank c then tokenize rest
    else (splitToken c rest).1 :: tokenize (splitToken c rest).2
termination_by cs => cs.length
decreasing_by
  · simp
  · have := length_splitToken c rest
    simp only [List.length_cons]
    omega

/-- The tokens of a string; see `tokenize`. -/
def tokens (s : String) : List String := (tokenize s.toList).map String.ofList

/-- Tokens joined by single spaces. -/
def joined (ts : List String) : String := " ".intercalate ts

@[simp] theorem tokenize_nil : tokenize [] = [] := by
  unfold tokenize
  rfl

theorem tokenize_blank {c : Char} (h : isBlank c = true) (rest : List Char) :
    tokenize (c :: rest) = tokenize rest := by
  conv => lhs; unfold tokenize
  simp [h]

theorem tokenize_token {c : Char} (h : isBlank c = false) (rest : List Char) :
    tokenize (c :: rest) = (splitToken c rest).1 :: tokenize (splitToken c rest).2 := by
  conv => lhs; unfold tokenize
  simp [h]

end MachineInterface.Text
