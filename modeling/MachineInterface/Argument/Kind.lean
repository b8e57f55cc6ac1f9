import MachineInterface.Argument.PrintValues
import MachineInterface.Argument.ValueType
import MachineInterface.Text.Token

/-!
# MachineInterface.Argument.Kind

The kinds of arguments, and how each takes its tokens.  Positional kinds look
at the front of the token list only; an option is found by its flag wherever
it stands, and its values follow the flag.
-/

namespace MachineInterface.Argument

open Text

/-- A kind of argument. -/
inductive Kind
  /-- A quoted token, or else all tokens that are left. -/
  | text
  /-- One token. -/
  | value (type : ValueType)
  /-- One token that says which values are shown. -/
  | printValues
  /-- A flag `-short` or `--long` and the values behind it. -/
  | option (short long : Option String) (type : ValueType) (arity : Nat)
  /-- One token or more, up to a largest count if there is one. -/
  | list (type : ValueType) (max : Option Nat)
deriving DecidableEq, Repr

namespace Kind

/-- The value that an argument of this kind holds. -/
@[reducible] def Value : Kind → Type
  | text => String
  | value type => type.Value
  | printValues => PrintValues
  | option _ _ type _ => List type.Value
  | list type _ => List type.Value

/-- Options are found by their flag, all other kinds by their position. -/
def isOption : Kind → Bool
  | option .. => true
  | _ => false

end Kind

/-- What reading an argument gives. -/
inductive Reading (α : Type)
  | found (value : α)
  | absent
  /-- The argument is there, but this text cannot be decoded. -/
  | invalid (text : String)
deriving DecidableEq, Repr

/-- Read the token at the front. -/
def readFront (decode : String → Option α) : List String → Reading α × List String
  | [] => (.absent, [])
  | token :: rest =>
    match decode token with
    | some value => (.found value, rest)
    | none => (.invalid token, token :: rest)

/-- Read a quoted token without its quotes, or all tokens joined by spaces,
in both cases with the escaping backslashes dropped. -/
def readText : List String → Reading String × List String
  | [] => (.absent, [])
  | token :: rest =>
    if quoted token then (.found (unquoted token), rest)
    else (.found (unescaped (trimmed (joined (token :: rest)))), [])

/-- Read the values behind a flag: the text that cannot be decoded is the flag
alone if tokens run out, else the flag and the token. -/
def readOperands (type : ValueType) (flag : String) :
    Nat → List String → Reading (List type.Value) × List String
  | 0, tokens => (.found [], tokens)
  | _ + 1, [] => (.invalid flag, [])
  | arity + 1, token :: rest =>
    match type.decode token with
    | none => (.invalid (flag ++ " " ++ token), token :: rest)
    | some value =>
      match readOperands type flag arity rest with
      | (.found values, rest) => (.found (value :: values), rest)
      | (reading, rest) => (reading, rest)

/-- The flags of an option. -/
def flags (short long : Option String) : List String :=
  (short.map ("-" ++ ·)).toList ++ (long.map ("--" ++ ·)).toList

/-- Read the option whose flag comes first in the token list. -/
def readOption (flags : List String) (type : ValueType) (arity : Nat) (tokens : List String) :
    Reading (List type.Value) × List String :=
  match tokens.dropWhile (· ∉ flags) with
  | [] => (.absent, tokens)
  | flag :: operands =>
    let (reading, rest) := readOperands type flag arity operands
    (reading, tokens.takeWhile (· ∉ flags) ++ rest)

/-- Decode tokens one by one, up to the first that cannot be decoded or to the
largest count. -/
def decodePrefix (type : ValueType) : Option Nat → List String → List type.Value × List String
  | some 0, tokens => ([], tokens)
  | _, [] => ([], [])
  | max, token :: rest =>
    match type.decode token with
    | none => ([], token :: rest)
    | some value =>
      let (values, rest) := decodePrefix type (max.map (· - 1)) rest
      (value :: values, rest)

/-- Read the longest list at the front. -/
def readList (type : ValueType) (max : Option Nat) (tokens : List String) :
    Reading (List type.Value) × List String :=
  match decodePrefix type max tokens with
  | ([], _) =>
    match tokens with
    | [] => (.absent, [])
    | token :: rest => (.invalid token, token :: rest)
  | (values, rest) => (.found values, rest)

/-- Read an argument and leave the tokens that it does not take. -/
def Kind.read : (kind : Kind) → List String → Reading kind.Value × List String
  | text => readText
  | value type => readFront type.decode
  | printValues => readFront PrintValues.ofToken?
  | option short long type arity => readOption (flags short long) type arity
  | list type max => readList type max

/-- An absent argument leaves all tokens. -/
theorem Kind.read_absent {kind : Kind} {tokens rest : List String}
    (h : kind.read tokens = (.absent, rest)) : rest = tokens := by
  have operands : ∀ (type : ValueType) flag arity (ts : List String),
      (readOperands type flag arity ts).1 ≠ .absent := by
    intro type flag arity ts
    fun_induction readOperands type flag arity ts <;> simp_all
  cases kind with
  | text =>
    cases tokens with
    | nil => simp_all [Kind.read, readText]
    | cons t ts => simp only [Kind.read, readText] at h; split at h <;> simp at h
  | value type =>
    cases tokens with
    | nil => simp_all [Kind.read, readFront]
    | cons t ts => simp only [Kind.read, readFront] at h; split at h <;> simp at h
  | printValues =>
    cases tokens with
    | nil => simp_all [Kind.read, readFront]
    | cons t ts => simp only [Kind.read, readFront] at h; split at h <;> simp at h
  | option short long type arity =>
    simp only [Kind.read, readOption] at h
    split at h
    · simp_all
    · rename_i flag rest _
      exact absurd (congrArg Prod.fst h) (operands type flag arity rest)
  | list type max =>
    simp only [Kind.read, readList] at h
    split at h
    · split at h <;> simp_all
    · simp at h

end MachineInterface.Argument
