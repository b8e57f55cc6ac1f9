import MachineInterface.Argument.Kind
import MachineInterface.Error

/-!
# MachineInterface.Argument.Validation

The declared arguments of a command, read in order from the tokens of a line.
A validation says argument by argument how that went; `Validation.values`
gives the value of each argument, at its own type, when all went well.
Options come before positional arguments in a declaration, so that no
positional argument takes their tokens.
-/

namespace MachineInterface

/-- A declared argument. -/
structure Argument where
  name : String
  mandatory : Bool
  kind : Argument.Kind
deriving DecidableEq, Repr

namespace Argument

/-! ## Declarations -/

/-- Free text. -/
@[reducible] def text (name : String) : Argument := ⟨name, true, .text⟩

/-- One word. -/
@[reducible] def word (name : String) (form : WordForm := {}) : Argument :=
  ⟨name, true, .value (.word form)⟩

/-- One number. -/
@[reducible] def number (name : String) : Argument := ⟨name, true, .value .number⟩

/-- One number or more. -/
@[reducible] def numbers (name : String) : Argument := ⟨name, true, .list .number none⟩

/-- Which values are shown. -/
@[reducible] def printValues : Argument := ⟨"print-values", false, .printValues⟩

/-- A flag `-name` without values. -/
@[reducible] def flag (name : String) : Argument :=
  ⟨name, false, .option (some name) none (.word {}) 0⟩

/-- A flag `-name`, or `--long` if it has a long form, with one value. -/
@[reducible] def option (name : String) (type : ValueType) (long : Option String := none) :
    Argument :=
  ⟨name, false, .option (some name) long type 1⟩

/-- A flag `--name` with one value. -/
@[reducible] def longOption (name : String) (type : ValueType) : Argument :=
  ⟨name, false, .option none (some name) type 1⟩

/-- The argument may be left out. -/
@[reducible] def optional (a : Argument) : Argument := { a with mandatory := false }

/-- What a command gets: the value of a mandatory argument, perhaps a value of
an optional one. -/
@[reducible] def Answer (a : Argument) : Type :=
  match a.mandatory with
  | true => a.kind.Value
  | false => Option a.kind.Value

/-- The answer for an argument that was found. -/
def answer : (a : Argument) → a.kind.Value → a.Answer
  | ⟨_, true, _⟩, value => value
  | ⟨_, false, _⟩, value => some value

/-- The answer for an optional argument that was left out. -/
def noAnswer : (a : Argument) → a.mandatory = false → a.Answer
  | ⟨_, false, _⟩, _ => none

/-- The answers for a list of arguments. -/
@[reducible] def Values : List Argument → Type
  | [] => Unit
  | a :: as => a.Answer × Values as

/-! ## Validation -/

/-- How reading the declared arguments went; `rest` holds the tokens that no
argument has taken. -/
inductive Validation : List Argument → Type
  | complete (rest : List String) : Validation []
  | found {a : Argument} {as : List Argument} (value : a.kind.Value) (next : Validation as) :
      Validation (a :: as)
  /-- An optional argument is left out. -/
  | omitted {a : Argument} {as : List Argument} (optional : a.mandatory = false)
      (next : Validation as) : Validation (a :: as)
  /-- A mandatory argument is left out. -/
  | missing {a : Argument} {as : List Argument} (rest : List String) : Validation (a :: as)
  /-- The argument cannot be decoded. -/
  | invalid {a : Argument} {as : List Argument} (text : String) (rest : List String) :
      Validation (a :: as)

/-- Read the declared arguments in order, up to the first that fails.  A
positional argument that may be left out is left out if the front token cannot
be decoded. -/
def validate : (as : List Argument) → List String → Validation as
  | [], tokens => .complete tokens
  | a :: as, tokens =>
    match a.kind.read tokens with
    | (.found value, rest) => .found value (validate as rest)
    | (.absent, rest) =>
      if h : a.mandatory = false then .omitted h (validate as rest) else .missing rest
    | (.invalid text, rest) =>
      if h : a.mandatory = false ∧ a.kind.isOption = false then
        .omitted h.1 (validate as rest)
      else .invalid text rest

/-- What became of one argument. -/
inductive Slot (α : Type)
  | empty
  /-- Found, but not decoded. -/
  | rejected
  | filled (value : α)
deriving DecidableEq, Repr

namespace Slot

def isFound : Slot α → Bool
  | empty => false
  | _ => true

def isValid : Slot α → Bool
  | filled _ => true
  | _ => false

def value? : Slot α → Option α
  | filled value => some value
  | _ => none

end Slot

namespace Validation

/-- The slots of all arguments; those behind a failure are empty. -/
def slots : {as : List Argument} → Validation as → List ((a : Argument) × Slot a.kind.Value)
  | _, complete _ => []
  | a :: _, found value next => ⟨a, .filled value⟩ :: next.slots
  | a :: _, omitted _ next => ⟨a, .empty⟩ :: next.slots
  | a :: as, missing _ => ⟨a, .empty⟩ :: as.map fun a => ⟨a, .empty⟩
  | a :: as, invalid .. => ⟨a, .rejected⟩ :: as.map fun a => ⟨a, .empty⟩

/-- The tokens that no argument has taken. -/
def rest : {as : List Argument} → Validation as → List String
  | _, complete rest => rest
  | _, found _ next => next.rest
  | _, omitted _ next => next.rest
  | _, missing rest => rest
  | _, invalid _ rest => rest

/-- The answers, or the error of the first argument that fails. -/
def values : {as : List Argument} → Validation as → Except Error (Values as)
  | _, complete _ => .ok ()
  | a :: _, found value next => next.values.map fun values => (a.answer value, values)
  | a :: _, omitted optional next =>
    next.values.map fun values => (a.noAnswer optional, values)
  | a :: _, missing _ => .error (.missingArgument a.name)
  | a :: _, invalid text _ => .error (.invalidArgument a.name text)

/-- Every declared argument has a slot. -/
theorem map_fst_slots {as : List Argument} (v : Validation as) : v.slots.map (·.1) = as := by
  induction v with
  | complete => rfl
  | found _ _ ih => simp [slots, ih]
  | omitted _ _ ih => simp [slots, ih]
  | missing => simp [slots, Function.comp_def]
  | invalid => simp [slots, Function.comp_def]

end Validation

end Argument

end MachineInterface
