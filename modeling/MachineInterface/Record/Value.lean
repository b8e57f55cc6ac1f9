import MachineInterface.Text.CString
import MachineInterface.Text.Numeral

/-!
# MachineInterface.Record.Value

The values of output records: string constants, tuples, lists of values and
lists of named results, and the lists of `name=value` pairs that records and
tuples consist of.
-/

namespace MachineInterface

/-- A value in a record. -/
inductive Value
  | const (text : String)
  | tuple (fields : List (String × Value))
  | list (items : List Value)
  /-- A list of named results; names may repeat. -/
  | resultList (fields : List (String × Value))
deriving Repr, Inhabited

/-- Pairs written `name=value`, in their order; names may repeat. -/
abbrev Results := List (String × Value)

instance : Coe String Value := ⟨.const⟩

mutual

/-- The written form of a value. -/
def Value.text : Value → String
  | .const text => Text.cString text
  | .tuple fields => "\x7b" ++ ",".intercalate (fieldTexts fields) ++ "\x7d"
  | .list items => "[" ++ ",".intercalate (itemTexts items) ++ "]"
  | .resultList fields => "[" ++ ",".intercalate (fieldTexts fields) ++ "]"

/-- The written forms of the items of a list. -/
def itemTexts : List Value → List String
  | [] => []
  | item :: items => item.text :: itemTexts items

/-- The written forms of `name=value` pairs. -/
def fieldTexts : List (String × Value) → List String
  | [] => []
  | (name, value) :: fields => (name ++ "=" ++ value.text) :: fieldTexts fields

end

theorem itemTexts_eq_map (items : List Value) : itemTexts items = items.map Value.text := by
  induction items with
  | nil => simp [itemTexts]
  | cons item items ih => simp [itemTexts, ih]

theorem fieldTexts_eq_map (fields : Results) :
    fieldTexts fields = fields.map fun f => f.1 ++ "=" ++ f.2.text := by
  induction fields with
  | nil => simp [fieldTexts]
  | cons field fields ih => simp [fieldTexts, ih]

namespace Results

/-- The written form of `name=value` pairs. -/
def text (results : Results) : String := ",".intercalate (fieldTexts results)

/-- The first value of a name. -/
def get? (results : Results) (name : String) : Option Value :=
  (results.find? (·.1 = name)).map (·.2)

end Results

/-- A field with a text. -/
def field (name : String) (text : String) : String × Value := (name, .const text)

/-- A field with a number. -/
def numberField (name : String) (n : Nat) : String × Value := (name, .const (toString n))

/-- An address: `0x` and 16 hexadecimal digits. -/
def addressText (address : UInt64) : String := Text.hex 16 address.toNat

/-- Stands for what the engine does not know. -/
def unknown : String := "??"

end MachineInterface
