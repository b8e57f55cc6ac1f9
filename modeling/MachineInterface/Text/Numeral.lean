/-!
# MachineInterface.Text.Numeral

Numbers as text: unsigned numerals in a base, signed 64-bit integers, and
hexadecimal numbers of a least width.  A number outside its range is not read
at all, so a reader never wraps.
-/

namespace MachineInterface.Text

/-! ## Digits -/

/-- The value of an ASCII digit or hexadecimal letter, 16 for all other
characters. -/
def digitValue (c : Char) : Nat :=
  if c.isDigit then c.toNat - '0'.toNat
  else if 'a' ≤ c ∧ c ≤ 'f' then c.toNat - 'a'.toNat + 10
  else if 'A' ≤ c ∧ c ≤ 'F' then c.toNat - 'A'.toNat + 10
  else 16

/-- A digit of a base up to 16. -/
def isDigitOf (base : Nat) (c : Char) : Bool := digitValue c < base

/-- The number that a list of digits denotes in a base. -/
def ofDigits (base : Nat) (cs : List Char) : Nat :=
  cs.foldl (fun n c => base * n + digitValue c) 0

/-- Read a non-empty list of digits. -/
def unsigned? (base : Nat) (cs : List Char) : Option Nat :=
  if cs ≠ [] ∧ cs.all (isDigitOf base) then some (ofDigits base cs) else none

/-! ## Ranges -/

/-- Numbers of 32 bits: stoppoint numbers, counts and frame levels. -/
def fits32 (n : Nat) : Bool := n < 0x100000000

/-- Numbers of 64 bits: addresses and line numbers. -/
def fits64 (n : Nat) : Bool := n < 0x10000000000000000

/-- Read a numeral that fits 64 bits. -/
def word64? (base : Nat) (cs : List Char) : Option Nat :=
  (unsigned? base cs).filter fits64

/-- A signed 64-bit integer: decimal digits after at most one sign. -/
def integer? (cs : List Char) : Option Int :=
  match cs with
  | '-' :: digits =>
    (unsigned? 10 digits).bind fun n => if n ≤ 0x8000000000000000 then some (-n) else none
  | '+' :: digits =>
    (unsigned? 10 digits).bind fun n => if n < 0x8000000000000000 then some n else none
  | digits =>
    (unsigned? 10 digits).bind fun n => if n < 0x8000000000000000 then some n else none

/-- A natural number of 32 bits, from a signed integer. -/
def nat32? (n : Int) : Option Nat :=
  if 0 ≤ n ∧ n < 0x100000000 then some n.toNat else none

/-! ## Hexadecimal text -/

/-- Lower-case hexadecimal digits, with leading zeros up to `width` digits. -/
def hexDigits (width : Nat) (n : Nat) : List Char :=
  let digits := Nat.toDigits 16 n
  List.replicate (width - digits.length) '0' ++ digits

/-- The prefix `0x` and at least `width` hexadecimal digits. -/
def hex (width : Nat) (n : Nat) : String :=
  String.ofList ('0' :: 'x' :: hexDigits width n)

/-! ## What the readers accept -/

/-- An integer that is read lies in the signed 64-bit range. -/
theorem integer?_range {cs : List Char} {n : Int} (h : integer? cs = some n) :
    -0x8000000000000000 ≤ n ∧ n < 0x8000000000000000 := by
  unfold integer? at h
  split at h <;> simp only [Option.bind_eq_some_iff] at h <;> obtain ⟨m, -, h⟩ := h <;>
    split at h <;> simp only [Option.some.injEq, reduceCtorEq] at h <;> omega

theorem nat32?_eq_some_iff {n : Int} {m : Nat} :
    nat32? n = some m ↔ n = m ∧ m < 0x100000000 := by
  unfold nat32?
  split <;> simp only [Option.some.injEq, reduceCtorEq, false_iff] <;> omega

/-- The empty text is no numeral. -/
@[simp] theorem unsigned?_nil (base : Nat) : unsigned? base [] = none := rfl

theorem length_hexDigits (width n : Nat) : width ≤ (hexDigits width n).length := by
  simp only [hexDigits, List.length_append, List.length_replicate]
  omega

end MachineInterface.Text
