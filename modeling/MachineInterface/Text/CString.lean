import MachineInterface.Text.Code

/-!
# MachineInterface.Text.CString

The contents of a C string constant.  The adapter writes every text that it
does not control in this form, so that a text never ends its string or its
line, and can be read back from it (`cString_append_inj`).
-/

namespace MachineInterface.Text

/-- An ASCII control character, DEL included. -/
def isControl (c : Char) : Bool := c.toNat < 0x20 || c.toNat == 0x7f

/-- The octal digit of a value below 8. -/
def octalDigit (n : Nat) : Char := Char.ofNat ('0'.toNat + n)

/-- The written form of a character: a backslash and a letter where C has
one, three octal digits for the other control characters. -/
def cEscapeChar (c : Char) : List Char :=
  if c = '\\' ∨ c = '"' then ['\\', c]
  else if c = '\n' then ['\\', 'n']
  else if c = '\r' then ['\\', 'r']
  else if c = '\t' then ['\\', 't']
  else if isControl c then
    ['\\', octalDigit (c.toNat / 64), octalDigit (c.toNat / 8 % 8), octalDigit (c.toNat % 8)]
  else [c]

/-- The contents of the string constant that denotes a text. -/
def cEscape (cs : List Char) : List Char := cs.flatMap cEscapeChar

/-- Escapes a string; see `cEscape`. -/
def cEscaped (s : String) : String := String.ofList (cEscape s.toList)

/-- The string constant that denotes a text. -/
def cString (s : String) : String := "\"" ++ cEscaped s ++ "\""

@[simp] theorem cEscape_nil : cEscape [] = [] := rfl

@[simp] theorem cEscape_cons (c : Char) (cs : List Char) :
    cEscape (c :: cs) = cEscapeChar c ++ cEscape cs := rfl

@[simp] theorem cEscape_append (cs ds : List Char) :
    cEscape (cs ++ ds) = cEscape cs ++ cEscape ds := by
  simp [cEscape]

@[simp] theorem toList_cEscaped (s : String) : (cEscaped s).toList = cEscape s.toList := by
  simp [cEscaped]

theorem toList_cString (s : String) : (cString s).toList = '"' :: (cEscape s.toList ++ ['"']) := by
  simp [cString]

/-! ## Reading back -/

/-- The value of an octal digit. -/
def octalValue (c : Char) : Nat := c.toNat - '0'.toNat

/-- Read a character back from its written form, and leave what follows. -/
def readEscaped : List Char → Option (Char × List Char)
  | '\\' :: c :: rest =>
    if c = '\\' ∨ c = '"' then some (c, rest)
    else if c = 'n' then some ('\n', rest)
    else if c = 'r' then some ('\r', rest)
    else if c = 't' then some ('\t', rest)
    else match rest with
      | d :: e :: rest =>
        some (Char.ofNat (64 * octalValue c + 8 * octalValue d + octalValue e), rest)
      | _ => none
  | c :: rest => some (c, rest)
  | [] => none

/-- An octal digit has its value and is no letter of the escapes. -/
theorem octalDigit_spec : ∀ n < 8, octalValue (octalDigit n) = n ∧ octalDigit n ∉
    ['\\', '"', 'n', 'r', 't'] ∧ isControl (octalDigit n) = false := by
  decide

theorem toNat_lt_of_isControl {c : Char} (h : isControl c = true) : c.toNat < 128 := by
  simp only [isControl, Bool.or_eq_true, decide_eq_true_eq, beq_iff_eq] at h
  omega

/-- Writing is undone by reading, whatever follows. -/
theorem readEscaped_cEscapeChar (c : Char) (rest : List Char) :
    readEscaped (cEscapeChar c ++ rest) = some (c, rest) := by
  unfold cEscapeChar
  split
  · next h => rcases h with rfl | rfl <;> rfl
  · next hquote =>
    split
    · next h => rw [h]; rfl
    · split
      · next h => rw [h]; rfl
      · split
        · next h => rw [h]; rfl
        · split
          · next hcontrol =>
            have hlt := toNat_lt_of_isControl hcontrol
            obtain ⟨ha, hletter, -⟩ := octalDigit_spec (c.toNat / 64) (by omega)
            obtain ⟨hb, -⟩ := octalDigit_spec (c.toNat / 8 % 8) (by omega)
            obtain ⟨hc, -⟩ := octalDigit_spec (c.toNat % 8) (by omega)
            simp only [List.mem_cons, List.not_mem_nil, or_false, not_or] at hletter
            have hvalue : 64 * (c.toNat / 64) + 8 * (c.toNat / 8 % 8) + c.toNat % 8 = c.toNat := by
              omega
            simp [readEscaped, hletter, ha, hb, hc, hvalue]
          · have hplain : c ≠ '\\' := fun h => hquote (.inl h)
            simp [readEscaped, hplain]

theorem cEscapeChar_append_inj {c d : Char} {rest rest' : List Char}
    (h : cEscapeChar c ++ rest = cEscapeChar d ++ rest') : c = d ∧ rest = rest' := by
  have hread := congrArg readEscaped h
  rw [readEscaped_cEscapeChar, readEscaped_cEscapeChar] at hread
  exact Prod.mk.inj (Option.some.inj hread)

/-- No written form begins with the quote that ends a string. -/
theorem cEscapeChar_append_ne_quote (c : Char) (rest rest' : List Char) :
    cEscapeChar c ++ rest ≠ '"' :: rest' := by
  intro h
  have hread := readEscaped_cEscapeChar c rest
  rw [h] at hread
  obtain ⟨rfl, -⟩ : '"' = c ∧ rest' = rest := by simpa [readEscaped] using hread
  simp [cEscapeChar] at h

/-- A string constant ends where it ends, and its text can be read back. -/
theorem cString_append_inj {s t : String} {rest rest' : List Char}
    (h : (cString s).toList ++ rest = (cString t).toList ++ rest') : s = t ∧ rest = rest' := by
  simp only [toList_cString, List.cons_append, List.append_assoc, List.cons.injEq, true_and,
    List.nil_append] at h
  obtain ⟨hmap, hbehind⟩ := flatMap_append_inj (f := id)
    (fun c _ d _ _ _ hcode => cEscapeChar_append_inj hcode)
    (fun d _ s => cEscapeChar_append_ne_quote d s _)
    (fun c _ s => cEscapeChar_append_ne_quote c s _) h
  exact ⟨String.toList_inj.mp (by simpa using hmap), by simpa using hbehind⟩

/-- The written form of a character has no control characters. -/
theorem isControl_of_mem_cEscapeChar {c d : Char} (h : d ∈ cEscapeChar c) :
    isControl d = false := by
  have hpair : ∀ {e : Char}, isControl e = false → d ∈ ['\\', e] → isControl d = false := by
    intro e he hd
    simp only [List.mem_cons, List.not_mem_nil, or_false] at hd
    rcases hd with rfl | rfl
    · rfl
    · exact he
  unfold cEscapeChar at h
  split at h
  · next hquote => rcases hquote with rfl | rfl <;> exact hpair rfl h
  · split at h
    · exact hpair rfl h
    · split at h
      · exact hpair rfl h
      · split at h
        · exact hpair rfl h
        · split at h
          · next hcontrol =>
            have hlt := toNat_lt_of_isControl hcontrol
            simp only [List.mem_cons, List.not_mem_nil, or_false] at h
            rcases h with rfl | rfl | rfl | rfl
            · rfl
            all_goals exact (octalDigit_spec _ (by omega)).2.2
          · next hplain =>
            rw [List.mem_singleton.mp h]
            exact Bool.eq_false_iff.mpr hplain

/-- A string constant has no control characters, whatever its text holds. -/
theorem isControl_of_mem_cString {s : String} {d : Char} (h : d ∈ (cString s).toList) :
    isControl d = false := by
  rw [toList_cString, List.mem_cons, List.mem_append, List.mem_singleton] at h
  rcases h with rfl | h | rfl
  · rfl
  · obtain ⟨c, -, hc⟩ := List.mem_flatMap.mp h
    exact isControl_of_mem_cEscapeChar hc
  · rfl

end MachineInterface.Text
