import MachineInterface.Location
import MachineInterface.Record.Value
import MachineInterface.Proofs.LineGrammar

/-!
# MachineInterface.Proofs.Locations

Places that are written and read back.  The four forms of a place overlap: a file
may start with an asterisk, a number that is too long for a line is a function, and
a colon in front of another one separates nothing.  `Reads` says how a trimmed text
is read, and from it follows which places survive (`parse_written`): all but the
functions behind a file that look like a line number or start with a colon.  A
client can only write such a function with a blank behind the colon, and the written
form drops the blank.  Addresses are read back from any of their numerals.
-/

namespace MachineInterface

namespace Text

variable {base n : Nat} {c : Char} {cs : List Char}

/-! ## Numerals -/

theorem digitValue_digitChar (h : n < 16) : digitValue n.digitChar = n := by
  have hall : ∀ n < 16, digitValue (Nat.digitChar n) = n := by decide
  exact hall n h

/-- Only ASCII characters denote anything. -/
theorem toNat_lt_of_digitValue (h : digitValue c < 16) : c.toNat < 128 := by
  unfold digitValue at h
  split at h
  · next hdigit => exact Nat.lt_of_le_of_lt (Char.isDigit_iff_toNat.mp hdigit).2 (by decide)
  · split at h
    · next hlower => exact Nat.lt_of_le_of_lt (Char.le_def.mp hlower.2) (by decide)
    · split at h
      · next hupper => exact Nat.lt_of_le_of_lt (Char.le_def.mp hupper.2) (by decide)
      · omega

theorem isBlank_of_isDigitOf (hbase : base ≤ 16) (h : isDigitOf base c = true) :
    isBlank c = false := by
  have hall : ∀ n < 128, digitValue (Char.ofNat n) < 16 → isBlank (Char.ofNat n) = false := by
    decide
  have hvalue : digitValue c < 16 := Nat.lt_of_lt_of_le (of_decide_eq_true h) hbase
  have hc := hall c.toNat (toNat_lt_of_digitValue hvalue)
  rw [Char.ofNat_toNat] at hc
  exact hc hvalue

/-- Capital letters denote what small letters do. -/
theorem digitValue_toLower (c : Char) : digitValue c.toLower = digitValue c := by
  by_cases hascii : c.toNat < 128
  · have hall : ∀ n < 128, digitValue (Char.ofNat n).toLower = digitValue (Char.ofNat n) := by
      decide
    have hc := hall c.toNat hascii
    rwa [Char.ofNat_toNat] at hc
  · have hcapital : ¬(c.val ≥ 'A'.val ∧ c.val ≤ 'Z'.val) := by
      rintro ⟨-, hle⟩
      exact hascii (Nat.lt_of_le_of_lt hle (by decide))
    have hself : c.toLower = c := dif_neg hcapital
    rw [hself]

theorem isDigitOf_ten : isDigitOf 10 c = c.isDigit := by
  cases hdigit : c.isDigit with
  | true =>
      obtain ⟨hlow, hhigh⟩ : 0x30 ≤ c.toNat ∧ c.toNat ≤ 0x39 := Char.isDigit_iff_toNat.mp hdigit
      have hzero : '0'.toNat = 0x30 := rfl
      simp only [isDigitOf, digitValue, hdigit, if_true, hzero, decide_eq_true_eq]
      omega
  | false =>
      by_contra hten
      rw [isDigit_of_isDigitOf_ten (by simpa using hten)] at hdigit
      cases hdigit

/-- The digits of a number are the characters of numbers below the base. -/
theorem exists_digitChar_of_mem_toDigits (hbase : 1 < base) (h : c ∈ Nat.toDigits base n) :
    ∃ d < base, c = d.digitChar := by
  induction n using Nat.strongRecOn with
  | ind n ih =>
      rw [Nat.toDigits_eq_if hbase] at h
      split at h
      · next hn => exact ⟨n, hn, List.mem_singleton.mp h⟩
      · next hn =>
        obtain hfront | hlast := List.mem_append.mp h
        · exact ih (n / base) (Nat.div_lt_self (by omega) hbase) hfront
        · exact ⟨n % base, Nat.mod_lt _ (by omega), List.mem_singleton.mp hlast⟩

theorem isDigitOf_of_mem_toDigits (hbase : 1 < base) (hsmall : base ≤ 16)
    (h : c ∈ Nat.toDigits base n) : isDigitOf base c = true := by
  obtain ⟨d, hd, rfl⟩ := exists_digitChar_of_mem_toDigits hbase h
  simpa [isDigitOf, digitValue_digitChar (Nat.lt_of_lt_of_le hd hsmall)] using hd

theorem ofDigits_toDigits (hbase : 1 < base) (hsmall : base ≤ 16) (n : Nat) :
    ofDigits base (Nat.toDigits base n) = n := by
  induction n using Nat.strongRecOn with
  | ind n ih =>
      rw [Nat.toDigits_eq_if hbase]
      split
      · next hn => simp [ofDigits, digitValue_digitChar (Nat.lt_of_lt_of_le hn hsmall)]
      · next hn =>
        have hfront := ih (n / base) (Nat.div_lt_self (by omega) hbase)
        have hlast : n % base < 16 := Nat.lt_of_lt_of_le (Nat.mod_lt n (by omega)) hsmall
        rw [ofDigits] at hfront
        rw [ofDigits, List.foldl_append, hfront, List.foldl_cons, List.foldl_nil,
          digitValue_digitChar hlast, Nat.div_add_mod]

/-- Leading zeros do not count. -/
theorem ofDigits_zeros (base zeros : Nat) (cs : List Char) :
    ofDigits base (List.replicate zeros '0' ++ cs) = ofDigits base cs := by
  have hzeros : (List.replicate zeros '0').foldl (fun n c => base * n + digitValue c) 0 = 0 := by
    induction zeros with
    | zero => rfl
    | succ zeros ih =>
        have hzero : digitValue '0' = 0 := rfl
        rwa [List.replicate_succ, List.foldl_cons, hzero, Nat.mul_zero]
  rw [ofDigits, List.foldl_append, hzeros, ofDigits]

/-- Decimal digits denote the number that the core library reads. -/
theorem ofDigits_ten (h : ∀ c ∈ cs, c.isDigit = true) :
    ofDigits 10 cs = Nat.ofDigitChars 10 cs 0 := by
  unfold ofDigits Nat.ofDigitChars
  refine List.foldl_ext _ _ _ fun n c hc => ?_
  simp only [digitValue, h c hc, if_true]

theorem word64?_eq_some_iff {m : Nat} : word64? base cs = some m ↔
    cs ≠ [] ∧ (∀ c ∈ cs, isDigitOf base c = true) ∧ ofDigits base cs = m ∧ m < UInt64.size := by
  simp only [word64?, unsigned?, Option.filter_eq_some_iff, Option.ite_none_right_eq_some,
    Option.some.injEq, fits64, UInt64.size, decide_eq_true_eq, List.all_eq_true, and_assoc]

/-- ASCII digits of a number of 64 bits. -/
def IsWord64 (cs : List Char) : Prop :=
  cs ≠ [] ∧ (∀ c ∈ cs, c.isDigit = true) ∧ Nat.ofDigitChars 10 cs 0 < UInt64.size

theorem isWord64_iff : IsWord64 cs ↔ word64? 10 cs ≠ none := by
  simp only [Option.ne_none_iff_exists', word64?_eq_some_iff, isDigitOf_ten, IsWord64]
  constructor
  · rintro ⟨hne, hdigits, hfits⟩
    exact ⟨_, hne, hdigits, rfl, by rwa [ofDigits_ten hdigits]⟩
  · rintro ⟨_, hne, hdigits, rfl, hfits⟩
    exact ⟨hne, hdigits, by rwa [← ofDigits_ten hdigits]⟩

/-! ## Trimmed texts -/

theorem IsTrimmed.trim_eq (h : IsTrimmed cs) : trim cs = cs := by
  by_cases hne : cs = []
  · rw [hne]
    rfl
  · exact (h.tight hne).trim_eq

theorem trim_trim (cs : List Char) : trim (trim cs) = trim cs := (isTrimmed_trim cs).trim_eq

theorem mem_of_mem_trim (h : c ∈ trim cs) : c ∈ cs := by
  obtain ⟨before, after, -, -, hcs⟩ := exists_trim cs
  rw [hcs]
  exact List.mem_append_right _ (List.mem_append_left _ h)

/-- Characters that are no blanks are kept. -/
theorem mem_trim_of_mem (hc : isBlank c = false) (h : c ∈ cs) : c ∈ trim cs := by
  have hgap : ∀ gap : List Char, isAllBlank gap = true → c ∉ gap := by
    intro gap hgap hmem
    rw [isAllBlank_iff.mp hgap c hmem] at hc
    cases hc
  obtain ⟨before, after, hbefore, hafter, hcs⟩ := exists_trim cs
  rw [hcs] at h
  simpa [hgap before hbefore, hgap after hafter] using h

theorem trim_ne_nil (hc : isBlank c = false) (h : c ∈ cs) : trim cs ≠ [] :=
  List.ne_nil_of_mem (mem_trim_of_mem hc h)

theorem isTrimmed_of_forall (h : ∀ c ∈ cs, isBlank c = false) : IsTrimmed cs where
  head c hc := h c (List.mem_of_mem_head? hc)
  last c hc := h c (List.mem_of_mem_getLast? hc)

/-- Two texts with a colon between them are trimmed if their outer ends are. -/
theorem IsTrimmed.colon {front behind : List Char} (hfront : IsTrimmed front) (hne : front ≠ [])
    (hbehind : IsTrimmed behind) (hne' : behind ≠ []) : IsTrimmed (front ++ ':' :: behind) where
  head := by
    rw [List.head?_append_of_ne_nil _ hne]
    exact hfront.head
  last := by
    rw [List.getLast?_append_of_ne_nil _ (List.cons_ne_nil _ _), List.getLast?_cons_of_ne_nil hne']
    exact hbehind.last

end Text

namespace Location

open Text

/-- The ways in which a trimmed text is read. -/
inductive Reads : List Char → Location → Prop
  | address {rest : List Char} {a : UInt64} (h : address? rest = some a) :
    Reads ('*' :: rest) (.address a)
  | line {file digits : List Char} {n : Nat} (hfile : file ≠ []) (hcolon : ':' ∉ file)
    (hnumber : word64? 10 digits = some n) :
    Reads (file ++ ':' :: digits) (.line (String.ofList (trim file)) n)
  | fileFunction {file name : List Char} {c : Char} (hfile : file ≠ []) (hcolon : ':' ∉ file)
    (hnumber : word64? 10 (c :: name) = none) (hc : c ≠ ':') :
    Reads (file ++ ':' :: c :: name)
      (.fileFunction (String.ofList (trim file)) (String.ofList (trim (c :: name))))
  | function {cs : List Char} (hfirst : cs.head? ≠ some '*') :
    Reads cs (.function (String.ofList (trim cs)))

variable {cs file rest name digits : List Char} {c : Char} {a : UInt64} {n : Nat}
  {location : Location} {text : String}

/-! ## How a trimmed text is read -/

theorem splitColon_append (hfile : ':' ∉ file) :
    splitColon (file ++ ':' :: rest) = some (file, rest) := by
  have hrun : ∀ c ∈ file, (c ≠ ':' : Bool) = true := by
    intro c hc
    simpa using fun heq : c = ':' => hfile (heq ▸ hc)
  have hend : ∀ c ∈ (':' :: rest).head?, (c ≠ ':' : Bool) = false := by simp
  rw [splitColon, dropWhile_run hrun hend, takeWhile_run hrun hend]

theorem splitColon_eq_some (h : splitColon cs = some (file, rest)) :
    cs = file ++ ':' :: rest ∧ ':' ∉ file := by
  unfold splitColon at h
  split at h
  · cases h
  · next c behind hdrop =>
    cases h
    have hcs := List.takeWhile_append_dropWhile (p := (· ≠ ':')) (l := cs)
    have hcolon := List.head?_dropWhile_not (fun c => (c ≠ ':' : Bool)) cs
    rw [hdrop] at hcs hcolon
    obtain rfl : c = ':' := by simpa using hcolon
    refine ⟨hcs.symm, fun hmem => ?_⟩
    simpa using List.mem_takeWhile_imp hmem

/-- There is no colon in an address. -/
theorem ofAddress_of_colon (h : ':' ∈ cs) : ofAddress cs = none := by
  have hword : ∀ {base : Nat} {ds : List Char}, base ≤ 16 → ':' ∈ ds → word64? base ds = none := by
    intro base ds hbase hmem
    rw [Option.eq_none_iff_forall_ne_some]
    intro m hm
    have hdigit : isDigitOf base ':' = true := (word64?_eq_some_iff.mp hm).2.1 ':' hmem
    have hcolon : digitValue ':' = 16 := rfl
    simp only [isDigitOf, hcolon, decide_eq_true_eq] at hdigit
    omega
  unfold ofAddress
  split
  · next rest =>
    have hrest : ':' ∈ trim rest := mem_trim_of_mem rfl (by simpa using h)
    unfold address?
    split
    · next digits htrim =>
      rw [htrim] at hrest
      rw [hword (by decide) (by simpa using hrest)]
      rfl
    · next digits htrim =>
      rw [htrim] at hrest
      rw [hword (by decide) (by simpa using hrest)]
      rfl
    · rw [hword (by decide) hrest]
      rfl
  · rfl

theorem ofTrimmed_line (hfile : file ≠ []) (hcolon : ':' ∉ file)
    (hnumber : word64? 10 digits = some n) :
    ofTrimmed (file ++ ':' :: digits) = some (.line (String.ofList (trim file)) n) := by
  obtain ⟨d, file, rfl⟩ := List.exists_cons_of_ne_nil hfile
  rw [ofTrimmed, ofAddress_of_colon (by simp), ofLine, splitColon_append hcolon]
  simp [hnumber]

theorem ofTrimmed_fileFunction (hfile : file ≠ []) (hcolon : ':' ∉ file)
    (hnumber : word64? 10 (c :: name) = none) (hc : c ≠ ':') :
    ofTrimmed (file ++ ':' :: c :: name) =
      some (.fileFunction (String.ofList (trim file)) (String.ofList (trim (c :: name)))) := by
  obtain ⟨d, file, rfl⟩ := List.exists_cons_of_ne_nil hfile
  rw [ofTrimmed, ofAddress_of_colon (by simp), ofLine, ofFileFunction, splitColon_append hcolon]
  simp [hnumber, hc]

theorem reads_of_ofAddress (h : ofAddress cs = some location) : Reads cs location := by
  unfold ofAddress at h
  split at h
  · next rest =>
    obtain ⟨a, ha, rfl⟩ := Option.map_eq_some_iff.mp h
    exact .address ha
  · cases h

theorem reads_of_ofLine (h : ofLine cs = some location) : Reads cs location := by
  unfold ofLine at h
  split at h
  · next d file digits hsplit =>
    obtain ⟨rfl, hcolon⟩ := splitColon_eq_some hsplit
    obtain ⟨n, hnumber, rfl⟩ := Option.map_eq_some_iff.mp h
    exact .line (List.cons_ne_nil d file) hcolon hnumber
  · cases h

theorem reads_of_ofFileFunction (hline : ofLine cs = none) (h : ofFileFunction cs = some location) :
    Reads cs location := by
  unfold ofFileFunction at h
  split at h
  · next d file c name hsplit =>
    obtain ⟨rfl, hcolon⟩ := splitColon_eq_some hsplit
    have hnumber : word64? 10 (c :: name) = none := by
      rw [ofLine, hsplit] at hline
      exact Option.map_eq_none_iff.mp hline
    split at h
    · cases h
    · next hc =>
      cases h
      exact .fileFunction (List.cons_ne_nil d file) hcolon hnumber hc
  · cases h

theorem reads_of_ofFunction (h : ofFunction cs = some location) : Reads cs location := by
  unfold ofFunction at h
  split at h
  · cases h
  · next c rest =>
    split at h
    · cases h
    · next hc =>
      cases h
      exact .function (by simpa using hc)

/-- A text is read in one of these ways. -/
theorem reads_of_ofTrimmed (h : ofTrimmed cs = some location) : Reads cs location := by
  rw [ofTrimmed] at h
  cases haddress : ofAddress cs with
  | some found =>
      rw [haddress] at h
      exact reads_of_ofAddress (haddress.trans h)
  | none =>
      cases hline : ofLine cs with
      | some found =>
          rw [haddress, hline] at h
          exact reads_of_ofLine (hline.trans h)
      | none =>
          cases hfunction : ofFileFunction cs with
          | some found =>
              rw [haddress, hline, hfunction] at h
              exact reads_of_ofFileFunction hline (hfunction.trans h)
          | none =>
              rw [haddress, hline, hfunction] at h
              exact reads_of_ofFunction h

theorem parse_eq_ok_iff :
    parse text = .ok location ↔ ofTrimmed (trim text.toList) = some location := by
  unfold parse
  simp only
  split
  · next found hfound => simp [hfound]
  · next hnone => simp [hnone]

/-! ## Addresses -/

/-- The numerals of an address: decimal digits, or small or capital hexadecimal digits
behind `0x` or `0X`, with any number of leading zeros. -/
inductive AddressText (a : UInt64) : List Char → Prop
  | decimal (zeros : Nat) : AddressText a (List.replicate zeros '0' ++ Nat.toDigits 10 a.toNat)
  | hexadecimal {x : Char} (hx : x = 'x' ∨ x = 'X') (zeros : Nat) {digits : List Char}
    (hdigits : digits.map Char.toLower = Nat.toDigits 16 a.toNat) :
    AddressText a ('0' :: x :: (List.replicate zeros '0' ++ digits))

/-- The usual written form of an address is one of them. -/
theorem addressText_hex (a : UInt64) (width : Nat) : AddressText a (hex width a.toNat).toList := by
  have hlower : ∀ c ∈ Nat.toDigits 16 a.toNat, c.toLower = c := by
    have hall : ∀ n < 16, (Nat.digitChar n).toLower = Nat.digitChar n := by decide
    intro c hc
    obtain ⟨d, hd, rfl⟩ := exists_digitChar_of_mem_toDigits (by decide) hc
    exact hall d hd
  rw [hex, String.toList_ofList]
  exact .hexadecimal (.inl rfl) _ ((List.map_congr_left hlower).trans (List.map_id _))

/-- Small and capital digits are digits of the same number. -/
theorem digits_of_map_toLower (h : digits.map Char.toLower = Nat.toDigits 16 n) :
    digits ≠ [] ∧ (∀ c ∈ digits, isDigitOf 16 c = true) ∧ ofDigits 16 digits = n := by
  refine ⟨?_, fun c hc => ?_, ?_⟩
  · rintro rfl
    exact Nat.toDigits_ne_nil h.symm
  · have hlower : c.toLower ∈ Nat.toDigits 16 n := h ▸ List.mem_map_of_mem hc
    have hdigit := isDigitOf_of_mem_toDigits (by decide) (by decide) hlower
    rwa [isDigitOf, digitValue_toLower] at hdigit
  · have hvalue : ofDigits 16 (Nat.toDigits 16 n) = n :=
      ofDigits_toDigits (by decide) (by decide) n
    rw [← h, ofDigits, List.foldl_map] at hvalue
    simpa only [ofDigits, digitValue_toLower] using hvalue

theorem isDigitOf_of_mem_zeros {base : Nat} (zeros : Nat) (hbase : 1 < base)
    (hdigits : ∀ c ∈ digits, isDigitOf base c = true) :
    ∀ c ∈ List.replicate zeros '0' ++ digits, isDigitOf base c = true := by
  intro c hc
  obtain hc | hc := List.mem_append.mp hc
  · rw [List.eq_of_mem_replicate hc]
    exact decide_eq_true (Nat.lt_of_succ_lt hbase)
  · exact hdigits c hc

theorem word64?_zeros {base : Nat} (zeros : Nat) (hbase : 1 < base) (hne : digits ≠ [])
    (hdigits : ∀ c ∈ digits, isDigitOf base c = true) (hvalue : ofDigits base digits = a.toNat) :
    word64? base (List.replicate zeros '0' ++ digits) = some a.toNat :=
  word64?_eq_some_iff.mpr ⟨by simp [hne], isDigitOf_of_mem_zeros zeros hbase hdigits,
    by rw [ofDigits_zeros, hvalue], a.toNat_lt_size⟩

theorem AddressText.isBlank (h : AddressText a digits) : ∀ c ∈ digits, isBlank c = false := by
  cases h with
  | decimal zeros =>
      have hdigits : ∀ c ∈ Nat.toDigits 10 a.toNat, isDigitOf 10 c = true := fun c hc =>
        isDigitOf_of_mem_toDigits (by decide) (by decide) hc
      have hall := isDigitOf_of_mem_zeros zeros (by decide) hdigits
      exact fun c hc => isBlank_of_isDigitOf (by decide) (hall c hc)
  | @hexadecimal x hx zeros digits hdigits =>
      have hall := isDigitOf_of_mem_zeros zeros (by decide) (digits_of_map_toLower hdigits).2.1
      refine List.forall_mem_cons.mpr ⟨rfl, List.forall_mem_cons.mpr ⟨?_, fun c hc =>
        isBlank_of_isDigitOf (by decide) (hall c hc)⟩⟩
      obtain rfl | rfl := hx <;> rfl

/-- An address is read from each of its numerals. -/
theorem AddressText.address?_eq (h : AddressText a digits) : address? digits = some a := by
  have htrim := (isTrimmed_of_forall h.isBlank).trim_eq
  unfold address?
  rw [htrim]
  cases h with
  | decimal zeros =>
      have hdigits : ∀ c ∈ Nat.toDigits 10 a.toNat, isDigitOf 10 c = true := fun c hc =>
        isDigitOf_of_mem_toDigits (by decide) (by decide) hc
      have hword := word64?_zeros (a := a) zeros (by decide) Nat.toDigits_ne_nil hdigits
        (ofDigits_toDigits (by decide) (by decide) a.toNat)
      -- No decimal digit is an `x`.
      have hx : ∀ {x ds}, isDigitOf 10 x = false →
          List.replicate zeros '0' ++ Nat.toDigits 10 a.toNat ≠ '0' :: x :: ds := by
        intro x ds hx heq
        have hmem : x ∈ List.replicate zeros '0' ++ Nat.toDigits 10 a.toNat := by simp [heq]
        rw [isDigitOf_of_mem_zeros zeros (by decide) hdigits x hmem] at hx
        cases hx
      split
      · next heq => exact (hx rfl heq).elim
      · next heq => exact (hx rfl heq).elim
      · rw [hword, Option.map_some, UInt64.ofNat_toNat]
  | @hexadecimal x hx zeros digits hdigits =>
      obtain ⟨hne, hall, hvalue⟩ := digits_of_map_toLower hdigits
      have hword := word64?_zeros zeros (by decide) hne hall hvalue
      obtain rfl | rfl := hx
      · simp only [hword, Option.map_some, UInt64.ofNat_toNat]
      · simp only [hword, Option.map_some, UInt64.ofNat_toNat]

theorem AddressText.parse_eq (h : AddressText a digits) :
    parse (String.ofList ('*' :: digits)) = .ok (.address a) := by
  have htrimmed : IsTrimmed ('*' :: digits) :=
    isTrimmed_of_forall (List.forall_mem_cons.mpr ⟨rfl, h.isBlank⟩)
  rw [parse_eq_ok_iff, String.toList_ofList, htrimmed.trim_eq, ofTrimmed, ofAddress,
    h.address?_eq]
  rfl

/-! ## What is read back -/

/-- A function behind a file that looks like a line number or like a part of a
qualified name. -/
def Clashes : Location → Prop
  | fileFunction _ name => IsWord64 name.toList ∨ name.toList.head? = some ':'
  | _ => False

theorem toList_text_line (file : String) (n : Nat) :
    (line file n).text.toList = file.toList ++ ':' :: Nat.toDigits 10 n := by
  simp [Location.text, toString, ← Nat.toList_repr]

theorem toList_text_fileFunction (file name : String) :
    (fileFunction file name).text.toList = file.toList ++ ':' :: name.toList := by
  simp [Location.text, toString]

/-- Behind two colons there is no function of a file. -/
theorem ofTrimmed_of_colons (hfile : file ≠ []) (hcolon : ':' ∉ file) (f g : String) :
    ofTrimmed (file ++ ':' :: ':' :: name) ≠ some (.fileFunction f g) := by
  have hnumber : word64? 10 (':' :: name) = none := by
    rw [← not_ne_iff, ← isWord64_iff]
    rintro ⟨-, hdigits, -⟩
    cases hdigits ':' List.mem_cons_self
  obtain ⟨d, file, rfl⟩ := List.exists_cons_of_ne_nil hfile
  rw [ofTrimmed, ofAddress_of_colon (by simp), ofLine, ofFileFunction, splitColon_append hcolon]
  by_cases hd : d = '*' <;> simp [hnumber, ofFunction, hd]

/-- What stands in front of the colon of a trimmed text is not blank. -/
theorem trim_file_ne_nil (h : IsTrimmed (file ++ ':' :: rest)) (hfile : file ≠ []) :
    trim file ≠ [] := by
  obtain ⟨d, file, rfl⟩ := List.exists_cons_of_ne_nil hfile
  exact trim_ne_nil (h.head d rfl) List.mem_cons_self

/-- What stands at the end of a trimmed text is not blank. -/
theorem trim_name_ne_nil (h : IsTrimmed (file ++ ':' :: c :: name)) : trim (c :: name) ≠ [] := by
  have hlast := List.getLast?_eq_some_getLast (List.cons_ne_nil c name)
  refine trim_ne_nil (h.last _ ?_) (List.getLast_mem (List.cons_ne_nil c name))
  rw [List.getLast?_append_of_ne_nil _ (List.cons_ne_nil _ _),
    List.getLast?_cons_of_ne_nil (List.cons_ne_nil c name), hlast]
  rfl

/-- Lines are read back. -/
theorem ofTrimmed_text_line (h : IsTrimmed (file ++ ':' :: digits)) (hfile : file ≠ [])
    (hcolon : ':' ∉ file) (hn : n < UInt64.size) :
    ofTrimmed (trim (line (String.ofList (trim file)) n).text.toList) =
      some (.line (String.ofList (trim file)) n) := by
  have hdigits : ∀ c ∈ Nat.toDigits 10 n, isDigitOf 10 c = true := fun c hc =>
    isDigitOf_of_mem_toDigits (by decide) (by decide) hc
  have hnumber : word64? 10 (Nat.toDigits 10 n) = some n := word64?_eq_some_iff.mpr
    ⟨Nat.toDigits_ne_nil, hdigits, ofDigits_toDigits (by decide) (by decide) n, hn⟩
  have hne := trim_file_ne_nil h hfile
  have htrimmed : IsTrimmed (trim file ++ ':' :: Nat.toDigits 10 n) :=
    (isTrimmed_trim file).colon hne
      (isTrimmed_of_forall fun c hc => isBlank_of_isDigitOf (by decide) (hdigits c hc))
      Nat.toDigits_ne_nil
  rw [toList_text_line, String.toList_ofList, htrimmed.trim_eq,
    ofTrimmed_line hne (fun hmem => hcolon (mem_of_mem_trim hmem)) hnumber, trim_trim]

/-- Functions of a file are read back unless they clash. -/
theorem ofTrimmed_text_fileFunction (h : IsTrimmed (file ++ ':' :: c :: name)) (hfile : file ≠ [])
    (hcolon : ':' ∉ file) :
    let location := fileFunction (String.ofList (trim file)) (String.ofList (trim (c :: name)))
    ofTrimmed (trim location.text.toList) = some location ↔ ¬ location.Clashes := by
  intro location
  have hne := trim_file_ne_nil h hfile
  have hne' := trim_name_ne_nil h
  have hcolon' : ':' ∉ trim file := fun hmem => hcolon (mem_of_mem_trim hmem)
  have htrimmed := (isTrimmed_trim file).colon hne (isTrimmed_trim (c :: name)) hne'
  rw [toList_text_fileFunction, String.toList_ofList, String.toList_ofList, htrimmed.trim_eq,
    Clashes, String.toList_ofList, isWord64_iff]
  obtain ⟨d, rest, htext⟩ := List.exists_cons_of_ne_nil hne'
  have hself : trim (d :: rest) = d :: rest := by rw [← htext, trim_trim]
  simp only [location, htext]
  cases hnumber : word64? 10 (d :: rest) with
  | some m =>
      rw [ofTrimmed_line hne hcolon' hnumber]
      simp
  | none =>
      by_cases hd : d = ':'
      · subst hd
        simpa using ofTrimmed_of_colons hne hcolon' _ _
      · rw [ofTrimmed_fileFunction hne hcolon' hnumber hd, trim_trim, hself]
        simpa using hd

/-- A function that clashes was written behind a blank. -/
theorem isBlank_of_clashes (h : IsTrimmed (file ++ ':' :: c :: name)) {f : String}
    (hnumber : word64? 10 (c :: name) = none) (hc : c ≠ ':')
    (hclash : (fileFunction f (String.ofList (trim (c :: name)))).Clashes) :
    Text.isBlank c = true := by
  by_contra hblank
  have hself : trim (c :: name) = c :: name := by
    refine IsTrimmed.trim_eq ⟨?_, fun d hd => h.last d ?_⟩
    · rintro _ ⟨⟩
      simpa using hblank
    · rwa [List.getLast?_append_of_ne_nil _ (List.cons_ne_nil _ _),
        List.getLast?_cons_of_ne_nil (List.cons_ne_nil c name)]
  rw [Clashes, String.toList_ofList, hself, isWord64_iff] at hclash
  obtain hword | hhead := hclash
  · exact hword hnumber
  · exact hc (Option.some.inj hhead)

/-- Which places are read back from their written forms. -/
theorem Reads.written (h : Reads cs location) (hcs : IsTrimmed cs)
    (hread : ofTrimmed cs = some location) :
    (ofTrimmed (trim location.text.toList) = some location ↔ ¬ location.Clashes) ∧
      (location.Clashes → ∃ file gap rest, cs = file ++ ':' :: gap :: rest ∧ ':' ∉ file ∧
        Text.isBlank gap = true) := by
  cases h with
  | @address rest a ha =>
      have hback := parse_eq_ok_iff.mp (addressText_hex a 1).parse_eq
      rw [String.ofList_cons, String.ofList_toList] at hback
      exact ⟨iff_of_true hback not_false, False.elim⟩
  | @line file digits n hfile hcolon hnumber =>
      have hn : n < UInt64.size := (word64?_eq_some_iff.mp hnumber).2.2.2
      exact ⟨iff_of_true (ofTrimmed_text_line hcs hfile hcolon hn) not_false, False.elim⟩
  | @fileFunction file name c hfile hcolon hnumber hc =>
      exact ⟨ofTrimmed_text_fileFunction hcs hfile hcolon, fun hclash =>
        ⟨file, c, name, rfl, hcolon, isBlank_of_clashes hcs hnumber hc hclash⟩⟩
  | function hfirst =>
      have htext : trim (Location.function (String.ofList (trim cs))).text.toList = cs := by
        rw [Location.text, String.toList_ofList, trim_trim, hcs.trim_eq]
      exact ⟨iff_of_true (by rwa [htext]) not_false, False.elim⟩

/-- **Places are read back**: a place that was read is read again from its written
form, unless it is a function of a file that looks like a line number or starts with
a colon; such a function was written with a blank behind the first colon.  An address
is read from each of its numerals, also from the form that records have. -/
theorem parse_written :
    (∀ text location, parse text = .ok location →
      (parse location.text = .ok location ↔ ¬ location.Clashes) ∧
      (location.Clashes → ∃ file gap rest, text.toList = file ++ ':' :: gap :: rest ∧
        ':' ∉ file ∧ Text.isBlank gap = true)) ∧
    ∀ a : UInt64, parse ("*" ++ addressText a) = .ok (.address a) ∧
      ∀ digits, AddressText a digits →
        parse (String.ofList ('*' :: digits)) = .ok (.address a) := by
  refine ⟨fun text location h => ?_, fun a => ⟨?_, fun digits hdigits => hdigits.parse_eq⟩⟩
  · rw [parse_eq_ok_iff] at h ⊢
    obtain ⟨hback, hclash⟩ := (reads_of_ofTrimmed h).written (isTrimmed_trim _) h
    refine ⟨hback, fun hclashes => ?_⟩
    obtain ⟨file, gap, rest, hcs, hcolon, hgap⟩ := hclash hclashes
    obtain ⟨before, after, hbefore, -, htext⟩ := exists_trim text.toList
    refine ⟨before ++ file, gap, rest ++ after, ?_, ?_, hgap⟩
    · rw [htext, hcs]
      simp
    · have hblank : ':' ∉ before := fun hmem => by cases isAllBlank_iff.mp hbefore ':' hmem
      simp [hblank, hcolon]
  · have hhex := (addressText_hex a 16).parse_eq
    rwa [String.ofList_cons, String.ofList_toList] at hhex

/-- The function `5` of the file `a` is read back as line 5, the function `f5` as
itself. -/
theorem parse_written_clash :
    parse "a: 5" = .ok (.fileFunction "a" "5") ∧ parse "a:5" ≠ .ok (.fileFunction "a" "5") ∧
      parse "a: f5" = .ok (.fileFunction "a" "f5") ∧
      parse "a:f5" = .ok (.fileFunction "a" "f5") := by
  have hnumber : parse "a: 5" = .ok (.fileFunction "a" "5") := by decide +kernel
  have hname : parse "a: f5" = .ok (.fileFunction "a" "f5") := by decide +kernel
  have hclash : (fileFunction "a" "5").Clashes :=
    .inl ⟨by decide, List.forall_mem_singleton.mpr (by decide), by decide⟩
  have hfree : ¬ (fileFunction "a" "f5").Clashes := by
    rintro (⟨-, hdigits, -⟩ | hcolon)
    · cases hdigits 'f' List.mem_cons_self
    · cases hcolon
  refine ⟨hnumber, fun hback => ?_, hname, ?_⟩
  · exact (parse_written.1 _ _ hnumber).1.mp hback hclash
  · exact (parse_written.1 _ _ hname).1.mpr hfree

end Location

end MachineInterface
