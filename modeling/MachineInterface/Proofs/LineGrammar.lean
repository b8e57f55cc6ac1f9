import MachineInterface.Proofs.Answers
import MachineInterface.Proofs.Unquoted

/-!
# MachineInterface.Proofs.LineGrammar

The grammar of command lines, stated without the parser.  A line consists of the
digits of its token, a dash, the verb and the arguments, with blanks around it
and in front of the arguments (`Line.Written`).  Digits, dash and verb have
characters in common: the token takes all the digits that it finds, then one dash
belongs to none of them, and the verb takes the rest.  The parser accepts exactly
the lines of this grammar, and a line that is written out is read back
(`parse_grammar`).
-/

namespace MachineInterface

namespace Text

variable {cs gap after : List Char}

/-! ## Trimmed texts -/

/-- There is no blank at either end; the empty text has none. -/
structure IsTrimmed (cs : List Char) : Prop where
  head : ∀ c ∈ cs.head?, isBlank c = false
  last : ∀ c ∈ cs.getLast?, isBlank c = false

theorem IsTrimmed.tight (h : IsTrimmed cs) (hne : cs ≠ []) : Tight cs where
  head :=
    have ⟨c, _, hcs⟩ := List.exists_cons_of_ne_nil hne
    ⟨c, by rw [hcs, List.head?_cons], h.head c (by rw [hcs, List.head?_cons]; rfl)⟩
  last :=
    have hlast := List.getLast?_eq_some_getLast hne
    ⟨_, hlast, h.last _ hlast⟩

/-- The blanks around a trimmed text are dropped, also if those behind it have
been dropped before. -/
theorem IsTrimmed.trim_trimEnd (h : IsTrimmed cs) (hgap : isAllBlank gap = true)
    (hafter : isAllBlank after = true) : trim (trimEnd (gap ++ cs ++ after)) = cs := by
  by_cases hne : cs = []
  · have hall : isAllBlank (gap ++ cs ++ after) = true := by
      simpa [hne, isAllBlank] using And.intro (isAllBlank_iff.mp hgap) (isAllBlank_iff.mp hafter)
    rw [trimEnd_of_isAllBlank hall, hne]
    rfl
  · obtain ⟨⟨c, hhead, hc⟩, ⟨d, hlast, hd⟩⟩ := h.tight hne
    have hend : (gap ++ cs).getLast? = some d := by
      rw [List.getLast?_append, hlast, Option.some_or]
    have hfront : ∀ e ∈ cs.head?, isBlank e = false := by
      rw [hhead]
      rintro _ ⟨⟩
      exact hc
    have hself : trimEnd (cs ++ []) = cs ++ [] := trimEnd_append hlast hd
    rw [trimEnd_append hend hd, trimEnd_of_isAllBlank hafter, List.append_nil, trim,
      trimStart_append hgap hfront]
    rwa [List.append_nil] at hself

theorem isTrimmed_trim (cs : List Char) : IsTrimmed (trim cs) where
  head := by
    intro c hc
    obtain ⟨after, hstart⟩ := trimEnd_prefix (trimStart cs)
    have hhead : (trimStart cs).head? = some c := by
      rw [← hstart, List.head?_append, ← trim, Option.mem_def.mp hc, Option.some_or]
    exact isBlank_head_trimStart hhead
  last := isBlank_getLast_trim cs

/-- Only blanks are dropped. -/
theorem exists_trim (cs : List Char) : ∃ before after, isAllBlank before = true ∧
    isAllBlank after = true ∧ cs = before ++ (trim cs ++ after) := by
  have hblank : ∀ ds : List Char, isAllBlank (ds.takeWhile isBlank) = true := fun ds =>
    List.all_takeWhile
  refine ⟨cs.takeWhile isBlank, ((trimStart cs).reverse.takeWhile isBlank).reverse, hblank cs,
    ?_, ?_⟩
  · simp [isAllBlank]
  · have hstart := takeWhile_append_trimStart (trimStart cs).reverse
    have hend : trim cs ++ ((trimStart cs).reverse.takeWhile isBlank).reverse = trimStart cs := by
      rw [trim, trimEnd, ← List.reverse_append, hstart, List.reverse_reverse]
    rw [hend, takeWhile_append_trimStart]

end Text

namespace Line

open Text

/-! ## The grammar -/

/-- The text holds the line.  The token has all digits in front, and a dash behind
them is not part of the verb. -/
inductive Written : List Char → Line → Prop
  | intro {before digits dash verb gap arguments after : List Char}
    (hbefore : isAllBlank before = true) (hafter : isAllBlank after = true)
    (hdigits : ∀ c ∈ digits, c.isDigit = true)
    (hlongest : ∀ c ∈ (dash ++ verb).head?, c.isDigit = false)
    (hdash : dash = ['-'] ∨ dash = [] ∧ verb.head? ≠ some '-')
    (hverb : verb ≠ []) (hchars : ∀ c ∈ verb, isVerbChar c = true)
    (hgap : isAllBlank gap = true) (hapart : arguments ≠ [] → gap ≠ [])
    (harguments : IsTrimmed arguments) :
    Written (before ++ (digits ++ dash ++ verb ++ (gap ++ arguments ++ after)))
      ⟨nonEmpty? digits, String.ofList verb, String.ofList arguments⟩

/-- The parts of a line that can be written. -/
structure WellFormed (line : Line) : Prop where
  token : ∀ token ∈ line.token, token ≠ "" ∧ ∀ c ∈ token.toList, c.isDigit = true
  verb_ne : line.verb ≠ ""
  verb : ∀ c ∈ line.verb.toList, isVerbChar c = true
  arguments : IsTrimmed line.arguments.toList

/-- The usual way to write a line: the token, a dash, the verb, a space and the
arguments. -/
def text (line : Line) : String :=
  line.token.getD "" ++ "-" ++ line.verb ++ " " ++ line.arguments

variable {cs digits dash verb gap arguments rest : List Char} {line : Line} {text : String}

/-! ## Lines of the grammar -/

theorem isVerbChar_of_isDigit {c : Char} (h : c.isDigit = true) : isVerbChar c = true := by
  simp [isVerbChar, Char.isAlphanum, h]

/-- Up to the end of the verb there is no blank. -/
theorem isBlank_of_mem_front (hdigits : ∀ c ∈ digits, c.isDigit = true)
    (hdash : ∀ c ∈ dash, c = '-') (hchars : ∀ c ∈ verb, isVerbChar c = true) :
    ∀ c ∈ digits ++ dash ++ verb, isBlank c = false := by
  intro c hc
  refine isBlank_of_isVerbChar ?_
  simp only [List.mem_append] at hc
  obtain (hc | hc) | hc := hc
  · exact isVerbChar_of_isDigit (hdigits c hc)
  · rw [hdash c hc]
    rfl
  · exact hchars c hc

/-- A line of the grammar is accepted. -/
theorem Written.parse_eq_ok (h : Written text.toList line) : parse text = .ok (some line) := by
  generalize htext : text.toList = cs at h
  obtain @⟨before, digits, dash, verb, gap, arguments, after, hbefore, hafter, hdigits, hlongest,
    hdash, hverb, hchars, hgap, hapart, harguments⟩ := h
  have hsingle : ∀ c ∈ dash, c = '-' := by
    obtain rfl | ⟨rfl, -⟩ := hdash <;> simp
  have hne : digits ++ dash ++ verb ≠ [] := List.append_ne_nil_of_right_ne_nil _ hverb
  have htrim : trim text.toList =
      digits ++ dash ++ verb ++ trimEnd (gap ++ arguments ++ after) := by
    rw [htext, trim_append hbefore hne (isBlank_of_mem_front hdigits hsingle hchars)]
  have hboundary : atBoundary (gap ++ arguments ++ after) = true := by
    refine atBoundary_iff.mpr fun c hc => ?_
    cases gap with
    | cons d gap =>
        cases hc
        exact isAllBlank_iff.mp hgap _ List.mem_cons_self
    | nil =>
        have hnil : arguments = [] := by
          by_contra hne
          exact hapart hne rfl
        rw [hnil] at hc
        exact isAllBlank_iff.mp hafter c (List.mem_of_mem_head? hc)
  have hline := ofTrimmed_append hdigits hlongest hdash hverb hchars
    (atBoundary_trimEnd hboundary)
  rw [harguments.trim_trimEnd hgap hafter] at hline
  rw [parse_of_trim (htrim ▸ List.append_ne_nil_of_left_ne_nil hne _), htrim, hline]
  rfl

/-! ## Lines that are read -/

theorem ofTrimmed_of_parse (h : parse text = .ok (some line)) :
    ofTrimmed (trim text.toList) = .ok line := by
  by_cases hnil : trim text.toList = []
  · rw [parse, hnil] at h
    cases h
  · rw [parse_of_trim hnil] at h
    cases hline : ofTrimmed (trim text.toList) with
    | error malformed =>
        rw [hline] at h
        cases h
    | ok line' =>
        rw [hline] at h
        cases h
        rfl

theorem withoutDash_spec (cs : List Char) : ∃ dash, dash ++ withoutDash cs = cs ∧
    (dash = ['-'] ∨ dash = [] ∧ (withoutDash cs).head? ≠ some '-') := by
  by_cases hdash : cs.head? = some '-'
  · obtain ⟨cs, rfl⟩ := List.head?_eq_some_iff.mp hdash
    exact ⟨['-'], rfl, .inl rfl⟩
  · have hself : withoutDash cs = cs := withoutDash.eq_2 cs fun rest h => hdash (h ▸ rfl)
    exact ⟨[], by rw [hself, List.nil_append], .inr ⟨rfl, by rwa [hself]⟩⟩

theorem ofVerb_eq_some {token : List Char} (h : ofVerb token cs = some line) : ∃ verb rest,
    cs = verb ++ rest ∧ verb ≠ [] ∧ (∀ c ∈ verb, isVerbChar c = true) ∧ atBoundary rest = true ∧
    line = ⟨nonEmpty? token, String.ofList verb, String.ofList (trim rest)⟩ := by
  simp only [ofVerb] at h
  split at h
  · next hverb =>
    obtain ⟨hne, hboundary⟩ := hverb
    cases h
    refine ⟨_, _, List.takeWhile_append_dropWhile.symm, hne, fun c hc => List.mem_takeWhile_imp hc,
      ?_, rfl⟩
    cases hrest : cs.dropWhile isVerbChar with
    | nil => rfl
    | cons c rest => simpa [hrest, atBoundary] using hboundary
  · cases h

/-- What is read was a token, a dash and a verb, each as long as it can be. -/
theorem ofTrimmed_eq_ok (h : ofTrimmed cs = .ok line) : ∃ digits dash verb rest,
    cs = digits ++ dash ++ verb ++ rest ∧ (∀ c ∈ digits, c.isDigit = true) ∧
    (∀ c ∈ (dash ++ verb).head?, c.isDigit = false) ∧
    (dash = ['-'] ∨ dash = [] ∧ verb.head? ≠ some '-') ∧ verb ≠ [] ∧
    (∀ c ∈ verb, isVerbChar c = true) ∧ atBoundary rest = true ∧
    line = ⟨nonEmpty? digits, String.ofList verb, String.ofList (trim rest)⟩ := by
  simp only [ofTrimmed] at h
  split at h
  case h_2 => split at h <;> [cases h; split at h <;> cases h]
  case h_1 line' hline =>
    cases h
    obtain ⟨verb, rest, hverb, hne, hchars, hboundary, rfl⟩ := ofVerb_eq_some hline
    obtain ⟨dash, hbehind, hdash⟩ := withoutDash_spec (cs.dropWhile Char.isDigit)
    obtain ⟨c, verb, rfl⟩ := List.exists_cons_of_ne_nil hne
    rw [hverb] at hbehind hdash
    have hend := List.head?_dropWhile_not Char.isDigit cs
    refine ⟨_, dash, c :: verb, rest, ?_, fun c hc => List.mem_takeWhile_imp hc, ?_, hdash, hne,
      hchars, hboundary, rfl⟩
    · rw [List.append_assoc, List.append_assoc, hbehind, List.takeWhile_append_dropWhile]
    · intro d hd
      have hhead : (cs.dropWhile Char.isDigit).head? = some d := by
        rw [← hbehind, List.head?_append]
        rw [List.head?_append] at hd
        exact hd
      rw [hhead] at hend
      simpa using hend

/-- A line that is accepted belongs to the grammar. -/
theorem written_of_parse (h : parse text = .ok (some line)) : Written text.toList line := by
  obtain ⟨before, after, hbefore, hafter, htext⟩ := exists_trim text.toList
  obtain ⟨digits, dash, verb, rest, hline, hdigits, hlongest, hdash, hverb, hchars, hboundary,
    rfl⟩ := ofTrimmed_eq_ok (ofTrimmed_of_parse h)
  obtain ⟨gap, behind, hgap, hbehind, hrest⟩ := exists_trim rest
  have harguments := isTrimmed_trim rest
  have hapart : trim rest ≠ [] → gap ≠ [] := by
    rintro hne rfl
    obtain ⟨c, hhead, hc⟩ := (harguments.tight hne).head
    have hblank : isBlank c = true := by
      refine atBoundary_iff.mp hboundary c ?_
      rw [hrest, List.nil_append, List.head?_append, hhead]
      rfl
    simp [hc] at hblank
  have hend : isAllBlank (behind ++ after) = true := by
    simpa [isAllBlank] using And.intro (isAllBlank_iff.mp hbehind) (isAllBlank_iff.mp hafter)
  have hwritten := Written.intro hbefore hend hdigits hlongest hdash hverb hchars hgap hapart
    harguments
  have hsame : text.toList =
      before ++ (digits ++ dash ++ verb ++ (gap ++ trim rest ++ (behind ++ after))) := by
    conv_lhs => rw [htext, hline, hrest]
    simp only [List.append_assoc]
  rwa [hsame]

/-! ## Lines that are written out -/

/-- A line that is written out belongs to the grammar. -/
theorem WellFormed.written (h : line.WellFormed) : Written line.text.toList line := by
  obtain ⟨token, verb, arguments⟩ := line
  obtain ⟨htoken, hverb, hchars, harguments⟩ := h
  have hdigits : ∀ c ∈ (token.getD "").toList, c.isDigit = true := by
    cases token with
    | none => exact nofun
    | some token => exact (htoken token rfl).2
  have htoken' : nonEmpty? (token.getD "").toList = token := by
    cases token with
    | none => rfl
    | some token =>
        have hne : token.toList ≠ [] := by simpa using (htoken token rfl).1
        rw [Option.getD_some, nonEmpty?, if_neg hne, String.ofList_toList]
  have hverb' : verb.toList ≠ [] := by simpa using hverb
  have hdash : ∀ c ∈ ('-' :: verb.toList).head?, c.isDigit = false := by
    rintro _ ⟨⟩
    rfl
  have hempty : isAllBlank [] = true := rfl
  have hgap : isAllBlank [' '] = true := rfl
  have hwritten := Written.intro hempty hempty hdigits hdash (.inl rfl) hverb' hchars hgap
    (fun _ => List.cons_ne_nil _ _) harguments
  rw [htoken', String.ofList_toList, String.ofList_toList] at hwritten
  simpa [text, List.append_assoc] using hwritten

end Line

open Line in
/-- **The grammar of command lines.**  Blank lines are passed over, a line is
accepted exactly if it belongs to the grammar, and what is read are the parts by
which it does.  A line with a token of digits or none, a verb and trimmed arguments
is read back from its text, whatever characters the verb begins with. -/
theorem Line.parse_grammar :
    (∀ text : String,
      (parse text = .ok none ↔ Text.isAllBlank text.toList = true) ∧
      ∀ line, parse text = .ok (some line) ↔ Written text.toList line) ∧
    ∀ line : Line, line.WellFormed → parse line.text = .ok (some line) := by
  refine ⟨fun text => ⟨parse_eq_none_iff, fun line => ⟨written_of_parse, ?_⟩⟩, fun line h => ?_⟩
  · exact Written.parse_eq_ok
  · exact h.written.parse_eq_ok

open Line in
/-- A verb that begins with a dash and a digit keeps both: the dash in front of it
stands between them and the token. -/
theorem Line.parse_grammar_dashes :
    (⟨some "12", "-7-next", "a  b"⟩ : Line).WellFormed ∧
      parse "12--7-next a  b" = .ok (some ⟨some "12", "-7-next", "a  b"⟩) := by
  have hwell : (⟨some "12", "-7-next", "a  b"⟩ : Line).WellFormed := by
    refine ⟨?_, by decide, List.all_eq_true.mp (by decide), ⟨?_, ?_⟩⟩
    · rintro _ ⟨⟩
      exact ⟨by decide, List.all_eq_true.mp (by decide)⟩
    · rintro _ ⟨⟩
      rfl
    · rintro _ ⟨⟩
      rfl
  exact ⟨hwell, parse_grammar.2 _ hwell⟩

end MachineInterface
