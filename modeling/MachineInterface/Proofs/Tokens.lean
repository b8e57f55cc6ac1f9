import MachineInterface.Command.Verb
import MachineInterface.Line
import MachineInterface.Text.Code
import MachineInterface.Text.Quoted
import MachineInterface.Text.Token

/-!
# MachineInterface.Proofs.Tokens

Command lines as clients write them.  A client puts blanks between the tokens
of a line as it likes (`Spaced`); none of the tokens gets lost or runs into
the next one (`Spaced.tokenize_eq`), and the same holds on a whole line
(`Line.Spells.parse_eq_ok`).
-/

namespace MachineInterface

namespace Text

variable {gap cs ds token rest text : List Char} {tokens : List (List Char)}

/-! ## Blanks -/

theorem isAllBlank_iff : isAllBlank cs = true ↔ ∀ c ∈ cs, isBlank c = true :=
  List.all_eq_true

/-- Blanks are dropped up to the first character that is none. -/
theorem trimStart_append (hgap : isAllBlank gap = true)
    (hcs : ∀ c ∈ cs.head?, isBlank c = false) : trimStart (gap ++ cs) = cs :=
  dropWhile_run (isAllBlank_iff.mp hgap) hcs

theorem trimStart_of_isAllBlank (h : isAllBlank cs = true) : trimStart cs = [] := by
  have htrim : (cs ++ []).dropWhile isBlank = [] := dropWhile_run (isAllBlank_iff.mp h) (by simp)
  rwa [List.append_nil] at htrim

theorem trimEnd_of_isAllBlank (h : isAllBlank cs = true) : trimEnd cs = [] := by
  have hreverse : isAllBlank cs.reverse = true := by simpa [isAllBlank] using h
  rw [trimEnd, trimStart_of_isAllBlank hreverse, List.reverse_nil]

/-- What stands before a last character that is no blank is kept, whatever is
trimmed behind it. -/
theorem trimEnd_append {c : Char} (hlast : cs.getLast? = some c) (hc : isBlank c = false) :
    trimEnd (cs ++ ds) = cs ++ trimEnd ds := by
  have hhead : ∀ d ∈ cs.reverse.head?, isBlank d = false := by simp [hlast, hc]
  have hself : ([] ++ cs.reverse).dropWhile isBlank = cs.reverse := dropWhile_run (by simp) hhead
  rw [List.nil_append] at hself
  rw [trimEnd, trimEnd, trimStart, trimStart, List.reverse_append, List.dropWhile_append]
  split
  · next hds =>
    rw [hself, List.isEmpty_iff.mp hds, List.reverse_nil, List.append_nil, List.reverse_reverse]
  · rw [List.reverse_append, List.reverse_reverse]

/-- A text without blanks stays as it is between its gap and what follows. -/
theorem trim_append (hgap : isAllBlank gap = true) (hne : cs ≠ [])
    (hcs : ∀ c ∈ cs, isBlank c = false) : trim (gap ++ (cs ++ ds)) = cs ++ trimEnd ds := by
  have hhead : ∀ c ∈ (cs ++ ds).head?, isBlank c = false := by
    obtain ⟨c, cs, rfl⟩ := List.exists_cons_of_ne_nil hne
    rintro _ ⟨⟩
    exact hcs c List.mem_cons_self
  rw [trim, trimStart_append hgap hhead,
    trimEnd_append (List.getLast?_eq_some_getLast hne) (hcs _ (List.getLast_mem hne))]

/-- Trimming takes nothing but blanks away. -/
theorem trimEnd_prefix (cs : List Char) : trimEnd cs <+: cs := by
  have hsuffix : trimStart cs.reverse <:+ cs.reverse := List.dropWhile_suffix isBlank
  simpa [trimEnd] using List.reverse_prefix.mpr hsuffix

theorem atBoundary_iff : atBoundary cs = true ↔ ∀ c ∈ cs.head?, isBlank c = true := by
  cases cs with
  | nil => simp [atBoundary]
  | cons c cs => simp [atBoundary]

theorem atBoundary_trimEnd (h : atBoundary cs = true) : atBoundary (trimEnd cs) = true := by
  obtain ⟨ds, hcs⟩ := trimEnd_prefix cs
  rw [atBoundary_iff] at h ⊢
  intro c hc
  refine h c ?_
  rw [← hcs, List.head?_append, Option.mem_def.mp hc]
  rfl

/-! ## Tokens -/

/-- The tokens that stay whole: quoted texts, and words without blanks that
start with no quote. -/
inductive IsToken : List Char → Prop
  | quoted (text : List Char) : IsToken (quote text)
  | word {c : Char} {cs : List Char} (hc : c ≠ '"') (h : ∀ d ∈ c :: cs, isBlank d = false) :
    IsToken (c :: cs)

/-- An escaped text has no quote that ends a token. -/
theorem splitQuoted_escapeQuotes (hrest : atBoundary rest = true) (text : List Char) :
    splitQuoted (escapeQuotes text ++ '"' :: rest) = (escapeQuotes text ++ ['"'], rest) := by
  induction text with
  | nil => simp [escapeQuotes, splitQuoted, hrest]
  | cons c text ih =>
      by_cases hc : c = '"' ∨ c = '\\'
      · -- The backslash takes the character behind it along, whatever follows.
        rw [escapeQuotes, if_pos hc, List.cons_append, List.cons_append, splitQuoted, ih]
        rfl
      · obtain ⟨hquote, hslash⟩ := not_or.mp hc
        rw [escapeQuotes, if_neg hc, List.cons_append, splitQuoted.eq_4 _ _ (by simp [hslash])
          (by simp [hslash]), if_neg (fun h => hquote h.1), ih]
        rfl

/-- A token ends where it ends. -/
theorem IsToken.tokenize_append (h : IsToken token) (hrest : atBoundary rest = true) :
    tokenize (token ++ rest) = token :: tokenize rest := by
  cases h with
  | quoted text =>
      have hsplit : splitToken '"' (escapeQuotes text ++ '"' :: rest) = (quote text, rest) := by
        rw [splitToken, if_pos rfl, splitQuoted_escapeQuotes hrest]
        rfl
      rw [quote, List.cons_append, List.append_assoc, List.singleton_append,
        tokenize_token rfl, hsplit]
      rfl
  | @word c cs hc h =>
      have hrun : ∀ d ∈ cs, (!isBlank d) = true := fun d hd => by
        simp [h d (List.mem_cons_of_mem c hd)]
      have hend : ∀ d ∈ rest.head?, (!isBlank d) = false := fun d hd => by
        simp [atBoundary_iff.mp hrest d hd]
      have hsplit : splitToken c (cs ++ rest) = (c :: cs, rest) := by
        rw [splitToken, if_neg hc, takeWhile_run hrun hend, dropWhile_run hrun hend]
      rw [List.cons_append, tokenize_token (h c List.mem_cons_self), hsplit]

/-- The first character of a token is no blank. -/
theorem IsToken.head_eq_some (h : IsToken token) :
    ∃ c, token.head? = some c ∧ isBlank c = false := by
  cases h with
  | quoted text => exact ⟨'"', rfl, rfl⟩
  | word hc h => exact ⟨_, rfl, h _ List.mem_cons_self⟩

/-- The last character of a token is no blank. -/
theorem IsToken.getLast_eq_some (h : IsToken token) :
    ∃ c, token.getLast? = some c ∧ isBlank c = false := by
  cases h with
  | quoted text => exact ⟨'"', by rw [quote, ← List.cons_append, List.getLast?_concat], rfl⟩
  | word hc h =>
      exact ⟨_, List.getLast?_eq_some_getLast (List.cons_ne_nil _ _), h _ (List.getLast_mem _)⟩

/-! ## Spacing -/

/-- The text holds these tokens, each behind a gap of blanks, perhaps an empty
one, and in front of a blank or the end of the text. -/
inductive Spaced : List (List Char) → List Char → Prop
  | nil {gap : List Char} (hgap : isAllBlank gap = true) : Spaced [] gap
  | cons {gap token rest : List Char} {tokens : List (List Char)} (hgap : isAllBlank gap = true)
    (hrest : atBoundary rest = true) (h : Spaced tokens rest) :
    Spaced (token :: tokens) (gap ++ (token ++ rest))

/-- Tokens with a space in front of each. -/
theorem spaced_flatMap (tokens : List (List Char)) :
    Spaced tokens (tokens.flatMap (' ' :: ·)) ∧ atBoundary (tokens.flatMap (' ' :: ·)) = true := by
  induction tokens with
  | nil => exact ⟨.nil rfl, rfl⟩
  | cons token tokens ih => exact ⟨@Spaced.cons [' '] _ _ _ rfl ih.2 ih.1, rfl⟩

theorem tokenize_gap (h : isAllBlank gap = true) (cs : List Char) :
    tokenize (gap ++ cs) = tokenize cs := by
  induction gap with
  | nil => rfl
  | cons c gap ih =>
      simp only [isAllBlank, List.all_cons, Bool.and_eq_true] at h
      rw [List.cons_append, tokenize_blank h.1, ih h.2]

namespace Spaced

/-- **Tokenizing** gives the tokens that a text was made of, whatever blanks
stand between them. -/
theorem tokenize_eq (h : Spaced tokens text) (htokens : ∀ t ∈ tokens, IsToken t) :
    tokenize text = tokens := by
  induction h with
  | nil hgap =>
      have hempty := tokenize_gap hgap []
      rwa [List.append_nil, tokenize_nil] at hempty
  | cons hgap hrest _ ih =>
      obtain ⟨htoken, htokens⟩ := List.forall_mem_cons.mp htokens
      rw [tokenize_gap hgap, htoken.tokenize_append hrest, ih htokens]

theorem trimStart (h : Spaced tokens text) (htokens : ∀ t ∈ tokens, IsToken t) :
    Spaced tokens (trimStart text) := by
  cases h with
  | nil hgap =>
      rw [trimStart_of_isAllBlank hgap]
      exact .nil rfl
  | cons hgap hrest h =>
      obtain ⟨c, hhead, hc⟩ := (htokens _ List.mem_cons_self).head_eq_some
      rw [trimStart_append hgap (by simp [hhead, hc])]
      exact @Spaced.cons [] _ _ _ rfl hrest h

theorem trimEnd (h : Spaced tokens text) (htokens : ∀ t ∈ tokens, IsToken t) :
    Spaced tokens (trimEnd text) := by
  induction h with
  | nil hgap =>
      rw [trimEnd_of_isAllBlank hgap]
      exact .nil rfl
  | @cons gap token rest tokens hgap hrest _ ih =>
      obtain ⟨htoken, htokens⟩ := List.forall_mem_cons.mp htokens
      obtain ⟨c, hlast, hc⟩ := htoken.getLast_eq_some
      have hbehind : (gap ++ token).getLast? = some c := by simp [hlast]
      rw [← List.append_assoc, trimEnd_append hbehind hc, List.append_assoc]
      exact .cons hgap (atBoundary_trimEnd hrest) (ih htokens)

/-- A text may be trimmed. -/
theorem trim (h : Spaced tokens text) (htokens : ∀ t ∈ tokens, IsToken t) :
    Spaced tokens (trim text) :=
  (h.trimStart htokens).trimEnd htokens

theorem tokens_eq {tokens : List String} {text : String}
    (h : Spaced (tokens.map String.toList) text.toList) (htokens : ∀ t ∈ tokens, IsToken t.toList) :
    Text.tokens text = tokens := by
  rw [Text.tokens, h.tokenize_eq (List.forall_mem_map.mpr htokens), List.map_map]
  simp [Function.comp_def]

end Spaced

end Text

/-! ## Lines -/

namespace Verb

/-- The names of verbs are words that cannot be taken for what stands around them. -/
theorem isVerbChar_of_mem_name (verb : Verb) :
    ∀ c ∈ verb.name.toList, Line.isVerbChar c = true := by
  rw [← List.all_eq_true]
  cases verb <;> decide

theorem name_eq_cons (verb : Verb) :
    ∃ c cs, verb.name.toList = c :: cs ∧ c.isDigit = false ∧ c ≠ '-' := by
  cases verb <;> exact ⟨_, _, rfl, rfl, by decide⟩

end Verb

namespace Line

open Text

variable {word rest : List Char}

theorem toNat_lt_of_isVerbChar {c : Char} (h : isVerbChar c = true) : c.toNat < 128 := by
  delta isVerbChar Char.isAlphanum Char.isAlpha Char.isUpper Char.isLower Char.isDigit at h
  simp only [Bool.or_eq_true, Bool.and_eq_true, decide_eq_true_eq, ge_iff_le,
    UInt32.le_iff_toNat_le, beq_iff_eq] at h
  rcases h with (((⟨-, h⟩ | ⟨-, h⟩) | ⟨-, h⟩) | rfl) | rfl
  · exact Nat.lt_of_le_of_lt h (by decide)
  · exact Nat.lt_of_le_of_lt h (by decide)
  · exact Nat.lt_of_le_of_lt h (by decide)
  · decide
  · decide

/-- No blank belongs to a verb. -/
theorem isBlank_of_isVerbChar {c : Char} (h : isVerbChar c = true) : isBlank c = false := by
  have hblank : ∀ n < 128, isVerbChar (Char.ofNat n) = true → isBlank (Char.ofNat n) = false := by
    decide
  have hc := hblank c.toNat (toNat_lt_of_isVerbChar h)
  rw [Char.ofNat_toNat] at hc
  exact hc h

/-- A verb is a word up to a blank or to the end of the line. -/
theorem ofVerb_append (token : List Char) (hword : word ≠ [])
    (hchars : ∀ c ∈ word, isVerbChar c = true) (hrest : atBoundary rest = true) :
    ofVerb token (word ++ rest) =
      some ⟨nonEmpty? token, String.ofList word, String.ofList (trim rest)⟩ := by
  have hend : ∀ c ∈ rest.head?, isVerbChar c = false := fun c hc => by
    rw [← Bool.not_eq_true]
    intro hverb
    simpa [isBlank_of_isVerbChar hverb] using atBoundary_iff.mp hrest c hc
  have hboundary : rest = [] ∨ rest.head?.any isBlank = true := by
    cases rest with
    | nil => exact .inl rfl
    | cons c cs => exact .inr hrest
  rw [ofVerb, takeWhile_run hchars hend, dropWhile_run hchars hend, if_pos ⟨hword, hboundary⟩]

/-- The line asks for a verb and has these tokens behind it.  Blanks, digits and
a dash may stand in front of the verb. -/
inductive Spells (verb : Verb) (tokens : List String) : List Char → Prop
  | intro {gap digits dash arguments : List Char} (hgap : isAllBlank gap = true)
    (hdigits : ∀ c ∈ digits, c.isDigit = true) (hdash : dash = [] ∨ dash = ['-'])
    (hboundary : atBoundary arguments = true)
    (harguments : Spaced (tokens.map String.toList) arguments) :
    Spells verb tokens (gap ++ (digits ++ dash ++ verb.name.toList ++ arguments))

/-- The line that clients usually write: a dash, the verb, and a space in front
of each token. -/
def plain (verb : Verb) (tokens : List String) : List Char :=
  '-' :: (verb.name.toList ++ (tokens.map String.toList).flatMap (' ' :: ·))

theorem spells_of_eq_plain {verb : Verb} {tokens : List String} {line : List Char}
    (h : line = plain verb tokens) : Spells verb tokens line := by
  obtain ⟨hspaced, hboundary⟩ := spaced_flatMap (tokens.map String.toList)
  rw [h]
  exact @Spells.intro verb tokens [] [] ['-'] _ rfl (by simp) (.inr rfl) hboundary hspaced

/-- Digits and a dash in front of a word are taken off, where they do not belong
to the word. -/
theorem ofTrimmed_append {digits dash : List Char} (hdigits : ∀ c ∈ digits, c.isDigit = true)
    (hlongest : ∀ c ∈ (dash ++ word).head?, c.isDigit = false)
    (hdash : dash = ['-'] ∨ dash = [] ∧ word.head? ≠ some '-') (hword : word ≠ [])
    (hchars : ∀ c ∈ word, isVerbChar c = true) (hrest : atBoundary rest = true) :
    ofTrimmed (digits ++ dash ++ word ++ rest) =
      .ok ⟨nonEmpty? digits, String.ofList word, String.ofList (trim rest)⟩ := by
  have hend : ∀ c ∈ (dash ++ (word ++ rest)).head?, c.isDigit = false := by
    obtain ⟨d, ds, hfront⟩ := List.exists_cons_of_ne_nil
      (List.append_ne_nil_of_right_ne_nil dash hword)
    rw [← List.append_assoc, hfront]
    rwa [hfront] at hlongest
  have hwithout : withoutDash (dash ++ (word ++ rest)) = word ++ rest := by
    obtain rfl | ⟨rfl, hhead⟩ := hdash
    · rfl
    · obtain ⟨c, cs, rfl⟩ := List.exists_cons_of_ne_nil hword
      refine withoutDash.eq_2 _ fun rest' h => hhead ?_
      rw [List.head?_cons, (List.cons.inj h).1]
  simp only [List.append_assoc]
  simp only [ofTrimmed, takeWhile_run hdigits hend, dropWhile_run hdigits hend, hwithout,
    ofVerb_append digits hword hchars hrest]

variable {verb : Verb} {tokens : List String} {text : String}

theorem parse_of_trim (h : trim text.toList ≠ []) :
    parse text = (ofTrimmed (trim text.toList)).map some := by
  unfold parse
  split
  · next hnil => exact (h hnil).elim
  · rfl

/-- **Parsing** a line gives its verb, and an argument text of its tokens. -/
theorem Spells.parse_eq_ok (h : Spells verb tokens text.toList)
    (htokens : ∀ t ∈ tokens, IsToken t.toList) :
    ∃ line, parse text = .ok (some line) ∧ line.verb = verb.name ∧
      Text.tokens line.arguments = tokens := by
  generalize htext : text.toList = cs at h
  obtain @⟨gap, digits, dash, arguments, hgap, hdigits, hdash, hboundary, harguments⟩ := h
  have hfront : ∀ c ∈ digits ++ dash ++ verb.name.toList, isVerbChar c = true := by
    intro c hc
    simp only [List.mem_append] at hc
    rcases hc with (hc | hc) | hc
    · simp [isVerbChar, Char.isAlphanum, hdigits c hc]
    · obtain rfl | rfl := hdash
      · cases hc
      · rw [List.mem_singleton.mp hc]
        rfl
    · exact verb.isVerbChar_of_mem_name c hc
  obtain ⟨c, cs, hcons, hdigit, hnodash⟩ := verb.name_eq_cons
  have hname : verb.name.toList ≠ [] := by simp [hcons]
  have hne : digits ++ dash ++ verb.name.toList ≠ [] := by simp [hcons]
  have hlongest : ∀ d ∈ (dash ++ verb.name.toList).head?, d.isDigit = false := by
    obtain rfl | rfl := hdash <;> simp [hcons, hdigit]
  have hsingle : dash = ['-'] ∨ dash = [] ∧ verb.name.toList.head? ≠ some '-' := by
    obtain rfl | rfl := hdash
    · exact .inr ⟨rfl, by simp [hcons, hnodash]⟩
    · exact .inl rfl
  have htrim : trim text.toList = digits ++ dash ++ verb.name.toList ++ trimEnd arguments := by
    rw [htext, trim_append hgap hne fun c hc => isBlank_of_isVerbChar (hfront c hc)]
  have hline := ofTrimmed_append hdigits hlongest hsingle hname verb.isVerbChar_of_mem_name
    (atBoundary_trimEnd hboundary)
  rw [String.ofList_toList] at hline
  have htokens' : ∀ t ∈ tokens.map String.toList, IsToken t := List.forall_mem_map.mpr htokens
  refine ⟨⟨nonEmpty? digits, verb.name, String.ofList (trim (trimEnd arguments))⟩, ?_, rfl, ?_⟩
  · rw [parse_of_trim (htrim ▸ List.append_ne_nil_of_left_ne_nil hne _), htrim, hline]
    rfl
  · refine Spaced.tokens_eq ?_ htokens
    rw [String.toList_ofList]
    exact (harguments.trimEnd htokens').trim htokens'

end Line

end MachineInterface
