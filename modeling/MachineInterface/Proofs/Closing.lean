import MachineInterface.Proofs.Unquoted

/-!
# MachineInterface.Proofs.Closing

Two ways to tell a quoted token.  The tokenizer follows the escapes from the
opening quote on, and ends the token at a quote that closes it or with the text
(`Text.ClosedBefore`, `Text.OpenBefore`).  The arguments look at the ends of the
token alone (`Text.quoted`).  The two agree on every token except one that stays
open up to the end of the text, where the last character is an escaped quote:
this one is accepted as quoted (`quoted_iff_closed`).
-/

namespace MachineInterface

namespace Text

variable {cs inner gap token rest text last : List Char}
  {before after parts : List (List Char × List Char)}

/-! ## Ends of quoted tokens -/

/-- The token in front of `rest` starts with a quote and ends at the first quote
that closes it. -/
inductive ClosedBefore : List Char → List Char → Prop
  | intro {inner rest : List Char} (hopen : StaysOpen inner ('"' :: rest))
    (hcloses : Closes inner rest) : ClosedBefore ('"' :: (inner ++ ['"'])) rest

/-- The token in front of `rest` starts with a quote that nothing closes, so that it
takes the whole text. -/
inductive OpenBefore : List Char → List Char → Prop
  | intro {inner : List Char} (hopen : StaysOpen inner []) : OpenBefore ('"' :: inner) []

/-- The last character of the token is a quote that is escaped. -/
def EndsEscaped (token : List Char) : Prop :=
  ∃ front, token = front ++ ['"'] ∧ escapesNext front = true

/-- The text that a layout describes. -/
def spelled (parts : List (List Char × List Char)) (last : List Char) : List Char :=
  parts.flatMap (fun part => part.1 ++ part.2) ++ last

theorem Layout.eq_spelled (h : Layout parts last text) : text = spelled parts last := by
  induction h with
  | nil hlast => rfl
  | cons hgap htoken hnext h ih => simp [ih, spelled]

/-- What stands behind a token of the layout is the text of the parts behind it. -/
theorem Layout.tokenBefore (h : Layout (before ++ (gap, token) :: after) last text) :
    TokenBefore token (spelled after last) := by
  induction before generalizing text with
  | nil =>
      cases h with
      | cons hgap htoken hnext h => rwa [← h.eq_spelled]
  | cons part before ih =>
      cases h with
      | cons hgap htoken hnext h => exact ih h

/-! ## Enclosing quotes -/

theorem isQuoted_iff : isQuoted cs = true ↔ ∃ inner, cs = '"' :: (inner ++ ['"']) := by
  constructor
  · intro h
    unfold isQuoted at h
    split at h
    · next rest =>
      obtain ⟨inner, hrest⟩ := List.getLast?_eq_some_iff.mp (beq_iff_eq.mp h)
      exact ⟨inner, by rw [hrest]⟩
    · cases h
  · rintro ⟨inner, rfl⟩
    simp [isQuoted]

theorem ClosedBefore.isQuoted (h : ClosedBefore token rest) : isQuoted token = true := by
  cases h with
  | intro hopen hcloses => exact isQuoted_iff.mpr ⟨_, rfl⟩

/-- A closing quote is not escaped. -/
theorem ClosedBefore.not_endsEscaped (h : ClosedBefore token rest) : ¬ EndsEscaped token := by
  cases h with
  | @intro inner _ hopen hcloses =>
      rintro ⟨front, heq, hescaped⟩
      rw [← List.cons_append] at heq
      rw [← (List.append_inj' heq rfl).1, escapesNext_cons (by decide), hcloses.1] at hescaped
      cases hescaped

/-- What stays open ends with a quote only if that quote is escaped. -/
theorem OpenBefore.isQuoted_iff (h : OpenBefore token rest) :
    isQuoted token = true ↔ EndsEscaped token := by
  cases h with
  | @intro inner hopen =>
      constructor
      · intro hquoted
        obtain ⟨front, heq⟩ := Text.isQuoted_iff.mp hquoted
        obtain rfl := (List.cons.inj heq).2
        have hnone : ¬ Closes front ([] ++ []) := hopen front [] rfl
        refine ⟨'"' :: front, rfl, ?_⟩
        rw [escapesNext_cons (by decide), ← Bool.not_eq_false]
        exact fun hplain => hnone ⟨hplain, rfl⟩
      · rintro ⟨front, heq, hescaped⟩
        cases front with
        | nil => cases hescaped
        | cons c front =>
            obtain ⟨rfl, rfl⟩ := List.cons.inj heq
            exact Text.isQuoted_iff.mpr ⟨front, rfl⟩

/-- A token is quoted if the tokenizer closes it, or if it stays open and ends with
an escaped quote. -/
theorem TokenBefore.isQuoted_iff (h : TokenBefore token rest) :
    isQuoted token = true ↔
      ClosedBefore token rest ∨ OpenBefore token rest ∧ EndsEscaped token := by
  cases h with
  | @word c cs rest hc h =>
      have hquoted : isQuoted (c :: cs) ≠ true := fun hquoted => by
        obtain ⟨inner, heq⟩ := Text.isQuoted_iff.mp hquoted
        exact hc (List.cons.inj heq).1
      refine iff_of_false hquoted ?_
      rintro (hclosed | ⟨hopen, -⟩)
      · exact hquoted hclosed.isQuoted
      · cases hopen
        exact hc rfl
  | quoted h =>
      cases h with
      | closed hopen hcloses =>
          have hclosed := ClosedBefore.intro hopen hcloses
          exact iff_of_true hclosed.isQuoted (.inl hclosed)
      | unclosed hopen =>
          have hopen' := OpenBefore.intro hopen
          constructor
          · exact fun hquoted => .inr ⟨hopen', hopen'.isQuoted_iff.mp hquoted⟩
          · rintro (hclosed | ⟨-, hescaped⟩)
            · exact hclosed.isQuoted
            · exact hopen'.isQuoted_iff.mpr hescaped

end Text

namespace Argument

open Text

variable {token : String}

/-! ## Arguments -/

/-- Where the ends of a token are no quotes, it does not matter for a word whether
quotes are accepted. -/
theorem word?_of_not_quoted (h : quoted token = false) (form : WordForm) :
    word? form token = word? { form with quotes := false } token := by
  simp [word?, h, isBareWord]

/-- **Quoted tokens.**  Every text has its layout, and a token of it counts as quoted
exactly if the tokenizer ended it at a quote that closes it, or else if it stays
open up to the end of the text, where its last character is an escaped quote.  These
two cases exclude each other.  A token that counts as quoted is a text of its own,
without the quotes, and a word wherever quotes are accepted; any other token begins
a text that takes all that is left, and is a word only as it would be where no
quotes are accepted. -/
theorem quoted_iff_closed (text : String) :
    ∃ parts last, Layout parts last text.toList ∧
      parts.map (String.ofList ·.2) = Text.tokens text ∧
      ∀ before gap token after, parts = before ++ (gap, String.toList token) :: after →
        let rest := spelled after last
        let behind := after.map (String.ofList ·.2)
        (quoted token = true ↔ ClosedBefore token.toList rest ∨
          OpenBefore token.toList rest ∧ EndsEscaped token.toList) ∧
        ¬ (ClosedBefore token.toList rest ∧ EndsEscaped token.toList) ∧
        (quoted token = true →
          Kind.text.read (token :: behind) = (.found (unquoted token), behind) ∧
          ∀ form : WordForm, form.quotes = true → word? form token = some (unquoted token)) ∧
        (quoted token = false →
          Kind.text.read (token :: behind) =
            (.found (unescaped (trimmed (joined (token :: behind)))), []) ∧
          ∀ form, word? form token = word? { form with quotes := false } token) := by
  obtain ⟨⟨parts, last, h, htokens, -⟩, -⟩ := tokens_grammar text
  refine ⟨parts, last, h, htokens, ?_⟩
  rintro before gap token after rfl rest behind
  refine ⟨h.tokenBefore.isQuoted_iff, fun hboth => hboth.1.not_endsEscaped hboth.2, ?_, ?_⟩
  · intro hquoted
    exact ⟨read_text_of_quoted hquoted behind, fun form hform =>
      decode_word_of_quoted hform hquoted⟩
  · intro hquoted
    exact ⟨read_text_of_unquoted hquoted behind, word?_of_not_quoted hquoted⟩

/-- The only token of this text begins with a quote that nothing closes, since the
second quote is escaped; but it counts as quoted, so that it is taken as a text and
as a word without its quotes. -/
theorem quoted_unclosed :
    Layout [([], "\"ab\\\"".toList)] [] "\"ab\\\"".toList ∧
      Text.tokens "\"ab\\\"" = ["\"ab\\\""] ∧
      OpenBefore "\"ab\\\"".toList [] ∧ ¬ ClosedBefore "\"ab\\\"".toList [] ∧
      quoted "\"ab\\\"" = true ∧
      Kind.text.read ["\"ab\\\""] = (.found "ab\\", []) ∧
      word? { quotes := true } "\"ab\\\"" = some "ab\\" := by
  have hchars : "\"ab\\\"".toList = ['"', 'a', 'b', '\\', '"'] := rfl
  have hopen : StaysOpen ['a', 'b', '\\', '"'] [] :=
    (((staysOpen_nil []).pair '"').cons (by decide) (by decide)).cons (by decide) (by decide)
  have hlayout : Layout [([], "\"ab\\\"".toList)] [] "\"ab\\\"".toList :=
    @Layout.cons [] _ [] [] [] rfl (.quoted (.unclosed hopen)) (by simp) (.nil rfl)
  have hescaped : EndsEscaped "\"ab\\\"".toList := ⟨['"', 'a', 'b', '\\'], rfl, by decide⟩
  refine ⟨hlayout, ?_, .intro hopen, fun hclosed => hclosed.not_endsEscaped hescaped, by decide,
    ?_, ?_⟩
  · rw [Text.tokens, hlayout.tokenize_eq]
    rfl
  · decide
  · decide

end Argument

end MachineInterface
