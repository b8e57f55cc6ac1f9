import MachineInterface.Proofs.Tokens

/-!
# MachineInterface.Proofs.Grammar

The grammar of argument texts, stated without the tokenizer.  A text consists of
tokens and of gaps of blanks in front of, between and behind them
(`Text.Layout`).  A token is a word without blanks, or a quoted token, which ends
at the first quote that closes it or else takes the rest of the text
(`Text.TokenBefore`).  Every text has exactly one layout, and the tokenizer gives
its tokens; joined by spaces, these tokens, or what is left when some of them are
removed, are read back as they are (`tokens_grammar`).
-/

namespace MachineInterface.Text

variable {c : Char} {cs inner tail rest tail' rest' token token' text last last' : List Char}
  {tokens us : List (List Char)} {parts parts' : List (List Char × List Char)}

/-! ## The grammar -/

/-- The character behind this text is escaped: the backslashes at its end, taken
in pairs, leave one over. -/
def escapesNext (cs : List Char) : Bool := (cs.reverse.takeWhile (· = '\\')).length % 2 = 1

/-- A quote between these texts closes the quoted token that was opened in front
of both: the quote is not escaped, and a blank or the end of the text follows. -/
def Closes (before after : List Char) : Prop :=
  escapesNext before = false ∧ atBoundary after = true

/-- No quote in `inner` closes the token, where `rest` stands behind `inner`. -/
def StaysOpen (inner rest : List Char) : Prop :=
  ∀ before after, inner = before ++ '"' :: after → ¬ Closes before (after ++ rest)

/-- Behind an opening quote, `tail` ends the token in front of `rest`: at the
first quote that closes it, or at the end of the text if there is none. -/
inductive QuotedBefore : List Char → List Char → Prop
  | closed {inner rest : List Char} (hopen : StaysOpen inner ('"' :: rest))
    (hcloses : Closes inner rest) : QuotedBefore (inner ++ ['"']) rest
  | unclosed {inner : List Char} (hopen : StaysOpen inner []) : QuotedBefore inner []

/-- A token in front of `rest`. -/
inductive TokenBefore : List Char → List Char → Prop
  | word {c : Char} {cs rest : List Char} (hc : c ≠ '"')
    (h : ∀ d ∈ c :: cs, isBlank d = false) : TokenBefore (c :: cs) rest
  | quoted {tail rest : List Char} (h : QuotedBefore tail rest) : TokenBefore ('"' :: tail) rest

/-- The text consists of tokens, each with the gap in front of it, and of a last
gap.  Only the first gap and the last one may be empty. -/
inductive Layout : List (List Char × List Char) → List Char → List Char → Prop
  | nil {last : List Char} (hlast : isAllBlank last = true) : Layout [] last last
  | cons {gap token rest last : List Char} {parts : List (List Char × List Char)}
    (hgap : isAllBlank gap = true) (htoken : TokenBefore token rest)
    (hnext : ∀ part ∈ parts.head?, part.1 ≠ []) (h : Layout parts last rest) :
    Layout ((gap, token) :: parts) last (gap ++ (token ++ rest))

/-! ## Escapes -/

theorem escapesNext_cons (hc : c ≠ '\\') (cs : List Char) :
    escapesNext (c :: cs) = escapesNext cs := by
  have hrun : (c :: cs).reverse.takeWhile (· = '\\') = cs.reverse.takeWhile (· = '\\') := by
    rw [List.reverse_cons, List.takeWhile_append]
    split
    · next hall =>
      have hself := (List.takeWhile_prefix (· = '\\')).eq_of_length hall
      simp only [hself, List.takeWhile_cons, decide_eq_true_eq, if_neg hc, List.append_nil]
    · rfl
  rw [escapesNext, hrun, escapesNext]

/-- A backslash takes the character behind it along. -/
theorem escapesNext_pair (c : Char) (cs : List Char) :
    escapesNext ('\\' :: c :: cs) = escapesNext cs := by
  by_cases hc : c = '\\'
  · have hpair : ('\\' :: c :: cs).reverse = cs.reverse ++ ['\\', '\\'] := by simp [hc]
    rw [escapesNext, escapesNext, hpair, List.takeWhile_append]
    split
    · next hall => simp [hall]
    · rfl
  · -- The backslash stands in front of another character, so no run ends with it.
    have hpair : ('\\' :: c :: cs).reverse = (c :: cs).reverse ++ ['\\'] := by simp
    have hstop : ((c :: cs).reverse.takeWhile (· = '\\')).length ≠ (c :: cs).reverse.length := by
      intro hall
      have hself := (List.takeWhile_prefix (· = '\\')).eq_of_length hall
      have hrun := List.all_takeWhile (p := (· = '\\')) (l := (c :: cs).reverse)
      rw [hself] at hrun
      simp [hc] at hrun
    rw [escapesNext, hpair, List.takeWhile_append, if_neg hstop, ← escapesNext,
      escapesNext_cons hc]

/-! ## Quoted tokens -/

theorem staysOpen_nil (rest : List Char) : StaysOpen [] rest := by
  intro before after h
  simp at h

theorem StaysOpen.cons (h : StaysOpen inner rest) (hc : c ≠ '\\')
    (hquote : c = '"' → atBoundary (inner ++ rest) = false) : StaysOpen (c :: inner) rest := by
  intro before after heq hcloses
  cases before with
  | nil =>
      obtain ⟨rfl, rfl⟩ := List.cons.inj heq
      have hboundary := hquote rfl
      rw [hcloses.2] at hboundary
      cases hboundary
  | cons d before =>
      obtain ⟨rfl, rfl⟩ := List.cons.inj heq
      rw [Closes, escapesNext_cons hc] at hcloses
      exact h before after rfl hcloses

theorem StaysOpen.pair (h : StaysOpen inner rest) (c : Char) :
    StaysOpen ('\\' :: c :: inner) rest := by
  intro before after heq hcloses
  cases before with
  | nil => simp at heq
  | cons d before =>
      cases before with
      | nil =>
          obtain ⟨rfl, -⟩ := List.cons.inj heq
          simp [Closes, escapesNext] at hcloses
      | cons e before =>
          simp only [List.cons_append, List.cons.injEq] at heq
          obtain ⟨rfl, rfl, heq⟩ := heq
          rw [Closes, escapesNext_pair] at hcloses
          exact h before after heq hcloses

theorem QuotedBefore.cons (h : QuotedBefore tail rest) (hc : c ≠ '\\')
    (hquote : c = '"' → atBoundary (tail ++ rest) = false) : QuotedBefore (c :: tail) rest := by
  cases h with
  | @closed inner _ hopen hcloses =>
      have hopen' := hopen.cons hc (by simpa using hquote)
      have hcloses' : Closes (c :: inner) rest := by rwa [Closes, escapesNext_cons hc]
      exact .closed hopen' hcloses'
  | unclosed hopen => exact .unclosed (hopen.cons hc hquote)

theorem QuotedBefore.pair (h : QuotedBefore tail rest) (c : Char) :
    QuotedBefore ('\\' :: c :: tail) rest := by
  cases h with
  | @closed inner _ hopen hcloses =>
      have hcloses' : Closes ('\\' :: c :: inner) rest := by rwa [Closes, escapesNext_pair]
      exact .closed (hopen.pair c) hcloses'
  | unclosed hopen => exact .unclosed (hopen.pair c)

/-- Splitting behind the closing quote finds the end of the token. -/
theorem quotedBefore_splitQuoted (cs : List Char) :
    QuotedBefore (splitQuoted cs).1 (splitQuoted cs).2 := by
  fun_induction splitQuoted cs with
  | case1 => exact .unclosed (staysOpen_nil [])
  | case2 =>
      refine .unclosed fun before after heq => ?_
      cases before <;> simp at heq
  | case3 c rest token tail hsplit ih =>
      rw [hsplit] at ih
      exact ih.pair c
  | case4 c rest _ hslash hquote =>
      obtain ⟨rfl, hboundary⟩ := hquote
      exact .closed (staysOpen_nil _) ⟨rfl, hboundary⟩
  | case5 c rest hlone hpair hquote token tail hsplit ih =>
      have hall := splitQuoted_append rest
      rw [hsplit] at ih hall
      have hc : c ≠ '\\' := by
        rintro rfl
        cases rest with
        | nil => exact hlone rfl rfl
        | cons d rest => exact hpair d rest rfl rfl
      refine ih.cons hc fun heq => ?_
      rw [hall, ← Bool.not_eq_true]
      exact fun hboundary => hquote ⟨heq, hboundary⟩

/-- A text that stays open ends no later than at the first quote that closes. -/
theorem Closes.exists_append (hcloses : Closes inner rest) (hopen : StaysOpen tail' rest')
    (h : inner ++ '"' :: rest = tail' ++ rest') : ∃ more, inner = tail' ++ more := by
  obtain ⟨between, htail, hrest⟩ | ⟨more, hinner, -⟩ := List.append_eq_append_iff.mp h
  · cases between with
    | nil => exact ⟨[], by simpa using htail.symm⟩
    | cons d between =>
        obtain ⟨rfl, rfl⟩ := List.cons.inj hrest
        exact (hopen inner between htail hcloses).elim
  · exact ⟨more, hinner⟩

/-- No text stays open across a quote that closes. -/
theorem Closes.not_staysOpen (hcloses : Closes inner rest) :
    ¬ StaysOpen (inner ++ '"' :: rest) [] := by
  intro hopen
  have hnone := hopen inner rest rfl
  rw [List.append_nil] at hnone
  exact hnone hcloses

/-- There is one end of a quoted token. -/
theorem QuotedBefore.unique (h : QuotedBefore tail rest) (h' : QuotedBefore tail' rest')
    (heq : tail ++ rest = tail' ++ rest') : tail = tail' ∧ rest = rest' := by
  suffices htail : tail = tail' from ⟨htail, List.append_cancel_left (htail ▸ heq)⟩
  cases h with
  | @closed inner _ hopen hcloses =>
      cases h' with
      | @closed inner' _ hopen' hcloses' =>
          have hquotes : inner ++ '"' :: rest = inner' ++ '"' :: rest' := by simpa using heq
          obtain ⟨more, hinner⟩ := hcloses.exists_append hopen' hquotes
          obtain ⟨more', hinner'⟩ := hcloses'.exists_append hopen hquotes.symm
          have hlength := congrArg List.length hinner
          have hlength' := congrArg List.length hinner'
          simp only [List.length_append] at hlength hlength'
          have hnone : more = [] := List.eq_nil_of_length_eq_zero (by omega)
          rw [hinner, hnone, List.append_nil]
      | unclosed hopen' =>
          have htail : inner ++ '"' :: rest = tail' := by simpa using heq
          exact (hcloses.not_staysOpen (htail ▸ hopen')).elim
  | unclosed hopen =>
      cases h' with
      | @closed inner' _ hopen' hcloses' =>
          have htail : inner' ++ '"' :: rest' = tail := by simpa using heq.symm
          exact (hcloses'.not_staysOpen (htail ▸ hopen)).elim
      | unclosed hopen' => simpa using heq

/-- A quoted token ends at a boundary. -/
theorem QuotedBefore.atBoundary (h : QuotedBefore tail rest) : atBoundary rest = true := by
  cases h with
  | closed hopen hcloses => exact hcloses.2
  | unclosed hopen => rfl

/-! ## Tokens -/

theorem TokenBefore.head_eq_some (h : TokenBefore token rest) :
    ∃ c, token.head? = some c ∧ isBlank c = false := by
  cases h with
  | word hc h => exact ⟨_, rfl, h _ List.mem_cons_self⟩
  | quoted h => exact ⟨'"', rfl, rfl⟩

/-- Splitting behind a token finds its end. -/
theorem tokenBefore_splitToken (hc : isBlank c = false) (cs : List Char) :
    TokenBefore (splitToken c cs).1 (splitToken c cs).2 := by
  unfold splitToken
  split
  · next hquote =>
    rw [hquote]
    exact .quoted (quotedBefore_splitQuoted cs)
  · next hquote =>
    have hrun := List.all_takeWhile (p := (!isBlank ·)) (l := cs)
    simp only [List.all_eq_true, Bool.not_eq_true'] at hrun
    exact .word hquote (List.forall_mem_cons.mpr ⟨hc, hrun⟩)

/-- A token ends at a boundary. -/
theorem atBoundary_splitToken (c : Char) (cs : List Char) :
    atBoundary (splitToken c cs).2 = true := by
  unfold splitToken
  split
  · exact (quotedBefore_splitQuoted cs).atBoundary
  · refine atBoundary_iff.mpr fun d hd => ?_
    have hstop := List.head?_dropWhile_not (!isBlank ·) cs
    rw [Option.mem_def.mp hd] at hstop
    simpa using hstop

/-- There is one end of a token. -/
theorem TokenBefore.unique (h : TokenBefore token rest) (h' : TokenBefore token' rest')
    (hrest : atBoundary rest = true) (hrest' : atBoundary rest' = true)
    (heq : token ++ rest = token' ++ rest') : token = token' ∧ rest = rest' := by
  cases h with
  | word hc h =>
      cases h' with
      | word hc' h' =>
          have hword : ∀ {cs : List Char}, (∀ d ∈ cs, isBlank d = false) →
              ∀ d ∈ cs, (!isBlank d) = true := fun h d hd => by simp [h d hd]
          have hend : ∀ {cs : List Char}, atBoundary cs = true →
              ∀ d ∈ cs.head?, (!isBlank d) = false := fun h d hd => by
            simp [atBoundary_iff.mp h d hd]
          exact run_append_inj (hword h) (hword h') (hend hrest) (hend hrest') heq
      | quoted h' => exact (hc (List.cons.inj heq).1).elim
  | quoted h =>
      cases h' with
      | word hc' h' => exact (hc' (List.cons.inj heq).1.symm).elim
      | quoted h' =>
          obtain ⟨rfl, hrest⟩ := h.unique h' (List.cons.inj heq).2
          exact ⟨rfl, hrest⟩

/-! ## Layouts -/

/-- Behind a token comes a gap or the end of the text. -/
theorem Layout.atBoundary (h : Layout parts last text)
    (hnext : ∀ part ∈ parts.head?, part.1 ≠ []) : atBoundary text = true := by
  have hgap : ∀ {gap cs : List Char}, isAllBlank gap = true → gap ≠ [] →
      Text.atBoundary (gap ++ cs) = true := by
    intro gap cs hgap hne
    obtain ⟨c, gap, rfl⟩ := List.exists_cons_of_ne_nil hne
    exact isAllBlank_iff.mp hgap c List.mem_cons_self
  cases h with
  | nil hlast =>
      cases text with
      | nil => rfl
      | cons c cs => exact isAllBlank_iff.mp hlast c List.mem_cons_self
  | cons hgap' htoken hnext' h => exact hgap hgap' (hnext _ rfl)

/-- A text of blanks has no token in it. -/
theorem TokenBefore.not_isAllBlank {gap : List Char} (h : TokenBefore token rest) :
    isAllBlank (gap ++ (token ++ rest)) = false := by
  obtain ⟨c, hhead, hc⟩ := h.head_eq_some
  have hmem : c ∈ gap ++ (token ++ rest) := by simp [List.mem_of_mem_head? hhead]
  rw [← Bool.not_eq_true]
  intro hblank
  rw [isAllBlank_iff.mp hblank c hmem] at hc
  cases hc

/-- No token begins with a blank. -/
theorem TokenBefore.isBlank_head (h : TokenBefore token rest) :
    ∀ c ∈ (token ++ rest).head?, isBlank c = false := by
  obtain ⟨d, hd, hblank⟩ := h.head_eq_some
  intro c hc
  rw [List.head?_append, hd] at hc
  cases hc
  exact hblank

/-- A text has one layout. -/
theorem Layout.unique (h : Layout parts last text) (h' : Layout parts' last' text) :
    parts = parts' ∧ last = last' := by
  induction h generalizing parts' last' with
  | @nil last hlast =>
      generalize htext : last = text at h'
      cases h' with
      | nil hlast' => exact ⟨rfl, rfl⟩
      | cons hgap' htoken' hnext' h' =>
          rw [htext, htoken'.not_isAllBlank] at hlast
          cases hlast
  | @cons gap token rest last parts hgap htoken hnext h ih =>
      generalize htext : gap ++ (token ++ rest) = text at h'
      cases h' with
      | nil hlast' =>
          rw [← htext, htoken.not_isAllBlank] at hlast'
          cases hlast'
      | @cons gap' token' rest' _ parts' hgap' htoken' hnext' h' =>
          obtain ⟨rfl, hbehind⟩ := run_append_inj (isAllBlank_iff.mp hgap)
            (isAllBlank_iff.mp hgap') htoken.isBlank_head htoken'.isBlank_head htext
          obtain ⟨rfl, rfl⟩ := htoken.unique htoken' (h.atBoundary hnext) (h'.atBoundary hnext')
            hbehind
          obtain ⟨rfl, rfl⟩ := ih h'
          exact ⟨rfl, rfl⟩

/-- A blank in front of a text belongs to its first gap. -/
theorem Layout.cons_blank (h : Layout parts last text) (hc : isBlank c = true) :
    ∃ parts' last', Layout parts' last' (c :: text) ∧
      parts'.map Prod.snd = parts.map Prod.snd := by
  have hblank : ∀ {gap : List Char}, isAllBlank gap = true → isAllBlank (c :: gap) = true :=
    fun hgap => isAllBlank_iff.mpr (List.forall_mem_cons.mpr ⟨hc, isAllBlank_iff.mp hgap⟩)
  cases h with
  | nil hlast => exact ⟨[], _, .nil (hblank hlast), rfl⟩
  | cons hgap htoken hnext h => exact ⟨_, _, .cons (hblank hgap) htoken hnext h, rfl⟩

/-- Behind a boundary no token begins at once. -/
theorem Layout.gap_ne_nil (h : Layout parts last text) (htext : Text.atBoundary text = true) :
    ∀ part ∈ parts.head?, part.1 ≠ [] := by
  cases h with
  | nil hlast => simp
  | @cons gap token rest _ parts hgap htoken hnext h =>
      rintro _ ⟨⟩ rfl
      obtain ⟨c, hhead, hc⟩ := htoken.head_eq_some
      have hmem : c ∈ (token ++ rest).head? := by simp [hhead]
      rw [List.nil_append] at htext
      rw [atBoundary_iff.mp htext c hmem] at hc
      cases hc

/-- The tokenizer finds a layout. -/
theorem exists_layout (text : List Char) :
    ∃ parts last, Layout parts last text ∧ parts.map Prod.snd = tokenize text := by
  fun_induction tokenize text with
  | case1 => exact ⟨[], [], .nil rfl, rfl⟩
  | case2 c rest hc ih =>
      obtain ⟨parts, last, h, htokens⟩ := ih
      obtain ⟨parts', last', h', htokens'⟩ := h.cons_blank hc
      exact ⟨parts', last', h', htokens'.trans htokens⟩
  | case3 c rest hc ih =>
      obtain ⟨parts, last, h, htokens⟩ := ih
      have htoken := tokenBefore_splitToken (Bool.not_eq_true _ ▸ hc) rest
      have hnext := h.gap_ne_nil (atBoundary_splitToken c rest)
      have hlayout := @Layout.cons [] _ _ _ _ rfl htoken hnext h
      rw [List.nil_append, splitToken_append] at hlayout
      exact ⟨_, last, hlayout, by rw [List.map_cons, htokens]⟩

/-- **The tokenizer** finds the tokens of the layout. -/
theorem Layout.tokenize_eq (h : Layout parts last text) : tokenize text = parts.map Prod.snd := by
  obtain ⟨parts', last', h', htokens⟩ := exists_layout text
  obtain ⟨rfl, -⟩ := h.unique h'
  exact htokens.symm

/-! ## Removing tokens -/

/-- The token is one in front of any blank, and at the end of a text. -/
def Whole (token : List Char) : Prop :=
  ∀ rest, Text.atBoundary rest = true → TokenBefore token rest

/-- Tokens that are whole, the last one at least at the end of a text. -/
inductive Sound : List (List Char) → Prop
  | nil : Sound []
  | last {token : List Char} (h : TokenBefore token []) : Sound [token]
  | cons {token : List Char} {tokens : List (List Char)} (h : Whole token)
    (htokens : Sound tokens) : Sound (token :: tokens)

/-- Whether a token stays open is settled by the character behind it. -/
theorem StaysOpen.of_cons (h : StaysOpen inner (c :: rest)) (rest' : List Char) :
    StaysOpen inner (c :: rest') := by
  intro before after heq hcloses
  refine h before after heq ⟨hcloses.1, ?_⟩
  have hboundary := hcloses.2
  cases after <;> exact hboundary

/-- What ends in front of more text does not end because the text does. -/
theorem TokenBefore.whole (h : TokenBefore token rest) (hrest : rest ≠ []) : Whole token := by
  intro rest' hboundary
  cases h with
  | word hc h => exact .word hc h
  | quoted h =>
      cases h with
      | closed hopen hcloses => exact .quoted (.closed (hopen.of_cons rest') ⟨hcloses.1, hboundary⟩)
      | unclosed hopen => exact (hrest rfl).elim

theorem Layout.sound (h : Layout parts last text) : Sound (parts.map Prod.snd) := by
  induction h with
  | nil hlast => exact .nil
  | @cons gap token rest last parts hgap htoken hnext h ih =>
      by_cases hrest : rest = []
      · subst hrest
        have htokens := h.tokenize_eq
        rw [tokenize_nil] at htokens
        rw [List.map_cons, ← htokens]
        exact .last htoken
      · exact .cons (htoken.whole hrest) ih

/-- Tokens may be removed. -/
theorem Sound.sublist (h : Sound tokens) (hus : us.Sublist tokens) : Sound us := by
  induction h generalizing us with
  | nil =>
      rw [List.sublist_nil.mp hus]
      exact .nil
  | @last token h =>
      cases hus with
      | cons _ hus =>
          rw [List.sublist_nil.mp hus]
          exact .nil
      | cons_cons _ hus =>
          rw [List.sublist_nil.mp hus]
          exact .last h
  | cons h htokens ih =>
      cases hus with
      | cons _ hus => exact ih hus
      | cons_cons _ hus => exact .cons h (ih hus)

/-- Tokens with a space in front of each lie in the text as they are. -/
theorem Sound.layout (h : Sound tokens) :
    Layout (tokens.map (([' '], ·))) [] (tokens.flatMap (' ' :: ·)) := by
  induction h with
  | nil => exact .nil rfl
  | last h => exact @Layout.cons [' '] _ _ _ _ rfl h (by simp) (.nil rfl)
  | @cons token tokens h htokens ih =>
      have hnext : ∀ part ∈ (tokens.map (([' '], ·))).head?, part.1 ≠ [] := by
        cases tokens <;> simp
      exact @Layout.cons [' '] _ _ _ _ rfl (h _ (ih.atBoundary hnext)) hnext ih

theorem Sound.tokenize_flatMap (h : Sound tokens) :
    tokenize (tokens.flatMap (' ' :: ·)) = tokens := by
  rw [h.layout.tokenize_eq, List.map_map]
  exact List.map_id tokens

theorem toList_joined (ts : List String) :
    (joined ts).toList = [' '].intercalate (ts.map String.toList) := by
  simp [joined]

/-- Joined by spaces, sound tokens are read back. -/
theorem Sound.tokens_joined {ts : List String} (h : Sound (ts.map String.toList)) :
    Text.tokens (joined ts) = ts := by
  have hread : tokenize ([' '].intercalate (ts.map String.toList)) = ts.map String.toList := by
    have hspaced := h.tokenize_flatMap
    cases ts with
    | nil => exact hspaced
    | cons t ts =>
        rw [List.map_cons, intercalate_cons_eq]
        rwa [List.map_cons, List.flatMap_cons, List.cons_append, tokenize_blank rfl] at hspaced
  rw [Text.tokens, toList_joined, hread, List.map_map]
  simp [Function.comp_def]

theorem sound_tokens (text : String) : Sound ((Text.tokens text).map String.toList) := by
  obtain ⟨parts, last, h, htokens⟩ := exists_layout text.toList
  have hsound := h.sound
  rw [htokens] at hsound
  simpa [Text.tokens, Function.comp_def] using hsound

/-- **The tokenizer implements its grammar**: every text has exactly one layout,
whose tokens are the ones that the tokenizer gives; and any of these tokens,
joined by spaces without the others, are the tokens of the joined text. -/
theorem tokens_grammar (text : String) :
    (∃ parts last, Layout parts last text.toList ∧
      parts.map (String.ofList ·.2) = Text.tokens text ∧
      ∀ parts' last', Layout parts' last' text.toList → parts' = parts ∧ last' = last) ∧
    ∀ ts, ts.Sublist (Text.tokens text) → Text.tokens (joined ts) = ts := by
  constructor
  · obtain ⟨parts, last, h, htokens⟩ := exists_layout text.toList
    refine ⟨parts, last, h, ?_, fun parts' last' h' => h'.unique h⟩
    rw [Text.tokens, ← htokens, List.map_map]
    rfl
  · intro ts hts
    exact ((sound_tokens text).sublist (hts.map _)).tokens_joined

/-- Without the quoted token in the middle, a text that ends in an open one. -/
theorem tokens_grammar_unclosed :
    ["-a", "\"x y"].Sublist (Text.tokens "-a \"b c\"  \"x y") ∧
      Text.tokens (joined ["-a", "\"x y"]) = ["-a", "\"x y"] := by
  have htokens : Text.tokens "-a \"b c\"  \"x y" = ["-a", "\"b c\"", "\"x y"] := by
    simp [Text.tokens, tokenize, splitToken, splitQuoted, atBoundary, isBlank]
  have hsublist : ["-a", "\"x y"].Sublist (Text.tokens "-a \"b c\"  \"x y") := by
    rw [htokens]
    decide
  exact ⟨hsublist, (tokens_grammar _).2 _ hsublist⟩

end MachineInterface.Text
