import Mathlib.Data.List.Chain
import MachineInterface.Proofs.Grammar
import MachineInterface.Proofs.Quoting

/-!
# MachineInterface.Proofs.Unquoted

Texts without quotes.  An argument that takes a text takes all tokens that are
left when the first of them is not quoted, joined by single spaces, but it drops
their escaping backslashes as if the text had stood in quotes.  So the engine
gets the tokens of an expression as the client wrote them if and only if none of
them has a backslash in front of a quote or of another backslash
(`unquoted_text`).
-/

namespace MachineInterface

variable {σ τ : Type}

namespace Text

variable {c : Char} {cs word rest text last token : List Char} {words : List (List Char)}
  {parts : List (List Char × List Char)} {s : String} {ts : List String}

/-! ## Escapes -/

/-- No backslash stands in front of a quote or of another backslash. -/
def Plain (cs : List Char) : Prop := cs.IsChain fun c d => c = '\\' → d ≠ '"' ∧ d ≠ '\\'

instance (cs : List Char) : Decidable (Plain cs) :=
  inferInstanceAs (Decidable (List.IsChain _ _))

theorem length_unescape_le (cs : List Char) : (unescape cs).length ≤ cs.length := by
  fun_induction unescape cs with
  | case1 rest ih | case2 rest ih =>
      simp only [List.length_cons]
      omega
  | case3 c rest _ _ ih =>
      simp only [List.length_cons]
      omega
  | case4 => exact Nat.le_refl _

/-- Dropping escapes changes every text that has one. -/
theorem unescape_eq_self_iff : unescape cs = cs ↔ Plain cs := by
  fun_induction unescape cs with
  | case1 rest ih | case2 rest ih =>
      have hlength := length_unescape_le rest
      constructor
      · intro h
        have hsame := congrArg List.length h
        simp only [List.length_cons] at hsame
        omega
      · intro h
        have hpair := (List.isChain_cons_cons.mp h).1 rfl
        simp at hpair
  | case3 c rest hquote hslash ih =>
      have hpair : ∀ d ∈ rest.head?, c = '\\' → d ≠ '"' ∧ d ≠ '\\' := by
        rintro d hd rfl
        obtain ⟨ds, rfl⟩ : ∃ ds, rest = d :: ds := by
          cases rest <;> simp_all
        exact ⟨fun h => hquote ds rfl (h ▸ rfl), fun h => hslash ds rfl (h ▸ rfl)⟩
      rw [Plain, List.isChain_cons, and_iff_right hpair, List.cons.injEq, and_iff_right rfl, ih,
        Plain]
  | case4 => simp [Plain]

theorem plain_append_space (word rest : List Char) :
    Plain (word ++ ' ' :: rest) ↔ Plain word ∧ Plain rest := by
  have hspace : ∀ d ∈ (' ' :: rest).head?, d = ' ' := by simp
  have hrest : (' ' :: rest).IsChain (fun c d => c = '\\' → d ≠ '"' ∧ d ≠ '\\') ↔ Plain rest := by
    rw [List.isChain_cons]
    simp [Plain]
  rw [Plain, List.isChain_append, hrest, ← Plain]
  constructor
  · exact fun h => ⟨h.1, h.2.1⟩
  · refine fun h => ⟨h.1, h.2, fun c _ d hd _ => ?_⟩
    rw [hspace d hd]
    decide

theorem plain_append_flatMap (word : List Char) (words : List (List Char)) :
    Plain (word ++ words.flatMap (' ' :: ·)) ↔ Plain word ∧ ∀ w ∈ words, Plain w := by
  induction words generalizing word with
  | nil => simp
  | cons next words ih =>
      rw [List.flatMap_cons, List.cons_append, plain_append_space, ih, List.forall_mem_cons]

/-- Spaces between words make no escapes. -/
theorem plain_joined : Plain (joined ts).toList ↔ ∀ t ∈ ts, Plain t.toList := by
  rw [toList_joined]
  cases ts with
  | nil => simp [Plain]
  | cons t ts =>
      rw [List.map_cons, intercalate_cons_eq, plain_append_flatMap, List.forall_mem_map,
        List.forall_mem_cons]

/-- A text whose first character is no blank does not become one of blanks. -/
theorem isAllBlank_unescape (h : cs.head? = some c) (hc : isBlank c = false) :
    isAllBlank (unescape cs) = false := by
  obtain ⟨rest, rfl⟩ := List.head?_eq_some_iff.mp h
  have hhead : ∃ d ds, unescape (c :: rest) = d :: ds ∧ isBlank d = false := by
    by_cases hquote : ∃ ds, c = '\\' ∧ rest = '"' :: ds
    · obtain ⟨ds, rfl, rfl⟩ := hquote
      exact ⟨'"', unescape ds, rfl, rfl⟩
    · by_cases hslash : ∃ ds, c = '\\' ∧ rest = '\\' :: ds
      · obtain ⟨ds, rfl, rfl⟩ := hslash
        exact ⟨'\\', unescape ds, rfl, rfl⟩
      · refine ⟨c, unescape rest, unescape.eq_3 _ _ ?_ ?_, hc⟩
        · exact fun ds hcs hrest => hquote ⟨ds, hcs, hrest⟩
        · exact fun ds hcs hrest => hslash ⟨ds, hcs, hrest⟩
  obtain ⟨d, ds, hunescape, hd⟩ := hhead
  rw [hunescape, isAllBlank, List.all_cons, hd, Bool.false_and]

/-! ## Trimming -/

/-- There is no blank at either end. -/
structure Tight (cs : List Char) : Prop where
  head : ∃ c, cs.head? = some c ∧ isBlank c = false
  last : ∃ c, cs.getLast? = some c ∧ isBlank c = false

theorem Tight.trim_eq (h : Tight cs) : trim cs = cs := by
  obtain ⟨⟨c, hhead, hc⟩, ⟨d, hlast, hd⟩⟩ := h
  have hstart : trimStart ([] ++ cs) = cs := trimStart_append rfl (by simp [hhead, hc])
  have hend : trimEnd (cs ++ []) = cs ++ [] := trimEnd_append hlast hd
  rw [List.nil_append] at hstart
  rw [List.append_nil] at hend
  rw [trim, hstart, hend]

theorem Tight.append_flatMap (h : Tight word) (hwords : ∀ w ∈ words, Tight w) :
    Tight (word ++ words.flatMap (' ' :: ·)) := by
  constructor
  case head =>
    obtain ⟨c, hhead, hc⟩ := h.head
    exact ⟨c, by rw [List.head?_append, hhead, Option.some_or], hc⟩
  case last =>
    induction words generalizing word with
    | nil => simpa using h.last
    | cons next words ih =>
        obtain ⟨hnext, hwords⟩ := List.forall_mem_cons.mp hwords
        obtain ⟨c, hlast, hc⟩ := ih hnext hwords
        refine ⟨c, ?_, hc⟩
        have hbehind : word ++ (next :: words).flatMap (' ' :: ·) =
            (word ++ [' ']) ++ (next ++ words.flatMap (' ' :: ·)) := by simp
        rw [hbehind, List.getLast?_append, hlast, Option.some_or]

theorem tight_joined (hne : ts ≠ []) (h : ∀ t ∈ ts, Tight t.toList) :
    Tight (joined ts).toList := by
  obtain ⟨t, ts, rfl⟩ := List.exists_cons_of_ne_nil hne
  obtain ⟨ht, hts⟩ := List.forall_mem_cons.mp h
  rw [toList_joined, List.map_cons, intercalate_cons_eq]
  exact ht.append_flatMap (List.forall_mem_map.mpr hts)

theorem trimmed_of_tight (h : Tight s.toList) : trimmed s = s := by
  rw [trimmed, h.trim_eq, String.ofList_toList]

/-- A trimmed text does not end with a blank. -/
theorem isBlank_getLast_trim (cs : List Char) : ∀ c ∈ (trim cs).getLast?, isBlank c = false := by
  intro c hc
  rw [trim, trimEnd, List.getLast?_reverse] at hc
  exact isBlank_head_trimStart hc

/-- Reading an unquoted text changes it unless there is nothing to trim and no
backslash to drop. -/
theorem unescaped_trimmed_eq_self_iff :
    unescaped (trimmed s) = s ↔ trimmed s = s ∧ Plain s.toList := by
  constructor
  · intro h
    have hchars : unescape (trim s.toList) = s.toList := by
      have hlist := congrArg String.toList h
      simpa [unescaped, trimmed] using hlist
    have hshorter := length_unescape_le (trim s.toList)
    rw [hchars] at hshorter
    have htrim : trim s.toList = s.toList := by
      have hprefix := trimEnd_prefix (trimStart s.toList)
      have hsuffix := List.dropWhile_suffix (l := s.toList) isBlank
      have hstart : trimStart s.toList = s.toList :=
        hsuffix.eq_of_length_le (Nat.le_trans hshorter hprefix.length_le)
      rw [hstart] at hprefix
      rw [trim, hstart]
      refine hprefix.eq_of_length_le ?_
      rwa [trim, hstart] at hshorter
    rw [htrim] at hchars
    exact ⟨by rw [trimmed, htrim, String.ofList_toList], unescape_eq_self_iff.mp hchars⟩
  · rintro ⟨htrim, hplain⟩
    rw [htrim, unescaped, unescape_eq_self_iff.mpr hplain, String.ofList_toList]

/-! ## Ends of tokens -/

theorem TokenBefore.getLast_eq_some (h : TokenBefore token rest) (hrest : rest ≠ []) :
    ∃ c, token.getLast? = some c ∧ isBlank c = false := by
  cases h with
  | word hc h =>
      exact ⟨_, List.getLast?_eq_some_getLast (List.cons_ne_nil _ _), h _ (List.getLast_mem _)⟩
  | quoted h =>
      cases h with
      | closed hopen hcloses =>
          exact ⟨'"', by rw [← List.cons_append, List.getLast?_concat], rfl⟩
      | unclosed hopen => exact (hrest rfl).elim

/-- The tokens of a text that does not end with a blank are tight. -/
theorem Layout.tight (h : Layout parts last text)
    (hlast : ∀ c ∈ text.getLast?, isBlank c = false) : ∀ part ∈ parts, Tight part.2 := by
  induction h with
  | nil hblank => simp
  | @cons gap token rest last parts hgap htoken hnext h ih =>
      have hend : ∀ c ∈ (token ++ rest).getLast?, isBlank c = false := by
        intro c hc
        refine hlast c ?_
        rw [List.getLast?_append, Option.mem_def.mp hc]
        rfl
      refine List.forall_mem_cons.mpr ⟨⟨htoken.head_eq_some, ?_⟩, ih fun c hc => hend c ?_⟩
      · by_cases hrest : rest = []
        · obtain ⟨c, hhead, -⟩ := htoken.head_eq_some
          have hne : token ≠ [] := by
            rintro rfl
            cases hhead
          have hself := List.getLast?_eq_some_getLast hne
          refine ⟨_, hself, hend _ ?_⟩
          rw [hrest, List.append_nil]
          exact hself
        · exact htoken.getLast_eq_some hrest
      · rw [List.getLast?_append, Option.mem_def.mp hc]
        rfl

theorem tight_tokens (h : ∀ c ∈ s.toList.getLast?, isBlank c = false) :
    ∀ t ∈ Text.tokens s, Tight t.toList := by
  obtain ⟨parts, last, hlayout, htokens⟩ := exists_layout s.toList
  intro t ht
  rw [Text.tokens, ← htokens, List.map_map] at ht
  obtain ⟨part, hpart, rfl⟩ := List.mem_map.mp ht
  simpa using hlayout.tight h part hpart

end Text

/-- The arguments of a line do not end with a blank. -/
theorem Line.isBlank_getLast_arguments {text : String} {line : Line}
    (h : parse text = .ok (some line)) :
    ∀ c ∈ line.arguments.toList.getLast?, Text.isBlank c = false := by
  suffices htrim : ∃ rest, line.arguments = String.ofList (Text.trim rest) by
    obtain ⟨rest, hrest⟩ := htrim
    rw [hrest, String.toList_ofList]
    exact Text.isBlank_getLast_trim rest
  unfold parse at h
  split at h
  · cases h
  · simp only [ofTrimmed] at h
    split at h
    · next line' hverb =>
      obtain rfl : line' = line := by simpa [Except.map] using h
      simp only [ofVerb] at hverb
      split at hverb
      · cases hverb
        exact ⟨_, rfl⟩
      · cases hverb
    · split at h
      · cases h
      · split at h <;> cases h

namespace Argument

open Text

variable {a : Argument} {as leading : List Argument} {tokens rest words : List String}
  {word : String}

/-! ## Reading -/

/-- An unquoted text takes all tokens. -/
theorem read_text_of_unquoted (h : quoted word = false) (words : List String) :
    Kind.text.read (word :: words) =
      (.found (unescaped (trimmed (joined (word :: words)))), []) := by
  change readText (word :: words) = _
  rw [readText, if_neg (by simp [h])]

theorem sublist_readOperands (type : ValueType) (flag : String) (arity : Nat)
    (tokens : List String) : (readOperands type flag arity tokens).2.Sublist tokens := by
  fun_induction readOperands type flag arity tokens with
  | case1 tokens => exact .refl _
  | case2 => exact .refl _
  | case3 arity token rest hdecode => exact .refl _
  | case4 arity token rest value hdecode values rest' hrest ih =>
      rw [hrest] at ih
      exact ih.cons token
  | case5 arity token rest value hdecode reading rest' hnot hrest ih =>
      rw [hrest] at ih
      exact ih.cons token

theorem sublist_decodePrefix (type : ValueType) (max : Option Nat) (tokens : List String) :
    (decodePrefix type max tokens).2.Sublist tokens := by
  fun_induction decodePrefix type max tokens with
  | case1 tokens => exact .refl _
  | case2 => exact .refl _
  | case3 max token rest hmax hdecode => exact .refl _
  | case4 max token rest hmax value hdecode values rest' hrest ih =>
      rw [hrest] at ih
      exact ih.cons token

theorem sublist_readFront {α : Type} (decode : String → Option α) (tokens : List String) :
    (readFront decode tokens).2.Sublist tokens := by
  cases tokens with
  | nil => exact .refl _
  | cons token rest =>
      rw [readFront]
      cases decode token with
      | none => exact .refl _
      | some value => exact List.sublist_cons_self token rest

/-- Reading an argument takes tokens away and leaves the others in order. -/
theorem sublist_read (kind : Kind) (tokens : List String) :
    (kind.read tokens).2.Sublist tokens := by
  cases kind with
  | text =>
      change (readText tokens).2.Sublist tokens
      cases tokens with
      | nil => exact .refl _
      | cons token rest =>
          rw [readText]
          split
          · exact List.sublist_cons_self token rest
          · exact List.nil_sublist _
  | value type => exact sublist_readFront type.decode tokens
  | printValues => exact sublist_readFront PrintValues.ofToken? tokens
  | option short long type arity =>
      change (readOption _ type arity tokens).2.Sublist tokens
      rw [readOption]
      split
      · exact .refl _
      · next flag operands hdrop =>
        have hbehind := (sublist_readOperands type flag arity operands).cons flag
        rw [← hdrop] at hbehind
        have hall := (List.Sublist.refl (tokens.takeWhile (· ∉ flags short long))).append hbehind
        rwa [List.takeWhile_append_dropWhile] at hall
  | list type max =>
      change (readList type max tokens).2.Sublist tokens
      have hprefix := sublist_decodePrefix type max tokens
      unfold readList
      split
      · split <;> exact .refl _
      · next values rest hnot hdecode =>
        rwa [hdecode] at hprefix

theorem sublist_rest (as : List Argument) (tokens : List String) :
    (validate as tokens).rest.Sublist tokens := by
  fun_induction validate as tokens with
  | case1 tokens => exact .refl _
  | case2 a as tokens value rest hread ih | case3 a as tokens rest hread ha ih
  | case5 a as tokens text rest hread ha ih =>
      have hbehind := sublist_read a.kind tokens
      rw [hread] at hbehind
      exact ih.trans hbehind
  | case4 a as tokens rest hread ha | case6 a as tokens text rest hread ha =>
      have hbehind := sublist_read a.kind tokens
      rwa [hread] at hbehind

/-! ## The last argument -/

/-- Answers with one more behind them. -/
def Values.snoc : {as : List Argument} → Values as → a.Answer → Values (as ++ [a])
  | [], _, answer => (answer, ())
  | _ :: _, (first, others), answer => (first, Values.snoc others answer)

theorem exists_of_map_eq_ok {α β : Type} {f : α → β} {result : Except Error α} {y : β}
    (h : result.map f = .ok y) : ∃ x, result = .ok x ∧ f x = y := by
  cases result with
  | error e => cases h
  | ok x => exact ⟨x, rfl, Except.ok.inj h⟩

/-- The last argument is read from what the others leave. -/
theorem values_snoc {values : Values leading} {value : a.kind.Value}
    (h : (validate leading tokens).values = .ok values)
    (hread : a.kind.read (validate leading tokens).rest = (.found value, rest)) :
    (validate (leading ++ [a]) tokens).values = .ok (values.snoc (a.answer value)) ∧
      (validate (leading ++ [a]) tokens).rest = rest := by
  induction leading, tokens using validate.induct with
  | case1 tokens =>
      have hvalidate : validate ([] ++ [a]) tokens = .found value (.complete rest) :=
        validate_of_found hread
      rw [hvalidate]
      exact ⟨rfl, rfl⟩
  | case2 first leading tokens value' others hfirst ih =>
      simp only [validate, hfirst, List.cons_append, Validation.values, Validation.rest]
        at h hread ⊢
      obtain ⟨values, hvalues, rfl⟩ := exists_of_map_eq_ok h
      obtain ⟨hall, hrest⟩ := ih hvalues hread
      rw [hall]
      exact ⟨rfl, hrest⟩
  | case3 first leading tokens others hfirst ha ih
  | case5 first leading tokens text others hfirst ha ih =>
      simp only [validate, hfirst, dif_pos ha, List.cons_append, Validation.values,
        Validation.rest] at h hread ⊢
      obtain ⟨values, hvalues, rfl⟩ := exists_of_map_eq_ok h
      obtain ⟨hall, hrest⟩ := ih hvalues hread
      rw [hall]
      exact ⟨rfl, hrest⟩
  | case4 first leading tokens others hfirst ha
  | case6 first leading tokens text others hfirst ha =>
      simp only [validate, hfirst, dif_neg ha, Validation.values] at h
      cases h

end Argument

/-! ## Lines -/

open Argument Text

/-- The line asks for the verb, gives its first arguments these values and leaves
these words for the last one. -/
inductive Line.Leaves (verb : Verb) (leading : List Argument) (values : Values leading)
    (words : List String) : String → Prop
  | intro {text : String} {line : Line} {tokens : List String}
    (hline : parse text = .ok (some line)) (hverb : line.verb = verb.name)
    (htokens : Text.tokens line.arguments = tokens)
    (hvalues : (validate leading tokens).values = .ok values)
    (hrest : (validate leading tokens).rest = words) :
    Leaves verb leading values words text

/-- The first of the words is not quoted. -/
def Unquoted (words : List String) : Prop := ∃ word ∈ words.head?, quoted word = false

instance (words : List String) : Decidable (Unquoted words) :=
  inferInstanceAs (Decidable (∃ word ∈ words.head?, quoted word = false))

section Passing

variable {verb : Verb} {leading : List Argument} {values : Values leading} {words : List String}
  {line : String} {command : Command}

/-- The words that a line leaves are tight. -/
theorem Line.Leaves.tight (h : Leaves verb leading values words line) :
    ∀ w ∈ words, Tight w.toList := by
  obtain ⟨hline, -, rfl, -, rfl⟩ := h
  intro w hw
  exact tight_tokens (isBlank_getLast_arguments hline) w ((sublist_rest _ _).subset hw)

/-- Unescaped words do not become blank. -/
theorem isAllBlank_unescaped_joined (hne : words ≠ []) (h : ∀ w ∈ words, Tight w.toList) :
    isAllBlank (unescaped (joined words)).toList = false := by
  obtain ⟨c, hhead, hc⟩ := (tight_joined hne h).head
  rw [unescaped, String.toList_ofList]
  exact isAllBlank_unescape hhead hc

theorem Unquoted.ne_nil (h : Unquoted words) : words ≠ [] := by
  rintro rfl
  obtain ⟨word, hword, -⟩ := h
  cases hword

variable [Engine σ] [Sink τ]

/-- A command that takes a text as its last argument gets all words that its line
leaves, joined and unescaped. -/
theorem Line.Leaves.told_eq {a : Adapter σ τ} {calls : List Call}
    (h : Leaves verb leading values words line) (hwords : Unquoted words) {mandatory : Bool}
    (hreads : ∀ tokens,
      (validate (leading ++ [⟨"expression", mandatory, .text⟩]) tokens).values =
        .ok (values.snoc (answer ⟨"expression", mandatory, .text⟩ (unescaped (joined words)))) →
      (validate (leading ++ [⟨"expression", mandatory, .text⟩]) tokens).rest = [] →
      verb.Reads tokens command)
    (hcarries : (Act.perform command).Carries a.traced calls) : a.told line = calls := by
  have htight := h.tight
  obtain ⟨hline, hverb, rfl, hvalues, hrest⟩ := h
  obtain ⟨word, hword, hunquoted⟩ := hwords
  obtain ⟨others, rfl⟩ := List.head?_eq_some_iff.mp hword
  have hread := read_text_of_unquoted hunquoted others
  rw [trimmed_of_tight (tight_joined (List.cons_ne_nil _ _) htight), ← hrest] at hread
  obtain ⟨hall, hnone⟩ := values_snoc (a := ⟨"expression", mandatory, .text⟩) hvalues hread
  rw [hrest] at hall
  exact Adapter.told_of_reads hline hverb (hreads _ hall hnone) hcarries

/-- The engine is told this expression for words that lines leave for a text. -/
structure Adapter.Passes (a : Adapter σ τ) (words : List String) (expression : String) : Prop where
  /-- A watchpoint is set at the place that the expression stands for. -/
  watch {line : String} {access read : Option (List String)}
    (h : Line.Leaves .breakWatch [flag "a", flag "r"] (access, read, ()) words line) :
    a.told line = .answer (.watchTarget expression) ::
      ((Engine.answer (.watchTarget expression) a.engine).1.toOption.map fun target =>
        .create (.watchpoint target (access.isSome || read.isSome) read.isNone)).toList
  /-- An object is created, in the thread and the frame that are given. -/
  createVariable {line name frameAddress : String} {thread frame : Option (List Int)}
    {t f : Option Nat} (hthread : (Verb.operand thread).mapM (Verb.unsigned "thread") = .ok t)
    (hframe : (Verb.operand frame).mapM (Verb.narrow "frame") = .ok f)
    (h : Line.Leaves .varCreate
      [longOption "thread" .number, longOption "frame" .number, Verb.objectName,
        .word "frame-addr" { numbers := true }]
      (thread, frame, name, frameAddress, ()) words line) :
    a.told line = [.answer (.resolveValue expression t f)]
  /-- An object that exists is assigned to. -/
  assign {line name : String} {v : Variable} (hobject : a.session.object? name = some v)
    (h : Line.Leaves .varAssign [Verb.objectName] (name, ()) words line) :
    a.told line = [.answer (.assignValue v.handle expression)]
  /-- A stoppoint that still exists gets the expression as its condition. -/
  setCondition {line : String} {n : Int} {id : Nat} {p : Stoppoint} {handle : Handle}
    (hnumber : nat32? n = some id) (hp : a.session.stoppoint? id = some p)
    (hfind : (Engine.answer (.findStoppoint p.handle) a.engine).1 = some handle)
    (h : Line.Leaves .breakCondition [.number "number"] (n, ()) words line) :
    a.told line = [.answer (.setCondition handle (some expression))]

theorem Adapter.passes_unescaped (a : Adapter σ τ) (h : Unquoted words) :
    a.Passes words (unescaped (joined words)) := by
  constructor
  case watch =>
    intro line access read hline
    exact hline.told_eq h (fun _ hvalues hrest => ⟨_, hvalues, hrest, rfl⟩)
      (Act.carries_watch ⟨_, access.isSome || read.isSome, read.isNone⟩ a.traced)
  case createVariable =>
    intro line name frameAddress thread frame t f hthread hframe hline
    exact hline.told_eq h (fun _ hvalues hrest => ⟨_, hvalues, hrest, rfl⟩)
      (Act.carries_createVariable
        (b := ⟨name, frameAddress, _, Verb.operand thread, Verb.operand frame⟩)
        hthread hframe a.traced)
  case assign =>
    intro line name v hobject hline
    exact hline.told_eq h (fun _ hvalues hrest => ⟨_, hvalues, hrest, rfl⟩)
      (Act.carries_assign hobject _)
  case setCondition =>
    intro line n id p handle hnumber hp hfind hline
    have hcondition : Verb.condition? (some (unescaped (joined words))) =
        some (unescaped (joined words)) := by
      rw [Verb.condition?, Option.filter_some,
        isAllBlank_unescaped_joined h.ne_nil hline.tight]
      rfl
    have htold := hline.told_eq h (fun _ hvalues hrest => ⟨_, hvalues, hrest, rfl⟩)
      (Act.carries_setCondition (a := a.traced) hnumber hp hfind
        (Verb.condition? (some (unescaped (joined words)))))
    rw [htold, hcondition]

/-- **Unquoted texts.**  A text whose first token is not quoted takes all tokens,
joined by single spaces and trimmed, but without their escaping backslashes.
The engine is told the tokens of an expression as they are if and only if none of
them has a backslash in front of a quote or of another backslash. -/
theorem Act.unquoted_text :
    (∀ (word : String) (words : List String), quoted word = false →
      ∃ value, Kind.text.read (word :: words) = (.found value, []) ∧
        value = unescaped (trimmed (joined (word :: words))) ∧
        (value = joined (word :: words) ↔
          trimmed (joined (word :: words)) = joined (word :: words) ∧
            ∀ w ∈ word :: words, Plain w.toList)) ∧
    ∀ (a : Adapter σ τ) (words : List String), Unquoted words →
      a.Passes words (unescaped (joined words)) ∧
      (unescaped (joined words) = joined words ↔ ∀ w ∈ words, Plain w.toList) := by
  constructor
  · intro word words hword
    refine ⟨_, read_text_of_unquoted hword words, rfl, ?_⟩
    rw [unescaped_trimmed_eq_self_iff, plain_joined]
  · intro a words hwords
    refine ⟨a.passes_unescaped hwords, ?_⟩
    rw [← plain_joined, ← unescape_eq_self_iff, unescaped, ← String.toList_inj,
      String.toList_ofList]

end Passing

/-- Expressions with operators, a string and an escaped newline. -/
theorem Table.unquoted_text_table :
    let a := (Act.handleLine .standard "break-insert main").after
      (Adapter.new {} ({} : Table) Discard.discard)
    let v : Variable := ⟨"x", "x", 5, .plain, .natural, none, none, none, default⟩
    let b := { a with session := a.session.add v }
    Kind.text.read ["x", "+", "y"] = (.found "x + y", []) ∧
    b.told "-break-watch -r x  + y" =
      [.answer (.watchTarget "x + y"), .create (.watchpoint ⟨0, 8⟩ true false)] ∧
    b.told "-var-create --thread 2 - * x + y" = [.answer (.resolveValue "x + y" (some 2) none)] ∧
    b.told "-var-assign x s == \"a\"" = [.answer (.assignValue 5 "s == \"a\"")] ∧
    b.told "-break-condition 1 c == '\\n'" =
      [.answer (.setCondition ⟨1, .breakpoint⟩ (some "c == '\\n'"))] := by
  intro a v b
  obtain ⟨hread, hpasses⟩ := Act.unquoted_text (σ := Table) (τ := Discard)
  have htext : Kind.text.read ["x", "+", "y"] = (.found "x + y", []) := by
    obtain ⟨value, hvalue, -, hiff⟩ := hread "x" ["+", "y"] (by decide +kernel)
    rw [hvalue, hiff.mpr (by decide +kernel)]
    rfl
  have hsame : ∀ words, Unquoted words → (∀ w ∈ words, Text.Plain w.toList) →
      b.Passes words (Text.joined words) := by
    intro words hwords hplain
    obtain ⟨htold, hiff⟩ := hpasses b words hwords
    rwa [hiff.mpr hplain] at htold
  have hsum := hsame ["x", "+", "y"] (by decide +kernel) (by decide +kernel)
  have hstring := hsame ["s", "==", "\"a\""] (by decide +kernel) (by decide +kernel)
  have hchar := hsame ["c", "==", "'\\n'"] (by decide +kernel) (by decide +kernel)
  have hwatch : Line.parse "-break-watch -r x  + y" =
      .ok (some ⟨none, "break-watch", "-r x  + y"⟩) ∧
      Text.tokens "-r x  + y" = ["-r", "x", "+", "y"] := by
    decide +kernel
  have hcreate : Line.parse "-var-create --thread 2 - * x + y" =
      .ok (some ⟨none, "var-create", "--thread 2 - * x + y"⟩) ∧
      Text.tokens "--thread 2 - * x + y" = ["--thread", "2", "-", "*", "x", "+", "y"] := by
    decide +kernel
  have hassign : Line.parse "-var-assign x s == \"a\"" =
      .ok (some ⟨none, "var-assign", "x s == \"a\""⟩) ∧
      Text.tokens "x s == \"a\"" = ["x", "s", "==", "\"a\""] := by
    decide +kernel
  have hcondition : Line.parse "-break-condition 1 c == '\\n'" =
      .ok (some ⟨none, "break-condition", "1 c == '\\n'"⟩) ∧
      Text.tokens "1 c == '\\n'" = ["1", "c", "==", "'\\n'"] := by
    decide +kernel
  have hobject : b.session.object? "x" = some v := by decide +kernel
  obtain ⟨p, hp, hfind⟩ : ∃ p, b.session.stoppoint? 1 = some p ∧
      (Engine.answer (.findStoppoint p.handle) b.engine).1 = some ⟨1, .breakpoint⟩ := by
    decide +kernel
  exact ⟨htext, hsum.watch (.intro hwatch.1 rfl hwatch.2 rfl rfl),
    hsum.createVariable rfl rfl (.intro hcreate.1 rfl hcreate.2 rfl rfl),
    hstring.assign hobject (.intro hassign.1 rfl hassign.2 rfl rfl),
    hchar.setCondition (n := 1) rfl hp hfind (.intro hcondition.1 rfl hcondition.2 rfl rfl)⟩

/-- The engine gets a character that is not closed. -/
theorem Table.backslash_dropped :
    let a := Adapter.new {} ({} : Table) Discard.discard
    let words := ["c", "==", "'\\\\'"]
    Text.tokens "c == '\\\\'" = words ∧ Unquoted words ∧
    Text.joined words = "c == '\\\\'" ∧
    Kind.text.read words = (.found "c == '\\'", []) ∧
    a.told "-break-watch c == '\\\\'" =
      [.answer (.watchTarget "c == '\\'"), .create (.watchpoint ⟨0, 8⟩ false true)] := by
  intro a words
  have hline : Line.parse "-break-watch c == '\\\\'" =
      .ok (some ⟨none, "break-watch", "c == '\\\\'"⟩) ∧ Text.tokens "c == '\\\\'" = words := by
    decide +kernel
  have hwords : Unquoted words := by decide +kernel
  have hdropped : unescaped (joined words) = "c == '\\'" := by decide +kernel
  have hpasses := a.passes_unescaped hwords
  rw [hdropped] at hpasses
  exact ⟨hline.2, hwords, by decide +kernel, by decide +kernel,
    hpasses.watch (.intro hline.1 rfl hline.2 rfl rfl)⟩

end MachineInterface
