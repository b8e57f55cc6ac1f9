import Mathlib.Data.List.TakeWhile
import MachineInterface.Proofs.Unquoted

/-!
# MachineInterface.Proofs.Accounts

Where the tokens of a line go.  Each declared argument takes a run of the tokens
that it finds: its one token, a flag with its operands, a prefix, all of them, or
nothing (`Kind.Takes`).  An account of a validation lists what each argument has
taken, in the order of the declarations (`Validation.Account`).  Whether the
validation succeeds or fails, the tokens of the line are an interleaving of the
parts in its account and of the tokens that are left, so that no token is lost,
taken twice or moved across another one of its part (`validate_accounts`).
-/

namespace MachineInterface.Argument

open Text

/-! ## Interleavings -/

/-- The list takes every element from the head of one of the parts, until all parts
are used up. -/
inductive Interleaving {α : Type} : List (List α) → List α → Prop
  | nil {parts : List (List α)} (h : ∀ part ∈ parts, part = []) : Interleaving parts []
  | cons {before after : List (List α)} {x : α} {part xs : List α}
    (h : Interleaving (before ++ part :: after) xs) :
    Interleaving (before ++ (x :: part) :: after) (x :: xs)

namespace Interleaving

variable {α : Type} {parts : List (List α)} {xs before after : List α}

/-- A part without elements may be added. -/
theorem cons_nil (h : Interleaving parts xs) : Interleaving ([] :: parts) xs := by
  induction h with
  | nil h => exact .nil (List.forall_mem_cons.mpr ⟨rfl, h⟩)
  | @cons before after x part xs h ih => exact @cons α ([] :: before) after x part xs ih

theorem singleton (xs : List α) : Interleaving [xs] xs := by
  induction xs with
  | nil => exact .nil (by simp)
  | cons x xs ih => exact @cons α [] [] x xs xs ih

/-- A part may be added as a run in one place of the list. -/
theorem insert (run : List α) (h : Interleaving parts (before ++ after)) :
    Interleaving (run :: parts) (before ++ run ++ after) := by
  induction before generalizing parts with
  | nil =>
      induction run with
      | nil => exact h.cons_nil
      | cons x run ih => exact @cons α [] parts x run _ ih
  | cons x before ih =>
      generalize hxs : x :: before ++ after = xs at h
      cases h with
      | nil h => cases hxs
      | @cons front behind y part ys h =>
          obtain ⟨rfl, rfl⟩ := List.cons.inj hxs
          exact @cons α (run :: front) behind x part _ (ih h)

/-- Arguments that have taken nothing leave everything. -/
theorem untaken (as : List Argument) (rest : List String) :
    Interleaving (as.map (fun _ => []) ++ [rest]) rest := by
  induction as with
  | nil => exact singleton rest
  | cons a as ih => exact ih.cons_nil

end Interleaving

/-! ## What an argument takes -/

/-- From the tokens that it finds, an argument that is read in this way takes
`taken` and leaves the others: `kind.Takes reading tokens taken left`. -/
inductive Kind.Takes :
    (kind : Kind) → Reading kind.Value → List String → List String → List String → Prop
  | quotedText {token : String} {rest : List String} (h : quoted token = true) :
    Takes .text (.found (unquoted token)) (token :: rest) [token] rest
  /-- A text without quotes takes everything. -/
  | plainText {token : String} {rest : List String} (h : quoted token = false) :
    Takes .text (.found (unescaped (trimmed (joined (token :: rest))))) (token :: rest)
      (token :: rest) []
  | value {type : ValueType} {token : String} {value : type.Value} {rest : List String}
    (h : type.decode token = some value) :
    Takes (.value type) (.found value) (token :: rest) [token] rest
  | printValues {token : String} {value : PrintValues} {rest : List String}
    (h : PrintValues.ofToken? token = some value) :
    Takes .printValues (.found value) (token :: rest) [token] rest
  /-- A list takes a prefix, a token for each of its values. -/
  | list {type : ValueType} {max : Option Nat} {values : List type.Value}
    {taken rest : List String} (hne : taken ≠ [])
    (h : taken.map type.decode = values.map some) :
    Takes (.list type max) (.found values) (taken ++ rest) taken rest
  /-- An option takes the first of its flags and the operands behind it. -/
  | option {short long : Option String} {type : ValueType} {arity : Nat} {flag : String}
    {values : List type.Value} {before operands after : List String}
    (hbefore : ∀ token ∈ before, token ∉ Argument.flags short long)
    (hflag : flag ∈ Argument.flags short long)
    (harity : operands.length = arity) (h : operands.map type.decode = values.map some) :
    Takes (.option short long type arity) (.found values) (before ++ flag :: operands ++ after)
      (flag :: operands) (before ++ after)
  /-- An option that fails takes its flag and the operands that it has decoded. -/
  | brokenOption {short long : Option String} {type : ValueType} {arity : Nat} {flag : String}
    {values : List type.Value} {before operands after : List String} {text : String}
    (hbefore : ∀ token ∈ before, token ∉ Argument.flags short long)
    (hflag : flag ∈ Argument.flags short long)
    (harity : operands.length < arity) (h : operands.map type.decode = values.map some)
    (hafter : ∀ token ∈ after.head?, type.decode token = none) :
    Takes (.option short long type arity) (.invalid text) (before ++ flag :: operands ++ after)
      (flag :: operands) (before ++ after)
  | exhausted {kind : Kind} (h : kind.isOption = false) : Takes kind .absent [] [] []
  | unflagged {short long : Option String} {type : ValueType} {arity : Nat}
    {tokens : List String} (h : ∀ token ∈ tokens, token ∉ Argument.flags short long) :
    Takes (.option short long type arity) .absent tokens [] tokens
  /-- A positional argument leaves a token that it cannot decode. -/
  | refused {kind : Kind} {text : String} {rest : List String} (h : kind.isOption = false) :
    Takes kind (.invalid text) (text :: rest) [] (text :: rest)

variable {tokens taken left : List String} {kind : Kind} {reading : Reading kind.Value}

/-- What is taken is one run of the tokens, and the others are left in order. -/
theorem Kind.Takes.exists_run (h : kind.Takes reading tokens taken left) :
    ∃ before after, tokens = before ++ taken ++ after ∧ left = before ++ after := by
  cases h with
  | quotedText h | value h | printValues h | list hne h | exhausted h | unflagged h | refused h =>
      exact ⟨[], _, rfl, rfl⟩
  | plainText h => exact ⟨[], [], by simp, rfl⟩
  | option hbefore hflag harity h => exact ⟨_, _, rfl, rfl⟩
  | brokenOption hbefore hflag harity h hafter => exact ⟨_, _, rfl, rfl⟩

theorem Kind.Takes.interleaving {parts : List (List String)}
    (h : kind.Takes reading tokens taken left) (hleft : Interleaving parts left) :
    Interleaving (taken :: parts) tokens := by
  obtain ⟨before, after, rfl, rfl⟩ := h.exists_run
  exact hleft.insert taken

/-! ## Reading -/

/-- Reading operands decodes a prefix, which is shorter than it should be if the
reading fails. -/
theorem readOperands_cases (type : ValueType) (flag : String) (arity : Nat)
    (tokens : List String) : ∃ operands rest, tokens = operands ++ rest ∧
      ∃ values : List type.Value, operands.map type.decode = values.map some ∧
      (readOperands type flag arity tokens = (.found values, rest) ∧ operands.length = arity ∨
        ∃ text, readOperands type flag arity tokens = (.invalid text, rest) ∧
          operands.length < arity ∧ ∀ token ∈ rest.head?, type.decode token = none) := by
  fun_induction readOperands type flag arity tokens with
  | case1 tokens => exact ⟨[], tokens, rfl, [], rfl, .inl ⟨rfl, rfl⟩⟩
  | case2 arity => exact ⟨[], [], rfl, [], rfl, .inr ⟨_, rfl, Nat.succ_pos _, by simp⟩⟩
  | case3 arity token rest hdecode =>
      refine ⟨[], token :: rest, rfl, [], rfl, .inr ⟨_, rfl, Nat.succ_pos _, ?_⟩⟩
      rintro _ ⟨⟩
      exact hdecode
  | case4 arity token rest value hdecode values rest' hrest ih =>
      obtain ⟨operands, behind, rfl, values', hvalues, ⟨heq, harity⟩ | ⟨text, heq, -⟩⟩ := ih
      · rw [hrest] at heq
        cases heq
        exact ⟨token :: operands, _, rfl, value :: values, by simp [hdecode, hvalues],
          .inl ⟨rfl, by simp [harity]⟩⟩
      · rw [hrest] at heq
        cases heq
  | case5 arity token rest value hdecode reading rest' hnot hrest ih =>
      obtain ⟨operands, behind, rfl, values', hvalues, ⟨heq, -⟩ | ⟨text, heq, harity, hafter⟩⟩ := ih
      · rw [hrest] at heq
        cases heq
        exact (hnot _ rfl).elim
      · rw [hrest] at heq
        cases heq
        exact ⟨token :: operands, _, rfl, value :: values', by simp [hdecode, hvalues],
          .inr ⟨text, rfl, by simpa using harity, hafter⟩⟩

theorem decodePrefix_spec (type : ValueType) (max : Option Nat) (tokens : List String) :
    ∃ taken, tokens = taken ++ (decodePrefix type max tokens).2 ∧
      taken.map type.decode = (decodePrefix type max tokens).1.map some := by
  fun_induction decodePrefix type max tokens with
  | case1 tokens => exact ⟨[], rfl, rfl⟩
  | case2 => exact ⟨[], rfl, rfl⟩
  | case3 max token rest hmax hdecode => exact ⟨[], rfl, rfl⟩
  | case4 max token rest hmax value hdecode values rest' hrest ih =>
      rw [hrest] at ih
      obtain ⟨taken, rfl, hvalues⟩ := ih
      exact ⟨token :: taken, rfl, by simp [hdecode, hvalues]⟩

theorem exists_takes_text (tokens : List String) :
    ∃ taken, Kind.text.Takes (Kind.text.read tokens).1 tokens taken (Kind.text.read tokens).2 := by
  cases tokens with
  | nil => exact ⟨[], .exhausted rfl⟩
  | cons token rest =>
      cases hquoted : quoted token with
      | true =>
          rw [read_text_of_quoted hquoted]
          exact ⟨_, .quotedText hquoted⟩
      | false =>
          rw [read_text_of_unquoted hquoted]
          exact ⟨_, .plainText hquoted⟩

/-- An argument that decodes the token in front takes it, or nothing. -/
theorem exists_takes_readFront (hkind : kind.isOption = false)
    {decode : String → Option kind.Value}
    (hfound : ∀ {token value rest}, decode token = some value →
      kind.Takes (.found value) (token :: rest) [token] rest) (tokens : List String) :
    ∃ taken, kind.Takes (readFront decode tokens).1 tokens taken (readFront decode tokens).2 := by
  cases tokens with
  | nil => exact ⟨[], .exhausted hkind⟩
  | cons token rest =>
      rw [readFront]
      cases hdecode : decode token with
      | none => exact ⟨[], .refused hkind⟩
      | some value => exact ⟨_, hfound hdecode⟩

theorem exists_takes_option (short long : Option String) (type : ValueType) (arity : Nat)
    (tokens : List String) :
    ∃ taken, (Kind.option short long type arity).Takes
      (readOption (flags short long) type arity tokens).1 tokens taken
      (readOption (flags short long) type arity tokens).2 := by
  have hbefore : ∀ token ∈ tokens.takeWhile (· ∉ flags short long), token ∉ flags short long :=
    fun token htoken => by simpa using List.mem_takeWhile_imp htoken
  have hall := List.takeWhile_append_dropWhile (p := (· ∉ flags short long)) (l := tokens)
  have hhead := List.head?_dropWhile_not (· ∉ flags short long) tokens
  rw [readOption]
  generalize tokens.takeWhile (· ∉ flags short long) = before at hbefore hall ⊢
  cases hdrop : tokens.dropWhile (· ∉ flags short long) with
  | nil =>
      rw [hdrop, List.append_nil] at hall
      rw [hall] at hbefore
      exact ⟨[], .unflagged hbefore⟩
  | cons flag operands =>
      rw [hdrop] at hall hhead
      have hflag : flag ∈ flags short long := by simpa using hhead
      obtain ⟨taken, after, rfl, values, hvalues,
          ⟨hread, harity⟩ | ⟨text, hread, harity, hafter⟩⟩ :=
        readOperands_cases type flag arity operands
      · have htokens : tokens = before ++ flag :: taken ++ after := by simp [← hall]
        simp only [hread, htokens]
        exact ⟨_, .option hbefore hflag harity hvalues⟩
      · have htokens : tokens = before ++ flag :: taken ++ after := by simp [← hall]
        simp only [hread, htokens]
        exact ⟨_, .brokenOption hbefore hflag harity hvalues hafter⟩

theorem exists_takes_list (type : ValueType) (max : Option Nat) (tokens : List String) :
    ∃ taken, (Kind.list type max).Takes (readList type max tokens).1 tokens taken
      (readList type max tokens).2 := by
  obtain ⟨taken, htokens, hvalues⟩ := decodePrefix_spec type max tokens
  unfold readList
  split
  · split
    · exact ⟨[], .exhausted rfl⟩
    · exact ⟨[], .refused rfl⟩
  · next values rest hnone hdecode =>
    rw [hdecode] at htokens hvalues
    have hne : taken ≠ [] := by
      rintro rfl
      obtain rfl : values = [] := List.map_eq_nil_iff.mp hvalues.symm
      exact hnone rfl
    rw [htokens]
    exact ⟨taken, .list hne hvalues⟩

/-- **Every argument** takes what its reading tells. -/
theorem Kind.exists_takes (h : kind.read tokens = (reading, left)) :
    ∃ taken, kind.Takes reading tokens taken left := by
  suffices htakes : ∃ taken, kind.Takes (kind.read tokens).1 tokens taken (kind.read tokens).2 by
    rwa [h] at htakes
  cases kind with
  | text => exact exists_takes_text tokens
  | value type => exact exists_takes_readFront rfl Takes.value tokens
  | printValues => exact exists_takes_readFront rfl Takes.printValues tokens
  | option short long type arity => exact exists_takes_option short long type arity tokens
  | list type max => exact exists_takes_list type max tokens

/-! ## Accounts -/

/-- What each argument of a validation has taken from the tokens.  An argument that
is left out has taken nothing, and behind a failure nothing is taken. -/
inductive Validation.Account :
    {as : List Argument} → Validation as → List String → List (List String) → Prop
  | complete {rest : List String} : Account (.complete rest) rest []
  | found {a : Argument} {as : List Argument} {value : a.kind.Value} {next : Validation as}
    {tokens taken left : List String} {parts : List (List String)}
    (h : a.kind.Takes (.found value) tokens taken left) (hnext : Account next left parts) :
    Account (.found value next) tokens (taken :: parts)
  | absent {a : Argument} {as : List Argument} {ha : a.mandatory = false} {next : Validation as}
    {tokens : List String} {parts : List (List String)}
    (h : a.kind.Takes .absent tokens [] tokens) (hnext : Account next tokens parts) :
    Account (.omitted ha next) tokens ([] :: parts)
  /-- A positional argument that may be left out cannot decode the token in front. -/
  | refused {a : Argument} {as : List Argument} {ha : a.mandatory = false} {next : Validation as}
    {text : String} {tokens : List String} {parts : List (List String)}
    (hkind : a.kind.isOption = false) (h : a.kind.Takes (.invalid text) tokens [] tokens)
    (hnext : Account next tokens parts) : Account (.omitted ha next) tokens ([] :: parts)
  | missing {a : Argument} {as : List Argument} {tokens : List String}
    (ha : a.mandatory = true) (h : a.kind.Takes .absent tokens [] tokens) :
    Account (.missing tokens : Validation (a :: as)) tokens ([] :: as.map fun _ => [])
  | invalid {a : Argument} {as : List Argument} {text : String} {tokens taken left : List String}
    (h : a.kind.Takes (.invalid text) tokens taken left) :
    Account (.invalid text left : Validation (a :: as)) tokens (taken :: as.map fun _ => [])

namespace Validation.Account

variable {as : List Argument} {v : Validation as} {tokens : List String}
  {parts : List (List String)}

theorem length_eq (h : Account v tokens parts) : parts.length = as.length := by
  induction h with
  | complete => rfl
  | found h hnext ih | absent h hnext ih | refused hkind h hnext ih => exact congrArg (· + 1) ih
  | missing ha h => simp
  | invalid h => simp

/-- The parts and the tokens that are left make up the tokens. -/
theorem interleaving (h : Account v tokens parts) :
    Interleaving (parts ++ [v.rest]) tokens := by
  induction h with
  | complete => exact .singleton _
  | found h hnext ih | absent h hnext ih | refused hkind h hnext ih => exact h.interleaving ih
  | missing ha h => exact h.interleaving (.untaken _ _)
  | invalid h => exact h.interleaving (.untaken _ _)

end Validation.Account

theorem Kind.Takes.of_absent (h : kind.Takes .absent tokens taken left) :
    taken = [] ∧ left = tokens := by
  cases h with
  | exhausted h => exact ⟨rfl, rfl⟩
  | unflagged h => exact ⟨rfl, rfl⟩

theorem Kind.Takes.of_invalid {text : String} (h : kind.Takes (.invalid text) tokens taken left)
    (hkind : kind.isOption = false) : taken = [] ∧ left = tokens := by
  cases h with
  | brokenOption hbefore hflag harity h hafter => cases hkind
  | refused h => exact ⟨rfl, rfl⟩

/-- Every validation has an account. -/
theorem exists_account (as : List Argument) (tokens : List String) :
    ∃ parts, (validate as tokens).Account tokens parts := by
  fun_induction validate as tokens with
  | case1 tokens => exact ⟨[], .complete⟩
  | case2 a as tokens value rest hread ih =>
      obtain ⟨parts, hnext⟩ := ih
      obtain ⟨taken, h⟩ := Kind.exists_takes hread
      exact ⟨taken :: parts, .found h hnext⟩
  | case3 a as tokens rest hread ha ih =>
      obtain ⟨parts, hnext⟩ := ih
      obtain ⟨taken, h⟩ := Kind.exists_takes hread
      obtain ⟨rfl, rfl⟩ := h.of_absent
      exact ⟨[] :: parts, .absent h hnext⟩
  | case4 a as tokens rest hread ha =>
      obtain ⟨taken, h⟩ := Kind.exists_takes hread
      obtain ⟨rfl, rfl⟩ := h.of_absent
      exact ⟨_, .missing (by simpa using ha) h⟩
  | case5 a as tokens text rest hread ha ih =>
      obtain ⟨parts, hnext⟩ := ih
      obtain ⟨taken, h⟩ := Kind.exists_takes hread
      obtain ⟨rfl, rfl⟩ := h.of_invalid ha.2
      exact ⟨[] :: parts, .refused ha.2 h hnext⟩
  | case6 a as tokens text rest hread ha =>
      obtain ⟨taken, h⟩ := Kind.exists_takes hread
      exact ⟨_, .invalid h⟩

/-- **No token is lost, repeated or moved.**  Whatever arguments are declared and
whatever the tokens are, the validation has an account of what each argument has
taken, also if it fails, and the tokens are an interleaving of these parts and of
the tokens that are left. -/
theorem validate_accounts (as : List Argument) (tokens : List String) :
    ∃ parts, (validate as tokens).Account tokens parts ∧ parts.length = as.length ∧
      Interleaving (parts ++ [(validate as tokens).rest]) tokens := by
  obtain ⟨parts, h⟩ := exists_account as tokens
  exact ⟨parts, h, h.length_eq, h.interleaving⟩

end MachineInterface.Argument
