import Mathlib.Logic.Relation
import Mathlib.Order.Bounds.Basic
import MachineInterface.Proofs.Accounts

/-!
# MachineInterface.Proofs.Lists

Arguments that are lists.  A list is collected value by value: while there is room for
one more, the tokens are read as an argument of the value type, and the first reading
that finds no value ends the list (`Collection.Next`, `Collection.Last`).  Whatever the
value type is, a reading that finds a value takes the token in front and looks at no
other, and one that finds none takes nothing.  So the collecting ends, it ends in one way
only, which is the one that `decodePrefix` computes (`Collection.ends_iff`), and the
list holds the longest prefix of tokens that are values each on its own, up to the
largest count (`list_takes_longest_prefix`).
-/

namespace MachineInterface.Argument

open Relation (ReflTransGen)

variable {type : ValueType} {max : Option Nat} {tokens taken left : List String}

/-! ## Tokens that are values -/

/-- A token that stands alone is read as this value. -/
def Alone (type : ValueType) (token : String) (value : type.Value) : Prop :=
  (Kind.value type).read [token] = (.found value, [])

/-- The longest prefix of tokens that are values has `n` of them. -/
def IsLongest (type : ValueType) (tokens : List String) (n : Nat) : Prop :=
  IsGreatest {k | k ≤ tokens.length ∧ ∀ token ∈ tokens.take k, ∃ value, Alone type token value} n

/-- A length, but no more than the largest count. -/
def capped (max : Option Nat) (n : Nat) : Nat := max.elim n (min n)

theorem capped_of_le {n : Nat} (h : ∀ m ∈ max, n ≤ m) : capped max n = n := by
  cases max with
  | none => rfl
  | some m => exact Nat.min_eq_left (h m rfl)

theorem alone_iff {token : String} {value : type.Value} :
    Alone type token value ↔ type.decode token = some value := by
  change readFront type.decode [token] = _ ↔ _
  rw [readFront]
  cases type.decode token <;> simp

/-- A reading finds a value where the token in front is one; it takes this token. -/
theorem read_value_eq_found_iff {value : type.Value} :
    (Kind.value type).read tokens = (.found value, left) ↔
      ∃ token, tokens = token :: left ∧ Alone type token value := by
  constructor
  · intro h
    obtain ⟨taken, htakes⟩ := Kind.exists_takes h
    cases htakes with
    | value hdecode => exact ⟨_, rfl, alone_iff.mpr hdecode⟩
  · rintro ⟨token, rfl, halone⟩
    exact read_value_of_decode (alone_iff.mp halone) left

/-- A reading that finds no value takes nothing. -/
theorem eq_of_read_value {reading : Reading type.Value}
    (h : (Kind.value type).read tokens = (reading, left))
    (hreading : ∀ value, reading ≠ .found value) : left = tokens := by
  obtain ⟨taken, htakes⟩ := Kind.exists_takes h
  cases htakes with
  | value hdecode => exact (hreading _ rfl).elim
  | exhausted | refused => rfl

/-- Values in front of the end, or of a token that is none, are the longest prefix. -/
theorem isLongest_of_append
    (htaken : ∀ token ∈ taken, ∃ value, Alone type token value)
    (hleft : ∀ token ∈ left.head?, ∀ value, ¬ Alone type token value) :
    IsLongest type (taken ++ left) taken.length := by
  refine ⟨⟨by simp, by rwa [List.take_left]⟩, ?_⟩
  rintro k ⟨hk, hvalues⟩
  cases left with
  | nil => simpa using hk
  | cons token left =>
      -- A longer prefix would reach the first token that is left.
      refine Nat.le_of_not_lt fun hlt => ?_
      have hlength : (taken ++ [token]).length ≤ k := by
        rw [List.length_append]
        exact hlt
      have hinit : taken ++ [token] <+: (taken ++ token :: left).take k :=
        List.prefix_take_iff.mpr ⟨by simp, hlength⟩
      obtain ⟨value, hvalue⟩ := hvalues token (hinit.subset (by simp))
      exact hleft token rfl value hvalue

/-! ## Decoding -/

theorem decodePrefix_of_decode {token : String} {value : type.Value} (hmax : max ≠ some 0)
    (h : type.decode token = some value) (left : List String) :
    decodePrefix type max (token :: left) =
      (value :: (decodePrefix type (max.map (· - 1)) left).1,
        (decodePrefix type (max.map (· - 1)) left).2) := by
  rw [decodePrefix.eq_3 _ _ _ _ (by simpa using hmax), h]

theorem decodePrefix_eq_nil (h : max = some 0 ∨ ∀ token ∈ tokens.head?, type.decode token = none) :
    decodePrefix type max tokens = ([], tokens) := by
  by_cases hmax : max = some 0
  · rw [hmax, decodePrefix]
  · cases tokens with
    | nil => rw [decodePrefix.eq_2 _ _ (by simpa using hmax)]
    | cons token left =>
        have hdecode := h.resolve_left hmax token rfl
        rw [decodePrefix.eq_3 _ _ _ _ (by simpa using hmax), hdecode]

/-! ## Collecting -/

/-- A list that is being collected: the values so far, and the tokens that are left. -/
structure Collection (type : ValueType) where
  values : List type.Value := []
  tokens : List String

namespace Collection

variable {c d : Collection type}

/-- The list is shorter than the largest count. -/
def HasRoom (max : Option Nat) (c : Collection type) : Prop :=
  ∀ m ∈ max, c.values.length < m

theorem hasRoom_none (c : Collection type) : c.HasRoom none := by simp [HasRoom]

/-- There is room for a value, and one is read. -/
inductive Next (max : Option Nat) (c : Collection type) : Collection type → Prop
  | intro {value : type.Value} {left : List String} (hroom : c.HasRoom max)
    (hread : (Kind.value type).read c.tokens = (.found value, left)) :
    Next max c ⟨c.values ++ [value], left⟩

/-- The list gets no more values; what a reading without a value leaves is left. -/
inductive Last (max : Option Nat) (c : Collection type) : Collection type → Prop
  | full (hroom : ¬ c.HasRoom max) : Last max c c
  | unread {reading : Reading type.Value} {left : List String} (hroom : c.HasRoom max)
    (hread : (Kind.value type).read c.tokens = (reading, left))
    (hreading : ∀ value, reading ≠ .found value) : Last max c ⟨c.values, left⟩

/-- Collecting may go on from the one and end with the other. -/
def Ends (max : Option Nat) (c last : Collection type) : Prop :=
  ∃ e, ReflTransGen (Next max) c e ∧ e.Last max last

/-! ### It ends -/

theorem Next.length_lt (h : c.Next max d) : d.tokens.length < c.tokens.length := by
  cases h with
  | intro hroom hread =>
      obtain ⟨token, htokens, -⟩ := read_value_eq_found_iff.mp hread
      simp [htokens]

theorem next_or_last (max : Option Nat) (c : Collection type) :
    (∃ d, c.Next max d) ∨ ∃ d, c.Last max d := by
  by_cases hroom : c.HasRoom max
  · cases hread : (Kind.value type).read c.tokens with
    | mk reading left =>
        cases reading with
        | found value => exact .inl ⟨_, .intro hroom hread⟩
        | absent => exact .inr ⟨_, .unread hroom hread (by simp)⟩
        | invalid text => exact .inr ⟨_, .unread hroom hread (by simp)⟩
  · exact .inr ⟨c, .full hroom⟩

/-- There are fewer tokens with every value, so the values come to an end. -/
theorem acc_next (max : Option Nat) (c : Collection type) :
    Acc (fun next c : Collection type => c.Next max next) c := by
  induction hlength : c.tokens.length using Nat.strongRecOn generalizing c with
  | ind length ih =>
      refine ⟨_, fun d hnext => ?_⟩
      exact ih d.tokens.length (hlength ▸ hnext.length_lt) d rfl

theorem exists_ends (max : Option Nat) (c : Collection type) : ∃ last, c.Ends max last := by
  induction acc_next max c with
  | intro c _ ih =>
      obtain ⟨d, hnext⟩ | ⟨last, hlast⟩ := next_or_last max c
      · obtain ⟨last, e, hrun, hlast⟩ := ih d hnext
        exact ⟨last, e, .head hnext hrun, hlast⟩
      · exact ⟨last, c, .refl, hlast⟩

/-! ### How it ends -/

/-- The collection with all values that can still be decoded. -/
def result (max : Option Nat) (c : Collection type) : Collection type where
  values := c.values ++ (decodePrefix type (max.map (· - c.values.length)) c.tokens).1
  tokens := (decodePrefix type (max.map (· - c.values.length)) c.tokens).2

theorem hasRoom_iff : c.HasRoom max ↔ max.map (· - c.values.length) ≠ some 0 := by
  cases max with
  | none => simp [HasRoom]
  | some m =>
      simp only [HasRoom, Option.mem_some_iff, forall_eq', Option.map_some, ne_eq,
        Option.some.injEq]
      omega

/-- One more value does not change the result. -/
theorem Next.result_eq (h : c.Next max d) : d.result max = c.result max := by
  cases h with
  | @intro value left hroom hread =>
      obtain ⟨token, htokens, halone⟩ := read_value_eq_found_iff.mp hread
      have hdecode := decodePrefix_of_decode (hasRoom_iff.mp hroom) (alone_iff.mp halone) left
      simp only [result, htokens, hdecode, List.append_assoc, List.singleton_append,
        List.length_append, List.length_singleton, Option.map_map, Function.comp_def, Nat.sub_sub]

/-- No value is left to be read: the list has reached the largest count, or stands in front
of the end or of a token that is none. -/
def Complete (max : Option Nat) (c : Collection type) : Prop :=
  ¬ c.HasRoom max ∨ ∀ token ∈ c.tokens.head?, ∀ value, ¬ Alone type token value

/-- A list ends as it is where it is complete. -/
theorem Last.complete (h : c.Last max d) : d = c ∧ c.Complete max := by
  cases h with
  | full hroom => exact ⟨rfl, .inl hroom⟩
  | @unread reading left hroom hread hreading =>
      obtain rfl := eq_of_read_value hread hreading
      refine ⟨rfl, .inr fun token htoken value halone => ?_⟩
      obtain ⟨rest, htokens⟩ := List.head?_eq_some_iff.mp (Option.mem_def.mp htoken)
      have hfound := read_value_eq_found_iff.mpr ⟨token, htokens, halone⟩
      exact hreading value (congrArg Prod.fst (hread.symm.trans hfound))

theorem Complete.result_eq (h : c.Complete max) : c.result max = c := by
  have hnil : decodePrefix type (max.map (· - c.values.length)) c.tokens = ([], c.tokens) := by
    refine decodePrefix_eq_nil (h.imp (fun hroom => ?_) fun hleft token htoken => ?_)
    · rwa [hasRoom_iff, not_not] at hroom
    · rw [Option.eq_none_iff_forall_ne_some]
      exact fun value hvalue => hleft token htoken value (alone_iff.mpr hvalue)
  simp [result, hnil]

theorem Ends.eq_result (h : c.Ends max d) : d = c.result max := by
  obtain ⟨e, hrun, hlast⟩ := h
  obtain ⟨rfl, hcomplete⟩ := hlast.complete
  induction hrun using ReflTransGen.head_induction_on with
  | refl => exact hcomplete.result_eq.symm
  | head hnext _ ih => rw [ih, hnext.result_eq]

/-- Collecting ends in one way only. -/
theorem ends_iff : c.Ends max d ↔ d = c.result max := by
  constructor
  · exact Ends.eq_result
  · rintro rfl
    obtain ⟨last, hends⟩ := exists_ends max c
    exact hends.eq_result ▸ hends

/-! ### What it ends with -/

/-- The values are those of the tokens that were taken, and no more than the largest count. -/
structure Collected (max : Option Nat) (tokens taken : List String) (c : Collection type) :
    Prop where
  tokens_eq : tokens = taken ++ c.tokens
  values : List.Forall₂ (Alone type) taken c.values
  length_le : ∀ m ∈ max, c.values.length ≤ m

theorem collected_nil (max : Option Nat) (tokens : List String) :
    Collected max tokens [] ({ tokens } : Collection type) where
  tokens_eq := rfl
  values := .nil
  length_le _ _ := Nat.zero_le _

/-- One more value comes with one more token. -/
theorem Next.collected (h : c.Next max d) (hc : c.Collected max tokens taken) :
    ∃ token, d.Collected max tokens (taken ++ [token]) := by
  cases h with
  | intro hroom hread =>
      obtain ⟨token, htokens, halone⟩ := read_value_eq_found_iff.mp hread
      refine ⟨token, ?_, ?_, fun m hm => ?_⟩
      · rw [hc.tokens_eq, htokens, List.append_assoc, List.singleton_append]
      · exact List.rel_append hc.values (.cons halone .nil)
      · rw [List.length_append, List.length_singleton]
        exact hroom m hm

theorem Ends.collected (h : c.Ends max d) (hc : c.Collected max tokens taken) :
    d.Complete max ∧ ∃ taken, d.Collected max tokens taken := by
  obtain ⟨e, hrun, hlast⟩ := h
  obtain ⟨rfl, hcomplete⟩ := hlast.complete
  refine ⟨hcomplete, ?_⟩
  clear hcomplete hlast
  induction hrun with
  | refl => exact ⟨taken, hc⟩
  | tail _ hnext ih =>
      obtain ⟨taken, hmiddle⟩ := ih
      obtain ⟨token, hcollected⟩ := hnext.collected hmiddle
      exact ⟨_, hcollected⟩

theorem Collected.forall_taken (h : c.Collected max tokens taken) :
    ∀ token ∈ taken, ∃ value, Alone type token value := by
  obtain ⟨-, hvalues, -⟩ := h
  generalize c.values = values at hvalues
  induction hvalues with
  | nil => simp
  | cons halone _ ih => exact List.forall_mem_cons.mpr ⟨⟨_, halone⟩, ih⟩

theorem Collected.isLongest (h : c.Collected max tokens taken)
    (hleft : ∀ token ∈ c.tokens.head?, ∀ value, ¬ Alone type token value) :
    IsLongest type tokens taken.length := by
  rw [h.tokens_eq]
  exact isLongest_of_append h.forall_taken hleft

/-- A complete list has taken the longest prefix. -/
theorem Collected.length_eq {n : Nat} (h : c.Collected max tokens taken)
    (hcomplete : c.Complete max) (hn : IsLongest type tokens n) : taken.length = capped max n := by
  have hle : taken.length ≤ n := by
    refine hn.2 ⟨by simp [h.tokens_eq], ?_⟩
    rw [h.tokens_eq, List.take_left]
    exact h.forall_taken
  have hlength := h.values.length_eq
  obtain hroom | hleft := hcomplete
  · cases max with
    | none => exact (hroom (hasRoom_none c)).elim
    | some m =>
        have hm := h.length_le m rfl
        have hfull : m ≤ c.values.length := by simpa [HasRoom] using hroom
        rw [capped, Option.elim_some]
        omega
  · obtain rfl := (h.isLongest hleft).unique hn
    rw [capped_of_le]
    rw [hlength]
    exact h.length_le

end Collection

/-- Without a largest count, collecting finds the longest prefix. -/
theorem exists_isLongest (type : ValueType) (tokens : List String) :
    ∃ n, IsLongest type tokens n := by
  obtain ⟨last, hends⟩ := Collection.exists_ends none ({ tokens } : Collection type)
  obtain ⟨hcomplete, taken, hcollected⟩ := hends.collected (Collection.collected_nil none tokens)
  have hleft := hcomplete.resolve_left (not_not_intro last.hasRoom_none)
  exact ⟨_, hcollected.isLongest hleft⟩

/-! ## Reading -/

/-- A list is found with the values that can be decoded, if there are any. -/
theorem read_list_cases {values : List type.Value}
    (h : decodePrefix type max tokens = (values, left)) :
    0 < values.length ∧ (Kind.list type max).read tokens = (.found values, left) ∨
      values.length = 0 ∧
        (Kind.list type max).read tokens = (tokens.head?.elim .absent .invalid, tokens) := by
  simp only [Kind.read, readList, h]
  cases values with
  | nil => cases tokens <;> exact .inr ⟨rfl, rfl⟩
  | cons value values => exact .inl ⟨Nat.succ_pos _, rfl⟩

/-- **A list takes the longest prefix of values.**  Whatever the value type, the largest
count and the tokens are, collecting values goes on only finitely often, and it ends in one
way: with the values of the `k` tokens in front and with the tokens behind these, where `k`
is the length of the longest prefix of tokens that are values each on its own, or the
largest count if that is less.  The list is found with these values unless there are none;
then all tokens are left, and the token in front, if there is one, is what is wrong. -/
theorem list_takes_longest_prefix (type : ValueType) (max : Option Nat) (tokens : List String) :
    let start : Collection type := { tokens }
    Acc (fun next c : Collection type => c.Next max next) start ∧
    ∃ longest values, IsLongest type tokens longest ∧
      let k := capped max longest
      List.Forall₂ (Alone type) (tokens.take k) values ∧
      (∀ last, start.Ends max last ↔ last = ⟨values, tokens.drop k⟩) ∧
      (0 < k ∧ (Kind.list type max).read tokens = (.found values, tokens.drop k) ∨
        k = 0 ∧ (Kind.list type max).read tokens =
          (tokens.head?.elim .absent .invalid, tokens)) := by
  intro start
  obtain ⟨longest, hlongest⟩ := exists_isLongest type tokens
  obtain ⟨⟨values, left⟩, hends⟩ := Collection.exists_ends max start
  obtain ⟨hcomplete, taken, hcollected⟩ := hends.collected (Collection.collected_nil max tokens)
  have hk : taken.length = capped max longest := hcollected.length_eq hcomplete hlongest
  have hvalues : values.length = capped max longest := by rw [← hcollected.values.length_eq, hk]
  have htake : tokens.take (capped max longest) = taken := by
    rw [← hk, hcollected.tokens_eq, List.take_left]
  have hdrop : tokens.drop (capped max longest) = left := by
    rw [← hk, hcollected.tokens_eq, List.drop_left]
  have hresult := hends.eq_result
  have hdecode : decodePrefix type max tokens = (values, left) := by
    simpa [Collection.result, start, Prod.ext_iff] using hresult.symm
  refine ⟨Collection.acc_next max start, longest, values, hlongest, ?_, ?_, ?_⟩
  · rw [htake]
    exact hcollected.values
  · intro last
    rw [Collection.ends_iff, ← hresult, hdrop]
  · rw [hdrop, ← hvalues]
    exact read_list_cases hdecode

/-- The list ends in front of the first token that is no number. -/
example : (Kind.list .number none).read ["1", "2", "3", "x", "4"] =
    (.found [1, 2, 3], ["x", "4"]) := by
  decide

end MachineInterface.Argument
