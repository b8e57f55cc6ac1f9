import MachineInterface.Proofs.Quoting

/-!
# MachineInterface.Proofs.Options

Options may stand anywhere.  A token list for declared arguments consists of
blocks, each of them a flag with its operands, and of words for the positional
arguments (`Piece`).  Blocks are taken out one by one, in the order of
declaration, each from the middle of the tokens that are left; what becomes of
the arguments is what the blocks and the words say, wherever the blocks stand
(`validate_spread`, `options_anywhere`).  Only where a mandatory option is
missing, the tokens that are left are not all words.
-/

namespace MachineInterface.Argument

/-! ## Pieces -/

/-- A flag and the tokens that belong to it. -/
structure Block where
  flag : String
  operands : List String
deriving DecidableEq, Repr

/-- A part of a token list. -/
inductive Piece
  | block (b : Block)
  /-- A token for the positional arguments. -/
  | word (token : String)
deriving DecidableEq, Repr

namespace Piece

def tokens : Piece → List String
  | block b => b.flag :: b.operands
  | word token => [token]

def block? : Piece → Option Block
  | block b => some b
  | word _ => none

def word? : Piece → Option String
  | block _ => none
  | word token => some token

end Piece

/-- The token list that the pieces make up. -/
def spread (pieces : List Piece) : List String := pieces.flatMap Piece.tokens

def blocks (pieces : List Piece) : List Block := pieces.filterMap Piece.block?

def words (pieces : List Piece) : List String := pieces.filterMap Piece.word?

/-- The flags of an argument; only options have any. -/
def Kind.flags : Kind → List String
  | .option short long _ _ => Argument.flags short long
  | _ => []

/-- The block is one for the option: the flag is the option's, and the operands
are as many as the option takes and can be decoded. -/
def Kind.Accepts : Kind → Block → Prop
  | .option short long type arity, b =>
    b.flag ∈ Argument.flags short long ∧ b.operands.length = arity ∧
      ∀ token ∈ b.operands, (type.decode token).isSome = true
  | _, _ => False

instance (kind : Kind) (b : Block) : Decidable (kind.Accepts b) :=
  match kind with
  | .option .. => inferInstanceAs (Decidable (_ ∧ _ ∧ _))
  | .text | .value _ | .printValues | .list .. => .isFalse id

/-- The value that an option has in its block, if there is one. -/
def Kind.given : (kind : Kind) → List Block → Option kind.Value
  | .option short long type _, bs =>
    (bs.find? (·.flag ∈ Argument.flags short long)).bind fun b => b.operands.mapM type.decode
  | _, _ => none

/-- The piece is no block with one of the flags. -/
def Piece.isApart (flags : List String) : Piece → Bool
  | block b => b.flag ∉ flags
  | word _ => true

/-- The pieces without the blocks of these flags. -/
def without (flags : List String) (pieces : List Piece) : List Piece :=
  pieces.filter (Piece.isApart flags)

/-- Give each option its block, and run the positional arguments on the words. -/
def deal (positionals : List Argument) :
    (options : List Argument) → List Piece → Validation (options ++ positionals)
  | [], pieces => validate positionals (words pieces)
  | o :: options, pieces =>
    let others := without o.kind.flags pieces
    match o.kind.given (blocks pieces) with
    | some value => .found value (deal positionals options others)
    | none =>
      if h : o.mandatory = false then .omitted h (deal positionals options others)
      else .missing (spread pieces)

/-- The pieces are blocks of the options, at most one for each, and words.  No
two options have a flag in common, and no operand or word is a flag. -/
structure Arranged (options : List Argument) (pieces : List Piece) : Prop where
  isOption : ∀ o ∈ options, o.kind.isOption = true
  disjoint : options.Pairwise fun o o' => ∀ flag ∈ o.kind.flags, flag ∉ o'.kind.flags
  accepted : ∀ b ∈ blocks pieces, ∃ o ∈ options, o.kind.Accepts b
  once : ∀ o ∈ options, ((blocks pieces).filter (·.flag ∈ o.kind.flags)).length ≤ 1
  operands : ∀ b ∈ blocks pieces, ∀ token ∈ b.operands, ∀ o ∈ options, token ∉ o.kind.flags
  words : ∀ token ∈ words pieces, ∀ o ∈ options, token ∉ o.kind.flags

/-- The option may be left out, or one of the blocks is its own. -/
def Supplied (bs : List Block) (o : Argument) : Prop :=
  o.mandatory = true → ∃ b ∈ bs, b.flag ∈ o.kind.flags

/-! ## Blocks and words -/

variable {kind : Kind} {o : Argument} {options positionals : List Argument} {b : Block}
  {bs bs' : List Block} {flags : List String} {pieces pieces' : List Piece}

@[simp] theorem blocks_block (b : Block) (pieces : List Piece) :
    blocks (.block b :: pieces) = b :: blocks pieces :=
  rfl

@[simp] theorem blocks_word (token : String) (pieces : List Piece) :
    blocks (.word token :: pieces) = blocks pieces :=
  rfl

@[simp] theorem words_block (b : Block) (pieces : List Piece) :
    words (.block b :: pieces) = words pieces :=
  rfl

@[simp] theorem words_word (token : String) (pieces : List Piece) :
    words (.word token :: pieces) = token :: words pieces :=
  rfl

@[simp] theorem blocks_append (pieces pieces' : List Piece) :
    blocks (pieces ++ pieces') = blocks pieces ++ blocks pieces' :=
  List.filterMap_append

@[simp] theorem spread_cons (piece : Piece) (pieces : List Piece) :
    spread (piece :: pieces) = piece.tokens ++ spread pieces :=
  List.flatMap_cons

@[simp] theorem spread_append (pieces pieces' : List Piece) :
    spread (pieces ++ pieces') = spread pieces ++ spread pieces' :=
  List.flatMap_append

theorem mem_spread {token : String} (h : token ∈ spread pieces) :
    token ∈ words pieces ∨ ∃ b ∈ blocks pieces, token = b.flag ∨ token ∈ b.operands := by
  induction pieces with
  | nil => cases h
  | cons piece pieces ih =>
      rw [spread_cons, List.mem_append] at h
      cases piece with
      | word word =>
          rw [words_word, blocks_word, List.mem_cons]
          obtain h | h := h
          · exact .inl (.inl (List.mem_singleton.mp h))
          · exact (ih h).imp_left .inr
      | block b =>
          rw [words_block, blocks_block]
          obtain h | h := h
          · exact .inr ⟨b, List.mem_cons_self, List.mem_cons.mp h⟩
          · refine (ih h).imp_right ?_
            rintro ⟨b', hb', htoken⟩
            exact ⟨b', List.mem_cons_of_mem b hb', htoken⟩

/-- Pieces without a block are words. -/
theorem spread_eq_words (h : blocks pieces = []) : spread pieces = words pieces := by
  induction pieces with
  | nil => rfl
  | cons piece pieces ih =>
      cases piece with
      | word token => exact congrArg (token :: ·) (ih h)
      | block b => cases h

/-! ## Taking blocks out -/

theorem blocks_without (flags : List String) (pieces : List Piece) :
    blocks (without flags pieces) = (blocks pieces).filter (·.flag ∉ flags) := by
  induction pieces with
  | nil => rfl
  | cons piece pieces ih =>
      cases piece with
      | word token => exact ih
      | block b =>
          by_cases hb : b.flag ∈ flags
          · simpa [without, Piece.isApart, hb] using ih
          · simpa [without, Piece.isApart, hb] using ih

theorem words_without (flags : List String) (pieces : List Piece) :
    words (without flags pieces) = words pieces := by
  induction pieces with
  | nil => rfl
  | cons piece pieces ih =>
      cases piece with
      | word token => exact congrArg (token :: ·) ih
      | block b =>
          by_cases hb : b.flag ∈ flags
          · simpa [without, Piece.isApart, hb] using ih
          · simpa [without, Piece.isApart, hb] using ih

/-- Where there is no block of the flags, nothing is taken out. -/
theorem without_eq_self (h : ∀ b ∈ blocks pieces, b.flag ∉ flags) :
    without flags pieces = pieces := by
  refine List.filter_eq_self.mpr fun piece hpiece => ?_
  cases piece with
  | word token => rfl
  | block b =>
      have hb := h b (List.mem_filterMap.mpr ⟨.block b, hpiece, rfl⟩)
      simpa [Piece.isApart] using hb

/-- Around the only block of the flags there are pieces that stay. -/
theorem exists_split (hb : b ∈ blocks pieces) (hflag : b.flag ∈ flags)
    (honce : ((blocks pieces).filter (·.flag ∈ flags)).length ≤ 1) :
    ∃ before after, pieces = before ++ .block b :: after ∧
      without flags pieces = before ++ after ∧ ∀ b' ∈ blocks before, b'.flag ∉ flags := by
  obtain ⟨piece, hpiece, hblock⟩ := List.mem_filterMap.mp hb
  cases piece with
  | word token => cases hblock
  | block b' =>
      obtain rfl : b' = b := Option.some.inj hblock
      obtain ⟨before, after, rfl⟩ := List.append_of_mem hpiece
      simp only [blocks_append, blocks_block, List.filter_append, List.filter_cons, hflag,
        decide_true, if_true, List.length_append, List.length_cons] at honce
      have hnone : ∀ pieces : List Piece,
          ((blocks pieces).filter (·.flag ∈ flags)).length = 0 →
            ∀ b ∈ blocks pieces, b.flag ∉ flags := by
        intro pieces hlength b hb hflag
        rw [List.length_eq_zero_iff, List.filter_eq_nil_iff] at hlength
        exact hlength b hb (by simpa using hflag)
      have hbefore := hnone before (by omega)
      have hafter := hnone after (by omega)
      refine ⟨before, after, rfl, ?_, hbefore⟩
      have hsides : without flags (before ++ .block b' :: after) =
          without flags before ++ without flags after := by
        simp [without, Piece.isApart, hflag]
      rw [hsides, without_eq_self hbefore, without_eq_self hafter]

/-! ## Reading an option -/

theorem readOperands_append {type : ValueType} {values : List type.Value} {operands : List String}
    (h : operands.mapM type.decode = some values) (flag : String) (rest : List String) :
    readOperands type flag operands.length (operands ++ rest) = (.found values, rest) := by
  induction operands generalizing values with
  | nil =>
      obtain rfl : [] = values := by simpa using h
      rfl
  | cons token operands ih =>
      simp only [List.mapM_cons, Option.bind_eq_bind, Option.bind_eq_some_iff] at h
      obtain ⟨value, hvalue, values', hvalues, h⟩ := h
      cases h
      simp only [List.length_cons, List.cons_append, readOperands, hvalue, ih hvalues]

theorem exists_mapM_decode {type : ValueType} {operands : List String}
    (h : ∀ token ∈ operands, (type.decode token).isSome = true) :
    ∃ values, operands.mapM type.decode = some values := by
  induction operands with
  | nil => exact ⟨[], rfl⟩
  | cons token operands ih =>
      obtain ⟨htoken, hoperands⟩ := List.forall_mem_cons.mp h
      obtain ⟨value, hvalue⟩ := Option.isSome_iff_exists.mp htoken
      obtain ⟨values, hvalues⟩ := ih hoperands
      exact ⟨value :: values, by simp [List.mapM_cons, hvalue, hvalues]⟩

/-- An option takes its block out of the middle of the tokens. -/
theorem read_block (before after : List String) (haccepts : kind.Accepts b)
    (hbefore : ∀ token ∈ before, token ∉ kind.flags)
    (hfind : bs.find? (·.flag ∈ kind.flags) = some b) :
    ∃ value, kind.given bs = some value ∧
      kind.read (before ++ (b.flag :: b.operands ++ after)) = (.found value, before ++ after) := by
  cases kind with
  | option short long type arity =>
      obtain ⟨hflag, rfl, hdecode⟩ := haccepts
      obtain ⟨values, hvalues⟩ := exists_mapM_decode hdecode
      have hrun : ∀ token ∈ before, decide (token ∉ Argument.flags short long) = true :=
        fun token htoken => decide_eq_true (hbefore token htoken)
      have hend : ∀ token ∈ (b.flag :: b.operands ++ after).head?,
          decide (token ∉ Argument.flags short long) = false := by
        rintro _ ⟨⟩
        simpa using hflag
      refine ⟨values, ?_, ?_⟩
      · change (bs.find? (·.flag ∈ Argument.flags short long)).bind _ = _
        have hfind' : bs.find? (·.flag ∈ Argument.flags short long) = some b := hfind
        rw [hfind', Option.bind_some, hvalues]
      · change readOption _ type _ _ = _
        rw [readOption, Text.dropWhile_run hrun hend, Text.takeWhile_run hrun hend,
          List.cons_append]
        simp only [readOperands_append hvalues]
  | _ => exact haccepts.elim

/-- An option without a block leaves all tokens. -/
theorem read_without_block {tokens : List String} (hkind : kind.isOption = true)
    (htokens : ∀ token ∈ tokens, token ∉ kind.flags) :
    kind.read tokens = (.absent, tokens) := by
  cases kind with
  | option short long type arity => exact read_option_of_not_mem type arity htokens
  | _ => cases hkind

theorem given_eq_none (h : ∀ b ∈ bs, b.flag ∉ kind.flags) : kind.given bs = none := by
  cases kind with
  | option short long type arity =>
      have hfind : bs.find? (·.flag ∈ Argument.flags short long) = none := by
        refine List.find?_eq_none.mpr fun b hb hflag => ?_
        exact h b hb (of_decide_eq_true hflag)
      change (bs.find? (·.flag ∈ Argument.flags short long)).bind _ = _
      rw [hfind]
      rfl
  | _ => rfl

theorem Kind.Accepts.flag_mem (h : kind.Accepts b) : b.flag ∈ kind.flags := by
  cases kind with
  | option short long type arity => exact h.1
  | _ => exact h.elim

/-! ## Validation -/

namespace Arranged

/-- The other options share what the first one leaves. -/
theorem tail (h : Arranged (o :: options) pieces) :
    Arranged options (without o.kind.flags pieces) := by
  have hblocks : ∀ b ∈ blocks (without o.kind.flags pieces),
      b ∈ blocks pieces ∧ b.flag ∉ o.kind.flags := by
    intro b hb
    rw [blocks_without, List.mem_filter] at hb
    exact ⟨hb.1, of_decide_eq_true hb.2⟩
  constructor
  case isOption => exact fun o' ho' => h.isOption o' (List.mem_cons_of_mem o ho')
  case disjoint => exact (List.pairwise_cons.mp h.disjoint).2
  case accepted =>
    intro b hb
    obtain ⟨hb, hflag⟩ := hblocks b hb
    obtain ⟨o', ho', haccepts⟩ := h.accepted b hb
    obtain rfl | ho' := List.mem_cons.mp ho'
    · exact (hflag haccepts.flag_mem).elim
    · exact ⟨o', ho', haccepts⟩
  case once =>
    intro o' ho'
    have hsublist : ((blocks (without o.kind.flags pieces)).filter (·.flag ∈ o'.kind.flags)).Sublist
        ((blocks pieces).filter (·.flag ∈ o'.kind.flags)) := by
      rw [blocks_without]
      exact List.filter_sublist.filter _
    exact Nat.le_trans hsublist.length_le (h.once o' (List.mem_cons_of_mem o ho'))
  case operands =>
    exact fun b hb token htoken o' ho' =>
      h.operands b (hblocks b hb).1 token htoken o' (List.mem_cons_of_mem o ho')
  case words =>
    intro token htoken o' ho'
    rw [words_without] at htoken
    exact h.words token htoken o' (List.mem_cons_of_mem o ho')

theorem of_perm (h : Arranged options pieces) (hblocks : (blocks pieces').Perm (blocks pieces))
    (hwords : Argument.words pieces' = Argument.words pieces) : Arranged options pieces' := by
  constructor
  case isOption => exact h.isOption
  case disjoint => exact h.disjoint
  case accepted => exact fun b hb => h.accepted b (hblocks.mem_iff.mp hb)
  case once => exact fun o ho => (hblocks.filter _).length_eq ▸ h.once o ho
  case operands => exact fun b hb => h.operands b (hblocks.mem_iff.mp hb)
  case words => exact hwords ▸ h.words

/-- A block with a flag of the first option is its block. -/
theorem accepts (h : Arranged (o :: options) pieces) (hb : b ∈ blocks pieces)
    (hflag : b.flag ∈ o.kind.flags) : o.kind.Accepts b := by
  obtain ⟨o', ho', haccepts⟩ := h.accepted b hb
  obtain rfl | ho' := List.mem_cons.mp ho'
  · exact haccepts
  · exact ((List.pairwise_cons.mp h.disjoint).1 o' ho' b.flag hflag haccepts.flag_mem).elim

/-- Flags of an option stand at the front of its blocks and nowhere else. -/
theorem not_mem_flags (h : Arranged options pieces) (ho : o ∈ options) (hpart : pieces' ⊆ pieces)
    (hblocks : ∀ b ∈ blocks pieces', b.flag ∉ o.kind.flags) :
    ∀ token ∈ spread pieces', token ∉ o.kind.flags := by
  intro token htoken
  obtain hword | ⟨b, hb, rfl | hoperand⟩ := mem_spread htoken
  · exact h.words token (List.filterMap_subset Piece.word? hpart hword) o ho
  · exact hblocks b hb
  · exact h.operands b (List.filterMap_subset Piece.block? hpart hb) token hoperand o ho

end Arranged

/-- **Options may stand anywhere**: reading the declared arguments gives each
option its block and the words to the positional arguments. -/
theorem validate_spread (h : Arranged options pieces) (positionals : List Argument) :
    validate (options ++ positionals) (spread pieces) = deal positionals options pieces := by
  induction options generalizing pieces with
  | nil =>
      have hnone : blocks pieces = [] := by
        refine List.eq_nil_iff_forall_not_mem.mpr fun b hb => ?_
        obtain ⟨o, ho, -⟩ := h.accepted b hb
        cases ho
      rw [spread_eq_words hnone]
      rfl
  | cons o options ih =>
      by_cases hblock : ∃ b ∈ blocks pieces, b.flag ∈ o.kind.flags
      · obtain ⟨b, hb, hflag⟩ := hblock
        have htail := ih h.tail
        have haccepts := h.accepts hb hflag
        obtain ⟨before, after, rfl, hleft, hbefore⟩ :=
          exists_split hb hflag (h.once o List.mem_cons_self)
        have hfront := h.not_mem_flags List.mem_cons_self (List.subset_append_left before _) hbefore
        have hfind : (blocks (before ++ .block b :: after)).find? (·.flag ∈ o.kind.flags) =
            some b := by
          have hnone : (blocks before).find? (·.flag ∈ o.kind.flags) = none :=
            List.find?_eq_none.mpr fun b' hb' hflag' => hbefore b' hb' (of_decide_eq_true hflag')
          simp [hnone, hflag]
        obtain ⟨value, hgiven, hread⟩ := read_block _ (spread after) haccepts hfront hfind
        have hspread : spread (before ++ .block b :: after) =
            spread before ++ (b.flag :: b.operands ++ spread after) := by
          simp [Piece.tokens]
        change validate (o :: (options ++ positionals)) _ = _
        rw [hspread, validate_of_found hread, ← spread_append, ← hleft, htail]
        simp only [deal, hgiven]
      · have hnone : ∀ b ∈ blocks pieces, b.flag ∉ o.kind.flags := by simpa using hblock
        have hread := read_without_block (h.isOption o List.mem_cons_self)
          (h.not_mem_flags List.mem_cons_self (List.Subset.refl pieces) hnone)
        have htail := ih h.tail
        rw [without_eq_self hnone] at htail
        simp only [List.cons_append, validate, hread, deal, given_eq_none hnone,
          without_eq_self hnone, htail]

/-! ## Other places for the blocks -/

theorem given_of_perm (hperm : bs'.Perm bs)
    (honce : (bs.filter (·.flag ∈ kind.flags)).length ≤ 1) : kind.given bs' = kind.given bs := by
  have hfind : bs'.find? (·.flag ∈ kind.flags) = bs.find? (·.flag ∈ kind.flags) := by
    have hfilter := hperm.filter (·.flag ∈ kind.flags)
    rw [← List.head?_filter, ← List.head?_filter]
    generalize bs.filter (·.flag ∈ kind.flags) = found at honce hfilter
    match found with
    | [] => rw [hfilter.eq_nil]
    | [b] => rw [List.perm_singleton.mp hfilter]
    | _ :: _ :: _ => simp at honce
  cases kind with
  | option short long type arity => exact congrArg (·.bind fun b => b.operands.mapM type.decode) hfind
  | _ => rfl

/-- An option that has a block is given a value. -/
theorem Arranged.exists_given (h : Arranged (o :: options) pieces) (hb : b ∈ blocks pieces)
    (hflag : b.flag ∈ o.kind.flags) : ∃ value, o.kind.given (blocks pieces) = some value := by
  cases hfind : (blocks pieces).find? (·.flag ∈ o.kind.flags) with
  | none => exact (List.find?_eq_none.mp hfind b hb (decide_eq_true hflag)).elim
  | some b' =>
      have hflag' : b'.flag ∈ o.kind.flags := by simpa using List.find?_some hfind
      have haccepts := h.accepts (List.mem_of_find?_eq_some hfind) hflag'
      obtain ⟨value, hgiven, -⟩ := read_block [] [] haccepts (by simp) hfind
      exact ⟨value, hgiven⟩

/-- An option that is supplied is given a value, or may do without. -/
theorem Arranged.not_mandatory (h : Arranged (o :: options) pieces)
    (hsupplied : Supplied (blocks pieces) o) (hgiven : o.kind.given (blocks pieces) = none) :
    o.mandatory = false := by
  rw [← Bool.not_eq_true]
  intro hmandatory
  obtain ⟨b, hb, hflag⟩ := hsupplied hmandatory
  obtain ⟨value, hvalue⟩ := h.exists_given hb hflag
  rw [hgiven] at hvalue
  cases hvalue

/-- An option that is supplied is so when the block of another is taken out. -/
theorem Arranged.supplied_without (h : Arranged (o :: options) pieces) {o' : Argument}
    (ho' : o' ∈ options) (hsupplied : Supplied (blocks pieces) o') :
    Supplied (blocks (without o.kind.flags pieces)) o' := by
  intro hmandatory
  obtain ⟨b, hb, hflag⟩ := hsupplied hmandatory
  have hother : b.flag ∉ o.kind.flags := fun hown =>
    (List.pairwise_cons.mp h.disjoint).1 o' ho' b.flag hown hflag
  refine ⟨b, ?_, hflag⟩
  rw [blocks_without]
  exact List.mem_filter.mpr ⟨hb, decide_eq_true hother⟩

/-- Dealing looks at the blocks and at the words, not at their places. -/
theorem deal_of_perm (h : Arranged options pieces) (hblocks : (blocks pieces').Perm (blocks pieces))
    (hwords : words pieces' = words pieces) (positionals : List Argument) :
    (deal positionals options pieces').slots = (deal positionals options pieces).slots ∧
    (deal positionals options pieces').values = (deal positionals options pieces).values ∧
    ((∀ o ∈ options, Supplied (blocks pieces) o) →
      deal positionals options pieces' = deal positionals options pieces) := by
  induction options generalizing pieces pieces' with
  | nil => simp only [deal, hwords, implies_true, and_self]
  | cons o options ih =>
      have hgiven := given_of_perm hblocks (h.once o List.mem_cons_self)
      have hothers : (blocks (without o.kind.flags pieces')).Perm
          (blocks (without o.kind.flags pieces)) := by
        rw [blocks_without, blocks_without]
        exact hblocks.filter _
      have hwords' : words (without o.kind.flags pieces') = words (without o.kind.flags pieces) := by
        rw [words_without, words_without, hwords]
      obtain ⟨hslots, hvalues, hsame⟩ := ih h.tail hothers hwords'
      have htail : (∀ o' ∈ o :: options, Supplied (blocks pieces) o') →
          deal positionals options (without o.kind.flags pieces') =
            deal positionals options (without o.kind.flags pieces) := fun hsupplied =>
        hsame fun o' ho' =>
          h.supplied_without ho' (hsupplied o' (List.mem_cons_of_mem o ho'))
      cases hvalue : o.kind.given (blocks pieces) with
      | some value =>
          simp only [deal, hgiven, hvalue, Validation.slots, Validation.values, hslots, hvalues,
            true_and]
          intro hsupplied
          rw [htail hsupplied]
      | none =>
          by_cases hmandatory : o.mandatory = false
          · simp only [deal, hgiven, hvalue, dif_pos hmandatory, Validation.slots,
              Validation.values, hslots, hvalues, true_and]
            intro hsupplied
            rw [htail hsupplied]
          · simp only [deal, hgiven, hvalue, dif_neg hmandatory, Validation.slots,
              Validation.values, true_and]
            intro hsupplied
            exact (hmandatory (h.not_mandatory (hsupplied o List.mem_cons_self) hvalue)).elim

/-! ## Missing options -/

theorem without_append (flags flags' : List String) (pieces : List Piece) :
    without (flags ++ flags') pieces = without flags' (without flags pieces) := by
  rw [without, without, without, List.filter_filter]
  refine List.filter_congr fun piece _ => ?_
  cases piece with
  | word token => rfl
  | block b => simp [Piece.isApart, Bool.and_comm]

/-- Reading ends at the first mandatory option without a block, and leaves all
but the blocks of the options in front of it. -/
theorem deal_of_missing {before after : List Argument}
    (h : Arranged (before ++ o :: after) pieces)
    (hsupplied : ∀ o' ∈ before, Supplied (blocks pieces) o') (ho : o.mandatory = true)
    (hnone : ∀ b ∈ blocks pieces, b.flag ∉ o.kind.flags) (positionals : List Argument) :
    (deal positionals (before ++ o :: after) pieces).values = .error (.missingArgument o.name) ∧
    (deal positionals (before ++ o :: after) pieces).rest =
      spread (without (before.flatMap (·.kind.flags)) pieces) := by
  induction before generalizing pieces with
  | nil =>
      have hself : without [] pieces = pieces := without_eq_self (by simp)
      simp [deal, given_eq_none hnone, ho, Validation.values, Validation.rest, hself]
  | cons o' before ih =>
      have hothers : ∀ b ∈ blocks (without o'.kind.flags pieces), b.flag ∉ o.kind.flags := by
        intro b hb
        rw [blocks_without, List.mem_filter] at hb
        exact hnone b hb.1
      obtain ⟨hvalues, hrest⟩ := ih h.tail (fun o'' ho'' =>
        h.supplied_without (List.mem_append_left _ ho'')
          (hsupplied o'' (List.mem_cons_of_mem o' ho''))) hothers
      rw [← without_append] at hrest
      cases hvalue : o'.kind.given (blocks pieces) with
      | some value =>
          simp only [List.cons_append, deal, hvalue, Validation.values, hvalues, Validation.rest,
            hrest, List.flatMap_cons]
          exact ⟨rfl, trivial⟩
      | none =>
          have hmandatory := h.not_mandatory (hsupplied o' List.mem_cons_self) hvalue
          simp only [List.cons_append, deal, hvalue, dif_pos hmandatory, Validation.values,
            hvalues, Validation.rest, hrest, List.flatMap_cons]
          exact ⟨rfl, trivial⟩

/-- **The places of options do not matter**: wherever and in whatever order the
blocks of the options stand between the words, all arguments get the same slots
and answers, which are those that come of giving each option its block and
running the positional arguments on the words; and if all options are supplied,
the same tokens are left.  If a mandatory option has no block, reading ends at
the first such option, which is the error of every order, and the tokens that
are left are all but the blocks of the options in front of it. -/
theorem options_anywhere (h : Arranged options pieces)
    (hblocks : (blocks pieces').Perm (blocks pieces)) (hwords : words pieces' = words pieces)
    (positionals : List Argument) :
    let v := validate (options ++ positionals) (spread pieces)
    let v' := validate (options ++ positionals) (spread pieces')
    v = deal positionals options pieces ∧ v'.slots = v.slots ∧ v'.values = v.values ∧
    ((∀ o ∈ options, Supplied (blocks pieces) o) → v' = v) ∧
    ∀ before o after, options = before ++ o :: after →
      (∀ o' ∈ before, Supplied (blocks pieces) o') → o.mandatory = true →
      (∀ b ∈ blocks pieces, b.flag ∉ o.kind.flags) →
      v.values = .error (.missingArgument o.name) ∧
        v.rest = spread (without (before.flatMap (·.kind.flags)) pieces) := by
  intro v v'
  have hv : v = deal positionals options pieces := validate_spread h positionals
  have hv' : v' = deal positionals options pieces' :=
    validate_spread (h.of_perm hblocks hwords) positionals
  rw [hv, hv']
  obtain ⟨hslots, hvalues, hsame⟩ := deal_of_perm h hblocks hwords positionals
  refine ⟨rfl, hslots, hvalues, hsame, ?_⟩
  rintro before o after rfl hsupplied ho hnone
  exact deal_of_missing h hsupplied ho hnone positionals

/-- A place may stand in front of the options of its breakpoint. -/
theorem options_anywhere_breakInsert :
    let options := Verb.breakInsert.arguments.dropLast
    let positionals := Verb.breakInsert.arguments.drop 7
    validate (options ++ positionals) ["main", "-i", "5", "-t"] =
      validate (options ++ positionals) ["-t", "main", "-i", "5"] := by
  intro options positionals
  have h : Arranged options [.block ⟨"-t", []⟩, .word "main", .block ⟨"-i", ["5"]⟩] := by
    constructor <;> decide +kernel
  have hblocks : (blocks [.word "main", .block ⟨"-i", ["5"]⟩, .block ⟨"-t", []⟩]).Perm
      (blocks [.block ⟨"-t", []⟩, .word "main", .block ⟨"-i", ["5"]⟩]) := .swap ..
  obtain ⟨-, -, -, hsame, -⟩ := options_anywhere h hblocks rfl positionals
  refine hsame fun o ho hmandatory => ?_
  have hoptional : ∀ o ∈ options, o.mandatory = false := by decide
  rw [hoptional o ho] at hmandatory
  cases hmandatory

/-- A mandatory flag that is missing leaves a token list as it is, with the
blocks of other options in their places. -/
theorem rest_of_missing_flag :
    let options : List Argument := [{ flag "a" with mandatory := true }, flag "b"]
    let first : List Piece := [.block ⟨"-b", []⟩, .word "5"]
    let last : List Piece := [.word "5", .block ⟨"-b", []⟩]
    Arranged options first ∧ Arranged options last ∧ blocks last = blocks first ∧
      words last = words first ∧
      (validate (options ++ [number "n"]) (spread first)).rest = ["-b", "5"] ∧
      (validate (options ++ [number "n"]) (spread last)).rest = ["5", "-b"] := by
  intro options first last
  have hfirst : Arranged options first := by constructor <;> decide +kernel
  have hlast : Arranged options last := by constructor <;> decide +kernel
  refine ⟨hfirst, hlast, rfl, rfl, ?_, ?_⟩
  · decide +kernel
  · decide +kernel

end MachineInterface.Argument
