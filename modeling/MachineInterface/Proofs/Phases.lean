import MachineInterface.Proofs.Lines
import MachineInterface.Proofs.Lookups

/-!
# MachineInterface.Proofs.Phases

Parsing a line and putting its command together.  Parsing validates the arguments
and checks some of the receipts; behind it the command is put together by looking the
receipts up, each under a key, with an error about a missing argument wherever a
look-up that the command relies on finds nothing (`Verb.lookUp`).  This is how a
verb reads its command (`read_eq`), and none of these errors comes up behind a
parsing that succeeds (`sure_lookUp`).
-/

namespace MachineInterface

open Argument

variable {σ τ α β : Type}

/-- The error comes from an argument that is missing. -/
def Error.IsMissing (e : Error) : Prop := ∃ name, e.root = .missingArgument name

namespace Argument

variable {name : String} {short long : Option String} {kind : Kind} {arity : Nat}

/-! ## Receipts of answers -/

theorem found_answerReceipt (answer : Option kind.Value) :
    (answerReceipt ⟨name, false, kind⟩ answer).found = answer.isSome := by
  cases answer <;> rfl

theorem get?_word {form : WordForm} (answer : Option String) :
    (answerReceipt ⟨name, false, .value (.word form)⟩ answer).get? .string = answer := by
  cases answer <;> rfl

theorem operand?_word {form : WordForm} (answer : Option (List String)) :
    (answerReceipt ⟨name, false, .option short long (.word form) arity⟩ answer).operand? .string =
      Verb.operand answer := by
  rcases answer with _ | (_ | ⟨value, values⟩) <;> rfl

theorem operand?_number (answer : Option (List Int)) :
    (answerReceipt ⟨name, false, .option short long .number arity⟩ answer).operand? .number =
      Verb.operand answer := by
  rcases answer with _ | (_ | ⟨value, values⟩) <;> rfl

theorem operand?_threadGroup (answer : Option (List Nat)) :
    (answerReceipt ⟨name, false, .option short long .threadGroup arity⟩ answer).operand?
      .threadGroup = Verb.operand answer := by
  rcases answer with _ | (_ | ⟨value, values⟩) <;> rfl

end Argument

namespace Verb

/-! ## Phases -/

/-- A look-up that the command relies on. -/
def required (name : String) : Option α → Except Error α
  | some value => .ok value
  | none => .error (.missingArgument name)

/-- The receipt of the argument at a place of the declaration. -/
def receiptAt (receipts : List Receipt) (place : Nat) : Receipt := receipts.getD place {}

/-- What is checked of the receipts when the arguments are parsed. -/
def check (verb : Verb) (receipts : List Receipt) (rest : List String) : Except Error Unit :=
  match verb with
  | breakInsert =>
    if (receiptAt receipts 7).found || (receiptAt receipts 2).found then .ok ()
    else .error (.missingArgument "location")
  | breakCondition =>
    if rest = [] then .ok () else .error (.invalidArgument "expression" (Text.joined rest))
  | varListChildren =>
    if (receiptAt receipts 2).found = (receiptAt receipts 3).found then .ok ()
    else .error (.argumentPair "from" "to")
  | _ => .ok ()

/-- The arguments are parsed: their receipts, if all is well with them. -/
def parsing (verb : Verb) (arguments : String) : Except Error (List Receipt) := do
  let validation := validate verb.arguments (Text.tokens arguments)
  let _ ← validation.values
  verb.check validation.receipts validation.rest
  return validation.receipts

/-- The command is put together from the receipts, each looked up under its key. -/
def lookUp (verb : Verb) (receipts : List Receipt) : Except Error Command :=
  let receipt := receiptAt receipts
  match verb with
  | breakInsert => do
    let clientLocation ←
      required "location" ((receipt 7).get? .string <|> (receipt 2).operand? .string)
    let location ← Location.parse clientLocation
    let ignoreCount ← ((receipt 4).operand? .number).mapM (narrow "i")
    let thread ← ((receipt 5).operand? .number).mapM (unsigned "p")
    return .insert {
      clientLocation
      location
      pending := (receipt 2).found
      oneShot := (receipt 0).found
      enabled := !(receipt 1).found
      condition := (receipt 3).operand? .string
      ignoreCount := ignoreCount.getD 0
      thread
      threadGroup := (receipt 6).operand? .threadGroup }
  | breakDelete => return .delete (← numbers receipt)
  | breakDisable => return .enable false (← numbers receipt)
  | breakEnable => return .enable true (← numbers receipt)
  | breakAfter => do
    let number ← required "number" ((receipt 0).get? .number)
    let count ← required "count" ((receipt 1).get? .number)
    return .ignoreHits number (← narrow "count" count)
  | breakCondition => do
    let number ← required "number" ((receipt 0).get? .number)
    return .setCondition number (condition? ((receipt 1).get? .string))
  | breakWatch => do
    let expression ← required "expression" ((receipt 2).get? .string)
    return .watch {
      expression
      read := (receipt 0).found || (receipt 1).found
      write := !(receipt 1).found }
  | varCreate => do
    let name ← required "name" ((receipt 2).get? .string)
    let expression ← required "expression" ((receipt 4).get? .string)
    return .createVariable {
      name
      frameAddress := ((receipt 3).get? .string).getD "*"
      expression
      thread := (receipt 0).operand? .number
      frame := (receipt 1).operand? .number }
  | varDelete => return .deleteVariable (← required "name" ((receipt 0).get? .string))
  | varUpdate => do
    let name ← required "name" ((receipt 1).get? .string)
    return .updateVariables (((receipt 0).get? .printValues).getD .no) name
  | varAssign => do
    let name ← required "name" ((receipt 0).get? .string)
    let expression ← required "expression" ((receipt 1).get? .string)
    return .assign name expression
  | varSetFormat => do
    let name ← required "name" ((receipt 0).get? .string)
    let format ← required "format" ((receipt 1).get? .string)
    match Format.ofName? format with
    | some format => return .setFormat name format
    | none => throw (.unknownFormat format)
  | varListChildren => do
    let name ← required "name" ((receipt 1).get? .string)
    let shown := ((receipt 0).get? .printValues).getD .no
    match (receipt 2).get? .number, (receipt 3).get? .number with
    | some first, some last => return .listChildren shown name (some (first, last))
    | _, _ => return .listChildren shown name none
  | varEvaluateExpression => do
    let name ← required "name" ((receipt 1).get? .string)
    return .evaluate name ((receipt 0).operand? .string)
  | varInfoPathExpression => return .pathExpression (← required "name" ((receipt 0).get? .string))
  | varShowAttributes => return .showAttributes (← required "name" ((receipt 0).get? .string))
  | gdbExit => return .exit
where
  /-- The numbers of a list; what is no number is passed over. -/
  numbers (receipt : Nat → Receipt) : Except Error (List Int) := do
    let values ← required "breakpoint" ((receipt 0).get? .list)
    return values.filterMap fun datum => Key.number.extract datum

theorem filterMap_extract_number (numbers : List Int) :
    (numbers.map ValueType.number.datum).filterMap Key.number.extract = numbers := by
  rw [List.filterMap_map]
  exact List.filterMap_some

/-- A verb reads its command by looking the receipts of its answers up. -/
theorem command_eq_lookUp (verb : Verb) (values : Values verb.arguments) (rest : List String) :
    verb.command values rest = (do
      verb.check values.receipts rest
      verb.lookUp values.receipts) := by
  cases verb with
  | breakInsert =>
      obtain ⟨temporary, disabled, pending, condition, ignore, thread, group, location, ⟨⟩⟩ :=
        values
      simp only [command, lookUp, check, receiptAt, Values.receipts, List.getD_cons_succ,
        List.getD_cons_zero]
      rw [operand?_word, operand?_word, operand?_number, operand?_number, operand?_threadGroup,
        get?_word, found_answerReceipt, found_answerReceipt, found_answerReceipt,
        found_answerReceipt, Option.not_isSome]
      -- The place is that of the last argument, or else that of the pending one.
      cases location with
      | some clientLocation => rfl
      | none => rcases pending with _ | (_ | ⟨clientLocation, others⟩) <;> rfl
  | breakDelete =>
      obtain ⟨numbers, ⟨⟩⟩ := values
      exact congrArg (fun numbers => Except.ok (Command.delete numbers))
        (filterMap_extract_number numbers).symm
  | breakDisable =>
      obtain ⟨numbers, ⟨⟩⟩ := values
      exact congrArg (fun numbers => Except.ok (Command.enable false numbers))
        (filterMap_extract_number numbers).symm
  | breakEnable =>
      obtain ⟨numbers, ⟨⟩⟩ := values
      exact congrArg (fun numbers => Except.ok (Command.enable true numbers))
        (filterMap_extract_number numbers).symm
  | breakCondition =>
      obtain ⟨number, expression, ⟨⟩⟩ := values
      cases rest <;> cases expression <;> rfl
  | breakWatch =>
      obtain ⟨access, read, expression, ⟨⟩⟩ := values
      cases access <;> cases read <;> rfl
  | varCreate =>
      obtain ⟨thread, frame, name, frameAddress, expression, ⟨⟩⟩ := values
      change _ = Except.ok (Command.createVariable {
        name
        frameAddress
        expression
        thread := (answerReceipt (.longOption "thread" .number) thread).operand? .number
        frame := (answerReceipt (.longOption "frame" .number) frame).operand? .number })
      rw [operand?_number, operand?_number]
      rfl
  | varUpdate =>
      obtain ⟨shown, name, ⟨⟩⟩ := values
      cases shown <;> rfl
  | varListChildren =>
      obtain ⟨shown, name, first, last, ⟨⟩⟩ := values
      cases shown <;> cases first <;> cases last <;> rfl
  | varEvaluateExpression =>
      obtain ⟨format, name, ⟨⟩⟩ := values
      change _ = Except.ok (Command.evaluate name
        ((answerReceipt (.option "f" (.word {})) format).operand? .string))
      rw [operand?_word]
      rfl
  | breakAfter | varAssign | varSetFormat =>
      obtain ⟨first, second, ⟨⟩⟩ := values
      rfl
  | varDelete | varInfoPathExpression | varShowAttributes =>
      obtain ⟨name, ⟨⟩⟩ := values
      rfl
  | gdbExit => rfl

/-! ## Parsing finds what is looked up -/

/-- The result is no error about a missing argument. -/
def Sure (result : Except Error α) : Prop := ∀ e, result = .error e → ¬ e.IsMissing

section Sure

theorem sure_ok (value : α) : Sure (.ok value) := nofun

theorem sure_error {e : Error} (h : ¬ e.IsMissing) : Sure (.error e : Except Error α) := by
  rintro _ ⟨⟩
  exact h

theorem Sure.bind {result : Except Error α} {next : α → Except Error β} (h : Sure result)
    (hnext : ∀ value, Sure (next value)) : Sure (result >>= next) := by
  cases result with
  | error e => exact sure_error (h e rfl)
  | ok value => exact hnext value

theorem sure_required {name : String} {answer : Option α} (h : answer.isSome = true) :
    Sure (required name answer) := by
  obtain ⟨value, rfl⟩ := Option.isSome_iff_exists.mp h
  exact sure_ok value

theorem sure_narrow (argument : String) (n : Int) : Sure (narrow argument n) := by
  unfold narrow
  split
  · exact sure_ok _
  · exact sure_error nofun

theorem sure_unsigned (argument : String) (n : Int) : Sure (unsigned argument n) := by
  unfold unsigned
  split
  · exact sure_ok _
  · exact sure_error nofun

theorem sure_mapM {f : α → Except Error β} (h : ∀ x, Sure (f x)) (x : Option α) :
    Sure (x.mapM f) := by
  cases x with
  | none => exact sure_ok none
  | some x => exact (h x).bind fun y => sure_ok (some y)

theorem sure_parse (text : String) : Sure (Location.parse text) := by
  unfold Location.parse
  simp only
  split
  · exact sure_ok _
  · exact sure_error nofun

end Sure

/-- Parsing and looking up is reading. -/
theorem read_eq (verb : Verb) (arguments : String) :
    verb.read arguments = (do verb.lookUp (← verb.parsing arguments)) := by
  cases hvalues : (validate verb.arguments (Text.tokens arguments)).values with
  | error e =>
      simp only [Verb.read, parsing, hvalues]
      rfl
  | ok values =>
      simp only [Verb.read, parsing, hvalues, receipts_of_values hvalues, bind_assoc, pure_bind]
      exact verb.command_eq_lookUp values _

variable {as : List Argument} {receipts : List Receipt} {a : Argument}

theorem holds_at (h : List.Forall₂ Receipt.Holds receipts as) (place : Nat)
    (ha : as[place]? = some a) : (receiptAt receipts place).Holds a := by
  induction h generalizing place with
  | nil => cases ha
  | cons hreceipt h ih =>
      cases place with
      | zero =>
          cases ha
          exact hreceipt
      | succ place => exact ih place ha

/-- A mandatory argument is looked up under the key of its kind. -/
theorem isSome_get? (h : List.Forall₂ Receipt.Holds receipts as) (place : Nat)
    (ha : as[place]? = some a) (hmandatory : a.mandatory = true) :
    ((receiptAt receipts place).get? a.kind.key).isSome = true := by
  have hreceipt := holds_at h place ha
  rw [hreceipt.get_eq, hreceipt.mandatory hmandatory]

/-- The operand of an option that was found is looked up under the key of its type. -/
theorem isSome_operand? {receipt : Receipt} {short long : Option String} {type : ValueType}
    {arity : Nat} (h : receipt.Holds a) (ha : a.kind = .option short long type (arity + 1))
    (hfound : receipt.found = true) : (receipt.operand? type.key).isSome = true := by
  have hget := h.get_eq
  rw [ha, hfound] at hget
  obtain ⟨operands, hoperands⟩ := Option.isSome_iff_exists.mp hget
  change receipt.get? .option = some operands at hoperands
  obtain ⟨hlength, htypes⟩ := h.option ha operands hoperands
  obtain ⟨datum, others, rfl⟩ := List.exists_cons_of_length_eq_add_one hlength
  have hvalue := htypes datum List.mem_cons_self
  rw [Receipt.operand?, hoperands]
  exact hvalue

theorem parsing_eq_ok {verb : Verb} {arguments : String}
    (h : verb.parsing arguments = .ok receipts) :
    List.Forall₂ Receipt.Holds receipts verb.arguments ∧
      ∃ rest, verb.check receipts rest = .ok () := by
  cases hvalues : (validate verb.arguments (Text.tokens arguments)).values with
  | error e =>
      simp only [parsing, hvalues] at h
      cases h
  | ok values =>
      simp only [parsing, hvalues] at h
      cases hcheck : verb.check (validate verb.arguments (Text.tokens arguments)).receipts
        (validate verb.arguments (Text.tokens arguments)).rest with
      | error e =>
          rw [hcheck] at h
          cases h
      | ok checked =>
          rw [hcheck] at h
          cases h
          exact ⟨holds_of_ok verb.arguments _ hvalues, _, hcheck⟩

/-- Behind its check a breakpoint has a place, in an argument or as the operand of
an option. -/
theorem isSome_location {rest : List String}
    (h : List.Forall₂ Receipt.Holds receipts breakInsert.arguments)
    (hcheck : breakInsert.check receipts rest = .ok ()) :
    ((receiptAt receipts 7).get? .string <|>
      (receiptAt receipts 2).operand? .string).isSome = true := by
  have hlocation := (holds_at h 7 rfl).get_eq
  have hpending := isSome_operand? (holds_at h 2 rfl) rfl
  cases hfound : (receiptAt receipts 7).found with
  | true =>
      rw [hfound] at hlocation
      obtain ⟨location, hget⟩ := Option.isSome_iff_exists.mp hlocation
      exact congrArg
        (fun answer => (answer <|> (receiptAt receipts 2).operand? .string).isSome) hget
  | false =>
      have hfound' : (receiptAt receipts 2).found = true := by
        by_contra hnone
        simp [check, hfound, hnone] at hcheck
      cases (receiptAt receipts 7).get? .string with
      | some location => rfl
      | none => exact hpending hfound'

/-- Behind the parsing nothing that is looked up is missing. -/
theorem sure_lookUp {verb : Verb} {arguments : String} (h : verb.parsing arguments = .ok receipts) :
    Sure (verb.lookUp receipts) := by
  obtain ⟨hreceipts, rest, hcheck⟩ := parsing_eq_ok h
  have hrequired : ∀ (place : Nat) {a : Argument} (name : String),
      verb.arguments[place]? = some a → a.mandatory = true →
      Sure (required name ((receiptAt receipts place).get? a.kind.key)) :=
    fun place _ _ ha hmandatory => sure_required (isSome_get? hreceipts place ha hmandatory)
  cases verb with
  | breakInsert =>
      refine (sure_required (isSome_location hreceipts hcheck)).bind fun clientLocation => ?_
      refine (sure_parse clientLocation).bind fun location => ?_
      refine (sure_mapM (sure_narrow "i") _).bind fun ignoreCount => ?_
      exact (sure_mapM (sure_unsigned "p") _).bind fun thread => sure_ok _
  | breakDelete | breakDisable | breakEnable =>
      exact ((hrequired 0 "breakpoint" rfl rfl).bind fun _ => sure_ok _).bind fun _ => sure_ok _
  | breakAfter =>
      refine (hrequired 0 "number" rfl rfl).bind fun number => ?_
      refine (hrequired 1 "count" rfl rfl).bind fun count => ?_
      exact (sure_narrow "count" count).bind fun _ => sure_ok _
  | breakCondition => exact (hrequired 0 "number" rfl rfl).bind fun _ => sure_ok _
  | breakWatch => exact (hrequired 2 "expression" rfl rfl).bind fun _ => sure_ok _
  | varCreate =>
      refine (hrequired 2 "name" rfl rfl).bind fun name => ?_
      exact (hrequired 4 "expression" rfl rfl).bind fun _ => sure_ok _
  | varUpdate => exact (hrequired 1 "name" rfl rfl).bind fun _ => sure_ok _
  | varAssign =>
      refine (hrequired 0 "name" rfl rfl).bind fun name => ?_
      exact (hrequired 1 "expression" rfl rfl).bind fun _ => sure_ok _
  | varSetFormat =>
      refine (hrequired 0 "name" rfl rfl).bind fun name => ?_
      refine (hrequired 1 "format" rfl rfl).bind fun format => ?_
      split
      · exact sure_ok _
      · exact sure_error nofun
  | varListChildren =>
      refine (hrequired 1 "name" rfl rfl).bind fun name => ?_
      split <;> exact sure_ok _
  | varEvaluateExpression => exact (hrequired 1 "name" rfl rfl).bind fun _ => sure_ok _
  | varDelete | varInfoPathExpression | varShowAttributes =>
      exact (hrequired 0 "name" rfl rfl).bind fun _ => sure_ok _
  | gdbExit => exact sure_ok _

end Verb

end MachineInterface
