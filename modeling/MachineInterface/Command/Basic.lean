import MachineInterface.Argument.Validation
import MachineInterface.Command.Verb
import MachineInterface.Location
import MachineInterface.Record
import MachineInterface.Stoppoint.Basic
import MachineInterface.Variable

/-!
# MachineInterface.Command.Basic

What a command line asks for.  A command is read from the declared arguments
of its verb; whatever can be refused without looking at the session or the
engine is refused here.
-/

namespace MachineInterface

open Argument

/-- A breakpoint to be inserted. -/
structure Insertion where
  /-- The place as the client wrote it. -/
  clientLocation : String
  location : Location
  /-- The place may stay unresolved. -/
  pending : Bool
  oneShot : Bool
  enabled : Bool
  condition : Option String
  ignoreCount : Nat
  thread : Option Nat
  threadGroup : Option Nat
deriving DecidableEq, Repr

/-- A variable object to be created. -/
structure Binding where
  /-- The name `-` asks for a generated one. -/
  name : String
  frameAddress : String
  expression : String
  thread : Option Int
  frame : Option Int
deriving DecidableEq, Repr

/-- What a command line asks for. -/
inductive Command
  | insert (insertion : Insertion)
  | delete (numbers : List Int)
  | enable (enabled : Bool) (numbers : List Int)
  | ignoreHits (number : Int) (count : Nat)
  /-- Without a condition the old one is cleared. -/
  | setCondition (number : Int) (condition : Option String)
  | watch (watch : Watch)
  | createVariable (binding : Binding)
  | deleteVariable (name : String)
  /-- The name `*` stands for all objects. -/
  | updateVariables (shown : PrintValues) (name : String)
  | assign (name expression : String)
  | setFormat (name : String) (format : Format)
  /-- Without a window all children are listed. -/
  | listChildren (shown : PrintValues) (name : String) (window : Option (Int × Int))
  /-- A format applies to this answer only. -/
  | evaluate (name : String) (format : Option String)
  | pathExpression (name : String)
  | showAttributes (name : String)
  | exit
deriving DecidableEq, Repr

/-- The class of the answer to a command that succeeds. -/
def Command.resultClass : Command → ResultClass
  | exit => .exit
  | _ => .done

namespace Verb

/-! ## Declared arguments -/

/-- The name of a variable object, quoted if it has blanks. -/
@[reducible] def objectName : Argument := .word "name" { quotes := true }

/-- The declared arguments of a verb. -/
@[reducible] def arguments : Verb → List Argument
  | breakInsert =>
    [.flag "t", .flag "d",
      .option "f" (.word { quotes := true, numbers := true, paths := true }),
      .option "c" (.word { quotes := true }),
      .option "i" .number (some "ignore-count"),
      .option "p" .number,
      .longOption "thread-group" .threadGroup,
      (Argument.word "location" { quotes := true, numbers := true, paths := true }).optional]
  | breakDelete | breakDisable | breakEnable => [.numbers "breakpoint"]
  | breakAfter => [.number "number", .number "count"]
  | breakCondition => [.number "number", (Argument.text "expression").optional]
  | breakWatch => [.flag "a", .flag "r", .text "expression"]
  | varCreate =>
    [.longOption "thread" .number, .longOption "frame" .number, objectName,
      .word "frame-addr" { numbers := true }, .text "expression"]
  | varUpdate => [.printValues, objectName]
  | varAssign => [objectName, .text "expression"]
  | varSetFormat => [objectName, .word "format"]
  | varListChildren =>
    [.printValues, objectName, (Argument.number "from").optional,
      (Argument.number "to").optional]
  | varEvaluateExpression => [.option "f" (.word {}), objectName]
  | varDelete | varInfoPathExpression | varShowAttributes => [objectName]
  | gdbExit => []

/-! ## Commands -/

/-- The value of an option that takes one. -/
def operand (option : Option (List α)) : Option α := option.bind List.head?

/-- A number of 32 bits. -/
def narrow (argument : String) (n : Int) : Except Error Nat :=
  match Text.nat32? n with
  | some n => .ok n
  | none => .error (.invalidArgument argument (toString n))

theorem narrow_of_nat32? {argument : String} {n : Int} {m : Nat} (h : Text.nat32? n = some m) :
    narrow argument n = .ok m := by
  simp only [narrow, h]

/-- A number that is not negative. -/
def unsigned (argument : String) (n : Int) : Except Error Nat :=
  if 0 ≤ n then .ok n.toNat else .error (.invalidArgument argument (toString n))

/-- The condition that a text stands for: none if it is blank. -/
def condition? (text : Option String) : Option String :=
  text.filter fun text => !Text.isAllBlank text.toList

/-- The command that a verb asks for with these arguments; `rest` holds the
tokens that no argument has taken. -/
def command : (verb : Verb) → Values verb.arguments → (rest : List String) →
    Except Error Command
  | breakInsert, (temporary, disabled, pending, condition, ignore, thread, group, location, ()),
      _ => do
    let some clientLocation := location <|> operand pending
      | throw (.missingArgument "location")
    let place ← Location.parse clientLocation
    let ignoreCount ← ((operand ignore).mapM (narrow "i"))
    let thread ← (operand thread).mapM (unsigned "p")
    return .insert {
      clientLocation
      location := place
      pending := pending.isSome
      oneShot := temporary.isSome
      enabled := disabled.isNone
      condition := operand condition
      ignoreCount := ignoreCount.getD 0
      thread
      threadGroup := operand group }
  | breakDelete, (numbers, ()), _ => return .delete numbers
  | breakDisable, (numbers, ()), _ => return .enable false numbers
  | breakEnable, (numbers, ()), _ => return .enable true numbers
  | breakAfter, (number, count, ()), _ => return .ignoreHits number (← narrow "count" count)
  | breakCondition, (number, expression, ()), rest =>
    if rest = [] then return .setCondition number (condition? expression)
    else throw (.invalidArgument "expression" (Text.joined rest))
  | breakWatch, (access, read, expression, ()), _ =>
    return .watch {
      expression
      read := access.isSome || read.isSome
      write := read.isNone }
  | varCreate, (thread, frame, name, frameAddress, expression, ()), _ =>
    return .createVariable {
      name
      frameAddress
      expression
      thread := operand thread
      frame := operand frame }
  | varDelete, (name, ()), _ => return .deleteVariable name
  | varUpdate, (shown, name, ()), _ => return .updateVariables (shown.getD .no) name
  | varAssign, (name, expression, ()), _ => return .assign name expression
  | varSetFormat, (name, format, ()), _ =>
    match Format.ofName? format with
    | some format => return .setFormat name format
    | none => throw (.unknownFormat format)
  | varListChildren, (shown, name, first, last, ()), _ =>
    match first, last with
    | some first, some last => return .listChildren (shown.getD .no) name (some (first, last))
    | none, none => return .listChildren (shown.getD .no) name none
    | _, _ => throw (.argumentPair "from" "to")
  | varEvaluateExpression, (format, name, ()), _ => return .evaluate name (operand format)
  | varInfoPathExpression, (name, ()), _ => return .pathExpression name
  | varShowAttributes, (name, ()), _ => return .showAttributes name
  | gdbExit, _, _ => return .exit

end Verb

end MachineInterface
