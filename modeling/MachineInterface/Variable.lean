import MachineInterface.Record.Value
import MachineInterface.Variable.Format

/-!
# MachineInterface.Variable

Variable objects: named bindings of a client to values of the engine.  An
object repeats what the engine last said about its value, and a child object
is named after its parent.
-/

namespace MachineInterface

/-- What the engine says about a value. -/
structure ValueInfo where
  /-- The value, rendered in the requested format. -/
  value : String
  typeName : String
  /-- The number of members. -/
  children : Nat
  inScope : Bool
  thread : Nat
deriving DecidableEq, Repr, Inhabited

/-- Where the value of an object comes from. -/
inductive Origin
  /-- A variable, a register or a member. -/
  | plain
  /-- An evaluated expression, which is evaluated again at each update. -/
  | evaluated
deriving DecidableEq, Repr, Inhabited

/-- A variable object. -/
structure Variable where
  name : String
  expression : String
  /-- The engine's name of the value. -/
  handle : Nat
  origin : Origin
  format : Format
  thread : Option Nat
  frame : Option Nat
  /-- The name of the object that this one is a member of. -/
  parent : Option String
  /-- What the engine last said about the value. -/
  info : ValueInfo
deriving DecidableEq, Repr, Inhabited

namespace Variable

/-- The object with a fresh account of its value. -/
def refreshed (v : Variable) (info : ValueInfo) : Variable := { v with info }

/-- A fresh account shows another value or another scope. -/
def differs (v : Variable) (info : ValueInfo) : Bool :=
  v.info.value ≠ info.value || v.info.inScope ≠ info.inScope

/-- The name of a member's object; unnamed members are named by their
index. -/
def childName (parent member : String) (index : Nat) : String :=
  if member = "" then s!"{parent}.${index}" else s!"{parent}.{member}"

/-- A child's name is longer than its parent's. -/
theorem length_lt_childName (parent member : String) (index : Nat) :
    parent.length < (childName parent member index).length := by
  simp only [← String.length_toList, childName]
  split <;> simp only [toString, String.toList_append, List.length_append] <;> simp <;> omega

/-! ## Records -/

/-- The value, left out unless it is to be shown. -/
def valueField (v : Variable) (shown : Bool) : Results :=
  if shown then [field "value" v.info.value] else []

/-- The answer to the creation of an object. -/
def createResults (v : Variable) : Results :=
  [field "name" v.name,
    numberField "numchild" v.info.children,
    field "value" v.info.value,
    field "type" v.info.typeName,
    numberField "thread-id" v.info.thread,
    field "has_more" "0"]

/-- An entry of a change list. -/
def changeResults (v : Variable) (shown : Bool) : Results :=
  [field "name" v.name] ++ v.valueField shown ++
  [field "in_scope" (if v.info.inScope then "true" else "false"),
    field "type_changed" "false",
    field "has_more" "0"]

/-- An entry of a list of children. -/
def childResults (v : Variable) (shown : Bool) : Results :=
  [field "name" v.name,
    field "exp" v.expression,
    numberField "numchild" v.info.children] ++ v.valueField shown ++
  [field "type" v.info.typeName,
    numberField "thread-id" v.info.thread,
    field "has_more" "0"]

end Variable

end MachineInterface
