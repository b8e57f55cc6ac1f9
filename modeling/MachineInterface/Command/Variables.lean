import MachineInterface.Command.Basic
import MachineInterface.Command.Update

/-!
# MachineInterface.Command.Variables

The commands on variable objects.
-/

namespace MachineInterface

/-- A list of changed objects. -/
def changeList (shown : PrintValues) (objects : List Variable) : Results :=
  [("changelist", .list (objects.map fun v =>
    .tuple (v.changeResults (shown.shows v.info.children))))]

/-- A list of members; `more` says that others follow them. -/
def childList (shown : PrintValues) (members : List Variable) (more : Bool) : Results :=
  [numberField "numchild" members.length] ++
  (if members.isEmpty then []
    else [("children", .resultList (members.map fun v =>
      ("child", .tuple (v.childResults (shown.shows v.info.children)))))]) ++
  [field "has_more" (if more then "1" else "0")]

/-- A bound of a window, moved into the range from 0 to `count`. -/
def clamped (count : Nat) (n : Int) : Nat := min n.toNat count

namespace Session

/-- The last step of the path to an object, behind the path to its parent. -/
def pathStep (v : Variable) : String :=
  if (".$" ++ v.expression).toList.isSuffixOf v.name.toList then s!"[{v.expression}]"
  else s!".{v.expression}"

/-- The path to an object, through at most so many ancestors. -/
def pathTo (s : Session) : (depth : Nat) → Variable → Except Error String
  | 0, v => .ok v.expression
  | depth + 1, v =>
    match v.parent with
    | none => .ok v.expression
    | some name =>
      match s.object? name with
      | none => .error (.variableNotFound name)
      | some parent => (s.pathTo depth parent).map (· ++ pathStep v)

/-- The expression that reaches an object from the scope of its root.  A
parent's name is shorter than its member's, so there are no more ancestors than
the name has characters. -/
def path (s : Session) (v : Variable) : Except Error String := s.pathTo v.name.length v

end Session

namespace Act

variable {σ τ : Type} [Engine σ]

/-- The name of a new object: its own, or a generated one for `-`. -/
def chooseName (name : String) : Act σ τ String :=
  if name = "-" then inSession Session.nextName else pure name

/-- Bind a name to the value that an expression stands for. -/
def bindValue (name expression : String) (thread frame : Option Nat) : Act σ τ Variable := do
  let resolved ← demand (← ask (.resolveValue expression thread frame))
  let format := (← session).format
  let info ← demand (← ask (.valueInfo resolved.handle format))
  let v : Variable := {
    name
    expression
    handle := resolved.handle
    origin := if resolved.evaluated then .evaluated else .plain
    format
    thread
    frame
    parent := none
    info }
  modifySession (·.add v)
  return v

/-- Create an object. -/
def createVariable (b : Binding) : Act σ τ Results := do
  let name ← chooseName b.name
  let thread ← ofExcept (b.thread.mapM (Verb.unsigned "thread"))
  let frame ← ofExcept (b.frame.mapM (Verb.narrow "frame"))
  if b.frameAddress ≠ "*" ∧ b.frameAddress ≠ "@" then
    say .debug s!"frame address {b.frameAddress} ignored, selected frame used"
  return (← bindValue name b.expression thread frame).createResults

/-- Delete an object; its members stay. -/
def deleteVariable (name : String) : Act σ τ Results := do
  match (← session).object? name with
  | some _ => modifySession (·.remove name)
  | none => say .debug s!"variable object {name} not found, nothing to delete"
  return []

/-- Ask for the value of an object in its format and keep it. -/
def refresh (v : Variable) : Act σ τ Variable := do
  let info ← demand (← ask (.valueInfo v.handle v.format))
  modifySession (·.add (v.refreshed info))
  return v.refreshed info

/-- Assign to the value of an object. -/
def assign (name expression : String) : Act σ τ Results := do
  let v ← object name
  demand (← ask (.assignValue v.handle expression))
  return [field "value" (← refresh v).info.value]

/-- Change the format of an object. -/
def setFormat (name : String) (format : Format) : Act σ τ Results := do
  let v ← object name
  return changeList .all [← refresh { v with format }]

/-- List the member with an index as an object of its own. -/
def listMember (v : Variable) (index : Nat) : Act σ τ Variable := do
  let member ← demand (← ask (.member v.handle index))
  let info ← demand (← ask (.valueInfo member.handle v.format))
  let child : Variable := {
    name := Variable.childName v.name member.name index
    expression := if member.name = "" then toString index else member.name
    handle := member.handle
    origin := .plain
    format := v.format
    thread := v.thread
    frame := v.frame
    parent := some v.name
    info }
  modifySession (·.add child)
  return child

/-- List the members with these indices. -/
def listMembers (v : Variable) : List Nat → Act σ τ (List Variable)
  | [] => return []
  | index :: indices => do
    let child ← listMember v index
    return child :: (← listMembers v indices)

/-- List the members of an object, all or those in a window. -/
def listChildren (shown : PrintValues) (name : String) (window : Option (Int × Int)) :
    Act σ τ Results := do
  let v ← object name
  let count := v.info.children
  let (first, last) := match window with
    | some (first, last) => (clamped count first, clamped count last)
    | none => (0, count)
  let members ← listMembers v (List.range' first (last - first))
  return childList shown members (last < count)

/-- The value of an object, in its own format or in one for this answer. -/
def evaluate (name : String) (format : Option String) : Act σ τ Results := do
  let v ← object name
  match format with
  | none => return [field "value" (← refresh v).info.value]
  | some text =>
    match Format.ofName? text with
    | none => throw (.unknownFormat text)
    | some format =>
      let info ← demand (← ask (.valueInfo v.handle format))
      return [field "value" info.value]

omit [Engine σ] in
/-- The expression that reaches an object. -/
def pathExpression (name : String) : Act σ τ Results := do
  let v ← object name
  return [field "path_expr" (← ofExcept ((← session).path v))]

omit [Engine σ] in
/-- Every object can be assigned to. -/
def showAttributes (name : String) : Act σ τ Results := do
  let _ ← object name
  return [field "status" "editable"]

end Act

end MachineInterface
