import MachineInterface.Adapter.Basic
import MachineInterface.Variable.Visit

/-!
# MachineInterface.Command.Update

Bringing variable objects up to date.  An update walks from an object to the
members that were listed before, level by level, and reads every value on its
way again.
-/

namespace MachineInterface.Act

variable {σ τ : Type} [Engine σ]

omit [Engine σ] in
/-- The variable object of a name. -/
def object (name : String) : Act σ τ Variable := do
  match (← session).object? name with
  | some v => return v
  | none => throw (.variableNotFound name)

/-- Read the value of an object again; also say whether it has changed.  An
evaluated expression is evaluated again and counts as changed. -/
def reread (v : Variable) : Act σ τ (Variable × Bool) := do
  match v.origin with
  | .evaluated =>
    let resolved ← demand (← ask (.resolveValue v.expression v.thread v.frame))
    let info ← demand (← ask (.valueInfo resolved.handle v.format))
    return (({ v with handle := resolved.handle }).refreshed info, true)
  | .plain =>
    if ← ask (.valueChanged v.handle) then
      let info ← demand (← ask (.valueInfo v.handle v.format))
      return (v.refreshed info, true)
    return (v, false)

/-- Read the value of an object again and keep it. -/
def updateObject (v : Variable) : Act σ τ (Variable × Bool) := do
  let (v, changed) ← reread v
  modifySession (·.add v)
  return (v, changed)

/-- Visit the member with an index, if it was listed before.  Failures are
passed over. -/
def visitMember (visit : Variable → Act σ τ Visit) (v : Variable) (index : Nat) :
    Act σ τ (Option Visit) := do
  match ← orMute ((← ask (.member v.handle index)).mapError .engine) with
  | none => return none
  | some member =>
    match (← session).object? (Variable.childName v.name member.name index) with
    | none => return none
    | some child => orMute (← attempt (visit child))

/-- Visit the members with these indices. -/
def visitMembers (visit : Variable → Act σ τ Visit) (v : Variable) :
    List Nat → Act σ τ (List Visit)
  | [] => return []
  | index :: indices => do
    let first ← visitMember visit v index
    return first.toList ++ (← visitMembers visit v indices)

/-- Update an object and visit its members. -/
def visitWith (visit : Variable → Act σ τ Visit) (v : Variable) : Act σ τ Visit := do
  let (v, changed) ← updateObject v
  return ⟨v, changed, ← visitMembers visit v (List.range v.info.children)⟩

/-- Update an object and its members, `depth` levels below it at most. -/
def visitTo : (depth : Nat) → Variable → Act σ τ Visit
  | 0 => visitWith fun v => return ⟨v, false, []⟩
  | depth + 1 => visitWith (visitTo depth)

/-- The length of the longest name. -/
def longest (names : List String) : Nat := (names.map String.length).foldr max 0

/-- Update an object and its members.  A member's name is longer than its
parent's, so no listed member lies deeper than the longest name allows. -/
def visitTree (v : Variable) : Act σ τ Visit := do
  visitTo (longest (← session).objectNames - v.name.length) v

/-- Update the objects of these names that are no members; failures are passed
over. -/
def visitRoots : List String → Act σ τ (List Visit)
  | [] => return []
  | name :: names => do
    match ((← session).object? name).filter (·.parent.isNone) with
    | none => visitRoots names
    | some root =>
      let first ← orMute (← attempt (visitTree root))
      return first.toList ++ (← visitRoots names)

/-- Update one object with its members or, for the name `*`, all objects. -/
def visitNamed (name : String) : Act σ τ (List Visit) := do
  if name = "*" then
    visitRoots (← session).objectNames
  else
    return [← visitTree (← object name)]

end MachineInterface.Act
