import MachineInterface.Variable

/-!
# MachineInterface.Variable.Visit

What an update of variable objects finds: a tree of the objects that it has
visited.  A changed object is reported unless a change below it is, so that a
report names the deepest changes only.
-/

namespace MachineInterface

/-- A visited object: the object after its update, whether its value had
changed, and the visits of its members. -/
inductive Visit
  | mk (object : Variable) (changed : Bool) (members : List Visit)
deriving Inhabited

mutual

/-- The object or one below it has changed. -/
def Visit.hasChange : Visit → Bool
  | .mk _ changed members => changed || anyChange members

/-- One of the objects or one below them has changed. -/
def anyChange : List Visit → Bool
  | [] => false
  | visit :: visits => visit.hasChange || anyChange visits

end

mutual

/-- The objects to report, each behind those below it. -/
def Visit.report : Visit → List Variable
  | .mk object changed members =>
    reportAll members ++ if changed && !anyChange members then [object] else []

/-- The objects to report of several visits. -/
def reportAll : List Visit → List Variable
  | [] => []
  | visit :: visits => visit.report ++ reportAll visits

end

@[simp] theorem anyChange_append (vs ws : List Visit) :
    anyChange (vs ++ ws) = (anyChange vs || anyChange ws) := by
  induction vs with
  | nil => simp [anyChange]
  | cons v vs ih => simp [anyChange, ih, Bool.or_assoc]

@[simp] theorem reportAll_append (vs ws : List Visit) :
    reportAll (vs ++ ws) = reportAll vs ++ reportAll ws := by
  induction vs with
  | nil => simp [reportAll]
  | cons v vs ih => simp [reportAll, ih]

end MachineInterface
