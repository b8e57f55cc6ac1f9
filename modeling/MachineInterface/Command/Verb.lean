import Std.Data.ExtTreeMap

/-!
# MachineInterface.Command.Verb

The verbs of the protocol, and the register in which a line's verb is looked
up.  A verb may be registered under further words.
-/

namespace MachineInterface

inductive Verb
  | breakInsert
  | breakDelete
  | breakDisable
  | breakEnable
  | breakAfter
  | breakCondition
  | breakWatch
  | varCreate
  | varDelete
  | varUpdate
  | varAssign
  | varSetFormat
  | varListChildren
  | varEvaluateExpression
  | varInfoPathExpression
  | varShowAttributes
  | gdbExit
deriving DecidableEq, Repr

namespace Verb

def all : List Verb :=
  [breakInsert, breakDelete, breakDisable, breakEnable, breakAfter, breakCondition, breakWatch,
    varCreate, varDelete, varUpdate, varAssign, varSetFormat, varListChildren,
    varEvaluateExpression, varInfoPathExpression, varShowAttributes, gdbExit]

def name : Verb → String
  | breakInsert => "break-insert"
  | breakDelete => "break-delete"
  | breakDisable => "break-disable"
  | breakEnable => "break-enable"
  | breakAfter => "break-after"
  | breakCondition => "break-condition"
  | breakWatch => "break-watch"
  | varCreate => "var-create"
  | varDelete => "var-delete"
  | varUpdate => "var-update"
  | varAssign => "var-assign"
  | varSetFormat => "var-set-format"
  | varListChildren => "var-list-children"
  | varEvaluateExpression => "var-evaluate-expression"
  | varInfoPathExpression => "var-info-path-expression"
  | varShowAttributes => "var-show-attributes"
  | gdbExit => "gdb-exit"

theorem mem_all (verb : Verb) : verb ∈ all := by cases verb <;> decide

end Verb

/-- The words that name verbs. -/
abbrev Register := Std.ExtTreeMap String Verb

namespace Register

/-- Every verb under its own name. -/
def standard : Register := .ofList (Verb.all.map fun verb => (verb.name, verb))

/-- Register a verb under a word, in place of any other. -/
def register (r : Register) (word : String) (verb : Verb) : Register := r.insert word verb

def verb? (r : Register) (word : String) : Option Verb := r[word]?

/-- A verb is found under its own name. -/
theorem verb?_standard_name (verb : Verb) : standard.verb? verb.name = some verb := by
  have hdistinct : (Verb.all.map fun verb => (verb.name, verb)).Pairwise
      fun f g => ¬ compare f.1 g.1 = .eq := by decide +kernel
  have hmem : (verb.name, verb) ∈ Verb.all.map fun verb => (verb.name, verb) :=
    List.mem_map.mpr ⟨verb, verb.mem_all, rfl⟩
  exact Std.ExtTreeMap.getElem?_ofList_of_mem Std.ReflCmp.compare_self hdistinct hmem

/-- No verb is found under another word. -/
theorem verb?_standard_eq_some_iff {word : String} {verb : Verb} :
    standard.verb? word = some verb ↔ word = verb.name := by
  constructor
  · intro h
    by_cases hword : word ∈ Verb.all.map Verb.name
    · obtain ⟨other, -, rfl⟩ := List.mem_map.mp hword
      rw [verb?_standard_name] at h
      rw [Option.some.inj h]
    · have hnone : standard.verb? word = none := by
        refine Std.ExtTreeMap.getElem?_ofList_of_contains_eq_false ?_
        simpa [List.map_map, Function.comp_def] using hword
      rw [hnone] at h
      cases h
  · rintro rfl
    exact verb?_standard_name verb

end Register

end MachineInterface
