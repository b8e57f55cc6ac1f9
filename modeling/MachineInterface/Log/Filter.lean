import MachineInterface.Log.Level
import MachineInterface.Text.Blank

/-!
# MachineInterface.Log.Filter

Log filters: a comma list of directives `level`, `target` and `target=level`.
A directive with a target covers the targets that start with it; the longest
one that covers a target decides, and a target that none covers is off.
-/

namespace MachineInterface

/-- The most detailed level of a target's entries; `none` turns them off. -/
structure Directive where
  /-- Without a target the directive covers all targets. -/
  target : Option String
  level : Option Level
deriving DecidableEq, Repr

namespace Directive

open Text

def lower (cs : List Char) : List Char := cs.map Char.toLower

/-- Read a level, or `off`, in upper or lower case. -/
def level? (cs : List Char) : Option (Option Level) :=
  if lower cs = "off".toList then some none
  else (Level.all.find? fun l => lower l.name.toList = lower cs).map some

/-- Read a trimmed directive; a malformed one is passed over. -/
def parse (cs : List Char) : Option Directive :=
  match cs.splitOn '=' with
  | [[]] => none
  | [word] =>
    match level? word with
    | some level => some ⟨none, level⟩
    | none => some ⟨some (String.ofList word), some .trace⟩
  | [target, level] =>
    if trim level = [] then some ⟨some (String.ofList target), some .trace⟩
    else (level? (trim level)).map fun level => ⟨some (String.ofList target), level⟩
  | _ => none

/-- The directive covers a target. -/
def covers (d : Directive) (target : String) : Bool :=
  d.target.all fun own => own.toList.isPrefixOf target.toList

/-- Longer targets weigh more. -/
def weight (d : Directive) : Nat := (d.target.map String.utf8ByteSize).getD 0

end Directive

/-- Directives in ascending order of their weight, one for each target. -/
structure Filter where
  directives : List Directive
deriving Repr

namespace Filter

/-- Add a directive, in place of an earlier one for the same target. -/
def add (ds : List Directive) (d : Directive) : List Directive :=
  if ds.any (·.target = d.target) then ds.map fun e => if e.target = d.target then d else e
  else ds ++ [d]

/-- The part of a filter that holds directives.  Behind one slash stands a
pattern for texts, which says nothing about levels; more slashes spoil the
whole filter. -/
def directivePart (text : List Char) : List Char :=
  match text.splitOn '/' with
  | [part] | [part, _] => part
  | _ => []

/-- Read a filter; without a directive only errors are let through. -/
def parse (text : String) : Filter :=
  let parts := ((directivePart text.toList).splitOn ',').map Text.trim
  match (parts.filterMap Directive.parse).foldl add [] with
  | [] => ⟨[⟨none, some .error⟩]⟩
  | ds => ⟨ds.mergeSort fun d e => d.weight ≤ e.weight⟩

/-- The more detailed of two levels. -/
def moreDetailed (a b : Option Level) : Option Level :=
  if (a.map Level.rank).getD 0 < (b.map Level.rank).getD 0 then b else a

/-- The most detailed level that is on for some target. -/
def max (f : Filter) : Option Level := (f.directives.map (·.level)).foldl moreDetailed none

/-- Entries of a level are on for a target. -/
def isOn (f : Filter) (target : String) (level : Level) : Bool :=
  match f.directives.reverse.find? (·.covers target) with
  | some d => level.allowedBy d.level
  | none => false

end Filter

end MachineInterface
