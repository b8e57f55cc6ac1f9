/-!
# MachineInterface.Stoppoint.Handle

Native handles: what an engine calls its breakpoints and watchpoints.  Both
kinds are numbered on their own, so a native number alone names nothing.
-/

namespace MachineInterface

/-- What makes a stoppoint stop the program: reaching a place, or touching
memory. -/
inductive StoppointKind
  | breakpoint
  | watchpoint
deriving DecidableEq, Repr, Inhabited

namespace StoppointKind

/-- The word for a kind in records and messages. -/
def name : StoppointKind → String
  | breakpoint => "breakpoint"
  | watchpoint => "watchpoint"

/-- Breakpoints come before watchpoints. -/
def rank : StoppointKind → Nat
  | breakpoint => 0
  | watchpoint => 1

end StoppointKind

/-- The engine's own name of a stoppoint. -/
structure Handle where
  /-- The engine's number, counted for each kind on its own. -/
  native : Nat
  kind : StoppointKind
deriving DecidableEq, Repr, Inhabited

namespace Handle

/-- Handles are ordered by native number, then by kind. -/
instance : Ord Handle :=
  ⟨compareLex (compareOn Handle.native) (compareOn (StoppointKind.rank ∘ Handle.kind))⟩

instance : Std.TransOrd Handle :=
  inferInstanceAs (Std.TransCmp
    (compareLex (compareOn Handle.native) (compareOn (StoppointKind.rank ∘ Handle.kind))))

instance : Std.LawfulEqOrd Handle where
  eq_of_compare {a b} h := by
    obtain ⟨n, k⟩ := a
    obtain ⟨m, l⟩ := b
    change ((compare n m).then (compare k.rank l.rank)) = .eq at h
    obtain ⟨hn, hk⟩ := Ordering.then_eq_eq.1 h
    obtain rfl := Nat.compare_eq_eq.1 hn
    cases k <;> cases l <;> first | rfl | exact absurd hk (by decide)

end Handle

end MachineInterface
