import MachineInterface.Proofs.Makings

/-!
# MachineInterface.Proofs.Paths

The path to an object.  It leads from the expression of the root through the members, each
of which adds a step that depends on how it was listed (`Session.PathTo`), unless an object
on the way is missing (`Session.Missing`).  The session does not remember how a member was
listed, and reads off its name whether it has a name of its own; no name that the engine
gives to a member misleads it (`pathStep_of_madeBy`).
-/

namespace MachineInterface

variable {σ τ : Type}

/-! ## Steps -/

/-- The step to a member: by its name, or by its index if it has none. -/
def Making.step (member : String) (index : Nat) : String :=
  if member = "" then "[" ++ toString index ++ "]" else "." ++ member

/-- What a name ends with tells unnamed members from named ones, since the dot in front of
a name is no dollar sign. -/
theorem Session.pathStep_of_madeBy {v : Variable} {parent member : String} {index : Nat}
    (h : v.MadeBy (.listed parent member index)) : pathStep v = Making.step member index := by
  obtain ⟨hname, hexpression, -⟩ := h
  rw [Variable.childName_eq_step] at hname
  by_cases hmember : member = ""
  · rw [if_pos hmember] at hexpression
    rw [Variable.step, if_pos hmember] at hname
    have hsuffix : (".$" ++ v.expression).toList <:+ v.name.toList :=
      ⟨parent.toList, by simp [hname, hexpression]⟩
    rw [pathStep, if_pos (List.isSuffixOf_iff_suffix.mpr hsuffix), Making.step, if_pos hmember,
      hexpression]
    rfl
  · rw [if_neg hmember] at hexpression
    rw [Variable.step, if_neg hmember] at hname
    have hsuffix : ¬ (".$" ++ v.expression).toList <:+ v.name.toList := by
      rintro ⟨front, hfront⟩
      rw [hname, hexpression] at hfront
      simp only [String.toList_append, ← List.append_assoc, List.append_cancel_right_eq] at hfront
      have hlast := congrArg List.getLast? hfront
      simp at hlast
    rw [pathStep, if_neg fun h => hsuffix (List.isSuffixOf_iff_suffix.mp h), Making.step,
      if_neg hmember, hexpression]
    rfl

/-! ## Parents -/

namespace Session

variable {s : Session} {makings : Makings}

/-- A parent's name is shorter than its member's. -/
def ParentsShorter (s : Session) : Prop :=
  ∀ name v parent, s.object? name = some v → v.parent = some parent → parent.length < name.length

theorem Each.parentsShorter (h : s.Each (Variable.Made makings)) : s.ParentsShorter := by
  intro name v parent hv hparent
  obtain ⟨making, -, hmade⟩ := h.holds name v hv
  cases making with
  | created expression =>
      rw [hmade.2] at hparent
      cases hparent
  | listed other member index =>
      obtain ⟨hname, -, hother⟩ := hmade
      rw [hother] at hparent
      cases hparent
      rw [← h.named name v hv, hname]
      exact Variable.length_lt_childName parent member index

theorem ParentsShorter.parent_eq_none (h : s.ParentsShorter) {name : String} {v : Variable}
    (hv : s.object? name = some v) (hname : name.length = 0) : v.parent = none := by
  cases hparent : v.parent with
  | none => rfl
  | some parent =>
      have := h name v parent hv hparent
      omega

/-- The path does not depend on the bound on the number of ancestors. -/
theorem pathTo_eq_pathTo (h : s.ParentsShorter) {m n : Nat} {name : String} {v : Variable}
    (hv : s.object? name = some v) (hm : name.length ≤ m) (hn : name.length ≤ n) :
    s.pathTo m v = s.pathTo n v := by
  induction m generalizing n name v with
  | zero =>
      cases n with
      | zero => rfl
      | succ n => simp [pathTo, h.parent_eq_none hv (by omega)]
  | succ m ih =>
      cases n with
      | zero => simp [pathTo, h.parent_eq_none hv (by omega)]
      | succ n =>
          cases hparent : v.parent with
          | none => simp [pathTo, hparent]
          | some parent =>
              have hshorter := h name v parent hv hparent
              cases hobject : s.object? parent with
              | none => simp [pathTo, hparent, hobject]
              | some p =>
                  have hpath := ih hobject (n := n) (by omega) (by omega)
                  simp only [pathTo, hparent, hobject, hpath]

/-- The path to an object is that to its parent with one step more. -/
theorem path_eq (hs : s.Named) (h : s.ParentsShorter) {name : String} {v : Variable}
    (hv : s.object? name = some v) :
    s.path v = match v.parent with
      | none => .ok v.expression
      | some parent =>
        match s.object? parent with
        | none => .error (.variableNotFound parent)
        | some p => (s.path p).map (· ++ pathStep v) := by
  rw [path, hs name v hv, pathTo_eq_pathTo h hv (Nat.le_refl _) (Nat.le_succ _), pathTo]
  cases hparent : v.parent with
  | none => rfl
  | some parent =>
      have hshorter := h name v parent hv hparent
      cases hobject : s.object? parent with
      | none => simp only [hobject]
      | some p =>
          have hpath : s.pathTo name.length p = s.path p := by
            rw [path, hs parent p hobject]
            exact pathTo_eq_pathTo h hobject (Nat.le_of_lt hshorter) (Nat.le_refl _)
          simp only [hobject, hpath]

/-! ## Paths -/

/-- The path to the object of a name, as the latest makings of it and of its ancestors tell
it.  All of them are there. -/
inductive PathTo (s : Session) (makings : Makings) : String → String → Prop
  | root {name expression : String} {v : Variable} (hv : s.object? name = some v)
      (hmade : makings.last? name = some (.created expression)) :
    PathTo s makings name expression
  | named {name parent member path : String} {index : Nat} {v : Variable}
      (hv : s.object? name = some v)
      (hmade : makings.last? name = some (.listed parent member index)) (hmember : member ≠ "")
      (hparent : PathTo s makings parent path) :
    PathTo s makings name (path ++ "." ++ member)
  | unnamed {name parent path : String} {index : Nat} {v : Variable}
      (hv : s.object? name = some v)
      (hmade : makings.last? name = some (.listed parent "" index))
      (hparent : PathTo s makings parent path) :
    PathTo s makings name (path ++ "[" ++ toString index ++ "]")

/-- The nearest ancestor of the object of a name that is not there. -/
inductive Missing (s : Session) (makings : Makings) : String → String → Prop
  | parent {name parent member : String} {index : Nat} {v : Variable}
      (hv : s.object? name = some v)
      (hmade : makings.last? name = some (.listed parent member index))
      (hparent : s.object? parent = none) :
    Missing s makings name parent
  | above {name parent member missing : String} {index : Nat} {v : Variable}
      (hv : s.object? name = some v)
      (hmade : makings.last? name = some (.listed parent member index))
      (hparent : Missing s makings parent missing) :
    Missing s makings name missing

theorem PathTo.exists_object? {name path : String} (h : s.PathTo makings name path) :
    ∃ v, s.object? name = some v := by
  cases h <;> exact ⟨_, ‹_›⟩

theorem Missing.exists_object? {name missing : String} (h : s.Missing makings name missing) :
    ∃ v, s.object? name = some v := by
  cases h <;> exact ⟨_, ‹_›⟩

section Made

variable (h : s.Each (Variable.Made makings)) {name : String} {v : Variable}
  (hv : s.object? name = some v)

include h hv

theorem madeBy_of_last? {making : Making} (hmade : makings.last? name = some making) :
    v.MadeBy making := by
  obtain ⟨other, hlast, hother⟩ := h.holds name v hv
  rw [h.named name v hv, hmade] at hlast
  cases hlast
  exact hother

/-- The path to a root is its expression. -/
theorem path_of_created {expression : String}
    (hmade : makings.last? name = some (.created expression)) : s.path v = .ok expression := by
  obtain ⟨hexpression, hparent⟩ := madeBy_of_last? h hv hmade
  rw [path_eq h.named h.parentsShorter hv, hparent, ← hexpression]

/-- The path to a member is one step longer than that to its parent. -/
theorem path_of_listed {parent member : String} {index : Nat}
    (hmade : makings.last? name = some (.listed parent member index)) :
    s.path v = match s.object? parent with
      | none => .error (.variableNotFound parent)
      | some p => (s.path p).map (· ++ Making.step member index) := by
  have hlisted := madeBy_of_last? h hv hmade
  rw [path_eq h.named h.parentsShorter hv, hlisted.parent_eq, pathStep_of_madeBy hlisted]
  rfl

end Made

theorem PathTo.path_eq (h : s.Each (Variable.Made makings)) {name path : String}
    (hpath : s.PathTo makings name path) {v : Variable} (hv : s.object? name = some v) :
    s.path v = .ok path := by
  induction hpath generalizing v with
  | root _ hmade => exact path_of_created h hv hmade
  | named _ hmade hmember hparent ih =>
      obtain ⟨p, hp⟩ := hparent.exists_object?
      rw [path_of_listed h hv hmade, hp]
      simp [ih hp, Except.map, Making.step, hmember, String.append_assoc]
  | unnamed _ hmade hparent ih =>
      obtain ⟨p, hp⟩ := hparent.exists_object?
      rw [path_of_listed h hv hmade, hp]
      simp [ih hp, Except.map, Making.step, String.append_assoc]

theorem Missing.path_eq (h : s.Each (Variable.Made makings)) {name missing : String}
    (hmissing : s.Missing makings name missing) {v : Variable} (hv : s.object? name = some v) :
    s.path v = .error (.variableNotFound missing) := by
  induction hmissing generalizing v with
  | parent _ hmade hparent => rw [path_of_listed h hv hmade, hparent]
  | above _ hmade hparent ih =>
      obtain ⟨p, hp⟩ := hparent.exists_object?
      rw [path_of_listed h hv hmade, hp]
      simp [ih hp, Except.map]

end Session

/-! ## Answers -/

namespace Memory

/-- A value whose second member has a name as it is made up for members without one, as the
third member is. -/
def dollar : Memory where
  places := [("s", 0)]
  cells := [
    { text := "{...}", members := [("x", 1), ("$1", 2), ("", 3)] },
    { text := "1" }, { text := "2" }, { text := "3" }]

end Memory

end MachineInterface
