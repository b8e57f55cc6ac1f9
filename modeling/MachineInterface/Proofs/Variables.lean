import MachineInterface.Command.Variables
import MachineInterface.Proofs.Stoppoints

/-!
# MachineInterface.Proofs.Variables

What the commands on variable objects can do to a session
(`Session.VariableStep`): they leave the stoppoints and their numbers alone, and
ask the engine for values only (`Request.isValueAccess`).
-/

namespace MachineInterface

variable {σ τ α β : Type}

/-- A change of the session by a command on variable objects. -/
inductive Session.VariableStep : Session → Option Record → Session → Prop
  | add {s : Session} (v : Variable) : VariableStep s none (s.add v)
  | remove {s : Session} (name : String) : VariableStep s none (s.remove name)
  | name {s : Session} : VariableStep s none s.nextName.2

/-- The requests for values. -/
def Request.isValueAccess : Request → Prop
  | resolveValue .. | valueInfo .. | valueChanged _ | member .. | assignValue .. => True
  | _ => False

namespace Act

open Session (VariableStep)

section Objects

variable [Sink τ] {S : Session → Option Record → Session → Prop} {E : σ → σ → Prop}

theorem walks_object (name : String) : Walks S E (object name : Act σ τ Variable) := by
  refine walks_session.bind fun s => ?_
  cases s.object? name with
  | some v => exact walks_pure v
  | none => exact walks_throw _

theorem walks_chooseName (name : String) :
    Walks VariableStep E (chooseName name : Act σ τ String) := by
  unfold chooseName
  split
  · exact walks_inSession fun _ => .name
  · exact walks_pure name

theorem walks_deleteVariable (name : String) :
    Walks VariableStep E (deleteVariable name : Act σ τ Results) := by
  refine walks_session.bind fun s => ?_
  cases s.object? name with
  | some _ => exact (walks_modifySession fun _ => .remove name).bind fun _ => walks_pure _
  | none => exact (walks_say _ _).bind fun _ => walks_pure _

theorem walks_pathExpression (name : String) :
    Walks S E (pathExpression name : Act σ τ Results) :=
  (walks_object name).bind fun _ => walks_session.bind fun _ =>
    (walks_ofExcept _).bind fun _ => walks_pure _

theorem walks_showAttributes (name : String) :
    Walks S E (showAttributes name : Act σ τ Results) :=
  (walks_object name).bind fun _ => walks_pure _

end Objects

variable [Engine σ] [Sink τ]

/-- The step changes objects only, and asks for values only. -/
abbrev OnObjects (step : Act σ τ α) : Prop :=
  Walks VariableStep (Engine.Asked Request.isValueAccess) step

theorem onObjects_demandAsk {request : Request} {f : request.Answer → Except EngineError α}
    {next : α → Act σ τ β} (hrequest : request.isValueAccess) (h : ∀ v, OnObjects (next v)) :
    OnObjects (do next (← demand (f (← ask request)))) :=
  walks_demandAsk (Engine.asked hrequest) h

/-! ## Creation -/

theorem walks_bindValue (name expression : String) (thread frame : Option Nat) :
    OnObjects (bindValue name expression thread frame : Act σ τ Variable) :=
  onObjects_demandAsk trivial fun _ => walks_session.bind fun _ =>
    onObjects_demandAsk trivial fun _ => (walks_modifySession fun _ => .add _).bind fun _ =>
      walks_pure _

theorem walks_createVariable (b : Binding) : OnObjects (createVariable b : Act σ τ Results) := by
  refine (walks_chooseName b.name).bind fun name => ?_
  refine (walks_ofExcept _).bind fun thread => (walks_ofExcept _).bind fun frame => ?_
  have hbind := (walks_bindValue name b.expression thread frame (σ := σ) (τ := τ)).bind
    fun v => walks_pure v.createResults
  by_cases haddress : b.frameAddress ≠ "*" ∧ b.frameAddress ≠ "@"
  · rw [if_pos haddress]
    exact (walks_say _ _).bind fun _ => hbind
  · rw [if_neg haddress]
    exact hbind

/-! ## Values -/

theorem walks_refresh (v : Variable) : OnObjects (refresh v : Act σ τ Variable) :=
  onObjects_demandAsk trivial fun _ => (walks_modifySession fun _ => .add _).bind fun _ =>
    walks_pure _

theorem walks_assign (name expression : String) :
    OnObjects (assign name expression : Act σ τ Results) :=
  (walks_object name).bind fun v => onObjects_demandAsk trivial fun _ =>
    (walks_refresh v).bind fun _ => walks_pure _

theorem walks_setFormat (name : String) (format : Format) :
    OnObjects (setFormat name format : Act σ τ Results) :=
  (walks_object name).bind fun _ => (walks_refresh _).bind fun _ => walks_pure _

theorem walks_evaluate (name : String) (format : Option String) :
    OnObjects (evaluate name format : Act σ τ Results) := by
  refine (walks_object name).bind fun v => ?_
  cases format with
  | none => exact (walks_refresh v).bind fun _ => walks_pure _
  | some text =>
      cases hformat : Format.ofName? text with
      | none =>
          simp only [hformat]
          exact walks_throw _
      | some format =>
          simp only [hformat]
          exact onObjects_demandAsk trivial fun _ => walks_pure _

/-! ## Members -/

theorem walks_listMember (v : Variable) (index : Nat) :
    OnObjects (listMember v index : Act σ τ Variable) :=
  onObjects_demandAsk trivial fun _ => onObjects_demandAsk trivial fun _ =>
    (walks_modifySession fun _ => .add _).bind fun _ => walks_pure _

theorem walks_listMembers (v : Variable) (indices : List Nat) :
    OnObjects (listMembers v indices : Act σ τ (List Variable)) := by
  induction indices with
  | nil => exact walks_pure _
  | cons index indices ih =>
      exact (walks_listMember v index).bind fun _ => ih.bind fun _ => walks_pure _

theorem walks_listChildren (shown : PrintValues) (name : String) (window : Option (Int × Int)) :
    OnObjects (listChildren shown name window : Act σ τ Results) :=
  (walks_object name).bind fun v => (walks_listMembers v _).bind fun _ => walks_pure _

/-! ## Updates -/

omit [Sink τ] in
theorem asks_reread (v : Variable) :
    Asks Request.isValueAccess (reread v : Act σ τ (Variable × Bool)) := by
  unfold reread
  cases v.origin with
  | evaluated =>
      exact .bind (.ask trivial) fun _ => .bind (.demand _) fun _ =>
        .bind (.ask trivial) fun _ => .bind (.demand _) fun _ => .pure _
  | plain =>
      have hchanged : Request.isValueAccess (.valueChanged v.handle) := trivial
      refine Asks.bind (.ask hchanged) fun changed => ?_
      cases changed with
      | false => exact .pure _
      | true => exact .bind (.ask trivial) fun _ => .bind (.demand _) fun _ => .pure _

theorem walks_updateObject (v : Variable) :
    OnObjects (updateObject v : Act σ τ (Variable × Bool)) :=
  ((asks_reread v).walks _).bind fun _ => (walks_modifySession fun _ => .add _).bind fun _ =>
    walks_pure _

section Visits

variable {visit : Variable → Act σ τ Visit}

theorem walks_visitMember (hvisit : ∀ v, OnObjects (visit v)) (v : Variable) (index : Nat) :
    OnObjects (visitMember visit v index) := by
  refine (walks_ask (.member v.handle index) trivial).bind fun r => ?_
  refine (walks_orMute _).bind fun member => ?_
  cases member with
  | none => exact walks_pure _
  | some member =>
      refine walks_session.bind fun s => ?_
      cases s.object? (Variable.childName v.name member.name index) with
      | none => exact walks_pure _
      | some child => exact (hvisit child).attempt.bind fun outcome => walks_orMute outcome

theorem walks_visitMembers (hvisit : ∀ v, OnObjects (visit v)) (v : Variable)
    (indices : List Nat) : OnObjects (visitMembers visit v indices) := by
  induction indices with
  | nil => exact walks_pure _
  | cons index indices ih =>
      exact (walks_visitMember hvisit v index).bind fun _ => ih.bind fun _ => walks_pure _

theorem walks_visitWith (hvisit : ∀ v, OnObjects (visit v)) (v : Variable) :
    OnObjects (visitWith visit v) :=
  (walks_updateObject v).bind fun _ => (walks_visitMembers hvisit _ _).bind fun _ => walks_pure _

end Visits

theorem walks_visitTo (depth : Nat) (v : Variable) :
    OnObjects (visitTo depth v : Act σ τ Visit) := by
  induction depth generalizing v with
  | zero => exact walks_visitWith (fun _ => walks_pure _) v
  | succ depth ih => exact walks_visitWith ih v

theorem walks_visitTree (v : Variable) : OnObjects (visitTree v : Act σ τ Visit) :=
  walks_session.bind fun _ => walks_visitTo _ v

theorem walks_visitRoots (names : List String) :
    OnObjects (visitRoots names : Act σ τ (List Visit)) := by
  induction names with
  | nil => exact walks_pure _
  | cons name names ih =>
      refine walks_session.bind fun s => ?_
      cases (s.object? name).filter (·.parent.isNone) with
      | none => exact ih
      | some root =>
          exact (walks_visitTree root).attempt.bind fun outcome =>
            (walks_orMute outcome).bind fun _ => ih.bind fun _ => walks_pure _

theorem walks_visitNamed (name : String) : OnObjects (visitNamed name : Act σ τ (List Visit)) := by
  unfold visitNamed
  split
  · exact walks_session.bind fun s => walks_visitRoots s.objectNames
  · exact (walks_object name).bind fun v => (walks_visitTree v).bind fun _ => walks_pure _

/-! ## Failures on the way -/

section Failures

omit [Sink τ]

variable {P : Error → Prop}

/-- Members are visited without failure, whatever becomes of them. -/
theorem failsBy_visitMembers (visit : Variable → Act σ τ Visit) (v : Variable)
    (indices : List Nat) : FailsBy P (visitMembers visit v indices) := by
  induction indices with
  | nil => exact failsBy_of_ok fun _ => ⟨_, _, rfl⟩
  | cons index indices ih =>
      have hmember : FailsBy P (visitMember visit v index) := by
        refine failsBy_bind_of_ok (fun _ => ⟨_, _, rfl⟩) fun r => ?_
        refine (failsBy_orMute _).bind fun member => ?_
        cases member with
        | none => exact failsBy_of_ok fun _ => ⟨_, _, rfl⟩
        | some member =>
            refine failsBy_bind_of_ok (fun _ => ⟨_, _, rfl⟩) fun s => ?_
            cases s.object? (Variable.childName v.name member.name index) with
            | none => exact failsBy_of_ok fun _ => ⟨_, _, rfl⟩
            | some child => exact (failsBy_attempt _).bind fun outcome => failsBy_orMute outcome
      exact hmember.bind fun _ => ih.bind_pure _

theorem failsBy_visitRoots (names : List String) :
    FailsBy P (visitRoots names : Act σ τ (List Visit)) := by
  induction names with
  | nil => exact failsBy_of_ok fun _ => ⟨_, _, rfl⟩
  | cons name names ih =>
      refine failsBy_bind_of_ok (fun _ => ⟨_, _, rfl⟩) fun s => ?_
      cases (s.object? name).filter (·.parent.isNone) with
      | none => exact ih
      | some root =>
          exact (failsBy_attempt _).bind fun outcome => (failsBy_orMute outcome).bind fun _ =>
            ih.bind_pure _

end Failures

end Act

end MachineInterface
