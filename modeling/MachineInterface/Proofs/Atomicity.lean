import MachineInterface.Engine.Memory
import MachineInterface.Proofs.Lines
import MachineInterface.Proofs.Objects

/-!
# MachineInterface.Proofs.Atomicity

Verbs that change the session at once or not at all (`Verb.atomic`).  They ask the
engine first and change the session last; an update goes on behind its first
change, but nothing fails there any more.  So a line that is answered with an
error leaves the session as it was (`Act.unchanged_of_error`), up to the counter
of generated names, which a creation moves before it asks.
-/

namespace MachineInterface

variable {σ τ : Type}

/-- The verbs that change the session at once or not at all. -/
def Verb.atomic : List Verb :=
  [breakAfter, breakCondition, varCreate, varDelete, varUpdate, varAssign, varSetFormat,
    varEvaluateExpression, varInfoPathExpression, varShowAttributes]

namespace Act

variable [Engine σ]

/-! ## Stoppoints -/

theorem atomic_ignoreHits [Sink τ] (number : Int) (count : Nat) (a : Adapter σ τ) :
    Atomic (fun _ _ => True) (ignoreHits number count) a := by
  have hresolve := (walks_resolve (S := Session.Same) "number" number).session_eq a
  refine Atomic.bind hresolve fun found b _ _ => atomic_demandAsk fun _ c _ => ?_
  exact atomic_of_ok rfl trivial

theorem atomic_setCondition [Sink τ] (number : Int) (condition : Option String) (a : Adapter σ τ) :
    Atomic (fun _ _ => True) (setCondition number condition) a := by
  have hresolve := (walks_resolve (S := Session.Same) "number" number).session_eq a
  refine Atomic.bind hresolve fun found b _ _ => atomic_demandAsk fun _ c _ => ?_
  exact atomic_of_ok rfl trivial

/-! ## Updates -/

/-- Behind the update of the first object its members are visited, whatever
becomes of them. -/
theorem atomic_visitWith (visit : Variable → Act σ τ Visit) (v : Variable) (a : Adapter σ τ) :
    Atomic (fun _ _ => True) (visitWith visit v) a := by
  have hreread := (asks_reread v).session_eq a
  have hupdate : Atomic (fun _ _ => True) (updateObject v) a :=
    Atomic.bind hreread fun r b _ _ => atomic_of_ok rfl trivial
  exact hupdate.bind_safe fun r => (failsBy_visitMembers visit _ _).bind_pure _

theorem atomic_visitTree (v : Variable) (a : Adapter σ τ) :
    Atomic (fun _ _ => True) (visitTree v) a := by
  refine Atomic.bind rfl fun s b _ _ => ?_
  cases longest s.objectNames - v.name.length with
  | zero => exact atomic_visitWith _ v b
  | succ depth => exact atomic_visitWith _ v b

theorem atomic_visitNamed (name : String) (a : Adapter σ τ) :
    Atomic (fun _ _ => True) (visitNamed name) a := by
  unfold visitNamed
  by_cases hname : name = "*"
  · rw [if_pos hname]
    exact Atomic.bind rfl fun s b _ _ => atomic_of_safe (failsBy_visitRoots s.objectNames) b
  · rw [if_neg hname]
    exact atomic_object_bind fun v _ => (atomic_visitTree v a).bind_safe fun visit =>
      failsBy_of_ok fun _ => ⟨_, _, rfl⟩

/-! ## Commands -/

variable [Sink τ]

/-- A command of an atomic verb that fails may have chosen a name, and nothing else. -/
theorem session_of_perform_error {command : Command} (h : command.verb ∈ Verb.atomic)
    {a b : Adapter σ τ} {e : Error} (herror : perform command a = .error e b) :
    b.session = { a.session with generated := b.session.generated } := by
  have hsame : b.session = a.session →
      b.session = { a.session with generated := b.session.generated } := by
    intro hb
    rw [hb]
  cases command with
  | ignoreHits number count =>
      exact hsame ((atomic_ignoreHits number count a).session_of_error herror)
  | setCondition number condition =>
      exact hsame ((atomic_setCondition number condition a).session_of_error herror)
  | createVariable binding =>
      have hcreate := leads_createVariable binding a
      rw [hcreate.of_error herror]
      unfold Session.choose
      split <;> rfl
  | deleteVariable name => exact hsame ((atomic_deleteVariable name a).session_of_error herror)
  | updateVariables shown name =>
      rw [perform, bind_pure_eq_error] at herror
      exact hsame ((atomic_visitNamed name a).session_of_error herror)
  | assign name expression =>
      exact hsame ((atomic_assign name expression a).session_of_error herror)
  | setFormat name format =>
      exact hsame ((atomic_setFormat name format a).session_of_error herror)
  | evaluate name format => exact hsame ((atomic_evaluate name format a).session_of_error herror)
  | pathExpression name =>
      have hsession := session_pathExpression name a
      rw [perform] at herror
      rw [after_of_error herror] at hsession
      exact hsame hsession
  | showAttributes name =>
      have hsession := session_showAttributes name a
      rw [perform] at herror
      rw [after_of_error herror] at hsession
      exact hsame hsession
  | enable enabled numbers => cases enabled <;> simp [Command.verb, Verb.atomic] at h
  | insert _ | delete _ | watch _ | listChildren _ _ _ | exit =>
      simp [Command.verb, Verb.atomic] at h

/-- **Atomicity**: whatever the engine answers at any point, if the answer to a
line of an atomic verb is an error, of whatever kind, the session is as it was
before the line, up to the counter of generated names. -/
theorem unchanged_of_error {register : Register} {text : String} {line : Line} {verb : Verb}
    (hline : Line.parse text = .ok (some line)) (hverb : register.verb? line.verb = some verb)
    (hatomic : verb ∈ Verb.atomic) {a : Adapter σ τ} {record : ResultRecord}
    (hanswer : a.answer? register text = some record) (herror : record.resultClass = .error) :
    let t := ((handleLine register text).after a).session
    t = { a.session with generated := t.generated } := by
  intro t
  cases hcommand : register.command? text with
  | none =>
      have ht : t = a.session := (handleLine_of_no_command hcommand a).1
      rw [ht]
  | some command =>
      have hkind : command.verb = verb := verb_of_command? hline hverb hcommand
      rw [← hkind] at hatomic
      obtain ⟨journal, hsession, -, hanswered⟩ := handleLine_of_command? hcommand a
      have ht : t = ((perform command).after { a with journal }).session := hsession
      obtain ⟨results, d, -, token, hrecord⟩ | ⟨e, d, hperform, -⟩ := hanswered
      · rw [hanswer] at hrecord
        cases hrecord
        cases command <;> cases herror
      · rw [ht, after_of_error hperform]
        exact session_of_perform_error (a := { a with journal }) hatomic hperform

end Act

/-- A name is made up for an expression that the engine does not know, and the
object of `x` stays as it is. -/
theorem Memory.unchanged_of_error_pair :
    let a := (Adapter.new {} pair Discard.discard).run .standard [.line "var-create var1 * x"]
    let t := ((Act.handleLine .standard "2-var-create - * z").after a).session
    (a.answer? .standard "2-var-create - * z").map (·.resultClass) = some .error ∧
    t.generated = 1 ∧ t = { a.session with generated := t.generated } := by
  intro a t
  have hline : Line.parse "2-var-create - * z" = .ok (some ⟨some "2", "var-create", "- * z"⟩) := rfl
  have hevaluated : (a.answer? .standard "2-var-create - * z").map (·.resultClass) =
      some .error ∧ t.generated = 1 := by decide +kernel
  obtain ⟨record, hrecord, herror⟩ := Option.map_eq_some_iff.mp hevaluated.1
  have hunchanged := Act.unchanged_of_error hline (Register.verb?_standard_name .varCreate)
    (by decide) hrecord herror
  exact ⟨hevaluated.1, hevaluated.2, hunchanged⟩

end MachineInterface
