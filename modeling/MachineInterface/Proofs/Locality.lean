import MachineInterface.Engine.Memory
import MachineInterface.Proofs.Lines
import MachineInterface.Proofs.Objects

/-!
# MachineInterface.Proofs.Locality

Commands are local.  A command writes only the objects that its name reaches
(`Command.writes`), which are few even where the engine names the members on the
way; and commands on objects and commands on stoppoints leave each other's part
of the session alone (`Act.command_locality`).
-/

namespace MachineInterface

variable {σ τ : Type}

/-- A command on `s` may create, change or delete the object of a name. -/
def Command.writes (s : Session) : Command → String → Prop
  | createVariable b, name => name = (s.choose b.name).1
  | deleteVariable target, name => name = target
  | assign target _, name => name = target
  | setFormat target _, name => name = target
  | evaluate target _, name => name = target
  | listChildren _ target _, name => Variable.Below target name
  | updateVariables _ target, name => target = "*" ∨ Variable.Below target name
  | _, _ => False

namespace Session

@[simp] theorem object?_choose (s : Session) (asked name : String) :
    (s.choose asked).2.object? name = s.object? name := by
  unfold choose
  split <;> rfl

@[simp] theorem generated_add (s : Session) (v : Variable) : (s.add v).generated = s.generated :=
  rfl

/-- Objects with other names are still there when some have been added. -/
theorem object?_addAll (s : Session) {members : List Variable} {name : String}
    (h : ∀ m ∈ members, m.name ≠ name) :
    (members.foldl Session.add s).object? name = s.object? name := by
  induction members generalizing s with
  | nil => rfl
  | cons m members ih =>
      have hm : m.name ≠ name := h m List.mem_cons_self
      have hrest : ∀ m ∈ members, m.name ≠ name :=
        fun m hmem => h m (List.mem_cons_of_mem _ hmem)
      rw [List.foldl_cons, ih (s.add m) hrest, object?_add, if_neg hm]

end Session

/-- A command leaves the objects alone that it does not write. -/
theorem Command.Effect.object?_eq {command : Command} {s t : Session} (h : command.Effect s t)
    (hs : s.Named) {name : String} (hname : ¬ command.writes s name) :
    t.object? name = s.object? name := by
  have hadd : ∀ {u : Session} {v : Variable}, v.name ≠ name →
      (u.add v).object? name = u.object? name := by
    intro u v hv
    rw [Session.object?_add, if_neg hv]
  cases h with
  | idle => rfl
  | chosen => exact Session.object?_choose s _ name
  | created hv =>
      rw [hadd fun heq => hname (by rw [Command.writes, ← hv, heq]), Session.object?_choose]
  | deleted => rw [Session.object?_remove, if_neg fun heq => hname heq.symm]
  | @assigned target _ _ v hv info =>
      exact hadd fun heq : v.name = name => hname (heq.symm.trans (hs target v hv))
  | @formatted target _ _ v hv info =>
      exact hadd fun heq : v.name = name => hname (heq.symm.trans (hs target v hv))
  | @evaluated target _ v hv info =>
      exact hadd fun heq : v.name = name => hname (heq.symm.trans (hs target v hv))
  | listed h =>
      refine Session.object?_addAll s fun m hm heq => hname ?_
      obtain ⟨rest, hrest⟩ := h m hm
      exact .inr ⟨rest, by rw [← heq, hrest]⟩
  | updated h => exact h.others name hname

/-- An update renews the objects that there are. -/
theorem Command.Effect.renewed {shown : PrintValues} {target : String} {s t : Session}
    (h : (Command.updateVariables shown target).Effect s t) (name : String) :
    Option.Rel Variable.Renewed (s.object? name) (t.object? name) := by
  cases h with
  | idle => exact (Session.Renews.refl (fun _ => True) s).renewed name
  | updated h => exact h.renewed name

/-- Every session that a run can reach keeps its objects under their own names. -/
theorem Adapter.named_run [Engine σ] [Sink τ] (config : Config) (engine : σ) (sink : τ)
    (register : Register) (stimuli : List (Stimulus σ)) :
    ((Adapter.new config engine sink).run register stimuli).session.Named :=
  Adapter.run_invariant (fun _ _ hs hst => hs.step hst) register (Session.named_new config) stimuli

namespace Act

variable [Engine σ] [Sink τ]

/-- A command on stoppoints leaves the objects alone. -/
theorem sameObjects_perform {command : Command} (h : command.onStoppoints = true)
    (a : Adapter σ τ) : a.session.SameObjects ((perform command).after a).session := by
  refine (walks_perform_of_onStoppoints h a).session_invariant
    (I := fun t => a.session.SameObjects t) (fun t u ht htu => ?_) ⟨rfl, rfl⟩
  have hsame := htu.sameObjects
  exact ⟨hsame.1.trans ht.1, hsame.2.trans ht.2⟩

/-- A command on objects leaves the stoppoints alone. -/
theorem sameStoppoints_perform {command : Command} (h : command.onStoppoints = false)
    (a : Adapter σ τ) :
    ((perform command).after a).session.numbering = a.session.numbering ∧
      ((perform command).after a).session.stoppoints = a.session.stoppoints := by
  refine (walks_perform_of_not_onStoppoints h a).session_invariant
    (I := fun t => t.numbering = a.session.numbering ∧ t.stoppoints = a.session.stoppoints)
    (fun t u ht htu => ?_) ⟨rfl, rfl⟩
  have hsame := htu.sameStoppoints
  exact ⟨hsame.1.trans ht.1, hsame.2.trans ht.2⟩

/-- What is about objects only, and is kept by a command on objects that the line asks
for, is kept by the line. -/
theorem objects_handleLine {I : Session → Prop}
    (hsame : ∀ s t, I s → s.SameObjects t → I t) {register : Register} {text : String}
    {a : Adapter σ τ} (ha : I a.session)
    (hperform : ∀ command (b : Adapter σ τ), register.command? text = some command →
      command.onStoppoints = false → b.session = a.session →
      I ((perform command).after b).session) :
    I ((handleLine register text).after a).session := by
  cases hcommand : register.command? text with
  | none =>
      rw [(handleLine_of_no_command hcommand a).1]
      exact ha
  | some command =>
      obtain ⟨journal, hsession, -, -⟩ := handleLine_of_command? hcommand a
      rw [hsession]
      cases hkind : command.onStoppoints with
      | true => exact hsame _ _ ha (sameObjects_perform hkind { a with journal })
      | false => exact hperform command { a with journal } hcommand hkind rfl

/-- **Locality**: whatever the engine answers, and whether the line succeeds or
fails, it changes only objects that its command writes: the named or generated
one, for a listing or an update those with the name and with names that follow
behind it and a dot, and for an update of `*` any.  An update neither creates nor
deletes an object and changes of each only the handle and the account of the
value.  Commands on objects change neither stoppoints nor their numbers, and
commands on stoppoints no objects. -/
theorem command_locality (register : Register) (text : String) {a : Adapter σ τ}
    (hs : a.session.Named) :
    let s := a.session
    let t := ((handleLine register text).after a).session
    (∀ command, register.command? text = some command →
      (∀ name, ¬ command.writes s name → t.object? name = s.object? name) ∧
      (∀ shown target, command = .updateVariables shown target →
        ∀ name, Option.Rel Variable.Renewed (s.object? name) (t.object? name)) ∧
      (command.onStoppoints = false → t.numbering = s.numbering ∧ t.stoppoints = s.stoppoints) ∧
      (command.onStoppoints = true → t.objects = s.objects)) ∧
    (register.command? text = none → t = s) ∧ t.Named := by
  intro s t
  refine ⟨fun command hcommand => ?_, fun hnone => ?_, ?_⟩
  · obtain ⟨journal, hsession, -, -⟩ := handleLine_of_command? hcommand a
    let b : Adapter σ τ := { a with journal }
    have ht : t = ((perform command).after b).session := hsession
    cases hkind : command.onStoppoints with
    | true =>
        have hobjects : t.objects = s.objects := by
          rw [ht]
          exact (sameObjects_perform hkind b).1
        refine ⟨fun name _ => ?_, ?_, by rintro ⟨⟩, fun _ => hobjects⟩
        · rw [Session.object?, hobjects, Session.object?]
        · rintro shown target rfl
          cases hkind
    | false =>
        have heffect : command.Effect s t := by
          rw [ht]
          exact effect_perform hkind (a := b) hs
        refine ⟨fun name => heffect.object?_eq hs, ?_, fun _ => ?_, by rintro ⟨⟩⟩
        · rintro shown target rfl
          exact heffect.renewed
        · rw [ht]
          exact sameStoppoints_perform hkind b
  · exact (handleLine_of_no_command hnone a).1
  · exact (walks_handleLine register text a).session_invariant (fun _ _ hs hst => hs.step hst) hs

end Act

/-- What is about objects only holds behind a run if the commands on objects that its
lines ask for keep it. -/
theorem Adapter.run_objects [Engine σ] [Sink τ] {I : Session → Prop}
    (hsame : ∀ s t, I s → s.SameObjects t → I t) (register : Register) {a : Adapter σ τ}
    (ha : I a.session) (hs : a.session.Named) (stimuli : List (Stimulus σ))
    (hperform : ∀ text command (b : Adapter σ τ), .line text ∈ stimuli →
      register.command? text = some command → command.onStoppoints = false →
      b.session.Named → I b.session → I ((Act.perform command).after b).session) :
    I (a.run register stimuli).session := by
  induction stimuli generalizing a with
  | nil => exact ha
  | cons stimulus stimuli ih =>
      have hnamed : ((Act.respond register stimulus).after a).session.Named :=
        (Act.walks_respond register stimulus a).session_invariant (fun _ _ hs hst => hs.step hst) hs
      have hstimulus : I ((Act.respond register stimulus).after a).session := by
        cases stimulus with
        | line text =>
            rw [Act.respond, Act.after_bind_pure]
            refine Act.objects_handleLine hsame ha fun command b hcommand hkind hb => ?_
            exact hperform text command b List.mem_cons_self hcommand hkind (hb ▸ hs) (hb ▸ ha)
        | notification n =>
            exact (Act.walks_handle n a).session_invariant (I := I)
              (fun _ _ hs hst => hsame _ _ hs (Session.NotificationStep.sameObjects hst)) ha
        | engine state => exact ha
      exact ih hstimulus hnamed fun text command b hmem =>
        hperform text command b (List.mem_cons_of_mem _ hmem)

/-- An update of `var1` reads its member `var1.x` again, but not `var10`. -/
theorem Memory.command_locality_memory :
    let before : Memory := {
      places := [("s", 0), ("y", 1)]
      cells := [⟨"...", [("x", 2)], false⟩, ⟨"10", [], false⟩, ⟨"1", [], false⟩] }
    let behind : Memory := { before with
      cells := [⟨"...", [("x", 2)], false⟩, ⟨"20", [], true⟩, ⟨"2", [], true⟩] }
    let a := (Adapter.new {} before Discard.discard).run .standard
      (["var-create var1 * s", "var-list-children var1", "var-create var10 * y"].map .line ++
        [.engine behind])
    let t := ((Act.handleLine .standard "var-update var1").after a).session
    a.session.Named ∧ t.object? "var10" = a.session.object? "var10" ∧
    (a.session.object? "var10").isSome ∧
    (a.session.object? "var1.x").map (·.info.value) = some "1" ∧
    (t.object? "var1.x").map (·.info.value) = some "2" := by
  intro before behind a t
  have hnamed : a.session.Named := Adapter.named_run {} before Discard.discard .standard _
  have hcommand : Register.standard.command? "var-update var1" =
      some (.updateVariables .no "var1") := by decide +kernel
  have hwrites : ¬ (Command.updateVariables .no "var1").writes a.session "var10" := by
    rintro (hall | hroot | ⟨rest, hrest⟩)
    · simp at hall
    · simp at hroot
    · have hlist := congrArg String.toList hrest
      simp [String.toList_append] at hlist
  obtain ⟨hlocal, -, -⟩ := Act.command_locality .standard "var-update var1" hnamed
  obtain ⟨hother, -, -, -⟩ := hlocal _ hcommand
  refine ⟨hnamed, hother "var10" hwrites, ?_⟩
  decide +kernel

end MachineInterface
