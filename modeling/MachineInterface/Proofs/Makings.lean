import MachineInterface.Proofs.Lineage
import MachineInterface.Proofs.Listings

/-!
# MachineInterface.Proofs.Makings

What made the objects of a session.  A line makes objects by creating a root or by listing
members, and the last one that made an object of a name has given it its expression and its
parent: whatever happens afterwards keeps them (`Adapter.made_run`).
-/

namespace MachineInterface

variable {σ τ : Type}

/-! ## Makings -/

/-- How an object is made. -/
inductive Making
  /-- It is created for an expression. -/
  | created (expression : String)
  /-- It is listed as the member of an object with an index. -/
  | listed (parent member : String) (index : Nat)
deriving DecidableEq, Repr

/-- The object that the made one is a member of. -/
def Making.parent? : Making → Option String
  | created _ => none
  | listed parent _ _ => some parent

/-- The object is as it was made, but for its value and format. -/
def Variable.MadeBy (v : Variable) : Making → Prop
  | .created expression => v.expression = expression ∧ v.parent = none
  | .listed parent member index =>
    v.name = childName parent member index ∧
    v.expression = (if member = "" then toString index else member) ∧ v.parent = some parent

theorem Variable.MadeBy.parent_eq {v : Variable} {making : Making} (h : v.MadeBy making) :
    v.parent = making.parent? := by
  cases making with
  | created expression => exact h.2
  | listed parent member index => exact h.2.2

theorem Variable.MadeBy.renewed {v w : Variable} {making : Making} (h : v.MadeBy making)
    (hw : v.Renewed w) : w.MadeBy making := by
  obtain ⟨handle, info, rfl⟩ := hw
  cases making <;> exact h

/-- Makings of objects and their names, the latest at the end. -/
abbrev Makings := List (String × Making)

namespace Makings

/-- The latest making of an object of this name. -/
def last? (makings : Makings) (name : String) : Option Making :=
  (makings.filter (·.1 = name)).getLast?.map (·.2)

@[simp] theorem last?_append (earlier later : Makings) (name : String) :
    (earlier ++ later).last? name = (later.last? name).or (earlier.last? name) := by
  simp only [last?, List.filter_append, List.getLast?_append]
  cases (later.filter (·.1 = name)).getLast? <;> simp

end Makings

/-- The object is as the latest of these makings has made it. -/
def Variable.Made (makings : Makings) (v : Variable) : Prop :=
  ∃ making, makings.last? v.name = some making ∧ v.MadeBy making

theorem Variable.Made.renewed {makings : Makings} {v w : Variable} (h : v.Made makings)
    (hw : v.Renewed w) : w.Made makings := by
  obtain ⟨making, hlast, hmade⟩ := h
  exact ⟨making, hw.name_eq ▸ hlast, hmade.renewed hw⟩

section Makings

variable [Engine σ] [Sink τ]

/-- What makes an object of a told member. -/
def Told.making (parent : String) (t : Told) : String × Making :=
  (Variable.childName parent t.member.name t.index, .listed parent t.member.name t.index)

/-- The objects that a line makes: a root if it creates one, and the members that it is
told of if it lists some, also when the engine refuses another. -/
def Register.makings (register : Register) (a : Adapter σ τ) (text : String) : Makings :=
  match register.command? text with
  | some (.createVariable b) =>
    if (a.answer? register text).map (·.resultClass) = some .done then
      [((a.session.choose b.name).1, .created b.expression)]
    else []
  | some (.listChildren _ name window) =>
    match a.session.object? name with
    | none => []
    | some v => (Engine.tell v (v.indices window) a.engine).told.map (Told.making name)
  | _ => []

/-- Only lines make objects. -/
def Stimulus.makings (register : Register) (a : Adapter σ τ) : Stimulus σ → Makings
  | .line text => register.makings a text
  | .notification _ | .engine _ => []

/-- The objects that a run makes. -/
def Adapter.makings (register : Register) (a : Adapter σ τ) : List (Stimulus σ) → Makings
  | [] => []
  | stimulus :: stimuli =>
    stimulus.makings register a ++
    Adapter.makings register ((Act.respond register stimulus).after a) stimuli

end Makings

/-! ## Objects as they were made -/

namespace Session

variable {s : Session} {makings : Makings}

/-- A new object is as it is made, and the others stay as they were made. -/
theorem Each.made_add (h : s.Each (Variable.Made makings)) {v : Variable} {making : Making}
    (hv : v.MadeBy making) :
    (s.add v).Each (Variable.Made (makings ++ [(v.name, making)])) where
  named := h.named.add v
  holds name w hw := by
    rw [object?_add] at hw
    by_cases hname : v.name = name
    · rw [if_pos hname] at hw
      cases hw
      exact ⟨making, by simp [Makings.last?], hv⟩
    · rw [if_neg hname] at hw
      obtain ⟨other, hlast, hmade⟩ := h.holds name w hw
      have hother : v.name ≠ w.name := by rwa [h.named name w hw]
      refine ⟨other, ?_, hmade⟩
      rw [Makings.last?_append]
      simpa [Makings.last?, hother] using hlast

theorem Each.made_addAll (h : s.Each (Variable.Made makings)) (v : Variable) (told : List Told) :
    ((told.map v.child).foldl Session.add s).Each
      (Variable.Made (makings ++ told.map (Told.making v.name))) := by
  induction told generalizing s makings with
  | nil => simpa using h
  | cons t told ih =>
      have hchild : (v.child t).MadeBy (.listed v.name t.member.name t.index) := ⟨rfl, rfl, rfl⟩
      have hrest := ih (h.made_add hchild)
      rwa [List.append_assoc] at hrest

end Session

namespace Act

open Variable (Made)

variable [Engine σ] [Sink τ] {register : Register} {makings : Makings}

/-- Other commands make no objects, and leave those that there are as they were made. -/
theorem made_perform {command : Command} {a : Adapter σ τ}
    (hcreate : ∀ b, command ≠ .createVariable b)
    (hlist : ∀ shown name window, command ≠ .listChildren shown name window)
    (ha : a.session.Each (Made makings)) :
    ((perform command).after a).session.Each (Made makings) := by
  cases hkind : command.onStoppoints with
  | true => exact ha.of_objects_eq (sameObjects_perform hkind a).1
  | false =>
      by_cases hupdate : ∃ shown name, command = .updateVariables shown name
      · obtain ⟨shown, name, rfl⟩ := hupdate
        rw [perform, after_bind_pure]
        exact each_visitNamed (fun _ _ hv hw => hv.renewed hw.renewed) name ha
      · refine Command.Effect.each ?_ hcreate hlist ?_ ha (effect_perform hkind ha.named)
        · rintro v format info ⟨making, hlast, hmade⟩
          exact ⟨making, hlast, by cases making <;> exact hmade⟩
        · rintro shown name rfl
          exact hupdate ⟨shown, name, rfl⟩

variable {a : Adapter σ τ} {text : String}

theorem made_createVariable {b : Binding}
    (hcommand : register.command? text = some (.createVariable b))
    (ha : a.session.Each (Made makings)) :
    ((handleLine register text).after a).session.Each
      (Made (makings ++ register.makings a text)) := by
  obtain ⟨line, journal, -, hsession, -, hanswer⟩ := line_of_command? hcommand a
  have hcreated := leads_createVariable b { a with journal }
  have hchoose : (a.session.choose b.name).2.Each (Made makings) :=
    ha.of_objects_eq (Session.objects_choose a.session b.name)
  rw [hsession]
  rw [perform] at hanswer ⊢
  cases hstep : createVariable b { a with journal } with
  | ok results c =>
      obtain ⟨v, hname, hexpression, hparent, -, hc⟩ := hcreated.of_ok hstep
      have hmakings : register.makings a text = [(v.name, .created b.expression)] := by
        rw [hstep] at hanswer
        simp [Register.makings, hcommand, hanswer, hname, Command.resultClass]
      rw [after_of_ok hstep, hc, hmakings]
      exact hchoose.made_add ⟨hexpression, hparent⟩
  | error e c =>
      have hmakings : register.makings a text = [] := by
        rw [hstep] at hanswer
        simp [Register.makings, hcommand, hanswer, ResultRecord.error]
      rw [after_of_error hstep, hcreated.of_error hstep, hmakings, List.append_nil]
      exact hchoose

theorem made_listChildren {shown : PrintValues} {name : String} {window : Option (Int × Int)}
    (hcommand : register.command? text = some (.listChildren shown name window))
    (ha : a.session.Each (Made makings)) :
    ((handleLine register text).after a).session.Each
      (Made (makings ++ register.makings a text)) := by
  obtain ⟨-, journal, -, hsession, -, -⟩ := line_of_command? hcommand a
  rw [hsession, perform]
  cases hv : a.session.object? name with
  | none =>
      have hmakings : register.makings a text = [] := by
        simp only [Register.makings, hcommand, hv]
      have hobject := object_of_none (a := { a with journal }) hv
      rw [listChildren, after_bind_of_error hobject, hmakings, List.append_nil]
      exact ha
  | some v =>
      have hmakings : register.makings a text =
          (Engine.tell v (v.indices window) a.engine).told.map (Told.making v.name) := by
        simp only [Register.makings, hcommand, hv, ha.named name v hv]
      rw [after_listChildren_apply (a := { a with journal }) shown window hv, hmakings]
      exact ha.made_addAll v _

/-- A line leaves the objects as they were made, by it or before. -/
theorem made_handleLine (register : Register) (text : String)
    (ha : a.session.Each (Made makings)) :
    ((handleLine register text).after a).session.Each
      (Made (makings ++ register.makings a text)) := by
  cases hcommand : register.command? text with
  | none =>
      have hmakings : register.makings a text = [] := by simp only [Register.makings, hcommand]
      rw [(handleLine_of_no_command hcommand a).1, hmakings, List.append_nil]
      exact ha
  | some command =>
      cases command with
      | createVariable b => exact made_createVariable hcommand ha
      | listChildren shown name window => exact made_listChildren hcommand ha
      | _ =>
          have hmakings : register.makings a text = [] := by
            simp only [Register.makings, hcommand]
          obtain ⟨-, journal, -, hsession, -, -⟩ := line_of_command? hcommand a
          rw [hsession, hmakings, List.append_nil]
          exact made_perform (by simp) (by simp) ha

end Act

/-- **Makings**: behind a run every object is as the latest of its makings has made it. -/
theorem Adapter.made_run [Engine σ] [Sink τ] (register : Register) {a : Adapter σ τ}
    {makings : Makings} (ha : a.session.Each (Variable.Made makings))
    (stimuli : List (Stimulus σ)) :
    (a.run register stimuli).session.Each
      (Variable.Made (makings ++ a.makings register stimuli)) := by
  induction stimuli generalizing a makings with
  | nil => simpa [Adapter.makings] using ha
  | cons stimulus stimuli ih =>
      rw [Adapter.run_cons, Adapter.makings, ← List.append_assoc]
      refine ih ?_
      cases stimulus with
      | line text =>
          rw [Act.respond, Act.after_bind_pure]
          exact Act.made_handleLine register text ha
      | notification n =>
          rw [Stimulus.makings, List.append_nil]
          exact (Act.walks_handle n a).session_invariant
            (I := fun s => s.Each (Variable.Made makings))
            (fun _ _ hs hst => hs.of_objects_eq hst.sameObjects.1) ha
      | engine state =>
          rw [Stimulus.makings, List.append_nil]
          exact ha

theorem Session.made_new (config : Config) : (Session.new config).Each (Variable.Made []) :=
  ⟨Session.named_new config, by simp [Session.new, Session.object?]⟩

end MachineInterface
