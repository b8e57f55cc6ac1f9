import MachineInterface.Proofs.Runs

/-!
# MachineInterface.Proofs.Objects

What the commands on variable objects make of a session
(`Command.Effect`, `Act.effect_perform`).  Apart from the listing of members,
which registers one member after the other, they change nothing if they fail.
An update walks from an object to members that the engine names; whatever it
names, and wherever the walk breaks off, the objects on the way only get another
account of their values (`Session.Renews`).
-/

namespace MachineInterface

variable {σ τ α β : Type}

/-! ## Objects and their names -/

namespace Variable

/-- The same object with another account of its value. -/
def Renewed (v w : Variable) : Prop := ∃ handle info, w = { v with handle, info }

theorem Renewed.refl (v : Variable) : v.Renewed v := ⟨v.handle, v.info, rfl⟩

theorem Renewed.trans {u v w : Variable} (huv : u.Renewed v) (hvw : v.Renewed w) :
    u.Renewed w := by
  obtain ⟨handle, info, rfl⟩ := huv
  obtain ⟨handle', info', rfl⟩ := hvw
  exact ⟨handle', info', rfl⟩

theorem Renewed.name_eq {v w : Variable} (h : v.Renewed w) : w.name = v.name := by
  obtain ⟨handle, info, rfl⟩ := h
  rfl

/-- The name is the root, or it follows behind the root and a dot. -/
def Below (root name : String) : Prop := name = root ∨ ∃ rest, name = root ++ "." ++ rest

/-- What a member's name adds to its parent's, behind a dot. -/
def step (member : String) (index : Nat) : String :=
  if member = "" then "$" ++ toString index else member

theorem childName_eq_step (parent member : String) (index : Nat) :
    childName parent member index = parent ++ "." ++ step member index := by
  unfold childName step
  split
  · simp [← String.toList_inj, toString]
  · rfl

theorem childName_eq (parent member : String) (index : Nat) :
    ∃ rest, childName parent member index = parent ++ "." ++ rest :=
  ⟨_, childName_eq_step parent member index⟩

/-- The object of a member that the engine names in some state. -/
def Lists (σ : Type) [Engine σ] (v m : Variable) : Prop :=
  ∃ (engine : σ) (index : Nat) (member : Member),
    (Engine.answer (.member v.handle index) engine).1 = .ok member ∧
      m.name = childName v.name member.name index ∧ m.handle = member.handle ∧
      m.origin = .plain ∧ m.parent = some v.name

theorem Lists.exists_name_eq [Engine σ] {v m : Variable} (h : v.Lists σ m) :
    ∃ rest, m.name = v.name ++ "." ++ rest := by
  obtain ⟨-, index, member, -, hname, -⟩ := h
  rw [hname]
  exact childName_eq v.name member.name index

theorem Below.childName {root parent : String} (h : Below root parent) (member : String)
    (index : Nat) : Below root (childName parent member index) := by
  obtain ⟨rest, hrest⟩ := childName_eq parent member index
  obtain rfl | ⟨above, rfl⟩ := h
  · exact .inr ⟨rest, hrest⟩
  · refine .inr ⟨above ++ "." ++ rest, ?_⟩
    rw [hrest]
    simp only [String.append_assoc]

end Variable

namespace Session

/-- Every object is kept under its own name. -/
def Named (s : Session) : Prop := ∀ name v, s.object? name = some v → v.name = name

theorem named_new (config : Config) : (new config).Named := by simp [Named, new, object?]

theorem Named.add {s : Session} (h : s.Named) (v : Variable) : (s.add v).Named := by
  intro name w hw
  rw [object?_add] at hw
  split at hw
  · next hname => cases hw; exact hname
  · exact h name w hw

theorem Named.remove {s : Session} (h : s.Named) (removed : String) :
    (s.remove removed).Named := by
  intro name w hw
  rw [object?_remove] at hw
  split at hw
  · cases hw
  · exact h name w hw

/-- The objects, and the number of names generated for them, stay as they are. -/
def SameObjects (s t : Session) : Prop := t.objects = s.objects ∧ t.generated = s.generated

section SameObjects

variable {s t : Session} {record : Option Record}

theorem sameObjects_number {handle : Handle} {id : Nat} (h : s.number handle = .ok (id, t)) :
    s.SameObjects t := by
  obtain ⟨m, -, rfl⟩ := number_cases h
  exact ⟨rfl, rfl⟩

theorem sameObjects_update (s : Session) (id : Nat) (f : Stoppoint → Stoppoint) :
    s.SameObjects (s.update id f).2 := by
  unfold update
  cases s.stoppoint? id <;> exact ⟨rfl, rfl⟩

theorem sameObjects_merge (s : Session) (id : Nat) (fresh : Stoppoint)
    (f : Stoppoint → Stoppoint) : s.SameObjects (s.merge id fresh f).2 := by
  unfold merge update
  cases s.stoppoint? id <;> exact ⟨rfl, rfl⟩

theorem sameObjects_forget (s : Session) (handle : Handle) :
    s.SameObjects (s.forget handle).2 := by
  unfold Session.forget
  cases s.id? handle <;> exact ⟨rfl, rfl⟩

theorem NotificationStep.sameObjects {subject : Option Handle}
    (h : NotificationStep subject s record t) : s.SameObjects t := by
  cases h with
  | number hn => exact sameObjects_number hn
  | add hid state site => exact sameObjects_merge s _ _ _
  | report hid state site => exact sameObjects_update s _ _
  | hit hid count => exact sameObjects_update s _ _
  | forget => exact sameObjects_forget s _
  | deleted hid => exact sameObjects_forget s _
  | news hsupports => exact ⟨rfl, rfl⟩

theorem StoppointStep.sameObjects (h : s.StoppointStep record t) : s.SameObjects t := by
  cases h with
  | notification n hn => exact hn.sameObjects
  | number hn => exact sameObjects_number hn
  | insert hid i state site => exact ⟨rfl, rfl⟩
  | watch hid w state => exact ⟨rfl, rfl⟩
  | enable id enabled => exact sameObjects_update s _ _
  | ignore id count => exact sameObjects_update s _ _
  | condition id condition => exact sameObjects_update s _ _
  | forget handle => exact sameObjects_forget s _

/-- Commands on variable objects leave the stoppoints and their numbers alone. -/
theorem VariableStep.sameStoppoints (h : s.VariableStep record t) :
    t.numbering = s.numbering ∧ t.stoppoints = s.stoppoints := by
  cases h <;> exact ⟨rfl, rfl⟩

end SameObjects

theorem Named.step {s t : Session} {record : Option Record} (h : s.Named)
    (hst : s.Step record t) : t.Named := by
  cases hst with
  | command hst =>
      cases hst with
      | stoppoints hst =>
          intro name v hv
          rw [object?, hst.sameObjects.1] at hv
          exact h name v hv
      | objects hst =>
          cases hst with
          | add v => exact h.add v
          | remove name => exact h.remove name
          | name => exact h
  | answer hcovers => exact h

/-! ## Renewals -/

/-- Some of the objects with these names got another account of their values,
and that is all that has happened. -/
structure Renews (names : String → Prop) (s t : Session) : Prop where
  rest : { s with objects := t.objects } = t
  others : ∀ name, ¬ names name → t.object? name = s.object? name
  renewed : ∀ name, Option.Rel Variable.Renewed (s.object? name) (t.object? name)

section Renews

variable {names : String → Prop} {s t : Session}

theorem Renews.refl (names : String → Prop) (s : Session) : s.Renews names s where
  rest := rfl
  others _ _ := rfl
  renewed name := by
    cases s.object? name with
    | none => exact .none
    | some v => exact .some (.refl v)

/-- An object that is there behind a renewal was there before. -/
theorem Renews.exists_of_object? (h : s.Renews names t) {name : String} {w : Variable}
    (hw : t.object? name = some w) : ∃ v, s.object? name = some v ∧ v.Renewed w := by
  have hrenewed := h.renewed name
  rw [hw] at hrenewed
  cases hv : s.object? name with
  | none =>
      rw [hv] at hrenewed
      cases hrenewed
  | some v =>
      rw [hv] at hrenewed
      cases hrenewed with
      | some hvw => exact ⟨v, rfl, hvw⟩

theorem Renews.add (h : s.Renews names t) {v w : Variable} (hv : t.object? v.name = some v)
    (hw : v.Renewed w) (hname : names v.name) : s.Renews names (t.add w) where
  rest := by
    rw [Session.add, ← h.rest]
  others name hnot := by
    have hne : w.name ≠ name := by
      rintro rfl
      exact hnot (hw.name_eq ▸ hname)
    rw [object?_add, if_neg hne]
    exact h.others name hnot
  renewed name := by
    rw [object?_add]
    by_cases hsame : w.name = name
    · obtain ⟨u, hu, huv⟩ := h.exists_of_object? hv
      rw [if_pos hsame, ← hsame, hw.name_eq, hu]
      exact .some (huv.trans hw)
    · rw [if_neg hsame]
      exact h.renewed name

theorem Renews.named (h : s.Renews names t) (hs : s.Named) : t.Named := by
  intro name w hw
  obtain ⟨v, hv, hvw⟩ := h.exists_of_object? hw
  rw [hvw.name_eq, hs name v hv]

end Renews

/-- The name that is used where this one is asked for, and the session in which
it is used. -/
def choose (s : Session) (name : String) : String × Session :=
  if name = "-" then s.nextName else (name, s)

end Session

/-! ## Effects -/

/-- What a command on variable objects makes of a session. -/
inductive Command.Effect : Command → Session → Session → Prop
  | idle {command : Command} {s : Session} : Effect command s s
  /-- A name was chosen, and no object created. -/
  | chosen {b : Binding} {s : Session} : Effect (.createVariable b) s (s.choose b.name).2
  | created {b : Binding} {s : Session} {v : Variable} (hv : v.name = (s.choose b.name).1) :
    Effect (.createVariable b) s ((s.choose b.name).2.add v)
  | deleted {name : String} {s : Session} : Effect (.deleteVariable name) s (s.remove name)
  | assigned {name expression : String} {s : Session} {v : Variable}
      (hv : s.object? name = some v) (info : ValueInfo) :
    Effect (.assign name expression) s (s.add (v.refreshed info))
  | formatted {name : String} {format : Format} {s : Session} {v : Variable}
      (hv : s.object? name = some v) (info : ValueInfo) :
    Effect (.setFormat name format) s (s.add (Variable.refreshed { v with format } info))
  | evaluated {name : String} {s : Session} {v : Variable} (hv : s.object? name = some v)
      (info : ValueInfo) :
    Effect (.evaluate name none) s (s.add (v.refreshed info))
  | listed {shown : PrintValues} {name : String} {window : Option (Int × Int)} {s : Session}
      {members : List Variable} (h : ∀ m ∈ members, ∃ rest, m.name = name ++ "." ++ rest) :
    Effect (.listChildren shown name window) s (members.foldl Session.add s)
  | updated {shown : PrintValues} {name : String} {s t : Session}
      (h : s.Renews (fun other => name = "*" ∨ Variable.Below name other) t) :
    Effect (.updateVariables shown name) s t

namespace Act

open Session (Renews Named)

theorem object_apply (name : String) (a : Adapter σ τ) :
    object name a = match a.session.object? name with
      | some v => .ok v a
      | none => .error (.variableNotFound name) a := by
  change (session >>= fun s => _) a = _
  rw [bind_of_ok (session_apply a)]
  cases a.session.object? name <;> rfl

theorem object_of_some {name : String} {v : Variable} {a : Adapter σ τ}
    (hv : a.session.object? name = some v) : object name a = .ok v a := by
  rw [object_apply, hv]

theorem object_of_none {name : String} {a : Adapter σ τ} (hv : a.session.object? name = none) :
    object name a = .error (.variableNotFound name) a := by
  rw [object_apply, hv]

theorem object_eq_ok {name : String} {v : Variable} {a b : Adapter σ τ}
    (h : object name a = .ok v b) : a.session.object? name = some v ∧ b = a := by
  rw [object_apply] at h
  cases hv : a.session.object? name with
  | none => simp [hv] at h
  | some w =>
      simp only [hv, EStateM.Result.ok.injEq] at h
      exact ⟨by rw [h.1], h.2.symm⟩

theorem session_object (name : String) (a : Adapter σ τ) :
    ((object name).after a).session = a.session := by
  rw [after, object_apply]
  cases a.session.object? name <;> rfl

theorem session_pathExpression (name : String) (a : Adapter σ τ) :
    ((pathExpression name).after a).session = a.session := by
  cases hv : a.session.object? name with
  | none => rw [pathExpression, after_bind_of_error (object_of_none hv)]
  | some v =>
      rw [pathExpression, after_bind_of_ok (object_of_some hv), after_bind_of_ok (session_apply a)]
      cases a.session.path v <;> rfl

theorem session_showAttributes (name : String) (a : Adapter σ τ) :
    ((showAttributes name).after a).session = a.session := by
  rw [showAttributes, after_bind_pure, session_object]

/-- What is done with the object of a name is done in a session that has it. -/
theorem atomic_object_bind {P : Session → Session → Prop} {name : String}
    {next : Variable → Act σ τ β} {a : Adapter σ τ}
    (h : ∀ v, a.session.object? name = some v → Atomic P (next v) a) :
    Atomic P (object name >>= next) a := by
  refine Atomic.bind (session_object name a) fun v b hv _ => ?_
  obtain ⟨hv, rfl⟩ := object_eq_ok hv
  exact h v hv

variable [Engine σ] {a : Adapter σ τ}

/-! ### One object -/

omit [Engine σ] in
theorem chooseName_apply (name : String) (a : Adapter σ τ) :
    chooseName name a =
      .ok (a.session.choose name).1 { a with session := (a.session.choose name).2 } := by
  unfold chooseName Session.choose
  split <;> rfl

theorem leads_bindValue (name expression : String) (thread frame : Option Nat) {s : Session}
    (ha : a.session = s) :
    Leads (bindValue name expression thread frame) a
      (fun v b => v.name = name ∧ v.expression = expression ∧ v.parent = none ∧
        b.session = s.add v)
      (fun b => b.session = s) := by
  refine (leads_same ha rfl).bind fun resolved b hb => ?_
  refine (leads_same hb (session_demand resolved b)).bind fun value c hc => ?_
  refine leads_bind_of_ok (session_apply c) ?_
  refine (leads_same hc rfl).bind fun answer d hd => ?_
  refine (leads_same hd (session_demand answer d)).bind fun info e he => ?_
  exact leads_of_ok rfl ⟨rfl, rfl, rfl, by rw [he]⟩

/-- A new object stands under the chosen name, and its answer tells of it; if
there is none, a name may still have been chosen. -/
theorem leads_createVariable (b : Binding) (a : Adapter σ τ) :
    Leads (createVariable b) a
      (fun results c => ∃ v : Variable, v.name = (a.session.choose b.name).1 ∧
        v.expression = b.expression ∧ v.parent = none ∧ results = v.createResults ∧
        c.session = (a.session.choose b.name).2.add v)
      (fun c => c.session = (a.session.choose b.name).2) := by
  refine leads_bind_of_ok (chooseName_apply b.name a) ?_
  refine (leads_same rfl (session_ofExcept _ _)).bind fun thread c hc => ?_
  refine (leads_same hc (session_ofExcept _ c)).bind fun frame d hd => ?_
  have hbind : ∀ e : Adapter σ τ, e.session = (a.session.choose b.name).2 →
      Leads (do return (← bindValue (a.session.choose b.name).1 b.expression thread
          frame).createResults) e
        (fun results f => ∃ v : Variable, v.name = (a.session.choose b.name).1 ∧
          v.expression = b.expression ∧ v.parent = none ∧ results = v.createResults ∧
          f.session = (a.session.choose b.name).2.add v)
        (fun f => f.session = (a.session.choose b.name).2) := by
    intro e he
    refine (leads_bindValue _ _ _ _ he).bind fun v f hf => ?_
    obtain ⟨hname, hexpression, hparent, hsession⟩ := hf
    exact leads_pure ⟨v, hname, hexpression, hparent, rfl, hsession⟩
  by_cases haddress : b.frameAddress ≠ "*" ∧ b.frameAddress ≠ "@"
  · rw [if_pos haddress]
    exact leads_bind_of_ok rfl (hbind _ hd)
  · rw [if_neg haddress]
    exact hbind d hd

omit [Engine σ] in
theorem atomic_deleteVariable (name : String) (a : Adapter σ τ) :
    Atomic (Command.Effect (.deleteVariable name)) (deleteVariable name) a := by
  refine Atomic.bind rfl fun s b hs _ => ?_
  cases hs
  cases a.session.object? name with
  | some v => exact atomic_of_ok rfl .deleted
  | none => exact atomic_of_ok rfl .idle

theorem atomic_refresh (v : Variable) (a : Adapter σ τ) :
    Atomic (fun s t => ∃ info, t = s.add (v.refreshed info)) (refresh v) a :=
  atomic_demandAsk fun info _ _ => atomic_of_ok rfl ⟨info, rfl⟩

theorem atomic_assign (name expression : String) (a : Adapter σ τ) :
    Atomic (Command.Effect (.assign name expression)) (assign name expression) a := by
  refine atomic_object_bind fun v hv => atomic_demandAsk fun _ b hb => ?_
  refine Atomic.then ?_ fun w c _ => ⟨_, c, rfl, rfl⟩
  refine (atomic_refresh v b).mono ?_
  rintro _ ⟨info, rfl⟩
  rw [← hb] at hv
  exact .assigned hv info

theorem atomic_setFormat (name : String) (format : Format) (a : Adapter σ τ) :
    Atomic (Command.Effect (.setFormat name format)) (setFormat name format) a := by
  refine atomic_object_bind fun v hv => ?_
  refine Atomic.then ?_ fun w d _ => ⟨_, d, rfl, rfl⟩
  refine (atomic_refresh { v with format } a).mono ?_
  rintro _ ⟨info, rfl⟩
  exact .formatted hv info

theorem atomic_evaluate (name : String) (format : Option String) (a : Adapter σ τ) :
    Atomic (Command.Effect (.evaluate name format)) (evaluate name format) a := by
  refine atomic_object_bind fun v hv => ?_
  cases format with
  | none =>
      refine Atomic.then ?_ fun w d _ => ⟨_, d, rfl, rfl⟩
      refine (atomic_refresh v a).mono ?_
      rintro _ ⟨info, rfl⟩
      exact .evaluated hv info
  | some text =>
      -- The value in a format for this answer only is not kept.
      cases hformat : Format.ofName? text with
      | none =>
          simp only [hformat]
          exact atomic_of_session_eq rfl .idle
      | some format =>
          simp only [hformat]
          exact atomic_demandAsk fun info b _ => atomic_of_ok rfl .idle

/-! ### Members -/

theorem atomic_listMember (v : Variable) (index : Nat) (a : Adapter σ τ) :
    Atomic (fun s t => ∃ m : Variable, v.Lists σ m ∧ t = s.add m) (listMember v index) a := by
  refine Atomic.bind rfl fun answer b hask hb => ?_
  refine Atomic.bind (session_demand answer b) fun member c hmember hc => ?_
  rw [ask_apply] at hask
  have hanswer := (EStateM.Result.ok.inj hask).1
  rw [(demand_eq_ok hmember).1] at hanswer
  exact atomic_demandAsk fun info d hd => atomic_of_ok rfl
    ⟨_, ⟨a.engine, index, member, hanswer, rfl, rfl, rfl, rfl⟩, rfl⟩

/-- Members are registered up to the first one that the engine does not tell. -/
theorem after_listMembers (v : Variable) (indices : List Nat) (a : Adapter σ τ) :
    ∃ members : List Variable, (∀ m ∈ members, v.Lists σ m) ∧
      ((listMembers v indices).after a).session = members.foldl Session.add a.session := by
  induction indices generalizing a with
  | nil => exact ⟨[], by simp, rfl⟩
  | cons index indices ih =>
      have hfirst := atomic_listMember v index a
      cases hlist : listMember v index a with
      | error e b =>
          refine ⟨[], by simp, ?_⟩
          rw [listMembers, after_bind_of_error hlist, hfirst.session_of_error hlist]
          rfl
      | ok child b =>
          obtain ⟨m, hm, hb⟩ := hfirst.of_ok hlist
          obtain ⟨members, hmembers, hrest⟩ := ih b
          refine ⟨m :: members, by simpa using ⟨hm, hmembers⟩, ?_⟩
          rw [listMembers, after_bind_of_ok hlist, after_bind_pure, hrest, hb]
          rfl

/-- A listing registers members of the named object, if there is one. -/
theorem after_listChildren (shown : PrintValues) (name : String) (window : Option (Int × Int))
    (a : Adapter σ τ) :
    ((listChildren shown name window).after a).session = a.session ∨
      ∃ v, a.session.object? name = some v ∧ ∃ members : List Variable,
        (∀ m ∈ members, v.Lists σ m) ∧
        ((listChildren shown name window).after a).session =
          members.foldl Session.add a.session := by
  cases hv : a.session.object? name with
  | none =>
      rw [listChildren, after_bind_of_error (object_of_none hv)]
      exact .inl rfl
  | some v =>
      rw [listChildren, after_bind_of_ok (object_of_some hv), after_bind_pure]
      exact .inr ⟨v, rfl, after_listMembers v _ a⟩

theorem effect_listChildren (shown : PrintValues) (name : String) (window : Option (Int × Int))
    (hs : a.session.Named) :
    Command.Effect (.listChildren shown name window) a.session
      ((listChildren shown name window).after a).session := by
  obtain hsame | ⟨v, hv, members, hmembers, hrest⟩ := after_listChildren shown name window a
  · rw [hsame]
    exact .idle
  · rw [hrest]
    refine .listed fun m hm => ?_
    rw [← hs name v hv]
    exact (hmembers m hm).exists_name_eq

/-! ### Updates -/

section Updates

variable {names : String → Prop} {s : Session} {v : Variable}

/-- Reading a value again changes nothing, and gives the object with what was read. -/
theorem renewed_of_reread {r : Variable × Bool} {b : Adapter σ τ} (h : reread v a = .ok r b) :
    b.session = a.session ∧ v.Renewed r.1 := by
  have hsession := (asks_reread v).session_eq a
  rw [after_of_ok h] at hsession
  refine ⟨hsession, ?_⟩
  have hgives : Gives (fun _ r => v.Renewed r.1) (reread v : Act σ τ (Variable × Bool)) := by
    unfold reread
    cases horigin : v.origin with
    | evaluated =>
        refine gives_bind fun _ => gives_bind fun resolved => gives_bind fun _ =>
          gives_bind fun info => gives_pure fun _ => ⟨resolved.handle, info, ?_⟩
        simp only [Variable.refreshed, horigin]
    | plain =>
        refine gives_bind fun changed => ?_
        cases changed with
        | false => exact gives_pure fun _ => .refl v
        | true =>
            exact gives_bind fun _ => gives_bind fun info => gives_pure fun _ =>
              ⟨v.handle, info, rfl⟩
  exact hgives a r b h

theorem leads_updateObject (h : s.Renews names a.session) (hv : a.session.object? v.name = some v)
    (hname : names v.name) :
    Leads (updateObject v) a (fun r b => r.1.name = v.name ∧ s.Renews names b.session)
      (fun b => s.Renews names b.session) := by
  cases hread : reread v a with
  | error e b =>
      have hsession := (asks_reread v).session_eq a
      rw [after_of_error hread] at hsession
      exact leads_bind_of_error hread (by rwa [hsession])
  | ok r b =>
      obtain ⟨hsession, hr⟩ := renewed_of_reread hread
      rw [← hsession] at h hv
      exact leads_bind_of_ok hread (leads_of_ok rfl ⟨hr.name_eq, h.add hv hr hname⟩)

/-- A visit of an object, from any state that a walk can be in, renews objects. -/
def Revisits (names : String → Prop) (s : Session) (visit : Variable → Act σ τ Visit) : Prop :=
  ∀ v a, s.Renews names a.session → a.session.object? v.name = some v → names v.name →
    s.Renews names ((visit v).after a).session

variable {visit : Variable → Act σ τ Visit}
  (hnames : ∀ parent member index, names parent → names (Variable.childName parent member index))
  (hs : s.Named)

include hnames hs

/-- A visit of a member renews objects if those below it do. -/
theorem leads_visitMember (hvisit : Revisits names s visit) (hname : names v.name) (index : Nat)
    (h : s.Renews names a.session) :
    Leads (visitMember visit v index) a (fun _ b => s.Renews names b.session)
      (fun b => s.Renews names b.session) := by
  refine leads_bind_of_ok (ask_apply _ a) ?_
  obtain ⟨journal, hmute⟩ := orMute_apply _ _
  refine leads_bind_of_ok hmute ?_
  split
  · exact leads_pure h
  · next member hmember =>
    refine leads_bind_of_ok (session_apply _) ?_
    cases hchild : a.session.object? (Variable.childName v.name member.name index) with
    | none => exact leads_pure h
    | some child =>
        have hkey := h.named hs _ child hchild
        obtain ⟨outcome, hattempt⟩ := attempt_eq_ok (visit child) _
        refine leads_bind_of_ok hattempt ?_
        obtain ⟨journal', hmute'⟩ := orMute_apply outcome _
        refine leads_of_ok hmute' (hvisit child _ h ?_ ?_)
        · rwa [hkey]
        · rw [hkey]
          exact hnames _ _ _ hname

theorem leads_visitMembers (hvisit : Revisits names s visit) (hname : names v.name)
    (indices : List Nat) (h : s.Renews names a.session) :
    Leads (visitMembers visit v indices) a (fun _ b => s.Renews names b.session)
      (fun b => s.Renews names b.session) := by
  induction indices generalizing a with
  | nil => exact leads_pure h
  | cons index indices ih =>
      exact (leads_visitMember hnames hs hvisit hname index h).bind fun _ b hb =>
        (ih hb).bind fun _ c hc => leads_pure hc

theorem revisits_visitWith (hvisit : Revisits names s visit) :
    Revisits names s (visitWith visit) := by
  intro v a h hv hname
  refine leads_iff_after.mp ((leads_updateObject h hv hname).bind fun r b hb => ?_)
  obtain ⟨hr, hb⟩ := hb
  rw [← hr] at hname
  exact (leads_visitMembers hnames hs hvisit hname _ hb).bind fun _ c hc => leads_pure hc

/-- The walk ends after finitely many levels, and each of them renews objects. -/
theorem revisits_visitTo (depth : Nat) :
    Revisits names s (visitTo depth : Variable → Act σ τ Visit) := by
  induction depth with
  | zero => exact revisits_visitWith hnames hs fun _ _ h _ _ => h
  | succ depth ih => exact revisits_visitWith hnames hs ih

theorem revisits_visitTree : Revisits names s (visitTree : Variable → Act σ τ Visit) := by
  intro v a h hv hname
  rw [visitTree, after_bind_of_ok (session_apply a)]
  exact revisits_visitTo hnames hs _ v a h hv hname

theorem leads_visitRoots (hall : ∀ name, names name) (roots : List String)
    (h : s.Renews names a.session) :
    Leads (visitRoots roots) a (fun _ b => s.Renews names b.session)
      (fun b => s.Renews names b.session) := by
  induction roots generalizing a with
  | nil => exact leads_pure h
  | cons name roots ih =>
      refine leads_bind_of_ok (session_apply a) ?_
      cases hroot : (a.session.object? name).filter (·.parent.isNone) with
      | none => exact ih h
      | some root =>
          have hobject := (Option.filter_eq_some_iff.mp hroot).1
          have hkey := h.named hs name root hobject
          rw [← hkey] at hobject
          have hvisit := revisits_visitTree hnames hs root a h hobject (hall _)
          obtain ⟨outcome, hattempt⟩ := attempt_eq_ok (visitTree root) a
          refine leads_bind_of_ok hattempt ?_
          obtain ⟨journal, hmute⟩ := orMute_apply outcome _
          have hrest := ih (a := { (visitTree root).after a with journal }) hvisit
          exact leads_bind_of_ok hmute (hrest.bind fun _ b hb => leads_pure hb)

end Updates

/-- An update renews the objects that it is to bring up to date, wherever it
breaks off. -/
theorem renews_visitNamed (name : String) (hs : a.session.Named) :
    a.session.Renews (fun other => name = "*" ∨ Variable.Below name other)
      ((visitNamed name).after a).session := by
  have hnames : ∀ parent member index, (name = "*" ∨ Variable.Below name parent) →
      (name = "*" ∨ Variable.Below name (Variable.childName parent member index)) := by
    intro parent member index hparent
    exact hparent.imp_right fun hbelow => hbelow.childName member index
  unfold visitNamed
  by_cases hname : name = "*"
  · rw [if_pos hname, after_bind_of_ok (session_apply a)]
    exact leads_iff_after.mp
      (leads_visitRoots hnames hs (fun _ => .inl hname) a.session.objectNames (.refl _ _))
  · rw [if_neg hname]
    cases hv : a.session.object? name with
    | none =>
        rw [after_bind_of_error (object_of_none hv)]
        exact .refl _ _
    | some v =>
        rw [after_bind_of_ok (object_of_some hv), after_bind_pure]
        have hkey := hs name v hv
        rw [← hkey] at hv
        exact revisits_visitTree hnames hs v a (.refl _ _) hv (.inr (.inl hkey))

/-! ### Commands -/

variable [Sink τ]

/-- **Effects**: whatever the engine answers, and whether the command succeeds or
fails, it has one effect. -/
theorem effect_perform {command : Command} (h : command.onStoppoints = false)
    (hs : a.session.Named) :
    command.Effect a.session ((perform command).after a).session := by
  cases command with
  | insert _ | delete _ | enable _ _ | ignoreHits _ _ | setCondition _ _ | watch _ => cases h
  | createVariable b =>
      have hcreate := leads_createVariable b a
      cases hstep : createVariable b a with
      | ok results c =>
          obtain ⟨v, hv, -, -, -, hc⟩ := hcreate.of_ok hstep
          rw [perform, after_of_ok hstep, hc]
          exact .created hv
      | error e c =>
          rw [perform, after_of_error hstep, hcreate.of_error hstep]
          exact .chosen
  | deleteVariable name => exact (atomic_deleteVariable name a).after .idle
  | updateVariables shown name =>
      rw [perform, after_bind_pure]
      exact .updated (renews_visitNamed name hs)
  | assign name expression => exact (atomic_assign name expression a).after .idle
  | setFormat name format => exact (atomic_setFormat name format a).after .idle
  | listChildren shown name window => exact effect_listChildren shown name window hs
  | evaluate name format => exact (atomic_evaluate name format a).after .idle
  | pathExpression name =>
      rw [perform, session_pathExpression]
      exact .idle
  | showAttributes name =>
      rw [perform, session_showAttributes]
      exact .idle
  | exit => exact .idle

end Act

end MachineInterface
