import MachineInterface.Proofs.Names
import MachineInterface.Proofs.Walks

/-!
# MachineInterface.Proofs.Lineage

How the objects of a session came about (`Variable.Lineage`).  An object was created
as a root, or it was listed as a member; since then it was brought up to date.  Whatever
else is shown of objects by induction on this holds behind every run
(`Adapter.lineage_run`).
-/

namespace MachineInterface

variable {σ τ : Type}

namespace Variable

/-- The same object with another account of its value, perhaps in another format; only
what is evaluated again gets another handle. -/
structure Continues (v w : Variable) : Prop where
  name_eq : w.name = v.name
  origin_eq : w.origin = v.origin
  parent_eq : w.parent = v.parent
  plain : v.origin = .plain → w.handle = v.handle

theorem Reread.continues [Engine σ] {v w : Variable} (h : v.Reread σ w) : v.Continues w := by
  obtain ⟨⟨handle, info, rfl⟩, hplain, -⟩ := h
  exact ⟨rfl, rfl, rfl, hplain⟩

/-- How an object comes about if new roots have names in `names`. -/
inductive Lineage (σ : Type) [Engine σ] (names : String → Prop) : Variable → Prop
  | created {v : Variable} (hname : names v.name) (hparent : v.parent = none) :
    Lineage σ names v
  | listed {v m : Variable} (h : Lineage σ names v) (hm : v.Lists σ m) : Lineage σ names m
  | continued {v w : Variable} (h : Lineage σ names v) (hw : v.Continues w) : Lineage σ names w

section Lineage

variable [Engine σ] {names : String → Prop} {v : Variable}

/-- An object with no parent was created as a root. -/
theorem Lineage.name_of_root (h : Lineage σ names v) (hparent : v.parent = none) :
    names v.name := by
  induction h with
  | created hname _ => exact hname
  | listed _ hm _ =>
      obtain ⟨-, -, -, -, -, -, -, hsome⟩ := hm
      rw [hparent] at hsome
      cases hsome
  | continued _ hw ih =>
      rw [hw.name_eq]
      exact ih (hw.parent_eq ▸ hparent)

/-- An object with a parent was listed, and has the handle that the listing gave. -/
theorem Lineage.exists_of_member (h : Lineage σ names v) (hparent : v.parent ≠ none) :
    v.origin = .plain ∧ ∃ p, Lineage σ names p ∧ ∃ (engine : σ) (index : Nat) (member : Member),
      (Engine.answer (.member p.handle index) engine).1 = .ok member ∧
        v.name = childName p.name member.name index ∧ v.handle = member.handle := by
  induction h with
  | created _ hnone => exact (hparent hnone).elim
  | listed h hm _ =>
      obtain ⟨engine, index, member, hmember, hname, hhandle, horigin, -⟩ := hm
      exact ⟨horigin, _, h, engine, index, member, hmember, hname, hhandle⟩
  | continued _ hw ih =>
      obtain ⟨horigin, p, hp, engine, index, member, hmember, hname, hhandle⟩ :=
        ih (hw.parent_eq ▸ hparent)
      refine ⟨hw.origin_eq.trans horigin, p, hp, engine, index, member, hmember, ?_, ?_⟩
      · rw [hw.name_eq, hname]
      · rw [hw.plain horigin, hhandle]

end Lineage

end Variable

open Variable (Lineage)

/-! ## Commands -/

namespace Session

variable {P : Variable → Prop} {s t : Session}

theorem Each.remove (h : s.Each P) (name : String) : (s.remove name).Each P where
  named := h.named.remove name
  holds other v hv := by
    rw [object?_remove] at hv
    split at hv
    · cases hv
    · exact h.holds other v hv

theorem Each.addAll (h : s.Each P) {members : List Variable} (hm : ∀ m ∈ members, P m) :
    (members.foldl Session.add s).Each P := by
  induction members generalizing s with
  | nil => exact h
  | cons m members ih =>
      exact ih (h.add (hm m List.mem_cons_self)) fun n hn => hm n (List.mem_cons_of_mem m hn)

theorem Each.of_objects_eq (h : s.Each P) (ht : t.objects = s.objects) : t.Each P where
  named name v hv := h.named name v (by rwa [object?, ht] at hv)
  holds name v hv := h.holds name v (by rwa [object?, ht] at hv)

theorem objects_choose (s : Session) (name : String) :
    (s.choose name).2.objects = s.objects := by
  unfold choose
  split <;> rfl

end Session

/-- The commands that work on one object keep what depends on neither its format nor the
account of its value. -/
theorem Command.Effect.each {P : Variable → Prop}
    (hP : ∀ (v : Variable) format info, P v → P { v with format, info })
    {command : Command} {s t : Session} (hcreate : ∀ b, command ≠ .createVariable b)
    (hlist : ∀ shown name window, command ≠ .listChildren shown name window)
    (hupdate : ∀ shown name, command ≠ .updateVariables shown name) (hs : s.Each P)
    (h : command.Effect s t) : t.Each P := by
  have hadd : ∀ {name : String} {v : Variable} format info, s.object? name = some v →
      (s.add { v with format, info }).Each P :=
    fun format info hv => hs.add (hP _ format info (hs.holds _ _ hv))
  cases h with
  | idle => exact hs
  | chosen | created _ => exact (hcreate _ rfl).elim
  | deleted => exact hs.remove _
  | assigned hv info => exact hadd _ info hv
  | @formatted _ format _ v hv info => exact hadd (v := v) format info hv
  | evaluated hv info => exact hadd _ info hv
  | listed _ => exact (hlist _ _ _ rfl).elim
  | updated _ => exact (hupdate _ _ rfl).elim

namespace Act

variable [Engine σ] {names : String → Prop} {a : Adapter σ τ}

/-- An update keeps what it keeps of each object, wherever it breaks off. -/
theorem each_visitTree {P : Variable → Prop} (hP : ∀ v w, P v → v.Reread σ w → P w) {v : Variable}
    (ha : a.session.Each P) (hv : P v) : ((visitTree v).after a).session.Each P := by
  cases h : visitTree v a with
  | ok visit b =>
      rw [after_of_ok h]
      exact ((walked_visitTree ha.named h).each hP ha hv).1
  | error e b =>
      rw [after_of_error h, updateObject_eq_error (visitTree_eq_error h)]
      exact ha

theorem each_visitRoots {P : Variable → Prop} (hP : ∀ v w, P v → v.Reread σ w → P w)
    (roots : List String) (ha : a.session.Each P) :
    ((visitRoots roots).after a).session.Each P := by
  induction roots generalizing a with
  | nil => exact ha
  | cons name roots ih =>
      rw [visitRoots, after_bind_of_ok (session_apply a)]
      cases hroot : (a.session.object? name).filter (·.parent.isNone) with
      | none => exact ih ha
      | some root =>
          have hvisit := each_visitTree hP ha
            (ha.holds name root (Option.filter_eq_some_iff.mp hroot).1)
          obtain ⟨outcome, hattempt⟩ := attempt_eq_ok (visitTree root) a
          obtain ⟨journal, hmute⟩ := orMute_apply outcome ((visitTree root).after a)
          rw [after_bind_of_ok hattempt, after_bind_of_ok hmute, after_bind_pure]
          exact ih (a := { (visitTree root).after a with journal }) hvisit

theorem each_visitNamed {P : Variable → Prop} (hP : ∀ v w, P v → v.Reread σ w → P w)
    (name : String) (ha : a.session.Each P) :
    ((visitNamed name).after a).session.Each P := by
  unfold visitNamed
  split
  · rw [after_bind_of_ok (session_apply a)]
    exact each_visitRoots hP a.session.objectNames ha
  · cases hv : a.session.object? name with
    | none =>
        rw [after_bind_of_error (object_of_none hv)]
        exact ha
    | some v =>
        rw [after_bind_of_ok (object_of_some hv), after_bind_pure]
        exact each_visitTree hP ha (ha.holds name v hv)

variable [Sink τ]

/-- What a command makes of objects has a lineage where the objects had one. -/
theorem lineage_perform {command : Command} (h : command.onStoppoints = false)
    (ha : a.session.Each (Lineage σ names))
    (hnames : ∀ b, command = .createVariable b → names (a.session.choose b.name).1) :
    ((perform command).after a).session.Each (Lineage σ names) := by
  cases command with
  | createVariable b =>
      have hcreate := leads_createVariable b a
      have hchoose : (a.session.choose b.name).2.Each (Lineage σ names) :=
        ha.of_objects_eq (Session.objects_choose a.session b.name)
      cases hstep : createVariable b a with
      | ok results c =>
          obtain ⟨v, hname, -, hparent, -, hc⟩ := hcreate.of_ok hstep
          rw [perform, after_of_ok hstep, hc]
          exact hchoose.add (.created (hname ▸ hnames b rfl) hparent)
      | error e c =>
          rw [perform, after_of_error hstep, hcreate.of_error hstep]
          exact hchoose
  | listChildren shown name window =>
      rw [perform]
      obtain hsame | ⟨v, hv, members, hmembers, hlist⟩ := after_listChildren shown name window a
      · rw [hsame]
        exact ha
      · rw [hlist]
        exact ha.addAll fun m hm => .listed (ha.holds name v hv) (hmembers m hm)
  | updateVariables shown name =>
      rw [perform, after_bind_pure]
      exact each_visitNamed (fun _ _ hv hw => .continued hv hw.continues) name ha
  | insert _ | delete _ | enable _ _ | ignoreHits _ _ | setCondition _ _ | watch _ => cases h
  | _ =>
      exact Command.Effect.each (fun _ _ _ hv => .continued hv ⟨rfl, rfl, rfl, fun _ => rfl⟩)
        (by simp) (by simp) (by simp) ha (effect_perform h ha.named)

end Act

/-! ## Runs -/

/-- The names that roots can have behind these stimuli: the client has asked for them, or
they were generated. -/
def Register.Roots (register : Register) (stimuli : List (Stimulus σ)) (name : String) : Prop :=
  (∃ text, .line text ∈ stimuli ∧ register.AsksFor name text) ∨ ∃ n, name = generatedName n

/-- **Lineage**: behind every run each object was created under a name that the client has
asked for or that was generated, or listed as a member of such an object. -/
theorem Adapter.lineage_run [Engine σ] [Sink τ] (config : Config) (engine : σ) (sink : τ)
    (register : Register) (stimuli : List (Stimulus σ)) :
    ((Adapter.new config engine sink).run register stimuli).session.Each
      (Lineage σ (register.Roots stimuli)) := by
  have hnew : (Session.new config).Each (Lineage σ (register.Roots stimuli)) :=
    ⟨Session.named_new config, by simp [Session.new, Session.object?]⟩
  refine Adapter.run_objects (fun _ _ hs hst => hs.of_objects_eq hst.1) register hnew hnew.named
    stimuli fun text command b hmem hcommand hkind _ hb => ?_
  refine Act.lineage_perform hkind hb ?_
  rintro binding rfl
  unfold Session.choose
  split
  · exact .inr ⟨_, nextName_fst b.session⟩
  · exact .inl ⟨text, hmem, binding, hcommand, rfl⟩

end MachineInterface
