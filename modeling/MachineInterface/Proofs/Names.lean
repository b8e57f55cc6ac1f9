import MachineInterface.Proofs.Locality

/-!
# MachineInterface.Proofs.Names

Where the names of variable objects come from.  The client asks for them, they
are composed of a parent's name and a member's, or they are generated with a
counter.  Generated names differ from each other and from composed ones
(`generatedName_inj`, `dot_not_mem_generatedName`), but the counter does not know
what the client asks for: `Adapter.generated_name_of_run` says when a generated
name is new.
-/

namespace MachineInterface

variable {σ τ : Type}

/-! ## Generated names -/

/-- The name that is generated as the one with this number. -/
def generatedName (n : Nat) : String := s!"var{n}"

theorem nextName_fst (s : Session) : s.nextName.1 = generatedName (s.generated + 1) := rfl

theorem toList_generatedName (n : Nat) :
    (generatedName n).toList = ['v', 'a', 'r'] ++ Nat.toDigits 10 n := by
  simp [generatedName, toString, ← Nat.toList_repr]

theorem generatedName_inj {m n : Nat} (h : generatedName m = generatedName n) : m = n := by
  have hlist := congrArg String.toList h
  rw [toList_generatedName, toList_generatedName] at hlist
  have hdigits : Nat.toDigits 10 m = Nat.toDigits 10 n := List.append_cancel_left hlist
  rw [← Nat.ofDigitChars_ten_toDigits (n := m), hdigits, Nat.ofDigitChars_ten_toDigits]

theorem dot_not_mem_generatedName (n : Nat) : '.' ∉ (generatedName n).toList := by
  intro hdot
  rw [toList_generatedName] at hdot
  obtain hstem | hdigit := List.mem_append.mp hdot
  · simp at hstem
  · have hdecimal : '.'.isDigit = true := Nat.isDigit_of_mem_toDigits (by decide) (by decide) hdigit
    simp at hdecimal

/-! ## Sources -/

/-- A line asks for an object of this name. -/
def Register.AsksFor (register : Register) (name text : String) : Prop :=
  ∃ b, register.command? text = some (.createVariable b) ∧ b.name = name

namespace Session

variable {asked : String → Prop} {s t : Session}

/-- Where a name can come from if the client may ask for those in `asked`. -/
inductive Source (asked : String → Prop) (s : Session) (name : String) : Prop
  | client (h : asked name)
  | member (h : '.' ∈ name.toList)
  | counter {n : Nat} (h : n ≤ s.generated) (hname : name = generatedName n)

theorem Source.mono (hst : s.generated ≤ t.generated) {name : String}
    (h : s.Source asked name) : t.Source asked name := by
  cases h with
  | client h => exact .client h
  | member h => exact .member h
  | counter h hname => exact .counter (Nat.le_trans h hst) hname

/-- Every object has a name of one of these kinds. -/
def Sourced (asked : String → Prop) (s : Session) : Prop :=
  ∀ name v, s.object? name = some v → s.Source asked name

theorem sourced_new (asked : String → Prop) (config : Config) : (new config).Sourced asked := by
  simp [Sourced, new, object?]

/-- New names are to have a source, the others have theirs. -/
theorem Sourced.of_new (h : s.Sourced asked) (hst : s.generated ≤ t.generated)
    (hnew : ∀ name v, t.object? name = some v →
      (∃ w, s.object? name = some w) ∨ t.Source asked name) :
    t.Sourced asked := by
  intro name v hv
  obtain ⟨w, hw⟩ | hsource := hnew name v hv
  · exact (h name w hw).mono hst
  · exact hsource

theorem Sourced.sameObjects (h : s.Sourced asked) (hst : s.SameObjects t) : t.Sourced asked := by
  refine h.of_new (Nat.le_of_eq hst.2.symm) fun name v hv => .inl ⟨v, ?_⟩
  rwa [object?, ← hst.1]

theorem generated_choose_le (s : Session) (name : String) :
    s.generated ≤ (s.choose name).2.generated := by
  unfold choose
  split
  · exact Nat.le_succ s.generated
  · exact Nat.le_refl _

/-- A chosen name was asked for, or it is the next generated one. -/
theorem source_choose (name : String) (hasked : asked name) :
    (s.choose name).2.Source asked (s.choose name).1 := by
  unfold choose
  split
  · exact .counter (Nat.le_refl _) (nextName_fst s)
  · exact .client hasked

theorem generated_addAll (s : Session) (members : List Variable) :
    (members.foldl Session.add s).generated = s.generated := by
  induction members generalizing s with
  | nil => rfl
  | cons m members ih => rw [List.foldl_cons, ih, generated_add]

/-- An object that is there behind some additions was there or was added. -/
theorem of_object?_addAll {members : List Variable} {name : String} {v : Variable}
    (h : (members.foldl Session.add s).object? name = some v) :
    s.object? name = some v ∨ ∃ m ∈ members, m.name = name := by
  by_cases hmember : ∃ m ∈ members, m.name = name
  · exact .inr hmember
  · have hother : ∀ m ∈ members, m.name ≠ name := fun m hm heq => hmember ⟨m, hm, heq⟩
    rw [object?_addAll s hother] at h
    exact .inl h

theorem Sourced.effect {command : Command} (h : s.Sourced asked) (hs : s.Named)
    (hasked : ∀ b, command = .createVariable b → asked b.name) (heffect : command.Effect s t) :
    t.Sourced asked := by
  have hreplace : ∀ {target : String} {v w : Variable}, s.object? target = some v →
      w.name = v.name → (s.add w).Sourced asked := by
    intro target v w hv hw
    refine h.of_new (Nat.le_refl _) fun name u hu => .inl ?_
    rw [object?_add] at hu
    split at hu
    · next hname => exact ⟨v, by rw [← hname, hw, hs target v hv, hv]⟩
    · exact ⟨u, hu⟩
  cases heffect with
  | idle => exact h
  | chosen =>
      refine h.of_new (generated_choose_le s _) fun name v hv => .inl ⟨v, ?_⟩
      rwa [object?_choose] at hv
  | @created b _ v hv =>
      refine h.of_new (generated_choose_le s _) fun name w hw => ?_
      rw [object?_add, object?_choose] at hw
      split at hw
      · next hname =>
        have hsource := source_choose (s := s) b.name (hasked b rfl)
        rw [← hname, hv]
        exact .inr (hsource.mono (Nat.le_of_eq (Session.generated_add _ v).symm))
      · exact .inl ⟨w, hw⟩
  | deleted =>
      refine h.of_new (Nat.le_refl _) fun name v hv => .inl ⟨v, ?_⟩
      rw [object?_remove] at hv
      split at hv
      · cases hv
      · exact hv
  | assigned hv info => exact hreplace hv rfl
  | formatted hv info => exact hreplace hv rfl
  | evaluated hv info => exact hreplace hv rfl
  | listed hmembers =>
      refine h.of_new (Nat.le_of_eq (generated_addAll s _).symm) fun name v hv => ?_
      obtain hv | ⟨m, hm, rfl⟩ := of_object?_addAll hv
      · exact .inl ⟨v, hv⟩
      · obtain ⟨rest, hrest⟩ := hmembers m hm
        exact .inr (.member (by simp [hrest, String.toList_append]))
  | updated hrenews =>
      have hgenerated : t.generated = s.generated := by rw [← hrenews.rest]
      refine h.of_new (Nat.le_of_eq hgenerated.symm) fun name v hv => .inl ?_
      obtain ⟨w, hw, -⟩ := hrenews.exists_of_object? hv
      exact ⟨w, hw⟩

end Session

/-! ## Runs -/

/-- Along a run all names have a source if the client asks for nothing else. -/
theorem Adapter.sourced_run [Engine σ] [Sink τ] {asked : String → Prop} (register : Register)
    {a : Adapter σ τ} (h : a.session.Sourced asked) (hs : a.session.Named)
    (stimuli : List (Stimulus σ))
    (hasked : ∀ text name, .line text ∈ stimuli → register.AsksFor name text → asked name) :
    (a.run register stimuli).session.Sourced asked := by
  refine Adapter.run_objects (fun _ _ h => h.sameObjects) register h hs stimuli ?_
  intro text command b hmem hcommand hkind hb hsourced
  refine hsourced.effect hb ?_ (Act.effect_perform hkind hb)
  rintro binding rfl
  exact hasked text binding.name hmem ⟨binding, hcommand, rfl⟩

/-! ## Generated names in use -/

/-- An object of this name was added to those that were there. -/
structure Session.Adds (name : String) (s t : Session) : Prop where
  fresh : s.object? name = none
  kept : ∀ other v, s.object? other = some v → t.object? other = some v
  count : t.objects.size = s.objects.size + 1

namespace Session

variable {s t : Session}

theorem size_add (s : Session) (v : Variable) :
    (s.add v).objects.size =
      if s.object? v.name = none then s.objects.size + 1 else s.objects.size := by
  have hcontains : s.objects.contains v.name = (s.object? v.name).isSome :=
    Std.ExtTreeMap.contains_eq_isSome_getElem?
  rw [add, Std.ExtTreeMap.size_insert, hcontains]
  cases s.object? v.name <;> rfl

/-- An object is added, or else it takes the place of another. -/
theorem adds_iff {v : Variable} (ht : t.objects = (s.add v).objects) :
    s.Adds v.name t ↔ s.object? v.name = none := by
  constructor
  · exact Adds.fresh
  · intro hfresh
    refine ⟨hfresh, fun other w hw => ?_, by rw [ht, size_add, if_pos hfresh]⟩
    have hne : v.name ≠ other := by
      rintro rfl
      rw [hfresh] at hw
      cases hw
    have hadd : (s.add v).object? other = some w := by rwa [object?_add, if_neg hne]
    rwa [object?, ht]

/-- The next generated name is new unless the client has asked for it. -/
theorem Sourced.object?_nextName {asked : String → Prop} (h : s.Sourced asked)
    (hasked : ¬ asked s.nextName.1) : s.object? s.nextName.1 = none := by
  cases hv : s.object? s.nextName.1 with
  | none => rfl
  | some v =>
      rw [nextName_fst] at hasked hv
      cases h _ v hv with
      | client h => exact (hasked h).elim
      | member h => exact (dot_not_mem_generatedName _ h).elim
      | counter h hname =>
          have heq := generatedName_inj hname
          omega

end Session

/-- A creation that succeeds adds an object under the chosen name and answers
with it. -/
theorem Act.created_of_done [Engine σ] [Sink τ] {register : Register} {text : String}
    {b : Binding} {a : Adapter σ τ} {record : ResultRecord}
    (hcommand : register.command? text = some (.createVariable b))
    (hanswer : a.answer? register text = some record) (hdone : record.resultClass = .done) :
    ∃ v : Variable, v.name = (a.session.choose b.name).1 ∧ v.expression = b.expression ∧
      record.results = v.createResults ∧
      ((handleLine register text).after a).session = (a.session.choose b.name).2.add v := by
  obtain ⟨journal, hsession, -, hanswered⟩ := handleLine_of_command? hcommand a
  have hcreate := leads_createVariable b { a with journal }
  obtain ⟨results, d, hperform, token, hrecord⟩ | ⟨e, d, -, token, message, hrecord⟩ := hanswered
  · rw [hanswer] at hrecord
    cases hrecord
    obtain ⟨v, hv, hexpression, -, hresults, hd⟩ := hcreate.of_ok hperform
    rw [after_of_ok hperform] at hsession
    exact ⟨v, hv, hexpression, hresults, hsession.trans hd⟩
  · rw [hanswer] at hrecord
    cases hrecord
    cases hdone

/-- **Generated names**: a command that succeeds in creating an object under a
generated name answers with this object, which then stands under the name, and
changes no object of another name.  It adds an object to the others if and only
if there was none of the name, and that is the case unless the client has asked
for an object of this very name before; an object of the name is replaced. -/
theorem Adapter.generated_name_of_run [Engine σ] [Sink τ] (config : Config) (engine : σ)
    (sink : τ) (register : Register) (stimuli : List (Stimulus σ)) {text : String} {b : Binding}
    (hcommand : register.command? text = some (.createVariable b)) (hname : b.name = "-")
    {record : ResultRecord}
    (hanswer : ((Adapter.new config engine sink).run register stimuli).answer? register text =
      some record)
    (hdone : record.resultClass = .done) :
    let a := (Adapter.new config engine sink).run register stimuli
    let s := a.session
    let t := ((Act.handleLine register text).after a).session
    let name := s.nextName.1
    (∃ v, t.object? name = some v ∧ v.name = name ∧ v.expression = b.expression ∧
      record.results = v.createResults) ∧
    (∀ other, other ≠ name → t.object? other = s.object? other) ∧
    (s.Adds name t ↔ s.object? name = none) ∧
    ((∀ earlier, .line earlier ∈ stimuli → ¬ register.AsksFor name earlier) → s.Adds name t) ∧
    (s.object? name ≠ none → t.objects.size = s.objects.size) := by
  intro a s t name
  obtain ⟨v, hv, hexpression, hresults, ht⟩ := Act.created_of_done hcommand hanswer hdone
  have hchoose : s.choose b.name = s.nextName := if_pos hname
  replace hv : v.name = name := by rw [hv, hchoose]
  replace ht : t = s.nextName.2.add v := by rw [← hchoose]; exact ht
  have hobject : ∀ other, t.object? other = if name = other then some v else s.object? other := by
    intro other
    rw [ht, Session.object?_add, hv]
    rfl
  have hiff : s.Adds name t ↔ s.object? name = none := by
    have hadds := Session.adds_iff (s := s) (t := t) (v := v) (by rw [ht]; rfl)
    rwa [hv] at hadds
  refine ⟨⟨v, ?_, hv, hexpression, hresults⟩, ?_, hiff, ?_, ?_⟩
  · rw [hobject, if_pos rfl]
  · intro other hother
    rw [hobject, if_neg hother.symm]
  · intro hunasked
    have hsourced : s.Sourced fun name => ∃ earlier, .line earlier ∈ stimuli ∧
        register.AsksFor name earlier :=
      sourced_run register (Session.sourced_new _ config) (Session.named_new config) stimuli
        fun earlier name hmem hasks => ⟨earlier, hmem, hasks⟩
    refine hiff.mpr (hsourced.object?_nextName ?_)
    rintro ⟨earlier, hmem, hasks⟩
    exact hunasked earlier hmem hasks
  · intro htaken
    have hsize := Session.size_add s v
    rw [hv, if_neg htaken] at hsize
    rw [ht]
    exact hsize

namespace Memory

/-- A client that has named an object as the counter will name the next one. -/
def namesake : Adapter Memory Discard :=
  (Adapter.new {} pair Discard.discard).run .standard [.line "var-create var1 * x"]

/-- The generated name is taken: the object of `x` is replaced by that of `y`. -/
theorem generated_name_taken :
    let s := namesake.session
    let t := ((Act.handleLine .standard "var-create - * y").after namesake).session
    (namesake.answer? .standard "var-create - * y").map (·.resultClass) = some .done ∧
    ((s.object? "var1").map (·.expression) = some "x" ∧
      (t.object? "var1").map (·.expression) = some "y") ∧
    s.nextName.1 = "var1" ∧ ¬ s.Adds "var1" t := by
  intro s t
  have hevaluated : (namesake.answer? .standard "var-create - * y").map (·.resultClass) =
        some .done ∧
      ((s.object? "var1").map (·.expression) = some "x" ∧
        (t.object? "var1").map (·.expression) = some "y") ∧ s.nextName.1 = "var1" := by
    decide +kernel
  obtain ⟨hanswer, hobjects, hname⟩ := hevaluated
  have hnot : ¬ s.Adds "var1" t := by
    intro hadds
    have hold := hobjects.1
    rw [hadds.fresh] at hold
    cases hold
  exact ⟨hanswer, hobjects, hname, hnot⟩

/-- The second generated name is new, although an object of the first one has
been deleted. -/
theorem generated_name_of_run_pair :
    let a := (Adapter.new {} pair Discard.discard).run .standard
      (["var-create - * x", "var-delete var1", "var-create v * x"].map .line)
    let t := ((Act.handleLine .standard "var-create - * y").after a).session
    a.session.nextName.1 = "var2" ∧ a.session.Adds a.session.nextName.1 t := by
  intro a t
  have hcommand : Register.standard.command? "var-create - * y" = some (.createVariable
      { name := "-", frameAddress := "*", expression := "y", thread := none, frame := none }) := by
    decide +kernel
  have hevaluated : (a.answer? .standard "var-create - * y").map (·.resultClass) = some .done ∧
      a.session.nextName.1 = "var2" ∧ a.session.object? a.session.nextName.1 = none := by
    decide +kernel
  obtain ⟨hanswer, hname, hfresh⟩ := hevaluated
  obtain ⟨record, hrecord, hdone⟩ := Option.map_eq_some_iff.mp hanswer
  obtain ⟨-, -, hiff, -, -⟩ := Adapter.generated_name_of_run {} pair Discard.discard .standard
    (["var-create - * x", "var-delete var1", "var-create v * x"].map .line)
    hcommand rfl hrecord hdone
  exact ⟨hname, hiff.mpr hfresh⟩

end Memory

end MachineInterface
