import MachineInterface.Proofs.ChangeLists

/-!
# MachineInterface.Proofs.Handles

Which values listed objects stand for.  A member gets its handle when it is listed.  An
update evaluates the expressions of roots again, so that their values get new handles, and
asks for the members of these, but only to find their objects by name: those keep the
handle that their listing gave (`Adapter.member_handles_of_run`).
-/

namespace MachineInterface

variable {σ τ : Type} [Engine σ]

open Variable (Lineage)

namespace Act

variable {a b : Adapter σ τ} {v : Variable} {visit : Visit} {index : Nat}

/-- A walk only reads objects again. -/
theorem Walk.exists_reread (h : Walk v a visit index b) (ha : a.session.Named)
    (hv : a.session.object? v.name = some v) {name : String} {u : Variable}
    (hu : a.session.object? name = some u) :
    ∃ w, b.session.object? name = some w ∧ u.Reread σ w := by
  induction h generalizing name u with
  | @update v object changed a b h =>
      obtain ⟨hread, hsession⟩ := updateObject_eq_ok h
      rw [hsession, Session.object?_add]
      by_cases hname : object.name = name
      · rw [if_pos hname]
        rw [← hname, hread.renewed.name_eq, hv] at hu
        cases hu
        exact ⟨object, rfl, hread⟩
      · rw [if_neg hname]
        exact ⟨u, hu, .refl u⟩
  | refused _ _ ih => exact ih ha hv hu
  | unlisted _ _ _ ih => exact ih ha hv hu
  | failed _ _ _ hfailed ih =>
      have hsession := updateObject_eq_error hfailed
      obtain ⟨w, hw, huw⟩ := ih ha hv hu
      exact ⟨w, hsession ▸ hw, huw⟩
  | visit h _ hchild _ ih ihvisited =>
      have hb := h.named ha
      obtain ⟨w, hw, huw⟩ := ih ha hv hu
      have hkey := hb _ _ hchild
      obtain ⟨x, hx, hwx⟩ := ihvisited hb (by rw [hkey]; exact hchild) hw
      exact ⟨x, hx, huw.trans hwx⟩

end Act

/-- **Handles of members**: behind any run, when an update of one object succeeds, each
object that was listed keeps the handle that its listing gave, and its account is one of
the value of this handle.  That is so for the visited members as well: the walk asks for
the members of the values that it has read again, and finds an object by the name of the
answer, but this object has the handle of the answer only if its listing gave the same
one. -/
theorem Adapter.member_handles_of_run [Sink τ] (config : Config) (engine : σ) (sink : τ)
    (register : Register) (stimuli : List (Stimulus σ)) {text name : String}
    {shown : PrintValues} {record : ResultRecord}
    (hcommand : register.command? text = some (.updateVariables shown name)) (hname : name ≠ "*")
    (hanswer : ((Adapter.new config engine sink).run register stimuli).answer? register text =
      some record)
    (hdone : record.resultClass = .done) :
    let a := (Adapter.new config engine sink).run register stimuli
    let s := a.session
    let t := ((Act.handleLine register text).after a).session
    ∃ (v : Variable) (visit : Visit) (b c : Adapter σ τ), s.object? name = some v ∧
      Act.Walked v b visit c ∧ b.session = s ∧ b.engine = a.engine ∧ c.session = t ∧
      record.results = changeList shown visit.report ∧
      (∀ key child, s.object? key = some child → child.parent ≠ none →
        (∃ (p : Variable) (f : σ) (i : Nat) (listed : Member),
          (Engine.answer (.member p.handle i) f).1 = .ok listed ∧
          key = Variable.childName p.name listed.name i ∧ child.handle = listed.handle) ∧
        ∃ child', t.object? key = some child' ∧ child'.handle = child.handle ∧
          (child'.info = child.info ∨ ∃ f : σ,
            (Engine.answer (.valueInfo child.handle child.format) f).1 = .ok child'.info)) ∧
      ∀ place found, visit.at? place = some found → ∀ m ∈ found.members,
        ∃ (e : σ) (i : Nat) (member : Member) (child : Variable),
          (Engine.answer (.member found.object.handle i) e).1 = .ok member ∧
          m.object.name = Variable.childName found.object.name member.name i ∧
          s.object? m.object.name = some child ∧
          (child.parent ≠ none → m.object.handle = child.handle ∧
            ((t.object? m.object.name).map (·.handle) = some member.handle ↔
              child.handle = member.handle)) := by
  intro a s t
  have hlineage : s.Each (Lineage σ (register.Roots stimuli)) :=
    Adapter.lineage_run config engine sink register stimuli
  obtain ⟨journal, visits, c, hvisits, hsession, hresults⟩ :=
    Act.visits_of_done hcommand hanswer hdone
  obtain ⟨v, visit, hv, htree, rfl⟩ := Act.visitNamed_of_ne hname hvisits
  have hwalked := Act.walked_visitTree (a := { a with journal }) hlineage.named htree
  have hfound := hv
  rw [← hlineage.named name v hv] at hfound
  rw [reportAll, reportAll, List.append_nil] at hresults
  have hlisted : ∀ key child, s.object? key = some child → child.parent ≠ none →
      child.origin = .plain ∧ ∃ child', t.object? key = some child' ∧ child.Reread σ child' := by
    intro key child hchild hparent
    obtain ⟨child', hchild', hread⟩ := hwalked.exists_reread hlineage.named hfound hchild
    rw [← hsession] at hchild'
    exact ⟨((hlineage.holds key child hchild).exists_of_member hparent).1, child', hchild', hread⟩
  refine ⟨v, visit, { a with journal }, c, hv, hwalked, rfl, rfl, hsession.symm, hresults,
    fun key child hchild hparent => ?_, fun place found hplace m hm => ?_⟩
  · obtain ⟨-, p, -, f, i, listed, hmember, hcomposed, hhandle⟩ :=
      (hlineage.holds key child hchild).exists_of_member hparent
    rw [hlineage.named key child hchild] at hcomposed
    obtain ⟨hplain, child', hchild', hread⟩ := hlisted key child hchild hparent
    exact ⟨⟨p, f, i, listed, hmember, hcomposed, hhandle⟩, child', hchild', hread.handle hplain,
      hread.info hplain⟩
  · -- What the walk comes to was an object of the session before.
    let P (w : Variable) : Prop := ∃ u, s.object? w.name = some u ∧ u.Reread σ w
    have hP : ∀ v w, P v → v.Reread σ w → P w := by
      rintro v w ⟨u, hu, huv⟩ hvw
      exact ⟨u, hvw.renewed.name_eq ▸ hu, huv.trans hvw⟩
    have hstart : s.Each P := ⟨hlineage.named, fun key u hu =>
      ⟨u, (hlineage.named key u hu).symm ▸ hu, .refl u⟩⟩
    obtain ⟨-, hnamed⟩ := hwalked.visited hP hstart ⟨v, hfound, .refl v⟩ hplace
    obtain ⟨i, e, member, -, hmember, hcomposed⟩ := hnamed m hm
    obtain ⟨n, hn⟩ := List.mem_iff_getElem?.mp hm
    have hbelow : visit.at? (place ++ [n]) = some m := by
      rw [Visit.at?_concat, hplace, Option.bind_some, hn]
    obtain ⟨⟨child, hchild, hread⟩, -⟩ :=
      hwalked.visited hP hstart ⟨v, hfound, .refl v⟩ hbelow
    refine ⟨e, i, member, child, hmember, hcomposed, hchild, fun hparent => ?_⟩
    obtain ⟨hplain, child', hchild', hread'⟩ := hlisted _ child hchild hparent
    refine ⟨hread.handle hplain, ?_⟩
    rw [hchild', Option.map_some, hread'.handle hplain, Option.some.injEq]

namespace Evaluator

/-- The value of `e` is evaluated again and has another member, but the object of the
member keeps the handle that it had of the first value. -/
theorem member_handle_stale :
    let a := (Adapter.new {} ({} : Evaluator) Discard.discard).run .standard
      (["var-create e * f()", "var-list-children e"].map .line)
    let t := ((Act.handleLine .standard "var-update e").after a).session
    (a.answer? .standard "var-update e").map (·.resultClass) = some .done ∧
    (t.object? "e").map (·.handle) = some 2 ∧
    (Engine.answer (.member 2 0) a.engine).1 = .ok ⟨"x", 3⟩ ∧
    (a.session.object? (Variable.childName "e" "x" 0)).map (·.parent) = some (some "e") ∧
    (t.object? (Variable.childName "e" "x" 0)).map (·.handle) = some 1 := by
  decide +kernel

/-- The same, as what holds of every update says it. -/
theorem member_handles_of_run_stale :
    let a := (Adapter.new {} ({} : Evaluator) Discard.discard).run .standard
      (["var-create e * f()", "var-list-children e"].map .line)
    let t := ((Act.handleLine .standard "var-update e").after a).session
    (t.object? "e.x").map (·.handle) = some 1 ∧
      ∃ (p : Variable) (i : Nat) (listed : Member), member p.handle i = .ok listed ∧
        "e.x" = Variable.childName p.name listed.name i ∧ listed.handle = 1 := by
  intro a t
  have hcommand : Register.standard.command? "var-update e" = some (.updateVariables .no "e") := by
    decide +kernel
  have hdone : (a.answer? .standard "var-update e").map (·.resultClass) = some .done := by
    decide +kernel
  obtain ⟨record, hanswer, hclass⟩ := Option.map_eq_some_iff.mp hdone
  have hlisted : (a.session.object? "e.x").map (fun v => (v.parent, v.handle)) =
      some (some "e", 1) := by
    decide +kernel
  obtain ⟨child, hchild, hfields⟩ := Option.map_eq_some_iff.mp hlisted
  obtain ⟨hparent, hhandle⟩ := Prod.mk.inj hfields
  obtain ⟨_, _, _, _, -, -, -, -, -, -, hkept, -⟩ :=
    Adapter.member_handles_of_run {} ({} : Evaluator) Discard.discard .standard
      (["var-create e * f()", "var-list-children e"].map .line) hcommand (by decide) hanswer hclass
  obtain ⟨⟨p, f, i, listed, hmember, hname, hgiven⟩, child', hchild', hsame, -⟩ :=
    hkept "e.x" child hchild (by simp [hparent])
  refine ⟨?_, p, i, listed, hmember, hname, hgiven.symm.trans hhandle⟩
  rw [hchild', Option.map_some, hsame, hhandle]

end Evaluator

end MachineInterface
