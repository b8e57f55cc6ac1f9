import Mathlib.Data.List.Nodup
import MachineInterface.Engine.Evaluator
import MachineInterface.Proofs.Lineage

/-!
# MachineInterface.Proofs.ChangeLists

Which objects a change list names, and how often.  A walk comes to an object by its
name only, so that names have to tell the members of a value apart, also when they are
composed (`Engine.TellsApart`).  Then the walk from one root reports no object twice
(`Visit.Forked.nodup_report`).  An update of all objects walks from several roots, and a
root whose name lies below that of another is visited from both:
`Adapter.reported_names_of_run` says when a change list names an object twice.
-/

namespace MachineInterface

variable {σ τ : Type}

/-! ## Composed names -/

namespace Variable

theorem below_iff_toList {root name : String} :
    Below root name ↔ name.toList = root.toList ∨
      ∃ rest, name.toList = root.toList ++ '.' :: rest := by
  unfold Below
  rw [← String.toList_inj]
  refine or_congr_right ⟨?_, ?_⟩
  · rintro ⟨rest, rfl⟩
    exact ⟨rest.toList, by simp [String.toList_append]⟩
  · rintro ⟨rest, hrest⟩
    exact ⟨String.ofList rest, by simp [← String.toList_inj, String.toList_append, hrest]⟩

theorem Below.refl (name : String) : Below name name := .inl rfl

theorem below_append (root step : String) : Below root (root ++ "." ++ step) := .inr ⟨step, rfl⟩

theorem Below.trans {r p q : String} (hrp : Below r p) (hpq : Below p q) : Below r q := by
  rw [below_iff_toList] at *
  obtain hp | ⟨above, hp⟩ := hrp
  · rwa [hp] at hpq
  · obtain hq | ⟨rest, hq⟩ := hpq
    · exact .inr ⟨above, hq.trans hp⟩
    · exact .inr ⟨above ++ '.' :: rest, by rw [hq, hp, List.append_assoc, List.cons_append]⟩

theorem Below.length_le {root name : String} (h : Below root name) :
    root.length ≤ name.length := by
  rw [← String.length_toList, ← String.length_toList]
  obtain hname | ⟨rest, hname⟩ := below_iff_toList.mp h
  · exact Nat.le_of_eq (congrArg List.length hname).symm
  · simp [hname]

/-- Of two names above the same name, one lies above the other. -/
theorem Below.total {r q name : String} (hr : Below r name) (hq : Below q name) :
    Below r q ∨ Below q r := by
  rw [below_iff_toList] at *
  obtain hname | ⟨rest, hrest⟩ := hr
  · rw [hname] at hq
    exact .inr (below_iff_toList.mpr hq)
  · obtain hname | ⟨other, hother⟩ := hq
    · rw [hname] at hrest
      exact .inl (.inr ⟨rest, hrest⟩)
    · rw [hrest] at hother
      obtain ⟨between, hq, htail⟩ | ⟨between, hr, htail⟩ := List.append_eq_append_iff.mp hother
      · cases between with
        | nil => exact .inl (.inl (by simpa using hq))
        | cons c between =>
            obtain ⟨rfl, -⟩ := List.cons.inj htail
            exact .inl (.inr ⟨between, hq⟩)
      · cases between with
        | nil => exact .inl (.inl (by simpa using hr.symm))
        | cons c between =>
            obtain ⟨rfl, -⟩ := List.cons.inj htail
            exact .inr (below_iff_toList.mpr (.inr ⟨between, hr⟩))

/-- A name that lies below another one, and is not the same, has a dot. -/
theorem Below.dot_mem {root name : String} (h : Below root name) (hne : root ≠ name) :
    '.' ∈ name.toList := by
  obtain hname | ⟨rest, hname⟩ := below_iff_toList.mp h
  · exact (hne (String.toList_inj.mp hname.symm)).elim
  · simp [hname]

/-- The first step of the way to a name ends at a dot. -/
theorem toList_step_of_below {root step name : String} (hstep : '.' ∉ step.toList)
    (h : Below (root ++ "." ++ step) name) :
    (name.toList.drop (root.toList.length + 1)).takeWhile (· ≠ '.') = step.toList := by
  have hname : ∃ rest, name.toList = root.toList ++ '.' :: (step.toList ++ rest) ∧
      rest.takeWhile (· ≠ '.') = [] := by
    obtain hname | ⟨rest, hname⟩ := below_iff_toList.mp h
    · exact ⟨[], by simp [hname, String.toList_append], rfl⟩
    · exact ⟨'.' :: rest, by simp [hname, String.toList_append], rfl⟩
  have hpos : ∀ c ∈ step.toList, decide (c ≠ '.') = true :=
    fun c hc => decide_eq_true fun heq => hstep (heq ▸ hc)
  obtain ⟨rest, hname, hrest⟩ := hname
  rw [hname, ← List.singleton_append, ← List.append_assoc, List.drop_left' (by simp),
    List.takeWhile_append_of_pos hpos, hrest, List.append_nil]

theorem step_eq_of_below {root s t name : String} (hs : '.' ∉ s.toList) (ht : '.' ∉ t.toList)
    (hsname : Below (root ++ "." ++ s) name) (htname : Below (root ++ "." ++ t) name) : s = t := by
  rw [← String.toList_inj, ← toList_step_of_below hs hsname, toList_step_of_below ht htname]

end Variable

/-! ### Members told apart -/

/-- The name has no dot, and is not one that an unnamed member gets. -/
structure Member.Plain (name : String) : Prop where
  dot : '.' ∉ name.toList
  dollar : ∀ index : Nat, name ≠ "$" ++ toString index

namespace Variable

variable {member other : String} {i j : Nat}

theorem toList_dollar (i : Nat) : ("$" ++ toString i).toList = '$' :: Nat.toDigits 10 i := by
  simp [toString, String.toList_append, ← Nat.toList_repr]

theorem dot_not_mem_step (h : '.' ∉ member.toList) (i : Nat) : '.' ∉ (step member i).toList := by
  unfold step
  split
  · rw [toList_dollar, List.mem_cons]
    rintro (hdollar | hdigit)
    · cases hdollar
    · have hdecimal : '.'.isDigit = true :=
        Nat.isDigit_of_mem_toDigits (by decide) (by decide) hdigit
      simp at hdecimal
  · exact h

/-- Members with the same step have the same name, or none and the same index. -/
theorem step_inj (hmember : Member.Plain member) (hother : Member.Plain other)
    (h : step member i = step other j) : member ≠ "" ∧ member = other ∨ i = j := by
  unfold step at h
  split at h <;> split at h
  · have hlist := congrArg String.toList h
    rw [toList_dollar, toList_dollar] at hlist
    have hdigits := (List.cons.inj hlist).2
    refine .inr ?_
    rw [← Nat.ofDigitChars_ten_toDigits (n := i), hdigits, Nat.ofDigitChars_ten_toDigits]
  · exact (hother.dollar i h.symm).elim
  · exact (hmember.dollar j h).elim
  · next hne _ => exact .inl ⟨hne, h⟩

end Variable

/-- The members of a value have names that tell them apart, whatever values are asked
for on the way. -/
structure Engine.TellsApart [Engine σ] (engine : σ) : Prop where
  plain : ∀ e value index member, Engine.Reads engine e →
    (Engine.answer (.member value index) e).1 = .ok member → Member.Plain member.name
  distinct : ∀ e f value i j m n, Engine.Reads engine e → Engine.Reads engine f →
    (Engine.answer (.member value i) e).1 = .ok m →
    (Engine.answer (.member value j) f).1 = .ok n → m.name = n.name → m.name ≠ "" → i = j

theorem Engine.TellsApart.of_reads [Engine σ] {engine engine' : σ}
    (h : Engine.TellsApart engine) (hreads : Engine.Reads engine engine') :
    Engine.TellsApart engine' where
  plain e value index member he := h.plain e value index member (hreads.trans he)
  distinct e f value i j m n he hf :=
    h.distinct e f value i j m n (hreads.trans he) (hreads.trans hf)

/-- Different members of a value have different steps. -/
theorem Engine.TellsApart.index_eq [Engine σ] {engine e f : σ} (h : Engine.TellsApart engine)
    {value i j : Nat} {m n : Member} (he : Engine.Reads engine e) (hf : Engine.Reads engine f)
    (hm : (Engine.answer (.member value i) e).1 = .ok m)
    (hn : (Engine.answer (.member value j) f).1 = .ok n)
    (hstep : Variable.step m.name i = Variable.step n.name j) : i = j := by
  obtain ⟨hne, heq⟩ | heq :=
    Variable.step_inj (h.plain e value i m he hm) (h.plain f value j n hf hn) hstep
  · exact h.distinct e f value i j m n he hf hm hn heq hne
  · exact heq

/-! ## The walk from one root -/

namespace Visit

/-- On each level the names of the members follow the name of the object in one step, and
differ from each other. -/
inductive Forked : Visit → Prop
  | mk {object : Variable} {changed : Bool} {members : List Visit}
      (hstep : ∀ m ∈ members, ∃ step : String, '.' ∉ step.toList ∧
        m.object.name = object.name ++ "." ++ step)
      (hdistinct : (members.map (·.object.name)).Nodup) (hmembers : ∀ m ∈ members, m.Forked) :
    Forked ⟨object, changed, members⟩

/-- Members whose names differ stand where their names say. -/
theorem index_eq_of_name_eq {members : List Visit} {m n : Visit} {i j : Nat}
    (h : (members.map (·.object.name)).Nodup) (hm : members[i]? = some m)
    (hn : members[j]? = some n) (heq : m.object.name = n.object.name) : i = j := by
  obtain ⟨hlt, -⟩ := List.getElem?_eq_some_iff.mp hm
  refine (List.getElem?_inj (by rwa [List.length_map]) h).mp ?_
  rw [List.getElem?_map, List.getElem?_map, hm, hn, Option.map_some, Option.map_some, heq]

namespace Forked

open Variable (Below)

variable {visit found other : Visit} {place place' : List Nat}

theorem lies_below (h : visit.Forked) (hfound : visit.at? place = some found) :
    Below visit.object.name found.object.name := by
  induction h generalizing place with
  | @mk object changed members hstep hdistinct hmembers ih =>
      cases place with
      | nil =>
          cases hfound
          exact .refl _
      | cons n place =>
          obtain ⟨member, hmember, hfound⟩ := at?_cons_eq_some hfound
          have hmem := List.mem_of_getElem? hmember
          obtain ⟨step, -, hname⟩ := hstep member hmem
          have hbelow := ih member hmem hfound
          rw [hname] at hbelow
          exact (Variable.below_append object.name step).trans hbelow

/-- Visits at different places have different names. -/
theorem place_eq (h : visit.Forked) (hfound : visit.at? place = some found)
    (hother : visit.at? place' = some other) (hname : found.object.name = other.object.name) :
    place = place' := by
  induction h generalizing place place' with
  | @mk object changed members hstep hdistinct hmembers ih =>
      -- What lies in a member has a longer name than the object.
      have hlonger : ∀ {member : Visit} {p : List Nat} {f : Visit}, member ∈ members →
          member.at? p = some f → f.object.name ≠ object.name := by
        intro member p f hmem hf heq
        obtain ⟨step, -, hmember⟩ := hstep member hmem
        have hle := ((hmembers member hmem).lies_below hf).length_le
        have hdot : ".".length = 1 := rfl
        simp only [hmember, heq, String.length_append] at hle
        omega
      cases place with
      | nil =>
          cases hfound
          cases place' with
          | nil => rfl
          | cons m place' =>
              obtain ⟨member, hmember, hother⟩ := at?_cons_eq_some hother
              exact (hlonger (List.mem_of_getElem? hmember) hother hname.symm).elim
      | cons n place =>
          obtain ⟨member, hmember, hfound⟩ := at?_cons_eq_some hfound
          have hmem := List.mem_of_getElem? hmember
          cases place' with
          | nil =>
              cases hother
              exact (hlonger hmem hfound hname).elim
          | cons m place' =>
              obtain ⟨member', hmember', hother⟩ := at?_cons_eq_some hother
              have hmem' := List.mem_of_getElem? hmember'
              obtain ⟨step, hdot, hn⟩ := hstep member hmem
              obtain ⟨step', hdot', hm⟩ := hstep member' hmem'
              have hbelow := (hmembers member hmem).lies_below hfound
              have hbelow' := (hmembers member' hmem').lies_below hother
              rw [hn] at hbelow
              rw [hm, ← hname] at hbelow'
              have hsame : member.object.name = member'.object.name := by
                rw [hn, hm, Variable.step_eq_of_below hdot hdot' hbelow hbelow']
              obtain rfl := index_eq_of_name_eq hdistinct hmember hmember' hsame
              rw [hmember] at hmember'
              cases hmember'
              rw [ih member hmem hfound hother]

/-- The report of the walk from one root names no object twice. -/
theorem nodup_report (h : visit.Forked) : (visit.report.map (·.name)).Nodup := by
  have hreport := visit.reportsAt_places
  have hnames : (visit.report.map (·.name)).map some =
      visit.places.map fun place => (visit.at? place).map (·.object.name) := by
    have := congrArg (List.map (Option.map (·.name))) hreport.report
    simpa [List.map_map, Function.comp_def] using this
  refine List.Nodup.of_map some ?_
  rw [hnames]
  refine hreport.distinct.map_on fun place hplace place' hplace' heq => ?_
  obtain ⟨found, hfound, -⟩ := hreport.changed place hplace
  obtain ⟨other, hother, -⟩ := hreport.changed place' hplace'
  simp only [hfound, hother, Option.map_some, Option.some.injEq] at heq
  exact h.place_eq hfound hother heq

theorem below_of_mem_report (h : visit.Forked) {v : Variable} (hv : v ∈ visit.report) :
    Below visit.object.name v.name := by
  have hmem : some v ∈ visit.report.map some := List.mem_map_of_mem hv
  rw [visit.reportsAt_places.report] at hmem
  obtain ⟨place, -, hplace⟩ := List.mem_map.mp hmem
  obtain ⟨found, hfound, rfl⟩ := Option.map_eq_some_iff.mp hplace
  exact h.lies_below hfound

/-- If two walks report the same name, the name of one root lies below that of the other. -/
theorem below_or_below {t u : Visit} (ht : t.Forked) (hu : u.Forked) {v w : Variable}
    (hv : v ∈ t.report) (hw : w ∈ u.report) (heq : v.name = w.name) :
    Below t.object.name u.object.name ∨ Below u.object.name t.object.name := by
  have hbelow := hu.below_of_mem_report hw
  rw [← heq] at hbelow
  exact (ht.below_of_mem_report hv).total hbelow

end Forked

end Visit

namespace Act

variable [Engine σ]

/-- A walk goes apart on each level if the engine tells the members apart. -/
theorem Walk.forked {v : Variable} {a b : Adapter σ τ} {visit : Visit} {index : Nat}
    (h : Walk v a visit index b) (hengine : Engine.TellsApart a.engine)
    (ha : a.session.Named) : visit.Forked := by
  induction h with
  | update _ => exact .mk (by simp) (by simp) (by simp)
  | refused _ _ ih => exact ih hengine ha
  | unlisted _ _ _ ih => exact ih hengine ha
  | failed _ _ _ _ ih => exact ih hengine ha
  | @visit v child a b c object changed members visited index member h hmember hchild hvisited
      ih ihvisited =>
      obtain ⟨hstep, hdistinct, hmembers⟩ := ih hengine ha
      have hb := h.named ha
      have hasked : Engine.Reads b.engine (b.asked (.member object.handle index)).engine :=
        .single (Engine.asked trivial b.engine)
      have hname : visited.object.name = object.name ++ "." ++ Variable.step member.name index := by
        rw [hvisited.reread.renewed.name_eq, hb _ _ hchild, Variable.childName_eq_step]
      have hplain := hengine.plain _ _ _ _ h.reads hmember
      constructor
      case hstep =>
        intro m hm
        obtain hm | hm := List.mem_append.mp hm
        · exact hstep m hm
        · cases List.mem_singleton.mp hm
          exact ⟨_, Variable.dot_not_mem_step hplain.dot index, hname⟩
      case hdistinct =>
        rw [List.map_append, List.nodup_append]
        refine ⟨hdistinct, List.nodup_singleton _, ?_⟩
        rintro _ hearlier _ hlast rfl
        obtain ⟨m, hm, hsame⟩ := List.mem_map.mp hearlier
        obtain ⟨i, hi, e, member', he, hmember', hname'⟩ := h.exists_namedAt ha m hm
        have heq : m.object.name = visited.object.name := by simpa [hsame] using hlast
        rw [hname', hname, Variable.childName_eq_step] at heq
        have hindex := hengine.index_eq he h.reads hmember' hmember
          ((String.append_right_inj _).mp heq)
        omega
      case hmembers =>
        intro m hm
        obtain hm | hm := List.mem_append.mp hm
        · exact hmembers m hm
        · cases List.mem_singleton.mp hm
          exact ihvisited (hengine.of_reads (h.reads.trans hasked)) hb

end Act

/-! ## The walks from all roots -/

namespace Act

variable [Engine σ] {P : Variable → Prop} {a b : Adapter σ τ} {visits : List Visit}

/-- A visit that an update of `a` makes: the walk from an object of the session, behind
other walks. -/
def Visits (P : Variable → Prop) (a : Adapter σ τ) (visit : Visit) : Prop :=
  ∃ (v : Variable) (b c : Adapter σ τ), Walked v b visit c ∧
    b.session.object? v.name = some v ∧ b.session.Each P ∧ Engine.Reads a.engine b.engine

theorem Visits.of_reads {visit : Visit} (h : Visits P b visit)
    (hreads : Engine.Reads a.engine b.engine) : Visits P a visit := by
  obtain ⟨v, c, d, hwalked, hobject, hc, hbc⟩ := h
  exact ⟨v, c, d, hwalked, hobject, hc, hreads.trans hbc⟩

theorem visits_of_visitTree {v : Variable} {name : String} {visit : Visit}
    (ha : a.session.Each P) (hv : a.session.object? name = some v)
    (h : visitTree v a = .ok visit b) : Visits P a visit := by
  rw [← ha.named name v hv] at hv
  exact ⟨v, a, b, walked_visitTree ha.named h, hv, ha, .refl⟩

theorem visitRoots_eq_ok (hP : ∀ v w, P v → v.Reread σ w → P w) {roots : List String}
    (ha : a.session.Each P) (h : visitRoots roots a = .ok visits b) :
    (visits.map (·.object.name)).Sublist roots ∧
      ∀ visit ∈ visits, Visits P a visit ∧ visit.object.parent = none := by
  induction roots generalizing a visits with
  | nil =>
      cases h
      exact ⟨.refl _, by simp⟩
  | cons name roots ih =>
      rw [visitRoots, bind_of_ok (session_apply a)] at h
      cases hroot : (a.session.object? name).filter (·.parent.isNone) with
      | none =>
          simp only [hroot] at h
          obtain ⟨hsub, hvisits⟩ := ih ha h
          exact ⟨hsub.cons name, hvisits⟩
      | some root =>
          simp only [hroot] at h
          obtain ⟨hobject, hparent⟩ := Option.filter_eq_some_iff.mp hroot
          obtain ⟨outcome, c, hattempt, h⟩ := bind_eq_ok.mp h
          obtain ⟨first, d, hmute, h⟩ := bind_eq_ok.mp h
          obtain ⟨rest, e, hrest, h⟩ := bind_eq_ok.mp h
          cases h
          have heach := each_visitTree hP ha (ha.holds name root hobject)
          have hreads := reads_visitTree (v := root) ha.named
          cases htree : visitTree root a with
          | error cause _ =>
              rw [after_of_error htree] at heach hreads
              simp only [attempt, htree] at hattempt
              cases hattempt
              cases hmute
              obtain ⟨hsub, hvisits⟩ := ih (a := c.passing cause) heach hrest
              exact ⟨hsub.cons name,
                fun visit hmem => (hvisits visit hmem).imp_left fun h => h.of_reads hreads⟩
          | ok visit _ =>
              have hvisit := visits_of_visitTree ha hobject htree
              have hrenewed := (walked_visitTree ha.named htree).reread.renewed
              rw [after_of_ok htree] at heach hreads
              simp only [attempt, htree] at hattempt
              cases hattempt
              cases hmute
              obtain ⟨hsub, hvisits⟩ := ih heach hrest
              constructor
              · rw [Option.toList_some, List.singleton_append, List.map_cons, hrenewed.name_eq,
                  ha.named name root hobject]
                exact hsub.cons_cons name
              · intro other hmem
                obtain rfl | hmem := List.mem_cons.mp hmem
                · refine ⟨hvisit, ?_⟩
                  obtain ⟨handle, info, heq⟩ := hrenewed
                  rw [heq]
                  exact Option.isNone_iff_eq_none.mp hparent
                · exact (hvisits other hmem).imp_left fun h => h.of_reads hreads

theorem visitNamed_of_ne {name : String} (hname : name ≠ "*")
    (h : visitNamed name a = .ok visits b) :
    ∃ v visit, a.session.object? name = some v ∧ visitTree v a = .ok visit b ∧
      visits = [visit] := by
  rw [visitNamed, if_neg hname] at h
  obtain ⟨v, c, hobject, hrest⟩ := bind_eq_ok.mp h
  obtain ⟨hv, rfl⟩ := object_eq_ok hobject
  obtain ⟨visit, d, htree, hlist⟩ := bind_eq_ok.mp hrest
  cases hlist
  exact ⟨v, visit, hv, htree, rfl⟩

/-- An update of one object is a walk, that of all objects is one for each root. -/
theorem visitNamed_eq_ok (hP : ∀ v w, P v → v.Reread σ w → P w) {name : String}
    (ha : a.session.Each P) (h : visitNamed name a = .ok visits b) :
    (visits.map (·.object.name)).Nodup ∧ (∀ visit ∈ visits, Visits P a visit) ∧
      (name ≠ "*" → ∃ visit, visits = [visit] ∧ visit.object.name = name) ∧
      (name = "*" → ∀ visit ∈ visits, visit.object.parent = none) := by
  by_cases hname : name = "*"
  · rw [visitNamed, if_pos hname, bind_of_ok (session_apply a)] at h
    obtain ⟨hsub, hvisits⟩ := visitRoots_eq_ok hP ha h
    exact ⟨hsub.nodup a.session.nodup_objectNames, fun visit hmem => (hvisits visit hmem).1,
      fun hne => (hne hname).elim, fun _ visit hmem => (hvisits visit hmem).2⟩
  · obtain ⟨v, visit, hv, htree, rfl⟩ := visitNamed_of_ne hname h
    have hwalked := walked_visitTree ha.named htree
    refine ⟨List.nodup_singleton _, ?_, fun _ => ⟨visit, rfl, ?_⟩, fun hall => (hname hall).elim⟩
    · intro other hmem
      cases List.mem_singleton.mp hmem
      exact visits_of_visitTree ha hv htree
    · rw [hwalked.reread.renewed.name_eq, ha.named name v hv]

end Act

theorem reportAll_eq_flatMap (visits : List Visit) :
    reportAll visits = visits.flatMap Visit.report := by
  induction visits with
  | nil => rfl
  | cons visit visits ih => rw [reportAll, ih, List.flatMap_cons]

/-- Several walks name an object twice exactly if two of them name it. -/
theorem nodup_reportAll {visits : List Visit} (h : ∀ visit ∈ visits, visit.Forked) :
    ((reportAll visits).map (·.name)).Nodup ↔
      visits.Pairwise fun t u => ∀ v ∈ t.report, ∀ w ∈ u.report, v.name ≠ w.name := by
  have hone : ∀ visit ∈ visits, (visit.report.map (·.name)).Nodup :=
    fun visit hvisit => (h visit hvisit).nodup_report
  rw [reportAll_eq_flatMap, List.map_flatMap, List.nodup_flatMap, and_iff_right hone]
  refine List.Pairwise.iff fun t u => ?_
  simp only [Function.onFun, List.disjoint_left, List.mem_map]
  constructor
  · intro hdisjoint v hv w hw heq
    exact hdisjoint ⟨v, hv, rfl⟩ ⟨w, hw, heq.symm⟩
  · rintro hapart _ ⟨v, hv, rfl⟩ ⟨w, hw, heq⟩
    exact hapart v hv w hw heq.symm

/-! ## Change lists -/

open Variable (Lineage Below)

/-- The answer to an update that succeeds tells what was visited. -/
theorem Act.visits_of_done [Engine σ] [Sink τ] {register : Register} {text name : String}
    {shown : PrintValues} {a : Adapter σ τ} {record : ResultRecord}
    (hcommand : register.command? text = some (.updateVariables shown name))
    (hanswer : a.answer? register text = some record) (hdone : record.resultClass = .done) :
    ∃ (journal : Journal) (visits : List Visit) (b : Adapter σ τ),
      visitNamed name { a with journal } = .ok visits b ∧
      ((handleLine register text).after a).session = b.session ∧
      record.results = changeList shown (reportAll visits) := by
  obtain ⟨journal, hsession, -, hanswered⟩ := handleLine_of_command? hcommand a
  obtain ⟨results, c, hperform, token, hrecord⟩ | ⟨e, c, -, token, message, hrecord⟩ := hanswered
  · rw [hanswer] at hrecord
    cases hrecord
    rw [after_of_ok hperform] at hsession
    obtain ⟨visits, b, hvisit, hresults⟩ := bind_eq_ok.mp hperform
    cases hresults
    exact ⟨journal, visits, c, hvisit, hsession, rfl⟩
  · rw [hanswer] at hrecord
    cases hrecord
    cases hdone

/-- A root whose name has a dot has a name that the client has asked for. -/
theorem asked_of_dot_mem {register : Register} {stimuli : List (Stimulus σ)} {name : String}
    (h : register.Roots stimuli name) (hdot : '.' ∈ name.toList) :
    ∃ text, .line text ∈ stimuli ∧ register.AsksFor name text := by
  obtain hasked | ⟨n, rfl⟩ := h
  · exact hasked
  · exact (dot_not_mem_generatedName n hdot).elim

/-- **Reported names**: with an engine that tells members apart, behind any run, an update
reports of the walks from objects, of each walk every object at most once.  An update of
one object makes one walk, that of `*` at most one for each root.  So the whole list names
an object twice if and only if two walks report it; then the name of one root lies below
that of the other, and the client has asked for an object of this name.  As long as the
client asks for no name with a dot, no object is named twice. -/
theorem Adapter.reported_names_of_run [Engine σ] [Sink τ] (config : Config) (engine : σ)
    (sink : τ) (register : Register) (stimuli : List (Stimulus σ)) {text name : String}
    {shown : PrintValues} {record : ResultRecord}
    (hcommand : register.command? text = some (.updateVariables shown name))
    (hengine : Engine.TellsApart ((Adapter.new config engine sink).run register stimuli).engine)
    (hanswer : ((Adapter.new config engine sink).run register stimuli).answer? register text =
      some record)
    (hdone : record.resultClass = .done) :
    ∃ visits : List Visit, record.results = changeList shown (reportAll visits) ∧
      (∀ visit ∈ visits, (∃ (v : Variable) (b c : Adapter σ τ), Act.Walked v b visit c) ∧
        (visit.report.map (·.name)).Nodup) ∧
      (name ≠ "*" → ∃ visit, visits = [visit] ∧ visit.object.name = name) ∧
      (name = "*" → (visits.map (·.object.name)).Nodup ∧
        ∀ visit ∈ visits, visit.object.parent = none) ∧
      (((reportAll visits).map (·.name)).Nodup ↔
        visits.Pairwise fun t u => ∀ v ∈ t.report, ∀ w ∈ u.report, v.name ≠ w.name) ∧
      (∀ t ∈ visits, ∀ u ∈ visits,
        ((∃ v ∈ t.report, ∃ w ∈ u.report, v.name = w.name) →
          Below t.object.name u.object.name ∨ Below u.object.name t.object.name) ∧
        (t.object.name ≠ u.object.name → Below t.object.name u.object.name →
          ∃ earlier, .line earlier ∈ stimuli ∧ register.AsksFor u.object.name earlier)) ∧
      ((∀ earlier asked, .line earlier ∈ stimuli → register.AsksFor asked earlier →
          '.' ∉ asked.toList) →
        ((reportAll visits).map (·.name)).Nodup) := by
  have hlineage := Adapter.lineage_run config engine sink register stimuli (σ := σ)
  generalize (Adapter.new config engine sink).run register stimuli = a at *
  obtain ⟨journal, visits, b, hvisit, -, hresults⟩ :=
    Act.visits_of_done hcommand hanswer hdone
  have hkept : ∀ v w, Lineage σ (register.Roots stimuli) v → v.Reread σ w →
      Lineage σ (register.Roots stimuli) w :=
    fun _ _ hv hw => .continued hv hw.continues
  obtain ⟨hroots, hvisits, hone, hall⟩ :=
    Act.visitNamed_eq_ok hkept (a := { a with journal }) hlineage hvisit
  have hforked : ∀ visit ∈ visits, visit.Forked := by
    intro visit hmem
    obtain ⟨v, c, d, hwalked, -, heach, hreads⟩ := hvisits visit hmem
    exact hwalked.forked (hengine.of_reads hreads) heach.named
  have hreported : ∀ t ∈ visits, ∀ u ∈ visits,
      (∃ v ∈ t.report, ∃ w ∈ u.report, v.name = w.name) →
        Below t.object.name u.object.name ∨ Below u.object.name t.object.name := by
    rintro t ht u hu ⟨v, hv, w, hw, heq⟩
    exact (hforked t ht).below_or_below (hforked u hu) hv hw heq
  have hasked : ∀ t ∈ visits, ∀ u ∈ visits, t.object.name ≠ u.object.name →
      Below t.object.name u.object.name →
        ∃ earlier, .line earlier ∈ stimuli ∧ register.AsksFor u.object.name earlier := by
    intro t ht u hu hne hbelow
    have hparent : u.object.parent = none := by
      by_cases hname : name = "*"
      · exact hall hname u hu
      · obtain ⟨visit, rfl, -⟩ := hone hname
        rw [List.mem_singleton.mp ht, List.mem_singleton.mp hu] at hne
        exact (hne rfl).elim
    obtain ⟨v, c, d, hwalked, hobject, heach, -⟩ := hvisits u hu
    have hlineage := hkept _ _ (heach.holds _ _ hobject) hwalked.reread
    exact asked_of_dot_mem (hlineage.name_of_root hparent) (hbelow.dot_mem hne)
  refine ⟨visits, hresults, fun visit hmem => ⟨?_, (hforked visit hmem).nodup_report⟩, hone,
    fun hname => ⟨hroots, hall hname⟩, nodup_reportAll hforked,
    fun t ht u hu => ⟨hreported t ht u hu, hasked t ht u hu⟩, fun hplain => ?_⟩
  · obtain ⟨v, c, d, hwalked, -⟩ := hvisits visit hmem
    exact ⟨v, c, d, hwalked⟩
  · have hapart : ∀ t ∈ visits, ∀ u ∈ visits, t.object.name ≠ u.object.name →
        ¬ Below t.object.name u.object.name := by
      intro t ht u hu hne hbelow
      obtain ⟨earlier, hmem, hasks⟩ := hasked t ht u hu hne hbelow
      exact hplain earlier _ hmem hasks (hbelow.dot_mem hne)
    refine (nodup_reportAll hforked).mpr ((List.pairwise_map.mp hroots).imp_of_mem ?_)
    intro t u ht hu hne v hv w hw heq
    obtain hbelow | hbelow := hreported t ht u hu ⟨v, hv, w, hw, heq⟩
    · exact hapart t ht u hu hne hbelow
    · exact hapart u hu t ht hne.symm hbelow

namespace Evaluator

theorem member_eq_ok {handle index : Nat} {m : Member} (h : member handle index = .ok m) :
    m.name = "x" ∧ index = 0 := by
  unfold member at h
  split at h
  · next hmade =>
    cases h
    exact ⟨rfl, hmade.2⟩
  · cases h

theorem tellsApart (e : Evaluator) : Engine.TellsApart e where
  plain _ _ _ _ _ h := by
    rw [(member_eq_ok h).1]
    refine ⟨by decide, fun index heq => ?_⟩
    have hlist := congrArg String.toList heq
    rw [Variable.toList_dollar] at hlist
    cases hlist
  distinct _ _ _ _ _ _ _ _ _ hi hj _ _ := (member_eq_ok hi).2.trans (member_eq_ok hj).2.symm

/-- The walk from `v` comes to the root `v.x`, which is no member of `v`, and the update
of all objects goes on to walk from there: `v.x` is reported twice. -/
theorem root_reported_twice :
    let a := (Adapter.new {} ({} : Evaluator) Discard.discard).run .standard
      (["var-create v * s", "var-create v.x * t"].map .line)
    Engine.TellsApart a.engine ∧
    Register.standard.command? "var-update *" = some (.updateVariables .no "*") ∧
    (a.answer? .standard "var-update *").map ResultRecord.text = some
      ("^done,changelist=[" ++
        "\x7bname=\"v.x\",in_scope=\"true\",type_changed=\"false\",has_more=\"0\"\x7d," ++
        "\x7bname=\"v.x\",in_scope=\"true\",type_changed=\"false\",has_more=\"0\"\x7d]") := by
  intro a
  exact ⟨tellsApart _, by decide +kernel, by decide +kernel⟩

/-- Two roots, one of them with a member, are reported once each. -/
theorem reported_names_of_run_roots :
    let a := (Adapter.new {} ({} : Evaluator) Discard.discard).run .standard
      (["var-create v * s", "var-list-children v", "var-create w * t"].map .line)
    ∃ visits, (a.answer? .standard "var-update *").map (·.results) =
        some (changeList .no (reportAll visits)) ∧
      ((reportAll visits).map (·.name)).Nodup := by
  intro a
  have hcommand : Register.standard.command? "var-update *" = some (.updateVariables .no "*") := by
    decide +kernel
  have hdone : (a.answer? .standard "var-update *").map (·.resultClass) = some .done := by
    decide +kernel
  obtain ⟨record, hanswer, hclass⟩ := Option.map_eq_some_iff.mp hdone
  obtain ⟨visits, hresults, -, -, -, -, -, hnodup⟩ :=
    Adapter.reported_names_of_run {} ({} : Evaluator) Discard.discard .standard
      (["var-create v * s", "var-list-children v", "var-create w * t"].map .line) hcommand
      (tellsApart _) hanswer hclass
  refine ⟨visits, ?_, hnodup ?_⟩
  · rw [hanswer, Option.map_some, hresults]
  · -- The client asks for `v` and for `w`.
    have hasked : ∀ earlier ∈ ["var-create v * s", "var-list-children v", "var-create w * t"],
        Register.standard.command? earlier ∈ [
          some (.createVariable ⟨"v", "*", "s", none, none⟩),
          some (.listChildren .no "v" none),
          some (.createVariable ⟨"w", "*", "t", none, none⟩)] := by
      decide +kernel
    rintro earlier asked hmem ⟨b, hb, rfl⟩
    have hline := hasked earlier (by simpa using hmem)
    rw [hb] at hline
    obtain hb | hb : b = ⟨"v", "*", "s", none, none⟩ ∨ b = ⟨"w", "*", "t", none, none⟩ := by
      simpa using hline
    · rw [hb]
      decide
    · rw [hb]
      decide

end Evaluator

end MachineInterface
