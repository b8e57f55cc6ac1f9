import MachineInterface.Engine.Evaluator
import MachineInterface.Proofs.Locality
import MachineInterface.Proofs.Visits

/-!
# MachineInterface.Proofs.Walks

The walk of an update through the members of an object, without a bound on its depth
(`Act.Walk`): the engine names a member, the session has an object of the composed
name, and that is visited in the same way, in the state that the visits before it have
left.  The bound that `visitTree` puts on the depth is never reached
(`walked_visitTree`), since a member's name is longer than its parent's.  Of the
visited objects those are reported that have changed and have no changed object below
them (`visitTree_reports`).
-/

namespace MachineInterface

variable {σ τ : Type}

/-! ## What holds of every object -/

/-- The same object, read again.  What is not evaluated again keeps its handle, and its
account is what the engine says of that. -/
structure Variable.Reread (σ : Type) [Engine σ] (v w : Variable) : Prop where
  renewed : v.Renewed w
  handle : v.origin = .plain → w.handle = v.handle
  info : v.origin = .plain → w.info = v.info ∨
    ∃ engine : σ, (Engine.answer (.valueInfo v.handle v.format) engine).1 = .ok w.info

namespace Variable.Reread

variable [Engine σ] {u v w : Variable}

theorem refl (v : Variable) : v.Reread σ v where
  renewed := .refl v
  handle _ := rfl
  info _ := .inl rfl

theorem trans (huv : u.Reread σ v) (hvw : v.Reread σ w) : u.Reread σ w := by
  obtain ⟨⟨handle, info, rfl⟩, huhandle, huinfo⟩ := huv
  obtain ⟨⟨handle', info', rfl⟩, hvhandle, hvinfo⟩ := hvw
  refine ⟨⟨handle', info', rfl⟩, fun hplain => ?_, fun hplain => ?_⟩
  · exact (hvhandle hplain).trans (huhandle hplain)
  · obtain hsame | ⟨engine, hanswer⟩ := hvinfo hplain
    · rw [hsame]
      exact huinfo hplain
    · have hhandle : handle = u.handle := huhandle hplain
      rw [hhandle] at hanswer
      exact .inr ⟨engine, hanswer⟩

end Variable.Reread

namespace Session

/-- Every object is kept under its own name and satisfies `P`. -/
structure Each (P : Variable → Prop) (s : Session) : Prop where
  named : s.Named
  holds : ∀ name v, s.object? name = some v → P v

variable {P : Variable → Prop} {s : Session}

theorem Each.add (h : s.Each P) {v : Variable} (hv : P v) : (s.add v).Each P where
  named := h.named.add v
  holds name w hw := by
    rw [object?_add] at hw
    split at hw
    · cases hw
      exact hv
    · exact h.holds name w hw

theorem Each.mono {Q : Variable → Prop} (h : s.Each P) (hPQ : ∀ v, P v → Q v) : s.Each Q where
  named := h.named
  holds name v hv := hPQ v (h.holds name v hv)

theorem le_longest {name : String} {names : List String} (h : name ∈ names) :
    name.length ≤ Act.longest names := by
  induction names with
  | nil => cases h
  | cons other names ih =>
      change name.length ≤ max other.length (Act.longest names)
      obtain rfl | h := List.mem_cons.mp h
      · exact Nat.le_max_left _ _
      · exact Nat.le_trans (ih h) (Nat.le_max_right _ _)

theorem mem_objectNames {name : String} :
    name ∈ s.objectNames ↔ ∃ v, s.object? name = some v := by
  rw [objectNames, Std.ExtTreeMap.mem_keys, Std.ExtTreeMap.mem_iff_isSome_getElem?,
    Option.isSome_iff_exists]
  rfl

theorem nodup_objectNames (s : Session) : s.objectNames.Nodup :=
  Std.ExtTreeMap.nodup_keys

theorem Named.each_le_longest (h : s.Named) :
    s.Each (·.name.length ≤ Act.longest s.objectNames) where
  named := h
  holds name v hv := by
    rw [h name v hv]
    exact le_longest (mem_objectNames.mpr ⟨v, hv⟩)

theorem Named.each_le_max (h : s.Named) (n : Nat) :
    s.Each (·.name.length ≤ max n (Act.longest s.objectNames)) :=
  h.each_le_longest.mono fun _ hle => Nat.le_trans hle (Nat.le_max_right _ _)

end Session

/-! ## Walks -/

variable [Engine σ]

/-- The engine goes from one state to another while it answers requests for values. -/
def Engine.Reads : σ → σ → Prop := Relation.ReflTransGen (Engine.Asked Request.isValueAccess)

namespace Adapter

/-- The adapter behind a request. -/
def asked (a : Adapter σ τ) (request : Request) : Adapter σ τ :=
  { a with engine := (Engine.answer request a.engine).2 }

omit [Engine σ] in
/-- The adapter behind a failure that is passed over. -/
def passing (a : Adapter σ τ) (e : Error) : Adapter σ τ :=
  { a with journal := a.journal.report .debug e.message }

end Adapter

namespace Act

/-- The walk from an object through its members up to an index: what was visited so far,
and the adapter there. -/
inductive Walk : Variable → Adapter σ τ → Visit → Nat → Adapter σ τ → Prop
  | update {v object : Variable} {changed : Bool} {a b : Adapter σ τ}
      (h : updateObject v a = .ok (object, changed) b) : Walk v a ⟨object, changed, []⟩ 0 b
  /-- The engine names no member with the next index. -/
  | refused {v : Variable} {a b : Adapter σ τ} {visit : Visit} {index : Nat}
      {cause : EngineError} (h : Walk v a visit index b)
      (hmember : (Engine.answer (.member visit.object.handle index) b.engine).1 = .error cause) :
    Walk v a visit (index + 1)
      ((b.asked (.member visit.object.handle index)).passing (.engine cause))
  /-- The member is not listed. -/
  | unlisted {v : Variable} {a b : Adapter σ τ} {visit : Visit} {index : Nat} {member : Member}
      (h : Walk v a visit index b)
      (hmember : (Engine.answer (.member visit.object.handle index) b.engine).1 = .ok member)
      (hchild : b.session.object?
        (Variable.childName visit.object.name member.name index) = none) :
    Walk v a visit (index + 1) (b.asked (.member visit.object.handle index))
  /-- The object of the member cannot be updated: it is passed over with all below it. -/
  | failed {v child : Variable} {a b c : Adapter σ τ} {visit : Visit} {index : Nat}
      {member : Member} {e : Error} (h : Walk v a visit index b)
      (hmember : (Engine.answer (.member visit.object.handle index) b.engine).1 = .ok member)
      (hchild : b.session.object?
        (Variable.childName visit.object.name member.name index) = some child)
      (hfailed : updateObject child (b.asked (.member visit.object.handle index)) = .error e c) :
    Walk v a visit (index + 1) (c.passing e)
  /-- The object of the member is visited with all its members. -/
  | visit {v child : Variable} {a b c : Adapter σ τ} {object : Variable} {changed : Bool}
      {members : List Visit} {visited : Visit} {index : Nat} {member : Member}
      (h : Walk v a ⟨object, changed, members⟩ index b)
      (hmember : (Engine.answer (.member object.handle index) b.engine).1 = .ok member)
      (hchild : b.session.object? (Variable.childName object.name member.name index) = some child)
      (hvisited : Walk child (b.asked (.member object.handle index)) visited
        visited.object.info.children c) :
    Walk v a ⟨object, changed, members ++ [visited]⟩ (index + 1) c

/-- The walk from an object through all its members. -/
def Walked (v : Variable) (a : Adapter σ τ) (visit : Visit) (b : Adapter σ τ) : Prop :=
  Walk v a visit visit.object.info.children b

/-- The visit of an object is a walk, or it fails as the object's own update does. -/
def Follows (visit : Variable → Act σ τ Visit) (v : Variable) (a : Adapter σ τ) : Prop :=
  match visit v a with
  | .ok visited b => Walked v a visited b
  | .error e b => updateObject v a = .error e b

omit [Engine σ] in
/-- What is tried and fails is passed over. -/
theorem orMute_attempt_apply {α : Type} (step : Act σ τ α) (a : Adapter σ τ) :
    (do orMute (← attempt step)) a = match step a with
      | .ok value b => .ok (some value) b
      | .error e b => .ok none (b.passing e) := by
  cases h : step a with
  | ok value b =>
      have hattempt : attempt step a = .ok (.ok value) b := by simp only [attempt, h]
      rw [bind_of_ok hattempt]
      rfl
  | error e b =>
      have hattempt : attempt step a = .ok (.error e) b := by simp only [attempt, h]
      rw [bind_of_ok hattempt]
      rfl

theorem visitMember_apply (visit : Variable → Act σ τ Visit) (v : Variable) (index : Nat)
    (a : Adapter σ τ) :
    visitMember visit v index a =
      match (Engine.answer (.member v.handle index) a.engine).1 with
      | .error cause => .ok none ((a.asked (.member v.handle index)).passing (.engine cause))
      | .ok member =>
        match a.session.object? (Variable.childName v.name member.name index) with
        | none => .ok none (a.asked (.member v.handle index))
        | some child =>
          match visit child (a.asked (.member v.handle index)) with
          | .ok visited b => .ok (some visited) b
          | .error e b => .ok none (b.passing e) := by
  let b := a.asked (.member v.handle index)
  have hask : ask (.member v.handle index) a =
    .ok (Engine.answer (.member v.handle index) a.engine).1 b := rfl
  rw [visitMember, bind_of_ok hask]
  cases (Engine.answer (.member v.handle index) a.engine).1 with
  | error cause => rfl
  | ok member =>
      have hmute : orMute ((Except.ok member).mapError Error.engine) b = .ok (some member) b := rfl
      rw [bind_of_ok hmute]
      refine (bind_of_ok (session_apply b) _).trans ?_
      have hsession : b.session = a.session := rfl
      cases hchild : a.session.object? (Variable.childName v.name member.name index) with
      | none =>
          simp only [hsession, hchild]
          rfl
      | some child =>
          simp only [hsession, hchild, orMute_attempt_apply]
          change _ = match visit child b with | .ok visited b => _ | .error e b => _
          cases visit child b <;> rfl

theorem reads_updateObject (v : Variable) (a : Adapter σ τ) :
    Engine.Reads a.engine ((updateObject v).after a).engine := by
  obtain ⟨engine, hreads, hafter⟩ := (asks_reread v).after_eq a
  have hupdate : ((updateObject v).after a).engine = ((reread v).after a).engine := by
    rw [updateObject, after_bind, after]
    cases reread v a <;> rfl
  rw [hupdate, hafter]
  exact hreads

/-! ## A visit is a walk -/

theorem reread_eq_ok {v : Variable} {r : Variable × Bool} {a b : Adapter σ τ}
    (h : reread v a = .ok r b) : v.Reread σ r.1 := by
  have hplain : v.origin = .plain → r.1.handle = v.handle ∧ (r.1.info = v.info ∨
      ∃ engine : σ, (Engine.answer (.valueInfo v.handle v.format) engine).1 = .ok r.1.info) := by
    intro hplain
    unfold reread at h
    rw [hplain] at h
    obtain ⟨changed, c, -, h⟩ := bind_eq_ok.mp h
    cases changed with
    | false =>
        cases h
        exact ⟨rfl, .inl rfl⟩
    | true =>
        obtain ⟨answer, d, hask, h⟩ := bind_eq_ok.mp h
        obtain ⟨info, e, hdemand, h⟩ := bind_eq_ok.mp h
        cases h
        rw [ask_apply] at hask
        have hanswer := (EStateM.Result.ok.inj hask).1
        rw [(demand_eq_ok hdemand).1] at hanswer
        exact ⟨rfl, .inr ⟨c.engine, hanswer⟩⟩
  exact ⟨(renewed_of_reread h).2, fun h => (hplain h).1, fun h => (hplain h).2⟩

theorem updateObject_eq_ok {v object : Variable} {changed : Bool} {a b : Adapter σ τ}
    (h : updateObject v a = .ok (object, changed) b) :
    v.Reread σ object ∧ b.session = a.session.add object := by
  obtain ⟨⟨w, changed'⟩, c, hread, hkeep⟩ := bind_eq_ok.mp h
  have hw := reread_eq_ok hread
  have hsession := (renewed_of_reread hread).1
  cases hkeep
  exact ⟨hw, by rw [← hsession]⟩

theorem updateObject_eq_error {v : Variable} {e : Error} {a b : Adapter σ τ}
    (h : updateObject v a = .error e b) : b.session = a.session := by
  have hread : reread v a = .error e b := by
    obtain hread | ⟨r, c, -, hkeep⟩ := bind_eq_error.mp h
    · exact hread
    · cases hkeep
  rw [← after_of_error hread]
  exact (asks_reread v).session_eq a

/-- The engine has named this object as the member with this index. -/
def NamedAt (start : σ) (object : Variable) (index : Nat) (m : Variable) : Prop :=
  ∃ (e : σ) (member : Member), Engine.Reads start e ∧
    (Engine.answer (.member object.handle index) e).1 = .ok member ∧
    m.name = Variable.childName object.name member.name index

theorem NamedAt.of_reads {start e : σ} {object m : Variable} {index : Nat}
    (h : NamedAt e object index m) (hreads : Engine.Reads start e) :
    NamedAt start object index m := by
  obtain ⟨f, member, hf, hmember, hname⟩ := h
  exact ⟨f, member, hreads.trans hf, hmember, hname⟩

namespace Walk

variable {v : Variable} {a b : Adapter σ τ} {visit : Visit} {index : Nat}

/-- What an update keeps of an object holds of every object behind a walk. -/
theorem each {P : Variable → Prop} (hP : ∀ v w, P v → v.Reread σ w → P w)
    (h : Walk v a visit index b) (ha : a.session.Each P) (hv : P v) :
    b.session.Each P ∧ P visit.object := by
  induction h with
  | update h =>
      obtain ⟨hw, hsession⟩ := updateObject_eq_ok h
      have hobject := hP _ _ hv hw
      exact ⟨hsession ▸ ha.add hobject, hobject⟩
  | refused h hmember ih => exact ih ha hv
  | unlisted h hmember hnone ih => exact ih ha hv
  | failed h hmember hsome hfailed ih =>
      obtain ⟨hb, hobject⟩ := ih ha hv
      have hsession := updateObject_eq_error hfailed
      exact ⟨hsession ▸ hb, hobject⟩
  | visit h hmember hsome hvisited ih ihvisited =>
      obtain ⟨hb, hobject⟩ := ih ha hv
      exact ⟨(ihvisited hb (hb.holds _ _ hsome)).1, hobject⟩

theorem named (h : Walk v a visit index b) (ha : a.session.Named) : b.session.Named := by
  have heach : a.session.Each fun _ => True := ⟨ha, fun _ _ _ => trivial⟩
  exact (h.each (fun _ _ _ _ => trivial) heach trivial).1.named

theorem reread (h : Walk v a visit index b) : v.Reread σ visit.object := by
  induction h with
  | update h => exact (updateObject_eq_ok h).1
  | refused h hmember ih => exact ih
  | unlisted h hmember hnone ih => exact ih
  | failed h hmember hsome hfailed ih => exact ih
  | visit h hmember hsome hvisited ih => exact ih

theorem reads (h : Walk v a visit index b) : Engine.Reads a.engine b.engine := by
  have hmember : ∀ (b : Adapter σ τ) value index,
      Engine.Reads b.engine (b.asked (.member value index)).engine :=
    fun b value index => .single (Engine.asked trivial b.engine)
  have hupdate : ∀ {v : Variable} {a b : Adapter σ τ}, (updateObject v).after a = b →
      Engine.Reads a.engine b.engine :=
    fun {v a b} hb => hb ▸ reads_updateObject v a
  induction h with
  | update h => exact hupdate (after_of_ok h)
  | refused h _ ih => exact ih.trans (hmember _ _ _)
  | unlisted h _ _ ih => exact ih.trans (hmember _ _ _)
  | failed h _ _ hfailed ih =>
      have hchild := hupdate (after_of_error hfailed)
      exact (ih.trans (hmember _ _ _)).trans hchild
  | visit h _ _ _ ih ihvisited => exact (ih.trans (hmember _ _ _)).trans ihvisited

/-- The engine has named the members one after the other, up to the index. -/
theorem exists_namedAt (h : Walk v a visit index b) (ha : a.session.Named) :
    ∀ m ∈ visit.members, ∃ i < index, NamedAt a.engine visit.object i m.object := by
  have hlater : ∀ {visit : Visit} {index : Nat},
      (∀ m ∈ visit.members, ∃ i < index, NamedAt a.engine visit.object i m.object) →
      ∀ m ∈ visit.members, ∃ i < index + 1, NamedAt a.engine visit.object i m.object := by
    intro visit index h m hm
    obtain ⟨i, hi, hnamed⟩ := h m hm
    exact ⟨i, Nat.lt_succ_of_lt hi, hnamed⟩
  induction h with
  | update _ => simp [Visit.members]
  | refused _ _ ih => exact hlater (ih ha hlater)
  | unlisted _ _ _ ih => exact hlater (ih ha hlater)
  | failed _ _ _ _ ih => exact hlater (ih ha hlater)
  | @visit v child a b c object changed members visited index member h hmember hchild hvisited ih =>
      intro m hm
      obtain hm | hm := List.mem_append.mp hm
      · exact hlater (ih ha hlater) m hm
      · cases List.mem_singleton.mp hm
        exact ⟨index, Nat.lt_succ_self index, b.engine, member, h.reads, hmember,
          hvisited.reread.renewed.name_eq.trans (h.named ha _ _ hchild)⟩

/-- Every visited object has what an update keeps, and the engine has named the members
that are visited below it. -/
theorem visited {P : Variable → Prop} (hP : ∀ v w, P v → v.Reread σ w → P w)
    (h : Walk v a visit index b) (ha : a.session.Each P) (hv : P v) {place : List Nat}
    {found : Visit} (hfound : visit.at? place = some found) :
    P found.object ∧ ∀ m ∈ found.members, ∃ i, NamedAt a.engine found.object i m.object := by
  have htop : ∀ {v : Variable} {a b : Adapter σ τ} {visit : Visit} {index : Nat},
      Walk v a visit index b → a.session.Each P → P v →
      P visit.object ∧ ∀ m ∈ visit.members, ∃ i, NamedAt a.engine visit.object i m.object := by
    intro v a b visit index h ha hv
    refine ⟨(h.each hP ha hv).2, fun m hm => ?_⟩
    obtain ⟨i, -, hnamed⟩ := h.exists_namedAt ha.named m hm
    exact ⟨i, hnamed⟩
  induction h generalizing place found with
  | update h =>
      cases place with
      | nil =>
          cases hfound
          exact htop (.update h) ha hv
      | cons n place => simp [Visit.at?, Visit.members] at hfound
  | refused _ _ ih => exact ih ha hv hfound
  | unlisted _ _ _ ih => exact ih ha hv hfound
  | failed _ _ _ _ ih => exact ih ha hv hfound
  | @visit v child a b c object changed members visited index member h hmember hchild hvisited
      ih ihvisited =>
      cases place with
      | nil =>
          cases hfound
          exact htop (.visit h hmember hchild hvisited) ha hv
      | cons n place =>
          obtain ⟨m, hm, hbelow⟩ := Visit.at?_cons_eq_some hfound
          rw [List.getElem?_append] at hm
          split at hm
          · have hearlier : (Visit.mk object changed members).at? (n :: place) = some found := by
              rw [Visit.at?_cons hm, hbelow]
            exact ih ha hv hearlier
          · cases List.mem_singleton.mp (List.mem_of_getElem? hm)
            have hb := (h.each hP ha hv).1
            have hasked : Engine.Reads b.engine (b.asked (.member object.handle index)).engine :=
              .single (Engine.asked trivial b.engine)
            obtain ⟨hobject, hnamed⟩ := ihvisited hb (hb.holds _ _ hchild) hbelow
            refine ⟨hobject, fun m hm => ?_⟩
            obtain ⟨i, hi⟩ := hnamed m hm
            exact ⟨i, hi.of_reads (h.reads.trans hasked)⟩

end Walk

section Follows

variable {visit : Variable → Act σ τ Visit} {limit : Nat}

/-- The visit of a member goes on with the walk if the visits below do. -/
theorem Walk.visitMember {v object : Variable} {changed : Bool} {members : List Visit}
    {index : Nat} {a b c : Adapter σ τ} {visited : Option Visit}
    (h : Walk v a ⟨object, changed, members⟩ index b)
    (hvisit : ∀ member child,
      (Engine.answer (.member object.handle index) b.engine).1 = .ok member →
      b.session.object? (Variable.childName object.name member.name index) = some child →
      Follows visit child (b.asked (.member object.handle index)))
    (hstep : Act.visitMember visit object index b = .ok visited c) :
    Walk v a ⟨object, changed, members ++ visited.toList⟩ (index + 1) c := by
  rw [visitMember_apply] at hstep
  cases hmember : (Engine.answer (.member object.handle index) b.engine).1 with
  | error cause =>
      simp only [hmember] at hstep
      cases hstep
      rw [Option.toList_none, List.append_nil]
      exact .refused h hmember
  | ok member =>
      simp only [hmember] at hstep
      cases hchild : b.session.object? (Variable.childName object.name member.name index) with
      | none =>
          simp only [hchild] at hstep
          cases hstep
          rw [Option.toList_none, List.append_nil]
          exact .unlisted h hmember hchild
      | some child =>
          simp only [hchild] at hstep
          have hfollows := hvisit member child hmember hchild
          unfold Follows at hfollows
          cases hbelow : visit child (b.asked (.member object.handle index)) with
          | ok found d =>
              simp only [hbelow] at hstep hfollows
              cases hstep
              exact .visit h hmember hchild hfollows
          | error e d =>
              simp only [hbelow] at hstep hfollows
              cases hstep
              rw [Option.toList_none, List.append_nil]
              exact .failed h hmember hchild hfollows

theorem Walk.visitMembers {v object : Variable} {changed : Bool} {members visits : List Visit}
    {index count : Nat} {a b c : Adapter σ τ}
    (h : Walk v a ⟨object, changed, members⟩ index b)
    (ha : a.session.Each (·.name.length ≤ limit)) (hv : v.name.length ≤ limit)
    (hvisit : ∀ member index child (b : Adapter σ τ),
      b.session.Each (·.name.length ≤ limit) →
      b.session.object? (Variable.childName object.name member index) = some child →
      Follows visit child b)
    (hsteps : Act.visitMembers visit object (List.range' index count) b = .ok visits c) :
    Walk v a ⟨object, changed, members ++ visits⟩ (index + count) c := by
  induction count generalizing index members b visits with
  | zero =>
      cases hsteps
      rwa [List.append_nil, Nat.add_zero]
  | succ count ih =>
      obtain ⟨first, d, hfirst, hrest⟩ := bind_eq_ok.mp hsteps
      obtain ⟨rest, e, hrest, hvisits⟩ := bind_eq_ok.mp hrest
      cases hvisits
      have hb := (h.each (fun _ _ hle hread => hread.renewed.name_eq ▸ hle) ha hv).1
      have hstep := h.visitMember
        (fun member child _ hchild => hvisit member.name index child _ hb hchild) hfirst
      have := ih hstep hrest
      rwa [List.append_assoc, Nat.add_assoc, Nat.add_comm 1 count] at this

/-- Only the update of the object itself makes its visit fail. -/
theorem visitWith_eq_error {v : Variable} {e : Error} {a b : Adapter σ τ}
    (h : visitWith visit v a = .error e b) : updateObject v a = .error e b := by
  obtain hupdate | ⟨⟨object, changed⟩, c, -, hrest⟩ := bind_eq_error.mp h
  · exact hupdate
  · have hnever : FailsBy (fun _ => False) (do
        return Visit.mk object changed
          (← Act.visitMembers visit object (List.range object.info.children))) :=
      (failsBy_visitMembers visit object _).bind_pure _
    exact (hnever c e b hrest).elim

theorem follows_visitWith {v : Variable} {a : Adapter σ τ}
    (ha : a.session.Each (·.name.length ≤ limit)) (hv : v.name.length ≤ limit)
    (hvisit : ∀ member index child (b : Adapter σ τ),
      b.session.Each (·.name.length ≤ limit) →
      b.session.object? (Variable.childName v.name member index) = some child →
      Follows visit child b) :
    Follows (visitWith visit) v a := by
  unfold Follows
  cases h : visitWith visit v a with
  | ok visited b =>
      obtain ⟨⟨object, changed⟩, c, hupdate, hrest⟩ := bind_eq_ok.mp h
      obtain ⟨members, d, hmembers, hvisited⟩ := bind_eq_ok.mp hrest
      cases hvisited
      have hname := (updateObject_eq_ok hupdate).1.renewed.name_eq
      have hstart := Walk.update hupdate
      rw [List.range_eq_range'] at hmembers
      rw [← hname] at hvisit
      have := hstart.visitMembers ha hv hvisit hmembers
      rwa [List.nil_append, Nat.zero_add] at this
  | error e b => exact visitWith_eq_error h

/-- The bound on the depth is not reached, since the names grow longer on the way. -/
theorem follows_visitTo {depth : Nat} {v : Variable} {a : Adapter σ τ}
    (ha : a.session.Each (·.name.length ≤ limit)) (hv : v.name.length ≤ limit)
    (hdepth : limit ≤ v.name.length + depth) : Follows (visitTo depth) v a := by
  have hchild : ∀ member index child (b : Adapter σ τ),
      b.session.Each (·.name.length ≤ limit) →
      b.session.object? (Variable.childName v.name member index) = some child →
      v.name.length < child.name.length ∧ child.name.length ≤ limit := by
    intro member index child b hb hchild
    refine ⟨?_, hb.holds _ _ hchild⟩
    rw [hb.named _ _ hchild]
    exact Variable.length_lt_childName v.name member index
  induction depth generalizing v a with
  | zero =>
      refine follows_visitWith ha hv fun member index child b hb hobject => ?_
      have := hchild member index child b hb hobject
      omega
  | succ depth ih =>
      refine follows_visitWith ha hv fun member index child b hb hobject => ?_
      obtain ⟨hlt, hle⟩ := hchild member index child b hb hobject
      refine ih hb hle (by omega) fun member index grandchild c hc hgrandchild => ?_
      refine ⟨?_, hc.holds _ _ hgrandchild⟩
      rw [hc.named _ _ hgrandchild]
      exact Variable.length_lt_childName child.name member index

end Follows

theorem walked_visitTree {v : Variable} {visit : Visit} {a b : Adapter σ τ}
    (ha : a.session.Named) (h : visitTree v a = .ok visit b) : Walked v a visit b := by
  let limit := max v.name.length (longest a.session.objectNames)
  have hlimit : a.session.Each (·.name.length ≤ limit) := ha.each_le_max v.name.length
  have hfollows : Follows (visitTo (longest a.session.objectNames - v.name.length)) v a :=
    follows_visitTo hlimit (Nat.le_max_left _ _) (by omega)
  rw [visitTree, bind_of_ok (session_apply a)] at h
  rwa [Follows, h] at hfollows

theorem visitTree_eq_error {v : Variable} {e : Error} {a b : Adapter σ τ}
    (h : visitTree v a = .error e b) : updateObject v a = .error e b := by
  rw [visitTree, bind_of_ok (session_apply a)] at h
  cases hdepth : longest a.session.objectNames - v.name.length with
  | zero =>
      rw [hdepth] at h
      exact visitWith_eq_error h
  | succ depth =>
      rw [hdepth] at h
      exact visitWith_eq_error h

/-- However the visit of an object ends, it has only read from the engine. -/
theorem reads_visitTree {v : Variable} {a : Adapter σ τ} (ha : a.session.Named) :
    Engine.Reads a.engine ((visitTree v).after a).engine := by
  cases h : visitTree v a with
  | ok visit b =>
      rw [after_of_ok h]
      exact (walked_visitTree ha h).reads
  | error e b =>
      rw [after_of_error h, ← after_of_error (visitTree_eq_error h)]
      exact reads_updateObject v a

/-- **What an update reports**: from any object and in any state, the visit ends, with a
change exactly if it reports something.  What it reports are the deepest changes of its
walk.  It fails only if the object itself cannot be updated, and then reports nothing. -/
theorem visitTree_reports (v : Variable) (a : Adapter σ τ) :
    ∃ outcome b, attempt (visitTree v) a = .ok outcome b ∧
      (reportAll outcome.toOption.toList ≠ [] ↔ outcome.map Visit.hasChange = .ok true) ∧
      match outcome with
      | .ok visit => reportAll outcome.toOption.toList = visit.report ∧
        visit.ReportsAt visit.places ∧ (a.session.Named → Walked v a visit b)
      | .error e => reportAll outcome.toOption.toList = [] ∧ updateObject v a = .error e b := by
  cases h : visitTree v a with
  | ok visit b =>
      have hall : reportAll [visit] = visit.report := List.append_nil _
      refine ⟨.ok visit, b, by simp only [attempt, h], ?_, hall, visit.reportsAt_places,
        fun ha => walked_visitTree ha h⟩
      have hiff := visit.report_ne_nil
      rw [← hall] at hiff
      exact hiff.trans (by simp [Except.map])
  | error e b =>
      have hall : reportAll (Except.error e : Except Error Visit).toOption.toList = [] := rfl
      refine ⟨.error e, b, by simp only [attempt, h], ?_, hall, visitTree_eq_error h⟩
      rw [hall]
      simp [Except.map]

end Act

/-- Only `e` is reported of the walk from `e`: its member is listed, but whether the value
has changed is not answered. -/
theorem Evaluator.visitTree_reports_listed :
    let a := (Adapter.new {} ({} : Evaluator) Discard.discard).run .standard
      (["var-create e * f()", "var-list-children e"].map .line)
    a.session.Named ∧ ∃ v visit b, a.session.object? "e" = some v ∧
      Act.attempt (Act.visitTree v) a = .ok (.ok visit) b ∧
      visit.report.map (·.name) = ["e"] ∧ Act.Walked v a visit b := by
  intro a
  have hnamed : a.session.Named := Adapter.named_run {} _ Discard.discard .standard _
  have hreport : (a.session.object? "e").map (fun v => match Act.attempt (Act.visitTree v) a with
      | .ok outcome _ => (reportAll outcome.toOption.toList).map (·.name)
      | .error .. => []) = some ["e"] := by
    decide +kernel
  obtain ⟨v, hv, hnames⟩ := Option.map_eq_some_iff.mp hreport
  obtain ⟨outcome, b, hattempt, -, hcases⟩ := Act.visitTree_reports v a
  simp only [hattempt] at hnames
  cases outcome with
  | ok visit =>
      obtain ⟨hall, -, hwalked⟩ := hcases
      rw [hall] at hnames
      exact ⟨hnamed, v, visit, b, hv, hattempt, hnames, hwalked hnamed⟩
  | error e =>
      rw [hcases.1] at hnames
      cases hnames

end MachineInterface
