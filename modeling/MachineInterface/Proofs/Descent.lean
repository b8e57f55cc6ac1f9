import MachineInterface.Proofs.Handles
import MachineInterface.Proofs.Paths

/-!
# MachineInterface.Proofs.Descent

Recursions that follow names.  The path to an object is that to its parent with one step
more, and the visit of an object visits the objects of its members; neither goes on for
ever, whatever the engine says of members and of their number.  A parent's name is shorter
than its member's, and a visit comes only to objects that were there before, so it ends
since the names on its way get longer and it adds none (`acc_calls`).  The bounds that the
definitions put on the depth are never reached (`Session.path_eq`, `visitTree_eq`).
-/

namespace MachineInterface

open Relation (ReflTransGen TransGen)

variable {σ τ : Type} [Engine σ]

/-! ## Names that stay -/

/-- The same names have objects. -/
def Session.SameNames (s t : Session) : Prop :=
  ∀ name, (t.object? name).isSome = (s.object? name).isSome

theorem Session.SameNames.refl (s : Session) : s.SameNames s := fun _ => rfl

theorem Session.SameNames.trans {s t u : Session} (hst : s.SameNames t) (htu : t.SameNames u) :
    s.SameNames u :=
  fun name => (htu name).trans (hst name)

theorem Session.Renews.sameNames {names : String → Prop} {s t : Session} (h : s.Renews names t) :
    s.SameNames t := by
  intro name
  have hrenewed := h.renewed name
  generalize s.object? name = v at hrenewed
  generalize t.object? name = w at hrenewed
  cases hrenewed <;> rfl

namespace Act

variable {v : Variable} {a b : Adapter σ τ} {visit : Visit} {index : Nat}

/-- A walk neither adds nor removes names. -/
theorem Walk.sameNames (h : Walk v a visit index b) (ha : a.session.Named)
    (hv : a.session.object? v.name = some v) : a.session.SameNames b.session := by
  let P (w : Variable) : Prop := ∃ u, a.session.object? w.name = some u
  have hP : ∀ v w, P v → v.Reread σ w → P w := by
    rintro v w ⟨u, hu⟩ hread
    exact ⟨u, hread.renewed.name_eq ▸ hu⟩
  have hstart : a.session.Each P := ⟨ha, fun name u hu => ⟨u, (ha name u hu).symm ▸ hu⟩⟩
  obtain ⟨hend, -⟩ := h.each hP hstart ⟨v, hv⟩
  intro name
  rw [Bool.eq_iff_iff, Option.isSome_iff_exists, Option.isSome_iff_exists]
  constructor
  · rintro ⟨w, hw⟩
    obtain ⟨u, hu⟩ := hend.holds name w hw
    exact ⟨u, hend.named name w hw ▸ hu⟩
  · rintro ⟨u, hu⟩
    obtain ⟨w, hw, -⟩ := h.exists_reread ha hv hu
    exact ⟨w, hw⟩

/-- The objects of members have longer names. -/
theorem Walk.length_lt_child (h : Walk v a visit index b) (hb : b.session.Named) {member : String}
    {child : Variable} (hchild : b.session.object?
      (Variable.childName visit.object.name member index) = some child) :
    v.name.length < child.name.length := by
  rw [hb _ _ hchild, ← h.reread.renewed.name_eq]
  exact Variable.length_lt_childName visit.object.name member index

/-! ## Visits that call visits -/

/-- The visit of an object in some state calls for that of another: the walk from the object
has come to the next of its members, the engine names this, and there is an object of the
composed name. -/
def Calls (caller callee : Variable × Adapter σ τ) : Prop :=
  ∃ visit index b member, Walk caller.1 caller.2 visit index b ∧
    index < visit.object.info.children ∧
    (Engine.answer (.member visit.object.handle index) b.engine).1 = .ok member ∧
    b.session.object? (Variable.childName visit.object.name member.name index) = some callee.1 ∧
    callee.2 = b.asked (.member visit.object.handle index)

/-- The object is in the session, under its own name, as all others are. -/
structure Stored (v : Variable) (a : Adapter σ τ) : Prop where
  named : a.session.Named
  stored : a.session.object? v.name = some v

variable {caller callee : Variable × Adapter σ τ}

/-- What is called for is in the session under a longer name, and the names are those of
before. -/
theorem Calls.stored (h : Calls caller callee) (hcaller : Stored caller.1 caller.2) :
    Stored callee.1 callee.2 ∧ caller.1.name.length < callee.1.name.length ∧
      caller.2.session.SameNames callee.2.session := by
  obtain ⟨w, c⟩ := callee
  obtain ⟨visit, index, b, member, hwalk, -, -, hchild, rfl⟩ := h
  have hb := hwalk.named hcaller.named
  refine ⟨⟨hb, ?_⟩, hwalk.length_lt_child hb hchild,
    hwalk.sameNames hcaller.named hcaller.stored⟩
  rw [hb _ _ hchild]
  exact hchild

/-- There is less room for the name of what is called for. -/
theorem Calls.room {limit : Nat} (h : Calls caller callee)
    (hcaller : caller.2.session.Each (·.name.length ≤ limit))
    (hname : caller.1.name.length ≤ limit) :
    callee.2.session.Each (·.name.length ≤ limit) ∧
      caller.1.name.length < callee.1.name.length ∧ callee.1.name.length ≤ limit := by
  obtain ⟨w, c⟩ := callee
  obtain ⟨visit, index, b, member, hwalk, -, -, hchild, rfl⟩ := h
  obtain ⟨hb, -⟩ := hwalk.each (fun _ _ hle hread => hread.renewed.name_eq ▸ hle) hcaller hname
  exact ⟨hb, hwalk.length_lt_child hb.named hchild, hb.holds _ _ hchild⟩

/-- The names on the way of a visit get longer, but none is longer than the longest that
there was at the start. -/
theorem acc_calls {limit : Nat} (ha : a.session.Each (·.name.length ≤ limit))
    (hv : v.name.length ≤ limit) : Acc (fun callee caller => Calls caller callee) (v, a) := by
  induction hroom : limit - v.name.length using Nat.strongRecOn generalizing v a with
  | ind room ih =>
      refine ⟨_, ?_⟩
      rintro ⟨w, c⟩ hcall
      obtain ⟨hc, hlonger, hle⟩ := hcall.room ha hv
      dsimp only at hlonger hle
      exact ih (limit - w.name.length) (by omega) hc hle rfl

theorem Stored.acc (h : Stored v a) : Acc (fun callee caller => Calls caller callee) (v, a) :=
  acc_calls h.named.each_le_longest (h.named.each_le_longest.holds v.name v h.stored)

/-! ## Visits without a bound -/

section Congruence

variable {visitOne visitOther : Variable → Act σ τ Visit}

omit [Engine σ] in
theorem bind_congr_left {α β : Type} {step other : Act σ τ α} (h : step a = other a)
    (next : α → Act σ τ β) : (step >>= next) a = (other >>= next) a := by
  change EStateM.bind step next a = EStateM.bind other next a
  rw [EStateM.bind, EStateM.bind, h]

theorem visitMember_congr {object : Variable} (h : ∀ member child,
      (Engine.answer (.member object.handle index) b.engine).1 = .ok member →
      b.session.object? (Variable.childName object.name member.name index) = some child →
      visitOne child (b.asked (.member object.handle index)) =
        visitOther child (b.asked (.member object.handle index))) :
    visitMember visitOne object index b = visitMember visitOther object index b := by
  rw [visitMember_apply, visitMember_apply]
  cases hmember : (Engine.answer (.member object.handle index) b.engine).1 with
  | error cause => rfl
  | ok member =>
      dsimp only
      cases hchild : b.session.object? (Variable.childName object.name member.name index) with
      | none => rfl
      | some child => simp only [h member child hmember hchild]

variable (hfollows : ∀ w c, Calls (v, a) (w, c) → Follows visitOne w c)
  (hsame : ∀ w c, Calls (v, a) (w, c) → visitOne w c = visitOther w c)

include hfollows hsame

/-- A walk goes on in the same way if the visits that it calls for do. -/
theorem visitMembers_congr {object : Variable} {changed : Bool} {members : List Visit}
    {count : Nat} (h : Walk v a ⟨object, changed, members⟩ index b)
    (hcount : index + count ≤ object.info.children) :
    visitMembers visitOne object (List.range' index count) b =
      visitMembers visitOther object (List.range' index count) b := by
  induction count generalizing index members b with
  | zero => rfl
  | succ count ih =>
      have hcalls : ∀ member child,
          (Engine.answer (.member object.handle index) b.engine).1 = .ok member →
          b.session.object? (Variable.childName object.name member.name index) = some child →
          Calls (v, a) (child, b.asked (.member object.handle index)) :=
        fun member child hmember hchild =>
          ⟨_, index, b, member, h, by change index < object.info.children; omega, hmember, hchild,
            rfl⟩
      have hfirst : visitMember visitOne object index b = visitMember visitOther object index b :=
        visitMember_congr fun member child hmember hchild =>
          hsame _ _ (hcalls member child hmember hchild)
      rw [List.range'_succ, visitMembers, visitMembers]
      cases hstep : visitMember visitOne object index b with
      | error e c => rw [bind_of_error hstep, bind_of_error (hfirst.symm.trans hstep)]
      | ok visited c =>
          have hwalk := h.visitMember (fun member child hmember hchild =>
            hfollows _ _ (hcalls member child hmember hchild)) hstep
          rw [bind_of_ok hstep, bind_of_ok (hfirst.symm.trans hstep)]
          exact bind_congr_left (ih hwalk (by omega)) _

/-- A visit depends only on the visits that it calls for. -/
theorem visitWith_congr : visitWith visitOne v a = visitWith visitOther v a := by
  rw [visitWith, visitWith]
  cases hupdate : updateObject v a with
  | error e b => rw [bind_of_error hupdate, bind_of_error hupdate]
  | ok r b =>
      obtain ⟨object, changed⟩ := r
      have hmembers := visitMembers_congr hfollows hsame (.update hupdate)
        (Nat.le_of_eq (Nat.zero_add object.info.children))
      rw [← List.range_eq_range'] at hmembers
      rw [bind_of_ok hupdate, bind_of_ok hupdate]
      exact bind_congr_left hmembers _

end Congruence

/-- The depth of a visit does not matter if the names leave room for no more. -/
theorem visitTo_eq_visitTo {limit m n : Nat} (ha : a.session.Each (·.name.length ≤ limit))
    (hv : v.name.length ≤ limit) (hm : limit ≤ v.name.length + m)
    (hn : limit ≤ v.name.length + n) : visitTo m v a = visitTo n v a := by
  induction m generalizing n v a with
  | zero =>
      have hnone : ∀ w c, ¬ Calls (v, a) (w, c) := by
        intro w c hcall
        obtain ⟨-, hlonger, hle⟩ := hcall.room ha hv
        dsimp only at hlonger hle
        omega
      cases n with
      | zero => rfl
      | succ n =>
          exact visitWith_congr (fun w c hcall => (hnone w c hcall).elim)
            fun w c hcall => (hnone w c hcall).elim
  | succ m ih =>
      have hchild : ∀ w c, Calls (v, a) (w, c) → c.session.Each (·.name.length ≤ limit) ∧
          w.name.length ≤ limit ∧ limit ≤ w.name.length + m ∧ limit ≤ w.name.length + (n - 1) := by
        intro w c hcall
        obtain ⟨hc, hlonger, hle⟩ := hcall.room ha hv
        dsimp only at hlonger hle
        exact ⟨hc, hle, by omega, by omega⟩
      have hfollows : ∀ w c, Calls (v, a) (w, c) → Follows (visitTo m) w c := by
        intro w c hcall
        obtain ⟨hc, hle, hroom, -⟩ := hchild w c hcall
        exact follows_visitTo hc hle hroom
      cases n with
      | zero =>
          refine visitWith_congr hfollows fun w c hcall => ?_
          obtain ⟨-, hlonger, hle⟩ := hcall.room ha hv
          dsimp only at hlonger hle
          omega
      | succ n =>
          refine visitWith_congr hfollows fun w c hcall => ?_
          obtain ⟨hc, hle, hroom, hroom'⟩ := hchild w c hcall
          exact ih hc hle hroom hroom'

omit [Engine σ] in
theorem longest_le {limit : Nat} {names : List String} (h : ∀ name ∈ names, name.length ≤ limit) :
    longest names ≤ limit := by
  induction names with
  | nil => exact Nat.zero_le limit
  | cons name names ih =>
      have hrest := ih fun other hother => h other (List.mem_cons_of_mem name hother)
      exact Nat.max_le.mpr ⟨h name List.mem_cons_self, hrest⟩

/-- A visit has the depth that it needs. -/
theorem visitTree_eq_visitTo {limit depth : Nat} (ha : a.session.Each (·.name.length ≤ limit))
    (hv : v.name.length ≤ limit) (hdepth : limit ≤ v.name.length + depth) :
    visitTree v a = visitTo depth v a := by
  let least := max v.name.length (longest a.session.objectNames)
  have hleast : a.session.Each (·.name.length ≤ least) := ha.named.each_le_max v.name.length
  have hlongest : longest a.session.objectNames ≤ limit := by
    refine longest_le fun name hname => ?_
    obtain ⟨w, hw⟩ := Session.mem_objectNames.mp hname
    rw [← ha.named name w hw]
    exact ha.holds name w hw
  rw [visitTree, bind_of_ok (session_apply a)]
  exact visitTo_eq_visitTo hleast (Nat.le_max_left _ _) (by omega) (by omega)

/-- A visit ends with a walk, or it fails as the object's own update does. -/
theorem visitTree_cases (v : Variable) (ha : a.session.Named) :
    (∃ visit b, visitTree v a = .ok visit b ∧ Walked v a visit b) ∨
      ∃ e b, visitTree v a = .error e b ∧ updateObject v a = .error e b := by
  cases h : visitTree v a with
  | ok visit b => exact .inl ⟨visit, b, rfl, walked_visitTree ha h⟩
  | error e b => exact .inr ⟨e, b, rfl, visitTree_eq_error h⟩

theorem follows_visitTree (ha : a.session.Named) : Follows visitTree v a := by
  unfold Follows
  obtain ⟨visit, b, hvisit, hwalked⟩ | ⟨e, b, hvisit, hfailed⟩ := visitTree_cases v ha
  · rw [hvisit]
    exact hwalked
  · rw [hvisit]
    exact hfailed

/-- A visit updates the object, and visits the objects of its members in the same way. -/
theorem visitTree_eq (ha : a.session.Named) : visitTree v a = visitWith visitTree v a := by
  let limit := max v.name.length (longest a.session.objectNames)
  have hlimit : a.session.Each (·.name.length ≤ limit) := ha.each_le_max v.name.length
  have hv : v.name.length ≤ limit := Nat.le_max_left _ _
  have htree : visitTree v a = visitTo (limit + 1) v a :=
    visitTree_eq_visitTo hlimit hv (by omega)
  rw [htree]
  refine (visitWith_congr (fun w c hcall => ?_) fun w c hcall => ?_).symm
  · exact follows_visitTree (hcall.room hlimit hv).1.named
  · obtain ⟨hc, -, hle⟩ := hcall.room hlimit hv
    exact visitTree_eq_visitTo hc hle (by omega)

/-- Nothing else that visits in this way differs from it. -/
theorem eq_visitTree {other : Variable → Act σ τ Visit} (h : Stored v a)
    (hother : ∀ w c, ReflTransGen Calls (v, a) (w, c) → other w c = visitWith other w c) :
    other v a = visitTree v a := by
  have hacc := h.acc
  generalize hstart : (v, a) = start at hacc
  induction hacc generalizing v a with
  | intro start _ ih =>
      subst hstart
      rw [hother v a .refl, visitTree_eq h.named]
      refine (visitWith_congr (fun w c hcall => ?_) fun w c hcall => ?_).symm
      · exact follows_visitTree (hcall.stored h).1.named
      · exact (ih (w, c) hcall (hcall.stored h).1
          (fun x d hcalls => hother x d (hcalls.head hcall)) rfl).symm

/-! ## Visits that end -/

/-- How the visit of an object ends. -/
structure VisitEnds (v : Variable) (a : Adapter σ τ) : Prop where
  /-- No chain of calls goes on for ever. -/
  calls : Acc (fun callee caller => Calls caller callee) (v, a)
  /-- The visit and all that it calls for have no bound. -/
  unbounded : ∀ w c, ReflTransGen Calls (v, a) (w, c) → visitTree w c = visitWith visitTree w c
  /-- Whatever visits in this way does what the visit does. -/
  unique : ∀ other : Variable → Act σ τ Visit,
    (∀ w c, ReflTransGen Calls (v, a) (w, c) → other w c = visitWith other w c) →
    other v a = visitTree v a
  /-- It ends with the walk through all members, or fails as the object's own update does. -/
  ends : (∃ visit b, visitTree v a = .ok visit b ∧ Walked v a visit b) ∨
    ∃ e b, visitTree v a = .error e b ∧ updateObject v a = .error e b
  /-- It calls only for objects that were there before, under longer names, and the names
  are the same when it does. -/
  entered : ∀ w c, TransGen Calls (v, a) (w, c) → v.name.length < w.name.length ∧
    (a.session.object? w.name).isSome ∧ a.session.SameNames c.session
  /-- The names are the same behind it. -/
  names : a.session.SameNames ((visitTree v).after a).session

theorem stored_of_calls (h : Stored v a) {callee : Variable × Adapter σ τ}
    (hcalls : TransGen Calls (v, a) callee) :
    Stored callee.1 callee.2 ∧ v.name.length < callee.1.name.length ∧
      a.session.SameNames callee.2.session := by
  induction hcalls with
  | single hcall => exact hcall.stored h
  | tail _ hcall ih =>
      obtain ⟨hstored, hlonger, hnames⟩ := ih
      obtain ⟨hstored', hlonger', hnames'⟩ := hcall.stored hstored
      exact ⟨hstored', Nat.lt_trans hlonger hlonger', hnames.trans hnames'⟩

theorem visitEnds (h : Stored v a) : VisitEnds v a where
  calls := h.acc
  unbounded w c hcalls := by
    obtain heq | hcalls := Relation.reflTransGen_iff_eq_or_transGen.mp hcalls
    · cases heq
      exact visitTree_eq h.named
    · exact visitTree_eq (stored_of_calls h hcalls).1.named
  unique _ hother := eq_visitTree h hother
  ends := visitTree_cases v h.named
  entered w c hcalls := by
    obtain ⟨hw, hlonger, hnames⟩ := stored_of_calls h hcalls
    refine ⟨hlonger, ?_, hnames⟩
    rw [← hnames w.name, hw.stored]
    rfl
  names := by
    cases hvisit : visitTree v a with
    | ok visit b =>
        rw [after_of_ok hvisit]
        exact (walked_visitTree h.named hvisit).sameNames h.named h.stored
    | error e b =>
        rw [after_of_error hvisit, updateObject_eq_error (visitTree_eq_error hvisit)]
        exact .refl _

/-- The visits of all roots among these names, one after the other. -/
inductive RootsWalked : List String → Adapter σ τ → List Visit → Adapter σ τ → Prop
  | done {a : Adapter σ τ} : RootsWalked [] a [] a
  /-- There is no root of the name. -/
  | passed {name : String} {names : List String} {a b : Adapter σ τ} {visits : List Visit}
      (hroot : (a.session.object? name).filter (·.parent.isNone) = none)
      (hrest : RootsWalked names a visits b) : RootsWalked (name :: names) a visits b
  /-- The root cannot be updated. -/
  | failed {name : String} {names : List String} {root : Variable} {a b c : Adapter σ τ}
      {e : Error} {visits : List Visit}
      (hroot : (a.session.object? name).filter (·.parent.isNone) = some root)
      (hfailed : updateObject root a = .error e b)
      (hrest : RootsWalked names (b.passing e) visits c) : RootsWalked (name :: names) a visits c
  | visited {name : String} {names : List String} {root : Variable} {a b c : Adapter σ τ}
      {visit : Visit} {visits : List Visit}
      (hroot : (a.session.object? name).filter (·.parent.isNone) = some root)
      (hvisited : Walked root a visit b) (hrest : RootsWalked names b visits c) :
    RootsWalked (name :: names) a (visit :: visits) c

theorem exists_rootsWalked (names : List String) (ha : a.session.Named) :
    ∃ visits b, visitRoots names a = .ok visits b ∧ RootsWalked names a visits b := by
  induction names generalizing a with
  | nil => exact ⟨[], a, rfl, .done⟩
  | cons name names ih =>
      rw [visitRoots, bind_of_ok (session_apply a)]
      cases hroot : (a.session.object? name).filter (·.parent.isNone) with
      | none =>
          obtain ⟨visits, b, hvisits, hrest⟩ := ih ha
          exact ⟨visits, b, hvisits, .passed hroot hrest⟩
      | some root =>
          obtain ⟨visit, b, hvisit, hwalked⟩ | ⟨e, b, hvisit, hfailed⟩ := visitTree_cases root ha
          · have hattempt : attempt (visitTree root) a = .ok (.ok visit) b := by
              simp only [attempt, hvisit]
            obtain ⟨visits, c, hvisits, hrest⟩ := ih (hwalked.named ha)
            refine ⟨visit :: visits, c, ?_, .visited hroot hwalked hrest⟩
            exact (bind_of_ok hattempt _).trans (bind_of_ok hvisits _)
          · have hattempt : attempt (visitTree root) a = .ok (.error e) b := by
              simp only [attempt, hvisit]
            have hb : (b.passing e).session.Named := (updateObject_eq_error hfailed).symm ▸ ha
            obtain ⟨visits, c, hvisits, hrest⟩ := ih hb
            refine ⟨visits, c, ?_, .failed hroot hfailed hrest⟩
            exact (bind_of_ok hattempt _).trans (bind_of_ok hvisits _)

/-- How an update of an object, or of all of them, ends. -/
inductive UpdateEnds (a : Adapter σ τ) :
    String → EStateM.Result Error (Adapter σ τ) (List Visit) → Prop
  | roots {visits : List Visit} {b : Adapter σ τ}
      (h : RootsWalked a.session.objectNames a visits b) : UpdateEnds a "*" (.ok visits b)
  | object {name : String} {v : Variable} {visit : Visit} {b : Adapter σ τ} (hname : name ≠ "*")
      (hv : a.session.object? name = some v) (h : Walked v a visit b) :
    UpdateEnds a name (.ok [visit] b)
  | failed {name : String} {v : Variable} {e : Error} {b : Adapter σ τ} (hname : name ≠ "*")
      (hv : a.session.object? name = some v) (h : updateObject v a = .error e b) :
    UpdateEnds a name (.error e b)
  | absent {name : String} (hname : name ≠ "*") (hv : a.session.object? name = none) :
    UpdateEnds a name (.error (.variableNotFound name) a)

theorem updateEnds (name : String) (ha : a.session.Named) :
    UpdateEnds a name (visitNamed name a) := by
  unfold visitNamed
  by_cases hname : name = "*"
  · subst hname
    obtain ⟨visits, b, hvisits, hwalked⟩ := exists_rootsWalked a.session.objectNames ha
    rw [if_pos rfl, bind_of_ok (session_apply a), hvisits]
    exact .roots hwalked
  · rw [if_neg hname]
    cases hv : a.session.object? name with
    | none =>
        rw [bind_of_error (object_of_none hv)]
        exact .absent hname hv
    | some v =>
        rw [bind_of_ok (object_of_some hv)]
        obtain ⟨visit, b, hvisit, hwalked⟩ | ⟨e, b, hvisit, hfailed⟩ := visitTree_cases v ha
        · rw [bind_of_ok hvisit]
          exact .object hname hv hwalked
        · rw [bind_of_error hvisit]
          exact .failed hname hv hfailed

end Act

/-! ## Paths that end -/

namespace Session

variable {s : Session}

/-- The one object is the parent of the other. -/
def ParentOf (s : Session) (p m : Variable) : Prop :=
  ∃ name, m.parent = some name ∧ s.object? name = some p

/-- How the path to an object ends. -/
structure PathEnds (s : Session) (v : Variable) : Prop where
  /-- No chain of parents goes on for ever. -/
  ancestors : Acc s.ParentOf v
  /-- The path has no bound: it is that to the parent with one step more. -/
  unbounded : s.path v = match v.parent with
    | none => .ok v.expression
    | some parent =>
      match s.object? parent with
      | none => .error (.variableNotFound parent)
      | some p => (s.path p).map (· ++ pathStep v)

omit [Engine σ] in
theorem acc_parentOf (h : s.ParentsShorter) {name : String} {v : Variable}
    (hv : s.object? name = some v) : Acc s.ParentOf v := by
  induction hlength : name.length using Nat.strongRecOn generalizing name v with
  | ind length ih =>
      refine ⟨_, ?_⟩
      rintro p ⟨parent, hparent, hp⟩
      exact ih parent.length (hlength ▸ h name v parent hv hparent) hp rfl

end Session

/-- **Recursions end**: behind any run a parent's name is shorter than its member's, so that
the path to an object ends.  Whatever the engine then says, of members, of their number and
of changes, the visit of an object ends, and with it an update of one object or of all.  A
visit comes only to objects that were there before, under longer names, and neither adds nor
removes a name.  The lines that ask for paths and updates are answered. -/
theorem Adapter.recursions_end_of_run [Sink τ] (config : Config) (engine : σ) (sink : τ)
    (register : Register) (stimuli : List (Stimulus σ)) :
    let a := (Adapter.new config engine sink).run register stimuli
    let s := a.session
    (∀ name v parent, s.object? name = some v → v.parent = some parent →
      parent.length < name.length) ∧
    (∀ name v, s.object? name = some v →
      s.PathEnds v ∧ ∀ b : Adapter σ τ, b.session = s → Act.VisitEnds v b) ∧
    (∀ name (b : Adapter σ τ), b.session = s → Act.UpdateEnds b name (Act.visitNamed name b)) ∧
    (∀ text name, register.command? text = some (.pathExpression name) →
      ∃ record, a.answer? register text = some record) ∧
    ∀ text shown name, register.command? text = some (.updateVariables shown name) →
      (∃ record, a.answer? register text = some record) ∧
      s.SameNames ((Act.handleLine register text).after a).session := by
  intro a s
  have hmade := Adapter.made_run register (a := Adapter.new config engine sink)
    (Session.made_new config) stimuli
  have hnamed : s.Named := hmade.named
  have hshorter : s.ParentsShorter := hmade.parentsShorter
  refine ⟨hshorter, fun name v hv => ⟨⟨?_, ?_⟩, ?_⟩, ?_, ?_, ?_⟩
  · exact Session.acc_parentOf hshorter hv
  · exact Session.path_eq hnamed hshorter hv
  · intro b hb
    refine Act.visitEnds ⟨hb ▸ hnamed, ?_⟩
    rw [hb, hnamed name v hv, hv]
  · exact fun name b hb => Act.updateEnds name (hb ▸ hnamed)
  · intro text name hcommand
    obtain ⟨line, journal, -, -, -, hanswer⟩ := Act.line_of_command? hcommand a
    exact ⟨_, hanswer⟩
  · intro text shown name hcommand
    obtain ⟨line, journal, -, hsession, -, hanswer⟩ := Act.line_of_command? hcommand a
    refine ⟨⟨_, hanswer⟩, ?_⟩
    rw [hsession, Act.perform, Act.after_bind_pure]
    exact (Act.renews_visitNamed name (a := { a with journal }) hnamed).sameNames

namespace Memory

/-- A value that is its own member. -/
def loop : Memory where
  places := [("s", 0)]
  cells := [{ text := "{...}", members := [("next", 0)] }]

/-- The visit of `s` comes to `s.next` and `s.next.next`, and ends there. -/
theorem recursions_end_of_run_loop :
    let a := (Adapter.new {} loop Discard.discard).run .standard
      (["var-create s * s", "var-list-children s", "var-list-children s.next"].map .line)
    ∃ v m, a.session.object? "s" = some v ∧ a.session.object? "s.next.next" = some m ∧
      m.parent = some "s.next" ∧ "s.next".length < "s.next.next".length ∧
      a.session.PathEnds m ∧ Act.VisitEnds v a ∧
      Act.UpdateEnds a "*" (Act.visitNamed "*" a) ∧
      ∃ record, a.answer? .standard "var-update *" = some record := by
  intro a
  have hobjects : (a.session.object? "s").isSome ∧
      (a.session.object? "s.next.next").map (·.parent) = some (some "s.next") ∧
      Register.standard.command? "var-update *" = some (.updateVariables .no "*") := by
    decide +kernel
  obtain ⟨hs, hm, hcommand⟩ := hobjects
  obtain ⟨v, hv⟩ := Option.isSome_iff_exists.mp hs
  obtain ⟨m, hm, hparent⟩ := Option.map_eq_some_iff.mp hm
  obtain ⟨hshorter, hends, hupdates, -, hanswers⟩ :=
    Adapter.recursions_end_of_run {} loop Discard.discard .standard
      (["var-create s * s", "var-list-children s", "var-list-children s.next"].map .line)
  exact ⟨v, m, hv, hm, hparent, hshorter _ m _ hm hparent, (hends _ m hm).1,
    (hends _ v hv).2 a rfl, hupdates "*" a rfl, (hanswers _ _ _ hcommand).1⟩

end Memory

end MachineInterface
