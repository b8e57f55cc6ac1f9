import MachineInterface.Variable.Visit

/-!
# MachineInterface.Proofs.Visits

What is reported of a tree of visits, told by places in the tree: the deepest changes,
none of them below another (`Visit.reportsAt_places`).
-/

namespace MachineInterface

/-! ## Places in a tree of visits -/

namespace Visit

def object : Visit → Variable
  | mk object _ _ => object

def changed : Visit → Bool
  | mk _ changed _ => changed

def members : Visit → List Visit
  | mk _ _ members => members

/-- The visit at a place: on each level the place says how many visits of members come
before. -/
def at? (visit : Visit) : List Nat → Option Visit
  | [] => some visit
  | n :: place => visit.members[n]?.bind fun member => member.at? place

/-- What holds of a visit if it holds of the visits of the members holds of all. -/
theorem members_induction {P : Visit → Prop}
    (h : ∀ object changed members, (∀ m ∈ members, P m) → P (mk object changed members)) :
    ∀ visit, P visit :=
  @Visit.rec P (fun visits => ∀ visit ∈ visits, P visit) h (List.forall_mem_nil _)
    fun _ _ hvisit hvisits => List.forall_mem_cons.mpr ⟨hvisit, hvisits⟩

mutual

/-- The places of the visits to report, in the order of the report. -/
def places : Visit → List (List Nat)
  | mk _ changed members =>
    placesFrom 0 members ++ if changed && !anyChange members then [[]] else []

/-- The places of the visits to report that lie in visits with these numbers. -/
def placesFrom (first : Nat) : List Visit → List (List Nat)
  | [] => []
  | visit :: visits => visit.places.map (first :: ·) ++ placesFrom (first + 1) visits

end

theorem mem_placesFrom {first : Nat} {visits : List Visit} {place : List Nat} :
    place ∈ placesFrom first visits ↔ ∃ n visit rest, visits[n]? = some visit ∧
      rest ∈ visit.places ∧ place = (first + n) :: rest := by
  induction visits generalizing first with
  | nil => simp [placesFrom]
  | cons visit visits ih =>
      have hshift : ∀ n, first + 1 + n = first + (n + 1) := by omega
      rw [placesFrom, List.mem_append, List.mem_map, ih]
      constructor
      · rintro (⟨rest, hrest, rfl⟩ | ⟨n, other, rest, hother, hrest, rfl⟩)
        · exact ⟨0, visit, rest, rfl, hrest, rfl⟩
        · exact ⟨n + 1, other, rest, hother, hrest, by rw [hshift]⟩
      · rintro ⟨n, other, rest, hother, hrest, rfl⟩
        cases n with
        | zero =>
            cases hother
            exact .inl ⟨rest, hrest, rfl⟩
        | succ n => exact .inr ⟨n, other, rest, hother, hrest, by rw [hshift]⟩

theorem mem_places {object : Variable} {changed : Bool} {members : List Visit}
    {place : List Nat} :
    place ∈ (mk object changed members).places ↔
      (∃ n member rest, members[n]? = some member ∧ rest ∈ member.places ∧ place = n :: rest) ∨
      (changed = true ∧ anyChange members = false ∧ place = []) := by
  rw [places, List.mem_append, mem_placesFrom]
  simp only [Nat.zero_add]
  cases changed <;> cases anyChange members <;> simp

theorem anyChange_eq_true {visits : List Visit} :
    anyChange visits = true ↔ ∃ visit ∈ visits, visit.hasChange = true := by
  induction visits with
  | nil => simp [anyChange]
  | cons visit visits ih => simp [anyChange, ih]

/-- A visit has a place to report exactly if there is a change. -/
theorem exists_mem_places (visit : Visit) :
    (∃ place, place ∈ visit.places) ↔ visit.hasChange = true := by
  induction visit using members_induction with
  | h object changed members ih =>
      rw [hasChange, Bool.or_eq_true]
      constructor
      · rintro ⟨place, hplace⟩
        obtain ⟨n, member, rest, hmember, hrest, -⟩ | ⟨hchanged, -, -⟩ := mem_places.mp hplace
        · have hmem := List.mem_of_getElem? hmember
          exact .inr (anyChange_eq_true.mpr ⟨member, hmem, (ih member hmem).mp ⟨rest, hrest⟩⟩)
        · exact .inl hchanged
      · intro hchange
        by_cases hany : anyChange members = true
        · obtain ⟨member, hmem, hmember⟩ := anyChange_eq_true.mp hany
          obtain ⟨rest, hrest⟩ := (ih member hmem).mpr hmember
          obtain ⟨n, hn⟩ := List.mem_iff_getElem?.mp hmem
          exact ⟨n :: rest, mem_places.mpr (.inl ⟨n, member, rest, hn, hrest, rfl⟩)⟩
        · have hchanged := hchange.resolve_right hany
          exact ⟨[], mem_places.mpr (.inr ⟨hchanged, by simpa using hany, rfl⟩)⟩

/-! ## The report -/

/-- The report of a visit, told by places: what is reported has changed, none of it lies
below another, and every change is reported or lies above one that is. -/
structure ReportsAt (visit : Visit) (places : List (List Nat)) : Prop where
  report : visit.report.map some = places.map fun place => (visit.at? place).map object
  distinct : places.Nodup
  changed : ∀ place ∈ places, ∃ found, visit.at? place = some found ∧ found.changed = true
  apart : ∀ place ∈ places, ∀ other ∈ places, place <+: other → place = other
  covers : ∀ place found, visit.at? place = some found → found.changed = true →
    ∃ other ∈ places, place <+: other

@[simp] theorem at?_nil (visit : Visit) : visit.at? [] = some visit := rfl

theorem at?_cons {object : Variable} {changed : Bool} {members : List Visit} {n : Nat}
    {member : Visit} (h : members[n]? = some member) (place : List Nat) :
    (mk object changed members).at? (n :: place) = member.at? place := by
  rw [at?, Visit.members, h, Option.bind_some]

/-- A place below the top lies in a member. -/
theorem at?_cons_eq_some {object : Variable} {changed : Bool} {members : List Visit} {n : Nat}
    {place : List Nat} {found : Visit}
    (h : (mk object changed members).at? (n :: place) = some found) :
    ∃ member, members[n]? = some member ∧ member.at? place = some found := by
  rw [at?] at h
  exact Option.bind_eq_some_iff.mp h

/-- The members of the visit at a place have the places one step below. -/
theorem at?_concat (visit : Visit) (place : List Nat) (n : Nat) :
    visit.at? (place ++ [n]) = (visit.at? place).bind fun found => found.members[n]? := by
  induction place generalizing visit with
  | nil =>
      rw [List.nil_append, at?_nil, Option.bind_some, at?]
      cases visit.members[n]? <;> rfl
  | cons m place ih =>
      rw [List.cons_append, at?, at?, Option.bind_assoc]
      simp only [ih]

/-- What several visits report stands at their places. -/
theorem report_members (object : Variable) (changed : Bool) (earlier : List Visit)
    {visits : List Visit} (h : ∀ visit ∈ visits, visit.report.map some =
      visit.places.map fun place => (visit.at? place).map Visit.object) :
    (reportAll visits).map some = (placesFrom earlier.length visits).map fun place =>
      ((mk object changed (earlier ++ visits)).at? place).map Visit.object := by
  induction visits generalizing earlier with
  | nil => rfl
  | cons visit visits ih =>
      have hvisit : (earlier ++ visit :: visits)[earlier.length]? = some visit := by simp
      have hrest := ih (earlier ++ [visit])
        fun other hother => h other (List.mem_cons_of_mem visit hother)
      rw [List.length_append, List.append_assoc] at hrest
      have hfirst : visit.report.map some = (visit.places.map (earlier.length :: ·)).map
          fun place => ((mk object changed (earlier ++ visit :: visits)).at? place).map
            Visit.object := by
        rw [h visit List.mem_cons_self, List.map_map]
        refine List.map_congr_left fun place _ => ?_
        rw [Function.comp_apply, at?_cons hvisit]
      rw [reportAll, placesFrom, List.map_append, List.map_append, hfirst, hrest]
      rfl

theorem nodup_placesFrom {visits : List Visit} (h : ∀ visit ∈ visits, visit.places.Nodup)
    (first : Nat) : (placesFrom first visits).Nodup := by
  induction visits generalizing first with
  | nil => exact List.nodup_nil
  | cons visit visits ih =>
      have hvisit : (visit.places.map (first :: ·)).Nodup :=
        List.Pairwise.map _ (fun _ _ hne heq => hne (List.cons.inj heq).2)
          (h visit List.mem_cons_self)
      have hvisits := ih (fun other hother => h other (List.mem_cons_of_mem visit hother))
        (first + 1)
      refine List.nodup_append.mpr ⟨hvisit, hvisits, ?_⟩
      rintro place hplace _ hlater rfl
      obtain ⟨rest, -, rfl⟩ := List.mem_map.mp hplace
      obtain ⟨n, _, _, -, -, heq⟩ := mem_placesFrom.mp hlater
      have hhead := (List.cons.inj heq).1
      omega

/-- A visit reports the deepest changes. -/
theorem reportsAt_places (visit : Visit) : visit.ReportsAt visit.places := by
  induction visit using members_induction with
  | h object changed members ih =>
  constructor
  case report =>
    have hmembers := report_members object changed []
      fun member hmember => (ih member hmember).report
    rw [List.length_nil, List.nil_append] at hmembers
    rw [Visit.report, places, List.map_append, List.map_append, hmembers]
    split <;> rfl
  case distinct =>
    have hmembers := nodup_placesFrom (fun member hmember => (ih member hmember).distinct) 0
    refine List.nodup_append.mpr ⟨hmembers, ?_, ?_⟩
    · split <;> simp
    · rintro place hplace _ hroot rfl
      obtain ⟨n, -, rest, -, -, rfl⟩ := mem_placesFrom.mp hplace
      split at hroot <;> simp at hroot
  case changed =>
    intro place hplace
    obtain ⟨n, member, rest, hmember, hrest, rfl⟩ | ⟨hchanged, -, rfl⟩ := mem_places.mp hplace
    · rw [at?_cons hmember]
      exact (ih member (List.mem_of_getElem? hmember)).changed rest hrest
    · exact ⟨_, rfl, hchanged⟩
  case apart =>
    intro place hplace other hother hle
    obtain ⟨n, member, rest, hmember, hrest, rfl⟩ | ⟨-, hany, rfl⟩ := mem_places.mp hplace
    · obtain ⟨m, member', rest', hmember', hrest', rfl⟩ | ⟨-, -, rfl⟩ := mem_places.mp hother
      · obtain ⟨rfl, hbelow⟩ := List.cons_prefix_cons.mp hle
        rw [hmember] at hmember'
        cases hmember'
        rw [(ih member (List.mem_of_getElem? hmember)).apart rest hrest rest' hrest' hbelow]
      · exact List.prefix_nil.mp hle
    · -- The top is reported only if nothing below it is.
      obtain ⟨m, member', rest', hmember', hrest', -⟩ | ⟨-, -, rfl⟩ := mem_places.mp hother
      · have hchange := (exists_mem_places member').mp ⟨rest', hrest'⟩
        rw [anyChange_eq_true.mpr ⟨member', List.mem_of_getElem? hmember', hchange⟩] at hany
        cases hany
      · rfl
  case covers =>
    intro place found hfound hchanged
    cases place with
    | nil =>
        cases hfound
        have hchange : (mk object changed members).hasChange = true := by
          rw [hasChange, show changed = true from hchanged, Bool.true_or]
        obtain ⟨other, hother⟩ := (exists_mem_places _).mpr hchange
        exact ⟨other, hother, List.nil_prefix⟩
    | cons n place =>
        obtain ⟨member, hmember, hrest⟩ := at?_cons_eq_some hfound
        obtain ⟨other, hother, hle⟩ :=
          (ih member (List.mem_of_getElem? hmember)).covers place found hrest hchanged
        exact ⟨n :: other, mem_places.mpr (.inl ⟨n, member, other, hmember, hother, rfl⟩),
          List.cons_prefix_cons.mpr ⟨rfl, hle⟩⟩

/-- Something is reported exactly if there is a change. -/
theorem report_ne_nil (visit : Visit) : visit.report ≠ [] ↔ visit.hasChange = true := by
  have hlength := congrArg List.length (reportsAt_places visit).report
  rw [List.length_map, List.length_map] at hlength
  rw [← exists_mem_places, ← List.length_pos_iff, hlength, List.length_pos_iff_exists_mem]

end Visit

end MachineInterface
