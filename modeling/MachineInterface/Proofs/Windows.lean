import MachineInterface.Proofs.Listings
import MachineInterface.Proofs.Refusals

/-!
# MachineInterface.Proofs.Windows

Windows of members.  A client may list the members of an object piece by piece, with any
bounds.  An engine that tells the same of them whenever it is asked (`Engine.Fixed`) is
asked for the members in the window and for no other; windows that meet list what one
window over both lists, and listing a window again changes nothing
(`Act.windows_compose`).
-/

namespace MachineInterface

open Relation (ReflTransGen)

variable {σ τ : Type} {v : Variable} {member : Nat → Member} {info : Nat → ValueInfo}

/-! ## Engines that tell the same -/

/-- The requests for these members of an object and for their values. -/
def Variable.questions (v : Variable) (member : Nat → Member) (indices : List Nat) :
    List Request :=
  indices.flatMap fun index => [.member v.handle index, .valueInfo (member index).handle v.format]

/-- The indices of an object's members. -/
abbrev Variable.all (v : Variable) : List Nat := List.range v.info.children

variable [Engine σ]

namespace Engine

/-- The state of the engine behind some requests. -/
def behind (requests : List Request) (engine : σ) : σ :=
  requests.foldl (fun engine request => (Engine.answer request engine).2) engine

/-- However often it is asked for the members of an object and for their values, the
engine answers in the same way and refuses nothing. -/
structure Fixed (v : Variable) (member : Nat → Member) (info : Nat → ValueInfo) (start : σ) :
    Prop where
  members : ∀ engine, ReflTransGen (Asked (· ∈ v.questions member v.all)) start engine →
    ∀ index < v.info.children,
      (Engine.answer (.member v.handle index) engine).1 = .ok (member index)
  values : ∀ engine, ReflTransGen (Asked (· ∈ v.questions member v.all)) start engine →
    ∀ index < v.info.children,
      (Engine.answer (.valueInfo (member index).handle v.format) engine).1 = .ok (info index)

theorem Fixed.asked {engine : σ} (h : Fixed v member info engine) {request : Request}
    (hrequest : request ∈ v.questions member v.all) :
    Fixed v member info (Engine.answer request engine).2 where
  members f hf := h.members f (hf.head (Engine.asked hrequest engine))
  values f hf := h.values f (hf.head (Engine.asked hrequest engine))

omit [Engine σ] in
theorem mem_questions (member : Nat → Member) {index : Nat} (h : index < v.info.children) :
    Request.member v.handle index ∈ v.questions member v.all ∧
      Request.valueInfo (member index).handle v.format ∈ v.questions member v.all := by
  simp only [Variable.questions, List.mem_flatMap, List.mem_range]
  exact ⟨⟨index, h, by simp⟩, ⟨index, h, by simp⟩⟩

/-- What a fixed engine tells of an object. -/
theorem Fixed.tell {engine : σ} (h : Fixed v member info engine) {indices : List Nat}
    (hindices : ∀ index ∈ indices, index < v.info.children) :
    Engine.tell v indices engine = {
        told := indices.map fun index => ⟨index, member index, info index⟩
        engine := behind (v.questions member indices) engine } ∧
      Fixed v member info (behind (v.questions member indices) engine) := by
  induction indices generalizing engine with
  | nil => exact ⟨rfl, h⟩
  | cons index indices ih =>
      have hindex := hindices index List.mem_cons_self
      obtain ⟨hfirst, hsecond⟩ := mem_questions member hindex
      have hmember := h.members engine .refl index hindex
      have hinfo := (h.asked hfirst).values _ .refl index hindex
      obtain ⟨hrest, hbehind⟩ := ih ((h.asked hfirst).asked hsecond)
        fun other hother => hindices other (List.mem_cons_of_mem index hother)
      refine ⟨?_, hbehind⟩
      simp only [Engine.tell, hmember, hinfo, hrest]
      rfl

/-- An engine that keeps a list of its calls tells the same as without. -/
theorem Fixed.traced {engine : σ} (h : Fixed v member info engine) (calls : List Call) :
    Fixed v member info (⟨engine, calls⟩ : Traced σ) := by
  have hengine : ∀ traced : Traced σ,
      ReflTransGen (Asked (· ∈ v.questions member v.all)) ⟨engine, calls⟩ traced →
      ReflTransGen (Asked (· ∈ v.questions member v.all)) engine traced.engine := by
    intro traced htraced
    induction htraced with
    | refl => exact .refl
    | tail _ hasked ih =>
        obtain ⟨request, hrequest, rfl⟩ := hasked
        exact ih.tail (Engine.asked hrequest _)
  exact ⟨fun traced htraced => h.members traced.engine (hengine traced htraced),
    fun traced htraced => h.values traced.engine (hengine traced htraced)⟩

theorem calls_behind (requests : List Request) (traced : Traced σ) :
    (behind requests traced).calls = traced.calls ++ requests.map .answer := by
  induction requests generalizing traced with
  | nil => simp [behind]
  | cons request requests ih =>
      have hrest := ih (Engine.answer request traced).2
      rw [behind, List.foldl_cons, ← behind, hrest]
      simp [Engine.answer]

end Engine

open Engine (Fixed behind)

/-! ## Listing a window -/

/-- The fields of a member in an answer. -/
def Variable.entry (shown : PrintValues) (m : Variable) : Results :=
  [("name", .const m.name), ("exp", .const m.expression),
    ("numchild", .const (toString m.info.children))] ++
  (match shown with
    | .no => []
    | .all => [("value", .const m.info.value)]
    | .simple => if m.info.children = 0 then [("value", .const m.info.value)] else []) ++
  [("type", .const m.info.typeName), ("thread-id", .const (toString m.info.thread)),
    ("has_more", .const "0")]

/-- The fields of an answer that shows members: their number, the members in their order, if
there are any, and whether others follow them. -/
def Variable.listing (shown : PrintValues) (members : List Variable) (more : Bool) : Results :=
  [("numchild", .const (toString members.length))] ++
  (if members.isEmpty then []
    else [("children", .resultList (members.map fun m => ("child", .tuple (m.entry shown))))]) ++
  [("has_more", .const (if more then "1" else "0"))]

theorem childList_eq (shown : PrintValues) (members : List Variable) (more : Bool) :
    childList shown members more = Variable.listing shown members more := by
  have hentry : ∀ m : Variable, m.childResults (shown.shows m.info.children) = m.entry shown := by
    intro m
    cases shown <;>
      simp [Variable.childResults, Variable.entry, Variable.valueField, PrintValues.shows, field,
        numberField]
  simp only [childList, Variable.listing, hentry, field, numberField]

/-- The answer to a line shows these members of an object and says whether others follow
them; they are registered, and the engine is asked these requests and no other. -/
structure Adapter.ShowsMembers [Sink τ] (a : Adapter σ τ) (register : Register) (text : String)
    (shown : PrintValues) (members : List Variable) (more : Bool) (requests : List Request) :
    Prop where
  answer : ∃ line, Line.parse text = .ok (some line) ∧
    a.answer? register text = some ⟨line.token, .done, Variable.listing shown members more⟩
  session : ((Act.handleLine register text).after a).session =
    members.foldl Session.add a.session
  calls : ((Act.handleLine register text).after a.traced).engine.calls = requests.map .answer

/-- The members of an object with these indices, as a fixed engine tells of them. -/
def Variable.members (v : Variable) (member : Nat → Member) (info : Nat → ValueInfo)
    (indices : List Nat) : List Variable :=
  indices.map fun index => v.child ⟨index, member index, info index⟩

theorem Variable.indices_lt (v : Variable) (window : Option (Int × Int)) :
    ∀ index ∈ v.indices window, index < v.info.children := by
  cases window with
  | none => simp [Variable.indices]
  | some bounds => simp +contextual [Variable.indices]

/-- Windows that meet make up one window. -/
theorem Variable.indices_append (v : Variable) {first middle last : Int} (hfirst : first ≤ middle)
    (hlast : middle ≤ last) :
    v.indices (some (first, middle)) ++ v.indices (some (middle, last)) =
      v.indices (some (first, last)) := by
  have hclamped : ∀ {m n : Int}, m ≤ n → clamped v.info.children m ≤ clamped v.info.children n := by
    simp only [clamped]
    omega
  have hm := hclamped hfirst
  have hl := hclamped hlast
  have happend := List.range'_append_1 (s := clamped v.info.children first)
    (m := clamped v.info.children middle - clamped v.info.children first)
    (n := clamped v.info.children last - clamped v.info.children middle)
  rw [Nat.add_sub_cancel' hm] at happend
  simp only [Variable.indices, ← range'_clamped]
  rw [happend]
  congr 1
  omega

namespace Act

variable [Sink τ] {register : Register} {a : Adapter σ τ} {name text : String}
  {shown : PrintValues} {window : Option (Int × Int)}

omit [Sink τ] in
/-- What a listing makes of an adapter whose engine is fixed. -/
theorem listChildren_of_fixed (shown : PrintValues) (window : Option (Int × Int))
    (hv : a.session.object? name = some v)
    (hfixed : Fixed v member info a.engine) :
    listChildren shown name window a =
      .ok (childList shown (v.members member info (v.indices window)) (v.goesOn window)) { a with
        engine := behind (v.questions member (v.indices window)) a.engine
        session := (v.members member info (v.indices window)).foldl Session.add a.session } := by
  have hlist := listChildren_apply shown window hv
  rw [(hfixed.tell (v.indices_lt window)).1] at hlist
  simp only [Adapter.listing, List.map_map] at hlist
  exact hlist

theorem showsMembers (hv : a.session.object? name = some v)
    (hfixed : Fixed v member info a.engine)
    (hcommand : register.command? text = some (.listChildren shown name window)) :
    a.ShowsMembers register text shown (v.members member info (v.indices window)) (v.goesOn window)
      (v.questions member (v.indices window)) := by
  obtain ⟨line, journal, hline, hsession, -, hanswer⟩ := line_of_command? hcommand a
  obtain ⟨-, journal', -, -, hengine, -⟩ := line_of_command? hcommand a.traced
  have hlist := listChildren_of_fixed (a := { a with journal }) shown window hv hfixed
  have htraced := listChildren_of_fixed (a := { a.traced with journal := journal' }) shown window
    hv (hfixed.traced [])
  refine ⟨⟨line, hline, ?_⟩, ?_, ?_⟩
  · rw [hanswer, perform, hlist, ← childList_eq]
    rfl
  · rw [hsession, perform, after_of_ok hlist]
  · rw [hengine, perform, after_of_ok htraced]
    exact Engine.calls_behind _ a.traced.engine

/-- The object that was listed is still there, and the engine still tells the same of
it. -/
theorem fixed_behind (hs : a.session.Named) (hv : a.session.object? name = some v)
    (hfixed : Fixed v member info a.engine)
    (hcommand : register.command? text = some (.listChildren shown name window)) :
    let b := (handleLine register text).after a
    b.session.object? name = some v ∧ Fixed v member info b.engine := by
  intro b
  obtain ⟨-, journal, -, -, hengine, -⟩ := line_of_command? hcommand a
  have hlist := listChildren_of_fixed (a := { a with journal }) shown window hv hfixed
  constructor
  · have hother : ∀ m ∈ v.members member info (v.indices window), m.name ≠ name := by
      intro m hm hname
      obtain ⟨index, -, rfl⟩ := List.mem_map.mp hm
      have hlength := Variable.length_lt_childName v.name (member index).name index
      rw [show Variable.childName v.name (member index).name index = name from hname,
        hs name v hv] at hlength
      omega
    rw [(showsMembers hv hfixed hcommand).session, Session.object?_addAll a.session hother, hv]
  · rw [hengine, perform, after_of_ok hlist]
    exact (hfixed.tell (v.indices_lt window)).2

/-- **Windows**: a client lists the members of an object in a window, and the engine tells
the same of them whenever it is asked.  Whatever the bounds are, the answer shows the
members that have an index within them, in order and under their names; it says that more
follow exactly if the upper bound lies below their number, and the engine is asked for no
other member.  Listing the window again changes neither the answer nor the session.  Two
windows that meet show what one window over both shows, and leave the session that it
leaves. -/
theorem windows_compose (register : Register) (hs : a.session.Named)
    (hv : a.session.object? name = some v) (hfixed : Fixed v member info a.engine) :
    let n : Int := v.info.children
    let within (first last : Int) : List Nat := (List.range v.info.children).filter
      fun (i : Nat) => max first 0 ≤ (i : Int) ∧ (i : Int) < min last n
    let more (last : Int) : Bool := min (max last 0) n < n
    let objects := v.members member info
    let questions := v.questions member
    (∀ indices, (objects indices).map Variable.name = indices.map fun index =>
      if (member index).name = "" then v.name ++ ".$" ++ toString index
      else v.name ++ "." ++ (member index).name) ∧
    (∀ text shown first last,
      register.command? text = some (.listChildren shown name (some (first, last))) →
      let b := (handleLine register text).after a
      a.ShowsMembers register text shown (objects (within first last)) (more last)
        (questions (within first last)) ∧
      b.answer? register text = a.answer? register text ∧
      ((handleLine register text).after b).session = b.session) ∧
    ∀ first middle last, first ≤ middle → middle ≤ last → ∀ text₁ text₂ text shown₁ shown₂ shown,
      register.command? text₁ = some (.listChildren shown₁ name (some (first, middle))) →
      register.command? text₂ = some (.listChildren shown₂ name (some (middle, last))) →
      register.command? text = some (.listChildren shown name (some (first, last))) →
      let b := (handleLine register text₁).after a
      let indices₁ := within first middle
      let indices₂ := within middle last
      a.ShowsMembers register text₁ shown₁ (objects indices₁) (more middle)
        (questions indices₁) ∧
      b.ShowsMembers register text₂ shown₂ (objects indices₂) (more last) (questions indices₂) ∧
      a.ShowsMembers register text shown (objects indices₁ ++ objects indices₂) (more last)
        (questions indices₁ ++ questions indices₂) ∧
      ((handleLine register text₂).after b).session =
        ((handleLine register text).after a).session := by
  intro n within more objects questions
  refine ⟨fun indices => ?_, fun text shown first last hcommand => ?_,
    fun first middle last hfirst hlast text₁ text₂ text shown₁ shown₂ shown h₁ h₂ h => ?_⟩
  · simp only [objects, Variable.members, List.map_map]
    refine List.map_congr_left fun index _ => ?_
    simp [Variable.child, Variable.childName, toString]
  · obtain ⟨hvb, hfixedb⟩ := fixed_behind hs hv hfixed hcommand
    have hshows := showsMembers hv hfixed hcommand
    have hagain := showsMembers hvb hfixedb hcommand
    refine ⟨hshows, ?_, ?_⟩
    · obtain ⟨line, hline, hanswer⟩ := hshows.answer
      obtain ⟨line', hline', hanswer'⟩ := hagain.answer
      rw [hline] at hline'
      cases hline'
      rw [hanswer, hanswer']
    · rw [hagain.session, hshows.session, Session.addAll_addAll]
  · obtain ⟨hvb, hfixedb⟩ := fixed_behind hs hv hfixed h₁
    have hshows₁ := showsMembers hv hfixed h₁
    have hshows₂ := showsMembers hvb hfixedb h₂
    have hshows := showsMembers hv hfixed h
    rw [← v.indices_append hfirst hlast] at hshows
    have hobjects : ∀ indices₁ indices₂, objects (indices₁ ++ indices₂) =
        objects indices₁ ++ objects indices₂ := fun _ _ => List.map_append
    have hquestions : ∀ indices₁ indices₂, questions (indices₁ ++ indices₂) =
        questions indices₁ ++ questions indices₂ := fun _ _ => List.flatMap_append
    refine ⟨hshows₁, hshows₂, ?_, ?_⟩
    · rw [← hobjects, ← hquestions]
      exact hshows
    · rw [hshows.session, hshows₂.session, hshows₁.session, ← List.foldl_append, ← hobjects]

end Act

namespace Memory

/-- A memory tells the same of its values as long as it is only asked for them. -/
theorem fixed {m : Memory}
    (hmember : ∀ index < v.info.children, m.member v.handle index = .ok (member index))
    (hinfo : ∀ index < v.info.children,
      (m.cell (member index).handle).map Cell.info = .ok (info index)) :
    Fixed v member info m := by
  have hstays : ∀ engine : Memory,
      ReflTransGen (Engine.Asked (· ∈ v.questions member v.all)) m engine → engine = m := by
    intro engine hengine
    induction hengine with
    | refl => rfl
    | tail _ hasked ih =>
        obtain ⟨request, hrequest, rfl⟩ := hasked
        obtain ⟨index, -, hrequest⟩ := List.mem_flatMap.mp hrequest
        subst ih
        obtain rfl | rfl : request = .member v.handle index ∨
            request = .valueInfo (member index).handle v.format := by
          simpa using hrequest
        all_goals rfl
  constructor
  all_goals
    intro engine hengine
    rw [hstays engine hengine]
  · exact hmember
  · exact hinfo

/-- A value with three members: the second has no name, and the others have the same. -/
def alike : Memory where
  places := [("s", 0)]
  cells := [
    { text := "{...}", members := [("x", 1), ("", 2), ("x", 3)] },
    { text := "1" }, { text := "2" }, { text := "3" }]

/-- An object for this value. -/
def alikeObject : Variable :=
  { name := "s", expression := "s", handle := 0, origin := .plain, format := .natural,
    thread := none, frame := none, parent := none,
    info := { text := "{...}", members := [("x", 1), ("", 2), ("x", 3)] : Cell}.info }

def alikeMember (index : Nat) : Member := ⟨if index = 1 then "" else "x", index + 1⟩

def alikeInfo (index : Nat) : ValueInfo := { text := toString (index + 1) : Cell}.info

theorem fixed_alike : Fixed alikeObject alikeMember alikeInfo alike := by
  have hthree : ∀ {P : Nat → Prop}, P 0 → P 1 → P 2 →
      ∀ index < alikeObject.info.children, P index := by
    intro P h₀ h₁ h₂ index hindex
    match index, hindex with
    | 0, _ => exact h₀
    | 1, _ => exact h₁
    | 2, _ => exact h₂
  exact fixed (hthree rfl rfl rfl) (hthree rfl rfl rfl)

/-- The members up to the second and those from there on, as all of them at once. -/
theorem windows_compose_alike :
    let a := (Adapter.new {} alike Discard.discard).run .standard [.line "var-create s * s"]
    let b := (Act.handleLine .standard "var-list-children --all-values s -5 1").after a
    let shown (name expression : String) (value : Results) : String × Value :=
      ("child", .tuple ([("name", .const name), ("exp", .const expression),
        ("numchild", .const "0")] ++ value ++ [("type", .const "int"), ("thread-id", .const "1"),
        ("has_more", .const "0")]))
    a.session.Named ∧ (a.session.object? "s").map (·.info.children) = some 3 ∧
    a.answer? .standard "var-list-children --all-values s -5 1" =
      some ⟨none, .done, [("numchild", .const "1"),
        ("children", .resultList [shown "s.x" "x" [("value", .const "1")]]),
        ("has_more", .const "1")]⟩ ∧
    b.answer? .standard "7-var-list-children s 1 9" =
      some ⟨some "7", .done, [("numchild", .const "2"),
        ("children", .resultList [shown "s.$1" "1" [], shown "s.x" "x" []]),
        ("has_more", .const "0")]⟩ ∧
    ((Act.handleLine .standard "7-var-list-children s 1 9").after b).session =
      ((Act.handleLine .standard "var-list-children s -5 9").after a).session := by
  intro a b shown
  have hnamed : a.session.Named := Adapter.named_run {} alike Discard.discard .standard _
  have hv : a.session.object? "s" = some alikeObject := by decide +kernel
  have hengine : a.engine = alike := by decide +kernel
  obtain ⟨-, -, hcompose⟩ := Act.windows_compose .standard hnamed hv (hengine ▸ fixed_alike)
  obtain ⟨⟨⟨first, hfirst, hanswer⟩, -, -⟩, ⟨⟨second, hsecond, hrest⟩, -, -⟩, -, hsession⟩ :=
    hcompose (-5) 1 9 (by decide) (by decide) "var-list-children --all-values s -5 1"
      "7-var-list-children s 1 9" "var-list-children s -5 9" .all .no .no
      (by decide +kernel) (by decide +kernel) (by decide +kernel)
  have hparse₁ : Line.parse "var-list-children --all-values s -5 1" =
      .ok (some ⟨none, "var-list-children", "--all-values s -5 1"⟩) := rfl
  have hparse₂ : Line.parse "7-var-list-children s 1 9" =
      .ok (some ⟨some "7", "var-list-children", "s 1 9"⟩) := rfl
  rw [hparse₁] at hfirst
  rw [hparse₂] at hsecond
  cases hfirst
  cases hsecond
  exact ⟨hnamed, by rw [hv]; rfl, hanswer.trans rfl, hrest.trans rfl, hsession⟩

end Memory

end MachineInterface
