import MachineInterface.Proofs.Walks

/-!
# MachineInterface.Proofs.Listings

Listings of members.  The engine tells of the members of an object one after the other,
up to the first of which it refuses to tell (`Engine.tell`).  A listing registers the
objects of the members that were told, and it succeeds if nothing was refused
(`listMembers_apply`).  A window of members are the indices in its bounds, whatever these
are (`range'_clamped`).
-/

namespace MachineInterface

variable {σ τ : Type}

/-! ## What the engine tells -/

/-- A member that the engine has told of, with the account of its value. -/
structure Told where
  index : Nat
  member : Member
  info : ValueInfo
deriving DecidableEq, Repr

/-- The object of a member. -/
def Variable.child (v : Variable) (t : Told) : Variable where
  name := childName v.name t.member.name t.index
  expression := if t.member.name = "" then toString t.index else t.member.name
  handle := t.member.handle
  origin := .plain
  format := v.format
  thread := v.thread
  frame := v.frame
  parent := some v.name
  info := t.info

/-- The members that an engine has told of, the answer that it refused then, and its state
behind that. -/
structure Telling (σ : Type) where
  told : List Told
  refusal : Option EngineError := none
  engine : σ

/-- The adapter behind the listing of the members that the engine has told of. -/
def Adapter.listing (a : Adapter σ τ) (v : Variable) (telling : Telling σ) : Adapter σ τ :=
  { a with
    engine := telling.engine
    session := (telling.told.map v.child).foldl Session.add a.session }

namespace Telling

variable {α β : Type} {telling : Telling σ} {step : Act σ τ α} {a b : Adapter σ τ} {value : α}

/-- A step that needs all of the answers gives the value, or fails with the refusal. -/
def outcome (telling : Telling σ) (value : α) (b : Adapter σ τ) :
    EStateM.Result Error (Adapter σ τ) α :=
  match telling.refusal with
  | none => .ok value b
  | some cause => .error (.engine cause) b

theorem bind_pure (h : step a = telling.outcome value b) (f : α → β) :
    (step >>= fun v => pure (f v)) a = telling.outcome (f value) b := by
  unfold outcome at h ⊢
  cases hrefusal : telling.refusal with
  | none =>
      simp only [hrefusal] at h
      exact Act.bind_of_ok h _
  | some cause =>
      simp only [hrefusal] at h
      exact Act.bind_of_error h _

theorem after_eq (h : step a = telling.outcome value b) : step.after a = b := by
  unfold outcome at h
  cases hrefusal : telling.refusal with
  | none =>
      simp only [hrefusal] at h
      exact Act.after_of_ok h
  | some cause =>
      simp only [hrefusal] at h
      exact Act.after_of_error h

end Telling

variable [Engine σ]

/-- The engine tells of the members of an object with these indices. -/
def Engine.tell (v : Variable) : List Nat → σ → Telling σ
  | [], engine => { told := [], engine }
  | index :: indices, engine =>
    let named := Engine.answer (.member v.handle index) engine
    match named.1 with
    | .error cause => { told := [], refusal := some cause, engine := named.2 }
    | .ok member =>
      let valued := Engine.answer (.valueInfo member.handle v.format) named.2
      match valued.1 with
      | .error cause => { told := [], refusal := some cause, engine := valued.2 }
      | .ok info =>
        let rest := Engine.tell v indices valued.2
        { rest with told := ⟨index, member, info⟩ :: rest.told }

namespace Act

theorem listMember_apply (v : Variable) (index : Nat) (a : Adapter σ τ) :
    listMember v index a =
      let b := a.asked (.member v.handle index)
      match (Engine.answer (.member v.handle index) a.engine).1 with
      | .error cause => .error (.engine cause) b
      | .ok member =>
        let c := b.asked (.valueInfo member.handle v.format)
        match (Engine.answer (.valueInfo member.handle v.format) b.engine).1 with
        | .error cause => .error (.engine cause) c
        | .ok info =>
          let child := v.child ⟨index, member, info⟩
          .ok child { c with session := c.session.add child } := by
  rw [listMember, bind_of_ok (ask_apply _ a)]
  cases (Engine.answer (.member v.handle index) a.engine).1 with
  | error cause => rfl
  | ok member =>
      let b := a.asked (.member v.handle index)
      refine (bind_of_ok (demand_ok member b) _).trans ((bind_of_ok (ask_apply _ b) _).trans ?_)
      dsimp only
      cases (Engine.answer (.valueInfo member.handle v.format) b.engine).1 <;> rfl

/-- Members are registered as they are told; the listing goes on until one is refused. -/
theorem listMembers_apply (v : Variable) (indices : List Nat) (a : Adapter σ τ) :
    listMembers v indices a =
      let telling := Engine.tell v indices a.engine
      telling.outcome (telling.told.map v.child) (a.listing v telling) := by
  induction indices generalizing a with
  | nil => rfl
  | cons index indices ih =>
      have hfirst := listMember_apply v index a
      let engine := (Engine.answer (.member v.handle index) a.engine).2
      cases hmember : (Engine.answer (.member v.handle index) a.engine).1 with
      | error cause =>
          simp only [hmember] at hfirst
          rw [listMembers, bind_of_error hfirst]
          simp only [Engine.tell, hmember]
          rfl
      | ok member =>
          simp only [hmember] at hfirst
          cases hinfo : (Engine.answer (.valueInfo member.handle v.format) engine).1 with
          | error cause =>
              simp only [Adapter.asked, engine, hinfo] at hfirst
              rw [listMembers, bind_of_error hfirst]
              simp only [Engine.tell, hmember, engine, hinfo]
              rfl
          | ok info =>
              simp only [Adapter.asked, engine, hinfo] at hfirst
              let behind := (Engine.answer (.valueInfo member.handle v.format) engine).2
              have hrest := ih { a with
                engine := behind
                session := a.session.add (v.child ⟨index, member, info⟩) }
              rw [listMembers, bind_of_ok hfirst]
              simp only [Engine.tell, hmember, engine, hinfo]
              exact Telling.bind_pure hrest _

end Act

/-! ## Windows -/

/-- The indices of the members of an object in a window, or of all. -/
def Variable.indices (v : Variable) : Option (Int × Int) → List Nat
  | none => List.range v.info.children
  | some (first, last) => (List.range v.info.children).filter fun (i : Nat) =>
      max first 0 ≤ (i : Int) ∧ (i : Int) < min last v.info.children

/-- The bounds of a window, moved into the range of the indices, enclose those that are
within the bounds. -/
theorem range'_clamped (count : Nat) (first last : Int) :
    List.range' (clamped count first) (clamped count last - clamped count first) =
      (List.range count).filter fun (i : Nat) =>
        max first 0 ≤ (i : Int) ∧ (i : Int) < min last count := by
  let start := clamped count first
  let length := clamped count last - clamped count first
  have hbound : start + length ≤ count := by
    simp only [start, length, clamped]
    omega
  have hrange : List.range count =
      List.range' 0 start ++ List.range' start length ++
        List.range' (start + length) (count - (start + length)) := by
    have h := List.range'_append_1 (s := 0) (m := start) (n := length)
    rw [Nat.zero_add] at h
    have h' := List.range'_append_1 (s := 0) (m := start + length) (n := count - (start + length))
    rw [Nat.zero_add] at h'
    rw [List.range_eq_range', h, h', Nat.add_sub_cancel' hbound]
  have hbefore : ∀ i ∈ List.range' 0 start,
      ¬ (max first 0 ≤ (i : Int) ∧ (i : Int) < min last count) := by
    simp only [List.mem_range'_1, start, clamped]
    omega
  have hwithin : ∀ i ∈ List.range' start length,
      max first 0 ≤ (i : Int) ∧ (i : Int) < min last count := by
    simp only [List.mem_range'_1, start, length, clamped]
    omega
  have hbehind : ∀ i ∈ List.range' (start + length) (count - (start + length)),
      ¬ (max first 0 ≤ (i : Int) ∧ (i : Int) < min last count) := by
    simp only [List.mem_range'_1, start, length, clamped]
    omega
  rw [hrange, List.filter_append, List.filter_append,
    List.filter_eq_nil_iff.mpr (by simpa using hbefore),
    List.filter_eq_self.mpr (by simpa using hwithin),
    List.filter_eq_nil_iff.mpr (by simpa using hbehind),
    List.nil_append, List.append_nil]

/-- Members follow behind a window. -/
def Variable.goesOn (v : Variable) : Option (Int × Int) → Bool
  | none => false
  | some (_, last) => min (max last 0) v.info.children < v.info.children

/-- A listing asks for the members in its window. -/
theorem Act.listChildren_apply (shown : PrintValues) {name : String} (window : Option (Int × Int))
    {v : Variable} {a : Adapter σ τ} (hv : a.session.object? name = some v) :
    listChildren shown name window a =
      let telling := Engine.tell v (v.indices window) a.engine
      telling.outcome (childList shown (telling.told.map v.child) (v.goesOn window))
        (a.listing v telling) := by
  have hmembers := Telling.bind_pure (listMembers_apply v (v.indices window) a)
    (childList shown · (v.goesOn window))
  refine Eq.trans ?_ hmembers
  rw [listChildren, bind_of_ok (object_of_some hv)]
  cases window with
  | none => simp [Variable.indices, Variable.goesOn, List.range_eq_range']
  | some bounds =>
      obtain ⟨first, last⟩ := bounds
      have hmore : clamped v.info.children last < v.info.children ↔
          min (max last 0) v.info.children < v.info.children := by
        simp only [clamped]
        omega
      simp only [Variable.indices, Variable.goesOn, range'_clamped, hmore]

/-- A listing registers the members that it is told of, also when it breaks off. -/
theorem Act.after_listChildren_apply (shown : PrintValues) {name : String}
    (window : Option (Int × Int)) {v : Variable} {a : Adapter σ τ}
    (hv : a.session.object? name = some v) :
    (listChildren shown name window).after a =
      a.listing v (Engine.tell v (v.indices window) a.engine) :=
  Telling.after_eq (listChildren_apply shown window hv)

/-! ## Registered members -/

namespace Session

variable {s t : Session}

/-- Sessions that agree on all objects and on the rest are equal. -/
theorem eq_of_object? (hrest : { s with objects := t.objects } = t)
    (h : ∀ name, s.object? name = t.object? name) : s = t := by
  have hobjects : s.objects = t.objects := Std.ExtTreeMap.ext_getElem? h
  rw [← hrest, ← hobjects]

theorem rest_addAll (s : Session) (members : List Variable) :
    { s with objects := (members.foldl Session.add s).objects } = members.foldl Session.add s := by
  induction members generalizing s with
  | nil => rfl
  | cons m members ih => exact ih (s.add m)

/-- Of several objects with one name the last one is there. -/
theorem object?_addAll_eq (s : Session) (members : List Variable) (name : String) :
    (members.foldl Session.add s).object? name =
      (members.filter (·.name = name)).getLast?.or (s.object? name) := by
  induction members generalizing s with
  | nil => rfl
  | cons m members ih =>
      rw [List.foldl_cons, ih, object?_add, List.filter_cons]
      by_cases hname : m.name = name
      · simp [hname, List.getLast?_cons]
      · simp [hname]

/-- Registering members again changes nothing. -/
theorem addAll_addAll (s : Session) (members : List Variable) :
    members.foldl Session.add (members.foldl Session.add s) = members.foldl Session.add s := by
  refine eq_of_object? ?_ fun name => ?_
  · rw [← rest_addAll]
  · simp only [object?_addAll_eq, ← Option.or_assoc, Option.or_self]

end Session

end MachineInterface
