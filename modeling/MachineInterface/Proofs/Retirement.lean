import MachineInterface.Engine.Table
import MachineInterface.Proofs.Records

/-!
# MachineInterface.Proofs.Retirement

A number that was taken off its stoppoint never comes back.  A session that has
given out a number under which it knows no handle any more (`Session.Retired`)
never gives the number to a handle again, so no record that is written later
mentions it (`Session.Step.not_mentions`) and no command finds it
(`perform_of_retired`).  `retirement_of_run` states this for every moment of
a run: between stimuli, and behind the notifications that the engine delivers
while it creates a stoppoint.
-/

namespace MachineInterface

variable {σ τ α β : Type}

namespace Session

variable {s t : Session} {n : Nat}

/-! ## Retired numbers -/

/-- The number was given out, and no handle has it any more. -/
def Retired (s : Session) (n : Nat) : Prop :=
  1 ≤ n ∧ n ≤ s.numbering.given ∧ ∀ handle, s.id? handle ≠ some n

/-- Numbers only ever grow. -/
theorem Change.given_le (h : s.Change t) : s.numbering.given ≤ t.numbering.given := by
  obtain heq | ⟨handle, id, hnumber⟩ | ⟨handle, heq⟩ := h.numbering_cases
  · exact Nat.le_of_eq (congrArg Numbering.given heq).symm
  · rw [Numbering.given_number hnumber]
    split <;> omega
  · exact Nat.le_of_eq (by rw [heq, Numbering.given_erase])

/-- A number that was given to a handle is retired once no handle has it. -/
theorem Consistent.retired {handle : Handle} (hs : s.Consistent) (hid : s.id? handle = some n)
    (hgiven : s.numbering.given ≤ t.numbering.given) (hnone : ∀ other, t.id? other ≠ some n) :
    t.Retired n := by
  have hrange := hs.valid.range n handle ((hs.valid.id_iff handle n).mp hid)
  exact ⟨hrange.1, Nat.le_trans hrange.2 hgiven, hnone⟩

/-- Whatever changes, a retired number stays retired. -/
theorem Retired.change (hn : s.Retired n) (h : s.Change t) : t.Retired n := by
  obtain ⟨hpos, hle, hnone⟩ := hn
  refine ⟨hpos, Nat.le_trans hle h.given_le, fun other => ?_⟩
  have hother := hnone other
  rw [id?] at hother ⊢
  obtain heq | ⟨handle, id, hnumber⟩ | ⟨handle, heq⟩ := h.numbering_cases
  · rwa [heq]
  · rw [Numbering.id?_number hnumber]
    split
    · -- The handle has its number from before, or one that was not given out yet.
      intro hid
      obtain rfl := Option.some.inj hid
      obtain ⟨hold, -⟩ | ⟨-, hnew, -⟩ := Numbering.number_cases hnumber
      · exact hnone handle hold
      · omega
    · exact hother
  · rw [heq, Numbering.id?_erase]
    split
    · intro hid
      cases hid
    · exact hother

/-- Forgetting a handle retires its number. -/
theorem Consistent.retired_forget {handle : Handle} (hs : s.Consistent)
    (hid : s.id? handle = some n) : (s.forget handle).2.Retired n := by
  refine hs.retired hid (Change.forget handle).given_le fun other hother => ?_
  rw [id?, numbering_forget, Numbering.id?_erase] at hother
  split at hother
  · cases hother
  · next hne => exact hne (hs.handle_unique hid hother)

/-! ## Records -/

/-- Where records are kept under their own numbers, a number that the session
knows is one that a handle has. -/
theorem Filed.id?_of_knows (hs : s.Filed) (h : s.Knows n) : ∃ handle, s.id? handle = some n := by
  obtain ⟨handle, id, hid, rfl | ⟨p, hp, rfl⟩⟩ := h
  · exact ⟨handle, hid⟩
  · rw [← hs id p hp] at hid
    exact ⟨handle, hid⟩

theorem Retired.not_knows (hn : s.Retired n) (hs : s.Filed) : ¬ s.Knows n := by
  intro h
  obtain ⟨handle, hid⟩ := hs.id?_of_knows h
  exact hn.2.2 handle hid

variable {record : Record}

/-- What is written is the record of a deletion that goes with it, or it tells
of no deletion and the session knows what it mentions. -/
def Tells (s : Session) (record : Record) (t : Session) : Prop :=
  (∃ handle id, s.id? handle = some id ∧ record = .deletion id ∧ t = (s.forget handle).2) ∨
  ((∀ n, ¬ record.Deletes n) ∧ ∀ n, record.Mentions n → s.Knows n)

theorem NotificationStep.tells {subject : Option Handle}
    (h : NotificationStep subject s (some record) t) : s.Tells record t := by
  cases h with
  | deleted hid => exact .inl ⟨_, _, hid, rfl, rfl⟩
  | news hsupports => exact .inr ⟨hsupports.not_deletes, hsupports.knows⟩

theorem Step.tells (h : s.Step (some record) t) : s.Tells record t := by
  cases h with
  | answer hcovers => exact .inr ⟨fun _ h => h, hcovers⟩
  | command h =>
      cases h with
      | objects h => cases h
      | stoppoints h =>
          cases h with
          | notification notification h => exact h.tells

/-- No record that is written mentions a retired number. -/
theorem Step.not_mentions (h : s.Step (some record) t) (hs : s.Consistent) (hn : s.Retired n) :
    ¬ record.Mentions n := by
  intro hmentions
  obtain ⟨handle, id, hid, rfl, -⟩ | ⟨-, hknows⟩ := h.tells
  · rw [Record.mentions_deletion_iff.mp hmentions] at hn
    exact hn.2.2 handle hid
  · exact hn.not_knows hs.filed (hknows n hmentions)

/-- A number is retired behind the record of its deletion. -/
theorem Step.retired_of_deletes (h : s.Step (some record) t) (hs : s.Consistent)
    (hdeletes : record.Deletes n) : t.Retired n := by
  obtain ⟨handle, id, hid, rfl, rfl⟩ | ⟨hnot, -⟩ := h.tells
  · rw [Record.mentions_deletion_iff.mp hdeletes.mentions]
    exact hs.retired_forget hid
  · exact (hnot n hdeletes).elim

end Session

/-! ## Moves -/

namespace Adapter.Moves

variable [Sink τ] {a b : Adapter σ τ}

/-- Once a number is retired, nothing that is written mentions it. -/
theorem retired (h : Adapter.Moves Session.Step Engine.Any a b) (ha : a.session.Consistent)
    {n : Nat} (hn : a.session.Retired n) :
    b.session.Retired n ∧ ∃ told, b.written = a.written ++ told ∧
      ∀ record ∈ told, ¬ record.Mentions n := by
  refine (h.invariant (I := fun s written => s.Consistent ∧ s.Retired n ∧
    ∃ told, written = a.written ++ told ∧ ∀ record ∈ told, ¬ record.Mentions n)
    ?step ?prompt ⟨ha, hn, [], (List.append_nil _).symm, nofun⟩).2
  case step =>
    rintro s record t _ ⟨hs, hn, told, rfl, htold⟩ hst
    refine ⟨hs.change hst.change, hn.change hst.change, told ++ record.toList,
      List.append_assoc .., ?_⟩
    intro r hr
    obtain hr | hr := List.mem_append.mp hr
    · exact htold r hr
    · obtain rfl := Option.mem_toList.mp hr
      exact hst.not_mentions hs hn
  case prompt =>
    rintro s _ ⟨hs, hn, told, rfl, htold⟩
    refine ⟨hs, hn, told ++ [.prompt], List.append_assoc .., ?_⟩
    intro r hr
    obtain hr | hr := List.mem_append.mp hr
    · exact htold r hr
    · obtain rfl := List.mem_singleton.mp hr
      exact fun h => h

/-- Behind the record of a deletion nothing mentions the number. -/
theorem pairwise (h : Adapter.Moves Session.Step Engine.Any a b) (ha : a.session.Consistent)
    (hwritten : a.written = []) :
    b.written.Pairwise fun r r' => ∀ n, r.Deletes n → ¬ r'.Mentions n := by
  refine (h.invariant (I := fun s written => s.Consistent ∧
    (∀ r ∈ written, ∀ n, r.Deletes n → s.Retired n) ∧
    written.Pairwise fun r r' => ∀ n, r.Deletes n → ¬ r'.Mentions n) ?step ?prompt ?start).2.2
  case start =>
    rw [hwritten]
    exact ⟨ha, nofun, .nil⟩
  case step =>
    rintro s record t written ⟨hs, hretired, hpairwise⟩ hst
    refine ⟨hs.change hst.change, fun r hr n hdeletes => ?_, ?_⟩
    · obtain hr | hr := List.mem_append.mp hr
      · exact (hretired r hr n hdeletes).change hst.change
      · obtain rfl := Option.mem_toList.mp hr
        exact hst.retired_of_deletes hs hdeletes
    · refine List.pairwise_append.mpr ⟨hpairwise, ?_, fun r hr r' hr' n hdeletes => ?_⟩
      · cases record <;> simp
      · obtain rfl := Option.mem_toList.mp hr'
        exact hst.not_mentions hs (hretired r hr n hdeletes)
  case prompt =>
    rintro s written ⟨hs, hretired, hpairwise⟩
    refine ⟨hs, fun r hr n hdeletes => ?_, ?_⟩
    · obtain hr | hr := List.mem_append.mp hr
      · exact hretired r hr n hdeletes
      · obtain rfl := List.mem_singleton.mp hr
        cases hdeletes
    · refine List.pairwise_append.mpr ⟨hpairwise, List.pairwise_singleton _ _, ?_⟩
      intro r _ r' hr' _ _
      obtain rfl := List.mem_singleton.mp hr'
      exact fun h => h

end Adapter.Moves

/-! ## Commands on a retired number -/

/-- The numbers that a command names, in order. -/
def Command.numbers : Command → List Int
  | delete numbers | enable _ numbers => numbers
  | ignoreHits number _ | setCondition number _ => [number]
  | _ => []

namespace Act

variable [Engine σ] {a b : Adapter σ τ} {n : Nat}

/-- A retired number is not found. -/
theorem resolve_of_retired (ha : a.session.Consistent) (hn : a.session.Retired n)
    (argument : String) : resolve argument n a = .error (.stoppointNotFound n) a := by
  have hnarrow : Verb.narrow argument n = .ok n := by
    have hlt := (a.session.numbering.next - 1).toNat_lt
    have hle : n ≤ (a.session.numbering.next - 1).toNat := hn.2.1
    exact Verb.narrow_of_nat32? (Text.nat32?_eq_some_iff.mpr ⟨rfl, by omega⟩)
  have hnone : a.session.stoppoint? n = none := by
    cases hp : a.session.stoppoint? n with
    | none => rfl
    | some p => exact (hn.2.2 p.handle (ha.mapped n p hp)).elim
  rw [resolve, bind_of_ok (ofExcept_of_ok hnarrow a), bind_of_ok (session_apply a), hnone]
  rfl

/-- If the numbers in front of it are found, a list fails at a retired number. -/
theorem resolveAll_of_retired (hb : b.session.Consistent) (hn : b.session.Retired n)
    {argument : String} {numbers rest : List Int} {targets : List (Nat × Handle)}
    (h : resolveAll argument numbers a = .ok targets b) :
    resolveAll argument (numbers ++ (n : Int) :: rest) a = .error (.stoppointNotFound n) b := by
  induction numbers generalizing a targets with
  | nil =>
      cases h
      exact bind_of_error (resolve_of_retired hb hn argument) _
  | cons first numbers ih =>
      obtain ⟨target, c, hfirst, h⟩ := bind_eq_ok.mp h
      obtain ⟨others, d, hothers, h⟩ := bind_eq_ok.mp h
      cases h
      exact (bind_of_ok hfirst _).trans (bind_of_error (ih hothers) _)

/-- A command that names a retired number fails and does nothing. -/
theorem perform_of_retired [Sink τ] (hb : b.session.Consistent) (hn : b.session.Retired n)
    {command : Command} {numbers rest : List Int} {targets : List (Nat × Handle)}
    (hnumbers : command.numbers = numbers ++ (n : Int) :: rest)
    (h : resolveAll "breakpoint" numbers a = .ok targets b) :
    perform command a = .error (.stoppointNotFound n) b := by
  have hall : resolveAll "breakpoint" (numbers ++ (n : Int) :: rest) a =
      .error (.stoppointNotFound n) b := resolveAll_of_retired hb hn h
  -- A command on one number names no others.
  have hsingle : ∀ {number : Int}, [number] = numbers ++ (n : Int) :: rest →
      number = n ∧ a = b := by
    intro number heq
    obtain ⟨rfl, hrest⟩ | ⟨-, hnil⟩ := List.append_eq_singleton_iff.mp heq.symm
    · cases hrest
      cases h
      exact ⟨rfl, rfl⟩
    · cases hnil
  cases command with
  | delete _ | enable _ _ =>
      cases hnumbers
      exact bind_of_error hall _
  | ignoreHits number _ | setCondition number _ =>
      obtain ⟨rfl, rfl⟩ := hsingle hnumbers
      exact bind_of_error (resolve_of_retired hb hn _) _
  | _ => simp [Command.numbers] at hnumbers

end Act

/-! ## Moments -/

namespace Act

variable [Engine σ] [Sink τ]

/-- The adapters behind the notifications that a creation delivers, in order. -/
def behindDeliveries : Creation σ → Adapter σ τ → List (Adapter σ τ)
  | .finished _ _, _ => []
  | .deliver notification engine resume, a =>
    match (handle notification).attempt { a with engine } with
    | .ok outcome b => b :: behindDeliveries (resume outcome b.engine) b
    | .error _ _ => []

/-- The creation that a command starts. -/
def creationOf : Command → Act σ τ (Option (Creation σ))
  | .insert i => do return some (Engine.create (.breakpoint i.location) (← get).engine)
  | .watch w => do
    match ← ask (.watchTarget w.expression) with
    | .error _ => return none
    | .ok target =>
      return some (Engine.create (.watchpoint target w.read w.write) (← get).engine)
  | _ => return none

/-- The creation that a line starts, and the adapter at its beginning. -/
def creationAt (register : Register) (text : String) (a : Adapter σ τ) :
    Option (Creation σ × Adapter σ τ) :=
  match Line.parse text with
  | .ok (some line) =>
    match register.verb? line.verb with
    | some verb =>
      match (readCommand verb line.arguments >>= creationOf) a with
      | .ok (some creation) b => some (creation, b)
      | _ => none
    | none => none
  | _ => none

/-- The adapters in the course of the response to a stimulus: those behind the
notifications that the engine delivers while it creates a stoppoint. -/
def moments (register : Register) : Stimulus σ → Adapter σ τ → List (Adapter σ τ)
  | .line text, a =>
    match creationAt register text a with
    | some (creation, b) => behindDeliveries creation b
    | none => []
  | _, _ => []

/-- Moves lead to the adapter behind a delivery, and from there to the end of
the creation. -/
theorem moves_of_mem_behindDeliveries {S : Session → Option Record → Session → Prop}
    (hnews : ∀ (n : Notification) s r t, n.Step s r t → S s r t) {creation : Creation σ}
    {a m : Adapter σ τ} (h : m ∈ behindDeliveries creation a) :
    Adapter.Moves S Engine.Any a m ∧
      Adapter.Moves S Engine.Any m ((create.run creation).after a) := by
  induction creation generalizing a with
  | finished result engine => cases h
  | deliver notification engine resume ih =>
      let b := (handle notification).after { a with engine }
      obtain ⟨outcome, hattempt⟩ := attempt_eq_ok (handle notification) { a with engine }
      have hfirst : Adapter.Moves S Engine.Any a b :=
        .head (.engine trivial) ((walks_handle notification { a with engine }).mono
          (hnews notification) fun _ _ _ => trivial)
      have hrest : (create.run (.deliver notification engine resume)).after a =
          (create.run (resume outcome b.engine)).after b := by
        simp only [after, run_deliver hattempt, b]
      simp only [behindDeliveries, hattempt, List.mem_cons] at h
      rw [hrest]
      obtain rfl | h := h
      · exact ⟨hfirst, walks_run hnews _ b⟩
      · obtain ⟨hbefore, hbehind⟩ := ih outcome b.engine h
        exact ⟨hfirst.trans hbefore, hbehind⟩

/-- A command performs the creation that it starts. -/
theorem moves_perform_of_creationOf {command : Command} {creation : Creation σ}
    {a b m : Adapter σ τ} (h : creationOf command a = .ok (some creation) b)
    (hm : Adapter.Moves Session.StoppointStep Engine.Any m ((create.run creation).after b)) :
    Adapter.Moves Session.CommandStep Engine.Any m ((perform command).after a) := by
  suffices hstoppoint : Adapter.Moves Session.StoppointStep Engine.Any m
      ((perform command).after a) from
    hstoppoint.mono (fun _ _ _ => .stoppoints) fun _ _ h => h
  cases command with
  | insert i =>
      cases h
      have hend : Adapter.Moves Session.StoppointStep Engine.Any m
          ((create (.breakpoint i.location)).after a) := hm
      have hcreate : Adapter.Moves Session.StoppointStep Engine.Any m
          ((createBreakpoint i).after a) := moves_append hend walks_demand
      have hadopt : ∀ handle,
          Walks Session.StoppointStep Engine.Any (adopt i handle : Act σ τ Stoppoint) :=
        fun handle => walks_adopt .number fun _ _ state site hid => .insert hid i state site
      exact moves_append hcreate fun handle => (hadopt handle).bind fun _ => walks_pure _
  | watch w =>
      obtain ⟨answer, c, hask, h⟩ := bind_eq_ok.mp h
      have hcreate : Adapter.Moves Session.StoppointStep Engine.Any m
          ((createWatchpoint w).after a) := by
        rw [createWatchpoint, after_bind_of_ok hask]
        cases answer with
        | error cause => cases h
        | ok target =>
            cases h
            have hend : Adapter.Moves Session.StoppointStep Engine.Any m
                ((create (.watchpoint target w.read w.write)).after b) := hm
            exact moves_append hend walks_demand
      exact moves_append hcreate fun handle =>
        (walks_enroll .number fun _ _ state hid => .watch hid w state).bind fun _ => walks_pure _
  | _ => cases h

theorem walks_creationOf {S : Session → Option Record → Session → Prop} (command : Command) :
    Walks S Engine.Any (creationOf command : Act σ τ (Option (Creation σ))) := by
  cases command with
  | insert i => exact Walks.bind (fun _ => .refl) fun _ => walks_pure _
  | watch w =>
      refine (walks_askAny (.watchTarget w.expression)).bind fun answer => ?_
      cases answer with
      | error cause => exact walks_pure _
      | ok target => exact Walks.bind (fun _ => .refl) fun _ => walks_pure _
  | _ => exact walks_pure _

/-- The answer comes behind the run of the verb. -/
theorem moves_answerLine {register : Register} {text : String} {line : Line} {verb : Verb}
    {a m : Adapter σ τ} (hline : Line.parse text = .ok (some line))
    (hverb : register.verb? line.verb = some verb)
    (h : Adapter.Moves Session.CommandStep Engine.Any m ((runVerb verb line.arguments).after a)) :
    Adapter.Moves Session.CommandStep Engine.Any m ((answerLine register text).after a) := by
  have hattempt : Adapter.Moves Session.CommandStep Engine.Any m
      ((runVerb verb line.arguments).attempt.after a) := by rwa [after_attempt]
  have hrun : Adapter.Moves Session.CommandStep Engine.Any m
      ((runLine register line).after a) := by
    simp only [runLine, hverb]
    refine moves_append hattempt fun outcome => ?_
    cases outcome with
    | ok answer => exact walks_pure _
    | error e => exact (walks_say _ _).bind fun _ => walks_pure _
  simp only [answerLine, hline]
  exact moves_append hrun fun _ => walks_pure _

omit [Sink τ] in
/-- The creation that a line starts is that of the command that it asks for. -/
theorem creationAt_eq_some {register : Register} {text : String} {creation : Creation σ}
    {a b : Adapter σ τ} (h : creationAt register text a = some (creation, b)) :
    ∃ line verb command c, Line.parse text = .ok (some line) ∧
      register.verb? line.verb = some verb ∧ readCommand verb line.arguments a = .ok command c ∧
      creationOf command c = .ok (some creation) b := by
  unfold creationAt at h
  split at h
  · next line hline =>
    split at h
    · next verb hverb =>
      split at h
      · next creation' c hcreation =>
        obtain ⟨rfl, rfl⟩ := by simpa using h
        obtain ⟨command, d, hread, hcreation⟩ := bind_eq_ok.mp hcreation
        exact ⟨line, verb, command, d, hline, hverb, hread, hcreation⟩
      · cases h
    · cases h
  · cases h

/-- Up to its creation a line only asks. -/
theorem moves_up_to_creationAt {S : Session → Option Record → Session → Prop}
    {register : Register} {text : String} {creation : Creation σ} {a b : Adapter σ τ}
    (h : creationAt register text a = some (creation, b)) : Adapter.Moves S Engine.Any a b := by
  obtain ⟨line, verb, command, c, -, -, hread, hcreation⟩ := creationAt_eq_some h
  have hbefore := ((walks_readCommand (S := S) verb line.arguments).bind walks_creationOf) a
  rwa [after_bind_of_ok hread, after_of_ok hcreation] at hbefore

theorem moves_of_creationAt {register : Register} {text : String} {creation : Creation σ}
    {a b m : Adapter σ τ} (h : creationAt register text a = some (creation, b))
    (hm : Adapter.Moves Session.StoppointStep Engine.Any m ((create.run creation).after b)) :
    Adapter.Moves Session.Step Engine.Any m ((handleLine register text).after a) := by
  obtain ⟨line, verb, command, c, hline, hverb, hread, hcreation⟩ := creationAt_eq_some h
  have hrun : Adapter.Moves Session.CommandStep Engine.Any m
      ((runVerb verb line.arguments).after a) := by
    rw [runVerb, after_bind_of_ok hread]
    exact moves_append (moves_perform_of_creationOf hcreation hm) fun _ => walks_pure _
  exact moves_handleLine (moves_answerLine hline hverb hrun)

/-- Every moment of a response lies between its beginning and its end. -/
theorem moves_of_mem_moments {register : Register} {stimulus : Stimulus σ} {a m : Adapter σ τ}
    (h : m ∈ moments register stimulus a) :
    Adapter.Moves Session.Step Engine.Any a m ∧
      Adapter.Moves Session.Step Engine.Any m ((respond register stimulus).after a) := by
  cases stimulus with
  | line text =>
      simp only [moments] at h
      split at h
      · next creation b hcreation =>
        obtain ⟨hbefore, hbehind⟩ := moves_of_mem_behindDeliveries
          (S := Session.StoppointStep) (fun n _ _ _ => .notification n) h
        have hstart := moves_up_to_creationAt (S := Session.Step) hcreation
        have hend := moves_of_creationAt hcreation hbehind
        have hmoment : Adapter.Moves Session.Step Engine.Any b m :=
          hbefore.mono (fun _ _ _ h => .command (.stoppoints h)) fun _ _ h => h
        exact ⟨hstart.trans hmoment, moves_append hend fun _ => walks_pure _⟩
      · cases h
  | notification _ | engine _ => cases h

end Act

/-! ## Runs -/

/-- **A number that was removed never comes back.**  Over a whole run, no record
behind the record of a deletion mentions the number, so no deletion is told
twice.  At the end of any stimulus of the run, and at every moment in its
course, a number that a handle had before and that none has now is retired.
No record that is written behind a moment mentions a number that is retired
then, and a command that names it later, behind numbers that are found, is
answered with the error that it was not found. -/
theorem Adapter.retirement_of_run [Engine σ] [Sink τ] (config : Config) (engine : σ) (sink : τ)
    (register : Register) (before : List (Stimulus σ)) (stimulus : Stimulus σ)
    (later : List (Stimulus σ)) :
    let a := (Adapter.new config engine sink).run register before
    let b := (Act.respond register stimulus).after a
    let c := b.run register later
    (∀ n, c.written.Pairwise fun r r' => r.Deletes n → ¬ r'.Mentions n ∧ ¬ r'.Deletes n) ∧
    ∀ m ∈ b :: Act.moments register stimulus a, ∀ n,
      ((∃ handle, a.session.id? handle = some n) → (∀ handle, m.session.id? handle ≠ some n) →
        m.session.Retired n) ∧
      (m.session.Retired n →
        (∃ told, c.written = m.written ++ told ∧ ∀ record ∈ told, ¬ record.Mentions n) ∧
        ∀ text line verb command d numbers rest targets e,
          Line.parse text = .ok (some line) → register.verb? line.verb = some verb →
          Act.readCommand verb line.arguments c = .ok command d →
          command.numbers = numbers ++ (n : Int) :: rest →
          Act.resolveAll "breakpoint" numbers d = .ok targets e →
          ∃ f, Act.answerLine register text c = .ok (some (.error line.token
            (Error.inCommand line.verb (.stoppointNotFound n)).message)) f) := by
  intro a b c
  have hrun : ∀ {x y : Adapter σ τ}, Adapter.Moves Session.Step Engine.Any x y →
      x.session.Consistent → y.session.Consistent :=
    fun h hx => h.session_invariant (fun s t hs hst => hs.change hst.change) hx
  have hstart : Adapter.Moves Session.Step Engine.Any (Adapter.new config engine sink) a :=
    moves_run register _ before
  have ha : a.session.Consistent := hrun hstart (Session.consistent_new config)
  have hab : Adapter.Moves Session.Step Engine.Any a b := Act.walks_respond register stimulus a
  have hbc : Adapter.Moves Session.Step Engine.Any b c := moves_run register b later
  refine ⟨fun n => ?_, fun m hm n => ?_⟩
  · have hpairwise :=
      Moves.pairwise (hstart.trans (hab.trans hbc)) (Session.consistent_new config) rfl
    exact hpairwise.imp fun h hdeletes =>
      ⟨h n hdeletes, fun hagain => h n hdeletes hagain.mentions⟩
  obtain ⟨ham, hmc⟩ : Adapter.Moves Session.Step Engine.Any a m ∧
      Adapter.Moves Session.Step Engine.Any m c := by
    obtain rfl | hm := List.mem_cons.mp hm
    · exact ⟨hab, hbc⟩
    · obtain ⟨ham, hmb⟩ := Act.moves_of_mem_moments hm
      exact ⟨ham, hmb.trans hbc⟩
  constructor
  · rintro ⟨handle, hid⟩ hnone
    have hgiven := ham.session_invariant
      (I := fun s => a.session.numbering.given ≤ s.numbering.given)
      (fun s t hs hst => Nat.le_trans hs hst.change.given_le) (Nat.le_refl _)
    exact ha.retired hid hgiven hnone
  · intro hn
    have hm := hrun ham ha
    obtain ⟨hretired, htold⟩ := Moves.retired hmc hm hn
    refine ⟨htold, fun text line verb command d numbers rest targets e hline hverb hread
      hnumbers hresolve => ?_⟩
    have hsession : e.session = c.session := by
      have hd := ((Act.walks_readCommand verb line.arguments).same c).1
      rw [Act.after_of_ok hread] at hd
      exact ((Act.walks_resolveAll "breakpoint" numbers).session_of_ok hresolve).trans hd
    have hperform : Act.perform command d = .error (.stoppointNotFound n) e := by
      rw [← hsession] at hretired
      exact Act.perform_of_retired (hsession ▸ hrun hmc hm) hretired hnumbers hresolve
    have hverbfails : Act.runVerb verb line.arguments c = .error (.stoppointNotFound n) e :=
      (Act.bind_of_ok hread _).trans (Act.bind_of_error hperform _)
    exact ⟨_, Act.answerLine_of_error hline hverb hverbfails⟩

/-- Number 1 of a table is retired when its breakpoint is deleted. -/
theorem Table.retirement_of_run_table :
    let a := (Adapter.new {} ({} : Table) Discard.discard).run .standard
      [.line "break-insert main"]
    let b := (Act.respond .standard (.line "break-delete 1")).after a
    let c := b.run .standard [.line "break-insert main"]
    b.session.Retired 1 ∧
    (∃ told, c.written = b.written ++ told ∧ ∀ record ∈ told, ¬ record.Mentions 1) ∧
    ∃ f, Act.answerLine .standard "7-break-enable 1 2" c = .ok (some (.error (some "7")
      (Error.inCommand "break-enable" (.stoppointNotFound 1)).message)) f := by
  intro a b c
  obtain ⟨-, hmoment⟩ := Adapter.retirement_of_run {} ({} : Table) Discard.discard .standard
    [.line "break-insert main"] (.line "break-delete 1") [.line "break-insert main"]
  obtain ⟨hretires, hretired⟩ := hmoment b List.mem_cons_self 1
  have hnone : b.session.numbering.handle? 1 = none := by decide +kernel
  have hvalid : b.session.numbering.Valid :=
    (Adapter.consistent_run {} ({} : Table) Discard.discard .standard
      [.line "break-insert main", .line "break-delete 1"]).1.valid
  have hfirst : b.session.Retired 1 := by
    refine hretires ⟨⟨1, .breakpoint⟩, by decide +kernel⟩ fun handle hid => ?_
    rw [(hvalid.id_iff handle 1).mp hid] at hnone
    cases hnone
  obtain ⟨htold, hanswer⟩ := hretired hfirst
  have hline : Line.parse "7-break-enable 1 2" =
      .ok (some ⟨some "7", "break-enable", "1 2"⟩) := rfl
  have htokens : Text.tokens "1 2" = ["1", "2"] := by decide +kernel
  have hread : Act.readCommand .breakEnable "1 2" c = .ok (.enable true [1, 2]) c := by
    simp only [Act.readCommand, htokens]
    rfl
  exact ⟨hfirst, htold, hanswer _ _ .breakEnable _ c [] [2] [] c hline rfl hread rfl rfl⟩

end MachineInterface
