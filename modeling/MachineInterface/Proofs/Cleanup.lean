import MachineInterface.Proofs.Commands

/-!
# MachineInterface.Proofs.Cleanup

What a failed insertion leaves behind.  An insertion creates a stoppoint first
and sets it up, numbers and records it afterwards.  If that fails because the
place is not resolved or because no number is left, the stoppoint is deleted
again; if the engine fails, it stays.  `cleanedUp_iff` says exactly when nothing
is left; `stoppoint_left_behind` is a run in which something is.
-/

namespace MachineInterface

variable {σ τ α β : Type}

/-! ## Accounts -/

/-- The stoppoint that a request is to delete. -/
def Request.deleted? : Request → Option Handle
  | deleteStoppoint handle => some handle
  | _ => none

/-- An engine with an account of the stoppoints that it has created and of those
that it was asked to delete. -/
structure Audited (σ : Type) where
  engine : σ
  created : List Handle := []
  deleted : List Handle := []

namespace Audited

/-- A creation whose outcome is put on the account. -/
def creation (created deleted : List Handle) : Creation σ → Creation (Audited σ)
  | .finished (.ok handle) engine => .finished (.ok handle) ⟨engine, created ++ [handle], deleted⟩
  | .finished (.error cause) engine => .finished (.error cause) ⟨engine, created, deleted⟩
  | .deliver notification engine resume =>
    .deliver notification ⟨engine, created, deleted⟩ fun outcome audited =>
      creation audited.created audited.deleted (resume outcome audited.engine)

instance [Engine σ] : Engine (Audited σ) where
  answer request audited :=
    let (answer, engine) := Engine.answer request audited.engine
    (answer, { audited with engine, deleted := audited.deleted ++ request.deleted?.toList })
  create placement audited :=
    creation audited.created audited.deleted (Engine.create placement audited.engine)

end Audited

/-- An adapter at whose engine an account is opened. -/
def Adapter.audited (a : Adapter σ τ) : Adapter (Audited σ) τ :=
  { a with engine := { engine := a.engine } }

/-- The session knows nothing of a handle. -/
def Session.Lacks (s : Session) (handle : Handle) : Prop :=
  s.id? handle = none ∧ ∀ id p, s.stoppoint? id = some p → p.handle ≠ handle

/-- The engine was asked to delete the stoppoint, and the session knows nothing
of it. -/
def Adapter.CleanedUp (handle : Handle) (a : Adapter (Audited σ) τ) : Prop :=
  handle ∈ a.engine.deleted ∧ a.session.Lacks handle

/-- The failures behind which an insertion deletes its stoppoint. -/
def Error.isUndone : Error → Prop
  | locationNotFound _ | idsExhausted _ => True
  | _ => False

namespace Act

variable [Engine σ]

/-! ## Creation -/

/-- A request that deletes nothing leaves the account as it is. -/
theorem account_of_asked {Q : Request → Prop}
    (hQ : ∀ request, Q request → request.deleted? = none) {e f : Audited σ}
    (h : Engine.Asked Q e f) : f.created = e.created ∧ f.deleted = e.deleted := by
  obtain ⟨request, hrequest, rfl⟩ := h
  have hnone := hQ request hrequest
  change e.created = _ ∧ e.deleted ++ request.deleted?.toList = _
  rw [hnone, Option.toList_none, List.append_nil]
  exact ⟨rfl, rfl⟩

theorem account_of_moves [Sink τ] {S : Session → Option Record → Session → Prop}
    {Q : Request → Prop} (hQ : ∀ request, Q request → request.deleted? = none)
    {a b : Adapter (Audited σ) τ} (h : Adapter.Moves S (Engine.Asked Q) a b) :
    b.engine.created = a.engine.created ∧ b.engine.deleted = a.engine.deleted := by
  refine h.engine_invariant
    (I := fun e => e.created = a.engine.created ∧ e.deleted = a.engine.deleted) ?_ ⟨rfl, rfl⟩
  rintro e f ⟨hcreated, hdeleted⟩ hasked
  obtain ⟨hcreated', hdeleted'⟩ := account_of_asked hQ hasked
  exact ⟨hcreated'.trans hcreated, hdeleted'.trans hdeleted⟩

theorem deleted?_of_isInquiry {request : Request} (h : request.isInquiry) :
    request.deleted? = none := by
  cases request <;> first | rfl | exact h.elim

theorem deleted?_of_isSetting {request : Request} (h : request.isSetting) :
    request.deleted? = none := by
  cases request <;> first | rfl | exact h.elim

/-- The step creates the stoppoint whose handle it gives, and otherwise leaves
the account as it is. -/
def Creates (step : Act (Audited σ) τ Handle) : Prop :=
  ∀ a, (∃ handle b, step a = .ok handle b ∧
      b.engine.created = a.engine.created ++ [handle] ∧ b.engine.deleted = a.engine.deleted) ∨
    ∃ e b, step a = .error e b ∧
      b.engine.created = a.engine.created ∧ b.engine.deleted = a.engine.deleted

variable [Sink τ]

/-- The notifications that a creation delivers ask for no deletion. -/
theorem creates_run (course : Creation σ) (created deleted : List Handle)
    (a : Adapter (Audited σ) τ) :
    ∃ result b, create.run (Audited.creation created deleted course) a = .ok result b ∧
      b.engine.created = created ++ result.toOption.toList ∧ b.engine.deleted = deleted := by
  induction course generalizing created deleted a with
  | finished result engine =>
      cases result with
      | ok handle => exact ⟨_, _, rfl, rfl, rfl⟩
      | error cause => exact ⟨_, _, rfl, (List.append_nil created).symm, rfl⟩
  | deliver notification engine resume ih =>
      let start : Adapter (Audited σ) τ := { a with engine := ⟨engine, created, deleted⟩ }
      have hmoves := (walks_handle notification).attempt start
      obtain ⟨outcome, hattempt⟩ := attempt_eq_ok (handle notification) start
      rw [after_of_ok hattempt] at hmoves
      obtain ⟨hcreated, hdeleted⟩ := account_of_moves (fun _ => deleted?_of_isInquiry) hmoves
      let c := (handle notification).after start
      obtain ⟨result, b, hrun, hb⟩ :=
        ih outcome c.engine.engine c.engine.created c.engine.deleted c
      rw [hcreated, hdeleted] at hb
      exact ⟨result, b, (run_deliver hattempt).trans hrun, hb⟩

theorem creates_create (placement : Placement) :
    Creates (do demand (← create placement) : Act (Audited σ) τ Handle) := by
  intro a
  obtain ⟨result, b, hrun, hb⟩ :=
    creates_run (Engine.create placement a.engine.engine) a.engine.created a.engine.deleted a
  have hcreate : create placement a = .ok result b := hrun
  rw [bind_of_ok hcreate]
  cases result with
  | ok handle => exact .inl ⟨handle, b, rfl, hb⟩
  | error cause => exact .inr ⟨_, b, rfl, by rw [hb.1]; exact List.append_nil _, hb.2⟩

theorem creates_createWatchpoint (w : Watch) :
    Creates (createWatchpoint w : Act (Audited σ) τ Handle) := by
  intro a
  let b : Adapter (Audited σ) τ :=
    { a with engine := (Engine.answer (.watchTarget w.expression) a.engine).2 }
  have hask : ask (.watchTarget w.expression) a =
      .ok (Engine.answer (.watchTarget w.expression) a.engine).1 b := rfl
  have hb : b.engine.created = a.engine.created ∧ b.engine.deleted = a.engine.deleted :=
    ⟨rfl, List.append_nil _⟩
  rw [createWatchpoint, bind_of_ok hask, ← hb.1, ← hb.2]
  cases (Engine.answer (.watchTarget w.expression) a.engine).1 with
  | error cause => exact .inr ⟨_, b, rfl, rfl, rfl⟩
  | ok target => exact creates_create (.watchpoint target w.read w.write) b

omit [Sink τ]

/-! ## Failures behind the creation -/

/-- If the step fails, either it has asked for the deletion of the stoppoint and
left the session alone, or it has asked for no deletion. -/
def Undoes (handle : Handle) (step : Act (Audited σ) τ α) : Prop :=
  ∀ a e b, step a = .error e b → b.engine.created = a.engine.created ∧
    ((e.isUndone ∧ b.session = a.session ∧ handle ∈ b.engine.deleted) ∨
      (¬ e.isUndone ∧ b.engine.deleted = a.engine.deleted))

/-- Behind a step that asks for no deletion, the session and the account are as
before. -/
theorem Asks.same {step : Act (Audited σ) τ α} (h : Asks (·.deleted? = none) step)
    (a : Adapter (Audited σ) τ) :
    (step.after a).session = a.session ∧ (step.after a).engine.created = a.engine.created ∧
      (step.after a).engine.deleted = a.engine.deleted := by
  obtain ⟨engine, hasked, hafter⟩ := h.after_eq a
  rw [hafter]
  refine ⟨rfl, ?_⟩
  clear hafter
  induction hasked with
  | refl => exact ⟨rfl, rfl⟩
  | tail _ hlast ih =>
      obtain ⟨hcreated, hdeleted⟩ := account_of_asked (fun _ h => h) hlast
      exact ⟨hcreated.trans ih.1, hdeleted.trans ih.2⟩

/-- Steps that ask for no deletion may come first. -/
theorem Asks.undoes_bind {handle : Handle} {step : Act (Audited σ) τ α}
    {next : α → Act (Audited σ) τ β} (hstep : Asks (·.deleted? = none) step)
    (hnext : ∀ v, Undoes handle (next v)) : Undoes handle (step >>= next) := by
  intro a e c h
  have hsame := hstep.same a
  obtain h | ⟨v, b, hok, h⟩ := bind_eq_error.mp h
  · rw [after_of_error h] at hsame
    exact ⟨hsame.2.1, .inr ⟨hstep.failsBy (P := (¬ ·.isUndone)) (fun _ h => h) a e c h, hsame.2.2⟩⟩
  · rw [after_of_ok hok] at hsame
    have hc := hnext v b e c h
    rwa [hsame.1, hsame.2.1, hsame.2.2] at hc

/-- Deleting a stoppoint puts it on the account and changes nothing in the session. -/
theorem discard_audited (handle : Handle) (topic : String) (a : Adapter (Audited σ) τ) :
    ∃ b, discard handle topic a = .ok () b ∧ b.session = a.session ∧
      b.engine.created = a.engine.created ∧ b.engine.deleted = a.engine.deleted ++ [handle] := by
  let b : Adapter (Audited σ) τ :=
    { a with engine := (Engine.answer (.deleteStoppoint handle) a.engine).2 }
  have hask : ask (.deleteStoppoint handle) a =
      .ok (Engine.answer (.deleteStoppoint handle) a.engine).1 b := rfl
  rw [discard, bind_of_ok hask]
  cases (Engine.answer (.deleteStoppoint handle) a.engine).1 with
  | ok _ => exact ⟨b, rfl, rfl, rfl, rfl⟩
  | error cause => exact ⟨_, rfl, rfl, rfl, rfl⟩

/-- A stoppoint whose place or number is missing is deleted. -/
theorem undoes_discard {handle : Handle} {topic : String} {e : Error} (he : e.isUndone) :
    Undoes handle (do discard handle topic; throw e : Act (Audited σ) τ α) := by
  intro a e' c h
  obtain ⟨b, hdiscard, hsession, hcreated, hdeleted⟩ := discard_audited handle topic a
  rw [bind_of_ok hdiscard] at h
  cases h
  rw [hcreated, hdeleted]
  exact ⟨rfl, .inl ⟨he, hsession, by simp⟩⟩

theorem undoes_enroll (handle : Handle) (stoppoint : Nat → String → StoppointState → Stoppoint) :
    Undoes handle (enroll handle stoppoint : Act (Audited σ) τ Stoppoint) := by
  intro a e c h
  rw [enroll] at h
  cases hnumber : a.session.number handle with
  | error e' =>
      obtain ⟨b, hdiscard, hsession, hcreated, hdeleted⟩ :=
        discard_audited handle "delete stoppoint without protocol id:" a
      have hfail : numberOrDiscard handle a = .error e' b := by
        rw [numberOrDiscard_apply, hnumber, after_of_ok hdiscard]
      rw [bind_of_error hfail] at h
      cases h
      obtain ⟨-, rfl⟩ := Session.number_error hnumber
      rw [hcreated, hdeleted]
      exact ⟨rfl, .inl ⟨trivial, hsession, by simp⟩⟩
  | ok r =>
      have hnumbered : numberOrDiscard handle a = .ok r.1 { a with session := r.2 } := by
        rw [numberOrDiscard_apply, hnumber]
      rw [bind_of_ok hnumbered] at h
      have hread : Asks (·.deleted? = none) (do demand (← ask (.stoppointState handle)) :
          Act (Audited σ) τ StoppointState) :=
        Asks.bind (.ask rfl) fun r => .demand r
      have hsame := hread.same { a with session := r.2 }
      -- Only the question for the state can fail: the record is written without a question.
      have hfail : (do demand (← ask (.stoppointState handle)) : Act (Audited σ) τ StoppointState)
          { a with session := r.2 } = .error e c := by
        obtain h | ⟨v, b, hask, h⟩ := bind_eq_error.mp h
        · cases h
        · obtain h | ⟨state, d, -, h⟩ := bind_eq_error.mp h
          · exact bind_eq_error.mpr (.inr ⟨v, b, hask, h⟩)
          · cases h
      rw [after_of_error hfail] at hsame
      exact ⟨hsame.2.1, .inr ⟨hread.failsBy (P := (¬ ·.isUndone)) (fun _ h => h) _ _ _ hfail,
        hsame.2.2⟩⟩

theorem undoes_adopt (i : Insertion) (handle : Handle) :
    Undoes handle (adopt i handle : Act (Audited σ) τ Stoppoint) := by
  refine Asks.undoes_bind (.ask rfl) fun r => Asks.undoes_bind (.demand r) fun site => ?_
  by_cases hplace : (!i.pending && site.locations = 0) = true
  · rw [if_pos hplace]
    exact undoes_discard trivial
  · rw [if_neg hplace]
    have hconfigure := (asks_configure handle i).mono (σ := Audited σ) (τ := τ)
      fun _ => deleted?_of_isSetting
    exact hconfigure.undoes_bind fun _ => undoes_enroll handle _

omit [Engine σ] in
/-- What cannot fail may follow. -/
theorem Undoes.bind_pure {handle : Handle} {step : Act (Audited σ) τ α} (h : Undoes handle step)
    (f : α → β) : Undoes handle (do return f (← step)) :=
  fun a e c hc => h a e c (bind_pure_eq_error.mp hc)

/-! ## Failed insertions -/

omit [Engine σ] in
/-- Nothing is left of a stoppoint exactly if the failure behind its creation
makes up for it and its creation has left no trace in the session. -/
theorem cleanedUp_of_creates {create : Act (Audited σ) τ Handle}
    {finish : Handle → Act (Audited σ) τ α} (hcreate : Creates create)
    (hfinish : ∀ handle, Undoes handle (finish handle)) {a b : Adapter (Audited σ) τ} {e : Error}
    (hcreated : a.engine.created = []) (hdeleted : a.engine.deleted = [])
    (h : (create >>= finish) a = .error e b) :
    ∀ handle ∈ b.engine.created, ∃ c, create a = .ok handle c ∧
      (b.CleanedUp handle ↔ e.isUndone ∧ c.session.Lacks handle) := by
  intro handle hhandle
  obtain ⟨handle', c, hok, hc⟩ | ⟨e', b', hfail, hb⟩ := hcreate a
  · rw [bind_of_ok hok] at h
    rw [hcreated, hdeleted, List.nil_append] at hc
    obtain ⟨hb, hundone⟩ := hfinish handle' c e b h
    obtain rfl : handle = handle' := by
      rw [hb, hc.1] at hhandle
      exact List.mem_singleton.mp hhandle
    refine ⟨c, hok, ?_⟩
    obtain ⟨he, hsession, hmem⟩ | ⟨he, hnone⟩ := hundone
    · rw [Adapter.CleanedUp, hsession]
      exact ⟨fun h => ⟨he, h.2⟩, fun h => ⟨hmem, h.2⟩⟩
    · constructor
      · rintro ⟨hmem, -⟩
        rw [hnone, hc.2] at hmem
        cases hmem
      · exact fun h => (he h.1).elim
  · rw [bind_of_error hfail] at h
    cases h
    rw [hb.1, hcreated] at hhandle
    cases hhandle

variable [Sink τ]

theorem cleanedUp_of_perform {command : Command}
    (hcommand : (∃ i, command = .insert i) ∨ ∃ w, command = .watch w)
    {a b : Adapter (Audited σ) τ} {e : Error}
    (hcreated : a.engine.created = []) (hdeleted : a.engine.deleted = [])
    (h : perform command a = .error e b) :
    ∀ handle ∈ b.engine.created, ∃ c, begin command a = .ok (some handle) c ∧
      (b.CleanedUp handle ↔ e.isUndone ∧ c.session.Lacks handle) := by
  intro handle hhandle
  obtain ⟨i, rfl⟩ | ⟨w, rfl⟩ := hcommand
  · obtain ⟨c, hcreate, hiff⟩ := cleanedUp_of_creates (creates_create (.breakpoint i.location))
      (fun handle => (undoes_adopt i handle).bind_pure _) hcreated hdeleted h handle hhandle
    exact ⟨c, bind_of_ok hcreate _, hiff⟩
  · obtain ⟨c, hcreate, hiff⟩ := cleanedUp_of_creates (creates_createWatchpoint w)
      (fun handle => (undoes_enroll handle (watchedStoppoint w handle)).bind_pure _)
      hcreated hdeleted h handle hhandle
    exact ⟨c, bind_of_ok hcreate _, hiff⟩

/-- **Failed insertions**: when the answer to an insertion is an error, nothing
is left of a stoppoint that the engine has created for it if and only if the
failure is a place that is not resolved or a lack of numbers, and no
notification during the creation has made the stoppoint known to the session. -/
theorem cleanedUp_iff {register : Register} {text : String} {line : Line} {verb : Verb}
    {a : Adapter σ τ} {b : Adapter (Audited σ) τ} {record : ResultRecord}
    (hline : Line.parse text = .ok (some line)) (hverb : register.verb? line.verb = some verb)
    (hinsertion : verb = .breakInsert ∨ verb = .breakWatch)
    (h : handleLine register text a.audited = .ok (some record) b)
    (herror : record.resultClass = .error) :
    ∃ e, record = .error line.token (Error.inCommand line.verb e).message ∧
      ∀ handle ∈ b.engine.created, ∃ c,
        upToCreation verb line.arguments a.audited = .ok (some handle) c ∧
        (b.CleanedUp handle ↔ e.isUndone ∧ c.session.Lacks handle) := by
  obtain ⟨d, ⟨hsession, hengine⟩, hrun⟩ := handleLine_eq_ok hline hverb h
  obtain ⟨resultClass, results, hok, rfl⟩ | ⟨e, hfail, rfl⟩ := hrun
  · -- A verb that succeeds does not answer with an error.
    obtain ⟨command, f, -, hperform⟩ := bind_eq_ok.mp hok
    obtain ⟨_, g, -, hanswer⟩ := bind_eq_ok.mp hperform
    cases hanswer
    cases command <;> cases herror
  · refine ⟨e, rfl, fun handle hhandle => ?_⟩
    rw [Adapter.CleanedUp, hsession, hengine]
    rw [hengine] at hhandle
    obtain hread | ⟨command, f, hread, hperform⟩ := bind_eq_error.mp hfail
    · -- Behind a line that cannot be read no stoppoint is created.
      have hsame := (walks_readCommand verb line.arguments).same a.audited
      rw [after_of_error hread] at hsame
      rw [hsame.2] at hhandle
      cases hhandle
    · have hsame := (walks_readCommand verb line.arguments).same a.audited
      rw [after_of_ok hread] at hsame
      obtain ⟨values, rest, hcommand⟩ := readCommand_eq_ok hread
      have hcreates := Verb.command_of_insertion hinsertion hcommand
      obtain ⟨c, hbegin, hiff⟩ := cleanedUp_of_perform hcreates
        (congrArg Audited.created hsame.2) (congrArg Audited.deleted hsame.2)
        (bind_pure_eq_error.mp hperform) handle hhandle
      exact ⟨c, (bind_of_ok hread _).trans hbegin, hiff⟩

end Act

/-! ## A stoppoint that is left behind -/

/-- An engine that creates breakpoint 1 at a place and then refuses to set it
up. -/
inductive Stubborn
  | stubborn

instance : Engine Stubborn where
  answer
    | .site _, engine => (.ok { locations := 1 }, engine)
    | request, engine => (request.refused, engine)
  create _ engine := .finished (.ok ⟨1, .breakpoint⟩) engine

namespace Stubborn

/-- A new adapter at the stubborn engine. -/
def adapter : Adapter Stubborn Discard := .new {} .stubborn .discard

/-- The breakpoint is created and not deleted when its line is answered with an
error. -/
theorem answers_error : Act.answersWith (Act.handleLine .standard "break-insert main")
    adapter.audited (fun record b => record.resultClass = .error &&
      b.engine.created = [⟨1, .breakpoint⟩] && b.engine.deleted = []) = true := by
  decide +kernel

/-- Not every failed insertion cleans up: the engine keeps a breakpoint that it
has created and that it was never asked to delete. -/
theorem stoppoint_left_behind :
    ∃ record b, Act.handleLine .standard "break-insert main" adapter.audited =
        .ok (some record) b ∧
      record.resultClass = .error ∧ ⟨1, .breakpoint⟩ ∈ b.engine.created ∧
      ¬ b.CleanedUp ⟨1, .breakpoint⟩ := by
  obtain ⟨record, b, h, hcheck⟩ := Act.exists_of_answersWith answers_error
  simp only [Bool.and_eq_true, decide_eq_true_eq] at hcheck
  obtain ⟨⟨herror, hcreated⟩, hdeleted⟩ := hcheck
  have hmem : (⟨1, .breakpoint⟩ : Handle) ∈ b.engine.created := by
    rw [hcreated]
    exact List.mem_singleton.mpr rfl
  have hleft : ¬ b.CleanedUp ⟨1, .breakpoint⟩ := by
    rintro ⟨hmem, -⟩
    rw [hdeleted] at hmem
    cases hmem
  exact ⟨record, b, h, herror, hmem, hleft⟩

/-- The stubborn engine's breakpoint stays because the failure is the engine's. -/
theorem cleanedUp_iff_stubborn :
    ∃ record b e c,
      Act.handleLine .standard "break-insert main" adapter.audited = .ok (some record) b ∧
      record = .error none (Error.inCommand "break-insert" e).message ∧
      Act.upToCreation .breakInsert "main" adapter.audited = .ok (some ⟨1, .breakpoint⟩) c ∧
      (b.CleanedUp ⟨1, .breakpoint⟩ ↔ e.isUndone ∧ c.session.Lacks ⟨1, .breakpoint⟩) := by
  obtain ⟨record, b, h, hcheck⟩ := Act.exists_of_answersWith answers_error
  simp only [Bool.and_eq_true, decide_eq_true_eq] at hcheck
  obtain ⟨⟨herror, hcreated⟩, hdeleted⟩ := hcheck
  have hline : Line.parse "break-insert main" = .ok (some ⟨none, "break-insert", "main"⟩) := rfl
  have hverb : Register.standard.verb? "break-insert" = some .breakInsert := rfl
  obtain ⟨e, hrecord, hall⟩ := Act.cleanedUp_iff hline hverb (.inl rfl) h herror
  have hmem : (⟨1, .breakpoint⟩ : Handle) ∈ b.engine.created := by
    rw [hcreated]
    exact List.mem_singleton.mpr rfl
  obtain ⟨c, hcreate, hiff⟩ := hall _ hmem
  exact ⟨record, b, e, c, h, hrecord, hcreate, hiff⟩

end Stubborn

end MachineInterface
