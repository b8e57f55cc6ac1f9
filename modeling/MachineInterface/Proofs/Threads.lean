import MachineInterface.Proofs.Answers

/-!
# MachineInterface.Proofs.Threads

A client that reads what is written about threads knows the threads of the
program.  Nothing but the handling of a stop or an exit tells it about threads
(`Act.Quiet`), a stop takes it from the threads that it knows to those that the
engine has (`Act.syncThreads_eq`), and so it does at every notification of a run
(`Adapter.thread_view_of_arrivals`).
-/

namespace MachineInterface

variable {σ τ α β : Type}

/-! ## What the client reads -/

/-- What a record tells about a thread, whose number it gives as a text. -/
inductive ThreadNews
  | created (id : String)
  | exited (id : String)
  | selected (id : String)
deriving DecidableEq, Repr

/-- The text of a field, empty if there is none. -/
def Results.textOf (results : Results) (name : String) : String :=
  match results.get? name with
  | some (.const text) => text
  | _ => ""

def Record.threadNews? : Record → Option ThreadNews
  | async ⟨.threadCreated, results⟩ => some (.created (results.textOf "id"))
  | async ⟨.threadExited, results⟩ => some (.exited (results.textOf "id"))
  | async ⟨.threadSelected, results⟩ => some (.selected (results.textOf "id"))
  | _ => none

theorem created_threadNews? (results : Results) :
    (Record.async ⟨.threadCreated, results⟩).threadNews? =
      some (.created (results.textOf "id")) :=
  rfl

theorem exited_threadNews? (results : Results) :
    (Record.async ⟨.threadExited, results⟩).threadNews? =
      some (.exited (results.textOf "id")) :=
  rfl

namespace ThreadNews

/-- The threads that a client has behind the news.  It never adds a thread that
it has, nor removes one that it lacks. -/
def follow (known : Std.ExtTreeSet String) : ThreadNews → Option (Std.ExtTreeSet String)
  | created id => if id ∈ known then none else some (known.insert id)
  | exited id => if id ∈ known then some (known.erase id) else none
  | selected _ => some known

/-- The threads that a client has behind several news. -/
def followAll (known : Std.ExtTreeSet String) (news : List ThreadNews) :
    Option (Std.ExtTreeSet String) :=
  news.foldlM follow known

@[simp] theorem followAll_append (known : Std.ExtTreeSet String) (news more : List ThreadNews) :
    followAll known (news ++ more) = (followAll known news).bind (followAll · more) := by
  simp only [followAll, List.foldlM_append]
  rfl

/-- New threads are added. -/
theorem followAll_created {ids : List String} (hnodup : ids.Nodup) {known : Std.ExtTreeSet String}
    (hnew : ∀ id ∈ ids, id ∉ known) :
    ∃ next, followAll known (ids.map created) = some next ∧
      ∀ id, id ∈ next ↔ id ∈ known ∨ id ∈ ids := by
  induction ids generalizing known with
  | nil => exact ⟨known, rfl, by simp⟩
  | cons id ids ih =>
      obtain ⟨hid, hnodup⟩ := List.nodup_cons.mp hnodup
      have hfirst : follow known (created id) = some (known.insert id) :=
        if_neg (hnew id List.mem_cons_self)
      have hnext : ∀ other ∈ ids, other ∉ known.insert id := by
        intro other hother
        simp only [Std.ExtTreeSet.mem_insert, Std.LawfulEqCmp.compare_eq_iff_eq, not_or]
        exact ⟨fun heq => hid (heq ▸ hother), hnew other (List.mem_cons_of_mem id hother)⟩
      obtain ⟨next, hfollow, hmem⟩ := ih hnodup hnext
      refine ⟨next, ?_, fun other => ?_⟩
      · rw [List.map_cons, followAll, List.foldlM_cons, hfirst]
        exact hfollow
      · rw [hmem]
        simp only [Std.ExtTreeSet.mem_insert, Std.LawfulEqCmp.compare_eq_iff_eq, List.mem_cons]
        grind

/-- Threads that are known are removed. -/
theorem followAll_exited {ids : List String} (hnodup : ids.Nodup) {known : Std.ExtTreeSet String}
    (hknown : ∀ id ∈ ids, id ∈ known) :
    ∃ next, followAll known (ids.map exited) = some next ∧
      ∀ id, id ∈ next ↔ id ∈ known ∧ id ∉ ids := by
  induction ids generalizing known with
  | nil => exact ⟨known, rfl, by simp⟩
  | cons id ids ih =>
      obtain ⟨hid, hnodup⟩ := List.nodup_cons.mp hnodup
      have hfirst : follow known (exited id) = some (known.erase id) :=
        if_pos (hknown id List.mem_cons_self)
      have hnext : ∀ other ∈ ids, other ∈ known.erase id := by
        intro other hother
        simp only [Std.ExtTreeSet.mem_erase, Std.LawfulEqCmp.compare_eq_iff_eq, ne_eq]
        exact ⟨fun heq => hid (heq ▸ hother), hknown other (List.mem_cons_of_mem id hother)⟩
      obtain ⟨next, hfollow, hmem⟩ := ih hnodup hnext
      refine ⟨next, ?_, fun other => ?_⟩
      · rw [List.map_cons, followAll, List.foldlM_cons, hfirst]
        exact hfollow
      · rw [hmem]
        simp only [Std.ExtTreeSet.mem_erase, Std.LawfulEqCmp.compare_eq_iff_eq, ne_eq,
          List.mem_cons]
        grind

end ThreadNews

/-! ## Views -/

/-- Threads as the client knows them. -/
def threadIds (threads : Std.ExtTreeSet Nat) : Std.ExtTreeSet String :=
  .ofList (threads.toList.map toString)

theorem mem_threadIds {threads : Std.ExtTreeSet Nat} {id : String} :
    id ∈ threadIds threads ↔ ∃ thread ∈ threads, toString thread = id := by
  simp [threadIds]

theorem threadIds_ofList (threads : List Nat) :
    threadIds (.ofList threads) = .ofList (threads.map toString) := by
  apply Std.ExtTreeSet.ext_mem
  simp [mem_threadIds]

/-- The texts of the threads with a property, in ascending order of the threads. -/
def idsWhere (p : Nat → Bool) (threads : Std.ExtTreeSet Nat) : List String :=
  (threads.toList.filter p).map toString

theorem mem_idsWhere {p : Nat → Bool} {threads : Std.ExtTreeSet Nat} {id : String} :
    id ∈ idsWhere p threads ↔ ∃ thread ∈ threads, p thread = true ∧ toString thread = id := by
  simp [idsWhere, and_assoc]

theorem nodup_idsWhere (p : Nat → Bool) (threads : Std.ExtTreeSet Nat) :
    (idsWhere p threads).Nodup := by
  have hnodup : threads.toList.Nodup :=
    Std.ExtTreeSet.distinct_toList.imp fun h => by simpa using h
  exact List.Pairwise.map toString (fun m n hne h => hne (Nat.repr_inj.mp h)) (hnodup.filter p)

namespace ThreadView

/-- What the client is told when the threads that it knows become `live`. -/
def changes (known live : Std.ExtTreeSet Nat) : List ThreadNews :=
  (idsWhere (· ∉ known) live).map .created ++ (idsWhere (· ∉ live) known).map .exited

/-- What the client is told about the selection; `last` is the one before. -/
def selectionNews (last selected : Option Nat) : List ThreadNews :=
  match selected with
  | none => []
  | some thread => if last = some thread then [] else [.selected (toString thread)]

/-- When no threads are left, all that are known have ended. -/
theorem changes_empty (known : Std.ExtTreeSet Nat) :
    changes known ∅ = (known.toList.map toString).map .exited := by
  have hnone : (∅ : Std.ExtTreeSet Nat).toList = [] := by simp
  have hgone : known.toList.filter (· ∉ (∅ : Std.ExtTreeSet Nat)) = known.toList :=
    List.filter_eq_self.mpr (by simp)
  rw [changes, idsWhere, idsWhere, hnone, hgone]
  rfl

/-- The changes take the client to the threads that there are. -/
theorem followAll_changes (known live : Std.ExtTreeSet Nat) :
    ThreadNews.followAll (threadIds known) (changes known live) = some (threadIds live) := by
  have hinj : ∀ {m n : Nat}, toString m = toString n → m = n := Nat.repr_inj.mp
  have hnew : ∀ id ∈ idsWhere (· ∉ known) live, id ∉ threadIds known := by
    intro id hid hknown
    obtain ⟨m, -, hm, rfl⟩ := mem_idsWhere.mp hid
    obtain ⟨n, hn, heq⟩ := mem_threadIds.mp hknown
    exact of_decide_eq_true hm (hinj heq ▸ hn)
  obtain ⟨both, hboth, hmemBoth⟩ :=
    ThreadNews.followAll_created (nodup_idsWhere (· ∉ known) live) hnew
  have hold : ∀ id ∈ idsWhere (· ∉ live) known, id ∈ both := by
    intro id hid
    obtain ⟨n, hn, -, heq⟩ := mem_idsWhere.mp hid
    exact (hmemBoth id).mpr (.inl (mem_threadIds.mpr ⟨n, hn, heq⟩))
  obtain ⟨next, hnext, hmemNext⟩ :=
    ThreadNews.followAll_exited (nodup_idsWhere (· ∉ live) known) hold
  have heq : next = threadIds live := by
    apply Std.ExtTreeSet.ext_mem
    intro id
    simp only [hmemNext, hmemBoth, mem_threadIds, mem_idsWhere, decide_eq_true_eq]
    constructor
    · rintro ⟨⟨n, hn, rfl⟩ | ⟨n, hn, -, rfl⟩, hstays⟩
      · by_cases hlive : n ∈ live
        · exact ⟨n, hlive, rfl⟩
        · exact (hstays ⟨n, hn, hlive, rfl⟩).elim
      · exact ⟨n, hn, rfl⟩
    · rintro ⟨n, hn, rfl⟩
      refine ⟨?_, fun ⟨m, _, hgone, hm⟩ => hgone (hinj hm ▸ hn)⟩
      by_cases hknown : n ∈ known
      · exact .inl ⟨n, hknown, rfl⟩
      · exact .inr ⟨n, hn, hknown, rfl⟩
  rw [changes, ThreadNews.followAll_append, hboth, Option.bind_some, hnext, heq]

theorem followAll_selectionNews (known : Std.ExtTreeSet String) (last selected : Option Nat) :
    ThreadNews.followAll known (selectionNews last selected) = some known := by
  unfold selectionNews
  split
  · rfl
  · split <;> rfl

end ThreadView

/-! ## Steps that tell nothing about threads -/

/-- The prompt behind a record tells nothing. -/
theorem Output.filterMap_recordsOf (prompt : Bool) (record : Record) :
    (recordsOf prompt record).filterMap Record.threadNews? = record.threadNews?.toList := by
  have hprompt : Record.prompt.threadNews? = none := rfl
  cases h : record.threadNews? <;> cases hdue : record.isPrompted && prompt <;>
    simp [recordsOf, hdue, h, hprompt]

/-- What was written about threads so far. -/
def Adapter.threadNews (a : Adapter σ τ) : List ThreadNews :=
  a.written.filterMap Record.threadNews?

/-- An adapter that has told something about threads since, and not more than
that. -/
structure Adapter.Tells (a : Adapter σ τ) (news : List ThreadNews) (b : Adapter σ τ) : Prop where
  engine : b.engine = a.engine
  session : b.session = a.session
  threads : b.threads = a.threads
  news : b.threadNews = a.threadNews ++ news

theorem Adapter.Tells.refl (a : Adapter σ τ) : a.Tells [] a :=
  ⟨rfl, rfl, rfl, (List.append_nil _).symm⟩

theorem Adapter.Tells.trans {a b c : Adapter σ τ} {news more : List ThreadNews}
    (hb : a.Tells news b) (hc : b.Tells more c) : a.Tells (news ++ more) c where
  engine := hc.engine.trans hb.engine
  session := hc.session.trans hb.session
  threads := hc.threads.trans hb.threads
  news := by rw [hc.news, hb.news, List.append_assoc]

namespace Act

/-- However the step ends, it has told nothing about threads. -/
def Quiet (step : Act σ τ α) : Prop :=
  ∀ a, (step.after a).threads = a.threads ∧ (step.after a).threadNews = a.threadNews

theorem Quiet.bind {step : Act σ τ α} {next : α → Act σ τ β} (hstep : Quiet step)
    (hnext : ∀ v, Quiet (next v)) : Quiet (step >>= next) := by
  intro a
  have ha := hstep a
  cases h : step a with
  | error e b => rwa [after_bind_of_error h, ← after_of_error h]
  | ok v b =>
      rw [after_of_ok h] at ha
      rw [after_bind_of_ok h, (hnext v b).1, (hnext v b).2]
      exact ha

theorem quiet_pure (v : α) : Quiet (pure v : Act σ τ α) := fun _ => ⟨rfl, rfl⟩

theorem quiet_throw (e : Error) : Quiet (throw e : Act σ τ α) := fun _ => ⟨rfl, rfl⟩

theorem quiet_ask [Engine σ] (request : Request) :
    Quiet (ask request : Act σ τ request.Answer) :=
  fun _ => ⟨rfl, rfl⟩

theorem quiet_demand (r : Except EngineError α) : Quiet (demand r : Act σ τ α) := by
  cases r <;> exact fun _ => ⟨rfl, rfl⟩

theorem quiet_orWarn (topic : String) (r : Except EngineError α) :
    Quiet (orWarn topic r : Act σ τ (Option α)) := by
  cases r <;> exact fun _ => ⟨rfl, rfl⟩

theorem quiet_session : Quiet (session : Act σ τ Session) := fun _ => ⟨rfl, rfl⟩

theorem quiet_inSession (f : Session → α × Session) : Quiet (inSession f : Act σ τ α) :=
  fun _ => ⟨rfl, rfl⟩

theorem quiet_say (level : Level) (text : String) : Quiet (say level text : Act σ τ Unit) :=
  fun _ => ⟨rfl, rfl⟩

theorem quiet_forM {f : α → Act σ τ PUnit} (h : ∀ x, Quiet (f x)) (xs : List α) :
    Quiet (xs.forM f) := by
  induction xs with
  | nil => exact quiet_pure _
  | cons x xs ih =>
      change Quiet (f x >>= fun _ => xs.forM f)
      exact (h x).bind fun _ => ih

theorem quiet_idOf (handle : Handle) : Quiet (idOf handle : Act σ τ Nat) := by
  refine quiet_session.bind fun s => ?_
  cases s.id? handle with
  | none => exact quiet_throw _
  | some id => exact quiet_pure _

theorem quiet_number (handle : Handle) : Quiet (number handle : Act σ τ Nat) := by
  intro a
  simp only [after, number_apply]
  cases a.session.number handle <;> exact ⟨rfl, rfl⟩

variable [Sink τ] [Sink.Reliable τ]

/-- A reliable sink accepts each record. -/
theorem emit_tells (record : Record) (a : Adapter σ τ) :
    ∃ b, emit record a = .ok () b ∧ a.Tells record.threadNews?.toList b := by
  obtain ⟨sink, journal, hemit⟩ := emit_ok record a
  refine ⟨_, hemit, rfl, rfl, rfl, ?_⟩
  simp [Adapter.threadNews, Adapter.written, Output.filterMap_recordsOf]

theorem quiet_emit {record : Record} (h : record.threadNews? = none) :
    Quiet (emit record : Act σ τ Unit) := by
  intro a
  obtain ⟨b, hok, htells⟩ := emit_tells record a
  rw [after_of_ok hok, htells.news, h]
  exact ⟨htells.threads, List.append_nil _⟩

theorem quiet_notify {kind : AsyncKind} {results : Results}
    (h : (Record.async ⟨kind, results⟩).threadNews? = none) :
    Quiet (notify kind results : Act σ τ Unit) :=
  quiet_emit h

/-! ## Stops and exits -/

omit [Sink.Reliable τ] in
theorem notifyThreads_cons (kind : AsyncKind) (thread : Nat) (threads : List Nat)
    (a : Adapter σ τ) : notifyThreads kind (thread :: threads) a =
      (notify kind [numberField "id" thread, field "group-id" a.session.threadGroup] >>=
        fun _ => notifyThreads kind threads) a :=
  rfl

theorem notifyThreads_tells {kind : AsyncKind} {tell : String → ThreadNews}
    (hkind : ∀ results, (Record.async ⟨kind, results⟩).threadNews? =
      some (tell (results.textOf "id")))
    (threads : List Nat) (a : Adapter σ τ) :
    ∃ b, notifyThreads kind threads a = .ok () b ∧
      a.Tells ((threads.map toString).map tell) b := by
  induction threads generalizing a with
  | nil => exact ⟨a, rfl, .refl a⟩
  | cons thread threads ih =>
      let results : Results :=
        [numberField "id" thread, field "group-id" a.session.threadGroup]
      have htext : results.textOf "id" = toString thread := rfl
      obtain ⟨b, hb, hfirst⟩ := emit_tells (.async ⟨kind, results⟩) a
      obtain ⟨c, hc, hrest⟩ := ih b
      rw [hkind, htext] at hfirst
      refine ⟨c, ?_, hfirst.trans hrest⟩
      rw [notifyThreads_cons, notify, bind_of_ok hb, hc]

theorem notifySelection_tells (last selected : Option Nat) (a : Adapter σ τ) :
    ∃ b, notifySelection last selected a = .ok () b ∧
      a.Tells (ThreadView.selectionNews last selected) b := by
  cases selected with
  | none => exact ⟨a, rfl, .refl a⟩
  | some thread =>
      simp only [notifySelection, ThreadView.selectionNews]
      split
      · exact ⟨a, rfl, .refl a⟩
      · exact emit_tells (.async ⟨.threadSelected, [numberField "id" thread]⟩) a

/-- The threads that the engine has. -/
def liveThreads [Engine σ] (e : σ) : List Nat := (Engine.answer .threads e).1

/-- The thread that the engine has selected once it was asked for its threads. -/
def selectionOf [Engine σ] (e : σ) : Option Nat :=
  (Engine.answer .selectedThread (Engine.answer .threads e).2).1

/-- A stop brings the view of the threads up to date and tells all changes. -/
theorem syncThreads_eq [Engine σ] (a : Adapter σ τ) :
    ∃ b, syncThreads a = .ok () b ∧ b.session = a.session ∧
      b.threads = ⟨.ofList (liveThreads a.engine), selectionOf a.engine⟩ ∧
      b.threadNews = a.threadNews ++
        (ThreadView.changes a.threads.known (.ofList (liveThreads a.engine)) ++
          ThreadView.selectionNews a.threads.selected (selectionOf a.engine)) := by
  let live : Std.ExtTreeSet Nat := .ofList (liveThreads a.engine)
  let asked : Adapter σ τ := { a with engine := (Engine.answer .threads a.engine).2 }
  obtain ⟨b, hcreated, hb⟩ := notifyThreads_tells created_threadNews?
    (live.toList.filter (· ∉ a.threads.known)) asked
  obtain ⟨c, hexited, hc⟩ := notifyThreads_tells exited_threadNews?
    (a.threads.known.toList.filter (· ∉ live)) b
  let known : Adapter σ τ := { c with
    engine := (Engine.answer .selectedThread c.engine).2
    threads := { c.threads with known := live } }
  obtain ⟨d, hselected, hd⟩ := notifySelection_tells c.threads.selected
    (Engine.answer .selectedThread c.engine).1 known
  have hlast : c.threads.selected = a.threads.selected := by rw [hc.threads, hb.threads]
  have hengine : c.engine = (Engine.answer .threads a.engine).2 := by rw [hc.engine, hb.engine]
  have hnews : known.threadNews = a.threadNews ++ ThreadView.changes a.threads.known live :=
    (hb.trans hc).news
  have hsession : d.session = a.session := by rw [hd.session, hc.session, hb.session]
  refine ⟨{ d with threads := { d.threads with selected := selectionOf a.engine } }, ?_,
    hsession, ?_, ?_⟩
  · refine (bind_of_ok (ask_apply .threads a) _).trans ?_
    refine (bind_of_ok (threadView_apply asked) _).trans ?_
    refine (bind_of_ok hcreated _).trans ?_
    refine (bind_of_ok hexited _).trans ?_
    refine (bind_of_ok (modifyThreadView_apply _ c) _).trans ?_
    refine (bind_of_ok (ask_apply .selectedThread _) _).trans ?_
    refine (bind_of_ok (threadView_apply known) _).trans ?_
    refine (bind_of_ok hselected _).trans ?_
    simp only [modifyThreadView_apply, hengine, selectionOf]
  · simp only [hd.threads]
    rfl
  · change d.threadNews = _
    rw [hd.news, hnews, hlast, hengine, List.append_assoc]
    rfl

/-- An exit tells the end of all threads that the client knows. -/
theorem endThreads_eq (a : Adapter σ τ) :
    ∃ b, endThreads a = .ok () b ∧ b.session = a.session ∧ b.threads = {} ∧
      b.threadNews = a.threadNews ++ ThreadView.changes a.threads.known ∅ := by
  let ended : Adapter σ τ := { a with threads := { a.threads with known := ∅ } }
  obtain ⟨b, hexited, hb⟩ := notifyThreads_tells exited_threadNews? a.threads.known.toList ended
  refine ⟨{ b with threads := { b.threads with selected := none } }, ?_, hb.session, ?_, ?_⟩
  · refine (bind_of_ok (threadView_apply a) _).trans ?_
    refine (bind_of_ok (modifyThreadView_apply _ a) _).trans ?_
    exact (bind_of_ok hexited _).trans (modifyThreadView_apply _ b)
  · simp only [hb.threads]
    rfl
  · rw [ThreadView.changes_empty]
    exact hb.news

section Reasons

omit [Sink τ] [Sink.Reliable τ]

variable [Engine σ]

theorem quiet_refreshHits (handle : Handle) :
    Quiet (refreshHits handle : Act σ τ (Option Stoppoint)) := by
  refine quiet_session.bind fun s => ?_
  cases s.id? handle with
  | none => exact quiet_pure none
  | some id =>
      refine (quiet_ask (.stoppointState handle)).bind fun answer => ?_
      refine (quiet_orWarn _ answer).bind fun state => ?_
      cases state with
      | none => exact quiet_session.bind fun _ => quiet_pure _
      | some state => exact quiet_inSession _

theorem quiet_reasonFields (reason : StopReason) (frame : Option Frame) :
    Quiet (reasonFields reason frame : Act σ τ (Option Results)) := by
  cases reason with
  | breakpoint native =>
      refine ((quiet_refreshHits ⟨native, .breakpoint⟩).bind fun p => ?_).bind fun _ => quiet_pure _
      cases p with
      | some p => exact quiet_pure _
      | none => exact (quiet_say _ _).bind fun _ => quiet_pure _
  | watchpoint native =>
      refine ((quiet_refreshHits ⟨native, .watchpoint⟩).bind fun p => ?_).bind fun _ => quiet_pure _
      cases p with
      | some p => exact quiet_pure _
      | none => exact (quiet_say _ _).bind fun _ => quiet_pure _
  | trace | planComplete => cases frame <;> exact quiet_pure _
  | signal number =>
      simp only [reasonFields]
      split
      · refine (quiet_say _ _).bind fun _ => (quiet_ask .resume).bind fun answer => ?_
        exact (quiet_demand answer).bind fun _ => quiet_pure _
      · exact quiet_pure _
  | exception description => exact quiet_pure _
  | other => exact quiet_pure _

end Reasons

/-- Behind an exit no threads are known. -/
theorem exited_threads (code : Int) (a : Adapter σ τ) :
    ((exited code).after a).threads = {} ∧ ((exited code).after a).threadNews =
      a.threadNews ++ ThreadView.changes a.threads.known ∅ := by
  obtain ⟨b, hend, -, hthreads, hnews⟩ := endThreads_eq a
  have hquiet : ∀ results more : Results, Quiet
      (notify .threadGroupExited results >>= fun _ => notify .stopped more : Act σ τ Unit) :=
    fun _ _ => (quiet_notify rfl).bind fun _ => quiet_notify rfl
  rw [exited, after_bind_of_ok hend, after_bind_of_ok (session_apply b), (hquiet _ _ b).1,
    (hquiet _ _ b).2]
  exact ⟨hthreads, hnews⟩

theorem quiet_stopped [Engine σ] (thread : Nat) (reason : StopReason) :
    Quiet (stopped thread reason : Act σ τ Unit) := by
  refine (quiet_ask _).bind fun frame => (quiet_reasonFields reason frame).bind fun fields => ?_
  cases fields with
  | none => exact quiet_pure ()
  | some fields => exact quiet_notify rfl

theorem quiet_refreshRecord (handle : Handle) (id : Nat) (state : StoppointState)
    (site : Option Site) : Quiet (refreshRecord handle id state site : Act σ τ Unit) := by
  refine (quiet_inSession _).bind fun p => ?_
  cases p with
  | some p => exact quiet_notify rfl
  | none => exact quiet_throw _

theorem quiet_stoppointModified [Engine σ] (handle : Handle) (moved : Bool) :
    Quiet (stoppointModified handle moved : Act σ τ Unit) := by
  refine (quiet_idOf handle).bind fun id => ?_
  refine (quiet_ask (.stoppointState handle)).bind fun answer => ?_
  refine (quiet_demand answer).bind fun state => ?_
  cases moved with
  | false => exact (quiet_pure none).bind fun site => quiet_refreshRecord handle id state site
  | true =>
      refine (quiet_ask (.site handle)).bind fun answer => ?_
      exact (quiet_orWarn _ answer).bind fun site => quiet_refreshRecord handle id state site

theorem quiet_stoppointChanged [Engine σ] (handle : Handle) (event : StoppointEvent) :
    Quiet (stoppointChanged handle event : Act σ τ Unit) := by
  cases event with
  | added =>
      refine (quiet_ask (.stoppointState handle)).bind fun answer => ?_
      refine (quiet_demand answer).bind fun state => ?_
      refine (quiet_ask (.site handle)).bind fun answer => ?_
      refine (quiet_demand answer).bind fun site => (quiet_number handle).bind fun id => ?_
      refine quiet_session.bind fun s => (quiet_inSession _).bind fun r => ?_
      obtain ⟨p, added⟩ := r
      cases added <;> exact quiet_notify rfl
  | removed =>
      refine (quiet_inSession _).bind fun id => ?_
      cases id with
      | none => exact quiet_say _ _
      | some id => exact quiet_notify rfl
  | locationsAdded count =>
      refine (quiet_idOf handle).bind fun id => (quiet_emit rfl).bind fun _ => ?_
      exact quiet_stoppointModified handle true
  | locationsResolved => exact quiet_stoppointModified handle true
  | enabled | disabled | commandChanged | conditionChanged | ignoreChanged
  | autoContinueChanged | threadChanged => exact quiet_stoppointModified handle false

/-- Behind a stop the threads of the engine are known, even if the rest of its
handling fails. -/
theorem handle_stopped_threads [Engine σ] (thread : Nat) (reason : StopReason)
    (a : Adapter σ τ) :
    ((handle (.stopped thread reason)).after a).threads =
        ⟨.ofList (liveThreads a.engine), selectionOf a.engine⟩ ∧
      ((handle (.stopped thread reason)).after a).threadNews = a.threadNews ++
        (ThreadView.changes a.threads.known (.ofList (liveThreads a.engine)) ++
          ThreadView.selectionNews a.threads.selected (selectionOf a.engine)) := by
  obtain ⟨b, hsync, -, hthreads, hnews⟩ := syncThreads_eq a
  rw [handle, after_bind_of_ok hsync, (quiet_stopped thread reason b).1,
    (quiet_stopped thread reason b).2]
  exact ⟨hthreads, hnews⟩

/-- A notification that is neither a stop nor an exit tells nothing about threads. -/
theorem quiet_handle [Engine σ] {n : Notification}
    (hstop : ∀ thread reason, n ≠ .stopped thread reason) (hexit : ∀ code, n ≠ .exited code) :
    Quiet (handle n : Act σ τ Unit) := by
  cases n with
  | running => exact quiet_notify rfl
  | stopped thread reason => exact (hstop thread reason rfl).elim
  | suspended => exact quiet_say _ _
  | exited code => exact (hexit code rfl).elim
  | stoppoint handle event => exact quiet_stoppointChanged handle event
  | modulesLoaded modules => exact quiet_forM (fun _ => quiet_notify rfl) modules
  | modulesUnloaded modules => exact quiet_forM (fun _ => quiet_notify rfl) modules

end Act

/-! ## Runs -/

/-- A notification that arrives, and what has become of the engine and of the
session by then. -/
structure Arrival (σ : Type) where
  engine : σ
  session : Session
  notification : Notification

namespace Arrival

variable [Engine σ]

/-- The selection that is known behind the notification; `last` is the one before. -/
def selection (x : Arrival σ) (last : Option Nat) : Option Nat :=
  match x.notification with
  | .stopped .. => Act.selectionOf x.engine
  | .exited _ => none
  | _ => last

/-- What the client is told about threads when the notification is handled, and
the threads that it has then; `last` is the selection that was known before. -/
def Told (x : Arrival σ) (last : Option Nat) (known : Std.ExtTreeSet String)
    (news : List ThreadNews) (next : Std.ExtTreeSet String) : Prop :=
  match x.notification with
  | .stopped .. => next = .ofList ((Act.liveThreads x.engine).map toString) ∧
      ∃ created exited : List String, news = created.map .created ++ exited.map .exited ++
        ThreadView.selectionNews last (Act.selectionOf x.engine)
  | .exited _ => next = ∅ ∧ ∃ exited : List String, news = exited.map .exited
  | _ => next = known ∧ news = []

end Arrival

variable [Engine σ] [Sink τ]

/-- Handle the notification. -/
def Adapter.arrive (a : Adapter σ τ) (x : Arrival σ) : Adapter σ τ :=
  (Act.handle x.notification).after { a with engine := x.engine, session := x.session }

/-- The selection that is known behind a run. -/
def selectionBehind (xs : List (Arrival σ)) : Option Nat :=
  xs.foldl (fun last x => x.selection last) none

namespace Adapter

/-- The client has the threads that the adapter takes it to have. -/
def Followed (a : Adapter σ τ) : Prop :=
  ThreadNews.followAll ∅ a.threadNews = some (threadIds a.threads.known)

variable [Sink.Reliable τ]

/-- What one notification does to the view of the threads, and what it tells. -/
theorem arrive_eq (a : Adapter σ τ) (x : Arrival σ) :
    (a.arrive x).threads.selected = x.selection a.threads.selected ∧
      ∃ news, (a.arrive x).threadNews = a.threadNews ++ news ∧
        ThreadNews.followAll (threadIds a.threads.known) news =
          some (threadIds (a.arrive x).threads.known) ∧
        x.Told a.threads.selected (threadIds a.threads.known) news
          (threadIds (a.arrive x).threads.known) := by
  let arrived : Adapter σ τ := { a with engine := x.engine, session := x.session }
  cases hn : x.notification with
  | stopped thread reason =>
      obtain ⟨hview, htold⟩ := Act.handle_stopped_threads thread reason arrived
      simp only [arrive, Arrival.selection, Arrival.Told, hn, hview, htold, arrived]
      refine ⟨trivial, _, rfl, ?_, threadIds_ofList _, _, _, rfl⟩
      rw [ThreadNews.followAll_append, ThreadView.followAll_changes]
      exact ThreadView.followAll_selectionNews _ _ _
  | exited code =>
      obtain ⟨hview, htold⟩ := Act.exited_threads code arrived
      have hempty : threadIds ∅ = ∅ := Std.ExtTreeSet.ext_mem (by simp [mem_threadIds])
      simp only [arrive, Act.handle, Arrival.selection, Arrival.Told, hn, hview, htold, arrived]
      exact ⟨trivial, _, rfl, ThreadView.followAll_changes _ _, hempty, _,
        ThreadView.changes_empty _⟩
  | running | suspended | stoppoint _ _ | modulesLoaded _ | modulesUnloaded _ =>
      have hquiet : Act.Quiet (Act.handle x.notification : Act σ τ Unit) :=
        Act.quiet_handle (by simp [hn]) (by simp [hn])
      obtain ⟨hview, htold⟩ := hquiet arrived
      rw [hn] at hview htold
      simp only [arrive, Arrival.selection, Arrival.Told, hn, hview, htold, arrived]
      exact ⟨trivial, [], (List.append_nil _).symm, rfl, trivial, rfl⟩

/-- However a notification is handled, the sink is given the lines of what is written. -/
theorem arrive_prints (a : Adapter σ τ) (x : Arrival σ) :
    ∃ records, a.Prints records (a.arrive x) := by
  let arrived : Adapter σ τ := { a with engine := x.engine, session := x.session }
  obtain ⟨records, hprompt, hwritten, htakes⟩ := (Act.walks_handle x.notification arrived).prints
  exact ⟨records, hprompt, hwritten, htakes⟩

/-- Handle notifications in the order of their arrival, whether their handling
succeeds or fails. -/
def arriveAll (a : Adapter σ τ) (xs : List (Arrival σ)) : Adapter σ τ := xs.foldl arrive a

theorem arriveAll_prints (a : Adapter σ τ) (xs : List (Arrival σ)) :
    ∃ records, a.Prints records (a.arriveAll xs) := by
  induction xs generalizing a with
  | nil => exact ⟨[], .refl a⟩
  | cons x xs ih =>
      obtain ⟨records, hfirst⟩ := a.arrive_prints x
      obtain ⟨more, hrest⟩ := ih (a.arrive x)
      exact ⟨records ++ more, hfirst.trans hrest⟩

omit [Engine σ] [Sink τ] [Sink.Reliable τ] in
theorem followed_new (config : Config) (engine : σ) (sink : τ) :
    (Adapter.new config engine sink).Followed := by
  have hempty : threadIds ∅ = ∅ := Std.ExtTreeSet.ext_mem (by simp [mem_threadIds])
  rw [Followed, Adapter.new, hempty]
  rfl

theorem followed_arriveAll {a : Adapter σ τ} (ha : a.Followed) (xs : List (Arrival σ)) :
    (a.arriveAll xs).Followed ∧
      (a.arriveAll xs).threads.selected =
        xs.foldl (fun last x => x.selection last) a.threads.selected := by
  induction xs generalizing a with
  | nil => exact ⟨ha, rfl⟩
  | cons x xs ih =>
      obtain ⟨hselected, news, hnews, hfollow, -⟩ := a.arrive_eq x
      have hnext : (a.arrive x).Followed := by
        rw [Followed, hnews, ThreadNews.followAll_append, ha]
        exact hfollow
      have hrun := ih hnext
      rwa [hselected] at hrun

/-- A client that starts without threads can follow all that it is told: it never
adds a thread that it has, nor removes one that it lacks.  Behind each stop it has
exactly the threads of the engine, behind each exit none, and no other
notification tells it anything.  At a stop it is told of the new threads, then of
those that are gone, and then of the selection, if that is a thread and not the
one at the stop before.  All this is in the lines of the records that are written, which
are what the sink is given. -/
theorem thread_view_of_arrivals (config : Config) (engine : σ) (sink : τ)
    (xs : List (Arrival σ)) (x : Arrival σ) :
    let a := (Adapter.new config engine sink).arriveAll xs
    ∃ known news next, ThreadNews.followAll ∅ a.threadNews = some known ∧
      (a.arrive x).threadNews = a.threadNews ++ news ∧
      ThreadNews.followAll known news = some next ∧
      x.Told (selectionBehind xs) known news next ∧
      Sink.Takes sink (a.written.map Record.text) a.output.sink ∧
      ∃ records, (a.arrive x).written = a.written ++ records ∧
        records.filterMap Record.threadNews? = news ∧
        Sink.Takes a.output.sink (records.map Record.text) (a.arrive x).output.sink := by
  intro a
  obtain ⟨hfollowed, hselected⟩ := followed_arriveAll (followed_new config engine sink) xs
  obtain ⟨-, news, hnews, hfollow, htold⟩ := a.arrive_eq x
  rw [hselected] at htold
  obtain ⟨written, hbefore⟩ := arriveAll_prints (.new config engine sink) xs
  obtain ⟨records, hprints⟩ := a.arrive_prints x
  have hwritten : a.written = written := hbefore.written
  have hrecords : records.filterMap Record.threadNews? = news := by
    rw [threadNews, hprints.written, List.filterMap_append] at hnews
    exact List.append_cancel_left hnews
  exact ⟨_, news, _, hfollowed, hnews, hfollow, htold, hwritten ▸ hbefore.takes, records,
    hprints.written, hrecords, hprints.takes⟩

end Adapter

/-- A program that is nothing but threads, one of which may be selected. -/
structure Roster where
  threads : List Nat
  selected : Option Nat

instance : Engine Roster where
  answer
    | .threads, e => (e.threads, e)
    | .selectedThread, e => (e.selected, e)
    | request, e => (request.refused, e)
  create _ e := .finished (.error .noTarget) e

/-- Thread 3 ends and thread 2 appears between two stops, and a transcript shows it. -/
theorem Roster.thread_view_of_arrivals_roster :
    let stop (threads : List Nat) (selected : Option Nat) : Arrival Roster :=
      ⟨⟨threads, selected⟩, .new {}, .stopped 1 .other⟩
    let a := (Adapter.new {} (⟨[], none⟩ : Roster) ({} : Transcript)).arriveAll
      [stop [3, 1, 3] (some 1)]
    let unknown := "frame=\x7blevel=\"0\",addr=\"??\",func=\"??\",file=\"??\"," ++
      "fullname=\"??\",line=\"??\"\x7d"
    ∃ known news next, ThreadNews.followAll ∅ a.threadNews = some known ∧
      (a.arrive (stop [1, 2] (some 2))).threadNews = a.threadNews ++ news ∧
      ThreadNews.followAll known news = some next ∧ next = .ofList ["1", "2"] ∧
      news.getLast? = some (.selected "2") ∧
      (a.arrive (stop [1, 2] (some 2))).output.sink.text = a.output.sink.text ++
        "=thread-created,id=\"2\",group-id=\"i1\"\n" ++
        "=thread-exited,id=\"3\",group-id=\"i1\"\n" ++
        "=thread-selected,id=\"2\"\n" ++
        "*stopped," ++ unknown ++ ",thread-id=\"1\",stopped-threads=\"all\"\n" ++
        "(gdb)\n" := by
  intro stop a unknown
  obtain ⟨known, news, next, hknown, hnews, hnext, ⟨heq, created, exited, htold⟩, -⟩ :=
    Adapter.thread_view_of_arrivals {} (⟨[], none⟩ : Roster) ({} : Transcript)
      [stop [3, 1, 3] (some 1)] (stop [1, 2] (some 2))
  refine ⟨known, news, next, hknown, hnews, hnext, heq, ?_, by decide +kernel⟩
  rw [htold]
  exact List.getLast?_concat

end MachineInterface
