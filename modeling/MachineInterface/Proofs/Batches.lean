import Mathlib.Logic.Function.Iterate
import MachineInterface.Proofs.Holdings
import MachineInterface.Proofs.Lines

/-!
# MachineInterface.Proofs.Batches

Commands on several stoppoints.  All numbers are resolved before a stoppoint is
touched (`Act.leads_resolveAll`), so a number that refers to none spares the
others.  What follows then succeeds for each stoppoint that is live, but a
deletion takes a stoppoint away from the numbers behind it:
`Adapter.batch_of_run` says when a command is done for all of its numbers or for
none.
-/

namespace MachineInterface

variable {σ τ γ : Type}

/-! ## Engines -/

/-- An engine that finds, deletes and enables the stoppoints that are live, those
that `live` holds something for.  Deleting what is not live is refused. -/
structure Engine.Serves [Engine σ] (live : σ → Handle → Option γ) (enable : Bool → γ → γ) :
    Prop where
  find : ∀ e handle, (Engine.answer (.findStoppoint handle) e).1 =
    (live e handle).map fun _ => handle
  live_find : ∀ e handle, live (Engine.answer (.findStoppoint handle) e).2 = live e
  delete : ∀ e handle, live e handle ≠ none →
    (Engine.answer (.deleteStoppoint handle) e).1 = .ok () ∧
      live (Engine.answer (.deleteStoppoint handle) e).2 = Function.update (live e) handle none
  refuse : ∀ e handle, live e handle = none →
    (∃ cause, (Engine.answer (.deleteStoppoint handle) e).1 = .error cause) ∧
      live (Engine.answer (.deleteStoppoint handle) e).2 = live e
  enable : ∀ e handle enabled, live e handle ≠ none →
    (Engine.answer (.setEnabled handle enabled) e).1 = .ok () ∧
      live (Engine.answer (.setEnabled handle enabled) e).2 =
        Function.update (live e) handle ((live e handle).map (enable enabled))

/-- An engine that keeps its stoppoints serves them. -/
theorem Engine.Keeps.serves [Engine σ] {live : σ → Handle → Option Held}
    (h : Engine.Keeps live) : Engine.Serves live fun enabled held => { held with enabled } where
  find := h.findStoppoint
  live_find e handle := h.other (.findStoppoint handle) e not_false
  delete e handle hlive := by
    have hchange := h.deleteStoppoint e handle
    obtain ⟨held, hheld⟩ := Option.ne_none_iff_exists'.mp hlive
    rwa [Engine.Changes, hheld] at hchange
  refuse e handle hlive := by
    have hchange := h.deleteStoppoint e handle
    rwa [Engine.Changes, hlive] at hchange
  enable e handle enabled hlive := by
    have hchange := h.setEnabled e handle enabled
    obtain ⟨held, hheld⟩ := Option.ne_none_iff_exists'.mp hlive
    rw [hheld]
    rwa [Engine.Changes, hheld] at hchange

/-! ## Numbers -/

namespace Session

variable {s : Session} {held : Handle → Option γ}

/-- A client's number refers to a record whose stoppoint is live. -/
structure Refers (s : Session) (held : Handle → Option γ) (n : Int) (id : Nat) (p : Stoppoint) :
    Prop where
  number : Text.nat32? n = some id
  record : s.stoppoint? id = some p
  live : held p.handle ≠ none

/-- The numbers resolve to these stoppoints, in this order. -/
structure Resolves (s : Session) (held : Handle → Option γ) (numbers : List Int)
    (targets : List (Nat × Handle)) : Prop where
  numbers_eq : numbers = targets.map fun t => (t.1 : Int)
  refers : ∀ t ∈ targets, ∃ p, s.Refers held t.1 t.1 p ∧ t.2 = p.handle

theorem Refers.eq {n : Int} {id : Nat} {p : Stoppoint} (h : s.Refers held n id p) :
    n = (id : Int) :=
  (Text.nat32?_eq_some_iff.mp h.number).1

theorem Resolves.cons {numbers : List Int} {targets : List (Nat × Handle)} {n : Int} {id : Nat}
    {p : Stoppoint} (hfirst : s.Refers held n id p) (h : s.Resolves held numbers targets) :
    s.Resolves held (n :: numbers) ((id, p.handle) :: targets) where
  numbers_eq := by rw [List.map_cons, hfirst.eq, h.numbers_eq]
  refers t ht := by
    obtain rfl | ht := List.mem_cons.mp ht
    · exact ⟨p, hfirst.eq ▸ hfirst, rfl⟩
    · exact h.refers t ht

theorem Resolves.id?_eq {numbers : List Int} {targets : List (Nat × Handle)}
    (h : s.Resolves held numbers targets) (hs : s.Consistent) :
    ∀ t ∈ targets, s.id? t.2 = some t.1 := by
  intro t ht
  obtain ⟨p, hp, heq⟩ := h.refers t ht
  rw [heq]
  exact hs.mapped t.1 p hp.record

/-- Numbers are repeated exactly where stoppoints are. -/
theorem Resolves.nodup_iff {numbers : List Int} {targets : List (Nat × Handle)}
    (h : s.Resolves held numbers targets) (hs : s.Consistent) :
    (targets.map (·.2)).Nodup ↔ numbers.Nodup := by
  have hid := h.id?_eq hs
  rw [h.numbers_eq]
  simp only [List.Nodup, List.pairwise_map]
  refine List.Pairwise.iff_of_mem fun {t u} ht hu => not_congr ?_
  constructor
  · intro heq
    have hnumber := hid t ht
    rw [heq, hid u hu] at hnumber
    rw [Option.some.inj hnumber]
  · intro heq
    have hnumber := hid u hu
    rw [← Int.ofNat.inj heq] at hnumber
    exact hs.handle_unique (hid t ht) hnumber

theorem Resolves.exists_of_mem {numbers : List Int} {targets : List (Nat × Handle)}
    (h : s.Resolves held numbers targets) {n : Int} (hn : n ∈ numbers) :
    ∃ t ∈ targets, ∃ p, s.Refers held t.1 t.1 p ∧ (t.1 : Int) = n ∧ t.2 = p.handle := by
  rw [h.numbers_eq] at hn
  obtain ⟨t, ht, rfl⟩ := List.mem_map.mp hn
  obtain ⟨p, hp, heq⟩ := h.refers t ht
  exact ⟨t, ht, p, hp, rfl, heq⟩

theorem Resolves.live {numbers : List Int} {targets : List (Nat × Handle)}
    (h : s.Resolves held numbers targets) : ∀ t ∈ targets, held t.2 ≠ none := by
  intro t ht
  obtain ⟨p, hp, heq⟩ := h.refers t ht
  rw [heq]
  exact hp.live

/-- A record that is not listed is no target. -/
theorem Resolves.not_mem {numbers : List Int} {targets : List (Nat × Handle)}
    (h : s.Resolves held numbers targets) (hs : s.Consistent) {id : Nat} {p : Stoppoint}
    (hp : s.stoppoint? id = some p) (hid : (id : Int) ∉ numbers) :
    id ∉ targets.map (·.1) ∧ p.handle ∉ targets.map (·.2) := by
  have hnumber : id ∉ targets.map (·.1) := by
    intro hmem
    obtain ⟨t, ht, rfl⟩ := List.mem_map.mp hmem
    exact hid (h.numbers_eq ▸ List.mem_map_of_mem ht)
  refine ⟨hnumber, fun hmem => ?_⟩
  obtain ⟨t, ht, heq⟩ := List.mem_map.mp hmem
  have hsame := h.id?_eq hs t ht
  rw [heq, hs.mapped id p hp] at hsame
  exact hnumber (Option.some.inj hsame ▸ List.mem_map_of_mem ht)

/-! ## Sessions behind a batch -/

/-- Forgetting several handles takes their numbers and records away. -/
theorem forgetAll {targets : List (Nat × Handle)} (hid : ∀ t ∈ targets, s.id? t.2 = some t.1)
    (hnodup : (targets.map (·.2)).Nodup) :
    let t := targets.foldl (fun s t => (s.forget t.2).2) s
    (∀ id, t.stoppoint? id = if id ∈ targets.map (·.1) then none else s.stoppoint? id) ∧
    ∀ handle, t.id? handle = if handle ∈ targets.map (·.2) then none else s.id? handle := by
  induction targets generalizing s with
  | nil => simp
  | cons first targets ih =>
      rw [List.map_cons, List.nodup_cons] at hnodup
      have hfirst : s.id? first.2 = some first.1 := hid first List.mem_cons_self
      have hnumber : ∀ handle, (s.forget first.2).2.id? handle =
          if first.2 = handle then none else s.id? handle := by
        intro handle
        rw [id?, numbering_forget, Numbering.id?_erase, id?]
      have hrest : ∀ t ∈ targets, (s.forget first.2).2.id? t.2 = some t.1 := by
        intro t ht
        have hne : first.2 ≠ t.2 := by
          intro heq
          exact hnodup.1 (heq ▸ List.mem_map_of_mem ht)
        rw [hnumber, if_neg hne]
        exact hid t (List.mem_cons_of_mem first ht)
      obtain ⟨hrecords, hnumbers⟩ := ih hrest hnodup.2
      constructor
      · intro id
        rw [List.foldl_cons, hrecords, stoppoint?_forget hfirst]
        by_cases heq : first.1 = id
        · simp [heq]
        · simp only [List.map_cons, List.mem_cons, heq, Ne.symm heq, if_false, false_or]
      · intro handle
        rw [List.foldl_cons, hnumbers, hnumber]
        by_cases heq : first.2 = handle
        · simp [heq]
        · simp only [List.map_cons, List.mem_cons, heq, Ne.symm heq, if_false, false_or]

/-- Changing several records in a way that may be repeated changes each of them. -/
theorem updateAll (s : Session) (targets : List (Nat × Handle)) {f : Stoppoint → Stoppoint}
    (hf : ∀ p, f (f p) = f p) :
    let t := targets.foldl (fun s t => (s.update t.1 f).2) s
    (∀ id, t.stoppoint? id =
      if id ∈ targets.map (·.1) then (s.stoppoint? id).map f else s.stoppoint? id) ∧
    t.numbering = s.numbering := by
  induction targets generalizing s with
  | nil => simp
  | cons first targets ih =>
      obtain ⟨hrecords, hnumbering⟩ := ih (s.update first.1 f).2
      constructor
      · intro id
        rw [List.foldl_cons, hrecords, stoppoint?_update]
        have hff : f ∘ f = f := funext hf
        by_cases heq : first.1 = id
        · simp [heq, hff]
        · simp only [List.map_cons, List.mem_cons, heq, Ne.symm heq, if_false, false_or]
      · rw [List.foldl_cons, hnumbering, numbering_update]

end Session

/-! ## Batches -/

/-- The numbers of a command on several stoppoints. -/
def Command.numbers? : Command → Option (List Int)
  | delete numbers => some numbers
  | enable _ numbers => some numbers
  | _ => none

/-- What a command on several stoppoints is to make of one of them: `s` and `held`
are the session and the stoppoints before it, `t` and `left` those behind it. -/
def Command.Treats (enable : Bool → γ → γ) (held : Handle → Option γ) (t : Session)
    (left : Handle → Option γ) (id : Nat) (p : Stoppoint) : Command → Prop
  | delete _ => t.stoppoint? id = none ∧ t.id? p.handle = none ∧ left p.handle = none
  | Command.enable enabled _ => t.stoppoint? id = some { p with enabled } ∧
    t.id? p.handle = some id ∧
    ∃ times, left p.handle = (held p.handle).map (enable enabled)^[times + 1]
  | _ => False

/-- The command has been applied to all of its numbers, and to nothing else. -/
structure Command.Applied (command : Command) (numbers : List Int) (enable : Bool → γ → γ)
    (s : Session) (held : Handle → Option γ) (t : Session) (left : Handle → Option γ) : Prop where
  listed : ∀ n ∈ numbers, ∃ id p, s.Refers held n id p ∧ command.Treats enable held t left id p
  others : ∀ id p, s.stoppoint? id = some p → (id : Int) ∉ numbers →
    t.stoppoint? id = some p ∧ t.id? p.handle = some id ∧ left p.handle = held p.handle

namespace Session

variable {s : Session} {held left : Handle → Option γ} {numbers : List Int}
  {targets : List (Nat × Handle)} {enable : Bool → γ → γ}

/-- Forgetting the targets is a deletion if these are no longer held. -/
theorem Resolves.deleted (h : s.Resolves held numbers targets) (hs : s.Consistent)
    (hnodup : (targets.map (·.2)).Nodup)
    (hleft : ∀ handle, left handle = if handle ∈ targets.map (·.2) then none else held handle) :
    (Command.delete numbers).Applied numbers enable s held
      (targets.foldl (fun s t => (s.forget t.2).2) s) left := by
  obtain ⟨hrecords, hnumbers⟩ := forgetAll (h.id?_eq hs) hnodup
  constructor
  case listed =>
    intro n hn
    obtain ⟨t, ht, p, hp, rfl, heq⟩ := h.exists_of_mem hn
    refine ⟨t.1, p, hp, ?_, ?_, ?_⟩
    · rw [hrecords, if_pos (List.mem_map_of_mem ht)]
    · rw [← heq, hnumbers, if_pos (List.mem_map_of_mem ht)]
    · rw [← heq, hleft, if_pos (List.mem_map_of_mem ht)]
  case others =>
    intro id p hp hid
    obtain ⟨hid, hhandle⟩ := h.not_mem hs hp hid
    refine ⟨?_, ?_, ?_⟩
    · rw [hrecords, if_neg hid, hp]
    · rw [hnumbers, if_neg hhandle, hs.mapped id p hp]
    · rw [hleft, if_neg hhandle]

/-- Changing the records of the targets enables them if each is enabled as often
as it is listed. -/
theorem Resolves.enabled (h : s.Resolves held numbers targets) (hs : s.Consistent)
    (enabled : Bool)
    (hleft : ∀ handle, left handle =
      (held handle).map (enable enabled)^[(targets.map (·.2)).count handle]) :
    (Command.enable enabled numbers).Applied numbers enable s held
      (targets.foldl (fun s t => (s.update t.1 ({ · with enabled })).2) s) left := by
  obtain ⟨hrecords, hnumbering⟩ := updateAll s targets (f := ({ · with enabled })) fun _ => rfl
  have hnumbers : ∀ handle,
      (targets.foldl (fun s t => (s.update t.1 ({ · with enabled })).2) s).id? handle =
        s.id? handle := by
    intro handle
    rw [id?, hnumbering, id?]
  constructor
  case listed =>
    intro n hn
    obtain ⟨t, ht, p, hp, rfl, heq⟩ := h.exists_of_mem hn
    have hcount : 0 < (targets.map (·.2)).count p.handle := by
      rw [List.count_pos_iff, ← heq]
      exact List.mem_map_of_mem ht
    obtain ⟨times, htimes⟩ := Nat.exists_eq_add_of_le' hcount
    refine ⟨t.1, p, hp, ?_, ?_, times, ?_⟩
    · rw [hrecords, if_pos (List.mem_map_of_mem ht), hp.record, Option.map_some]
    · rw [hnumbers, hs.mapped t.1 p hp.record]
    · rw [hleft, htimes]
  case others =>
    intro id p hp hid
    obtain ⟨hid, hhandle⟩ := h.not_mem hs hp hid
    refine ⟨?_, ?_, ?_⟩
    · rw [hrecords, if_neg hid, hp]
    · rw [hnumbers, hs.mapped id p hp]
    · rw [hleft, List.count_eq_zero_of_not_mem hhandle, Function.iterate_zero, Option.map_id_apply]

end Session

namespace Act

open Session (Refers Resolves)

variable [Engine σ] {live : σ → Handle → Option γ} {enable : Bool → γ → γ} {a : Adapter σ τ}

/-! ### Resolution -/

theorem leads_resolve (h : Engine.Serves live enable) (argument : String) (n : Int)
    {s : Session} {held : Handle → Option γ} (hsession : a.session = s)
    (hengine : live a.engine = held) :
    Leads (resolve argument n) a
      (fun t b => (∃ p, s.Refers held n t.1 p ∧ t.2 = p.handle) ∧ b.session = s ∧
        live b.engine = held)
      (fun b => (¬ ∃ id p, s.Refers held n id p) ∧ b.session = s ∧ live b.engine = held) := by
  cases hn : Text.nat32? n with
  | none =>
      have hnarrow : Verb.narrow argument n = .error (.invalidArgument argument (toString n)) := by
        simp only [Verb.narrow, hn]
      have hfail : (ofExcept (Verb.narrow argument n) : Act σ τ Nat) a =
          .error (.invalidArgument argument (toString n)) a := by
        rw [hnarrow]
        rfl
      refine leads_bind_of_error hfail ⟨?_, hsession, hengine⟩
      rintro ⟨id, p, hp⟩
      rw [hp.number] at hn
      cases hn
  | some id =>
      refine leads_bind_of_ok (ofExcept_of_ok (Verb.narrow_of_nat32? hn) a) ?_
      refine leads_bind_of_ok (session_apply a) ?_
      have hnumber : ∀ {id' p}, s.Refers held n id' p → id' = id := fun hp =>
        Option.some.inj (hp.number.symm.trans hn)
      cases hp : a.session.stoppoint? id with
      | none =>
          refine leads_throw ⟨?_, hsession, hengine⟩
          rintro ⟨id', p, hrefers⟩
          have hrecord := hrefers.record
          rw [hnumber hrefers, ← hsession, hp] at hrecord
          cases hrecord
      | some p =>
          have hlive := h.live_find a.engine p.handle
          refine leads_bind_of_ok (ask_apply _ a) ?_
          rw [h.find, hengine]
          cases hheld : held p.handle with
          | none =>
              refine leads_throw ⟨?_, hsession, hlive.trans hengine⟩
              rintro ⟨id', p', hrefers⟩
              have hrecord := hrefers.record
              rw [hnumber hrefers, ← hsession, hp] at hrecord
              cases hrecord
              exact hrefers.live hheld
          | some content =>
              refine leads_pure ⟨⟨p, ⟨hn, ?_, ?_⟩, rfl⟩, hsession, hlive.trans hengine⟩
              · rw [← hsession, hp]
              · rw [hheld]
                exact Option.some_ne_none content

/-- All numbers refer to live stoppoints, or nothing happens. -/
theorem leads_resolveAll (h : Engine.Serves live enable) (argument : String) (numbers : List Int)
    {s : Session} {held : Handle → Option γ} (hsession : a.session = s)
    (hengine : live a.engine = held) :
    Leads (resolveAll argument numbers) a
      (fun targets b => s.Resolves held numbers targets ∧ b.session = s ∧ live b.engine = held)
      (fun b => (¬ ∀ n ∈ numbers, ∃ id p, s.Refers held n id p) ∧ b.session = s ∧
        live b.engine = held) := by
  induction numbers generalizing a with
  | nil => exact leads_pure ⟨⟨rfl, by simp⟩, hsession, hengine⟩
  | cons n numbers ih =>
      have hfirst := leads_resolve h argument n hsession hengine
      cases hresolve : resolve argument n a with
      | error e b =>
          obtain ⟨hnone, hb⟩ := hfirst.of_error hresolve
          exact leads_bind_of_error hresolve ⟨fun hall => hnone (hall n List.mem_cons_self), hb⟩
      | ok t b =>
          obtain ⟨⟨p, hp, ht⟩, hsession, hengine⟩ := hfirst.of_ok hresolve
          have htarget : t = (t.1, p.handle) := by rw [← ht]
          have hmissing : (¬ ∀ m ∈ numbers, ∃ id p, s.Refers held m id p) →
              ¬ ∀ m ∈ n :: numbers, ∃ id p, s.Refers held m id p := by
            intro hnone hall
            exact hnone fun m hm => hall m (List.mem_cons_of_mem n hm)
          have hrest := (ih hsession hengine).mono (fun _ _ hc => hc) fun _ hc =>
            And.imp_left hmissing hc
          refine leads_bind_of_ok hresolve (hrest.bind fun targets c hc => ?_)
          rw [htarget]
          exact leads_pure (hc.imp_left fun htargets => htargets.cons hp)

/-! ### Deletion -/

/-- Delete a resolved stoppoint. -/
def deleteTarget (t : Nat × Handle) : Act σ τ PUnit := do
  demand (← ask (.deleteStoppoint t.2))
  modifySession fun s => (s.forget t.2).2

theorem deleteAll_eq (numbers : List Int) :
    (deleteAll numbers : Act σ τ Results) = do
      (← resolveAll "breakpoint" numbers).forM deleteTarget
      return [] :=
  rfl

theorem deleteTarget_of_live (h : Engine.Serves live enable) {t : Nat × Handle}
    (hlive : live a.engine t.2 ≠ none) :
    ∃ b, deleteTarget t a = .ok ⟨⟩ b ∧ b.session = (a.session.forget t.2).2 ∧
      live b.engine = Function.update (live a.engine) t.2 none := by
  obtain ⟨hok, hupdate⟩ := h.delete a.engine t.2 hlive
  refine ⟨{ a with
    engine := (Engine.answer (.deleteStoppoint t.2) a.engine).2
    session := (a.session.forget t.2).2 }, ?_, rfl, hupdate⟩
  rw [deleteTarget, bind_of_ok (ask_apply _ a), hok]
  rfl

theorem deleteTarget_of_gone (h : Engine.Serves live enable) {t : Nat × Handle}
    (hgone : live a.engine t.2 = none) :
    ∃ e b, deleteTarget t a = .error e b ∧ live b.engine = live a.engine := by
  obtain ⟨⟨cause, herror⟩, hsame⟩ := h.refuse a.engine t.2 hgone
  refine ⟨.engine cause, { a with engine := (Engine.answer (.deleteStoppoint t.2) a.engine).2 },
    ?_, hsame⟩
  rw [deleteTarget, bind_of_ok (ask_apply _ a), herror]
  rfl

theorem deleteEach_of_nodup (h : Engine.Serves live enable) {targets : List (Nat × Handle)}
    (hlive : ∀ t ∈ targets, live a.engine t.2 ≠ none) (hnodup : (targets.map (·.2)).Nodup) :
    ∃ b, targets.forM deleteTarget a = .ok ⟨⟩ b ∧
      b.session = targets.foldl (fun s t => (s.forget t.2).2) a.session ∧
      ∀ handle, live b.engine handle =
        if handle ∈ targets.map (·.2) then none else live a.engine handle := by
  induction targets generalizing a with
  | nil => exact ⟨a, rfl, rfl, by simp⟩
  | cons first targets ih =>
      rw [List.map_cons, List.nodup_cons] at hnodup
      obtain ⟨b, hdelete, hsession, hengine⟩ :=
        deleteTarget_of_live h (hlive first List.mem_cons_self)
      have hrest : ∀ t ∈ targets, live b.engine t.2 ≠ none := by
        intro t ht
        have hne : t.2 ≠ first.2 := by
          intro heq
          exact hnodup.1 (heq ▸ List.mem_map_of_mem ht)
        rw [hengine, Function.update_of_ne hne]
        exact hlive t (List.mem_cons_of_mem first ht)
      obtain ⟨c, hforM, hcsession, hcengine⟩ := ih hrest hnodup.2
      refine ⟨c, (bind_of_ok hdelete _).trans hforM, ?_, fun handle => ?_⟩
      · rw [hcsession, hsession, List.foldl_cons]
      · rw [hcengine, hengine, Function.update_apply]
        by_cases heq : handle = first.2
        · simp [heq]
        · simp only [List.map_cons, List.mem_cons, heq, if_false, false_or]

/-- A stoppoint that is gone stops the deletion, and does not come back. -/
theorem deleteEach_of_gone (h : Engine.Serves live enable) {targets : List (Nat × Handle)}
    {handle : Handle} (hmem : handle ∈ targets.map (·.2)) (hgone : live a.engine handle = none) :
    ∃ e b, targets.forM deleteTarget a = .error e b ∧ live b.engine handle = none := by
  induction targets generalizing a with
  | nil => simp at hmem
  | cons first targets ih =>
      by_cases hfirst : live a.engine first.2 = none
      · obtain ⟨e, b, hdelete, hengine⟩ := deleteTarget_of_gone h hfirst
        exact ⟨e, b, bind_of_error hdelete _, by rw [hengine, hgone]⟩
      · obtain ⟨b, hdelete, -, hengine⟩ := deleteTarget_of_live h hfirst
        have hne : handle ≠ first.2 := by
          rintro rfl
          exact hfirst hgone
        have hrest : handle ∈ targets.map (·.2) := by
          rw [List.map_cons, List.mem_cons] at hmem
          exact hmem.resolve_left hne
        have hstill : live b.engine handle = none := by
          rw [hengine, Function.update_of_ne hne, hgone]
        obtain ⟨e, c, hforM, hc⟩ := ih hrest hstill
        exact ⟨e, c, (bind_of_ok hdelete _).trans hforM, hc⟩

/-- A repeated stoppoint stops the deletion when it is gone already. -/
theorem deleteEach_of_repeated (h : Engine.Serves live enable) {targets : List (Nat × Handle)}
    (hlive : ∀ t ∈ targets, live a.engine t.2 ≠ none) (hrepeated : ¬ (targets.map (·.2)).Nodup) :
    ∃ e b, targets.forM deleteTarget a = .error e b ∧
      ∃ t ∈ targets, live b.engine t.2 = none := by
  induction targets generalizing a with
  | nil => simp at hrepeated
  | cons first targets ih =>
      obtain ⟨b, hdelete, -, hengine⟩ := deleteTarget_of_live h (hlive first List.mem_cons_self)
      by_cases hmem : first.2 ∈ targets.map (·.2)
      · have hgone : live b.engine first.2 = none := by rw [hengine, Function.update_self]
        obtain ⟨e, c, hforM, hc⟩ := deleteEach_of_gone h hmem hgone
        exact ⟨e, c, (bind_of_ok hdelete _).trans hforM, first, List.mem_cons_self, hc⟩
      · have hrest : ∀ t ∈ targets, live b.engine t.2 ≠ none := by
          intro t ht
          have hne : t.2 ≠ first.2 := by
            intro heq
            exact hmem (heq ▸ List.mem_map_of_mem ht)
          rw [hengine, Function.update_of_ne hne]
          exact hlive t (List.mem_cons_of_mem first ht)
        rw [List.map_cons, List.nodup_cons] at hrepeated
        obtain ⟨e, c, hforM, t, ht, hc⟩ := ih hrest fun hnodup => hrepeated ⟨hmem, hnodup⟩
        exact ⟨e, c, (bind_of_ok hdelete _).trans hforM, t, List.mem_cons_of_mem first ht, hc⟩

theorem leads_deleteAll (h : Engine.Serves live enable) (numbers : List Int)
    (hs : a.session.Consistent) :
    Leads (deleteAll numbers) a
      (fun _ b => numbers.Nodup ∧
        (Command.delete numbers).Applied numbers enable a.session (live a.engine) b.session
          (live b.engine))
      (fun b =>
        ((¬ ∀ n ∈ numbers, ∃ id p, a.session.Refers (live a.engine) n id p) ∧
          b.session = a.session ∧ live b.engine = live a.engine) ∨
        ((∀ n ∈ numbers, ∃ id p, a.session.Refers (live a.engine) n id p) ∧ ¬ numbers.Nodup ∧
          live b.engine ≠ live a.engine)) := by
  have hresolve := leads_resolveAll h "breakpoint" numbers (a := a) rfl rfl
  rw [deleteAll_eq]
  refine (hresolve.mono (fun _ _ hb => hb) fun _ hb => .inl hb).bind fun targets b hb => ?_
  obtain ⟨htargets, hsession, hengine⟩ := hb
  have hlive : ∀ t ∈ targets, live b.engine t.2 ≠ none := hengine ▸ htargets.live
  by_cases hnodup : numbers.Nodup
  · have hhandles := (htargets.nodup_iff hs).mpr hnodup
    obtain ⟨c, hforM, hcsession, hcengine⟩ := deleteEach_of_nodup h hlive hhandles
    rw [hengine] at hcengine
    rw [hsession] at hcsession
    have happlied : (Command.delete numbers).Applied numbers enable a.session (live a.engine)
        c.session (live c.engine) := by
      rw [hcsession]
      exact htargets.deleted hs hhandles hcengine
    exact leads_bind_of_ok hforM (leads_pure ⟨hnodup, happlied⟩)
  · have hrepeated := fun hhandles => hnodup ((htargets.nodup_iff hs).mp hhandles)
    obtain ⟨e, c, hforM, t, ht, hgone⟩ := deleteEach_of_repeated h hlive hrepeated
    refine leads_bind_of_error hforM (.inr ⟨?_, hnodup, fun heq => ?_⟩)
    · intro n hn
      obtain ⟨t, ht, p, hp, rfl, -⟩ := htargets.exists_of_mem hn
      exact ⟨t.1, p, hp⟩
    · rw [heq] at hgone
      exact htargets.live t ht hgone

/-! ### Enabling -/

/-- Enable or disable a resolved stoppoint. -/
def enableTarget (enabled : Bool) (t : Nat × Handle) : Act σ τ PUnit := do
  demand (← ask (.setEnabled t.2 enabled))
  updateStoppoint t.1 ({ · with enabled })

theorem enableAll_eq (enabled : Bool) (numbers : List Int) :
    (enableAll enabled numbers : Act σ τ Results) = do
      (← resolveAll "breakpoint" numbers).forM (enableTarget enabled)
      return [] :=
  rfl

/-- Live stoppoints are enabled as often as they are listed. -/
theorem enableEach_of_live (h : Engine.Serves live enable) (enabled : Bool)
    {targets : List (Nat × Handle)} (hlive : ∀ t ∈ targets, live a.engine t.2 ≠ none) :
    ∃ b, targets.forM (enableTarget enabled) a = .ok ⟨⟩ b ∧
      b.session = targets.foldl (fun s t => (s.update t.1 ({ · with enabled })).2) a.session ∧
      ∀ handle, live b.engine handle =
        (live a.engine handle).map (enable enabled)^[(targets.map (·.2)).count handle] := by
  induction targets generalizing a with
  | nil => exact ⟨a, rfl, rfl, by simp⟩
  | cons first targets ih =>
      obtain ⟨hok, hengine⟩ := h.enable a.engine first.2 enabled (hlive first List.mem_cons_self)
      let b : Adapter σ τ := { a with
        engine := (Engine.answer (.setEnabled first.2 enabled) a.engine).2
        session := (a.session.update first.1 ({ · with enabled })).2 }
      have henable : enableTarget enabled first a = .ok ⟨⟩ b := by
        rw [enableTarget, bind_of_ok (ask_apply _ a), hok]
        rfl
      have hb : live b.engine = Function.update (live a.engine) first.2
          ((live a.engine first.2).map (enable enabled)) := hengine
      have hrest : ∀ t ∈ targets, live b.engine t.2 ≠ none := by
        intro t ht
        rw [hb, Function.update_apply]
        split
        · simpa using hlive first List.mem_cons_self
        · exact hlive t (List.mem_cons_of_mem first ht)
      obtain ⟨c, hforM, hcsession, hcengine⟩ := ih hrest
      refine ⟨c, (bind_of_ok henable _).trans hforM, hcsession, fun handle => ?_⟩
      rw [hcengine, hb, Function.update_apply, List.map_cons, List.count_cons]
      by_cases heq : handle = first.2
      · simp [heq, Function.iterate_succ]
      · simp [heq, Ne.symm heq]

theorem leads_enableAll (h : Engine.Serves live enable) (enabled : Bool) (numbers : List Int)
    (hs : a.session.Consistent) :
    Leads (enableAll enabled numbers) a
      (fun _ b => (Command.enable enabled numbers).Applied numbers enable a.session
        (live a.engine) b.session (live b.engine))
      (fun b => b.session = a.session ∧ live b.engine = live a.engine) := by
  have hresolve := leads_resolveAll h "breakpoint" numbers (a := a) rfl rfl
  rw [enableAll_eq]
  refine (hresolve.mono (fun _ _ hb => hb) fun _ hb => hb.2).bind fun targets b hb => ?_
  obtain ⟨htargets, hsession, hengine⟩ := hb
  have hlive : ∀ t ∈ targets, live b.engine t.2 ≠ none := hengine ▸ htargets.live
  obtain ⟨c, hforM, hcsession, hcengine⟩ := enableEach_of_live h enabled hlive
  rw [hengine] at hcengine
  rw [hsession] at hcsession
  have happlied := htargets.enabled hs enabled hcengine
  rw [← hcsession] at happlied
  exact leads_bind_of_ok hforM (leads_pure happlied)

end Act

/-- **Batches**: on an engine that serves its stoppoints, whatever has happened
before, a command on several numbers is answered.  Either it is done and applied
to all of them, or it is an error and everything is as it was, except in one
case: a deletion of stoppoints that are all there but listed more than once. -/
theorem Adapter.batch_of_run [Engine σ] [Sink τ] {live : σ → Handle → Option γ}
    {enable : Bool → γ → γ} (h : Engine.Serves live enable) (config : Config) (engine : σ)
    (sink : τ) (register : Register) (stimuli : List (Stimulus σ)) {text : String}
    {command : Command} {numbers : List Int} (hcommand : register.command? text = some command)
    (hnumbers : command.numbers? = some numbers) :
    let a := (Adapter.new config engine sink).run register stimuli
    let b := (Act.handleLine register text).after a
    ∃ record, a.answer? register text = some record ∧
      (((record.resultClass = .done ∧
          command.Applied numbers enable a.session (live a.engine) b.session (live b.engine)) ∨
        (record.resultClass = .error ∧ b.session = a.session ∧
          live b.engine = live a.engine)) ↔
        ¬ (command = .delete numbers ∧
          (∀ n ∈ numbers, ∃ id p, a.session.Refers (live a.engine) n id p) ∧
          ¬ numbers.Nodup)) := by
  intro a b
  have hs : a.session.Consistent :=
    (Adapter.consistent_run config engine sink register stimuli).1
  obtain ⟨journal, hsession, hengine, hanswered⟩ := Act.handleLine_of_command? hcommand a
  have hbsession : b.session = ((Act.perform command).after { a with journal }).session := hsession
  have hbengine : b.engine = ((Act.perform command).after { a with journal }).engine := hengine
  rw [hbsession, hbengine]
  cases command with
  | delete numbers' =>
      obtain rfl : numbers' = numbers := Option.some.inj hnumbers
      have hdelete := Act.leads_deleteAll h numbers' (a := { a with journal }) hs
      obtain ⟨results, c, hperform, token, hrecord⟩ | ⟨e, c, hperform, token, message, hrecord⟩ :=
        hanswered
      · obtain ⟨hnodup, happlied⟩ := hdelete.of_ok hperform
        rw [Act.after_of_ok hperform]
        refine ⟨_, hrecord, iff_of_true (.inl ⟨rfl, happlied⟩) ?_⟩
        rintro ⟨-, -, hrepeated⟩
        exact hrepeated hnodup
      · rw [Act.after_of_error hperform]
        obtain ⟨hmissing, hsame⟩ | ⟨hfound, hrepeated, hchanged⟩ := hdelete.of_error hperform
        · refine ⟨_, hrecord, iff_of_true (.inr ⟨rfl, hsame⟩) ?_⟩
          rintro ⟨-, hfound, -⟩
          exact hmissing hfound
        · refine ⟨_, hrecord, iff_of_false ?_ (not_not_intro ⟨rfl, hfound, hrepeated⟩)⟩
          rintro (⟨hdone, -⟩ | ⟨-, -, hsame⟩)
          · cases hdone
          · exact hchanged hsame
  | enable enabled numbers' =>
      obtain rfl : numbers' = numbers := Option.some.inj hnumbers
      have henable := Act.leads_enableAll h enabled numbers' (a := { a with journal }) hs
      have hother : ¬ (Command.enable enabled numbers' = .delete numbers' ∧
          (∀ n ∈ numbers', ∃ id p, a.session.Refers (live a.engine) n id p) ∧
          ¬ numbers'.Nodup) := by
        rintro ⟨⟨⟩, -⟩
      obtain ⟨results, c, hperform, token, hrecord⟩ | ⟨e, c, hperform, token, message, hrecord⟩ :=
        hanswered
      · have happlied := henable.of_ok hperform
        rw [Act.after_of_ok hperform]
        exact ⟨_, hrecord, iff_of_true (.inl ⟨rfl, happlied⟩) hother⟩
      · have hsame := henable.of_error hperform
        rw [Act.after_of_error hperform]
        exact ⟨_, hrecord, iff_of_true (.inr ⟨rfl, hsame⟩) hother⟩
  | _ => cases hnumbers

namespace Ledger

/-- A deletion that lists a breakpoint twice is answered with an error, and the
breakpoint is gone. -/
theorem batch_broken_off :
    let a := (Adapter.new {} ({} : Ledger) Discard.discard).run .standard
      [.line "break-insert main"]
    let b := (Act.handleLine .standard "break-delete 1 1").after a
    ∃ record, a.answer? .standard "break-delete 1 1" = some record ∧
      (a.session.stoppoint? 1).isSome ∧ (b.session.stoppoint? 1).isNone ∧
      ¬ ((record.resultClass = .done ∧
          (Command.delete [1, 1]).Applied [1, 1] (fun enabled h => { h with enabled })
            a.session a.engine.held b.session b.engine.held) ∨
        (record.resultClass = .error ∧ b.session = a.session ∧
          b.engine.held = a.engine.held)) := by
  intro a b
  have hevaluated : (a.answer? .standard "break-delete 1 1").map (·.resultClass) = some .error ∧
      (a.session.stoppoint? 1).isSome ∧ (b.session.stoppoint? 1).isNone := by decide +kernel
  obtain ⟨hanswer, hbefore, hbehind⟩ := hevaluated
  obtain ⟨record, hrecord, herror⟩ := Option.map_eq_some_iff.mp hanswer
  refine ⟨record, hrecord, hbefore, hbehind, ?_⟩
  rintro (⟨hdone, -⟩ | ⟨-, hsession, -⟩)
  · rw [herror] at hdone
    cases hdone
  · rw [hsession] at hbehind
    cases hp : a.session.stoppoint? 1 with
    | none => simp [hp] at hbefore
    | some p => simp [hp] at hbehind

/-- Disabling may list a breakpoint twice. -/
theorem batch_of_run_ledger :
    let a := (Adapter.new {} ({} : Ledger) Discard.discard).run .standard
      (["break-insert main", "break-insert f"].map .line)
    let b := (Act.handleLine .standard "break-disable 1 2 1").after a
    (Command.enable false [1, 2, 1]).Applied [1, 2, 1] (fun enabled h => { h with enabled })
      a.session a.engine.held b.session b.engine.held := by
  intro a b
  have hevaluated : Register.standard.command? "break-disable 1 2 1" =
        some (.enable false [1, 2, 1]) ∧
      (a.answer? .standard "break-disable 1 2 1").map (·.resultClass) = some .done := by
    decide +kernel
  obtain ⟨hcommand, hdone⟩ := hevaluated
  obtain ⟨record, hrecord, hiff⟩ := Adapter.batch_of_run keeps.serves {} ({} : Ledger)
    Discard.discard .standard (["break-insert main", "break-insert f"].map .line) hcommand rfl
  rw [hrecord, Option.map_some] at hdone
  obtain ⟨-, happlied⟩ | ⟨herror, -⟩ := hiff.mpr fun hrepeated => nomatch hrepeated.1
  · with_reducible exact happlied
  · rw [herror] at hdone
    cases hdone

end Ledger

end MachineInterface
