import MachineInterface.Proofs.Commands

/-!
# MachineInterface.Proofs.Runs

Whole runs of an adapter: command lines and notifications in any order, and an
engine that moves between them as it likes.  Whatever single steps of a session
preserve (`Session.Step`) holds behind every run (`Adapter.run_invariant`), and a
transcript of the run holds the lines of what was written (`Adapter.transcript_of_run`).
-/

namespace MachineInterface

variable {σ τ : Type}

/-- What happens to an adapter. -/
inductive Stimulus (σ : Type)
  /-- The client writes a line. -/
  | line (text : String)
  /-- The engine tells something. -/
  | notification (notification : Notification)
  /-- The engine moves on while the adapter waits. -/
  | engine (state : σ)

namespace Act

variable [Engine σ] [Sink τ]

/-- Do what a stimulus asks for. -/
def respond (register : Register) : Stimulus σ → Act σ τ Unit
  | .line text => do let _ ← handleLine register text
  | .notification notification => handle notification
  | .engine state => modify ({ · with engine := state })

theorem walks_respond (register : Register) (stimulus : Stimulus σ) :
    Walks Session.Step Engine.Any (respond register stimulus : Act σ τ Unit) := by
  cases stimulus with
  | line text => exact (walks_handleLine register text).bind fun _ => walks_pure _
  | notification n =>
      exact (walks_handle n).mono (fun _ _ _ h => .command (.stoppoints (.notification n h)))
        fun _ _ _ => trivial
  | engine state => exact fun _ => .single (.engine trivial)

end Act

namespace Adapter

variable [Engine σ] [Sink τ]

/-- Respond to stimuli one after the other, whether the answers are successes
or failures. -/
def run (register : Register) (a : Adapter σ τ) (stimuli : List (Stimulus σ)) : Adapter σ τ :=
  stimuli.foldl (fun a stimulus => (Act.respond register stimulus).after a) a

@[simp] theorem run_nil (register : Register) (a : Adapter σ τ) : a.run register [] = a := rfl

@[simp] theorem run_cons (register : Register) (a : Adapter σ τ) (stimulus : Stimulus σ)
    (stimuli : List (Stimulus σ)) :
    a.run register (stimulus :: stimuli) =
      ((Act.respond register stimulus).after a).run register stimuli :=
  rfl

/-- A run changes the session only as commands and notifications do. -/
theorem moves_run (register : Register) (a : Adapter σ τ) (stimuli : List (Stimulus σ)) :
    Adapter.Moves Session.Step Engine.Any a (a.run register stimuli) := by
  induction stimuli generalizing a with
  | nil => exact .refl
  | cons stimulus stimuli ih => exact (Act.walks_respond register stimulus a).trans (ih _)

/-- What single steps of a session preserve holds behind every run. -/
theorem run_invariant {I : Session → Prop} (hI : ∀ {r} s t, I s → Session.Step s r t → I t)
    (register : Register) {a : Adapter σ τ} (ha : I a.session) (stimuli : List (Stimulus σ)) :
    I (a.run register stimuli).session :=
  (moves_run register a stimuli).session_invariant hI ha

/-- Whatever happens, a transcript grows by the lines of the records that are written, in
their order, and by nothing else. -/
theorem transcript_of_run (register : Register) (a : Adapter σ Transcript)
    (stimuli : List (Stimulus σ)) :
    let b := a.run register stimuli
    ∃ records, b.written = a.written ++ records ∧
      b.output.sink.text =
        a.output.sink.text ++ String.join (records.map fun record => record.text ++ "\n") := by
  obtain ⟨records, hprints⟩ := (moves_run register a stimuli).prints
  have htext := hprints.takes.text
  rw [List.map_map] at htext
  exact ⟨records, hprints.written, htext⟩

end Adapter

end MachineInterface
