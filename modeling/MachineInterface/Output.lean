import MachineInterface.Record

/-!
# MachineInterface.Output

Where records go.  Each record is written as a line of its own, a prompt
behind it where one is due, and then the sink is flushed.
-/

namespace MachineInterface

/-- A destination of lines with states `τ`. -/
class Sink (τ : Type) where
  writeLine : String → τ → Except String Unit × τ
  flush : τ → Except String Unit × τ

/-- A sink that accepts every line and keeps none. -/
inductive Discard
  | discard

instance : Sink Discard where
  writeLine _ sink := (.ok (), sink)
  flush sink := (.ok (), sink)

/-- A sink that keeps the text of all lines. -/
structure Transcript where
  text : String := ""

instance : Sink Transcript where
  writeLine line sink := (.ok (), ⟨sink.text ++ line ++ "\n"⟩)
  flush sink := (.ok (), sink)

namespace Sink

/-- A sink that never refuses anything. -/
class Reliable (τ : Type) [Sink τ] : Prop where
  writeLine_ok : ∀ (text : String) (sink : τ), (Sink.writeLine text sink).1 = .ok ()
  flush_ok : ∀ sink : τ, (Sink.flush sink).1 = .ok ()

instance : Reliable Discard where
  writeLine_ok _ _ := rfl
  flush_ok _ := rfl

instance : Reliable Transcript where
  writeLine_ok _ _ := rfl
  flush_ok _ := rfl

/-- The sink is given these lines in their order and no other, and accepts them;
it may be flushed in between. -/
inductive Takes {τ : Type} [Sink τ] : τ → List String → τ → Prop
  | nil (sink : τ) : Takes sink [] sink
  | line {sink next last : τ} {line : String} {lines : List String}
    (hline : writeLine line sink = (.ok (), next)) (h : Takes next lines last) :
    Takes sink (line :: lines) last
  | flush {sink last : τ} {lines : List String} (h : Takes (flush sink).2 lines last) :
    Takes sink lines last

theorem Takes.append {τ : Type} [Sink τ] {sink next last : τ} {lines more : List String}
    (h : Takes sink lines next) (hmore : Takes next more last) :
    Takes sink (lines ++ more) last := by
  induction h with
  | nil => exact hmore
  | line hline _ ih => exact .line hline (ih hmore)
  | flush _ ih => exact .flush (ih hmore)

/-- A transcript grows by exactly the lines that it takes. -/
theorem Takes.text {sink last : Transcript} {lines : List String} (h : Takes sink lines last) :
    last.text = sink.text ++ String.join (lines.map fun line => line ++ "\n") := by
  induction h with
  | nil => simp
  | line hline _ ih =>
      cases hline
      simp [ih, String.append_assoc]
  | flush _ ih => exact ih

end Sink

/-- A sink and what it has accepted so far. -/
structure Output (τ : Type) where
  /-- Prompt the client behind each result and each stop. -/
  prompt : Bool
  sink : τ
  written : Array Record := #[]

namespace Output

/-- The lines of a record: the record and the prompt that is due behind it. -/
def recordsOf (prompt : Bool) (record : Record) : List Record :=
  if record.isPrompted && prompt then [record, .prompt] else [record]

variable {τ : Type} [Sink τ]

/-- Write lines in order, up to the first that the sink refuses. -/
def writeAll (output : Output τ) : List Record → Except String Unit × Output τ
  | [] => (.ok (), output)
  | record :: records =>
    match Sink.writeLine record.text output.sink with
    | (.ok (), sink) =>
      writeAll { output with sink, written := output.written.push record } records
    | (.error text, sink) => (.error text, { output with sink })

/-- Write a record with its prompt and flush the sink. -/
def write (output : Output τ) (record : Record) : Except String Unit × Output τ :=
  match writeAll output (recordsOf output.prompt record) with
  | (.ok (), output) =>
    let (result, sink) := Sink.flush output.sink
    (result, { output with sink })
  | (.error text, output) => (.error text, output)

/-- What is accepted of several lines is a beginning of them, and all of them
unless the sink refuses one. -/
theorem writeAll_eq (output : Output τ) (records : List Record) : ∃ accepted sink,
    accepted <+: records ∧
    (output.writeAll records).2 = { output with sink, written := output.written ++ accepted } ∧
    ((output.writeAll records).1 = .ok () → accepted = records) := by
  induction records generalizing output with
  | nil => exact ⟨[], output.sink, List.prefix_rfl, by simp [writeAll], fun _ => rfl⟩
  | cons record records ih =>
      simp only [writeAll]
      rcases Sink.writeLine record.text output.sink with ⟨_ | _, sink⟩
      · exact ⟨[], sink, List.nil_prefix, by simp, nofun⟩
      · obtain ⟨accepted, sink', hprefix, heq, hall⟩ :=
          ih { output with sink, written := output.written.push record }
        refine ⟨record :: accepted, sink', (List.prefix_cons_inj record).mpr hprefix, ?_, ?_⟩
        · simp [heq]
        · exact fun hok => congrArg (record :: ·) (hall hok)

/-- What is accepted of a record with its prompt is a beginning of its lines,
and all of them unless the sink refuses one. -/
theorem write_eq (output : Output τ) (record : Record) : ∃ accepted sink,
    accepted <+: recordsOf output.prompt record ∧
    (output.write record).2 = { output with sink, written := output.written ++ accepted } ∧
    ((output.write record).1 = .ok () → accepted = recordsOf output.prompt record) := by
  obtain ⟨accepted, sink, hprefix, heq, hall⟩ := writeAll_eq output (recordsOf output.prompt record)
  rcases hwrite : output.writeAll (recordsOf output.prompt record) with ⟨_ | _, output'⟩
  · rw [hwrite] at heq hall
    exact ⟨accepted, sink, hprefix, by simp [write, hwrite, heq], by simp [write, hwrite]⟩
  · rw [hwrite] at heq hall
    obtain rfl : output' = { output with sink, written := output.written ++ accepted } := heq
    exact ⟨accepted, (Sink.flush sink).2, hprefix, by simp [write, hwrite], fun _ => hall rfl⟩

end Output

end MachineInterface
