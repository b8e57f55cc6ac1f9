import Std.Data.String.ToNat
import MachineInterface.Record
import MachineInterface.Session

/-!
# MachineInterface.Proofs.Mentions

The stoppoints that records speak of, by their numbers (`Record.Mentions`), and
what a session has to know of a stoppoint before a record may mention it
(`Session.Supports`).
-/

namespace MachineInterface

/-! ## Numbers in results -/

namespace Results

/-- The names under which results describe a stoppoint. -/
def stoppointNames : List String := ["bkpt", "wpt", "hw-rwpt", "hw-awpt"]

/-- The results describe the stoppoint with a number, or name it as the
breakpoint of a stop. -/
def Mention (results : Results) (n : Nat) : Prop :=
  numberField "bkptno" n ∈ results ∨
    ∃ name ∈ stoppointNames, ∃ fields : Results,
      (name, .tuple fields) ∈ results ∧ numberField "number" n ∈ fields

/-- A name under which no stoppoint is mentioned. -/
def isPlainName (name : String) : Bool := name ∉ "bkptno" :: stoppointNames

/-- All names in the results are plain. -/
def Plain (results : Results) : Prop := ∀ f ∈ results, isPlainName f.1

variable {results more : Results} {n : Nat}

@[simp] theorem plain_nil : Plain [] := nofun

@[simp] theorem plain_cons {f : String × Value} :
    Plain (f :: results) ↔ isPlainName f.1 ∧ Plain results :=
  List.forall_mem_cons

@[simp] theorem plain_append : Plain (results ++ more) ↔ Plain results ∧ Plain more :=
  List.forall_mem_append

theorem Plain.not_mention (h : Plain results) : ¬ Mention results n := by
  rintro (hbkptno | ⟨name, hname, fields, hfields, -⟩)
  · have hplain : isPlainName "bkptno" = true := h _ hbkptno
    exact absurd hplain (by decide)
  · have hplain := h _ hfields
    simp only [isPlainName, decide_eq_true_eq] at hplain
    exact hplain (List.mem_cons_of_mem _ hname)

/-- Plain results add nothing that is mentioned. -/
theorem Mention.of_append (h : Mention (results ++ more) n) (hmore : more.Plain) :
    Mention results n := by
  have hnot := hmore.not_mention (n := n)
  simp only [Mention, List.mem_append] at h hnot ⊢
  grind

theorem numberField_inj {name : String} {m n : Nat} :
    numberField name m = numberField name n ↔ m = n := by
  simp [numberField, Nat.repr_inj]

/-- A tuple mentions the stoppoint with the number in it. -/
theorem eq_of_mention_tuple {name : String} {fields : Results} {id : Nat}
    (h : Mention [(name, .tuple fields)] n)
    (hid : ∀ m, numberField "number" m ∈ fields → m = id) : n = id := by
  obtain hbkptno | ⟨_, -, fields', hfields, hnumber⟩ := h
  · simp [numberField] at hbkptno
  · obtain ⟨-, rfl⟩ : _ ∧ fields' = fields := by simpa using hfields
    exact hid n hnumber

end Results

namespace Stoppoint

/-- The number in the description of a stoppoint is its own. -/
theorem eq_id_of_mem_results {p : Stoppoint} {n : Nat} (h : numberField "number" n ∈ p.results) :
    n = p.id := by
  unfold results whereabouts at h
  cases hwatch : p.watch <;> cases hpending : p.pending <;> cases hthread : p.thread <;>
    cases hcondition : p.condition <;>
    simp_all [numberField, field, Nat.repr_inj]

theorem eq_id_of_mem_watchResults {p : Stoppoint} {n : Nat}
    (h : numberField "number" n ∈ p.watchResults) : n = p.id := by
  obtain h | h := List.mem_cons.mp h
  · exact Results.numberField_inj.mp h
  · simp [numberField, field] at h

end Stoppoint

/-! ## Numbers in records -/

/-- The text about new places of the stoppoint with a number. -/
def placesText (count n : Nat) : String :=
  s!"{count} location(s) added to breakpoint {n}\n"

/-- The text about new places names one stoppoint only. -/
theorem eq_of_placesText_eq {count count' m n : Nat}
    (h : placesText count m = placesText count' n) : m = n := by
  have hdigits : ∀ k : Nat, ∀ d ∈ Nat.toDigits 10 k, d.isDigit = true :=
    fun k d hd => Nat.isDigit_of_mem_toDigits (by decide) (by decide) hd
  have hlists := congrArg String.toList h
  simp only [placesText, String.toList_append, Nat.toString_eq_ofList_toDigits,
    String.toList_ofList, List.append_assoc] at hlists
  have hblank : ∀ cs : List Char, ∀ c ∈ (" location(s) added to breakpoint ".toList ++ cs).head?,
      c.isDigit = false := by
    rintro cs c ⟨⟩
    rfl
  have hend : ∀ c ∈ ['\n'].head?, c.isDigit = false := by simp
  have hbehind := (Text.run_append_inj (hdigits count) (hdigits count') (hblank _) (hblank _)
    hlists).2
  have hnumbers : Nat.toDigits 10 m ++ ['\n'] = Nat.toDigits 10 n ++ ['\n'] :=
    List.append_cancel_left hbehind
  have heq := (Text.run_append_inj (hdigits m) (hdigits n) hend hend hnumbers).1
  rw [← Nat.ofDigitChars_ten_toDigits (n := m), heq, Nat.ofDigitChars_ten_toDigits]

namespace Record

/-- The record of the deletion of a stoppoint. -/
def deletion (id : Nat) : Record := .async ⟨.breakpointDeleted, [numberField "id" id]⟩

/-- The record tells that the stoppoint with a number is deleted. -/
def Deletes (n : Nat) : Record → Prop
  | .async record => record.kind = .breakpointDeleted ∧ numberField "id" n ∈ record.results
  | _ => False

/-- The record speaks of the stoppoint with a number. -/
def Mentions (n : Nat) : Record → Prop
  | .result record => record.results.Mention n
  | .async record => record.results.Mention n ∨ (Record.async record).Deletes n
  | .stream record => ∃ count, record.text = placesText count n
  | .prompt => False

theorem mentions_deletion_iff {id n : Nat} : (deletion id).Mentions n ↔ n = id := by
  simp [deletion, Mentions, Deletes, Results.Mention, Results.stoppointNames, numberField,
    Nat.repr_inj]

/-- What tells of a deletion mentions the stoppoint. -/
theorem Deletes.mentions {record : Record} {n : Nat} (h : record.Deletes n) :
    record.Mentions n := by
  cases record with
  | async record => exact .inr h
  | result record => cases h
  | stream record => cases h
  | prompt => cases h

end Record

/-! ## What a session knows -/

namespace Session

variable {s : Session}

/-- A number that the session has given to a handle, or that stands in the
record under such a number. -/
def Knows (s : Session) (n : Nat) : Prop :=
  ∃ handle id, s.id? handle = some id ∧ (n = id ∨ ∃ p, s.stoppoint? id = some p ∧ n = p.id)

/-- The session knows the stoppoints that the results mention. -/
def Covers (s : Session) (results : Results) : Prop := ∀ n, results.Mention n → s.Knows n

theorem covers_plain {results : Results} (h : results.Plain) : s.Covers results :=
  fun _ hn => (h.not_mention hn).elim

/-- The record is no answer and tells of no deletion, and the session knows the
stoppoints that it mentions. -/
structure Supports (s : Session) (record : Record) : Prop where
  not_result : ∀ answer, record ≠ .result answer
  not_deletes : ∀ n, ¬ record.Deletes n
  knows : ∀ n, record.Mentions n → s.Knows n

theorem supports_async {kind : AsyncKind} {results : Results} (hkind : kind ≠ .breakpointDeleted)
    (h : s.Covers results) : s.Supports (.async ⟨kind, results⟩) where
  not_result := nofun
  not_deletes _ hdeletes := hkind hdeletes.1
  knows n hn := hn.elim (h n) fun hdeletes => (hkind hdeletes.1).elim

/-- A record that mentions nothing needs no support. -/
theorem supports_plain {kind : AsyncKind} {results : Results} (hkind : kind ≠ .breakpointDeleted)
    (h : results.Plain) : s.Supports (.async ⟨kind, results⟩) :=
  supports_async hkind (covers_plain h)

/-- A session supports the description of a stoppoint that it has recorded. -/
theorem supports_bkpt {kind : AsyncKind} (hkind : kind ≠ .breakpointDeleted) {handle : Handle}
    {id : Nat} {p : Stoppoint} (hid : s.id? handle = some id) (hp : s.stoppoint? id = some p) :
    s.Supports (.async ⟨kind, [("bkpt", .tuple p.results)]⟩) := by
  refine supports_async hkind fun n hn => ⟨handle, id, hid, .inr ⟨p, hp, ?_⟩⟩
  exact Results.eq_of_mention_tuple hn fun _ => Stoppoint.eq_id_of_mem_results

/-- A session supports the text about new places of a stoppoint that it has
numbered. -/
theorem supports_places {handle : Handle} {id : Nat} (hid : s.id? handle = some id) (count : Nat) :
    s.Supports (.stream ⟨.console, placesText count id⟩) where
  not_result := nofun
  not_deletes _ h := h.elim
  knows n hn := by
    obtain ⟨count', heq⟩ := hn
    exact ⟨handle, id, hid, .inl (eq_of_placesText_eq heq).symm⟩

end Session

end MachineInterface
