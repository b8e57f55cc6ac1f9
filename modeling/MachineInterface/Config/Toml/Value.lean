/-!
# MachineInterface.Config.Toml.Value

The values of a TOML document, and how the lines of a document build its
tables.  No line may define a key a second time; which tables may still grow
depends on how they came about.
-/

namespace MachineInterface.Toml

/-- How a table came about. -/
inductive Opening
  /-- Written as a value; nothing may be added to it. -/
  | inline
  /-- By a dotted key; other dotted keys may add to it. -/
  | dotted
  /-- By the header of a table inside it; it may get a header of its own. -/
  | implied
  /-- By its header. -/
  | header
deriving DecidableEq, Repr, Inhabited

/-- A value.  No setting needs an array with items, a float or a date, so there
are none. -/
inductive Value
  | string (text : String)
  | integer (n : Int)
  | boolean (b : Bool)
  | emptyArray
  | table (opening : Opening) (entries : List (String × Value))
deriving Repr, Inhabited

/-- The entries of a table; no key occurs twice. -/
abbrev Entries := List (String × Value)

/-- An array without items or a table without entries. -/
def Value.isEmpty : Value → Bool
  | emptyArray => true
  | table _ [] => true
  | _ => false

/-! ## Building tables -/

/-- Change the value of a key; `change` gets the old value, if there is one, and
may refuse. -/
def alter (key : String) (change : Option Value → Option Value) : Entries → Option Entries
  | [] => (change none).map fun value => [(key, value)]
  | (name, old) :: entries =>
    if name = key then (change (some old)).map fun value => (name, value) :: entries
    else (alter key change entries).map ((name, old) :: ·)

/-- Enter a value under a dotted key. -/
def put (value : Value) : (key : List String) → Entries → Option Entries
  | [], _ => none
  | [name], entries => alter name (fun
    | none => some value
    | some _ => none) entries
  | name :: key, entries => alter name (fun
    | none => (put value key []).map (.table .dotted)
    | some (.table .dotted inner) => (put value key inner).map (.table .dotted)
    | some _ => none) entries

/-- Enter a value under a dotted key below an open table. -/
def putBelow (value : Value) (key : List String) :
    (path : List String) → Entries → Option Entries
  | [], entries => put value key entries
  | name :: path, entries => alter name (fun
    | some (.table opening inner) => (putBelow value key path inner).map (.table opening)
    | _ => none) entries

/-- Open a table by its header. -/
def openTable : (path : List String) → Entries → Option Entries
  | [], _ => none
  | [name], entries => alter name (fun
    | none => some (.table .header [])
    | some (.table .implied inner) => some (.table .header inner)
    | some _ => none) entries
  | name :: path, entries => alter name (fun
    | none => (openTable path []).map (.table .implied)
    | some (.table .inline _) => none
    | some (.table opening inner) => (openTable path inner).map (.table opening)
    | some _ => none) entries

/-! ## Keys -/

/-- A change adds its own key at most. -/
theorem mem_keys_of_alter {key name : String} {change : Option Value → Option Value}
    {entries altered : Entries} (h : alter key change entries = some altered)
    (hn : name ∈ altered.map Prod.fst) : name = key ∨ name ∈ entries.map Prod.fst := by
  induction entries generalizing altered with
  | nil =>
    obtain ⟨value, -, rfl⟩ := Option.map_eq_some_iff.1 h
    simpa using hn
  | cons entry entries ih =>
    obtain ⟨first, old⟩ := entry
    rw [alter] at h
    split at h
    · obtain ⟨value, -, rfl⟩ := Option.map_eq_some_iff.1 h
      exact .inr hn
    · obtain ⟨rest, hrest, rfl⟩ := Option.map_eq_some_iff.1 h
      rcases List.mem_cons.1 hn with rfl | hn
      · exact .inr (by simp)
      · exact (ih hrest hn).imp_right (List.mem_cons_of_mem _)

/-- A change keeps the keys distinct. -/
theorem nodup_keys_alter {key : String} {change : Option Value → Option Value}
    {entries altered : Entries} (hd : (entries.map Prod.fst).Nodup)
    (h : alter key change entries = some altered) : (altered.map Prod.fst).Nodup := by
  induction entries generalizing altered with
  | nil =>
    obtain ⟨value, -, rfl⟩ := Option.map_eq_some_iff.1 h
    simp
  | cons entry entries ih =>
    obtain ⟨first, old⟩ := entry
    have hd := List.nodup_cons.1 hd
    rw [alter] at h
    split at h
    · obtain ⟨value, -, rfl⟩ := Option.map_eq_some_iff.1 h
      exact List.nodup_cons.2 hd
    · rename_i hne
      obtain ⟨rest, hrest, rfl⟩ := Option.map_eq_some_iff.1 h
      refine List.nodup_cons.2 ⟨fun hmem => ?_, ih hd.2 hrest⟩
      rcases mem_keys_of_alter hrest hmem with h | h
      · exact hne h
      · exact hd.1 h

end MachineInterface.Toml
