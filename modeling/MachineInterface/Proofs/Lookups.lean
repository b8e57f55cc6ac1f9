import MachineInterface.Proofs.Accounts

/-!
# MachineInterface.Proofs.Lookups

Arguments that are looked up by a key.  Forgetting the types of the values leaves
receipts: whether the argument was found, whether it is valid, and a datum, whose tag
tells what it can be read as (`Receipt`).  A key says at which type a datum is looked
up, and looking it up under another tag finds nothing.  Under the key of its kind
every datum is found, so that behind a successful validation an argument is found,
valid and looked up together; behind a failure the arguments in front of the failing
one are as on success, and the others hold nothing.
-/

namespace MachineInterface.Argument

/-! ## Data -/

/-- A value without its type. -/
inductive Datum
  | text (text : String)
  | word (text : String)
  | number (number : Int)
  | threadGroup (number : Nat)
  | printValues (shown : PrintValues)
  | option (operands : List Datum)
  | list (values : List Datum)

/-- The type at which a datum is looked up. -/
inductive Key
  | string
  | number
  | threadGroup
  | printValues
  | option
  | list
deriving DecidableEq, Repr

@[reducible] def Key.Value : Key → Type
  | string => String
  | number => Int
  | threadGroup => Nat
  | printValues => PrintValues
  | option => List Datum
  | list => List Datum

/-- Read a datum at a type; nothing if its tag is that of another type. -/
def Key.extract : (key : Key) → Datum → Option key.Value
  | string, .text s => some s
  | string, .word s => some s
  | number, .number n => some n
  | threadGroup, .threadGroup n => some n
  | printValues, .printValues shown => some shown
  | option, .option operands => some operands
  | list, .list values => some values
  | _, _ => none

def ValueType.key : ValueType → Key
  | number => .number
  | word _ => .string
  | threadGroup => .threadGroup

def ValueType.datum : (type : ValueType) → type.Value → Datum
  | number, n => .number n
  | word _, s => .word s
  | threadGroup, n => .threadGroup n

namespace Kind

/-- The key of the arguments of a kind. -/
def key : Kind → Key
  | text => .string
  | value type => type.key
  | printValues => .printValues
  | option .. => .option
  | list .. => .list

/-- A value, tagged and without its type. -/
def datum : (kind : Kind) → kind.Value → Datum
  | text, s => .text s
  | value type, v => type.datum v
  | printValues, shown => .printValues shown
  | option _ _ type _, values => .option (values.map type.datum)
  | list type _, values => .list (values.map type.datum)

end Kind

theorem ValueType.extract_datum (type : ValueType) (value : type.Value) :
    (type.key.extract (type.datum value)).isSome = true := by
  cases type <;> rfl

/-- A value is found under the key of its kind. -/
theorem Kind.extract_datum (kind : Kind) (value : kind.Value) :
    (kind.key.extract (kind.datum value)).isSome = true := by
  cases kind with
  | value type => exact type.extract_datum value
  | _ => rfl

/-! ## Receipts -/

/-- What is kept of an argument. -/
structure Receipt where
  found : Bool := false
  valid : Bool := false
  datum : Option Datum := none

namespace Receipt

/-- The datum of a receipt, looked up under a key. -/
def get? (receipt : Receipt) (key : Key) : Option key.Value := receipt.datum.bind key.extract

/-- The first operand of an option, looked up under a key. -/
def operand? (receipt : Receipt) (key : Key) : Option key.Value :=
  (receipt.get? .option).bind fun operands => operands.head?.bind key.extract

/-- The receipt of an argument behind a validation that has succeeded. -/
structure Holds (receipt : Receipt) (a : Argument) : Prop where
  valid_eq : receipt.valid = receipt.found
  get_eq : (receipt.get? a.kind.key).isSome = receipt.found
  mandatory : a.mandatory = true → receipt.found = true
  /-- A found option has as many operands as it takes, all of its value type. -/
  option : ∀ {short long type arity}, a.kind = .option short long type arity →
    ∀ operands, receipt.get? .option = some operands →
      operands.length = arity ∧ ∀ datum ∈ operands, (type.key.extract datum).isSome = true
  /-- A found list has values, all of its value type. -/
  list : ∀ {type max}, a.kind = .list type max → ∀ values, receipt.get? .list = some values →
    values ≠ [] ∧ ∀ datum ∈ values, (type.key.extract datum).isSome = true

end Receipt

def Slot.receipt (kind : Kind) (slot : Slot kind.Value) : Receipt where
  found := slot.isFound
  valid := slot.isValid
  datum := slot.value?.map kind.datum

/-- What is kept of the declared arguments, in the order of the declarations. -/
def Validation.receipts {as : List Argument} (v : Validation as) : List Receipt :=
  v.slots.map fun ⟨a, slot⟩ => slot.receipt a.kind

variable {a : Argument} {as : List Argument} {tokens rest : List String}

theorem isSome_extract_of_mem {type : ValueType} {values : List type.Value} :
    ∀ datum ∈ values.map type.datum, (type.key.extract datum).isSome = true :=
  List.forall_mem_map.mpr fun value _ => type.extract_datum value

theorem length_of_map_decode {type : ValueType} {taken : List String} {values : List type.Value}
    (h : taken.map type.decode = values.map some) : taken.length = values.length := by
  simpa using congrArg List.length h

/-- A value that was read is kept as one of its kind. -/
theorem holds_filled {value : a.kind.Value} (h : a.kind.read tokens = (.found value, rest)) :
    ((Slot.filled value).receipt a.kind).Holds a := by
  obtain ⟨taken, htakes⟩ := Kind.exists_takes h
  obtain ⟨name, mandatory, kind⟩ := a
  refine ⟨rfl, kind.extract_datum value, fun _ => rfl, ?_, ?_⟩
  · rintro short long type arity ⟨⟩ _ ⟨⟩
    cases htakes with
    | option hbefore hflag harity hdecode =>
        have hlength := length_of_map_decode hdecode
        exact ⟨by rw [List.length_map, ← hlength, harity], isSome_extract_of_mem⟩
  · rintro type max ⟨⟩ _ ⟨⟩
    cases htakes with
    | list hne hdecode =>
        refine ⟨fun hnil => hne ?_, isSome_extract_of_mem⟩
        have hlength := length_of_map_decode hdecode
        rwa [List.map_eq_nil_iff.mp hnil, List.length_nil, List.length_eq_zero_iff] at hlength

theorem holds_empty (ha : a.mandatory = false) : Receipt.Holds {} a where
  valid_eq := rfl
  get_eq := rfl
  mandatory h := by simp [ha] at h
  option _ _ h := by cases h
  list _ _ h := by cases h

/-- Behind a validation that succeeds every argument is kept. -/
theorem holds_of_ok (as : List Argument) (tokens : List String) {values : Values as}
    (h : (validate as tokens).values = .ok values) :
    List.Forall₂ Receipt.Holds (validate as tokens).receipts as := by
  fun_induction validate as tokens with
  | case1 tokens => exact .nil
  | case2 a as tokens value rest hread ih =>
      obtain ⟨others, hothers, -⟩ := exists_of_map_eq_ok h
      exact .cons (holds_filled hread) (ih hothers)
  | case3 a as tokens rest hread ha ih =>
      obtain ⟨others, hothers, -⟩ := exists_of_map_eq_ok h
      exact .cons (holds_empty ha) (ih hothers)
  | case5 a as tokens text rest hread ha ih =>
      obtain ⟨others, hothers, -⟩ := exists_of_map_eq_ok h
      exact .cons (holds_empty ha.1) (ih hothers)
  | case4 | case6 => cases h

/-- What a validation leaves that fails at an argument: the arguments in front of it
are validated, its own receipt has no value, and those behind it are as they were. -/
structure Stops (as : List Argument) (tokens : List String) (error : Error)
    (before : List Argument) (a : Argument) (after : List Argument) (receipt : Receipt) : Prop where
  declared : as = before ++ a :: after
  succeeds : ∃ values, (validate before tokens).values = .ok values
  receipts : (validate as tokens).receipts =
    (validate before tokens).receipts ++ receipt :: after.map fun _ => {}
  valid : receipt.valid = false
  datum : receipt.datum = none
  error : error = .missingArgument a.name ∧ a.mandatory = true ∧ receipt.found = false ∨
    ∃ text, error = .invalidArgument a.name text ∧ receipt.found = true

/-- An argument that does not fail may come first. -/
theorem Stops.cons {before after : List Argument} {b : Argument} {error : Error} {receipt : Receipt}
    (h : Stops as rest error before b after receipt) (first : Receipt)
    (hreceipts : ∀ as, (validate (a :: as) tokens).receipts = first :: (validate as rest).receipts)
    (hvalues : ∀ {as} {values : Values as}, (validate as rest).values = .ok values →
      ∃ values, (validate (a :: as) tokens).values = .ok values) :
    Stops (a :: as) tokens error (a :: before) b after receipt where
  declared := congrArg (a :: ·) h.declared
  succeeds :=
    have ⟨_, hbefore⟩ := h.succeeds
    hvalues hbefore
  receipts := by rw [hreceipts, hreceipts, h.receipts, List.cons_append]
  valid := h.valid
  datum := h.datum
  error := h.error

theorem Stops.cons_omitted {before after : List Argument} {b : Argument} {error : Error}
    {receipt : Receipt} (h : Stops as rest error before b after receipt) (ha : a.mandatory = false)
    (hvalidate : ∀ as, validate (a :: as) tokens = .omitted ha (validate as rest)) :
    Stops (a :: as) tokens error (a :: before) b after receipt := by
  refine h.cons {} (fun as => ?_) fun {as values} hvalues => ?_
  · rw [hvalidate]
    rfl
  · rw [hvalidate, Validation.values, hvalues]
    exact ⟨_, rfl⟩

theorem map_receipt_empty (as : List Argument) :
    (as.map fun a => (⟨a, .empty⟩ : (a : Argument) × Slot a.kind.Value)).map
      (fun ⟨a, slot⟩ => slot.receipt a.kind) = as.map fun _ => {} := by
  rw [List.map_map]
  rfl

theorem eq_error_of_map {α β : Type} {f : α → β} {result : Except Error α} {error : Error}
    (h : result.map f = .error error) : result = .error error := by
  cases result with
  | error e => exact congrArg Except.error (Except.error.inj h)
  | ok x => cases h

/-- A validation that fails does so at one of the arguments. -/
theorem stops_of_error (as : List Argument) (tokens : List String) {error : Error}
    (h : (validate as tokens).values = .error error) :
    ∃ before a after receipt, Stops as tokens error before a after receipt := by
  fun_induction validate as tokens with
  | case1 tokens => cases h
  | case2 a as tokens value rest hread ih =>
      obtain ⟨before, b, after, receipt, hstops⟩ := ih (eq_error_of_map h)
      refine ⟨a :: before, b, after, receipt,
        hstops.cons ((Slot.filled value).receipt a.kind) (fun as => ?_)
          fun {as values} hvalues => ?_⟩
      · rw [validate_of_found hread]
        rfl
      · rw [validate_of_found hread, Validation.values, hvalues]
        exact ⟨_, rfl⟩
  | case3 a as tokens rest hread ha ih =>
      obtain ⟨before, b, after, receipt, hstops⟩ := ih (eq_error_of_map h)
      exact ⟨a :: before, b, after, receipt, hstops.cons_omitted ha fun as => by
        simp only [validate, hread, dif_pos ha]⟩
  | case5 a as tokens text rest hread ha ih =>
      obtain ⟨before, b, after, receipt, hstops⟩ := ih (eq_error_of_map h)
      exact ⟨a :: before, b, after, receipt, hstops.cons_omitted ha.1 fun as => by
        simp only [validate, hread, dif_pos ha]⟩
  | case4 a as tokens rest hread ha =>
      cases h
      refine ⟨[], a, as, {}, rfl, ⟨(), rfl⟩, ?_, rfl, rfl, .inl ⟨rfl, by simpa using ha, rfl⟩⟩
      simp only [validate, hread, dif_neg ha]
      exact congrArg (_ :: ·) (map_receipt_empty as)
  | case6 a as tokens text rest hread ha =>
      cases h
      refine ⟨[], a, as, { found := true }, rfl, ⟨(), rfl⟩, ?_, rfl, rfl, .inr ⟨text, rfl, rfl⟩⟩
      simp only [validate, hread, dif_neg ha]
      exact congrArg (_ :: ·) (map_receipt_empty as)

/-! ## Answers -/

/-- The receipt of an argument that was answered. -/
def answerReceipt : (a : Argument) → a.Answer → Receipt
  | ⟨_, true, kind⟩, value => ⟨true, true, some (kind.datum value)⟩
  | ⟨_, false, kind⟩, some value => ⟨true, true, some (kind.datum value)⟩
  | ⟨_, false, _⟩, none => {}

def Values.receipts : {as : List Argument} → Values as → List Receipt
  | [], _ => []
  | a :: _, (answer, others) => answerReceipt a answer :: Values.receipts others

/-- The answers of a validation tell its receipts. -/
theorem receipts_of_values {v : Validation as} {values : Values as} (h : v.values = .ok values) :
    v.receipts = values.receipts := by
  induction v with
  | complete => rfl
  | @found a as value next ih =>
      obtain ⟨others, hothers, rfl⟩ := exists_of_map_eq_ok h
      obtain ⟨name, mandatory, kind⟩ := a
      cases mandatory <;> exact congrArg (_ :: ·) (ih hothers)
  | @omitted a as ha next ih =>
      obtain ⟨others, hothers, rfl⟩ := exists_of_map_eq_ok h
      obtain ⟨name, mandatory, kind⟩ := a
      cases mandatory with
      | true => cases ha
      | false => exact congrArg (_ :: ·) (ih hothers)
  | missing | invalid => cases h

end MachineInterface.Argument
