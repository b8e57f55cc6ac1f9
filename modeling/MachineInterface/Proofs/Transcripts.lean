import MachineInterface.Proofs.Answers

/-!
# MachineInterface.Proofs.Transcripts

The written text tells the records.  A value ends where its last quote or
bracket stands (`Value.legible`), a record at the end of its line
(`Record.text_append_inj`), so neither can be taken for the beginning of
another, and all that is written to a sink tells the records in their order
(`Output.records_of_transcript`).  Only an empty list of values and an empty
list of results look alike.
-/

namespace MachineInterface

/-! ## Names -/

/-- The characters of result names. -/
def isNameChar (c : Char) : Bool := c.isAlphanum || c == '-' || c == '_'

/-- A name of a result: a word that is not empty. -/
def isName (name : String) : Bool := name.toList ≠ [] && name.toList.all isNameChar

theorem isName_iff {name : String} :
    isName name = true ↔ name.toList ≠ [] ∧ ∀ c ∈ name.toList, isNameChar c = true := by
  simp [isName]

mutual

/-- The names of the results in a value, at any depth. -/
def Value.names : Value → List String
  | .const _ => []
  | .tuple fields => fieldNames fields
  | .list items => itemNames items
  | .resultList fields => fieldNames fields

/-- The names in the items of a list. -/
def itemNames : List Value → List String
  | [] => []
  | item :: items => item.names ++ itemNames items

/-- The names of results, and those in their values. -/
def fieldNames : List (String × Value) → List String
  | [] => []
  | (name, value) :: fields => name :: value.names ++ fieldNames fields

end

theorem itemNames_eq_flatMap (items : List Value) :
    itemNames items = items.flatMap Value.names := by
  induction items with
  | nil => simp [itemNames]
  | cons item items ih => simp [itemNames, ih]

theorem fieldNames_eq_flatMap (fields : Results) :
    fieldNames fields = fields.flatMap fun f => f.1 :: f.2.names := by
  induction fields with
  | nil => simp [fieldNames]
  | cons field fields ih => simp [fieldNames, ih]

/-! ## Values that look alike -/

mutual

/-- The value with its empty lists of results taken for empty lists of values,
as they are written alike. -/
def Value.normal : Value → Value
  | .const text => .const text
  | .tuple fields => .tuple (normalFields fields)
  | .list items => .list (normalItems items)
  | .resultList fields => if fields.isEmpty then .list [] else .resultList (normalFields fields)

/-- The normal forms of the items of a list. -/
def normalItems : List Value → List Value
  | [] => []
  | item :: items => item.normal :: normalItems items

/-- Results with the normal forms of their values. -/
def normalFields : List (String × Value) → List (String × Value)
  | [] => []
  | (name, value) :: fields => (name, value.normal) :: normalFields fields

end

theorem normalItems_eq_map (items : List Value) : normalItems items = items.map Value.normal := by
  induction items with
  | nil => simp [normalItems]
  | cons item items ih => simp [normalItems, ih]

theorem normalFields_eq_map (fields : Results) :
    normalFields fields = fields.map fun f => (f.1, f.2.normal) := by
  induction fields with
  | nil => simp [normalFields]
  | cons field fields ih => simp [normalFields, ih]

namespace Value

/-- All names in the value are words. -/
def WellNamed (v : Value) : Prop := ∀ name ∈ v.names, isName name = true

/-- Whatever comes behind the text of the value, the text tells the value. -/
def Legible (v : Value) : Prop :=
  ∀ w : Value, w.WellNamed → ∀ s s', v.text.toList ++ s = w.text.toList ++ s' →
    v.normal = w.normal ∧ s = s'

/-! ## Parts of values -/

/-- What stands between the commas of a list or a tuple: a value, behind its
name if it has one. -/
abbrev Part := Option String × Value

namespace Part

/-- The written form of a part. -/
def chars : Part → List Char
  | (none, v) => v.text.toList
  | (some name, v) => name.toList ++ '=' :: v.text.toList

def normal (p : Part) : Part := (p.1, p.2.normal)

/-- All names in the part are words, its own included. -/
structure WellNamed (p : Part) : Prop where
  name : ∀ name ∈ p.1, isName name = true
  value : p.2.WellNamed

end Part

/-- The quote or the bracket that a value begins with. -/
def opening : Value → Char
  | const _ => '"'
  | tuple _ => '\x7b'
  | list _ | resultList _ => '['

/-- The quote or the bracket that a value ends with. -/
def closing : Value → Char
  | const _ => '"'
  | tuple _ => '\x7d'
  | list _ | resultList _ => ']'

/-- The parts of results. -/
def named (fields : Results) : List Part := fields.map fun f => (some f.1, f.2)

/-- The parts between the brackets of a value. -/
def parts : Value → List Part
  | const _ => []
  | tuple fields | resultList fields => named fields
  | list items => items.map fun item => (none, item)

/-- What holds of constants, and of a value between brackets if it holds of the
values of its parts, holds of all values. -/
theorem parts_induction {P : Value → Prop} (const : ∀ text, P (.const text))
    (brackets : ∀ v : Value, v.opening ≠ '"' → (∀ p ∈ v.parts, P p.2) → P v) : ∀ v, P v :=
  have results : ∀ fields : Results, (∀ f ∈ fields, P f.2) → ∀ p ∈ named fields, P p.2 :=
    fun fields h p hp => by
      obtain ⟨f, hf, rfl⟩ := List.mem_map.mp hp
      exact h f hf
  @Value.rec P (fun fields => ∀ f ∈ fields, P f.2) (fun items => ∀ item ∈ items, P item)
    (fun f => P f.2) const
    (fun fields h => brackets (.tuple fields) (by simp [opening]) (results fields h))
    (fun items h => brackets (.list items) (by simp [opening]) fun p hp => by
      obtain ⟨item, hitem, rfl⟩ := List.mem_map.mp hp
      exact h item hitem)
    (fun fields h => brackets (.resultList fields) (by simp [opening]) (results fields h))
    (List.forall_mem_nil _) (fun _ _ hf hfs => List.forall_mem_cons.mpr ⟨hf, hfs⟩)
    (List.forall_mem_nil _) (fun _ _ hi his => List.forall_mem_cons.mpr ⟨hi, his⟩)
    (fun _ _ h => h)

theorem exists_eq_opening_cons (v : Value) : ∃ s, v.text.toList = v.opening :: s := by
  cases v with
  | const text => exact ⟨_, by rw [Value.text, Text.toList_cString]; rfl⟩
  | tuple fields => exact ⟨_, by simp [Value.text, opening]; rfl⟩
  | list items => exact ⟨_, by simp [Value.text, opening]; rfl⟩
  | resultList fields => exact ⟨_, by simp [Value.text, opening]; rfl⟩

/-- What is no constant is written as its parts between brackets. -/
theorem toList_text {v : Value} (h : v.opening ≠ '"') : v.text.toList =
    v.opening :: ([','].intercalate (v.parts.map Part.chars) ++ [v.closing]) := by
  cases v with
  | const text => exact (h rfl).elim
  | tuple fields =>
      simp [Value.text, fieldTexts_eq_map, opening, closing, parts, named, Part.chars,
        Function.comp_def]
  | list items =>
      simp [Value.text, itemTexts_eq_map, opening, closing, parts, Part.chars, Function.comp_def]
  | resultList fields =>
      simp [Value.text, fieldTexts_eq_map, opening, closing, parts, named, Part.chars,
        Function.comp_def]

theorem opening_spec (v : Value) :
    isNameChar v.opening = false ∧ v.opening ≠ ']' ∧ v.opening ≠ '\x7d' := by
  cases v <;> exact ⟨rfl, by simp [opening], by simp [opening]⟩

theorem closing_cases {v : Value} (h : v.opening ≠ '"') : v.closing = ']' ∨ v.closing = '\x7d' := by
  cases v <;> simp_all [opening, closing]

/-- Values with different openings are told apart by them. -/
theorem opening_eq {v w : Value} {s s' : List Char}
    (h : v.text.toList ++ s = w.text.toList ++ s') : v.opening = w.opening := by
  obtain ⟨t, hv⟩ := v.exists_eq_opening_cons
  obtain ⟨u, hw⟩ := w.exists_eq_opening_cons
  rw [hv, hw] at h
  exact (List.cons.inj h).1

theorem closing_eq {v w : Value} (h : v.opening = w.opening) : v.closing = w.closing := by
  cases v <;> cases w <;> simp_all [opening, closing]

theorem wellNamed_of_mem_named {fields : Results}
    (h : ∀ name ∈ fieldNames fields, isName name = true) : ∀ p ∈ named fields, p.WellNamed := by
  rw [fieldNames_eq_flatMap] at h
  intro p hp
  obtain ⟨f, hf, rfl⟩ := List.mem_map.mp hp
  constructor
  case name =>
    rintro _ ⟨⟩
    exact h f.1 (List.mem_flatMap.mpr ⟨f, hf, List.mem_cons_self⟩)
  case value =>
    exact fun name hname => h name (List.mem_flatMap.mpr ⟨f, hf, List.mem_cons_of_mem _ hname⟩)

/-- The names in a part of a value are names in the value. -/
theorem WellNamed.of_mem_parts {v : Value} (h : v.WellNamed) : ∀ p ∈ v.parts, p.WellNamed := by
  cases v with
  | const text => exact List.forall_mem_nil _
  | tuple fields => exact wellNamed_of_mem_named (by simpa only [WellNamed, names] using h)
  | resultList fields => exact wellNamed_of_mem_named (by simpa only [WellNamed, names] using h)
  | list items =>
      simp only [WellNamed, names, itemNames_eq_flatMap] at h
      intro p hp
      obtain ⟨item, hitem, rfl⟩ := List.mem_map.mp hp
      constructor
      case name => exact fun _ hname => by cases hname
      case value => exact fun name hname => h name (List.mem_flatMap.mpr ⟨item, hitem, hname⟩)

theorem map_normal_named (fields : Results) :
    (named fields).map Part.normal = named (normalFields fields) := by
  simp [named, normalFields_eq_map, Part.normal]

theorem named_inj {fields fields' : Results} (h : named fields = named fields') :
    fields = fields' :=
  (List.map_inj_right fun f g hfg => by simpa [Prod.ext_iff] using hfg).mp h

theorem Part.exists_head {p : Part} (hp : p.WellNamed) :
    ∃ c s, p.chars = c :: s ∧ isNameChar c = p.1.isSome ∧ c ≠ ']' ∧ c ≠ '\x7d' := by
  obtain ⟨_ | name, v⟩ := p
  · obtain ⟨s, hv⟩ := v.exists_eq_opening_cons
    exact ⟨v.opening, s, hv, v.opening_spec⟩
  · obtain ⟨hne, hall⟩ := isName_iff.mp (hp.name name rfl)
    obtain ⟨c, cs, hcs⟩ := List.exists_cons_of_ne_nil hne
    have hc : isNameChar c = true := hall c (by rw [hcs]; exact List.mem_cons_self)
    refine ⟨c, cs ++ '=' :: v.text.toList, by rw [chars, hcs, List.cons_append], hc, ?_, ?_⟩ <;>
    · rintro rfl
      cases hc

/-- No part begins with a closing bracket. -/
theorem Part.chars_append_ne {p : Part} (hp : p.WellNamed) {mark : Char}
    (hmark : mark = ']' ∨ mark = '\x7d') (s s' : List Char) : p.chars ++ s ≠ mark :: s' := by
  obtain ⟨c, t, hchars, -, hlist, htuple⟩ := exists_head hp
  rw [hchars]
  rintro h
  obtain ⟨rfl, -⟩ := List.cons.inj h
  rcases hmark with rfl | rfl
  · exact hlist rfl
  · exact htuple rfl

/-- A part ends where its value ends. -/
theorem Part.chars_append_inj {p q : Part} {s s' : List Char} (hp : p.WellNamed)
    (hlegible : p.2.Legible) (hq : q.WellNamed) (h : p.chars ++ s = q.chars ++ s') :
    p.normal = q.normal ∧ s = s' := by
  have hsome : p.1.isSome = q.1.isSome := by
    obtain ⟨c, t, hc, hcname, -⟩ := exists_head hp
    obtain ⟨d, u, hd, hdname, -⟩ := exists_head hq
    rw [hc, hd] at h
    obtain ⟨rfl, -⟩ := List.cons.inj h
    rw [← hcname, hdname]
  obtain ⟨_ | name, v⟩ := p <;> obtain ⟨_ | name', w⟩ := q
  case none.none =>
    obtain ⟨hvalue, hrest⟩ := hlegible w hq.value s s' h
    exact ⟨Prod.ext rfl hvalue, hrest⟩
  case some.some =>
    simp only [chars, List.append_assoc, List.cons_append] at h
    obtain ⟨hname, hbehind⟩ := Text.run_append_inj (p := isNameChar)
      (isName_iff.mp (hp.name name rfl)).2 (isName_iff.mp (hq.name name' rfl)).2
      (by simp [isNameChar]) (by simp [isNameChar]) h
    obtain ⟨hvalue, hrest⟩ := hlegible w hq.value s s' (List.cons.inj hbehind).2
    exact ⟨Prod.ext (congrArg some (String.toList_inj.mp hname)) hvalue, hrest⟩
  all_goals cases hsome

/-- The brackets and the parts make up the value; without parts, values and
results are alike. -/
theorem normal_eq {v w : Value} (hv : v.opening ≠ '"') (hopening : v.opening = w.opening)
    (hparts : v.parts.map Part.normal = w.parts.map Part.normal) : v.normal = w.normal := by
  cases v <;> cases w
  case const.const => exact (hv rfl).elim
  case tuple.tuple fields fields' =>
    simp only [parts, map_normal_named] at hparts
    rw [normal, normal, named_inj hparts]
  case list.list items items' =>
    have hitems : items.map normal = items'.map normal := by
      simpa [parts, Part.normal, Function.comp_def] using congrArg (List.map Prod.snd) hparts
    rw [normal, normal, normalItems_eq_map, normalItems_eq_map, hitems]
  case list.resultList items fields =>
    cases items <;> cases fields <;>
      simp [parts, named, Part.normal, normal, normalItems] at hparts ⊢
  case resultList.list fields items =>
    cases fields <;> cases items <;>
      simp [parts, named, Part.normal, normal, normalItems] at hparts ⊢
  case resultList.resultList fields fields' =>
    have hnamed : normalFields fields = normalFields fields' :=
      named_inj (by rw [← map_normal_named, ← map_normal_named]; exact hparts)
    have hempty : fields.isEmpty = fields'.isEmpty := by
      simpa [parts, named] using congrArg List.isEmpty hparts
    rw [normal, normal, hnamed, hempty]
  all_goals simp [opening] at hopening

theorem parts_append_inj {ps qs : List Part} {mark : Char} {s s' : List Char}
    (hmark : mark = ']' ∨ mark = '\x7d') (hps : ∀ p ∈ ps, p.WellNamed)
    (hlegible : ∀ p ∈ ps, p.2.Legible) (hqs : ∀ q ∈ qs, q.WellNamed)
    (h : [','].intercalate (ps.map Part.chars) ++ mark :: s =
      [','].intercalate (qs.map Part.chars) ++ mark :: s') :
    ps.map Part.normal = qs.map Part.normal ∧ s = s' :=
  Text.intercalate_append_inj (by rcases hmark with rfl | rfl <;> decide)
    (fun p hp q hq _ _ => Part.chars_append_inj (hps p hp) (hlegible p hp) (hqs q hq))
    (fun p hp => Part.chars_append_ne (hps p hp) hmark)
    (fun q hq => Part.chars_append_ne (hqs q hq) hmark) h

/-- The text of a value ends where the value ends and tells the value, nested to
any depth. -/
theorem legible {v : Value} (h : v.WellNamed) : v.Legible := by
  intro w hw s s' heq
  have hopening : v.opening = w.opening := opening_eq heq
  induction v using parts_induction generalizing w s s' with
  | const text =>
      cases w with
      | const text' =>
          obtain ⟨rfl, hrest⟩ := Text.cString_append_inj (by simpa only [Value.text] using heq)
          exact ⟨rfl, hrest⟩
      | tuple _ | list _ | resultList _ => simp [opening] at hopening
  | brackets v hv ih =>
      rw [toList_text hv, toList_text (hopening ▸ hv), ← hopening, ← closing_eq hopening] at heq
      simp only [List.cons_append, List.append_assoc, List.nil_append, List.cons.injEq,
        true_and] at heq
      obtain ⟨hparts, hrest⟩ := parts_append_inj (closing_cases hv) h.of_mem_parts
        (fun p hp w hw s s' heq =>
          ih p hp (h.of_mem_parts p hp).value w hw s s' heq (opening_eq heq))
        hw.of_mem_parts heq
      exact ⟨normal_eq hv hopening hparts, hrest⟩

/-! ## Values without control characters -/

theorem opening_normal (v : Value) : v.normal.opening = v.opening := by
  cases v with
  | resultList fields => cases fields <;> rfl
  | const _ | tuple _ | list _ => simp [normal, opening]

theorem closing_normal (v : Value) : v.normal.closing = v.closing :=
  closing_eq v.opening_normal

theorem parts_normal (v : Value) : v.normal.parts = v.parts.map Part.normal := by
  cases v with
  | const text => rfl
  | tuple fields => simp [normal, parts, map_normal_named]
  | list items => simp [normal, parts, normalItems_eq_map, Part.normal, Function.comp_def]
  | resultList fields =>
      cases fields with
      | nil => rfl
      | cons f fields => simp [normal, parts, map_normal_named]

theorem Part.chars_normal {p : Part} (h : p.2.normal.text = p.2.text) :
    p.normal.chars = p.chars := by
  obtain ⟨_ | name, v⟩ := p <;> simp [normal, chars, show v.normal.text = v.text from h]

/-- What looks alike is written alike. -/
theorem text_normal (v : Value) : v.normal.text = v.text := by
  induction v using parts_induction with
  | const text => rfl
  | brackets v hv ih =>
      have hchars : v.parts.map (Part.chars ∘ Part.normal) = v.parts.map Part.chars :=
        List.map_congr_left fun p hp => Part.chars_normal (ih p hp)
      apply String.toList_inj.mp
      rw [toList_text hv, toList_text (v.opening_normal ▸ hv), opening_normal, closing_normal,
        parts_normal, List.map_map, hchars]

theorem isControl_of_isNameChar {c : Char} (h : isNameChar c = true) :
    Text.isControl c = false := by
  have hcontrol : ∀ n < 128, Text.isControl (Char.ofNat n) = true →
      isNameChar (Char.ofNat n) = false := by
    decide
  rw [← Bool.not_eq_true]
  intro hc
  have hname := hcontrol c.toNat (Text.toNat_lt_of_isControl hc)
  rw [Char.ofNat_toNat, h] at hname
  cases hname hc

theorem isControl_of_mem_part {p : Part} (hp : p.WellNamed)
    (hvalue : ∀ c ∈ p.2.text.toList, Text.isControl c = false) :
    ∀ c ∈ p.chars, Text.isControl c = false := by
  obtain ⟨_ | name, v⟩ := p
  · exact hvalue
  · intro c hc
    simp only [Part.chars, List.mem_append, List.mem_cons] at hc
    rcases hc with hname | rfl | hc
    · exact isControl_of_isNameChar ((isName_iff.mp (hp.name name rfl)).2 c hname)
    · rfl
    · exact hvalue c hc

/-- No text gets a control character into the written form of a value. -/
theorem isControl_of_mem_text {v : Value} (h : v.WellNamed) :
    ∀ c ∈ v.text.toList, Text.isControl c = false := by
  induction v using parts_induction with
  | const text =>
      exact fun c hc => Text.isControl_of_mem_cString (by simpa only [Value.text] using hc)
  | brackets v hv ih =>
      have hparts : ∀ p ∈ v.parts, ∀ c ∈ p.chars, Text.isControl c = false := fun p hp =>
        isControl_of_mem_part (h.of_mem_parts p hp) (ih p hp (h.of_mem_parts p hp).value)
      have hmarks : Text.isControl v.opening = false ∧ Text.isControl v.closing = false := by
        cases v <;> exact ⟨rfl, rfl⟩
      intro c hc
      simp only [toList_text hv, List.mem_cons, List.mem_append, List.not_mem_nil, or_false] at hc
      rcases hc with rfl | hc | rfl
      · exact hmarks.1
      · rcases Text.mem_intercalate hc with rfl | ⟨chars, hchars, hc⟩
        · rfl
        · obtain ⟨p, hp, rfl⟩ := List.mem_map.mp hchars
          exact hparts p hp c hc
      · exact hmarks.2

end Value

/-! ## Results -/

namespace Results

/-- All names in the results are words. -/
def WellNamed (results : Results) : Prop := ∀ name ∈ fieldNames results, isName name = true

/-- Results behind a comma are parts behind commas. -/
theorem toList_trailing (results : Results) : results.trailing.toList =
    (Value.named results).flatMap fun p => ',' :: p.chars := by
  cases results with
  | nil => rfl
  | cons f fields =>
      simp [trailing, text, fieldTexts_eq_map, Value.named, Value.Part.chars,
        Text.intercalate_cons_eq, List.flatMap_map]

theorem trailing_append_inj {results results' : Results} (h : results.WellNamed)
    (h' : results'.WellNamed) {s s' : List Char}
    (heq : results.trailing.toList ++ '\n' :: s = results'.trailing.toList ++ '\n' :: s') :
    normalFields results = normalFields results' ∧ s = s' := by
  have hparts := Value.wellNamed_of_mem_named h
  have hparts' := Value.wellNamed_of_mem_named h'
  rw [toList_trailing, toList_trailing] at heq
  obtain ⟨hmap, hrest⟩ := Text.flatMap_append_inj (f := Value.Part.normal)
    (fun p hp q hq _ _ hpq => Value.Part.chars_append_inj (hparts p hp)
      (Value.legible (hparts p hp).value) (hparts' q hq) (List.cons.inj hpq).2)
    (by simp) (by simp) heq
  rw [Value.map_normal_named, Value.map_normal_named] at hmap
  exact ⟨Value.named_inj hmap, (List.cons.inj hrest).2⟩

/-- A name with results behind it, up to the end of the line. -/
theorem name_trailing_inj {name name' : String} (hname : isName name = true)
    (hname' : isName name' = true) {results results' : Results} (h : results.WellNamed)
    (h' : results'.WellNamed) {s s' : List Char}
    (heq : name.toList ++ (results.trailing.toList ++ '\n' :: s) =
      name'.toList ++ (results'.trailing.toList ++ '\n' :: s')) :
    name = name' ∧ normalFields results = normalFields results' ∧ s = s' := by
  have hbehind : ∀ (rs : Results) (t : List Char),
      ∀ c ∈ (rs.trailing.toList ++ '\n' :: t).head?, isNameChar c = false := by
    rintro (_ | ⟨f, rs⟩) t c hc
    · obtain rfl : '\n' = c := by simpa [toList_trailing, Value.named] using hc
      rfl
    · obtain rfl : ',' = c := by simpa [toList_trailing, Value.named] using hc
      rfl
  obtain ⟨hnames, hresults⟩ := Text.run_append_inj (p := isNameChar) (isName_iff.mp hname).2
    (isName_iff.mp hname').2 (hbehind _ _) (hbehind _ _) heq
  exact ⟨String.toList_inj.mp hnames, trailing_append_inj h h' hresults⟩

theorem isControl_of_mem_trailing {results : Results} (h : results.WellNamed) :
    ∀ c ∈ results.trailing.toList, Text.isControl c = false := by
  intro c hc
  rw [toList_trailing, List.mem_flatMap] at hc
  obtain ⟨p, hp, hc⟩ := hc
  have hwell := Value.wellNamed_of_mem_named h p hp
  obtain rfl | hc := List.mem_cons.mp hc
  · rfl
  · exact Value.isControl_of_mem_part hwell (Value.isControl_of_mem_text hwell.value) c hc

theorem trailing_normal (results : Results) :
    trailing (normalFields results) = results.trailing := by
  apply String.toList_inj.mp
  rw [toList_trailing, toList_trailing, ← Value.map_normal_named, List.flatMap_map]
  exact congrArg (List.flatMap · _)
    (funext fun p => by rw [Value.Part.chars_normal (Value.text_normal p.2)])

end Results

/-! ## Records -/

/-- A token that the client may have sent: ASCII digits, at least one. -/
def isToken (token : String) : Bool := token.toList ≠ [] && token.toList.all Char.isDigit

theorem ResultClass.isName_name (resultClass : ResultClass) : isName resultClass.name = true := by
  cases resultClass <;> decide

theorem ResultClass.name_inj {c d : ResultClass} (h : c.name = d.name) : c = d := by
  cases c <;> cases d <;> first | rfl | simp [name] at h

theorem AsyncKind.isName_name (kind : AsyncKind) : isName kind.name = true := by
  cases kind <;> decide

theorem AsyncKind.name_inj {k l : AsyncKind} (h : k.name = l.name) : k = l := by
  cases k <;> cases l <;> first | rfl | simp [name] at h

namespace Record

/-- The token is absent or made of digits, and all names of results are words. -/
def WellFormed : Record → Prop
  | result record => (∀ token ∈ record.token, isToken token = true) ∧ record.results.WellNamed
  | async record => record.results.WellNamed
  | stream _ | prompt => True

/-- The record with the normal forms of its values. -/
def normal : Record → Record
  | result record => .result { record with results := normalFields record.results }
  | async record => .async { record with results := normalFields record.results }
  | stream record => .stream record
  | prompt => .prompt

/-- The digits that a record begins with. -/
def tokenText : Record → String
  | result record => record.token.getD ""
  | async _ | stream _ | prompt => ""

/-- The character that tells what kind of record it is. -/
def mark : Record → Char
  | result _ => '^'
  | async record => match record.kind with
    | .stopped | .running => '*'
    | _ => '='
  | stream record => match record.kind with
    | .console => '~'
    | .target => '@'
    | .log => '&'
  | prompt => '('

/-- The constructor of the records with a mark. -/
def kindOfMark (mark : Char) : Nat :=
  if mark = '^' then 0 else if mark = '*' ∨ mark = '=' then 1 else if mark = '(' then 3 else 2

/-- What is written behind the mark. -/
def body : Record → String
  | result record => record.resultClass.name ++ record.results.trailing
  | async record => record.kind.name ++ record.results.trailing
  | stream record => Text.cString record.text
  | prompt => "gdb)"

theorem toList_text (record : Record) :
    record.text.toList = record.tokenText.toList ++ record.mark :: record.body.toList := by
  cases record with
  | result record => simp [text, ResultRecord.text, tokenText, mark, body]
  | async record =>
      obtain ⟨kind, results⟩ := record
      cases kind <;> simp [text, AsyncRecord.text, tokenText, mark, body, AsyncKind.mark]
  | stream record =>
      obtain ⟨kind, contents⟩ := record
      cases kind <;> simp [text, StreamRecord.line, tokenText, mark, body, StreamKind.mark]
  | prompt => rfl

theorem mark_spec (record : Record) :
    record.mark.isDigit = false ∧ Text.isControl record.mark = false := by
  cases record with
  | result record => exact ⟨rfl, rfl⟩
  | async record =>
      obtain ⟨kind, results⟩ := record
      cases kind <;> exact ⟨rfl, rfl⟩
  | stream record =>
      obtain ⟨kind, contents⟩ := record
      cases kind <;> exact ⟨rfl, rfl⟩
  | prompt => exact ⟨rfl, rfl⟩

theorem kindOfMark_mark (record : Record) : kindOfMark record.mark = record.ctorIdx := by
  cases record with
  | result record => rfl
  | async record =>
      obtain ⟨kind, results⟩ := record
      cases kind <;> rfl
  | stream record =>
      obtain ⟨kind, contents⟩ := record
      cases kind <;> rfl
  | prompt => rfl

theorem isDigit_of_mem_tokenText {record : Record} (h : record.WellFormed) :
    ∀ c ∈ record.tokenText.toList, c.isDigit = true := by
  cases record with
  | result record =>
      obtain ⟨_ | token, resultClass, results⟩ := record
      · exact fun c hc => by simp [tokenText] at hc
      · have htoken := h.1 token rfl
        simp only [isToken, Bool.and_eq_true, List.all_eq_true] at htoken
        exact htoken.2
  | async _ | stream _ | prompt => exact fun c hc => by simp [tokenText] at hc

theorem streamKind_eq {r r' : StreamRecord} (h : (stream r).mark = (stream r').mark) :
    r.kind = r'.kind := by
  obtain ⟨kind, contents⟩ := r
  obtain ⟨kind', contents'⟩ := r'
  cases kind <;> cases kind' <;> first | rfl | cases h

/-- The digits in front of a result tell whether it has a token, and which. -/
theorem token_eq {token token' : Option String} (h : ∀ t ∈ token, isToken t = true)
    (h' : ∀ t ∈ token', isToken t = true) (heq : token.getD "" = token'.getD "") :
    token = token' := by
  have hne : ∀ t : String, isToken t = true → t ≠ "" := by
    rintro t ht rfl
    cases ht
  cases token <;> cases token'
  case none.none => rfl
  case none.some t' => exact (hne t' (h' t' rfl) heq.symm).elim
  case some.none t => exact (hne t (h t rfl) heq).elim
  case some.some t t' => exact congrArg some heq

/-- A record of a line is told by its text up to the end of the line. -/
theorem text_append_inj {record record' : Record} (h : record.WellFormed)
    (h' : record'.WellFormed) {s s' : List Char}
    (heq : record.text.toList ++ '\n' :: s = record'.text.toList ++ '\n' :: s') :
    record.normal = record'.normal ∧ s = s' := by
  rw [toList_text, toList_text, List.append_assoc, List.append_assoc, List.cons_append,
    List.cons_append] at heq
  obtain ⟨htoken, hmarked⟩ := Text.run_append_inj (p := Char.isDigit)
    (isDigit_of_mem_tokenText h) (isDigit_of_mem_tokenText h')
    (by simp [mark_spec]) (by simp [mark_spec]) heq
  obtain ⟨hmark, hbody⟩ := List.cons.inj hmarked
  have htoken : record.tokenText = record'.tokenText := String.toList_inj.mp htoken
  have hkind : record.ctorIdx = record'.ctorIdx := by
    rw [← kindOfMark_mark, ← kindOfMark_mark, hmark]
  cases record with
  | result r =>
      cases record' with
      | result r' =>
          simp only [body, String.toList_append, List.append_assoc] at hbody
          obtain ⟨hclass, hresults, hrest⟩ := Results.name_trailing_inj r.resultClass.isName_name
            r'.resultClass.isName_name h.2 h'.2 hbody
          refine ⟨?_, hrest⟩
          rw [normal, normal, ResultClass.name_inj hclass, token_eq h.1 h'.1 htoken, hresults]
      | async _ | stream _ | prompt => cases hkind
  | async r =>
      cases record' with
      | async r' =>
          simp only [body, String.toList_append, List.append_assoc] at hbody
          obtain ⟨hname, hresults, hrest⟩ := Results.name_trailing_inj r.kind.isName_name
            r'.kind.isName_name h h' hbody
          refine ⟨?_, hrest⟩
          rw [normal, normal, AsyncKind.name_inj hname, hresults]
      | result _ | stream _ | prompt => cases hkind
  | stream r =>
      cases record' with
      | stream r' =>
          obtain ⟨htext, hrest⟩ := Text.cString_append_inj hbody
          obtain ⟨kind, contents⟩ := r
          obtain rfl : kind = r'.kind := streamKind_eq hmark
          obtain rfl : contents = r'.text := htext
          exact ⟨rfl, (List.cons.inj hrest).2⟩
      | result _ | async _ | prompt => cases hkind
  | prompt =>
      cases record' with
      | prompt => exact ⟨rfl, by simpa using hbody⟩
      | result _ | async _ | stream _ => cases hkind

theorem isControl_of_mem_text {record : Record} (h : record.WellFormed) :
    ∀ c ∈ record.text.toList, Text.isControl c = false := by
  have hdigit : ∀ c : Char, c.isDigit = true → Text.isControl c = false := fun c hc =>
    Value.isControl_of_isNameChar (by simp [isNameChar, Char.isAlphanum, hc])
  have hname : ∀ name : String, isName name = true →
      ∀ c ∈ name.toList, Text.isControl c = false := fun name hname c hc =>
    Value.isControl_of_isNameChar ((isName_iff.mp hname).2 c hc)
  have hbody : ∀ c ∈ record.body.toList, Text.isControl c = false := by
    intro c hc
    cases record with
    | result r =>
        simp only [body, String.toList_append, List.mem_append] at hc
        exact hc.elim (hname _ r.resultClass.isName_name c)
          (Results.isControl_of_mem_trailing h.2 c)
    | async r =>
        simp only [body, String.toList_append, List.mem_append] at hc
        exact hc.elim (hname _ r.kind.isName_name c) (Results.isControl_of_mem_trailing h c)
    | stream r => exact Text.isControl_of_mem_cString hc
    | prompt =>
        have hc : c ∈ ['g', 'd', 'b', ')'] := hc
        simp only [List.mem_cons, List.not_mem_nil, or_false] at hc
        rcases hc with rfl | rfl | rfl | rfl <;> rfl
  intro c hc
  rw [toList_text, List.mem_append, List.mem_cons] at hc
  rcases hc with hc | rfl | hc
  · exact hdigit c (isDigit_of_mem_tokenText h c hc)
  · exact record.mark_spec.2
  · exact hbody c hc

/-- What looks alike is written alike, and prompted alike. -/
theorem text_normal (record : Record) : record.normal.text = record.text := by
  cases record with
  | result r => simp [normal, text, ResultRecord.text, Results.trailing_normal]
  | async r => simp [normal, text, AsyncRecord.text, Results.trailing_normal]
  | stream _ | prompt => rfl

theorem isPrompted_normal (record : Record) : record.normal.isPrompted = record.isPrompted := by
  cases record <;> rfl

end Record

/-! ## Transcripts -/

namespace Output

variable {τ : Type} [Sink τ]

/-- Write records in their order. -/
def writeEach (output : Output τ) (records : List Record) : Output τ :=
  records.foldl (fun output record => (output.write record).2) output

/-- The text of a record: its line, and that of the prompt that is due behind it. -/
def blockText (prompt : Bool) (record : Record) : String :=
  String.join ((recordsOf prompt record).map fun r => r.text ++ "\n")

/-- The text of a record with its prompt is told from what comes behind it. -/
theorem blockText_append_inj {prompt : Bool} {record record' : Record} (h : record.WellFormed)
    (h' : record'.WellFormed) {s s' : List Char}
    (heq : (blockText prompt record).toList ++ s = (blockText prompt record').toList ++ s') :
    record.normal = record'.normal ∧ s = s' := by
  let prompted (r : Record) : List Char :=
    if r.isPrompted && prompt then Record.prompt.text.toList ++ ['\n'] else []
  have hsplit : ∀ (r : Record) (t : List Char), (blockText prompt r).toList ++ t =
      r.text.toList ++ '\n' :: (prompted r ++ t) := by
    intro r t
    simp only [blockText, recordsOf, prompted]
    split <;> simp
  rw [hsplit, hsplit] at heq
  obtain ⟨hnormal, hbehind⟩ := Record.text_append_inj h h' heq
  refine ⟨hnormal, ?_⟩
  simp only [prompted] at hbehind
  rw [← Record.isPrompted_normal record, hnormal, Record.isPrompted_normal] at hbehind
  exact List.append_cancel_left hbehind

theorem blockText_ne_nil (prompt : Bool) (record : Record) (s : List Char) :
    (blockText prompt record).toList ++ s ≠ [] := by
  rw [blockText, recordsOf]
  split <;> simp

/-- What looks alike is written alike. -/
theorem blockText_normal (prompt : Bool) (record : Record) :
    blockText prompt record.normal = blockText prompt record := by
  simp only [blockText, recordsOf, Record.isPrompted_normal]
  split <;> simp [Record.text_normal]

/-- The transcript grows by the lines that are written. -/
theorem writeAll_transcript (output : Output Transcript) (records : List Record) :
    (output.writeAll records).1 = .ok () ∧ (output.writeAll records).2.sink.text =
      output.sink.text ++ String.join (records.map fun r => r.text ++ "\n") := by
  induction records generalizing output with
  | nil => exact ⟨rfl, by simp [writeAll]⟩
  | cons record records ih =>
      obtain ⟨hok, htext⟩ := ih { output with
        sink := ⟨output.sink.text ++ record.text ++ "\n"⟩, written := output.written.push record }
      exact ⟨hok, htext.trans (by simp [String.append_assoc])⟩

theorem write_transcript (output : Output Transcript) (record : Record) :
    (output.write record).2.sink.text = output.sink.text ++ blockText output.prompt record ∧
      (output.write record).2.prompt = output.prompt := by
  obtain ⟨hok, htext⟩ := writeAll_transcript output (recordsOf output.prompt record)
  obtain ⟨accepted, sink, -, heq, -⟩ := write_eq output record
  refine ⟨?_, by rw [heq]⟩
  rw [write]
  rcases hwrite : output.writeAll (recordsOf output.prompt record) with ⟨_ | _, output'⟩
  · rw [hwrite] at hok
    cases hok
  · rw [hwrite] at htext
    exact htext

theorem writeEach_transcript (output : Output Transcript) (records : List Record) :
    (output.writeEach records).sink.text =
      output.sink.text ++ String.join (records.map (blockText output.prompt)) := by
  induction records generalizing output with
  | nil => simp [writeEach]
  | cons record records ih =>
      obtain ⟨htext, hprompt⟩ := write_transcript output record
      refine (ih (output.write record).2).trans ?_
      rw [htext, hprompt]
      simp [String.append_assoc]

/-- The written text tells the records, up to empty lists of results.  Each
record is written as a line, its prompt as another, and no text in a record
gets a control character into them. -/
theorem records_of_transcript {records others : List Record}
    (hrecords : ∀ r ∈ records, r.WellFormed) (hothers : ∀ r ∈ others, r.WellFormed)
    (output : Output Transcript) :
    (∀ r ∈ records, ∀ c ∈ r.text.toList, Text.isControl c = false) ∧
      (output.writeEach records).sink.text =
        output.sink.text ++ String.join (records.map (blockText output.prompt)) ∧
      ((output.writeEach records).sink.text = (output.writeEach others).sink.text ↔
        records.map Record.normal = others.map Record.normal) := by
  refine ⟨fun r hr => Record.isControl_of_mem_text (hrecords r hr),
    output.writeEach_transcript records, ?_, ?_⟩
  · intro htext
    simp only [writeEach_transcript, String.append_right_inj] at htext
    have hchars : records.flatMap (fun r => (blockText output.prompt r).toList) ++ [] =
        others.flatMap (fun r => (blockText output.prompt r).toList) ++ [] := by
      simpa [String.toList_join, List.flatMap_map] using congrArg String.toList htext
    exact (Text.flatMap_append_inj
      (fun r hr r' hr' _ _ => blockText_append_inj (hrecords r hr) (hothers r' hr'))
      (fun r _ => blockText_ne_nil _ r) (fun r _ => blockText_ne_nil _ r) hchars).1
  · intro hnormal
    have hblocks : ∀ rs : List Record, rs.map (blockText output.prompt) =
        (rs.map Record.normal).map (blockText output.prompt) := by
      intro rs
      rw [List.map_map]
      exact List.map_congr_left fun r _ => (blockText_normal output.prompt r).symm
    rw [writeEach_transcript, writeEach_transcript, hblocks, hnormal, ← hblocks]

/-- The two empty lists look alike; a text that imitates a line does not. -/
theorem records_of_transcript_lists :
    let empty (v : Value) : Record := .result ⟨some "7", .done, [("children", .tuple [("-x", v)])]⟩
    let imitation (text : String) : Record := .stream ⟨.console, text⟩
    let output : Output Transcript := { prompt := true, sink := {} }
    (output.writeEach [empty (.list []), imitation "\"\n8^done"]).sink.text =
        (output.writeEach [empty (.resultList []), imitation "\"\n8^done"]).sink.text ∧
      (output.writeEach [imitation "\"", .result ⟨some "8", .done, []⟩]).sink.text ≠
        (output.writeEach [imitation "\"\n8^done", .prompt]).sink.text := by
  intro empty imitation output
  have hempty : ∀ v : Value, v.names = [] → (empty v).WellFormed := by
    intro v hv
    refine ⟨by simp [isToken], ?_⟩
    simp [Results.WellNamed, fieldNames, Value.names, hv, isName, isNameChar]
  have hlists : ∀ v : Value, v.names = [] →
      ∀ r ∈ [empty v, imitation "\"\n8^done"], r.WellFormed := by
    intro v hv
    exact List.forall_mem_cons.mpr ⟨hempty v hv, List.forall_mem_singleton.mpr trivial⟩
  have hdone : ∀ r ∈ [imitation "\"", .result ⟨some "8", .done, []⟩], r.WellFormed := by
    simp [imitation, Record.WellFormed, isToken, Results.WellNamed, fieldNames]
  have hprompt : ∀ r ∈ [imitation "\"\n8^done", .prompt], r.WellFormed := by
    simp [imitation, Record.WellFormed]
  constructor
  · obtain ⟨-, -, hsame⟩ := records_of_transcript
      (hlists (.list []) (by simp [Value.names, itemNames]))
      (hlists (.resultList []) (by simp [Value.names, fieldNames])) output
    exact hsame.mpr (by simp [empty, Record.normal, normalFields, normalItems, Value.normal])
  · obtain ⟨-, -, hsame⟩ := records_of_transcript hdone hprompt output
    exact fun htext => by simpa [imitation, Record.normal] using hsame.mp htext

end Output

end MachineInterface
