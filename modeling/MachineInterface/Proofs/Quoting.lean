import MachineInterface.Proofs.Refusals
import MachineInterface.Proofs.Tokens

/-!
# MachineInterface.Proofs.Quoting

Quoting carries any text to the engine.  Whatever a text holds, its quoted form
is one token of a line, no flag, number or thread group is seen in it, and the
command that takes it as an argument hands over the text itself
(`quoting_carries_text`).
-/

namespace MachineInterface

variable {σ τ α β : Type}

/-! ## Arguments -/

namespace Argument

open Text

variable {a : Argument} {as : List Argument} {token : String} {tokens rest : List String}

/-- An argument that is there is read before the others. -/
theorem validate_of_found {value : a.kind.Value} (h : a.kind.read tokens = (.found value, rest)) :
    validate (a :: as) tokens = .found value (validate as rest) := by
  simp only [validate, h]

/-- An argument that may be left out leaves all tokens to the others. -/
theorem validate_of_absent (ha : a.mandatory = false)
    (h : a.kind.read tokens = (.absent, tokens)) :
    validate (a :: as) tokens = .omitted ha (validate as tokens) := by
  simp only [validate, h, dif_pos ha]

/-- A quoted token is no flag. -/
theorem not_mem_flags_of_quoted (h : quoted token = true) (short long : Option String) :
    token ∉ flags short long := by
  intro hmem
  simp only [flags, List.mem_append, Option.mem_toList, Option.map_eq_some_iff] at hmem
  obtain ⟨name, -, rfl⟩ | ⟨name, -, rfl⟩ := hmem
  all_goals simp [quoted, isQuoted] at h

/-- An option whose flag is not there leaves all tokens. -/
theorem read_option_of_not_mem {short long : Option String} (type : ValueType) (arity : Nat)
    (h : ∀ t ∈ tokens, t ∉ flags short long) :
    (Kind.option short long type arity).read tokens = (.absent, tokens) := by
  have hdrop : tokens.dropWhile (· ∉ flags short long) = [] := by
    rw [← List.append_nil tokens, List.dropWhile_append_of_pos (by simpa using h)]
    rfl
  change readOption _ type arity tokens = _
  rw [readOption, hdrop]

/-- A quoted token is a text, whatever follows it. -/
theorem read_text_of_quoted (h : quoted token = true) (rest : List String) :
    Kind.text.read (token :: rest) = (.found (unquoted token), rest) := by
  change readText (token :: rest) = _
  rw [readText, if_pos h]

/-- A token that is decoded is taken. -/
theorem read_value_of_decode {type : ValueType} {value : type.Value}
    (h : type.decode token = some value) (rest : List String) :
    (Kind.value type).read (token :: rest) = (.found value, rest) := by
  change readFront type.decode (token :: rest) = _
  rw [readFront, h]

end Argument

namespace Verb

open Argument Text

/-- The verb takes all of these tokens and asks for the command. -/
def Reads (verb : Verb) (tokens : List String) (command : Command) : Prop :=
  ∃ values, (validate verb.arguments tokens).values = .ok values ∧
    (validate verb.arguments tokens).rest = [] ∧ verb.command values [] = .ok command

theorem reads_of_validate {verb : Verb} {tokens : List String} {command : Command}
    {validation : Validation verb.arguments} {values : Values verb.arguments}
    (h : validate verb.arguments tokens = validation) (hvalues : validation.values = .ok values)
    (hrest : validation.rest = []) (hcommand : verb.command values [] = .ok command) :
    verb.Reads tokens command := by
  subst h
  exact ⟨values, hvalues, hrest, hcommand⟩

variable {token : String}

theorem reads_breakWatch (h : quoted token = true) :
    breakWatch.Reads [token]
      (.watch { expression := unquoted token, read := false, write := true }) := by
  have hflag : ∀ name : String, (flag name).kind.read [token] = (.absent, [token]) := fun name =>
    read_option_of_not_mem _ _ (by simpa using not_mem_flags_of_quoted h (some name) none)
  have hvalidate : validate breakWatch.arguments [token] =
      .omitted rfl (.omitted rfl (.found (unquoted token) (.complete []))) := by
    change validate [flag "a", flag "r", Argument.text "expression"] [token] = _
    rw [validate_of_absent rfl (hflag "a"), validate_of_absent rfl (hflag "r"),
      validate_of_found (read_text_of_quoted h []), validate]
  exact reads_of_validate hvalidate rfl rfl rfl

theorem reads_varCreate (h : quoted token = true) :
    varCreate.Reads ["-", "*", token]
      (.createVariable {
        name := "-"
        frameAddress := "*"
        expression := unquoted token
        thread := none
        frame := none }) := by
  have hoption : ∀ {name : String}, (∀ t ∈ ["-", "*"], t ∉ flags none (some name)) →
      (longOption name .number).kind.read ["-", "*", token] = (.absent, ["-", "*", token]) := by
    intro name hwords
    refine read_option_of_not_mem _ _ ?_
    have htoken := not_mem_flags_of_quoted h none (some name)
    simpa [htoken] using hwords
  have hname : objectName.kind.read ["-", "*", token] = (.found "-", ["*", token]) :=
    read_value_of_decode (by decide) _
  have haddress : (Argument.word "frame-addr" { numbers := true }).kind.read ["*", token] =
      (.found "*", [token]) :=
    read_value_of_decode (by decide) _
  have hvalidate : validate varCreate.arguments ["-", "*", token] =
      .omitted rfl (.omitted rfl (.found "-" (.found "*" (.found (unquoted token)
        (.complete []))))) := by
    change validate [longOption "thread" .number, longOption "frame" .number, objectName,
      .word "frame-addr" { numbers := true }, .text "expression"] _ = _
    rw [validate_of_absent rfl (hoption (by decide)),
      validate_of_absent rfl (hoption (by decide)), validate_of_found hname,
      validate_of_found haddress, validate_of_found (read_text_of_quoted h []), validate]
  exact reads_of_validate hvalidate rfl rfl rfl

theorem reads_varAssign {name : String} (hname : quoted name = true) (h : quoted token = true) :
    varAssign.Reads [name, token] (.assign (unquoted name) (unquoted token)) := by
  have hobject : objectName.kind.read [name, token] = (.found (unquoted name), [token]) :=
    read_value_of_decode (decode_word_of_quoted rfl hname) _
  have hvalidate : validate varAssign.arguments [name, token] =
      .found (unquoted name) (.found (unquoted token) (.complete [])) := by
    change validate [objectName, .text "expression"] _ = _
    rw [validate_of_found hobject, validate_of_found (read_text_of_quoted h []), validate]
  exact reads_of_validate hvalidate rfl rfl rfl

theorem reads_breakCondition {number : String} {n : Int}
    (hnumber : integer? number.toList = some n) (h : quoted token = true) :
    breakCondition.Reads [number, token]
      (.setCondition n (condition? (some (unquoted token)))) := by
  have hdecode : ValueType.number.decode number = some n := hnumber
  have hread : (Argument.number "number").kind.read [number, token] = (.found n, [token]) :=
    read_value_of_decode hdecode _
  have hvalidate : validate breakCondition.arguments [number, token] =
      .found n (.found (unquoted token) (.complete [])) := by
    change validate [.number "number", (Argument.text "expression").optional] _ = _
    rw [validate_of_found hread, validate_of_found (read_text_of_quoted h []), validate]
  exact reads_of_validate hvalidate rfl rfl rfl

end Verb

/-! ## Calls with texts -/

/-- The call hands a text of the client over, or creates a stoppoint. -/
def Call.carriesText : Call → Bool
  | .answer (.watchTarget _) | .answer (.setCondition ..) | .answer (.resolveValue ..)
  | .answer (.assignValue ..) | .create _ => true
  | .answer _ => false

namespace Traced

/-- The calls on the list that carry a text. -/
def texts (t : Traced σ) : List Call := t.calls.filter Call.carriesText

/-- The engine is called without a text. -/
def Silent (t u : Traced σ) : Prop := u.texts = t.texts

variable [Engine σ] {request : Request}

theorem silent_answer (h : (Call.answer request).carriesText = false) (t : Traced σ) :
    t.Silent (Engine.answer request t).2 := by
  change (t.calls ++ [Call.answer request]).filter Call.carriesText = _
  rw [List.filter_append, List.filter_cons_of_neg (by simp [h]), List.filter_nil, List.append_nil,
    texts]

theorem texts_answer (h : (Call.answer request).carriesText = true) (t : Traced σ) :
    (Engine.answer request t).2.texts = t.texts ++ [.answer request] := by
  change (t.calls ++ [Call.answer request]).filter Call.carriesText = _
  rw [List.filter_append, List.filter_cons_of_pos h, List.filter_nil, texts]

end Traced

theorem Request.carriesText_of_isInquiry {request : Request} (h : request.isInquiry) :
    (Call.answer request).carriesText = false := by
  cases request <;> first | rfl | exact h.elim

namespace Act

section Rules

variable {step : Act (Traced σ) τ α} {next : α → Act (Traced σ) τ β} {a b : Adapter (Traced σ) τ}
  {calls : List Call} {v : α}

/-- The step hands over the texts of these calls, and no others. -/
def Carries (step : Act (Traced σ) τ α) (a : Adapter (Traced σ) τ) (calls : List Call) : Prop :=
  (step.after a).engine.texts = a.engine.texts ++ calls

/-- The step hands over no text. -/
abbrev Mute [Sink τ] (step : Act (Traced σ) τ α) : Prop :=
  Walks (fun _ _ _ => True) Traced.Silent step

theorem Walks.texts_eq [Sink τ] (h : Mute step) (a : Adapter (Traced σ) τ) :
    (step.after a).engine.texts = a.engine.texts :=
  (h a).engine_invariant (I := fun t : Traced σ => t.texts = a.engine.texts)
    (fun _ _ ht hu => Eq.trans hu ht) rfl

/-- Behind its calls with texts a step goes on without any. -/
theorem Carries.bind [Sink τ] (h : Carries step a calls) (hnext : ∀ v, Mute (next v)) :
    Carries (step >>= next) a calls := by
  cases hstep : step a with
  | ok v b =>
      rw [Carries, after_of_ok hstep] at h
      rw [Carries, after_bind_of_ok hstep, (hnext v).texts_eq, h]
  | error e b =>
      rw [Carries, after_of_error hstep] at h
      rw [Carries, after_bind_of_error hstep, h]

/-- Calls with texts follow a step that succeeds. -/
theorem carries_bind_of_ok {more : List Call} (hstep : step a = .ok v b)
    (hb : b.engine.texts = a.engine.texts ++ calls) (hnext : Carries (next v) b more) :
    Carries (step >>= next) a (calls ++ more) := by
  rw [Carries, after_bind_of_ok hstep, hnext, hb, List.append_assoc]

theorem carries_bind_of_same (hstep : step a = .ok v b) (hb : b.engine.texts = a.engine.texts)
    (hnext : Carries (next v) b calls) : Carries (step >>= next) a calls := by
  rw [Carries, after_bind_of_ok hstep, hnext, hb]

variable [Engine σ]

/-- Requests without texts hand over no text. -/
theorem Walks.mute [Sink τ] {S : Session → Option Record → Session → Prop} {Q : Request → Prop}
    (hQ : ∀ request, Q request → (Call.answer request).carriesText = false)
    (h : Walks S (Engine.Asked Q) step) : Mute step := by
  refine h.mono (fun _ _ _ _ => trivial) ?_
  rintro t u ⟨request, hrequest, rfl⟩
  exact t.silent_answer (hQ request hrequest)

theorem mute_demandAsk [Sink τ] {request : Request} {f : request.Answer → Except EngineError α}
    (hrequest : (Call.answer request).carriesText = false) (h : ∀ v, Mute (next v)) :
    Mute (do next (← demand (f (← ask request)))) :=
  walks_demandAsk (Traced.silent_answer hrequest) h

theorem carries_demandAsk [Sink τ] {request : Request} {f : request.Answer → Except EngineError α}
    (hrequest : (Call.answer request).carriesText = true) (h : ∀ v, Mute (next v)) :
    Carries (do next (← demand (f (← ask request)))) a [.answer request] := by
  refine Carries.bind ?_ fun answer => (walks_demand (f answer)).bind h
  exact Traced.texts_answer hrequest a.engine

end Rules

/-! ## Commands -/

variable [Engine σ]

theorem mute_discard [Sink τ] (handle : Handle) (topic : String) :
    Mute (discard handle topic : Act (Traced σ) τ Unit) := by
  refine Walks.bind (fun a => .single (.engine (Traced.silent_answer rfl a.engine))) fun r => ?_
  exact (walks_orWarn topic r).bind fun _ => walks_pure _

theorem mute_enroll [Sink τ] (handle : Handle)
    (stoppoint : Nat → String → StoppointState → Stoppoint) :
    Mute (enroll handle stoppoint : Act (Traced σ) τ Stoppoint) := by
  have hnumber : Mute (numberOrDiscard handle : Act (Traced σ) τ Nat) := by
    refine walks_session.bind fun s => ?_
    cases s.number handle with
    | ok r => exact (walks_modifySession fun _ => trivial).bind fun _ => walks_pure _
    | error e => exact (mute_discard handle _).bind fun _ => walks_throw e
  refine hnumber.bind fun id => mute_demandAsk rfl fun state => walks_session.bind fun s => ?_
  exact (walks_modifySession fun _ => trivial).bind fun _ => walks_pure _

section Creation

variable [Sink τ]

/-- The notifications that a creation delivers hand over no text. -/
theorem texts_run (course : Creation σ) (calls : List Call) (a : Adapter (Traced σ) τ) :
    ((create.run (Traced.creation calls course)).after a).engine.texts =
      calls.filter Call.carriesText := by
  induction course generalizing calls a with
  | finished result engine => rfl
  | deliver notification engine resume ih =>
      -- Whatever the engine was asked meanwhile stands on the list that the
      -- creation goes on with.
      let start : Adapter (Traced σ) τ := { a with engine := ⟨engine, calls⟩ }
      have hmute := ((walks_handle notification).mute
        fun _ => Request.carriesText_of_isInquiry).attempt.texts_eq start
      obtain ⟨outcome, hattempt⟩ := attempt_eq_ok (handle notification) start
      rw [after_of_ok hattempt] at hmute
      let b := (handle notification).after start
      have hrun := ih outcome b.engine.engine b.engine.calls b
      rw [after, Traced.creation, run_deliver hattempt]
      exact hrun.trans hmute

theorem carries_create (placement : Placement) (a : Adapter (Traced σ) τ) :
    Carries (create placement : Act (Traced σ) τ (Except EngineError Handle)) a
      [.create placement] := by
  have hrun := texts_run (Engine.create placement a.engine.engine)
    (a.engine.calls ++ [.create placement]) a
  rw [List.filter_append] at hrun
  exact hrun

theorem carries_watch (w : Watch) (a : Adapter (Traced σ) τ) :
    Carries (watch w : Act (Traced σ) τ Results) a
      (.answer (.watchTarget w.expression) ::
        ((Engine.answer (.watchTarget w.expression) a.engine.engine).1.toOption.map fun target =>
          .create (.watchpoint target w.read w.write)).toList) := by
  refine Carries.bind ?_ fun handle => (mute_enroll handle _).bind fun _ => walks_pure _
  have hask : ask (.watchTarget w.expression) a =
      .ok (Engine.answer (.watchTarget w.expression) a.engine.engine).1
        { a with engine := (Engine.answer (.watchTarget w.expression) a.engine).2 } :=
    rfl
  refine carries_bind_of_ok hask (Traced.texts_answer rfl a.engine) ?_
  cases (Engine.answer (.watchTarget w.expression) a.engine.engine).1 with
  | error _ => exact (List.append_nil _).symm
  | ok target => exact (carries_create _ _).bind fun r => walks_demand r

end Creation

theorem carries_createVariable [Sink τ] {b : Binding} {thread frame : Option Nat}
    (hthread : b.thread.mapM (Verb.unsigned "thread") = .ok thread)
    (hframe : b.frame.mapM (Verb.narrow "frame") = .ok frame) (a : Adapter (Traced σ) τ) :
    Carries (createVariable b : Act (Traced σ) τ Results) a
      [.answer (.resolveValue b.expression thread frame)] := by
  obtain ⟨chosen, c, hchoose, hc⟩ : ∃ chosen c,
      chooseName b.name a = .ok chosen c ∧ c.engine.texts = a.engine.texts := by
    unfold chooseName
    split <;> exact ⟨_, _, rfl, rfl⟩
  have hbind : ∀ d : Adapter (Traced σ) τ,
      Carries (do return (← bindValue chosen b.expression thread frame).createResults) d
        [.answer (.resolveValue b.expression thread frame)] := by
    intro d
    refine Carries.bind (carries_demandAsk rfl fun resolved => ?_) fun _ => walks_pure _
    refine walks_session.bind fun s => mute_demandAsk rfl fun info => ?_
    exact (walks_modifySession fun _ => trivial).bind fun _ => walks_pure _
  refine carries_bind_of_same hchoose hc ?_
  refine carries_bind_of_same (ofExcept_of_ok hthread c) rfl ?_
  refine carries_bind_of_same (ofExcept_of_ok hframe c) rfl ?_
  split
  · exact carries_bind_of_same rfl rfl (hbind _)
  · exact hbind c

theorem carries_assign [Sink τ] {name : String} {v : Variable} {a : Adapter (Traced σ) τ}
    (h : a.session.object? name = some v) (expression : String) :
    Carries (assign name expression : Act (Traced σ) τ Results) a
      [.answer (.assignValue v.handle expression)] := by
  have hobject : object name a = .ok v a := by
    rw [object, bind_of_ok (session_apply a), h]
    rfl
  refine carries_bind_of_same hobject rfl (carries_demandAsk rfl fun _ => ?_)
  have hrefresh : Mute (refresh v : Act (Traced σ) τ Variable) :=
    mute_demandAsk rfl fun _ => (walks_modifySession fun _ => trivial).bind fun _ => walks_pure _
  exact hrefresh.bind fun _ => walks_pure _

/-- A recorded number is resolved to the handle that the engine finds. -/
theorem resolve_of_find {argument : String} {n : Int} {id : Nat} {p : Stoppoint} {handle : Handle}
    {a : Adapter σ τ} (hn : Text.nat32? n = some id) (hp : a.session.stoppoint? id = some p)
    (hfind : (Engine.answer (.findStoppoint p.handle) a.engine).1 = some handle) :
    resolve argument n a = .ok (id, handle)
      { a with engine := (Engine.answer (.findStoppoint p.handle) a.engine).2 } := by
  have hnarrow : Verb.narrow argument n = .ok id := Verb.narrow_of_nat32? hn
  rw [resolve, bind_of_ok (ofExcept_of_ok hnarrow a), bind_of_ok (session_apply a), hp]
  refine (bind_of_ok (ask_apply _ a) _).trans ?_
  rw [hfind]
  rfl

theorem carries_setCondition [Sink τ] {n : Int} {id : Nat} {p : Stoppoint} {handle : Handle}
    {a : Adapter (Traced σ) τ} (hn : Text.nat32? n = some id)
    (hp : a.session.stoppoint? id = some p)
    (hfind : (Engine.answer (.findStoppoint p.handle) a.engine).1 = some handle)
    (condition : Option String) :
    Carries (setCondition n condition : Act (Traced σ) τ Results) a
      [.answer (.setCondition handle condition)] := by
  refine carries_bind_of_same (resolve_of_find hn hp hfind) (Traced.silent_answer rfl a.engine) ?_
  refine carries_demandAsk rfl fun _ => ?_
  exact (walks_modifySession fun _ => trivial).bind fun _ => walks_pure _

/-! ## Lines -/

section Lines

open Text

variable [Sink τ] {register : Register} {text : String} {line : Line} {verb : Verb}
  {tokens : List String} {command : Command}

omit [Engine σ] [Sink τ] in
theorem readCommand_of_reads {arguments : String} (h : verb.Reads (Text.tokens arguments) command)
    (a : Adapter σ τ) : readCommand verb arguments a = .ok command a := by
  obtain ⟨values, hvalues, hrest, hcommand⟩ := h
  refine (bind_of_ok (ofExcept_of_ok hvalues a) _).trans ?_
  rw [hrest, hcommand]
  split <;> rfl

/-- The engine behind a line is the engine behind its verb. -/
theorem engine_handleLine (hline : Line.parse text = .ok (some line))
    (hverb : register.verb? line.verb = some verb) (a : Adapter σ τ) :
    ((handleLine register text).after a).engine =
      ((runVerb verb line.arguments).after a).engine := by
  cases hrun : runVerb verb line.arguments a with
  | ok answer b =>
      rw [after_of_ok hrun]
      exact (after_handleLine (answerLine_of_ok hline hverb hrun)).2
  | error e b =>
      rw [after_of_error hrun]
      exact (after_handleLine (answerLine_of_error hline hverb hrun)).2

/-- The engine behind a line is the engine behind the command that its tokens
are read as. -/
theorem engine_of_reads (hline : Line.parse text = .ok (some line)) (hverb : line.verb = verb.name)
    (hreads : verb.Reads (Text.tokens line.arguments) command) (a : Adapter σ τ) :
    ((handleLine .standard text).after a).engine = ((perform command).after a).engine := by
  have hstandard : Register.standard.verb? line.verb = some verb := by
    rw [hverb, Register.verb?_standard_name]
  rw [engine_handleLine hline hstandard, runVerb, after_bind_of_ok (readCommand_of_reads hreads a),
    after_bind_pure]

end Lines

end Act

/-! ## Quoted texts -/

namespace Text

theorem isDigit_of_isDigitOf_ten {c : Char} (h : isDigitOf 10 c = true) : c.isDigit = true := by
  cases hdigit : c.isDigit with
  | true => rfl
  | false =>
      simp only [isDigitOf, digitValue, hdigit, Bool.false_eq_true, if_false,
        decide_eq_true_eq] at h
      split at h
      · omega
      · split at h <;> omega

/-- A numeral is a token. -/
theorem isToken_of_integer? {cs : List Char} {n : Int} (h : integer? cs = some n) : IsToken cs := by
  have hdigits : ∀ {ds : List Char} {f : Nat → Option Int}, (unsigned? 10 ds).bind f = some n →
      ds ≠ [] ∧ ∀ c ∈ ds, c.isDigit = true := by
    intro ds f hds
    obtain ⟨m, hm, -⟩ := Option.bind_eq_some_iff.mp hds
    simp only [unsigned?, Option.ite_none_right_eq_some, List.all_eq_true] at hm
    exact ⟨hm.1.1, fun c hc => isDigit_of_isDigitOf_ten (hm.1.2 c hc)⟩
  have hblank : ∀ {c : Char}, c.isDigit = true → isBlank c = false := fun hc =>
    Line.isBlank_of_isVerbChar (by simp [Line.isVerbChar, Char.isAlphanum, hc])
  have htoken : ∀ {c : Char} {ds : List Char}, c ≠ '"' → isBlank c = false →
      (∀ d ∈ ds, d.isDigit = true) → IsToken (c :: ds) := fun hquote hc hds =>
    .word hquote (List.forall_mem_cons.mpr ⟨hc, fun d hd => hblank (hds d hd)⟩)
  unfold integer? at h
  split at h
  · exact htoken (by decide) rfl (hdigits h).2
  · exact htoken (by decide) rfl (hdigits h).2
  · obtain ⟨hne, hall⟩ := hdigits h
    obtain ⟨c, ds, rfl⟩ := List.exists_cons_of_ne_nil hne
    have hc := hall c List.mem_cons_self
    have hquote : c ≠ '"' := by
      rintro rfl
      cases hc
    exact htoken hquote (hblank hc) fun d hd => hall d (List.mem_cons_of_mem c hd)

end Text

section Carried

open Text

variable [Engine σ] [Sink τ]

/-- The calls with texts that a line leads to. -/
def Adapter.told (a : Adapter σ τ) (line : String) : List Call :=
  ((Act.handleLine .standard line).after a.traced).engine.texts

theorem Adapter.told_of_reads {a : Adapter σ τ} {verb : Verb} {command : Command} {text : String}
    {line : Line} {calls : List Call} (hline : Line.parse text = .ok (some line))
    (hverb : line.verb = verb.name) (hreads : verb.Reads (Text.tokens line.arguments) command)
    (hcarries : (Act.perform command).Carries a.traced calls) : a.told text = calls := by
  rw [told, Act.engine_of_reads hline hverb hreads]
  exact hcarries

theorem Adapter.told_eq {a : Adapter σ τ} {verb : Verb} {tokens : List String} {command : Command}
    {line : String} {calls : List Call} (h : Line.Spells verb tokens line.toList)
    (htokens : ∀ t ∈ tokens, IsToken t.toList) (hreads : verb.Reads tokens command)
    (hcarries : (Act.perform command).Carries a.traced calls) : a.told line = calls := by
  obtain ⟨parsed, hline, hverb, rfl⟩ := h.parse_eq_ok htokens
  exact told_of_reads hline hverb hreads hcarries

/-- What the engine is told of a text that a line holds in its quoted form. -/
structure Adapter.Conveys (a : Adapter σ τ) (text : String) : Prop where
  /-- A watchpoint for writes is set at the place that the text stands for. -/
  watch {line : String} (h : Line.Spells .breakWatch [quotation text] line.toList) :
    a.told line = .answer (.watchTarget text) ::
      ((Engine.answer (.watchTarget text) a.engine).1.toOption.map fun target =>
        .create (.watchpoint target false true)).toList
  createVariable {line : String}
    (h : Line.Spells .varCreate ["-", "*", quotation text] line.toList) :
    a.told line = [.answer (.resolveValue text none none)]
  assign {line name : String} {v : Variable} (hobject : a.session.object? name = some v)
    (h : Line.Spells .varAssign [quotation name, quotation text] line.toList) :
    a.told line = [.answer (.assignValue v.handle text)]
  /-- A stoppoint that still exists gets the text as its condition, none if the
  text is blank. -/
  setCondition {line number : String} {id : Nat} {p : Stoppoint} {handle : Handle}
    (hnumber : (integer? number.toList).bind nat32? = some id)
    (hp : a.session.stoppoint? id = some p)
    (hfind : (Engine.answer (.findStoppoint p.handle) a.engine).1 = some handle)
    (h : Line.Spells .breakCondition [number, quotation text] line.toList) :
    a.told line =
      [.answer (.setCondition handle (if isAllBlank text.toList then none else some text))]

theorem Adapter.conveys_text (a : Adapter σ τ) (text : String) : a.Conveys text := by
  have hquoted := quoted_quotation text
  constructor
  case watch =>
    intro line h
    have hreads := Verb.reads_breakWatch hquoted
    rw [unquoted_quotation] at hreads
    have hcarries := Act.carries_watch ⟨text, false, true⟩ a.traced
    exact told_eq h (by simp [IsToken.quoted]) hreads hcarries
  case createVariable =>
    intro line h
    have hreads := Verb.reads_varCreate hquoted
    rw [unquoted_quotation] at hreads
    have htokens : ∀ t ∈ ["-", "*", quotation text], IsToken t.toList := by
      have hwords : IsToken "-".toList ∧ IsToken "*".toList :=
        ⟨.word (by decide) (List.forall_mem_singleton.mpr rfl),
          .word (by decide) (List.forall_mem_singleton.mpr rfl)⟩
      simpa [IsToken.quoted] using hwords
    exact told_eq h htokens hreads (Act.carries_createVariable rfl rfl a.traced)
  case assign =>
    intro line name v hobject h
    have hreads := Verb.reads_varAssign (quoted_quotation name) hquoted
    rw [unquoted_quotation, unquoted_quotation] at hreads
    exact told_eq h (by simp [IsToken.quoted]) hreads (Act.carries_assign hobject text)
  case setCondition =>
    intro line number id p handle hnumber hp hfind h
    obtain ⟨n, hn, hid⟩ := Option.bind_eq_some_iff.mp hnumber
    have hcondition : Verb.condition? (some text) =
        if isAllBlank text.toList then none else some text := by
      rw [Verb.condition?, Option.filter_some]
      cases isAllBlank text.toList <;> rfl
    have hreads := Verb.reads_breakCondition hn hquoted
    rw [unquoted_quotation, hcondition] at hreads
    have htokens : ∀ t ∈ [number, quotation text], IsToken t.toList := by
      simp [IsToken.quoted, isToken_of_integer? hn]
    exact told_eq h htokens hreads (Act.carries_setCondition hid hp hfind _)

/-- **Quoting** carries any text to the engine.  Quoted forms with blanks
between them are the tokens of their line, and each is unquoted to its text;
so a command that is given a text in quotes hands this very text over. -/
theorem Act.quoting_carries_text :
    (∀ (texts : List String) (line : String),
      Spaced ((texts.map quotation).map String.toList) line.toList →
      Text.tokens line = texts.map quotation ∧
      ∀ text ∈ texts, quoted (quotation text) = true ∧ unquoted (quotation text) = text) ∧
    ∀ (a : Adapter σ τ) (text : String), a.Conveys text := by
  refine ⟨fun texts line h => ⟨h.tokens_eq (by simp [IsToken.quoted]), fun text _ => ?_⟩,
    Adapter.conveys_text⟩
  exact ⟨quoted_quotation text, unquoted_quotation text⟩

end Carried

/-- A text that looks like a flag and a thread group, has quotes in it and ends
with a backslash. -/
theorem Table.quoting_carries_text_table :
    let a := (Act.handleLine .standard "break-insert main").after
      (Adapter.new {} ({} : Table) Discard.discard)
    let v : Variable := ⟨"an object", "x", 5, .plain, .natural, none, none, none, default⟩
    let b := { a with session := a.session.add v }
    let text := "-r \"i1\" \\"
    let token := "\"-r \\\"i1\\\" \\\\\""
    Text.tokens (" \"an object\" " ++ token) = ["an object", text].map Text.quotation ∧
    b.told ("-break-watch " ++ token) =
      [.answer (.watchTarget text), .create (.watchpoint ⟨0, 8⟩ false true)] ∧
    b.told ("-var-create - * " ++ token) = [.answer (.resolveValue text none none)] ∧
    b.told ("-var-assign \"an object\" " ++ token) = [.answer (.assignValue 5 text)] ∧
    b.told ("-break-condition +1 " ++ token) =
      [.answer (.setCondition ⟨1, .breakpoint⟩ (some text))] := by
  intro a v b text token
  obtain ⟨htokens, hconveys⟩ := Act.quoting_carries_text (σ := Table) (τ := Discard)
  have htext := hconveys b text
  have hspaced : Text.Spaced ((["an object", text].map Text.quotation).map String.toList)
      (" \"an object\" " ++ token).toList := by
    have hline : (" \"an object\" " ++ token).toList =
        ((["an object", text].map Text.quotation).map String.toList).flatMap (' ' :: ·) := by
      decide +kernel
    rw [hline]
    exact (Text.spaced_flatMap _).1
  have hobject : b.session.object? "an object" = some v := by decide +kernel
  obtain ⟨p, hp, hfind⟩ : ∃ p, b.session.stoppoint? 1 = some p ∧
      (Engine.answer (.findStoppoint p.handle) b.engine).1 = some ⟨1, .breakpoint⟩ := by
    decide +kernel
  have hline : ("-break-condition +1 " ++ token).toList =
      Line.plain .breakCondition ["+1", Text.quotation text] := by
    decide +kernel
  have hset := htext.setCondition (by decide +kernel) hp hfind (Line.spells_of_eq_plain hline)
  have hblank : ¬ Text.isAllBlank text.toList = true := by decide +kernel
  rw [if_neg hblank] at hset
  exact ⟨(htokens _ _ hspaced).1, htext.watch (Line.spells_of_eq_plain (by decide +kernel)),
    htext.createVariable (Line.spells_of_eq_plain (by decide +kernel)),
    htext.assign hobject (Line.spells_of_eq_plain (by decide +kernel)), hset⟩

end MachineInterface
