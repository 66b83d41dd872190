import TriggerLatency.CommandLine.Scan
import TriggerLatency.Proofs.Decimal.Reading
import TriggerLatency.Proofs.Slots

/-!
# Spellings of a command line

A switch can be spelled in many ways: by its long or its short name, in a cluster with others, with
its value attached or as an argument of its own. None of them matters: what is read of a command
line depends on the given switches alone, with their values, and the first of them that is refused
decides the error (`parse_of_spells`).

Valid values are refused only if a switch is given twice (`exists_repeated`). If none is, the order
of the switches does not matter either: each field of the invocation is as its switch gives it, and
has its default if the switch is not there (`parse_eq_ok_iff`).
-/

namespace TriggerLatency.CommandLine

/-! ## What is given -/

/-- A switch that is given, an option with its value. -/
inductive Given
  | option (key : OptionKey) (value : String)
  | flag (f : Flag)

namespace Given

/-- What is accepted so far, with one more switch. -/
def apply (d : Draft) : Given → Except Refusal Draft
  | option key value => d.accept key value
  | flag f => d.raise f

end Given

/-- A value that can stand as an argument of its own: it does not begin with a dash, unless that is
all of it. -/
def IsWord (value : String) : Prop := ∀ cs, value.toList = '-' :: cs → cs = []

/-- Short names in a cluster, what they give, and the option at the end that still has no value. -/
inductive SpellsCluster : List Char → List Given → Option OptionKey → Prop
  | flag {c : Char} {f : Flag} :
      (c, Switch.flag f) ∈ Switch.shortNames → SpellsCluster [c] [.flag f] none
  | option {c : Char} {key : OptionKey} :
      (c, Switch.option key) ∈ Switch.shortNames → SpellsCluster [c] [] (some key)
  | attached {c v : Char} {value : List Char} {key : OptionKey} :
      (c, Switch.option key) ∈ Switch.shortNames → v ≠ '=' →
      SpellsCluster (c :: v :: value) [.option key (String.ofList (v :: value))] none
  | equals {c : Char} {value : List Char} {key : OptionKey} :
      (c, Switch.option key) ∈ Switch.shortNames →
      SpellsCluster (c :: '=' :: value) [.option key (String.ofList value)] none
  | cons {c : Char} {cs : List Char} {f : Flag} {gs : List Given} {pending : Option OptionKey} :
      (c, Switch.flag f) ∈ Switch.shortNames → SpellsCluster cs gs pending →
      SpellsCluster (c :: cs) (.flag f :: gs) pending

/-- The arguments of a command line and the switches that they give. -/
inductive Spells : List String → List Given → Prop
  | nil : Spells [] []
  /-- Two dashes at the end. -/
  | ended : Spells ["--"] []
  | longFlag {name : String} {f : Flag} {args : List String} {gs : List Given} :
      (name, Switch.flag f) ∈ Switch.longNames → Spells args gs →
      Spells (("--" ++ name) :: args) (.flag f :: gs)
  | longEquals {name value : String} {key : OptionKey} {args : List String} {gs : List Given} :
      (name, Switch.option key) ∈ Switch.longNames → Spells args gs →
      Spells (("--" ++ name ++ "=" ++ value) :: args) (.option key value :: gs)
  | longWord {name value : String} {key : OptionKey} {args : List String} {gs : List Given} :
      (name, Switch.option key) ∈ Switch.longNames → IsWord value → Spells args gs →
      Spells (("--" ++ name) :: value :: args) (.option key value :: gs)
  | cluster {cs : List Char} {gs gs' : List Given} {args : List String} :
      SpellsCluster cs gs none → Spells args gs' →
      Spells (String.ofList ('-' :: cs) :: args) (gs ++ gs')
  | clusterWord {cs : List Char} {gs gs' : List Given} {key : OptionKey} {value : String}
      {args : List String} :
      SpellsCluster cs gs (some key) → IsWord value → Spells args gs' →
      Spells (String.ofList ('-' :: cs) :: value :: args) (gs ++ .option key value :: gs')

/-! ## Names -/

theorem lookup_longNames {name : String} {s : Switch} (h : (name, s) ∈ Switch.longNames) :
    Switch.longNames.lookup name = some s ∧ '=' ∉ name.toList ∧ name ≠ "" := by
  have hall : ∀ p ∈ Switch.longNames,
      Switch.longNames.lookup p.1 = some p.2 ∧ '=' ∉ p.1.toList ∧ p.1 ≠ "" := by decide +kernel
  exact hall (name, s) h

theorem lookup_shortNames {c : Char} {s : Switch} (h : (c, s) ∈ Switch.shortNames) :
    Switch.shortNames.lookup c = some s ∧ c ≠ '-' := by
  have hall : ∀ p ∈ Switch.shortNames, Switch.shortNames.lookup p.1 = some p.2 ∧ p.1 ≠ '-' := by
    decide +kernel
  exact hall (c, s) h

/-- A cluster does not begin with a dash. -/
theorem SpellsCluster.exists_head {cs : List Char} {gs : List Given} {pending : Option OptionKey}
    (h : SpellsCluster cs gs pending) : ∃ c cs', cs = c :: cs' ∧ c ≠ '-' := by
  cases h with
  | flag hc => exact ⟨_, _, rfl, (lookup_shortNames hc).2⟩
  | option hc => exact ⟨_, _, rfl, (lookup_shortNames hc).2⟩
  | attached hc _ => exact ⟨_, _, rfl, (lookup_shortNames hc).2⟩
  | equals hc => exact ⟨_, _, rfl, (lookup_shortNames hc).2⟩
  | cons hc _ => exact ⟨_, _, rfl, (lookup_shortNames hc).2⟩

theorem SpellsCluster.ne_dashes {cs : List Char} {gs : List Given} {pending : Option OptionKey}
    (h : SpellsCluster cs gs pending) : String.ofList ('-' :: cs) ≠ "--" := by
  obtain ⟨c, cs', rfl, hc⟩ := h.exists_head
  intro heq
  have hchars := congrArg String.toList heq
  rw [String.toList_ofList] at hchars
  exact hc (List.cons.inj (List.cons.inj hchars).2).1

/-! ## One argument -/

namespace Scan

variable {cs : List Char} {gs : List Given} {pending : Option OptionKey}

/-- The reader behind what it has accepted, with an option that waits for its value or none. -/
def waiting (pending : Option OptionKey) (d : Draft) : Scan := ⟨d, pending.map (·, none)⟩

theorem flag_eq (s : Scan) (f : Flag) :
    s.flag f = (s.settle >>= fun d => d.raise f).map (waiting none) := by
  rw [flag]
  cases s.settle with
  | error e => rfl
  | ok d =>
    show d.raise f >>= _ = (d.raise f).map _
    cases d.raise f <;> rfl

theorem attached_eq (s : Scan) (key : OptionKey) (value : String) :
    s.attached key value = (s.settle >>= fun d => d.accept key value).map (waiting none) := by
  rw [attached]
  cases s.settle with
  | error e => rfl
  | ok d =>
    show d.accept key value >>= _ = (d.accept key value).map _
    cases d.accept key value <;> rfl

theorem named_eq (s : Scan) (key : OptionKey) :
    s.named key = s.settle.map (waiting (some key)) := by
  rw [named]
  cases s.settle <;> rfl

/-- A cluster settles what is in front of it, and gives its switches one by one. -/
theorem cluster_of_spells (h : SpellsCluster cs gs pending) (s : Scan) :
    s.cluster cs = (s.settle >>= fun d => gs.foldlM Given.apply d).map (waiting pending) := by
  have hone (g : Given) (d : Draft) : [g].foldlM Given.apply d = g.apply d := by
    rw [List.foldlM_cons]
    cases g.apply d <;> rfl
  induction h generalizing s with
  | flag hc =>
    rw [cluster, (lookup_shortNames hc).1]
    simp only [hone, Given.apply, flag_eq]
    cases s.settle >>= _ <;> rfl
  | option hc =>
    rw [cluster, (lookup_shortNames hc).1]
    dsimp only
    rw [if_pos rfl, named_eq]
    cases s.settle <;> rfl
  | @attached c v value key hc hv =>
    -- a value that does not begin with an equals sign is taken as it is
    have hvalue : clusterValue (v :: value) = v :: value := by
      unfold clusterValue
      split
      · next heq => exact absurd (List.cons.inj heq).1 hv
      · rfl
    rw [cluster, (lookup_shortNames hc).1]
    simp only [hone, Given.apply, ← attached_eq, hvalue]
    exact if_neg (List.cons_ne_nil _ _)
  | equals hc =>
    rw [cluster, (lookup_shortNames hc).1]
    simp only [hone, Given.apply, ← attached_eq]
    exact if_neg (List.cons_ne_nil _ _)
  | @cons c cs f gs pending hc _ ih =>
    rw [cluster, (lookup_shortNames hc).1]
    dsimp only
    rw [flag_eq]
    -- what comes behind a switch that is refused is not looked at
    cases s.settle with
    | error e => rfl
    | ok d =>
      show ((d.raise f).map _ >>= _) = ((d.raise f >>= fun d => gs.foldlM Given.apply d)).map _
      cases d.raise f with
      | error e => rfl
      | ok d' => exact ih (waiting none d')

/-- A cluster is an argument. -/
theorem argument_cluster (h : SpellsCluster cs gs pending) (s : Scan) :
    s.argument (String.ofList ('-' :: cs))
      = (s.settle >>= fun d => gs.foldlM Given.apply d).map (waiting pending) := by
  rw [← cluster_of_spells h]
  obtain ⟨c, cs', rfl, hc⟩ := h.exists_head
  rw [argument, String.toList_ofList]
  split
  · next heq => exact absurd (List.cons.inj (List.cons.inj heq).2).1 hc
  · next heq =>
    obtain ⟨rfl, rfl⟩ := List.cons.inj (List.cons.inj heq).2
    rfl
  · next hother => exact (hother c cs' rfl).elim

/-- Behind two dashes, the name goes up to an equals sign. -/
theorem argument_dashes {text : String} {cs : List Char} (h : text.toList = '-' :: '-' :: cs)
    (s : Scan) : s.argument text = s.long (String.ofList (cs.takeWhile (· ≠ '=')))
      (match cs.dropWhile (· ≠ '=') with
        | [] => none
        | _ :: v => some (String.ofList v)) := by
  rw [argument, h]
  rfl

section

variable {name : String} (hname : '=' ∉ name.toList) (s : Scan)

include hname

theorem ne_equals : ∀ c ∈ name.toList, decide (c ≠ '=') = true := fun _ hc =>
  decide_eq_true fun heq => hname (heq ▸ hc)

/-- A long name without a value. -/
theorem argument_long : s.argument ("--" ++ name) = s.long name none := by
  have hne := ne_equals hname
  rw [argument_dashes (String.toList_append : _ = '-' :: '-' :: name.toList),
    List.takeWhile_eq_self_iff.mpr hne, List.dropWhile_eq_nil_iff.mpr hne, String.ofList_toList]

/-- A long name with a value behind an equals sign. -/
theorem argument_equals (value : String) :
    s.argument ("--" ++ name ++ "=" ++ value) = s.long name (some value) := by
  have hne := ne_equals hname
  have hchars : ("--" ++ name ++ "=" ++ value).toList
      = '-' :: '-' :: (name.toList ++ '=' :: value.toList) := by
    simp [String.toList_append]
  rw [argument_dashes hchars, List.takeWhile_append_of_pos hne, List.dropWhile_append_of_pos hne]
  simp

end

/-- A value that stands alone goes to the option that waits for it. -/
theorem argument_word {value : String} (h : IsWord value) (key : OptionKey) (d : Draft) :
    (waiting (some key) d).argument value = .ok ⟨d, some (key, some value)⟩ := by
  rw [argument]
  split
  · next cs heq => exact absurd (h _ heq) (List.cons_ne_nil _ _)
  · next c cs _ heq => exact absurd (h _ heq) (List.cons_ne_nil _ _)
  · rfl

end Scan

/-! ## All arguments -/

/-- What is accepted of some arguments, once the last option is settled. -/
def accepted (s : Scan) (args : List String) : Except Refusal Draft :=
  s.arguments args >>= Scan.settle

variable {args : List String} {gs : List Given}

theorem accepted_cons {text : String} (htext : text ≠ "--") (s : Scan) (args : List String) :
    accepted s (text :: args) = s.argument text >>= fun s => accepted s args := by
  rw [accepted, Scan.arguments.eq_def]
  dsimp only
  rw [if_neg htext]
  cases s.argument text <;> rfl

theorem dashes_ne {name : String} (hname : name ≠ "") : "--" ++ name ≠ "--" := by
  intro heq
  exact hname (by simpa using heq)

/-- An option that waits for its value takes the next argument. -/
theorem accepted_word {value : String} (h : IsWord value) (key : OptionKey) (d : Draft)
    (args : List String) : accepted (Scan.waiting (some key) d) (value :: args)
      = accepted ⟨d, some (key, some value)⟩ args := by
  have hvalue : value ≠ "--" := by
    rintro rfl
    exact absurd (h ['-'] rfl) (List.cons_ne_nil _ _)
  rw [accepted_cons hvalue, Scan.argument_word h]
  rfl

/-- What is accepted of a command line are its switches, one by one. -/
theorem accepted_of_spells (h : Spells args gs) (s : Scan) :
    accepted s args = s.settle >>= fun d => gs.foldlM Given.apply d := by
  have hmap {α β : Type} (x : Except Refusal α) (f : α → β) (g : β → Except Refusal Draft) :
      x.map f >>= g = x >>= fun a => g (f a) := by
    cases x <;> rfl
  have hsettled (d : Draft) : (Scan.waiting none d).settle = .ok d := rfl
  have hpending (d : Draft) (key : OptionKey) (value : String) :
      Scan.settle ⟨d, some (key, some value)⟩ = d.accept key value := rfl
  have hok (d : Draft) (f : Draft → Except Refusal Draft) : (Except.ok d >>= f) = f d := rfl
  -- every way to give a switch settles the option in front of it first
  induction h generalizing s with
  | nil =>
    show s.settle = _
    cases s.settle <;> rfl
  | ended =>
    show s.settle = _
    cases s.settle <;> rfl
  | longFlag hname _ ih =>
    obtain ⟨hlookup, hplain, hne⟩ := lookup_longNames hname
    rw [accepted_cons (dashes_ne hne), Scan.argument_long hplain, Scan.long, hlookup]
    dsimp only
    simp only [Scan.flag_eq, hmap, ih, hsettled, hok, bind_assoc, List.foldlM_cons, Given.apply]
  | @longEquals name value _ _ _ hname _ ih =>
    obtain ⟨hlookup, hplain, -⟩ := lookup_longNames hname
    have htext : "--" ++ name ++ "=" ++ value ≠ "--" := by
      rw [String.append_assoc, String.append_assoc]
      exact dashes_ne (by simp)
    rw [accepted_cons htext, Scan.argument_equals hplain, Scan.long, hlookup]
    dsimp only
    simp only [Scan.attached_eq, hmap, ih, hsettled, hok, bind_assoc, List.foldlM_cons, Given.apply]
  | longWord hname hvalue _ ih =>
    obtain ⟨hlookup, hplain, hne⟩ := lookup_longNames hname
    rw [accepted_cons (dashes_ne hne), Scan.argument_long hplain, Scan.long, hlookup]
    dsimp only
    simp only [Scan.named_eq, hmap, accepted_word hvalue, ih, hpending, List.foldlM_cons,
      Given.apply]
  | cluster hcluster _ ih =>
    rw [accepted_cons hcluster.ne_dashes, Scan.argument_cluster hcluster]
    simp only [hmap, ih, hsettled, hok, bind_assoc, List.foldlM_append]
  | clusterWord hcluster hvalue _ ih =>
    rw [accepted_cons hcluster.ne_dashes, Scan.argument_cluster hcluster]
    simp only [hmap, accepted_word hvalue, ih, hpending, bind_assoc, List.foldlM_append,
      List.foldlM_cons, Given.apply]

/-- However a command line is spelled, what is read depends on the given switches alone. -/
theorem parse_of_spells (h : Spells args gs) :
    parse args = gs.foldlM Given.apply {} >>= Draft.finish := by
  have haccepted := accepted_of_spells h {}
  have hparse : parse args = accepted {} args >>= Draft.finish := by
    unfold parse accepted
    cases Scan.arguments {} args <;> rfl
  rw [hparse, haccepted]
  rfl

/-! ## Valid values -/

/-- A switch with the value that it sets. -/
inductive Entry
  | input (path : String)
  | maxLatency (ms : Float)
  | output (path : String)
  | format (f : ReportFormat)
  | config (path : String)
  | timestampColumn (name : String)
  | sendColumn (name : String)
  | receiveColumn (name : String)
  | countLeadingHigh
  | verbose

namespace Entry

/-- The switch. -/
def switch : Entry → Switch
  | input _ => .option .input
  | maxLatency _ => .option .maxLatency
  | output _ => .option .output
  | format _ => .option .format
  | config _ => .option .config
  | timestampColumn _ => .option .timestampColumn
  | sendColumn _ => .option .sendColumn
  | receiveColumn _ => .option .receiveColumn
  | countLeadingHigh => .flag .countLeadingHigh
  | verbose => .flag .verbose

/-- Sets it. -/
def put (d : Draft) : Entry → Draft
  | input path => { d with input := some path }
  | maxLatency ms => { d with maxLatencyMs := some ms }
  | output path => { d with output := some path }
  | format f => { d with format := some f }
  | config path => { d with configFile := some path }
  | timestampColumn name => { d with timestampColumn := some name }
  | sendColumn name => { d with sendColumn := some name }
  | receiveColumn name => { d with receiveColumn := some name }
  | countLeadingHigh => { d with countLeadingHigh := true }
  | verbose => { d with verbose := true }

/-- What a valid value, or a flag, sets. -/
inductive IsGivenBy : Entry → Given → Prop
  | input {path : String} : path ≠ "" → IsGivenBy (.input path) (.option .input path)
  | maxLatency {ms : Float} : ms.isFinite = true →
      IsGivenBy (.maxLatency ms) (.option .maxLatency (Decimal.Layout.data.text ms))
  | output {path : String} : path ≠ "" → IsGivenBy (.output path) (.option .output path)
  | format {f : ReportFormat} : IsGivenBy (.format f) (.option .format f.name)
  | config {path : String} : path ≠ "" → IsGivenBy (.config path) (.option .config path)
  | timestampColumn {name : String} :
      IsGivenBy (.timestampColumn name) (.option .timestampColumn name)
  | sendColumn {name : String} : IsGivenBy (.sendColumn name) (.option .sendColumn name)
  | receiveColumn {name : String} : IsGivenBy (.receiveColumn name) (.option .receiveColumn name)
  | countLeadingHigh : IsGivenBy .countLeadingHigh (.flag .countLeadingHigh)
  | verbose : IsGivenBy .verbose (.flag .verbose)

/-- Whether a switch is set. -/
def isSet (d : Draft) : Switch → Bool
  | .option key => d.has key
  | .flag .countLeadingHigh => d.countLeadingHigh
  | .flag .verbose => d.verbose
  | .flag _ => false

/-- Whether a draft has this entry. -/
def IsIn (d : Draft) : Entry → Prop
  | input path => d.input = some path
  | maxLatency ms => d.maxLatencyMs = some ms
  | output path => d.output = some path
  | format f => d.format = some f
  | config path => d.configFile = some path
  | timestampColumn name => d.timestampColumn = some name
  | sendColumn name => d.sendColumn = some name
  | receiveColumn name => d.receiveColumn = some name
  | countLeadingHigh => d.countLeadingHigh = true
  | verbose => d.verbose = true

variable {e e' : Entry} {g : Given} {d : Draft} {es : List Entry}

theorem isSet_put (e : Entry) (d : Draft) (s : Switch) :
    isSet (e.put d) s = (decide (e.switch = s) || isSet d s) := by
  rcases s with key | f
  · cases e <;> cases key <;> rfl
  · cases e <;> cases f <;> rfl

theorem accept_eq {key : OptionKey} {value : String} {d' : Draft} (h : d.set key value = .ok d') :
    d.accept key value
      = if d.has key then refuse (.repeated (.option key)) else .ok d' := by
  rw [Draft.accept, once, h]
  split <;> rfl

theorem pathValue_eq {path : String} (hpath : path ≠ "") (key : OptionKey) :
    pathValue key path = .ok path := if_neg hpath

/-- A valid value is accepted unless the switch is set already. -/
theorem IsGivenBy.apply_eq (h : e.IsGivenBy g) (d : Draft) : g.apply d
    = if isSet d e.switch then refuse (.repeated e.switch) else .ok (e.put d) := by
  cases h with
  | input hpath => exact accept_eq (by rw [Draft.set, pathValue_eq hpath]; rfl)
  | output hpath => exact accept_eq (by rw [Draft.set, pathValue_eq hpath]; rfl)
  | config hpath => exact accept_eq (by rw [Draft.set, pathValue_eq hpath]; rfl)
  | @maxLatency ms hms =>
    have hread : numberValue (Decimal.Layout.data.text ms) = .ok ms := by
      rw [numberValue, Decimal.Layout.text, String.toList_ofList, Decimal.readFloat?_chars hms]
    exact accept_eq (by rw [Draft.set, hread]; rfl)
  | @format f =>
    have hname : formatValue f.name = .ok f := by
      cases f <;> rfl
    exact accept_eq (by rw [Draft.set, hname]; rfl)
  | timestampColumn => exact accept_eq rfl
  | sendColumn => exact accept_eq rfl
  | receiveColumn => exact accept_eq rfl
  | countLeadingHigh =>
    show once _ d.countLeadingHigh >>= _ = if d.countLeadingHigh then _ else _
    cases d.countLeadingHigh <;> rfl
  | verbose =>
    show once _ d.verbose >>= _ = if d.verbose then _ else _
    cases d.verbose <;> rfl

/-- Setting a switch changes what is set for it, and for no other. -/
theorem isIn_put (e e' : Entry) (d : Draft) :
    e'.IsIn (e.put d) ↔ if e.switch = e'.switch then e' = e else e'.IsIn d := by
  by_cases hswitch : e.switch = e'.switch
  · rw [if_pos hswitch]
    cases e <;> cases e' <;>
      first
      | exact ⟨fun h => by cases h; rfl, fun h => by cases h; rfl⟩
      | cases hswitch
  · rw [if_neg hswitch]
    cases e <;> cases e' <;> first | rfl | exact absurd rfl hswitch

theorem not_isIn_empty (e : Entry) : ¬ e.IsIn {} := by
  cases e <;> exact nofun

/-- Switches that are given once each are in the draft, and nothing else is. -/
theorem isIn_foldl_put (hnodup : (es.map switch).Nodup) : e.IsIn (es.foldl put {}) ↔ e ∈ es := by
  have hiff := isIn_foldl_iff (a := e) (fun d e e' => isIn_put e e' d) hnodup {}
  simpa [not_isIn_empty] using hiff

end Entry

/-! ## Valid command lines -/

variable {es : List Entry}

/-- Valid values are accepted, unless a switch is set already or is given twice. -/
theorem foldlM_apply (hgs : List.Forall₂ Entry.IsGivenBy es gs) (d : Draft) :
    if (es.map Entry.switch).Nodup ∧ ∀ e ∈ es, Entry.isSet d e.switch = false
    then gs.foldlM Given.apply d = .ok (es.foldl Entry.put d)
    else ∃ e ∈ es, gs.foldlM Given.apply d = refuse (.repeated e.switch) := by
  induction hgs generalizing d with
  | nil =>
    rw [if_pos ⟨List.nodup_nil, nofun⟩]
    rfl
  | @cons e g es gs he _ ih =>
    rw [List.foldlM_cons, he.apply_eq]
    cases hset : Entry.isSet d e.switch with
    | true =>
      rw [if_neg fun h => Bool.false_ne_true ((h.2 e (List.mem_cons_self ..)).symm.trans hset)]
      exact ⟨e, List.mem_cons_self .., rfl⟩
    | false =>
      -- once this switch is set, no other of its kind is accepted
      have hiff := forall_free_cons_iff (fun e' : Entry => Entry.isSet_put e d e'.switch) hset es
      have ih := ih (e.put d)
      rw [if_congr hiff rfl rfl]
      split at ih
      · next h =>
        rw [if_pos h]
        exact ih
      · next h =>
        rw [if_neg h]
        obtain ⟨e', he', hrefused⟩ := ih
        exact ⟨e', List.mem_cons_of_mem _ he', hrefused⟩

/-- What some entries ask for: each field is as it is given, and the format is markdown if none
is. -/
structure AsksFor (es : List Entry) (i : Invocation) : Prop where
  input : .input i.input ∈ es
  maxLatencyMs : ∀ ms, i.maxLatencyMs = some ms ↔ .maxLatency ms ∈ es
  output : ∀ path, i.output = some path ↔ .output path ∈ es
  format : .format i.format ∈ es ∨ i.format = .markdown ∧ ∀ f, .format f ∉ es
  configFile : ∀ path, i.configFile = some path ↔ .config path ∈ es
  timestampColumn : ∀ name, i.timestampColumn = some name ↔ .timestampColumn name ∈ es
  sendColumn : ∀ name, i.sendColumn = some name ↔ .sendColumn name ∈ es
  receiveColumn : ∀ name, i.receiveColumn = some name ↔ .receiveColumn name ∈ es
  countLeadingHigh : i.countLeadingHigh = true ↔ .countLeadingHigh ∈ es
  verbose : i.verbose = true ↔ .verbose ∈ es

/-- Valid switches that are given once each are all accepted. -/
theorem parse_eq_finish (h : Spells args gs) (hgs : List.Forall₂ Entry.IsGivenBy es gs)
    (hnodup : (es.map Entry.switch).Nodup) : parse args = (es.foldl Entry.put {}).finish := by
  have hempty (s : Switch) : Entry.isSet {} s = false := by
    rcases s with key | f
    · cases key <;> rfl
    · cases f <;> rfl
  have hfold := foldlM_apply hgs {}
  rw [if_pos ⟨hnodup, fun e _ => hempty e.switch⟩] at hfold
  rw [parse_of_spells h, hfold]
  rfl

/-- Valid switches that are given once each, in any order and however they are spelled, are read as
the invocation that they ask for. -/
theorem parse_eq_ok_iff (h : Spells args gs) (hgs : List.Forall₂ Entry.IsGivenBy es gs)
    (hnodup : (es.map Entry.switch).Nodup) {i : Invocation} :
    parse args = .ok i ↔ AsksFor es i := by
  rw [parse_eq_finish h hgs hnodup]
  have hin (e : Entry) : e.IsIn (es.foldl Entry.put {}) ↔ e ∈ es := Entry.isIn_foldl_put hnodup
  -- what the draft has is all that counts from here on
  generalize es.foldl Entry.put {} = d at hin
  unfold Draft.finish
  cases hinput : d.input with
  | none =>
    refine ⟨nofun, fun hi => ?_⟩
    have hsome : d.input = some i.input := (hin (.input i.input)).mpr hi.input
    exact nomatch hinput.symm.trans hsome
  | some path =>
    dsimp only
    rw [Except.ok.injEq]
    constructor
    · rintro rfl
      refine ⟨(hin (.input path)).mp hinput, fun ms => hin (.maxLatency ms),
        fun path => hin (.output path), ?_, fun path => hin (.config path),
        fun name => hin (.timestampColumn name), fun name => hin (.sendColumn name),
        fun name => hin (.receiveColumn name), hin .countLeadingHigh, hin .verbose⟩
      cases hformat : d.format with
      | none =>
        refine Or.inr ⟨rfl, fun f hf => ?_⟩
        exact nomatch hformat.symm.trans ((hin (.format f)).mpr hf)
      | some f => exact Or.inl ((hin (.format f)).mp hformat)
    · intro hi
      have hpath : d.input = some i.input := (hin (.input i.input)).mpr hi.input
      have hformat : d.format.getD .markdown = i.format := by
        rcases hi.format with hf | ⟨hmarkdown, hnone⟩
        · rw [show d.format = some i.format from (hin (.format i.format)).mpr hf]
          rfl
        · cases hsome : d.format with
          | none => exact hmarkdown.symm
          | some f => exact absurd ((hin (.format f)).mp hsome) (hnone f)
      -- both have the same in every field
      obtain rfl := Option.some.inj (hinput.symm.trans hpath)
      rw [hformat,
        show d.maxLatencyMs = i.maxLatencyMs from
          Option.ext fun ms => (hin (.maxLatency ms)).trans (hi.maxLatencyMs ms).symm,
        show d.output = i.output from
          Option.ext fun path => (hin (.output path)).trans (hi.output path).symm,
        show d.configFile = i.configFile from
          Option.ext fun path => (hin (.config path)).trans (hi.configFile path).symm,
        show d.timestampColumn = i.timestampColumn from
          Option.ext fun name => (hin (.timestampColumn name)).trans (hi.timestampColumn name).symm,
        show d.sendColumn = i.sendColumn from
          Option.ext fun name => (hin (.sendColumn name)).trans (hi.sendColumn name).symm,
        show d.receiveColumn = i.receiveColumn from
          Option.ext fun name => (hin (.receiveColumn name)).trans (hi.receiveColumn name).symm,
        show d.countLeadingHigh = i.countLeadingHigh from
          Bool.eq_iff_iff.mpr ((hin .countLeadingHigh).trans hi.countLeadingHigh.symm),
        show d.verbose = i.verbose from
          Bool.eq_iff_iff.mpr ((hin .verbose).trans hi.verbose.symm)]

/-- A cluster and a long name, with a standing and an attached value. -/
example : parse ["-vi", "rec.csv", "--format=json"] = .ok
    { input := "rec.csv", maxLatencyMs := none, output := none, format := .json, configFile := none,
      timestampColumn := none, sendColumn := none, receiveColumn := none, countLeadingHigh := false,
      verbose := true } := by
  decide +kernel

/-- A switch that is given twice is refused, whatever the values are. -/
theorem exists_repeated (h : Spells args gs) (hgs : List.Forall₂ Entry.IsGivenBy es gs)
    (hrepeated : ¬ (es.map Entry.switch).Nodup) :
    ∃ e ∈ es, parse args = refuse (.repeated e.switch) := by
  have hfold := foldlM_apply hgs {}
  rw [if_neg fun hvalid => hrepeated hvalid.1] at hfold
  obtain ⟨e, he, hrefused⟩ := hfold
  refine ⟨e, he, ?_⟩
  rw [parse_of_spells h, hrefused]
  rfl

end TriggerLatency.CommandLine
