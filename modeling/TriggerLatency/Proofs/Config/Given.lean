import TriggerLatency.Config.Store
import TriggerLatency.Proofs.Config.RoundTrip
import TriggerLatency.Proofs.Json.Fields
import TriggerLatency.Proofs.Json.Scaling
import TriggerLatency.Proofs.Slots

/-!
# Settings that are given

The text of settings may be any object in which each field is given at most once, in whatever order
and among members with other keys, or an array of the first fields. What is read is the default
settings with the given fields in place (`Config.given`), and an object that gives a field twice is
refused (`Config.ofJsonText?_given`).

Which value a field is given is said without the reader (`Setting.IsGivenBy`): by the characters
that a string denotes, and by what a number is worth in exact grains.
-/

namespace TriggerLatency

open Json

/-- A field of settings, with its value. -/
inductive Setting
  | maxLatencyMs (ms : Float)
  | timestampColumn (name : String)
  | sendColumn (name : String)
  | receiveColumn (name : String)
  | edgePolicy (policy : EdgePolicy)

namespace Setting

/-- The key of the field. -/
def key : Setting → String
  | maxLatencyMs _ => "max_latency_ms"
  | timestampColumn _ => "timestamp_column"
  | sendColumn _ => "send_column"
  | receiveColumn _ => "receive_column"
  | edgePolicy _ => "edge_policy"

/-- Settings with this one in place. -/
def set (c : Config) : Setting → Config
  | maxLatencyMs ms => { c with maxLatencyMs := ms }
  | timestampColumn name => { c with timestampColumn := name }
  | sendColumn name => { c with sendColumn := name }
  | receiveColumn name => { c with receiveColumn := name }
  | edgePolicy policy => { c with edgePolicy := policy }

/-- The JSON values that are valid for a field: a number that is worth a finite float, a string, or
the name of a policy, which may also be the only key of an object. -/
inductive IsGivenBy : Setting → Document → Prop
  | maxLatencyMs {token : List Char} {negative : Bool} {p : Parts} {ms : Float} :
      SpellsNumber token negative p → p.IsWorth negative ms →
      IsGivenBy (.maxLatencyMs ms) (.number token)
  | timestampColumn {body chars : List Char} :
      Denotes body chars → IsGivenBy (.timestampColumn (String.ofList chars)) (.string body)
  | sendColumn {body chars : List Char} :
      Denotes body chars → IsGivenBy (.sendColumn (String.ofList chars)) (.string body)
  | receiveColumn {body chars : List Char} :
      Denotes body chars → IsGivenBy (.receiveColumn (String.ofList chars)) (.string body)
  | edgePolicy {body : List Char} {policy : EdgePolicy} :
      Denotes body policy.name.toList → IsGivenBy (.edgePolicy policy) (.string body)
  | edgePolicyKey {body : List Char} {policy : EdgePolicy} :
      Denotes body policy.name.toList → IsGivenBy (.edgePolicy policy) (.object [(body, .null)])

end Setting

/-- The keys of the fields, in their declared order. -/
def Config.keys : List String :=
  ["max_latency_ms", "timestamp_column", "send_column", "receive_column", "edge_policy"]

/-- The default settings with some others in place. -/
def Config.given (settings : List Setting) : Config := settings.foldl Setting.set {}

namespace Setting

variable {s s' : Setting} {settings : List Setting}

/-- Whether some settings have this one. -/
def IsIn (c : Config) : Setting → Prop
  | maxLatencyMs ms => c.maxLatencyMs = ms
  | timestampColumn name => c.timestampColumn = name
  | sendColumn name => c.sendColumn = name
  | receiveColumn name => c.receiveColumn = name
  | edgePolicy policy => c.edgePolicy = policy

/-- Putting a setting in place changes its field, and no other. -/
theorem isIn_set (s s' : Setting) (c : Config) :
    s'.IsIn (s.set c) ↔ if s.key = s'.key then s' = s else s'.IsIn c := by
  cases s <;> cases s' <;> simp [IsIn, set, key, eq_comm]

/-- The given fields are as they are given, and the others have their defaults. -/
theorem isIn_given (hnodup : (settings.map key).Nodup) :
    s.IsIn (Config.given settings)
      ↔ s ∈ settings ∨ s.key ∉ settings.map key ∧ s.IsIn ({} : Config) :=
  isIn_foldl_iff (fun c s s' => isIn_set s s' c) hnodup {}

end Setting

/-- The members of an object and the settings that they give; members with other keys give none,
whatever their values. -/
inductive Gives : List (List Char × Document) → List Setting → Prop
  | nil : Gives [] []
  | setting {key : List Char} {d : Document} {ms : List (List Char × Document)} {s : Setting}
      {settings : List Setting} :
      Denotes key s.key.toList → s.IsGivenBy d → Gives ms settings →
      Gives ((key, d) :: ms) (s :: settings)
  | other {key name : List Char} {d : Document} {ms : List (List Char × Document)}
      {settings : List Setting} :
      Denotes key name → String.ofList name ∉ Config.keys → Gives ms settings →
      Gives ((key, d) :: ms) settings

/-! ## The draft -/

namespace Setting

variable {s s' : Setting} {draft : ConfigDraft}

/-- The draft with a setting in its slot. -/
def fill (draft : ConfigDraft) : Setting → ConfigDraft
  | maxLatencyMs ms => { draft with maxLatencyMs := some ms }
  | timestampColumn name => { draft with timestampColumn := some name }
  | sendColumn name => { draft with sendColumn := some name }
  | receiveColumn name => { draft with receiveColumn := some name }
  | edgePolicy policy => { draft with edgePolicy := some policy }

/-- Whether the slot of a setting is filled. -/
def isFilled (draft : ConfigDraft) : Setting → Bool
  | maxLatencyMs _ => draft.maxLatencyMs.isSome
  | timestampColumn _ => draft.timestampColumn.isSome
  | sendColumn _ => draft.sendColumn.isSome
  | receiveColumn _ => draft.receiveColumn.isSome
  | edgePolicy _ => draft.edgePolicy.isSome

/-- A setting fills its own slot. -/
theorem isFilled_fill (s s' : Setting) (draft : ConfigDraft) :
    s'.isFilled (s.fill draft) = (decide (s.key = s'.key) || s'.isFilled draft) := by
  cases s <;> cases s' <;> simp [isFilled, fill, key]

theorem finish_fill (s : Setting) (draft : ConfigDraft) :
    (s.fill draft).finish = s.set draft.finish := by
  cases s <;> rfl

theorem isFilled_empty (s : Setting) : s.isFilled Config.shape.empty = false := by
  cases s <;> rfl

/-- The field of a setting, which reads valid values into its slot. -/
theorem exists_field (s : Setting) : ∃ f, Config.shape.fields.find? (·.name = s.key) = some f
    ∧ (∀ draft, f.filled draft = s.isFilled draft)
    ∧ ∀ draft d, s.IsGivenBy d → ReadsAs (f.read draft) d (.ok (s.fill draft)) := by
  cases s with
  | maxLatencyMs ms =>
    refine ⟨_, rfl, fun _ => rfl, fun draft d h text htext => ?_⟩
    cases h with
    | maxLatencyMs hnumber hworth =>
      obtain ⟨n, hn, rfl⟩ := Parts.isWorth_iff.mp hworth
      exact reads_slot _ _ _ draft (readsAs_float hnumber hn text htext)
  | timestampColumn name =>
    refine ⟨_, rfl, fun _ => rfl, fun draft d h text htext => ?_⟩
    cases h with
    | timestampColumn hchars => exact reads_slot _ _ _ draft (readsAs_string hchars text htext)
  | sendColumn name =>
    refine ⟨_, rfl, fun _ => rfl, fun draft d h text htext => ?_⟩
    cases h with
    | sendColumn hchars => exact reads_slot _ _ _ draft (readsAs_string hchars text htext)
  | receiveColumn name =>
    refine ⟨_, rfl, fun _ => rfl, fun draft d h text htext => ?_⟩
    cases h with
    | receiveColumn hchars => exact reads_slot _ _ _ draft (readsAs_string hchars text htext)
  | edgePolicy policy =>
    have hname : EdgePolicy.names.lookup (String.ofList policy.name.toList) = some policy := by
      rw [String.ofList_toList, policy.lookup_name]
    refine ⟨_, rfl, fun _ => rfl, fun draft d h text htext => ?_⟩
    cases h with
    | edgePolicy hchars => exact reads_slot _ _ _ draft (readsAs_choice hchars hname text htext)
    | edgePolicyKey hchars =>
      exact reads_slot _ _ _ draft (readsAs_choice_key hchars hname text htext)

end Setting

theorem finish_foldl_fill (settings : List Setting) (draft : ConfigDraft) :
    (settings.foldl Setting.fill draft).finish = settings.foldl Setting.set draft.finish := by
  induction settings generalizing draft with
  | nil => rfl
  | cons s settings ih => rw [List.foldl_cons, List.foldl_cons, ih, s.finish_fill]

/-- What has been filled in is what is given. -/
theorem finish_given (settings : List Setting) :
    (settings.foldl Setting.fill Config.shape.empty).finish = Config.given settings :=
  finish_foldl_fill settings Config.shape.empty

/-! ## Objects -/

/-- The members of an object fill the slots of the settings that they give, unless one of them is
filled already or is given twice. -/
theorem Gives.fills {ms : List (List Char × Document)} {settings : List Setting}
    (h : Gives ms settings) (draft : ConfigDraft) :
    Fills Config.shape.fields draft ms
      (if (settings.map Setting.key).Nodup ∧ ∀ s ∈ settings, s.isFilled draft = false
        then .ok (settings.foldl Setting.fill draft) else .error .mismatch) := by
  induction h generalizing draft with
  | nil =>
    rw [if_pos ⟨List.nodup_nil, nofun⟩]
    exact .nil
  | @other key name d ms settings hname hother _ ih =>
    have hfind : Config.shape.fields.find? (·.name = String.ofList name) = none := by
      rw [List.find?_eq_none]
      intro f hf hkey
      exact hother (of_decide_eq_true hkey ▸ List.mem_map_of_mem (f := Json.Field.name) hf)
    exact .unknown hname hfind (ih draft)
  | @setting key d ms s settings hkey hgiven _ ih =>
    obtain ⟨f, hfind, hfilled, hread⟩ := s.exists_field
    rw [← String.ofList_toList (s := s.key)] at hfind
    cases hslot : s.isFilled draft with
    | true =>
      have hrefused : ¬ (((s :: settings).map Setting.key).Nodup
          ∧ ∀ s' ∈ s :: settings, s'.isFilled draft = false) := fun h =>
        Bool.false_ne_true ((h.2 s (List.mem_cons_self ..)).symm.trans hslot)
      rw [if_neg hrefused]
      exact .repeated hkey hfind ((hfilled draft).trans hslot)
    | false =>
      -- the other slots have to be free beside this one
      have hiff :=
        forall_free_cons_iff (fun s' => Setting.isFilled_fill s s' draft) hslot settings
      rw [if_congr hiff rfl rfl]
      exact .field hkey hfind ((hfilled draft).trans hslot) (hread draft d hgiven) (ih _)

/-- An object is read as the settings that it gives, unless it gives a field twice. -/
theorem readsAs_object_of_gives {ms : List (List Char × Document)} {settings : List Setting}
    (h : Gives ms settings) :
    ReadsAs (readRecord Config.shape) (.object ms)
      (if (settings.map Setting.key).Nodup then .ok (Config.given settings)
        else .error .mismatch) := by
  have hread := readsAs_record (h.fills Config.shape.empty)
  have hempty : ∀ s ∈ settings, s.isFilled Config.shape.empty = false := fun s _ => s.isFilled_empty
  by_cases hnodup : (settings.map Setting.key).Nodup
  · rw [if_pos ⟨hnodup, hempty⟩] at hread
    rw [if_pos hnodup, ← finish_given]
    exact hread
  · rw [if_neg fun h => hnodup h.1] at hread
    rw [if_neg hnodup]
    exact hread

/-! ## Arrays -/

/-- The items of an array fill the slots of the first fields. -/
theorem fillsInOrder_of_given {fields : List (Json.Field ConfigDraft)} {settings : List Setting}
    {ds : List Document}
    (hfields : ∀ f ∈ fields, Config.shape.fields.find? (·.name = f.name) = some f)
    (hkeys : settings.map Setting.key <+: fields.map Json.Field.name)
    (hgiven : List.Forall₂ Setting.IsGivenBy settings ds) (draft : ConfigDraft) :
    FillsInOrder fields draft ds (settings.foldl Setting.fill draft) := by
  induction hgiven generalizing fields draft with
  | nil => exact .nil
  | @cons s d settings ds hd _ ih =>
    cases fields with
    | nil => exact absurd hkeys (by simp)
    | cons f fields =>
      obtain ⟨hname, hkeys⟩ := List.cons_prefix_cons.mp hkeys
      obtain ⟨hf, hfields⟩ := List.forall_mem_cons.mp hfields
      obtain ⟨f', hfind, -, hread⟩ := s.exists_field
      rw [hname, hf] at hfind
      obtain rfl := Option.some.inj hfind
      exact .cons (hread draft d hd) (ih hfields hkeys _)

/-- An array of the first fields is read as the settings that it gives. -/
theorem readsAs_array_of_given {settings : List Setting} {ds : List Document}
    (hkeys : settings.map Setting.key <+: Config.keys)
    (hgiven : List.Forall₂ Setting.IsGivenBy settings ds) :
    ReadsAs (readRecord Config.shape) (.array ds) (.ok (Config.given settings)) := by
  have hfields : ∀ f ∈ Config.shape.fields,
      Config.shape.fields.find? (·.name = f.name) = some f := by
    intro f hf
    simp only [Config.shape, List.mem_cons, List.not_mem_nil, or_false] at hf
    rcases hf with rfl | rfl | rfl | rfl | rfl <;> rfl
  have hread := readsAs_record_of_array
    (fillsInOrder_of_given hfields hkeys hgiven Config.shape.empty)
  rw [← finish_given]
  exact hread

/-! ## All texts -/

/-- What is read from an object is the default settings with those in place that it gives, in
whatever order, layout and company, or a mismatch if it gives a field twice. An array of the first
fields is read as an object that gives them. -/
theorem Config.ofJsonText?_given {settings : List Setting} :
    (∀ {ms : List (List Char × Document)} {text : List Char},
      Gives ms settings → (Document.object ms).IsText text →
      Config.ofJsonText? text
        = if (settings.map Setting.key).Nodup then .ok (Config.given settings)
          else .error .mismatch)
    ∧ ∀ {ds : List Document} {text : List Char},
      settings.map Setting.key <+: Config.keys → List.Forall₂ Setting.IsGivenBy settings ds →
      (Document.array ds).IsText text →
      Config.ofJsonText? text = .ok (Config.given settings)
        ∧ ∀ {ms : List (List Char × Document)} {text' : List Char},
          Gives ms settings → (Document.object ms).IsText text' →
          Config.ofJsonText? text' = Config.ofJsonText? text := by
  have hobject : ∀ {ms : List (List Char × Document)} {text : List Char},
      Gives ms settings → (Document.object ms).IsText text →
      Config.ofJsonText? text
        = if (settings.map Setting.key).Nodup then .ok (Config.given settings)
          else .error .mismatch := fun hms htext =>
    (readsAs_object_of_gives hms).readAll_eq htext
  refine ⟨hobject, fun hkeys hgiven htext => ?_⟩
  have harray : Config.ofJsonText? _ = _ := (readsAs_array_of_given hkeys hgiven).readAll_eq htext
  refine ⟨harray, fun hms htext' => ?_⟩
  have hnodup : (settings.map Setting.key).Nodup := hkeys.sublist.nodup (by decide)
  rw [hobject hms htext', if_pos hnodup, harray]

/-! ## Some texts -/

/-- Characters without an escape among them stand for themselves. -/
theorem denotes_self (s : String) (h : s.toList.flatMap escapeChar = s.toList) :
    Denotes s.toList s.toList := by
  have hdenotes := denotes_escaped s.toList
  rwa [h] at hdenotes

/-- A member with a space in front of its value. -/
theorem isText_spaced {key before text : List Char} {d : Document} (hbefore : AreBlank before)
    (hkey : Denotes key key) (h : d.IsValueText text) :
    (Phrase.member key d).IsText
      (before ++ '"' :: (key ++ '"' :: ([] ++ ':' :: ([' '] ++ (text ++ []))))) :=
  .member hbefore hkey.isBody areBlank_nil (.element (areBlank_singleton rfl) h areBlank_nil)

/-- Two fields out of order, with a nested value between them whose own key is passed over. -/
def sampleObject : String :=
  "\x7b\"edge_policy\": \"assume_low\",\n\"note\": [[],\x7b\"send_column\": null\x7d],"
    ++ "\n\"max_latency_ms\": 50.0\x7d"

/-- The members of the object. -/
def sampleMembers : List (List Char × Document) :=
  [("edge_policy".toList, .string "assume_low".toList),
    ("note".toList, .array [.array [], .object [("send_column".toList, .null)]]),
    ("max_latency_ms".toList, .number "50.0".toList)]

theorem spellsNumber_fifty : SpellsNumber "50.0".toList false ⟨['5', '0'], some ['0'], none⟩ := by
  refine ⟨⟨isWhole_natDigits 50, ?_⟩, [], .none, by decide +kernel⟩
  rintro _ ⟨⟩
  exact ⟨List.cons_ne_nil _ _, isDigit_of_mem_zero⟩

theorem isText_sampleObject : (Document.object sampleMembers).IsText sampleObject.toList := by
  have hnewline : AreBlank ['\n'] := areBlank_singleton rfl
  have hpolicy : (Document.string "assume_low".toList).IsValueText _ :=
    .string (denotes_self _ (by decide +kernel)).isBody
  have hnested : (Document.object [("send_column".toList, .null)]).IsValueText _ :=
    .object (.lastMember (isText_spaced areBlank_nil (denotes_self _ (by decide +kernel)) .null))
  have hnote :
      (Document.array [.array [], .object [("send_column".toList, .null)]]).IsValueText _ :=
    .array (.elements (.element areBlank_nil (.emptyArray areBlank_nil) areBlank_nil)
      (.lastElement (.element areBlank_nil hnested areBlank_nil)))
  have h := Phrase.IsText.element areBlank_nil (.object (.members
    (isText_spaced areBlank_nil (denotes_self "edge_policy" (by decide +kernel)) hpolicy)
    (.members (isText_spaced hnewline (denotes_self "note" (by decide +kernel)) hnote)
      (.lastMember (isText_spaced hnewline (denotes_self "max_latency_ms" (by decide +kernel))
        (.number spellsNumber_fifty)))))) areBlank_nil
  unfold sampleMembers
  convert h using 1
  decide +kernel

/-- A number with a fraction and a power of ten, and a name. -/
def sampleArray : String := "[1.25E+1,\"t\"]"

theorem spellsNumber_power :
    SpellsNumber "1.25E+1".toList false ⟨['1'], some ['2', '5'], some 1⟩ := by
  have hone := isWhole_natDigits 1
  refine ⟨⟨hone, ?_⟩, ['E', '+', '1'],
    .some (.inr rfl) .plus (List.cons_ne_nil _ _) hone.digits, by decide +kernel⟩
  rintro _ ⟨⟩
  exact ⟨List.cons_ne_nil _ _, (isWhole_natDigits 25).digits⟩

theorem isText_sampleArray : (Document.array [.number "1.25E+1".toList, .string "t".toList]).IsText
    sampleArray.toList := by
  have hname : (Document.string "t".toList).IsValueText _ :=
    .string (denotes_self _ (by decide +kernel)).isBody
  have h := Phrase.IsText.element areBlank_nil (.array (.elements
    (.element areBlank_nil (.number spellsNumber_power) areBlank_nil)
    (.lastElement (.element areBlank_nil hname areBlank_nil)))) areBlank_nil
  convert h using 1
  decide +kernel

/-- One field twice. -/
def sampleRepeated : String := "\x7b\"send_column\": \"D5\",\n\"send_column\": \"D6\"\x7d"

theorem isText_sampleRepeated : (Document.object [("send_column".toList, .string "D5".toList),
    ("send_column".toList, .string "D6".toList)]).IsText sampleRepeated.toList := by
  have hnewline : AreBlank ['\n'] := areBlank_singleton rfl
  have hname (s : String) (hs : Denotes s.toList s.toList) :
      (Document.string s.toList).IsValueText _ := .string hs.isBody
  have hkey := denotes_self "send_column" (by decide +kernel)
  have h := Phrase.IsText.element areBlank_nil (.object (.members
    (isText_spaced areBlank_nil hkey (hname "D5" (denotes_self _ (by decide +kernel))))
    (.lastMember (isText_spaced hnewline hkey
      (hname "D6" (denotes_self _ (by decide +kernel))))))) areBlank_nil
  convert h using 1
  decide +kernel

theorem isText_emptyObject : (Document.object []).IsText "\x7b\x7d".toList := by
  have h := Phrase.IsText.element areBlank_nil (.emptyObject areBlank_nil) areBlank_nil
  convert h using 1
  decide +kernel

/-- Settings are read from an empty object and from the first two samples, and the third is
refused. -/
theorem Config.ofJsonText?_samples :
    Config.ofJsonText? "\x7b\x7d".toList
        = .ok { maxLatencyMs := 300.0, timestampColumn := "Timestamp(ms)", sendColumn := "D0",
                receiveColumn := "D1", edgePolicy := .seedFromFirstSample }
      ∧ Config.ofJsonText? sampleObject.toList
        = .ok { maxLatencyMs := 50.0, timestampColumn := "Timestamp(ms)", sendColumn := "D0",
                receiveColumn := "D1", edgePolicy := .assumeLow }
      ∧ Config.ofJsonText? sampleArray.toList
        = .ok { maxLatencyMs := 12.5, timestampColumn := "t", sendColumn := "D0",
                receiveColumn := "D1", edgePolicy := .seedFromFirstSample }
      ∧ Config.ofJsonText? sampleRepeated.toList = .error .mismatch := by
  have hfifty : Parts.IsWorth ⟨['5', '0'], some ['0'], none⟩ false 50.0 := by
    rw [Parts.isWorth_iff_isNearest (by decide) (by decide) (by decide)]
    exact ⟨⟨25 * 2 ^ 48, -47, by decide +kernel⟩, by decide +kernel⟩
  have hpower : Parts.IsWorth ⟨['1'], some ['2', '5'], some 1⟩ false 12.5 := by
    rw [Parts.isWorth_iff_isNearest (by decide) (by decide) (by decide)]
    exact ⟨⟨25 * 2 ^ 48, -49, by decide +kernel⟩, by decide +kernel⟩
  have hname : ∀ name : String, String.ofList name.toList = name := fun _ => String.ofList_toList
  -- the note gives nothing, although a known key stands in its value
  have hobject : Gives sampleMembers [.edgePolicy .assumeLow, .maxLatencyMs 50.0] :=
    .setting (denotes_self "edge_policy" (by decide +kernel))
      (.edgePolicy (denotes_self "assume_low" (by decide +kernel)))
      (.other (denotes_self "note" (by decide +kernel)) (by decide +kernel)
        (.setting (denotes_self "max_latency_ms" (by decide +kernel))
          (.maxLatencyMs spellsNumber_fifty hfifty) .nil))
  have harray : List.Forall₂ Setting.IsGivenBy [.maxLatencyMs 12.5, .timestampColumn "t"]
      [.number "1.25E+1".toList, .string "t".toList] :=
    .cons (.maxLatencyMs spellsNumber_power hpower)
      (.cons (hname "t" ▸ .timestampColumn (denotes_self "t" (by decide +kernel))) .nil)
  have hkey := denotes_self "send_column" (by decide +kernel)
  have hrepeated : Gives [("send_column".toList, .string "D5".toList),
      ("send_column".toList, .string "D6".toList)] [.sendColumn "D5", .sendColumn "D6"] :=
    .setting hkey (hname "D5" ▸ .sendColumn (denotes_self "D5" (by decide +kernel)))
      (.setting hkey (hname "D6" ▸ .sendColumn (denotes_self "D6" (by decide +kernel))) .nil)
  refine ⟨?_, ?_, ?_, ?_⟩
  · exact (Config.ofJsonText?_given.1 .nil isText_emptyObject).trans (if_pos List.nodup_nil)
  · exact (Config.ofJsonText?_given.1 hobject isText_sampleObject).trans (if_pos (by decide))
  · exact (Config.ofJsonText?_given.2 (by decide) harray isText_sampleArray).1
  · exact (Config.ofJsonText?_given.1 hrepeated isText_sampleRepeated).trans (if_neg (by decide))

end TriggerLatency
