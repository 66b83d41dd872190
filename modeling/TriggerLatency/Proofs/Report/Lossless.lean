import TriggerLatency.Proofs.Decimal.Reading
import TriggerLatency.Proofs.Json.Unambiguous
import TriggerLatency.Proofs.Json.Written
import TriggerLatency.Proofs.Report.RoundTrip

/-!
# Nothing is lost in the text of a report

The reader of this library may give a report back with other digits. Its text does not: whatever
reads the text as JSON finds one document there, with the fields of the report in their declared
order and an item for each measurement and each unmatched send. A count stands there as its digits
alone, and a finite float as a decimal that no other float is nearest to, so that it is read back
bit for bit by anything that rounds correctly (`Report.render_json_lossless`).
-/

namespace TriggerLatency

open Json Decimal

/-- A token that is the digits of a natural number. -/
inductive NatGivenBy (n : Nat) : Document → Prop
  | digits {token : List Char} :
      (∀ d ∈ token, isDigit d = true) → readInt? token = some (n : Int) →
      NatGivenBy n (.number token)

/-- A token from which a float is read, being the only one that is nearest to the decimal that the
token spells. -/
inductive FloatGivenBy (x : Float) : Document → Prop
  | decimal {token : List Char} {negative : Bool} {p : Parts} :
      SpellsNumber token negative p →
      (∀ y, IsNearestDouble y negative p.significand p.power ↔ y = x) →
      readFloat? token = some x → FloatGivenBy x (.number token)

/-- The statistics as an object, or `null` if there are none. -/
inductive SummaryGivenBy : Option Summary → Document → Prop
  | null : SummaryGivenBy none .null
  | object {s : Summary} {count mean min max : Document} :
      NatGivenBy s.count count → FloatGivenBy s.mean mean → FloatGivenBy s.min min →
      FloatGivenBy s.max max →
      SummaryGivenBy (some s) (.object [("count".toList, count), ("mean".toList, mean),
        ("min".toList, min), ("max".toList, max)])

inductive Measurement.IsGivenBy (m : Measurement) : Document → Prop
  | object {index sendTime receiveTime latency : Document} :
      NatGivenBy m.index index → FloatGivenBy m.sendTime sendTime →
      FloatGivenBy m.receiveTime receiveTime → FloatGivenBy m.latency latency →
      IsGivenBy m (.object [("index".toList, index), ("send_time".toList, sendTime),
        ("receive_time".toList, receiveTime), ("latency".toList, latency)])

inductive UnmatchedSend.IsGivenBy (u : UnmatchedSend) : Document → Prop
  | object {index sendTime : Document} :
      NatGivenBy u.index index → FloatGivenBy u.sendTime sendTime →
      IsGivenBy u (.object [("index".toList, index), ("send_time".toList, sendTime)])

/-- A report as an object, with a list for its measurements and one for its unmatched sends. -/
inductive Report.IsGivenBy (r : Report) : Document → Prop
  | object {summary : Document} {measurements unmatched : List Document} :
      SummaryGivenBy r.summary summary →
      List.Forall₂ Measurement.IsGivenBy r.measurements measurements →
      List.Forall₂ UnmatchedSend.IsGivenBy r.unmatched unmatched →
      IsGivenBy r (.object [("summary".toList, summary),
        ("measurements".toList, .array measurements), ("unmatched".toList, .array unmatched)])

/-! ## What is written -/

theorem readInt?_natDigits (n : Nat) : readInt? (natDigits n) = some (n : Int) := by
  have hdigits : ∀ d ∈ natDigits n, isDigit d = true := fun d hd => isDigit_of_mem_natDigits hd
  have hsplit := splitSign_append .none (natDigits_ne_nil (n := n)) hdigits []
  rw [List.append_nil, List.nil_append] at hsplit
  rw [readInt?, readSigned?, hsplit]
  dsimp only
  rw [if_pos ⟨natDigits_ne_nil, List.all_eq_true.mpr hdigits⟩, ofDigits_natDigits]
  rfl

theorem natGivenBy_document (n : Nat) : NatGivenBy n (Value.nat n).document := by
  rw [Value.document]
  exact .digits (fun d hd => isDigit_of_mem_natDigits hd) (readInt?_natDigits n)

theorem floatGivenBy_document {x : Float} (hx : x.isFinite = true) :
    FloatGivenBy x (Value.float x).document := by
  obtain ⟨negative, m, e, p, hparts, hp, hnumber⟩ := exists_spellsNumber hx
  rw [Value.document, if_pos hx]
  exact .decimal hnumber (fun y => isNearest_iff hparts hp) (readFloat?_chars hx)

/-- The keys that occur in a report. -/
def Report.keys : List String :=
  ["summary", "measurements", "unmatched", "count", "mean", "min", "max", "index", "send_time",
    "receive_time", "latency"]

/-- They need no escapes. -/
theorem memberDocuments_cons {key : String} (hkey : key ∈ Report.keys) (v : Value)
    (ms : List (String × Value)) :
    memberDocuments ((key, v) :: ms) = (key.toList, v.document) :: memberDocuments ms := by
  have hescaped : ∀ key ∈ Report.keys, key.toList.flatMap escapeChar = key.toList := by
    decide +kernel
  rw [memberDocuments, hescaped key hkey]

theorem Summary.givenBy_toJson {s : Summary}
    (hs : ∀ x ∈ [s.mean, s.min, s.max], x.isFinite = true) :
    SummaryGivenBy (some s) s.toJson.document := by
  rw [Summary.toJson, Value.document]
  simp (disch := decide) only [memberDocuments_cons]
  exact .object (natGivenBy_document s.count) (floatGivenBy_document (hs s.mean (by simp)))
    (floatGivenBy_document (hs s.min (by simp))) (floatGivenBy_document (hs s.max (by simp)))

theorem Measurement.isGivenBy_toJson {m : Measurement}
    (hm : ∀ x ∈ [m.sendTime, m.receiveTime, m.latency], x.isFinite = true) :
    m.IsGivenBy m.toJson.document := by
  rw [Measurement.toJson, Value.document]
  simp (disch := decide) only [memberDocuments_cons]
  exact .object (natGivenBy_document m.index) (floatGivenBy_document (hm m.sendTime (by simp)))
    (floatGivenBy_document (hm m.receiveTime (by simp)))
    (floatGivenBy_document (hm m.latency (by simp)))

theorem UnmatchedSend.isGivenBy_toJson {u : UnmatchedSend} (hu : u.sendTime.isFinite = true) :
    u.IsGivenBy u.toJson.document := by
  rw [UnmatchedSend.toJson, Value.document]
  simp (disch := decide) only [memberDocuments_cons]
  exact .object (natGivenBy_document u.index) (floatGivenBy_document hu)

/-- A list is written item by item. -/
theorem forall₂_document {α : Type} {toJson : α → Value} {IsGivenBy : α → Document → Prop}
    {xs : List α} (h : ∀ x ∈ xs, IsGivenBy x (toJson x).document) :
    List.Forall₂ IsGivenBy xs (itemDocuments (xs.map toJson)) := by
  rw [itemDocuments_eq_map, List.map_map, List.forall₂_map_right_iff, List.forall₂_same]
  exact h

theorem Report.isGivenBy_toJson {r : Report} (hr : ∀ x ∈ r.floats, x.isFinite = true) :
    r.IsGivenBy r.toJson.document := by
  rw [Report.floats, List.forall_mem_append, List.forall_mem_append, List.forall_mem_flatMap,
    List.forall_mem_flatMap, List.forall_mem_map] at hr
  obtain ⟨⟨hsummary, hmeasurements⟩, hunmatched⟩ := hr
  rw [Report.toJson, Value.document]
  simp (disch := decide) only [memberDocuments_cons]
  rw [Value.document, Value.document]
  refine .object ?_
    (forall₂_document fun m hm => Measurement.isGivenBy_toJson (hmeasurements m hm))
    (forall₂_document fun u hu => UnmatchedSend.isGivenBy_toJson (hunmatched u hu))
  cases hs : r.summary with
  | none =>
    dsimp only
    rw [Value.document]
    exact .null
  | some s => exact Summary.givenBy_toJson (hsummary s (by simp [hs]))

/-- The JSON text of a report of finite floats is that of one document, and that document gives the
report: its fields in their order, `null` exactly for missing statistics, an item for each
measurement and each unmatched send, all counts and all floats as they are. -/
theorem Report.render_json_lossless {r : Report} (hr : ∀ x ∈ r.floats, x.isFinite = true) :
    ∃ d : Document, (∀ d' : Document, d'.IsText (r.render .json).toList ↔ d' = d)
      ∧ r.IsGivenBy d := by
  have htext : r.toJson.document.IsText (r.render .json).toList := r.toJson.isText_pretty
  refine ⟨r.toJson.document, fun d' => ⟨htext.unique, fun heq => heq ▸ htext⟩, ?_⟩
  exact Report.isGivenBy_toJson hr

/-- Zeros of both signs, the least and the greatest float, and one that needs all its digits. -/
def sampleReport : Report where
  summary := some ⟨1, 0.1, -0.0, 17976931348623157e292⟩
  measurements := [⟨0, -0.0, 1e23, 0.30000000000000004⟩]
  unmatched := [⟨1, 5e-324⟩, ⟨2, 0.0⟩]

theorem Report.exists_document_sampleReport :
    (∀ x ∈ sampleReport.floats, x.isFinite = true)
      ∧ ∃ d : Document, (∀ d' : Document, d'.IsText (sampleReport.render .json).toList ↔ d' = d)
        ∧ sampleReport.IsGivenBy d :=
  have hfinite : ∀ x ∈ sampleReport.floats, x.isFinite = true := by decide +kernel
  ⟨hfinite, Report.render_json_lossless hfinite⟩

end TriggerLatency
