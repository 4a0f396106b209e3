import SpecWording.Command.Report
import SpecWording.Proofs.Json.Roundtrip

/-!
# Results survive JSON

Whatever a result holds is in the JSON that is written for it: its texts because decoding undoes the
escapes, its counters as long as they stay below the limit of whoever reads them, and every optional
value because `null` stands for none and for nothing else. Both ways of writing are read back.
-/

namespace SpecWording

namespace Json

theorem mapM_map_eq_some {α β : Type} {write : α → β} {read : β → Option α} {values : List α}
    (h : ∀ value ∈ values, read (write value) = some value) :
    (values.map write).mapM read = some values := by
  induction values with
  | nil => rfl
  | cons value values ih =>
    have hvalues := ih fun other hother ↦ h other (List.mem_cons_of_mem value hother)
    rw [List.map_cons, List.mapM_cons, h value List.mem_cons_self, hvalues]
    rfl

theorem string?_ofString (text : String) : string? (ofString text) = some text := by
  rw [ofString, string?, Quoted.decode_encode, Option.map_some, String.ofList_toList]

theorem record?_ofMembers (fields : List Field) (members : List (String × Json)) :
    record? fields (ofMembers members) = fields.mapM (member? members) := by
  rw [ofMembers, record?, mapM_map_eq_some]
  · rfl
  · intro member _
    simp [Quoted.decode_encode]

/-- Reading back what stands for an optional value, if no value is written as `null`. -/
theorem orNull?_ofOption {α : Type} {write : α → Json} {read : Json → Option α}
    {value : Option α} (hread : ∀ a ∈ value, read (write a) = some a)
    (hnull : ∀ a ∈ value, write a ≠ .null) : orNull? read (ofOption write value) = some value := by
  cases value with
  | none => rfl
  | some a =>
    rw [ofOption, orNull?, hread a rfl, Option.map_some]
    exact hnull a rfl

theorem Written.ofOption {α : Type} {write : α → Json} (h : ∀ a, (write a).Written)
    (value : Option α) : (ofOption write value).Written := by
  cases value with
  | none => exact .null
  | some a => exact h a

end Json

theorem Severity.ofJson?_toJson (severity : Severity) :
    ofJson? severity.toJson = some severity := by
  rw [toJson, ofJson?, Json.string?_ofString]
  · exact ofName?_name severity
  · intro name hname
    contradiction

namespace Location

structure FitsCounters (location : Location) : Prop where
  line : location.line < Json.counterLimit
  column : location.column < Json.counterLimit
  offset : location.offset < Json.counterLimit
  length : location.length < Json.counterLimit

theorem ofJson?_toJson {location : Location} (h : location.FitsCounters) :
    ofJson? location.toJson = some location := by
  simp [ofJson?, toJson, Json.record?_ofMembers, Json.member?, Json.string?_ofString,
    Json.counter?_ofNat, h.line, h.column, h.offset, h.length]

theorem written_toJson (location : Location) : location.toJson.Written := by
  apply Json.Written.ofMembers
  simp [Json.Written.ofString, Json.Written.ofNat]

end Location

namespace Replacement

theorem ofJson?_toJson {replacement : Replacement} (h : replacement.location.FitsCounters) :
    ofJson? replacement.toJson = some replacement := by
  simp [ofJson?, toJson, Json.record?_ofMembers, Json.member?, Json.string?_ofString,
    Location.ofJson?_toJson h]

theorem written_toJson (replacement : Replacement) : replacement.toJson.Written := by
  apply Json.Written.ofMembers
  simp [Json.Written.ofString, Location.written_toJson]

end Replacement

namespace Suggestion

theorem ofJson?_toJson {suggestion : Suggestion}
    (h : ∀ replacement ∈ suggestion.replacement, replacement.location.FitsCounters) :
    ofJson? suggestion.toJson = some suggestion := by
  have hreplacement : Json.orNull? Replacement.ofJson?
      (.ofOption Replacement.toJson suggestion.replacement) = some suggestion.replacement :=
    Json.orNull?_ofOption (fun replacement hmem ↦ Replacement.ofJson?_toJson (h replacement hmem))
      (by simp [Replacement.toJson, Json.ofMembers])
  simp [ofJson?, toJson, Json.record?_ofMembers, Json.member?, Json.string?_ofString, hreplacement]

theorem written_toJson (suggestion : Suggestion) : suggestion.toJson.Written := by
  apply Json.Written.ofMembers
  simp [Json.Written.ofString, Json.Written.ofOption Replacement.written_toJson]

end Suggestion

namespace Violation

structure FitsCounters (violation : Violation) : Prop where
  location : violation.location.FitsCounters
  replacement : ∀ replacement ∈ violation.replacement?, replacement.location.FitsCounters

theorem ofJson?_toJson {violation : Violation} (h : violation.FitsCounters) :
    ofJson? violation.toJson = some violation := by
  have hsuggestion : Json.orNull? Suggestion.ofJson?
      (.ofOption Suggestion.toJson violation.suggestion) = some violation.suggestion := by
    apply Json.orNull?_ofOption
    · intro suggestion hsuggestion
      refine Suggestion.ofJson?_toJson fun replacement hreplacement ↦ h.replacement replacement ?_
      rw [replacement?, Option.mem_def.mp hsuggestion]
      exact hreplacement
    · simp [Suggestion.toJson, Json.ofMembers]
  simp [ofJson?, toJson, Json.record?_ofMembers, Json.member?, Json.string?_ofString,
    Severity.ofJson?_toJson, Location.ofJson?_toJson h.location, hsuggestion, Json.bool?]

theorem written_toJson (violation : Violation) : violation.toJson.Written := by
  apply Json.Written.ofMembers
  simp [Severity.toJson, Json.Written.ofString, Json.Written.bool, Location.written_toJson,
    Json.Written.ofOption Suggestion.written_toJson]

end Violation

namespace LintResult

structure FitsCounters (result : LintResult) : Prop where
  violations : ∀ violation ∈ result.violations, violation.FitsCounters
  filesChecked : result.filesChecked < Json.counterLimit
  filesFixed : result.filesFixed < Json.counterLimit

theorem ofJson?_toJson {result : LintResult} (h : result.FitsCounters) :
    ofJson? result.toJson = some result := by
  have hviolations : (result.violations.map Violation.toJson).mapM Violation.ofJson? =
      some result.violations :=
    Json.mapM_map_eq_some fun violation hmem ↦
      Violation.ofJson?_toJson (h.violations violation hmem)
  simp [ofJson?, toJson, Json.record?_ofMembers, Json.member?, Json.items?, hviolations,
    Json.counter?_ofNat h.filesChecked, Json.counter?_ofNat h.filesFixed]

theorem written_toJson (result : LintResult) : result.toJson.Written := by
  have hviolations : (Json.array (result.violations.map Violation.toJson)).Written := by
    apply Json.Written.array
    simp [Violation.written_toJson]
  apply Json.Written.ofMembers
  simp [hviolations, Json.Written.ofNat]

/-- The result that a text holds. -/
def read? (text : String) : Option LintResult := Json.parse? text >>= ofJson?

/-- A result is read back from its JSON, in either way of writing and from the report of a check. -/
theorem read?_written (result : LintResult) (h : result.FitsCounters) :
    read? result.toJson.compact = some result ∧ read? result.toJson.pretty = some result ∧
      ∀ (tree : FileTree) (directory : Place) (root : Path),
        read? (result.report .json tree directory root) = some result := by
  have hread {text : String} (htext : Json.parse? text = some result.toJson) :
      read? text = some result := by
    rw [read?, htext]
    exact ofJson?_toJson h
  refine ⟨hread result.written_toJson.parse?_compact, hread result.written_toJson.parse?_pretty, ?_⟩
  intro tree directory root
  exact hread result.written_toJson.parse?_pretty_append_newline

/-- A result with the largest counters, texts that need every kind of escape, and suggestions with
and without a replacement. -/
def unusual : LintResult where
  violations :=
    let far : Location :=
      ⟨⟨"/spec\\größe 😀\x7f.rb"⟩, 18446744073709551615, 1, 18446744073709551615, 0⟩
    [{ code := "\x00\x1f\x08\x0c", rule := "", severity := .info, location := far
       message := "say \"no\"\r\n\t/" },
     { code := "null", rule := "\u2028", severity := .warning, location := far, message := "\\u0041"
       suggestion := some ⟨"null", none⟩, fixed := true },
     { code := "EW001", rule := "example_wording", severity := .error, location := far
       message := "日本", suggestion := some ⟨"", some ⟨⟨⟨""⟩, 0, 0, 0, 0⟩, "\uffff"⟩⟩ }]
  filesChecked := 18446744073709551615
  filesFixed := 0

theorem read?_written_unusual : unusual.FitsCounters ∧
    read? unusual.toJson.compact = some unusual ∧ read? unusual.toJson.pretty = some unusual ∧
      ∀ (tree : FileTree) (directory : Place) (root : Path),
        read? (unusual.report .json tree directory root) = some unusual := by
  have hfits : unusual.FitsCounters := by
    refine ⟨?_, by decide, by decide⟩
    intro violation hviolation
    have hfar (path : Path) :
        Location.FitsCounters ⟨path, 18446744073709551615, 1, 18446744073709551615, 0⟩ := by
      constructor <;> simp [Json.counterLimit]
    have hzero : Location.FitsCounters ⟨⟨""⟩, 0, 0, 0, 0⟩ := by
      constructor <;> simp [Json.counterLimit]
    simp only [unusual, List.mem_cons, List.not_mem_nil, or_false] at hviolation
    rcases hviolation with rfl | rfl | rfl
    · exact ⟨hfar _, by simp [Violation.replacement?]⟩
    · exact ⟨hfar _, by simp [Violation.replacement?]⟩
    · exact ⟨hfar _, by simpa [Violation.replacement?] using hzero⟩
  exact ⟨hfits, read?_written unusual hfits⟩

end LintResult

end SpecWording
