import SpecWording.Proofs.Offsets.Spans
import SpecWording.Proofs.Wording.Autocorrection

/-!
# Checking a file by offsets

The whole check of a file with the rule on example descriptions, as it runs on offsets: literals are
cut out of the text, their spans become locations, locations become spans again, and the new text is
put together behind a cursor. The ranges in the tree and the values of its literals are arbitrary;
what is relied on is only that spans fit the text and that the cursor never passes the next span.
-/

namespace SpecWording.Offsets

open Syntax (Node)
open Text (Edit Edited Judgement Span byteLength byteLength_append byteLength_toList)
open Wording

/-! ## Locations -/

def located (file : SourceFile) (extent : Extent) : Checked Location := do
  let (line, column) ← extent.position file.content
  let length ← extent.length
  return ⟨file.path, line, column, extent.start, length⟩

/-- The stretch of a text that a location or an edit names. -/
def locate? (source : String) (offset length : Nat) : Checked (Option Extent) := do
  let stop ← add offset length
  build? source offset stop

variable {source : String} {span : Span} {file : SourceFile}

theorem gives_located (h : span.source = file.content.toList) (hroom : span.start + 1 < wordLimit) :
    Gives file.content (located file (extentOf span)) (file.location span) :=
  (gives_position h hroom).bind ((gives_length span).bind (gives_pure _))

theorem gives_locate? {offset length : Nat} (h : offset + length < wordLimit) :
    Gives source (locate? source offset length)
      ((Span.ofRange? source offset (offset + length)).map extentOf) :=
  (gives_add h).bind (gives_build? source offset (offset + length))

example : (locate? "é" 18446744073709551615 1).run [] = .error .overflow := rfl

/-! ## Putting the new text together -/

/-- Judges edits one after another and appends to the text what stands before each applied one and
its new text; everything up to the cursor is settled. -/
def applyFrom (source : String) (cursor : Nat) (text : String) :
    List (Edit × Nat) → Checked Edited
  | [] => do
    let rest ← slice source cursor source.utf8ByteSize
    return ⟨text ++ rest, []⟩
  | (edit, index) :: others => do
    match ← locate? source edit.offset edit.length with
    | none => do
      -- The end is computed once more for the warning.
      let _ ← add edit.offset edit.length
      let edited ← applyFrom source cursor text others
      return ⟨edited.text, ⟨edit, index, .outside⟩ :: edited.judgements⟩
    | some extent =>
      if extent.start < cursor then do
        let edited ← applyFrom source cursor text others
        return ⟨edited.text, ⟨edit, index, .overlapping⟩ :: edited.judgements⟩
      else do
        let kept ← slice source cursor extent.start
        let edited ← applyFrom source extent.stop (text ++ kept ++ edit.newText) others
        return ⟨edited.text, ⟨edit, index, .applied⟩ :: edited.judgements⟩

/-- Behind a settled front the edits are judged, and the new text is put together, as by characters:
the cursor is the end of the front. -/
theorem gives_applyFrom {front rest : List Char} (hsource : source.toList = front ++ rest)
    {entries : List (Edit × Nat)}
    (hends : ∀ entry ∈ entries, entry.1.offset + entry.1.length < wordLimit) (text : String) :
    Gives source (applyFrom source (byteLength front) text entries)
      ⟨text ++ String.ofList (Edit.splice source.toList front.length
        (Edit.replaced source (Edit.judgeAll source front.length entries))),
      Edit.judgeAll source front.length entries⟩ := by
  induction entries generalizing front rest text with
  | nil =>
    have hsize : byteLength front + byteLength rest = source.utf8ByteSize := by
      rw [← byteLength_append, ← hsource, byteLength_toList]
    have hrest : source.toList.drop front.length = rest := by rw [hsource, List.drop_left]
    have hsplit : source.toList = front ++ rest ++ [] := by rw [hsource, List.append_nil]
    have hslice : Gives source (slice source (byteLength front) source.utf8ByteSize)
        (String.ofList rest) := gives_slice hsplit rfl hsize
    rw [← hrest] at hslice
    exact hslice.bind (gives_pure _)
  | cons entry entries ih =>
    obtain ⟨edit, index⟩ := entry
    have hend : edit.offset + edit.length < wordLimit := hends _ List.mem_cons_self
    have hothers : ∀ entry ∈ entries, entry.1.offset + entry.1.length < wordLimit :=
      fun entry hentry ↦ hends entry (List.mem_cons_of_mem _ hentry)
    refine (gives_locate? hend).bind ?_
    cases hspan : Span.ofRange? source edit.offset (edit.offset + edit.length) with
    | none =>
      rw [Edit.judgeAll, Edit.judge_eq_outside _ hspan, Edit.replaced_cons_of_ne (by decide)]
      exact (gives_add hend).bind ((ih hsource hothers text).bind (gives_pure _))
    | some span =>
      have hfront : front <+: source.toList := ⟨rest, hsource.symm⟩
      have hjudge := Edit.judge_eq_ite hfront hspan
      by_cases hcursor : span.start < byteLength front
      · rw [if_pos hcursor] at hjudge
        rw [Edit.judgeAll, hjudge, Edit.replaced_cons_of_ne (by decide)]
        simp only [Option.map_some, extentOf, if_pos hcursor]
        exact (ih hsource hothers text).bind (gives_pure _)
      · rw [if_neg hcursor] at hjudge
        obtain ⟨hspanSource, -, -⟩ := Span.ofRange?_eq_some_iff.mp hspan
        have hbefore := Span.prefix_of_ofRange? hspan
        have hle : front.length ≤ span.before.length :=
          (Text.byteLength_le_iff hfront hbefore).mp (Nat.not_lt.mp hcursor)
        obtain ⟨middle, hmiddle⟩ := List.prefix_of_prefix_length_le hfront hbefore hle
        have hsplit : source.toList = span.before ++ span.content ++ span.after := hspanSource.symm
        have hkept : Gives source (slice source (byteLength front) span.start)
            (String.ofList middle) := by
          have hcut : source.toList = front ++ middle ++ (span.content ++ span.after) := by
            rw [hmiddle, hsplit, List.append_assoc]
          exact gives_slice hcut rfl (by rw [← byteLength_append, hmiddle]; rfl)
        have hnext := ih hsplit hothers (text ++ String.ofList middle ++ edit.newText)
        rw [byteLength_append, List.length_append] at hnext
        rw [Edit.judgeAll, hjudge, Edit.settled_applied _ hspan,
          Edit.replaced_cons_of_applied hspan, Edit.splice]
        simp only [Option.map_some, extentOf, if_neg hcursor]
        have htext (others : List Char) :
            text ++ String.ofList (span.before.drop front.length ++ edit.newText.toList ++ others) =
              text ++ String.ofList middle ++ edit.newText ++ String.ofList others := by
          rw [← hmiddle, List.drop_left]
          simp [String.ofList_append, String.append_assoc]
        rw [htext]
        exact hkept.bind (hnext.bind (gives_pure _))

/-- Applying edits by offsets gives what applying them by characters gives. -/
theorem gives_applyEdits {edits : List Edit}
    (hends : ∀ edit ∈ edits, edit.offset + edit.length < wordLimit) :
    Gives source (applyFrom source 0 "" (Edit.inOrder edits)) (Text.applyEdits source edits) := by
  have hentries : ∀ entry ∈ Edit.inOrder edits, entry.1.offset + entry.1.length < wordLimit := by
    intro entry hentry
    have hedit : entry.1 ∈ edits.zipIdx.map Prod.fst :=
      List.mem_map_of_mem ((Edit.inOrder_perm edits).mem_iff.mp hentry)
    rw [List.zipIdx_map_fst] at hedit
    exact hends entry.1 hedit
  have hsource : source.toList = [] ++ source.toList := rfl
  have hgives := gives_applyFrom hsource hentries ""
  rw [String.empty_append] at hgives
  exact hgives

/-! ## The rule -/

/-- Reports a flagged description. -/
def check (severity : Severity) (file : SourceFile) (node : Node) : Checked (Option Violation) :=
  match flaggedLiteral? node with
  | none => return none
  | some range => do
    match ← inner? file.content range.start range.stop with
    | none => return none
    | some extent => do
      let location ← located file extent
      return some {
        code := ruleCode
        rule := ruleName
        severity := severity
        location := location
        message := message }

/-- Rewords the text that a violation names. -/
def correct (tables : WordTables) (file : SourceFile) (violation : Violation) :
    Checked (Option Replacement) := do
  match ← locate? file.content violation.location.offset violation.location.length with
  | none => return none
  | some extent => do
    let text ← extent.text file.content
    return some ⟨violation.location, reword tables text⟩

/-- Whether a location names a stretch of a file. -/
def Names (file : SourceFile) (location : Location) : Prop :=
  ∃ span : Span, span.source = file.content.toList ∧ location = file.location span

theorem Names.add_lt {location : Location} (h : Names file location)
    (hsize : file.content.utf8ByteSize < wordLimit) :
    location.offset + location.length < wordLimit := by
  obtain ⟨span, hspan, rfl⟩ := h
  exact Nat.lt_of_le_of_lt (fits_extentOf hspan).within hsize

theorem gives_check (severity : Severity) (hsize : file.content.utf8ByteSize < wordLimit)
    (node : Node) : Gives file.content (check severity file node)
      ((detect file.content node).map (offence severity file)) := by
  rw [check, detect]
  cases flaggedLiteral? node with
  | none => exact gives_pure none
  | some range =>
    refine (gives_inner? hsize).bind ?_
    rw [Option.bind_eq_bind, Option.bind_some]
    cases hinner : Span.inner? file.content range.start range.stop with
    | none => exact gives_pure none
    | some span =>
      have hsource := Span.source_eq_of_inner? hinner
      -- The closing quote stands behind the description, so there is room for a position.
      have hroom : span.start + 1 < wordLimit := by
        obtain ⟨outer, -, -, houter, -⟩ := Span.inner?_eq_some_iff.mp hinner
        have hstop : range.stop ≤ file.content.utf8ByteSize := (fits_iff.mpr ⟨outer, houter⟩).within
        have hlt := (Span.lt_of_inner? hinner).2
        have hle := span.start_le_stop
        omega
      exact (gives_located hsource hroom).bind (gives_pure _)

theorem gives_correct (severity : Severity) (tables : WordTables)
    (hsize : file.content.utf8ByteSize < wordLimit) {violation : Violation}
    (h : Names file violation.location) : Gives file.content (correct tables file violation)
      ((exampleRule severity tables).correct file violation) := by
  refine (gives_locate? (h.add_lt hsize)).bind ?_
  obtain ⟨span, hspan, hlocation⟩ := h
  have hfound : Span.ofRange? file.content violation.location.offset
      (violation.location.offset + violation.location.length) = some span := by
    rw [hlocation]
    exact Span.ofRange?_start_stop hspan
  have hreworded : rewording tables file span = ⟨violation.location, reword tables span.text⟩ := by
    rw [hlocation]
    rfl
  rw [hfound, correct_exampleRule hspan hlocation, hreworded]
  exact (gives_text hspan).bind (gives_pure _)

/-! ## The check -/

/-- A violation with the severity and the word tables that the rule had when it reported it. -/
structure Report where
  severity : Severity
  tables : WordTables
  violation : Violation

def Report.finding (report : Report) : Finding :=
  ⟨exampleRule report.severity report.tables, report.violation⟩

def offer (config : Config) (file : SourceFile) (node : Node) (setting : Severity × WordTables) :
    Checked (Option Report) := do
  let violation? ← check setting.1 file node
  return violation?.map fun violation ↦
    ⟨setting.1, setting.2, violation.withSeverity (config.severity? ruleName)⟩

/-- Offers every node to the rule with each of its settings. -/
def findAll (settings : List (Severity × WordTables)) (config : Config) (file : SourceFile)
    (tree : Node) : Checked (List Report) := do
  let enabled := settings.filter fun _ ↦ config.isEnabled ruleName
  let offers ← tree.walk.mapM fun node ↦ enabled.mapM (offer config file node)
  return offers.flatten.filterMap id

/-- Gives every violation with a replacement its suggestion and the next of the flags. -/
def mark : List Violation → List (Option Replacement) → List Bool → List Violation
  | violation :: violations, none :: replacements, flags =>
    violation :: mark violations replacements flags
  | violation :: violations, some replacement :: replacements, flags =>
    { violation with
      suggestion := some replacement.suggestion
      fixed := flags.head?.getD false } :: mark violations replacements flags.tail
  | _, _, _ => []

/-- Makes all corrections. -/
def fixReports (file : SourceFile) (reports : List Report) : Checked SourceReport := do
  let proposals ← reports.mapM fun report ↦ correct report.tables file report.violation
  let replacements := proposals.filterMap id
  let edited ← applyFrom file.content 0 "" (Edit.inOrder (replacements.map Replacement.edit))
  return {
    violations := mark (reports.map (·.violation)) proposals edited.flags
    corrected := if edited.text = file.content then none else some edited.text
    log := skippedLog replacements edited }

/-- The check of a file with the rule, under each of several settings. -/
def checkSource (settings : List (Severity × WordTables)) (config : Config) (fix : Bool)
    (file : SourceFile) (tree : Node) : Checked SourceReport := do
  let reports ← findAll settings config file tree
  if fix then fixReports file reports else return { violations := reports.map (·.violation) }

section Reports

variable (settings : List (Severity × WordTables)) (config : Config) (file : SourceFile)
  (tree : Node)

def reportOf (node : Node) (setting : Severity × WordTables) : Option Report :=
  (detect file.content node).map fun span ↦
    ⟨setting.1, setting.2,
      (offence setting.1 file span).withSeverity (config.severity? ruleName)⟩

/-- Everything that the rule reports of a tree. -/
def reports : List Report :=
  tree.walk.flatMap fun node ↦
    (settings.filter fun _ ↦ config.isEnabled ruleName).filterMap (reportOf config file node)

theorem findings_eq_map_reports :
    findings (settings.map fun setting ↦ exampleRule setting.1 setting.2) config file tree =
      (reports settings config file tree).map Report.finding := by
  have hcheck (node : Node) (setting : Severity × WordTables) :
      ((exampleRule setting.1 setting.2).check file node).map (fun violation ↦
        Finding.mk (exampleRule setting.1 setting.2)
          (violation.withSeverity (config.severity? ruleName))) =
        (reportOf config file node setting).map Report.finding := by
    rw [check_exampleRule, reportOf, Option.map_map, Option.map_map]
    rfl
  rw [findings, reports, List.map_flatMap, List.filter_map]
  congr 1
  funext node
  rw [List.filterMap_map, List.map_filterMap]
  exact List.filterMap_congr fun setting _ ↦ hcheck node setting

variable {settings config file tree}

theorem gives_offer (hsize : file.content.utf8ByteSize < wordLimit) (node : Node)
    (setting : Severity × WordTables) :
    Gives file.content (offer config file node setting) (reportOf config file node setting) := by
  refine (gives_check setting.1 hsize node).bind ?_
  rw [reportOf, Option.map_map]
  exact gives_pure _

theorem gives_findAll (hsize : file.content.utf8ByteSize < wordLimit) :
    Gives file.content (findAll settings config file tree) (reports settings config file tree) := by
  refine (gives_mapM fun node _ ↦ gives_mapM fun setting _ ↦ gives_offer hsize node setting).bind ?_
  have hreports : ((tree.walk.map fun node ↦ (settings.filter fun _ ↦ config.isEnabled ruleName).map
      (reportOf config file node)).flatten.filterMap id) = reports settings config file tree := by
    rw [reports, List.flatMap, List.filterMap_flatten, List.map_map]
    simp [Function.comp_def, List.filterMap_map]
  rw [← hreports]
  exact gives_pure _

theorem names_of_mem_reports {report : Report} (h : report ∈ reports settings config file tree) :
    Names file report.violation.location := by
  obtain ⟨node, -, hnode⟩ := List.mem_flatMap.mp h
  obtain ⟨setting, -, hsetting⟩ := List.mem_filterMap.mp hnode
  obtain ⟨span, hspan, rfl⟩ := Option.map_eq_some_iff.mp hsetting
  exact ⟨span, source_eq_of_detect hspan, @location_finding setting.1 setting.2 config file span⟩

theorem mark_eq (reports : List Report) (flags : List Bool) :
    mark (reports.map (·.violation)) (reports.map fun report ↦ report.finding.replacement? file)
      flags = Finding.mark file (reports.map Report.finding) flags := by
  induction reports generalizing flags with
  | nil => rfl
  | cons report reports ih =>
    rw [List.map_cons, List.map_cons, List.map_cons, Finding.mark]
    cases report.finding.replacement? file with
    | none => exact congrArg _ (ih flags)
    | some replacement => exact congrArg _ (ih flags.tail)

theorem Names.of_replacement? {report : Report} {replacement : Replacement}
    (hnames : Names file report.violation.location)
    (h : report.finding.replacement? file = some replacement) :
    Names file replacement.location := by
  obtain ⟨span, hspan, hlocation⟩ := hnames
  have hcorrect : (exampleRule report.severity report.tables).correct file report.violation =
    some replacement := h
  rw [correct_exampleRule hspan hlocation, Option.some.injEq] at hcorrect
  exact ⟨span, hspan, by rw [← hcorrect]; rfl⟩

theorem gives_fixReports (hsize : file.content.utf8ByteSize < wordLimit) {reports : List Report}
    (hnames : ∀ report ∈ reports, Names file report.violation.location) :
    Gives file.content (fixReports file reports)
      (SpecWording.fixAll file (reports.map Report.finding)) := by
  have hproposals : Gives file.content
      (reports.mapM fun report ↦ correct report.tables file report.violation)
      (reports.map fun report ↦ report.finding.replacement? file) :=
    gives_mapM fun report hreport ↦
      gives_correct report.severity report.tables hsize (hnames report hreport)
  have hreplacements : (reports.map fun report ↦
      report.finding.replacement? file).filterMap id =
      (reports.map Report.finding).filterMap (·.replacement? file) := by
    rw [List.filterMap_map, List.filterMap_map]
    rfl
  have hends : ∀ edit ∈ ((reports.map Report.finding).filterMap (·.replacement? file)).map
      Replacement.edit, edit.offset + edit.length < wordLimit := by
    intro edit hedit
    obtain ⟨replacement, hreplacement, rfl⟩ := List.mem_map.mp hedit
    obtain ⟨finding, hfinding, hsome⟩ := List.mem_filterMap.mp hreplacement
    obtain ⟨report, hreport, rfl⟩ := List.mem_map.mp hfinding
    exact ((hnames report hreport).of_replacement? hsome).add_lt hsize
  refine hproposals.bind ?_
  simp only [hreplacements]
  refine (gives_applyEdits hends).bind ?_
  rw [SpecWording.fixAll, ← mark_eq]
  exact gives_pure _

end Reports

/-- On any text that a machine word can measure, and for any tree at all, the check ends without a
fault, reports what the check by characters reports, and builds no span that does not fit the
text. -/
theorem checkSource_without_fault (settings : List (Severity × WordTables)) (config : Config)
    (fix : Bool) (file : SourceFile) (tree : Node)
    (hsize : file.content.utf8ByteSize < wordLimit) :
    ∃ built : List Extent,
      (checkSource settings config fix file tree).run [] = .ok (checkTree
        (settings.map fun setting ↦ exampleRule setting.1 setting.2) config fix file tree, built) ∧
      ∀ extent ∈ built, extent.start ≤ extent.stop ∧ extent.stop ≤ file.content.utf8ByteSize ∧
        isBoundary file.content extent.start = true ∧
        isBoundary file.content extent.stop = true := by
  have hgives : Gives file.content (checkSource settings config fix file tree)
      (checkTree (settings.map fun setting ↦ exampleRule setting.1 setting.2) config fix file
        tree) := by
    refine (gives_findAll hsize).bind ?_
    rw [checkTree, findings_eq_map_reports]
    cases fix with
    | false =>
      have hviolations : ((reports settings config file tree).map Report.finding).map
          (·.violation) = (reports settings config file tree).map (·.violation) := List.map_map ..
      rw [hviolations]
      exact gives_pure _
    | true => exact gives_fixReports hsize fun report hreport ↦ names_of_mem_reports hreport
  obtain ⟨built, hbuilt, hrun⟩ := hgives
  refine ⟨built, by rw [hrun, List.append_nil], fun extent hextent ↦ ?_⟩
  have hfits := hbuilt extent hextent
  exact ⟨hfits.ordered, hfits.within, hfits.start, hfits.stop⟩

/-- A block called `it` whose description claims any value at any range. -/
def claimed (value : String) (start stop : Nat) : Node :=
  .block ⟨none, "it", [.str value ⟨start, stop⟩], ⟨stop, start⟩⟩ [] ⟨0, 0⟩

def misread : SourceFile := ⟨⟨"a_spec.rb"⟩, "it 'should ↯ go' do end"⟩

/-- Descriptions of a text at ranges that overlap, are reversed, empty or past the end, and begin or
end inside a character. -/
def misreadTree : Node :=
  .other "program" [claimed "should" 3 18, claimed "SHOULD" 4 11, claimed "shoulder" 18 3,
    claimed "should" 12 15, claimed "should" 0 13, claimed "should" 7 7, claimed "should" 3 25,
    claimed "should" 18446744073709551615 18446744073709551615] ⟨9, 2⟩

theorem checkSource_misread : misread.content.utf8ByteSize < wordLimit ∧
    ∃ built : List Extent,
      (checkSource [(.warning, {}), (.error, ⟨[("go", "leave")], []⟩)] {} true misread
        misreadTree).run [] = .ok (checkTree [exampleRule .warning {},
          exampleRule .error ⟨[("go", "leave")], []⟩] {} true misread misreadTree, built) ∧
      ∀ extent ∈ built, extent.start ≤ extent.stop ∧ extent.stop ≤ misread.content.utf8ByteSize ∧
        isBoundary misread.content extent.start = true ∧
        isBoundary misread.content extent.stop = true := by
  have hsize : misread.content.utf8ByteSize < wordLimit := by decide
  exact ⟨hsize, checkSource_without_fault [(.warning, {}), (.error, ⟨[("go", "leave")], []⟩)] {}
    true misread misreadTree hsize⟩

end SpecWording.Offsets
