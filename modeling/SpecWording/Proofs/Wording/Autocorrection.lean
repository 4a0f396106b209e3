import SpecWording.Analysis.Analyzer
import SpecWording.Proofs.Lint.Fixing
import SpecWording.Proofs.Wording.Flagged
import SpecWording.Report.Result
import SpecWording.Wording.ExampleRule

/-!
# Correcting every flagged description

The rule on example descriptions, run alone and with fixing, rewords every flagged description of a
well-nested tree and leaves all other text as it is (`checkText_rewords_flagged`). The values that
the tree gives to its literals decide only which of them are flagged; what is reworded is the text.
-/

namespace SpecWording.Wording

open Syntax (Node)
open Text (Patchwork Span)

variable {severity : Severity} {tables : WordTables} {config : Config} {file : SourceFile}
  {tree : Node} {span : Span}

/-- What the rule reports of a flagged description. -/
def offence (severity : Severity) (file : SourceFile) (span : Span) : Violation :=
  { code := ruleCode, rule := ruleName, severity := severity, location := file.location span
    message := message }

/-- The rule's finding, at the severity that the configuration wants. -/
def finding (severity : Severity) (tables : WordTables) (config : Config) (file : SourceFile)
    (span : Span) : Finding :=
  ⟨exampleRule severity tables, (offence severity file span).withSeverity (config.severity? ruleName)⟩

def rewording (tables : WordTables) (file : SourceFile) (span : Span) : Replacement :=
  ⟨file.location span, reword tables span.text⟩

theorem check_exampleRule (node : Node) : (exampleRule severity tables).check file node =
    (detect file.content node).map (offence severity file) := by
  cases h : detect file.content node <;> simp [exampleRule, offence, h]

theorem findings_exampleRule (henabled : config.isEnabled ruleName = true) :
    findings [exampleRule severity tables] config file tree =
      (flaggedSpans file.content tree).map (finding severity tables config file) := by
  have hrules : [exampleRule severity tables].filter (fun rule ↦ config.isEnabled rule.name) =
      [exampleRule severity tables] := by
    simpa [exampleRule] using henabled
  simp only [findings, hrules]
  rw [flaggedSpans, List.map_filterMap, List.filterMap_eq_flatMap_toList]
  congr 1
  funext node
  rw [List.filterMap_cons, check_exampleRule, List.filterMap_nil, Option.map_map]
  cases detect file.content node <;> rfl

theorem location_finding : (finding severity tables config file span).violation.location =
    file.location span := by
  unfold finding Violation.withSeverity
  split <;> rfl

/-- The rule finds the description of a violation again and rewords it. -/
theorem correct_exampleRule {violation : Violation} (hsource : span.source = file.content.toList)
    (hlocation : violation.location = file.location span) :
    (exampleRule severity tables).correct file violation = some (rewording tables file span) := by
  have hspan : (file.location span).span? file.content = some span :=
    Span.ofRange?_start_stop hsource
  simp [exampleRule, rewording, hlocation, hspan]

theorem replacement?_finding (hsource : span.source = file.content.toList) :
    (finding severity tables config file span).replacement? file =
      some (rewording tables file span) := by
  unfold Finding.replacement?
  rw [if_pos (by rfl)]
  exact correct_exampleRule hsource location_finding

/-! ## Every flagged description is corrected -/

/-- No uncorrected violation is left at any severity. -/
theorem hasViolationsAt_eq_false {result : LintResult}
    (h : ∀ violation ∈ result.violations, violation.fixed = true) (threshold : Severity) :
    result.hasViolationsAt threshold = false := by
  have hremaining : result.remaining = [] := by
    rw [LintResult.remaining, List.filter_eq_nil_iff]
    intro violation hmem
    simp [h violation hmem]
  rw [LintResult.hasViolationsAt, hremaining, List.any_nil]

theorem span?_rewording (hsource : span.source = file.content.toList) :
    (rewording tables file span).edit.span? file.content = some span :=
  Span.ofRange?_start_stop hsource

/-- The stretches that the rewordings replace are the flagged descriptions. -/
theorem stretches_rewording : (flaggedSpans file.content tree).filterMap (fun span ↦
      ((rewording tables file span).edit.span? file.content).map
        (·, (rewording tables file span).newText.toList)) =
    (flaggedSpans file.content tree).map fun span ↦ (span, (reword tables span.text).toList) := by
  rw [← List.filterMap_eq_map]
  apply List.filterMap_congr
  intro span hspan
  rw [span?_rewording (source_eq_of_mem_flaggedSpans hspan)]
  rfl

/-- Fixing makes every correction, logs nothing and changes the flagged descriptions only. -/
theorem fixAll_flagged (severity : Severity) (tables : WordTables) (config : Config)
    (file : SourceFile) (hnested : tree.WellNested) :
    let report := fixAll file
      ((flaggedSpans file.content tree).map (finding severity tables config file))
    report.violations = (flaggedSpans file.content tree).map (fun span ↦
        (finding severity tables config file span).corrected (rewording tables file span)) ∧
      report.log = [] ∧
      ∃ patchwork : Patchwork, patchwork.original = file.content.toList ∧
        patchwork.revised = (report.corrected.getD file.content).toList ∧
        patchwork.stretches.Perm ((flaggedSpans file.content tree).map
          fun span ↦ (span, (reword tables span.text).toList)) := by
  have hreplace : ∀ span ∈ flaggedSpans file.content tree,
      (finding severity tables config file span).replacement? file =
        some (rewording tables file span) :=
    fun span hspan ↦ replacement?_finding (source_eq_of_mem_flaggedSpans hspan)
  have hvalid : ∀ span ∈ flaggedSpans file.content tree, ∃ stretch,
      (rewording tables file span).edit.span? file.content = some stretch :=
    fun span hspan ↦ ⟨span, span?_rewording (source_eq_of_mem_flaggedSpans hspan)⟩
  have hapart : (flaggedSpans file.content tree).Pairwise fun first second ↦
      (rewording tables file first).edit.Apart (rewording tables file second).edit :=
    pairwise_flaggedSpans file.content hnested
  refine ⟨violations_fixAll hreplace hvalid hapart, log_fixAll hreplace hvalid hapart, ?_⟩
  rw [← stretches_rewording]
  exact exists_patchwork_fixAll hreplace hvalid hapart

/-- With the rule alone a run with fixing fixes what the rule finds. -/
theorem checkText_exampleRule {analyzer : Analyzer} {path : Path}
    (hrules : analyzer.rules = [exampleRule severity tables]) (hfix : analyzer.fix = true)
    (henabled : analyzer.config.isEnabled ruleName = true)
    (hfile : SourceFile.inProject analyzer.root path file.content = file)
    (hparse : analyzer.language.parse file.content = .ok tree) :
    analyzer.checkText path file.content = .ok (fixAll file
      ((flaggedSpans file.content tree).map (finding severity tables analyzer.config file))) := by
  simp only [Analyzer.checkText, hparse, hfile, checkTree, hrules, hfix, if_true]
  rw [findings_exampleRule henabled]

/-- Every flagged description of a well-nested tree is reworded, and no other text changes. -/
theorem checkText_rewords_flagged (analyzer : Analyzer) (path : Path) (content : String)
    (hrules : analyzer.rules = [exampleRule severity tables]) (hfix : analyzer.fix = true)
    (henabled : analyzer.config.isEnabled ruleName = true)
    (hparse : analyzer.language.parse content = .ok tree) (hnested : tree.WellNested) :
    ∃ (report : SourceReport) (patchwork : Patchwork),
      analyzer.checkText path content = .ok report ∧
      report.violations.map (·.location) = (flaggedSpans content tree).map
        (SourceFile.inProject analyzer.root path content).location ∧
      (∀ violation ∈ report.violations, violation.fixed = true) ∧
      (∀ result : LintResult, result.violations = report.violations →
        ∀ threshold, result.hasViolationsAt threshold = false) ∧
      report.log = [] ∧
      patchwork.original = content.toList ∧
      patchwork.revised = (report.corrected.getD content).toList ∧
      patchwork.stretches.Perm ((flaggedSpans content tree).map
        fun span ↦ (span, (reword tables span.text).toList)) := by
  have hcontent := SourceFile.content_inProject analyzer.root path content
  generalize hfile : SourceFile.inProject analyzer.root path content = file at *
  subst hcontent
  have hreport := checkText_exampleRule hrules hfix henabled hfile hparse
  obtain ⟨hviolations, hlog, patchwork, horiginal, hrevised, hstretches⟩ :=
    fixAll_flagged severity tables analyzer.config file hnested
  have hfixed : ∀ violation ∈ (fixAll file ((flaggedSpans file.content tree).map
      (finding severity tables analyzer.config file))).violations, violation.fixed = true := by
    rw [hviolations]
    intro violation hmem
    obtain ⟨span, -, rfl⟩ := List.mem_map.mp hmem
    rfl
  refine ⟨_, patchwork, hreport, ?_, hfixed, ?_, hlog, horiginal, hrevised, hstretches⟩
  · rw [hviolations, List.map_map]
    exact List.map_congr_left fun span _ ↦ location_finding
  · intro result hresult
    exact hasViolationsAt_eq_false (hresult ▸ hfixed)

/-- An example on which another one is called: the walk meets the later literal first. -/
def chainedExamples : Node :=
  .block ⟨some (.block ⟨none, "it", [.str "should a" ⟨3, 13⟩], ⟨0, 14⟩⟩ [] ⟨0, 17⟩), "it",
    [.str "should b" ⟨21, 31⟩], ⟨0, 32⟩⟩ [] ⟨0, 35⟩

def chainedAnalyzer : Analyzer where
  root := ⟨"/project"⟩
  language := ⟨"ruby", ["rb"], fun _ ↦ .ok chainedExamples⟩
  rules := [exampleRule .warning {}]
  excluded := []
  included := []
  config := {}
  fix := true
  strict := false

theorem checkText_rewords_chained : chainedExamples.WellNested ∧
    ∃ (report : SourceReport) (patchwork : Patchwork),
      chainedAnalyzer.checkText ⟨"/project/a_spec.rb"⟩ "it('should a') {}.it('should b') {}" =
        .ok report ∧
      (∀ violation ∈ report.violations, violation.fixed = true) ∧ report.log = [] ∧
      patchwork.revised =
        (report.corrected.getD "it('should a') {}.it('should b') {}").toList ∧
      patchwork.stretches.length = 2 := by
  have hnested : chainedExamples.WellNested := by decide +kernel
  have hflagged :
      (flaggedSpans "it('should a') {}.it('should b') {}" chainedExamples).length = 2 := by
    decide +kernel
  obtain ⟨report, patchwork, hreport, -, hfixed, -, hlog, -, hrevised, hstretches⟩ :=
    checkText_rewords_flagged chainedAnalyzer ⟨"/project/a_spec.rb"⟩
      "it('should a') {}.it('should b') {}" rfl rfl rfl rfl hnested
  refine ⟨hnested, report, patchwork, hreport, hfixed, hlog, hrevised, ?_⟩
  rw [hstretches.length_eq, List.length_map, hflagged]

end SpecWording.Wording
