import SpecWording.Proofs.Analysis.Enumeration
import SpecWording.Wording.ExampleRule

/-!
# Violations that count as fixed

A violation counts as fixed if its replacement was applied, and a file is rewritten if the text
changed. The two differ where the applied replacements together give back the text that was there:
then nothing is written, but the violations count as fixed. They differ nowhere else, as long as no
rule marks its own reports as fixed.
-/

namespace SpecWording

open Syntax (Node)

variable {rules : List Rule} {config : Config} {fix : Bool} {file : SourceFile} {root : Node}

/-- Every replacement for what the rules find, applied to the text of the file. -/
def editedBy (rules : List Rule) (config : Config) (file : SourceFile) (root : Node) :
    Text.Edited :=
  applyReplacements file.content
    ((findings rules config file root).filterMap (·.replacement? file))

theorem exists_fixed_checkTree_iff :
    (∃ violation ∈ (checkTree rules config fix file root).violations, violation.fixed = true) ↔
      (∃ finding ∈ findings rules config file root,
        (fix = true → finding.replacement? file = none) ∧ finding.violation.fixed = true) ∨
      fix = true ∧ ∃ judgement ∈ (editedBy rules config file root).judgements,
        judgement.isApplied = true := by
  cases fix with
  | false => simp [checkTree]
  | true =>
    have hmark := Finding.exists_fixed_mark (length_flags_applyReplacements file.content
      ((findings rules config file root).filterMap (·.replacement? file)))
    rw [applyReplacements, Text.mem_flags_iff] at hmark
    simp only [true_implies, true_and]
    exact hmark

theorem isSome_corrected_checkTree_iff :
    (checkTree rules config fix file root).corrected.isSome = true ↔
      fix = true ∧ (editedBy rules config file root).text ≠ file.content := by
  cases fix with
  | false => simp [checkTree]
  | true => simp [checkTree, fixAll, editedBy]

theorem exists_applied_iff : (∃ judgement ∈ (editedBy rules config file root).judgements,
      judgement.isApplied = true) ↔
    (editedBy rules config file root).text ≠ file.content ∨
      (editedBy rules config file root).Restates file.content := by
  constructor
  · intro happlied
    by_cases htext : (editedBy rules config file root).text = file.content
    · exact .inr ⟨happlied, htext⟩
    · exact .inl htext
  · rintro (htext | ⟨happlied, -⟩)
    · by_contra hnone
      push Not at hnone
      apply htext
      apply Text.text_applyEdits_of_forall_not_applied
      intro judgement hmem
      exact Bool.eq_false_iff.mpr (hnone judgement hmem)
    · exact happlied

namespace Analyzer

variable {analyzer : Analyzer} {tree : FileTree} {environment : Environment} {path : Path}
  {paths : List Path} {content : String} {report : SourceReport} {result : LintResult}

/-- Some replacements are applied to a text, and all of them together give the text back. -/
def Restates (analyzer : Analyzer) (path : Path) (content : String) : Prop :=
  analyzer.fix = true ∧ ∃ root, analyzer.language.parse content = .ok root ∧
    (editedBy analyzer.rules analyzer.config (SourceFile.inProject analyzer.root path content)
      root).Restates content

/-- A rule reports a violation as fixed for which there is no replacement. -/
def ReportsFixed (analyzer : Analyzer) (path : Path) (content : String) : Prop :=
  ∃ root, analyzer.language.parse content = .ok root ∧
    ∃ finding ∈ findings analyzer.rules analyzer.config
      (SourceFile.inProject analyzer.root path content) root,
      (analyzer.fix = true → finding.replacement?
        (SourceFile.inProject analyzer.root path content) = none) ∧
      finding.violation.fixed = true

theorem not_reportsFixed (hrules : ∀ rule ∈ analyzer.rules, rule.ReportsPlainly) :
    ¬ analyzer.ReportsFixed path content := by
  rintro ⟨root, -, finding, hmem, -, hfixed⟩
  have hrule := hrules _ (exists_rule_of_mem_findings hmem).1
  rw [(hrule.of_mem_findings hmem).2] at hfixed
  cases hfixed

theorem exists_parse_iff (hparse : analyzer.language.parse content = .ok root)
    {p : Node → Prop} :
    (∃ other, analyzer.language.parse content = .ok other ∧ p other) ↔ p root := by
  simp [hparse]

/-- A violation counts as fixed in a file that is rewritten or restated, and nowhere else. -/
theorem exists_fixed_iff (h : analyzer.checkText path content = .ok report) :
    (∃ violation ∈ report.violations, violation.fixed = true) ↔
      report.corrected.isSome = true ∨ analyzer.Restates path content ∨
        analyzer.ReportsFixed path content := by
  obtain ⟨root, hparse, rfl⟩ := exists_tree_of_checkText h
  rw [exists_fixed_checkTree_iff, exists_applied_iff, isSome_corrected_checkTree_iff, Restates,
    ReportsFixed, exists_parse_iff hparse, exists_parse_iff hparse, SourceFile.content_inProject,
    and_or_left, or_comm, or_assoc]

theorem corrected_of_restates (h : analyzer.checkText path content = .ok report)
    (hrestates : analyzer.Restates path content) : report.corrected = none := by
  obtain ⟨root, hparse, rfl⟩ := exists_tree_of_checkText h
  obtain ⟨-, other, hother, -, htext⟩ := hrestates
  obtain rfl : root = other := Except.ok.inj (hparse.symm.trans hother)
  rw [← Option.not_isSome_iff_eq_none, isSome_corrected_checkTree_iff,
    SourceFile.content_inProject]
  exact fun hcorrected ↦ hcorrected.2 htext

theorem exists_parse_of_restates_or (h : analyzer.Restates path content ∨
    analyzer.ReportsFixed path content) :
    ∃ report, analyzer.checkText path content = .ok report := by
  obtain ⟨root, hparse⟩ : ∃ root, analyzer.language.parse content = .ok root := by
    rcases h with ⟨-, root, hparse, -⟩ | ⟨root, hparse, -⟩ <;> exact ⟨root, hparse⟩
  rw [checkText, hparse]
  exact ⟨_, rfl⟩

/-! ## Runs -/

theorem fixedCount_pos_iff (reports : List SourceReport) :
    0 < (reports.foldl LintResult.add {}).sorted.fixedCount ↔
      ∃ report ∈ reports, ∃ violation ∈ report.violations, violation.fixed = true := by
  rw [LintResult.sorted, LintResult.fixedCount, LintResult.foldl_add, List.countP_pos_iff]
  simp only [List.mem_mergeSort, List.nil_append, List.mem_flatMap]
  constructor
  · rintro ⟨violation, ⟨report, hreport, hmem⟩, hfixed⟩
    exact ⟨report, hreport, violation, hmem, hfixed⟩
  · rintro ⟨report, hreport, violation, hmem, hfixed⟩
    exact ⟨violation, ⟨report, hreport, hmem⟩, hfixed⟩

theorem filesFixed_pos_iff (reports : List SourceReport) :
    0 < (reports.foldl LintResult.add {}).sorted.filesFixed ↔
      ∃ report ∈ reports, report.corrected.isSome = true := by
  simp [LintResult.foldl_add, List.countP_pos_iff]

theorem mem_reports_iff {directory : Place} :
    report ∈ paths.filterMap (analyzer.report? tree directory) ↔
      ∃ path ∈ paths, ∃ content, tree.readText directory path = .ok content ∧
        analyzer.checkText path content = .ok report := by
  simp only [List.mem_filterMap, report?_eq_some_iff, checkFile_eq_ok_iff]

/-- A file that was checked has changed exactly if it has a corrected text. -/
theorem exists_place_changed_iff {directory : Place} {after : FileTree}
    (hrewrites : analyzer.Rewrites tree directory tree after paths)
    (hapart : paths.Pairwise (tree.LeadApart directory)) (hpath : path ∈ paths)
    (hread : tree.readText directory path = .ok content)
    (hcheck : analyzer.checkText path content = .ok report) :
    ∃ place, tree.locate directory path false = .ok place ∧
      (after.entry? place ≠ tree.entry? place ↔ report.corrected.isSome = true) := by
  obtain ⟨place, hlocate, -⟩ := FileTree.readText_eq_ok_iff.mp hread
  refine ⟨place, hlocate, ?_⟩
  rw [hrewrites.entry?_ne_iff, Option.isSome_iff_exists]
  constructor
  · rintro ⟨other, hother, text, hcorrects⟩
    have hsame : path = other := by
      by_contra hne
      exact hapart.forall hpath hother hne place hlocate hcorrects.1
    subst hsame
    obtain ⟨-, content', report', hread', hcheck', hcorrected⟩ := hcorrects
    obtain rfl : content = content' := Except.ok.inj (hread.symm.trans hread')
    obtain rfl : report = report' := Except.ok.inj (hcheck.symm.trans hcheck')
    exact ⟨text, hcorrected⟩
  · rintro ⟨text, hcorrected⟩
    exact ⟨path, hpath, text, hlocate, content, report, hread, hcheck, hcorrected⟩

/-- Violations count as fixed where a file is rewritten, and also where the replacements restate it:
then the count of fixed violations is not zero although no file need have changed. -/
theorem counts_as_fixed_iff (analyzer : Analyzer) :
    (∀ path content report, analyzer.checkText path content = .ok report →
      ((∃ violation ∈ report.violations, violation.fixed = true) ↔
        report.corrected.isSome = true ∨ analyzer.Restates path content ∨
          analyzer.ReportsFixed path content) ∧
      (analyzer.Restates path content → report.corrected = none)) ∧
    ∀ (tree : FileTree) (environment : Environment) (result : LintResult), tree.WellFormed →
      (analyzer.run tree environment).result = .ok result →
      ∃ paths, analyzer.discover tree environment = .ok paths ∧
        (∀ path ∈ paths, ∀ content report,
          tree.readText environment.workingDirectory path = .ok content →
          analyzer.checkText path content = .ok report →
          ∃ place, tree.locate environment.workingDirectory path false = .ok place ∧
            ((∃ violation ∈ report.violations, violation.fixed = true) ↔
              FileTree.entry? (analyzer.run tree environment).tree place ≠ tree.entry? place ∨
                analyzer.Restates path content ∨ analyzer.ReportsFixed path content)) ∧
        (0 < result.fixedCount ↔ 0 < result.filesFixed ∨ ∃ path ∈ paths, ∃ content,
          tree.readText environment.workingDirectory path = .ok content ∧
            (analyzer.Restates path content ∨ analyzer.ReportsFixed path content)) := by
  constructor
  · intro path content report hcheck
    exact ⟨exists_fixed_iff hcheck, corrected_of_restates hcheck⟩
  · intro tree environment result hwell hrun
    cases hdiscover : analyzer.discover tree environment with
    | error error => cases (run_of_discover_error hdiscover).2.symm.trans hrun
    | ok paths =>
      have hapart := leadApart_discover hwell hdiscover
      obtain ⟨rfl, hrewrites⟩ := exists_of_run_eq_ok hdiscover hapart hrun
      refine ⟨paths, rfl, ?_, ?_⟩
      · intro path hpath content report hread hcheck
        obtain ⟨place, hlocate, hchanged⟩ :=
          exists_place_changed_iff hrewrites hapart hpath hread hcheck
        exact ⟨place, hlocate, by rw [hchanged, exists_fixed_iff hcheck]⟩
      · rw [fixedCount_pos_iff, filesFixed_pos_iff]
        constructor
        · rintro ⟨report, hmem, hfixed⟩
          obtain ⟨path, hpath, content, hread, hcheck⟩ := mem_reports_iff.mp hmem
          rcases (exists_fixed_iff hcheck).mp hfixed with hcorrected | hother
          · exact .inl ⟨report, hmem, hcorrected⟩
          · exact .inr ⟨path, hpath, content, hread, hother⟩
        · rintro (⟨report, hmem, hcorrected⟩ | ⟨path, hpath, content, hread, hother⟩)
          · obtain ⟨path, -, content, -, hcheck⟩ := mem_reports_iff.mp hmem
            exact ⟨report, hmem, (exists_fixed_iff hcheck).mpr (.inl hcorrected)⟩
          · obtain ⟨report, hcheck⟩ := exists_parse_of_restates_or hother
            have hmem := mem_reports_iff.mpr ⟨path, hpath, content, hread, hcheck⟩
            exact ⟨report, hmem, (exists_fixed_iff hcheck).mpr (.inr hother)⟩

end Analyzer

/-! ## A description that is put back -/

theorem exampleRule_reportsPlainly (severity : Severity) (tables : WordTables) :
    (Wording.exampleRule severity tables).ReportsPlainly := by
  intro file node violation h
  simp only [Wording.exampleRule, Option.bind_eq_bind] at h
  obtain ⟨span, -, heq⟩ := Option.bind_eq_some_iff.mp h
  cases heq
  exact ⟨rfl, rfl⟩

/-- The table gives the flagged word back that rewording drops. -/
def restatingAnalyzer : Analyzer where
  root := ⟨"/project"⟩
  language := ⟨"ruby", ["rb"], fun _ ↦
    .ok (.block ⟨none, "it", [.str "should work" ⟨3, 16⟩], ⟨0, 23⟩⟩ [] ⟨0, 23⟩)⟩
  rules := [Wording.exampleRule .warning { transforms := [("work", "should work")] }]
  excluded := []
  included := []
  config := {}
  fix := true
  strict := false

def restatedPath : Path := ⟨"/project/spec/a_spec.rb"⟩

def restatedSource : String := "it 'should work' do\nend\n"

theorem exists_report_restated : ∃ report,
    restatingAnalyzer.checkText restatedPath restatedSource = .ok report ∧
      report.violations.map (·.fixed) = [true] ∧ report.corrected = none := by
  have hreport : (restatingAnalyzer.checkText restatedPath restatedSource).toOption.map
      (fun report ↦ (report.violations.map (·.fixed), report.corrected)) = some ([true], none) := by
    decide +kernel
  cases hcheck : restatingAnalyzer.checkText restatedPath restatedSource with
  | error error =>
    rw [hcheck] at hreport
    cases hreport
  | ok report =>
    rw [hcheck] at hreport
    obtain ⟨hfixed, hcorrected⟩ := Prod.mk.inj (Option.some.inj hreport)
    exact ⟨report, rfl, hfixed, hcorrected⟩

/-- The violation counts as fixed, and no text is written. -/
theorem checkText_fixed_not_corrected : ∃ report,
    restatingAnalyzer.checkText restatedPath restatedSource = .ok report ∧
      (∃ violation ∈ report.violations, violation.fixed = true) ∧ report.corrected = none := by
  obtain ⟨report, hcheck, hfixed, hcorrected⟩ := exists_report_restated
  have hmem : true ∈ report.violations.map (·.fixed) := hfixed ▸ List.mem_cons_self
  exact ⟨report, hcheck, List.mem_map.mp hmem, hcorrected⟩

theorem Analyzer.counts_as_fixed_restated :
    restatingAnalyzer.Restates restatedPath restatedSource ∧ symbolTree.WellFormed ∧
      ∃ result, ((symbolAnalyzer false).run symbolTree symbolEnvironment).result = .ok result ∧
        0 < result.filesFixed ∧ 0 < result.fixedCount := by
  have hwell := wellFormed_symbolTree
  refine ⟨?_, hwell, _, result_run_symbolTree, ?_⟩
  · obtain ⟨report, hcheck, hfixed, hcorrected⟩ := exists_report_restated
    have hmem : true ∈ report.violations.map (·.fixed) := hfixed ▸ List.mem_cons_self
    have hcases := ((counts_as_fixed_iff restatingAnalyzer).1 _ _ _ hcheck).1.mp
      (List.mem_map.mp hmem)
    rw [hcorrected] at hcases
    have hrules : ∀ rule ∈ restatingAnalyzer.rules, rule.ReportsPlainly := by
      intro rule hrule
      obtain rfl := List.mem_singleton.mp hrule
      exact exampleRule_reportsPlainly _ _
    rcases hcases with hsome | hrestates | hreports
    · cases hsome
    · exact hrestates
    · exact absurd hreports (not_reportsFixed hrules)
  · obtain ⟨ha, hb, hc⟩ := readText_symbolTree
    obtain ⟨paths, -, -, hcount⟩ := (counts_as_fixed_iff (symbolAnalyzer false)).2 symbolTree
      symbolEnvironment _ hwell result_run_symbolTree
    have hfiles : 0 < (([⟨"/p/a.s"⟩, ⟨"/p/b.s"⟩, ⟨"/p/c.s"⟩].filterMap
        ((symbolAnalyzer false).report? symbolTree [])).foldl
          LintResult.add {}).sorted.filesFixed := by
      rw [LintResult.filesFixed_sorted, LintResult.foldl_add]
      simp only [List.filterMap_cons, List.filterMap_nil, report?, checkFile, ha, hb, hc]
      decide +kernel
    exact ⟨hfiles, hcount.mpr (.inl hfiles)⟩

end SpecWording
