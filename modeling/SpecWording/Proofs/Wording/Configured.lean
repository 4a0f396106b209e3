import SpecWording.Proofs.Analysis.Building
import SpecWording.Proofs.Wording.Autocorrection

/-!
# The configured rules and the default ones

A configuration is applied twice: to the rules when they are made from it, and to every violation
when an analyzer has it. What the second application does, the first has no say in. A disabled rule
is passed over whether or not it is among the rules, and a configured severity takes the place of
whatever severity the rule has. The word tables are read by corrections only. So without fixing the
rules of a configuration and the default rules lead to the same reports.
-/

namespace SpecWording

open Syntax (Node)

/-- The analyzer with other rules. -/
def Analyzer.withRules (analyzer : Analyzer) (rules : List Rule) : Analyzer :=
  { analyzer with rules := rules }

namespace AnalysisRequest

/-- The request with other rules. -/
def withRules (request : AnalysisRequest) (rules : List Rule) : AnalysisRequest :=
  { request with rules := rules }

/-- The rules have no say in whether an analyzer can be built. -/
theorem build_withRules (request : AnalysisRequest) (rules : List Rule) (here : Path) :
    (request.withRules rules).build here = (request.build here).map (·.withRules rules) := by
  unfold build
  dsimp only [withRules, rootPath]
  cases request.language with
  | none => rfl
  | some language =>
    dsimp only
    cases parseGlobs (request.excluded ++
        ((request.config.map (·.files)).map (·.excluded)).getD []) with
    | error cause => rfl
    | ok excluded =>
      cases parseGlobs (request.included ++
          ((request.config.map (·.files)).map (·.included)).getD []) <;> rfl

end AnalysisRequest

namespace Analyzer

variable {analyzer : Analyzer} {rules : List Rule}

/-- Other rules make no difference if they report the same of every tree. -/
theorem run_withRules
    (h : ∀ file tree, checkTree rules analyzer.config analyzer.fix file tree =
      checkTree analyzer.rules analyzer.config analyzer.fix file tree) :
    (analyzer.withRules rules).checkText = analyzer.checkText ∧
      (analyzer.withRules rules).run = analyzer.run := by
  have htext : (analyzer.withRules rules).checkText = analyzer.checkText := by
    funext path content
    simp only [checkText, withRules, h]
  have hcheck : (analyzer.withRules rules).checkFile = analyzer.checkFile := by
    funext tree directory path
    rw [checkFile, checkFile, htext]
  exact ⟨htext, run_congr rfl rfl hcheck rfl⟩

end Analyzer

namespace Wording

variable {severity : Severity} {tables : WordTables} {config : Config} {rules : List Rule}
  {file : SourceFile} {tree : Node}

/-- What a configuration wants to be reported of a tree. -/
def configuredOffences (config : Config) (file : SourceFile) (tree : Node) : List Violation :=
  if config.isEnabled ruleName then
    (flaggedSpans file.content tree).map
      (offence ((config.severity? ruleName).getD .warning) file)
  else []

theorem severity_of_mem_configuredOffences {violation : Violation}
    (h : violation ∈ configuredOffences config file tree) :
    violation.severity = (config.severity? ruleName).getD .warning := by
  unfold configuredOffences at h
  split at h
  · obtain ⟨span, -, rfl⟩ := List.mem_map.mp h
    rfl
  · cases h

/-- A configured severity takes the place of the rule's. -/
theorem withSeverity_offence (wanted : Option Severity) (span : Text.Span) :
    (offence severity file span).withSeverity wanted =
      offence (wanted.getD severity) file span := by
  cases wanted <;> rfl

/-- The severity of the rule matters only where the configuration has none. -/
theorem checkTree_exampleRule
    (hseverity : (config.severity? ruleName).getD severity =
      (config.severity? ruleName).getD .warning) :
    checkTree [exampleRule severity tables] config false file tree =
      { violations := configuredOffences config file tree } := by
  rw [checkTree, if_neg Bool.false_ne_true, configuredOffences]
  cases henabled : config.isEnabled ruleName with
  | false =>
    have hnone : findings [exampleRule severity tables] config file tree = [] := by
      simp [findings, exampleRule, henabled]
    rw [hnone, List.map_nil, if_neg Bool.false_ne_true]
  | true =>
    rw [findings_exampleRule henabled, List.map_map, if_pos rfl, ← hseverity]
    congr 1
    exact List.map_congr_left fun span _ ↦ withSeverity_offence _ span

theorem checkTree_defaultRules : checkTree defaultRules config false file tree =
    { violations := configuredOffences config file tree } :=
  checkTree_exampleRule rfl

theorem checkTree_configuredRules (hrules : configuredRules? config = some rules) :
    checkTree rules config false file tree =
      { violations := configuredOffences config file tree } := by
  rw [configuredRules?] at hrules
  split at hrules
  · obtain ⟨tables, -, heq⟩ := Option.bind_eq_some_iff.mp hrules
    obtain rfl := Option.some.inj heq
    apply checkTree_exampleRule
    cases config.severity? ruleName <;> rfl
  · next hdisabled =>
    obtain rfl := Option.some.inj hrules
    simp [checkTree, findings, configuredOffences, hdisabled]

/-- Without fixing it does not matter whether the rules of an analyzer are those of its
configuration or the default ones: either way it reports every flagged description at the configured
severity, or nothing if the configuration disables the rule. -/
theorem run_defaultRules_of_configuredRules {request : AnalysisRequest} {here : Path}
    (hrules : configuredRules? config = some rules) (hconfig : request.config = some config)
    (hfix : request.fix = false) :
    (request.withRules defaultRules).build here =
        ((request.withRules rules).build here).map (·.withRules defaultRules) ∧
      ∀ analyzer, (request.withRules rules).build here = .ok analyzer →
        (analyzer.withRules defaultRules).checkText = analyzer.checkText ∧
        (analyzer.withRules defaultRules).run = analyzer.run ∧
        ∀ path content report, analyzer.checkText path content = .ok report →
          report.corrected = none ∧
          (∀ violation ∈ report.violations,
            violation.severity = (config.severity? ruleName).getD .warning) ∧
          (config.isEnabled ruleName = false → report.violations = []) ∧
          (config.isEnabled ruleName = true → ∃ tree,
            analyzer.language.parse content = .ok tree ∧
            report.violations = (flaggedSpans content tree).map
              (offence ((config.severity? ruleName).getD .warning)
                (SourceFile.inProject analyzer.root path content))) := by
  refine ⟨?_, ?_⟩
  · rw [AnalysisRequest.build_withRules, AnalysisRequest.build_withRules request rules]
    cases request.build here <;> rfl
  intro analyzer hbuild
  obtain ⟨-, -, hbuilt, hbuiltConfig, hbuiltFix⟩ := AnalysisRequest.of_build hbuild
  replace hbuilt : analyzer.rules = rules := hbuilt
  replace hbuiltConfig : analyzer.config = config := by
    rw [hbuiltConfig, AnalysisRequest.withRules, hconfig, Option.getD_some]
  replace hbuiltFix : analyzer.fix = false := hbuiltFix.trans hfix
  have hconfigured (file : SourceFile) (tree : Node) :
      checkTree analyzer.rules analyzer.config analyzer.fix file tree =
        { violations := configuredOffences config file tree } := by
    rw [hbuilt, hbuiltConfig, hbuiltFix, checkTree_configuredRules hrules]
  have hdefault (file : SourceFile) (tree : Node) :
      checkTree defaultRules analyzer.config analyzer.fix file tree =
        checkTree analyzer.rules analyzer.config analyzer.fix file tree := by
    rw [hconfigured, hbuiltConfig, hbuiltFix, checkTree_defaultRules]
  obtain ⟨htext, hrun⟩ := Analyzer.run_withRules hdefault
  refine ⟨htext, hrun, ?_⟩
  intro path content report hreport
  rw [Analyzer.checkText] at hreport
  split at hreport
  · cases hreport
  · next tree hparse =>
    obtain rfl := Except.ok.inj hreport
    rw [hconfigured]
    refine ⟨rfl, fun violation ↦ severity_of_mem_configuredOffences, ?_, ?_⟩
    · intro hdisabled
      simp [configuredOffences, hdisabled]
    · intro henabled
      refine ⟨tree, hparse, ?_⟩
      simp [configuredOffences, henabled]

/-- A configuration without globs that has a severity and a word table for the rule. -/
def severeConfig : Config where
  files := { excluded := [], included := [] }
  rules := [(ruleName, { severity := some .error
                         options := [("CustomTransform", .table [("have", .string "own")])] })]

def severeRules : List Rule := [exampleRule .error ⟨[("have", "own")], []⟩]

def severeRequest : AnalysisRequest where
  root := some ⟨"/project"⟩
  language := some chainedAnalyzer.language
  config := some severeConfig

def severeAnalyzer : Analyzer :=
  { chainedAnalyzer with rules := severeRules, config := severeConfig, fix := false }

theorem run_defaultRules_severe : configuredRules? severeConfig = some severeRules ∧
    (severeRequest.withRules severeRules).build ⟨"/"⟩ = .ok severeAnalyzer ∧
    (severeRequest.withRules defaultRules).build ⟨"/"⟩ =
      .ok (severeAnalyzer.withRules defaultRules) ∧
    (severeAnalyzer.withRules defaultRules).run = severeAnalyzer.run ∧
    ∃ report, severeAnalyzer.checkText ⟨"/project/a_spec.rb"⟩
        "it('should a') {}.it('should b') {}" = .ok report ∧
      report.violations.map (·.severity) = List.replicate 2 .error := by
  have hrules : configuredRules? severeConfig = some severeRules := rfl
  have hsevere : (severeRequest.withRules severeRules).build ⟨"/"⟩ = .ok severeAnalyzer := rfl
  have hflagged :
      (flaggedSpans "it('should a') {}.it('should b') {}" chainedExamples).length = 2 := by
    decide +kernel
  obtain ⟨hbuild, hruns⟩ :=
    @run_defaultRules_of_configuredRules _ _ severeRequest ⟨"/"⟩ hrules rfl rfl
  rw [hsevere] at hbuild
  obtain ⟨-, hrun, hreports⟩ := hruns severeAnalyzer hsevere
  refine ⟨hrules, hsevere, hbuild, hrun, _, rfl, ?_⟩
  obtain ⟨-, hseverity, -, henabled⟩ := hreports ⟨"/project/a_spec.rb"⟩ _ _ rfl
  obtain ⟨tree, hparse, hviolations⟩ := henabled rfl
  obtain rfl := Except.ok.inj hparse
  refine List.eq_replicate_iff.mpr ⟨?_, ?_⟩
  · rw [List.length_map, hviolations, List.length_map]
    exact hflagged
  · intro severity hmem
    obtain ⟨violation, hviolation, rfl⟩ := List.mem_map.mp hmem
    exact hseverity violation hviolation

end Wording

end SpecWording
