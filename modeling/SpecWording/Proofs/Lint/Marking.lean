import Mathlib.Data.List.Forall2
import SpecWording.Analysis.Analyzer
import SpecWording.Proofs.Lint.Fixing

/-!
# Marking violations

Fixing reports the same violations in the same order as a run without it and says two things more
of a violation whose finding has a replacement: the suggestion, and whether this replacement was
made. Replacements are numbered without the findings that have none, and they are judged in yet
another order. The number of a finding's own replacement (`Finding.ordinal`) is what leads from one
numbering to the other, and no mark ends up at another violation. Without a replacement a violation
stays as its rule reported it; a rule that reports plainly leaves it unmarked.
-/

namespace SpecWording

open Syntax (Node)
open Text (Edited)

namespace Violation

/-- Two violations that differ at most in the suggestion and in whether it was made. -/
def SameOffence (a b : Violation) : Prop :=
  { a with suggestion := b.suggestion, fixed := b.fixed } = b

theorem SameOffence.refl (violation : Violation) : violation.SameOffence violation := rfl

end Violation

/-- Whether a rule leaves the suggestions to its corrections, as the checker expects. -/
def Rule.ReportsPlainly (rule : Rule) : Prop :=
  ∀ file node violation, rule.check file node = some violation →
    violation.suggestion = none ∧ violation.fixed = false

variable {file : SourceFile} {finding : Finding} {found : List Finding}
  {replacement : Replacement} {index : Nat}

namespace Finding

theorem replacement?_eq_some_iff : finding.replacement? file = some replacement ↔
    finding.rule.fixable = true ∧
      finding.rule.correct file finding.violation = some replacement := by
  unfold replacement?
  split
  · next h => simp [h]
  · next h => simp [h]

/-- The number of replacements that the findings before an index have. -/
def ordinal (file : SourceFile) (found : List Finding) (index : Nat) : Nat :=
  ((found.take index).filterMap (·.replacement? file)).length

@[simp] theorem ordinal_zero : ordinal file found 0 = 0 := rfl

theorem ordinal_succ : ordinal file (finding :: found) (index + 1) =
    ordinal file found index + if (finding.replacement? file).isSome then 1 else 0 := by
  unfold ordinal
  rw [List.take_succ_cons, List.filterMap_cons]
  cases finding.replacement? file <;> rfl

/-- A finding with a replacement finds it at its ordinal among all replacements. -/
theorem getElem?_replacements (hfinding : found[index]? = some finding)
    (hreplacement : finding.replacement? file = some replacement) :
    (found.filterMap (·.replacement? file))[ordinal file found index]? = some replacement := by
  induction found generalizing index with
  | nil => cases hfinding
  | cons first others ih =>
    cases index with
    | zero =>
      obtain rfl : first = finding := Option.some.inj hfinding
      rw [List.filterMap_cons, hreplacement]
      rfl
    | succ index =>
      have hothers := ih hfinding
      rw [ordinal_succ, List.filterMap_cons]
      cases hfirst : first.replacement? file with
      | none => exact hothers
      | some _ => exact hothers

/-- The violation of a finding as fixing reports it, given whether its replacement was made. -/
def marked (file : SourceFile) (finding : Finding) (made : Bool) : Violation :=
  match finding.replacement? file with
  | none => finding.violation
  | some replacement =>
    { finding.violation with suggestion := some replacement.suggestion, fixed := made }

theorem marked_of_none {made : Bool} (h : finding.replacement? file = none) :
    finding.marked file made = finding.violation := by
  rw [marked, h]

theorem marked_of_some {made : Bool} (h : finding.replacement? file = some replacement) :
    finding.marked file made =
      { finding.violation with suggestion := some replacement.suggestion, fixed := made } := by
  rw [marked, h]

/-- Every finding takes the flag at its own ordinal. -/
theorem getElem?_mark (flags : List Bool) : (mark file found flags)[index]? =
    found[index]?.map fun finding ↦
      finding.marked file (flags[ordinal file found index]?.getD false) := by
  induction found generalizing index flags with
  | nil => rfl
  | cons first others ih =>
    cases hfirst : first.replacement? file with
    | none =>
      rw [mark, hfirst]
      cases index with
      | zero => simp [marked_of_none hfirst]
      | succ index => simp [ih, ordinal_succ, hfirst]
    | some replacement =>
      rw [mark, hfirst]
      cases index with
      | zero => simp [marked_of_some hfirst, List.head?_eq_getElem?]
      | succ index => simp [ih, ordinal_succ, hfirst]

/-- A violation counts as fixed by a flag, or because a rule without a replacement says so. -/
theorem exists_fixed_mark {flags : List Bool}
    (hflags : flags.length = (found.filterMap (·.replacement? file)).length) :
    (∃ violation ∈ mark file found flags, violation.fixed = true) ↔
      (∃ finding ∈ found, finding.replacement? file = none ∧ finding.violation.fixed = true) ∨
        true ∈ flags := by
  induction found generalizing flags with
  | nil =>
    rw [List.filterMap_nil, List.length_nil, List.length_eq_zero_iff] at hflags
    simp [mark, hflags]
  | cons first others ih =>
    rw [mark]
    cases hfirst : first.replacement? file with
    | none =>
      rw [List.filterMap_cons, hfirst] at hflags
      simp only [List.exists_mem_cons_iff, ih hflags, hfirst, true_and, or_assoc]
    | some replacement =>
      rw [List.filterMap_cons, hfirst] at hflags
      obtain ⟨flag, rest, rfl⟩ := List.exists_cons_of_length_eq_add_one hflags
      have hothers := ih (Nat.succ.inj hflags)
      cases flag <;> simp [hothers, hfirst]

theorem mark_sameOffence (flags : List Bool) :
    List.Forall₂ Violation.SameOffence (mark file found flags) (found.map (·.violation)) := by
  induction found generalizing flags with
  | nil => exact .nil
  | cons first others ih =>
    rw [mark, List.map_cons]
    cases first.replacement? file with
    | none => exact .cons (.refl _) (ih flags)
    | some replacement => exact .cons rfl (ih flags.tail)

end Finding

/-! ## With fixing and without -/

theorem exists_rule_of_mem_findings {rules : List Rule} {config : Config} {tree : Node}
    (h : finding ∈ findings rules config file tree) :
    finding.rule ∈ rules ∧ ∃ node ∈ tree.walk, ∃ violation,
      finding.rule.check file node = some violation ∧
      finding.violation = violation.withSeverity (config.severity? finding.rule.name) := by
  obtain ⟨node, hwalk, hnode⟩ := List.mem_flatMap.mp h
  obtain ⟨rule, hrule, hmap⟩ := List.mem_filterMap.mp hnode
  obtain ⟨violation, hcheck, rfl⟩ := Option.map_eq_some_iff.mp hmap
  exact ⟨List.mem_of_mem_filter hrule, node, hwalk, violation, hcheck, rfl⟩

@[simp] theorem Violation.suggestion_withSeverity (violation : Violation)
    (severity? : Option Severity) :
    (violation.withSeverity severity?).suggestion = violation.suggestion := by
  cases severity? <;> rfl

@[simp] theorem Violation.fixed_withSeverity (violation : Violation)
    (severity? : Option Severity) :
    (violation.withSeverity severity?).fixed = violation.fixed := by
  cases severity? <;> rfl

/-- A finding has the marks that its rule reported at some node of the tree. -/
theorem exists_check_of_mem_findings {rules : List Rule} {config : Config} {tree : Node}
    (h : finding ∈ findings rules config file tree) :
    ∃ node ∈ tree.walk, ∃ reported, finding.rule.check file node = some reported ∧
      finding.violation.suggestion = reported.suggestion ∧
      finding.violation.fixed = reported.fixed := by
  obtain ⟨-, node, hwalk, reported, hcheck, heq⟩ := exists_rule_of_mem_findings h
  refine ⟨node, hwalk, reported, hcheck, ?_, ?_⟩
  · rw [heq, Violation.suggestion_withSeverity]
  · rw [heq, Violation.fixed_withSeverity]

theorem Rule.ReportsPlainly.of_mem_findings {rules : List Rule} {config : Config} {tree : Node}
    (hrule : finding.rule.ReportsPlainly) (h : finding ∈ findings rules config file tree) :
    finding.violation.suggestion = none ∧ finding.violation.fixed = false := by
  obtain ⟨node, -, reported, hcheck, hsuggestion, hfixed⟩ := exists_check_of_mem_findings h
  rw [hsuggestion, hfixed]
  exact hrule file node reported hcheck

/-- For every replacement of a list of findings, whether it was made. -/
def madeFlags (file : SourceFile) (found : List Finding) : List Bool :=
  (applyReplacements file.content (found.filterMap (·.replacement? file))).flags

section Position

variable {after : Violation} (hfinding : found[index]? = some finding)
  (hafter : (fixAll file found).violations[index]? = some after)

include hfinding hafter

theorem eq_marked_of_getElem? :
    after = finding.marked file ((madeFlags file found)[Finding.ordinal file found index]?.getD
      false) := by
  have hviolations : (fixAll file found).violations =
      Finding.mark file found (madeFlags file found) := rfl
  rw [hviolations, Finding.getElem?_mark, hfinding, Option.map_some, Option.some.injEq] at hafter
  exact hafter.symm

/-- A finding with a replacement gets it suggested, and the flag of this replacement. -/
theorem marks_of_replacement? (hreplacement : finding.replacement? file = some replacement) :
    after.suggestion = some replacement.suggestion ∧
      (found.filterMap (·.replacement? file))[Finding.ordinal file found index]? =
        some replacement ∧
      (madeFlags file found)[Finding.ordinal file found index]? = some after.fixed := by
  have hown := Finding.getElem?_replacements hfinding hreplacement
  have hlt : Finding.ordinal file found index < (madeFlags file found).length := by
    rw [madeFlags, length_flags_applyReplacements]
    exact (List.getElem?_eq_some_iff.mp hown).1
  have hmarked := eq_marked_of_getElem? hfinding hafter
  rw [Finding.marked_of_some hreplacement, List.getElem?_eq_getElem hlt, Option.getD_some]
    at hmarked
  subst hmarked
  exact ⟨rfl, hown, List.getElem?_eq_getElem hlt⟩

/-- A finding without a replacement is reported as its rule reported it. -/
theorem eq_violation_of_replacement? (hreplacement : finding.replacement? file = none) :
    after = finding.violation := by
  rw [eq_marked_of_getElem? hfinding hafter, Finding.marked_of_none hreplacement]

theorem suggestion_isSome_iff (hplain : finding.violation.suggestion = none) :
    after.suggestion.isSome = true ↔
      ∃ replacement, finding.replacement? file = some replacement := by
  cases hreplacement : finding.replacement? file with
  | none => simp [eq_violation_of_replacement? hfinding hafter hreplacement, hplain]
  | some replacement => simp [(marks_of_replacement? hfinding hafter hreplacement).1]

theorem fixed_iff (hplain : finding.violation.fixed = false) :
    after.fixed = true ↔ ∃ replacement, finding.replacement? file = some replacement ∧
      (found.filterMap (·.replacement? file))[Finding.ordinal file found index]? =
        some replacement ∧
      (madeFlags file found)[Finding.ordinal file found index]? = some true := by
  cases hreplacement : finding.replacement? file with
  | none => simp [eq_violation_of_replacement? hfinding hafter hreplacement, hplain]
  | some replacement =>
    obtain ⟨-, hown, hflag⟩ := marks_of_replacement? hfinding hafter hreplacement
    rw [hown, hflag]
    simp

end Position

/-- Fixing changes no report but for the marks. It marks a violation by its own replacement, and one
without a replacement keeps the marks of its rule. -/
theorem checkText_marks_own_replacement (analyzer : Analyzer) (path : Path) (content : String) :
    match analyzer.language.parse content with
    | .error reason =>
      { analyzer with fix := false }.checkText path content = .error (.unparsable path reason) ∧
        { analyzer with fix := true }.checkText path content = .error (.unparsable path reason)
    | .ok tree =>
      let file := SourceFile.inProject analyzer.root path content
      let found := findings analyzer.rules analyzer.config file tree
      let replacements := found.filterMap (·.replacement? file)
      let made := (applyReplacements content replacements).flags
      ∃ plain fixing : SourceReport,
        { analyzer with fix := false }.checkText path content = .ok plain ∧
        { analyzer with fix := true }.checkText path content = .ok fixing ∧
        plain.violations = found.map (·.violation) ∧ plain.corrected = none ∧
        List.Forall₂ Violation.SameOffence fixing.violations plain.violations ∧
        made.length = replacements.length ∧
        ∀ index finding before after, found[index]? = some finding →
          plain.violations[index]? = some before → fixing.violations[index]? = some after →
          (∃ node ∈ tree.walk, ∃ reported, finding.rule.check file node = some reported ∧
            before.suggestion = reported.suggestion ∧ before.fixed = reported.fixed) ∧
          (∀ replacement, finding.replacement? file = some replacement →
            after.suggestion = some replacement.suggestion ∧
            replacements[Finding.ordinal file found index]? = some replacement ∧
            made[Finding.ordinal file found index]? = some after.fixed) ∧
          (finding.replacement? file = none → after = before) ∧
          (finding.rule.ReportsPlainly →
            before.suggestion = none ∧ before.fixed = false ∧
            (after.suggestion.isSome = true ↔ finding.rule.fixable = true ∧
              ∃ replacement, finding.rule.correct file finding.violation = some replacement) ∧
            (after.fixed = true ↔ finding.rule.fixable = true ∧
              ∃ replacement, finding.rule.correct file finding.violation = some replacement ∧
                replacements[Finding.ordinal file found index]? = some replacement ∧
                made[Finding.ordinal file found index]? = some true)) := by
  cases hparse : analyzer.language.parse content with
  | error reason => simp [Analyzer.checkText, hparse]
  | ok tree =>
    dsimp -zeta only
    intro file found replacements made
    have hmade : made = madeFlags file found := by
      rw [madeFlags, SourceFile.content_inProject]
    refine ⟨{ violations := found.map (·.violation) }, fixAll file found, ?_, ?_, rfl, rfl,
      Finding.mark_sameOffence _, length_flags_applyReplacements _ _, ?_⟩
    · simp only [Analyzer.checkText, hparse, checkTree]
      rfl
    · simp only [Analyzer.checkText, hparse, checkTree]
      rfl
    · intro index finding before after hfinding hbefore hafter
      have hmem : finding ∈ found := List.mem_of_getElem? hfinding
      obtain rfl : finding.violation = before := by
        simpa [hfinding] using hbefore
      rw [hmade]
      refine ⟨exists_check_of_mem_findings hmem, ?_,
        eq_violation_of_replacement? hfinding hafter, ?_⟩
      · exact fun replacement ↦ marks_of_replacement? hfinding hafter
      · intro hrule
        obtain ⟨hsuggestion, hfixed⟩ := hrule.of_mem_findings hmem
        rw [suggestion_isSome_iff hfinding hafter hsuggestion, fixed_iff hfinding hafter hfixed]
        refine ⟨hsuggestion, hfixed, ?_, ?_⟩
        · simp [Finding.replacement?_eq_some_iff]
        · simp [Finding.replacement?_eq_some_iff, replacements, and_assoc]

/-- Reports every symbol, with or without a new text for it. -/
def symbolRule (fixable : Bool) (newText? : Option String) : Rule where
  name := "symbols"
  code := "S001"
  fixable := fixable
  check file node := do
    let .symbol range := node | none
    let span ← file.span? range
    return ⟨"S001", "symbols", .error, file.location span, "a symbol", none, false⟩
  correct _ violation := newText?.map (⟨violation.location, ·⟩)

theorem symbolRule_reportsPlainly (fixable : Bool) (newText? : Option String) :
    (symbolRule fixable newText?).ReportsPlainly := by
  intro file node violation h
  simp only [symbolRule, Option.bind_eq_bind] at h
  split at h
  · obtain ⟨span, -, heq⟩ := Option.bind_eq_some_iff.mp h
    cases heq
    exact ⟨rfl, rfl⟩
  · cases h

/-- Two symbols that overlap, each reported by a rule without corrections, by one that declines to
correct and by one that corrects. -/
def overlappingAnalyzer : Analyzer where
  root := ⟨"/project"⟩
  language := ⟨"symbols", ["s"], fun _ ↦
    .ok (.other "program" [.symbol ⟨0, 3⟩, .symbol ⟨2, 4⟩] ⟨0, 4⟩)⟩
  rules := [symbolRule false (some "x"), symbolRule true none, symbolRule true (some "x")]
  excluded := []
  included := []
  config := {}
  fix := true
  strict := false

def overlappingFile : SourceFile :=
  SourceFile.inProject overlappingAnalyzer.root ⟨"/project/a.s"⟩ "abcd"

def overlappingFindings : List Finding :=
  findings overlappingAnalyzer.rules overlappingAnalyzer.config overlappingFile
    (.other "program" [.symbol ⟨0, 3⟩, .symbol ⟨2, 4⟩] ⟨0, 4⟩)

/-- The replacement of the second symbol begins within the first one. -/
theorem madeFlags_overlapping :
    madeFlags overlappingFile overlappingFindings = [true, false] := by
  have hedits : (overlappingFindings.filterMap (·.replacement? overlappingFile)).map
      Replacement.edit = [⟨0, 3, "x"⟩, ⟨2, 2, "x"⟩] := by
    decide +kernel
  have horder : Text.Edit.inOrder [⟨0, 3, "x"⟩, ⟨2, 2, "x"⟩] =
      [(⟨0, 3, "x"⟩, 0), (⟨2, 2, "x"⟩, 1)] :=
    List.mergeSort_of_pairwise (by decide)
  rw [madeFlags, applyReplacements, hedits, Text.applyEdits, horder]
  decide +kernel

theorem checkText_marks_overlapping : (∀ rule ∈ overlappingAnalyzer.rules, rule.ReportsPlainly) ∧
    ∃ plain fixing : SourceReport,
      { overlappingAnalyzer with fix := false }.checkText ⟨"/project/a.s"⟩ "abcd" = .ok plain ∧
      overlappingAnalyzer.checkText ⟨"/project/a.s"⟩ "abcd" = .ok fixing ∧
      plain.violations.length = 6 ∧
      List.Forall₂ Violation.SameOffence fixing.violations plain.violations ∧
      ∃ before after, plain.violations[5]? = some before ∧ fixing.violations[5]? = some after ∧
        before.suggestion = none ∧ after.suggestion.isSome = true ∧ after.fixed = false := by
  have hrules : ∀ rule ∈ overlappingAnalyzer.rules, rule.ReportsPlainly := by
    intro rule hrule
    simp only [overlappingAnalyzer, List.mem_cons, List.not_mem_nil, or_false] at hrule
    rcases hrule with rfl | rfl | rfl <;> exact symbolRule_reportsPlainly _ _
  obtain ⟨plain, fixing, hplain, hfixing, hviolations, -, hsame, -, hmarks⟩ :=
    checkText_marks_own_replacement overlappingAnalyzer ⟨"/project/a.s"⟩ "abcd"
  have hlength : plain.violations.length = 6 := by
    rw [hviolations, List.length_map]
    decide +kernel
  have hlast : (overlappingFindings[5]?.map fun finding ↦ (finding.rule.fixable,
      (finding.rule.correct overlappingFile finding.violation).isSome)) = some (true, true) := by
    decide +kernel
  obtain ⟨finding, hfinding, hcorrects⟩ := Option.map_eq_some_iff.mp hlast
  obtain ⟨hfixable, hcorrect⟩ := Prod.mk.inj hcorrects
  have hbefore : 5 < plain.violations.length := by
    rw [hlength]
    decide
  have hafter : 5 < fixing.violations.length := by
    rw [hsame.length_eq]
    exact hbefore
  obtain ⟨-, -, -, hown⟩ := hmarks 5 finding _ _ hfinding (List.getElem?_eq_getElem hbefore)
    (List.getElem?_eq_getElem hafter)
  have hrule : finding.rule ∈ overlappingAnalyzer.rules :=
    (exists_rule_of_mem_findings (List.mem_of_getElem? hfinding)).1
  obtain ⟨hunmarked, -, hsuggestion, hfixed⟩ := hown (hrules _ hrule)
  refine ⟨hrules, plain, fixing, hplain, hfixing, hlength, hsame, _, _,
    List.getElem?_eq_getElem hbefore, List.getElem?_eq_getElem hafter, hunmarked,
    hsuggestion.mpr ⟨hfixable, Option.isSome_iff_exists.mp hcorrect⟩, ?_⟩
  have hordinal : Finding.ordinal overlappingFile overlappingFindings 5 = 1 := by
    decide +kernel
  have hskipped : (madeFlags overlappingFile overlappingFindings)[
      Finding.ordinal overlappingFile overlappingFindings 5]? ≠ some true := by
    rw [madeFlags_overlapping, hordinal]
    decide
  rw [Bool.eq_false_iff, ne_eq, hfixed]
  rintro ⟨-, replacement, -, -, hflag⟩
  exact hskipped hflag

/-- Reports every symbol as corrected already, with a suggestion of its own. -/
def markingRule : Rule where
  name := "symbols"
  code := "S001"
  check file node := ((symbolRule false none).check file node).map fun violation ↦
    { violation with suggestion := some ⟨"rename it", none⟩, fixed := true }

/-- Reads a text as one symbol, unless it is empty. -/
def markingAnalyzer (fix : Bool) : Analyzer where
  root := ⟨"/project"⟩
  language := ⟨"symbols", ["s"], fun content ↦
    if content.isEmpty then .error "no symbol" else .ok (.symbol ⟨0, 1⟩)⟩
  rules := [markingRule]
  excluded := []
  included := []
  config := {}
  fix := fix
  strict := false

/-- A rule that may not correct marks its own reports, and fixing leaves the marks there. Nothing is
reported for a text that cannot be parsed. -/
theorem checkText_keeps_marks :
    markingRule.fixable = false ∧
    (∃ plain fixing : SourceReport,
      (markingAnalyzer false).checkText ⟨"/project/a.s"⟩ "a" = .ok plain ∧
      (markingAnalyzer true).checkText ⟨"/project/a.s"⟩ "a" = .ok fixing ∧
      plain.violations.map (·.rule) = ["symbols"] ∧
      (∀ before ∈ plain.violations, before.suggestion.isSome = true ∧ before.fixed = true) ∧
      fixing.violations = plain.violations ∧ fixing.corrected = none) ∧
    (markingAnalyzer false).checkText ⟨"/project/a.s"⟩ "" =
      .error (.unparsable ⟨"/project/a.s"⟩ "no symbol") ∧
    (markingAnalyzer true).checkText ⟨"/project/a.s"⟩ "" =
      .error (.unparsable ⟨"/project/a.s"⟩ "no symbol") := by
  refine ⟨rfl, ?_, rfl, rfl⟩
  refine ⟨_, _, rfl, rfl, ?_, ?_, ?_, ?_⟩
  · decide +kernel
  · decide +kernel
  · decide +kernel
  · decide +kernel

end SpecWording
