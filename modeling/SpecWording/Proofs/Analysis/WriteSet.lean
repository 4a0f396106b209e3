import Mathlib.Data.Set.Card
import SpecWording.Proofs.Analysis.Discovery
import SpecWording.Proofs.Analysis.Writes
import SpecWording.Proofs.Lint.Marking

/-!
# The write set of a run

Which places a run changes, and to what: the places of the discovered files with a corrected text,
up to the file that ends the run if there is one. A corrected text always differs from the text that
was checked, so these places really change, and the run's result counts them.
-/

namespace SpecWording

open Discovery (comesFirst)

theorem LintResult.foldl_add (reports : List SourceReport) (result : LintResult) :
    reports.foldl .add result =
      { violations := result.violations ++ reports.flatMap (·.violations)
        filesChecked := result.filesChecked + reports.length
        filesFixed := result.filesFixed + reports.countP (·.corrected.isSome) } := by
  induction reports generalizing result with
  | nil => simp
  | cons report reports ih =>
    rw [List.foldl_cons, ih]
    cases hcorrected : report.corrected <;> simp [LintResult.add, hcorrected] <;> omega

@[simp] theorem LintResult.filesChecked_sorted (result : LintResult) :
    result.sorted.filesChecked = result.filesChecked := rfl

@[simp] theorem LintResult.filesFixed_sorted (result : LintResult) :
    result.sorted.filesFixed = result.filesFixed := rfl

namespace Analyzer

variable {analyzer : Analyzer} {tree after : FileTree} {environment : Environment}
  {directory place : Place} {path : Path} {paths : List Path} {report : SourceReport}
  {error : AnalysisError} {text : String}

/-! ## Corrected texts -/

theorem exists_tree_of_checkText {content : String}
    (h : analyzer.checkText path content = .ok report) :
    ∃ root, analyzer.language.parse content = .ok root ∧
      report = checkTree analyzer.rules analyzer.config analyzer.fix
        (SourceFile.inProject analyzer.root path content) root := by
  unfold checkText at h
  split at h
  · cases h
  · next root hparse => exact ⟨root, hparse, (Except.ok.inj h).symm⟩

theorem corrected_ne_content {rules : List Rule} {config : Config} {fix : Bool} {file : SourceFile}
    {tree : Syntax.Node} (h : (checkTree rules config fix file tree).corrected = some text) :
    text ≠ file.content := by
  unfold checkTree at h
  cases fix with
  | false => cases h
  | true =>
    obtain ⟨hne, heq⟩ := Option.ite_none_left_eq_some.mp h
    rwa [← Option.some.inj heq]

theorem corrected_ne {content : String} (h : analyzer.checkText path content = .ok report)
    (hcorrected : report.corrected = some text) : text ≠ content := by
  obtain ⟨root, -, rfl⟩ := exists_tree_of_checkText h
  have hne := corrected_ne_content hcorrected
  rwa [SourceFile.content_inProject] at hne

theorem corrected_eq_none {content : String} (hfix : analyzer.fix = false)
    (h : analyzer.checkText path content = .ok report) : report.corrected = none := by
  obtain ⟨root, -, rfl⟩ := exists_tree_of_checkText h
  rw [checkTree, hfix]
  rfl

theorem Corrects.exists_content (h : analyzer.Corrects tree directory path place text) :
    ∃ content report, tree.entry? place = some (.file content.toUTF8) ∧
      analyzer.checkText path content = .ok report ∧ report.corrected = some text := by
  obtain ⟨hlocate, content, report, hread, hcheck, hcorrected⟩ := h
  obtain ⟨place', hlocate', hentry⟩ := FileTree.readText_eq_ok_iff.mp hread
  obtain rfl : place = place' := Except.ok.inj (hlocate.symm.trans hlocate')
  exact ⟨content, report, hentry, hcheck, hcorrected⟩

/-- What is written to a place differs from what was read there. -/
theorem Corrects.entry?_ne (h : analyzer.Corrects tree directory path place text) :
    tree.entry? place ≠ some (.file text.toUTF8) := by
  obtain ⟨content, report, hentry, hcheck, hcorrected⟩ := h.exists_content
  intro hsame
  rw [hentry, Option.some.injEq, Entry.file.injEq] at hsame
  have hdecoded : String.fromUTF8? content.toUTF8 = some text :=
    FileTree.fromUTF8?_eq_some_iff.mpr hsame
  rw [FileTree.fromUTF8?_eq_some_iff.mpr rfl] at hdecoded
  exact corrected_ne hcheck hcorrected (Option.some.inj hdecoded).symm

/-- A place changes if and only if it has a corrected text. -/
theorem Rewrites.entry?_ne_iff (h : analyzer.Rewrites tree directory tree after paths) :
    after.entry? place ≠ tree.entry? place ↔
      ∃ path ∈ paths, ∃ text, analyzer.Corrects tree directory path place text := by
  constructor
  · intro hchanged
    by_contra hnone
    push Not at hnone
    exact hchanged (h.kept place hnone)
  · rintro ⟨path, hmem, text, hcorrects⟩
    rw [h.written path hmem place text hcorrects]
    exact hcorrects.entry?_ne.symm

theorem Rewrites.sameShape (h : analyzer.Rewrites tree directory tree after paths) :
    tree.SameShape after := by
  intro place
  by_cases hchanged : after.entry? place = tree.entry? place
  · exact .inl hchanged.symm
  · obtain ⟨path, hmem, text, hcorrects⟩ := h.entry?_ne_iff.mp hchanged
    obtain ⟨content, report, hentry, -⟩ := hcorrects.exists_content
    exact .inr ⟨content.toUTF8, text.toUTF8, hentry, h.written path hmem place text hcorrects⟩

/-- A file that leads elsewhere than the files gone through is as it was. -/
theorem Rewrites.readBytes (h : analyzer.Rewrites tree directory tree after paths) {other : Path}
    (hapart : ∀ path ∈ paths, tree.LeadApart directory path other) :
    after.readBytes directory other = tree.readBytes directory other := by
  symm
  apply h.sameShape.readBytes
  intro place hlocate
  symm
  apply h.kept
  intro path hmem text hcorrects
  exact hapart path hmem place hcorrects.1 hlocate

/-! ## Counting -/

/-- Whether a file can be read and parsed. -/
def parses (analyzer : Analyzer) (tree : FileTree) (directory : Place) (path : Path) : Bool :=
  match tree.readText directory path with
  | .error _ => false
  | .ok content => (analyzer.language.parse content).isOk

theorem isSome_report? : (analyzer.report? tree directory path).isSome =
    analyzer.parses tree directory path := by
  unfold report? parses checkFile checkText
  cases tree.readText directory path with
  | error cause => rfl
  | ok content => cases hparse : analyzer.language.parse content <;> simp [hparse] <;> rfl

/-- The place of a file that has a corrected text. -/
def correctedPlace? (analyzer : Analyzer) (tree : FileTree) (directory : Place) (path : Path) :
    Option Place :=
  match tree.locate directory path false, analyzer.report? tree directory path with
  | .ok place, some report => if report.corrected.isSome then some place else none
  | _, _ => none

theorem report?_eq_some_iff : analyzer.report? tree directory path = some report ↔
    analyzer.checkFile tree directory path = .ok report := by
  unfold report?
  cases analyzer.checkFile tree directory path <;> simp [Except.toOption]

theorem correctedPlace?_eq_some_iff : analyzer.correctedPlace? tree directory path = some place ↔
    ∃ text, analyzer.Corrects tree directory path place text := by
  simp only [corrects_iff, ← report?_eq_some_iff]
  unfold correctedPlace?
  cases tree.locate directory path false with
  | error cause => simp
  | ok found =>
    cases analyzer.report? tree directory path with
    | none => simp
    | some report => cases hcorrected : report.corrected <;> simp [hcorrected]

theorem isSome_correctedPlace? : (analyzer.correctedPlace? tree directory path).isSome =
    (analyzer.report? tree directory path).any (·.corrected.isSome) := by
  unfold correctedPlace?
  cases hreport : analyzer.report? tree directory path with
  | none => cases tree.locate directory path false <;> rfl
  | some report =>
    obtain ⟨place, content, hlocate, -⟩ :=
      exists_file_of_checkFile (report?_eq_some_iff.mp hreport)
    rw [hlocate]
    cases hcorrected : report.corrected <;> simp [hcorrected]

theorem countP_corrected :
    (paths.filterMap (analyzer.report? tree directory)).countP (·.corrected.isSome) =
      paths.countP fun path ↦ (analyzer.correctedPlace? tree directory path).isSome := by
  rw [List.countP_filterMap]
  simp only [isSome_correctedPlace?]
  congr 1
  funext path
  cases analyzer.report? tree directory path <;> rfl

/-- The counts of a result, by the files that were gone through. -/
theorem counts_sorted_reports :
    let result := ((paths.filterMap (analyzer.report? tree directory)).foldl LintResult.add {}).sorted
    result.filesChecked = paths.countP (analyzer.parses tree directory) ∧
      result.filesFixed =
        paths.countP fun path ↦ (analyzer.correctedPlace? tree directory path).isSome := by
  dsimp only
  rw [LintResult.filesChecked_sorted, LintResult.filesFixed_sorted, LintResult.foldl_add,
    List.length_filterMap_eq_countP, countP_corrected]
  simp only [isSome_report?, Nat.zero_add, and_self]

/-- As many places change as reports have a corrected text. -/
theorem Rewrites.ncard_changed (h : analyzer.Rewrites tree directory tree after paths)
    (hapart : paths.Pairwise (tree.LeadApart directory)) :
    {place | after.entry? place ≠ tree.entry? place}.ncard =
      (paths.filterMap (analyzer.report? tree directory)).countP (·.corrected.isSome) := by
  have hnodup : (paths.filterMap (analyzer.correctedPlace? tree directory)).Nodup := by
    apply List.Pairwise.filterMap _ _ hapart
    intro first second hfirst place hplace place' hplace'
    obtain ⟨text, hcorrects⟩ := correctedPlace?_eq_some_iff.mp hplace
    obtain ⟨text', hcorrects'⟩ := correctedPlace?_eq_some_iff.mp hplace'
    rintro rfl
    exact hfirst place hcorrects.1 hcorrects'.1
  have hset : {place | after.entry? place ≠ tree.entry? place} =
      ((paths.filterMap (analyzer.correctedPlace? tree directory)).toFinset : Set Place) := by
    ext place
    simp only [Set.mem_ofPred_eq, h.entry?_ne_iff, List.coe_toFinset, List.mem_filterMap,
      correctedPlace?_eq_some_iff]
  calc {place | after.entry? place ≠ tree.entry? place}.ncard
      = (paths.filterMap (analyzer.correctedPlace? tree directory)).length := by
        rw [hset, Set.ncard_coe_finset, List.toFinset_card_of_nodup hnodup]
    _ = paths.countP fun path ↦ (analyzer.correctedPlace? tree directory path).isSome := by
        rw [List.length_filterMap_eq_countP]
    _ = _ := countP_corrected.symm

/-! ## Runs -/

theorem run_of_discover_error (h : analyzer.discover tree environment = .error error) :
    (analyzer.run tree environment).tree = tree ∧
      (analyzer.run tree environment).result = .error error := by
  simp [run, h]

theorem run_of_discover (h : analyzer.discover tree environment = .ok paths) :
    (analyzer.run tree environment).tree =
        (analyzer.analyzeFiles environment.workingDirectory tree {} paths).tree ∧
      (analyzer.run tree environment).result =
        (analyzer.analyzeFiles environment.workingDirectory tree {} paths).result.map .sorted := by
  unfold run
  rw [h]
  cases hresult : (analyzer.analyzeFiles environment.workingDirectory tree {} paths).result <;>
    simp [Outcome.after, hresult, Except.map]

/-- Without fixing no file changes. -/
theorem tree_analyzeFiles_of_fix (hfix : analyzer.fix = false) (result : LintResult) :
    (analyzer.analyzeFiles directory tree result paths).tree = tree := by
  induction paths generalizing result with
  | nil => rfl
  | cons path paths ih =>
    rcases checkFile_cases analyzer tree directory path with
      ⟨error, herror⟩ | ⟨report, hreport⟩ | ⟨named, reason, hunparsable, hstrict⟩
    · exact (analyzeFiles_of_stop? herror _ _).1
    · obtain ⟨place, content, hlocate, hentry⟩ := exists_file_of_checkFile hreport
      obtain ⟨read, -, hcheck⟩ := checkFile_eq_ok_iff.mp hreport
      rw [(analyzeFiles_of_report hreport hlocate hentry _ _).1, corrected_eq_none hfix hcheck]
      exact ih _
    · rw [(analyzeFiles_of_unparsable hunparsable hstrict _ _).1]
      exact ih _

/-- A file ends a run if it cannot be read as a text, or not be parsed while this is not allowed. -/
theorem stop?_eq_some_iff : analyzer.stop? tree directory path = some error ↔
    (∃ cause, tree.readText directory path = .error cause ∧ error = .unreadable cause) ∨
      analyzer.strict = true ∧ ∃ content reason, tree.readText directory path = .ok content ∧
        analyzer.language.parse content = .error reason ∧ error = .unparsable path reason := by
  unfold stop? checkFile checkText
  cases tree.readText directory path with
  | error cause => simp [eq_comm (a := error)]
  | ok content =>
    cases hparse : analyzer.language.parse content with
    | error reason => cases analyzer.strict <;> simp [hparse, eq_comm (a := error)]
    | ok tree => simp [hparse]

theorem passed_of_findSome?_eq_none
    (h : paths.findSome? (analyzer.stop? tree directory) = none) :
    analyzer.passed tree directory paths = paths := by
  rw [List.findSome?_eq_none_iff] at h
  have hall : ∀ path ∈ paths, (analyzer.stop? tree directory path).isNone = true := by
    intro path hmem
    rw [h path hmem, Option.isNone_none]
  rw [passed, ← List.append_nil paths, List.takeWhile_append_of_pos (by simpa using hall),
    List.takeWhile_nil]

/-- The file that ends a run stands right behind the files gone through. -/
theorem exists_split_of_findSome?
    (h : paths.findSome? (analyzer.stop? tree directory) = some error) :
    ∃ path later, paths = analyzer.passed tree directory paths ++ path :: later ∧
      analyzer.stop? tree directory path = some error := by
  obtain ⟨before, path, later, rfl, hstop, hbefore⟩ := List.findSome?_eq_some_iff.mp h
  have hpassed : analyzer.passed tree directory (before ++ path :: later) = before := by
    rw [passed, List.takeWhile_append_of_pos (by simpa using hbefore),
      List.takeWhile_cons_of_neg (by simp [hstop]), List.append_nil]
  exact ⟨path, later, by rw [hpassed], hstop⟩

section Discovered

variable {result : LintResult} (hdiscover : analyzer.discover tree environment = .ok paths)
  (hapart : paths.Pairwise (tree.LeadApart environment.workingDirectory))

include hdiscover hapart

/-- A run ends at the first file that ends it, and gives the reports on all files otherwise. -/
theorem result_run : (analyzer.run tree environment).result =
    match paths.findSome? (analyzer.stop? tree environment.workingDirectory) with
    | some error => .error error
    | none => .ok ((paths.filterMap
        (analyzer.report? tree environment.workingDirectory)).foldl LintResult.add {}).sorted := by
  rw [(run_of_discover hdiscover).2,
    (analyzeFiles_rewrites (.refl tree) hapart (fun _ _ _ _ ↦ rfl) {}).1]
  cases paths.findSome? (analyzer.stop? tree environment.workingDirectory) <;> rfl

theorem rewrites_run : analyzer.Rewrites tree environment.workingDirectory tree
    (analyzer.run tree environment).tree
    (analyzer.passed tree environment.workingDirectory paths) := by
  rw [(run_of_discover hdiscover).1]
  exact (analyzeFiles_rewrites (.refl tree) hapart (fun _ _ _ _ ↦ rfl) {}).2

/-- No discovered file ends a run that gives a result. -/
theorem findSome?_stop?_of_run (h : (analyzer.run tree environment).result = .ok result) :
    paths.findSome? (analyzer.stop? tree environment.workingDirectory) = none := by
  rw [result_run hdiscover hapart] at h
  cases hstop : paths.findSome? (analyzer.stop? tree environment.workingDirectory) with
  | none => rfl
  | some error =>
    rw [hstop] at h
    cases h

/-- A run that gives a result has gone through all discovered files. -/
theorem exists_of_run_eq_ok (h : (analyzer.run tree environment).result = .ok result) :
    result = ((paths.filterMap
        (analyzer.report? tree environment.workingDirectory)).foldl LintResult.add {}).sorted ∧
      analyzer.Rewrites tree environment.workingDirectory tree
        (analyzer.run tree environment).tree paths := by
  have hstop := findSome?_stop?_of_run hdiscover hapart h
  have hrewrites := rewrites_run hdiscover hapart
  rw [passed_of_findSome?_eq_none hstop] at hrewrites
  rw [result_run hdiscover hapart, hstop] at h
  exact ⟨(Except.ok.inj h).symm, hrewrites⟩

/-- A run that a discovered file ends has gone through the files before. -/
theorem exists_of_run_eq_error (h : (analyzer.run tree environment).result = .error error) :
    ∃ before path later, paths = before ++ path :: later ∧
      analyzer.stop? tree environment.workingDirectory path = some error ∧
      analyzer.Rewrites tree environment.workingDirectory tree
        (analyzer.run tree environment).tree before := by
  rw [result_run hdiscover hapart] at h
  cases hstop : paths.findSome? (analyzer.stop? tree environment.workingDirectory) with
  | none =>
    rw [hstop] at h
    cases h
  | some cause =>
    rw [hstop] at h
    obtain rfl : cause = error := Except.error.inj h
    obtain ⟨path, later, hpaths, hpath⟩ := exists_split_of_findSome? hstop
    exact ⟨_, path, later, hpaths, hpath, rewrites_run hdiscover hapart⟩

end Discovered

/-- A run writes the corrected texts of the files it goes through and nothing else, and counts what
it wrote. It goes through all discovered files, or through those before the one that ends it. -/
theorem run_write_set (analyzer : Analyzer) (tree : FileTree) (environment : Environment)
    (hapart : ∀ paths, analyzer.discover tree environment = .ok paths →
      paths.Pairwise (tree.LeadApart environment.workingDirectory)) :
    let directory := environment.workingDirectory
    let outcome := analyzer.run tree environment
    (analyzer.fix = false → outcome.tree = tree) ∧
    (∀ result, outcome.result = .ok result →
      ∃ paths, analyzer.discover tree environment = .ok paths ∧
        (∀ place, outcome.tree.entry? place ≠ tree.entry? place ↔
          ∃ path ∈ paths, ∃ text, analyzer.Corrects tree directory path place text) ∧
        (∀ path ∈ paths, ∀ place text, analyzer.Corrects tree directory path place text →
          outcome.tree.entry? place = some (.file text.toUTF8)) ∧
        result.filesChecked = paths.countP (analyzer.parses tree directory) ∧
        result.filesFixed = {place | outcome.tree.entry? place ≠ tree.entry? place}.ncard) ∧
    (∀ error, outcome.result = .error error →
      (analyzer.discover tree environment = .error error ∧ outcome.tree = tree) ∨
      ∃ before path later, analyzer.discover tree environment = .ok (before ++ path :: later) ∧
        (before ++ path :: later).Pairwise (fun a b ↦ comesFirst a b = true) ∧
        ((∃ cause, tree.readText directory path = .error cause ∧ error = .unreadable cause) ∨
          analyzer.strict = true ∧ ∃ content reason, tree.readText directory path = .ok content ∧
            analyzer.language.parse content = .error reason ∧ error = .unparsable path reason) ∧
        (∀ place, outcome.tree.entry? place ≠ tree.entry? place ↔
          ∃ path ∈ before, ∃ text, analyzer.Corrects tree directory path place text) ∧
        (∀ path ∈ before, ∀ place text, analyzer.Corrects tree directory path place text →
          outcome.tree.entry? place = some (.file text.toUTF8)) ∧
        ∀ other ∈ path :: later, outcome.tree.readBytes directory other =
          tree.readBytes directory other) := by
  intro directory outcome
  refine ⟨?_, ?_, ?_⟩
  · intro hfix
    cases hdiscover : analyzer.discover tree environment with
    | error error => exact (run_of_discover_error hdiscover).1
    | ok paths => exact (run_of_discover hdiscover).1.trans (tree_analyzeFiles_of_fix hfix _)
  · intro result hresult
    cases hdiscover : analyzer.discover tree environment with
    | error error => cases (run_of_discover_error hdiscover).2.symm.trans hresult
    | ok paths =>
      have happart := hapart paths hdiscover
      obtain ⟨rfl, hrewrites⟩ := exists_of_run_eq_ok hdiscover happart hresult
      obtain ⟨hchecked, hfixed⟩ := counts_sorted_reports
      refine ⟨paths, rfl, fun place ↦ hrewrites.entry?_ne_iff, hrewrites.written, hchecked, ?_⟩
      rw [hfixed, hrewrites.ncard_changed happart, countP_corrected]
  · intro error hresult
    cases hdiscover : analyzer.discover tree environment with
    | error cause =>
      obtain ⟨htree, hcause⟩ := run_of_discover_error hdiscover
      exact .inl ⟨congrArg _ (Except.error.inj (hcause.symm.trans hresult)), htree⟩
    | ok paths =>
      have happart := hapart paths hdiscover
      obtain ⟨before, path, later, rfl, hstop, hrewrites⟩ :=
        exists_of_run_eq_error hdiscover happart hresult
      refine .inr ⟨before, path, later, rfl, pairwise_discover hdiscover,
        stop?_eq_some_iff.mp hstop, fun place ↦ hrewrites.entry?_ne_iff, hrewrites.written, ?_⟩
      intro other hother
      apply hrewrites.readBytes
      intro passed hpassed
      exact (List.pairwise_append.mp happart).2.2 passed hpassed other hother

end Analyzer

/-! ## A run that a file in the middle ends -/

/-- A language in which the first three bytes of a text are a symbol, and an exclamation mark alone
is no text. -/
def symbolLanguage : Language where
  name := "symbols"
  extensions := ["s"]
  parse text :=
    if text = "!" then .error "no symbol" else .ok (.other "program" [.symbol ⟨0, 3⟩] ⟨0, 3⟩)

def symbolAnalyzer (strict : Bool) : Analyzer where
  root := ⟨"/p"⟩
  language := symbolLanguage
  rules := [symbolRule true (some "x")]
  excluded := []
  included := []
  config := { files := { respectGitignore := false } }
  fix := true
  strict := strict

def symbolTree : FileTree :=
  ⟨[(["p"], .directory), (["p", "a.s"], .file "abcd".toUTF8), (["p", "b.s"], .file "!".toUTF8),
    (["p", "c.s"], .file "abcd".toUTF8)]⟩

def symbolEnvironment : Environment where
  workingDirectory := []

theorem wellFormed_symbolTree : symbolTree.WellFormed := by decide

theorem locate_symbolRoot : symbolTree.locate [] ⟨"/p"⟩ false = .ok ["p"] := by
  have hjoin : (⟨"/"⟩ : Path).join ⟨"p"⟩ = ⟨"/p"⟩ := by decide
  have hentry : symbolTree.entry? ([] ++ ["p"]) = some .directory := by decide
  rw [← hjoin]
  exact FileTree.locate_join (FileTree.locate_root _ _) (by decide) (by decide)
    hentry nofun

theorem locate_symbolTree : symbolTree.locate [] ⟨"/p/a.s"⟩ false = .ok ["p", "a.s"] ∧
    symbolTree.locate [] ⟨"/p/b.s"⟩ false = .ok ["p", "b.s"] ∧
    symbolTree.locate [] ⟨"/p/c.s"⟩ false = .ok ["p", "c.s"] := by
  have hlocate (name content : String)
      (hentry : symbolTree.entry? (["p"] ++ [name]) = some (.file content.toUTF8)) :=
    Discovery.locate_pathOf wellFormed_symbolTree locate_symbolRoot hentry nofun
  have ha : Discovery.pathOf ⟨"/p"⟩ ["a.s"] = ⟨"/p/a.s"⟩ := by decide
  have hb : Discovery.pathOf ⟨"/p"⟩ ["b.s"] = ⟨"/p/b.s"⟩ := by decide
  have hc : Discovery.pathOf ⟨"/p"⟩ ["c.s"] = ⟨"/p/c.s"⟩ := by decide
  rw [← ha, ← hb, ← hc]
  exact ⟨hlocate "a.s" "abcd" (by decide), hlocate "b.s" "!" (by decide),
    hlocate "c.s" "abcd" (by decide)⟩

theorem read_symbolTree : Ignore.Level.read symbolTree false [] = { directory := [] } ∧
    Ignore.Level.read symbolTree false ["p"] = { directory := ["p"] } := by
  have hname : Path.IsName ".ignore" := by decide
  have habove : symbolTree.locate [] Ignore.generalFile false = .error .missing :=
    FileTree.locate_name_eq_missing hname (by decide) (by decide)
  have hroot : symbolTree.locate ["p"] Ignore.generalFile false = .error .missing :=
    FileTree.locate_name_eq_missing hname (by decide) (by decide)
  simp only [Ignore.Level.read, Ignore.readPatterns, FileTree.readBytes, FileTree.find, habove,
    hroot]
  exact ⟨rfl, rfl⟩

theorem discover_symbolTree (strict : Bool) :
    (symbolAnalyzer strict).discover symbolTree symbolEnvironment =
      .ok [⟨"/p/a.s"⟩, ⟨"/p/b.s"⟩, ⟨"/p/c.s"⟩] := by
  have hroot := locate_symbolRoot
  obtain ⟨hlevel, hlevel'⟩ := read_symbolTree
  have habove : Ignore.above ["p"] = [[]] := by decide
  have hgit : (symbolAnalyzer strict).config.files.respectGitignore = false := rfl
  have hrules : Ignore.Rules.read symbolTree symbolEnvironment false ["p"] = {} := by
    have hbelow : symbolTree.below ["p"] = [(["a.s"], .file "abcd".toUTF8),
        (["b.s"], .file "!".toUTF8), (["c.s"], .file "abcd".toUTF8)] := by
      decide
    rw [Ignore.Rules.read, hbelow, habove]
    simp [hlevel, hlevel', Ignore.Level.saysNothing]
  have hwanted : (symbolAnalyzer strict).wantedBelow symbolTree symbolEnvironment ["p"] =
      [⟨"/p/a.s"⟩, ⟨"/p/b.s"⟩, ⟨"/p/c.s"⟩] := by
    rw [Analyzer.wantedBelow, hgit, hrules]
    cases strict <;> decide +kernel
  refine Analyzer.discover_eq_ok_iff.mpr (.inr ⟨?_, ["p"], hroot, ?_, ?_⟩)
  · simp only [FileTree.isFile, FileTree.find, symbolAnalyzer, symbolEnvironment, hroot]
    rfl
  · rw [Discovery.complaintsAbove, habove, hgit, List.flatMap_singleton, hlevel]
    rfl
  · rw [hwanted, List.mergeSort_of_pairwise]
    decide

theorem leadApart_symbolTree : [(⟨"/p/a.s"⟩ : Path), ⟨"/p/b.s"⟩, ⟨"/p/c.s"⟩].Pairwise
    (symbolTree.LeadApart []) := by
  obtain ⟨ha, hb, hc⟩ := locate_symbolTree
  simp [FileTree.LeadApart, ha, hb, hc]

theorem readText_symbolTree : symbolTree.readText [] ⟨"/p/a.s"⟩ = .ok "abcd" ∧
    symbolTree.readText [] ⟨"/p/b.s"⟩ = .ok "!" ∧
    symbolTree.readText [] ⟨"/p/c.s"⟩ = .ok "abcd" := by
  obtain ⟨ha, hb, hc⟩ := locate_symbolTree
  simp only [FileTree.readText_eq_ok_iff]
  exact ⟨⟨_, ha, rfl⟩, ⟨_, hb, rfl⟩, ⟨_, hc, rfl⟩⟩

theorem stop?_symbolTree :
    (symbolAnalyzer true).stop? symbolTree [] ⟨"/p/a.s"⟩ = none ∧
      (symbolAnalyzer true).stop? symbolTree [] ⟨"/p/b.s"⟩ =
        some (.unparsable ⟨"/p/b.s"⟩ "no symbol") := by
  obtain ⟨ha, hb, -⟩ := readText_symbolTree
  rw [Analyzer.stop?, Analyzer.stop?, Analyzer.checkFile, Analyzer.checkFile, ha, hb]
  decide

/-- An analyzer that is not strict passes over the file that is no text. -/
theorem result_run_symbols {analyzer : Analyzer} (hlanguage : analyzer.language = symbolLanguage)
    (hstrict : analyzer.strict = false) (hdiscover : analyzer.discover symbolTree symbolEnvironment =
      .ok [⟨"/p/a.s"⟩, ⟨"/p/b.s"⟩, ⟨"/p/c.s"⟩]) :
    (analyzer.run symbolTree symbolEnvironment).result =
      .ok (([⟨"/p/a.s"⟩, ⟨"/p/b.s"⟩, ⟨"/p/c.s"⟩].filterMap
        (analyzer.report? symbolTree [])).foldl LintResult.add {}).sorted := by
  obtain ⟨ha, hb, hc⟩ := readText_symbolTree
  have hstop : [⟨"/p/a.s"⟩, ⟨"/p/b.s"⟩, ⟨"/p/c.s"⟩].findSome?
      (analyzer.stop? symbolTree []) = none := by
    simp only [List.findSome?_cons, List.findSome?_nil, Analyzer.stop?, Analyzer.checkFile, ha, hb,
      hc, Analyzer.checkText, hlanguage, hstrict]
    simp [symbolLanguage]
  rw [Analyzer.result_run hdiscover leadApart_symbolTree, symbolEnvironment, hstop]

theorem result_run_symbolTree :
    ((symbolAnalyzer false).run symbolTree symbolEnvironment).result =
      .ok (([⟨"/p/a.s"⟩, ⟨"/p/b.s"⟩, ⟨"/p/c.s"⟩].filterMap
        ((symbolAnalyzer false).report? symbolTree [])).foldl LintResult.add {}).sorted :=
  result_run_symbols rfl rfl (discover_symbolTree false)

theorem corrects_symbolTree (strict : Bool) :
    (symbolAnalyzer strict).Corrects symbolTree [] ⟨"/p/a.s"⟩ ["p", "a.s"] "xd" := by
  obtain ⟨ha, -⟩ := locate_symbolTree
  have hcorrected : ((symbolAnalyzer strict).checkText ⟨"/p/a.s"⟩ "abcd").toOption.bind
      (·.corrected) = some "xd" := by
    cases strict <;> decide +kernel
  cases hcheck : (symbolAnalyzer strict).checkText ⟨"/p/a.s"⟩ "abcd" with
  | error error =>
    rw [hcheck] at hcorrected
    cases hcorrected
  | ok report =>
    rw [hcheck] at hcorrected
    exact ⟨ha, "abcd", report, FileTree.readText_eq_ok_iff.mpr ⟨_, ha, rfl⟩, hcheck, hcorrected⟩

theorem Analyzer.run_write_set_symbols :
    (∀ paths, (symbolAnalyzer true).discover symbolTree symbolEnvironment = .ok paths →
      paths.Pairwise (symbolTree.LeadApart [])) ∧
    ((symbolAnalyzer true).run symbolTree symbolEnvironment).result =
      .error (.unparsable ⟨"/p/b.s"⟩ "no symbol") ∧
    FileTree.entry? ((symbolAnalyzer true).run symbolTree symbolEnvironment).tree ["p", "a.s"] =
      some (.file "xd".toUTF8) ∧
    FileTree.readBytes ((symbolAnalyzer true).run symbolTree symbolEnvironment).tree []
      ⟨"/p/c.s"⟩ = symbolTree.readBytes [] ⟨"/p/c.s"⟩ := by
  have hdiscover := discover_symbolTree true
  have hapart : ∀ paths, (symbolAnalyzer true).discover symbolTree symbolEnvironment = .ok paths →
      paths.Pairwise (symbolTree.LeadApart []) := by
    intro paths hpaths
    cases hdiscover.symm.trans hpaths
    exact leadApart_symbolTree
  have hresult : ((symbolAnalyzer true).run symbolTree symbolEnvironment).result =
      .error (.unparsable ⟨"/p/b.s"⟩ "no symbol") := by
    rw [result_run hdiscover leadApart_symbolTree, symbolEnvironment]
    simp only [List.findSome?_cons, stop?_symbolTree]
  obtain ⟨-, -, herror⟩ := run_write_set (symbolAnalyzer true) symbolTree symbolEnvironment hapart
  rcases herror _ hresult with
    ⟨hnone, -⟩ | ⟨before, path, later, hpaths, -, hstop, -, hwritten, hkept⟩
  · cases hdiscover.symm.trans hnone
  · have hsplit := Except.ok.inj (hdiscover.symm.trans hpaths)
    obtain ⟨cause, -, hcause⟩ | ⟨-, content, reason, -, -, hcause⟩ := hstop
    · cases hcause
    · obtain ⟨rfl, rfl⟩ := AnalysisError.unparsable.inj hcause
      obtain ⟨rfl, rfl⟩ : before = [⟨"/p/a.s"⟩] ∧ later = [⟨"/p/c.s"⟩] := by
        rcases before with _ | ⟨first, _ | ⟨second, before⟩⟩
        · simp at hsplit
        · simpa [eq_comm] using hsplit
        · cases before <;> simp at hsplit
      exact ⟨hapart, hresult,
        hwritten _ List.mem_cons_self _ _ (corrects_symbolTree true),
        hkept _ (List.mem_cons_of_mem _ List.mem_cons_self)⟩

end SpecWording
