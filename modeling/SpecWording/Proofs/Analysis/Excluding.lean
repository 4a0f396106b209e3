import SpecWording.Proofs.Analysis.BelowRoot
import SpecWording.Proofs.Analysis.Building
import SpecWording.Proofs.Analysis.ReportOrder

/-!
# One more glob that excludes files

A glob that excludes files is asked about each file alone, so one more of them takes its files out of
the discovered ones and leaves the others in their order. No file has a say in the report on another
one or in what is written there. So the reports, the counts and the rewritten files of a run with one
more glob are those of the run without it, less what belongs to the files that the glob matches.
-/

namespace SpecWording

open Discovery

/-- The configuration with other globs that exclude files. -/
def Config.excluding (config : Config) (texts : List String) : Config :=
  { config with files := { config.files with excluded := texts } }

/-- The analyzer with other globs that exclude files, which its configuration may spell. -/
def Analyzer.excluding (analyzer : Analyzer) (globs : List Glob) (texts : List String) : Analyzer :=
  { analyzer with excluded := globs, config := analyzer.config.excluding texts }

/-! ## Building with one more glob -/

namespace AnalysisRequest

variable {request : AnalysisRequest} {here : Path} {analyzer : Analyzer} {text : String} {glob : Glob}
  {texts configured : List String}

/-- The request with other globs that exclude files, the caller's and the configuration's. -/
def excluding (request : AnalysisRequest) (texts configured : List String) : AnalysisRequest :=
  { request with excluded := texts, config := request.config.map (·.excluding configured) }

theorem includedGlobs_excluding (request : AnalysisRequest) (texts configured : List String) :
    (request.excluding texts configured).includedGlobs = request.includedGlobs := by
  rw [includedGlobs, includedGlobs, excluding, Option.map_map]
  rfl

theorem rootPath_excluding (request : AnalysisRequest) (texts configured : List String) :
    (request.excluding texts configured).rootPath = request.rootPath := by
  rw [rootPath, rootPath, excluding, Option.map_map]
  rfl

theorem exists_config_excluding (request : AnalysisRequest) (texts configured : List String) :
    ∃ spelled, (request.excluding texts configured).config.getD {} =
      (request.config.getD {}).excluding spelled := by
  rw [excluding]
  cases request.config with
  | none => exact ⟨({} : Config).files.excluded, rfl⟩
  | some config => exact ⟨configured, rfl⟩

/-- Wherever a glob is added, the analyzer can still be built, and excludes by this glob as well. -/
theorem exists_build_excluding (hglob : Glob.parse text = .ok glob)
    (hadded : ∀ other, other ∈ (request.excluding texts configured).excludedGlobs ↔
      other = text ∨ other ∈ request.excludedGlobs)
    (hbuild : request.build here = .ok analyzer) :
    ∃ globs spelled, (request.excluding texts configured).build here =
        .ok (analyzer.excluding globs spelled) ∧
      ∀ other, other ∈ globs ↔ other = glob ∨ other ∈ analyzer.excluded := by
  obtain ⟨language, excluded, included, hlanguage, hexcluded, hincluded, rfl⟩ :=
    build_eq_ok_iff.mp hbuild
  have hparse := exists_parseGlobs_iff.mp ⟨excluded, hexcluded⟩
  obtain ⟨globs, hglobs⟩ : ∃ globs,
      parseGlobs (request.excluding texts configured).excludedGlobs = .ok globs := by
    rw [exists_parseGlobs_iff]
    intro other hother
    rcases (hadded other).mp hother with rfl | hother
    · exact ⟨glob, hglob⟩
    · exact hparse other hother
  obtain ⟨spelled, hspelled⟩ := exists_config_excluding request texts configured
  refine ⟨globs, spelled, ?_, ?_⟩
  · rw [build_eq_ok_iff, includedGlobs_excluding, rootPath_excluding, hspelled]
    exact ⟨language, globs, included, hlanguage, hglobs, hincluded, rfl⟩
  · intro other
    rw [mem_iff_of_parseGlobs hglobs, mem_iff_of_parseGlobs hexcluded]
    simp [hadded, or_and_right, exists_or, hglob, eq_comm]

end AnalysisRequest

namespace Analyzer

variable {analyzer : Analyzer} {tree : FileTree} {environment : Environment} {directory : Place}
  {path : Path} {paths : List Path} {globs : List Glob} {texts : List String} {glob : Glob}
  {result : LintResult}

/-- Whether a glob matches a file, by its path below the root or by its whole path. -/
def matched (analyzer : Analyzer) (glob : Glob) (path : Path) : Bool :=
  glob.accepts (analyzer.relative path).text || glob.accepts path.text

/-! ## Discovering with one more glob -/

section Added

variable (hadded : ∀ other, other ∈ globs ↔ other = glob ∨ other ∈ analyzer.excluded)

include hadded

theorem wants_excluding (texts : List String) (path : Path) :
    (analyzer.excluding globs texts).wants path =
      (!analyzer.matched glob path && analyzer.wants path) := by
  have hexcludes : (analyzer.excluding globs texts).excludes path =
      (analyzer.matched glob path || analyzer.excludes path) := by
    rw [Bool.eq_iff_iff]
    simp only [excludes, excluding, matched, relative, List.any_eq_true, hadded, Bool.or_eq_true,
      or_and_right, exists_or, exists_eq_left]
  have hhandles : (analyzer.excluding globs texts).handles path = analyzer.handles path := rfl
  have hincludes : (analyzer.excluding globs texts).includes path = analyzer.includes path := rfl
  rw [wants, wants, hexcludes, hhandles, hincludes, Bool.not_or]
  ac_rfl

theorem wantedBelow_excluding (texts : List String) (tree : FileTree) (environment : Environment)
    (directory : Place) : (analyzer.excluding globs texts).wantedBelow tree environment directory =
      (analyzer.wantedBelow tree environment directory).filter (!analyzer.matched glob ·) := by
  unfold wantedBelow
  dsimp only
  rw [List.filter_filter]
  simp only [← wants_excluding hadded texts]
  rfl

/-- One more glob takes the files that it matches out of the discovered ones. -/
theorem discover_excluding (texts : List String)
    (hroot : tree.isFile environment.workingDirectory analyzer.root = false)
    (hdiscover : analyzer.discover tree environment = .ok paths) :
    (analyzer.excluding globs texts).discover tree environment =
      .ok (paths.filter (!analyzer.matched glob ·)) := by
  obtain ⟨directory, hplace, hsilent, rfl⟩ := exists_directory_of_discover hroot hdiscover
  refine discover_eq_ok_iff.mpr (.inr ⟨hroot, directory, hplace, hsilent, ?_⟩)
  rw [wantedBelow_excluding hadded, filter_mergeSort comesFirst_trans comesFirst_total]

end Added

/-! ## Violations with the files that they were found in -/

/-- The violations that checking some files finds, each with its file. -/
def attributed (analyzer : Analyzer) (tree : FileTree) (directory : Place) (paths : List Path) :
    List (Path × Violation) :=
  paths.flatMap fun path ↦
    ((analyzer.report? tree directory path).toList.flatMap (·.violations)).map (path, ·)

theorem mem_attributed_iff {found : Path × Violation} :
    found ∈ analyzer.attributed tree directory paths ↔ found.1 ∈ paths ∧ ∃ report,
      analyzer.report? tree directory found.1 = some report ∧ found.2 ∈ report.violations := by
  simp only [attributed, List.mem_flatMap, List.mem_map, Option.mem_toList]
  constructor
  · rintro ⟨path, hpath, violation, hreport, rfl⟩
    exact ⟨hpath, hreport⟩
  · rintro ⟨hpath, hreport⟩
    exact ⟨found.1, hpath, found.2, hreport, rfl⟩

theorem map_snd_attributed : (analyzer.attributed tree directory paths).map (·.2) =
    (paths.filterMap (analyzer.report? tree directory)).flatMap (·.violations) := by
  rw [List.filterMap_eq_flatMap_toList, List.flatMap_assoc, attributed, List.map_flatMap]
  simp only [List.map_map, Function.comp_def, List.map_id']

/-- Without some of the files the violations in the others are left. -/
theorem filter_attributed (keep : Path → Bool) :
    (analyzer.attributed tree directory paths).filter (fun found ↦ keep found.1) =
      analyzer.attributed tree directory (paths.filter keep) := by
  induction paths with
  | nil => rfl
  | cons path paths ih =>
    rw [attributed, List.flatMap_cons, ← attributed, List.filter_append, ih, List.filter_map]
    cases hkeep : keep path with
    | false => simp [hkeep, Function.comp_def]
    | true => simp [hkeep, Function.comp_def, attributed]

/-- The violations in the order of reports, each with its file. -/
def merged (analyzer : Analyzer) (tree : FileTree) (directory : Place) (paths : List Path) :
    List (Path × Violation) :=
  (analyzer.attributed tree directory paths).mergeSort fun a b ↦ LintResult.comesFirst a.2 b.2

theorem filter_merged (keep : Path → Bool) :
    (analyzer.merged tree directory paths).filter (fun found ↦ keep found.1) =
      analyzer.merged tree directory (paths.filter keep) := by
  rw [merged, filter_mergeSort, filter_attributed, merged]
  · intro a b c
    exact LintResult.comesFirst_trans a.2 b.2 c.2
  · intro a b
    exact LintResult.comesFirst_total a.2 b.2

theorem violations_sorted_reports :
    ((paths.filterMap (analyzer.report? tree directory)).foldl LintResult.add {}).sorted.violations =
      (analyzer.merged tree directory paths).map (·.2) := by
  have hsort : (analyzer.merged tree directory paths).map (·.2) =
      ((analyzer.attributed tree directory paths).map (·.2)).mergeSort LintResult.comesFirst :=
    List.map_mergeSort fun _ _ _ _ ↦ rfl
  rw [hsort, map_snd_attributed, LintResult.foldl_add]
  rfl

/-! ## Violations as they are shown -/

/-- Whether a glob matches the file that a violation shows, as it is shown or from the root on. -/
def matchedAsShown (analyzer : Analyzer) (glob : Glob) (violation : Violation) : Bool :=
  glob.accepts violation.location.file.text ||
    glob.accepts (analyzer.root.join violation.location.file).text

/-- If rules report violations where they look, the file that a violation shows tells which globs
match the file that it was found in. -/
theorem matched_eq_matchedAsShown (hwell : tree.WellFormed)
    (hroot : tree.isFile environment.workingDirectory analyzer.root = false)
    (hdiscover : analyzer.discover tree environment = .ok paths)
    (hrules : ∀ rule ∈ analyzer.rules, rule.LocatesInFile) {found : Path × Violation}
    (hfound : found ∈ analyzer.attributed tree environment.workingDirectory paths) :
    analyzer.matched glob found.1 = analyzer.matchedAsShown glob found.2 := by
  obtain ⟨hpath, report, hreport, hmem⟩ := mem_attributed_iff.mp hfound
  obtain ⟨content, span, -, -, hlocation⟩ := shownIn_of_mem_report hrules hreport hmem
  obtain ⟨directory, hplace, -, rfl⟩ := exists_directory_of_discover hroot hdiscover
  obtain ⟨rest, hnames, hnonempty, heq⟩ := exists_names_of_mem_wantedBelow hwell hpath
  have hne := FileTree.text_ne_empty_of_locate hplace
  have hshown : found.2.location.file = rest.relative := by
    rw [hlocation, heq, inProject_pathOf hne hnames hnonempty]
    rfl
  rw [matched, relative, matchedAsShown, hshown, heq, below?_pathOf hne hnames, Option.getD_some,
    join_relative _ hnames hnonempty]

/-! ## Running over some of the files -/

section Dropped

variable {after : FileTree} {place : Place} {dropped : Path → Bool}

/-- Where none of the dropped files stands, the same is left without them. -/
theorem Rewrites.entry?_eq_of_filter {other : FileTree}
    (h : analyzer.Rewrites tree directory tree after paths)
    (hother : analyzer.Rewrites tree directory tree other (paths.filter (!dropped ·)))
    (hplace : ∀ path ∈ paths, dropped path = true →
      tree.locate directory path false ≠ .ok place) :
    other.entry? place = after.entry? place := by
  by_cases hcorrects : ∃ path ∈ paths, ∃ text, analyzer.Corrects tree directory path place text
  · obtain ⟨path, hpath, text, hcorrects⟩ := hcorrects
    have hkept : (!dropped path) = true := by
      rw [Bool.not_eq_true']
      by_contra hdropped
      exact hplace path hpath (Bool.eq_true_of_not_eq_false hdropped) hcorrects.1
    rw [h.written path hpath place text hcorrects,
      hother.written path (List.mem_filter.mpr ⟨hpath, hkept⟩) place text hcorrects]
  · push Not at hcorrects
    rw [h.kept place hcorrects,
      hother.kept place fun path hpath ↦ hcorrects path (List.mem_of_mem_filter hpath)]

/-- A dropped file is as it was. -/
theorem Rewrites.entry?_of_dropped
    (h : analyzer.Rewrites tree directory tree after (paths.filter (!dropped ·)))
    (hapart : paths.Pairwise (tree.LeadApart directory)) (hpath : path ∈ paths)
    (hdropped : dropped path = true) (hplace : tree.locate directory path false = .ok place) :
    after.entry? place = tree.entry? place := by
  apply h.kept
  intro other hother text hcorrects
  obtain ⟨hother, hkept⟩ := List.mem_filter.mp hother
  have hne : path ≠ other := by
    rintro rfl
    rw [hdropped] at hkept
    cases hkept
  exact hapart.forall hpath hother hne place hplace hcorrects.1

/-- What is left of a result without the dropped files, and how much their share was. -/
theorem sorted_reports_filter (analyzer : Analyzer) (tree : FileTree) (directory : Place)
    (paths : List Path) (dropped : Path → Bool) :
    let result (paths : List Path) : LintResult :=
      ((paths.filterMap (analyzer.report? tree directory)).foldl LintResult.add {}).sorted
    let less := result (paths.filter (!dropped ·))
    less.violations = ((analyzer.merged tree directory paths).filter
        fun found ↦ !dropped found.1).map (·.2) ∧
      less.filesChecked + (paths.filter dropped).countP (analyzer.parses tree directory) =
        (result paths).filesChecked ∧
      less.filesFixed + (paths.filter dropped).countP
        (fun path ↦ (analyzer.correctedPlace? tree directory path).isSome) =
        (result paths).filesFixed := by
  intro result less
  have hcount (count : Path → Bool) := List.countP_eq_countP_filter_add paths count (!dropped ·)
  simp only [Bool.not_not] at hcount
  obtain ⟨hchecked, hfixed⟩ : (result paths).filesChecked = _ ∧ (result paths).filesFixed = _ :=
    counts_sorted_reports
  obtain ⟨hchecked', hfixed'⟩ : less.filesChecked = _ ∧ less.filesFixed = _ := counts_sorted_reports
  refine ⟨?_, ?_, ?_⟩
  · rw [filter_merged (!dropped ·)]
    exact violations_sorted_reports
  · rw [hchecked, hchecked', hcount]
  · rw [hfixed, hfixed', hcount]

/-- An analyzer that excludes other files, all of them among those that a run goes through, makes of
the rest what this run makes of it. -/
theorem run_of_discover_filter
    (hapart : paths.Pairwise (tree.LeadApart environment.workingDirectory))
    (hdiscover : analyzer.discover tree environment = .ok paths)
    (hdiscover' : (analyzer.excluding globs texts).discover tree environment =
      .ok (paths.filter (!dropped ·)))
    (hrun : (analyzer.run tree environment).result = .ok result) :
    ((analyzer.excluding globs texts).run tree environment).result =
        .ok (((paths.filter (!dropped ·)).filterMap
          (analyzer.report? tree environment.workingDirectory)).foldl LintResult.add {}).sorted ∧
      analyzer.Rewrites tree environment.workingDirectory tree
        ((analyzer.excluding globs texts).run tree environment).tree
        (paths.filter (!dropped ·)) := by
  have hapart' := hapart.filter (!dropped ·)
  have hstop := findSome?_stop?_of_run hdiscover hapart hrun
  have hstop' : (paths.filter (!dropped ·)).findSome?
      ((analyzer.excluding globs texts).stop? tree environment.workingDirectory) = none := by
    rw [List.findSome?_eq_none_iff] at hstop ⊢
    intro path hpath
    exact hstop path (List.mem_of_mem_filter hpath)
  have hresult := result_run hdiscover' hapart'
  rw [hstop'] at hresult
  obtain ⟨-, hwritten, hkept⟩ := exists_of_run_eq_ok hdiscover' hapart' hresult
  exact ⟨hresult, hwritten, hkept⟩

end Dropped

/-- One more glob that excludes files only takes away: the violations in the files that it matches,
their share in the counts, and the corrections made there. -/
theorem run_excluding {request : AnalysisRequest} {here : Path} {text : String}
    {configured : List String} {first : LintResult} (hglob : Glob.parse text = .ok glob)
    (hadded : ∀ other, other ∈ (request.excluding texts configured).excludedGlobs ↔
      other = text ∨ other ∈ request.excludedGlobs)
    (hbuild : request.build here = .ok analyzer) (hwell : tree.WellFormed)
    (hroot : tree.isFile environment.workingDirectory analyzer.root = false)
    (hrun : (analyzer.run tree environment).result = .ok first) :
    ∃ less second paths, ∃ attributed : List (Path × Violation),
      let directory := environment.workingDirectory
      (request.excluding texts configured).build here = .ok less ∧
      (less.run tree environment).result = .ok second ∧
      analyzer.discover tree environment = .ok paths ∧
      less.discover tree environment = .ok (paths.filter (!analyzer.matched glob ·)) ∧
      attributed.Perm (analyzer.attributed tree directory paths) ∧
      first.violations = attributed.map (·.2) ∧
      second.violations =
        (attributed.filter fun found ↦ !analyzer.matched glob found.1).map (·.2) ∧
      ((∀ rule ∈ analyzer.rules, rule.LocatesInFile) → second.violations =
        first.violations.filter (!analyzer.matchedAsShown glob ·)) ∧
      second.filesChecked + (paths.filter (analyzer.matched glob)).countP
        (analyzer.parses tree directory) = first.filesChecked ∧
      second.filesFixed + (paths.filter (analyzer.matched glob)).countP
        (fun path ↦ (analyzer.correctedPlace? tree directory path).isSome) = first.filesFixed ∧
      (∀ place, (∀ path ∈ paths, analyzer.matched glob path = true →
          tree.locate directory path false ≠ .ok place) →
        FileTree.entry? (less.run tree environment).tree place =
          FileTree.entry? (analyzer.run tree environment).tree place) ∧
      ∀ path ∈ paths, analyzer.matched glob path = true → ∀ place,
        tree.locate directory path false = .ok place →
          FileTree.entry? (less.run tree environment).tree place = tree.entry? place := by
  obtain ⟨globs, spelled, hless, hglobs⟩ :=
    AnalysisRequest.exists_build_excluding hglob hadded hbuild
  cases hdiscover : analyzer.discover tree environment with
  | error error => cases (run_of_discover_error hdiscover).2.symm.trans hrun
  | ok paths =>
    have hapart := leadApart_discover hwell hdiscover
    have hdiscover' := discover_excluding hglobs spelled hroot hdiscover
    obtain ⟨hrun', hrewrites'⟩ := run_of_discover_filter hapart hdiscover hdiscover' hrun
    obtain ⟨rfl, hrewrites⟩ := exists_of_run_eq_ok hdiscover hapart hrun
    obtain ⟨hviolations, hchecked, hfixed⟩ := sorted_reports_filter analyzer tree
      environment.workingDirectory paths (analyzer.matched glob)
    refine ⟨_, _, paths, analyzer.merged tree environment.workingDirectory paths, hless, hrun', rfl,
      hdiscover', List.mergeSort_perm _ _, violations_sorted_reports, hviolations, ?_, hchecked,
      hfixed, fun place ↦ hrewrites.entry?_eq_of_filter hrewrites', ?_⟩
    · intro hrules
      have hshown : ∀ found ∈ analyzer.merged tree environment.workingDirectory paths,
          (!analyzer.matched glob found.1) = (!analyzer.matchedAsShown glob found.2) := by
        intro found hfound
        rw [matched_eq_matchedAsShown hwell hroot hdiscover hrules (List.mem_mergeSort.mp hfound)]
      rw [hviolations, violations_sorted_reports, List.filter_map, List.filter_congr hshown]
      rfl
    · intro path hpath hmatched place hplace
      exact hrewrites'.entry?_of_dropped hapart hpath hmatched hplace

end Analyzer

/-! ## A glob for the last of three files -/

/-- A request to correct symbols, without any globs. -/
def symbolRequest : AnalysisRequest where
  root := some ⟨"/p"⟩
  language := some symbolLanguage
  rules := [symbolRule true (some "x")]
  config := some { files := { excluded := [], included := [], respectGitignore := false } }
  fix := true

def globlessAnalyzer : Analyzer :=
  { symbolAnalyzer false with
    config := { files := { excluded := [], included := [], respectGitignore := false } } }

def lastGlob : Glob := ⟨"c.s".toList.map .char⟩

theorem result_run_globless : (globlessAnalyzer.run symbolTree symbolEnvironment).result =
    .ok (([⟨"/p/a.s"⟩, ⟨"/p/b.s"⟩, ⟨"/p/c.s"⟩].filterMap
      (globlessAnalyzer.report? symbolTree [])).foldl LintResult.add {}).sorted :=
  result_run_symbols rfl rfl (discover_symbolTree false)

theorem Analyzer.run_excluding_symbols : Glob.parse "c.s" = .ok lastGlob ∧
    symbolRequest.build ⟨"/"⟩ = .ok globlessAnalyzer ∧
    ∃ first less second,
      (globlessAnalyzer.run symbolTree symbolEnvironment).result = .ok first ∧
      (symbolRequest.excluding ["c.s"] []).build ⟨"/"⟩ = .ok less ∧
      (less.run symbolTree symbolEnvironment).result = .ok second ∧
      second.violations = first.violations.filter (!globlessAnalyzer.matchedAsShown lastGlob ·) ∧
      first.filesChecked = 2 ∧ second.filesChecked = 1 ∧
      FileTree.entry? (less.run symbolTree symbolEnvironment).tree ["p", "c.s"] =
        some (.file "abcd".toUTF8) := by
  have hglob : Glob.parse "c.s" = .ok lastGlob := by decide +kernel
  have hbuild : symbolRequest.build ⟨"/"⟩ = .ok globlessAnalyzer := rfl
  have hadded (other : String) : other ∈ (symbolRequest.excluding ["c.s"] []).excludedGlobs ↔
      other = "c.s" ∨ other ∈ symbolRequest.excludedGlobs := by
    simp [AnalysisRequest.excludedGlobs, AnalysisRequest.excluding, symbolRequest,
      Config.excluding]
  have hroot : symbolTree.isFile symbolEnvironment.workingDirectory globlessAnalyzer.root =
      false := by
    rcases discover_eq_ok_iff.mp (discover_symbolTree false) with ⟨-, hpaths⟩ | ⟨hroot, -⟩
    · exact absurd (congrArg List.length hpaths) (by decide)
    · exact hroot
  have hrules : ∀ rule ∈ globlessAnalyzer.rules, rule.LocatesInFile := by
    intro rule hrule
    obtain rfl := List.mem_singleton.mp hrule
    exact symbolRule_locatesInFile true (some "x")
  obtain ⟨ha, hb, hc⟩ := readText_symbolTree
  have hparses : globlessAnalyzer.parses symbolTree [] ⟨"/p/a.s"⟩ = true ∧
      globlessAnalyzer.parses symbolTree [] ⟨"/p/b.s"⟩ = false ∧
      globlessAnalyzer.parses symbolTree [] ⟨"/p/c.s"⟩ = true := by
    simp only [parses, ha, hb, hc]
    decide
  obtain ⟨hfirst, hmiddle, hlast⟩ := hparses
  have hmatched : [⟨"/p/a.s"⟩, ⟨"/p/b.s"⟩, ⟨"/p/c.s"⟩].filter (globlessAnalyzer.matched lastGlob) =
      [⟨"/p/c.s"⟩] := by
    decide
  have htwo : (([⟨"/p/a.s"⟩, ⟨"/p/b.s"⟩, ⟨"/p/c.s"⟩].filterMap (globlessAnalyzer.report?
      symbolTree [])).foldl LintResult.add {}).sorted.filesChecked = 2 := by
    rw [counts_sorted_reports.1]
    simp [hfirst, hmiddle, hlast]
  obtain ⟨less, second, paths, -, hless, hsecond, hpaths, -, -, -, -, hviolations, hchecked, -, -,
    hdropped⟩ := run_excluding hglob hadded hbuild wellFormed_symbolTree hroot result_run_globless
  obtain rfl := Except.ok.inj ((discover_symbolTree false).symm.trans hpaths)
  refine ⟨hglob, hbuild, _, less, second, result_run_globless, hless, hsecond, hviolations hrules,
    htwo, ?_, ?_⟩
  · rw [hmatched, htwo] at hchecked
    simpa [symbolEnvironment, hlast] using hchecked
  · obtain ⟨-, -, hplace⟩ := locate_symbolTree
    rw [hdropped ⟨"/p/c.s"⟩ (by simp) (by decide) _ hplace]
    decide

end SpecWording
