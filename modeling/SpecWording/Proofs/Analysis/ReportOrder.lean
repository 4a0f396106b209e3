import SpecWording.Proofs.Analysis.Enumeration
import SpecWording.Proofs.Syntax.Walk
import SpecWording.Proofs.Text.Position

/-!
# The order of a report

A report holds the violations of all files that were checked. They are sorted by file, line and
column, and since every violation is located at a span of its file, this is the order of files and
offsets. Violations at one offset stay in the order of the walk: nodes in preorder, and the rules at
a node as they are registered. So a tree has one report, in whatever order its entries are listed.
-/

namespace SpecWording

open Discovery Syntax

/-- Whether every violation of a rule is located at a span of the file that the rule looks at. -/
def Rule.LocatesInFile (rule : Rule) : Prop :=
  ∀ file node violation, rule.check file node = some violation →
    ∃ span : Text.Span, span.source = file.content.toList ∧
      violation.location = file.location span

theorem Violation.SameOffence.location_eq {a b : Violation} (h : a.SameOffence b) :
    a.location = b.location := by
  rw [SameOffence] at h
  rw [← h]

section Sorting

variable {α : Type} {le : α → α → Bool}

/-- Where an entry stands in a sorted list follows from the other entries, if it comes before all of
them that it may come before. -/
theorem filter_of_pairwise_middle {a : α} {front back : List α}
    (hsorted : (front ++ a :: back).Pairwise fun a b ↦ le a b = true)
    (hfront : ∀ b ∈ front, (!le a b) = true) :
    (front ++ back).filter (!le a ·) = front ∧ (front ++ back).filter (le a ·) = back := by
  obtain ⟨-, hmiddle, -⟩ := List.pairwise_append.mp hsorted
  have hback := (List.pairwise_cons.mp hmiddle).1
  constructor <;> rw [List.filter_append]
  · rw [List.filter_eq_self.mpr hfront, List.filter_eq_nil_iff.mpr (by simpa using hback),
      List.append_nil]
  · rw [List.filter_eq_self.mpr hback, List.filter_eq_nil_iff.mpr (by simpa using hfront),
      List.nil_append]

variable (htrans : ∀ a b c, le a b = true → le b c = true → le a c = true)
  (htotal : ∀ a b, (le a b || le b a) = true)

include htrans htotal

/-- It does not matter whether entries are taken out before or after a stable sort. -/
theorem filter_mergeSort (entries : List α) (p : α → Bool) :
    (entries.mergeSort le).filter p = (entries.filter p).mergeSort le := by
  induction entries with
  | nil => simp
  | cons a entries ih =>
    obtain ⟨front, back, hsort, hothers, hfront⟩ := List.mergeSort_cons htrans htotal a entries
    rw [hothers, List.filter_append] at ih
    rw [hsort, List.filter_append]
    cases hp : p a with
    | false =>
      rw [List.filter_cons_of_neg (by simp [hp]), List.filter_cons_of_neg (by simp [hp]), ih]
    | true =>
      rw [List.filter_cons_of_pos hp, List.filter_cons_of_pos hp]
      obtain ⟨front', back', hsort', hothers', hfront'⟩ :=
        List.mergeSort_cons htrans htotal a (entries.filter p)
      have hsorted := (List.pairwise_mergeSort htrans htotal (a :: entries)).filter p
      have hsorted' := List.pairwise_mergeSort htrans htotal (a :: entries.filter p)
      rw [hsort, List.filter_append, List.filter_cons_of_pos hp] at hsorted
      rw [hsort'] at hsorted'
      -- Both lists are the same around `a`, and `a` has one place in them.
      obtain ⟨hbefore, hafter⟩ :=
        filter_of_pairwise_middle hsorted fun b hb ↦ hfront b (List.mem_of_mem_filter hb)
      obtain ⟨hbefore', hafter'⟩ := filter_of_pairwise_middle hsorted' hfront'
      rw [ih, hothers', hbefore'] at hbefore
      rw [ih, hothers', hafter'] at hafter
      rw [hsort', hbefore, hafter]

/-- A stable sort leaves entries in their order that may come first on either side. -/
theorem filter_mergeSort_of_ties {entries : List α} {p : α → Bool}
    (hties : ∀ a ∈ entries, ∀ b ∈ entries, p a = true → p b = true → le a b = true) :
    (entries.mergeSort le).filter p = entries.filter p := by
  rw [filter_mergeSort htrans htotal]
  apply List.mergeSort_of_pairwise
  apply List.pairwise_of_forall_mem_list
  intro a ha b hb
  obtain ⟨ha, hpa⟩ := List.mem_filter.mp ha
  obtain ⟨hb, hpb⟩ := List.mem_filter.mp hb
  exact hties a ha b hb hpa hpb

end Sorting

/-! ## The reports on single files -/

section File

variable {rules : List Rule} {config : Config} {fix : Bool} {file : SourceFile} {root : Node}
  {violation : Violation}

/-- What the enabled rules say about the nodes of a tree, node by node in preorder, and at a node
rule by rule. -/
def traversed (rules : List Rule) (config : Config) (file : SourceFile) (root : Node) :
    List Violation :=
  root.preorder.flatMap fun node ↦
    (rules.filter fun rule ↦ config.isEnabled rule.name).filterMap fun rule ↦
      (rule.check file node).map (·.withSeverity (config.severity? rule.name))

theorem map_violation_findings (rules : List Rule) (config : Config) (file : SourceFile)
    (root : Node) :
    (findings rules config file root).map (·.violation) = traversed rules config file root := by
  simp only [findings, traversed, List.map_flatMap, List.map_filterMap, Option.map_map,
    Node.walk_eq_preorder, Function.comp_def]

theorem violations_checkTree_sameOffence (rules : List Rule) (config : Config) (fix : Bool)
    (file : SourceFile) (root : Node) :
    List.Forall₂ Violation.SameOffence (checkTree rules config fix file root).violations
      (traversed rules config file root) := by
  rw [← map_violation_findings]
  cases fix with
  | true => exact Finding.mark_sameOffence _
  | false => exact List.forall₂_same.mpr fun violation _ ↦ .refl violation

theorem exists_span_of_mem_traversed (hrules : ∀ rule ∈ rules, rule.LocatesInFile)
    (h : violation ∈ traversed rules config file root) :
    ∃ span : Text.Span, span.source = file.content.toList ∧
      violation.location = file.location span := by
  rw [← map_violation_findings] at h
  obtain ⟨finding, hfinding, rfl⟩ := List.mem_map.mp h
  obtain ⟨hrule, node, -, violation, hcheck, heq⟩ := exists_rule_of_mem_findings hfinding
  obtain ⟨span, hsource, hlocation⟩ := hrules _ hrule file node violation hcheck
  refine ⟨span, hsource, ?_⟩
  rw [heq, ← hlocation]
  cases config.severity? finding.rule.name <;> rfl

theorem exists_span_of_mem_checkTree (hrules : ∀ rule ∈ rules, rule.LocatesInFile)
    (h : violation ∈ (checkTree rules config fix file root).violations) :
    ∃ span : Text.Span, span.source = file.content.toList ∧
      violation.location = file.location span := by
  have hsame := violations_checkTree_sameOffence rules config fix file root
  obtain ⟨index, hindex, rfl⟩ := List.getElem_of_mem h
  have hindex' : index < (traversed rules config file root).length := hsame.length_eq ▸ hindex
  have hlocation := (hsame.get hindex hindex').location_eq
  rw [List.get_eq_getElem] at hlocation
  rw [hlocation]
  exact exists_span_of_mem_traversed hrules (List.getElem_mem hindex')

end File

/-! ## The order of violations -/

namespace LintResult

/-- How violations compare: by file, then line, then column. -/
def order : Violation → Violation → Ordering :=
  compareLex (fun a b ↦ a.location.file.compare b.location.file)
    (compareLex (compareOn (·.location.line)) (compareOn (·.location.column)))

instance : Std.TransCmp fun a b : Violation ↦ a.location.file.compare b.location.file where
  eq_swap := by
    intro a b
    exact @Std.OrientedCmp.eq_swap _ Path.compare _ _ _
  isLE_trans := by
    intro a b c
    exact @Std.TransCmp.isLE_trans _ Path.compare _ _ _ _

instance : Std.TransCmp order := by
  unfold order
  infer_instance

theorem comesFirst_eq_isLE (a b : Violation) : comesFirst a b = (order a b).isLE := by
  unfold comesFirst order compareLex compareOn
  cases (a.location.file.compare b.location.file).then
    ((compare a.location.line b.location.line).then
      (compare a.location.column b.location.column)) <;> rfl

theorem comesFirst_trans (a b c : Violation) (hab : comesFirst a b) (hbc : comesFirst b c) :
    comesFirst a c := by
  rw [comesFirst_eq_isLE] at *
  exact Std.TransCmp.isLE_trans hab hbc

theorem comesFirst_total (a b : Violation) : comesFirst a b || comesFirst b a := by
  rw [comesFirst_eq_isLE, comesFirst_eq_isLE, @Std.OrientedCmp.eq_swap _ order _ b a]
  cases order a b <;> rfl

end LintResult

namespace Analyzer

variable {analyzer : Analyzer} {tree other : FileTree} {environment : Environment}
  {directory : Place} {path path' : Path} {paths : List Path} {report : SourceReport}
  {result : LintResult}

/-! ## Files as they are shown -/

theorem path_inProject (root path : Path) (content content' : String) :
    (SourceFile.inProject root path content).path =
      (SourceFile.inProject root path content').path := by
  unfold SourceFile.inProject
  split <;> rfl

/-- Discovered files compare as they are shown, and only a file itself ties with it. -/
theorem compare_inProject (hwell : tree.WellFormed)
    (hdiscover : analyzer.discover tree environment = .ok paths) (hpath : path ∈ paths)
    (hpath' : path' ∈ paths) (content content' : String) :
    (SourceFile.inProject analyzer.root path content).path.compare
        (SourceFile.inProject analyzer.root path' content').path = path.compare path' ∧
      (path.compare path' = .eq → path = path') := by
  rcases discover_eq_ok_iff.mp hdiscover with ⟨-, rfl⟩ | ⟨-, directory, hroot, -, rfl⟩
  · obtain rfl := List.mem_singleton.mp hpath
    obtain rfl := List.mem_singleton.mp hpath'
    have hself (path : Path) : path.compare path = .eq :=
      @Std.ReflCmp.compare_self _ Path.compare _ _
    rw [path_inProject _ _ content' content, hself, hself]
    exact ⟨rfl, fun _ ↦ rfl⟩
  · have hne := FileTree.text_ne_empty_of_locate hroot
    obtain ⟨rest, hnames, hnonempty, rfl⟩ := exists_names_of_mem_wantedBelow hwell hpath
    obtain ⟨rest', hnames', hnonempty', rfl⟩ := exists_names_of_mem_wantedBelow hwell hpath'
    constructor
    · rw [compare_pathOf hne hnames hnames', Path.compare, parts_inProject hne hnames hnonempty,
        parts_inProject hne hnames' hnonempty']
    · intro htie
      rw [eq_of_compare_pathOf hne hnames hnames' htie]

/-! ## Where violations are shown -/

/-- A violation is located at a span of the text that is read from a path. -/
def ShownIn (analyzer : Analyzer) (tree : FileTree) (directory : Place) (path : Path)
    (violation : Violation) : Prop :=
  ∃ content, ∃ span : Text.Span, tree.readText directory path = .ok content ∧
    span.source = content.toList ∧
    violation.location = (SourceFile.inProject analyzer.root path content).location span

theorem exists_content_of_report? (h : analyzer.report? tree directory path = some report) :
    ∃ content root, tree.readText directory path = .ok content ∧
      analyzer.language.parse content = .ok root ∧
      report = checkTree analyzer.rules analyzer.config analyzer.fix
        (SourceFile.inProject analyzer.root path content) root := by
  obtain ⟨content, hread, hcheck⟩ := checkFile_eq_ok_iff.mp (report?_eq_some_iff.mp h)
  obtain ⟨root, hparse, hreport⟩ := exists_tree_of_checkText hcheck
  exact ⟨content, root, hread, hparse, hreport⟩

theorem shownIn_of_mem_report (hrules : ∀ rule ∈ analyzer.rules, rule.LocatesInFile)
    (h : analyzer.report? tree directory path = some report) {violation : Violation}
    (hmem : violation ∈ report.violations) :
    analyzer.ShownIn tree directory path violation := by
  obtain ⟨content, root, hread, -, rfl⟩ := exists_content_of_report? h
  obtain ⟨span, hsource, hlocation⟩ := exists_span_of_mem_checkTree hrules hmem
  rw [SourceFile.content_inProject] at hsource
  exact ⟨content, span, hread, hsource, hlocation⟩

/-- Violations of discovered files are sorted by file and offset. -/
theorem comesFirst_iff (hwell : tree.WellFormed)
    (hdiscover : analyzer.discover tree environment = .ok paths) (hpath : path ∈ paths)
    (hpath' : path' ∈ paths) {a b : Violation}
    (ha : analyzer.ShownIn tree environment.workingDirectory path a)
    (hb : analyzer.ShownIn tree environment.workingDirectory path' b) :
    LintResult.comesFirst a b = true ↔ a.location.file.compare b.location.file = .lt ∨
      a.location.file = b.location.file ∧ a.location.offset ≤ b.location.offset := by
  obtain ⟨content, span, hread, hsource, hlocation⟩ := ha
  obtain ⟨content', span', hread', hsource', hlocation'⟩ := hb
  obtain ⟨hcompare, heq⟩ := compare_inProject hwell hdiscover hpath hpath' content content'
  rw [LintResult.comesFirst_eq_isLE, LintResult.order, compareLex, hlocation, hlocation']
  simp only [SourceFile.location, Location.ofSpan] at *
  cases hfiles : path.compare path' with
  | lt => simp [hcompare, hfiles]
  | eq =>
    -- Paths that tie are one path, so both spans are spans of one text.
    obtain rfl := heq hfiles
    obtain rfl : content = content' := Except.ok.inj (hread.symm.trans hread')
    have hposition := Text.Span.compare_position (hsource.trans hsource'.symm)
    have hself := @Std.ReflCmp.compare_self _ Path.compare _
      (SourceFile.inProject analyzer.root path content).path
    have horder : compareLex (compareOn (·.location.line)) (compareOn (·.location.column)) a b =
        compare span.start span'.start := by
      rw [compareLex, compareOn, compareOn, hlocation, hlocation']
      exact hposition
    rw [hself, Ordering.eq_then, horder, Nat.isLE_compare]
    simp
  | gt =>
    have hne : (SourceFile.inProject analyzer.root path content).path ≠
        (SourceFile.inProject analyzer.root path' content').path := by
      intro hsame
      rw [hsame, @Std.ReflCmp.compare_self _ Path.compare _, hfiles] at hcompare
      cases hcompare
    simp [hcompare, hfiles, hne]

/-! ## The whole report -/

theorem exists_paths_of_run (hwell : tree.WellFormed)
    (hrun : (analyzer.run tree environment).result = .ok result) :
    ∃ paths, analyzer.discover tree environment = .ok paths ∧
      result.violations = ((paths.filterMap
        (analyzer.report? tree environment.workingDirectory)).flatMap
          (·.violations)).mergeSort LintResult.comesFirst := by
  cases hdiscover : analyzer.discover tree environment with
  | error error => cases (run_of_discover_error hdiscover).2.symm.trans hrun
  | ok paths =>
    obtain ⟨rfl, -⟩ := exists_of_run_eq_ok hdiscover (leadApart_discover hwell hdiscover) hrun
    refine ⟨paths, rfl, ?_⟩
    rw [LintResult.foldl_add]
    rfl

theorem exists_shownIn_of_mem_reports (hrules : ∀ rule ∈ analyzer.rules, rule.LocatesInFile)
    {violation : Violation}
    (h : violation ∈ (paths.filterMap (analyzer.report? tree directory)).flatMap (·.violations)) :
    ∃ path ∈ paths, analyzer.ShownIn tree directory path violation := by
  obtain ⟨report, hreport, hmem⟩ := List.mem_flatMap.mp h
  obtain ⟨path, hpath, hreport⟩ := List.mem_filterMap.mp hreport
  exact ⟨path, hpath, shownIn_of_mem_report hrules hreport hmem⟩

/-- A report merges the reports on the discovered files: by file and offset, and at one offset in
the order of the walk, in whatever order the entries of the tree are listed. -/
theorem run_merges_reports (analyzer : Analyzer) (tree : FileTree) (environment : Environment)
    (hwell : tree.WellFormed) (hrules : ∀ rule ∈ analyzer.rules, rule.LocatesInFile)
    {result : LintResult} (hrun : (analyzer.run tree environment).result = .ok result) :
    ∃ paths, analyzer.discover tree environment = .ok paths ∧
      let directory := environment.workingDirectory
      let found := (paths.filterMap (analyzer.report? tree directory)).flatMap (·.violations)
      (paths.Pairwise fun a b ↦ a.compare b = .lt) ∧
      (∀ path ∈ paths, ∀ path' ∈ paths, ∀ content content',
        (SourceFile.inProject analyzer.root path content).path.compare
          (SourceFile.inProject analyzer.root path' content').path = path.compare path') ∧
      result.violations.Perm found ∧
      (result.violations.Pairwise fun a b ↦ a.location.file.compare b.location.file = .lt ∨
        a.location.file = b.location.file ∧ a.location.offset ≤ b.location.offset) ∧
      (∀ file offset,
        result.violations.filter (fun violation ↦
          violation.location.file = file ∧ violation.location.offset = offset) =
        found.filter fun violation ↦
          violation.location.file = file ∧ violation.location.offset = offset) ∧
      (∀ path ∈ paths, ∀ report, analyzer.report? tree directory path = some report →
        ∃ content root, tree.readText directory path = .ok content ∧
          analyzer.language.parse content = .ok root ∧
          analyzer.checkText path content = .ok report ∧
          (∀ violation ∈ report.violations, violation.location.file =
            (SourceFile.inProject analyzer.root path content).path) ∧
          List.Forall₂ Violation.SameOffence report.violations
            (traversed analyzer.rules analyzer.config
              (SourceFile.inProject analyzer.root path content) root)) ∧
      ∀ other : FileTree, tree.entries.Perm other.entries →
        (analyzer.run other environment).result = .ok result := by
  obtain ⟨paths, hdiscover, hviolations⟩ := exists_paths_of_run hwell hrun
  refine ⟨paths, hdiscover, ?_⟩
  intro directory found
  have hfirst (a b : Violation) (ha : a ∈ found) (hb : b ∈ found) :
      LintResult.comesFirst a b = true ↔ a.location.file.compare b.location.file = .lt ∨
        a.location.file = b.location.file ∧ a.location.offset ≤ b.location.offset := by
    obtain ⟨path, hpath, hshown⟩ := exists_shownIn_of_mem_reports hrules ha
    obtain ⟨path', hpath', hshown'⟩ := exists_shownIn_of_mem_reports hrules hb
    exact comesFirst_iff hwell hdiscover hpath hpath' hshown hshown'
  have hperm : result.violations.Perm found := hviolations ▸ List.mergeSort_perm _ _
  refine ⟨pairwise_lt_discover hwell hdiscover, ?_, hperm, ?_, ?_, ?_, ?_⟩
  · intro path hpath path' hpath' content content'
    exact (compare_inProject hwell hdiscover hpath hpath' content content').1
  · have hsorted : result.violations.Pairwise fun a b ↦ LintResult.comesFirst a b = true :=
      hviolations ▸
        List.pairwise_mergeSort LintResult.comesFirst_trans LintResult.comesFirst_total _
    apply hsorted.imp_of_mem
    intro a b ha hb
    exact (hfirst a b (hperm.mem_iff.mp ha) (hperm.mem_iff.mp hb)).mp
  · intro file offset
    rw [hviolations]
    apply filter_mergeSort_of_ties LintResult.comesFirst_trans LintResult.comesFirst_total
    intro a ha b hb hat hat'
    rw [decide_eq_true_eq] at hat hat'
    rw [hfirst a b ha hb]
    exact .inr ⟨hat.1.trans hat'.1.symm, (hat.2.trans hat'.2.symm).le⟩
  · intro path hpath report hreport
    obtain ⟨content, root, hread, hparse, rfl⟩ := exists_content_of_report? hreport
    refine ⟨content, root, hread, hparse, ?_, ?_, violations_checkTree_sameOffence _ _ _ _ _⟩
    · rw [checkText, hparse]
    · intro violation hmem
      obtain ⟨span, -, hlocation⟩ := exists_span_of_mem_checkTree hrules hmem
      rw [hlocation]
      rfl
  · intro other hlisting
    rw [← result_run_perm hwell hlisting, hrun]

end Analyzer

theorem symbolRule_locatesInFile (fixable : Bool) (newText? : Option String) :
    (symbolRule fixable newText?).LocatesInFile := by
  intro file node violation h
  simp only [symbolRule, Option.bind_eq_bind] at h
  split at h
  · obtain ⟨span, hspan, heq⟩ := Option.bind_eq_some_iff.mp h
    cases heq
    exact ⟨span, (Text.Span.ofRange?_eq_some_iff.mp hspan).1, rfl⟩
  · cases h

theorem Analyzer.run_merges_reports_symbols : symbolTree.WellFormed ∧
    (∀ rule ∈ (symbolAnalyzer false).rules, rule.LocatesInFile) ∧
    ∃ result, ((symbolAnalyzer false).run symbolTree symbolEnvironment).result = .ok result ∧
      result.violations.length = 2 ∧
      ((symbolAnalyzer false).run ⟨symbolTree.entries.reverse⟩ symbolEnvironment).result =
        .ok result := by
  have hwell := wellFormed_symbolTree
  have hrules : ∀ rule ∈ (symbolAnalyzer false).rules, rule.LocatesInFile := by
    intro rule hrule
    obtain rfl := List.mem_singleton.mp hrule
    exact symbolRule_locatesInFile true (some "x")
  refine ⟨hwell, hrules, _, result_run_symbolTree, ?_, ?_⟩
  · obtain ⟨ha, hb, hc⟩ := readText_symbolTree
    rw [LintResult.sorted, List.length_mergeSort, LintResult.foldl_add]
    simp only [List.filterMap_cons, List.filterMap_nil, report?, checkFile, ha, hb, hc]
    decide +kernel
  · obtain ⟨-, -, -, -, -, -, -, -, hlisting⟩ := run_merges_reports (symbolAnalyzer false)
      symbolTree symbolEnvironment hwell hrules result_run_symbolTree
    exact hlisting _ (List.reverse_perm _).symm

end SpecWording
