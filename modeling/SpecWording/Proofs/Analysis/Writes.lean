import Mathlib.Data.Set.Card
import SpecWording.Analysis.Run
import SpecWording.Proofs.Files.Lookup

/-!
# What a run writes

A run goes through the discovered files until one of them ends it, and writes nothing but the
corrected texts of the files that it went through. What it makes of a file is decided by the tree as
it was at the start: a file is checked before it is written, and no other file is written to its
place as long as the paths lead to different places.
-/

namespace SpecWording

namespace FileTree

/-- Two paths that do not lead to the same place. -/
def LeadApart (tree : FileTree) (directory : Place) (a b : Path) : Prop :=
  ∀ place, tree.locate directory a false = .ok place → tree.locate directory b false ≠ .ok place

theorem LeadApart.symm {tree : FileTree} {directory : Place} {a b : Path}
    (h : tree.LeadApart directory a b) : tree.LeadApart directory b a :=
  fun place hb ha ↦ h place ha hb

instance (tree : FileTree) (directory : Place) : Std.Symm (tree.LeadApart directory) :=
  ⟨fun _ _ h ↦ h.symm⟩

/-- The files after a corrected text, if there is one, was written to a place. -/
def revised (tree : FileTree) (place : Place) : Option String → FileTree
  | none => tree
  | some text => tree.put place (.file text.toUTF8)

variable {tree : FileTree} {place target : Place} {content : ByteArray}

theorem sameShape_revised (h : tree.entry? place = some (.file content))
    (corrected : Option String) : tree.SameShape (tree.revised place corrected) := by
  cases corrected with
  | none => exact .refl tree
  | some text => exact sameShape_put h text.toUTF8

theorem entry?_revised_of_ne (h : tree.entry? place = some (.file content))
    (corrected : Option String) (hne : target ≠ place) :
    FileTree.entry? (tree.revised place corrected) target = tree.entry? target := by
  cases corrected with
  | none => rfl
  | some text => rw [revised, entry?_put (ne_nil_of_entry?_file h), if_neg hne]

theorem entry?_revised_self (h : tree.entry? place = some (.file content)) (text : String) :
    FileTree.entry? (tree.revised place (some text)) place = some (.file text.toUTF8) := by
  rw [revised, entry?_put (ne_nil_of_entry?_file h), if_pos rfl]

end FileTree

namespace Analyzer

variable {analyzer : Analyzer} {tree now next : FileTree} {directory place : Place} {path : Path}
  {paths : List Path} {report : SourceReport} {result : LintResult} {error : AnalysisError}
  {text : String}

/-! ## One file -/

/-- Why a run ends at a file, if it does. -/
def stop? (analyzer : Analyzer) (tree : FileTree) (directory : Place) (path : Path) :
    Option AnalysisError :=
  match analyzer.checkFile tree directory path with
  | .ok _ => none
  | .error (.unparsable path reason) =>
    if analyzer.strict then some (.unparsable path reason) else none
  | .error error => some error

/-- The report on a file that can be read and parsed. -/
def report? (analyzer : Analyzer) (tree : FileTree) (directory : Place) (path : Path) :
    Option SourceReport :=
  (analyzer.checkFile tree directory path).toOption

/-- A path leads to a place, and checking the text that is there gives a corrected text. -/
def Corrects (analyzer : Analyzer) (tree : FileTree) (directory : Place) (path : Path)
    (place : Place) (text : String) : Prop :=
  tree.locate directory path false = .ok place ∧
    ∃ content report, tree.readText directory path = .ok content ∧
      analyzer.checkText path content = .ok report ∧ report.corrected = some text

theorem checkFile_eq_ok_iff : analyzer.checkFile tree directory path = .ok report ↔
    ∃ content, tree.readText directory path = .ok content ∧
      analyzer.checkText path content = .ok report := by
  unfold checkFile
  cases tree.readText directory path <;> simp

theorem corrects_iff : analyzer.Corrects tree directory path place text ↔
    tree.locate directory path false = .ok place ∧ ∃ report,
      analyzer.checkFile tree directory path = .ok report ∧ report.corrected = some text := by
  rw [Corrects]
  constructor
  · rintro ⟨hlocate, content, report, hread, hcheck, hcorrected⟩
    exact ⟨hlocate, report, checkFile_eq_ok_iff.mpr ⟨content, hread, hcheck⟩, hcorrected⟩
  · rintro ⟨hlocate, report, hreport, hcorrected⟩
    obtain ⟨content, hread, hcheck⟩ := checkFile_eq_ok_iff.mp hreport
    exact ⟨hlocate, content, report, hread, hcheck, hcorrected⟩

theorem exists_file_of_checkFile (h : analyzer.checkFile tree directory path = .ok report) :
    ∃ place content, tree.locate directory path false = .ok place ∧
      tree.entry? place = some (.file content) := by
  obtain ⟨content, hread, -⟩ := checkFile_eq_ok_iff.mp h
  obtain ⟨place, hlocate, hentry⟩ := FileTree.readText_eq_ok_iff.mp hread
  exact ⟨place, content.toUTF8, hlocate, hentry⟩

/-- Whatever a file is corrected to can be written back. -/
theorem exists_writeBack {content : ByteArray}
    (hlocate : tree.locate directory path false = .ok place)
    (hentry : tree.entry? place = some (.file content)) (corrected : Option String) :
    ∃ log, writeBack tree directory path corrected = .ok (tree.revised place corrected, log) := by
  cases corrected with
  | none => exact ⟨[], rfl⟩
  | some text =>
    rw [writeBack, FileTree.writeText_eq_put hlocate hentry]
    exact ⟨_, rfl⟩

/-- A file is checked as it was if nothing was written to its place. -/
theorem checkFile_congr (hshape : tree.SameShape now)
    (hfresh : ∀ place, tree.locate directory path false = .ok place →
      tree.entry? place = now.entry? place) :
    analyzer.checkFile now directory path = analyzer.checkFile tree directory path := by
  unfold checkFile
  rw [hshape.readText hfresh]

/-! ## The steps of a run -/

theorem analyzeFiles_of_stop? (h : analyzer.stop? now directory path = some error)
    (result : LintResult) (paths : List Path) :
    (analyzer.analyzeFiles directory now result (path :: paths)).tree = now ∧
      (analyzer.analyzeFiles directory now result (path :: paths)).result = .error error := by
  unfold stop? at h
  rw [analyzeFiles]
  cases hcheck : analyzer.checkFile now directory path with
  | ok report => simp [hcheck] at h
  | error cause =>
    rw [hcheck] at h
    cases cause with
    | unparsable path reason =>
      obtain ⟨hstrict, heq⟩ := Option.ite_none_right_eq_some.mp h
      simp [hstrict, Option.some.inj heq]
    | _ => simp_all

theorem analyzeFiles_of_report (h : analyzer.checkFile now directory path = .ok report)
    (hlocate : now.locate directory path false = .ok place) {content : ByteArray}
    (hentry : now.entry? place = some (.file content)) (result : LintResult) (paths : List Path) :
    (analyzer.analyzeFiles directory now result (path :: paths)).tree =
        (analyzer.analyzeFiles directory (now.revised place report.corrected)
          (result.add report) paths).tree ∧
      (analyzer.analyzeFiles directory now result (path :: paths)).result =
        (analyzer.analyzeFiles directory (now.revised place report.corrected)
          (result.add report) paths).result := by
  obtain ⟨log, hwrite⟩ := exists_writeBack hlocate hentry report.corrected
  rw [analyzeFiles, h]
  simp only [hwrite]
  exact ⟨rfl, rfl⟩

theorem analyzeFiles_of_unparsable {named : Path} {reason : String}
    (h : analyzer.checkFile now directory path = .error (.unparsable named reason))
    (hstrict : analyzer.strict = false) (result : LintResult) (paths : List Path) :
    (analyzer.analyzeFiles directory now result (path :: paths)).tree =
        (analyzer.analyzeFiles directory now result paths).tree ∧
      (analyzer.analyzeFiles directory now result (path :: paths)).result =
        (analyzer.analyzeFiles directory now result paths).result := by
  rw [analyzeFiles, h]
  simp [hstrict, Outcome.after]

/-- A file ends the run, or has a report, or is passed over because it cannot be parsed. -/
theorem checkFile_cases (analyzer : Analyzer) (tree : FileTree) (directory : Place) (path : Path) :
    (∃ error, analyzer.stop? tree directory path = some error) ∨
      (∃ report, analyzer.checkFile tree directory path = .ok report) ∨
      ∃ named reason, analyzer.checkFile tree directory path = .error (.unparsable named reason) ∧
        analyzer.strict = false := by
  unfold stop?
  cases hcheck : analyzer.checkFile tree directory path with
  | ok report => exact .inr (.inl ⟨report, rfl⟩)
  | error cause =>
    cases cause with
    | unparsable named reason =>
      cases hstrict : analyzer.strict with
      | true => exact .inl ⟨_, rfl⟩
      | false => exact .inr (.inr ⟨named, reason, rfl, rfl⟩)
    | _ => exact .inl ⟨_, rfl⟩

/-! ## The whole run -/

/-- The files `after` hold the corrected texts of some files of a tree, and otherwise what they
held `now`. -/
structure Rewrites (analyzer : Analyzer) (tree : FileTree) (directory : Place)
    (now after : FileTree) (paths : List Path) : Prop where
  written : ∀ path ∈ paths, ∀ place text, analyzer.Corrects tree directory path place text →
    after.entry? place = some (.file text.toUTF8)
  kept : ∀ place, (∀ path ∈ paths, ∀ text, ¬ analyzer.Corrects tree directory path place text) →
    after.entry? place = now.entry? place

/-- The files that a run goes through. -/
def passed (analyzer : Analyzer) (tree : FileTree) (directory : Place) (paths : List Path) :
    List Path :=
  paths.takeWhile fun path ↦ (analyzer.stop? tree directory path).isNone

theorem Rewrites.nil : analyzer.Rewrites tree directory now now [] :=
  ⟨by simp, fun _ _ ↦ rfl⟩

/-- A file without a corrected text may stand among those gone through. -/
theorem Rewrites.cons_of_not_corrects {after : FileTree}
    (h : analyzer.Rewrites tree directory now after paths)
    (hpath : ∀ place text, ¬ analyzer.Corrects tree directory path place text) :
    analyzer.Rewrites tree directory now after (path :: paths) := by
  constructor
  · intro other hmem place text hcorrects
    rcases List.mem_cons.mp hmem with rfl | hmem
    · exact absurd hcorrects (hpath place text)
    · exact h.written other hmem place text hcorrects
  · intro place hnone
    exact h.kept place fun other hmem ↦ hnone other (List.mem_cons_of_mem _ hmem)

/-- Writing one file back and then going through files at other places. -/
theorem Rewrites.cons_of_report {after : FileTree} {content : ByteArray}
    (hreport : analyzer.checkFile tree directory path = .ok report)
    (hlocate : tree.locate directory path false = .ok place)
    (hentry : now.entry? place = some (.file content))
    (hapart : ∀ other ∈ paths, tree.LeadApart directory path other)
    (h : analyzer.Rewrites tree directory (now.revised place report.corrected) after paths) :
    analyzer.Rewrites tree directory now after (path :: paths) := by
  -- No later file leads to this place, so nothing is written over the corrected text.
  have huntouched : after.entry? place =
      FileTree.entry? (now.revised place report.corrected) place := by
    apply h.kept
    intro other hmem text hcorrects
    exact hapart other hmem place hlocate hcorrects.1
  constructor
  · intro other hmem target text hcorrects
    rcases List.mem_cons.mp hmem with rfl | hmem
    · obtain ⟨hlocate', report', hreport', hcorrected⟩ := corrects_iff.mp hcorrects
      obtain rfl : place = target := Except.ok.inj (hlocate.symm.trans hlocate')
      obtain rfl : report = report' := Except.ok.inj (hreport.symm.trans hreport')
      rw [huntouched, hcorrected, FileTree.entry?_revised_self hentry]
    · exact h.written other hmem target text hcorrects
  · intro target hnone
    rw [h.kept target fun other hmem ↦ hnone other (List.mem_cons_of_mem _ hmem)]
    by_cases htarget : target = place
    · have huncorrected : report.corrected = none := by
        rw [Option.eq_none_iff_forall_ne_some]
        intro text hcorrected
        exact hnone path List.mem_cons_self text
          (corrects_iff.mpr ⟨htarget ▸ hlocate, report, hreport, hcorrected⟩)
      rw [huncorrected, FileTree.revised]
    · exact FileTree.entry?_revised_of_ne hentry _ htarget

/-- A run through files that are still as they were ends at the first file that ends it, with the
reports on the tree of the start and nothing rewritten but the files before. -/
theorem analyzeFiles_rewrites (hshape : tree.SameShape now)
    (hapart : paths.Pairwise (tree.LeadApart directory))
    (hfresh : ∀ path ∈ paths, ∀ place, tree.locate directory path false = .ok place →
      tree.entry? place = now.entry? place) (result : LintResult) :
    (analyzer.analyzeFiles directory now result paths).result =
        (match paths.findSome? (analyzer.stop? tree directory) with
        | some error => .error error
        | none => .ok ((paths.filterMap (analyzer.report? tree directory)).foldl .add result)) ∧
      analyzer.Rewrites tree directory now
        (analyzer.analyzeFiles directory now result paths).tree
        (analyzer.passed tree directory paths) := by
  -- `now` is the tree in the middle of the run: the files still to come are in it as at the start.
  induction paths generalizing now result with
  | nil => exact ⟨rfl, .nil⟩
  | cons path paths ih =>
    obtain ⟨hfirst, hothers⟩ := List.pairwise_cons.mp hapart
    have hcheck : analyzer.checkFile now directory path = analyzer.checkFile tree directory path :=
      checkFile_congr hshape (hfresh path List.mem_cons_self)
    have hstop : analyzer.stop? now directory path = analyzer.stop? tree directory path := by
      rw [stop?, stop?, hcheck]
    have hlater : ∀ other ∈ paths, ∀ place, tree.locate directory other false = .ok place →
        tree.entry? place = now.entry? place :=
      fun other hmem ↦ hfresh other (List.mem_cons_of_mem _ hmem)
    rcases checkFile_cases analyzer tree directory path with
      ⟨error, herror⟩ | ⟨report, hreport⟩ | ⟨named, reason, hunparsable, hstrict⟩
    · obtain ⟨htree, hresult⟩ := analyzeFiles_of_stop? (hstop.trans herror) result paths
      rw [htree, hresult, List.findSome?_cons, herror, passed,
        List.takeWhile_cons_of_neg (by simp [herror])]
      exact ⟨rfl, .nil⟩
    · obtain ⟨place, content, hlocate, hentry⟩ := exists_file_of_checkFile hreport
      have hentry' : now.entry? place = some (.file content) := by
        rw [← hfresh path List.mem_cons_self place hlocate, hentry]
      have hnone : analyzer.stop? tree directory path = none := by
        rw [stop?, hreport]
      obtain ⟨htree, hresult⟩ := analyzeFiles_of_report (hcheck.trans hreport)
        ((hshape.locate directory path false).symm.trans hlocate) hentry' result paths
      have hshape' : tree.SameShape (now.revised place report.corrected) :=
        hshape.trans (FileTree.sameShape_revised hentry' _)
      have hfresh' : ∀ other ∈ paths, ∀ target, tree.locate directory other false = .ok target →
          tree.entry? target = FileTree.entry? (now.revised place report.corrected) target := by
        intro other hmem target htarget
        have hne : target ≠ place := by
          rintro rfl
          exact hfirst other hmem target hlocate htarget
        rw [FileTree.entry?_revised_of_ne hentry' _ hne]
        exact hlater other hmem target htarget
      obtain ⟨hresult', hrewrites⟩ := ih hshape' hothers hfresh' (result.add report)
      rw [htree, hresult, List.findSome?_cons, hnone, passed,
        List.takeWhile_cons_of_pos (by simp [hnone]), List.filterMap_cons, report?, hreport]
      refine ⟨hresult', hrewrites.cons_of_report hreport hlocate hentry' ?_⟩
      intro other hmem
      exact hfirst other ((List.takeWhile_prefix _).subset hmem)
    · have hnone : analyzer.stop? tree directory path = none := by
        simp [stop?, hunparsable, hstrict]
      obtain ⟨htree, hresult⟩ := analyzeFiles_of_unparsable (hcheck.trans hunparsable) hstrict
        result paths
      obtain ⟨hresult', hrewrites⟩ := ih hshape hothers hlater result
      rw [htree, hresult, List.findSome?_cons, hnone, passed,
        List.takeWhile_cons_of_pos (by simp [hnone]), List.filterMap_cons, report?, hunparsable]
      refine ⟨hresult', hrewrites.cons_of_not_corrects ?_⟩
      intro place text hcorrects
      obtain ⟨-, report, hreport, -⟩ := corrects_iff.mp hcorrects
      rw [hunparsable] at hreport
      cases hreport

end Analyzer

end SpecWording
