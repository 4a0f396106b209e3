import SpecWording.Proofs.Analysis.WriteSet
import SpecWording.Proofs.Ignore.Levels

/-!
# The order in which a tree is listed

In a well-formed tree the path of a file below the root leads to this file, and different files have
different paths, also as they are shown. So the discovered paths lead to different places, the order
of paths leaves no choice, and a run gives the same result in whatever order the entries of the tree
are listed.
-/

namespace SpecWording

open FileTree

open Discovery

namespace Analyzer

variable {analyzer : Analyzer} {tree other : FileTree} {environment : Environment}
  {directory : Place} {path : Path} {paths : List Path}

/-! ## The discovered files of a well-formed tree -/

theorem exists_rest_of_mem_wantedBelow
    (h : path ∈ analyzer.wantedBelow tree environment directory) :
    ∃ rest ∈ filesBelow tree directory, path = pathOf analyzer.root rest := by
  obtain ⟨rest, hrest, rfl⟩ := List.mem_map.mp (List.mem_of_mem_filter h)
  exact ⟨rest, List.mem_of_mem_filter hrest, rfl⟩

/-- A wanted file has a path of names below the root. -/
theorem exists_names_of_mem_wantedBelow (hwell : tree.WellFormed)
    (h : path ∈ (analyzer.wantedBelow tree environment directory).mergeSort comesFirst) :
    ∃ rest : Place, (∀ name ∈ rest, Path.IsName name) ∧ rest ≠ [] ∧
      path = pathOf analyzer.root rest := by
  obtain ⟨rest, hrest, hpath⟩ := exists_rest_of_mem_wantedBelow (List.mem_mergeSort.mp h)
  exact ⟨rest, isName_of_mem_filesBelow hwell hrest, (mem_filesBelow_iff.mp hrest).1, hpath⟩

/-- What holds of the paths of any two files below the root holds of any two wanted ones. -/
theorem pairwise_wantedBelow {r : Path → Path → Prop} (hwell : tree.WellFormed)
    (h : ∀ rest ∈ filesBelow tree directory, ∀ rest' ∈ filesBelow tree directory, rest ≠ rest' →
      r (pathOf analyzer.root rest) (pathOf analyzer.root rest')) :
    (analyzer.wantedBelow tree environment directory).Pairwise r := by
  apply List.Pairwise.filter
  rw [List.pairwise_map]
  apply List.Pairwise.filter
  apply (nodup_filesBelow hwell directory).imp_of_mem
  intro rest rest' hrest hrest'
  exact h rest hrest rest' hrest'

section Located

variable (hwell : tree.WellFormed)
  (hroot : tree.locate environment.workingDirectory analyzer.root false = .ok directory)

include hwell hroot

theorem leadApart_pathOf {rest rest' : Place} (hrest : rest ∈ filesBelow tree directory)
    (hrest' : rest' ∈ filesBelow tree directory) (hne : rest ≠ rest') :
    tree.LeadApart environment.workingDirectory (pathOf analyzer.root rest)
      (pathOf analyzer.root rest') := by
  obtain ⟨-, content, hmem⟩ := mem_filesBelow_iff.mp hrest
  obtain ⟨-, content', hmem'⟩ := mem_filesBelow_iff.mp hrest'
  intro place hplace hplace'
  rw [locate_pathOf hwell hroot (hwell.entry?_of_mem hmem) nofun] at hplace
  rw [locate_pathOf hwell hroot (hwell.entry?_of_mem hmem') nofun] at hplace'
  rw [← Except.ok.inj hplace, Except.ok.injEq] at hplace'
  exact hne (List.append_cancel_left hplace').symm

theorem compare_pathOf_ne_eq {rest rest' : Place} (hrest : rest ∈ filesBelow tree directory)
    (hrest' : rest' ∈ filesBelow tree directory) (hne : rest ≠ rest') :
    (pathOf analyzer.root rest).compare (pathOf analyzer.root rest') ≠ .eq := by
  intro htie
  exact hne (eq_of_compare_pathOf (text_ne_empty_of_locate hroot)
    (isName_of_mem_filesBelow hwell hrest) (isName_of_mem_filesBelow hwell hrest') htie)

/-- Only equal paths below the root tie. -/
theorem eq_of_comesFirst (a b : Path) (ha : a ∈ analyzer.wantedBelow tree environment directory)
    (hb : b ∈ analyzer.wantedBelow tree environment directory) (hab : comesFirst a b = true)
    (hba : comesFirst b a = true) : a = b := by
  obtain ⟨rest, hrest, rfl⟩ := exists_rest_of_mem_wantedBelow ha
  obtain ⟨rest', hrest', rfl⟩ := exists_rest_of_mem_wantedBelow hb
  rw [comesFirst_eq_isLE] at hab hba
  have htie := @Std.OrientedCmp.isLE_antisymm _ Path.compare _ _ _ hab hba
  by_contra hne
  exact compare_pathOf_ne_eq hwell hroot hrest hrest' (fun h ↦ hne (h ▸ rfl)) htie

end Located

/-- Different discovered paths lead to different places. -/
theorem leadApart_discover (hwell : tree.WellFormed)
    (h : analyzer.discover tree environment = .ok paths) :
    paths.Pairwise (tree.LeadApart environment.workingDirectory) := by
  rcases discover_eq_ok_iff.mp h with ⟨-, rfl⟩ | ⟨-, directory, hroot, -, rfl⟩
  · exact List.pairwise_singleton _ _
  · have hperm := List.mergeSort_perm (analyzer.wantedBelow tree environment directory) comesFirst
    refine (hperm.pairwise_iff fun h ↦ h.symm).mpr (pairwise_wantedBelow hwell ?_)
    intro rest hrest rest' hrest' hne
    exact leadApart_pathOf hwell hroot hrest hrest' hne

/-- Discovered files come in the order of their paths, each once. -/
theorem pairwise_lt_discover (hwell : tree.WellFormed)
    (h : analyzer.discover tree environment = .ok paths) :
    paths.Pairwise fun a b ↦ a.compare b = .lt := by
  have hsorted := pairwise_discover h
  rcases discover_eq_ok_iff.mp h with ⟨-, rfl⟩ | ⟨-, directory, hroot, -, rfl⟩
  · exact List.pairwise_singleton _ _
  · have hperm := List.mergeSort_perm (analyzer.wantedBelow tree environment directory) comesFirst
    have hsymm : ∀ {a b : Path}, a.compare b ≠ .eq → b.compare a ≠ .eq := by
      intro a b hne htie
      rw [@Std.OrientedCmp.eq_swap _ Path.compare _, htie] at hne
      exact hne rfl
    have hwanted : (analyzer.wantedBelow tree environment directory).Pairwise
        fun a b ↦ a.compare b ≠ .eq := by
      apply pairwise_wantedBelow hwell
      intro rest hrest rest' hrest' hne
      exact compare_pathOf_ne_eq hwell hroot hrest hrest' hne
    have hdifferent := (hperm.pairwise_iff hsymm).mpr hwanted
    apply hsorted.imp₂ _ hdifferent
    intro a b hle hne
    rw [comesFirst_eq_isLE] at hle
    cases hcompare : a.compare b with
    | lt => rfl
    | eq => exact absurd hcompare hne
    | gt =>
      rw [hcompare] at hle
      cases hle

/-! ## Another listing of the same tree -/

section Listing

variable (hwell : tree.WellFormed) (hperm : tree.entries.Perm other.entries)

include hwell hperm

theorem wantedBelow_perm (analyzer : Analyzer) (environment : Environment) (directory : Place) :
    (analyzer.wantedBelow tree environment directory).Perm
      (analyzer.wantedBelow other environment directory) := by
  have hskipped (useGit : Bool) :
      isSkipped (.read tree environment useGit directory) directory analyzer.root =
        isSkipped (.read other environment useGit directory) directory analyzer.root := by
    funext rest
    simp only [isSkipped, Ignore.Rules.skips_perm hwell hperm]
  rw [wantedBelow, wantedBelow, hskipped]
  exact (((filesBelow_perm hperm directory).filter _).map _).filter _

theorem discover_perm (analyzer : Analyzer) (environment : Environment) :
    analyzer.discover tree environment = analyzer.discover other environment := by
  have hfile : tree.isFile environment.workingDirectory analyzer.root =
      other.isFile environment.workingDirectory analyzer.root := by
    rw [isFile, isFile, (hwell.sameShape hperm).find fun place _ ↦ hwell.entry?_eq hperm place]
  have hlocate := (hwell.sameShape hperm).locate environment.workingDirectory analyzer.root false
  unfold discover
  dsimp only
  rw [hfile, ← hlocate]
  cases hroot : tree.locate environment.workingDirectory analyzer.root false with
  | error cause => rfl
  | ok directory =>
    have hsorted : (analyzer.wantedBelow tree environment directory).mergeSort comesFirst =
        (analyzer.wantedBelow other environment directory).mergeSort comesFirst := by
      have hwanted := wantedBelow_perm hwell hperm analyzer environment directory
      apply List.Perm.eq_of_pairwise _ (List.pairwise_mergeSort comesFirst_trans comesFirst_total _)
        (List.pairwise_mergeSort comesFirst_trans comesFirst_total _)
        ((List.mergeSort_perm _ _).trans (hwanted.trans (List.mergeSort_perm _ _).symm))
      intro a b ha hb
      rw [List.mem_mergeSort] at ha hb
      exact eq_of_comesFirst hwell hroot a b ha (hwanted.mem_iff.mpr hb)
    unfold wantedBelow at hsorted
    dsimp only at hsorted ⊢
    rw [complaintsAbove, complaintsAbove, Ignore.read_perm hwell hperm, hsorted]

theorem checkFile_perm (directory : Place) (path : Path) :
    analyzer.checkFile tree directory path = analyzer.checkFile other directory path :=
  (checkFile_congr (hwell.sameShape hperm) fun place _ ↦ hwell.entry?_eq hperm place).symm

theorem result_run_perm (analyzer : Analyzer) (environment : Environment) :
    (analyzer.run tree environment).result = (analyzer.run other environment).result := by
  cases hdiscover : analyzer.discover tree environment with
  | error error =>
    rw [(run_of_discover_error hdiscover).2,
      (run_of_discover_error ((discover_perm hwell hperm analyzer environment).symm.trans
        hdiscover)).2]
  | ok paths =>
    have hdiscover' := (discover_perm hwell hperm analyzer environment).symm.trans hdiscover
    have hstop : analyzer.stop? tree environment.workingDirectory =
        analyzer.stop? other environment.workingDirectory := by
      funext path
      rw [stop?, stop?, checkFile_perm hwell hperm]
    have hreport : analyzer.report? tree environment.workingDirectory =
        analyzer.report? other environment.workingDirectory := by
      funext path
      rw [report?, report?, checkFile_perm hwell hperm]
    rw [result_run hdiscover (leadApart_discover hwell hdiscover),
      result_run hdiscover' (leadApart_discover (hwell.perm hperm) hdiscover'), hstop, hreport]

end Listing

end Analyzer

end SpecWording
