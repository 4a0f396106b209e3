import SpecWording.Analysis.Discovery
import SpecWording.Proofs.Files.WellFormed

/-!
# What is discovered

Discovering files looks at the tree for three things: where the root leads, what the ignore files
around it say, and which files stand below it. The paths of the files come in order, whatever the
order in which the files are met.
-/

namespace SpecWording

open FileTree

namespace Discovery

theorem comesFirst_eq_isLE (a b : Path) : comesFirst a b = (a.compare b).isLE := by
  unfold comesFirst
  cases a.compare b <;> rfl

theorem comesFirst_trans (a b c : Path) (hab : comesFirst a b) (hbc : comesFirst b c) :
    comesFirst a c := by
  rw [comesFirst_eq_isLE] at *
  exact Std.TransCmp.isLE_trans hab hbc

theorem comesFirst_total (a b : Path) : comesFirst a b || comesFirst b a := by
  rw [comesFirst_eq_isLE, comesFirst_eq_isLE, @Std.OrientedCmp.eq_swap _ Path.compare _ b a]
  cases a.compare b <;> rfl

variable {tree : FileTree} {root : Path} {directory rest rest' : Place} {name : String}
  {entry : Entry}

/-! ## Paths below the root -/

theorem pathOf_concat (root : Path) (rest : Place) (name : String) :
    pathOf root (rest ++ [name]) = (pathOf root rest).join ⟨name⟩ := by
  rw [pathOf, List.foldl_append, List.foldl_cons, List.foldl_nil, pathOf]

/-- The path of names below a root: the root's parts and then the names. -/
theorem parts_pathOf (hroot : root.text ≠ "") (hrest : ∀ name ∈ rest, Path.IsName name) :
    (pathOf root rest).text ≠ "" ∧ (pathOf root rest).split.1 = root.split.1 ∧
      (pathOf root rest).parts = root.parts ++ rest.map .name := by
  induction rest using List.reverseRecOn with
  | nil => exact ⟨hroot, rfl, (List.append_nil _).symm⟩
  | append_singleton rest name ih =>
    rw [List.forall_mem_append, List.forall_mem_singleton] at hrest
    obtain ⟨htext, hleading, hparts⟩ := ih hrest.1
    rw [pathOf_concat]
    refine ⟨Path.text_join_ne_empty hrest.2.isStep, ?_, ?_⟩
    · rw [Path.leading_join htext hrest.2.isStep, hleading]
    · rw [Path.parts_join htext hrest.2, hparts, List.append_assoc, List.map_append,
        List.map_singleton]

/-- A path below the root is shown by the names alone. -/
theorem parts_inProject (hroot : root.text ≠ "") (hrest : ∀ name ∈ rest, Path.IsName name)
    (hne : rest ≠ []) (content : String) :
    (SourceFile.inProject root (pathOf root rest) content).path.parts = rest.map .name := by
  obtain ⟨-, hleading, hparts⟩ := parts_pathOf hroot hrest
  obtain ⟨relative, hbelow, hrelative⟩ := Path.exists_below? hroot hleading hparts
  have hempty : relative.text.isEmpty = false := by
    rw [Bool.eq_false_iff, ne_eq, String.isEmpty_iff]
    intro htext
    rw [show relative = ⟨""⟩ from congrArg Path.mk htext] at hrelative
    exact hne (List.map_eq_nil_iff.mp hrelative.symm)
  simp [SourceFile.inProject, hbelow, hempty, hrelative]

theorem name_injective : Function.Injective Path.Part.name := fun _ _ h ↦ Path.Part.name.inj h

theorem compare_pathOf (hroot : root.text ≠ "") (hrest : ∀ name ∈ rest, Path.IsName name)
    (hrest' : ∀ name ∈ rest', Path.IsName name) :
    (pathOf root rest).compare (pathOf root rest') =
      Path.compareParts (rest.map .name) (rest'.map .name) := by
  rw [Path.compare, (parts_pathOf hroot hrest).2.2, (parts_pathOf hroot hrest').2.2,
    Path.compareParts_append_left]

/-- Only equal names give paths that tie. -/
theorem eq_of_compare_pathOf (hroot : root.text ≠ "") (hrest : ∀ name ∈ rest, Path.IsName name)
    (hrest' : ∀ name ∈ rest', Path.IsName name)
    (h : (pathOf root rest).compare (pathOf root rest') = .eq) : rest = rest' := by
  rw [compare_pathOf hroot hrest hrest'] at h
  exact name_injective.list_map (Std.LawfulEqCmp.eq_of_compare h)

/-! ## Files below the root -/

theorem mem_below_iff : (rest, entry) ∈ tree.below directory ↔
    rest ≠ [] ∧ (directory ++ rest, entry) ∈ tree.entries := by
  simp only [below, List.mem_filterMap, Prod.exists, Option.ite_none_right_eq_some,
    Bool.and_eq_true, List.isPrefixOf_iff_prefix, decide_eq_true_eq, Option.some.injEq,
    Prod.mk.injEq]
  constructor
  · rintro ⟨_, _, hmem, ⟨⟨rest, rfl⟩, hlength⟩, rfl, rfl⟩
    rw [List.drop_left]
    rw [List.length_append, Nat.lt_add_right_iff_pos, List.length_pos_iff] at hlength
    exact ⟨hlength, hmem⟩
  · rintro ⟨hne, hmem⟩
    refine ⟨_, _, hmem, ⟨List.prefix_append _ _, ?_⟩, List.drop_left, rfl⟩
    rw [List.length_append, Nat.lt_add_right_iff_pos, List.length_pos_iff]
    exact hne

theorem mem_filesBelow_iff : rest ∈ filesBelow tree directory ↔
    rest ≠ [] ∧ ∃ content, (directory ++ rest, .file content) ∈ tree.entries := by
  simp only [filesBelow, List.mem_filterMap, Prod.exists]
  constructor
  · rintro ⟨_, entry, hmem, hfile⟩
    split at hfile
    · cases hfile
      obtain ⟨hne, hmem⟩ := mem_below_iff.mp hmem
      exact ⟨hne, _, hmem⟩
    · cases hfile
  · rintro ⟨hne, content, hmem⟩
    exact ⟨rest, .file content, mem_below_iff.mpr ⟨hne, hmem⟩, rfl⟩

theorem isName_of_mem_filesBelow (hwell : tree.WellFormed) (h : rest ∈ filesBelow tree directory) :
    ∀ name ∈ rest, Path.IsName name := by
  obtain ⟨-, content, hmem⟩ := mem_filesBelow_iff.mp h
  intro name hname
  exact hwell.isName _ _ hmem name (List.mem_append_right _ hname)

/-- The path of an entry below the root leads to this entry. -/
theorem locate_pathOf (hwell : tree.WellFormed) {start : Place}
    (hroot : tree.locate start root false = .ok directory)
    (hentry : tree.entry? (directory ++ rest) = some entry)
    (hlink : ∀ target, entry ≠ .link target) :
    tree.locate start (pathOf root rest) false = .ok (directory ++ rest) := by
  induction rest using List.reverseRecOn generalizing entry with
  | nil => rwa [List.append_nil]
  | append_singleton rest name ih =>
    rw [← List.append_assoc] at hentry
    have hmem := (hwell.entry?_eq_some_iff (by simp)).mp hentry
    have hdirectory := hwell.inDirectory _ _ hmem
    rw [List.dropLast_concat] at hdirectory
    have habove := ih (eq_of_beq hdirectory) nofun
    have hname := hwell.isName _ _ hmem name (by simp)
    rw [pathOf_concat, ← List.append_assoc]
    exact locate_join habove hname hdirectory hentry hlink

theorem nodup_filesBelow (hwell : tree.WellFormed) (directory : Place) :
    (filesBelow tree directory).Nodup := by
  have hentries : tree.entries.Pairwise fun a b ↦ a.1 ≠ b.1 := List.pairwise_map.mp hwell.nodup
  have hbelow : (tree.below directory).Pairwise fun a b ↦ a.1 ≠ b.1 := by
    apply List.Pairwise.filterMap _ _ hentries
    rintro ⟨place, entry⟩ ⟨place', entry'⟩ hne ⟨rest, found⟩ hrest ⟨rest', found'⟩ hrest' rfl
    simp only [Option.ite_none_right_eq_some, Bool.and_eq_true, List.isPrefixOf_iff_prefix,
      Option.some.injEq, Prod.mk.injEq] at hrest hrest'
    obtain ⟨⟨⟨back, rfl⟩, -⟩, rfl, -⟩ := hrest
    obtain ⟨⟨⟨back', rfl⟩, -⟩, heq, -⟩ := hrest'
    rw [List.drop_left, List.drop_left] at heq
    exact hne (heq ▸ rfl)
  apply List.Pairwise.filterMap _ _ hbelow
  rintro ⟨rest, entry⟩ ⟨rest', entry'⟩ hne found hfound found' hfound' rfl
  cases entry <;> cases hfound
  cases entry' <;> cases hfound'
  exact hne rfl

theorem filesBelow_perm {other : FileTree} (hperm : tree.entries.Perm other.entries)
    (directory : Place) : (filesBelow tree directory).Perm (filesBelow other directory) :=
  (below_perm hperm directory).filterMap _

end Discovery

open Discovery

namespace Analyzer

variable {analyzer : Analyzer} {tree : FileTree} {environment : Environment} {paths : List Path}

/-- The paths of the wanted files below a directory, in the order in which the files are met. -/
def wantedBelow (analyzer : Analyzer) (tree : FileTree) (environment : Environment)
    (directory : Place) : List Path :=
  let rules :=
    Ignore.Rules.read tree environment analyzer.config.files.respectGitignore directory
  ((((filesBelow tree directory).filter (!isSkipped rules directory analyzer.root ·)).map
    (pathOf analyzer.root)).filter analyzer.wants)

/-- A root that is a file is discovered alone, and otherwise what is wanted below it, in order. -/
theorem discover_eq_ok_iff : analyzer.discover tree environment = .ok paths ↔
    tree.isFile environment.workingDirectory analyzer.root = true ∧ paths = [analyzer.root] ∨
    tree.isFile environment.workingDirectory analyzer.root = false ∧
      ∃ directory, tree.locate environment.workingDirectory analyzer.root false = .ok directory ∧
        complaintsAbove tree analyzer.config.files.respectGitignore directory = [] ∧
        paths = (analyzer.wantedBelow tree environment directory).mergeSort comesFirst := by
  unfold discover wantedBelow
  dsimp only
  cases tree.isFile environment.workingDirectory analyzer.root with
  | true => simp [eq_comm (a := paths)]
  | false =>
    cases tree.locate environment.workingDirectory analyzer.root false with
    | error cause => simp
    | ok directory =>
      cases hcomplaints :
        complaintsAbove tree analyzer.config.files.respectGitignore directory with
      | nil => simp [hcomplaints, eq_comm (a := paths)]
      | cons complaint complaints => simp [hcomplaints]

/-- Below a root that is no file, the wanted files are discovered. -/
theorem exists_directory_of_discover
    (hroot : tree.isFile environment.workingDirectory analyzer.root = false)
    (h : analyzer.discover tree environment = .ok paths) :
    ∃ directory, tree.locate environment.workingDirectory analyzer.root false = .ok directory ∧
      complaintsAbove tree analyzer.config.files.respectGitignore directory = [] ∧
      paths = (analyzer.wantedBelow tree environment directory).mergeSort comesFirst := by
  rcases discover_eq_ok_iff.mp h with ⟨hfile, -⟩ | ⟨-, hdirectory⟩
  · rw [hroot] at hfile
    cases hfile
  · exact hdirectory

theorem pairwise_discover (h : analyzer.discover tree environment = .ok paths) :
    paths.Pairwise fun a b ↦ comesFirst a b = true := by
  rcases discover_eq_ok_iff.mp h with ⟨-, rfl⟩ | ⟨-, directory, -, -, rfl⟩
  · exact List.pairwise_singleton _ _
  · exact List.pairwise_mergeSort comesFirst_trans comesFirst_total _

end Analyzer

end SpecWording
