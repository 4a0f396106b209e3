import SpecWording.Ignore.Rules
import SpecWording.Proofs.Files.WellFormed

/-!
# The levels of ignore files

Only the ignore files of the directories above an entry speak about it. These directories have
different depths, so the levels that count come in one order only, although levels of one depth may
be listed in any. What the rules say is therefore the same for all listings of one tree.
-/

namespace SpecWording

open FileTree

namespace Ignore

namespace Level

/-- Whether a level is one of a directory above an entry. -/
def isAbove (entry : Place) (level : Level) : Bool :=
  level.directory.isPrefixOf entry && level.directory.length < entry.length

variable {kind : Level → Patterns} {levels others : List Level} {entry : Place} {isDirectory : Bool}

theorem verdict?_eq_findSome?_filter : verdict? kind levels entry isDirectory =
    (levels.filter (isAbove entry)).findSome? fun level ↦
      (kind level).verdict? ("/".intercalate (entry.drop level.directory.length)) isDirectory := by
  rw [verdict?, ← List.head?_filterMap, ← List.head?_filterMap, List.filterMap_filter]
  rfl

theorem directory_eq_of_isAbove {a b : Level} (ha : a.isAbove entry = true)
    (hb : b.isAbove entry = true) (hlength : a.directory.length = b.directory.length) :
    a.directory = b.directory := by
  rw [isAbove, Bool.and_eq_true, List.isPrefixOf_iff_prefix] at ha hb
  have hprefix : a.directory <+: b.directory :=
    List.prefix_of_prefix_length_le ha.1 hb.1 hlength.le
  exact hprefix.eq_of_length hlength

/-- The levels above an entry are in one order only, if the deeper ones come first. -/
theorem verdict?_perm (kind : Level → Patterns) (entry : Place) (isDirectory : Bool)
    (hperm : levels.Perm others)
    (hlevels : levels.Pairwise fun a b ↦ b.directory.length ≤ a.directory.length)
    (hothers : others.Pairwise fun a b ↦ b.directory.length ≤ a.directory.length)
    (hdirectory : ∀ a ∈ levels, ∀ b ∈ levels, a.directory = b.directory → a = b) :
    verdict? kind levels entry isDirectory = verdict? kind others entry isDirectory := by
  have habove : levels.filter (isAbove entry) = others.filter (isAbove entry) := by
    apply List.Perm.eq_of_pairwise _ (hlevels.filter _) (hothers.filter _) (hperm.filter _)
    intro a b ha hb hle hge
    obtain ⟨hmem, ha⟩ := List.mem_filter.mp ha
    obtain ⟨hmem', hb⟩ := List.mem_filter.mp hb
    apply hdirectory a hmem b (hperm.mem_iff.mpr hmem')
    exact directory_eq_of_isAbove ha hb (Nat.le_antisymm hge hle)
  rw [verdict?_eq_findSome?_filter, verdict?_eq_findSome?_filter, habove]

end Level

variable {tree other : FileTree} {environment : Environment} {useGit : Bool} {directory : Place}

section Listing

variable (hwell : tree.WellFormed) (hperm : tree.entries.Perm other.entries)

include hwell hperm

theorem readBytes_perm (directory : Place) (path : Path) :
    tree.readBytes directory path = other.readBytes directory path :=
  (hwell.sameShape hperm).readBytes fun place _ ↦ hwell.entry?_eq hperm place

theorem readPatterns_perm (directory : Place) (path : Path) :
    readPatterns tree directory path = readPatterns other directory path := by
  rw [readPatterns, readPatterns, readBytes_perm hwell hperm]

theorem read_perm (useGit : Bool) : Level.read tree useGit = Level.read other useGit := by
  funext directory
  simp only [Level.read, readPatterns_perm hwell hperm]

theorem readPersonal_perm (environment : Environment) :
    readPersonal tree environment = readPersonal other environment := by
  simp only [readPersonal, personalFile, readPatterns_perm hwell hperm,
    readBytes_perm hwell hperm]

end Listing

namespace Rules

theorem pairwise_mergeSort_deeper (levels : List Level) :
    (levels.mergeSort fun a b ↦ b.directory.length ≤ a.directory.length).Pairwise
      fun a b ↦ b.directory.length ≤ a.directory.length := by
  have hsorted : (levels.mergeSort fun a b ↦ b.directory.length ≤ a.directory.length).Pairwise
      fun a b ↦ decide (b.directory.length ≤ a.directory.length) = true := by
    apply List.pairwise_mergeSort
    · intro a b c hab hbc
      simp only [decide_eq_true_eq] at *
      exact hbc.trans hab
    · intro a b
      simp only [Bool.or_eq_true, decide_eq_true_eq]
      exact Nat.le_total _ _
  exact hsorted.imp of_decide_eq_true

/-- Deeper directories come first among the levels. -/
theorem pairwise_levels (tree : FileTree) (environment : Environment) (useGit : Bool)
    (directory : Place) : (read tree environment useGit directory).levels.Pairwise
      fun a b ↦ b.directory.length ≤ a.directory.length :=
  pairwise_mergeSort_deeper _

theorem exists_of_mem_levels {level : Level}
    (h : level ∈ (read tree environment useGit directory).levels) :
    ∃ place, level = Level.read tree useGit place := by
  rw [read, List.mem_mergeSort] at h
  obtain ⟨place, -, rfl⟩ := List.mem_map.mp (List.mem_of_mem_filter h)
  exact ⟨place, rfl⟩

variable (hwell : tree.WellFormed) (hperm : tree.entries.Perm other.entries)

include hwell hperm

theorem levels_perm (environment : Environment) (useGit : Bool) (directory : Place) :
    (read tree environment useGit directory).levels.Perm
      (read other environment useGit directory).levels := by
  have hbelow := below_perm hperm directory
  rw [read, read, ← read_perm hwell hperm]
  refine (List.mergeSort_perm _ _).trans (.trans ?_ (List.mergeSort_perm _ _).symm)
  exact ((((hbelow.filterMap _).cons directory).append_left (above directory)).map _).filter _

/-- The rules skip the same entries in whatever order the tree is listed. -/
theorem skips_perm (environment : Environment) (useGit : Bool) (directory : Place) :
    (read tree environment useGit directory).skips =
      (read other environment useGit directory).skips := by
  have hdirectory : ∀ a ∈ (read tree environment useGit directory).levels,
      ∀ b ∈ (read tree environment useGit directory).levels, a.directory = b.directory → a = b := by
    intro a ha b hb heq
    obtain ⟨place, rfl⟩ := exists_of_mem_levels ha
    obtain ⟨place', rfl⟩ := exists_of_mem_levels hb
    rw [show place = place' from heq]
  have hlevels (kind : Level → Patterns) (entry : Place) (isDirectory : Bool) :=
    Level.verdict?_perm kind entry isDirectory
      (levels_perm hwell hperm environment useGit directory)
      (pairwise_levels tree environment useGit directory)
      (pairwise_levels other environment useGit directory) hdirectory
  have hpersonal : (read tree environment useGit directory).personal =
      (read other environment useGit directory).personal := by
    rw [read, read, readPersonal_perm hwell hperm]
  funext entry walked isDirectory
  simp only [skips, verdict?, hlevels, hpersonal]

end Rules

end Ignore

end SpecWording
