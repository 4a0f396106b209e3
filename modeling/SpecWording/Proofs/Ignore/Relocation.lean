import SpecWording.Proofs.Analysis.Discovery
import SpecWording.Proofs.Files.Following
import SpecWording.Proofs.Ignore.Levels

/-!
# Ignore files below a directory

What the ignore files below a directory say about an entry below it does not depend on where the
directory is: their levels are the same for any two directories below which the same entries stand,
apart from the names in front. So if no other ignore file has a say, the same entries are skipped.
-/

namespace SpecWording

open FileTree

namespace Ignore

/-- The ignore files of a directory, seen from there. -/
def files : List Path := [generalFile, repositoryFile, checkoutFile]

theorem mem_files : generalFile ∈ files ∧ repositoryFile ∈ files ∧ checkoutFile ∈ files := by
  simp [files]

/-- The ignore files of a directory are reached by names. -/
theorem isName_of_mem_files {file : Path} (h : file ∈ files) :
    file.text.isEmpty = false ∧ file.isAbsolute = false ∧
      ∀ name ∈ FileTree.steps file, Path.IsName name := by
  simp only [files, List.mem_cons, List.not_mem_nil, or_false] at h
  rcases h with rfl | rfl | rfl <;> decide +kernel

end Ignore

namespace FileTree

/-- Directories below which the same entries stand. A link may lead elsewhere from one than from the
other, so an ignore file behind a link has to be the same besides. -/
structure SameBelow (tree other : FileTree) (place place' : Place) : Prop where
  wellFormed : tree.WellFormed
  wellFormed' : other.WellFormed
  isDirectory : tree.isDirectoryAt place = true
  isDirectory' : other.isDirectoryAt place' = true
  perm : (tree.below place).Perm (other.below place')
  linked : ∀ rest, ∀ file ∈ Ignore.files, tree.isDirectoryAt (place ++ rest) = true →
    (∃ front target, front <+: FileTree.steps file ∧
      tree.entry? (place ++ rest ++ front) = some (.link target)) →
      tree.readBytes (place ++ rest) file = other.readBytes (place' ++ rest) file

theorem SameBelow.refl {tree : FileTree} {place : Place} (hwell : tree.WellFormed)
    (hplace : tree.isDirectoryAt place = true) : tree.SameBelow tree place place where
  wellFormed := hwell
  wellFormed' := hwell
  isDirectory := hplace
  isDirectory' := hplace
  perm := .refl _
  linked := fun _ _ _ _ _ ↦ rfl

/-- Without links, the same entries are enough. -/
theorem LinkFree.sameBelow {tree other : FileTree} {place place' : Place} (hlinks : tree.LinkFree)
    (hwell : tree.WellFormed) (hwell' : other.WellFormed)
    (hplace : tree.isDirectoryAt place = true) (hplace' : other.isDirectoryAt place' = true)
    (hperm : (tree.below place).Perm (other.below place')) :
    tree.SameBelow other place place' where
  wellFormed := hwell
  wellFormed' := hwell'
  isDirectory := hplace
  isDirectory' := hplace'
  perm := hperm
  linked := by
    rintro rest file - - ⟨front, target, -, hentry⟩
    cases hlinks.isLink_eq_false hentry

namespace SameBelow

variable {tree other : FileTree} {place place' rest : Place} {file : Path} {steps : List String}

theorem entry?_eq (h : tree.SameBelow other place place') (rest : Place) :
    tree.entry? (place ++ rest) = other.entry? (place' ++ rest) := by
  by_cases hrest : rest = []
  · rw [hrest, List.append_nil, List.append_nil, eq_of_beq h.isDirectory, eq_of_beq h.isDirectory']
  · have hmem (tree : FileTree) (place : Place) (entry : Entry) :
        (place ++ rest, entry) ∈ tree.entries ↔ (rest, entry) ∈ tree.below place := by
      rw [Discovery.mem_below_iff, and_iff_right hrest]
    ext entry
    rw [h.wellFormed.entry?_eq_some_iff (by simp [hrest]),
      h.wellFormed'.entry?_eq_some_iff (by simp [hrest]), hmem, hmem, h.perm.mem_iff]

theorem isDirectoryAt_eq (h : tree.SameBelow other place place') (rest : Place) :
    tree.isDirectoryAt (place ++ rest) = other.isDirectoryAt (place' ++ rest) := by
  rw [isDirectoryAt, isDirectoryAt, h.entry?_eq]

/-- Names lead to the same below the directories, unless one of them is a link. -/
theorem follow_eq (h : tree.SameBelow other place place') (links : Nat)
    (hsteps : ∀ name ∈ steps, Path.IsName name)
    (hlinks : ∀ front target, front <+: steps →
      tree.entry? (place ++ rest ++ front) ≠ some (.link target)) :
    ∃ outcome : Except PathError Place,
      tree.follow false links (place ++ rest) steps = outcome.map (place ++ ·) ∧
        other.follow false links (place' ++ rest) steps = outcome.map (place' ++ ·) := by
  induction steps generalizing rest with
  | nil => exact ⟨.ok rest, by rw [follow]; rfl, by rw [follow]; rfl⟩
  | cons step steps ih =>
    rw [List.forall_mem_cons] at hsteps
    have hdirectories := h.isDirectoryAt_eq rest
    cases hdirectory : tree.isDirectoryAt (place ++ rest) with
    | false =>
      refine ⟨.error .notDirectory, ?_, ?_⟩
      · exact follow_of_not_directory hdirectory (List.cons_ne_nil _ _)
      · exact follow_of_not_directory (hdirectories ▸ hdirectory) (List.cons_ne_nil _ _)
    | true =>
      have hentries := h.entry?_eq (rest ++ [step])
      have hfirst := hlinks [step]
      rw [follow_cons hdirectory hsteps.1.isStep,
        follow_cons (hdirectories ▸ hdirectory) hsteps.1.isStep, if_neg hsteps.1.ne_up,
        if_neg hsteps.1.ne_up, List.append_assoc, List.append_assoc, ← hentries]
      rw [List.append_assoc] at hfirst
      cases hentry : tree.entry? (place ++ (rest ++ [step])) with
      | none => exact ⟨.error .missing, rfl, rfl⟩
      | some entry =>
        have hmore := @ih (rest ++ [step]) hsteps.2 fun front target hfront ↦ by
          have hlonger := hlinks (step :: front) target (List.cons_prefix_cons.mpr ⟨rfl, hfront⟩)
          simpa using hlonger
        cases entry with
        | file content => exact hmore
        | directory => exact hmore
        | link target =>
          exact absurd hentry (hfirst target (List.cons_prefix_cons.mpr ⟨rfl, List.nil_prefix⟩))

/-- The ignore files of directories that stand in one place below the two hold the same. -/
theorem readBytes_eq (h : tree.SameBelow other place place')
    (hdirectory : tree.isDirectoryAt (place ++ rest) = true) (hfile : file ∈ Ignore.files) :
    tree.readBytes (place ++ rest) file = other.readBytes (place' ++ rest) file := by
  by_cases hlinked : ∃ front target, front <+: FileTree.steps file ∧
      tree.entry? (place ++ rest ++ front) = some (.link target)
  · exact h.linked rest file hfile hdirectory hlinked
  · obtain ⟨hempty, habsolute, hnames⟩ := Ignore.isName_of_mem_files hfile
    obtain ⟨outcome, htree, hother⟩ := h.follow_eq linkLimit hnames
      fun front target hfront hentry ↦ hlinked ⟨front, target, hfront, hentry⟩
    rw [readBytes, readBytes, find, find, locate, locate, hempty, habsolute]
    simp only [Bool.false_eq_true, if_false, htree, hother]
    cases outcome with
    | error cause => rfl
    | ok reached => simp only [Except.map, bind, Except.bind, h.entry?_eq]

end SameBelow

end FileTree

namespace Ignore

variable {tree other : FileTree} {environment environment' : Environment} {useGit : Bool}
  {place place' rest : Place} {levels : List Level}

namespace Level

/-- The level of a directory below a place, seen from there. -/
def readBelow (tree : FileTree) (useGit : Bool) (place rest : Place) : Level :=
  { read tree useGit (place ++ rest) with directory := rest }

/-- A level seen from the root. -/
def placed (place : Place) (level : Level) : Level :=
  { level with directory := place ++ level.directory }

theorem readBelow_eq (h : tree.SameBelow other place place')
    (hdirectory : tree.isDirectoryAt (place ++ rest) = true) :
    readBelow tree useGit place rest = readBelow other useGit place' rest := by
  have hpatterns {file : Path} (hfile : file ∈ files) :
      readPatterns tree (place ++ rest) file = readPatterns other (place' ++ rest) file := by
    rw [readPatterns, readPatterns, h.readBytes_eq hdirectory hfile]
  obtain ⟨hgeneral, hrepository, hcheckout⟩ := mem_files
  rw [readBelow, readBelow, read, read, hpatterns hgeneral, hpatterns hrepository,
    hpatterns hcheckout]

/-- What the levels say about an entry is said of the names below the place. -/
theorem verdict?_map_placed {kind : Level → Patterns}
    (hkind : ∀ level, kind (level.placed place) = kind level) (levels : List Level) (rest : Place)
    (isDirectory : Bool) : verdict? kind (levels.map (placed place)) (place ++ rest) isDirectory =
      verdict? kind levels rest isDirectory := by
  rw [verdict?, List.findSome?_map, verdict?]
  congr 1
  funext level
  have habove : (place ++ level.directory).isPrefixOf (place ++ rest) =
      level.directory.isPrefixOf rest := by
    rw [Bool.eq_iff_iff, List.isPrefixOf_iff_prefix, List.isPrefixOf_iff_prefix,
      List.prefix_append_right_inj]
  have hlength : (decide ((place ++ level.directory).length < (place ++ rest).length)) =
      decide (level.directory.length < rest.length) := by
    simp
  have hdrop : (place ++ rest).drop (place ++ level.directory).length =
      rest.drop level.directory.length := by
    rw [List.length_append, List.drop_append, List.drop_of_length_le (Nat.le_add_right _ _),
      List.nil_append, Nat.add_sub_cancel_left]
  simp only [Function.comp_apply, hkind]
  rw [placed, habove, hlength, hdrop]

/-- A directory in which no path leads to an ignore file. -/
theorem read_of_locate {directory : Place}
    (h : ∀ file ∈ files, ∃ cause, tree.locate directory file false = .error cause) :
    read tree useGit directory = { directory := directory } := by
  have hpatterns {file : Path} (hfile : file ∈ files) : readPatterns tree directory file = {} := by
    obtain ⟨cause, hcause⟩ := h file hfile
    rw [readPatterns, readBytes, find, hcause]
    rfl
  obtain ⟨hgeneral, hrepository, hcheckout⟩ := mem_files
  rw [read, hpatterns hgeneral, hpatterns hrepository, hpatterns hcheckout, ite_self]

/-- Without links, a directory in which walks find no ignore file. -/
theorem read_of_linkFree {directory : Place} (hlinks : tree.LinkFree)
    (h : ∀ file ∈ files, tree.walk directory (FileTree.steps file) = .error .missing) :
    read tree useGit directory = { directory := directory } := by
  apply read_of_locate
  intro file hfile
  obtain ⟨hempty, habsolute, -⟩ := isName_of_mem_files hfile
  refine ⟨.missing, ?_⟩
  rw [hlinks.locate_eq_walk, hempty, habsolute]
  exact h file hfile

end Level

namespace Rules

/-- The directories below a place, from there. -/
def directoriesBelow (tree : FileTree) (place : Place) : List Place :=
  [] :: (tree.below place).filterMap fun listed ↦
    if listed.2 == .directory then some listed.1 else none

/-- The rules of the ignore files below a place, seen from there. -/
def readBelow (tree : FileTree) (useGit : Bool) (place : Place) : Rules where
  levels := (((directoriesBelow tree place).map (Level.readBelow tree useGit place)).filter
    (!·.saysNothing)).mergeSort fun a b ↦ b.directory.length ≤ a.directory.length

theorem readBelow_eq_empty (h : ∀ rest ∈ directoriesBelow tree place,
    Level.read tree useGit (place ++ rest) = { directory := place ++ rest }) :
    readBelow tree useGit place = {} := by
  have hlevels : ((directoriesBelow tree place).map (Level.readBelow tree useGit place)).filter
      (!·.saysNothing) = [] := by
    rw [List.filter_eq_nil_iff]
    intro level hmem
    obtain ⟨rest, hrest, rfl⟩ := List.mem_map.mp hmem
    rw [Level.readBelow, h rest hrest]
    exact Bool.false_ne_true
  rw [readBelow, hlevels, List.mergeSort_nil]

theorem isDirectoryAt_of_mem_directoriesBelow (h : tree.SameBelow other place place')
    (hmem : rest ∈ directoriesBelow tree place) : tree.isDirectoryAt (place ++ rest) = true := by
  rcases List.mem_cons.mp hmem with rfl | hmem
  · rw [List.append_nil]
    exact h.isDirectory
  · obtain ⟨⟨below, entry⟩, hbelow, hrest⟩ := List.mem_filterMap.mp hmem
    rw [Option.ite_none_right_eq_some, beq_iff_eq, Option.some.injEq] at hrest
    obtain ⟨rfl, rfl⟩ := hrest
    obtain ⟨-, hlisted⟩ := Discovery.mem_below_iff.mp hbelow
    rw [isDirectoryAt, h.wellFormed.entry?_of_mem hlisted]
    rfl

/-- Only the ignore files of the directory and below are left where those above say nothing. -/
theorem levels_read (hsilent : ∀ front ∈ above place,
    Level.read tree useGit front = { directory := front }) :
    (read tree environment useGit place).levels =
      (readBelow tree useGit place).levels.map (Level.placed place) := by
  have habove : ((above place).map (Level.read tree useGit)).filter (!·.saysNothing) = [] := by
    rw [List.filter_eq_nil_iff]
    intro level hmem
    obtain ⟨front, hfront, rfl⟩ := List.mem_map.mp hmem
    rw [hsilent front hfront]
    exact Bool.false_ne_true
  have hinner : place :: ((tree.below place).filterMap fun listed ↦
      if listed.2 == .directory then some (place ++ listed.1) else none) =
        (directoriesBelow tree place).map (place ++ ·) := by
    rw [directoriesBelow, List.map_cons, List.append_nil, List.map_filterMap]
    congr 2
    funext listed
    cases listed.2 == .directory <;> rfl
  have hplaced : ((directoriesBelow tree place).map (place ++ ·)).map (Level.read tree useGit) =
      ((directoriesBelow tree place).map (Level.readBelow tree useGit place)).map
        (Level.placed place) := by
    rw [List.map_map, List.map_map]
    rfl
  calc
    _ = (((above place ++ place :: ((tree.below place).filterMap fun listed ↦
          if listed.2 == .directory then some (place ++ listed.1) else none)).map
            (Level.read tree useGit)).filter (!·.saysNothing)).mergeSort
              fun a b ↦ b.directory.length ≤ a.directory.length := rfl
    _ = ((((directoriesBelow tree place).map (Level.readBelow tree useGit place)).filter
          (!·.saysNothing)).map (Level.placed place)).mergeSort
            fun a b ↦ b.directory.length ≤ a.directory.length := by
      rw [List.map_append, List.filter_append, habove, List.nil_append, hinner, hplaced,
        List.filter_map]
      rfl
    _ = _ := by
      rw [readBelow, List.map_mergeSort]
      intro a _ b _
      simp [Level.placed]

/-- What is skipped below a directory is told by the ignore files there, if no others say anything. -/
theorem skips_read (hsilent : ∀ front ∈ above place,
    Level.read tree useGit front = { directory := front })
    (hpersonal : useGit = true → readPersonal tree environment = {}) (hrest : rest ≠ [])
    (walked walked' : Path) (isDirectory : Bool) :
    (read tree environment useGit place).skips (place ++ rest) walked isDirectory =
      (readBelow tree useGit place).skips rest walked' isDirectory := by
  have hnone : (read tree environment useGit place).personal = {} := by
    rw [read]
    cases useGit with
    | false => rfl
    | true => exact hpersonal rfl
  have hhidden : isHidden (place ++ rest) = isHidden rest := by
    rw [isHidden, List.getLast?_append_of_ne_nil _ hrest, isHidden]
  have hverdict : (read tree environment useGit place).verdict? (place ++ rest) walked isDirectory =
      (readBelow tree useGit place).verdict? rest walked' isDirectory := by
    rw [verdict?, levels_read hsilent, hnone, Level.verdict?_map_placed fun _ ↦ rfl,
      Level.verdict?_map_placed fun _ ↦ rfl, Level.verdict?_map_placed fun _ ↦ rfl, verdict?]
    rfl
  rw [skips, hverdict, hhidden, skips]

theorem levels_readBelow_perm (h : tree.SameBelow other place place') :
    (readBelow tree useGit place).levels.Perm (readBelow other useGit place').levels := by
  have hread : (directoriesBelow tree place).map (Level.readBelow tree useGit place) =
      (directoriesBelow tree place).map (Level.readBelow other useGit place') := by
    apply List.map_congr_left
    intro rest hmem
    exact Level.readBelow_eq h (isDirectoryAt_of_mem_directoriesBelow h hmem)
  have hdirectories : (directoriesBelow tree place).Perm (directoriesBelow other place') :=
    (h.perm.filterMap _).cons []
  rw [readBelow, readBelow, hread]
  exact (List.mergeSort_perm _ _).trans
    (((hdirectories.map _).filter _).trans (List.mergeSort_perm _ _).symm)

/-- The ignore files below directories with the same entries skip the same. -/
theorem skips_readBelow (h : tree.SameBelow other place place') :
    (readBelow tree useGit place).skips = (readBelow other useGit place').skips := by
  have hdirectory : ∀ a ∈ (readBelow tree useGit place).levels,
      ∀ b ∈ (readBelow tree useGit place).levels, a.directory = b.directory → a = b := by
    intro a ha b hb heq
    rw [readBelow, List.mem_mergeSort] at ha hb
    obtain ⟨rest, -, rfl⟩ := List.mem_map.mp (List.mem_of_mem_filter ha)
    obtain ⟨rest', -, rfl⟩ := List.mem_map.mp (List.mem_of_mem_filter hb)
    rw [show rest = rest' from heq]
  have hlevels (kind : Level → Patterns) (entry : Place) (isDirectory : Bool) :=
    Level.verdict?_perm kind entry isDirectory (@levels_readBelow_perm _ _ useGit _ _ h)
      (pairwise_mergeSort_deeper _) (pairwise_mergeSort_deeper _) hdirectory
  funext entry walked isDirectory
  simp only [skips, verdict?, hlevels]
  rfl

end Rules

end Ignore

end SpecWording
