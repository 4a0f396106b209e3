import SpecWording.Proofs.Analysis.BelowRoot
import SpecWording.Ruby.Program

/-!
# The same tree at another root

Where no ignore file outside of the root has a say, it matters for one question only where the root
stands: whether a glob excludes a file by its whole path. Where the answers to it are the same, a run
over the same tree at another root checks the same files and gives the same result, and where they
are not it does not check the same files.
-/

namespace SpecWording

open FileTree

namespace Discovery

/-- A root that leads to a place, where no ignore file outside of it says anything. -/
structure Standing (tree : FileTree) (environment : Environment) (useGit : Bool) (root : Path)
    (place : Place) : Prop where
  locate : tree.locate environment.workingDirectory root false = .ok place
  silentAbove : ∀ front ∈ Ignore.above place,
    Ignore.Level.read tree useGit front = { directory := front }
  silentPersonal : useGit = true → Ignore.readPersonal tree environment = {}

variable {tree : FileTree} {environment : Environment} {useGit : Bool} {root : Path}
  {place : Place}

theorem Standing.complaintsAbove_eq_nil (h : Standing tree environment useGit root place) :
    complaintsAbove tree useGit place = [] := by
  rw [complaintsAbove, List.flatMap_eq_nil_iff]
  intro front hfront
  rw [h.silentAbove front hfront]
  rfl

theorem Standing.isSkipped_read (h : Standing tree environment useGit root place) (rest : Place) :
    isSkipped (.read tree environment useGit place) place root rest =
      isSkipped (.readBelow tree useGit place) [] ⟨""⟩ rest := by
  rw [isSkipped, isSkipped, Bool.eq_iff_iff, List.any_eq_true, List.any_eq_true]
  have hskips {above : Nat} (hmem : above ∈ List.range rest.length) (isDirectory : Bool) :
      (Ignore.Rules.read tree environment useGit place).skips (place ++ rest.take (above + 1))
          (pathOf root (rest.take (above + 1))) isDirectory =
        (Ignore.Rules.readBelow tree useGit place).skips ([] ++ rest.take (above + 1))
          (pathOf ⟨""⟩ (rest.take (above + 1))) isDirectory := by
    apply Ignore.Rules.skips_read h.silentAbove h.silentPersonal
    rw [List.mem_range] at hmem
    rw [ne_eq, List.take_eq_nil_iff]
    rintro (hzero | rfl)
    · cases hzero
    · cases hmem
  constructor
  · rintro ⟨above, hmem, hskipped⟩
    exact ⟨above, hmem, (hskips hmem _).symm.trans hskipped⟩
  · rintro ⟨above, hmem, hskipped⟩
    exact ⟨above, hmem, (hskips hmem _).trans hskipped⟩

end Discovery

open Discovery

namespace Analyzer

/-- Whether a glob excludes a path as a whole. -/
def excludesWhole (analyzer : Analyzer) (path : Path) : Bool :=
  analyzer.excluded.any (·.accepts path.text)

/-- Whether a file is wanted for its names below the root. -/
def wantsNames (analyzer : Analyzer) (rest : Place) : Bool :=
  analyzer.handles rest.relative &&
    !analyzer.excluded.any (·.accepts rest.relative.text) &&
      (analyzer.included.isEmpty || analyzer.included.any (·.accepts rest.relative.text))

/-- The files below a place that are wanted for their names. -/
def candidates (analyzer : Analyzer) (tree : FileTree) (place : Place) : List Place :=
  let rules := Ignore.Rules.readBelow tree analyzer.config.files.respectGitignore place
  (filesBelow tree place).filter fun rest ↦
    !isSkipped rules [] ⟨""⟩ rest && analyzer.wantsNames rest

variable {analyzer : Analyzer} {tree other : FileTree} {environment environment' : Environment}
  {root' : Path} {place place' rest : Place}

theorem candidates_of_silent (h : ∀ rest ∈ Ignore.Rules.directoriesBelow tree place,
    Ignore.Level.read tree analyzer.config.files.respectGitignore (place ++ rest) =
      { directory := place ++ rest }) :
    analyzer.candidates tree place = (filesBelow tree place).filter fun rest ↦
      !isSkipped {} [] ⟨""⟩ rest && analyzer.wantsNames rest := by
  rw [candidates, Ignore.Rules.readBelow_eq_empty h]

/-- A file below the root is wanted for its names, unless a glob excludes its whole path. -/
theorem wants_pathOf (hroot : analyzer.root.text ≠ "") (hrest : ∀ name ∈ rest, Path.IsName name)
    (hne : rest ≠ []) : analyzer.wants (pathOf analyzer.root rest) =
      (analyzer.wantsNames rest && !analyzer.excludesWhole (pathOf analyzer.root rest)) := by
  have hrelative : analyzer.relative (pathOf analyzer.root rest) = rest.relative := by
    rw [relative, below?_pathOf hroot hrest, Option.getD_some]
  have hhandles : analyzer.handles (pathOf analyzer.root rest) = analyzer.handles rest.relative := by
    rw [handles, extension?_pathOf hroot hrest hne, handles]
  have hexcludes : analyzer.excludes (pathOf analyzer.root rest) =
      (analyzer.excluded.any (·.accepts rest.relative.text) ||
        analyzer.excludesWhole (pathOf analyzer.root rest)) := by
    rw [excludes, hrelative, excludesWhole, Bool.eq_iff_iff]
    simp only [List.any_eq_true, Bool.or_eq_true, and_or_left, exists_or]
  rw [wants, hhandles, hexcludes, includes, hrelative, wantsNames, Bool.not_or]
  ac_rfl

theorem keeps_of_standing (hwell : tree.WellFormed)
    (hstanding : Standing tree environment analyzer.config.files.respectGitignore analyzer.root place)
    (hrest : rest ∈ filesBelow tree place) : analyzer.keeps tree environment place rest =
      (!isSkipped (.readBelow tree analyzer.config.files.respectGitignore place) [] ⟨""⟩ rest &&
        analyzer.wantsNames rest && !analyzer.excludesWhole (pathOf analyzer.root rest)) := by
  have hnames := isName_of_mem_filesBelow hwell hrest
  obtain ⟨hne, -⟩ := mem_filesBelow_iff.mp hrest
  rw [keeps, hstanding.isSkipped_read,
    wants_pathOf (text_ne_empty_of_locate hstanding.locate) hnames hne, Bool.and_assoc]

/-- The same files are kept exactly if the whole paths of those that are wanted for their names are
excluded alike. -/
theorem keeps_eq_iff (hsame : tree.SameBelow other place place')
    (hstanding : Standing tree environment analyzer.config.files.respectGitignore analyzer.root place)
    (hstanding' : Standing other environment' analyzer.config.files.respectGitignore root' place') :
    (∀ rest ∈ filesBelow tree place, analyzer.keeps tree environment place rest =
        (analyzer.movedTo root').keeps other environment' place' rest) ↔
      ∀ rest ∈ analyzer.candidates tree place,
        analyzer.excludesWhole (pathOf analyzer.root rest) =
          analyzer.excludesWhole (pathOf root' rest) := by
  have hskipped (useGit : Bool) : isSkipped (.readBelow other useGit place') [] ⟨""⟩ =
      isSkipped (.readBelow tree useGit place) [] ⟨""⟩ := by
    funext rest
    simp only [isSkipped, Ignore.Rules.skips_readBelow hsame]
  have hwell := hsame.wellFormed
  have hmoved (rest : Place) (hrest : rest ∈ filesBelow tree place) :
      (analyzer.movedTo root').keeps other environment' place' rest =
        (!isSkipped (.readBelow tree analyzer.config.files.respectGitignore place) [] ⟨""⟩ rest &&
          analyzer.wantsNames rest && !analyzer.excludesWhole (pathOf root' rest)) := by
    rw [← hskipped]
    exact keeps_of_standing hsame.wellFormed' hstanding'
      ((filesBelow_perm_of_sameBelow hsame).mem_iff.mp hrest)
  constructor
  · intro hkeeps rest hmem
    obtain ⟨hrest, hwanted⟩ := List.mem_filter.mp hmem
    have hsame := hkeeps rest hrest
    rw [keeps_of_standing hwell hstanding hrest, hmoved rest hrest, hwanted, Bool.true_and,
      Bool.true_and] at hsame
    exact Bool.not_inj hsame
  · intro hexcludes rest hrest
    rw [keeps_of_standing hwell hstanding hrest, hmoved rest hrest]
    cases hwanted : !isSkipped (.readBelow tree analyzer.config.files.respectGitignore place) [] ⟨""⟩
        rest && analyzer.wantsNames rest with
    | false => rfl
    | true => rw [hexcludes rest (List.mem_filter.mpr ⟨hrest, hwanted⟩)]

theorem checkedBelow_of_standing (hwell : tree.WellFormed)
    (hstanding : Standing tree environment analyzer.config.files.respectGitignore analyzer.root
      place) :
    analyzer.checkedBelow tree environment place =
      ((analyzer.candidates tree place).filter fun rest ↦
        !analyzer.excludesWhole (pathOf analyzer.root rest)).mergeSort comesFirstBelow := by
  rw [checkedBelow, candidates, List.filter_filter]
  congr 1
  apply List.filter_congr
  intro rest hrest
  rw [keeps_of_standing hwell hstanding hrest, Bool.and_comm]

/-- The same tree below another root. The same files are checked exactly if globs exclude the same
ones by their whole paths, and then there is the same result or none at both roots. -/
theorem run_relocates_iff (analyzer : Analyzer) (root' : Path) (tree other : FileTree)
    (environment environment' : Environment) (place place' : Place)
    (hsame : tree.SameBelow other place place')
    (hstanding : Standing tree environment analyzer.config.files.respectGitignore analyzer.root place)
    (hstanding' : Standing other environment' analyzer.config.files.respectGitignore root' place') :
    let moved := analyzer.movedTo root'
    ∃ rests rests' : List Place,
      analyzer.discover tree environment = .ok (rests.map (pathOf analyzer.root)) ∧
      moved.discover other environment' = .ok (rests'.map (pathOf root')) ∧
      (rests = rests' ↔ ∀ rest ∈ analyzer.candidates tree place,
        analyzer.excludesWhole (pathOf analyzer.root rest) =
          analyzer.excludesWhole (pathOf root' rest)) ∧
      (rests = rests' → (analyzer.run tree environment).result.toOption =
        (moved.run other environment').result.toOption) := by
  intro moved
  have hdiscover := discover_of_silent hsame.wellFormed hsame.isDirectory hstanding.locate
    hstanding.complaintsAbove_eq_nil
  have hdiscover' : moved.discover other environment' =
      .ok ((moved.checkedBelow other environment' place').map (pathOf root')) :=
    discover_of_silent hsame.wellFormed' hsame.isDirectory' hstanding'.locate
      hstanding'.complaintsAbove_eq_nil
  refine ⟨_, _, hdiscover, hdiscover', ?_, ?_⟩
  · rw [checkedBelow_eq_iff hsame, keeps_eq_iff hsame hstanding hstanding']
  · intro hchecked
    rw [← hchecked] at hdiscover'
    exact result_movedTo hsame hstanding.locate hstanding'.locate
      (fun rest hmem ↦ (mem_checkedBelow_iff.mp hmem).1) hdiscover hdiscover'

end Analyzer

/-! ## A root that a glob knows -/

/-- The glob for everything below a directory of this name. -/
def vendorGlob : Glob := ⟨.anyComponents :: "vendor/".toList.map .char ++ [.anyComponents]⟩

def vendorAnalyzer : Analyzer where
  root := Place.path ["p"]
  language := ruby
  rules := []
  excluded := [vendorGlob]
  included := []
  config := {}
  fix := false
  strict := false

/-- Directories with the same file, of which one has the name that the glob knows. -/
def vendorTree : FileTree :=
  ⟨[(["p"], .directory), (["p", "a_spec.rb"], .file "".toUTF8), (["q"], .directory),
    (["q", "a_spec.rb"], .file "".toUTF8), (["vendor"], .directory),
    (["vendor", "a_spec.rb"], .file "".toUTF8)]⟩

def vendorRoots : List String := ["p", "q", "vendor"]

def vendorEnvironment : Environment where
  workingDirectory := []

theorem linkFree_vendorTree : vendorTree.LinkFree := by decide

theorem read_vendorTree {directory : Place} (h : directory ∈ [] :: vendorRoots.map ([·])) :
    Ignore.Level.read vendorTree true directory = { directory := directory } := by
  have hmissing : ∀ directory ∈ [] :: vendorRoots.map ([·]), ∀ file ∈ Ignore.files,
      vendorTree.walk directory (FileTree.steps file) = .error .missing := by
    decide
  exact Ignore.Level.read_of_linkFree linkFree_vendorTree (hmissing directory h)

theorem standing_vendorTree {name : String} (h : name ∈ vendorRoots) :
    Discovery.Standing vendorTree vendorEnvironment true (Place.path [name]) [name] where
  locate := by
    have hwalk : ∀ name ∈ vendorRoots, (Place.path [name]).text.isEmpty = false ∧
        (Place.path [name]).isAbsolute = true ∧
          vendorTree.walk [] (FileTree.steps (Place.path [name])) = .ok [name] := by
      decide
    obtain ⟨hempty, habsolute, hreached⟩ := hwalk name h
    rw [linkFree_vendorTree.locate_eq_walk, hempty, habsolute]
    exact hreached
  silentAbove := fun front hfront ↦ by
    obtain rfl : front = [] := List.mem_singleton.mp hfront
    exact read_vendorTree List.mem_cons_self
  silentPersonal := fun _ ↦ rfl

theorem sameBelow_vendorTree {name name' : String} (h : name ∈ vendorRoots)
    (h' : name' ∈ vendorRoots) : vendorTree.SameBelow vendorTree [name] [name'] := by
  have hplace : ∀ name ∈ vendorRoots, vendorTree.isDirectoryAt [name] = true ∧
      vendorTree.below [name] = [(["a_spec.rb"], .file "".toUTF8)] := by
    decide
  have hwell : vendorTree.WellFormed := by decide
  apply linkFree_vendorTree.sameBelow hwell hwell (hplace name h).1 (hplace name' h').1
  rw [(hplace name h).2, (hplace name' h').2]

theorem candidates_vendorTree {name : String} (h : name ∈ vendorRoots) :
    vendorAnalyzer.candidates vendorTree [name] = [["a_spec.rb"]] := by
  have hdirectories : ∀ name ∈ vendorRoots,
      Ignore.Rules.directoriesBelow vendorTree [name] = [[]] := by
    decide
  have hkept : ∀ name ∈ vendorRoots, (filesBelow vendorTree [name]).filter (fun rest ↦
      !isSkipped {} [] ⟨""⟩ rest && vendorAnalyzer.wantsNames rest) = [["a_spec.rb"]] := by
    decide +kernel
  rw [Analyzer.candidates_of_silent, hkept name h]
  rw [hdirectories name h]
  intro rest hrest
  obtain rfl := List.mem_singleton.mp hrest
  exact read_vendorTree (List.mem_cons_of_mem _ (List.mem_map_of_mem h))

/-- Where the glob knows neither root, the results are the same. -/
theorem run_relocates_vendor :
    (vendorAnalyzer.run vendorTree vendorEnvironment).result.toOption =
      ((vendorAnalyzer.movedTo (Place.path ["q"])).run vendorTree vendorEnvironment).result.toOption := by
  have hp : "p" ∈ vendorRoots := by decide
  have hq : "q" ∈ vendorRoots := by decide
  obtain ⟨rests, rests', -, -, hsame, hresult⟩ := Analyzer.run_relocates_iff vendorAnalyzer
    (Place.path ["q"]) vendorTree vendorTree vendorEnvironment vendorEnvironment ["p"] ["q"]
    (sameBelow_vendorTree hp hq) (standing_vendorTree hp) (standing_vendorTree hq)
  apply hresult
  rw [hsame, candidates_vendorTree hp]
  decide

/-- Under a root that the glob knows, nothing is left to check. -/
theorem discover_vendor_root : Glob.parse "**/vendor/**" = .ok vendorGlob ∧
    vendorTree.below ["p"] = vendorTree.below ["vendor"] ∧
    vendorAnalyzer.discover vendorTree vendorEnvironment = .ok [⟨"/p/a_spec.rb"⟩] ∧
    (vendorAnalyzer.movedTo (Place.path ["vendor"])).discover vendorTree vendorEnvironment =
      .ok [] := by
  have hwell : vendorTree.WellFormed := by decide
  have hp := standing_vendorTree (show "p" ∈ vendorRoots by decide)
  have hvendor := standing_vendorTree (show "vendor" ∈ vendorRoots by decide)
  have hone : vendorAnalyzer.checkedBelow vendorTree vendorEnvironment ["p"] = [["a_spec.rb"]] := by
    rw [Analyzer.checkedBelow_of_standing hwell hp, candidates_vendorTree (by decide),
      List.filter_cons_of_pos (by decide), List.filter_nil, List.mergeSort_singleton]
  have hnone : (vendorAnalyzer.movedTo (Place.path ["vendor"])).checkedBelow vendorTree
      vendorEnvironment ["vendor"] = [] := by
    have hcandidates : (vendorAnalyzer.movedTo (Place.path ["vendor"])).candidates vendorTree
        ["vendor"] = [["a_spec.rb"]] := candidates_vendorTree (by decide)
    rw [Analyzer.checkedBelow_of_standing hwell hvendor, hcandidates,
      List.filter_cons_of_neg (by decide), List.filter_nil, List.mergeSort_nil]
  have hplaces : vendorTree.isDirectoryAt ["p"] = true ∧
      vendorTree.isDirectoryAt ["vendor"] = true ∧
      [["a_spec.rb"]].map (pathOf vendorAnalyzer.root) = [⟨"/p/a_spec.rb"⟩] := by
    decide
  have hsilent : complaintsAbove vendorTree vendorAnalyzer.config.files.respectGitignore ["p"] = [] :=
    hp.complaintsAbove_eq_nil
  have hsilent' : complaintsAbove vendorTree
      (vendorAnalyzer.movedTo (Place.path ["vendor"])).config.files.respectGitignore ["vendor"] = [] :=
    hvendor.complaintsAbove_eq_nil
  have hlocate : vendorTree.locate vendorEnvironment.workingDirectory vendorAnalyzer.root false =
      .ok ["p"] := hp.locate
  have hlocate' : vendorTree.locate vendorEnvironment.workingDirectory
      (vendorAnalyzer.movedTo (Place.path ["vendor"])).root false = .ok ["vendor"] := hvendor.locate
  have hdiscover := Analyzer.discover_of_silent hwell hplaces.1 hlocate hsilent
  have hdiscover' := Analyzer.discover_of_silent hwell hplaces.2.1 hlocate' hsilent'
  rw [hone, hplaces.2.2] at hdiscover
  rw [hnone] at hdiscover'
  exact ⟨by decide +kernel, by decide, hdiscover, hdiscover'⟩

end SpecWording
