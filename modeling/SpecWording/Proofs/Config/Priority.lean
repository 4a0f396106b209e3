import SpecWording.Proofs.Config.Detours

/-!
# The priority of configurations

The search goes through directories outside and through names inside. Whatever the tree holds, it
stops at the deepest directory on the way down to the start that holds a configuration file, be it
one with the dotted name alone; a plain name farther up does not matter, and neither does a directory
that is called like a configuration file. A configuration that the user names comes before all this,
the shared one and the defaults come after it.
-/

namespace SpecWording

namespace FileTree

/-- Whether a path leads to a regular file. -/
def HoldsFile (tree : FileTree) (here : Place) (path : Path) : Prop :=
  ∃ place content, tree.locate here path false = .ok place ∧
    tree.entry? place = some (.file content)

end FileTree

namespace ConfigSource

open FileTree SpecWording.Path

variable {tree : FileTree} {here front steps : Place} {start above path : Path} {name : String}

/-- Whether the directory that steps from the root spell holds a configuration file. -/
def HoldsConfig (tree : FileTree) (here front : Place) : Prop :=
  tree.HoldsFile here (front.path.join ⟨"wording-lint.toml"⟩) ∨
    tree.HoldsFile here (front.path.join ⟨".wording-lint.toml"⟩)

/-- Whether the configuration file of a directory is the one with a name: the plain one, or the
dotted one where there is no plain one. -/
def Provides (tree : FileTree) (here : Place) (directory : Path) (name : String) : Prop :=
  tree.HoldsFile here (directory.join ⟨name⟩) ∧
    (name = "wording-lint.toml" ∨ name = ".wording-lint.toml" ∧
      ¬ tree.HoldsFile here (directory.join ⟨"wording-lint.toml"⟩))

/-- The configuration file of the deepest directory on the way down some steps that has one. -/
structure IsNearest (tree : FileTree) (here steps front : Place) (name : String) : Prop where
  above : front <+: steps
  provides : Provides tree here front.path name
  deepest : ∀ longer, front <+: longer → longer ≠ front → longer <+: steps →
    ¬ HoldsConfig tree here longer

/-! ## One directory -/

theorem provides_iff : Provides tree here above name ↔
    name = "wording-lint.toml" ∧ tree.HoldsFile here (above.join ⟨"wording-lint.toml"⟩) ∨
      name = ".wording-lint.toml" ∧ tree.HoldsFile here (above.join ⟨".wording-lint.toml"⟩) ∧
        ¬ tree.HoldsFile here (above.join ⟨"wording-lint.toml"⟩) := by
  constructor
  · rintro ⟨hholds, rfl | ⟨rfl, hplain⟩⟩
    · exact .inl ⟨rfl, hholds⟩
    · exact .inr ⟨rfl, hholds, hplain⟩
  · rintro (⟨rfl, hholds⟩ | ⟨rfl, hholds, hplain⟩)
    · exact ⟨hholds, .inl rfl⟩
    · exact ⟨hholds, .inr ⟨rfl, hplain⟩⟩

theorem fileIn?_eq_some_iff : fileIn? tree here above = some path ↔
    ∃ name, Provides tree here above name ∧ path = above.join ⟨name⟩ := by
  have hfile (name : String) : tree.HoldsFile here (above.join ⟨name⟩) ↔
      tree.isFile here (above.join ⟨name⟩) = true := isFile_eq_true_iff.symm
  simp only [provides_iff, hfile, or_and_right, exists_or, and_assoc, exists_eq_left, fileIn?,
    fileNames, List.map_cons, List.map_nil, List.find?_cons, List.find?_nil]
  cases hplain : tree.isFile here (above.join ⟨"wording-lint.toml"⟩) with
  | true => simp [eq_comm (a := path)]
  | false =>
    cases hdotted : tree.isFile here (above.join ⟨".wording-lint.toml"⟩) with
    | true => simp [eq_comm (a := path)]
    | false => simp

theorem fileIn?_eq_none_iff : fileIn? tree here above = none ↔
    ∀ name, ¬ Provides tree here above name := by
  simp only [Option.eq_none_iff_forall_ne_some, ne_eq, fileIn?_eq_some_iff]
  constructor
  · intro h name hprovides
    exact h _ ⟨name, hprovides, rfl⟩
  · rintro h path ⟨name, hprovides, -⟩
    exact h name hprovides

/-- A directory provides a configuration if it holds a file of one of the names. -/
theorem exists_provides_iff : (∃ name, Provides tree here front.path name) ↔
    HoldsConfig tree here front := by
  simp only [provides_iff, HoldsConfig, exists_or, exists_eq_left]
  by_cases hplain : tree.HoldsFile here (front.path.join ⟨"wording-lint.toml"⟩)
  · simp only [hplain, true_or]
  · simp only [hplain, false_or, not_false_eq_true, and_true]

theorem fileIn?_path_eq_none_iff :
    fileIn? tree here front.path = none ↔ ¬ HoldsConfig tree here front := by
  rw [fileIn?_eq_none_iff, ← exists_provides_iff, not_exists]

/-- One file at most is the nearest. -/
theorem IsNearest.unique {front' : Place} {name' : String}
    (h : IsNearest tree here steps front name) (h' : IsNearest tree here steps front' name') :
    front = front' ∧ name = name' := by
  have hholds := exists_provides_iff.mp ⟨name, h.provides⟩
  have hholds' := exists_provides_iff.mp ⟨name', h'.provides⟩
  have hfront : front = front' := by
    rcases List.prefix_or_prefix_of_prefix h.above h'.above with hbelow | hbelow
    · by_contra hne
      exact h.deepest front' hbelow (fun heq ↦ hne heq.symm) h'.above hholds'
    · by_contra hne
      exact h'.deepest front hbelow hne h.above hholds
  subst hfront
  refine ⟨rfl, ?_⟩
  rcases provides_iff.mp h.provides with ⟨rfl, hplain⟩ | ⟨rfl, -, hplain⟩ <;>
    rcases provides_iff.mp h'.provides with ⟨rfl, hplain'⟩ | ⟨rfl, -, hplain'⟩
  · rfl
  · exact absurd hplain hplain'
  · exact absurd hplain' hplain
  · rfl

/-! ## The way up -/

theorem parts_eq_of_route_eq {a b : Path} (ha : a.isAbsolute = true) (hb : b.isAbsolute = true)
    (hroute : a.route = b.route) : a.parts = b.parts := by
  rw [parts_eq_route, parts_eq_route, split_fst_eq_root_iff.mpr ha, split_fst_eq_root_iff.mpr hb,
    hroute]

/-- The file that the search finds is the nearest one, by the parts of its path. -/
theorem projectFile?_parts_rel (hstart : start.isAbsolute = true) :
    Option.Rel (fun a b ↦ a.parts = b.parts) (projectFile? tree here start)
      (nearest? tree here start.route) := by
  apply findSome?_rel
  apply (forall₂_ancestors hstart).imp
  rintro above front ⟨habove, rfl⟩
  obtain ⟨habsolute, hroute⟩ := Place.route_path fun step ↦ @isStep_of_mem_route above step
  have hparts := parts_eq_of_route_eq habove habsolute hroute.symm
  apply fileIn?_rel_of
  · intro name hname
    exact isFile_congr
      (locate_join_congr habove habsolute hroute.symm (isName_of_mem_fileNames hname).isStep)
  · intro name hname _
    have hname := isName_of_mem_fileNames hname
    rw [show name = ⟨name.text⟩ from rfl, parts_join (text_ne_empty_of_isAbsolute habove) hname,
      parts_join (text_ne_empty_of_isAbsolute habsolute) hname, hparts]

theorem exists_isNearest (h : nearest? tree here steps = some path) :
    ∃ front name, IsNearest tree here steps front name ∧ path = front.path.join ⟨name⟩ := by
  obtain ⟨front, hfront, hfound, hdeepest⟩ := exists_longest_of_findSome?_inits h
  obtain ⟨name, hprovides, rfl⟩ := fileIn?_eq_some_iff.mp hfound
  refine ⟨front, name, ⟨hfront, hprovides, ?_⟩, rfl⟩
  intro longer hlonger hne hwithin
  exact fileIn?_path_eq_none_iff.mp (hdeepest longer hlonger hne hwithin)

theorem nearest?_eq_none_iff_forall : nearest? tree here steps = none ↔
    ∀ front, front <+: steps → ¬ HoldsConfig tree here front := by
  rw [nearest?, List.findSome?_eq_none_iff]
  simp only [List.mem_reverse, List.mem_inits, fileIn?_path_eq_none_iff]

theorem holdsFile_of_projectFile? (h : projectFile? tree here start = some path) :
    tree.HoldsFile here path := by
  obtain ⟨above, -, hfound⟩ := List.exists_of_findSome?_eq_some h
  obtain ⟨name, hprovides, rfl⟩ := fileIn?_eq_some_iff.mp hfound
  exact hprovides.1

/-- The search finds the nearest file, or there is none on the way. -/
theorem projectFile?_cases (tree : FileTree) (here : Place) (hstart : start.isAbsolute = true) :
    (∃ front name path, IsNearest tree here start.route front name ∧
      projectFile? tree here start = some path ∧
        path.parts = (front.path.join ⟨name⟩).parts) ∨
    projectFile? tree here start = none ∧
      ∀ front, front <+: start.route → ¬ HoldsConfig tree here front := by
  have hrel : Option.Rel (fun a b ↦ a.parts = b.parts) (projectFile? tree here start)
    (nearest? tree here start.route) := projectFile?_parts_rel hstart
  generalize projectFile? tree here start = found at hrel
  generalize hnearest : nearest? tree here start.route = nearest at hrel
  cases hrel with
  | some hparts =>
    obtain ⟨front, name, hfile, rfl⟩ := exists_isNearest hnearest
    exact .inl ⟨front, name, _, hfile, rfl, hparts⟩
  | none => exact .inr ⟨rfl, nearest?_eq_none_iff_forall.mp hnearest⟩

theorem sharedFile?_eq_some (h : tree.HoldsFile here (start.join ⟨"config.toml"⟩)) :
    sharedFile? tree here (some start) = some (start.join ⟨"config.toml"⟩) :=
  Option.filter_some_pos (isFile_eq_true_iff.mpr h)

theorem sharedFile?_eq_none {shared? : Option Path} (h : ∀ directory, shared? = some directory →
    ¬ tree.HoldsFile here (directory.join ⟨"config.toml"⟩)) :
    sharedFile? tree here shared? = none := by
  cases shared? with
  | none => rfl
  | some directory =>
    apply Option.filter_some_neg
    rw [Bool.eq_false_iff, ne_eq, isFile_eq_true_iff]
    exact h directory rfl

/-- What is found and not named is a regular file. -/
theorem holdsFile_of_find {named? shared? : Option Path}
    (h : find tree here start named? shared? = .project path ∨
      find tree here start named? shared? = .shared path) : tree.HoldsFile here path := by
  cases named? with
  | some named => rcases h with h | h <;> cases h
  | none =>
    rw [find] at h
    cases hproject : projectFile? tree here start with
    | some found =>
      rw [hproject] at h
      rcases h with h | h <;> cases h
      exact holdsFile_of_projectFile? hproject
    | none =>
      rw [hproject] at h
      cases hshared : sharedFile? tree here shared? with
      | some found =>
        rw [hshared] at h
        rcases h with h | h <;> cases h
        exact isFile_eq_true_iff.mp (Option.mem_filter_iff.mp hshared).2
      | none =>
        rw [hshared] at h
        rcases h with h | h <;> cases h

/-- A configuration that the user names is taken as it is. Otherwise the deepest directory on the way
down to the start that holds a configuration file gives the project's one, the plain name before the
dotted one; if there is none, the shared directory's file counts if it is one, and else the defaults
do. A directory is never found, whatever it is called. -/
theorem find_by_priority (tree : FileTree) (here : Place) (start : Path)
    (named? shared? : Option Path) (hstart : start.isAbsolute = true) :
    (∀ path, named? = some path → find tree here start named? shared? = .named path) ∧
    (named? = none →
      ((∃ front, front <+: start.route ∧ HoldsConfig tree here front) →
        ∃ front name path, IsNearest tree here start.route front name ∧
          find tree here start named? shared? = .project path ∧
          path.parts = (front.path.join ⟨name⟩).parts) ∧
      ((∀ front, front <+: start.route → ¬ HoldsConfig tree here front) →
        (∀ directory, shared? = some directory →
          tree.HoldsFile here (directory.join ⟨"config.toml"⟩) →
            find tree here start named? shared? = .shared (directory.join ⟨"config.toml"⟩)) ∧
        ((∀ directory, shared? = some directory →
          ¬ tree.HoldsFile here (directory.join ⟨"config.toml"⟩)) →
            find tree here start named? shared? = .defaults))) ∧
    ∀ path place, tree.locate here path false = .ok place → tree.isDirectoryAt place = true →
      find tree here start named? shared? ≠ .project path ∧
        find tree here start named? shared? ≠ .shared path := by
  refine ⟨?_, ?_, ?_⟩
  · rintro path rfl
    rfl
  · rintro rfl
    rcases projectFile?_cases tree here hstart with
      ⟨front, name, path, hfile, hproject, hparts⟩ | ⟨hproject, hnone⟩
    · refine ⟨fun _ ↦ ⟨front, name, path, hfile, ?_, hparts⟩, ?_⟩
      · rw [find, hproject]
      · intro hnone
        exact absurd (exists_provides_iff.mp ⟨name, hfile.provides⟩) (hnone front hfile.above)
    · refine ⟨?_, fun _ ↦ ⟨?_, ?_⟩⟩
      · rintro ⟨front, hfront, hholds⟩
        exact absurd hholds (hnone front hfront)
      · rintro directory rfl hfile
        rw [find, hproject, sharedFile?_eq_some hfile]
      · intro hfile
        rw [find, hproject, sharedFile?_eq_none hfile]
  · intro path place hlocate hplace
    have hnone : ¬ tree.HoldsFile here path := by
      rw [HoldsFile, ← isFile_eq_true_iff, isFile_eq_false_of_isDirectoryAt hlocate hplace]
      exact Bool.false_ne_true
    exact ⟨fun h ↦ hnone (holdsFile_of_find (.inl h)), fun h ↦ hnone (holdsFile_of_find (.inr h))⟩

/-! ## Plain and dotted names at all depths -/

/-- A project with a plain name, in it a directory with a dotted one, and in that one a directory
that is called like a configuration file. -/
def layeredTree : FileTree :=
  ⟨[(["p"], .directory), (["p", "wording-lint.toml"], .file "".toUTF8), (["p", "spec"], .directory),
    (["p", "spec", ".wording-lint.toml"], .file "".toUTF8), (["p", "spec", "models"], .directory),
    (["p", "spec", "models", "wording-lint.toml"], .directory), (["g"], .directory),
    (["g", "config.toml"], .file "".toUTF8)]⟩

theorem linkFree_layeredTree : layeredTree.LinkFree := by decide

theorem holdsFile_layeredTree (path : Path) :
    layeredTree.HoldsFile [] path ↔ layeredTree.walksToFile [] path = true := by
  rw [← linkFree_layeredTree.isFile_eq_walksToFile]
  exact isFile_eq_true_iff.symm

theorem isNearest_layeredTree :
    IsNearest layeredTree [] ["p", "spec", "models"] ["p", "spec"] ".wording-lint.toml" := by
  have hdeepest : ∀ longer ∈ ["p", "spec", "models"].inits, ["p", "spec"] <+: longer →
      longer ≠ ["p", "spec"] →
        ¬ (layeredTree.walksToFile [] ((Place.path longer).join ⟨"wording-lint.toml"⟩) = true ∨
          layeredTree.walksToFile [] ((Place.path longer).join ⟨".wording-lint.toml"⟩) = true) := by
    decide
  refine ⟨by decide, ?_, ?_⟩
  · simp only [Provides, holdsFile_layeredTree]
    decide
  · intro longer hlonger hne hwithin
    simp only [HoldsConfig, holdsFile_layeredTree]
    exact hdeepest longer ((List.mem_inits _ _).mpr hwithin) hlonger hne

theorem not_holdsConfig_layeredTree (front : Place) (hfront : front <+: ["g"]) :
    ¬ HoldsConfig layeredTree [] front := by
  have hnone : ∀ front ∈ ["g"].inits,
      ¬ (layeredTree.walksToFile [] ((Place.path front).join ⟨"wording-lint.toml"⟩) = true ∨
        layeredTree.walksToFile [] ((Place.path front).join ⟨".wording-lint.toml"⟩) = true) := by
    decide
  simp only [HoldsConfig, holdsFile_layeredTree]
  exact hnone front ((List.mem_inits _ _).mpr hfront)

theorem find_by_priority_layered : (⟨"/p/spec/models"⟩ : Path).isAbsolute = true ∧
    (⟨"/g"⟩ : Path).isAbsolute = true ∧
    (∃ path, find layeredTree [] ⟨"/p/spec/models"⟩ none (some ⟨"/g"⟩) = .project path ∧
      path.parts = (⟨"/p/spec/.wording-lint.toml"⟩ : Path).parts) ∧
    find layeredTree [] ⟨"/g"⟩ none (some ⟨"/g"⟩) = .shared ⟨"/g/config.toml"⟩ ∧
    find layeredTree [] ⟨"/g"⟩ none (some ⟨"/p"⟩) = .defaults ∧
    find layeredTree [] ⟨"/p/spec/models"⟩ (some ⟨"missing.toml"⟩) none =
      .named ⟨"missing.toml"⟩ := by
  have hmodels : (⟨"/p/spec/models"⟩ : Path).isAbsolute = true := by decide
  have hglobal : (⟨"/g"⟩ : Path).isAbsolute = true := by decide
  have hroute : (⟨"/p/spec/models"⟩ : Path).route = ["p", "spec", "models"] := by decide
  have hroute' : (⟨"/g"⟩ : Path).route = ["g"] := by decide
  have hnearest := isNearest_layeredTree
  refine ⟨hmodels, hglobal, ?_, ?_, ?_, ?_⟩
  · obtain ⟨front, name, path, hfile, hfind, hparts⟩ :=
      ((find_by_priority layeredTree [] ⟨"/p/spec/models"⟩ none (some ⟨"/g"⟩) hmodels).2.1 rfl).1
        ⟨["p", "spec"], hroute ▸ hnearest.above, exists_provides_iff.mp ⟨_, hnearest.provides⟩⟩
    rw [hroute] at hfile
    obtain ⟨rfl, rfl⟩ := hfile.unique hnearest
    exact ⟨path, hfind, hparts.trans (by decide)⟩
  · have hshared := ((find_by_priority layeredTree [] ⟨"/g"⟩ none (some ⟨"/g"⟩) hglobal).2.1 rfl).2
      (hroute' ▸ not_holdsConfig_layeredTree)
    exact hshared.1 ⟨"/g"⟩ rfl ((holdsFile_layeredTree _).mpr (by decide))
  · have hshared := ((find_by_priority layeredTree [] ⟨"/g"⟩ none (some ⟨"/p"⟩) hglobal).2.1 rfl).2
      (hroute' ▸ not_holdsConfig_layeredTree)
    apply hshared.2
    intro directory hdirectory
    rw [← Option.some.inj hdirectory, holdsFile_layeredTree]
    decide
  · exact (find_by_priority layeredTree [] ⟨"/p/spec/models"⟩ (some ⟨"missing.toml"⟩) none
      hmodels).1 _ rfl

end ConfigSource

end SpecWording
