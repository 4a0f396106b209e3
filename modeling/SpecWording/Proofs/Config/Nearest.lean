import SpecWording.Command.Check
import SpecWording.Proofs.Files.Following

/-!
# The nearest configuration

The search for a project's configuration goes up the fronts of a route, and where a configuration
file is found depends on the route alone. A directory that is named without `..` gets the nearest
configuration above the place that its path spells, and so does a file in it, with one exception: the
parent of a bare file name is the empty path, which has no form that starts at the root, so nothing
above the working directory is searched.
-/

namespace SpecWording

namespace FileTree

variable {tree : FileTree} {directory place : Place} {path : Path} {a b c : Path}

/-- Two paths that lead to one place. -/
def LeadTogether (tree : FileTree) (directory : Place) (a b : Path) : Prop :=
  ∃ place, tree.locate directory a false = .ok place ∧ tree.locate directory b false = .ok place

theorem LeadTogether.symm (h : tree.LeadTogether directory a b) :
    tree.LeadTogether directory b a := by
  obtain ⟨place, ha, hb⟩ := h
  exact ⟨place, hb, ha⟩

theorem LeadTogether.trans (h : tree.LeadTogether directory a b)
    (h' : tree.LeadTogether directory b c) : tree.LeadTogether directory a c := by
  obtain ⟨place, ha, hb⟩ := h
  obtain ⟨place', hb', hc⟩ := h'
  obtain rfl := Except.ok.inj (hb.symm.trans hb')
  exact ⟨place, ha, hc⟩

/-- What a name leads to behind a path from the root depends on the route of this path. -/
theorem locate_join_congr {name : String} (ha : a.isAbsolute = true) (hb : b.isAbsolute = true)
    (hroute : a.route = b.route) (hname : Path.IsStep name) :
    tree.locate directory (a.join ⟨name⟩) false = tree.locate directory (b.join ⟨name⟩) false := by
  rw [locate_join_of_isAbsolute _ ha hname, locate_join_of_isAbsolute _ hb hname, hroute]

end FileTree

/-- Related lists whose members give related results give related first results. -/
theorem findSome?_rel {α α' β β' : Type} {r : β → β' → Prop} {f : α → Option β}
    {g : α' → Option β'} {as : List α} {bs : List α'}
    (h : List.Forall₂ (fun a b ↦ Option.Rel r (f a) (g b)) as bs) :
    Option.Rel r (as.findSome? f) (bs.findSome? g) := by
  induction h with
  | nil => exact .none
  | cons hfirst _ ih =>
    rw [List.findSome?_cons, List.findSome?_cons]
    generalize f _ = first, g _ = first' at hfirst
    cases hfirst with
    | some hrel => exact .some hrel
    | none => exact ih

namespace ConfigSource

open FileTree SpecWording.Path

variable {tree : FileTree} {environment : Environment} {here place front : Place}
  {file directory start path : Path} {a b c : Option Path}

theorem isName_of_mem_fileNames {name : Path} (h : name ∈ fileNames) : IsName name.text := by
  simp only [fileNames, List.mem_cons, List.not_mem_nil, or_false] at h
  rcases h with rfl | rfl <;> decide

/-! ## What governs a place -/

/-- Whether a place holds a configuration file. -/
def holdsConfig (tree : FileTree) (here place : Place) : Bool :=
  (fileIn? tree here place.path).isSome

/-- The configuration file in a place, or in the nearest directory above it that has one. -/
def nearest? (tree : FileTree) (here place : Place) : Option Path :=
  place.inits.reverse.findSome? fun above ↦ fileIn? tree here (Place.path above)

/-- The source where no project has a configuration. -/
def outsideProjects (tree : FileTree) (environment : Environment) : ConfigSource :=
  match sharedFile? tree environment.workingDirectory environment.sharedDirectory? with
  | some path => shared path
  | none => defaults

/-- The source that a project's configuration file gives, if there is one. -/
def ofFile? (tree : FileTree) (environment : Environment) (file? : Option Path) : ConfigSource :=
  (file?.map project).getD (outsideProjects tree environment)

/-- The source for what is in a place. -/
def governing (tree : FileTree) (environment : Environment) (place : Place) : ConfigSource :=
  ofFile? tree environment (nearest? tree environment.workingDirectory place)

/-- Sources that come to the same: equal ones, and projects with one configuration file. -/
def Agree (tree : FileTree) (here : Place) (a b : ConfigSource) : Prop :=
  a = b ∨ ∃ path path', a = project path ∧ b = project path' ∧ tree.LeadTogether here path path'

theorem agree_of_rel (h : Option.Rel (tree.LeadTogether here) a b) :
    Agree tree here (ofFile? tree environment a) (ofFile? tree environment b) := by
  cases h with
  | none => exact .inl rfl
  | some h => exact .inr ⟨_, _, rfl, rfl, h⟩

theorem outsideProjects_ne_project : outsideProjects tree environment ≠ project path := by
  unfold outsideProjects
  split <;> exact nofun

/-- What is outside all projects does not agree with a project. -/
theorem not_agree_ofFile? :
    ¬ Agree tree here (ofFile? tree environment none) (ofFile? tree environment (some path)) := by
  rintro (h | ⟨path', -, h, -⟩)
  · exact outsideProjects_ne_project h
  · exact outsideProjects_ne_project h

theorem rel_trans (h : Option.Rel (tree.LeadTogether here) a b)
    (h' : Option.Rel (tree.LeadTogether here) b c) : Option.Rel (tree.LeadTogether here) a c := by
  cases h with
  | none => exact h'
  | some hfirst =>
    cases h' with
    | some hsecond => exact .some (hfirst.trans hsecond)

theorem rel_symm (h : Option.Rel (tree.LeadTogether here) a b) :
    Option.Rel (tree.LeadTogether here) b a := by
  cases h with
  | none => exact .none
  | some hfirst => exact .some hfirst.symm

/-! ## The search -/

/-- Without links, walks find what a directory holds. -/
theorem fileIn?_of_linkFree (h : tree.LinkFree) (here : Place) :
    fileIn? tree here = fun path ↦ (fileNames.map path.join).find? (tree.walksToFile here) := by
  funext path
  rw [fileIn?, h.isFile_eq_walksToFile]

/-- Directories that hold the same configuration files, under paths that are related. -/
theorem fileIn?_rel_of {directory' : Path} {r : Path → Path → Prop}
    (hfile : ∀ name ∈ fileNames, tree.isFile here (directory.join name) =
      tree.isFile here (directory'.join name))
    (hrel : ∀ name ∈ fileNames, tree.isFile here (directory'.join name) = true →
      r (directory.join name) (directory'.join name)) :
    Option.Rel r (fileIn? tree here directory) (fileIn? tree here directory') := by
  unfold fileIn?
  generalize fileNames = names at hfile hrel
  induction names with
  | nil => exact .none
  | cons name names ih =>
    rw [List.forall_mem_cons] at hfile hrel
    rw [List.map_cons, List.map_cons, List.find?_cons, List.find?_cons, hfile.1]
    cases hfirst : tree.isFile here (directory'.join name) with
    | true => exact .some (hrel.1 hfirst)
    | false => exact ih hfile.2 hrel.2

/-- Directories in which the names of configuration files lead to the same places. -/
theorem fileIn?_rel {directory' : Path}
    (h : ∀ name ∈ fileNames, tree.locate here (directory.join name) false =
      tree.locate here (directory'.join name) false) :
    Option.Rel (tree.LeadTogether here) (fileIn? tree here directory)
      (fileIn? tree here directory') := by
  apply fileIn?_rel_of fun name hname ↦ isFile_congr (h name hname)
  intro name hname hfile
  obtain ⟨place, content, hlocate, -⟩ := isFile_eq_true_iff.mp hfile
  exact ⟨place, (h name hname).trans hlocate, hlocate⟩

/-- The search upwards from a path finds what is nearest to its route. -/
theorem projectFile?_rel (hstart : start.isAbsolute = true) :
    Option.Rel (tree.LeadTogether here) (projectFile? tree here start)
      (nearest? tree here start.route) := by
  apply findSome?_rel
  apply (forall₂_ancestors hstart).imp
  rintro above front ⟨habove, rfl⟩
  obtain ⟨habsolute, hroute⟩ := Place.route_path fun step ↦ @isStep_of_mem_route above step
  apply fileIn?_rel
  intro name hname
  exact locate_join_congr habove habsolute hroute.symm (isName_of_mem_fileNames hname).isStep

theorem resolve_eq (tree : FileTree) (environment : Environment) (start : Path) :
    resolve tree environment start none = ofFile? tree environment
      (projectFile? tree environment.workingDirectory
        ((start.absolute? environment.workingDirectory.path).getD start)) := by
  rw [resolve, find, ofFile?, outsideProjects]
  cases projectFile? tree environment.workingDirectory
    ((start.absolute? environment.workingDirectory.path).getD start) <;> rfl

theorem nearest?_eq_none_iff : nearest? tree here place = none ↔
    ∀ above, above <+: place → holdsConfig tree here above = false := by
  rw [nearest?, List.findSome?_eq_none_iff]
  simp only [List.mem_reverse, List.mem_inits, holdsConfig, Option.isSome_eq_false_iff,
    Option.isNone_iff_eq_none]

theorem nearest?_of_fileIn? (h : fileIn? tree here place.path = some path) :
    nearest? tree here place = some path := by
  have hinits : ∃ above, place.inits.reverse = place :: above := by
    rcases List.eq_nil_or_concat' place with hplace | ⟨front, last, hplace⟩
    · exact ⟨[], by rw [hplace]; rfl⟩
    · exact ⟨front.inits.reverse, by simp [hplace]⟩
  obtain ⟨above, hinits⟩ := hinits
  rw [nearest?, hinits, List.findSome?_cons, h]

section Located

variable (hwell : tree.WellFormed) (hhere : tree.isDirectoryAt here = true)

include hwell hhere

/-- The search from a path finds what is nearest to the place that the path spells. -/
theorem projectFile?_absolute_rel (hstart : start.text ≠ "") :
    Option.Rel (tree.LeadTogether here)
      (projectFile? tree here ((start.absolute? here.path).getD start))
      (nearest? tree here (start.spelled here)) := by
  obtain ⟨habsolute, hroute⟩ := hwell.route_path hhere
  obtain ⟨full, hfull, habsolute', hroute'⟩ := exists_absolute? habsolute hstart
  rw [hroute] at hroute'
  rw [hfull, Option.getD_some, ← hroute']
  exact projectFile?_rel habsolute'

/-- The empty path has no parents, and from it only the working directory is searched. -/
theorem projectFile?_empty_rel :
    Option.Rel (tree.LeadTogether here) (projectFile? tree here ⟨""⟩)
      (fileIn? tree here here.path) := by
  have hancestors : ancestors ⟨""⟩ = [⟨""⟩] := by decide
  have hempty : projectFile? tree here ⟨""⟩ = fileIn? tree here ⟨""⟩ := by
    rw [projectFile?, hancestors, List.findSome?_cons]
    cases fileIn? tree here ⟨""⟩ <;> rfl
  rw [hempty]
  apply fileIn?_rel
  intro name hname
  have hstep := (isName_of_mem_fileNames hname).isStep
  obtain ⟨habsolute, hroute⟩ := hwell.route_path hhere
  have hbare : (⟨""⟩ : Path).join ⟨name.text⟩ = ⟨name.text⟩ := by
    simp [join, hstep.isAbsolute_eq_false]
  rw [show name = ⟨name.text⟩ from rfl, locate_join_of_isAbsolute _ habsolute hstep,
    locate_join_eq _ _ _ hstep, hroute, hbare, hstep.isAbsolute_eq_false]
  exact (hwell.follow_place hhere [name.text]).symm

end Located

/-! ## A file and its directory -/

/-- A file that is named in a directory: as the two paths spell it, or, where no links are, by what
they lead to. -/
def NamedIn (tree : FileTree) (here : Place) (file directory : Path) : Prop :=
  (∃ name, file.spelled here = directory.spelled here ++ [name]) ∨
    tree.LinkFree ∧ ∃ place name, tree.locate here directory false = .ok place ∧
      tree.locate here file false = .ok (place ++ [name])

theorem NamedIn.exists_spelled (h : NamedIn tree here file directory)
    (hfile : Part.up ∉ file.parts) (hdirectory : Part.up ∉ directory.parts) :
    ∃ name, file.spelled here = directory.spelled here ++ [name] := by
  rcases h with h | ⟨hlinks, place, name, hplace, hname⟩
  · exact h
  · exact ⟨name, by rw [← hlinks.eq_spelled hdirectory hplace, ← hlinks.eq_spelled hfile hname]⟩

/-- A file is not reached by a path that says nothing. -/
theorem route_ne_nil_of_isFile (hhere : tree.isDirectoryAt here = true)
    (hfile : tree.isFile here file = true) : file.route ≠ [] := by
  intro hroute
  obtain ⟨place, content, hlocate, hentry⟩ := isFile_eq_true_iff.mp hfile
  have hplace : place = if file.isAbsolute then [] else here := by
    rw [locate] at hlocate
    split at hlocate
    · cases hlocate
    · exact eq_of_follow_of_routeOf_eq_nil hroute hlocate
  have hdirectory : tree.entry? place = some .directory := by
    rw [hplace]
    split
    · rfl
    · exact eq_of_beq hhere
  rw [hdirectory] at hentry
  cases hentry

end ConfigSource

namespace Command.CheckOptions

open ConfigSource FileTree SpecWording.Path

variable {tree : FileTree} {environment : Environment} {options : CheckOptions}
  {file directory : Path}

theorem source_eq (hconfig : options.config = none) : options.source tree environment =
    ofFile? tree environment (projectFile? tree environment.workingDirectory
      (((options.start tree environment.workingDirectory).absolute?
        environment.workingDirectory.path).getD
          (options.start tree environment.workingDirectory))) := by
  rw [source, hconfig, resolve_eq]

/-- The search for a path that is no file starts at the path. -/
theorem start_of_not_isFile {here : Place} (hpath : options.path = some directory)
    (h : tree.isFile here directory = false) : options.start tree here = directory := by
  rw [start, hpath]
  simp [h]

/-- The search for a file starts at its parent. -/
theorem start_of_isFile {here : Place} (hpath : options.path = some file)
    (h : tree.isFile here file = true) : options.start tree here = file.parent?.getD ⟨""⟩ := by
  rw [start, hpath]
  simp [h]

section Located

variable (hwell : tree.WellFormed)
  (hhere : tree.isDirectoryAt environment.workingDirectory = true)
  (hconfig : options.config = none)

include hwell hhere hconfig

theorem exists_source_directory (hpath : options.path = some directory)
    (hdirectory : tree.isFile environment.workingDirectory directory = false)
    (hnonempty : directory.text ≠ "") :
    ∃ found, options.source tree environment = ofFile? tree environment found ∧
      Option.Rel (tree.LeadTogether environment.workingDirectory) found
        (nearest? tree environment.workingDirectory
          (directory.spelled environment.workingDirectory)) := by
  refine ⟨_, source_eq hconfig, ?_⟩
  rw [start_of_not_isFile hpath hdirectory]
  exact projectFile?_absolute_rel hwell hhere hnonempty

theorem exists_source_file (hpath : options.path = some file)
    (hfile : tree.isFile environment.workingDirectory file = true) :
    ∃ found, options.source tree environment = ofFile? tree environment found ∧
      if file.parts.length = 1 then
        Option.Rel (tree.LeadTogether environment.workingDirectory) found
          (fileIn? tree environment.workingDirectory environment.workingDirectory.path)
      else
        Option.Rel (tree.LeadTogether environment.workingDirectory) found
          (nearest? tree environment.workingDirectory
            (file.spelled environment.workingDirectory).dropLast) := by
  have hroute := route_ne_nil_of_isFile hhere hfile
  obtain ⟨parent, hparent, habsolute, hfront, hempty⟩ := exists_parent? hroute
  refine ⟨_, source_eq hconfig, ?_⟩
  rw [start_of_isFile hpath hfile, hparent, Option.getD_some]
  simp only [← hempty]
  split
  · next hbare =>
    rw [show parent = ⟨""⟩ from congrArg Path.mk hbare, absolute?_empty]
    exact projectFile?_empty_rel hwell hhere
  · next hbare =>
    have hspelled : (file.spelled environment.workingDirectory).dropLast =
        parent.spelled environment.workingDirectory := by
      rw [spelled, spelled, habsolute, hfront, List.dropLast_append_of_ne_nil hroute]
    rw [hspelled]
    exact projectFile?_absolute_rel hwell hhere hbare

end Located

/-- A path with one part spells a name in the working directory. -/
theorem spelled_eq_of_length_parts {here place : Place} {name : String}
    (hparts : file.parts.length = 1) (hroute : file.route ≠ [])
    (hspelled : file.spelled here = place ++ [name]) : place = here := by
  rw [parts_eq_route, List.length_append, List.length_map] at hparts
  have hlength : 0 < file.route.length := List.length_pos_iff.mpr hroute
  have hleading : file.split.1 = none := by
    cases hleading : file.split.1 with
    | none => rfl
    | some part =>
      rw [hleading, Option.toList_some, List.length_singleton] at hparts
      omega
  have habsolute : file.isAbsolute = false := by
    rw [Bool.eq_false_iff, ne_eq, ← split_fst_eq_root_iff, hleading]
    exact nofun
  obtain ⟨step, hstep⟩ := List.length_eq_one_iff.mp (show file.route.length = 1 by omega)
  rw [spelled, habsolute, if_neg Bool.false_ne_true, hstep] at hspelled
  exact (List.append_inj_left' hspelled rfl).symm

/-- A directory gets the nearest configuration above the place that its path spells, and a file in
it gets the same, unless the file is named by one part and only directories above the working
directory have a configuration. -/
theorem source_of_file_iff (tree : FileTree) (environment : Environment) (options : CheckOptions)
    (file directory : Path) (hwell : tree.WellFormed)
    (hhere : tree.isDirectoryAt environment.workingDirectory = true)
    (hconfig : options.config = none)
    (hfile : tree.isFile environment.workingDirectory file = true)
    (hdirectory : ∃ place, tree.locate environment.workingDirectory directory false = .ok place ∧
      tree.isDirectoryAt place = true)
    (hup : Part.up ∉ file.parts) (hup' : Part.up ∉ directory.parts)
    (hinside : NamedIn tree environment.workingDirectory file directory) :
    let here := environment.workingDirectory
    let source (path : Path) :=
      CheckOptions.source { options with path := some path } tree environment
    Agree tree here (source directory) (governing tree environment (directory.spelled here)) ∧
      (tree.LinkFree → tree.locate here directory false = .ok (directory.spelled here)) ∧
      (Agree tree here (source file) (source directory) ↔
        (file.parts.length = 1 → holdsConfig tree here here = true ∨
          ∀ above, above <+: here → holdsConfig tree here above = false)) := by
  intro here source
  obtain ⟨place, hlocate, hplace⟩ := hdirectory
  obtain ⟨name, hspelled⟩ := hinside.exists_spelled hup hup'
  have hnotFile := isFile_eq_false_of_isDirectoryAt hlocate hplace
  obtain ⟨found, hsource, hfound⟩ := @exists_source_directory tree environment
    { options with path := some directory } directory hwell hhere hconfig rfl hnotFile
    (text_ne_empty_of_locate hlocate)
  obtain ⟨found', hsource', hfound'⟩ := @exists_source_file tree environment
    { options with path := some file } file hwell hhere hconfig rfl hfile
  refine ⟨?_, ?_, ?_⟩
  · rw [show source directory = _ from hsource]
    exact agree_of_rel hfound
  · intro hlinks
    rw [hlocate, hlinks.eq_spelled hup' hlocate]
  · rw [show source directory = _ from hsource, show source file = _ from hsource']
    split at hfound'
    · next hbare =>
      have hspelledHere := spelled_eq_of_length_parts hbare (route_ne_nil_of_isFile hhere hfile)
        hspelled
      rw [hspelledHere] at hfound
      cases hholds : fileIn? tree here here.path with
      | some path =>
        rw [nearest?_of_fileIn? hholds] at hfound
        rw [hholds] at hfound'
        refine iff_of_true (agree_of_rel (rel_trans hfound' (rel_symm hfound))) fun _ ↦ .inl ?_
        rw [holdsConfig, hholds, Option.isSome_some]
      | none =>
        rw [hholds] at hfound'
        cases hfound'
        have hnone : holdsConfig tree here here = false := by
          rw [holdsConfig, hholds, Option.isSome_none]
        rw [or_iff_right (by simp [hnone]), ← nearest?_eq_none_iff, forall_prop_of_true hbare]
        cases hnearest : nearest? tree here here with
        | none =>
          rw [hnearest] at hfound
          cases hfound
          exact iff_of_true (agree_of_rel .none) rfl
        | some path =>
          rw [hnearest] at hfound
          cases hfound
          exact iff_of_false not_agree_ofFile? nofun
    · next hbare =>
      refine iff_of_true (agree_of_rel ?_) (fun h ↦ absurd h hbare)
      rw [hspelled, List.dropLast_concat] at hfound'
      exact rel_trans hfound' (rel_symm hfound)

/-! ## A file below its configuration -/

/-- A project whose configuration stands above the directory of its only file. -/
def nestedTree : FileTree :=
  ⟨[(["p"], .directory), (["p", "wording-lint.toml"], .file "".toUTF8),
    (["p", "spec"], .directory), (["p", "spec", "a_spec.rb"], .file "".toUTF8)]⟩

def nestedEnvironment : Environment where
  workingDirectory := ["p", "spec"]

theorem linkFree_nestedTree : nestedTree.LinkFree := by decide

theorem isFile_nestedTree : nestedTree.isFile ["p", "spec"] ⟨"./a_spec.rb"⟩ = true ∧
    nestedTree.isFile ["p", "spec"] ⟨"a_spec.rb"⟩ = true := by
  rw [linkFree_nestedTree.isFile_eq_walksToFile]
  decide

/-- With a `.` in front, the file gets what its directory gets. -/
theorem source_of_file_nested : Agree nestedTree ["p", "spec"]
    (CheckOptions.source { path := some ⟨"./a_spec.rb"⟩ } nestedTree nestedEnvironment)
    (CheckOptions.source { path := some ⟨"."⟩ } nestedTree nestedEnvironment) := by
  have hlocate : nestedTree.locate ["p", "spec"] ⟨"."⟩ false = .ok ["p", "spec"] := by
    rw [linkFree_nestedTree.locate_eq_walk]
    decide
  have hparts : (⟨"./a_spec.rb"⟩ : Path).parts.length ≠ 1 := by decide
  obtain ⟨-, -, hagree⟩ := source_of_file_iff nestedTree nestedEnvironment {} ⟨"./a_spec.rb"⟩ ⟨"."⟩
    (by decide) (by decide) rfl isFile_nestedTree.1
    ⟨["p", "spec"], hlocate, by decide⟩ (by decide) (by decide)
    (.inl ⟨"a_spec.rb", by decide⟩)
  exact hagree.mpr fun hbare ↦ absurd hbare hparts

/-- The file named alone gets the defaults, and its directory the configuration above. -/
theorem source_bare_file : nestedTree.isFile ["p", "spec"] ⟨"a_spec.rb"⟩ = true ∧
    (⟨"a_spec.rb"⟩ : Path).spelled ["p", "spec"] =
      (⟨"."⟩ : Path).spelled ["p", "spec"] ++ ["a_spec.rb"] ∧
    CheckOptions.source { path := some ⟨"a_spec.rb"⟩ } nestedTree nestedEnvironment = .defaults ∧
    CheckOptions.source { path := some ⟨"."⟩ } nestedTree nestedEnvironment =
      .project ⟨"/p/wording-lint.toml"⟩ := by
  refine ⟨isFile_nestedTree.2, by decide, ?_⟩
  simp only [source, start, resolve, ConfigSource.find, projectFile?, sharedFile?,
    fileIn?_of_linkFree linkFree_nestedTree, linkFree_nestedTree.isFile_eq_walksToFile]
  decide

end Command.CheckOptions

end SpecWording
