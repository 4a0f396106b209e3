import SpecWording.Proofs.Config.Nearest

/-!
# Configurations on detours

A path with `..` goes through directories that it leaves again. The search upwards passes them like
all others, so it takes the last directory with a configuration that the path goes through. This is
the nearest one above the directory that the path leads to exactly if each directory with a
configuration on the way contains this directory, or one that does comes later.
-/

namespace SpecWording

/-- The first result along the fronts of a list is that of the longest front that has one. -/
theorem exists_longest_of_findSome?_inits {α β : Type} {f : List α → Option β} {steps : List α}
    {found : β} (h : steps.inits.reverse.findSome? f = some found) :
    ∃ front, front <+: steps ∧ f front = some found ∧
      ∀ longer, front <+: longer → longer ≠ front → longer <+: steps → f longer = none := by
  induction steps using List.reverseRecOn with
  | nil =>
    rw [List.inits, List.reverse_singleton, List.findSome?_singleton] at h
    exact ⟨[], List.prefix_rfl, h, fun longer _ hne hlonger ↦ absurd (List.prefix_nil.mp hlonger) hne⟩
  | append_singleton steps step ih =>
    have hinits : (steps ++ [step]).inits.reverse = (steps ++ [step]) :: steps.inits.reverse := by
      simp
    rw [hinits, List.findSome?_cons] at h
    cases hwhole : f (steps ++ [step]) with
    | some result =>
      rw [hwhole] at h
      refine ⟨steps ++ [step], List.prefix_rfl, hwhole.trans h, ?_⟩
      intro longer hfront hne hlonger
      exact absurd (hlonger.eq_of_length_le hfront.length_le) hne
    | none =>
      rw [hwhole] at h
      obtain ⟨front, hfront, hfound, hlongest⟩ := ih h
      refine ⟨front, hfront.trans (List.prefix_append _ _), hfound, ?_⟩
      intro longer hlonger hne hwithin
      rcases List.prefix_concat_iff.mp hwithin with rfl | hwithin
      · exact hwhole
      · exact hlongest longer hlonger hne hwithin

/-- From a directory down to what is in it, steps pass every directory between. -/
theorem Place.exists_between {place between : Place} {steps : List String}
    (hbelow : place <+: between) (hne : between ≠ place) (hbetween : between <+: place.along steps) :
    ∃ passed, passed ≠ [] ∧ passed <+: steps ∧ place.along passed = between := by
  induction steps using List.reverseRecOn with
  | nil => exact absurd (hbetween.eq_of_length_le hbelow.length_le) hne
  | append_singleton steps step ih =>
    have hearlier (h : between <+: place.along steps) :
        ∃ passed, passed ≠ [] ∧ passed <+: steps ++ [step] ∧ place.along passed = between := by
      obtain ⟨passed, hpassed, hfront, hplace⟩ := ih h
      exact ⟨passed, hpassed, hfront.trans (List.prefix_append _ _), hplace⟩
    rw [along_concat, Place.step] at hbetween
    split at hbetween
    · exact hearlier (hbetween.trans (List.dropLast_prefix _))
    · next hname =>
      rcases List.prefix_concat_iff.mp hbetween with rfl | hbetween
      · refine ⟨steps ++ [step], by simp, List.prefix_rfl, ?_⟩
        rw [along_concat, Place.step, if_neg hname]
      · exact hearlier hbetween

namespace FileTree

open SpecWording.Path (IsStep)

variable {tree : FileTree} {here place : Place} {path : Path}

/-- Without links, a path goes through directories to the place that its steps lead to. -/
theorem LinkFree.along_spelled (hlinks : tree.LinkFree) (hwell : tree.WellFormed)
    (hhere : tree.isDirectoryAt here = true) (hlocate : tree.locate here path false = .ok place)
    (hplace : tree.isDirectoryAt place = true) :
    Place.along [] (path.spelled here) = place ∧
      ∀ front, front <+: path.spelled here → tree.isDirectoryAt (Place.along [] front) = true := by
  rw [Path.spelled]
  rw [hlinks.locate_eq_walk] at hlocate
  split at hlocate
  · cases hlocate
  · obtain ⟨hreached, hfronts⟩ := along_of_walk hlocate
    have hbase : tree.isDirectoryAt (if path.isAbsolute then [] else here) = true := by
      split
      · rfl
      · exact hhere
    generalize (if path.isAbsolute then [] else here) = base at *
    have halong (front : Place) (hfront : front <+: base) : Place.along [] front = front := by
      rw [Place.along_of_forall_ne, List.nil_append]
      intro name hmem
      exact (hwell.isName_of_isDirectoryAt hbase name (hfront.subset hmem)).ne_up
    refine ⟨?_, ?_⟩
    · rw [Place.along_append, halong base List.prefix_rfl]
      exact hreached.symm
    · intro front hfront
      rcases List.prefix_or_prefix_of_prefix hfront (List.prefix_append base path.route) with
        hfront | ⟨rest, rfl⟩
      · rw [halong front hfront]
        exact hwell.isDirectoryAt_front hbase hfront
      · rw [Place.along_append, halong base List.prefix_rfl]
        by_cases hrest : rest = path.route
        · rw [hrest]
          exact hreached ▸ hplace
        · exact hfronts rest ((List.prefix_append_right_inj base).mp hfront) hrest

end FileTree

namespace ConfigSource

open FileTree SpecWording.Path

variable {tree : FileTree} {here place : Place} {start path above : Path}

/-- A configuration file in a directory that contains a place, without another one between. -/
def Governs (tree : FileTree) (here : Place) (path : Path) (place : Place) : Prop :=
  ∃ holder name, tree.locate here path false = .ok (holder ++ [name]) ∧ holder <+: place ∧
    ∀ between, holder <+: between → between ≠ holder → between <+: place →
      holdsConfig tree here between = false

section WellFormed

variable (hwell : tree.WellFormed)

include hwell

/-- A path that goes along directories has the configuration of where it leads. -/
theorem fileIn?_along_rel (habove : above.isAbsolute = true)
    (hdirectory : ∀ front, front <+: above.route →
      tree.isDirectoryAt (Place.along [] front) = true) :
    Option.Rel (tree.LeadTogether here) (fileIn? tree here above)
      (fileIn? tree here (Place.path (Place.along [] above.route))) := by
  have hend := hdirectory _ List.prefix_rfl
  obtain ⟨habsolute, hroute⟩ := hwell.route_path hend
  apply fileIn?_rel
  intro name hname
  have hstep := (isName_of_mem_fileNames hname).isStep
  rw [show name = ⟨name.text⟩ from rfl, locate_join_of_isAbsolute _ habove hstep,
    locate_join_of_isAbsolute _ habsolute hstep, hroute, hwell.follow_place hend,
    follow_along (fun _ ↦ isStep_of_mem_route) hdirectory]

theorem exists_of_fileIn?_eq_some (hlinks : tree.LinkFree)
    (hplace : tree.isDirectoryAt place = true) (h : fileIn? tree here place.path = some path) :
    ∃ name, tree.locate here path false = .ok (place ++ [name]) := by
  obtain ⟨habsolute, hroute⟩ := hwell.route_path hplace
  obtain ⟨name, hmem, rfl⟩ := List.mem_map.mp (List.mem_of_find?_eq_some h)
  have hname := isName_of_mem_fileNames hmem
  obtain ⟨target, content, hlocate, -⟩ := isFile_eq_true_iff.mp (List.find?_some h)
  have hjoined : (place.path.join name).route = place ++ [name.text] := by
    rw [show name = ⟨name.text⟩ from rfl, route_join _ hname.isStep, hroute]
  have hup : Part.up ∉ (place.path.join name).parts := by
    rw [up_mem_parts_iff, hjoined, List.mem_append, List.mem_singleton]
    rintro (hmem | hlast)
    · exact (hwell.isName_of_isDirectoryAt hplace _ hmem).ne_up rfl
    · exact hname.ne_up hlast.symm
  refine ⟨name.text, ?_⟩
  rw [hlocate, hlinks.eq_spelled hup hlocate, spelled, hjoined,
    isAbsolute_join (text_ne_empty_of_isAbsolute habsolute) hname.isStep, habsolute]
  rfl

/-- The last directory with a configuration that a path goes through has none between itself and
what it contains. -/
theorem governs_of_front {file : Path} {front : Place} {name : String} (hlinks : tree.LinkFree)
    (hhere : tree.isDirectoryAt here = true) (hlocate : tree.locate here path false = .ok place)
    (hplace : tree.isDirectoryAt place = true) (hfront : front <+: path.spelled here)
    (hfile : tree.locate here file false = .ok (Place.along [] front ++ [name]))
    (hlast : ∀ longer, front <+: longer → longer ≠ front → longer <+: path.spelled here →
      holdsConfig tree here (Place.along [] longer) = false)
    (hcontains : Place.along [] front <+: place) : Governs tree here file place := by
  obtain ⟨hreached, -⟩ := hlinks.along_spelled hwell hhere hlocate hplace
  refine ⟨Place.along [] front, name, hfile, hcontains, ?_⟩
  intro between hbelow hne hbetween
  obtain ⟨rest, hrest⟩ := hfront
  rw [← hreached, ← hrest, Place.along_append] at hbetween
  obtain ⟨passed, hpassed, hwithin, rfl⟩ := Place.exists_between hbelow hne hbetween
  rw [← Place.along_append]
  apply hlast
  · exact List.prefix_append _ _
  · simpa using hpassed
  · rw [← hrest]
    exact (List.prefix_append_right_inj front).mpr hwithin

end WellFormed

end ConfigSource

namespace Command.CheckOptions

open ConfigSource FileTree SpecWording.Path

section Located

variable {tree : FileTree} {environment : Environment} {options : CheckOptions} {path : Path}
  {place : Place} (hwell : tree.WellFormed) (hlinks : tree.LinkFree)
  (hhere : tree.isDirectoryAt environment.workingDirectory = true)
  (hconfig : options.config = none) (hpath : options.path = some path)
  (hlocate : tree.locate environment.workingDirectory path false = .ok place)
  (hplace : tree.isDirectoryAt place = true)

include hwell hlinks hhere hconfig hpath hlocate hplace

/-- The search takes the directories that the path goes through, the last one first. -/
theorem exists_source_along :
    ∃ found, options.source tree environment = ofFile? tree environment found ∧
      Option.Rel (tree.LeadTogether environment.workingDirectory) found
        ((path.spelled environment.workingDirectory).inits.reverse.findSome? fun front ↦
          fileIn? tree environment.workingDirectory (Place.path (Place.along [] front))) := by
  obtain ⟨-, hdirectory⟩ := hlinks.along_spelled hwell hhere hlocate hplace
  obtain ⟨habsolute, hroute⟩ := hwell.route_path hhere
  obtain ⟨full, hfull, habsolute', hroute'⟩ :=
    exists_absolute? habsolute (text_ne_empty_of_locate hlocate)
  rw [hroute] at hroute'
  refine ⟨_, source_eq hconfig, ?_⟩
  rw [start_of_not_isFile hpath (isFile_eq_false_of_isDirectoryAt hlocate hplace), hfull,
    Option.getD_some, ← hroute']
  rw [← hroute'] at hdirectory
  have hfronts : List.Forall₂ (fun front above ↦ front <+: full.route ∧
      flip (fun above front ↦ above.isAbsolute = true ∧ above.route = front) front above)
      full.route.inits.reverse full.ancestors :=
    (List.forall₂_and_left _ _).mpr
      ⟨fun front hmem ↦ (List.mem_inits _ _).mp (List.mem_reverse.mp hmem),
        (forall₂_ancestors habsolute').flip⟩
  apply findSome?_rel
  apply hfronts.flip.imp
  rintro above front ⟨hfront, habove, rfl⟩
  exact fileIn?_along_rel hwell habove fun front hmore ↦ hdirectory front (hmore.trans hfront)

/-- A project's configuration is in the last directory with one that the path goes through. -/
theorem exists_front_of_source {file : Path} (hsource : options.source tree environment =
    project file) :
    ∃ front name, front <+: path.spelled environment.workingDirectory ∧
      tree.locate environment.workingDirectory file false =
        .ok (Place.along [] front ++ [name]) ∧
      holdsConfig tree environment.workingDirectory (Place.along [] front) = true ∧
      ∀ longer, front <+: longer → longer ≠ front →
        longer <+: path.spelled environment.workingDirectory →
          holdsConfig tree environment.workingDirectory (Place.along [] longer) = false := by
  obtain ⟨found, hfound, hrel⟩ :=
    exists_source_along hwell hlinks hhere hconfig hpath hlocate hplace
  rw [hfound] at hsource
  generalize hlast : List.findSome? _ _ = last at hrel
  cases hrel with
  | none => exact absurd hsource outsideProjects_ne_project
  | @some file' nearest hlead =>
    obtain rfl : file' = file := ConfigSource.project.inj hsource
    obtain ⟨front, hfront, hin, hlongest⟩ := exists_longest_of_findSome?_inits hlast
    obtain ⟨-, hdirectory⟩ := hlinks.along_spelled hwell hhere hlocate hplace
    obtain ⟨name, hname⟩ := exists_of_fileIn?_eq_some hwell hlinks (hdirectory front hfront) hin
    obtain ⟨reached, hreached, hreached'⟩ := hlead
    refine ⟨front, name, hfront, ?_, ?_, ?_⟩
    · rw [hreached, ← hname, hreached']
    · rw [holdsConfig, hin, Option.isSome_some]
    · intro longer hlonger hne hwithin
      rw [holdsConfig, hlongest longer hlonger hne hwithin, Option.isSome_none]

theorem exists_source_of_front {front : Place}
    (hfront : front <+: path.spelled environment.workingDirectory)
    (hholds : holdsConfig tree environment.workingDirectory (Place.along [] front) = true) :
    ∃ file, options.source tree environment = project file := by
  obtain ⟨found, hfound, hrel⟩ :=
    exists_source_along hwell hlinks hhere hconfig hpath hlocate hplace
  generalize hlast : List.findSome? _ _ = last at hrel
  cases hrel with
  | none =>
    have hmem := List.mem_reverse.mpr ((List.mem_inits _ _).mpr hfront)
    rw [holdsConfig, List.findSome?_eq_none_iff.mp hlast front hmem] at hholds
    cases hholds
  | some _ => exact ⟨_, hfound⟩

end Located

/-- The configuration of a project is the nearest one above the directory that is checked exactly if
every directory with a configuration that the path goes through contains this directory, or comes
before one that does. Without `..` in the path this is so. -/
theorem project_governs_iff (tree : FileTree) (environment : Environment) (options : CheckOptions)
    (path : Path) (place : Place) (hwell : tree.WellFormed) (hlinks : tree.LinkFree)
    (hhere : tree.isDirectoryAt environment.workingDirectory = true)
    (hconfig : options.config = none) (hpath : options.path = some path)
    (hlocate : tree.locate environment.workingDirectory path false = .ok place)
    (hplace : tree.isDirectoryAt place = true) :
    let here := environment.workingDirectory
    let steps := path.spelled here
    ((∀ file, options.source tree environment = .project file → Governs tree here file place) ↔
      ∀ front, front <+: steps → holdsConfig tree here (Place.along [] front) = true →
        ∃ longer, front <+: longer ∧ longer <+: steps ∧ Place.along [] longer <+: place ∧
          holdsConfig tree here (Place.along [] longer) = true) ∧
    (Part.up ∉ path.parts →
      ∀ file, options.source tree environment = .project file → Governs tree here file place) := by
  intro here steps
  have hiff : (∀ file, options.source tree environment = .project file →
      Governs tree here file place) ↔
      ∀ front, front <+: steps → holdsConfig tree here (Place.along [] front) = true →
        ∃ longer, front <+: longer ∧ longer <+: steps ∧ Place.along [] longer <+: place ∧
          holdsConfig tree here (Place.along [] longer) = true := by
    constructor
    · intro hgoverns front hfront hholds
      obtain ⟨file, hsource⟩ := exists_source_of_front hwell hlinks hhere hconfig hpath hlocate
        hplace hfront hholds
      obtain ⟨last, name, hwithin, hfile, hholds', hlast⟩ := exists_front_of_source hwell hlinks
        hhere hconfig hpath hlocate hplace hsource
      obtain ⟨holder, name', hfile', hcontains, -⟩ := hgoverns file hsource
      have hholder : holder = Place.along [] last :=
        (List.append_inj' (Except.ok.inj (hfile'.symm.trans hfile)) rfl).1
      have hbefore : front <+: last := by
        rcases List.prefix_or_prefix_of_prefix hfront hwithin with hbefore | hafter
        · exact hbefore
        · by_cases hsame : front = last
          · exact hsame ▸ List.prefix_rfl
          · rw [hlast front hafter hsame hfront] at hholds
            cases hholds
      exact ⟨last, hbefore, hwithin, hholder ▸ hcontains, hholds'⟩
    · intro hlater file hsource
      obtain ⟨front, name, hfront, hfile, hholds, hlast⟩ := exists_front_of_source hwell hlinks
        hhere hconfig hpath hlocate hplace hsource
      obtain ⟨longer, hlonger, hwithin, hcontains, hholds'⟩ := hlater front hfront hholds
      apply governs_of_front hwell hlinks hhere hlocate hplace hfront hfile hlast
      by_cases hsame : longer = front
      · exact hsame ▸ hcontains
      · rw [hlast longer hlonger hsame hwithin] at hholds'
        cases hholds'
  refine ⟨hiff, ?_⟩
  intro hup
  rw [hiff]
  intro front hfront hholds
  have hsteps : ∀ name ∈ steps, name ≠ ".." := by
    intro name hmem
    rcases List.mem_append.mp hmem with hmem | hmem
    · split at hmem
      · cases hmem
      · exact (hwell.isName_of_isDirectoryAt hhere name hmem).ne_up
    · rintro rfl
      exact hup (up_mem_parts_iff.mpr hmem)
  have hplaceSteps : place = steps := hlinks.eq_spelled hup hlocate
  refine ⟨front, List.prefix_rfl, hfront, ?_, hholds⟩
  rw [Place.along_of_forall_ne fun name hmem ↦ hsteps name (hfront.subset hmem), hplaceSteps]
  exact hfront

/-! ## A configuration below what is checked -/

/-- A directory with a file, and in it one with a configuration. -/
def detourTree : FileTree :=
  ⟨[(["p"], .directory), (["p", "a_spec.rb"], .file "".toUTF8), (["p", "spec"], .directory),
    (["p", "spec", "wording-lint.toml"], .file "".toUTF8)]⟩

def detourEnvironment : Environment where
  workingDirectory := ["p", "spec"]

theorem linkFree_detourTree : detourTree.LinkFree := by decide

theorem source_detourTree :
    CheckOptions.source { path := some ⟨"../spec"⟩ } detourTree detourEnvironment =
      .project ⟨"/p/spec/../spec/wording-lint.toml"⟩ ∧
    CheckOptions.source { path := some ⟨".."⟩ } detourTree detourEnvironment =
      .project ⟨"/p/spec/wording-lint.toml"⟩ := by
  simp only [source, start, resolve, ConfigSource.find, projectFile?, sharedFile?,
    fileIn?_of_linkFree linkFree_detourTree, linkFree_detourTree.isFile_eq_walksToFile]
  decide

/-- A path that comes back to the directory with the configuration. -/
theorem project_governs_back : Governs detourTree ["p", "spec"]
    ⟨"/p/spec/../spec/wording-lint.toml"⟩ ["p", "spec"] := by
  have hlocate : detourTree.locate ["p", "spec"] ⟨"../spec"⟩ false = .ok ["p", "spec"] := by
    rw [linkFree_detourTree.locate_eq_walk]
    decide
  have hholds : holdsConfig detourTree ["p", "spec"]
      (Place.along [] ((⟨"../spec"⟩ : Path).spelled ["p", "spec"])) = true := by
    rw [holdsConfig, fileIn?_of_linkFree linkFree_detourTree]
    decide
  obtain ⟨hgoverns, -⟩ := project_governs_iff detourTree detourEnvironment
    { path := some ⟨"../spec"⟩ } ⟨"../spec"⟩ ["p", "spec"] (by decide) linkFree_detourTree
    (by decide) rfl rfl hlocate (by decide)
  refine hgoverns.mpr ?_ _ source_detourTree.1
  intro front hfront _
  exact ⟨_, hfront, List.prefix_rfl, by decide, hholds⟩

/-- The directory above is checked with the configuration of the one below. -/
theorem not_governs_detour :
    detourTree.locate ["p", "spec"] ⟨".."⟩ false = .ok ["p"] ∧
    CheckOptions.source { path := some ⟨".."⟩ } detourTree detourEnvironment =
      .project ⟨"/p/spec/wording-lint.toml"⟩ ∧
    ¬ Governs detourTree ["p", "spec"] ⟨"/p/spec/wording-lint.toml"⟩ ["p"] := by
  have hfile : detourTree.locate ["p", "spec"] ⟨"/p/spec/wording-lint.toml"⟩ false =
      .ok (["p", "spec"] ++ ["wording-lint.toml"]) := by
    rw [linkFree_detourTree.locate_eq_walk]
    decide
  refine ⟨?_, source_detourTree.2, ?_⟩
  · rw [linkFree_detourTree.locate_eq_walk]
    decide
  · rintro ⟨holder, name, hholder, hcontains, -⟩
    obtain ⟨rfl, -⟩ := List.append_inj' (Except.ok.inj (hfile.symm.trans hholder)) rfl
    exact absurd hcontains (by decide)

end Command.CheckOptions

end SpecWording
