import SpecWording.Proofs.Analysis.Relocation
import SpecWording.Proofs.Command.Prepared
import SpecWording.Proofs.Config.Nearest

/-!
# The root of a shared configuration

A shared configuration that names no root stands for the directory in which it is itself: a check
without a path looks at the files in this directory and not at those in the working directory. It
comes to the check of the working directory only where both are the same directory, or where there is
nothing to check in either.
-/

namespace SpecWording

open FileTree

namespace FileTree

variable {tree : FileTree} {here start place : Place} {base parent : Path} {name : String}

/-! ## Where a dot leads -/

theorem follow_here (hplace : tree.isDirectoryAt place = true) (created : Bool) (links : Nat) :
    tree.follow created links place ["."] = .ok place := by
  rw [follow, if_neg (by simp [hplace]), if_pos (by simp), follow]

section Located

variable (hwell : tree.WellFormed) (hhere : tree.isDirectoryAt here = true)

include hwell hhere

/-- Behind the working directory, a path and a dot lead where the dot leads at the end of the
path's route. -/
theorem locate_join_here (start : Place) (parent : Path) :
    tree.locate start (here.path.join (parent.join ⟨"."⟩)) false =
      tree.follow false linkLimit (if parent.isAbsolute then [] else here)
        (parent.route ++ ["."]) := by
  obtain ⟨habsolute, hroute⟩ := hwell.route_path hhere
  have hdot : '/' ∉ ".".toList := by decide
  obtain ⟨front, hfields, hfront, hsame⟩ := Path.exists_front_join parent hdot
  cases hparent : parent.isAbsolute with
  | true =>
    rw [hparent] at hsame
    have hjoin : here.path.join (parent.join ⟨"."⟩) = parent.join ⟨"."⟩ := by
      rw [Path.join, hsame, if_pos rfl]
    rw [hjoin, locate_of_fields (Path.text_ne_empty_of_isAbsolute hsame) hfields, hsame, hfront]
    rfl
  | false =>
    rw [hparent] at hsame
    obtain ⟨above, -, habove, hplace, hjoin⟩ := Path.exists_fields_join_of_relative
      (Path.text_ne_empty_of_isAbsolute habsolute) hsame
    rw [habsolute] at hjoin
    rw [hfields, ← List.append_assoc] at habove
    rw [locate_of_fields (Path.text_ne_empty_of_isAbsolute hjoin) habove, hjoin,
      Path.routeOf_append, hfront, Path.routeOf_front hplace, hroute, List.append_assoc]
    exact hwell.follow_place hhere _

theorem locate_here (start : Place) :
    tree.locate start (here.path.join ⟨"."⟩) false = .ok here := by
  have hjoin : (⟨""⟩ : Path).join ⟨"."⟩ = ⟨"."⟩ := by decide
  have hroute : Path.route ⟨""⟩ = [] := by decide
  rw [← hjoin, locate_join_here hwell hhere, hroute]
  exact follow_here hhere _ _

/-- A dot behind the parent of a file leads to the directory that holds its name. -/
theorem exists_holder (hname : Path.IsName name)
    (hfile : tree.locate here (base.join ⟨name⟩) false = .ok place)
    (hparent : (base.join ⟨name⟩).parent? = some parent) :
    ∃ holder, tree.locate here (here.path.join (parent.join ⟨"."⟩)) false = .ok holder ∧
      tree.isDirectoryAt holder = true ∧ (tree.entry? (holder ++ [name])).isSome = true := by
  have hroute := Path.route_join base hname.isStep
  obtain ⟨parent', hparent', habsolute, hfront, -⟩ :=
    @Path.exists_parent? (base.join ⟨name⟩) (by simp [hroute])
  obtain rfl := Option.some.inj (hparent.symm.trans hparent')
  rw [hroute, List.dropLast_concat] at hfront
  rw [locate_join_eq _ _ _ hname.isStep, ← habsolute, ← hfront] at hfile
  obtain ⟨holder, left, hholder, hlast⟩ := leadsThrough_of_follow hfile
  refine ⟨holder, ?_, hholder, ?_⟩
  · rw [locate_join_here hwell hhere, hlast]
    exact follow_here hholder _ _
  · rw [hlast, follow_cons hholder hname.isStep, if_neg hname.ne_up] at hfile
    cases hentry : tree.entry? (holder ++ [name]) with
    | none =>
      rw [hentry] at hfile
      cases hfile
    | some entry => rfl

end Located

end FileTree

open Discovery

namespace Analyzer

variable {analyzer : Analyzer} {tree : FileTree} {environment : Environment} {root' : Path}
  {place place' rest : Place} {paths paths' : List Path}

/-! ## The files at two roots of one tree -/

/-- What a discovered path stands for: the place that it leads to, and its name below the root. -/
def target (analyzer : Analyzer) (tree : FileTree) (directory : Place) (path : Path) :
    Except PathError Place × Option Path :=
  (tree.locate directory path false, path.below? analyzer.root)

/-- The target of the path of names below a root at a place. -/
def targetBelow (place rest : Place) : Except PathError Place × Option Path :=
  (.ok (place ++ rest), some rest.relative)

/-- Whether two analyzers keep the same files of those below a place. -/
def KeepAlike (a b : Analyzer) (tree : FileTree) (environment : Environment) (place : Place) :
    Prop :=
  ∀ rest ∈ filesBelow tree place,
    a.keeps tree environment place rest = b.keeps tree environment place rest

section Located

variable (hwell : tree.WellFormed) (hplace : tree.isDirectoryAt place = true)
  (hroot : tree.locate environment.workingDirectory analyzer.root false = .ok place)

include hwell hroot

theorem target_pathOf (hrest : rest ∈ filesBelow tree place) :
    analyzer.target tree environment.workingDirectory (pathOf analyzer.root rest) =
      targetBelow place rest := by
  obtain ⟨-, content, hmem⟩ := mem_filesBelow_iff.mp hrest
  rw [target, targetBelow, locate_pathOf hwell hroot (hwell.entry?_of_mem hmem) (by simp),
    below?_pathOf (text_ne_empty_of_locate hroot) (isName_of_mem_filesBelow hwell hrest)]

include hplace

theorem paths_of_discover (hdiscover : analyzer.discover tree environment = .ok paths) :
    paths = (analyzer.checkedBelow tree environment place).map (pathOf analyzer.root) := by
  by_cases hsilent : complaintsAbove tree analyzer.config.files.respectGitignore place = []
  · rw [discover_of_silent hwell hplace hroot hsilent] at hdiscover
    exact (Except.ok.inj hdiscover).symm
  · obtain ⟨error, herror⟩ := exists_discover_eq_error hplace hroot hsilent
    rw [herror] at hdiscover
    cases hdiscover

theorem targets_of_discover (hdiscover : analyzer.discover tree environment = .ok paths) :
    paths.map (analyzer.target tree environment.workingDirectory) =
      (analyzer.checkedBelow tree environment place).map (targetBelow place) := by
  rw [paths_of_discover hwell hplace hroot hdiscover, List.map_map]
  apply List.map_congr_left
  intro rest hmem
  exact target_pathOf hwell hroot (mem_checkedBelow_iff.mp hmem).1

end Located

/-- Files with the same targets have the same names below their roots, and the roots are the same
place if there are any. -/
theorem eq_of_targets_eq {rests rests' : List Place}
    (hrests : ∀ rest ∈ rests, ∀ name ∈ rest, Path.IsName name)
    (hrests' : ∀ rest ∈ rests', ∀ name ∈ rest, Path.IsName name)
    (h : rests.map (targetBelow place) = rests'.map (targetBelow place')) :
    rests = rests' ∧ (place = place' ∨ rests = []) := by
  induction rests generalizing rests' with
  | nil =>
    rw [List.map_nil, eq_comm, List.map_eq_nil_iff] at h
    exact ⟨h.symm, .inr rfl⟩
  | cons rest rests ih =>
    cases rests' with
    | nil => cases h
    | cons rest' rests' =>
      rw [List.forall_mem_cons] at hrests hrests'
      rw [List.map_cons, List.map_cons, List.cons.injEq, targetBelow, targetBelow, Prod.mk.injEq,
        Except.ok.injEq, Option.some.injEq] at h
      obtain ⟨⟨hplaces, hnames⟩, hothers⟩ := h
      have hrest : rest = rest' := by
        apply name_injective.list_map
        rw [← parts_relative hrests.1, ← parts_relative hrests'.1, hnames]
      rw [hrest] at hplaces ⊢
      exact ⟨congrArg (rest' :: ·) (ih hrests.2 hrests'.2 hothers).1,
        .inl (List.append_cancel_right hplaces)⟩

theorem result_eq_of_discover_eq_nil {a b : Analyzer} (hwell : tree.WellFormed)
    (ha : a.discover tree environment = .ok [])
    (hb : b.discover tree environment = .ok []) :
    (a.run tree environment).result = (b.run tree environment).result := by
  rw [result_run ha (leadApart_discover hwell ha), result_run hb (leadApart_discover hwell hb)]
  rfl

section Roots

variable (hwell : tree.WellFormed) (hplace : tree.isDirectoryAt place = true)
  (hplace' : tree.isDirectoryAt place' = true)
  (hroot : tree.locate environment.workingDirectory analyzer.root false = .ok place)
  (hroot' : tree.locate environment.workingDirectory root' false = .ok place')

include hwell hplace hplace' hroot hroot'

/-- At two roots the same files are checked under the same names only where the roots are one place,
unless there is nothing to check. -/
theorem targets_eq_iff (hdiscover : analyzer.discover tree environment = .ok paths)
    (hdiscover' : (analyzer.movedTo root').discover tree environment = .ok paths') :
    paths'.map ((analyzer.movedTo root').target tree environment.workingDirectory) =
        paths.map (analyzer.target tree environment.workingDirectory) ↔
      (place' = place ∧ (analyzer.movedTo root').KeepAlike analyzer tree environment place) ∨
        paths' = [] ∧ paths = [] := by
  have hpaths := paths_of_discover hwell hplace hroot hdiscover
  have hpaths' := paths_of_discover hwell hplace' hroot' hdiscover'
  have hchecked {a : Analyzer} {place : Place} (rest : Place)
      (hmem : rest ∈ a.checkedBelow tree environment place) :=
    isName_of_mem_filesBelow hwell (mem_checkedBelow_iff.mp hmem).1
  constructor
  · intro htargets
    rw [targets_of_discover hwell hplace hroot hdiscover,
      targets_of_discover hwell hplace' hroot' hdiscover'] at htargets
    obtain ⟨hrests, hplaces⟩ := eq_of_targets_eq hchecked hchecked htargets
    rcases hplaces with rfl | hnone
    · exact .inl ⟨rfl, (checkedBelow_eq_iff (.refl hwell hplace)).mp hrests⟩
    · rw [hpaths, hpaths', ← hrests, hnone]
      exact .inr ⟨rfl, rfl⟩
  · rintro (⟨rfl, hkeep⟩ | ⟨rfl, rfl⟩)
    · rw [targets_of_discover hwell hplace hroot hdiscover,
        targets_of_discover hwell hplace' hroot' hdiscover',
        (checkedBelow_eq_iff (.refl hwell hplace)).mpr hkeep]
    · rfl

omit hplace' in
/-- At two roots that are one place there is the same result or none, if the same files are kept. -/
theorem result_eq_of_keepAlike (hplaces : place' = place)
    (hkeep : (analyzer.movedTo root').KeepAlike analyzer tree environment place) :
    ((analyzer.movedTo root').run tree environment).result.toOption =
      (analyzer.run tree environment).result.toOption := by
  subst hplaces
  by_cases hsilent : complaintsAbove tree analyzer.config.files.respectGitignore place' = []
  · have hchecked := (checkedBelow_eq_iff (.refl hwell hplace)).mpr hkeep
    have hdiscover := discover_of_silent hwell hplace hroot hsilent
    have hdiscover' : (analyzer.movedTo root').discover tree environment = _ :=
      discover_of_silent hwell hplace hroot' hsilent
    rw [hchecked] at hdiscover'
    exact (result_movedTo (.refl hwell hplace) hroot hroot'
      (fun rest hmem ↦ (mem_checkedBelow_iff.mp hmem).1) hdiscover hdiscover').symm
  · obtain ⟨error, herror⟩ := exists_discover_eq_error hplace hroot hsilent
    obtain ⟨error', herror'⟩ : ∃ error', (analyzer.movedTo root').discover tree environment =
      .error error' := exists_discover_eq_error hplace hroot' hsilent
    rw [(run_of_discover_error herror).2, (run_of_discover_error herror').2]
    rfl

end Roots

end Analyzer

namespace Command

open ConfigSource

theorem exitCode_answerOf (analyzer : Analyzer) (format : Format) (tree : FileTree)
    (environment : Environment) (log : Log) :
    (answerOf analyzer format tree environment log).exitCode =
      (analyzer.run tree environment).result.toOption.elim 1
        (exitCodeOf · analyzer.config.threshold) := by
  rw [answerOf, checkWith]
  cases hresult : (analyzer.run tree environment).result <;>
    simp [Answer.failed, Except.toOption]

namespace CheckOptions

variable {tree : FileTree} {environment : Environment} {options : CheckOptions} {file : Path}

/-- A shared configuration is a file of its name, and the search found no other. -/
theorem exists_of_source_shared (h : options.source tree environment = .shared file) :
    options.config = none ∧ (∃ directory : Path, file = directory.join sharedFileName) ∧
      tree.isFile environment.workingDirectory file = true := by
  unfold source resolve ConfigSource.find at h
  dsimp only at h
  split at h
  · cases h
  · next hnamed =>
    split at h
    · cases h
    · split at h
      · next path hshared =>
        obtain rfl := ConfigSource.shared.inj h
        obtain ⟨hfile, hexists⟩ := Option.filter_eq_some_iff.mp hshared
        obtain ⟨directory, -, rfl⟩ := Option.map_eq_some_iff.mp hfile
        exact ⟨hnamed, ⟨directory, rfl⟩, hexists⟩
      · cases h

/-- The search for a configuration starts in the working directory, named or not. -/
theorem source_dotted (hhere : tree.isDirectoryAt environment.workingDirectory = true)
    (hpath : options.path = none) :
    options.dotted.source tree environment = options.source tree environment := by
  have hlocate : tree.locate environment.workingDirectory ⟨"."⟩ false =
      .ok environment.workingDirectory := follow_here hhere false linkLimit
  have hnotFile := isFile_eq_false_of_isDirectoryAt hlocate hhere
  have hstart : options.dotted.start tree environment.workingDirectory =
      options.start tree environment.workingDirectory := by
    rw [start_of_not_isFile rfl hnotFile, start, hpath]
  rw [source, source, hstart]
  rfl

/-- Without a path, a check with a shared configuration that names no root fails as the check of the
working directory does, or it is the same check moved to the directory that holds the configuration.
It checks the same files under the same names, with the same result and exit code, exactly if this is
the working directory, for which the same files are kept, or if there is nothing to check. -/
theorem check_shared_root (tree : FileTree) (environment : Environment) (options : CheckOptions)
    (file : Path) (hwell : tree.WellFormed)
    (hhere : tree.isDirectoryAt environment.workingDirectory = true)
    (hpath : options.path = none) (hsource : options.source tree environment = .shared file)
    (hroot : ∀ config, Config.load tree environment.workingDirectory file = .ok config →
      config.files.root = ⟨"."⟩) :
    let here := environment.workingDirectory
    let answer := check options tree environment
    let answer' := check options.dotted tree environment
    (∃ failure log, answer = .failed tree log failure ∧ answer' = .failed tree log failure) ∨
    ∃ analyzer parent holder log, file.parent? = some parent ∧
      let moved := analyzer.movedTo (here.path.join (parent.join ⟨"."⟩))
      answer' = answerOf analyzer options.format tree environment log ∧
      answer = answerOf moved options.format tree environment log ∧
      analyzer.root = here.path.join ⟨"."⟩ ∧ tree.locate here analyzer.root false = .ok here ∧
      tree.locate here moved.root false = .ok holder ∧ tree.isDirectoryAt holder = true ∧
      (tree.entry? (holder ++ [sharedFileName.text])).isSome = true ∧
      (holder = here → moved.KeepAlike analyzer tree environment here →
        (moved.run tree environment).result.toOption =
          (analyzer.run tree environment).result.toOption ∧ answer.exitCode = answer'.exitCode) ∧
      ∀ paths paths', analyzer.discover tree environment = .ok paths →
        moved.discover tree environment = .ok paths' →
        ((paths'.map (moved.target tree here) = paths.map (analyzer.target tree here) ∧
            (moved.run tree environment).result.toOption =
              (analyzer.run tree environment).result.toOption ∧
            answer.exitCode = answer'.exitCode) ↔
          (holder = here ∧ moved.KeepAlike analyzer tree environment here) ∨
            paths' = [] ∧ paths = []) := by
  intro here answer answer'
  obtain ⟨-, ⟨directory, hfile⟩, hexists⟩ := exists_of_source_shared hsource
  obtain ⟨place, content, hlocate, -⟩ := isFile_eq_true_iff.mp hexists
  have hname : Path.IsName sharedFileName.text := by decide
  rw [hfile] at hlocate
  have hstep : (directory.join sharedFileName).route ≠ [] := by
    rw [Path.route_join _ hname.isStep]
    simp
  obtain ⟨parent, hparent, -⟩ := Path.exists_parent? hstep
  obtain ⟨holder, hholder, hdirectory, hentry⟩ := exists_holder hwell hhere hname hlocate hparent
  rw [← hfile] at hparent
  have hdotted := (source_dotted hhere hpath).trans hsource
  rcases perform_of_source_shared hpath hsource hdotted hroot hparent with
    ⟨failure, log, hprepared, hnamed⟩ | ⟨analyzer, log, hanalyzer, hnamed, hprepared⟩
  · refine .inl ⟨failure, log, ?_, ?_⟩
    · simp only [answer, check, hprepared]
    · simp only [answer', check, hnamed]
  · have hanswer' := check_eq_answerOf hnamed rfl
    have hanswer := check_eq_answerOf hprepared (checkWith_configuredAt _ _)
    have hplace : tree.locate here analyzer.root false = .ok here := by
      rw [hanalyzer]
      exact locate_here hwell hhere here
    have hcode (hresult : ((analyzer.movedTo (here.path.join (parent.join ⟨"."⟩))).run tree
        environment).result.toOption = (analyzer.run tree environment).result.toOption) :
        answer.exitCode = answer'.exitCode := by
      simp only [answer, answer']
      rw [hanswer, hanswer', exitCode_answerOf, exitCode_answerOf, hresult]
      rfl
    refine .inr ⟨analyzer, parent, holder, log, hparent, hanswer', hanswer, hanalyzer, hplace,
      hholder, hdirectory, hentry, ?_, ?_⟩
    · intro hplaces hkeep
      have hresult := Analyzer.result_eq_of_keepAlike hwell hhere hplace hholder hplaces hkeep
      exact ⟨hresult, hcode hresult⟩
    · intro paths paths' hdiscover hdiscover'
      rw [Analyzer.targets_eq_iff hwell hhere hdirectory hplace hholder hdiscover hdiscover']
      apply and_iff_left_of_imp
      rintro (⟨hplaces, hkeep⟩ | ⟨rfl, rfl⟩)
      · have hresult := Analyzer.result_eq_of_keepAlike hwell hhere hplace hholder
          hplaces hkeep
        exact ⟨hresult, hcode hresult⟩
      · have hresult := Analyzer.result_eq_of_discover_eq_nil hwell hdiscover' hdiscover
        exact ⟨congrArg Except.toOption hresult, hcode (congrArg Except.toOption hresult)⟩

end CheckOptions

/-! ## A project without a configuration of its own -/

open CheckOptions

/-- A directory with a shared configuration, and another one with a file to check. -/
def sharedTree : FileTree :=
  ⟨[(["g"], .directory), (["g", "config.toml"], .file "".toUTF8), (["p"], .directory),
    (["p", "a_spec.rb"], .file "it 'should work' do\nend\n".toUTF8)]⟩

def sharedEnvironment (name : String) : Environment where
  workingDirectory := [name]
  configDirectory := some ⟨"/g"⟩

/-- The glob for what ends in this text, below any directory. -/
def specGlob : Glob := ⟨.anyComponents :: .anySequence :: "_spec.rb".toList.map .char⟩

def sharedAnalyzer : Analyzer where
  root := ⟨"/p/."⟩
  language := ruby
  rules := (Wording.configuredRules? {}).getD []
  excluded := [vendorGlob]
  included := [specGlob]
  config := {}
  fix := false
  strict := false

theorem linkFree_sharedTree : sharedTree.LinkFree := by decide

theorem wellFormed_sharedTree : sharedTree.WellFormed := by decide

theorem readText_sharedTree :
    sharedTree.readText ["p"] ⟨"/g/config.toml"⟩ = .ok "" ∧
    sharedTree.readText ["g"] ⟨"/g/config.toml"⟩ = .ok "" ∧
    sharedTree.readText ["p"] ⟨"/p/./a_spec.rb"⟩ = .ok "it 'should work' do\nend\n" := by
  simp only [readText_eq_ok_iff, linkFree_sharedTree.locate_eq_walk]
  refine ⟨⟨["g", "config.toml"], ?_⟩, ⟨["g", "config.toml"], ?_⟩, ⟨["p", "a_spec.rb"], ?_⟩⟩ <;>
    decide

/-- An empty text configures nothing. -/
theorem parse?_empty : Config.parse? "" = some {} := by
  have hfields : (Config.parse? "").map (fun config ↦
      (config.failOn, config.files, config.rules.isEmpty)) = some (none, {}, true) := by
    decide +kernel
  obtain ⟨⟨failOn, files, rules⟩, hconfig, hfields⟩ := Option.map_eq_some_iff.mp hfields
  rw [Prod.mk.injEq, Prod.mk.injEq, List.isEmpty_iff] at hfields
  obtain ⟨rfl, rfl, rfl⟩ := hfields
  exact hconfig

theorem load_sharedTree {name : String} (h : name ∈ ["g", "p"]) :
    Config.load sharedTree [name] ⟨"/g/config.toml"⟩ = .ok {} := by
  obtain ⟨hp, hg, -⟩ := readText_sharedTree
  simp only [List.mem_cons, List.not_mem_nil, or_false] at h
  rcases h with rfl | rfl
  · rw [Config.load, hg]
    simp only [parse?_empty]
  · rw [Config.load, hp]
    simp only [parse?_empty]

theorem source_sharedTree {name : String} (h : name ∈ ["g", "p"]) :
    CheckOptions.source {} sharedTree (sharedEnvironment name) = .shared ⟨"/g/config.toml"⟩ := by
  simp only [source, start, resolve, ConfigSource.find, projectFile?, sharedFile?,
    fileIn?_of_linkFree linkFree_sharedTree, linkFree_sharedTree.isFile_eq_walksToFile]
  revert name
  decide

theorem perform_sharedTree :
    (CheckOptions.prepare (dotted {}) sharedTree (sharedEnvironment "p")).perform =
      (.ok sharedAnalyzer, [.info "Using global config: /g/config.toml", notice sharedAnalyzer]) := by
  have hsource : (dotted {}).source sharedTree (sharedEnvironment "p") = .shared ⟨"/g/config.toml"⟩ :=
    (source_dotted (by decide) rfl).trans (source_sharedTree (by decide))
  have hload : Config.load sharedTree (sharedEnvironment "p").workingDirectory ⟨"/g/config.toml"⟩ =
      .ok {} := load_sharedTree (by decide)
  have hrules : Wording.configuredRules? {} = some sharedAnalyzer.rules := rfl
  have hbuild : ((dotted {}).request {} sharedAnalyzer.rules).build (Place.path ["p"]) =
      .ok sharedAnalyzer := by
    have hexcluded : AnalysisRequest.parseGlobs ["**/vendor/**"] = .ok [vendorGlob] := by
      decide +kernel
    have hincluded : AnalysisRequest.parseGlobs ["**/*_spec.rb"] = .ok [specGlob] := by
      decide +kernel
    have hroot : (Place.path ["p"]).join ⟨"."⟩ = ⟨"/p/."⟩ := by decide
    simp only [request, dotted, AnalysisRequest.build, AnalysisRequest.rootPath, Option.map_some,
      Option.getD_some, List.nil_append, hexcluded, hincluded]
    simp [hroot, sharedAnalyzer, bind, Except.bind, pure, Except.pure]
  have hselect : (dotted {}).selectRules sharedAnalyzer.rules = pure sharedAnalyzer.rules := rfl
  have hprepare (log : Log) : ((dotted {}).prepareWith (sharedEnvironment "p") {}).run.run log =
      (.ok sharedAnalyzer, log ++ [notice sharedAnalyzer]) := by
    simp only [prepareWith, Work.run_bind, Work.run_ofOption, hrules, Option.elim_some, hselect,
      Work.run_pure, Work.run_ofExcept, Work.run_note, sharedEnvironment, hbuild, Except.mapError]
  rw [Work.perform, prepare_eq, Work.run_bind, run_readConfig hsource, hload]
  exact hprepare _

theorem read_sharedTree {directory : Place} (h : directory ∈ [[], ["g"], ["p"]]) :
    Ignore.Level.read sharedTree true directory = { directory := directory } := by
  have hmissing : ∀ directory ∈ [[], ["g"], ["p"]], ∀ file ∈ Ignore.files,
      sharedTree.walk directory (FileTree.steps file) = .error .missing := by
    decide
  exact Ignore.Level.read_of_linkFree linkFree_sharedTree (hmissing directory h)

/-- The analyzer at the dot in a directory. -/
def sharedAnalyzerIn (name : String) : Analyzer :=
  sharedAnalyzer.movedTo ((Place.path [name]).join ⟨"."⟩)

theorem standing_sharedTree {name : String} (h : name ∈ ["g", "p"]) :
    Standing sharedTree (sharedEnvironment "p")
      (sharedAnalyzerIn name).config.files.respectGitignore (sharedAnalyzerIn name).root [name] where
  locate := by
    apply locate_here wellFormed_sharedTree
    revert name
    decide
  silentAbove := fun front hfront ↦ by
    obtain rfl : front = [] := List.mem_singleton.mp hfront
    exact read_sharedTree List.mem_cons_self
  silentPersonal := fun _ ↦ rfl

/-- Of the two directories, only one has a file to check. -/
theorem discover_sharedTree {name : String} (h : name ∈ ["g", "p"]) :
    (sharedAnalyzerIn name).discover sharedTree (sharedEnvironment "p") =
      .ok (if name = "p" then [⟨"/p/./a_spec.rb"⟩] else []) := by
  have hplaces : ∀ name ∈ ["g", "p"], sharedTree.isDirectoryAt [name] = true ∧
      Ignore.Rules.directoriesBelow sharedTree [name] = [[]] ∧ [name] ∈ [[], ["g"], ["p"]] := by
    decide
  obtain ⟨hplace, hdirectories, hlisted⟩ := hplaces name h
  have hstanding := standing_sharedTree h
  have hcandidates : (sharedAnalyzerIn name).candidates sharedTree [name] =
      (filesBelow sharedTree [name]).filter fun rest ↦
        !isSkipped {} [] ⟨""⟩ rest && sharedAnalyzer.wantsNames rest := by
    apply Analyzer.candidates_of_silent
    rw [hdirectories]
    intro rest hrest
    obtain rfl := List.mem_singleton.mp hrest
    exact read_sharedTree hlisted
  have hdiscover := Analyzer.discover_of_silent wellFormed_sharedTree hplace hstanding.locate
    hstanding.complaintsAbove_eq_nil
  rw [Analyzer.checkedBelow_of_standing wellFormed_sharedTree hstanding, hcandidates] at hdiscover
  rw [hdiscover]
  clear * - h
  revert name
  decide +kernel

theorem root_sharedTree {name : String} (h : name ∈ ["g", "p"]) (config : Config)
    (hload : Config.load sharedTree [name] ⟨"/g/config.toml"⟩ = .ok config) :
    config.files.root = ⟨"."⟩ := by
  obtain rfl := Except.ok.inj ((load_sharedTree h).symm.trans hload)
  rfl

/-- In the directory of the shared configuration the check is the same with a dot. -/
theorem check_shared_root_here :
    (check {} sharedTree (sharedEnvironment "g")).exitCode =
      (check { path := some ⟨"."⟩ } sharedTree (sharedEnvironment "g")).exitCode := by
  have hg : "g" ∈ ["g", "p"] := by decide
  have hparents : (⟨"/g/config.toml"⟩ : Path).parent? = some ⟨"/g"⟩ ∧
      (Place.path ["g"]).join ((⟨"/g"⟩ : Path).join ⟨"."⟩) = (Place.path ["g"]).join ⟨"."⟩ := by
    decide
  rcases check_shared_root sharedTree (sharedEnvironment "g") {} ⟨"/g/config.toml"⟩
      wellFormed_sharedTree (by decide) rfl (source_sharedTree hg) (root_sharedTree hg) with
    ⟨failure, log, hanswer, hanswer'⟩ |
    ⟨analyzer, parent, holder, log, hparent, -, -, hroot, hhere, hholder, -, -, hsame, -⟩
  · rw [hanswer]
    exact congrArg Answer.exitCode hanswer'.symm
  · obtain rfl := Option.some.inj (hparents.1.symm.trans hparent)
    have hmoved : analyzer.movedTo ((sharedEnvironment "g").workingDirectory.path.join
        ((⟨"/g"⟩ : Path).join ⟨"."⟩)) = analyzer := by
      rw [show (sharedEnvironment "g").workingDirectory.path = Place.path ["g"] from rfl,
        hparents.2, show (Place.path ["g"]).join ⟨"."⟩ = analyzer.root from hroot.symm]
      rfl
    rw [hmoved] at hholder hsame
    exact (hsame (Except.ok.inj (hholder.symm.trans hhere)) fun _ _ ↦ rfl).2

/-- From elsewhere the check without a path looks at that directory, where nothing is to be checked,
and with a dot it finds the file in the working directory. -/
theorem check_leaves_directory :
    CheckOptions.source {} sharedTree (sharedEnvironment "p") = .shared ⟨"/g/config.toml"⟩ ∧
    Config.load sharedTree ["p"] ⟨"/g/config.toml"⟩ = .ok {} ∧
    ∃ log, check {} sharedTree (sharedEnvironment "p") =
        answerOf (sharedAnalyzer.movedTo ⟨"/g/."⟩) .text sharedTree (sharedEnvironment "p") log ∧
      check { path := some ⟨"."⟩ } sharedTree (sharedEnvironment "p") =
        answerOf sharedAnalyzer .text sharedTree (sharedEnvironment "p") log ∧
      (sharedAnalyzer.movedTo ⟨"/g/."⟩).discover sharedTree (sharedEnvironment "p") = .ok [] ∧
      sharedAnalyzer.discover sharedTree (sharedEnvironment "p") = .ok [⟨"/p/./a_spec.rb"⟩] := by
  have hp : "p" ∈ ["g", "p"] := by decide
  have hg : "g" ∈ ["g", "p"] := by decide
  have hhere : sharedTree.isDirectoryAt ["p"] = true := by decide
  have hsource := source_sharedTree hp
  have hdotted := (@source_dotted _ (sharedEnvironment "p") {} hhere rfl).trans hsource
  have hparent : (⟨"/g/config.toml"⟩ : Path).parent? = some ⟨"/g"⟩ := by decide
  have hmoved : (Place.path ["p"]).join ((⟨"/g"⟩ : Path).join ⟨"."⟩) = ⟨"/g/."⟩ := by
    decide
  refine ⟨hsource, load_sharedTree hp, ?_⟩
  rcases perform_of_source_shared rfl hsource hdotted (root_sharedTree hp) hparent with
    ⟨failure, log, -, hfails⟩ | ⟨analyzer, log, -, hnamed, hprepared⟩
  · rw [perform_sharedTree] at hfails
    cases hfails
  · have hsame : analyzer = sharedAnalyzer := by
      rw [perform_sharedTree, Prod.mk.injEq, Except.ok.injEq] at hnamed
      exact hnamed.1.symm
    subst hsame
    rw [show (sharedEnvironment "p").workingDirectory.path = Place.path ["p"] from rfl,
      hmoved] at hprepared
    refine ⟨log, check_eq_answerOf hprepared (checkWith_configuredAt _ _),
      check_eq_answerOf hnamed rfl, ?_, ?_⟩
    · have hdiscover := discover_sharedTree hg
      rw [sharedAnalyzerIn, show (Place.path ["g"]).join ⟨"."⟩ = ⟨"/g/."⟩ by decide]
        at hdiscover
      exact hdiscover
    · have hdiscover := discover_sharedTree hp
      rw [sharedAnalyzerIn, show (Place.path ["p"]).join ⟨"."⟩ = sharedAnalyzer.root by
        decide] at hdiscover
      exact hdiscover

end Command

end SpecWording
