import SpecWording.Command.Run
import SpecWording.Proofs.Analysis.BelowRoot
import SpecWording.Proofs.Analysis.Building

/-!
# What a check is prepared to do

A check is prepared from the configuration, and the root has a say in nothing but where the analyzer
starts. So a check without a path whose shared configuration leaves the root at the default comes to
the check of the working directory, with the root moved to where the configuration is.
-/

namespace SpecWording

namespace Command.Work

variable {α β ε : Type}

theorem run_bind (work : Work α) (next : α → Work β) (log : Log) :
    (work >>= next).run.run log = match work.run.run log with
      | (.ok a, log) => (next a).run.run log
      | (.error failure, log) => (.error failure, log) := by
  rw [ExceptT.run_bind, StateT.run_bind]
  generalize work.run.run log = outcome
  obtain ⟨result, log⟩ := outcome
  cases result <;> rfl

theorem run_pure (a : α) (log : Log) : (pure a : Work α).run.run log = (.ok a, log) := rfl

theorem run_note (entry : LogEntry) (log : Log) :
    (note entry).run.run log = (.ok (), log ++ [entry]) := rfl

theorem run_ofExcept (failure : ε → Failure) (result : Except ε α) (log : Log) :
    (ofExcept failure result).run.run log = (result.mapError failure, log) := by
  cases result <;> rfl

theorem run_ofOption (failure : Failure) (value : Option α) (log : Log) :
    (ofOption failure value).run.run log = (value.elim (.error failure) .ok, log) := by
  cases value <;> rfl

end Command.Work

namespace Config

variable {config : Config} {file directory : Path}

/-- The configuration with another root. -/
def rootedAt (config : Config) (root : Path) : Config :=
  { config with files := { config.files with root := root } }

theorem anchored_shared (hroot : config.files.root = ⟨"."⟩)
    (hparent : file.parent? = some directory) :
    config.anchored (.shared file) = config.rootedAt (directory.join ⟨"."⟩) := by
  have hrelative : config.files.root.isAbsolute = false := by
    rw [hroot]
    decide
  rw [anchored, hrelative, if_neg Bool.false_ne_true, ← hroot]
  simp [ConfigSource.path?, hparent, rootedAt]

end Config

namespace Analyzer

/-- The analyzer with another root in its configuration. -/
def configuredAt (analyzer : Analyzer) (root : Path) : Analyzer :=
  { analyzer with config := analyzer.config.rootedAt root }

/-- A run goes by the analyzer's root, not by the one in its configuration. -/
theorem run_configuredAt (analyzer : Analyzer) (root : Path) :
    (analyzer.configuredAt root).run = analyzer.run :=
  run_congr rfl rfl rfl rfl

end Analyzer

namespace Command

theorem checkWith_configuredAt (analyzer : Analyzer) (root : Path) :
    checkWith (analyzer.configuredAt root) = checkWith analyzer := by
  funext format tree environment
  rw [checkWith, checkWith, Analyzer.run_configuredAt]
  rfl

/-- What is logged about an analyzer before it runs. -/
def notice (analyzer : Analyzer) : LogEntry :=
  .info s!"Analyzing {analyzer.root.text} with {analyzer.rules.length} rule(s)"

/-- The answer that an analyzer gives, behind what was logged before. -/
def answerOf (analyzer : Analyzer) (format : Format) (tree : FileTree) (environment : Environment)
    (log : Log) : Answer :=
  let answer := checkWith analyzer format tree environment
  { answer with log := log ++ notice analyzer :: answer.log }

namespace CheckOptions

variable {tree : FileTree} {environment : Environment} {options : CheckOptions}
  {file directory : Path} {config : Config}

/-- The same check of the working directory, named by a dot. -/
def dotted (options : CheckOptions) : CheckOptions := { options with path := some ⟨"."⟩ }

/-- Prepares the analyzer once the configuration is read. -/
def prepareWith (options : CheckOptions) (environment : Environment) (config : Config) :
    Work Analyzer := do
  let configured ← .ofOption .ruleOptions (Wording.configuredRules? config)
  let rules ← options.selectRules configured
  let analyzer ← .ofExcept .analyzer
    ((options.request config rules).build environment.workingDirectory.path)
  Work.note (notice analyzer)
  return analyzer

theorem prepare_eq (options : CheckOptions) (tree : FileTree) (environment : Environment) :
    options.prepare tree environment =
      options.readConfig tree environment >>= options.prepareWith environment := rfl

theorem run_readConfig (hsource : options.source tree environment = .shared file) (log : Log) :
    (options.readConfig tree environment).run.run log =
      (match Config.load tree environment.workingDirectory file with
        | .error cause => .error (.config file cause)
        | .ok config =>
          .ok (if options.path.isNone then config.anchored (.shared file) else config),
        log ++ [.info s!"Using global config: {file.text}"]) := by
  have hread : (ConfigSource.shared file).load tree environment.workingDirectory =
      Config.load tree environment.workingDirectory file := rfl
  rw [readConfig]
  simp only [hsource, hread, Work.run_bind, Work.run_note, Work.run_ofExcept]
  cases Config.load tree environment.workingDirectory file <;> rfl

theorem build_dotted (hpath : options.path = none) (config : Config) (rules : List Rule)
    (here root : Path) :
    (options.request (config.rootedAt root) rules).build here =
      ((options.dotted.request config rules).build here).map fun analyzer : Analyzer ↦
        (analyzer.movedTo (here.join root)).configuredAt root := by
  simp only [request, dotted, AnalysisRequest.build, AnalysisRequest.rootPath, hpath,
    Config.rootedAt, Option.map_some, Option.getD_some]
  cases AnalysisRequest.parseGlobs (options.excluded ++ config.files.excluded) with
  | error cause => rfl
  | ok excluded =>
    cases AnalysisRequest.parseGlobs ([] ++ config.files.included) <;> rfl

theorem root_of_build_dotted {rules : List Rule} {here : Path} {analyzer : Analyzer}
    (h : (options.dotted.request config rules).build here = .ok analyzer) :
    analyzer.root = here.join ⟨"."⟩ := by
  obtain ⟨-, hroot, -⟩ := AnalysisRequest.of_build h
  exact hroot

/-- With another root in the configuration, the preparation fails alike or gives the analyzer at
this root. -/
theorem run_prepareWith_rootedAt (hpath : options.path = none) (environment : Environment)
    (config : Config) (root : Path) (log : Log) :
    let prepared := (options.prepareWith environment (config.rootedAt root)).run.run log
    let dotted := (options.dotted.prepareWith environment config).run.run log
    let full := environment.workingDirectory.path.join root
    (∃ failure log', prepared = (.error failure, log') ∧ dotted = (.error failure, log')) ∨
    ∃ analyzer log', analyzer.root = environment.workingDirectory.path.join ⟨"."⟩ ∧
      dotted = (.ok analyzer, log' ++ [notice analyzer]) ∧
      prepared = (.ok ((analyzer.movedTo full).configuredAt root),
        log' ++ [notice (analyzer.movedTo full)]) := by
  intro prepared dotted full
  have hselect : options.dotted.selectRules = options.selectRules := rfl
  have hrules : Wording.configuredRules? (config.rootedAt root) =
      Wording.configuredRules? config := rfl
  simp only [prepared, dotted, prepareWith, Work.run_bind, Work.run_ofOption, Work.run_ofExcept,
    Work.run_note, Work.run_pure, hrules, hselect]
  cases Wording.configuredRules? config with
  | none => exact .inl ⟨_, _, rfl, rfl⟩
  | some configured =>
    simp only [Option.elim]
    generalize (options.selectRules configured).run.run log = selected
    obtain ⟨rules, log⟩ := selected
    cases rules with
    | error failure => exact .inl ⟨_, _, rfl, rfl⟩
    | ok rules =>
      simp only [build_dotted hpath]
      cases hbuild : (options.dotted.request config rules).build
          environment.workingDirectory.path with
      | error cause => exact .inl ⟨_, _, rfl, rfl⟩
      | ok analyzer => exact .inr ⟨analyzer, log, root_of_build_dotted hbuild, rfl, rfl⟩

/-- Without a path, a check with a shared configuration that leaves the root at the default is
prepared as the check of the working directory, moved to the directory of the configuration. -/
theorem perform_of_source_shared (hpath : options.path = none)
    (hsource : options.source tree environment = .shared file)
    (hdotted : options.dotted.source tree environment = .shared file)
    (hroot : ∀ config, Config.load tree environment.workingDirectory file = .ok config →
      config.files.root = ⟨"."⟩)
    (hparent : file.parent? = some directory) :
    let prepared := (options.prepare tree environment).perform
    let dotted := (options.dotted.prepare tree environment).perform
    let root := environment.workingDirectory.path.join (directory.join ⟨"."⟩)
    (∃ failure log, prepared = (.error failure, log) ∧ dotted = (.error failure, log)) ∨
    ∃ analyzer log, analyzer.root = environment.workingDirectory.path.join ⟨"."⟩ ∧
      dotted = (.ok analyzer, log ++ [notice analyzer]) ∧
      prepared = (.ok ((analyzer.movedTo root).configuredAt (directory.join ⟨"."⟩)),
        log ++ [notice (analyzer.movedTo root)]) := by
  intro prepared dotted root
  simp only [prepared, dotted]
  rw [Work.perform, Work.perform, prepare_eq, prepare_eq, Work.run_bind, Work.run_bind,
    run_readConfig hsource, run_readConfig hdotted]
  cases hload : Config.load tree environment.workingDirectory file with
  | error cause => exact .inl ⟨_, _, rfl, rfl⟩
  | ok config =>
    have hnamed : options.dotted.path.isNone = false := rfl
    simp only [hpath, hnamed, Option.isNone_none, if_true, Bool.false_eq_true, if_false,
      Config.anchored_shared (hroot config hload) hparent]
    exact run_prepareWith_rootedAt hpath environment config (directory.join ⟨"."⟩) _

/-- A check gives the answer of an analyzer that checks what the prepared one does. -/
theorem check_eq_answerOf {prepared analyzer : Analyzer} {log : Log}
    (h : (options.prepare tree environment).perform = (.ok prepared, log ++ [notice analyzer]))
    (hchecks : checkWith prepared = checkWith analyzer) :
    check options tree environment = answerOf analyzer options.format tree environment log := by
  simp [check, h, hchecks, answerOf]

end CheckOptions

end Command

end SpecWording
