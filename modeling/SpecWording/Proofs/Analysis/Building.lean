import Mathlib.Data.List.Forall2
import SpecWording.Analysis.Run

/-!
# Building an analyzer

An analyzer takes over what its request says, with the root made absolute and the globs parsed. It
can be built if there is a language and every glob can be parsed, whatever the order of the globs.
-/

namespace SpecWording

namespace AnalysisRequest

variable {request : AnalysisRequest} {here : Path} {analyzer : Analyzer} {texts : List String}
  {globs : List Glob} {glob : Glob}

/-! ## Globs -/

theorem parseGlobs_eq_ok_iff : parseGlobs texts = .ok globs ↔
    List.Forall₂ (fun text glob ↦ Glob.parse text = .ok glob) texts globs := by
  have hparseAll : parseGlobs texts = .ok globs ↔ texts.mapM Glob.parse = .ok globs := by
    rw [parseGlobs, Glob.parseAll]
    cases texts.mapM Glob.parse <;> simp [Except.mapError]
  rw [hparseAll]
  clear hparseAll
  induction texts generalizing globs with
  | nil => simp [pure, Except.pure, eq_comm]
  | cons text texts ih =>
    rw [List.mapM_cons]
    cases hparse : Glob.parse text with
    | error cause => simp [bind, Except.bind, List.forall₂_cons_left_iff, hparse]
    | ok glob =>
      simp only [List.forall₂_cons_left_iff, hparse, ← ih]
      cases texts.mapM Glob.parse <;> simp [bind, Except.bind, pure, Except.pure, eq_comm]

theorem mem_iff_of_parseGlobs (h : parseGlobs texts = .ok globs) :
    glob ∈ globs ↔ ∃ text ∈ texts, Glob.parse text = .ok glob := by
  have hparsed := parseGlobs_eq_ok_iff.mp h
  clear h
  induction hparsed with
  | nil => simp
  | cons hparse _ ih => simp [ih, hparse, eq_comm]

theorem exists_parseGlobs_iff : (∃ globs, parseGlobs texts = .ok globs) ↔
    ∀ text ∈ texts, ∃ glob, Glob.parse text = .ok glob := by
  simp only [parseGlobs_eq_ok_iff]
  induction texts with
  | nil => simp
  | cons text texts ih =>
    simp only [List.forall₂_cons_left_iff, List.forall_mem_cons, ← ih]
    constructor
    · rintro ⟨_, glob, globs, hparse, hparsed, rfl⟩
      exact ⟨⟨glob, hparse⟩, globs, hparsed⟩
    · rintro ⟨⟨glob, hparse⟩, globs, hparsed⟩
      exact ⟨_, glob, globs, hparse, hparsed, rfl⟩

/-- The texts of all globs that exclude files, the caller's and the configuration's. -/
def excludedGlobs (request : AnalysisRequest) : List String :=
  request.excluded ++ (request.config.map (·.files.excluded)).getD []

/-- The texts of all globs that include files, the caller's and the configuration's. -/
def includedGlobs (request : AnalysisRequest) : List String :=
  request.included ++ (request.config.map (·.files.included)).getD []

/-! ## Built analyzers -/

theorem build_eq_ok_iff : request.build here = .ok analyzer ↔
    ∃ language excluded included, request.language = some language ∧
      parseGlobs request.excludedGlobs = .ok excluded ∧
      parseGlobs request.includedGlobs = .ok included ∧
      analyzer = { root := here.join request.rootPath, language, rules := request.rules, excluded,
                   included, config := request.config.getD {}, fix := request.fix,
                   strict := request.strict } := by
  simp only [build, excludedGlobs, includedGlobs, Option.map_map, Function.comp_def]
  cases request.language with
  | none => simp [throw, throwThe, MonadExceptOf.throw]
  | some language =>
    cases parseGlobs (request.excluded ++ (request.config.map (·.files.excluded)).getD []) with
    | error cause => simp [bind, Except.bind]
    | ok excluded =>
      cases parseGlobs (request.included ++ (request.config.map (·.files.included)).getD []) <;>
        simp [bind, Except.bind, pure, Except.pure, eq_comm]

/-- What a built analyzer takes over from its request. -/
theorem of_build (h : request.build here = .ok analyzer) :
    request.language = some analyzer.language ∧ analyzer.root = here.join request.rootPath ∧
      analyzer.rules = request.rules ∧ analyzer.config = request.config.getD {} ∧
      analyzer.fix = request.fix := by
  obtain ⟨language, excluded, included, hlanguage, -, -, rfl⟩ := build_eq_ok_iff.mp h
  exact ⟨hlanguage, rfl, rfl, rfl, rfl⟩

end AnalysisRequest

/-! ## Analyzers that run alike -/

namespace Analyzer

variable {a b : Analyzer}

theorem analyzeFiles_congr (hcheck : a.checkFile = b.checkFile) (hstrict : a.strict = b.strict) :
    a.analyzeFiles = b.analyzeFiles := by
  funext directory tree result paths
  induction paths generalizing tree result with
  | nil => rfl
  | cons path paths ih =>
    rw [analyzeFiles, analyzeFiles, hcheck, hstrict]
    simp only [ih]

/-- Analyzers run alike that discover the same files and make the same of each. -/
theorem run_congr (hroot : a.root = b.root) (hdiscover : a.discover = b.discover)
    (hcheck : a.checkFile = b.checkFile) (hstrict : a.strict = b.strict) : a.run = b.run := by
  funext tree environment
  rw [run, run, hroot, hdiscover, analyzeFiles_congr hcheck hstrict]

end Analyzer

end SpecWording
