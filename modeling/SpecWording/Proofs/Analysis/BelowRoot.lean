import SpecWording.Proofs.Analysis.Enumeration
import SpecWording.Proofs.Ignore.Relocation
import SpecWording.Proofs.Path.Below

/-!
# What is checked below a root

A run shows the files below its root by their names from there, and orders them by these names. So
two runs of one analyzer, at two roots below which the same entries stand, differ in nothing but the
files that they keep: if they keep the same ones, they give the same result or none.
-/

namespace SpecWording

open FileTree

namespace Discovery

variable {tree : FileTree} {root : Path} {rest rest' : Place}

/-! ## Paths below a root -/

/-- The names below a root are the last segments of a path, and those before them say what the root's
say. -/
theorem exists_split_pathOf (hroot : root.text ≠ "") (hrest : ∀ name ∈ rest, Path.IsName name) :
    ∃ front, (pathOf root rest).split.2 = front ++ rest.map String.toList ∧
      Path.partsOf front = Path.partsOf root.split.2 := by
  induction rest using List.reverseRecOn with
  | nil => exact ⟨root.split.2, (List.append_nil _).symm, rfl⟩
  | append_singleton rest name ih =>
    rw [List.forall_mem_append, List.forall_mem_singleton] at hrest
    obtain ⟨front, hsegments, hfront⟩ := ih hrest.1
    obtain ⟨htext, -, -⟩ := parts_pathOf hroot hrest.1
    obtain ⟨before, hsplit, hbefore⟩ := Path.exists_split_join htext hrest.2.isStep
    rw [pathOf_concat, hsplit, List.map_append, List.map_singleton]
    rcases hbefore with hbefore | hbefore
    · refine ⟨front, ?_, hfront⟩
      rw [← hbefore, hsegments, List.append_assoc]
    · -- Only the root can end in a separator.
      rw [hsegments] at hbefore
      rcases List.eq_nil_or_concat' rest with rfl | ⟨others, last, rfl⟩
      · rw [List.map_nil, List.append_nil] at hbefore
        refine ⟨before, rfl, ?_⟩
        rw [← hfront, hbefore, Path.partsOf_append]
        exact (List.append_nil _).symm
      · rw [List.map_append, List.map_singleton, ← List.append_assoc] at hbefore
        have hlast : last.toList = [] := List.singleton_inj.mp (List.append_inj' hbefore rfl).2
        exact absurd hlast (hrest.1 last (by simp)).ne_nil

theorem below?_pathOf (hroot : root.text ≠ "") (hrest : ∀ name ∈ rest, Path.IsName name) :
    (pathOf root rest).below? root = some rest.relative := by
  obtain ⟨front, hsegments, hfront⟩ := exists_split_pathOf hroot hrest
  obtain ⟨-, hleading, -⟩ := parts_pathOf hroot hrest
  exact Path.below?_eq hroot hleading hsegments hfront fun name hmem ↦ (hrest name hmem).isStep

theorem parts_relative (hrest : ∀ name ∈ rest, Path.IsName name) :
    rest.relative.parts = rest.map .name := by
  have hroot : (⟨"/"⟩ : Path).text ≠ "" := by decide
  obtain ⟨-, hleading, hparts⟩ := parts_pathOf hroot hrest
  obtain ⟨relative, hbelow, hrelative⟩ := Path.exists_below? hroot hleading hparts
  rw [below?_pathOf hroot hrest] at hbelow
  exact Option.some.inj hbelow ▸ hrelative

theorem relative_ne_empty (hrest : ∀ name ∈ rest, Path.IsName name) (hne : rest ≠ []) :
    rest.relative.text ≠ "" := by
  intro htext
  have hparts := parts_relative hrest
  rw [show rest.relative = ⟨""⟩ from congrArg Path.mk htext] at hparts
  exact hne (List.map_eq_nil_iff.mp hparts.symm)

theorem isAbsolute_relative (hrest : ∀ name ∈ rest, Path.IsName name) :
    rest.relative.isAbsolute = false := by
  have hparts := parts_relative hrest
  cases habsolute : rest.relative.isAbsolute with
  | false => rfl
  | true =>
    rw [Path.parts_eq, Path.split, habsolute, if_pos rfl] at hparts
    cases rest <;> cases hparts

/-- The names below a root lead back to the path of the entry. -/
theorem join_relative (root : Path) (hrest : ∀ name ∈ rest, Path.IsName name) (hne : rest ≠ []) :
    root.join rest.relative = pathOf root rest := by
  induction rest using List.reverseRecOn with
  | nil => exact absurd rfl hne
  | append_singleton rest name ih =>
    rw [List.forall_mem_append, List.forall_mem_singleton] at hrest
    rw [pathOf_concat]
    rcases List.eq_nil_or_concat' rest with rfl | ⟨others, last, rfl⟩
    · rw [List.nil_append, Place.relative, String.intercalate_singleton]
      rfl
    · have hlast : Path.IsName last := hrest.1 last (by simp)
      have hshown : Place.relative (others ++ [last] ++ [name]) =
          ⟨(Place.relative (others ++ [last])).text ++ ("/" ++ name)⟩ := by
        rw [Place.relative, String.intercalate_append_of_ne_nil (by simp) (by simp),
          String.intercalate_singleton, String.append_assoc]
        rfl
      rw [hshown, Path.join_append root _ (relative_ne_empty hrest.1 (by simp))
        (isAbsolute_relative hrest.1), ih hrest.1 (by simp), pathOf_concat,
        Path.join_join _ hlast.isStep hrest.2.isStep.isAbsolute_eq_false]

/-- A path below the root is shown by its names, and nothing of the root remains. -/
theorem inProject_pathOf (hroot : root.text ≠ "") (hrest : ∀ name ∈ rest, Path.IsName name)
    (hne : rest ≠ []) (content : String) :
    SourceFile.inProject root (pathOf root rest) content = ⟨rest.relative, content⟩ := by
  have hempty : rest.relative.text.isEmpty = false := by
    rw [Bool.eq_false_iff, ne_eq, String.isEmpty_iff]
    exact relative_ne_empty hrest hne
  rw [SourceFile.inProject, below?_pathOf hroot hrest]
  simp [hempty]

theorem extension?_pathOf (hroot : root.text ≠ "") (hrest : ∀ name ∈ rest, Path.IsName name)
    (hne : rest ≠ []) : (pathOf root rest).extension? = rest.relative.extension? := by
  have hlast : (pathOf root rest).fileName? = rest.relative.fileName? := by
    obtain ⟨-, -, hparts⟩ := parts_pathOf hroot hrest
    rw [Path.fileName?, hparts, List.getLast?_append_of_ne_nil _ (by simpa using hne),
      Path.fileName?, parts_relative hrest]
  rw [Path.extension?, hlast, Path.extension?]

/-- The order of names below a root. -/
def comesFirstBelow (a b : Place) : Bool :=
  (Path.compareParts (a.map .name) (b.map .name)).isLE

theorem comesFirstBelow_trans (a b c : Place) (hab : comesFirstBelow a b)
    (hbc : comesFirstBelow b c) : comesFirstBelow a c :=
  @Std.TransCmp.isLE_trans _ Path.compareParts _ _ _ _ hab hbc

theorem comesFirstBelow_total (a b : Place) : comesFirstBelow a b || comesFirstBelow b a := by
  rw [comesFirstBelow, comesFirstBelow, @Std.OrientedCmp.eq_swap _ Path.compareParts _ (b.map _)]
  cases Path.compareParts (a.map .name) (b.map .name) <;> rfl

theorem comesFirstBelow_antisymm {a b : Place} (hab : comesFirstBelow a b = true)
    (hba : comesFirstBelow b a = true) : a = b := by
  have htie := @Std.OrientedCmp.isLE_antisymm _ Path.compareParts _ _ _ hab hba
  exact name_injective.list_map (Std.LawfulEqCmp.eq_of_compare htie)

theorem comesFirst_pathOf (hroot : root.text ≠ "") (hrest : ∀ name ∈ rest, Path.IsName name)
    (hrest' : ∀ name ∈ rest', Path.IsName name) :
    comesFirst (pathOf root rest) (pathOf root rest') = comesFirstBelow rest rest' := by
  rw [comesFirst_eq_isLE, compare_pathOf hroot hrest hrest', comesFirstBelow]

end Discovery

open Discovery

namespace Analyzer

/-- The analyzer at another root. -/
def movedTo (analyzer : Analyzer) (root : Path) : Analyzer := { analyzer with root := root }

/-- Whether a file below the root is to be checked. -/
def keeps (analyzer : Analyzer) (tree : FileTree) (environment : Environment)
    (place rest : Place) : Bool :=
  let rules := Ignore.Rules.read tree environment analyzer.config.files.respectGitignore place
  !isSkipped rules place analyzer.root rest && analyzer.wants (pathOf analyzer.root rest)

/-- The files below the root that are checked, in order. -/
def checkedBelow (analyzer : Analyzer) (tree : FileTree) (environment : Environment)
    (place : Place) : List Place :=
  ((filesBelow tree place).filter (analyzer.keeps tree environment place)).mergeSort comesFirstBelow

variable {analyzer : Analyzer} {tree other : FileTree} {environment environment' : Environment}
  {root' : Path} {place place' rest : Place} {rests : List Place}

/-! ## The files that are checked -/

theorem mem_checkedBelow_iff : rest ∈ analyzer.checkedBelow tree environment place ↔
    rest ∈ filesBelow tree place ∧ analyzer.keeps tree environment place rest = true := by
  rw [checkedBelow, List.mem_mergeSort, List.mem_filter]

section Located

variable (hwell : tree.WellFormed) (hplace : tree.isDirectoryAt place = true)
  (hroot : tree.locate environment.workingDirectory analyzer.root false = .ok place)

include hwell hplace hroot

/-- Discovery goes by the names below the root. -/
theorem discover_of_silent
    (hsilent : complaintsAbove tree analyzer.config.files.respectGitignore place = []) :
    analyzer.discover tree environment =
      .ok ((analyzer.checkedBelow tree environment place).map (pathOf analyzer.root)) := by
  have hnotFile := isFile_eq_false_of_isDirectoryAt hroot hplace
  have hnames (rest : Place) (hmem : rest ∈ (filesBelow tree place).filter
      (analyzer.keeps tree environment place)) :=
    isName_of_mem_filesBelow hwell (List.mem_of_mem_filter hmem)
  have hwanted : analyzer.wantedBelow tree environment place =
      ((filesBelow tree place).filter (analyzer.keeps tree environment place)).map
        (pathOf analyzer.root) := by
    rw [wantedBelow, List.filter_map, List.filter_filter]
    congr 2
    funext rest
    exact Bool.and_comm _ _
  refine discover_eq_ok_iff.mpr (.inr ⟨hnotFile, place, hroot, hsilent, ?_⟩)
  rw [hwanted, checkedBelow, List.map_mergeSort]
  intro a ha b hb
  exact (comesFirst_pathOf (text_ne_empty_of_locate hroot) (hnames a ha) (hnames b hb)).symm

omit hwell in
/-- Something wrong in the ignore files above the root ends discovery. -/
theorem exists_discover_eq_error
    (hloud : complaintsAbove tree analyzer.config.files.respectGitignore place ≠ []) :
    ∃ error, analyzer.discover tree environment = .error error := by
  cases hdiscover : analyzer.discover tree environment with
  | error error => exact ⟨error, rfl⟩
  | ok paths =>
    obtain ⟨directory, hdirectory, hsilent, -⟩ := exists_directory_of_discover
      (isFile_eq_false_of_isDirectoryAt hroot hplace) hdiscover
    obtain rfl := Except.ok.inj (hroot.symm.trans hdirectory)
    exact absurd hsilent hloud

end Located

section SameBelow

variable (hsame : tree.SameBelow other place place')

include hsame

theorem filesBelow_perm_of_sameBelow : (filesBelow tree place).Perm (filesBelow other place') :=
  hsame.perm.filterMap _

/-- The same files are checked exactly if the same ones are kept. -/
theorem checkedBelow_eq_iff {moved : Analyzer} :
    analyzer.checkedBelow tree environment place = moved.checkedBelow other environment' place' ↔
      ∀ rest ∈ filesBelow tree place, analyzer.keeps tree environment place rest =
        moved.keeps other environment' place' rest := by
  have hfiles := filesBelow_perm_of_sameBelow hsame
  constructor
  · intro heq rest hmem
    have hchecked : rest ∈ analyzer.checkedBelow tree environment place ↔
        rest ∈ moved.checkedBelow other environment' place' := by
      rw [heq]
    rw [mem_checkedBelow_iff, mem_checkedBelow_iff, and_iff_right hmem,
      and_iff_right (hfiles.mem_iff.mp hmem)] at hchecked
    rw [Bool.eq_iff_iff]
    exact hchecked
  · intro hagree
    have hkept : ((filesBelow tree place).filter (analyzer.keeps tree environment place)).Perm
        ((filesBelow other place').filter (moved.keeps other environment' place')) := by
      rw [List.filter_congr hagree]
      exact hfiles.filter _
    apply List.Perm.eq_of_pairwise _
      (List.pairwise_mergeSort comesFirstBelow_trans comesFirstBelow_total _)
      (List.pairwise_mergeSort comesFirstBelow_trans comesFirstBelow_total _)
      ((List.mergeSort_perm _ _).trans (hkept.trans (List.mergeSort_perm _ _).symm))
    intro a b _ _
    exact comesFirstBelow_antisymm

/-! ## What a run gives -/

section Roots

variable (hroot : tree.locate environment.workingDirectory analyzer.root false = .ok place)
  (hroot' : other.locate environment'.workingDirectory root' false = .ok place')

include hroot hroot'

theorem readText_pathOf (hrest : rest ∈ filesBelow tree place) :
    tree.readText environment.workingDirectory (pathOf analyzer.root rest) =
      other.readText environment'.workingDirectory (pathOf root' rest) := by
  obtain ⟨-, content, hmem⟩ := mem_filesBelow_iff.mp hrest
  have hentry := hsame.wellFormed.entry?_of_mem hmem
  have hentry' := (hsame.entry?_eq rest).symm.trans hentry
  rw [readText, readText, readBytes, readBytes, find, find,
    locate_pathOf hsame.wellFormed hroot hentry (by simp),
    locate_pathOf hsame.wellFormed' hroot' hentry' (by simp)]
  simp only [bind, Except.bind, hentry, hentry']

/-- A file below the root has the same report at both roots, or ends the run at both, or neither. -/
theorem report?_movedTo (hrest : rest ∈ filesBelow tree place) :
    analyzer.report? tree environment.workingDirectory (pathOf analyzer.root rest) =
        (analyzer.movedTo root').report? other environment'.workingDirectory (pathOf root' rest) ∧
      (analyzer.stop? tree environment.workingDirectory (pathOf analyzer.root rest)).isSome =
        ((analyzer.movedTo root').stop? other environment'.workingDirectory
          (pathOf root' rest)).isSome := by
  have hnames := isName_of_mem_filesBelow hsame.wellFormed hrest
  obtain ⟨hne, -⟩ := mem_filesBelow_iff.mp hrest
  have hshown (content : String) :
      SourceFile.inProject analyzer.root (pathOf analyzer.root rest) content =
        SourceFile.inProject root' (pathOf root' rest) content := by
    rw [inProject_pathOf (text_ne_empty_of_locate hroot) hnames hne,
      inProject_pathOf (text_ne_empty_of_locate hroot') hnames hne]
  have hread := readText_pathOf hsame hroot hroot' hrest
  unfold report? stop? checkFile checkText
  rw [hread]
  cases other.readText environment'.workingDirectory (pathOf root' rest) with
  | error cause => exact ⟨rfl, rfl⟩
  | ok content =>
    simp only [movedTo, hshown]
    cases analyzer.language.parse content with
    | error reason =>
      refine ⟨rfl, ?_⟩
      by_cases hstrict : analyzer.strict = true <;> simp [hstrict]
    | ok node => exact ⟨rfl, rfl⟩

/-- If the same files are discovered, the result is the same, or there is none. -/
theorem result_movedTo (hfiles : rests ⊆ filesBelow tree place)
    (hdiscover : analyzer.discover tree environment = .ok (rests.map (pathOf analyzer.root)))
    (hdiscover' : (analyzer.movedTo root').discover other environment' =
      .ok (rests.map (pathOf root'))) :
    (analyzer.run tree environment).result.toOption =
      ((analyzer.movedTo root').run other environment').result.toOption := by
  have hreport (rest : Place) (hmem : rest ∈ rests) :=
    report?_movedTo hsame hroot hroot' (hfiles hmem)
  have hreports : rests.filterMap
      (analyzer.report? tree environment.workingDirectory ∘ pathOf analyzer.root) =
        rests.filterMap ((analyzer.movedTo root').report? other environment'.workingDirectory ∘
          pathOf root') :=
    List.filterMap_congr fun rest hmem ↦ (hreport rest hmem).1
  have hstops : (rests.findSome?
      (analyzer.stop? tree environment.workingDirectory ∘ pathOf analyzer.root)).isSome =
        (rests.findSome? ((analyzer.movedTo root').stop? other environment'.workingDirectory ∘
          pathOf root')).isSome := by
    rw [Bool.eq_iff_iff, List.findSome?_isSome_iff, List.findSome?_isSome_iff]
    apply exists_congr
    intro rest
    apply and_congr_right
    intro hmem
    rw [Function.comp_apply, Function.comp_apply, (hreport rest hmem).2]
  rw [result_run hdiscover (leadApart_discover hsame.wellFormed hdiscover),
    result_run hdiscover' (leadApart_discover hsame.wellFormed' hdiscover'), List.findSome?_map,
    List.findSome?_map, List.filterMap_map, List.filterMap_map, hreports]
  generalize rests.findSome? (analyzer.stop? tree _ ∘ _) = error at hstops
  generalize rests.findSome? ((analyzer.movedTo root').stop? other _ ∘ _) = error' at hstops
  cases error <;> cases error' <;> first | rfl | cases hstops

end Roots

end SameBelow

end Analyzer

end SpecWording
