import Mathlib.Data.List.Infix
import SpecWording.Files.Tree
import SpecWording.Proofs.Path.Parts

/-!
# Routes

The route of a path is what its segments say, the names and every `..`, without the segments that
say nothing. Joining a step adds it to the route and the parent has the route without its last step,
so the ancestors of a path from the root have the fronts of its route. Seen from the root, a relative
path has the route of the working directory in front of its own.
-/

namespace SpecWording

namespace Path

open Text (fields joinFields)

variable {base path : Path} {step : String} {segments : List (List Char)}

/-- What segments say, in order. -/
def routeOf (segments : List (List Char)) : List String :=
  (segments.filter (!isVoid ·)).map String.ofList

/-- The names and `..` of a path, in order. -/
def route (path : Path) : List String := routeOf (fields '/' path.text.toList)

theorem routeOf_append (as bs : List (List Char)) :
    routeOf (as ++ bs) = routeOf as ++ routeOf bs := by
  rw [routeOf, List.filter_append, List.map_append, routeOf, routeOf]

theorem routeOf_of_isVoid {segment : List Char} (h : isVoid segment = true) :
    routeOf [segment] = [] := by
  rw [routeOf, List.filter_cons_of_neg (by simp [h]), List.filter_nil, List.map_nil]

theorem routeOf_cons_of_isVoid {segment : List Char} (h : isVoid segment = true)
    (segments : List (List Char)) : routeOf (segment :: segments) = routeOf segments := by
  rw [routeOf, List.filter_cons_of_neg (by simp [h]), routeOf]

theorem routeOf_cons_of_not_isVoid {segment : List Char} (h : isVoid segment = false)
    (segments : List (List Char)) :
    routeOf (segment :: segments) = String.ofList segment :: routeOf segments := by
  rw [routeOf, List.filter_cons_of_pos (by simp [h]), List.map_cons, routeOf]

theorem routeOf_dropVoid (segments : List (List Char)) :
    routeOf (dropVoid segments) = routeOf segments := by
  induction segments with
  | nil => rfl
  | cons segment segments ih =>
    cases hvoid : isVoid segment with
    | true =>
      rw [dropVoid, List.dropWhile_cons_of_pos hvoid, ← dropVoid, ih,
        routeOf_cons_of_isVoid hvoid]
    | false => rw [dropVoid, List.dropWhile_cons_of_neg (by simp [hvoid])]

theorem routeOf_reverse (segments : List (List Char)) :
    routeOf segments.reverse = (routeOf segments).reverse := by
  rw [routeOf, List.filter_reverse, List.map_reverse, routeOf]

theorem routeOf_map_toList {steps : List String} (h : ∀ step ∈ steps, IsStep step) :
    routeOf (steps.map String.toList) = steps := by
  have hsolid : (steps.map String.toList).filter (!isVoid ·) = steps.map String.toList := by
    rw [List.filter_eq_self]
    intro segment hmem
    obtain ⟨step, hstep, rfl⟩ := List.mem_map.mp hmem
    rw [(h step hstep).isVoid_eq_false]
    rfl
  rw [routeOf, hsolid, List.map_map]
  simp [Function.comp_def]

theorem isStep_of_mem_routeOf (hseparator : ∀ segment ∈ segments, '/' ∉ segment)
    (h : step ∈ routeOf segments) : IsStep step := by
  obtain ⟨segment, hmem, rfl⟩ := List.mem_map.mp h
  obtain ⟨hmem, hvoid⟩ := List.mem_filter.mp hmem
  simp only [isVoid, Bool.not_or, Bool.and_eq_true, Bool.not_eq_true', beq_eq_false_iff_ne] at hvoid
  constructor
  · rw [String.toList_ofList]
    exact hvoid.1
  · rw [String.toList_ofList]
    exact hseparator segment hmem
  · intro hhere
    exact hvoid.2 (by simpa using congrArg String.toList hhere)

theorem isStep_of_mem_route (h : step ∈ path.route) : IsStep step :=
  isStep_of_mem_routeOf (fun _ ↦ Text.not_mem_of_mem_fields) h

/-- What the leading part comes from says nothing. -/
theorem route_eq_split (path : Path) : path.route = routeOf path.split.2 := by
  obtain ⟨field, others, hfields⟩ :=
    List.exists_cons_of_ne_nil (Text.fields_ne_nil '/' path.text.toList)
  cases habsolute : path.isAbsolute with
  | true =>
    obtain ⟨cs, hcs⟩ := List.head?_eq_some_iff.mp (eq_of_beq habsolute)
    rw [route, split, habsolute, hcs, fields, if_pos rfl]
    exact routeOf_cons_of_isVoid rfl _
  | false =>
    by_cases hhere : field = ['.']
    · rw [route, split, habsolute, hfields, hhere]
      exact routeOf_cons_of_isVoid rfl _
    · simp [route, split, habsolute, hfields, hhere]

/-! ## Joining -/

theorem text_ne_empty_of_isAbsolute (h : path.isAbsolute = true) : path.text ≠ "" := by
  intro hempty
  rw [isAbsolute, hempty] at h
  cases h

theorem isAbsolute_join (hbase : base.text ≠ "") (hstep : IsStep step) :
    (base.join ⟨step⟩).isAbsolute = base.isAbsolute := by
  obtain ⟨front, -, -, -, habsolute⟩ := exists_fields_join hbase hstep
  exact habsolute

/-- A field that says nothing may be missing at the end. -/
theorem routeOf_front {front : List (List Char)}
    (h : fields '/' path.text.toList = front ∨ fields '/' path.text.toList = front ++ [[]]) :
    routeOf front = path.route := by
  rcases h with h | h
  · rw [route, h]
  · rw [route, h, routeOf_append]
    exact (List.append_nil _).symm

/-- What is joined without a separator is the last field, and the fields before it say what the base
says. -/
theorem exists_front_join (base : Path) (hseparator : '/' ∉ step.toList) :
    ∃ front, fields '/' (base.join ⟨step⟩).text.toList = front ++ [step.toList] ∧
      routeOf front = base.route ∧ (base.join ⟨step⟩).isAbsolute = base.isAbsolute := by
  have hrelative := isAbsolute_eq_false_of_not_mem hseparator
  by_cases hbase : base.text = ""
  · obtain rfl : base = ⟨""⟩ := congrArg mk hbase
    have hjoin : (⟨""⟩ : Path).join ⟨step⟩ = ⟨step⟩ := by
      simp [join, hrelative]
    rw [hjoin]
    exact ⟨[], Text.fields_of_not_mem hseparator, rfl, hrelative⟩
  · obtain ⟨front, -, hfields, hfront, habsolute⟩ := exists_fields_join_of_relative hbase hrelative
    rw [Text.fields_of_not_mem hseparator] at hfields
    exact ⟨front, hfields, routeOf_front hfront, habsolute⟩

/-- A step joined to a path is one more step of the route. -/
theorem route_join (base : Path) (hstep : IsStep step) :
    (base.join ⟨step⟩).route = base.route ++ [step] := by
  obtain ⟨front, hfields, hfront, -⟩ := exists_front_join base hstep.no_separator
  have hlast : routeOf [step.toList] = [step] :=
    routeOf_map_toList (List.forall_mem_singleton.mpr hstep)
  rw [route, hfields, routeOf_append, hlast, hfront]

/-- A separator at the end is no step. -/
theorem route_join_empty (hbase : base.text ≠ "") :
    (base.join ⟨""⟩).route = base.route ∧ (base.join ⟨""⟩).isAbsolute = base.isAbsolute := by
  have hnil : base.text.toList ≠ [] := fun h ↦ hbase (String.toList_eq_nil_iff.mp h)
  have hempty : base.text.isEmpty = false := by simpa using hbase
  rw [join, if_neg (by decide), hempty, Bool.false_or]
  split
  · rw [String.append_empty]
    exact ⟨rfl, rfl⟩
  · have hslash : (base.text ++ "/" ++ "").toList = base.text.toList ++ '/' :: [] := by simp
    constructor
    · rw [route, hslash, Text.fields_append_cons, routeOf_append, ← route]
      exact List.append_nil _
    · rw [isAbsolute, isAbsolute, hslash, List.head?_append_of_ne_nil _ hnil]

theorem joinAll_concat (base : Path) (parts : List Part) (part : Part) :
    base.joinAll (parts ++ [part]) = (base.joinAll parts).join ⟨part.text⟩ := by
  rw [joinAll, List.foldl_append, List.foldl_cons, List.foldl_nil, joinAll]

theorem route_joinAll {parts : List Part} (hbase : base.text ≠ "")
    (hparts : ∀ part ∈ parts, IsStep part.text) :
    (base.joinAll parts).text ≠ "" ∧ (base.joinAll parts).isAbsolute = base.isAbsolute ∧
      (base.joinAll parts).route = base.route ++ parts.map Part.text := by
  induction parts using List.reverseRecOn with
  | nil => exact ⟨hbase, rfl, (List.append_nil _).symm⟩
  | append_singleton parts part ih =>
    rw [List.forall_mem_append, List.forall_mem_singleton] at hparts
    obtain ⟨htext, habsolute, hroute⟩ := ih hparts.1
    rw [joinAll_concat]
    refine ⟨text_join_ne_empty hparts.2, ?_, ?_⟩
    · rw [isAbsolute_join htext hparts.2, habsolute]
    · rw [route_join _ hparts.2, hroute, List.append_assoc, List.map_append, List.map_singleton]

/-! ## Seen from the root -/

/-- The names from the root on that a path spells in a directory. -/
def spelled (path : Path) (directory : Place) : Place :=
  (if path.isAbsolute then [] else directory) ++ path.route

theorem text_partOfSegment (segment : List Char) :
    (partOfSegment segment).text = String.ofList segment := by
  rw [partOfSegment]
  split
  · next hup =>
    rw [hup]
    rfl
  · rfl

theorem leading_cases (path : Path) :
    path.split.1 = none ∨ path.split.1 = some .root ∨ path.split.1 = some .here := by
  unfold split
  dsimp only
  split
  · exact .inr (.inl rfl)
  · split
    · exact .inr (.inr rfl)
    · exact .inl rfl

theorem rank_partOfSegment (segment : List Char) :
    partOfSegment segment ≠ .root ∧ partOfSegment segment ≠ .here := by
  rw [partOfSegment]
  split <;> simp

/-- The parts of a path are the leading one and the steps of its route. -/
theorem parts_eq_route (path : Path) :
    path.parts = path.split.1.toList ++ path.route.map (partOfSegment ·.toList) := by
  rw [parts_eq, route_eq_split, partsOf, routeOf, List.map_map]
  simp [Function.comp_def]

theorem up_mem_parts_iff : Part.up ∈ path.parts ↔ ".." ∈ path.route := by
  have hleading : Part.up ∉ path.split.1.toList := by
    rcases path.leading_cases with h | h | h <;> simp [h]
  rw [parts_eq_route, List.mem_append, or_iff_right hleading, List.mem_map]
  constructor
  · rintro ⟨step, hmem, hup⟩
    have htext := congrArg Part.text hup
    rw [text_partOfSegment, String.ofList_toList] at htext
    have hstep : step = ".." := htext
    exact hstep ▸ hmem
  · intro hmem
    exact ⟨"..", hmem, rfl⟩

theorem map_text_filter_parts (path : Path) :
    (path.parts.filter fun part ↦ part != .root && part != .here).map Part.text = path.route := by
  have hleading : (path.split.1.toList.filter fun part ↦ part != .root && part != .here) = [] := by
    rcases path.leading_cases with h | h | h <;> rw [h] <;> rfl
  have hsteps : ∀ part ∈ path.route.map (partOfSegment ·.toList),
      (part != .root && part != .here) = true := by
    intro part hmem
    obtain ⟨step, -, rfl⟩ := List.mem_map.mp hmem
    simp [rank_partOfSegment]
  rw [parts_eq_route, List.filter_append, hleading, List.nil_append,
    List.filter_eq_self.mpr hsteps, List.map_map]
  simp [Function.comp_def, text_partOfSegment]

theorem takeWhile_slash_eq_nil_iff (path : Path) :
    (path.text.toList.takeWhile (· == '/')).length = 0 ↔ path.isAbsolute = false := by
  rw [isAbsolute]
  cases path.text.toList with
  | nil => decide
  | cons c cs =>
    by_cases hc : c = '/' <;> simp [hc]

/-- Seen from the root, a path has the route that it spells. -/
theorem exists_absolute? {directory : Path} (hdirectory : directory.isAbsolute = true)
    (hpath : path.text ≠ "") :
    ∃ full, path.absolute? directory = some full ∧ full.isAbsolute = true ∧
      full.route = path.spelled directory.route := by
  unfold absolute?
  rw [if_neg (by simpa using hpath)]
  dsimp only
  generalize hbase : (if (path.text.toList.takeWhile (· == '/')).length = 0 then directory
    else if (path.text.toList.takeWhile (· == '/')).length = 2 then ⟨"//"⟩ else ⟨"/"⟩) = base
  have hfacts : base.text ≠ "" ∧ base.isAbsolute = true ∧
      base.route = if path.isAbsolute then [] else directory.route := by
    subst hbase
    split
    · next hslashes =>
      rw [takeWhile_slash_eq_nil_iff] at hslashes
      rw [hslashes]
      exact ⟨text_ne_empty_of_isAbsolute hdirectory, hdirectory, rfl⟩
    · next hslashes =>
      rw [takeWhile_slash_eq_nil_iff, Bool.not_eq_false] at hslashes
      have hroots : route ⟨"/"⟩ = [] ∧ route ⟨"//"⟩ = [] := by decide +kernel
      rw [if_pos hslashes]
      split
      · exact ⟨by decide, by decide, hroots.2⟩
      · exact ⟨by decide, by decide, hroots.1⟩
  have hsteps : ∀ part ∈ path.parts.filter (fun part ↦ part != .root && part != .here),
      IsStep part.text := by
    intro part hmem
    have htext := List.mem_map_of_mem (f := Part.text) hmem
    rw [map_text_filter_parts] at htext
    exact isStep_of_mem_route htext
  obtain ⟨htext, habsolute, hroute⟩ := route_joinAll hfacts.1 hsteps
  rw [map_text_filter_parts, hfacts.2.2] at hroute
  rw [hfacts.2.1] at habsolute
  split
  · obtain ⟨hroute', habsolute'⟩ := route_join_empty htext
    exact ⟨_, rfl, habsolute'.trans habsolute, hroute'.trans hroute⟩
  · exact ⟨_, rfl, habsolute, hroute⟩

theorem absolute?_empty (directory : Path) : absolute? ⟨""⟩ directory = none := rfl

/-! ## Parents and ancestors -/

theorem isAbsolute_ofSegments (hseparator : ∀ segment ∈ segments, '/' ∉ segment)
    (hfirst : ∀ first others, segments = first :: others → first ≠ []) :
    (ofSegments none segments).isAbsolute = false := by
  cases segments with
  | nil => rfl
  | cons first others =>
    obtain ⟨c, cs, rfl⟩ := List.exists_cons_of_ne_nil (hfirst first others rfl)
    have hc : c ≠ '/' := by
      rintro rfl
      exact hseparator _ List.mem_cons_self List.mem_cons_self
    rw [isAbsolute, ofSegments, String.toList_ofList]
    cases others <;> simpa [joinFields] using hc

theorem route_ofSegments (path : Path) (hseparator : ∀ segment ∈ segments, '/' ∉ segment) :
    (ofSegments path.split.1 segments).route = routeOf segments := by
  have hfields : routeOf (fields '/' (joinFields ['/'] segments)) = routeOf segments := by
    cases segments with
    | nil => rfl
    | cons first others => rw [Text.fields_joinFields (List.cons_ne_nil _ _) hseparator]
  rcases path.leading_cases with h | h | h
  · rw [h, ofSegments, route, String.toList_ofList, hfields]
  · rw [h, ofSegments, route, String.toList_ofList, fields, if_pos rfl,
      routeOf_cons_of_isVoid rfl, hfields]
  · rw [h]
    cases segments with
    | nil => rfl
    | cons first others =>
      have htext : (ofSegments (some .here) (first :: others)).text.toList =
          ['.'] ++ '/' :: joinFields ['/'] (first :: others) := String.toList_ofList
      rw [route, htext, Text.fields_append_cons, routeOf_append, hfields]
      exact congrArg (· ++ routeOf (first :: others)) (routeOf_of_isVoid rfl)

theorem split_fst_eq_root_iff : path.split.1 = some .root ↔ path.isAbsolute = true := by
  unfold split
  dsimp only
  cases path.isAbsolute with
  | true => simp
  | false =>
    rw [if_neg Bool.false_ne_true]
    split <;> simp

/-- Without a leading part, what a path begins with is not nothing. -/
theorem ne_nil_of_split (hleading : path.split.1 = none) {first : List Char}
    {others : List (List Char)} (hsegments : path.split.2 = first :: others)
    (hroute : path.route ≠ []) : first ≠ [] := by
  have habsolute : path.isAbsolute = false := by
    rw [Bool.eq_false_iff, ne_eq, ← split_fst_eq_root_iff, hleading]
    simp
  rintro rfl
  have hfields : fields '/' path.text.toList = [] :: others := by
    rw [← hsegments]
    unfold split at hleading ⊢
    dsimp only at hleading ⊢
    rw [habsolute, if_neg Bool.false_ne_true] at hleading ⊢
    split at hleading
    · cases hleading
    · next hhere => rw [if_neg hhere]
  cases htext : path.text.toList with
  | nil =>
    rw [route, htext] at hroute
    exact hroute rfl
  | cons c cs =>
    rw [isAbsolute, htext, List.head?_cons] at habsolute
    rw [htext, fields, if_neg (by simpa using habsolute)] at hfields
    split at hfields <;> cases hfields

theorem isAbsolute_ofSegments_front (hfront : segments <+: path.split.2) (hroute : path.route ≠ []) :
    (ofSegments path.split.1 segments).isAbsolute = path.isAbsolute := by
  have hleading := path.leading_cases
  rcases hleading with h | h | h
  · have habsolute : path.isAbsolute = false := by
      rw [Bool.eq_false_iff, ne_eq, ← split_fst_eq_root_iff, h]
      simp
    rw [h, habsolute]
    apply isAbsolute_ofSegments
    · exact fun segment hmem ↦ not_mem_of_mem_split (hfront.subset hmem)
    · rintro first others rfl
      obtain ⟨back, hback⟩ := hfront
      exact ne_nil_of_split h hback.symm hroute
  · rw [h, split_fst_eq_root_iff.mp h, isAbsolute, ofSegments, String.toList_ofList]
    rfl
  · have habsolute : path.isAbsolute = false := by
      rw [Bool.eq_false_iff, ne_eq, ← split_fst_eq_root_iff, h]
      simp
    rw [h, habsolute]
    cases segments with
    | nil => rfl
    | cons first others =>
      have htext : (ofSegments (some .here) (first :: others)).text.toList =
          '.' :: '/' :: joinFields ['/'] (first :: others) := String.toList_ofList
      rw [isAbsolute, htext]
      rfl

theorem text_ofSegments_eq_empty_iff (hfront : segments <+: path.split.2)
    (hroute : path.route ≠ []) :
    (ofSegments path.split.1 segments).text = "" ↔ path.split.1 = none ∧ segments = [] := by
  rw [← String.toList_eq_nil_iff]
  cases segments with
  | nil => rcases path.leading_cases with h | h | h <;> rw [h] <;> decide
  | cons first others =>
    rcases path.leading_cases with h | h | h
    · obtain ⟨back, hback⟩ := hfront
      have hfirst := ne_nil_of_split h hback.symm hroute
      rw [h, ofSegments, String.toList_ofList]
      cases others <;> simp [joinFields, hfirst]
    · rw [h, ofSegments, String.toList_ofList]
      simp
    · have htext : (ofSegments (some .here) (first :: others)).text.toList =
          '.' :: '/' :: joinFields ['/'] (first :: others) := String.toList_ofList
      rw [h, htext]
      simp

theorem routeOf_dropVoid_eq_nil_iff : routeOf (dropVoid segments) = [] ↔ dropVoid segments = [] := by
  cases hsegments : dropVoid segments with
  | nil => exact iff_of_true rfl rfl
  | cons first others =>
    rw [routeOf_cons_of_not_isVoid (isVoid_of_dropVoid_eq_cons hsegments)]
    simp

/-- A path with a step has a parent, whose route has this step no more. The parent is the empty path
if the step is all that the path has. -/
theorem exists_parent? (h : path.route ≠ []) :
    ∃ parent, path.parent? = some parent ∧ parent.isAbsolute = path.isAbsolute ∧
      parent.route = path.route.dropLast ∧ (parent.text = "" ↔ path.parts.length = 1) := by
  cases hsegments : dropVoid path.split.2.reverse with
  | nil =>
    have hnone := congrArg routeOf hsegments
    rw [routeOf_dropVoid, routeOf_reverse, ← route_eq_split] at hnone
    exact absurd (List.reverse_eq_nil_iff.mp hnone) h
  | cons last front =>
    have hlast := isVoid_of_dropVoid_eq_cons hsegments
    have hroute : path.route = routeOf (dropVoid front).reverse ++ [String.ofList last] := by
      have hwhole := congrArg routeOf hsegments
      rw [routeOf_dropVoid, routeOf_reverse, ← route_eq_split,
        routeOf_cons_of_not_isVoid hlast] at hwhole
      rw [routeOf_reverse, routeOf_dropVoid, ← List.reverse_cons, ← hwhole, List.reverse_reverse]
    have hfront : (dropVoid front).reverse <+: path.split.2 := by
      have hsuffix : last :: front <:+ path.split.2.reverse := hsegments ▸ List.dropWhile_suffix _
      have hinner : dropVoid front <:+ last :: front :=
        (List.dropWhile_suffix _).trans (List.suffix_cons _ _)
      simpa using List.reverse_prefix.mpr (hinner.trans hsuffix)
    have hseparator : ∀ segment ∈ (dropVoid front).reverse, '/' ∉ segment :=
      fun segment hmem ↦ not_mem_of_mem_split (hfront.subset hmem)
    refine ⟨ofSegments path.split.1 (dropVoid front).reverse, ?_, ?_, ?_, ?_⟩
    · unfold parent?
      dsimp only
      rw [hsegments]
    · exact isAbsolute_ofSegments_front hfront h
    · rw [route_ofSegments path hseparator, hroute, List.dropLast_concat]
    · have hnone : routeOf (dropVoid front).reverse = [] ↔ (dropVoid front).reverse = [] := by
        rw [routeOf_reverse, List.reverse_eq_nil_iff, routeOf_dropVoid_eq_nil_iff,
          List.reverse_eq_nil_iff]
      rw [text_ofSegments_eq_empty_iff hfront h, ← hnone, parts_eq_route, hroute]
      rcases path.leading_cases with hleading | hleading | hleading <;> simp [hleading]

theorem parent?_eq_none (habsolute : path.isAbsolute = true) (h : path.route = []) :
    path.parent? = none := by
  have hsegments : dropVoid path.split.2.reverse = [] := by
    rw [← routeOf_dropVoid_eq_nil_iff, routeOf_dropVoid, routeOf_reverse, ← route_eq_split, h,
      List.reverse_nil]
  unfold parent?
  dsimp only
  rw [hsegments, split_fst_eq_root_iff.mpr habsolute]

theorem forall₂_climb {n : Nat} (habsolute : path.isAbsolute = true)
    (hlength : path.route.length ≤ n) :
    List.Forall₂ (fun above front ↦ above.isAbsolute = true ∧ above.route = front)
      (ancestors.climb n path) path.route.inits.reverse := by
  induction n generalizing path with
  | zero =>
    have hroute : path.route = [] := List.eq_nil_of_length_eq_zero (Nat.le_zero.mp hlength)
    rw [ancestors.climb, hroute]
    exact .cons ⟨habsolute, hroute⟩ .nil
  | succ n ih =>
    rcases List.eq_nil_or_concat' path.route with hroute | ⟨front, last, hroute⟩
    · rw [ancestors.climb, parent?_eq_none habsolute hroute, hroute]
      exact .cons ⟨habsolute, hroute⟩ .nil
    · obtain ⟨parent, hparent, habsolute', hfront, -⟩ :=
        @exists_parent? path (by simp [hroute])
      rw [hroute, List.dropLast_concat] at hfront
      rw [hroute, List.length_append, List.length_singleton] at hlength
      have hrest := ih (habsolute'.trans habsolute) (by rw [hfront]; omega)
      have hinits : (front ++ [last]).inits.reverse = (front ++ [last]) :: front.inits.reverse := by
        simp
      rw [ancestors.climb, hparent, hroute, hinits]
      exact .cons ⟨habsolute, hroute⟩ (hfront ▸ hrest)

/-- The ancestors of a path from the root have the fronts of its route, the longest first. -/
theorem forall₂_ancestors (habsolute : path.isAbsolute = true) :
    List.Forall₂ (fun above front ↦ above.isAbsolute = true ∧ above.route = front)
      path.ancestors path.route.inits.reverse := by
  apply forall₂_climb habsolute
  rw [parts_eq_route, List.length_append, List.length_map]
  exact Nat.le_add_left _ _

end Path

namespace Place

/-- The path of a place has the place as its route. -/
theorem route_path {place : Place} (h : ∀ step ∈ place, Path.IsStep step) :
    place.path.isAbsolute = true ∧ place.path.route = place := by
  have htext : place.path.text.toList = '/' :: Text.joinFields ['/'] (place.map String.toList) := by
    rw [path, String.toList_append, String.toList_intercalate, Text.joinFields_eq_intercalate]
    rfl
  have hseparator : ∀ segment ∈ place.map String.toList, '/' ∉ segment := by
    intro segment hmem
    obtain ⟨step, hstep, rfl⟩ := List.mem_map.mp hmem
    exact (h step hstep).no_separator
  constructor
  · rw [Path.isAbsolute, htext]
    rfl
  · rw [Path.route, htext, Text.fields, if_pos rfl, Path.routeOf_cons_of_isVoid rfl]
    cases hplace : place with
    | nil => rfl
    | cons first others =>
      rw [← hplace, Text.fields_joinFields (by simp [hplace]) hseparator,
        Path.routeOf_map_toList h]

end Place

end SpecWording
