import SpecWording.Proofs.Files.WellFormed
import SpecWording.Proofs.Path.Route

/-!
# Following routes

Where a name stands at the end of a path, the path leads where its route leads: segments that say
nothing ask for a directory, and so does the name behind them. Along directories the place that is
reached can be read off the steps. In a tree without links this is so for every path that leads
anywhere, and a lookup is a walk from step to step.
-/

namespace SpecWording

namespace Place

/-- Where a step leads: `..` to the directory above, and a name to the entry that has it. -/
def step (place : Place) (step : String) : Place :=
  if step = ".." then place.dropLast else place ++ [step]

/-- Where steps lead one after another. -/
def along (place : Place) (steps : List String) : Place := steps.foldl Place.step place

variable {place : Place} {steps more names : List String}

theorem along_append (place : Place) (steps more : List String) :
    place.along (steps ++ more) = (place.along steps).along more :=
  List.foldl_append

theorem along_concat (place : Place) (steps : List String) (step : String) :
    place.along (steps ++ [step]) = (place.along steps).step step := by
  rw [along_append]
  rfl

theorem along_of_forall_ne (h : ∀ name ∈ names, name ≠ "..") : place.along names = place ++ names := by
  induction names using List.reverseRecOn with
  | nil => exact (List.append_nil _).symm
  | append_singleton names name ih =>
    rw [List.forall_mem_append, List.forall_mem_singleton] at h
    rw [along_concat, ih h.1, step, if_neg h.2, List.append_assoc]

end Place

namespace Entry

def isLink : Entry → Bool
  | link _ => true
  | _ => false

end Entry

namespace FileTree

open SpecWording.Path (IsStep IsName routeOf isVoid)

variable {tree : FileTree} {directory place target : Place} {path base : Path} {entry : Entry}
  {name : String} {steps more : List String} {created : Bool} {links : Nat}

theorem isVoid_eq_beq (segment : List Char) :
    (String.ofList segment == "" || String.ofList segment == ".") = isVoid segment := by
  have hempty : String.ofList segment = "" ↔ segment = [] := by
    rw [← String.toList_inj, String.toList_ofList]
    rfl
  have hhere : String.ofList segment = "." ↔ segment = ['.'] := by
    rw [← String.toList_inj, String.toList_ofList]
    rfl
  rw [Bool.eq_iff_iff]
  simp [isVoid, hempty, hhere]

theorem follow_of_not_directory (h : tree.isDirectoryAt place = false) (hsteps : steps ≠ []) :
    tree.follow created links place steps = .error .notDirectory := by
  obtain ⟨step, steps, rfl⟩ := List.exists_cons_of_ne_nil hsteps
  rw [follow, if_pos (by simp [h])]

theorem follow_cons (hdirectory : tree.isDirectoryAt place = true) (hstep : IsStep name) :
    tree.follow created links place (name :: steps) =
      if name = ".." then tree.follow created links place.dropLast steps
      else match tree.entry? (place ++ [name]) with
        | some (.link target) =>
          match links with
          | 0 => .error .tooManyLinks
          | links + 1 =>
            tree.follow created links (if target.isAbsolute then [] else place)
              (FileTree.steps target ++ steps)
        | some _ => tree.follow created links (place ++ [name]) steps
        | none => if created && steps.isEmpty then .ok (place ++ [name]) else .error .missing := by
  rw [follow, if_neg (by simp [hdirectory]), if_neg (by simp [hstep.ne_empty, hstep.ne_here])]
  by_cases hup : name = ".."
  · rw [if_pos (beq_iff_eq.mpr hup), if_pos hup]
  · have hbeq : ¬ (name == "..") = true := by simpa using hup
    apply (if_neg hbeq).trans
    apply Eq.trans _ (if_neg hup).symm
    cases tree.entry? (place ++ [name]) with
    | none => rfl
    | some entry => cases entry <;> rfl

/-- A step in front leads on to the same from steps that lead to the same, also behind a link. -/
theorem follow_cons_congr (hstep : IsStep name) (hmore : steps.isEmpty = more.isEmpty)
    (hhere : ∀ place, tree.follow created links place steps = tree.follow created links place more)
    (hlink : ∀ fewer, fewer < links → ∀ place target,
      tree.follow created fewer place (FileTree.steps target ++ steps) =
        tree.follow created fewer place (FileTree.steps target ++ more)) :
    tree.follow created links place (name :: steps) =
      tree.follow created links place (name :: more) := by
  cases hdirectory : tree.isDirectoryAt place with
  | false => rw [follow_of_not_directory hdirectory (List.cons_ne_nil _ _),
      follow_of_not_directory hdirectory (List.cons_ne_nil _ _)]
  | true =>
    rw [follow_cons hdirectory hstep, follow_cons hdirectory hstep, hhere, hhere, hmore]
    cases tree.entry? (place ++ [name]) with
    | none => rfl
    | some entry =>
      cases entry with
      | file content => rfl
      | directory => rfl
      | link target =>
        cases links with
        | zero => rfl
        | succ links => simp only [hlink links (Nat.lt_succ_self links)]

/-- Segments that say nothing do not matter where a step follows. -/
theorem follow_routeOf (tree : FileTree) (created : Bool) (links : Nat) (place : Place)
    (segments : List (List Char)) (hseparator : ∀ segment ∈ segments, '/' ∉ segment)
    (last : String) :
    tree.follow created links place (segments.map String.ofList ++ [last]) =
      tree.follow created links place (routeOf segments ++ [last]) := by
  induction links using Nat.strongRecOn generalizing place segments with
  | ind links ih =>
    induction segments generalizing place with
    | nil => rfl
    | cons segment segments ihs =>
      rw [List.forall_mem_cons] at hseparator
      rw [List.map_cons, List.cons_append]
      cases hvoid : isVoid segment with
      | true =>
        rw [Path.routeOf_cons_of_isVoid hvoid, ← ihs place hseparator.2]
        cases hdirectory : tree.isDirectoryAt place with
        | false =>
          have hsteps : segments.map String.ofList ++ [last] ≠ [] := by simp
          rw [follow_of_not_directory hdirectory (List.cons_ne_nil _ _),
            follow_of_not_directory hdirectory hsteps]
        | true => rw [follow, if_neg (by simp [hdirectory]), if_pos (by rw [isVoid_eq_beq, hvoid])]
      | false =>
        have hstep : IsStep (String.ofList segment) := by
          apply Path.isStep_of_mem_routeOf (List.forall_mem_singleton.mpr hseparator.1)
          rw [Path.routeOf_cons_of_not_isVoid hvoid]
          exact List.mem_cons_self
        rw [Path.routeOf_cons_of_not_isVoid hvoid, List.cons_append]
        have hmore (steps : List String) : (steps ++ [last]).isEmpty = false := by simp
        apply follow_cons_congr hstep ((hmore _).trans (hmore _).symm)
          fun place ↦ ihs place hseparator.2
        intro fewer hfewer place target
        -- The steps of the link stand in front, so both sides go by the route of all these.
        have hagain : routeOf (segments.filter (!isVoid ·)) = routeOf segments := by
          simp [routeOf, List.filter_filter]
        have htarget : ∀ segment ∈ Text.fields '/' target.text.toList, '/' ∉ segment :=
          fun _ ↦ Text.not_mem_of_mem_fields
        have hall (segments : List (List Char)) (hseparator : ∀ s ∈ segments, '/' ∉ s) :=
          ih fewer hfewer place (Text.fields '/' target.text.toList ++ segments)
            (List.forall_mem_append.mpr ⟨htarget, hseparator⟩)
        have hleft := hall segments hseparator.2
        have hright := hall (segments.filter (!isVoid ·))
          fun s hmem ↦ hseparator.2 s (List.mem_of_mem_filter hmem)
        rw [List.map_append, List.append_assoc, Path.routeOf_append] at hleft hright
        rw [hagain] at hright
        exact hleft.trans hright.symm

/-- Segments that say nothing lead nowhere else. -/
theorem eq_of_follow_of_routeOf_eq_nil {segments : List (List Char)} (hroute : routeOf segments = [])
    (h : tree.follow created links place (segments.map String.ofList) = .ok target) :
    target = place := by
  induction segments with
  | nil =>
    rw [List.map_nil, follow] at h
    exact (Except.ok.inj h).symm
  | cons segment segments ih =>
    cases hvoid : isVoid segment with
    | true =>
      rw [Path.routeOf_cons_of_isVoid hvoid] at hroute
      rw [List.map_cons, follow] at h
      split at h
      · cases h
      · rw [if_pos (by rw [isVoid_eq_beq, hvoid])] at h
        exact ih hroute h
    | false =>
      rw [Path.routeOf_cons_of_not_isVoid hvoid] at hroute
      cases hroute

/-- A path leads where its last field leads behind the route of the fields before it. -/
theorem locate_of_fields {front : List (List Char)} {last : List Char} (hpath : path.text ≠ "")
    (hfields : Text.fields '/' path.text.toList = front ++ [last]) :
    tree.locate directory path created =
      tree.follow created linkLimit (if path.isAbsolute then [] else directory)
        (routeOf front ++ [String.ofList last]) := by
  have hempty : path.text.isEmpty = false := by simpa using hpath
  have hseparator : ∀ segment ∈ front, '/' ∉ segment := by
    intro segment hmem
    apply @Text.not_mem_of_mem_fields '/' path.text.toList
    rw [hfields]
    exact List.mem_append_left _ hmem
  have hsteps : FileTree.steps path = front.map String.ofList ++ [String.ofList last] := by
    rw [FileTree.steps, hfields, List.map_append, List.map_singleton]
  rw [locate, hempty, if_neg Bool.false_ne_true, hsteps, follow_routeOf _ _ _ _ _ hseparator]

/-- A path with a name at its end leads where its route leads. -/
theorem locate_join_eq (tree : FileTree) (directory : Place) (base : Path) (hname : IsStep name) :
    tree.locate directory (base.join ⟨name⟩) created =
      tree.follow created linkLimit (if (base.join ⟨name⟩).isAbsolute then [] else directory)
        (base.route ++ [name]) := by
  obtain ⟨front, hfields, hfront, -⟩ := Path.exists_front_join base hname.no_separator
  rw [locate_of_fields (Path.text_join_ne_empty hname) hfields, hfront, String.ofList_toList]

theorem locate_join_of_isAbsolute (directory : Place) (hbase : base.isAbsolute = true)
    (hname : IsStep name) : tree.locate directory (base.join ⟨name⟩) created =
      tree.follow created linkLimit [] (base.route ++ [name]) := by
  rw [locate_join_eq _ _ _ hname,
    Path.isAbsolute_join (Path.text_ne_empty_of_isAbsolute hbase) hname, hbase]
  rfl

/-- Steps that lead to a directory, from which a last step is followed. -/
def LeadsThrough (tree : FileTree) (links : Nat) (place : Place) (steps : List String) : Prop :=
  ∃ reached left, tree.isDirectoryAt reached = true ∧ ∀ last,
    tree.follow false links place (steps ++ [last]) = tree.follow false left reached [last]

theorem LeadsThrough.of_eq {links' : Nat} {place' : Place} {steps' : List String}
    (h : tree.LeadsThrough links' place' steps')
    (hnext : ∀ last, tree.follow false links place (steps ++ [last]) =
      tree.follow false links' place' (steps' ++ [last])) : tree.LeadsThrough links place steps := by
  obtain ⟨reached, left, hdirectory, hlast⟩ := h
  exact ⟨reached, left, hdirectory, fun last ↦ (hnext last).trans (hlast last)⟩

/-- What leads somewhere leads through a directory before its last step. -/
theorem leadsThrough_of_follow {last : String}
    (h : tree.follow false links place (steps ++ [last]) = .ok target) :
    tree.LeadsThrough links place steps := by
  fun_induction tree.follow false links place steps with
  | case1 links place =>
    cases hdirectory : tree.isDirectoryAt place with
    | false =>
      rw [follow_of_not_directory hdirectory (by simp)] at h
      cases h
    | true => exact ⟨place, links, hdirectory, fun last ↦ rfl⟩
  | case2 links place step steps hdir =>
    rw [List.cons_append, follow, if_pos hdir] at h
    cases h
  | case3 links place step steps hdir hvoid ih =>
    have hnext (last : String) : tree.follow false links place (step :: steps ++ [last]) =
        tree.follow false links place (steps ++ [last]) := by
      rw [List.cons_append, follow, if_neg hdir, if_pos hvoid]
    exact (ih ((hnext last).symm.trans h)).of_eq hnext
  | case4 links place step steps hdir hvoid hup ih =>
    have hnext (last : String) : tree.follow false links place (step :: steps ++ [last]) =
        tree.follow false links place.dropLast (steps ++ [last]) := by
      rw [List.cons_append, follow, if_neg hdir, if_neg hvoid, if_pos hup]
    exact (ih ((hnext last).symm.trans h)).of_eq hnext
  | case5 place step steps hdir hvoid hup path hpath =>
    rw [List.cons_append, follow, if_neg hdir, if_neg hvoid, if_neg hup, hpath] at h
    cases h
  | case6 place step steps hdir hvoid hup path hpath links ih =>
    have hnext (last : String) : tree.follow false (links + 1) place (step :: steps ++ [last]) =
        tree.follow false links (if path.isAbsolute then [] else place)
          (FileTree.steps path ++ steps ++ [last]) := by
      rw [List.cons_append, follow, if_neg hdir, if_neg hvoid, if_neg hup, hpath,
        List.append_assoc]
    exact (ih ((hnext last).symm.trans h)).of_eq hnext
  | case7 links place step steps hdir hvoid hup found hnolink hfound ih =>
    have hnext (last : String) : tree.follow false links place (step :: steps ++ [last]) =
        tree.follow false links (place ++ [step]) (steps ++ [last]) := by
      rw [List.cons_append, follow, if_neg hdir, if_neg hvoid, if_neg hup, hfound]
      cases found with
      | link path => exact absurd rfl (hnolink path)
      | _ => rfl
    exact (ih ((hnext last).symm.trans h)).of_eq hnext
  | case8 links place step steps hdir hvoid hup hnone hcreated => cases hcreated
  | case9 links place step steps hdir hvoid hup hnone hcreated =>
    rw [List.cons_append, follow, if_neg hdir, if_neg hvoid, if_neg hup, hnone] at h
    cases h

/-! ## Files -/

theorem isFile_eq_true_iff : tree.isFile directory path = true ↔
    ∃ place content, tree.locate directory path false = .ok place ∧
      tree.entry? place = some (.file content) := by
  unfold isFile
  constructor
  · intro h
    split at h
    · next content hfind =>
      obtain ⟨place, hlocate, hentry⟩ := find_eq_ok_iff.mp hfind
      exact ⟨place, content, hlocate, hentry⟩
    · cases h
  · rintro ⟨place, content, hlocate, hentry⟩
    rw [find_eq_ok_iff.mpr ⟨place, hlocate, hentry⟩]

theorem isFile_congr {other : Path}
    (h : tree.locate directory path false = tree.locate directory other false) :
    tree.isFile directory path = tree.isFile directory other := by
  rw [isFile, isFile, find, find, h]

theorem isFile_eq_false_of_isDirectoryAt (hlocate : tree.locate directory path false = .ok place)
    (hplace : tree.isDirectoryAt place = true) : tree.isFile directory path = false := by
  rw [Bool.eq_false_iff, ne_eq, isFile_eq_true_iff]
  rintro ⟨place', content, hlocate', hentry⟩
  obtain rfl := Except.ok.inj (hlocate.symm.trans hlocate')
  rw [isDirectoryAt, hentry] at hplace
  cases hplace

/-! ## Along directories -/

/-- Steps along directories lead to the place that can be read off them. -/
theorem follow_along (hstep : ∀ step ∈ steps, IsStep step)
    (hdirectory : ∀ front, front <+: steps → tree.isDirectoryAt (place.along front) = true) :
    tree.follow created links place (steps ++ more) =
      tree.follow created links (place.along steps) more := by
  induction steps generalizing place with
  | nil => rfl
  | cons step steps ih =>
    rw [List.forall_mem_cons] at hstep
    have hrest : ∀ front, front <+: steps →
        tree.isDirectoryAt ((place.step step).along front) = true :=
      fun front hfront ↦ hdirectory (step :: front) (List.cons_prefix_cons.mpr ⟨rfl, hfront⟩)
    have hhere : tree.isDirectoryAt place = true := hdirectory [] List.nil_prefix
    have hnext : tree.entry? (place.step step) = some .directory :=
      eq_of_beq (hrest [] List.nil_prefix)
    rw [List.cons_append, follow_cons hhere hstep.1]
    have hmore : tree.follow created links (place.step step) (steps ++ more) =
        tree.follow created links (place.along (step :: steps)) more := ih hstep.2 hrest
    rw [← hmore]
    by_cases hup : step = ".."
    · rw [if_pos hup, Place.step, if_pos hup]
    · rw [Place.step, if_neg hup] at hnext ⊢
      rw [if_neg hup, hnext]

theorem WellFormed.isDirectoryAt_front (h : tree.WellFormed)
    (hplace : tree.isDirectoryAt place = true) {front : Place} (hfront : front <+: place) :
    tree.isDirectoryAt front = true := by
  induction place using List.reverseRecOn with
  | nil =>
    rw [List.prefix_nil.mp hfront]
    rfl
  | append_singleton place name ih =>
    rcases List.prefix_concat_iff.mp hfront with rfl | hfront
    · exact hplace
    · have hmem := (h.entry?_eq_some_iff (by simp)).mp (eq_of_beq hplace)
      have habove := h.inDirectory _ _ hmem
      rw [List.dropLast_concat] at habove
      exact ih habove hfront

theorem WellFormed.isName_of_isDirectoryAt (h : tree.WellFormed)
    (hplace : tree.isDirectoryAt place = true) : ∀ name ∈ place, IsName name := by
  cases place with
  | nil => exact fun _ hname ↦ absurd hname List.not_mem_nil
  | cons first others =>
    exact h.isName _ _ ((h.entry?_eq_some_iff (List.cons_ne_nil _ _)).mp (eq_of_beq hplace))

/-- The path of a directory has its names as the route. -/
theorem WellFormed.route_path (h : tree.WellFormed) (hplace : tree.isDirectoryAt place = true) :
    place.path.isAbsolute = true ∧ place.path.route = place :=
  Place.route_path fun name hmem ↦ (h.isName_of_isDirectoryAt hplace name hmem).isStep

/-- From the root, the names of a directory lead to it. -/
theorem WellFormed.follow_place (h : tree.WellFormed) (hplace : tree.isDirectoryAt place = true)
    (more : List String) :
    tree.follow created links [] (place ++ more) = tree.follow created links place more := by
  have hname := h.isName_of_isDirectoryAt hplace
  have halong (front : Place) (hfront : front <+: place) : Place.along [] front = front := by
    rw [Place.along_of_forall_ne fun name hmem ↦ (hname name (hfront.subset hmem)).ne_up,
      List.nil_append]
  rw [follow_along fun name hmem ↦ (hname name hmem).isStep, halong place List.prefix_rfl]
  intro front hfront
  rw [halong front hfront]
  exact h.isDirectoryAt_front hplace hfront

/-! ## Trees without links -/

/-- No entry of the tree is a link. -/
def LinkFree (tree : FileTree) : Prop := ∀ listed ∈ tree.entries, listed.2.isLink = false

instance (tree : FileTree) : Decidable tree.LinkFree :=
  inferInstanceAs (Decidable (∀ listed ∈ tree.entries, listed.2.isLink = false))

theorem LinkFree.isLink_eq_false (h : tree.LinkFree) (hentry : tree.entry? place = some entry) :
    entry.isLink = false := by
  cases place with
  | nil =>
    obtain rfl := Option.some.inj hentry
    rfl
  | cons first others =>
    obtain ⟨before, after, hentries, -⟩ := List.lookup_eq_some_iff.mp hentry
    exact h (first :: others, entry) (by simp [hentries])

/-- Follows steps of which none meets a link. -/
def walk (tree : FileTree) (place : Place) : List String → Except PathError Place
  | [] => .ok place
  | step :: steps =>
    if !tree.isDirectoryAt place then .error .notDirectory
    else if step == "" || step == "." then walk tree place steps
    else if step == ".." then walk tree place.dropLast steps
    else if (tree.entry? (place ++ [step])).isSome then walk tree (place ++ [step]) steps
    else .error .missing

theorem LinkFree.follow_eq_walk (h : tree.LinkFree) (links : Nat) (place : Place)
    (steps : List String) : tree.follow false links place steps = tree.walk place steps := by
  induction steps generalizing place with
  | nil => rw [follow, walk]
  | cons step steps ih =>
    rw [follow, walk, ih, ih]
    cases hentry : tree.entry? (place ++ [step]) with
    | none => rfl
    | some entry =>
      cases entry with
      | file content => rw [ih]; rfl
      | directory => rw [ih]; rfl
      | link path => cases h.isLink_eq_false hentry

theorem LinkFree.locate_eq_walk (h : tree.LinkFree) (directory : Place) (path : Path) :
    tree.locate directory path false =
      if path.text.isEmpty then .error .missing
      else tree.walk (if path.isAbsolute then [] else directory) (FileTree.steps path) := by
  rw [locate, h.follow_eq_walk]

/-- A walk that ends comes along directories to the place that its route spells. -/
theorem along_of_walk {segments : List (List Char)}
    (h : tree.walk place (segments.map String.ofList) = .ok target) :
    target = place.along (routeOf segments) ∧ ∀ front, front <+: routeOf segments →
      front ≠ routeOf segments → tree.isDirectoryAt (place.along front) = true := by
  induction segments generalizing place with
  | nil =>
    obtain rfl := Except.ok.inj h
    exact ⟨rfl, fun front hfront hne ↦ absurd (List.prefix_nil.mp hfront) hne⟩
  | cons segment segments ih =>
    rw [List.map_cons, walk] at h
    split at h
    · cases h
    · next hdirectory =>
      rw [isVoid_eq_beq] at h
      cases hvoid : isVoid segment with
      | true =>
        rw [hvoid, if_pos rfl] at h
        rw [Path.routeOf_cons_of_isVoid hvoid]
        exact ih h
      | false =>
        rw [hvoid, if_neg Bool.false_ne_true] at h
        rw [Path.routeOf_cons_of_not_isVoid hvoid]
        have hstep : tree.walk (place.step (String.ofList segment)) (segments.map String.ofList) =
            .ok target := by
          rw [Place.step]
          split at h
          · next hup => rwa [if_pos (eq_of_beq hup)]
          · next hup =>
            rw [if_neg (by simpa using hup)]
            split at h
            · exact h
            · cases h
        obtain ⟨htarget, hfronts⟩ := ih hstep
        refine ⟨htarget, ?_⟩
        intro front hfront hne
        rcases List.prefix_cons_iff.mp hfront with rfl | ⟨rest, rfl, hrest⟩
        · rw [Bool.not_eq_true, Bool.not_eq_false'] at hdirectory
          exact hdirectory
        · exact hfronts rest hrest (fun heq ↦ hne (heq ▸ rfl))

/-- Without links, a path without `..` leads to the place that it spells. -/
theorem LinkFree.eq_spelled (h : tree.LinkFree) (hup : Path.Part.up ∉ path.parts)
    (hlocate : tree.locate directory path false = .ok target) :
    target = path.spelled directory := by
  rw [h.locate_eq_walk] at hlocate
  split at hlocate
  · cases hlocate
  · obtain ⟨rfl, -⟩ := along_of_walk hlocate
    apply Place.along_of_forall_ne
    rintro name hmem rfl
    exact hup (Path.up_mem_parts_iff.mpr hmem)

/-- Where a walk of steps finds a file. -/
def walksToFile (tree : FileTree) (directory : Place) (path : Path) : Bool :=
  match tree.walk (if path.isAbsolute then [] else directory) (FileTree.steps path) with
  | .ok place =>
    match tree.entry? place with
    | some (.file _) => !path.text.isEmpty
    | _ => false
  | .error _ => false

theorem LinkFree.isFile_eq_walksToFile (h : tree.LinkFree) : tree.isFile = tree.walksToFile := by
  funext directory path
  rw [isFile, find, h.locate_eq_walk, walksToFile]
  cases path.text.isEmpty with
  | true =>
    cases tree.walk (if path.isAbsolute then [] else directory) (FileTree.steps path) with
    | error cause => rfl
    | ok place =>
      dsimp only
      cases tree.entry? place with
      | none => rfl
      | some entry => cases entry <;> rfl
  | false =>
    cases tree.walk (if path.isAbsolute then [] else directory) (FileTree.steps path) with
    | error cause => rfl
    | ok place =>
      simp only [bind, Except.bind, Bool.false_eq_true, if_false]
      cases tree.entry? place with
      | none => rfl
      | some entry => cases entry <;> rfl

end FileTree

end SpecWording
