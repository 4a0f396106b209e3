import Mathlib.Data.List.Nodup
import SpecWording.Proofs.Files.Lookup
import SpecWording.Proofs.Path.Parts

/-!
# Well-formed trees

The entries of a directory tree have different places, each made of names, and stand in directories.
Such a tree is what its places hold: in what order its entries are listed does not matter. And the
names below a place, joined to a path that leads there, lead on to the entries below it.
-/

namespace SpecWording

namespace FileTree

structure WellFormed (tree : FileTree) : Prop where
  nodup : (tree.entries.map Prod.fst).Nodup
  isName : ∀ place entry, (place, entry) ∈ tree.entries → ∀ name ∈ place, Path.IsName name
  ne_nil : ∀ place entry, (place, entry) ∈ tree.entries → place ≠ []
  inDirectory : ∀ place entry, (place, entry) ∈ tree.entries →
    tree.isDirectoryAt place.dropLast = true

theorem wellFormed_iff {tree : FileTree} : tree.WellFormed ↔
    (tree.entries.map Prod.fst).Nodup ∧ ∀ listed ∈ tree.entries,
      (∀ name ∈ listed.1, Path.IsName name) ∧ listed.1 ≠ [] ∧
        tree.isDirectoryAt listed.1.dropLast = true := by
  constructor
  · rintro ⟨hnodup, hname, hnil, hdirectory⟩
    exact ⟨hnodup, fun ⟨place, entry⟩ hmem ↦
      ⟨hname place entry hmem, hnil place entry hmem, hdirectory place entry hmem⟩⟩
  · rintro ⟨hnodup, hlisted⟩
    exact ⟨hnodup, fun place entry hmem ↦ (hlisted _ hmem).1,
      fun place entry hmem ↦ (hlisted _ hmem).2.1, fun place entry hmem ↦ (hlisted _ hmem).2.2⟩

instance (tree : FileTree) : Decidable tree.WellFormed := decidable_of_iff _ wellFormed_iff.symm

variable {tree other : FileTree} {directory place : Place} {path : Path} {entry : Entry}
  {name : String}

/-! ## The order of the entries -/

theorem lookup_eq_some_iff_mem {entries : List (Place × Entry)}
    (hnodup : (entries.map Prod.fst).Nodup) :
    entries.lookup place = some entry ↔ (place, entry) ∈ entries := by
  induction entries with
  | nil => simp
  | cons first others ih =>
    obtain ⟨found, old⟩ := first
    rw [List.map_cons, List.nodup_cons] at hnodup
    by_cases hplace : place = found
    · subst hplace
      have hnone : ∀ entry, (place, entry) ∉ others :=
        fun entry hmem ↦ hnodup.1 (List.mem_map.mpr ⟨(place, entry), hmem, rfl⟩)
      simp [hnone, eq_comm]
    · rw [List.lookup_cons, beq_false_of_ne hplace, ih hnodup.2]
      simp [hplace]

theorem WellFormed.entry?_eq_some_iff (h : tree.WellFormed) (hplace : place ≠ []) :
    tree.entry? place = some entry ↔ (place, entry) ∈ tree.entries := by
  rw [entry?_of_ne_nil hplace, lookup_eq_some_iff_mem h.nodup]

theorem WellFormed.entry?_of_mem (h : tree.WellFormed) (hmem : (place, entry) ∈ tree.entries) :
    tree.entry? place = some entry :=
  (h.entry?_eq_some_iff (h.ne_nil place entry hmem)).mpr hmem

/-- Every place holds the same in whatever order the entries are listed. -/
theorem WellFormed.entry?_eq (h : tree.WellFormed) (hperm : tree.entries.Perm other.entries)
    (place : Place) : tree.entry? place = other.entry? place := by
  by_cases hplace : place = []
  · rw [hplace, entry?, entry?]
  · have hnodup : (other.entries.map Prod.fst).Nodup := (hperm.map _).nodup_iff.mp h.nodup
    ext entry
    rw [h.entry?_eq_some_iff hplace, entry?_of_ne_nil hplace, lookup_eq_some_iff_mem hnodup,
      hperm.mem_iff]

theorem WellFormed.sameShape (h : tree.WellFormed) (hperm : tree.entries.Perm other.entries) :
    tree.SameShape other := fun place ↦ .inl (h.entry?_eq hperm place)

theorem WellFormed.perm (h : tree.WellFormed) (hperm : tree.entries.Perm other.entries) :
    other.WellFormed := by
  constructor
  · exact (hperm.map _).nodup_iff.mp h.nodup
  · intro place entry hmem
    exact h.isName place entry (hperm.mem_iff.mpr hmem)
  · intro place entry hmem
    exact h.ne_nil place entry (hperm.mem_iff.mpr hmem)
  · intro place entry hmem
    rw [isDirectoryAt, ← h.entry?_eq hperm]
    exact h.inDirectory place entry (hperm.mem_iff.mpr hmem)

theorem below_perm (hperm : tree.entries.Perm other.entries) (directory : Place) :
    (tree.below directory).Perm (other.below directory) :=
  hperm.filterMap _

/-! ## Following one name more -/

theorem follow_name (hname : Path.IsName name) (hdirectory : tree.isDirectoryAt place = true)
    (hentry : tree.entry? (place ++ [name]) = some entry) (hlink : ∀ target, entry ≠ .link target)
    (links : Nat) : tree.follow false links place [name] = .ok (place ++ [name]) := by
  rw [follow]
  simp only [hdirectory, hname.ne_empty, hname.ne_here, hname.ne_up, hentry, beq_false_of_ne, ne_eq,
    not_false_eq_true, Bool.not_true, Bool.false_eq_true, Bool.or_self, if_false]
  cases entry with
  | link target => exact absurd rfl (hlink target)
  | _ => rw [follow]

theorem follow_void (hdirectory : tree.isDirectoryAt place = true) (created : Bool) (links : Nat)
    (steps : List String) :
    tree.follow created links place ("" :: steps) = tree.follow created links place steps := by
  rw [follow, if_neg (by simp [hdirectory]), if_pos (by decide)]

/-- The path of the root leads to the root from everywhere. -/
theorem locate_root (tree : FileTree) (directory : Place) :
    tree.locate directory ⟨"/"⟩ false = .ok [] := by
  have hsteps : steps ⟨"/"⟩ = ["", ""] := by decide +kernel
  have hroot : tree.isDirectoryAt [] = true := rfl
  calc tree.locate directory ⟨"/"⟩ false
      = tree.follow false linkLimit [] ["", ""] := by
        rw [locate, hsteps]
        rfl
    _ = tree.follow false linkLimit [] [""] := follow_void hroot _ _ _
    _ = tree.follow false linkLimit [] [] := follow_void hroot _ _ _
    _ = .ok [] := by rw [follow]

/-- A name that nothing has leads nowhere. -/
theorem locate_name_eq_missing (hname : Path.IsName name)
    (hdirectory : tree.isDirectoryAt place = true) (hnone : tree.entry? (place ++ [name]) = none) :
    tree.locate place ⟨name⟩ false = .error .missing := by
  have hsteps : steps ⟨name⟩ = [name] := by
    rw [steps, Text.fields_of_not_mem hname.no_separator, List.map_singleton, String.ofList_toList]
  rw [locate, hsteps, hname.isStep.isAbsolute_eq_false, follow]
  simp [hname.ne_empty, hdirectory, hname.ne_here, hname.ne_up, hnone]

/-- A path that leads to a directory leads on to what has a name there. -/
theorem follow_concat {links : Nat} {steps : List String} {target : Place}
    (h : tree.follow false links place steps = .ok target) (hname : Path.IsName name)
    (hdirectory : tree.isDirectoryAt target = true)
    (hentry : tree.entry? (target ++ [name]) = some entry)
    (hlink : ∀ target, entry ≠ .link target) :
    tree.follow false links place (steps ++ [name]) = .ok (target ++ [name]) := by
  fun_induction tree.follow false links place steps with
  | case1 =>
    obtain rfl := Except.ok.inj h
    exact follow_name hname hdirectory hentry hlink _
  | case2 => cases h
  | case3 links place step steps hdir hvoid ih =>
    rw [List.cons_append, follow, if_neg hdir, if_pos hvoid, ih h]
  | case4 links place step steps hdir hvoid hup ih =>
    rw [List.cons_append, follow, if_neg hdir, if_neg hvoid, if_pos hup, ih h]
  | case5 => cases h
  | case6 place step steps hdir hvoid hup path hpath links ih =>
    rw [List.cons_append, follow, if_neg hdir, if_neg hvoid, if_neg hup, hpath]
    -- The steps of a link come before the remaining ones, so the name is still the last step.
    rw [List.append_assoc] at ih
    exact ih h
  | case7 links place step steps hdir hvoid hup found hnolink hfound ih =>
    rw [List.cons_append, follow, if_neg hdir, if_neg hvoid, if_neg hup, hfound, ih h]
    cases found with
    | link path => exact absurd rfl (hnolink path)
    | _ => rfl
  | case8 links place step steps hdir hvoid hup hnone hcreated => cases hcreated
  | case9 => cases h

theorem follow_of_concat_void {links : Nat} {steps : List String} {target : Place}
    (h : tree.follow false links place (steps ++ [""]) = .ok target) :
    tree.follow false links place steps = .ok target := by
  fun_induction tree.follow false links place steps with
  | case1 links place =>
    rw [List.nil_append, follow] at h
    split at h
    · cases h
    · rwa [if_pos (by decide), follow] at h
  | case2 links place step steps hdir =>
    rw [List.cons_append, follow, if_pos hdir] at h
    cases h
  | case3 links place step steps hdir hvoid ih =>
    rw [List.cons_append, follow, if_neg hdir, if_pos hvoid] at h
    exact ih h
  | case4 links place step steps hdir hvoid hup ih =>
    rw [List.cons_append, follow, if_neg hdir, if_neg hvoid, if_pos hup] at h
    exact ih h
  | case5 place step steps hdir hvoid hup path hpath =>
    rw [List.cons_append, follow, if_neg hdir, if_neg hvoid, if_neg hup, hpath] at h
    cases h
  | case6 place step steps hdir hvoid hup path hpath links ih =>
    rw [List.cons_append, follow, if_neg hdir, if_neg hvoid, if_neg hup, hpath] at h
    apply ih
    rw [List.append_assoc]
    exact h
  | case7 links place step steps hdir hvoid hup found hnolink hfound ih =>
    rw [List.cons_append, follow, if_neg hdir, if_neg hvoid, if_neg hup, hfound] at h
    cases found with
    | link path => exact absurd rfl (hnolink path)
    | _ => exact ih h
  | case8 links place step steps hdir hvoid hup hnone hcreated => cases hcreated
  | case9 links place step steps hdir hvoid hup hnone hcreated =>
    rw [List.cons_append, follow, if_neg hdir, if_neg hvoid, if_neg hup, hnone] at h
    cases h

theorem text_ne_empty_of_locate (h : tree.locate directory path false = .ok place) :
    path.text ≠ "" := by
  intro hempty
  rw [locate, hempty] at h
  cases h

theorem locate_join (h : tree.locate directory path false = .ok place) (hname : Path.IsName name)
    (hdirectory : tree.isDirectoryAt place = true)
    (hentry : tree.entry? (place ++ [name]) = some entry) (hlink : ∀ target, entry ≠ .link target) :
    tree.locate directory (path.join ⟨name⟩) false = .ok (place ++ [name]) := by
  have hpath := text_ne_empty_of_locate h
  have hempty : path.text.isEmpty = false := by simpa using hpath
  have hempty' : (path.join ⟨name⟩).text.isEmpty = false := by
    simpa using Path.text_join_ne_empty hname.isStep
  obtain ⟨front, -, hjoin, hfields, habsolute⟩ := Path.exists_fields_join hpath hname.isStep
  have hsteps : steps (path.join ⟨name⟩) = front.map String.ofList ++ [name] := by
    rw [steps, hjoin, List.map_append, List.map_singleton, String.ofList_toList]
  have hfront : tree.follow false linkLimit (if path.isAbsolute then [] else directory)
      (front.map String.ofList) = .ok place := by
    rw [locate, hempty, if_neg Bool.false_ne_true] at h
    -- A path that ends in a separator has an empty step at the end, where its join has the name.
    rcases hfields with hfields | hfields
    · rwa [steps, hfields] at h
    · rw [steps, hfields, List.map_append] at h
      exact follow_of_concat_void h
  rw [locate, hempty', if_neg Bool.false_ne_true, habsolute, hsteps]
  exact follow_concat hfront hname hdirectory hentry hlink

end FileTree

end SpecWording
