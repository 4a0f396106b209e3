import SpecWording.Files.Tree

/-!
# Looking paths up

A path is followed through directories and links, so what the files hold does not matter: it leads
to the same place in all trees of one shape. Writing a text to a file that is there keeps the shape
of the tree, so it changes what this one place holds and nothing else. A file that was read can
always be written back.
-/

namespace SpecWording

namespace FileTree

variable {tree other : FileTree} {directory place : Place} {path : Path} {entry : Entry}

theorem entry?_of_ne_nil (h : place ≠ []) : tree.entry? place = tree.entries.lookup place := by
  cases place with
  | nil => exact absurd rfl h
  | cons name names => rfl

theorem ne_nil_of_entry?_file {content : ByteArray} (h : tree.entry? place = some (.file content)) :
    place ≠ [] := by
  rintro rfl
  cases h

/-! ## Putting an entry -/

theorem lookup_map_put (entries : List (Place × Entry)) (place : Place) (entry : Entry)
    (target : Place) : (entries.map fun old ↦ if old.1 == place then (place, entry) else old).lookup
      target = if target = place then (entries.lookup target).map fun _ ↦ entry
        else entries.lookup target := by
  induction entries with
  | nil => simp
  | cons first others ih =>
    obtain ⟨name, old⟩ := first
    rw [List.map_cons]
    by_cases hname : name = place
    · subst hname
      by_cases htarget : target = name
      · simp [htarget]
      · rw [if_pos BEq.rfl, List.lookup_cons, List.lookup_cons, beq_false_of_ne htarget]
        simpa [htarget] using ih
    · rw [if_neg (by simpa using hname)]
      by_cases htarget : target = name
      · simp [htarget, hname]
      · rw [List.lookup_cons, List.lookup_cons, beq_false_of_ne htarget]
        exact ih

/-- Putting an entry changes what its place holds and nothing else. -/
theorem entry?_put (hplace : place ≠ []) (entry : Entry) (target : Place) :
    FileTree.entry? (tree.put place entry) target =
      if target = place then some entry else tree.entry? target := by
  cases target with
  | nil => rw [if_neg (Ne.symm hplace), entry?, entry?]
  | cons name names =>
    rw [entry?_of_ne_nil (List.cons_ne_nil _ _), entry?_of_ne_nil (List.cons_ne_nil _ _), put]
    split
    · next hsome =>
      rw [lookup_map_put]
      split
      · next htarget =>
        obtain ⟨old, hold⟩ := Option.isSome_iff_exists.mp hsome
        rw [htarget, hold, Option.map_some]
      · rfl
    · next hnone =>
      rw [Option.not_isSome_iff_eq_none] at hnone
      rw [List.lookup_append]
      split
      · next htarget => simp [htarget, hnone]
      · next htarget => simp [List.lookup_cons, beq_false_of_ne htarget]

/-! ## Trees of one shape -/

/-- Trees that differ at most in what their files hold. -/
def SameShape (a b : FileTree) : Prop :=
  ∀ place, a.entry? place = b.entry? place ∨
    ∃ old new, a.entry? place = some (.file old) ∧ b.entry? place = some (.file new)

theorem SameShape.refl (tree : FileTree) : tree.SameShape tree := fun _ ↦ .inl rfl

theorem SameShape.trans {third : FileTree} (h : tree.SameShape other)
    (hthird : other.SameShape third) : tree.SameShape third := by
  intro place
  rcases h place with heq | ⟨old, new, hold, hnew⟩
  · rw [heq]
    exact hthird place
  · rcases hthird place with heq | ⟨middle, last, -, hlast⟩
    · exact .inr ⟨old, new, hold, heq ▸ hnew⟩
    · exact .inr ⟨old, last, hold, hlast⟩

theorem sameShape_put {old : ByteArray} (h : tree.entry? place = some (.file old))
    (new : ByteArray) : tree.SameShape (tree.put place (.file new)) := by
  intro target
  rw [entry?_put (ne_nil_of_entry?_file h)]
  split
  · next htarget => exact .inr ⟨old, new, htarget ▸ h, rfl⟩
  · exact .inl rfl

theorem SameShape.isDirectoryAt (h : tree.SameShape other) (place : Place) :
    tree.isDirectoryAt place = other.isDirectoryAt place := by
  unfold FileTree.isDirectoryAt
  rcases h place with heq | ⟨old, new, hold, hnew⟩
  · rw [heq]
  · rw [hold, hnew]
    rfl

theorem SameShape.entry?_eq_link (h : tree.SameShape other) {target : Path}
    (hlink : tree.entry? place = some (.link target)) :
    other.entry? place = some (.link target) := by
  rcases h place with heq | ⟨old, new, hold, -⟩
  · rw [← heq, hlink]
  · rw [hold] at hlink
    cases hlink

theorem SameShape.entry?_eq_none (h : tree.SameShape other) (hnone : tree.entry? place = none) :
    other.entry? place = none := by
  rcases h place with heq | ⟨old, new, hold, -⟩
  · rw [← heq, hnone]
  · rw [hold] at hnone
    cases hnone

theorem SameShape.exists_entry? (h : tree.SameShape other) (hentry : tree.entry? place = some entry)
    (hlink : ∀ target, entry ≠ .link target) :
    ∃ found, other.entry? place = some found ∧ ∀ target, found ≠ .link target := by
  rcases h place with heq | ⟨old, new, -, hnew⟩
  · exact ⟨entry, heq.symm.trans hentry, hlink⟩
  · exact ⟨.file new, hnew, nofun⟩

/-- A path is followed to the same place in trees of one shape. -/
theorem SameShape.follow (h : tree.SameShape other) (created : Bool) (links : Nat) (place : Place)
    (steps : List String) :
    tree.follow created links place steps = other.follow created links place steps := by
  fun_induction tree.follow created links place steps with
  | case1 => rw [FileTree.follow]
  | case2 links place step steps hdirectory =>
    rw [FileTree.follow, ← h.isDirectoryAt, if_pos hdirectory]
  | case3 links place step steps hdirectory hvoid ih =>
    rw [FileTree.follow, ← h.isDirectoryAt, if_neg hdirectory, if_pos hvoid, ih]
  | case4 links place step steps hdirectory hvoid hup ih =>
    rw [FileTree.follow, ← h.isDirectoryAt, if_neg hdirectory, if_neg hvoid, if_pos hup, ih]
  | case5 place step steps hdirectory hvoid hup target hlink =>
    rw [FileTree.follow, ← h.isDirectoryAt, if_neg hdirectory, if_neg hvoid, if_neg hup,
      h.entry?_eq_link hlink]
  | case6 place step steps hdirectory hvoid hup target hlink links ih =>
    rw [FileTree.follow, ← h.isDirectoryAt, if_neg hdirectory, if_neg hvoid, if_neg hup,
      h.entry?_eq_link hlink]
    exact ih
  | case7 links place step steps hdirectory hvoid hup entry hlink hentry ih =>
    obtain ⟨found, hfound, hnolink⟩ := h.exists_entry? hentry hlink
    rw [FileTree.follow, ← h.isDirectoryAt, if_neg hdirectory, if_neg hvoid, if_neg hup, hfound, ih]
    cases found with
    | link target => exact absurd rfl (hnolink target)
    | _ => rfl
  | case8 links place step steps hdirectory hvoid hup hnone hcreated =>
    rw [FileTree.follow, ← h.isDirectoryAt, if_neg hdirectory, if_neg hvoid, if_neg hup,
      h.entry?_eq_none hnone]
    exact (if_pos hcreated).symm
  | case9 links place step steps hdirectory hvoid hup hnone hcreated =>
    rw [FileTree.follow, ← h.isDirectoryAt, if_neg hdirectory, if_neg hvoid, if_neg hup,
      h.entry?_eq_none hnone]
    exact (if_neg hcreated).symm

theorem SameShape.locate (h : tree.SameShape other) (directory : Place) (path : Path)
    (created : Bool) :
    tree.locate directory path created = other.locate directory path created := by
  unfold FileTree.locate
  rw [h.follow]

/-! ## Reading and writing back -/

/-- Where a path leads without creating anything, it also leads when something may be created. -/
theorem follow_created {links : Nat} {steps : List String} {target : Place}
    (h : tree.follow false links place steps = .ok target) :
    tree.follow true links place steps = .ok target := by
  fun_induction tree.follow false links place steps with
  | case1 => rwa [follow]
  | case2 => cases h
  | case3 links place step steps hdirectory hvoid ih =>
    rw [follow, if_neg hdirectory, if_pos hvoid, ih h]
  | case4 links place step steps hdirectory hvoid hup ih =>
    rw [follow, if_neg hdirectory, if_neg hvoid, if_pos hup, ih h]
  | case5 => cases h
  | case6 place step steps hdirectory hvoid hup target hlink links ih =>
    rw [follow, if_neg hdirectory, if_neg hvoid, if_neg hup, hlink]
    exact ih h
  | case7 links place step steps hdirectory hvoid hup entry hlink hentry ih =>
    rw [follow, if_neg hdirectory, if_neg hvoid, if_neg hup, hentry, ih h]
    cases entry with
    | link target => exact absurd rfl (hlink target)
    | _ => rfl
  | case8 links place step steps hdirectory hvoid hup hnone hcreated => cases hcreated
  | case9 => cases h

theorem locate_created (h : tree.locate directory path false = .ok place) :
    tree.locate directory path true = .ok place := by
  unfold locate at *
  split at h
  · cases h
  · next hempty => rw [if_neg hempty, follow_created h]

theorem fromUTF8?_eq_some_iff {bytes : ByteArray} {text : String} :
    String.fromUTF8? bytes = some text ↔ bytes = text.toUTF8 := by
  unfold String.fromUTF8?
  constructor
  · intro h
    split at h
    · cases h
      rfl
    · cases h
  · rintro rfl
    exact dif_pos text.isValidUTF8

theorem find_eq_ok_iff : tree.find directory path = .ok entry ↔
    ∃ place, tree.locate directory path false = .ok place ∧ tree.entry? place = some entry := by
  unfold find
  cases tree.locate directory path false with
  | error cause => simp [bind, Except.bind]
  | ok place =>
    simp only [bind, Except.bind, Except.ok.injEq, exists_eq_left']
    cases tree.entry? place with
    | none => simp [throw, throwThe, MonadExceptOf.throw]
    | some found => simp [pure, Except.pure]

theorem readBytes_eq_ok_iff {bytes : ByteArray} : tree.readBytes directory path = .ok bytes ↔
    tree.find directory path = .ok (.file bytes) := by
  unfold readBytes
  cases tree.find directory path with
  | error cause => simp [bind, Except.bind]
  | ok found =>
    cases found <;> simp [bind, Except.bind, pure, Except.pure, throw, throwThe,
      MonadExceptOf.throw]

/-- A text is read from a path if and only if the path leads to a file that holds the text. -/
theorem readText_eq_ok_iff {text : String} : tree.readText directory path = .ok text ↔
    ∃ place, tree.locate directory path false = .ok place ∧
      tree.entry? place = some (.file text.toUTF8) := by
  rw [← find_eq_ok_iff, ← readBytes_eq_ok_iff]
  unfold readText
  cases tree.readBytes directory path with
  | error cause => simp
  | ok bytes =>
    rw [Except.ok.injEq, ← fromUTF8?_eq_some_iff]
    dsimp only
    cases String.fromUTF8? bytes <;> simp

/-- What was read can be written back to the same place. -/
theorem writeText_eq_put (hlocate : tree.locate directory path false = .ok place)
    {content : ByteArray} (hentry : tree.entry? place = some (.file content)) (text : String) :
    tree.writeText directory path text = .ok (tree.put place (.file text.toUTF8)) := by
  have hfile : tree.isDirectoryAt place = false := by
    rw [isDirectoryAt, hentry]
    rfl
  simp [writeText, locate_created hlocate, hfile, bind, Except.bind, pure, Except.pure]

/-- What a path leads to depends only on what the one place holds. -/
theorem SameShape.find (h : tree.SameShape other)
    (hentry : ∀ place, tree.locate directory path false = .ok place →
      tree.entry? place = other.entry? place) :
    tree.find directory path = other.find directory path := by
  unfold FileTree.find
  rw [← h.locate]
  cases hlocate : tree.locate directory path false with
  | error cause => rfl
  | ok place =>
    simp only [bind, Except.bind]
    rw [hentry place hlocate]

theorem SameShape.readBytes (h : tree.SameShape other)
    (hentry : ∀ place, tree.locate directory path false = .ok place →
      tree.entry? place = other.entry? place) :
    tree.readBytes directory path = other.readBytes directory path := by
  unfold FileTree.readBytes
  rw [h.find hentry]

theorem SameShape.readText (h : tree.SameShape other)
    (hentry : ∀ place, tree.locate directory path false = .ok place →
      tree.entry? place = other.entry? place) :
    tree.readText directory path = other.readText directory path := by
  unfold FileTree.readText
  rw [h.readBytes hentry]

end FileTree

end SpecWording
