/-!
# Fields and words of a text

`fields` cuts a text at every separator and keeps empty fields, so there is always one field more
than separators and `joinFields` undoes the cut. Words are the longest stretches without a blank,
where the blanks are the five of ASCII: space, tab, line feed, form feed and carriage return.
-/

namespace SpecWording.Text

/-- The stretches of a text between separators, empty ones included. -/
def fields (separator : Char) : List Char → List (List Char)
  | [] => [[]]
  | c :: cs =>
    if c = separator then [] :: fields separator cs
    else match fields separator cs with
      | [] => [[c]]
      | field :: others => (c :: field) :: others

def joinFields (separator : List Char) : List (List Char) → List Char
  | [] => []
  | [field] => field
  | field :: other :: others => field ++ separator ++ joinFields separator (other :: others)

theorem fields_ne_nil (separator : Char) (cs : List Char) : fields separator cs ≠ [] := by
  cases cs with
  | nil => simp [fields]
  | cons c cs =>
    simp only [fields]
    split
    · simp
    · split <;> simp

/-- Joining the fields with their separator gives the text back. -/
theorem joinFields_fields (separator : Char) (cs : List Char) :
    joinFields [separator] (fields separator cs) = cs := by
  induction cs with
  | nil => rfl
  | cons c cs ih =>
    obtain ⟨field, others, h⟩ := List.exists_cons_of_ne_nil (fields_ne_nil separator cs)
    simp only [fields, h] at ih ⊢
    split
    · next hc => simp [joinFields, ih, hc]
    · cases others <;> simp_all [joinFields]

theorem joinFields_eq_intercalate (separator : List Char) (segments : List (List Char)) :
    joinFields separator segments = separator.intercalate segments := by
  induction segments with
  | nil => rfl
  | cons segment others ih =>
    cases others with
    | nil => simp [joinFields]
    | cons next others =>
      rw [joinFields, ih, List.intercalate_cons_cons, List.append_assoc]

/-! ## Words -/

def isBlank (c : Char) : Bool :=
  c == ' ' || c == '\t' || c == '\n' || c == '\x0c' || c == '\r'

def words : List Char → List (List Char)
  | [] => []
  | c :: cs =>
    if isBlank c then words cs
    else match cs with
      | [] => [[c]]
      | next :: _ =>
        if isBlank next then [c] :: words cs
        else match words cs with
          | [] => [[c]]
          | word :: others => (c :: word) :: others

/-- Writes words with one space between them. -/
def unwords (words : List (List Char)) : List Char := joinFields [' '] words

end SpecWording.Text
