import Mathlib.Data.List.Induction
import SpecWording.Proofs.Text.Words

/-!
# Bodies of quoted literals

A literal ends at the first quote that no backslash consumes. Reading its body from the left leaves
the reader in one of three places, and the body is well delimited if all of it has been read and the
next quote would end the literal. Blanks never close a literal, so a body can be read word by word;
whether its end waits for another character shows in the backslashes that end its last word.
-/

namespace SpecWording.Text

/-- Where the reader of a literal stands. -/
inductive Reading where
  | unescaped
  /-- The last character was a backslash that consumes the next one. -/
  | escaped
  | closed
  deriving DecidableEq, Repr

namespace Reading

def next (quote : Char) : Reading → Char → Reading
  | unescaped, c => if c = '\\' then escaped else if c = quote then closed else unescaped
  | escaped, _ => unescaped
  | closed, _ => closed

/-- Where a reader stands after the beginning of a body. -/
def after (quote : Char) (body : List Char) : Reading := body.foldl (next quote) unescaped

end Reading

/-- Whether a quote after the body ends the literal and no quote in the body does. -/
def WellDelimited (quote : Char) (body : List Char) : Prop :=
  Reading.after quote body = .unescaped

instance (quote : Char) (body : List Char) : Decidable (WellDelimited quote body) :=
  inferInstanceAs (Decidable (_ = _))

/-- Whether no quote in the body ends the literal. -/
def StaysOpen (quote : Char) (body : List Char) : Prop := Reading.after quote body ≠ .closed

/-- Whether a text ends in a backslash that consumes what follows: their number is odd. -/
def endsEscaped (text : List Char) : Bool :=
  (text.reverse.takeWhile (· == '\\')).length % 2 == 1

variable {quote c : Char} {front back body word : List Char}

theorem WellDelimited.staysOpen (h : WellDelimited quote body) : StaysOpen quote body := by
  rw [WellDelimited] at h
  rw [StaysOpen, h]
  decide

namespace Reading

theorem after_append (front back : List Char) :
    after quote (front ++ back) = back.foldl (next quote) (after quote front) :=
  List.foldl_append

theorem after_concat (front : List Char) (c : Char) :
    after quote (front ++ [c]) = next quote (after quote front) c :=
  after_append front [c]

theorem foldl_closed (body : List Char) : body.foldl (next quote) closed = closed := by
  induction body with
  | nil => rfl
  | cons c body ih => exact ih

/-- A character that neither escapes nor closes sets an open literal back to its normal state. -/
theorem next_eq_unescaped {reading : Reading} (hopen : reading ≠ closed) (hescape : c ≠ '\\')
    (hquote : c ≠ quote) : next quote reading c = unescaped := by
  cases reading with
  | unescaped => rw [next, if_neg hescape, if_neg hquote]
  | escaped => rfl
  | closed => exact absurd rfl hopen

end Reading

theorem staysOpen_nil (quote : Char) : StaysOpen quote [] := by simp [StaysOpen, Reading.after]

theorem StaysOpen.of_append (h : StaysOpen quote (front ++ back)) : StaysOpen quote front := by
  intro hclosed
  rw [StaysOpen, Reading.after_append, hclosed, Reading.foldl_closed] at h
  exact h rfl

/-- After a character that neither escapes nor closes, reading starts anew. -/
theorem after_append_cons (hopen : StaysOpen quote front) (hescape : c ≠ '\\') (hquote : c ≠ quote)
    (back : List Char) :
    Reading.after quote (front ++ c :: back) = Reading.after quote back := by
  rw [Reading.after_append, List.foldl_cons, Reading.next_eq_unescaped hopen hescape hquote,
    Reading.after]

theorem wellDelimited_of_forall (h : ∀ c ∈ body, c ≠ quote ∧ c ≠ '\\') :
    WellDelimited quote body := by
  induction body with
  | nil => rfl
  | cons c body ih =>
    obtain ⟨⟨hquote, hescape⟩, hbody⟩ := List.forall_mem_cons.mp h
    have hafter := after_append_cons (staysOpen_nil quote) hescape hquote body
    rw [List.nil_append] at hafter
    rw [WellDelimited, hafter]
    exact ih hbody

/-! ## Backslashes at the end -/

theorem endsEscaped_concat (text : List Char) (c : Char) :
    endsEscaped (text ++ [c]) = (c == '\\' && !endsEscaped text) := by
  unfold endsEscaped
  rw [List.reverse_concat, List.takeWhile_cons]
  cases c == '\\' with
  | false => rfl
  | true =>
    rw [if_pos rfl, List.length_cons, Bool.true_and]
    rcases Nat.mod_two_eq_zero_or_one (text.reverse.takeWhile (· == '\\')).length with h | h
    · simp [Nat.add_mod, h]
    · simp [Nat.add_mod, h]

/-- In an open literal, whether the next character is consumed shows in the last backslashes. -/
theorem after_eq_of_staysOpen (h : StaysOpen quote body) :
    Reading.after quote body = if endsEscaped body then .escaped else .unescaped := by
  induction body using List.reverseRecOn with
  | nil => rfl
  | append_singleton body c ih =>
    have hbody := ih h.of_append
    rw [StaysOpen, Reading.after_concat, hbody] at h
    rw [Reading.after_concat, hbody, endsEscaped_concat]
    generalize endsEscaped body = ends at h ⊢
    cases ends with
    | true => simp [Reading.next]
    | false =>
      by_cases hescape : c = '\\'
      · simp [Reading.next, hescape]
      · have hquote : c ≠ quote := fun heq ↦ h (by simp [Reading.next, heq, heq ▸ hescape])
        simp [Reading.next, hescape, hquote]

theorem wellDelimited_iff (h : StaysOpen quote body) :
    WellDelimited quote body ↔ endsEscaped body = false := by
  rw [WellDelimited, after_eq_of_staysOpen h]
  cases endsEscaped body <;> simp

/-! ## Word by word -/

/-- A quote for which blanks are nothing special. -/
abbrev IsQuote (quote : Char) : Prop := quote = '\'' ∨ quote = '"'

theorem IsQuote.ne_of_isBlank (hquote : IsQuote quote) (h : isBlank c = true) : c ≠ quote := by
  rintro rfl
  rcases hquote with rfl | rfl <;> exact absurd h (by decide)

theorem ne_backslash_of_isBlank (h : isBlank c = true) : c ≠ '\\' := by
  rintro rfl
  exact absurd h (by decide)

/-- No word of an open literal closes it when it is read alone. -/
theorem staysOpen_of_mem_words (hquote : IsQuote quote) (hbody : StaysOpen quote body)
    (h : word ∈ words body) : StaysOpen quote word := by
  induction body using induction_on_blanks with
  | solid front hfront =>
    obtain ⟨-, rfl⟩ := eq_of_mem_words_solid hfront h
    exact hbody
  | cut front c back hfront hc ih =>
    have hopen : StaysOpen quote front := hbody.of_append
    rw [words_append_cons hc, List.mem_append] at h
    rcases h with h | h
    · obtain ⟨-, rfl⟩ := eq_of_mem_words_solid hfront h
      exact hopen
    · rw [StaysOpen, after_append_cons hopen (ne_backslash_of_isBlank hc)
        (hquote.ne_of_isBlank hc)] at hbody
      exact ih hbody h

/-- Texts that stay open are joined to one that does, and where it ends only the last one tells. -/
theorem after_unwords (hquote : IsQuote quote) {texts : List (List Char)}
    (h : ∀ text ∈ texts, StaysOpen quote text) : Reading.after quote (unwords texts) =
      (texts.getLast?.map (Reading.after quote)).getD .unescaped := by
  induction texts with
  | nil => rfl
  | cons text texts ih =>
    obtain ⟨htext, htexts⟩ := List.forall_mem_cons.mp h
    cases texts with
    | nil => rfl
    | cons other texts =>
      have hrest := ih htexts
      rw [List.getLast?_cons_cons, ← hrest, unwords_cons_cons]
      exact after_append_cons htext (by decide) (hquote.ne_of_isBlank rfl) _

theorem wellDelimited_unwords_iff (hquote : IsQuote quote) {texts : List (List Char)}
    (h : ∀ text ∈ texts, StaysOpen quote text) :
    WellDelimited quote (unwords texts) ↔ texts.getLast?.any endsEscaped = false := by
  rw [WellDelimited, after_unwords hquote h]
  cases hlast : texts.getLast? with
  | none => simp
  | some last =>
    have hopen := h last (List.mem_of_getLast? hlast)
    simpa [WellDelimited] using wellDelimited_iff hopen

end SpecWording.Text
