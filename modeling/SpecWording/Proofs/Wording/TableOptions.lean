import Mathlib.Data.List.Forall2
import Mathlib.Data.List.Sort
import Mathlib.Logic.Relation
import SpecWording.Wording.Tables

/-!
# What the options say about words

Options are a map, and of all its keys four matter: two spellings for each of two tables. The word
tables are read from the value under the one spelling that is there, and giving both is an error. So
the tables stay the same, or unreadable, when a key takes its other spelling, when other keys come
and go, when the rule is enabled or graded in another way, and when the words to ignore are listed
in another order or more than once.
-/

namespace SpecWording.WordTables

open Toml (Value)

/-! ## Words -/

/-- A value that is read as a word: a string, or a date by its text. -/
inductive Spells : Value → String → Prop where
  | string (text : String) : Spells (.string text) text
  | date (text : String) : Spells (.datetime text) text

variable {value : Value} {given : Option Value} {word : String} {words : List String}
  {forms : List (String × String)} {options others : List (String × Value)}
  {keys : String × String} {tables : WordTables} {settings other : RuleSettings}

theorem word?_eq_some_iff : word? value = some word ↔ Spells value word := by
  constructor
  · intro h
    cases value <;> cases h
    · exact .string word
    · exact .date word
  · rintro (_ | _) <;> rfl

/-- Reading a list succeeds if every single reading does. -/
theorem mapM_eq_some_iff {α β : Type} {read : α → Option β} {items : List α} {values : List β} :
    items.mapM read = some values ↔ items.map read = values.map some := by
  induction items generalizing values with
  | nil => cases values <;> simp
  | cons item items ih =>
    rw [List.mapM_cons, List.map_cons]
    cases hitem : read item with
    | none => cases values <;> simp
    | some first => cases values <;> simp [← ih, Option.bind_eq_some_iff, and_comm]

theorem exists_mapM_eq_some {α β : Type} {read : α → Option β} {items : List α}
    (h : ∀ item ∈ items, ∃ value, read item = some value) :
    ∃ values, items.mapM read = some values := by
  induction items with
  | nil => exact ⟨[], rfl⟩
  | cons item items ih =>
    obtain ⟨⟨value, hvalue⟩, hitems⟩ := List.forall_mem_cons.mp h
    obtain ⟨values, hvalues⟩ := ih hitems
    refine ⟨value :: values, ?_⟩
    rw [List.mapM_cons, hvalue, hvalues]
    rfl

/-- Of words in order those without repetitions are in strict order. -/
theorem pairwise_lt_eraseDups (h : words.Pairwise (· ≤ ·)) : words.eraseDups.Pairwise (· < ·) := by
  -- what follows the first word loses its copies: shorter than the list, but no tail of it
  induction hlength : words.length using Nat.strong_induction_on generalizing words with
  | _ length ih =>
    subst hlength
    cases words with
    | nil => simp
    | cons word words =>
      obtain ⟨hword, hwords⟩ := List.pairwise_cons.mp h
      rw [List.eraseDups_cons, List.pairwise_cons]
      refine ⟨?_, ih _ (Nat.lt_succ_of_le (List.length_filter_le _ _)) (hwords.filter _) rfl⟩
      intro later hlater
      obtain ⟨hmem, hne⟩ := List.mem_filter.mp (List.mem_eraseDups.mp hlater)
      rw [← String.not_le]
      intro hle
      simp [String.le_antisymm hle (hword later hmem)] at hne

theorem pairwise_lt_sortedWords (words : List String) : (sortedWords words).Pairwise (· < ·) := by
  have hsorted : (words.mergeSort fun a b ↦ decide (a ≤ b)).Pairwise
      fun a b ↦ decide (a ≤ b) = true :=
    List.pairwise_mergeSort (by simpa using fun _ _ _ ↦ String.le_trans)
      (by simpa using String.le_total) words
  exact pairwise_lt_eraseDups (hsorted.imp of_decide_eq_true)

theorem mem_sortedWords : word ∈ sortedWords words ↔ word ∈ words := by
  rw [sortedWords, List.mem_eraseDups, List.mem_mergeSort]

/-- A list in strict order is determined by what belongs to it. -/
theorem eq_of_pairwise_lt {first second : List String} (hfirst : first.Pairwise (· < ·))
    (hsecond : second.Pairwise (· < ·)) (h : ∀ word, word ∈ first ↔ word ∈ second) :
    first = second := by
  have : Std.Antisymm fun a b : String ↦ a < b :=
    ⟨fun a b hab hba ↦ absurd (String.lt_trans hab hba) (String.lt_irrefl a)⟩
  have : Std.Irrefl fun a b : String ↦ a < b := ⟨String.lt_irrefl⟩
  exact hfirst.eq_of_mem_iff hsecond h

/-! ## Tables -/

/-- The forms of words that a table gives, entry by entry; without a table there are none. -/
inductive GivesForms : Option Value → List (String × String) → Prop where
  | missing : GivesForms none []
  | table {entries : List (String × Value)} {forms : List (String × String)}
      (h : entries.Forall₂ (fun entry form ↦ entry.1 = form.1 ∧ Spells entry.2 form.2) forms) :
      GivesForms (some (.table entries)) forms

/-- The words that an array gives, in order and once each; without an array there are none. -/
inductive GivesWords : Option Value → List String → Prop where
  | missing : GivesWords none []
  | array {items : List Value} {words : List String}
      (hitems : ∀ item ∈ items, ∃ word, Spells item word)
      (hwords : ∀ word, word ∈ words ↔ ∃ item ∈ items, Spells item word)
      (hsorted : words.Pairwise (· < ·)) : GivesWords (some (.array items)) words

theorem readOr_transforms?_eq_some_iff :
    readOr transforms? given = some forms ↔ GivesForms given forms := by
  have htable (entries : List (String × Value)) : transforms? (.table entries) = some forms ↔
      entries.Forall₂ (fun entry form ↦ entry.1 = form.1 ∧ Spells entry.2 form.2) forms := by
    rw [transforms?, mapM_eq_some_iff, ← List.forall₂_eq_eq_eq, List.forall₂_map_left_iff,
      List.forall₂_map_right_iff]
    simp [Prod.ext_iff, Option.bind_eq_some_iff, word?_eq_some_iff, and_comm]
  constructor
  · intro h
    cases given with
    | none =>
      cases h
      exact .missing
    | some value =>
      cases value with
      | table entries => exact .table ((htable entries).mp h)
      | _ => cases h
  · intro h
    cases h with
    | missing => rfl
    | table hentries => exact (htable _).mpr hentries

theorem mem_iff_of_mapM_word? {items : List Value} (h : items.mapM word? = some words) :
    word ∈ words ↔ ∃ item ∈ items, Spells item word := by
  rw [mapM_eq_some_iff] at h
  simp only [← word?_eq_some_iff, ← List.mem_map, h]
  simp

theorem readOr_ignored?_eq_some_iff :
    readOr ignored? given = some words ↔ GivesWords given words := by
  constructor
  · intro h
    cases given with
    | none =>
      cases h
      exact .missing
    | some value =>
      cases value with
      | array items =>
        obtain ⟨found, hfound, rfl⟩ := Option.map_eq_some_iff.mp h
        refine .array ?_ (fun word ↦ mem_sortedWords.trans (mem_iff_of_mapM_word? hfound))
          (pairwise_lt_sortedWords found)
        intro item hitem
        have hword : word? item ∈ found.map some :=
          mapM_eq_some_iff.mp hfound ▸ List.mem_map_of_mem hitem
        obtain ⟨word, -, hword⟩ := List.mem_map.mp hword
        exact ⟨word, word?_eq_some_iff.mp hword.symm⟩
      | _ => cases h
  · intro h
    cases h with
    | missing => rfl
    | @array items _ hitems hwords hsorted =>
      simp only [← word?_eq_some_iff] at hitems
      obtain ⟨found, hfound⟩ := exists_mapM_eq_some hitems
      have hsame : sortedWords found = words := by
        refine eq_of_pairwise_lt (pairwise_lt_sortedWords found) hsorted fun word ↦ ?_
        rw [mem_sortedWords, mem_iff_of_mapM_word? hfound, hwords]
      exact Option.map_eq_some_iff.mpr ⟨found, hfound, hsame⟩

/-- Which words an array gives does not depend on the order and the number of its items. -/
theorem GivesWords.of_mem_iff {items rearranged : List Value}
    (h : GivesWords (some (.array items)) words)
    (hsame : ∀ item, item ∈ items ↔ item ∈ rearranged) :
    GivesWords (some (.array rearranged)) words := by
  cases h with
  | array hitems hwords hsorted =>
    simp only [hsame] at hitems hwords
    exact .array hitems hwords hsorted

/-! ## Spellings -/

/-- Whether options name a value, or none, under one of two keys, and nothing under the other. -/
def Names (options : List (String × Value)) (keys : String × String) (given : Option Value) :
    Prop :=
  options.lookup keys.1 = given ∧ options.lookup keys.2 = none ∨
    options.lookup keys.1 = none ∧ options.lookup keys.2 = given

theorem spelled?_eq_some_iff : spelled? options keys = some given ↔ Names options keys given := by
  unfold spelled? Names
  cases options.lookup keys.1 <;> cases options.lookup keys.2 <;> simp [eq_comm]

theorem spelled?_eq_none_iff : spelled? options keys = none ↔
    (options.lookup keys.1).isSome ∧ (options.lookup keys.2).isSome := by
  unfold spelled?
  cases options.lookup keys.1 <;> cases options.lookup keys.2 <;> simp

/-- The word tables that options hold, each under one spelling of its key or left out. -/
structure ReadAs (options : List (String × Value)) (tables : WordTables) : Prop where
  transforms : ∃ given, Names options transformKeys given ∧ GivesForms given tables.transforms
  ignored : ∃ given, Names options ignoredKeys given ∧ GivesWords given tables.ignored

theorem ofOptions?_eq_some_iff : ofOptions? options = some tables ↔ ReadAs options tables := by
  constructor
  · intro h
    obtain ⟨forms, hforms, h⟩ := Option.bind_eq_some_iff.mp h
    obtain ⟨words, hwords, h⟩ := Option.bind_eq_some_iff.mp h
    cases h
    obtain ⟨formsGiven, hnamed, hforms⟩ := Option.bind_eq_some_iff.mp hforms
    obtain ⟨wordsGiven, hnamed', hwords⟩ := Option.bind_eq_some_iff.mp hwords
    exact ⟨⟨formsGiven, spelled?_eq_some_iff.mp hnamed, readOr_transforms?_eq_some_iff.mp hforms⟩,
      ⟨wordsGiven, spelled?_eq_some_iff.mp hnamed', readOr_ignored?_eq_some_iff.mp hwords⟩⟩
  · rintro ⟨⟨formsGiven, hnamed, hforms⟩, ⟨wordsGiven, hnamed', hwords⟩⟩
    rw [ofOptions?, spelled?_eq_some_iff.mpr hnamed, spelled?_eq_some_iff.mpr hnamed']
    exact Option.bind_eq_some_iff.mpr ⟨_, readOr_transforms?_eq_some_iff.mpr hforms,
      Option.bind_eq_some_iff.mpr ⟨_, readOr_ignored?_eq_some_iff.mpr hwords, rfl⟩⟩

/-! ## Changes that leave the tables alone -/

/-- The keys that word tables go by. -/
def tableKeys : List String := [transformKeys.1, transformKeys.2, ignoredKeys.1, ignoredKeys.2]

/-- The two spellings of each table, in either order. -/
def spellings : List (String × String) :=
  [transformKeys, transformKeys.swap, ignoredKeys, ignoredKeys.swap]

/-- Whether a map is another one after an old key of it was given a new name. -/
structure Renamed (old new : String) (options others : List (String × Value)) : Prop where
  absent : options.lookup new = none
  gone : others.lookup old = none
  moved : others.lookup new = options.lookup old
  kept : ∀ key, key ≠ old → key ≠ new → others.lookup key = options.lookup key

/-- Whether a map is another one after the items of one array were put into another order, repeated
or freed of repetitions. -/
structure Rearranged (key : String) (options others : List (String × Value)) : Prop where
  items : ∃ items rearranged, options.lookup key = some (.array items) ∧
    others.lookup key = some (.array rearranged) ∧ ∀ item, item ∈ items ↔ item ∈ rearranged
  kept : ∀ other, other ≠ key → others.lookup other = options.lookup other

/-- One change to a rule's settings that does not concern what its tables say. Options are what
their keys name; the order in which they are listed says nothing. -/
inductive Rephrased (settings : RuleSettings) : RuleSettings → Prop where
  /-- A key takes its other spelling, under which there was nothing. -/
  | respelled {old new : String} {options : List (String × Value)}
      (hkeys : (old, new) ∈ spellings) (h : Renamed old new settings.options options) :
      Rephrased settings { settings with options := options }
  /-- Keys of no table come, go or take other values. -/
  | foreign {options : List (String × Value)}
      (h : ∀ key ∈ tableKeys, options.lookup key = settings.options.lookup key) :
      Rephrased settings { settings with options := options }
  | regraded (enabled : Option Bool) (severity : Option Severity) :
      Rephrased settings { settings with enabled := enabled, severity := severity }
  | rearranged {key : String} {options : List (String × Value)}
      (hkey : key = ignoredKeys.1 ∨ key = ignoredKeys.2)
      (h : Rearranged key settings.options options) :
      Rephrased settings { settings with options := options }

theorem spelled?_congr (hfirst : others.lookup keys.1 = options.lookup keys.1)
    (hsecond : others.lookup keys.2 = options.lookup keys.2) :
    spelled? others keys = spelled? options keys := by
  rw [spelled?, spelled?, hfirst, hsecond]

theorem spelled?_swap (options : List (String × Value)) (keys : String × String) :
    spelled? options keys.swap = spelled? options keys := by
  unfold spelled?
  dsimp only [Prod.fst_swap, Prod.snd_swap]
  cases options.lookup keys.1 <;> cases options.lookup keys.2 <;> rfl

theorem ofOptions?_congr (hforms : spelled? others transformKeys = spelled? options transformKeys)
    (hwords : spelled? others ignoredKeys >>= readOr ignored? =
      spelled? options ignoredKeys >>= readOr ignored?) :
    ofOptions? others = ofOptions? options := by
  rw [ofOptions?, ofOptions?, hforms, hwords]

theorem Renamed.spelled?_eq {old new : String} (h : Renamed old new options others) :
    spelled? others (old, new) = spelled? options (old, new) := by
  unfold spelled?
  dsimp only
  rw [h.absent, h.gone, h.moved]
  cases options.lookup old <;> rfl

theorem Renamed.spelled?_eq_of_ne {old new : String} (h : Renamed old new options others)
    (hfirst : keys.1 ≠ old ∧ keys.1 ≠ new) (hsecond : keys.2 ≠ old ∧ keys.2 ≠ new) :
    spelled? others keys = spelled? options keys :=
  spelled?_congr (h.kept _ hfirst.1 hfirst.2) (h.kept _ hsecond.1 hsecond.2)

/-- The other spelling of a key leads to the same value, and the other table is not concerned. -/
theorem Renamed.spelled?_tables {old new : String} (h : Renamed old new options others)
    (hkeys : (old, new) ∈ spellings) :
    spelled? others transformKeys = spelled? options transformKeys ∧
      spelled? others ignoredKeys = spelled? options ignoredKeys := by
  simp only [spellings, List.mem_cons, List.not_mem_nil, or_false] at hkeys
  rcases hkeys with heq | heq | heq | heq <;> obtain ⟨rfl, rfl⟩ := Prod.mk.inj heq
  · exact ⟨h.spelled?_eq, h.spelled?_eq_of_ne (by decide) (by decide)⟩
  · rw [← spelled?_swap others transformKeys, ← spelled?_swap options transformKeys]
    exact ⟨h.spelled?_eq, h.spelled?_eq_of_ne (by decide) (by decide)⟩
  · exact ⟨h.spelled?_eq_of_ne (by decide) (by decide), h.spelled?_eq⟩
  · rw [← spelled?_swap others ignoredKeys, ← spelled?_swap options ignoredKeys]
    exact ⟨h.spelled?_eq_of_ne (by decide) (by decide), h.spelled?_eq⟩

/-- The words to ignore are the same when their array is rearranged, under whichever spelling. -/
theorem Rearranged.ignored_eq (h : Rearranged keys.1 options others) (hne : keys.2 ≠ keys.1) :
    spelled? others keys >>= readOr ignored? = spelled? options keys >>= readOr ignored? := by
  obtain ⟨items, rearranged, hitems, hrearranged, hsame⟩ := h.items
  have hread : readOr ignored? (some (.array rearranged)) =
      readOr ignored? (some (.array items)) := by
    ext words
    rw [readOr_ignored?_eq_some_iff, readOr_ignored?_eq_some_iff]
    exact ⟨fun hwords ↦ hwords.of_mem_iff fun item ↦ (hsame item).symm,
      fun hwords ↦ hwords.of_mem_iff hsame⟩
  unfold spelled?
  rw [hitems, hrearranged, h.kept keys.2 hne]
  cases options.lookup keys.2 with
  | none => exact hread
  | some value => rfl

theorem Rephrased.ofOptions?_eq (h : Rephrased settings other) :
    ofOptions? other.options = ofOptions? settings.options := by
  cases h with
  | respelled hkeys h =>
    obtain ⟨hforms, hwords⟩ := h.spelled?_tables hkeys
    exact ofOptions?_congr hforms (by rw [hwords])
  | @foreign options h =>
    have hforms : spelled? options transformKeys = spelled? settings.options transformKeys :=
      spelled?_congr (h _ (by decide)) (h _ (by decide))
    have hwords : spelled? options ignoredKeys = spelled? settings.options ignoredKeys :=
      spelled?_congr (h _ (by decide)) (h _ (by decide))
    exact ofOptions?_congr hforms (by rw [hwords])
  | regraded enabled severity => rfl
  | @rearranged key options hkey h =>
    have hforms : spelled? options transformKeys = spelled? settings.options transformKeys := by
      rcases hkey with rfl | rfl
      · exact spelled?_congr (h.kept _ (by decide)) (h.kept _ (by decide))
      · exact spelled?_congr (h.kept _ (by decide)) (h.kept _ (by decide))
    refine ofOptions?_congr hforms ?_
    rcases hkey with rfl | rfl
    · exact h.ignored_eq (by decide)
    · replace h : Rearranged ignoredKeys.swap.1 settings.options options := h
      rw [← spelled?_swap options ignoredKeys, ← spelled?_swap settings.options ignoredKeys]
      exact h.ignored_eq (by decide)

/-- A table under both its spellings makes all options unreadable. -/
theorem ofOptions?_eq_none (hkeys : keys ∈ [transformKeys, ignoredKeys])
    (hfirst : (options.lookup keys.1).isSome) (hsecond : (options.lookup keys.2).isSome) :
    ofOptions? options = none := by
  have hnone := spelled?_eq_none_iff.mpr ⟨hfirst, hsecond⟩
  simp only [List.mem_cons, List.not_mem_nil, or_false] at hkeys
  rcases hkeys with rfl | rfl
  · rw [ofOptions?, hnone]
    rfl
  · rw [ofOptions?, hnone]
    cases spelled? options transformKeys >>= readOr transforms? <;> rfl

/-- Settings that differ only by changes that do not concern the word tables give the same tables,
or none of them gives any. The tables are what the options name under the one spelling of each key
that is there; options with both spellings of a key give none. -/
theorem ofOptions?_of_rephrased (settings : RuleSettings) :
    (∀ other, Relation.EqvGen Rephrased settings other →
      ofOptions? other.options = ofOptions? settings.options) ∧
    (∀ tables, ofOptions? settings.options = some tables ↔ ReadAs settings.options tables) ∧
    ∀ keys ∈ [transformKeys, ignoredKeys], (settings.options.lookup keys.1).isSome →
      (settings.options.lookup keys.2).isSome → ofOptions? settings.options = none := by
  refine ⟨?_, fun tables ↦ ofOptions?_eq_some_iff, fun keys ↦ ofOptions?_eq_none⟩
  intro other hchain
  induction hchain with
  | rel _ _ h => exact h.ofOptions?_eq
  | refl => rfl
  | symm _ _ _ ih => exact ih.symm
  | trans _ _ _ _ _ ih ih' => exact ih'.trans ih

/-- Settings with the form of one word and an array of words to ignore under the given keys. -/
def settingsNaming (formsKey wordsKey : String) (items : List Value) : RuleSettings where
  options := [(formsKey, .table [("have", .string "own")]), (wordsKey, .array items)]

def ignoredOnce : List Value := [.string "only", .string "really"]

def ignoredTwice : List Value := [.string "really", .string "only", .string "really"]

def rephrasedSettings : RuleSettings where
  enabled := some false
  severity := some .error
  options := [("Words", .integer 3), ("ignored_words", .array ignoredTwice),
    ("custom_transform", .table [("have", .string "own")])]

theorem ofOptions?_of_rephrased_throughout :
    Relation.EqvGen Rephrased
      (settingsNaming "CustomTransform" "IgnoredWords" ignoredOnce) rephrasedSettings ∧
    ofOptions? rephrasedSettings.options = some ⟨[("have", "own")], ["only", "really"]⟩ ∧
    ofOptions? [("IgnoredWords", .array []), ("ignored_words", .array [])] = none := by
  have hforms : Rephrased (settingsNaming "CustomTransform" "IgnoredWords" ignoredOnce)
      (settingsNaming "custom_transform" "IgnoredWords" ignoredOnce) := by
    refine .respelled (.head _) ⟨rfl, rfl, rfl, ?_⟩
    intro key hold hnew
    simp [settingsNaming, List.lookup_cons, beq_false_of_ne hold, beq_false_of_ne hnew]
  have hwords : Rephrased (settingsNaming "custom_transform" "IgnoredWords" ignoredOnce)
      (settingsNaming "custom_transform" "ignored_words" ignoredOnce) := by
    refine .respelled (.tail _ (.tail _ (.head _))) ⟨rfl, rfl, rfl, ?_⟩
    intro key hold hnew
    simp [settingsNaming, List.lookup_cons, beq_false_of_ne hold, beq_false_of_ne hnew]
  have hitems : Rephrased (settingsNaming "custom_transform" "ignored_words" ignoredOnce)
      (settingsNaming "custom_transform" "ignored_words" ignoredTwice) := by
    refine .rearranged (.inr rfl) ⟨⟨_, _, rfl, rfl, ?_⟩, ?_⟩
    · simp [ignoredOnce, ignoredTwice, or_comm]
    · intro key hkey
      replace hkey : key ≠ "ignored_words" := hkey
      simp [settingsNaming, List.lookup_cons, beq_false_of_ne hkey]
  have hforeign : Rephrased (settingsNaming "custom_transform" "ignored_words" ignoredTwice)
      { options := rephrasedSettings.options } := by
    refine .foreign fun key hkey ↦ ?_
    simp only [tableKeys, List.mem_cons, List.not_mem_nil, or_false] at hkey
    rcases hkey with rfl | rfl | rfl | rfl <;> rfl
  have hchain : Relation.EqvGen Rephrased
      (settingsNaming "CustomTransform" "IgnoredWords" ignoredOnce) rephrasedSettings :=
    .trans _ _ _ (.rel _ _ hforms) <| .trans _ _ _ (.rel _ _ hwords) <|
      .trans _ _ _ (.rel _ _ hitems) <| .trans _ _ _ (.rel _ _ hforeign) <|
      .rel _ _ (.regraded (some false) (some .error))
  obtain ⟨hsame, hread, -⟩ := ofOptions?_of_rephrased
    (settingsNaming "CustomTransform" "IgnoredWords" ignoredOnce)
  obtain ⟨-, -, hboth⟩ := ofOptions?_of_rephrased
    { options := [("IgnoredWords", .array []), ("ignored_words", .array [])] }
  refine ⟨hchain, (hsame _ hchain).trans ((hread _).mpr ⟨?_, ?_⟩),
    hboth ignoredKeys (by simp) rfl rfl⟩
  · exact ⟨_, .inl ⟨rfl, rfl⟩, .table (.cons ⟨rfl, .string _⟩ .nil)⟩
  · refine ⟨_, .inl ⟨rfl, rfl⟩, .array ?_ ?_ (by decide)⟩
    · simpa [ignoredOnce] using ⟨⟨_, .string _⟩, ⟨_, .string _⟩⟩
    · intro word
      simp [ignoredOnce, ← word?_eq_some_iff, word?, eq_comm]

end SpecWording.WordTables
