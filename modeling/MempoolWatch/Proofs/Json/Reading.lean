import MempoolWatch.Proofs.Json.Tokens
import Mathlib.Data.List.DropRight

/-! The reader takes every spelling of a source for this source. A value is read up to the blanks
behind it, items and members up to and with their closing bracket, as long as there is fuel for
two steps to a character. -/
namespace MempoolWatch.Json

/-! ## Blanks -/

section Blanks

variable {before text : List Char}

theorem skipBlanks_append (blank : before.all isBlank = true) (text : List Char) :
    skipBlanks (before ++ text) = skipBlanks text :=
  List.dropWhile_append_of_pos (List.all_eq_true.mp blank)

theorem skipBlanks_cons {c : Char} (shown : isBlank c = false) (rest : List Char) :
    skipBlanks (c :: rest) = c :: rest := by
  simp [skipBlanks, shown]

theorem skipBlanks_append_cons (blank : before.all isBlank = true) {c : Char}
    (shown : isBlank c = false) (rest : List Char) : skipBlanks (before ++ c :: rest) = c :: rest := by
  rw [skipBlanks_append blank, skipBlanks_cons shown]

theorem skipBlanks_skipBlanks (text : List Char) : skipBlanks (skipBlanks text) = skipBlanks text :=
  List.dropWhile_idempotent isBlank text

/-- Blanks before a value are skipped anyway. -/
theorem value?_skipBlanks (fuel : Nat) (text : List Char) :
    value? fuel (skipBlanks text) = value? fuel text := by
  cases fuel with
  | zero => rfl
  | succ fuel => rw [value?, value?, skipBlanks_skipBlanks]

theorem items?_skipBlanks (fuel : Nat) (text : List Char) :
    items? fuel (skipBlanks text) = items? fuel text := by
  cases fuel with
  | zero => rfl
  | succ fuel => rw [items?, items?, value?_skipBlanks]

theorem members?_skipBlanks (fuel : Nat) (text : List Char) :
    members? fuel (skipBlanks text) = members? fuel text := by
  cases fuel with
  | zero => rfl
  | succ fuel => rw [members?, members?, skipBlanks_skipBlanks]

end Blanks

/-- A value ends before a comma, a closing bracket or the end of the text. -/
def EndsValue (rest : List Char) : Prop :=
  ∀ c ∈ rest.head?, c = ',' ∨ c = ']' ∨ c = '}'

namespace EndsValue

variable {rest : List Char}

theorem nil : EndsValue [] := nofun

theorem comma (rest : List Char) : EndsValue (',' :: rest) := by
  rintro _ ⟨rfl⟩
  exact Or.inl rfl

theorem bracket (rest : List Char) : EndsValue (']' :: rest) := by
  rintro _ ⟨rfl⟩
  exact Or.inr (Or.inl rfl)

theorem brace (rest : List Char) : EndsValue ('}' :: rest) := by
  rintro _ ⟨rfl⟩
  exact Or.inr (Or.inr rfl)

theorem skipBlanks_eq (ends : EndsValue rest) : skipBlanks rest = rest := by
  cases rest with
  | nil => rfl
  | cons c rest =>
    apply skipBlanks_cons
    obtain rfl | rfl | rfl := ends c rfl <;> rfl

theorem endsNumber {behind : List Char} (blank : behind.all isBlank = true)
    (ends : EndsValue rest) : EndsNumber (behind ++ rest) := by
  cases behind with
  | nil =>
    intro c first
    obtain rfl | rfl | rfl := ends c first <;> decide
  | cons c behind =>
    rintro _ ⟨rfl⟩
    have blank : isBlank c = true := List.all_eq_true.mp blank c List.mem_cons_self
    obtain rfl | rfl | rfl | rfl : c = ' ' ∨ c = '\n' ∨ c = '\t' ∨ c = '\r' :=
      of_decide_eq_true blank
    all_goals decide

end EndsValue

/-! ## Beginnings -/

/-- A value starts with a character that is neither blank nor a closing bracket. -/
theorem Spelling.exists_cons {source : Source} {spelling : List Char}
    (spelled : Spelling source spelling) :
    ∃ first others, spelling = first :: others ∧ isBlank first = Bool.false ∧ first ≠ ']' := by
  cases spelled with
  | number numeral =>
    obtain ⟨first, others, rfl, sign⟩ := numeral.exists_cons
    refine ⟨first, others, rfl, ?_, ?_⟩
    · apply eq_false_of_ne_true
      intro blank
      obtain rfl | rfl | rfl | rfl : first = ' ' ∨ first = '\n' ∨ first = '\t' ∨ first = '\r' :=
        of_decide_eq_true blank
      all_goals exact absurd sign (by decide)
    · rintro rfl
      exact absurd sign (by decide)
  | null | true | false | string | emptyArray | array | emptyObject | object =>
    exact ⟨_, _, rfl, by decide, by decide⟩

theorem SpacedSpelling.exists_cons {source : Source} {spelling : List Char}
    (spelled : SpacedSpelling source spelling) (rest : List Char) :
    ∃ first others, skipBlanks (spelling ++ rest) = first :: others ∧ first ≠ ']' := by
  cases spelled with
  | intro blank spelled =>
    obtain ⟨first, others, rfl, shown, opens⟩ := spelled.exists_cons
    rw [List.append_assoc, List.append_assoc, skipBlanks_append blank, List.cons_append,
      skipBlanks_cons shown]
    exact ⟨_, _, rfl, opens⟩

theorem ItemSpelling.exists_cons {items : List Source} {spelling : List Char}
    (spelled : ItemSpelling items spelling) (rest : List Char) :
    ∃ first others, skipBlanks (spelling ++ rest) = first :: others ∧ first ≠ ']' := by
  cases spelled with
  | last item => exact item.exists_cons rest
  | more item =>
    rw [List.append_assoc]
    exact item.exists_cons _

theorem MemberSpelling.exists_cons {members : List (Literal × Source)} {spelling : List Char}
    (spelled : MemberSpelling members spelling) (rest : List Char) :
    ∃ others, skipBlanks (spelling ++ rest) = '"' :: others := by
  cases spelled with
  | last blank | more blank =>
    simp only [List.append_assoc, List.cons_append]
    exact ⟨_, skipBlanks_append_cons blank rfl _⟩

/-! ## Readers -/

/-- The readers take spellings for what they spell, as long as the fuel is enough for these. Items
and members need a step more than a value of their length, which their brackets make up for. -/
structure ReadsSpellings (fuel : Nat) : Prop where
  value : ∀ {source spelling rest}, SpacedSpelling source spelling → EndsValue rest →
    2 * spelling.length ≤ fuel →
    ∃ left, value? fuel (spelling ++ rest) = some (source, left) ∧ skipBlanks left = rest
  items : ∀ {items spelling}, ItemSpelling items spelling → 2 * spelling.length < fuel →
    ∀ rest, items? fuel (spelling ++ ']' :: rest) = some (items, rest)
  members : ∀ {members spelling}, MemberSpelling members spelling → 2 * spelling.length < fuel →
    ∀ rest, members? fuel (spelling ++ '}' :: rest) = some (members, rest)

section Steps

variable {fuel : Nat} {source : Source} {spelling rest : List Char}

theorem value?_number {value : Numeral} (spelled : NumeralSpelling value spelling)
    (ends : EndsNumber rest) :
    value? (fuel + 1) (spelling ++ rest) = some (.number value, rest) := by
  have read := spelled.numeral?_append ends
  obtain ⟨first, others, rfl, sign⟩ := spelled.exists_cons
  have shown : isBlank first = false := by
    obtain ⟨_, _, ⟨⟩, shown, _⟩ := (Spelling.number spelled).exists_cons
    exact shown
  rw [value?, List.cons_append, skipBlanks_cons shown]
  split
  case h_7 =>
    rw [← List.cons_append, read]
    rfl
  -- No other value starts with a sign or a digit.
  all_goals
    next same =>
      obtain rfl := (List.cons.inj same).1
      exact absurd sign (by decide)

theorem value?_string {text : List Char} (spelled : TextSpelling text spelling) :
    value? (fuel + 1) ('"' :: (spelling ++ '"' :: rest)) =
      some (.string (some (String.ofList text)), rest) := by
  rw [value?, skipBlanks_cons rfl]
  show (literal? (spelling ++ '"' :: rest) >>= _) = _
  rw [spelled.literal?_append]
  rfl

theorem value?_array {items : List Source} (spelled : ItemSpelling items spelling)
    (read : items? fuel (spelling ++ ']' :: rest) = some (items, rest)) :
    value? (fuel + 1) ('[' :: (spelling ++ ']' :: rest)) = some (.array items, rest) := by
  -- The reader looks for a closing bracket before it reads items.
  obtain ⟨first, others, shown, opens⟩ := spelled.exists_cons (']' :: rest)
  rw [← items?_skipBlanks, shown] at read
  rw [value?, skipBlanks_cons rfl]
  simp only [shown]
  split
  · next same => exact absurd (List.cons.inj same).1 opens
  · rw [read]
    rfl

theorem value?_object {members : List (Literal × Source)}
    (spelled : MemberSpelling members spelling)
    (read : members? fuel (spelling ++ '}' :: rest) = some (members, rest)) :
    value? (fuel + 1) ('{' :: (spelling ++ '}' :: rest)) = some (.object members, rest) := by
  obtain ⟨others, shown⟩ := spelled.exists_cons ('}' :: rest)
  rw [← members?_skipBlanks, shown] at read
  rw [value?, skipBlanks_cons rfl]
  simp only [shown]
  show (members? fuel ('"' :: others) >>= _) = _
  rw [read]
  rfl

theorem value?_emptyArray {blanks : List Char} (blank : blanks.all isBlank = true) :
    value? (fuel + 1) ('[' :: (blanks ++ ']' :: rest)) = some (.array [], rest) := by
  have closed : skipBlanks (blanks ++ ']' :: rest) = ']' :: rest :=
    skipBlanks_append_cons blank rfl rest
  rw [value?, skipBlanks_cons rfl]
  simp only [closed]

theorem value?_emptyObject {blanks : List Char} (blank : blanks.all isBlank = true) :
    value? (fuel + 1) ('{' :: (blanks ++ '}' :: rest)) = some (.object [], rest) := by
  have closed : skipBlanks (blanks ++ '}' :: rest) = '}' :: rest :=
    skipBlanks_append_cons blank rfl rest
  rw [value?, skipBlanks_cons rfl]
  simp only [closed]

end Steps

namespace ReadsSpellings

variable {fuel : Nat} {source : Source} {spelling rest : List Char}

theorem value?_append (reads : ReadsSpellings fuel) (spelled : Spelling source spelling)
    (ends : EndsNumber rest) (enough : 2 * spelling.length ≤ fuel + 1) :
    value? (fuel + 1) (spelling ++ rest) = some (source, rest) := by
  cases spelled with
  | null | true | false => rfl
  | number numeral => exact value?_number numeral ends
  | string text =>
    simp only [List.cons_append, List.append_assoc, List.nil_append]
    exact value?_string text
  | emptyArray blank =>
    simp only [List.cons_append, List.append_assoc, List.nil_append]
    exact value?_emptyArray blank
  | emptyObject blank =>
    simp only [List.cons_append, List.append_assoc, List.nil_append]
    exact value?_emptyObject blank
  | array items =>
    simp only [List.length_append, List.length_cons, List.length_nil] at enough
    simp only [List.cons_append, List.append_assoc, List.nil_append]
    exact value?_array items (reads.items items (by omega) rest)
  | object members =>
    simp only [List.length_append, List.length_cons, List.length_nil] at enough
    simp only [List.cons_append, List.append_assoc, List.nil_append]
    exact value?_object members (reads.members members (by omega) rest)

theorem value_succ (reads : ReadsSpellings fuel) (spelled : SpacedSpelling source spelling)
    (ends : EndsValue rest) (enough : 2 * spelling.length ≤ fuel + 1) :
    ∃ left, value? (fuel + 1) (spelling ++ rest) = some (source, left) ∧
      skipBlanks left = rest := by
  cases spelled with
  | @intro _ before spelling behind blankBefore spelled blankBehind =>
    simp only [List.length_append] at enough
    refine ⟨behind ++ rest, ?_, ?_⟩
    · calc value? (fuel + 1) (before ++ spelling ++ behind ++ rest)
        _ = value? (fuel + 1) (spelling ++ (behind ++ rest)) := by
          rw [List.append_assoc, List.append_assoc, ← value?_skipBlanks,
            skipBlanks_append blankBefore, value?_skipBlanks]
        _ = some (source, behind ++ rest) :=
          reads.value?_append spelled (ends.endsNumber blankBehind) (by omega)
    · rw [skipBlanks_append blankBehind, ends.skipBlanks_eq]

theorem items_succ (reads : ReadsSpellings fuel) {items : List Source}
    (spelled : ItemSpelling items spelling) (enough : 2 * spelling.length < fuel + 1)
    (rest : List Char) : items? (fuel + 1) (spelling ++ ']' :: rest) = some (items, rest) := by
  cases spelled with
  | last item =>
    obtain ⟨left, read, skipped⟩ := reads.value item (EndsValue.bracket rest) (by omega)
    simp only [items?, read, skipped, Option.bind_eq_bind, Option.bind_some, Option.pure_def]
  | @more _ _ spelling others item items =>
    simp only [List.length_append, List.length_cons] at enough
    rw [List.append_assoc, List.cons_append]
    obtain ⟨left, read, skipped⟩ :=
      reads.value item (EndsValue.comma (others ++ ']' :: rest)) (by omega)
    simp only [items?, read, skipped, reads.items items (by omega) rest, Option.bind_eq_bind,
      Option.bind_some, Option.pure_def]

theorem members_succ (reads : ReadsSpellings fuel) {members : List (Literal × Source)}
    (spelled : MemberSpelling members spelling) (enough : 2 * spelling.length < fuel + 1)
    (rest : List Char) : members? (fuel + 1) (spelling ++ '}' :: rest) = some (members, rest) := by
  have quote : isBlank '"' = false := rfl
  have colon : isBlank ':' = false := rfl
  cases spelled with
  | @last _ _ _ _ spelling _ blankBefore name blankBehind value =>
    simp only [List.length_append, List.length_cons] at enough
    obtain ⟨left, read, skipped⟩ := reads.value value (EndsValue.brace rest) (by omega)
    simp only [members?, List.append_assoc, List.cons_append,
      skipBlanks_append_cons blankBefore quote, name.literal?_append,
      skipBlanks_append_cons blankBehind colon, read, skipped, Option.bind_eq_bind,
      Option.bind_some, Option.pure_def]
  | @more _ _ _ _ spelling others _ _ blankBefore name blankBehind value members =>
    simp only [List.length_append, List.length_cons] at enough
    obtain ⟨left, read, skipped⟩ :=
      reads.value value (EndsValue.comma (others ++ '}' :: rest)) (by omega)
    simp only [members?, List.append_assoc, List.cons_append,
      skipBlanks_append_cons blankBefore quote, name.literal?_append,
      skipBlanks_append_cons blankBehind colon, read, skipped,
      reads.members members (by omega) rest, Option.bind_eq_bind, Option.bind_some,
      Option.pure_def]

end ReadsSpellings

theorem SpacedSpelling.length_pos {source : Source} {spelling : List Char}
    (spelled : SpacedSpelling source spelling) : 0 < spelling.length := by
  cases spelled with
  | intro _ spelled =>
    obtain ⟨first, others, rfl, _⟩ := spelled.exists_cons
    simp only [List.length_append, List.length_cons]
    omega

theorem readsSpellings (fuel : Nat) : ReadsSpellings fuel := by
  -- Every reader hands on one less than it has been given.
  induction fuel with
  | zero =>
    -- Nothing is spelled by no character.
    refine ⟨?_, fun _ enough => absurd enough (Nat.not_lt_zero _),
      fun _ enough => absurd enough (Nat.not_lt_zero _)⟩
    intro source spelling rest spelled _ enough
    have := spelled.length_pos
    omega
  | succ fuel ih => exact ⟨ih.value_succ, ih.items_succ, ih.members_succ⟩

/-- Every spelling of a source is read as this source. -/
theorem SpacedSpelling.ofText?_eq {source : Source} {text : String}
    (spelled : SpacedSpelling source text.toList) : Source.ofText? text = some source := by
  obtain ⟨left, read, skipped⟩ := (readsSpellings (2 * text.toList.length + 2)).value spelled
    EndsValue.nil (by omega)
  rw [List.append_nil] at read
  rw [Source.ofText?, Source.ofChars?, read]
  show (if (skipBlanks left).isEmpty = true then _ else _) = _
  rw [skipped]
  rfl

end MempoolWatch.Json
