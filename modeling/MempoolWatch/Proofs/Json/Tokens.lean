import MempoolWatch.Json.Printer
import MempoolWatch.Json.Spelling
import Mathlib.Tactic.SplitIfs

/-! Quoted literals and numbers, read from their spellings. A literal denotes the text whose
characters are spelled in it, however each of them is escaped, and a number the value of its
parts if no character follows that could belong to it. -/
namespace MempoolWatch.Json

/-! ## Literals -/

/-- A spelling of a character is read into these pieces, and they are joined to the character. -/
structure PieceSpelling (c : Char) (spelling : List Char) (pieces : List Piece) : Prop where
  read : ∀ tail, pieces? (spelling ++ tail) =
    (pieces? tail).map fun (more, rest) => (pieces ++ more, rest)
  joined : ∀ more, joinPieces (pieces ++ more) = (joinPieces more).map (c :: ·)

section Pieces

variable {c mark : Char}

theorem pieces?_plain (quote : c ≠ '"') (backslash : c ≠ '\\') (shown : ¬ c < ' ')
    (tail : List Char) :
    pieces? (c :: tail) = (pieces? tail).map fun (more, rest) => (.char c :: more, rest) := by
  rw [pieces?]
  · cases pieces? tail <;> simp [backslash, shown]
  · exact quote
  · exact fun _ _ _ _ _ same _ => backslash same
  · exact fun _ _ same _ => backslash same

theorem pieces?_short (short : escaped? mark = some c) (tail : List Char) :
    pieces? ('\\' :: mark :: tail) =
      (pieces? tail).map fun (more, rest) => (.char c :: more, rest) := by
  rw [pieces?]
  · rw [short]
    cases pieces? tail <;> rfl
  · rintro p q r s rest rfl
    cases short

theorem pieces?_unit {p q r s : Char} {unit : Nat} (digits : unitOfDigits? p q r s = some unit)
    (tail : List Char) :
    pieces? ('\\' :: 'u' :: p :: q :: r :: s :: tail) =
      (pieces? tail).map fun (more, rest) => (.unit unit :: more, rest) := by
  rw [pieces?, digits]
  cases pieces? tail <;> rfl

theorem joinPieces_char (more : List Piece) :
    joinPieces (.char c :: more) = (joinPieces more).map (c :: ·) := by
  rw [joinPieces]
  cases joinPieces more <;> rfl

/-- A character is no half of a pair of surrogates. -/
theorem isHigh_isLow_toNat (c : Char) : isHigh c.toNat = false ∧ isLow c.toNat = false := by
  have valid : c.toNat < 0xD800 ∨ 0xDFFF < c.toNat ∧ c.toNat < 0x110000 := c.valid
  simp only [isHigh, isLow, decide_eq_false_iff_not]
  omega

theorem joinPieces_unit (more : List Piece) :
    joinPieces (.unit c.toNat :: more) = (joinPieces more).map (c :: ·) := by
  obtain ⟨upper, lower⟩ := isHigh_isLow_toNat c
  rcases more with _ | ⟨_ | low, more⟩
  · simp [joinPieces, upper, lower, Char.ofNat_toNat]
  · simp only [joinPieces, upper, lower, Char.ofNat_toNat]
    cases joinPieces more <;> rfl
  · simp only [joinPieces, upper, lower, Char.ofNat_toNat]
    cases joinPieces (.unit low :: more) <;> rfl

theorem joinPieces_surrogates {high low : Nat} (upper : isHigh high = true)
    (lower : isLow low = true)
    (code : c.toNat = 0x10000 + (high - 0xD800) * 0x400 + (low - 0xDC00)) (more : List Piece) :
    joinPieces (.unit high :: .unit low :: more) = (joinPieces more).map (c :: ·) := by
  rw [joinPieces, if_pos upper, if_pos lower, ← code, Char.ofNat_toNat]
  cases joinPieces more <;> rfl

end Pieces

theorem CharSpelling.exists_pieces {c : Char} {spelling : List Char}
    (spelled : CharSpelling c spelling) : ∃ pieces, PieceSpelling c spelling pieces := by
  cases spelled with
  | plain quote backslash shown =>
    exact ⟨[.char c], pieces?_plain quote backslash shown, joinPieces_char⟩
  | short denoted => exact ⟨[.char c], pieces?_short denoted, joinPieces_char⟩
  | unit digits => exact ⟨[.unit c.toNat], pieces?_unit digits, joinPieces_unit⟩
  | surrogates highDigits lowDigits upper lower code =>
    refine ⟨[.unit _, .unit _], ?_, joinPieces_surrogates upper lower code⟩
    intro tail
    simp only [List.cons_append, List.nil_append]
    rw [pieces?_unit highDigits, pieces?_unit lowDigits, Option.map_map]
    rfl

theorem TextSpelling.pieces?_append {text spelling : List Char}
    (spelled : TextSpelling text spelling) (rest : List Char) :
    ∃ pieces, pieces? (spelling ++ '"' :: rest) = some (pieces, rest) ∧
      joinPieces pieces = some text := by
  induction spelled with
  | nil => exact ⟨[], by rw [List.nil_append, pieces?], rfl⟩
  | @cons c text spelling written char _ ih =>
    obtain ⟨pieces, first⟩ := char.exists_pieces
    obtain ⟨more, read, joined⟩ := ih
    refine ⟨pieces ++ more, ?_, ?_⟩
    · rw [List.append_assoc, first.read, read]
      rfl
    · rw [first.joined, joined]
      rfl

/-- A literal is read as the text that is spelled between its quotes. -/
theorem TextSpelling.literal?_append {text spelling : List Char}
    (spelled : TextSpelling text spelling) (rest : List Char) :
    literal? (spelling ++ '"' :: rest) = some (some (String.ofList text), rest) := by
  obtain ⟨pieces, read, joined⟩ := spelled.pieces?_append rest
  rw [literal?, read]
  show some ((joinPieces pieces).map String.ofList, rest) = _
  rw [joined]
  rfl

theorem unitOfDigits?_escaped : ∀ code : Fin 32,
    unitOfDigits? '0' '0' (Nat.digitChar (code / 16)) (Nat.digitChar (code % 16)) =
      some code.val := by
  decide

/-- The printer spells every character. -/
theorem charSpelling_escape (c : Char) : CharSpelling c (escape c) := by
  unfold escape
  split_ifs with quote backslash backspace feed newline carriage tab control
  · subst quote; exact .short rfl
  · subst backslash; exact .short rfl
  · subst backspace; exact .short rfl
  · subst feed; exact .short rfl
  · subst newline; exact .short rfl
  · subst carriage; exact .short rfl
  · subst tab; exact .short rfl
  · exact .unit (unitOfDigits?_escaped ⟨c.toNat, control⟩)
  · exact .plain quote backslash control

theorem textSpelling_escape (text : List Char) : TextSpelling text (text.flatMap escape) := by
  induction text with
  | nil => exact .nil
  | cons c text ih =>
    rw [List.flatMap_cons]
    exact .cons (charSpelling_escape c) ih

/-! ## Numbers -/

/-- No character follows that could belong to a number. -/
def EndsNumber (rest : List Char) : Prop :=
  ∀ c ∈ rest.head?, c.isDigit = false ∧ c ≠ '.' ∧ c ≠ 'e' ∧ c ≠ 'E'

section Numerals

variable {digits rest : List Char}

theorem spanDigits_append (all : digits.all Char.isDigit = true)
    (ends : ∀ c ∈ rest.head?, c.isDigit = false) : spanDigits (digits ++ rest) = (digits, rest) := by
  have all := List.all_eq_true.mp all
  have taken : rest.takeWhile Char.isDigit = [] := by
    cases rest with
    | nil => rfl
    | cons c rest => simp [ends c rfl]
  have dropped : rest.dropWhile Char.isDigit = rest := by
    cases rest with
    | nil => rfl
    | cons c rest => simp [ends c rfl]
  rw [spanDigits, List.takeWhile_append_of_pos all, List.dropWhile_append_of_pos all, taken,
    dropped, List.append_nil]

theorem IntegerDigits.integerPart?_append (integer : IntegerDigits digits)
    (ends : ∀ c ∈ rest.head?, c.isDigit = false) :
    integerPart? (digits ++ rest) = some (digits, rest) := by
  cases integer with
  | zero =>
    rw [integerPart?, spanDigits_append (by decide) ends]
    rfl
  | @digits first others digit leading all =>
    have all : (first :: others).all Char.isDigit = true := by
      rw [List.all_cons, digit, all]
      rfl
    rw [integerPart?, spanDigits_append all ends]
    split <;> simp_all

theorem FractionSpelling.fractionPart?_append {point : List Char}
    (fraction : FractionSpelling digits point)
    (ends : ∀ c ∈ rest.head?, c.isDigit = false ∧ c ≠ '.') :
    fractionPart? (point ++ rest) = some (digits, rest) := by
  cases fraction with
  | absent =>
    rcases rest with _ | ⟨c, rest⟩
    · rfl
    · rw [List.nil_append, fractionPart?]
      rintro others same
      exact (ends c rfl).2 (List.cons.inj same).1
  | digits some all =>
    rw [List.cons_append, fractionPart?, spanDigits_append all fun c first => (ends c first).1]
    split <;> simp_all

theorem exponentDigits?_append (negative : Bool) (given : digits ≠ [])
    (all : digits.all Char.isDigit = true) (ends : ∀ c ∈ rest.head?, c.isDigit = false) :
    exponentDigits? negative (digits ++ rest) =
      some (some (if negative then -(Decimal.natOfDigits digits : Int)
        else Decimal.natOfDigits digits), rest) := by
  rw [exponentDigits?, spanDigits_append all ends]
  cases digits with
  | nil => contradiction
  | cons => rfl

theorem ExponentSpelling.exponentPart?_append {exponent : Option Int} {power : List Char}
    (spelled : ExponentSpelling exponent power) (ends : EndsNumber rest) :
    exponentPart? (power ++ rest) = some (exponent, rest) := by
  have undigited : ∀ c ∈ rest.head?, c.isDigit = false := fun c first => (ends c first).1
  cases spelled with
  | absent =>
    rcases rest with _ | ⟨c, rest⟩
    · rfl
    · obtain ⟨_, _, lower, upper⟩ := ends c rfl
      simp [exponentPart?, lower, upper]
  | @bare mark digits marked given all =>
    -- A digit is no sign.
    have unsigned : ∀ others, digits ++ rest ≠ '-' :: others ∧ digits ++ rest ≠ '+' :: others := by
      obtain ⟨first, digits, rfl⟩ := List.exists_cons_of_ne_nil given
      have digit : first.isDigit = true := List.all_eq_true.mp all first List.mem_cons_self
      intro others
      constructor <;> rintro ⟨rfl⟩ <;> contradiction
    rw [List.cons_append, exponentPart?, if_pos marked]
    · exact exponentDigits?_append false given all undigited
    · exact fun others => (unsigned others).1
    · exact fun others => (unsigned others).2
  | plus marked given all =>
    rw [List.cons_append, List.cons_append, exponentPart?, if_pos marked]
    exact exponentDigits?_append false given all undigited
  | minus marked given all =>
    rw [List.cons_append, List.cons_append, exponentPart?, if_pos marked]
    exact exponentDigits?_append true given all undigited

/-- Behind the digits of a fraction there is neither a digit nor a second point. -/
theorem ExponentSpelling.head_ne {exponent : Option Int} {power : List Char}
    (spelled : ExponentSpelling exponent power) (ends : EndsNumber rest) :
    ∀ c ∈ (power ++ rest).head?, c.isDigit = false ∧ c ≠ '.' := by
  have mark : ∀ {c : Char}, c = 'e' ∨ c = 'E' → c.isDigit = false ∧ c ≠ '.' := by
    rintro c (rfl | rfl) <;> decide
  cases spelled with
  | absent => exact fun c first => ⟨(ends c first).1, (ends c first).2.1⟩
  | bare marked | plus marked | minus marked =>
    rintro c ⟨rfl⟩
    exact mark marked

theorem magnitude?_append {integer fraction point power : List Char} {exponent : Option Int}
    (negative : Bool) (whole : IntegerDigits integer) (pointed : FractionSpelling fraction point)
    (raised : ExponentSpelling exponent power) (ends : EndsNumber rest) :
    magnitude? negative (integer ++ point ++ power ++ rest) =
      some (numeral negative integer fraction exponent, rest) := by
  have unpointed := raised.head_ne ends
  have undigited : ∀ c ∈ (point ++ (power ++ rest)).head?, c.isDigit = false := by
    cases pointed with
    | absent => exact fun c first => (unpointed c first).1
    | digits =>
      rintro c ⟨rfl⟩
      rfl
  rw [magnitude?, List.append_assoc, List.append_assoc, whole.integerPart?_append undigited]
  show (fractionPart? (point ++ (power ++ rest)) >>= _) = _
  rw [pointed.fractionPart?_append unpointed]
  show (exponentPart? (power ++ rest) >>= _) = _
  rw [raised.exponentPart?_append ends]
  rfl

theorem IntegerDigits.exists_cons (integer : IntegerDigits digits) :
    ∃ first others, digits = first :: others ∧ first.isDigit = true := by
  cases integer with
  | zero => exact ⟨_, _, rfl, rfl⟩
  | digits digit => exact ⟨_, _, rfl, digit⟩

/-- A number is read as the value of its parts. -/
theorem NumeralSpelling.numeral?_append {value : Numeral} {spelling : List Char}
    (spelled : NumeralSpelling value spelling) (ends : EndsNumber rest) :
    numeral? (spelling ++ rest) = some (value, rest) := by
  cases spelled with
  | negative whole pointed raised => exact magnitude?_append true whole pointed raised ends
  | positive whole pointed raised =>
    rw [numeral?, magnitude?_append false whole pointed raised ends]
    -- A digit is no sign.
    obtain ⟨first, others, rfl, digit⟩ := whole.exists_cons
    rintro rest ⟨rfl⟩
    contradiction

theorem NumeralSpelling.exists_cons {value : Numeral} {spelling : List Char}
    (spelled : NumeralSpelling value spelling) :
    ∃ first others, spelling = first :: others ∧ (first = '-' ∨ first.isDigit = true) := by
  cases spelled with
  | negative => exact ⟨_, _, rfl, Or.inl rfl⟩
  | positive whole =>
    obtain ⟨first, others, rfl, digit⟩ := whole.exists_cons
    exact ⟨_, _, rfl, Or.inr digit⟩

theorem natOfDigits_toDigits (value : Nat) :
    Decimal.natOfDigits (Nat.toDigits 10 value) = value :=
  calc Decimal.natOfDigits (Nat.toDigits 10 value)
    _ = Nat.ofDigitChars 10 (Nat.toDigits 10 value) 0 := by
      simp only [Decimal.natOfDigits, Nat.ofDigitChars_eq_foldl, Nat.mul_comm]
    _ = value := Nat.ofDigitChars_ten_toDigits

/-- The digits of a number other than zero start with another digit than zero. -/
theorem head_toDigits {value : Nat} (positive : 0 < value) :
    ∃ first others, Nat.toDigits 10 value = first :: others ∧ first ≠ '0' := by
  have small : ∀ digit : Fin 10, 0 < digit.val → Nat.digitChar digit ≠ '0' := by decide
  induction value using Nat.strongRecOn with
  | ind value ih =>
    rw [Nat.toDigits_eq_if (by decide)]
    split
    · next below => exact ⟨_, [], rfl, small ⟨value, below⟩ positive⟩
    · next above =>
      obtain ⟨first, others, digits, leading⟩ := ih (value / 10) (by omega) (by omega)
      rw [digits]
      exact ⟨first, _, rfl, leading⟩

theorem integerDigits_toDigits (value : Nat) : IntegerDigits (Nat.toDigits 10 value) := by
  have digit : ∀ c ∈ Nat.toDigits 10 value, c.isDigit = true :=
    fun c => Nat.isDigit_of_mem_toDigits (by decide) (by decide)
  rcases Nat.eq_zero_or_pos value with rfl | positive
  · exact .zero
  · obtain ⟨first, others, digits, leading⟩ := head_toDigits positive
    rw [digits] at digit ⊢
    rw [List.forall_mem_cons] at digit
    exact .digits digit.1 leading (List.all_eq_true.mpr digit.2)

/-- A natural below 2^64 is spelled by its digits. -/
theorem numeralSpelling_toDigits {value : Nat} (fits : value < UInt64.size) :
    NumeralSpelling (some (.integer value)) (Nat.toDigits 10 value) := by
  have spelled := NumeralSpelling.positive (integerDigits_toDigits value) .absent .absent
  have denoted : numeral false (Nat.toDigits 10 value) [] none = some (.integer value) := by
    simp [numeral, natOfDigits_toDigits, fits]
  rw [denoted, List.append_nil, List.append_nil] at spelled
  exact spelled

end Numerals

end MempoolWatch.Json
