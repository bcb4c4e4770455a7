import MempoolWatch.Json.Source

/-! The texts that spell a JSON source. A value may have blanks around it wherever
it stands, and a character of a literal may be escaped in several ways, so that a
source has many spellings. The relations say which texts these are and do not
look at how a text is read. -/
namespace MempoolWatch.Json

/-- The spellings of a character between quotes: itself, a short escape, its code
unit, or its two surrogates. -/
inductive CharSpelling : Char → List Char → Prop
  | plain {c : Char} : c ≠ '"' → c ≠ '\\' → ¬ c < ' ' → CharSpelling c [c]
  | short {c mark : Char} : escaped? mark = some c → CharSpelling c ['\\', mark]
  | unit {c p q r s : Char} :
      unitOfDigits? p q r s = some c.toNat → CharSpelling c ['\\', 'u', p, q, r, s]
  | surrogates {c p q r s t u v w : Char} {high low : Nat} :
      unitOfDigits? p q r s = some high → unitOfDigits? t u v w = some low →
      isHigh high = true → isLow low = true →
      c.toNat = 0x10000 + (high - 0xD800) * 0x400 + (low - 0xDC00) →
      CharSpelling c ['\\', 'u', p, q, r, s, '\\', 'u', t, u, v, w]

/-- The spellings of a text between quotes, character by character. -/
inductive TextSpelling : List Char → List Char → Prop
  | nil : TextSpelling [] []
  | cons {c : Char} {text spelling rest : List Char} :
      CharSpelling c spelling → TextSpelling text rest →
      TextSpelling (c :: text) (spelling ++ rest)

/-- A zero alone, or digits that start with another one. -/
inductive IntegerDigits : List Char → Prop
  | zero : IntegerDigits ['0']
  | digits {first : Char} {rest : List Char} : first.isDigit = true → first ≠ '0' →
      rest.all Char.isDigit = true → IntegerDigits (first :: rest)

/-- The fraction digits of a spelling that has a point, or has none. -/
inductive FractionSpelling : List Char → List Char → Prop
  | absent : FractionSpelling [] []
  | digits {digits : List Char} : digits ≠ [] → digits.all Char.isDigit = true →
      FractionSpelling digits ('.' :: digits)

/-- The exponent of a spelling that has a mark, or has none. -/
inductive ExponentSpelling : Option Int → List Char → Prop
  | absent : ExponentSpelling none []
  | bare {mark : Char} {digits : List Char} : mark = 'e' ∨ mark = 'E' → digits ≠ [] →
      digits.all Char.isDigit = true →
      ExponentSpelling (some (Decimal.natOfDigits digits)) (mark :: digits)
  | plus {mark : Char} {digits : List Char} : mark = 'e' ∨ mark = 'E' → digits ≠ [] →
      digits.all Char.isDigit = true →
      ExponentSpelling (some (Decimal.natOfDigits digits)) (mark :: '+' :: digits)
  | minus {mark : Char} {digits : List Char} : mark = 'e' ∨ mark = 'E' → digits ≠ [] →
      digits.all Char.isDigit = true →
      ExponentSpelling (some (-(Decimal.natOfDigits digits : Int))) (mark :: '-' :: digits)

/-- The spellings of a number from its parts. -/
inductive NumeralSpelling : Numeral → List Char → Prop
  | positive {integer fraction point power : List Char} {exponent : Option Int} :
      IntegerDigits integer → FractionSpelling fraction point → ExponentSpelling exponent power →
      NumeralSpelling (numeral false integer fraction exponent) (integer ++ point ++ power)
  | negative {integer fraction point power : List Char} {exponent : Option Int} :
      IntegerDigits integer → FractionSpelling fraction point → ExponentSpelling exponent power →
      NumeralSpelling (numeral true integer fraction exponent) ('-' :: integer ++ point ++ power)

mutual

/-- The spellings of a source without blanks around it. -/
inductive Spelling : Source → List Char → Prop
  | null : Spelling .null ['n', 'u', 'l', 'l']
  | true : Spelling (.bool true) ['t', 'r', 'u', 'e']
  | false : Spelling (.bool false) ['f', 'a', 'l', 's', 'e']
  | number {value : Numeral} {spelling : List Char} :
      NumeralSpelling value spelling → Spelling (.number value) spelling
  | string {text spelling : List Char} : TextSpelling text spelling →
      Spelling (.string (some (String.ofList text))) ('"' :: spelling ++ ['"'])
  | emptyArray {blanks : List Char} : blanks.all isBlank = true →
      Spelling (.array []) ('[' :: blanks ++ [']'])
  | array {items : List Source} {spelling : List Char} : ItemSpelling items spelling →
      Spelling (.array items) ('[' :: spelling ++ [']'])
  | emptyObject {blanks : List Char} : blanks.all isBlank = true →
      Spelling (.object []) ('{' :: blanks ++ ['}'])
  | object {members : List (Literal × Source)} {spelling : List Char} :
      MemberSpelling members spelling →
      Spelling (.object members) ('{' :: spelling ++ ['}'])

/-- The spellings of a source with blanks before and behind it. -/
inductive SpacedSpelling : Source → List Char → Prop
  | intro {source : Source} {before spelling behind : List Char} :
      before.all isBlank = true → Spelling source spelling → behind.all isBlank = true →
      SpacedSpelling source (before ++ spelling ++ behind)

/-- The spellings of one item or more, with commas between them. -/
inductive ItemSpelling : List Source → List Char → Prop
  | last {item : Source} {spelling : List Char} :
      SpacedSpelling item spelling → ItemSpelling [item] spelling
  | more {item : Source} {items : List Source} {spelling rest : List Char} :
      SpacedSpelling item spelling → ItemSpelling items rest →
      ItemSpelling (item :: items) (spelling ++ ',' :: rest)

/-- The spellings of one member or more, with commas between them. -/
inductive MemberSpelling : List (Literal × Source) → List Char → Prop
  | last {name before written behind spelling : List Char} {value : Source} :
      before.all isBlank = true → TextSpelling name written → behind.all isBlank = true →
      SpacedSpelling value spelling →
      MemberSpelling [(some (String.ofList name), value)]
        (before ++ '"' :: written ++ '"' :: behind ++ ':' :: spelling)
  | more {name before written behind spelling rest : List Char} {value : Source}
      {members : List (Literal × Source)} :
      before.all isBlank = true → TextSpelling name written → behind.all isBlank = true →
      SpacedSpelling value spelling → MemberSpelling members rest →
      MemberSpelling ((some (String.ofList name), value) :: members)
        (before ++ '"' :: written ++ '"' :: behind ++ ':' :: spelling ++ ',' :: rest)

end

end MempoolWatch.Json
