import MempoolWatch.Hex

/-! The characters of a TOML document: blanks, line ends, comments, and strings in
their four forms. Every reader takes the text behind the opening mark and returns
what it read with the rest of the text. -/
namespace MempoolWatch.Toml

def isBlank (c : Char) : Bool :=
  c = ' ' ∨ c = '\t'

def skipBlanks (text : List Char) : List Char :=
  text.dropWhile isBlank

/-- Control characters other than the tab stand nowhere in a line. -/
def isPlain (c : Char) : Bool :=
  c = '\t' ∨ (' ' ≤ c ∧ c ≠ '\x7f')

/-- A line ends with a line feed, which a carriage return may precede. -/
def newline? : List Char → Option (List Char)
  | '\n' :: rest => some rest
  | '\r' :: '\n' :: rest => some rest
  | _ => none

def skipComment : List Char → List Char
  | '#' :: rest => rest.dropWhile isPlain
  | text => text

/-- The end of a line behind blanks and a comment; the last line needs no mark. -/
def lineEnd? (text : List Char) : Option (List Char) :=
  match skipComment (skipBlanks text) with
  | [] => some []
  | rest => newline? rest

/-- Skips blanks and line ends. -/
def skipSpace : List Char → List Char
  | ' ' :: rest => skipSpace rest
  | '\t' :: rest => skipSpace rest
  | '\n' :: rest => skipSpace rest
  | '\r' :: '\n' :: rest => skipSpace rest
  | text => text

/-- The character of a two-character escape. -/
def escaped? : Char → Option Char
  | 'b' => some '\x08'
  | 't' => some '\t'
  | 'n' => some '\n'
  | 'f' => some '\x0c'
  | 'r' => some '\r'
  | '"' => some '"'
  | '\\' => some '\\'
  | _ => none

/-- The character whose code point the hexadecimal digits give. Surrogates are no
characters. -/
def character? (digits : List Char) : Option Char := do
  let values ← digits.mapM Hex.value?
  let point := values.foldl (fun point digit => point * 16 + digit) 0
  if point.isValidChar then some (Char.ofNat point) else none

/-- Reads an escape behind its backslash. -/
def escape? : List Char → Option (Char × List Char)
  | 'u' :: rest =>
    if 4 ≤ rest.length then do return (← character? (rest.take 4), rest.drop 4) else none
  | 'U' :: rest =>
    if 8 ≤ rest.length then do return (← character? (rest.take 8), rest.drop 8) else none
  | mark :: rest => do return (← escaped? mark, rest)
  | [] => none

/-- A string with escapes, on one line. Every step takes a character, so the length
of the text is enough fuel. -/
def basic? : (fuel : Nat) → List Char → Option (List Char × List Char)
  | 0, _ => none
  | fuel + 1, text =>
    match text with
    | [] => none
    | '"' :: rest => some ([], rest)
    | '\\' :: rest => do
      let (c, rest) ← escape? rest
      let (chars, rest) ← basic? fuel rest
      return (c :: chars, rest)
    | c :: rest =>
      if isPlain c then do
        let (chars, rest) ← basic? fuel rest
        return (c :: chars, rest)
      else none

/-- A string without escapes, on one line. -/
def literal? : List Char → Option (List Char × List Char)
  | [] => none
  | c :: rest =>
    if c = '\x27' then some ([], rest)
    else if isPlain c then do
      let (chars, rest) ← literal? rest
      return (c :: chars, rest)
    else none

/-- Behind three closing marks up to two more belong to the string. -/
def extraMarks (mark : Char) : List Char → List Char × List Char
  | a :: b :: rest =>
    if a = mark ∧ b = mark then ([a, b], rest)
    else if a = mark then ([a], b :: rest)
    else ([], a :: b :: rest)
  | [a] => if a = mark then ([a], []) else ([], [a])
  | [] => ([], [])

/-- A string over several lines, with escapes when the mark is the double quote.
Three marks close it. Line ends are read as line feeds; a backslash at the end of
a line takes all space up to the next character away. -/
def multiline? (mark : Char) : (fuel : Nat) → List Char → Option (List Char × List Char)
  | 0, _ => none
  | fuel + 1, text =>
    match newline? text with
    | some rest => do
      let (chars, rest) ← multiline? mark fuel rest
      return ('\n' :: chars, rest)
    | none =>
      match text with
      | [] => none
      | c :: rest =>
        if c = mark ∧ rest.take 2 = [mark, mark] then some (extraMarks mark (rest.drop 2))
        else if c = '\\' ∧ mark = '"' then
          match newline? (skipBlanks rest) with
          | some rest => multiline? mark fuel (skipSpace rest)
          | none => do
            let (c, rest) ← escape? rest
            let (chars, rest) ← multiline? mark fuel rest
            return (c :: chars, rest)
        else if isPlain c then do
          let (chars, rest) ← multiline? mark fuel rest
          return (c :: chars, rest)
        else none

/-- A string over several lines without a line end right behind its opening. -/
def openedMultiline? (mark : Char) (text : List Char) : Option (List Char × List Char) :=
  let body := (newline? text).getD text
  multiline? mark (body.length + 1) body

/-- A string in any of its forms. -/
def quoted? : List Char → Option (String × List Char)
  | '"' :: '"' :: '"' :: rest => (openedMultiline? '"' rest).map fun (chars, rest) =>
    (String.ofList chars, rest)
  | '\x27' :: '\x27' :: '\x27' :: rest => (openedMultiline? '\x27' rest).map fun (chars, rest) =>
    (String.ofList chars, rest)
  | '"' :: rest => (basic? (rest.length + 1) rest).map fun (chars, rest) =>
    (String.ofList chars, rest)
  | '\x27' :: rest => (literal? rest).map fun (chars, rest) => (String.ofList chars, rest)
  | _ => none

/-- The characters of a key without quotes. -/
def isBare (c : Char) : Bool :=
  c.isAlphanum ∨ c = '-' ∨ c = '_'

/-- One name of a key: a string on one line, or bare characters. -/
def name? : List Char → Option (String × List Char)
  | '"' :: rest => (basic? (rest.length + 1) rest).map fun (chars, rest) =>
    (String.ofList chars, rest)
  | '\x27' :: rest => (literal? rest).map fun (chars, rest) => (String.ofList chars, rest)
  | text =>
    if (text.takeWhile isBare).isEmpty then none
    else some (String.ofList (text.takeWhile isBare), text.dropWhile isBare)

/-- Names joined by points, with blanks around each name. -/
def names? : (fuel : Nat) → List Char → Option (List String × List Char)
  | 0, _ => none
  | fuel + 1, text => do
    let (name, rest) ← name? (skipBlanks text)
    match skipBlanks rest with
    | '.' :: rest =>
      let (names, rest) ← names? fuel rest
      return (name :: names, rest)
    | rest => return ([name], rest)

/-- Keys, arrays and inline tables may be nested less deep than this. -/
def nestingLimit : Nat := 80

/-- The last name of a key, and the names before it. -/
structure Key where
  path : List String
  name : String
deriving DecidableEq

def key? (text : List Char) : Option (Key × List Char) := do
  let (names, rest) ← names? (text.length + 1) text
  if names.length < nestingLimit then return (⟨names.dropLast, ← names.getLast?⟩, rest) else none

end MempoolWatch.Toml
