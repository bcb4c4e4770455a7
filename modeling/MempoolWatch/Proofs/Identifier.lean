import MempoolWatch.Identifier

/-! Which texts are read as identifiers. The lenient reading passes over blanks and takes digits of
either case, so that a text is read as the bytes whose encoding is left when the blanks are taken
out and the digits are in lower case. In front of the digits up to two markers are passed over, one
more than the text of an identifier has. -/
namespace MempoolWatch

namespace Hex

/-- A digit in lower case; other characters stay as they are. -/
def lowerDigit (c : Char) : Char :=
  if 'A' ≤ c ∧ c ≤ 'F' then c.toLower else c

/-- The text without its blanks, its digits in lower case. -/
def bare (text : List Char) : List Char :=
  (text.filter (! isBlank ·)).map lowerDigit

/-- What stands in front of the digits. -/
def marker : List Char := ['0', 'x']

/-! ## Digits -/

/-- The letter case makes no difference, and a digit that is read can be written. -/
theorem value?_ascii : ∀ code : Fin 128,
    value? (lowerDigit (Char.ofNat code)) = value? (Char.ofNat code) ∧
      ∀ digit ∈ value? (Char.ofNat code),
        digit < 16 ∧ lowerDigit (Char.ofNat code) = Nat.digitChar digit := by
  decide

theorem value?_beyond_ascii {c : Char} (beyond : 128 ≤ c.toNat) :
    value? c = none ∧ lowerDigit c = c := by
  have above (last : Char) (ascii : last.toNat < 128) : ¬ c ≤ last := by
    intro below
    have : c.toNat ≤ last.toNat := below
    omega
  constructor
  · rw [value?, if_neg fun bounds => above '9' (by decide) bounds.2,
      if_neg fun bounds => above 'f' (by decide) bounds.2,
      if_neg fun bounds => above 'F' (by decide) bounds.2]
  · exact if_neg fun bounds => above 'F' (by decide) bounds.2

theorem value?_eq_some_iff {c : Char} {digit : Nat} :
    value? c = some digit ↔ digit < 16 ∧ lowerDigit c = Nat.digitChar digit := by
  have facts : value? (lowerDigit c) = value? c ∧
      ∀ digit ∈ value? c, digit < 16 ∧ lowerDigit c = Nat.digitChar digit := by
    by_cases ascii : c.toNat < 128
    · have facts := value?_ascii ⟨c.toNat, ascii⟩
      rwa [Char.ofNat_toNat] at facts
    · obtain ⟨none, same⟩ := value?_beyond_ascii (Nat.le_of_not_lt ascii)
      rw [same, none]
      exact ⟨rfl, nofun⟩
  constructor
  · exact facts.2 digit
  · rintro ⟨bound, same⟩
    rw [← facts.1, same]
    exact value?_digitChar ⟨digit, bound⟩

theorem lowerDigit_of_isBlank {c : Char} (blank : isBlank c = true) : lowerDigit c = c := by
  obtain rfl | rfl | rfl | rfl : c = ' ' ∨ c = '\t' ∨ c = '\r' ∨ c = '\n' :=
    of_decide_eq_true blank
  all_goals decide

theorem bare_cons (c : Char) (rest : List Char) :
    bare (c :: rest) = if isBlank c then bare rest else lowerDigit c :: bare rest := by
  unfold bare
  cases blank : isBlank c <;> simp [blank]

theorem bare_of_no_blank {text : List Char} (shown : ∀ c ∈ text, isBlank c = false) :
    bare text = text.map lowerDigit := by
  rw [bare, List.filter_eq_self.mpr]
  intro c member
  rw [shown c member]
  rfl

/-- The lenient reading gives the digits of the bare text. -/
theorem digits?_eq_some_iff {text : List Char} {digits : List Nat} :
    digits? text = some digits ↔
      (∀ digit ∈ digits, digit < 16) ∧ bare text = digits.map Nat.digitChar := by
  induction text generalizing digits with
  | nil =>
    cases digits with
    | nil => exact iff_of_true rfl ⟨nofun, rfl⟩
    | cons => exact iff_of_false nofun fun spelled => nomatch spelled.2
  | cons c rest ih =>
    rw [digits?, bare_cons]
    split
    · exact ih
    · simp only [Option.bind_eq_bind, Option.bind_eq_some_iff, Option.pure_def, Option.some.injEq,
        value?_eq_some_iff, ih]
      constructor
      · rintro ⟨digit, ⟨bound, same⟩, others, ⟨bounds, spelled⟩, rfl⟩
        exact ⟨List.forall_mem_cons.mpr ⟨bound, bounds⟩, by rw [same, spelled, List.map_cons]⟩
      · rintro ⟨bounds, spelled⟩
        cases digits with
        | nil => cases spelled
        | cons digit others =>
          obtain ⟨bound, bounds⟩ := List.forall_mem_cons.mp bounds
          obtain ⟨same, spelled⟩ := List.cons.inj spelled
          exact ⟨digit, ⟨bound, same⟩, others, ⟨bounds, spelled⟩, rfl⟩

/-! ## Bytes -/

/-- The two digits of a byte. -/
def halves (byte : UInt8) : List Nat :=
  [byte.toNat / 16, byte.toNat % 16]

theorem encode_eq_map (bytes : Bytes) :
    encode bytes = (bytes.flatMap halves).map Nat.digitChar := by
  rw [encode, List.map_flatMap]
  rfl

theorem lt_of_mem_halves {bytes : Bytes} {digit : Nat} (member : digit ∈ bytes.flatMap halves) :
    digit < 16 := by
  obtain ⟨byte, _, half⟩ := List.mem_flatMap.mp member
  have := byte.toNat_lt
  simp only [halves, List.mem_cons, List.not_mem_nil, or_false] at half
  omega

theorem pairUp_flatMap_halves (bytes : Bytes) : pairUp (bytes.flatMap halves) = (bytes, none) := by
  induction bytes with
  | nil => rfl
  | cons byte rest ih =>
    have joined : byteOfDigits (byte.toNat / 16) (byte.toNat % 16) = byte := by
      rw [byteOfDigits, Nat.div_add_mod', UInt8.ofNat_toNat]
    show pairUp (byte.toNat / 16 :: byte.toNat % 16 :: rest.flatMap halves) = _
    rw [pairUp, ih, joined]

theorem toNat_byteOfDigits {high low : Nat} (highBound : high < 16) (lowBound : low < 16) :
    (byteOfDigits high low).toNat = high * 16 + low := by
  rw [byteOfDigits, UInt8.toNat_ofNat_of_lt' (by show high * 16 + low < 256; omega)]

theorem halves_byteOfDigits {high low : Nat} (highBound : high < 16) (lowBound : low < 16) :
    halves (byteOfDigits high low) = [high, low] := by
  rw [halves, toNat_byteOfDigits highBound lowBound]
  congr 2 <;> omega

theorem eq_flatMap_halves {digits : List Nat} {bytes : Bytes}
    (bounds : ∀ digit ∈ digits, digit < 16) (paired : pairUp digits = (bytes, none)) :
    digits = bytes.flatMap halves := by
  induction digits using pairUp.induct generalizing bytes with
  | case1 =>
    cases paired
    rfl
  | case2 lone => cases paired
  | case3 high low rest others lone paired' ih =>
    rw [pairUp, paired'] at paired
    obtain ⟨rfl, rfl⟩ := Prod.mk.inj paired
    obtain ⟨highBound, bounds⟩ := List.forall_mem_cons.mp bounds
    obtain ⟨lowBound, bounds⟩ := List.forall_mem_cons.mp bounds
    rw [List.flatMap_cons, halves_byteOfDigits highBound lowBound, ← ih bounds paired']
    rfl

/-- A text is read as these bytes exactly when, bare, it is their encoding. -/
theorem pairUp_digits?_eq_some_iff {text : List Char} {bytes : Bytes} :
    (digits? text).map pairUp = some (bytes, none) ↔ bare text = encode bytes := by
  rw [encode_eq_map, Option.map_eq_some_iff]
  constructor
  · rintro ⟨digits, read, paired⟩
    obtain ⟨bounds, spelled⟩ := digits?_eq_some_iff.mp read
    rw [spelled, ← eq_flatMap_halves bounds paired]
  · intro spelled
    have bounds : ∀ digit ∈ bytes.flatMap halves, digit < 16 := fun _ => lt_of_mem_halves
    exact ⟨_, digits?_eq_some_iff.mpr ⟨bounds, spelled⟩, pairUp_flatMap_halves bytes⟩

/-! ## Markers -/

theorem dropMarker_cases (text : List Char) :
    dropMarker text = text ∨ text = marker ++ dropMarker text := by
  unfold dropMarker
  split
  · exact Or.inr rfl
  · exact Or.inl rfl

@[simp] theorem dropMarker_marker_append (text : List Char) : dropMarker (marker ++ text) = text :=
  rfl

theorem dropMarker_of_not_mem {text : List Char} (unmarked : 'x' ∉ text) :
    dropMarker text = text := by
  obtain same | marked := dropMarker_cases text
  · exact same
  · rw [marked] at unmarked
    exact absurd (List.mem_append_left _ (by decide)) unmarked

theorem not_mem_encode {c : Char} {bytes : Bytes}
    (other : ∀ digit : Fin 16, Nat.digitChar digit ≠ c) : c ∉ encode bytes := by
  rw [encode_eq_map]
  intro member
  obtain ⟨digit, half, same⟩ := List.mem_map.mp member
  exact other ⟨digit, lt_of_mem_halves half⟩ same

/-- There is no marker among the digits. -/
theorem not_mem_of_bare {text : List Char} {bytes : Bytes} (spelled : bare text = encode bytes) :
    'x' ∉ text := by
  intro member
  have bare : 'x' ∈ bare text :=
    List.mem_map.mpr ⟨'x', List.mem_filter.mpr ⟨member, by decide⟩, by decide⟩
  rw [spelled] at bare
  exact not_mem_encode (by decide) bare

theorem no_blank_of_lower {text : List Char} {bytes : Bytes}
    (spelled : text.map lowerDigit = encode bytes) : ∀ c ∈ text, isBlank c = false := by
  intro c member
  apply eq_false_of_ne_true
  intro blank
  have written : c ∈ encode bytes := by
    rw [← spelled, ← lowerDigit_of_isBlank blank]
    exact List.mem_map_of_mem member
  refine not_mem_encode ?_ written
  obtain rfl | rfl | rfl | rfl : c = ' ' ∨ c = '\t' ∨ c = '\r' ∨ c = '\n' :=
    of_decide_eq_true blank
  all_goals decide

theorem bare_of_lower {text : List Char} {bytes : Bytes}
    (spelled : text.map lowerDigit = encode bytes) : bare text = encode bytes := by
  rw [bare_of_no_blank (no_blank_of_lower spelled), spelled]

theorem bare_encode (bytes : Bytes) : bare (encode bytes) = encode bytes := by
  have lower : ∀ digit : Fin 16, lowerDigit (Nat.digitChar digit) = Nat.digitChar digit := by decide
  apply bare_of_lower
  rw [encode_eq_map, List.map_map]
  exact List.map_congr_left fun digit half => lower ⟨digit, lt_of_mem_halves half⟩

end Hex

namespace FixedBytes

variable {size : Nat} {x : FixedBytes size} {text : String} {digits : List Char}

theorem toList_text (x : FixedBytes size) : x.text.toList = Hex.marker ++ Hex.encode x.bytes :=
  String.toList_ofList

theorem ofDigits?_eq_some_iff :
    ofDigits? size digits = some x ↔ Hex.bare digits = Hex.encode x.bytes := by
  rw [← Hex.pairUp_digits?_eq_some_iff]
  simp only [ofDigits?, Option.bind_eq_bind, Option.bind_eq_some_iff, Option.map_eq_some_iff]
  constructor
  · rintro ⟨values, read, identified⟩
    refine ⟨values, read, ?_⟩
    split at identified
    · next bytes paired => rw [paired, ofBytes?_eq_some_iff.mp identified]
    · cases identified
  · rintro ⟨values, read, paired⟩
    refine ⟨values, read, ?_⟩
    rw [paired]
    exact ofBytes?_bytes x

/-- Behind up to two markers stand the digits. -/
theorem ofText?_eq_some_iff :
    ofText? size text = some x ↔ ∃ count ≤ 2, ∃ digits,
      text.toList = (List.replicate count Hex.marker).flatten ++ digits ∧
        Hex.bare digits = Hex.encode x.bytes := by
  rw [ofText?, ofDigits?_eq_some_iff]
  constructor
  · intro spelled
    obtain first | first := Hex.dropMarker_cases text.toList
    · rw [first, first] at spelled
      exact ⟨0, by decide, _, rfl, spelled⟩
    obtain second | second := Hex.dropMarker_cases (Hex.dropMarker text.toList)
    · rw [second] at spelled
      exact ⟨1, by decide, _, first, spelled⟩
    · refine ⟨2, by decide, _, ?_, spelled⟩
      rw [first, second]
      rfl
  · rintro ⟨count, few, digits, marked, spelled⟩
    have alone : Hex.dropMarker digits = digits :=
      Hex.dropMarker_of_not_mem (Hex.not_mem_of_bare spelled)
    rw [marked]
    match count, few with
    | 0, _ => simpa [alone] using spelled
    | 1, _ => simpa [alone] using spelled
    | 2, _ => simpa using spelled

/-- An identifier is read back from its text. -/
theorem ofText?_text (x : FixedBytes size) : ofText? size x.text = some x :=
  ofText?_eq_some_iff.mpr
    ⟨1, by decide, Hex.encode x.bytes, x.toList_text, Hex.bare_encode x.bytes⟩

/-! ## Spellings -/

/-- The text of the identifier, with its marker or without, and its digits in either case. -/
def IsSpelling (x : FixedBytes size) (text : String) : Prop :=
  ∃ digits, (text.toList = digits ∨ text.toList = Hex.marker ++ digits) ∧
    x.text.toList = Hex.marker ++ digits.map Hex.lowerDigit

theorem isSpelling_iff :
    IsSpelling x text ↔ ofText? size text = some x ∧ (∀ c ∈ text.toList, Hex.isBlank c = false) ∧
      ¬ Hex.marker ++ Hex.marker <+: text.toList := by
  rw [ofText?_eq_some_iff]
  constructor
  · rintro ⟨digits, marked, written⟩
    have lower : digits.map Hex.lowerDigit = Hex.encode x.bytes := by
      rw [toList_text] at written
      exact (List.append_cancel_left written).symm
    have shown := Hex.no_blank_of_lower lower
    have spelled := Hex.bare_of_lower lower
    have unmarked := Hex.not_mem_of_bare spelled
    obtain marked | marked := marked
    · rw [marked]
      refine ⟨⟨0, by decide, digits, rfl, spelled⟩, shown, ?_⟩
      rintro ⟨rest, rfl⟩
      exact unmarked (List.mem_append_left rest (by decide))
    · rw [marked]
      refine ⟨⟨1, by decide, digits, rfl, spelled⟩, ?_, ?_⟩
      · rw [List.forall_mem_append]
        exact ⟨List.forall_mem_cons.mpr ⟨rfl, List.forall_mem_singleton.mpr rfl⟩, shown⟩
      · rintro ⟨rest, doubled⟩
        rw [List.append_assoc] at doubled
        rw [← List.append_cancel_left doubled] at unmarked
        exact unmarked (List.mem_append_left rest (by decide))
  · rintro ⟨⟨count, few, digits, marked, spelled⟩, shown, single⟩
    have lower : x.text.toList = Hex.marker ++ digits.map Hex.lowerDigit := by
      rw [toList_text, ← spelled, Hex.bare_of_no_blank]
      intro c member
      apply shown
      rw [marked]
      exact List.mem_append_right _ member
    match count, few with
    | 0, _ => exact ⟨digits, Or.inl marked, lower⟩
    | 1, _ => exact ⟨digits, Or.inr marked, lower⟩
    | 2, _ => exact absurd ⟨digits, marked.symm⟩ single

/-- A text is read as an identifier exactly when behind at most two markers stand its digits, in
either case and with blanks anywhere between them. So every spelling of an identifier is read as
it, with one marker or none, and a text that is read is a spelling unless there is a blank in it or
a second marker. -/
theorem identifiers_read_past_blanks_and_markers (text : String) (x : FixedBytes size) :
    (ofText? size text = some x ↔ ∃ count ≤ 2, ∃ digits,
      text.toList = (List.replicate count Hex.marker).flatten ++ digits ∧
        Hex.marker ++ Hex.bare digits = x.text.toList) ∧
    (IsSpelling x text ↔ ofText? size text = some x ∧ (∀ c ∈ text.toList, Hex.isBlank c = false) ∧
      ¬ Hex.marker ++ Hex.marker <+: text.toList) := by
  refine ⟨?_, isSpelling_iff⟩
  simp only [ofText?_eq_some_iff, toList_text, List.append_cancel_left_eq]

/-- A hash with its marker doubled is read, and an address with a blank before its last digit. -/
theorem doubled_marker_and_blank_read :
    let hash : Hash := .fill 32 1
    let address : Address := .fill 20 1
    let doubled := "0x" ++ hash.text
    let blanked := String.ofList (address.text.toList.take 41 ++ [' ', '1'])
    ofText? 32 doubled = some hash ∧ ¬ IsSpelling hash doubled ∧
      ofText? 20 blanked = some address ∧ ¬ IsSpelling address blanked := by
  intro hash address doubled blanked
  have marked : doubled.toList = Hex.marker ++ Hex.marker ++ Hex.encode hash.bytes := by
    rw [String.toList_append, hash.toList_text]
    rfl
  refine ⟨ofText?_eq_some_iff.mpr ⟨2, by decide, _, marked, Hex.bare_encode hash.bytes⟩, ?_,
    by decide +kernel, ?_⟩
  · rw [isSpelling_iff]
    rintro ⟨_, _, single⟩
    exact single ⟨_, marked.symm⟩
  · rw [isSpelling_iff]
    rintro ⟨_, shown, _⟩
    exact absurd (shown ' ' (by decide +kernel)) (by decide)

end FixedBytes

end MempoolWatch
