import MempoolWatch.Proofs.Call.Calldata

/-! Taggers with registered entries. The tags of a selector are those of the standard table and
of the registered entries together, so that neither the order of the entries nor their repetition
counts. The decoder recognises calls by the standard table alone: a call that it recognises has
its tag whatever was registered, and without registered entries only such calls have tags besides
that of a transfer. -/
namespace MempoolWatch

theorem Transaction.selector?_eq_some_iff {tx : Transaction} {selector : Selector} :
    tx.selector? = some selector ↔ ∃ rest, tx.input = selector.bytes ++ rest := by
  rw [selector?, FixedBytes.ofBytes?_eq_some_iff]
  constructor
  · intro first
    exact ⟨tx.input.drop 4, by rw [← first, List.take_append_drop]⟩
  · rintro ⟨rest, input⟩
    rw [input, List.take_left' selector.length_eq]

/-- A tag in a set of at most one is its only tag. -/
theorem TagSet.toList_eq_singleton {tags : TagSet} {tag : Tag} (single : tags.size ≤ 1)
    (present : tags.contains tag = true) : tags.toList = [tag] := by
  have member : tag ∈ tags.toList := (tags.mem_toList tag).mpr present
  obtain ⟨only, listed⟩ : ∃ only, tags.toList = [only] := by
    apply List.length_eq_one_iff.mp
    exact Nat.le_antisymm single (List.length_pos_of_mem member)
  rw [listed] at member ⊢
  rw [List.mem_singleton.mp member]

namespace Tagger

variable {registered : List (Selector × Tag)} {tx : Transaction} {selector : Selector} {tag : Tag}

theorem mem_standard_entries :
    (selector, tag) ∈ standard.entries ↔
      ∃ call ∈ KnownCall.all, call.selector = selector ∧ call.tag = tag := by
  simp only [standard, List.mem_map, Prod.mk.injEq]

/-- Adding an entry twice is adding it once. -/
theorem mem_entries_register {tagger : Tagger} {entry : Selector × Tag} :
    entry ∈ (tagger.register selector tag).entries ↔
      entry ∈ tagger.entries ∨ entry = (selector, tag) := by
  unfold register
  split
  · next known =>
    constructor
    · exact Or.inl
    · rintro (old | rfl)
      · exact old
      · exact known
  · rw [List.mem_append, List.mem_singleton]

theorem mem_entries_withEntries {entry : Selector × Tag} :
    entry ∈ (withEntries registered).entries ↔ entry ∈ standard.entries ∨ entry ∈ registered := by
  unfold withEntries
  generalize standard = tagger
  induction registered generalizing tagger with
  | nil => simp only [List.foldl_nil, List.not_mem_nil, or_false]
  | cons first rest ih => rw [List.foldl_cons, ih, mem_entries_register, or_assoc, List.mem_cons]

theorem contains_tags_withEntries :
    ((withEntries registered).tags tx).contains tag = true ↔
      (tag = .ethTransfer ∧ tx.value ≠ 0 ∧ tx.input = []) ∨
        ∃ selector rest, tx.input = selector.bytes ++ rest ∧
          ((∃ call ∈ KnownCall.all, call.selector = selector ∧ call.tag = tag) ∨
            (selector, tag) ∈ registered) := by
  simp only [contains_tags, mem_entries_withEntries, mem_standard_entries,
    Transaction.selector?_eq_some_iff, exists_and_right]

theorem contains_tags_mono {more : List (Selector × Tag)} (kept : registered ⊆ more)
    (present : ((withEntries registered).tags tx).contains tag = true) :
    ((withEntries more).tags tx).contains tag = true := by
  rw [contains_tags_withEntries] at present ⊢
  obtain transfer | ⟨selector, rest, input, known | entry⟩ := present
  · exact Or.inl transfer
  · exact Or.inr ⟨selector, rest, input, Or.inl known⟩
  · exact Or.inr ⟨selector, rest, input, Or.inr (kept entry)⟩

theorem tags_withEntries_congr {other : List (Selector × Tag)} (fewer : other ⊆ registered)
    (more : registered ⊆ other) : (withEntries other).tags tx = (withEntries registered).tags tx := by
  apply TagSet.ext_contains
  intro tag
  exact Bool.eq_iff_iff.mpr ⟨contains_tags_mono fewer, contains_tags_mono more⟩

/-- Only the selector counts, and for a transfer the absence of calldata and of value. -/
theorem tags_congr {tagger : Tagger} {other : Transaction} (called : other.selector? = tx.selector?)
    (input : other.input = [] ↔ tx.input = []) (value : other.value = 0 ↔ tx.value = 0) :
    tagger.tags other = tagger.tags tx := by
  apply TagSet.ext_contains
  intro tag
  apply Bool.eq_iff_iff.mpr
  simp only [contains_tags, called, input, value, ne_eq]

/-- A transaction has a tag exactly when it is a transfer, for that tag, or when its first four
bytes are registered with the tag in the standard table or among the registered entries. So
classification depends on the entries that are registered and not on their order or repetition,
further entries take no tag away, and transactions with the same selector, or both without one,
that agree on the absence of calldata and on the absence of value have the same tags. -/
theorem tags_are_union_of_tables (registered : List (Selector × Tag)) :
    (∀ tx tag, ((withEntries registered).tags tx).contains tag = true ↔
      (tag = .ethTransfer ∧ tx.value ≠ 0 ∧ tx.input = []) ∨
        ∃ selector rest, tx.input = selector.bytes ++ rest ∧
          ((∃ call ∈ KnownCall.all, call.selector = selector ∧ call.tag = tag) ∨
            (selector, tag) ∈ registered)) ∧
    (∀ other, other ⊆ registered → registered ⊆ other → ∀ tx,
      (withEntries other).classify tx = (withEntries registered).classify tx) ∧
    (∀ more, registered ⊆ more → ∀ tx tag,
      ((withEntries registered).tags tx).contains tag = true →
      ((withEntries more).tags tx).contains tag = true) ∧
    ∀ a b : Transaction, a.selector? = b.selector? → (a.input = [] ↔ b.input = []) →
      (a.value = 0 ↔ b.value = 0) →
      (withEntries registered).tags a = (withEntries registered).tags b := by
  refine ⟨?_, ?_, ?_, ?_⟩
  · intro tx tag
    exact contains_tags_withEntries
  · intro other fewer more tx
    rw [classify, classify, tags_withEntries_congr fewer more]
  · intro more kept tx tag
    exact contains_tags_mono kept
  · intro a b called input value
    exact tags_congr called input value

/-- The call of a pair, registered as a liquidation, twice, and as a transfer. -/
def crossEntries : List (Selector × Tag) :=
  [(DecodedCall.pairSwapCall.selector, .liquidation), (.fill 4 0, .liquidityOp),
    (DecodedCall.pairSwapCall.selector, .liquidation),
    (DecodedCall.pairSwapCall.selector, .ethTransfer)]

/-- The same entries in another order, each once. -/
def crossEntriesSorted : List (Selector × Tag) :=
  [(DecodedCall.pairSwapCall.selector, .ethTransfer),
    (DecodedCall.pairSwapCall.selector, .liquidation), (.fill 4 0, .liquidityOp)]

theorem tags_of_overlappingSwap_are_union :
    let tx := DecodedCall.payableCall DecodedCall.overlappingSwap
    let bare := DecodedCall.payableCall DecodedCall.pairSwapCall.selector.bytes
    crossEntriesSorted ⊆ crossEntries ∧ crossEntries ⊆ crossEntriesSorted ∧
      bare.selector? = tx.selector? ∧
      (withEntries crossEntriesSorted).classify tx = (withEntries crossEntries).classify tx ∧
      (withEntries crossEntries).tags bare = (withEntries crossEntries).tags tx ∧
      (withEntries crossEntries).tags tx =
        { ethTransfer := true, swap := true, liquidation := true } := by
  intro tx bare
  have fewer : crossEntriesSorted ⊆ crossEntries := by decide
  have more : crossEntries ⊆ crossEntriesSorted := by decide
  obtain ⟨_, anyOrder, _, sameSelector⟩ := tags_are_union_of_tables crossEntries
  refine ⟨fewer, more, rfl, anyOrder _ fewer more tx, ?_, by decide⟩
  exact sameSelector bare tx rfl (iff_of_false nofun nofun) Iff.rfl

end Tagger

namespace DecodedCall

variable {calldata : Bytes} {decoded : DecodedCall}

theorem call_ofArguments (call : KnownCall) (data : Bytes) : (ofArguments call data).call = call := by
  unfold ofArguments
  split <;> rfl

theorem named_of_ofCalldata? (read : ofCalldata? calldata = some decoded) :
    decoded.call ∈ KnownCall.all ∧ calldata.take 4 = decoded.call.selector.bytes := by
  simp only [ofCalldata?, Option.bind_eq_bind, Option.bind_eq_some_iff] at read
  obtain ⟨selector, selected, call, found, same⟩ := read
  cases same
  rw [call_ofArguments]
  rw [KnownCall.find?] at found
  have named : call.selector = selector := by simpa using List.find?_some found
  rw [named]
  exact ⟨List.mem_of_find?_eq_some found, FixedBytes.ofBytes?_eq_some_iff.mp selected⟩

end DecodedCall

namespace Tagger

variable {tx : Transaction} {decoded : DecodedCall}

/-- The entry under which the decoder finds a call is one of the standard tagger. -/
theorem entry_of_call (read : DecodedCall.ofCalldata? tx.input = some decoded) :
    tx.selector? = some decoded.call.selector ∧
      (decoded.call.selector, decoded.call.tag) ∈ standard.entries := by
  obtain ⟨known, named⟩ := DecodedCall.named_of_ofCalldata? read
  exact ⟨FixedBytes.ofBytes?_eq_some_iff.mpr named,
    mem_standard_entries.mpr ⟨decoded.call, known, rfl, rfl⟩⟩

theorem contains_tag_of_call (registered : List (Selector × Tag))
    (read : DecodedCall.ofCalldata? tx.input = some decoded) :
    ((withEntries registered).tags tx).contains decoded.call.tag = true := by
  obtain ⟨called, entry⟩ := entry_of_call read
  rw [contains_tags]
  exact Or.inr ⟨_, called, mem_entries_withEntries.mpr (Or.inl entry)⟩

theorem tag_ne_ethTransfer : ∀ call ∈ KnownCall.all, call.tag ≠ .ethTransfer := by
  decide

/-- With the standard entries alone, a tag that is not the one of a transfer comes from a call
that the decoder recognises. -/
theorem exists_call_of_tag {tag : Tag} (called : tag ≠ .ethTransfer)
    (present : (standard.tags tx).contains tag = true) :
    ∃ decoded, DecodedCall.ofCalldata? tx.input = some decoded := by
  obtain ⟨transfer, _⟩ | ⟨selector, selected, entry⟩ := contains_tags.mp present
  · exact absurd transfer called
  · obtain ⟨call, known, rfl, _⟩ := mem_standard_entries.mp entry
    have named := FixedBytes.ofBytes?_eq_some_iff.mp selected
    exact ⟨_, DecodedCall.ofCalldata?_of_named known named⟩

/-- A transaction whose calldata name a recognised call has the tag of that call, whatever entries
were registered and whether or not its arguments can be read. Without registered entries a
transaction has a tag besides that of a transfer exactly when a call is recognised, and then the
tag of the call is its only tag and the name of the call its function; so it never has two tags. -/
theorem recognised_call_gives_tag (registered : List (Selector × Tag)) (tx : Transaction) :
    (∀ call ∈ KnownCall.all, tx.input.take 4 = call.selector.bytes →
      ∃ decoded, ((withEntries registered).classify tx).call = some decoded ∧ decoded.call = call) ∧
    (∀ decoded, ((withEntries registered).classify tx).call = some decoded →
      ((withEntries registered).classify tx).tags.contains decoded.call.tag = true) ∧
    let classified := standard.classify tx
    ((∃ tag ∈ [Tag.swap, .liquidation, .liquidityOp], classified.tags.contains tag = true) ↔
      ∃ decoded, classified.call = some decoded) ∧
    (∀ decoded, classified.call = some decoded →
      classified.tags.toList = [decoded.call.tag] ∧
      classified.functionName? = some decoded.call.name) ∧
    (classified.functionName? = none ↔ classified.call = none) ∧
    classified.tags.size ≤ 1 := by
  refine ⟨?_, ?_, ?_, ?_, ?_, ?_⟩
  · intro call known named
    exact ⟨_, DecodedCall.ofCalldata?_of_named known named, DecodedCall.call_ofArguments call _⟩
  · intro decoded read
    exact contains_tag_of_call registered read
  · constructor
    · rintro ⟨tag, listed, present⟩
      have called : tag ≠ .ethTransfer := by
        rintro rfl
        revert listed
        decide
      exact exists_call_of_tag called present
    · rintro ⟨decoded, read⟩
      have known := (DecodedCall.named_of_ofCalldata? read).1
      refine ⟨decoded.call.tag, ?_, contains_tag_of_call [] read⟩
      have called := tag_ne_ethTransfer _ known
      cases tag : decoded.call.tag with
      | ethTransfer => exact absurd tag called
      | swap | liquidation | liquidityOp => decide
  · intro decoded read
    constructor
    · exact TagSet.toList_eq_singleton (size_standard_tags_le_one tx) (contains_tag_of_call [] read)
    · rw [ClassifiedTx.functionName?, read, Option.map_some]
  · exact Option.map_eq_none_iff
  · exact size_standard_tags_le_one tx

/-- The call of a pair with half a word behind the selector. -/
def truncatedSwap : Transaction :=
  DecodedCall.payableCall (DecodedCall.pairSwapCall.selector.bytes ++ List.replicate 16 0)

theorem truncatedSwap_recognised :
    ∃ decoded, (standard.classify truncatedSwap).call = some decoded ∧
      decoded.arguments = [] ∧ decoded.call.name = "swap" ∧
      ((withEntries crossEntries).classify truncatedSwap).tags.contains decoded.call.tag = true ∧
      (standard.classify truncatedSwap).tags.toList = [decoded.call.tag] ∧
      (standard.classify truncatedSwap).functionName? = some "swap" := by
  obtain ⟨_, tagged, _, only, _⟩ := recognised_call_gives_tag crossEntries truncatedSwap
  have read : (standard.classify truncatedSwap).call =
      some ⟨DecodedCall.pairSwapCall, [], none⟩ := rfl
  obtain ⟨single, name⟩ := only _ read
  exact ⟨_, read, rfl, rfl, tagged _ read, single, name⟩

end Tagger

end MempoolWatch
