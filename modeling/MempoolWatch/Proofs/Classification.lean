import MempoolWatch.Proofs.Call.RoundTrip
import MempoolWatch.Tagger

/-! Which tags a transaction gets. A tag comes from the transfer of value without calldata or
from an entry for the selector, never from both, since calldata with a selector is not empty.
The standard entries have distinct selectors, so that without further ones the tags exclude
each other. -/
namespace MempoolWatch

namespace TagSet

theorem contains_foldl_insert (tags : List Tag) (set : TagSet) (tag : Tag) :
    (tags.foldl insert set).contains tag = (decide (tag ∈ tags) || set.contains tag) := by
  induction tags generalizing set with
  | nil => simp
  | cons first rest ih =>
    rw [List.foldl_cons, ih, contains_insert]
    by_cases same : tag = first <;> simp [same]

@[simp] theorem contains_ofList (tags : List Tag) (tag : Tag) :
    (ofList tags).contains tag = decide (tag ∈ tags) := by
  rw [ofList, contains_foldl_insert, contains_empty, Bool.or_false]

theorem nodup_toList (tags : TagSet) : tags.toList.Nodup := by
  apply List.Nodup.filter
  decide

/-- Tags that exclude each other are at most one. -/
theorem size_le_one {tags : TagSet}
    (exclusive : ∀ a b, tags.contains a = true → tags.contains b = true → a = b) :
    tags.size ≤ 1 := by
  have distinct := tags.nodup_toList
  have member (tag : Tag) := tags.mem_toList tag
  unfold size
  cases listed : tags.toList with
  | nil => exact Nat.zero_le 1
  | cons a rest =>
    cases rest with
    | nil => exact Nat.le_refl 1
    | cons b rest =>
      rw [listed] at distinct member
      have same : a = b := by
        apply exclusive
        · exact (member a).mp (by simp)
        · exact (member b).mp (by simp)
      simp [same] at distinct

end TagSet

theorem Transaction.selector?_of_empty {tx : Transaction} (empty : tx.input = []) :
    tx.selector? = none := by
  simp [selector?, empty, FixedBytes.ofBytes?]

namespace Tagger

variable {tagger : Tagger} {tx : Transaction}

theorem mem_tagsOf {selector : Selector} {tag : Tag} :
    tag ∈ tagger.tagsOf selector ↔ (selector, tag) ∈ tagger.entries := by
  simp [tagsOf]

theorem contains_tags {tag : Tag} :
    (tagger.tags tx).contains tag = true ↔
      (tag = .ethTransfer ∧ tx.value ≠ 0 ∧ tx.input = []) ∨
        ∃ selector, tx.selector? = some selector ∧ (selector, tag) ∈ tagger.entries := by
  have transfer : tag ∈ (if tx.value ≠ 0 ∧ tx.hasEmptyInput = true then [Tag.ethTransfer] else [])
      ↔ tag = .ethTransfer ∧ tx.value ≠ 0 ∧ tx.input = [] := by
    simp only [Transaction.hasEmptyInput, List.isEmpty_iff]
    split
    · next holds => simp only [List.mem_singleton, holds, ne_eq, not_false_eq_true, and_self, and_true]
    · next fails => simp only [List.not_mem_nil, fails, and_false]
  simp only [tags, TagSet.contains_ofList, decide_eq_true_eq, List.mem_append, transfer]
  cases tx.selector? with
  | none => simp only [List.not_mem_nil, reduceCtorEq, false_and, exists_false]
  | some selector => simp only [mem_tagsOf, Option.some.injEq, exists_eq_left']

/-- A transfer has no other tag, whatever entries there are. -/
theorem tags_of_transfer (value : tx.value ≠ 0) (empty : tx.input = []) :
    tagger.tags tx = { ethTransfer := true } := by
  apply TagSet.ext_contains
  intro tag
  apply Bool.eq_iff_iff.mpr
  rw [contains_tags, Transaction.selector?_of_empty empty]
  constructor
  · rintro (⟨rfl, _⟩ | ⟨selector, found, _⟩)
    · rfl
    · cases found
  · intro tagged
    cases tag with
    | ethTransfer => exact Or.inl ⟨rfl, value, empty⟩
    | swap | liquidation | liquidityOp => cases tagged

/-- With calldata for a selector nothing but the selector counts. -/
theorem tags_of_selector? {other : Transaction} {selector : Selector}
    (called : tx.selector? = some selector) (same : other.selector? = some selector) :
    tagger.tags other = tagger.tags tx := by
  have present {tx : Transaction} (called : tx.selector? = some selector) : tx.input ≠ [] := by
    intro empty
    rw [Transaction.selector?_of_empty empty] at called
    contradiction
  apply TagSet.ext_contains
  intro tag
  apply Bool.eq_iff_iff.mpr
  simp only [contains_tags, called, same, present called, present same, and_false]

theorem eq_of_mem_standard {selector : Selector} {a b : Tag}
    (first : (selector, a) ∈ standard.entries) (second : (selector, b) ∈ standard.entries) :
    a = b := by
  obtain ⟨call, known, same⟩ := List.mem_map.mp first
  obtain ⟨other, known', same'⟩ := List.mem_map.mp second
  obtain ⟨rfl, rfl⟩ := Prod.mk.inj same
  obtain ⟨selectors, rfl⟩ := Prod.mk.inj same'
  rw [List.inj_on_of_nodup_map KnownCall.distinct_selectors known' known selectors]

/-- Without further entries a transaction has at most one tag. -/
theorem size_standard_tags_le_one (tx : Transaction) : (standard.tags tx).size ≤ 1 := by
  apply TagSet.size_le_one
  intro a b taggedA taggedB
  rcases contains_tags.mp taggedA with ⟨rfl, _, empty⟩ | ⟨selector, found, entry⟩
  · rcases contains_tags.mp taggedB with ⟨rfl, _⟩ | ⟨selector, found, _⟩
    · rfl
    · rw [Transaction.selector?_of_empty empty] at found
      contradiction
  · rcases contains_tags.mp taggedB with ⟨rfl, _, empty⟩ | ⟨other, found', entry'⟩
    · rw [Transaction.selector?_of_empty empty] at found
      contradiction
    · rw [found] at found'
      cases found'
      exact eq_of_mem_standard entry entry'

end Tagger

end MempoolWatch
