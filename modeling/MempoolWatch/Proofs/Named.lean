import MempoolWatch.Named
import Mathlib.Data.String.Basic
import Mathlib.Data.List.Induction
import Mathlib.Data.List.Nodup
import Mathlib.Order.Basic

/-! The names of values by name. They stand in their order, each of them once, and values that are
set under different names do not get in each other's way. -/
namespace MempoolWatch.Named

variable {α : Type}

def names (named : Named α) : List String :=
  named.map Prod.fst

/-- Every name is less than the ones behind it. -/
def Ordered (named : Named α) : Prop :=
  named.names.Pairwise (· < ·)

theorem Ordered.nodup {named : Named α} (ordered : named.Ordered) : named.names.Nodup :=
  ordered.imp ne_of_lt

theorem mem_of_mem_set {named : Named α} {name : String} {value : α} {member : String × α}
    (present : member ∈ set name value named) : member = (name, value) ∨ member ∈ named := by
  induction named with
  | nil => exact Or.inl (List.mem_singleton.mp present)
  | cons entry rest ih =>
    obtain ⟨first, old⟩ := entry
    rw [set] at present
    split at present
    · exact List.mem_cons.mp present
    · split at present
      · exact (List.mem_cons.mp present).imp id (List.mem_cons_of_mem _)
      · rcases List.mem_cons.mp present with rfl | behind
        · exact Or.inr List.mem_cons_self
        · exact (ih behind).imp id (List.mem_cons_of_mem _)

theorem mem_names_set {named : Named α} {name other : String} {value : α} :
    other ∈ (set name value named).names ↔ other = name ∨ other ∈ named.names := by
  induction named with
  | nil => simp [set, names]
  | cons entry rest ih =>
    obtain ⟨first, old⟩ := entry
    rw [set]
    split
    · simp [names]
    · split
      · next same => simp [names, same]
      · simp only [names, List.map_cons, List.mem_cons] at ih ⊢
        rw [ih, or_left_comm]

theorem ordered_set {named : Named α} (ordered : named.Ordered) (name : String) (value : α) :
    (set name value named).Ordered := by
  induction named with
  | nil => exact List.pairwise_singleton _ _
  | cons entry rest ih =>
    obtain ⟨first, old⟩ := entry
    obtain ⟨least, others⟩ := List.pairwise_cons.mp ordered
    rw [set]
    split
    · next before =>
      refine List.pairwise_cons.mpr ⟨?_, ordered⟩
      intro other member
      rcases List.mem_cons.mp member with rfl | member
      · exact before
      · exact before.trans (least other member)
    · next notBefore =>
      split
      · next same =>
        subst same
        exact List.pairwise_cons.mpr ⟨least, others⟩
      · next differ =>
        refine List.pairwise_cons.mpr ⟨?_, ih others⟩
        intro other member
        rcases mem_names_set.mp member with rfl | member
        · exact lt_of_le_of_ne (not_lt.mp notBefore) (Ne.symm differ)
        · exact least other member

theorem mem_names_ofList {entries : List (String × α)} {name : String} :
    name ∈ (ofList entries).names ↔ name ∈ entries.map Prod.fst := by
  induction entries using List.reverseRecOn with
  | nil => exact Iff.rfl
  | append_singleton entries entry ih =>
    rw [ofList, List.foldl_append, List.map_append, List.mem_append, ← ih]
    exact mem_names_set.trans (or_comm.trans (or_congr_right (by simp)))

theorem ordered_ofList (entries : List (String × α)) : (ofList entries).Ordered := by
  induction entries using List.reverseRecOn with
  | nil => exact .nil
  | append_singleton entries entry ih =>
    rw [ofList, List.foldl_append]
    exact ordered_set ih entry.1 entry.2

theorem get?_eq_none_iff {named : Named α} {name : String} :
    get? named name = none ↔ name ∉ named.names := by
  induction named with
  | nil => simp [get?, names]
  | cons entry rest ih =>
    obtain ⟨first, value⟩ := entry
    rw [get?_cons]
    simp only [names, List.map_cons, List.mem_cons, not_or] at ih ⊢
    split
    · next same => simp [same]
    · next differ => simp [ih, differ]

theorem mem_of_get? {named : Named α} {name : String} {value : α}
    (found : get? named name = some value) : (name, value) ∈ named := by
  induction named with
  | nil => cases found
  | cons entry rest ih =>
    obtain ⟨first, old⟩ := entry
    rw [get?_cons] at found
    split at found
    · next same =>
      cases found
      exact same ▸ List.mem_cons_self
    · exact List.mem_cons_of_mem _ (ih found)

/-- With each name once, a name leads to every value that stands under it. -/
theorem get?_eq_some_iff {named : Named α} (distinct : named.names.Nodup) {name : String}
    {value : α} : get? named name = some value ↔ (name, value) ∈ named := by
  refine ⟨mem_of_get?, ?_⟩
  intro member
  induction named with
  | nil => cases member
  | cons entry rest ih =>
    obtain ⟨first, old⟩ := entry
    obtain ⟨fresh, distinct⟩ := List.nodup_cons.mp distinct
    rw [get?_cons]
    rcases List.mem_cons.mp member with same | behind
    · cases same
      rw [if_pos rfl]
    · have differ : name ≠ first := by
        rintro rfl
        exact fresh (List.mem_map.mpr ⟨_, behind, rfl⟩)
      rw [if_neg differ, ih distinct behind]

theorem get?_ofList_of_mem {entries : List (String × α)} (distinct : (entries.map Prod.fst).Nodup)
    {name : String} {value : α} (member : (name, value) ∈ entries) :
    get? (ofList entries) name = some value := by
  have distinct : (names entries.reverse).Nodup := by
    rw [names, List.map_reverse]
    exact List.nodup_reverse.mpr distinct
  rw [get?_ofList]
  exact (get?_eq_some_iff distinct).mpr (List.mem_reverse.mpr member)

/-- Entries with distinct names are kept as they are, in the order of the names. -/
theorem perm_ofList {entries : List (String × α)} (distinct : (entries.map Prod.fst).Nodup) :
    (ofList entries).Perm entries := by
  refine (List.perm_ext_iff_of_nodup ((ordered_ofList entries).nodup.of_map Prod.fst)
    (distinct.of_map Prod.fst)).mpr ?_
  rintro ⟨name, value⟩
  constructor
  · intro member
    have found := (get?_eq_some_iff (ordered_ofList entries).nodup).mpr member
    rw [get?_ofList] at found
    exact List.mem_reverse.mp (mem_of_get? found)
  · intro member
    exact mem_of_get? (get?_ofList_of_mem distinct member)

/-- Of a name that has been set twice the last value stays. -/
theorem set_set (named : Named α) (name : String) (value latest : α) :
    set name latest (set name value named) = set name latest named := by
  induction named with
  | nil => simp [set]
  | cons entry rest ih =>
    obtain ⟨first, old⟩ := entry
    by_cases before : name < first
    · simp [set, before]
    · by_cases same : name = first
      · simp [set, same]
      · simp [set, before, same, ih]

theorem set_comm_of_lt (named : Named α) {name other : String} (less : name < other)
    (value otherValue : α) :
    set name value (set other otherValue named) = set other otherValue (set name value named) := by
  induction named with
  | nil => simp [set, less, less.not_gt, less.ne']
  | cons entry rest ih =>
    obtain ⟨first, old⟩ := entry
    rcases lt_trichotomy other first with before | rfl | behind
    · simp [set, less, before, less.trans before, less.not_gt, less.ne']
    · simp [set, less, less.not_gt, less.ne']
    · rcases lt_trichotomy name first with before | rfl | behind'
      · simp [set, before, less.not_gt, less.ne', behind.not_gt, behind.ne']
      · simp [set, behind.not_gt, behind.ne']
      · simp [set, behind.not_gt, behind.ne', behind'.not_gt, behind'.ne', ih]

/-- Values under different names can be set in either order. -/
theorem set_comm (named : Named α) {name other : String} (differ : name ≠ other)
    (value otherValue : α) :
    set name value (set other otherValue named) = set other otherValue (set name value named) := by
  rcases lt_or_gt_of_ne differ with less | greater
  · exact set_comm_of_lt named less value otherValue
  · exact (set_comm_of_lt named greater otherValue value).symm

end MempoolWatch.Named
