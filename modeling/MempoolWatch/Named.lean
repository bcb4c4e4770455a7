/-! Values by name, each name once, in the order of the names. Setting a name that
is there replaces its value. -/
namespace MempoolWatch

abbrev Named (α : Type) := List (String × α)

namespace Named

variable {α : Type}

def set (name : String) (value : α) : Named α → Named α
  | [] => [(name, value)]
  | (first, old) :: rest =>
    if name < first then (name, value) :: (first, old) :: rest
    else if name = first then (name, value) :: rest
    else (first, old) :: set name value rest

/-- Sets the names one after the other; of a repeated name the last value stays. -/
def ofList (entries : List (String × α)) : Named α :=
  entries.foldl (fun named (name, value) => set name value named) []

def get? (named : Named α) (name : String) : Option α :=
  named.lookup name

theorem get?_cons (first name : String) (value : α) (rest : Named α) :
    get? ((first, value) :: rest) name = if name = first then some value else get? rest name := by
  unfold get?
  rw [List.lookup_cons]
  by_cases same : name = first
  · rw [if_pos same, beq_iff_eq.mpr same]
  · rw [if_neg same, beq_eq_false_iff_ne.mpr same]

theorem get?_set (named : Named α) (name other : String) (value : α) :
    get? (set name value named) other = if other = name then some value else get? named other := by
  induction named with
  | nil => simp only [set, get?_cons]
  | cons entry rest ih =>
    obtain ⟨first, old⟩ := entry
    rw [set]
    split
    · simp only [get?_cons]
    · split
      · next same => simp only [get?_cons, same]; split <;> rfl
      · next differ =>
        simp only [get?_cons, ih]
        split
        · next same => rw [if_neg fun equal => differ (equal.symm.trans same)]
        · rfl

/-- Of a repeated name the last entry counts. -/
theorem get?_ofList (entries : List (String × α)) (name : String) :
    get? (ofList entries) name = entries.reverse.lookup name := by
  have behind : ∀ named : Named α,
      get? (entries.foldl (fun named (name, value) => set name value named) named) name =
        (entries.reverse.lookup name).or (get? named name) := by
    induction entries with
    | nil => exact fun _ => rfl
    | cons entry rest ih =>
      obtain ⟨first, value⟩ := entry
      intro named
      have alone : get? (set first value named) name =
          (List.lookup name [(first, value)]).or (get? named name) := by
        rw [get?_set, ← get?, get?_cons]
        split <;> rfl
      rw [List.foldl_cons, ih, alone, List.reverse_cons, List.lookup_append, Option.or_assoc]
  exact (behind []).trans Option.or_none

end Named

end MempoolWatch
