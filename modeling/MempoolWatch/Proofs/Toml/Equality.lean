import MempoolWatch.Toml.Value

/-! Equality of values, decided along their structure, so that what a given text denotes can be
checked by running the reader. -/
namespace MempoolWatch.Toml

mutual

def isSame : Toml → Toml → Bool
  | string text, string other => text = other
  | integer value, integer other => value = other
  | float value, float other => value = other
  | bool value, bool other => value = other
  | moment, moment => true
  | array items, array others => areSame items others
  | table members, table others => membersSame members others
  | _, _ => false

def areSame : List Toml → List Toml → Bool
  | [], [] => true
  | item :: rest, other :: others => item.isSame other && areSame rest others
  | _, _ => false

def membersSame : List (String × Toml) → List (String × Toml) → Bool
  | [], [] => true
  | (name, value) :: rest, (key, other) :: others =>
    name = key && value.isSame other && membersSame rest others
  | _, _ => false

end

mutual

theorem isSame_iff : (value other : Toml) → (value.isSame other = true ↔ value = other)
  | string _, other | integer _, other | float _, other | bool _, other | moment, other => by
    cases other <;> simp [isSame]
  | array items, other => by
    cases other <;> simp [isSame, areSame_iff items]
  | table members, other => by
    cases other <;> simp [isSame, membersSame_iff members]

theorem areSame_iff : (items others : List Toml) → (areSame items others = true ↔ items = others)
  | [], others => by
    cases others <;> simp [areSame]
  | item :: rest, others => by
    cases others <;> simp [areSame, isSame_iff item, areSame_iff rest]

theorem membersSame_iff : (members others : List (String × Toml)) →
    (membersSame members others = true ↔ members = others)
  | [], others => by
    cases others <;> simp [membersSame]
  | (name, value) :: rest, others => by
    rcases others with _ | ⟨⟨key, other⟩, others⟩ <;>
      simp [membersSame, isSame_iff value, membersSame_iff rest]

end

instance : DecidableEq Toml :=
  fun value other => decidable_of_iff _ (isSame_iff value other)

end MempoolWatch.Toml
