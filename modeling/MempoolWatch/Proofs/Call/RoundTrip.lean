import Mathlib.Data.List.Nodup
import MempoolWatch.Call.Decoded
import MempoolWatch.Proofs.Abi.Offsets

/-! Recognised calls are decoded to what was encoded. Every entry of the table is found
under its selector, its types keep all offsets small, and its amount field points at
unsigned integers among its parameters. -/
namespace MempoolWatch

open Abi

namespace KnownCall

theorem distinct_selectors : (all.map selector).Nodup := by
  decide

theorem find?_selector {call : KnownCall} (known : call ∈ all) :
    find? call.selector = some call := by
  have present : (find? call.selector).isSome = true :=
    List.find?_isSome.mpr ⟨call, known, decide_eq_true rfl⟩
  obtain ⟨other, found⟩ := Option.isSome_iff_exists.mp present
  rw [find?] at found
  have same : other.selector = call.selector := by simpa using List.find?_some found
  have member : other ∈ all := List.mem_of_find?_eq_some found
  rw [find?, found, List.inj_on_of_nodup_map distinct_selectors member known same]

theorem shallow_params : ∀ call ∈ all, Param.isShallow (.tuple call.params) = true := by
  decide

/-- The only call whose arguments take no room is the one without parameters. -/
theorem params_take_room :
    ∀ call ∈ all, call.params.isEmpty = true ∨ 0 < Param.headsSize call.params := by
  decide

end KnownCall

def Abi.Param.isUint : Param → Bool
  | .uint _ => true
  | _ => false

namespace AmountField

/-- The amount that the arguments carry where the field says. -/
inductive Carried (arguments : List Value) : AmountField → Option Word → Prop
  | nativeValue : Carried arguments .nativeValue none
  | param {index : Nat} {word : Word} (argument : arguments[index]? = some (.uint word)) :
      Carried arguments (.param index) (some word)
  | tupleField {index field : Nat} {fields : List Value} {word : Word}
      (argument : arguments[index]? = some (.tuple fields))
      (component : fields[field]? = some (.uint word)) :
      Carried arguments (.tupleField index field) (some word)
  | largestOf {indexes : List Nat} {words : List Word} {largest : Word}
      (each : indexes.map (fun index => arguments[index]?) =
        words.map fun word => some (.uint word))
      (member : largest ∈ words) (maximal : ∀ word ∈ words, word.toNat ≤ largest.toNat) :
      Carried arguments (.largestOf indexes) (some largest)

/-- The field points at unsigned integers among the parameters. -/
def pointsAtUint (params : List Param) : AmountField → Bool
  | .nativeValue => true
  | .param index => (params[index]?).any Param.isUint
  | .tupleField index field =>
    match params[index]? with
    | some (.tuple fields) => (fields[field]?).any Param.isUint
    | _ => false
  | .largestOf indexes =>
    ! indexes.isEmpty && indexes.all fun index => (params[index]?).any Param.isUint

end AmountField

theorem KnownCall.pointsAtUint : ∀ call ∈ all, call.amount.pointsAtUint call.params = true := by
  decide

theorem Abi.HaveTypes.getElem? {values : List Value} {params : List Param}
    (typed : HaveTypes values params) {index : Nat} {param : Param}
    (declared : params[index]? = some param) :
    ∃ value, values[index]? = some value ∧ HasType value param := by
  induction values generalizing params index with
  | nil => cases typed; cases declared
  | cons value rest ih =>
    obtain _ | ⟨first, others⟩ := typed
    cases index with
    | zero => cases declared; exact ⟨value, rfl, first⟩
    | succ index => exact ih others declared

theorem Abi.HaveTypes.getElem?_uint {values : List Value} {params : List Param}
    (typed : HaveTypes values params) {index : Nat}
    (uint : (params[index]?).any Param.isUint = true) :
    ∃ word, values[index]? = some (.uint word) := by
  obtain ⟨param, declared, isUint⟩ := (Option.any_eq_true _ _).mp uint
  obtain ⟨value, found, ofType⟩ := typed.getElem? declared
  cases ofType with
  | uint word => exact ⟨word, found⟩
  | int | bool | address | bytes | array | tuple => cases isUint

theorem Abi.HaveTypes.map_getElem?_uint {values : List Value} {params : List Param}
    (typed : HaveTypes values params) {indexes : List Nat}
    (uints : ∀ index ∈ indexes, (params[index]?).any Param.isUint = true) :
    ∃ words : List Word, indexes.map (fun index => values[index]?) =
      words.map fun word => some (.uint word) := by
  induction indexes with
  | nil => exact ⟨[], rfl⟩
  | cons index rest ih =>
    rw [List.forall_mem_cons] at uints
    obtain ⟨word, found⟩ := typed.getElem?_uint uints.1
    obtain ⟨words, others⟩ := ih uints.2
    exact ⟨word :: words, by rw [List.map_cons, List.map_cons, found, others]⟩

theorem Word.max_spec (a b : Word) :
    (Word.max a b = a ∨ Word.max a b = b) ∧
      a.toNat ≤ (Word.max a b).toNat ∧ b.toNat ≤ (Word.max a b).toNat := by
  rw [Word.max]
  split
  · next less => exact ⟨Or.inr rfl, less, Nat.le_refl _⟩
  · next less => exact ⟨Or.inl rfl, Nat.le_refl _, Nat.le_of_not_le less⟩

theorem Word.foldl_max_spec (word : Word) (rest : List Word) :
    rest.foldl Word.max word ∈ word :: rest ∧
      ∀ other ∈ word :: rest, other.toNat ≤ (rest.foldl Word.max word).toNat := by
  induction rest generalizing word with
  | nil =>
    refine ⟨List.mem_singleton_self word, fun other member => ?_⟩
    rw [List.mem_singleton.mp member]
    exact Nat.le_refl _
  | cons next rest ih =>
    obtain ⟨member, maximal⟩ := ih (Word.max word next)
    obtain ⟨isOne, leftLe, rightLe⟩ := Word.max_spec word next
    rw [List.forall_mem_cons] at maximal
    rw [List.foldl_cons, List.forall_mem_cons, List.forall_mem_cons]
    refine ⟨?_, Nat.le_trans leftLe maximal.1, Nat.le_trans rightLe maximal.1, maximal.2⟩
    obtain same | later := List.mem_cons.mp member
    · rw [same]
      obtain first | second := isOne
      · rw [first]
        exact List.mem_cons_self
      · rw [second]
        exact List.mem_cons_of_mem _ List.mem_cons_self
    · exact List.mem_cons_of_mem _ (List.mem_cons_of_mem _ later)

namespace DecodedCall

theorem largest?_spec {words : List Word} (some : words ≠ []) :
    ∃ largest ∈ words, largest? words = .some largest ∧
      ∀ word ∈ words, word.toNat ≤ largest.toNat := by
  cases words with
  | nil => exact absurd rfl some
  | cons word rest =>
    obtain ⟨member, maximal⟩ := Word.foldl_max_spec word rest
    exact ⟨_, member, rfl, maximal⟩

/-- The amount of a call is the one that its typed arguments carry. -/
theorem carried_amountOf {values : List Value} {params : List Param}
    (typed : HaveTypes values params) {field : AmountField}
    (points : field.pointsAtUint params = true) : field.Carried values (amountOf values field) := by
  cases field with
  | nativeValue => exact .nativeValue
  | param index =>
    obtain ⟨word, found⟩ := typed.getElem?_uint points
    rw [amountOf, found]
    exact .param found
  | tupleField index field =>
    rw [AmountField.pointsAtUint] at points
    split at points
    · next fields declared =>
      obtain ⟨value, found, ofType⟩ := typed.getElem? declared
      obtain _ | _ | _ | _ | _ | _ | ⟨each⟩ := ofType
      obtain ⟨word, component⟩ := each.getElem?_uint points
      simp only [amountOf, found, component]
      exact .tupleField found component
    · cases points
  | largestOf indexes =>
    rw [AmountField.pointsAtUint, Bool.and_eq_true, List.all_eq_true, Bool.not_eq_true'] at points
    obtain ⟨words, each⟩ := typed.map_getElem?_uint points.2
    have read : (indexes.filterMap fun index => values[index]?.bind unsigned?) = words := by
      calc indexes.filterMap (fun index => values[index]?.bind unsigned?)
          = (indexes.map fun index => values[index]?).filterMap (·.bind unsigned?) := by
            rw [List.filterMap_map]; rfl
        _ = words.filterMap some := by rw [each, List.filterMap_map]; rfl
        _ = words := List.filterMap_some
    have nonempty : words ≠ [] := by
      rintro rfl
      rw [List.map_nil, List.map_eq_nil_iff] at each
      rw [each] at points
      cases points.1
    obtain ⟨largest, member, isLargest, maximal⟩ := largest?_spec nonempty
    rw [amountOf, read, isLargest]
    exact .largestOf each member maximal

/-- Calldata of a recognised call, with any bytes behind the arguments, is decoded to that
call, its arguments and the amount that it carries. The lengths are those that a reader can
take from the last four bytes of a word. -/
theorem ofCalldata?_encode {call : KnownCall} (known : call ∈ KnownCall.all)
    {values : List Value} (typed : HaveTypes values call.params) (lengths : AllLengthsFit values)
    (trailing : Bytes) :
    ∃ amount, ofCalldata? (call.selector.bytes ++ (encode values ++ trailing)) =
        some ⟨call, values, amount⟩ ∧
      call.amount.Carried values amount := by
  refine ⟨_, ?_, carried_amountOf typed (KnownCall.pointsAtUint call known)⟩
  have decoded := decode_encode_of_shallow typed (KnownCall.shallow_params call known)
    (KnownCall.params_take_room call known) lengths trailing
  rw [ofCalldata?, List.take_left' call.selector.length_eq, List.drop_left' call.selector.length_eq,
    FixedBytes.ofBytes?_bytes, Option.bind_eq_bind, Option.bind_some,
    KnownCall.find?_selector known, Option.bind_eq_bind, Option.bind_some, ofArguments, decoded]
  rfl

/-- A path of two tokens and a fee, the recipient, the deadline, a thousand units to swap
and nine hundred to receive at least. -/
def pathSwapArguments : List Value :=
  [.tuple [.bytes (List.replicate 43 7), .address (.fill 20 3), .uint 1700000000, .uint 1000,
    .uint 900]]

theorem ofCalldata?_pathSwap :
    ∃ call ∈ KnownCall.all, call.name = "exactInput" ∧
      HaveTypes pathSwapArguments call.params ∧ AllLengthsFit pathSwapArguments ∧
      ofCalldata? (call.selector.bytes ++ (encode pathSwapArguments ++ [0xff])) =
        some ⟨call, pathSwapArguments, some 1000⟩ := by
  have known : KnownCall.all[7] ∈ KnownCall.all := List.getElem_mem _
  have typed : HaveTypes pathSwapArguments KnownCall.all[7].params :=
    .cons (.tuple (.cons (.bytes _) (.cons (.address _) (.cons (.uint _ _) (.cons (.uint _ _)
      (.cons (.uint _ _) .nil)))))) .nil
  have lengths : AllLengthsFit pathSwapArguments := by
    refine ⟨⟨?_, trivial, trivial, trivial, trivial, trivial⟩, trivial⟩
    show (List.replicate 43 7).length < offsetLimit
    decide
  obtain ⟨amount, decoded, carried⟩ := ofCalldata?_encode known typed lengths [0xff]
  have carried : AmountField.Carried pathSwapArguments (.tupleField 0 3) amount := carried
  obtain _ | _ | ⟨argument, component⟩ := carried
  cases argument
  cases component
  exact ⟨_, known, rfl, typed, lengths, decoded⟩

end DecodedCall

end MempoolWatch
