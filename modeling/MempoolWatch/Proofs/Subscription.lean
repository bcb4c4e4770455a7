import Mathlib.Data.List.Basic
import MempoolWatch.Subscription.Session

/-! A subscription follows the messages of its connection. The first message that settles the
request decides whether there is a session, and the session then gives the hashes of its own
announcements in their order, until the connection ends. -/
namespace MempoolWatch.Subscription

/-- What a message settles about a request that waits for its answer. -/
inductive Message.Settles : Message → Except Fault String → Prop
  | confirmed {content id : String} (frame : Frame.ofText content = .confirmation requestId id) :
    Settles (.text content) (.ok id)
  | rejected {content reason : String} {id : Option Nat}
    (frame : Frame.ofText content = .rejection id reason) :
    Settles (.text content) (.error (.subscription reason))
  | closed : Settles .close (.error Session.endedEarly)
  | failed (reason : String) :
    Settles (.failure reason) (.error (.connection ("Falha antes da confirmação: " ++ reason)))

def Message.PassedOver (message : Message) : Prop :=
  ∀ outcome, ¬ message.Settles outcome

/-- The connection goes on behind the message. -/
def Message.isOngoing : Message → Bool
  | .text _ | .other => true
  | .close | .failure _ => false

/-- The hash that a message announces on the subscription of this name. -/
def Message.announced? (id : String) : Message → Option Hash
  | .text content => Session.hash? id content
  | _ => none

/-- What a message that ends the connection says about the end. -/
def Message.fault? : Message → Option Fault
  | .failure reason => some (.connection ("Erro no WebSocket: " ++ reason))
  | _ => none

/-- The hashes that are announced on a subscription until the connection ends. -/
def announced (id : String) (messages : List Message) : List Hash :=
  (messages.takeWhile Message.isOngoing).filterMap (Message.announced? id)

/-- The message that ends the connection, if one does, and those behind it. -/
def ending (messages : List Message) : List Message :=
  messages.dropWhile Message.isOngoing

/-- The fault that the connection ends with, if it ends with one. -/
def fault? (messages : List Message) : Option Fault :=
  (ending messages).head?.bind Message.fault?

/-- What there is to hear on a subscription. -/
def heard (id : String) (messages : List Message) : List (Except Fault Hash) :=
  (announced id messages).map .ok ++ ((fault? messages).map .error).toList

namespace Session

section Confirmation

variable {message : Message} {messages rest : List Message}

theorem confirm_of_settles {outcome : Except Fault String} (settles : message.Settles outcome) :
    confirm (message :: rest) = outcome.map fun id => ⟨id, true, rest⟩ := by
  cases settles with
  | confirmed frame =>
    simp only [confirm, frame, if_true]
    rfl
  | rejected frame =>
    simp only [confirm, frame]
    rfl
  | closed | failed => rfl

theorem confirm_of_passedOver (passed : message.PassedOver) :
    confirm (message :: rest) = confirm rest := by
  cases message with
  | text content =>
    cases frame : Frame.ofText content with
    | confirmation id subscription =>
      by_cases own : id = requestId
      · subst own
        exact absurd (.confirmed frame) (passed _)
      · simp only [confirm, frame, if_neg own]
    | rejection id reason => exact absurd (.rejected frame) (passed _)
    | notification | ignored => simp only [confirm, frame]
  | other => rfl
  | close => exact absurd .closed (passed _)
  | failure reason => exact absurd (.failed reason) (passed _)

theorem confirm_skipped {skipped : List Message}
    (passed : ∀ earlier ∈ skipped, earlier.PassedOver) :
    confirm (skipped ++ rest) = confirm rest := by
  induction skipped with
  | nil => rfl
  | cons first others ih =>
    rw [List.forall_mem_cons] at passed
    rw [List.cons_append, confirm_of_passedOver passed.1, ih passed.2]

theorem passedOver_other : Message.PassedOver .other := by
  intro outcome settles
  cases settles

theorem passedOver_of_confirmation {content name : String} {id : Nat}
    (frame : Frame.ofText content = .confirmation id name) (foreign : id ≠ requestId) :
    Message.PassedOver (.text content) := by
  intro outcome settles
  cases settles with
  | confirmed own =>
    rw [frame] at own
    cases own
    exact foreign rfl
  | rejected rejection =>
    rw [frame] at rejection
    cases rejection

/-- If any message settles the request, there is a first one that does. -/
theorem passedOver_or_settled (messages : List Message) :
    (∀ earlier ∈ messages, earlier.PassedOver) ∨
      ∃ skipped message rest outcome, messages = skipped ++ message :: rest ∧
        (∀ earlier ∈ skipped, earlier.PassedOver) ∧ message.Settles outcome := by
  induction messages with
  | nil => exact .inl (List.forall_mem_nil _)
  | cons first others ih =>
    by_cases passed : first.PassedOver
    · obtain all | ⟨skipped, message, rest, outcome, rfl, before, settles⟩ := ih
      · exact .inl (List.forall_mem_cons.mpr ⟨passed, all⟩)
      · exact .inr ⟨first :: skipped, message, rest, outcome, rfl,
          List.forall_mem_cons.mpr ⟨passed, before⟩, settles⟩
    · obtain ⟨outcome, settles⟩ := not_forall_not.mp passed
      exact .inr ⟨[], first, others, outcome, rfl, List.forall_mem_nil _, settles⟩

theorem confirm_eq_iff {answer : Except Fault Session} :
    confirm messages = answer ↔
      (∃ skipped message rest outcome, messages = skipped ++ message :: rest ∧
        (∀ earlier ∈ skipped, earlier.PassedOver) ∧ message.Settles outcome ∧
        answer = outcome.map fun id => ⟨id, true, rest⟩) ∨
      (∀ earlier ∈ messages, earlier.PassedOver) ∧ answer = .error endedEarly := by
  have unanswered (passed : ∀ earlier ∈ messages, earlier.PassedOver) :
      confirm messages = .error endedEarly :=
    calc confirm messages
      _ = confirm (messages ++ []) := by rw [List.append_nil]
      _ = confirm [] := confirm_skipped passed
  constructor
  · rintro rfl
    obtain passed | ⟨skipped, message, rest, outcome, rfl, passed, settles⟩ :=
      passedOver_or_settled messages
    · exact .inr ⟨passed, unanswered passed⟩
    · refine .inl ⟨skipped, message, rest, outcome, rfl, passed, settles, ?_⟩
      rw [confirm_skipped passed, confirm_of_settles settles]
  · rintro (⟨skipped, message, rest, outcome, rfl, passed, settles, rfl⟩ | ⟨passed, rfl⟩)
    · rw [confirm_skipped passed, confirm_of_settles settles]
    · exact unanswered passed

/-- A confirmed session starts open. -/
theorem eq_of_confirm {session : Session} (confirmed : confirm messages = .ok session) :
    session = ⟨session.id, true, session.unread⟩ := by
  obtain ⟨_, _, rest, outcome, _, _, _, answer⟩ | ⟨_, answer⟩ := confirm_eq_iff.mp confirmed
  · cases outcome with
    | ok id =>
      cases answer
      rfl
    | error fault => cases answer
  · cases answer

end Confirmation

theorem hash?_eq_some_iff {id content : String} {hash : Hash} :
    hash? id content = some hash ↔ Frame.ofText content = .notification id hash := by
  unfold hash?
  constructor
  · intro found
    split at found
    · next subscription announced frame =>
      obtain ⟨rfl, own⟩ := Option.ite_none_right_eq_some.mp found
      cases own
      exact frame
    · cases found
  · intro frame
    rw [frame]
    exact if_pos rfl

theorem hash?_of_foreign {id name content : String} {hash : Hash}
    (frame : Frame.ofText content = .notification name hash) (foreign : name ≠ id) :
    hash? id content = none := by
  rw [Option.eq_none_iff_forall_ne_some]
  intro own found
  rw [hash?_eq_some_iff, frame] at found
  cases found
  exact foreign rfl

/-- The session after a number of requests for the next hash. -/
def afterCalls : Nat → Session → Session
  | 0, session => session
  | calls + 1, session => afterCalls calls session.next.2

theorem afterCalls_add (first second : Nat) (session : Session) :
    session.afterCalls (first + second) = (session.afterCalls first).afterCalls second := by
  induction first generalizing session with
  | zero => rw [Nat.zero_add, afterCalls]
  | succ first ih => rw [Nat.succ_add, afterCalls, ih, afterCalls]

theorem next_of_open {id : String} {messages : List Message} :
    next ⟨id, true, messages⟩ = advance id messages :=
  if_pos rfl

theorem next_of_closed {session : Session} (closed : session.isOpen = false) :
    session.next = (none, session) :=
  if_neg (Bool.eq_false_iff.mp closed)

theorem afterCalls_of_closed {session : Session} (closed : session.isOpen = false) (calls : Nat) :
    session.afterCalls calls = session := by
  induction calls with
  | zero => rfl
  | succ calls ih => rw [afterCalls, next_of_closed closed, ih]

section Hearing

variable {id : String} {message : Message} {messages rest : List Message} {hash : Hash}
  {hashes : List Hash}

theorem ending_cons (ongoing : message.isOngoing = true) :
    ending (message :: rest) = ending rest :=
  List.dropWhile_cons_of_pos ongoing

theorem announced_cons (ongoing : message.isOngoing = true) :
    announced id (message :: rest) = (message.announced? id).toList ++ announced id rest := by
  unfold announced
  rw [List.takeWhile_cons_of_pos ongoing, List.filterMap_cons]
  cases message.announced? id <;> rfl

theorem announced_cons_of_some (ongoing : message.isOngoing = true)
    (announces : message.announced? id = some hash) :
    announced id (message :: rest) = hash :: announced id rest := by
  rw [announced_cons ongoing, announces, Option.toList_some, List.singleton_append]

theorem announced_cons_of_none (ongoing : message.isOngoing = true)
    (silent : message.announced? id = none) :
    announced id (message :: rest) = announced id rest := by
  rw [announced_cons ongoing, silent, Option.toList_none, List.nil_append]

theorem announced_cons_of_end (last : ¬ message.isOngoing = true) :
    announced id (message :: rest) = [] := by
  unfold announced
  rw [List.takeWhile_cons_of_neg last, List.filterMap_nil]

theorem length_announced_le : (announced id messages).length ≤ messages.length :=
  calc (announced id messages).length
    _ ≤ (messages.takeWhile Message.isOngoing).length := List.length_filterMap_le _ _
    _ ≤ messages.length := (List.takeWhile_sublist _).length_le

theorem heard_of_announced (all : announced id messages = hash :: hashes)
    (left : announced id rest = hashes) (same : ending rest = ending messages) :
    heard id messages = .ok hash :: heard id rest := by
  unfold heard fault?
  rw [all, left, same, List.map_cons, List.cons_append]

theorem heard_of_silent (silent : announced id messages = []) :
    heard id messages = ((fault? messages).map .error).toList := by
  rw [heard, silent, List.map_nil, List.nil_append]

/-- A message that the connection goes on behind and that announces nothing here changes
nothing of what is heard, wherever it stands. -/
theorem heard_insert (ongoing : message.isOngoing = true) (silent : message.announced? id = none)
    (before : List Message) :
    heard id (before ++ message :: rest) = heard id (before ++ rest) := by
  have same : announced id (before ++ message :: rest) = announced id (before ++ rest) ∧
      fault? (before ++ message :: rest) = fault? (before ++ rest) := by
    induction before with
    | nil =>
      rw [List.nil_append, List.nil_append, fault?, ending_cons ongoing]
      exact ⟨announced_cons_of_none ongoing silent, rfl⟩
    | cons first others ih =>
      obtain ⟨sameHashes, sameFault⟩ := ih
      rw [List.cons_append, List.cons_append]
      by_cases goesOn : first.isOngoing = true
      · refine ⟨?_, ?_⟩
        · rw [announced_cons goesOn, announced_cons goesOn, sameHashes]
        · rw [fault?, fault?, ending_cons goesOn, ending_cons goesOn]
          exact sameFault
      · -- behind the end of the connection nothing is heard with or without the message
        refine ⟨?_, ?_⟩
        · rw [announced_cons_of_end goesOn, announced_cons_of_end goesOn]
        · unfold fault? ending
          rw [List.dropWhile_cons_of_neg goesOn, List.dropWhile_cons_of_neg goesOn]
          rfl
  rw [heard, same.1, same.2, heard]

theorem advance_cons_of_some (announces : message.announced? id = some hash) :
    advance id (message :: rest) = (some (.ok hash), ⟨id, true, rest⟩) := by
  cases message with
  | text content =>
    have found : hash? id content = some hash := announces
    simp only [advance, found]
  | other | close | failure => cases announces

theorem advance_cons_of_none (ongoing : message.isOngoing = true)
    (silent : message.announced? id = none) :
    advance id (message :: rest) = advance id rest := by
  cases message with
  | text content =>
    have unheard : hash? id content = none := silent
    simp only [advance, unheard]
  | other => rfl
  | close | failure => cases ongoing

/-- The next announced hash is given, and nothing behind it is lost. -/
theorem next_of_announced (all : announced id messages = hash :: hashes) :
    ∃ rest, next ⟨id, true, messages⟩ = (some (.ok hash), ⟨id, true, rest⟩) ∧
      announced id rest = hashes ∧ ending rest = ending messages := by
  rw [next_of_open]
  induction messages with
  | nil => cases all
  | cons message behind ih =>
    by_cases ongoing : message.isOngoing = true
    · rw [ending_cons ongoing]
      cases announces : message.announced? id with
      | none =>
        rw [announced_cons_of_none ongoing announces] at all
        rw [advance_cons_of_none ongoing announces]
        exact ih all
      | some found =>
        rw [announced_cons_of_some ongoing announces] at all
        cases all
        exact ⟨behind, advance_cons_of_some announces, rfl, rfl⟩
    · rw [announced_cons_of_end ongoing] at all
      cases all

/-- Where no hash is announced any more the session ends as the connection does. -/
theorem next_of_silent (silent : announced id messages = []) :
    next ⟨id, true, messages⟩ =
      ((fault? messages).map .error, ⟨id, false, (ending messages).tail⟩) := by
  rw [next_of_open]
  induction messages with
  | nil => rfl
  | cons message behind ih =>
    by_cases ongoing : message.isOngoing = true
    · cases announces : message.announced? id with
      | none =>
        rw [announced_cons_of_none ongoing announces] at silent
        rw [advance_cons_of_none ongoing announces, ih silent, fault?, fault?, ending_cons ongoing]
      | some found =>
        rw [announced_cons_of_some ongoing announces] at silent
        cases silent
    · cases message with
      | text | other => exact absurd rfl ongoing
      | close | failure => rfl

/-- As long as announced hashes are left, every call takes one of them. -/
theorem afterCalls_within {calls : Nat} (within : calls ≤ (announced id messages).length) :
    ∃ rest, afterCalls calls ⟨id, true, messages⟩ = ⟨id, true, rest⟩ ∧
      announced id rest = (announced id messages).drop calls ∧ ending rest = ending messages := by
  induction calls generalizing messages with
  | zero => exact ⟨messages, rfl, rfl, rfl⟩
  | succ calls ih =>
    cases all : announced id messages with
    | nil =>
      rw [all] at within
      exact absurd within (Nat.not_succ_le_zero calls)
    | cons hash hashes =>
      -- the first call takes `hash`, and the others run on what it leaves behind
      obtain ⟨behind, step, left, kept⟩ := next_of_announced all
      have leftWithin : calls ≤ (announced id behind).length := by
        rw [all, List.length_cons] at within
        rw [left]
        omega
      obtain ⟨rest, run, later, same⟩ := ih leftWithin
      refine ⟨rest, ?_, ?_, same.trans kept⟩
      · rw [afterCalls, step, run]
      · rw [later, left, List.drop_succ_cons]

/-- The call behind the last announced hash ends the session. -/
theorem next_last :
    (afterCalls (announced id messages).length ⟨id, true, messages⟩).next =
      ((fault? messages).map .error, ⟨id, false, (ending messages).tail⟩) := by
  obtain ⟨rest, run, left, same⟩ := afterCalls_within (Nat.le_refl (announced id messages).length)
  rw [List.drop_length] at left
  rw [run, next_of_silent left, fault?, same, fault?]

/-- Once the session has ended, no further call changes it. -/
theorem afterCalls_past {calls : Nat} (past : (announced id messages).length < calls) :
    afterCalls calls ⟨id, true, messages⟩ = ⟨id, false, (ending messages).tail⟩ := by
  obtain ⟨more, rfl⟩ := Nat.exists_eq_add_of_le past
  rw [afterCalls_add, Nat.succ_eq_add_one, afterCalls_add, afterCalls, afterCalls, next_last,
    afterCalls_of_closed rfl]

/-- The calls one after another give what there is to hear, and then nothing. -/
theorem next_afterCalls (calls : Nat) :
    (afterCalls calls ⟨id, true, messages⟩).next.1 = (heard id messages)[calls]? := by
  obtain within | rfl | past := Nat.lt_trichotomy calls (announced id messages).length
  · obtain ⟨rest, run, left, _⟩ := afterCalls_within (Nat.le_of_lt within)
    rw [List.drop_eq_getElem_cons within] at left
    obtain ⟨_, step, _⟩ := next_of_announced left
    rw [run, step, heard, List.getElem?_append_left (by rwa [List.length_map]), List.getElem?_map,
      List.getElem?_eq_getElem within, Option.map_some]
  · rw [next_last, heard, List.getElem?_append_right (Nat.le_of_eq (List.length_map _)),
      List.length_map, Nat.sub_self]
    cases fault? messages <;> rfl
  · have short : (heard id messages).length ≤ calls := by
      have one : ((fault? messages).map .error : Option (Except Fault Hash)).toList.length ≤ 1 :=
        Option.length_toList_le
      rw [heard, List.length_append, List.length_map]
      omega
    rw [afterCalls_past past, next_of_closed rfl, List.getElem?_eq_none short]

theorem drain_of_open {fuel : Nat} (enough : (announced id messages).length + 2 ≤ fuel) :
    drain fuel ⟨id, true, messages⟩ =
      (heard id messages, ⟨id, false, (ending messages).tail⟩) := by
  induction fuel generalizing messages with
  | zero => omega
  | succ fuel ih =>
    cases all : announced id messages with
    | nil =>
      rw [drain, next_of_silent all, heard_of_silent all]
      cases fault? messages with
      | none => rfl
      | some fault =>
        -- the call behind the fault finds the session ended
        obtain ⟨more, rfl⟩ : ∃ more, fuel = more + 1 := ⟨fuel - 1, by omega⟩
        rfl
    | cons hash hashes =>
      obtain ⟨rest, step, left, same⟩ := next_of_announced all
      have leftEnough : (announced id rest).length + 2 ≤ fuel := by
        rw [all, List.length_cons] at enough
        rw [left]
        omega
      rw [drain, step, heard_of_announced all left same, ← same]
      simp only [ih leftEnough]

/-- Taking hashes to the end gives all that there is to hear. -/
theorem hashes_of_open :
    Session.hashes ⟨id, true, messages⟩ =
      (heard id messages, ⟨id, false, (ending messages).tail⟩) :=
  drain_of_open (Nat.add_le_add_right length_announced_le 2)

end Hearing

/-- The first message that settles the request decides what it comes to, and the messages
before it do nothing. The calls of a session then give exactly what is announced under its
own name, one after another; a hash that is announced under another name is as if it had
never come. Behind the last one the session ends for good, and leaves what the connection
still holds. -/
theorem hears_its_own_announcements (messages : List Message) :
    (∀ answer, connect (.opened messages) = answer ↔
      (∃ skipped message rest outcome, messages = skipped ++ message :: rest ∧
        (∀ earlier ∈ skipped, earlier.PassedOver) ∧ message.Settles outcome ∧
        answer = outcome.map fun id => ⟨id, true, rest⟩) ∨
      (∀ earlier ∈ messages, earlier.PassedOver) ∧ answer = .error endedEarly) ∧
    ∀ session, connect (.opened messages) = .ok session →
      (∀ content hash, hash? session.id content = some hash ↔
        Frame.ofText content = .notification session.id hash) ∧
      (∀ calls, (session.afterCalls calls).next.1 = (heard session.id session.unread)[calls]?) ∧
      (∀ calls ≤ (announced session.id session.unread).length,
        (session.afterCalls calls).isOpen = true) ∧
      (∀ calls > (announced session.id session.unread).length,
        session.afterCalls calls = ⟨session.id, false, (ending session.unread).tail⟩) ∧
      session.hashes =
        (heard session.id session.unread, ⟨session.id, false, (ending session.unread).tail⟩) ∧
      ∀ before content rest name hash, session.unread = before ++ .text content :: rest →
        Frame.ofText content = .notification name hash → name ≠ session.id →
        heard session.id session.unread = heard session.id (before ++ rest) := by
  refine ⟨fun answer => confirm_eq_iff, ?_⟩
  intro session confirmed
  obtain ⟨id, isOpen, unread⟩ := session
  cases eq_of_confirm confirmed
  refine ⟨fun _ _ => hash?_eq_some_iff, next_afterCalls, ?_, fun _ => afterCalls_past,
    hashes_of_open, ?_⟩
  · intro calls within
    obtain ⟨rest, run, _⟩ := afterCalls_within within
    rw [run]
  · rintro before content rest name hash rfl frame foreign
    have silent : Message.announced? id (.text content) = none := hash?_of_foreign frame foreign
    exact heard_insert rfl silent before

def confirmation (id : Nat) (name : String) : String :=
  Json.text (.record [("id", .integer id), ("result", .string name)])

def announcement (name : String) (hash : Hash) : String :=
  Json.text (.record [("params", .record [
    ("subscription", .string name), ("result", .string hash.text)])])

/-- A hash that is announced to another session and then to this one, and once more when the
connection has failed. -/
def failingMessages : List Message :=
  [.text (announcement "0xdead" (.fill 32 1)), .other, .text (announcement "0xfeed" (.fill 32 1)),
    .failure "reset", .text (announcement "0xfeed" (.fill 32 1))]

theorem failing_session_hears_its_own_announcements :
    ∃ session, connect (.opened ([.other, .text (confirmation 2 "0xdead")] ++
        .text (confirmation 1 "0xfeed") :: failingMessages)) = .ok session ∧
      session.hashes =
        ([.ok (.fill 32 1), .error (.connection "Erro no WebSocket: reset")],
          ⟨"0xfeed", false, [.text (announcement "0xfeed" (.fill 32 1))]⟩) ∧
      heard session.id session.unread = heard session.id (failingMessages.drop 1) ∧
      (session.afterCalls 1).isOpen = true ∧
      session.afterCalls 2 = ⟨"0xfeed", false, [.text (announcement "0xfeed" (.fill 32 1))]⟩ := by
  have other : Frame.ofText (confirmation 2 "0xdead") = .confirmation 2 "0xdead" := by
    decide +kernel
  have own : Frame.ofText (confirmation 1 "0xfeed") = .confirmation requestId "0xfeed" := by
    decide +kernel
  have foreign : Frame.ofText (announcement "0xdead" (.fill 32 1)) =
      .notification "0xdead" (.fill 32 1) := by decide +kernel
  have announces : hash? "0xfeed" (announcement "0xfeed" (.fill 32 1)) = some (.fill 32 1) := by
    decide +kernel
  have passed : ∀ earlier ∈ [.other, .text (confirmation 2 "0xdead")],
      Message.PassedOver earlier := by
    rw [List.forall_mem_cons, List.forall_mem_singleton]
    exact ⟨passedOver_other, passedOver_of_confirmation other (by decide)⟩
  obtain ⟨answers, sessions⟩ := hears_its_own_announcements
    ([.other, .text (confirmation 2 "0xdead")] ++
      .text (confirmation 1 "0xfeed") :: failingMessages)
  have confirmed := (answers (.ok ⟨"0xfeed", true, failingMessages⟩)).mpr
    (.inl ⟨_, _, _, _, rfl, passed, .confirmed own, rfl⟩)
  obtain ⟨_, _, within, past, all, skips⟩ := sessions _ confirmed
  have same : heard "0xfeed" failingMessages = heard "0xfeed" (failingMessages.drop 1) :=
    skips [] _ _ _ _ rfl foreign (by decide)
  have silent : hash? "0xfeed" (announcement "0xdead" (.fill 32 1)) = none :=
    hash?_of_foreign foreign (by decide)
  have one : announced "0xfeed" failingMessages = [.fill 32 1] :=
    calc announced "0xfeed" failingMessages
      _ = announced "0xfeed" (failingMessages.drop 1) := announced_cons_of_none rfl silent
      _ = announced "0xfeed" (failingMessages.drop 2) := announced_cons_of_none rfl rfl
      _ = .fill 32 1 :: announced "0xfeed" (failingMessages.drop 3) :=
        announced_cons_of_some rfl announces
      _ = [.fill 32 1] := congrArg _ (announced_cons_of_end (by decide))
  have left : (ending failingMessages).tail =
      [.text (announcement "0xfeed" (.fill 32 1))] := rfl
  have hears : heard "0xfeed" failingMessages =
      [.ok (.fill 32 1), .error (.connection "Erro no WebSocket: reset")] := by
    rw [heard, one]
    rfl
  refine ⟨_, confirmed, ?_, same, ?_, ?_⟩
  · rw [all, hears, left]
  · exact within 1 (by rw [one]; decide)
  · rw [past 2 (by rw [one]; decide), left]

end Session

end MempoolWatch.Subscription
