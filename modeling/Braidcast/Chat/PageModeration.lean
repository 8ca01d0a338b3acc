import Braidcast.Chat.Moderation
import Braidcast.Lib.Utf16

/-!
# Moderation on the page

`moderationMatcher` of `chatModeration.ts` and the keys of `destinationKeys.ts`, against the redaction of the
host. A page has the texts of a frame in UTF-16, and its numbers as the integers that were sent; both are far
below 2^53.
-/
namespace Braidcast.Chat

open Lib

namespace Page

/-! ### Keys of a destination -/

def atSign : UInt16 := 64

/-- Absent, null and empty are all falsy. -/
def truthy : Option JsString → Option JsString
  | some (unit :: units) => some (unit :: units)
  | _ => none

/-- `destinationKey`. -/
def destinationKey (accountId : JsString) (profileUuid : Option JsString) : JsString :=
  match truthy profileUuid with
  | some profile => accountId ++ [atSign] ++ profile
  | none => accountId

/-- `isDestinationKey`. -/
def isDestinationKey (key accountId : JsString) (profileUuid : Option JsString) : Bool :=
  match truthy profileUuid with
  | none => key == accountId
  | some profile =>
    key.length == accountId.length + 1 + profile.length &&
      accountId.isPrefixOf key &&
      key[accountId.length]? == some atSign &&
      profile.isSuffixOf key

/-! ### Matching -/

/-- The fields of a chat line that an op is matched on. -/
structure ChatIdentity where
  accountId : JsString
  profileUuid : Option JsString
  id : Option JsString
  seq : Option Int
  ts : Option Int
  authorId : Option JsString

structure ChatModeration where
  accountId : JsString
  profileUuid : Option JsString
  action : Option JsString
  msgId : Option JsString
  authorId : Option JsString
  before : Option Int
  beforeTs : Option Int

/-- A comparison of numbers, which nothing absent passes. -/
def compares (test : Int → Int → Bool) : Option Int → Option Int → Bool
  | some a, some b => test a b
  | _, _ => false

/-- `moderationMatcher`. -/
def moderationMatcher (op : ChatModeration) (m : ChatIdentity) : Bool :=
  let dest := destinationKey op.accountId op.profileUuid
  -- what was said after the op, or to another destination, is never matched
  if !compares (· < ·) m.seq op.before || !isDestinationKey dest m.accountId m.profileUuid then false
  -- a bound in time reaches only lines whose time is known
  else if op.beforeTs.isSome && !(compares (· > ·) m.ts (some 0) && compares (· ≤ ·) m.ts op.beforeTs) then false
  else if op.action = some (utf16 "all") then true
  else if op.action = some (utf16 "message") then (truthy op.msgId).isSome && m.id == op.msgId
  else if op.action = some (utf16 "user") then (truthy op.authorId).isSome && m.authorId == op.authorId
  else false

/-! ### What the page reads -/

def text? (fields : Fields) (key : String) : Option JsString :=
  match fields.get? key with
  | some (.str s) => some (utf16 s)
  | _ => none

def number? (fields : Fields) (key : String) : Option Int :=
  match fields.get? key with
  | some (.num n) => some n
  | _ => none

/-- `m.author?.id`. -/
def authorId? (fields : Fields) : Option JsString :=
  match fields.get? "author" with
  | some (.obj author) => text? author "id"
  | _ => none

/-- `chatIdentity` of a frame. Its account id is always there. -/
def chatIdentity (frame : Fields) : ChatIdentity where
  accountId := (text? frame "accountId").getD []
  profileUuid := text? frame "profileUuid"
  id := text? frame "id"
  seq := number? frame "seq"
  ts := number? frame "ts"
  authorId := authorId? frame

def chatModeration (body : Fields) : ChatModeration where
  accountId := (text? body "accountId").getD []
  profileUuid := text? body "profileUuid"
  action := text? body "action"
  msgId := text? body "msgId"
  authorId := text? body "authorId"
  before := number? body "before"
  beforeTs := number? body "beforeTs"

end Page

/-! ### What the host sends -/

/-- A field that is written where there is a value for it. -/
def setSome (key : String) (value : Option Json) (fields : Fields) : Fields :=
  match value with
  | some v => fields.set key v
  | none => fields

def nonEmpty (s : String) : Option Json := if s = "" then none else some (.str s)

/-- The parts of a line, as a transport hands them over. An echo of what was sent from here has no id. -/
structure ChatLine where
  platform : String
  channelId : String
  id : Option String
  ts : Option Int
  authorName : String
  authorId : String
  authorColor : String
  badges : Json
  fragments : Json
  paid : Option Json := none

/-- `BuildChatAuthor`. -/
def buildChatAuthor (line : ChatLine) : Fields :=
  setSome "id" (nonEmpty line.authorId)
    (Fields.set "badges" line.badges (Fields.set "color" (.str line.authorColor) (Fields.set "name" (.str line.authorName) [])))

/-- `BuildChatMessage`, without the event that the hub takes out. -/
def buildChatMessage (line : ChatLine) : Fields :=
  setSome "paid" line.paid
    (Fields.set "fragments" line.fragments (Fields.set "author" (.obj (buildChatAuthor line)) (setSome "ts" (line.ts.map .num)
      (setSome "id" (line.id.map .str) (Fields.set "channelId" (.str line.channelId) (Fields.set "platform" (.str line.platform) []))))))

/-- The frame that `ChatHub` sends: stamped with its destination, with an id of the hub's own where it has
none, and with what the ring gave it. -/
def sentFrame (dest : DestinationId) (line : ChatLine) (fallbackId : String) (seq : Nat) (rx : Int) : Fields :=
  let body := setSome "profileUuid" (nonEmpty dest.profileUuid) (Fields.set "accountId" (.str dest.accountId) (buildChatMessage line))
  let body := if str body "id" = "" then Fields.set "id" (.str fallbackId) body else body
  Fields.set "rx" (.num rx) (Fields.set "seq" (.num seq) body)

/-- The body that `ApplyModeration` returns for the docks. -/
def moderationBody (platform : String) (dest : DestinationId) (op : ModerationOp) (before : Nat) : Fields :=
  let body := Fields.set "before" (.num before) (Fields.set "action" (.str (deletedMark op.action))
    (Fields.set "accountId" (.str dest.accountId) (Fields.set "platform" (.str platform) [])))
  let body := setSome "profileUuid" (nonEmpty dest.profileUuid) body
  let body := setSome "beforeTs" (op.beforeTs.map .num) body
  let body := setSome "label" (nonEmpty op.label) body
  match op.action with
  | .delete => Fields.set "msgId" (.str op.msgId) body
  | .clearUser => Fields.set "authorId" (.str op.authorId) body
  | .clearAll => body

def overlayModerationKeys : List String :=
  ["platform", "accountId", "profileUuid", "action", "msgId", "authorId", "before", "beforeTs"]

/-- `OverlayModerationBody`. -/
def overlayModerationBody (dockBody : Fields) : Fields :=
  overlayModerationKeys.foldl (fun body key => setSome key (dockBody.get? key) body) []

/-! ### Comparing keys -/

namespace Page

variable {key accountId : JsString} {profileUuid : Option JsString}

theorem isDestinationKey_iff (key accountId : JsString) (profileUuid : Option JsString) :
    isDestinationKey key accountId profileUuid = true ↔ key = destinationKey accountId profileUuid := by
  unfold isDestinationKey destinationKey
  cases truthy profileUuid with
  | none => exact beq_iff_eq
  | some profile =>
    dsimp only
    rw [Bool.and_eq_true, Bool.and_eq_true, Bool.and_eq_true, beq_iff_eq, beq_iff_eq, List.isPrefixOf_iff_prefix,
      List.isSuffixOf_iff_suffix]
    constructor
    · rintro ⟨⟨⟨length, rest, rfl⟩, separator⟩, ends⟩
      -- behind the account there is the separator, and as much as the profile is long
      rw [List.getElem?_append_right (Nat.le_refl _), Nat.sub_self] at separator
      cases rest with
      | nil => cases separator
      | cons unit rest =>
        obtain rfl : unit = atSign := by simpa using separator
        rw [List.length_append, List.length_cons] at length
        have suffix : rest <:+ accountId ++ atSign :: rest := ⟨accountId ++ [atSign], by simp⟩
        have same : rest = profile := List.IsSuffix.eq_of_length (List.suffix_of_suffix_length_le suffix ends (by omega)) (by omega)
        rw [same, List.append_assoc]
        rfl
    · rintro rfl
      refine ⟨⟨⟨by simp only [List.length_append, List.length_singleton], ?_⟩, ?_⟩, ?_⟩
      · exact ⟨[atSign] ++ profile, (List.append_assoc ..).symm⟩
      · simp
      · exact List.suffix_append _ _

/-- The key of the host, in UTF-16. -/
theorem destinationKey_utf16 (d : DestinationId) :
    destinationKey (utf16 d.accountId) (if d.profileUuid = "" then none else some (utf16 d.profileUuid)) =
      utf16 (Chat.destinationKey d) := by
  unfold destinationKey Chat.destinationKey
  by_cases accountWide : d.profileUuid = ""
  · rw [if_pos accountWide, if_pos accountWide]
    rfl
  · rw [if_neg accountWide, if_neg accountWide, utf16_append, utf16_append]
    -- a profile that is not empty has code units, so it is truthy on the page
    have some_units := mt utf16_eq_nil_iff.mp accountWide
    cases units : utf16 d.profileUuid with
    | nil => exact absurd units some_units
    | cons unit rest => rfl

end Page

/-! ### Fields as they were written -/

section

variable {fields : Fields} {key other : String} {value : Option Json}

theorem get?_empty (key : String) : Fields.get? [] key = none := rfl

theorem get?_setSome :
    Fields.get? (setSome key value fields) other = if other = key then value.or (Fields.get? fields other) else Fields.get? fields other := by
  cases value with
  | none => simp [setSome]
  | some v => exact Fields.get?_set key v fields other

theorem get?_setSome_of_ne (apart : other ≠ key) : Fields.get? (setSome key value fields) other = Fields.get? fields other := by
  cases value with
  | none => rfl
  | some v => exact Fields.get?_set_of_ne key v fields apart

theorem get?_setSome_self : Fields.get? (setSome key value fields) key = value.or (Fields.get? fields key) := by
  cases value with
  | none => rfl
  | some v => exact Fields.get?_set_self key v fields

theorem get?_copied (dockBody acc : Fields) (keys : List String) (key : String) :
    Fields.get? (keys.foldl (fun body k => setSome k (Fields.get? dockBody k) body) acc) key =
      if key ∈ keys then (Fields.get? dockBody key).or (Fields.get? acc key) else Fields.get? acc key := by
  induction keys generalizing acc with
  | nil => rfl
  | cons k keys ih =>
    rw [List.foldl_cons, ih]
    by_cases here : key = k
    · subst here
      rw [get?_setSome_self, if_pos List.mem_cons_self]
      split
      · cases Fields.get? dockBody key with
        | none => rfl
        | some v => rfl
      · rfl
    · rw [get?_setSome_of_ne here]
      simp only [List.mem_cons, here, false_or]

theorem get?_overlayModerationBody (dockBody : Fields) (kept : key ∈ overlayModerationKeys) :
    Fields.get? (overlayModerationBody dockBody) key = Fields.get? dockBody key := by
  rw [overlayModerationBody, get?_copied, if_pos kept]
  cases Fields.get? dockBody key with
  | none => rfl
  | some v => rfl

end

/-! ### The two readings -/

namespace Page

variable {frame : Fields} {s : String}

/-- A field reads alike on either side, but that the host has the empty text for an absent one. -/
theorem text?_cases (fields : Fields) (key : String) :
    (text? fields key = none ∧ str fields key = "") ∨ ∃ s, text? fields key = some (utf16 s) ∧ str fields key = s := by
  unfold text? str
  cases fields.get? key with
  | none => exact .inl ⟨rfl, rfl⟩
  | some v =>
    cases v with
    | str s => exact .inr ⟨s, rfl, rfl⟩
    | null | bool b | num n | arr items | obj inner => exact .inl ⟨rfl, rfl⟩

/-- An id that is there and not empty is the same on either side. -/
theorem text?_eq_iff {key : String} (named : s ≠ "") : text? frame key = some (utf16 s) ↔ str frame key = s := by
  -- absent on the page is empty on the host, and neither is the name that was asked for
  rcases text?_cases frame key with ⟨absent, empty⟩ | ⟨t, here, same⟩
  · rw [absent, empty]
    constructor
    · intro no
      cases no
    · intro no
      exact absurd no.symm named
  · rw [here, same, Option.some.injEq, utf16_inj]

theorem authorId?_eq_iff (named : s ≠ "") : authorId? frame = some (utf16 s) ↔ frameAuthorId frame = s := by
  have absent : (none : Option JsString) = some (utf16 s) ↔ "" = s := by
    constructor
    · intro no
      cases no
    · intro no
      exact absurd no.symm named
  unfold authorId? frameAuthorId
  cases frame.get? "author" with
  | none => exact absent
  | some v =>
    cases v with
    | obj author => exact text?_eq_iff named
    | null | bool b | num n | str t | arr items => exact absent

/-- A line with no time is out of reach, as one with the time zero is. -/
theorem reaches_iff (frame : Fields) (bound : Int) :
    (compares (· > ·) (number? frame "ts") (some 0) && compares (· ≤ ·) (number? frame "ts") (some bound)) =
      (decide (0 < frameTs frame) && decide (frameTs frame ≤ bound)) := by
  unfold number? frameTs
  cases frame.get? "ts" with
  | none => rfl
  | some v =>
    cases v with
    | num n => rfl
    | null | bool b | str t | arr items | obj inner => rfl

theorem truthy_utf16 (s : String) : (truthy (some (utf16 s))).isSome = true ↔ s ≠ "" := by
  rw [ne_eq, ← utf16_eq_nil_iff]
  cases utf16 s with
  | nil | cons => simp [truthy]

/-- What a page has of an op: the parts that it is matched on. -/
structure Carries (m : ChatModeration) (dest : DestinationId) (op : ModerationOp) (before : Nat) : Prop where
  accountId : m.accountId = utf16 dest.accountId
  profileUuid : m.profileUuid = if dest.profileUuid = "" then none else some (utf16 dest.profileUuid)
  action : m.action = some (utf16 (deletedMark op.action))
  msgId : op.action = .delete → m.msgId = some (utf16 op.msgId)
  authorId : op.action = .clearUser → m.authorId = some (utf16 op.authorId)
  before : m.before = some (before : Int)
  beforeTs : m.beforeTs = op.beforeTs

/-- What a page has of a line. -/
structure Stamped (frame : Fields) (dest : DestinationId) (seq : Nat) : Prop where
  accountId : (chatIdentity frame).accountId = utf16 dest.accountId
  profileUuid : (chatIdentity frame).profileUuid = if dest.profileUuid = "" then none else some (utf16 dest.profileUuid)
  seq : (chatIdentity frame).seq = some (seq : Int)

variable {m : ChatModeration} {platform : String} {opDest dest : DestinationId} {op : ModerationOp} {before seq : Nat}

/-- The ids that the action names. -/
theorem names_agree (carries : Carries m opDest op before) (frame : Fields) :
    (if m.action = some (utf16 "all") then true
      else if m.action = some (utf16 "message") then (truthy m.msgId).isSome && (chatIdentity frame).id == m.msgId
      else if m.action = some (utf16 "user") then (truthy m.authorId).isSome && (chatIdentity frame).authorId == m.authorId
      else false) =
      (Redaction.ofOp { op with dest := opDest } before).names (str frame "id") (frameAuthorId frame) := by
  have action := carries.action
  unfold Redaction.names Redaction.ofOp
  dsimp only
  rw [action]
  simp only [Option.some.injEq, utf16_inj]
  -- the three actions are told apart by their marks, which are different texts
  cases kind : op.action with
  | delete =>
    rw [carries.msgId kind]
    simp only [deletedMark, String.reduceEq, if_false, if_true]
    rw [Bool.eq_iff_iff, Bool.and_eq_true, Bool.and_eq_true, truthy_utf16, beq_iff_eq, beq_iff_eq, bne_iff_ne]
    exact and_congr_right fun named => text?_eq_iff named
  | clearUser =>
    rw [carries.authorId kind]
    simp only [deletedMark, String.reduceEq, if_false, if_true]
    rw [Bool.eq_iff_iff, Bool.and_eq_true, Bool.and_eq_true, truthy_utf16, beq_iff_eq, beq_iff_eq, bne_iff_ne]
    exact and_congr_right fun named => authorId?_eq_iff named
  | clearAll => simp only [deletedMark, if_true]

/-- The two predicates answer alike. -/
theorem matches_alike (carries : Carries m opDest op before) (stamped : Stamped frame dest seq) :
    moderationMatcher m (chatIdentity frame) =
      (Redaction.ofOp { op with dest := opDest } before).matchesFrame (Chat.destinationKey dest) seq frame := by
  have key : isDestinationKey (destinationKey m.accountId m.profileUuid) (chatIdentity frame).accountId (chatIdentity frame).profileUuid =
      decide (Chat.destinationKey dest = Chat.destinationKey opDest) := by
    rw [Bool.eq_iff_iff, isDestinationKey_iff, decide_eq_true_iff, carries.accountId, carries.profileUuid, stamped.accountId,
      stamped.profileUuid, destinationKey_utf16, destinationKey_utf16, utf16_inj]
    exact eq_comm
  have below : compares (· < ·) (chatIdentity frame).seq m.before = decide (seq < before) := by
    rw [stamped.seq, carries.before]
    exact decide_eq_decide.mpr Int.ofNat_lt
  unfold moderationMatcher
  dsimp only
  rw [key, below, names_agree carries, carries.beforeTs]
  unfold Redaction.matchesFrame Redaction.matchesRow Redaction.reachesTs
  have names : (Redaction.ofOp { op with dest := opDest } before).beforeTs = op.beforeTs ∧
      (Redaction.ofOp { op with dest := opDest } before).dest = Chat.destinationKey opDest ∧
      (Redaction.ofOp { op with dest := opDest } before).belowSeq = before := ⟨rfl, rfl, rfl⟩
  rw [names.1, names.2.1, names.2.2]
  by_cases out : Chat.destinationKey dest ≠ Chat.destinationKey opDest ∨ before ≤ seq
  · rw [if_pos out, if_pos]
    rcases out with elsewhere | late
    · simp [elsewhere]
    · simp [late]
  · obtain ⟨same, early⟩ := not_or.mp out
    rw [if_neg out, if_neg (by simp [not_not.mp same, not_le.mp early])]
    cases op.beforeTs with
    | none => simp
    | some bound =>
      have reach := reaches_iff frame bound
      simp only [chatIdentity, Option.isSome_some, Bool.true_and, reach]

/-! ### The bodies and the frames of the host -/

theorem text?_nonEmpty {fields : Fields} {key s : String} (written : Fields.get? fields key = nonEmpty s) :
    text? fields key = if s = "" then none else some (utf16 s) := by
  unfold text? nonEmpty at *
  rw [written]
  by_cases empty : s = ""
  · rw [if_pos empty, if_pos empty]
  · rw [if_neg empty, if_neg empty]

theorem carries_of_fields {body : Fields}
    (accountId : Fields.get? body "accountId" = some (.str opDest.accountId))
    (profileUuid : Fields.get? body "profileUuid" = nonEmpty opDest.profileUuid)
    (action : Fields.get? body "action" = some (.str (deletedMark op.action)))
    (msgId : op.action = .delete → Fields.get? body "msgId" = some (.str op.msgId))
    (authorId : op.action = .clearUser → Fields.get? body "authorId" = some (.str op.authorId))
    (bound : Fields.get? body "before" = some (.num before))
    (beforeTs : Fields.get? body "beforeTs" = op.beforeTs.map .num) :
    Carries (chatModeration body) opDest op before where
  accountId := by simp only [chatModeration, text?, accountId, Option.getD_some]
  profileUuid := text?_nonEmpty profileUuid
  action := by simp only [chatModeration, text?, action]
  msgId := by
    intro kind
    simp only [chatModeration, text?, msgId kind]
  authorId := by
    intro kind
    simp only [chatModeration, text?, authorId kind]
  before := by simp only [chatModeration, number?, bound]
  beforeTs := by
    simp only [chatModeration, number?, beforeTs]
    cases op.beforeTs with
    | none => rfl
    | some bound => rfl

/-- The ids are written last, and no other key is one of theirs. -/
theorem get?_moderationBody {key : String} (message : key ≠ "msgId") (author : key ≠ "authorId") :
    Fields.get? (moderationBody platform opDest op before) key =
      Fields.get? (setSome "label" (nonEmpty op.label) (setSome "beforeTs" (op.beforeTs.map .num)
        (setSome "profileUuid" (nonEmpty opDest.profileUuid) (Fields.set "before" (.num before)
          (Fields.set "action" (.str (deletedMark op.action)) (Fields.set "accountId" (.str opDest.accountId)
            (Fields.set "platform" (.str platform) []))))))) key := by
  unfold moderationBody
  cases op.action with
  | delete => exact Fields.get?_set_of_ne _ _ _ message
  | clearUser => exact Fields.get?_set_of_ne _ _ _ author
  | clearAll => rfl

theorem carries_moderationBody : Carries (chatModeration (moderationBody platform opDest op before)) opDest op before := by
  refine carries_of_fields ?_ ?_ ?_ ?_ ?_ ?_ ?_
  · rw [get?_moderationBody (by decide) (by decide)]
    simp [get?_setSome, Fields.get?_set]
  · rw [get?_moderationBody (by decide) (by decide)]
    simp [get?_setSome, Fields.get?_set, get?_empty]
  · rw [get?_moderationBody (by decide) (by decide)]
    simp [get?_setSome, Fields.get?_set]
  · intro kind
    unfold moderationBody
    rw [kind]
    exact Fields.get?_set_self ..
  · intro kind
    unfold moderationBody
    rw [kind]
    exact Fields.get?_set_self ..
  · rw [get?_moderationBody (by decide) (by decide)]
    simp [get?_setSome]
  · rw [get?_moderationBody (by decide) (by decide)]
    simp [get?_setSome, Fields.get?_set, get?_empty]

/-- A widget reads of an op what a dock reads. -/
theorem chatModeration_overlay (dockBody : Fields) : chatModeration (overlayModerationBody dockBody) = chatModeration dockBody := by
  have text (key : String) (kept : key ∈ overlayModerationKeys) : text? (overlayModerationBody dockBody) key = text? dockBody key := by
    rw [text?, get?_overlayModerationBody dockBody kept, text?]
  have number (key : String) (kept : key ∈ overlayModerationKeys) :
      number? (overlayModerationBody dockBody) key = number? dockBody key := by
    rw [number?, get?_overlayModerationBody dockBody kept, number?]
  unfold chatModeration
  rw [text "accountId" (by decide), text "profileUuid" (by decide), text "action" (by decide), text "msgId" (by decide),
    text "authorId" (by decide), number "before" (by decide), number "beforeTs" (by decide)]

theorem stamped_sentFrame (dest : DestinationId) (line : ChatLine) (fallbackId : String) (seq : Nat) (rx : Int) :
    Stamped (sentFrame dest line fallbackId seq rx) dest seq := by
  have others (key : String) (id : key ≠ "id") (seqKey : key ≠ "seq") (rxKey : key ≠ "rx") :
      Fields.get? (sentFrame dest line fallbackId seq rx) key =
        Fields.get? (setSome "profileUuid" (nonEmpty dest.profileUuid) (Fields.set "accountId" (.str dest.accountId)
          (buildChatMessage line))) key := by
    unfold sentFrame
    rw [Fields.get?_set_of_ne _ _ _ rxKey, Fields.get?_set_of_ne _ _ _ seqKey]
    split
    · exact Fields.get?_set_of_ne _ _ _ id
    · rfl
  have unstamped : Fields.get? (buildChatMessage line) "profileUuid" = none := by
    simp [buildChatMessage, get?_setSome, Fields.get?_set, get?_empty]
  constructor
  · simp [chatIdentity, text?, others, get?_setSome, Fields.get?_set]
  · refine text?_nonEmpty ?_
    rw [others _ (by decide) (by decide) (by decide)]
    simp [get?_setSome, Fields.get?_set, unstamped]
  · simp [chatIdentity, number?, sentFrame, Fields.get?_set]

/-- Host and page agree on what an op removes, on the docks and on the overlay, whatever the line and the op hold
and whichever of their parts are absent or empty; and the comparison without a key built is the one with it. -/
theorem host_and_page_agree :
    (∀ (platform : String) (opDest dest : DestinationId) (op : ModerationOp) (before : Nat) (line : ChatLine) (fallbackId : String)
        (seq : Nat) (rx : Int),
      let frame := sentFrame dest line fallbackId seq rx
      let body := moderationBody platform opDest op before
      let host := (Redaction.ofOp { op with dest := opDest } before).matchesFrame (Chat.destinationKey dest) seq frame
      moderationMatcher (chatModeration body) (chatIdentity frame) = host ∧
        moderationMatcher (chatModeration (overlayModerationBody body)) (chatIdentity frame) = host) ∧
      ∀ (key accountId : JsString) (profileUuid : Option JsString),
        isDestinationKey key accountId profileUuid = true ↔ key = destinationKey accountId profileUuid := by
  refine ⟨?_, isDestinationKey_iff⟩
  intro platform opDest dest op before line fallbackId seq rx frame body host
  have alike : moderationMatcher (chatModeration body) (chatIdentity frame) = host :=
    matches_alike carries_moderationBody (stamped_sentFrame dest line fallbackId seq rx)
  refine ⟨alike, ?_⟩
  rw [chatModeration_overlay]
  exact alike

end Page

end Braidcast.Chat
