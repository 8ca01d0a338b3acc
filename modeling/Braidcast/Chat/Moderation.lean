import Braidcast.Lib.Json

/-!
# Frames and what removes them

A chat message is a JSON object, held as its fields. A moderator's action is keyed by
destination and bounded by the seq the ring would issue next; `Redaction.matchesRow` is the
predicate the ring, the writer's queue and a reader all answer with.
-/
namespace Braidcast.Chat

open Lib

/-! ### Fields of a frame -/

/-- `JsonUtil::Str` and `Field`: a string field, "" when it is missing or not a string. -/
def str (frame : Fields) (key : String) : String :=
  match frame.get? key with
  | some (.str s) => s
  | _ => ""

def frameTs (frame : Fields) : Int :=
  match frame.get? "ts" with
  | some (.num n) => n
  | _ => 0

def frameAuthorId (frame : Fields) : String :=
  match frame.get? "author" with
  | some (.obj author) => str author "id"
  | _ => ""

/-! ### Moderator actions -/

inductive ModerationAction where
  | delete
  | clearUser
  | clearAll
  deriving DecidableEq

def deletedMark : ModerationAction → String
  | .delete => "message"
  | .clearUser => "user"
  | .clearAll => "all"

def redactFrame (frame : Fields) (action : ModerationAction) : Fields :=
  (frame.set "fragments" (.arr [])).set "deleted" (.str (deletedMark action))

structure DestinationId where
  accountId : String
  profileUuid : String
  deriving DecidableEq

def destinationKey (d : DestinationId) : String :=
  if d.profileUuid = "" then d.accountId else d.accountId ++ "@" ++ d.profileUuid

structure ModerationOp where
  dest : DestinationId
  action : ModerationAction := .delete
  msgId : String := ""
  authorId : String := ""
  beforeTs : Option Int := none
  label : String := ""
  /-- When the platform says a live op happened, if it says so. -/
  happenedAt : Option Int := none

structure Redaction where
  dest : String
  action : ModerationAction
  msgId : String
  authorId : String
  belowSeq : Nat
  beforeTs : Option Int
  deriving DecidableEq

namespace Redaction

/-- `Redaction::From`. -/
def ofOp (op : ModerationOp) (belowSeq : Nat) : Redaction :=
  { dest := destinationKey op.dest, action := op.action, msgId := op.msgId, authorId := op.authorId,
    belowSeq, beforeTs := op.beforeTs }

/-- The time bound: a message with no usable time is out of its reach. -/
def reachesTs (ρ : Redaction) (ts : Int) : Bool :=
  match ρ.beforeTs with
  | some bound => decide (0 < ts) && decide (ts ≤ bound)
  | none => true

/-- The ids the action names. One that names no message or no author names nothing. -/
def names (ρ : Redaction) (id author : String) : Bool :=
  match ρ.action with
  | .delete => ρ.msgId != "" && id == ρ.msgId
  | .clearUser => ρ.authorId != "" && author == ρ.authorId
  | .clearAll => true

def matchesRow (ρ : Redaction) (destKey : String) (seq : Nat) (ts : Int) (id author : String) : Bool :=
  if destKey ≠ ρ.dest ∨ ρ.belowSeq ≤ seq then false
  else if !ρ.reachesTs ts then false
  else ρ.names id author

def matchesFrame (ρ : Redaction) (destKey : String) (seq : Nat) (frame : Fields) : Bool :=
  ρ.matchesRow destKey seq (frameTs frame) (str frame "id") (frameAuthorId frame)

theorem matchesRow_iff (ρ : Redaction) (destKey : String) (seq : Nat) (ts : Int) (id author : String) :
    ρ.matchesRow destKey seq ts id author = true ↔
      destKey = ρ.dest ∧ seq < ρ.belowSeq ∧ ρ.reachesTs ts = true ∧ ρ.names id author = true := by
  unfold matchesRow
  split
  next out => grind
  next within =>
    have below : seq < ρ.belowSeq := by omega
    cases ρ.reachesTs ts <;> simp [below, not_not.mp (not_or.mp within).1]

end Redaction

/-! ### What redacting keeps -/

section

variable (frame : Fields) (action : ModerationAction)

theorem get?_redactFrame_of_ne {key : String} (text : key ≠ "fragments") (mark : key ≠ "deleted") :
    (redactFrame frame action).get? key = frame.get? key := by
  rw [redactFrame, Fields.get?_set_of_ne _ _ _ mark, Fields.get?_set_of_ne _ _ _ text]

theorem redactFrame_set {key : String} (value : Json) (text : key ≠ "fragments") (mark : key ≠ "deleted") :
    redactFrame (frame.set key value) action = (redactFrame frame action).set key value := by
  simp only [redactFrame, Fields.set_comm _ _ _ text.symm, Fields.set_comm _ _ _ mark.symm]

theorem redactFrame_set_mark (mark : Json) :
    redactFrame (frame.set "deleted" mark) action = redactFrame frame action := by
  simp only [redactFrame, Fields.set_comm _ _ _ (show "fragments" ≠ "deleted" by decide), Fields.set_set_self]

theorem set_mark_redactFrame :
    (redactFrame frame action).set "deleted" (.str (deletedMark action)) = redactFrame frame action := by
  simp only [redactFrame, Fields.set_set_self]

end

/-! ### The filter of a page -/

/-- `NormalizePlatform`: trimmed of ASCII whitespace, then lowercased. -/
def normalizePlatform (platform : String) : String :=
  let space (c : Char) : Bool := c ∈ [' ', '\t', '\n', '\x0b', '\x0c', '\r']
  let trimmed := ((platform.toList.dropWhile space).reverse.dropWhile space).reverse
  String.ofList (trimmed.map Char.toLower)

inductive Filter where
  | all
  | platform (platform : String)
  | destination (profileUuid accountId : String)

/-- `Filter::Matches`, over a held frame's fields. -/
def Filter.matchesItem (filter : Filter) (platform profileUuid accountId : String) : Bool :=
  match filter with
  | .all => true
  | .platform wanted => normalizePlatform platform == wanted
  | .destination profile account => profileUuid == profile || (profileUuid == "" && accountId == account)

end Braidcast.Chat
