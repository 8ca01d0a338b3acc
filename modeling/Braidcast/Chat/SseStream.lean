import Braidcast.Lib.Pieces
import Mathlib.Data.List.DropRight
import Mathlib.Data.Nat.Digits.Defs

/-!
# Server-sent events

`SseStream` of `sse_stream.cpp`, a byte at a time, and the line grammar its events are to follow.
`retry` is read into a `long` of `bits` bits that nothing keeps in range.
-/
namespace Braidcast.Chat

open Lib

abbrev Bytes := List UInt8

def ascii (text : String) : Bytes := text.toList.map fun c => c.toNat.toUInt8

def LF : UInt8 := 10
def CR : UInt8 := 13
def colon : UInt8 := 58
def space : UInt8 := 32

/-- `SseEvent`. -/
structure SseEvent where
  name : Bytes
  data : Bytes
  id : Bytes
  retryMs : Int
  deriving DecidableEq

/-- `SseStream`. -/
structure SseStream where
  line : Bytes := []
  data : Bytes := []
  name : Bytes := []
  id : Bytes := []
  retryMs : Int := -1
  keepalive : Bool := false

def kMaxBytes : Nat := 1024 * 1024

/-- `SplitField`. -/
def splitField (line : Bytes) : Bytes × Bytes :=
  match line.findIdx? (· == colon) with
  | none => (line, [])
  | some at_ =>
    let value := line.drop (at_ + 1)
    (line.take at_, if value.head? = some space then value.tail else value)

def isDigit (c : UInt8) : Bool := 48 ≤ c && c ≤ 57

/-- What `ms = ms * 10 + (c - '0')` leaves in a `long`. -/
def shiftIn (bits : Nat) (ms : Int) (c : UInt8) : Int := (ms * 10 + (c.toNat - 48 : Nat)).bmod (2 ^ bits)

/-- The loop of `ParseRetryMs`. -/
def parseDigits (bits : Nat) : Int → Bytes → Option Int
  | ms, [] => some ms
  | ms, c :: rest => if isDigit c then parseDigits bits (shiftIn bits ms c) rest else none

/-- `ParseRetryMs`: what it stores, if anything. -/
def parseRetryMs (bits : Nat) (value : Bytes) : Option Int :=
  if value = [] then none else parseDigits bits 0 value

/-- `LONG_MAX`. -/
def longMax (bits : Nat) : Int := 2 ^ (bits - 1) - 1

namespace SseStream

/-- `HandleLine`, with the event it appends. -/
def handleLine (bits : Nat) (s : SseStream) (line : Bytes) : SseStream × Option SseEvent :=
  if line = [] then
    ({ s with data := [], name := [] },
      if s.data = [] then none
      else some { name := s.name, data := s.data.dropLast, id := s.id, retryMs := s.retryMs })
  else if line.head? = some colon then
    ({ s with keepalive := true }, none)
  else
    let (field, value) := splitField line
    if field = ascii "data" then
      ({ s with data := s.data ++ value ++ [LF] }, none)
    else if field = ascii "event" then
      ({ s with name := value }, none)
    else if field = ascii "id" then
      ({ s with id := value }, none)
    else if field = ascii "retry" then
      ({ s with retryMs := (parseRetryMs bits value).getD s.retryMs }, none)
    else
      (s, none)

end SseStream

/-- The line without the CR it may end in. -/
def trimCR (line : Bytes) : Bytes := if line.getLast? = some CR then line.dropLast else line

/-- What a `Push` leaves: the stream, `out`, how many bytes it took, and what it returns. -/
structure Pushed where
  stream : SseStream
  out : List SseEvent
  taken : Nat := 0
  ok : Bool := true

namespace Pushed

/-- One turn of the loop in `Push`. -/
def byte (bits : Nat) (p : Pushed) (c : UInt8) : Pushed :=
  if c = LF then
    let (handled, event) := p.stream.handleLine bits (trimCR p.stream.line)
    { stream := { handled with line := [] }, out := p.out ++ event.toList, taken := p.taken + 1 }
  else
    let line := p.stream.line ++ [c]
    { p with
      stream := { p.stream with line }
      taken := p.taken + 1
      ok := !decide (kMaxBytes < line.length + p.stream.data.length) }

/-- `Push`. The loop is left at the byte that crosses the ceiling. -/
def push (bits : Nat) : Pushed → Bytes → Pushed
  | p, [] => p
  | p, c :: rest => if (p.byte bits c).ok then push bits (p.byte bits c) rest else p.byte bits c

/-- The chunks of a read, until a `Push` returns false. -/
def pushChunks (bits : Nat) : Pushed → List Bytes → Pushed
  | p, [] => p
  | p, chunk :: rest => if (p.push bits chunk).ok then pushChunks bits (p.push bits chunk) rest else p.push bits chunk

/-- A stream nothing was pushed into. -/
def start : Pushed := { stream := {}, out := [] }

end Pushed

/-! ### The grammar -/

/-- A line of an event stream. -/
inductive StreamLine where
  | blank
  | comment
  | field (name value : Bytes)
  deriving DecidableEq

def dropSpace : Bytes → Bytes
  | [] => []
  | c :: rest => if c = space then rest else c :: rest

def readLine : Bytes → StreamLine
  | [] => .blank
  | c :: rest =>
    if c = colon then .comment
    else .field ((c :: rest).takeWhile (· ≠ colon)) (dropSpace ((c :: rest).dropWhile (· ≠ colon)).tail)

/-- The lines a stream has completed. -/
def linesOf (stream : Bytes) : List StreamLine := (completed LF stream).map fun line => readLine (trimCR line)

/-- The values of one field, in order. -/
def values (name : String) (lines : List StreamLine) : List Bytes :=
  lines.filterMap fun
    | .field other value => if other = ascii name then some value else none
    | _ => none

/-- The lines since the last blank one. -/
def block (lines : List StreamLine) : List StreamLine := lines.rtakeWhile (· ≠ .blank)

def number (digits : Bytes) : Nat := Nat.ofDigits 10 (digits.map fun c => c.toNat - 48).reverse

/-- A reconnection advisory is digits only. -/
def advisory (value : Bytes) : Option Nat := if value ≠ [] ∧ value.all isDigit then some (number value) else none

/-- The advisory in force after some lines. -/
def retry (lines : List StreamLine) : Option Nat := ((values "retry" lines).filterMap advisory).getLast?

/-- The event a blank line dispatches, with an advisory kept as `long` says. -/
def eventAt (long : Nat → Int) (before : List StreamLine) : Option SseEvent :=
  if values "data" (block before) = [] then none
  else some {
    name := (values "event" (block before)).getLastD []
    data := [LF].intercalate (values "data" (block before))
    id := (values "id" before).getLastD []
    retryMs := (retry before).elim (-1) long }

def events (long : Nat → Int) (lines : List StreamLine) : List SseEvent :=
  (List.range lines.length).flatMap fun n =>
    if lines[n]? = some .blank then (eventAt long (lines.take n)).toList else []

/-- The bytes a stream has read of an event it has not dispatched. -/
def held (stream : Bytes) : Nat :=
  (unfinished LF stream).length + ((values "data" (block (linesOf stream))).map fun value => value.length + 1).sum

/-- No byte but an LF is read with more than the ceiling held. -/
def WithinCeiling (stream : Bytes) : Prop :=
  ∀ read, read <+: stream → read.getLast? ≠ some LF → held read ≤ kMaxBytes

/-- No event is dispatched with an advisory in force that a `long` does not hold. -/
def AdvisoriesFit (bits : Nat) (stream : Bytes) : Prop :=
  ∀ read before, read <+: stream → WithinCeiling read → linesOf read = before ++ [.blank] →
    values "data" (block before) ≠ [] → ∀ ms ∈ retry before, (ms : Int) ≤ longMax bits

/-- However a stream is cut, it is read as in one chunk; and wherever it has not failed, its events are
the grammar's. -/
def ReadAsFramed (bits : Nat) (chunks : List Bytes) : Prop :=
  (∀ p : Pushed, p.ok = true → p.pushChunks bits chunks = p.push bits chunks.flatten) ∧
    ∀ read, read <+: chunks.flatten → (Pushed.start.push bits read).ok = true →
      (Pushed.start.push bits read).out = events (fun ms => ms) (linesOf read)

/-! ### Chunks -/

namespace Pushed

variable {bits : Nat} {p : Pushed}

theorem push_append (ok : p.ok = true) (first rest : Bytes) :
    p.push bits (first ++ rest) = if (p.push bits first).ok then (p.push bits first).push bits rest else p.push bits first := by
  induction first generalizing p with
  | nil => simp [push, ok]
  | cons c more ih =>
    rw [List.cons_append, push, push]
    by_cases read : (p.byte bits c).ok = true
    · rw [if_pos read, if_pos read]
      exact ih read
    · rw [if_neg read, if_neg read, if_neg read]

theorem push_concat (ok : p.ok = true) (stream : Bytes) (c : UInt8) :
    p.push bits (stream ++ [c]) = if (p.push bits stream).ok then (p.push bits stream).byte bits c else p.push bits stream := by
  rw [push_append ok]
  congr 1
  rw [push, push, ite_self]

theorem pushChunks_flatten (ok : p.ok = true) (chunks : List Bytes) :
    p.pushChunks bits chunks = p.push bits chunks.flatten := by
  induction chunks generalizing p with
  | nil => rfl
  | cons chunk rest ih =>
    rw [List.flatten_cons, push_append ok, pushChunks]
    split
    next read => exact ih read
    next => rfl

end Pushed

/-! ### Lines -/

theorem dropSpace_eq (value : Bytes) : (if value.head? = some space then value.tail else value) = dropSpace value := by
  cases value <;> simp [dropSpace]

theorem splitField_eq (line : Bytes) :
    splitField line = (line.takeWhile (· ≠ colon), dropSpace (line.dropWhile (· ≠ colon)).tail) := by
  have same : (fun c => !decide (c ≠ colon)) = (· == colon) := by
    funext c
    simp [beq_eq_decide]
  rw [splitField, List.takeWhile_eq_take_findIdx_not, List.dropWhile_eq_drop_findIdx_not, same]
  cases found : line.findIdx? (· == colon) with
  | none =>
    have length := List.findIdx?_eq_none_iff_findIdx_eq.mp found
    simp [length, dropSpace]
  | some at_ =>
    obtain ⟨-, place⟩ := List.findIdx?_eq_some_iff_findIdx_eq.mp found
    simp only [place, List.tail_drop, ← dropSpace_eq]

theorem linesOf_concat {c : UInt8} (goesOn : c ≠ LF) (stream : Bytes) : linesOf (stream ++ [c]) = linesOf stream := by
  rw [linesOf, (completed_concat goesOn stream).1, linesOf]

theorem linesOf_concat_LF (stream : Bytes) :
    linesOf (stream ++ [LF]) = linesOf stream ++ [readLine (trimCR (unfinished LF stream))] := by
  rw [linesOf, (completed_concat_sep LF stream).1, List.map_append, linesOf]
  rfl

@[simp] theorem values_concat_blank (name : String) (lines : List StreamLine) :
    values name (lines ++ [.blank]) = values name lines := by simp [values]

@[simp] theorem values_concat_comment (name : String) (lines : List StreamLine) :
    values name (lines ++ [.comment]) = values name lines := by simp [values]

theorem values_concat_field (name : String) (lines : List StreamLine) (field value : Bytes) :
    values name (lines ++ [.field field value]) = values name lines ++ if field = ascii name then [value] else [] := by
  rw [values, List.filterMap_append, values]
  split
  next same => simp [same]
  next other => simp [other]

@[simp] theorem block_concat_blank (lines : List StreamLine) : block (lines ++ [.blank]) = [] := by
  simp [block]

theorem block_concat {line : StreamLine} (filled : line ≠ .blank) (lines : List StreamLine) :
    block (lines ++ [line]) = block lines ++ [line] := by
  simp [block, filled]

theorem events_concat (long : Nat → Int) (lines : List StreamLine) (line : StreamLine) :
    events long (lines ++ [line]) = events long lines ++ (if line = .blank then eventAt long lines else none).toList := by
  rw [events, List.length_append, List.length_singleton, List.range_succ, List.flatMap_append, events]
  congr 1
  · refine List.flatMap_congr fun n member => ?_
    have before := List.mem_range.mp member
    rw [List.getElem?_append_left before, List.take_append_of_le_length before.le]
  · by_cases blank : line = .blank <;> simp [blank]

/-! ### Advisories -/

theorem parseDigits_eq (bits : Nat) (ms : Nat) (digits : Bytes) :
    parseDigits bits ((ms : Int).bmod (2 ^ bits)) digits =
      if digits.all isDigit then
        some (((digits.foldl (fun n c => n * 10 + (c.toNat - 48)) ms : Nat) : Int).bmod (2 ^ bits)) else none := by
  induction digits generalizing ms with
  | nil => rfl
  | cons c rest ih =>
    rw [parseDigits, List.all_cons, List.foldl_cons]
    by_cases digit : isDigit c = true
    · have shifted : shiftIn bits ((ms : Int).bmod (2 ^ bits)) c = ((ms * 10 + (c.toNat - 48) : Nat) : Int).bmod (2 ^ bits) := by
        rw [shiftIn, ← Int.bmod_add_bmod, Int.bmod_mul_bmod, Int.bmod_add_bmod]
        push_cast
        rfl
      rw [if_pos digit, shifted, ih, digit, Bool.true_and]
    · rw [if_neg digit]
      simp [digit]

theorem number_eq_foldl (digits : Bytes) : number digits = digits.foldl (fun n c => n * 10 + (c.toNat - 48)) 0 := by
  rw [number, Nat.ofDigits_eq_foldr, List.foldr_reverse, List.foldl_map]
  congr 1
  funext n c
  simp [Nat.mul_comm, Nat.add_comm]

/-- `ParseRetryMs` reads an advisory into a `long`. -/
theorem parseRetryMs_eq (bits : Nat) (value : Bytes) :
    parseRetryMs bits value = (advisory value).map fun ms => (ms : Int).bmod (2 ^ bits) := by
  have zero : (0 : Int) = ((0 : Nat) : Int).bmod (2 ^ bits) := by simp
  by_cases filled : value = []
  · simp [parseRetryMs, advisory, filled]
  · rw [parseRetryMs, if_neg filled, advisory, zero, parseDigits_eq, ← number_eq_foldl]
    by_cases digits : value.all isDigit = true
    · rw [if_pos digits, if_pos ⟨filled, digits⟩]
      rfl
    · rw [if_neg digits, if_neg fun both => digits both.2]
      rfl

theorem bmod_eq_self_iff (bits ms : Nat) : (ms : Int).bmod (2 ^ bits) = ms ↔ (ms : Int) ≤ longMax bits := by
  have half : (((2 ^ bits : Nat) : Int) + 1) / 2 = longMax bits + 1 := by
    cases bits with
    | zero => rfl
    | succ n =>
      rw [longMax, Nat.add_sub_cancel]
      push_cast
      rw [pow_succ]
      omega
  constructor
  · intro same
    have below := Int.bmod_lt (x := (ms : Int)) (Nat.two_pow_pos bits)
    rw [same, half] at below
    omega
  · intro fits
    apply Int.bmod_eq_of_le
    · omega
    · rw [half]
      omega

/-- What a `long` keeps of an advisory. -/
def wrapped (bits ms : Nat) : Int := (ms : Int).bmod (2 ^ bits)

theorem retry_concat_field (bits : Nat) (lines : List StreamLine) (value : Bytes) :
    (retry (lines ++ [.field (ascii "retry") value])).elim (-1) (wrapped bits) =
      (parseRetryMs bits value).getD ((retry lines).elim (-1) (wrapped bits)) := by
  rw [retry, values_concat_field, if_pos rfl, List.filterMap_append, parseRetryMs_eq, retry]
  cases read : advisory value with
  | none => simp [read]
  | some ms => simp [read, wrapped]

/-! ### The stream follows the grammar -/

/-- The stream after some lines, with `line` begun. -/
def streamAfter (bits : Nat) (lines : List StreamLine) (line : Bytes) : SseStream where
  line
  data := (values "data" (block lines)).flatMap (· ++ [LF])
  name := (values "event" (block lines)).getLastD []
  id := (values "id" lines).getLastD []
  retryMs := (retry lines).elim (-1) (wrapped bits)
  keepalive := decide (StreamLine.comment ∈ lines)

theorem flatMap_data_eq_nil {held : List Bytes} : held.flatMap (· ++ [LF]) = [] ↔ held = [] := by
  cases held <;> simp

/-- What `pop_back` leaves of the data lines. -/
theorem dropLast_flatMap_data {held : List Bytes} (seen : held ≠ []) :
    (held.flatMap (· ++ [LF])).dropLast = [LF].intercalate held := by
  induction held with
  | nil => exact absurd rfl seen
  | cons value rest ih =>
    rw [List.flatMap_cons]
    cases rest with
    | nil => simp [List.intercalate]
    | cons next more =>
      rw [List.dropLast_append_of_ne_nil (by simp), ih (by simp)]
      simp [List.intercalate]

variable {bits : Nat}

theorem handleLine_blank (lines : List StreamLine) (line : Bytes) :
    (streamAfter bits lines line).handleLine bits [] =
      (streamAfter bits (lines ++ [.blank]) line, eventAt (wrapped bits) lines) := by
  rw [SseStream.handleLine, if_pos rfl]
  refine Prod.ext ?_ ?_
  · simp [streamAfter, values, retry]
  · have none_held : (streamAfter bits lines line).data = [] ↔ values "data" (block lines) = [] := flatMap_data_eq_nil
    rw [eventAt]
    by_cases seen : values "data" (block lines) = []
    · rw [if_pos seen]
      exact if_pos (none_held.mpr seen)
    · rw [if_neg seen, ← dropLast_flatMap_data seen]
      exact if_neg (mt none_held.mp seen)

theorem ascii_apart :
    ascii "data" ≠ ascii "event" ∧ ascii "data" ≠ ascii "id" ∧ ascii "data" ≠ ascii "retry" ∧
      ascii "event" ≠ ascii "id" ∧ ascii "event" ≠ ascii "retry" ∧ ascii "id" ≠ ascii "retry" := by decide

theorem handleLine_comment (lines : List StreamLine) (line rest : Bytes) :
    (streamAfter bits lines line).handleLine bits (colon :: rest) = (streamAfter bits (lines ++ [.comment]) line, none) := by
  have first : (colon :: rest).head? = some colon := rfl
  rw [SseStream.handleLine, if_neg (by simp), if_pos first]
  simp [streamAfter, block_concat, retry]

theorem values_block_field (name : String) (lines : List StreamLine) (field value : Bytes) :
    values name (block (lines ++ [.field field value])) =
      values name (block lines) ++ if field = ascii name then [value] else [] := by
  rw [block_concat (by simp), values_concat_field]

theorem retry_concat_other {lines : List StreamLine} {field : Bytes} (value : Bytes) (other : field ≠ ascii "retry") :
    retry (lines ++ [.field field value]) = retry lines := by
  rw [retry, values_concat_field, if_neg other, List.append_nil, retry]

/-- A field line sets the one record of its field. -/
theorem handleLine_field (lines : List StreamLine) (line text : Bytes) (filled : text ≠ [])
    (plain : text.head? ≠ some colon) :
    (streamAfter bits lines line).handleLine bits text =
      (streamAfter bits (lines ++ [.field (splitField text).1 (splitField text).2]) line, none) := by
  rw [SseStream.handleLine, if_neg filled, if_neg plain]
  generalize splitField text = split_
  obtain ⟨field, value⟩ := split_
  obtain ⟨de, di, dr, ei, er, ir⟩ := ascii_apart
  dsimp only
  by_cases data : field = ascii "data"
  · subst data
    rw [if_pos rfl]
    simp [streamAfter, values_block_field, values_concat_field, retry_concat_other value dr, de, di]
  rw [if_neg data]
  by_cases event : field = ascii "event"
  · subst event
    rw [if_pos rfl]
    simp [streamAfter, values_block_field, values_concat_field, retry_concat_other value er, de.symm, ei]
  rw [if_neg event]
  by_cases id : field = ascii "id"
  · subst id
    rw [if_pos rfl]
    simp [streamAfter, values_block_field, values_concat_field, retry_concat_other value ir, di.symm, ei.symm]
  rw [if_neg id]
  by_cases advised : field = ascii "retry"
  · subst advised
    rw [if_pos rfl]
    simp [streamAfter, values_block_field, values_concat_field, retry_concat_field, dr.symm, er.symm, ir.symm]
  · rw [if_neg advised]
    simp [streamAfter, values_block_field, values_concat_field, retry_concat_other value advised, data, event, id]

/-- Handling a line goes on by one line of the grammar. -/
theorem handleLine_eq (lines : List StreamLine) (line text : Bytes) :
    (streamAfter bits lines line).handleLine bits text =
      (streamAfter bits (lines ++ [readLine text]) line,
        if readLine text = .blank then eventAt (wrapped bits) lines else none) := by
  cases text with
  | nil =>
    rw [handleLine_blank]
    rfl
  | cons c rest =>
    by_cases comment : c = colon
    · subst comment
      rw [handleLine_comment, readLine, if_pos rfl, if_neg (by simp)]
    · rw [handleLine_field lines line (c :: rest) (by simp) (by simpa using comment), splitField_eq, readLine,
        if_neg comment, if_neg (by simp)]

/-- What pushing a stream leaves, by the grammar of its lines. -/
def pushedBy (bits : Nat) (stream : Bytes) : Pushed where
  stream := streamAfter bits (linesOf stream) (unfinished LF stream)
  out := events (wrapped bits) (linesOf stream)
  taken := stream.length
  ok := true

theorem byte_LF (stream : Bytes) : (pushedBy bits stream).byte bits LF = pushedBy bits (stream ++ [LF]) := by
  rw [Pushed.byte, if_pos rfl]
  dsimp only [pushedBy]
  rw [handleLine_eq, linesOf_concat_LF, events_concat, (completed_concat_sep LF stream).2, List.length_append]
  rfl

theorem held_eq (bits : Nat) (stream : Bytes) : (unfinished LF stream).length + (pushedBy bits stream).stream.data.length = held stream := by
  rw [held]
  congr 1
  simp [pushedBy, streamAfter, List.length_flatMap]

/-- Any other byte goes on with the line, and passes while no more than the ceiling is held. -/
theorem byte_other {c : UInt8} (goesOn : c ≠ LF) (stream : Bytes) :
    (pushedBy bits stream).byte bits c =
      { pushedBy bits (stream ++ [c]) with ok := decide (held (stream ++ [c]) ≤ kMaxBytes) } := by
  have count := held_eq bits (stream ++ [c])
  rw [Pushed.byte, if_neg goesOn, ← count]
  simp only [pushedBy, streamAfter, linesOf_concat goesOn, (completed_concat goesOn stream).2, List.length_append,
    ← decide_not, Nat.not_lt]
  rfl

theorem withinCeiling_concat (stream : Bytes) (c : UInt8) :
    WithinCeiling (stream ++ [c]) ↔ WithinCeiling stream ∧ (c ≠ LF → held (stream ++ [c]) ≤ kMaxBytes) := by
  constructor
  · intro within
    exact ⟨fun read first => within read (first.trans (List.prefix_append ..)),
      fun goesOn => within _ (List.prefix_refl _) (by simpa using goesOn)⟩
  · rintro ⟨within, last⟩ read first goesOn
    rcases List.prefix_concat_iff.mp first with rfl | first
    · exact last (by simpa using goesOn)
    · exact within read first goesOn

/-- A stream is read to its end exactly while it stays within the ceiling, and then as the grammar
says. -/
theorem push_start (bits : Nat) (stream : Bytes) :
    ((Pushed.start.push bits stream).ok = true ↔ WithinCeiling stream) ∧
      ((Pushed.start.push bits stream).ok = true → Pushed.start.push bits stream = pushedBy bits stream) := by
  induction stream using List.reverseRecOn with
  | nil =>
    refine ⟨⟨fun _ read first _ => ?_, fun _ => rfl⟩, fun _ => rfl⟩
    rw [List.prefix_nil.mp first]
    decide
  | append_singleton stream c ih =>
    obtain ⟨within, same⟩ := ih
    rw [Pushed.push_concat rfl, withinCeiling_concat, ← within]
    by_cases ok : (Pushed.start.push bits stream).ok = true
    · rw [if_pos ok, same ok]
      by_cases ends : c = LF
      · subst ends
        rw [byte_LF]
        exact ⟨⟨fun _ => ⟨rfl, fun other => absurd rfl other⟩, fun _ => rfl⟩, fun _ => rfl⟩
      · have read : (pushedBy bits stream).ok = true := rfl
        rw [byte_other ends]
        dsimp only
        refine ⟨⟨fun below => ⟨read, fun _ => of_decide_eq_true below⟩, fun both => decide_eq_true (both.2 ends)⟩,
          fun below => ?_⟩
        rw [below]
        rfl
    · rw [if_neg ok]
      exact ⟨⟨fun passed => absurd passed ok, fun both => absurd both.1 ok⟩, fun passed => absurd passed ok⟩

theorem eventAt_eq_iff (bits : Nat) (before : List StreamLine) (seen : values "data" (block before) ≠ []) :
    eventAt (wrapped bits) before = eventAt (fun ms => ms) before ↔ ∀ ms ∈ retry before, (ms : Int) ≤ longMax bits := by
  rw [eventAt, eventAt, if_neg seen, if_neg seen]
  simp only [Option.some.injEq, SseEvent.mk.injEq, true_and]
  cases retry before with
  | none => simp
  | some ms => simpa [wrapped] using bmod_eq_self_iff bits ms

/-- After one more line the events are the grammar's where they were and what the line dispatches is. -/
theorem events_concat_eq_iff (lines : List StreamLine) (line : StreamLine) :
    events (wrapped bits) (lines ++ [line]) = events (fun ms => ms) (lines ++ [line]) ↔
      events (wrapped bits) lines = events (fun ms => ms) lines ∧
        (line = .blank → values "data" (block lines) ≠ [] → ∀ ms ∈ retry lines, (ms : Int) ≤ longMax bits) := by
  rw [events_concat, events_concat]
  by_cases dispatches : line = .blank ∧ values "data" (block lines) ≠ []
  · obtain ⟨blank, seen⟩ := dispatches
    rw [if_pos blank, if_pos blank, ← eventAt_eq_iff bits lines seen]
    constructor
    · intro listed
      have each : (eventAt (wrapped bits) lines).toList.length = (eventAt (fun ms => ms) lines).toList.length := by
        simp [eventAt, seen]
      obtain ⟨earlier, last⟩ := List.append_inj' listed each
      refine ⟨earlier, fun _ _ => ?_⟩
      simpa [eventAt, seen] using last
    · rintro ⟨earlier, last⟩
      rw [earlier, last blank seen]
  · have silent : ∀ long, (if line = .blank then eventAt long lines else none) = none := by
      intro long
      split
      next blank => exact if_pos (by_contra fun seen => dispatches ⟨blank, seen⟩)
      next => rfl
    rw [silent, silent, Option.toList_none, List.append_nil, List.append_nil]
    exact ⟨fun earlier => ⟨earlier, fun blank seen => absurd ⟨blank, seen⟩ dispatches⟩, fun both => both.1⟩

/-- A stream cut into chunks is read as it is whole, and its events are those of the line grammar,
exactly where no event is dispatched with an advisory in force that passes `LONG_MAX`. -/
theorem readAsFramed_iff (bits : Nat) (chunks : List Bytes) :
    ReadAsFramed bits chunks ↔ AdvisoriesFit bits chunks.flatten := by
  constructor
  · rintro ⟨-, framed⟩ read before first within lines seen
    have ok := (push_start bits read).1.mpr within
    have listed := framed read first ok
    rw [(push_start bits read).2 ok] at listed
    dsimp only [pushedBy] at listed
    rw [lines, events_concat_eq_iff] at listed
    exact listed.2 rfl seen
  · intro fits
    refine ⟨fun p ok => Pushed.pushChunks_flatten ok chunks, fun read => ?_⟩
    induction read using List.reverseRecOn with
    | nil => exact fun _ _ => rfl
    | append_singleton read c ih =>
      intro first ok
      have within := (push_start bits (read ++ [c])).1.mp ok
      have earlier := ((withinCeiling_concat read c).mp within).1
      have passed := (push_start bits read).1.mpr earlier
      have same := ih ((List.prefix_append read [c]).trans first) passed
      rw [(push_start bits read).2 passed] at same
      rw [(push_start bits (read ++ [c])).2 ok]
      dsimp only [pushedBy] at same ⊢
      by_cases ends : c = LF
      · subst ends
        have lines := linesOf_concat_LF read
        rw [lines, events_concat_eq_iff]
        refine ⟨same, fun blank seen => ?_⟩
        rw [blank] at lines
        exact fits (read ++ [LF]) (linesOf read) first within lines seen
      · rw [linesOf_concat ends]
        exact same

/-- One past `LONG_MAX` is stated as `LONG_MIN`. -/
theorem not_readAsFramed : ¬ ∀ chunks, ReadAsFramed 64 chunks := by
  intro framed
  have stated := (framed [ascii "retry: 9223372036854775808\ndata: x\n\n"]).2 _ (List.prefix_refl _) (by decide +kernel)
  have differs : (Pushed.start.push 64 (ascii "retry: 9223372036854775808\ndata: x\n\n")).out ≠
      events (fun ms => ms) (linesOf (ascii "retry: 9223372036854775808\ndata: x\n\n")) := by
    decide +kernel
  exact differs stated

end Braidcast.Chat
