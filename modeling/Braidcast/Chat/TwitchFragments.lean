import Braidcast.Chat.SseStream

/-!
# Fragments of a Twitch message

`ParseEmotes` and `BuildFragments` of `twitch_chat.cpp` and `ApplyThirdPartyEmotes`. A message is cut
into code points for the ranges of the emotes tag, and each text run that they leave is cut at spaces
for the third-party emotes. The socket hands on no message of more than 4 MiB, so that its length is
an `int`.
-/
namespace Braidcast.Chat.Twitch

open Lib

def slash : UInt8 := 47
def comma : UInt8 := 44
def dash : UInt8 := 45

/-- How many bytes follow the lead byte of a code point, going by the lead byte alone. -/
def following (c : UInt8) (_ : Bytes) : Nat :=
  if c < 0x80 then 0
  else if c >>> 5 = 0x6 then 1
  else if c >>> 4 = 0xE then 2
  else if c >>> 3 = 0x1E then 3
  else 0

/-- `CodePoints`. The last one may be cut short. -/
def codePoints (s : Bytes) : List Bytes := chunks following s

structure EmoteSpan where
  start : Int
  last : Int
  id : Bytes
  deriving DecidableEq

/-- What stands before the first `sep` and after it, when there is one. -/
def cutAt (sep : UInt8) (s : Bytes) : Option (Bytes × Bytes) :=
  if sep ∈ s then some (s.takeWhile (· != sep), (s.dropWhile (· != sep)).tail) else none

/-- `atoi`; what it gives for a number that is no `int` is left open. -/
abbrev Atoi := Bytes → Int

section parse

variable (atoi : Atoi)

/-- A range of a group, unless it ends before it starts. -/
def readRange (id range : Bytes) : Option EmoteSpan :=
  match cutAt dash range with
  | none => none
  | some (first, last) => if atoi first ≤ atoi last then some ⟨atoi first, atoi last, id⟩ else none

def readGroup (group : Bytes) : List EmoteSpan :=
  match cutAt colon group with
  | none => []
  | some (id, ranges) => (ranges.splitOn comma).filterMap (readRange atoi id)

/-- The spans that `ParseEmotes` collects. An empty group or range has neither colon nor dash. -/
def readEmotes (tag : Bytes) : List EmoteSpan := (tag.splitOn slash).flatMap (readGroup atoi)

/-- `ParseEmotes`. `std::sort` leaves spans with the same start in any order. -/
def ParseEmotes (tag : Bytes) (spans : List EmoteSpan) : Prop :=
  spans.Perm (readEmotes atoi tag) ∧ spans.Pairwise fun a b => a.start ≤ b.start

end parse

inductive Fragment where
  | text (words : Bytes)
  | emote (code url : Bytes)
  deriving DecidableEq

/-- The part of the message a fragment stands for. -/
def Fragment.part : Fragment → Bytes
  | .text words => words
  | .emote code _ => code

def kEmoteUrlPrefix : Bytes := ascii "https://static-cdn.jtvnw.net/emoticons/v2/"

def kEmoteUrlSuffix : Bytes := ascii "/default/dark/1.0"

/-- `JoinCps`: the code points from `first` to `last`, both included. -/
def joinCps (cps : List Bytes) (first last : Int) : Bytes := ((cps.take (last + 1).toNat).drop first.toNat).flatten

/-- The loop of `BuildFragments` and what stands after it. -/
def fragmentsFrom (cps : List Bytes) (cursor : Int) : List EmoteSpan → List Fragment
  | [] => if cursor < cps.length then [.text (joinCps cps cursor (cps.length - 1))] else []
  | s :: spans =>
    if s.start < 0 ∨ cps.length ≤ s.start ∨ cps.length ≤ s.last ∨ s.start < cursor then fragmentsFrom cps cursor spans
    else
      (if cursor < s.start then [.text (joinCps cps cursor (s.start - 1))] else []) ++
        .emote (joinCps cps s.start s.last) (kEmoteUrlPrefix ++ s.id ++ kEmoteUrlSuffix) ::
          fragmentsFrom cps (s.last + 1) spans

def buildFragments (message : Bytes) (spans : List EmoteSpan) : List Fragment :=
  if spans = [] then if message = [] then [] else [.text message]
  else fragmentsFrom (codePoints message) 0 spans

/-- `ThirdPartyEmoteMap`: the codes with their URLs. -/
abbrev ThirdPartyEmoteMap := List (Bytes × Bytes)

/-- The text that is still to be written, unless there is none. -/
def flush (pending : Bytes) : List Fragment := if pending = [] then [] else [.text pending]

/-- The loop of `ApplyThirdPartyEmotes` inside a text, over its spacings and words. -/
def applyWords (emotes : ThirdPartyEmoteMap) (pending : Bytes) : List Bytes → List Fragment
  | [] => flush pending
  | token :: tokens =>
    if token.head? = some space then applyWords emotes (pending ++ token) tokens
    else
      match emotes.lookup token with
      | some url => flush pending ++ .emote token url :: applyWords emotes [] tokens
      | none => applyWords emotes (pending ++ token) tokens

def applyText (emotes : ThirdPartyEmoteMap) : Fragment → List Fragment
  | .text words => applyWords emotes [] (runs (· == space) words)
  | .emote code url => [.emote code url]

def applyThirdPartyEmotes (fragments : List Fragment) (emotes : ThirdPartyEmoteMap) : List Fragment :=
  if emotes = [] then fragments else fragments.flatMap (applyText emotes)

/-! ## The parts make the message -/

/-- The parts of the fragments, one after the other. -/
def parts (fragments : List Fragment) : Bytes := fragments.flatMap Fragment.part

@[simp] theorem parts_nil : parts [] = [] := rfl

@[simp] theorem parts_cons (f : Fragment) (fragments : List Fragment) : parts (f :: fragments) = f.part ++ parts fragments :=
  List.flatMap_cons

@[simp] theorem parts_append (fs gs : List Fragment) : parts (fs ++ gs) = parts fs ++ parts gs := List.flatMap_append

@[simp] theorem parts_flush (pending : Bytes) : parts (flush pending) = pending := by
  unfold flush
  split
  next none => rw [none, parts_nil]
  next => exact List.append_nil _

theorem parts_applyWords (emotes : ThirdPartyEmoteMap) (pending : Bytes) (tokens : List Bytes) :
    parts (applyWords emotes pending tokens) = pending ++ tokens.flatten := by
  induction tokens generalizing pending with
  | nil => rw [applyWords, parts_flush, List.flatten_nil, List.append_nil]
  | cons token tokens ih =>
    rw [applyWords]
    split
    · rw [ih, List.append_assoc, List.flatten_cons]
    · split
      · rw [parts_append, parts_flush, parts_cons, ih, List.nil_append, List.flatten_cons, Fragment.part]
      · rw [ih, List.append_assoc, List.flatten_cons]

@[simp] theorem parts_applyText (emotes : ThirdPartyEmoteMap) (f : Fragment) : parts (applyText emotes f) = f.part := by
  cases f with
  | text words => rw [applyText, parts_applyWords, List.nil_append, flatten_runs, Fragment.part]
  | emote code url => exact List.append_nil _

theorem parts_applyThirdPartyEmotes (fragments : List Fragment) (emotes : ThirdPartyEmoteMap) :
    parts (applyThirdPartyEmotes fragments emotes) = parts fragments := by
  unfold applyThirdPartyEmotes
  split
  · rfl
  · induction fragments with
    | nil => rfl
    | cons f fragments ih => rw [List.flatMap_cons, parts_append, parts_applyText, ih, parts_cons]

variable {cps : List Bytes} {cursor first last : Int} {atoi : Atoi} {spans : List EmoteSpan}

theorem joinCps_rest (ordered : first ≤ last + 1) :
    joinCps cps first last ++ (cps.drop (last + 1).toNat).flatten = (cps.drop first.toNat).flatten := by
  have gap : first.toNat + ((last + 1).toNat - first.toNat) = (last + 1).toNat := by omega
  have rest : cps.drop (last + 1).toNat = (cps.drop first.toNat).drop ((last + 1).toNat - first.toNat) := by
    rw [List.drop_drop, gap]
  rw [joinCps, List.drop_take, rest, ← List.flatten_append, List.take_append_drop]

/-- The gap before a span, if there is one. -/
theorem parts_gap (ordered : cursor ≤ first) :
    parts (if cursor < first then [.text (joinCps cps cursor (first - 1))] else []) ++ (cps.drop first.toNat).flatten =
      (cps.drop cursor.toNat).flatten := by
  split
  next gap =>
    have upto : joinCps cps cursor (first - 1) ++ (cps.drop (first - 1 + 1).toNat).flatten = (cps.drop cursor.toNat).flatten :=
      joinCps_rest (by omega)
    rw [Int.sub_add_cancel] at upto
    rw [parts_cons, parts_nil, List.append_nil, Fragment.part, upto]
  next nothing =>
    have same : cursor = first := by omega
    rw [same, parts_nil, List.nil_append]

theorem parts_fragmentsFrom (forward : ∀ s ∈ spans, s.start ≤ s.last) (start : 0 ≤ cursor) :
    parts (fragmentsFrom cps cursor spans) = (cps.drop cursor.toNat).flatten := by
  induction spans generalizing cursor with
  | nil =>
    rw [fragmentsFrom]
    split
    next more =>
      have upto : joinCps cps cursor (cps.length - 1) ++ (cps.drop ((cps.length : Int) - 1 + 1).toNat).flatten = (cps.drop cursor.toNat).flatten :=
        joinCps_rest (by omega)
      rw [Int.sub_add_cancel, Int.toNat_natCast, List.drop_length, List.flatten_nil, List.append_nil] at upto
      rw [parts_cons, parts_nil, List.append_nil, Fragment.part, upto]
    next ended =>
      have outside : cps.length ≤ cursor.toNat := by omega
      rw [parts_nil, List.drop_eq_nil_of_le outside, List.flatten_nil]
  | cons s spans ih =>
    obtain ⟨here, others⟩ := List.forall_mem_cons.mp forward
    rw [fragmentsFrom]
    split
    next => exact ih others start
    next kept =>
      have upto : joinCps cps s.start s.last ++ (cps.drop (s.last + 1).toNat).flatten = (cps.drop s.start.toNat).flatten :=
        joinCps_rest (by omega)
      rw [parts_append, parts_cons, ih others (by omega), Fragment.part, upto]
      exact parts_gap (by omega)

theorem forward_of_mem {tag : Bytes} {s : EmoteSpan} (member : s ∈ readEmotes atoi tag) : s.start ≤ s.last := by
  obtain ⟨group, -, read⟩ := List.mem_flatMap.mp member
  unfold readGroup at read
  split at read
  · exact absurd read List.not_mem_nil
  · obtain ⟨range, -, kept⟩ := List.mem_filterMap.mp read
    unfold readRange at kept
    split at kept
    · nomatch kept
    · split at kept
      next ordered =>
        obtain rfl := Option.some.inj kept
        exact ordered
      · nomatch kept

theorem parts_buildFragments {tag : Bytes} (message : Bytes) (parsed : ParseEmotes atoi tag spans) :
    parts (buildFragments message spans) = message := by
  unfold buildFragments
  split
  next =>
    split
    next none => rw [none, parts_nil]
    next => exact List.append_nil _
  next =>
    have forward : ∀ s ∈ spans, s.start ≤ s.last := fun s member => forward_of_mem (parsed.1.mem_iff.mp member)
    rw [parts_fragmentsFrom forward (Int.le_refl 0)]
    exact flatten_chunks following message

/-! ## Where the emotes come from -/

/-- The range of a span that the message has. -/
def Native (message : Bytes) (s : EmoteSpan) (code url : Bytes) : Prop :=
  0 ≤ s.start ∧ s.last < (codePoints message).length ∧ code = joinCps (codePoints message) s.start s.last ∧
    url = kEmoteUrlPrefix ++ s.id ++ kEmoteUrlSuffix

/-- A maximal stretch without spaces in a text. -/
def WordOf (words code : Bytes) : Prop := code ≠ [] ∧ Stretch (fun c => !(c == space)) words code

theorem not_emote_of_flush {pending code url : Bytes} : .emote code url ∉ flush pending := by
  unfold flush
  split <;> simp

theorem emote_of_applyWords {emotes : ThirdPartyEmoteMap} {pending code url : Bytes} {tokens : List Bytes}
    (member : .emote code url ∈ applyWords emotes pending tokens) :
    code ∈ tokens ∧ code.head? ≠ some space ∧ emotes.lookup code = some url := by
  induction tokens generalizing pending with
  | nil => exact absurd member not_emote_of_flush
  | cons token tokens ih =>
    have later {pending : Bytes} (member : .emote code url ∈ applyWords emotes pending tokens) :
        code ∈ token :: tokens ∧ code.head? ≠ some space ∧ emotes.lookup code = some url :=
      (ih member).imp (List.mem_cons_of_mem _) id
    rw [applyWords] at member
    split at member
    next => exact later member
    next word =>
      split at member
      next found =>
        rcases List.mem_append.mp member with flushed | member
        · exact absurd flushed not_emote_of_flush
        · rcases List.mem_cons.mp member with same | member
          · obtain ⟨rfl, rfl⟩ := Fragment.emote.inj same
            exact ⟨List.mem_cons_self, word, found⟩
          · exact later member
      next => exact later member

theorem native_of_fragmentsFrom {message code url : Bytes}
    (member : .emote code url ∈ fragmentsFrom (codePoints message) cursor spans) : ∃ s ∈ spans, Native message s code url := by
  induction spans generalizing cursor with
  | nil =>
    rw [fragmentsFrom] at member
    split at member <;> simp at member
  | cons s spans ih =>
    have later {cursor : Int} (member : .emote code url ∈ fragmentsFrom (codePoints message) cursor spans) :
        ∃ s' ∈ s :: spans, Native message s' code url := by
      obtain ⟨s', inside, native⟩ := ih member
      exact ⟨s', List.mem_cons_of_mem _ inside, native⟩
    rw [fragmentsFrom] at member
    split at member
    next => exact later member
    next kept =>
      rcases List.mem_append.mp member with gap | member
      · split at gap <;> simp at gap
      · rcases List.mem_cons.mp member with same | member
        · obtain ⟨rfl, rfl⟩ := Fragment.emote.inj same
          exact ⟨s, List.mem_cons_self, by omega, by omega, rfl, rfl⟩
        · exact later member

theorem native_of_buildFragments {message code url : Bytes} (member : .emote code url ∈ buildFragments message spans) :
    ∃ s ∈ spans, Native message s code url := by
  unfold buildFragments at member
  split at member
  · split at member <;> simp at member
  · exact native_of_fragmentsFrom member

/-- An emote of the second pass was there before it or is a word of a text. -/
theorem emote_of_apply {fragments : List Fragment} {emotes : ThirdPartyEmoteMap} {code url : Bytes}
    (member : .emote code url ∈ applyThirdPartyEmotes fragments emotes) :
    .emote code url ∈ fragments ∨
      ∃ words, .text words ∈ fragments ∧ WordOf words code ∧ emotes.lookup code = some url := by
  unfold applyThirdPartyEmotes at member
  split at member
  · exact .inl member
  · obtain ⟨f, inside, member⟩ := List.mem_flatMap.mp member
    cases f with
    | text words =>
      obtain ⟨run, first, found⟩ := emote_of_applyWords member
      refine .inr ⟨words, inside, stretch_of_head run fun c head => ?_, found⟩
      exact beq_eq_false_iff_ne.mpr fun is_space => first (is_space ▸ head)
    | emote code' url' =>
      rw [List.mem_singleton.mp member]
      exact .inl inside

/-- The parts of the fragments are the message, and each emote is a range of the tag or a word of a
text between such ranges. -/
theorem fragments_partition (atoi : Atoi) (message tag : Bytes) (emotes : ThirdPartyEmoteMap) (spans : List EmoteSpan)
    (parsed : ParseEmotes atoi tag spans) :
    parts (applyThirdPartyEmotes (buildFragments message spans) emotes) = message ∧
      ∀ code url, .emote code url ∈ applyThirdPartyEmotes (buildFragments message spans) emotes →
        (∃ s ∈ readEmotes atoi tag, Native message s code url) ∨
          ∃ words, .text words ∈ buildFragments message spans ∧ WordOf words code ∧ emotes.lookup code = some url := by
  constructor
  · rw [parts_applyThirdPartyEmotes, parts_buildFragments message parsed]
  · intro code url member
    refine (emote_of_apply member).imp_left fun native => ?_
    obtain ⟨s, inside, native⟩ := native_of_buildFragments native
    exact ⟨s, parsed.1.mem_iff.mp inside, native⟩

/-- What `atoi` makes of digits. -/
def decimal (s : Bytes) : Int := (s.takeWhile isDigit).foldl (fun n c => 10 * n + (c.toNat - 48 : Nat)) 0

theorem fragments_partition_some :
    ParseEmotes decimal (ascii "25:3-7") [⟨3, 7, ascii "25"⟩] ∧
      parts (applyThirdPartyEmotes (buildFragments (ascii "hi Kappa LUL") [⟨3, 7, ascii "25"⟩]) [(ascii "LUL", ascii "u")]) =
        ascii "hi Kappa LUL" :=
  have parsed : ParseEmotes decimal (ascii "25:3-7") [⟨3, 7, ascii "25"⟩] := by
    have read : readEmotes decimal (ascii "25:3-7") = [⟨3, 7, ascii "25"⟩] := by decide
    exact ⟨read ▸ List.Perm.refl _, List.pairwise_singleton _ _⟩
  ⟨parsed, (fragments_partition decimal (ascii "hi Kappa LUL") (ascii "25:3-7") [(ascii "LUL", ascii "u")] _ parsed).1⟩

/-- Between two spacings of any kind: what is commonly called a word. -/
def isWhitespace (c : UInt8) : Bool := c == 32 || (9 ≤ c && c ≤ 13)

/-- An emote can be part of a word that a native emote has cut, and have a tab inside. -/
theorem not_always_whole_words : ¬ ∀ (message tag : Bytes) (emotes : ThirdPartyEmoteMap) (spans : List EmoteSpan),
    ParseEmotes decimal tag spans →
      parts (applyThirdPartyEmotes (buildFragments message spans) emotes) = message ∧
        ∀ code url, .emote code url ∈ applyThirdPartyEmotes (buildFragments message spans) emotes →
          (∃ s ∈ readEmotes decimal tag, code = joinCps (codePoints message) s.start s.last) ∨
            (emotes.lookup code).isSome ∧ code ≠ [] ∧ Stretch (fun c => !isWhitespace c) message code := by
  intro claim
  let spans : List EmoteSpan := [⟨0, 0, ascii "1"⟩]
  have read : readEmotes decimal (ascii "1:0-0") = spans := by decide
  have parsed : ParseEmotes decimal (ascii "1:0-0") spans := ⟨read ▸ List.Perm.refl _, List.pairwise_singleton _ _⟩
  have emote : .emote (ascii "b\tc") (ascii "u") ∈
      applyThirdPartyEmotes (buildFragments (ascii "ab\tc") spans) [(ascii "b\tc", ascii "u")] := by decide
  rcases (claim _ _ _ _ parsed).2 _ _ emote with ⟨s, inside, code⟩ | ⟨-, -, word⟩
  · rw [read, List.mem_singleton] at inside
    rw [inside] at code
    exact absurd code (by decide)
  · have spaced := word.holds 9 (by decide)
    exact absurd spaced (by decide)

end Braidcast.Chat.Twitch
