import Braidcast.Chat.SseStream
import Braidcast.Lib.Assign
import Braidcast.Lib.Fields
import Braidcast.Lib.Lists

/-!
# Twitch's IRC lines

`SplitLines`, `ParseIrc` and `sendPrivmsg` of `twitch_chat.cpp`, against messages as they are written:
the grammar of an IRC line with its tags.
-/
namespace Braidcast.Chat.Twitch

open Lib

def at_sign : UInt8 := 64
def backslash : UInt8 := 92
def bang : UInt8 := 33
def equals : UInt8 := 61
def hash : UInt8 := 35
def semicolon : UInt8 := 59

def sanitizeOutbound (text : Bytes) : Bytes := text.map fun c => if c = CR ∨ c = LF then space else c

/-- `SplitLines`. -/
def splitLines (frame : Bytes) : List Bytes :=
  ((frame.splitOn LF).map fun line => if line.getLast? = some CR then line.dropLast else line).filter (· ≠ [])

/-- `IrcLine`. -/
structure IrcLine where
  tags : Bytes → Option Bytes
  nick : Bytes
  command : Bytes
  param0 : Bytes
  trailing : Bytes

/-- The `switch` of `UnescapeTagValue`: `\:`, `\s`, `\r` and `\n`. -/
def unescaped (c : UInt8) : UInt8 :=
  if c = colon then semicolon else if c = 115 then space else if c = 114 then CR else if c = 110 then LF else c

def unescapeTagValue (value : Bytes) : Bytes := if backslash ∈ value then unescape backslash unescaped value else value

def readTag (kv : Bytes) : Bytes × Bytes :=
  if equals ∈ kv then (upTo equals kv, unescapeTagValue (pastFirst equals kv)) else (kv, [])

/-- The pieces that the loop reads: none behind a semicolon at the end. -/
def tagPieces (tagStr : Bytes) : List Bytes :=
  completed semicolon tagStr ++ if unfinished semicolon tagStr = [] then [] else [unfinished semicolon tagStr]

/-- The tags; a later one replaces an earlier one with its key. -/
def readTags (tagStr : Bytes) : Bytes → Option Bytes := assign (fun value _ => some value) (fun _ => none) ((tagPieces tagStr).map readTag)

/-- A first word behind a mark, and the rest of the line. -/
def cutSection (mark : UInt8) (line : Bytes) : Bytes × Bytes :=
  match line with
  | [] => ([], [])
  | c :: rest => if c = mark then (upTo space rest, pastFirst space rest) else ([], c :: rest)

/-- The line cut at its first " :". -/
def cutTrailing : Bytes → Option (Bytes × Bytes)
  | [] => none
  | c :: rest =>
    if c = space ∧ rest.head? = some colon then some ([], rest.tail)
    else (cutTrailing rest).map fun cut => (c :: cut.1, cut.2)

/-- The middle of a line and its trailing parameter. -/
def cutLine (line : Bytes) : Bytes × Bytes :=
  match cutTrailing line with
  | some cut => cut
  | none => if line.head? = some colon then ([], line.tail) else (line, [])

/-- The login in `login!user@host`. -/
def nickOf (sender : Bytes) : Bytes := sender.takeWhile fun c => c != bang && c != at_sign

/-- `ParseIrc`. -/
def parseIrc (raw : Bytes) : IrcLine :=
  let (tagStr, line) := cutSection at_sign raw
  let (sender, line) := cutSection colon line
  let (middle, trailing) := cutLine line
  { tags := readTags tagStr
    nick := nickOf sender
    command := upTo space middle
    param0 := upTo space (pastFirst space middle)
    trailing := trailing }

/-- `RandomUtil::HexToken`: nothing when there is no randomness. -/
def hexToken (raw : Option Bytes) : Bytes :=
  let kHex := ascii "0123456789abcdef"
  (raw.getD []).flatMap fun (c : UInt8) => [kHex.getD (c >>> 4).toNat 0, kHex.getD (c &&& 0xF).toNat 0]

/-- `sendPrivmsg`: what it puts on the wire, if it does. -/
def sendPrivmsg (ready connected : Bool) (channel text nonce : Bytes) : Option Bytes :=
  if ready then
    let tags := if nonce = [] then [] else ascii "@client-nonce=" ++ nonce ++ ascii " "
    let line := tags ++ ascii "PRIVMSG #" ++ channel ++ ascii " :" ++ sanitizeOutbound text ++ [CR, LF]
    if connected then some line else none
  else none

/-! ## Messages -/

/-- What a line is written from. -/
structure Message where
  tags : List (Bytes × Bytes)
  sender : Option Bytes
  command : Bytes
  params : List Bytes
  trailing : Option Bytes

/-- The escapes of a tag's value. -/
def escapes : List (UInt8 × UInt8) := [(semicolon, colon), (space, 115), (backslash, backslash), (CR, 114), (LF, 110)]

def escapeCode (c : UInt8) : Option UInt8 := escapes.lookup c

def writeTag (tag : Bytes × Bytes) : Bytes := tag.1 ++ equals :: escape backslash escapeCode tag.2

namespace Message

def writeTags (m : Message) : Bytes :=
  if m.tags = [] then [] else at_sign :: [semicolon].intercalate (m.tags.map writeTag) ++ [space]

def writeSender (m : Message) : Bytes :=
  match m.sender with
  | none => []
  | some sender => colon :: sender ++ [space]

def writeMiddle (m : Message) : Bytes := m.command ++ m.params.flatMap (space :: ·)

def writeTrailing (m : Message) : Bytes :=
  match m.trailing with
  | none => []
  | some trailing => space :: colon :: trailing

def render (m : Message) : Bytes := m.writeTags ++ (m.writeSender ++ (m.writeMiddle ++ m.writeTrailing))

/-- What the line keeps of a message: of the sender the login, of the parameters the first. -/
def kept (m : Message) : IrcLine where
  tags := fun key => m.tags.lookup key
  nick := nickOf (m.sender.getD [])
  command := m.command
  param0 := m.params.headD []
  trailing := m.trailing.getD []

/-- The sections of a message keep off each other's separators. -/
structure Sectioned (m : Message) : Prop where
  distinct : (m.tags.map Prod.fst).Nodup
  keyed : ∀ tag ∈ m.tags, tag.1 ≠ []
  sender : ∀ sender ∈ m.sender, space ∉ sender
  command : space ∉ m.command
  params : ∀ param ∈ m.params, param ≠ [] ∧ space ∉ param ∧ param.head? ≠ some colon
  trailing : ∀ trailing ∈ m.trailing, CR ∉ trailing ∧ LF ∉ trailing

/-- And nothing in front can be taken for a section that is not there. -/
structure Plain (m : Message) : Prop extends Sectioned m where
  keys : ∀ tag ∈ m.tags, equals ∉ tag.1 ∧ semicolon ∉ tag.1 ∧ space ∉ tag.1
  no_tags : m.command.head? = some at_sign → m.tags ≠ [] ∨ m.sender ≠ none
  no_sender : m.command.head? = some colon → m.sender ≠ none ∧ m.trailing ≠ none

/-! ## Reading what is written -/

variable {m : Message}

theorem cutSection_mark (mark : UInt8) {word : Bytes} (clean : space ∉ word) (rest : Bytes) :
    cutSection mark (mark :: (word ++ space :: rest)) = (word, rest) := by
  rw [cutSection, if_pos rfl, upTo_append_cons clean, pastFirst_append_cons clean]

theorem cutSection_of_head? {mark : UInt8} {line : Bytes} (other : line.head? ≠ some mark) : cutSection mark line = ([], line) := by
  cases line with
  | nil => rfl
  | cons c rest =>
    have apart : c ≠ mark := fun same => other (congrArg some same)
    rw [cutSection, if_neg apart]

theorem mem_escapes {c code : UInt8} (written : escapeCode c = some code) : (c, code) ∈ escapes := by
  obtain ⟨before, after, same, -⟩ := List.lookup_eq_some_iff.mp written
  rw [same]
  exact List.mem_append_right _ List.mem_cons_self

theorem unescapeTagValue_escape (value : Bytes) : unescapeTagValue (escape backslash escapeCode value) = value := by
  have table : ∀ e ∈ escapes, unescaped e.2 = e.1 := forall_mem_of_all (by decide)
  have marked : escapeCode backslash ≠ none := by decide
  have whole := unescape_escape marked (fun c code written => table (c, code) (mem_escapes written)) value
  unfold unescapeTagValue
  split
  · exact whole
  next plain => rwa [unescape_of_notMem plain] at whole

/-- A separator of the tags does not stand in an escaped value. -/
theorem clean_escape {sep : UInt8} (separator : sep = semicolon ∨ sep = space) (value : Bytes) :
    sep ∉ escape backslash escapeCode value := by
  have hidden : escapeCode sep ≠ none ∧ sep ≠ backslash ∧ ∀ e ∈ escapes, e.2 ≠ sep := by
    rcases separator with rfl | rfl
    · exact ⟨by decide, by decide, forall_mem_of_all (by decide)⟩
    · exact ⟨by decide, by decide, forall_mem_of_all (by decide)⟩
  exact notMem_escape hidden.1 hidden.2.1 (fun c written => hidden.2.2 _ (mem_escapes written) rfl) value

theorem readTag_writeTag {tag : Bytes × Bytes} (clean : equals ∉ tag.1) : readTag (writeTag tag) = tag := by
  have there : equals ∈ writeTag tag := List.mem_append_right _ List.mem_cons_self
  rw [readTag, if_pos there, writeTag, upTo_append_cons clean, pastFirst_append_cons clean, unescapeTagValue_escape]

theorem clean_writeTag {sep : UInt8} {tag : Bytes × Bytes} (separator : sep = semicolon ∨ sep = space) (clean : sep ∉ tag.1) :
    sep ∉ writeTag tag := by
  have apart : sep ≠ equals := by rcases separator with rfl | rfl <;> decide
  rw [writeTag, List.mem_append, List.mem_cons, not_or, not_or]
  exact ⟨clean, apart, clean_escape separator tag.2⟩

/-- A list of tags, joined, is cut into its tags. -/
theorem tagPieces_intercalate {pieces : List Bytes} (filled : pieces ≠ []) (clean : ∀ piece ∈ pieces, piece ≠ [] ∧ semicolon ∉ piece) :
    tagPieces ([semicolon].intercalate pieces) = pieces := by
  have cut := List.splitOn_intercalate semicolon (fun piece member => (clean piece member).2) filled
  obtain ⟨lines, last, rfl⟩ := (List.eq_nil_or_concat pieces).resolve_left filled
  rw [List.concat_eq_append] at clean cut ⊢
  obtain ⟨done, rest⟩ := completed_of_splitOn cut
  rw [tagPieces, done, rest, if_neg (clean last (by simp)).1]

theorem readTags_intercalate (plain : m.Plain) (some_tags : m.tags ≠ []) :
    readTags ([semicolon].intercalate (m.tags.map writeTag)) = fun key => m.tags.lookup key := by
  have pieces : tagPieces ([semicolon].intercalate (m.tags.map writeTag)) = m.tags.map writeTag := by
    refine tagPieces_intercalate (by simpa using some_tags) fun piece member => ?_
    obtain ⟨tag, inside, rfl⟩ := List.mem_map.mp member
    exact ⟨by simp [writeTag], clean_writeTag (.inl rfl) (plain.keys tag inside).2.1⟩
  have back : (m.tags.map writeTag).map readTag = m.tags := by
    rw [List.map_map]
    exact (List.map_congr_left fun tag inside => readTag_writeTag (plain.keys tag inside).1).trans (List.map_id' _)
  rw [readTags, pieces, back, assign_eq_lookup plain.distinct]

theorem cutTrailing_append_left {word : Bytes} (clean : space ∉ word) (rest : Bytes) :
    cutTrailing (word ++ rest) = (cutTrailing rest).map fun cut => (word ++ cut.1, cut.2) := by
  induction word with
  | nil => exact Option.map_id'.symm
  | cons c word ih =>
    rw [List.mem_cons, not_or] at clean
    rw [List.cons_append, cutTrailing, if_neg fun mark => clean.1 mark.1.symm, ih clean.2, Option.map_map]
    rfl

theorem cutTrailing_append_right {line : Bytes} (uncut : cutTrailing line = none) (trailing : Bytes) :
    cutTrailing (line ++ space :: colon :: trailing) = some (line, trailing) := by
  induction line with
  | nil => rfl
  | cons c line ih =>
    rw [cutTrailing] at uncut
    split at uncut
    · cases uncut
    · next mark =>
      -- What follows the line is a space, so that the mark cannot begin with its last byte.
      have further : ¬ (c = space ∧ (line ++ space :: colon :: trailing).head? = some colon) := by
        cases line with
        | nil => exact fun both => absurd (Option.some.inj both.2) (by decide)
        | cons d line => exact mark
      rw [List.cons_append, cutTrailing, if_neg further, ih (Option.map_eq_none_iff.mp uncut)]
      rfl

theorem cutTrailing_params {params : List Bytes} (clean : ∀ param ∈ params, param ≠ [] ∧ space ∉ param ∧ param.head? ≠ some colon) :
    cutTrailing (params.flatMap (space :: ·)) = none := by
  induction params with
  | nil => rfl
  | cons param params ih =>
    obtain ⟨⟨filled, spaceless, first⟩, others⟩ := List.forall_mem_cons.mp clean
    have unmarked : ¬ (space = space ∧ (param ++ params.flatMap (space :: ·)).head? = some colon) := by
      rw [List.head?_append_of_ne_nil _ filled]
      exact fun both => first both.2
    rw [List.flatMap_cons, List.cons_append, cutTrailing, if_neg unmarked, cutTrailing_append_left spaceless, ih others]
    rfl

theorem cutTrailing_middle (sectioned : m.Sectioned) : cutTrailing m.writeMiddle = none := by
  rw [writeMiddle, cutTrailing_append_left sectioned.command, cutTrailing_params sectioned.params]
  rfl

/-- What comes first in a line is the command, and a space if it is empty. -/
theorem head?_of_middle {mark : UInt8} (other : mark ≠ space) (first : (m.writeMiddle ++ m.writeTrailing).head? = some mark) :
    m.command.head? = some mark := by
  cases shape : m.command with
  | cons c command =>
    rw [writeMiddle, shape] at first
    exact first
  | nil =>
    have spaced : ∀ c ∈ (m.writeMiddle ++ m.writeTrailing).head?, c = space := by
      rw [writeMiddle, shape, List.nil_append, writeTrailing]
      cases m.params with
      | nil => cases m.trailing <;> simp
      | cons param params => simp
    exact absurd (spaced mark first) other

theorem cutLine_middle (plain : m.Plain) : cutLine (m.writeMiddle ++ m.writeTrailing) = (m.writeMiddle, m.trailing.getD []) := by
  have uncut := cutTrailing_middle plain.toSectioned
  have first : (m.writeMiddle ++ m.writeTrailing).head? = some colon → m.command.head? = some colon := head?_of_middle (by decide)
  rw [writeTrailing] at first ⊢
  cases there : m.trailing with
  | some trailing =>
    have cut := cutTrailing_append_right uncut trailing
    unfold cutLine
    rw [cut]
    rfl
  | none =>
    rw [there] at first
    have unmarked : (m.writeMiddle ++ []).head? ≠ some colon := fun marked => (plain.no_sender (first marked)).2 there
    rw [List.append_nil] at unmarked ⊢
    unfold cutLine
    rw [uncut]
    exact if_neg unmarked

theorem before_middle (sectioned : m.Sectioned) :
    upTo space m.writeMiddle = m.command ∧ upTo space (pastFirst space m.writeMiddle) = m.params.headD [] := by
  rw [writeMiddle]
  cases shape : m.params with
  | nil =>
    rw [List.flatMap_nil, List.append_nil, upTo_of_notMem sectioned.command, pastFirst_of_notMem sectioned.command]
    exact ⟨rfl, rfl⟩
  | cons param params =>
    have clean : space ∉ param := (sectioned.params param (shape ▸ List.mem_cons_self)).2.1
    rw [List.flatMap_cons, List.cons_append, upTo_append_cons sectioned.command, pastFirst_append_cons sectioned.command]
    refine ⟨rfl, ?_⟩
    cases params with
    | nil => rw [List.flatMap_nil, List.append_nil, upTo_of_notMem clean]; rfl
    | cons next params => rw [List.flatMap_cons, List.cons_append, upTo_append_cons clean]; rfl

theorem cutSection_sender (plain : m.Plain) :
    cutSection colon (m.writeSender ++ (m.writeMiddle ++ m.writeTrailing)) = (m.sender.getD [], m.writeMiddle ++ m.writeTrailing) := by
  rw [writeSender]
  cases there : m.sender with
  | some sender =>
    have cut := cutSection_mark colon (plain.sender sender there) (m.writeMiddle ++ m.writeTrailing)
    rw [List.append_assoc, List.cons_append]
    exact cut
  | none =>
    rw [List.nil_append]
    refine cutSection_of_head? fun marked => ?_
    exact (plain.no_sender (head?_of_middle (by decide) marked)).1 there

theorem cutSection_tags (plain : m.Plain) :
    ∃ tagStr, cutSection at_sign m.render = (tagStr, m.writeSender ++ (m.writeMiddle ++ m.writeTrailing)) ∧
      readTags tagStr = fun key => m.tags.lookup key := by
  unfold render writeTags
  split
  next no_tags =>
    refine ⟨[], cutSection_of_head? fun marked => ?_, by rw [no_tags]; rfl⟩
    rw [List.nil_append, writeSender] at marked
    cases there : m.sender with
    | some sender =>
      rw [there] at marked
      exact absurd (Option.some.inj marked) (by decide)
    | none =>
      rw [there] at marked
      exact (plain.no_tags (head?_of_middle (by decide) marked)).elim (· no_tags) (· there)
  next some_tags =>
    have clean : space ∉ [semicolon].intercalate (m.tags.map writeTag) := by
      refine notMem_intercalate (by decide) fun piece member => ?_
      obtain ⟨tag, inside, rfl⟩ := List.mem_map.mp member
      exact clean_writeTag (.inr rfl) (plain.keys tag inside).2.2
    refine ⟨_, ?_, readTags_intercalate plain some_tags⟩
    rw [List.append_assoc, List.cons_append]
    exact cutSection_mark at_sign clean _

/-- A line is read as it is written, as far as it is kept. -/
theorem parseIrc_render (plain : m.Plain) : parseIrc m.render = m.kept := by
  obtain ⟨tagStr, cut, tags⟩ := cutSection_tags plain
  obtain ⟨command, param⟩ := before_middle plain.toSectioned
  unfold parseIrc
  rw [cut]
  dsimp only
  rw [cutSection_sender plain]
  dsimp only
  rw [cutLine_middle plain, tags, command, param]
  rfl

end Message

/-! ## What is sent -/

theorem splitLines_crlf {line : Bytes} (clean : LF ∉ line) (filled : line ≠ []) : splitLines (line ++ [CR, LF]) = [line] := by
  have before_end : LF ∉ line ++ [CR] := by
    rw [List.mem_append, List.mem_singleton, not_or]
    exact ⟨clean, by decide⟩
  have cut : (line ++ [CR, LF]).splitOn LF = [line ++ [CR], []] := by
    have whole : line ++ [CR, LF] = (line ++ [CR]) ++ LF :: [] := (List.append_assoc line [CR] [LF]).symm
    rw [whole, List.splitOn_append_cons_self_of_not_mem before_end, List.splitOn_nil]
  rw [splitLines, cut, List.map_cons, List.map_singleton, List.getLast?_concat, if_pos rfl, List.dropLast_concat]
  simp [filled]

theorem clean_sanitizeOutbound (text : Bytes) : ∀ c ∈ sanitizeOutbound text, c ≠ CR ∧ c ≠ LF := by
  intro c member
  obtain ⟨d, -, rfl⟩ := List.mem_map.mp member
  split
  · decide
  next plain => exact not_or.mp plain

/-- A token is hexadecimal, so that it needs no escape. -/
theorem plain_hexToken (raw : Option Bytes) : ∀ c ∈ hexToken raw, escapeCode c = none := by
  have digits : ∀ c ∈ (0 : UInt8) :: ascii "0123456789abcdef", escapeCode c = none := forall_mem_of_all (by decide)
  have digit (i : Nat) : escapeCode ((ascii "0123456789abcdef").getD i 0) = none := by
    rw [List.getD_eq_getElem?_getD]
    cases there : (ascii "0123456789abcdef")[i]? with
    | none => exact digits 0 List.mem_cons_self
    | some c => exact digits c (List.mem_cons_of_mem _ (List.mem_of_getElem? there))
  intro c member
  obtain ⟨d, -, inside⟩ := List.mem_flatMap.mp member
  rcases List.mem_cons.mp inside with rfl | inside
  · exact digit _
  · rw [List.mem_singleton.mp inside]
    exact digit _

/-- The message of a text that is sent to a channel. -/
def privmsg (channel text nonce : Bytes) : Message where
  tags := if nonce = [] then [] else [(ascii "client-nonce", nonce)]
  sender := none
  command := ascii "PRIVMSG"
  params := [hash :: channel]
  trailing := some (sanitizeOutbound text)

/-- A login has no spaces and is on one line. -/
abbrev Login (channel : Bytes) : Prop := ∀ c ∈ channel, c ≠ space ∧ c ≠ CR ∧ c ≠ LF

variable {channel : Bytes} (text nonce : Bytes)

theorem privmsg_tag {tag : Bytes × Bytes} (member : tag ∈ (privmsg channel text nonce).tags) : tag.1 = ascii "client-nonce" := by
  rw [privmsg] at member
  split at member
  · exact absurd member List.not_mem_nil
  · rw [List.mem_singleton.mp member]

theorem privmsg_plain (login : Login channel) : (privmsg channel text nonce).Plain where
  distinct := by
    rw [privmsg]
    split
    · exact List.nodup_nil
    · exact List.pairwise_singleton _ _
  keyed tag inside := by
    rw [privmsg_tag text nonce inside]
    decide
  sender sender there := nomatch there
  command := (by decide : space ∉ ascii "PRIVMSG")
  params param member := by
    rw [List.mem_singleton.mp member]
    refine ⟨List.cons_ne_nil _ _, fun spaced => ?_, by rw [List.head?_cons]; decide⟩
    rcases List.mem_cons.mp spaced with same | inside
    · exact absurd same (by decide)
    · exact (login space inside).1 rfl
  trailing trailing there := by
    rw [← Option.some.inj there]
    exact ⟨fun member => (clean_sanitizeOutbound text CR member).1 rfl, fun member => (clean_sanitizeOutbound text LF member).2 rfl⟩
  keys tag inside := by
    rw [privmsg_tag text nonce inside]
    decide
  no_tags first := absurd first (by decide : (ascii "PRIVMSG").head? ≠ some at_sign)
  no_sender first := absurd first (by decide : (ascii "PRIVMSG").head? ≠ some colon)

theorem privmsg_render (plain : ∀ c ∈ nonce, escapeCode c = none) :
    (privmsg channel text nonce).render =
      (if nonce = [] then [] else ascii "@client-nonce=" ++ nonce ++ ascii " ") ++ ascii "PRIVMSG #" ++ channel ++ ascii " :" ++
        sanitizeOutbound text := by
  have key : ascii "@client-nonce=" = at_sign :: ascii "client-nonce" ++ [equals] := rfl
  have command : ascii "PRIVMSG #" = ascii "PRIVMSG" ++ [space, hash] := rfl
  have gap : ascii " " = [space] := rfl
  have mark : ascii " :" = [space, colon] := rfl
  have middle : (privmsg channel text nonce).writeMiddle = ascii "PRIVMSG" ++ (space :: hash :: channel) :=
    congrArg (ascii "PRIVMSG" ++ ·) (List.append_nil _)
  have tags : (privmsg channel text nonce).writeTags = if nonce = [] then [] else ascii "@client-nonce=" ++ nonce ++ ascii " " := by
    by_cases empty : nonce = []
    · have no_tags : (privmsg channel text nonce).tags = [] := if_pos empty
      rw [Message.writeTags, if_pos no_tags, if_pos empty]
    · have one : (privmsg channel text nonce).tags = [(ascii "client-nonce", nonce)] := if_neg empty
      rw [Message.writeTags, one, if_neg (List.cons_ne_nil _ _), if_neg empty, List.map_singleton, List.intercalate_singleton, writeTag,
        escape_of_plain plain, key, gap]
      simp
  rw [Message.render, tags, middle, command, mark]
  have rest : (privmsg channel text nonce).writeTrailing = space :: colon :: sanitizeOutbound text := rfl
  have sender : (privmsg channel text nonce).writeSender = [] := rfl
  rw [rest, sender]
  simp

theorem clean_line (login : Login channel) (plain : ∀ c ∈ nonce, escapeCode c = none) :
    ∀ c ∈ (privmsg channel text nonce).render, c ≠ CR ∧ c ≠ LF := by
  have literals : ∀ c ∈ ascii "@client-nonce=" ++ ascii " " ++ ascii "PRIVMSG #" ++ ascii " :", c ≠ CR ∧ c ≠ LF :=
    forall_mem_of_all (by decide)
  have token : ∀ c ∈ nonce, c ≠ CR ∧ c ≠ LF := fun c member => by
    constructor <;> rintro rfl <;> cases plain _ member
  have sanitized := clean_sanitizeOutbound text
  simp only [List.forall_mem_append] at literals
  rw [privmsg_render text nonce plain]
  simp only [List.forall_mem_append]
  refine ⟨⟨⟨⟨?_, literals.1.2⟩, fun c member => (login c member).2⟩, literals.2⟩, sanitized⟩
  split
  · exact List.forall_mem_nil _
  · simp only [List.forall_mem_append]
    exact ⟨⟨literals.1.1.1, token⟩, literals.1.1.2⟩

theorem privmsg_kept :
    (privmsg channel text nonce).kept =
      { tags := fun key => if key = ascii "client-nonce" ∧ nonce ≠ [] then some nonce else none
        nick := []
        command := ascii "PRIVMSG"
        param0 := hash :: channel
        trailing := sanitizeOutbound text } := by
  have tags : (fun key => (privmsg channel text nonce).tags.lookup key) =
      fun key => if key = ascii "client-nonce" ∧ nonce ≠ [] then some nonce else none := by
    funext key
    by_cases empty : nonce = []
    · have no_tags : (privmsg channel text nonce).tags = [] := if_pos empty
      rw [no_tags, List.lookup_nil, if_neg fun both => both.2 empty]
    · have one : (privmsg channel text nonce).tags = [(ascii "client-nonce", nonce)] := if_neg empty
      rw [one, List.lookup_cons, List.lookup_nil]
      by_cases same : key = ascii "client-nonce"
      · rw [same, beq_self_eq_true, if_pos ⟨rfl, empty⟩]
      · rw [beq_eq_false_iff_ne.mpr same, if_neg fun both => same both.1]
  rw [Message.kept, tags]
  rfl

/-- Messages are read back as far as a line keeps them, and a sent text is one message on one line. -/
theorem line_round_trip (m : Message) (plain : m.Plain) (channel : Bytes) (login : Login channel) (text : Bytes) (raw : Option Bytes)
    (ready connected : Bool) :
    parseIrc m.render = m.kept ∧
      ∃ line, sendPrivmsg ready connected channel text (hexToken raw) = (if ready && connected then some (line ++ [CR, LF]) else none) ∧
        CR ∉ line ∧ LF ∉ line ∧ splitLines (line ++ [CR, LF]) = [line] ∧
        parseIrc line =
          { tags := fun key => if key = ascii "client-nonce" ∧ hexToken raw ≠ [] then some (hexToken raw) else none
            nick := []
            command := ascii "PRIVMSG"
            param0 := hash :: channel
            trailing := sanitizeOutbound text } := by
  have token := plain_hexToken raw
  have clean := clean_line text _ login token
  refine ⟨Message.parseIrc_render plain, (privmsg channel text (hexToken raw)).render, ?_, fun member => (clean CR member).1 rfl,
    fun member => (clean LF member).2 rfl, ?_, ?_⟩
  · rw [privmsg_render text _ token, sendPrivmsg]
    cases ready <;> cases connected <;> simp
  · refine splitLines_crlf (fun member => (clean LF member).2 rfl) ?_
    rw [privmsg_render text _ token]
    simp [ascii]
  · rw [Message.parseIrc_render (privmsg_plain text _ login), privmsg_kept]

/-- A line with tags, a sender and two parameters, and a text with a line end. -/
theorem line_round_trip_some :
    let m : Message :=
      { tags := [(ascii "id", ascii "a;b c\\")], sender := some (ascii "nick!user@host"), command := ascii "PRIVMSG",
        params := [ascii "#chan", ascii "more"], trailing := some (ascii "hi : there") }
    parseIrc m.render = m.kept :=
  have plain : Message.Plain
      { tags := [(ascii "id", ascii "a;b c\\")], sender := some (ascii "nick!user@host"), command := ascii "PRIVMSG",
        params := [ascii "#chan", ascii "more"], trailing := some (ascii "hi : there") } :=
    { distinct := by decide
      keyed := by decide
      sender := by decide
      command := by decide
      params := by decide
      trailing := by decide
      keys := by decide
      no_tags := by decide
      no_sender := by decide }
  (line_round_trip _ plain (ascii "chan") (by decide +kernel) (ascii "hi\r\nQUIT") (some [0x4a, 0xb1]) true true).1

/-- The host of a sender and the second parameter are lost (`:n!a C p q` and `:n!b C p`), a key with an
equals sign (`@a=b=c C`) and a command with a colon in front (`:c`) are misread. -/
theorem not_always_read_back :
    (∃ m n : Message, m.Sectioned ∧ n.Sectioned ∧ parseIrc m.render = parseIrc n.render ∧ m.sender ≠ n.sender ∧ m.params ≠ n.params) ∧
      (∃ m : Message, m.Sectioned ∧ ∃ tag ∈ m.tags, (parseIrc m.render).tags tag.1 ≠ some tag.2) ∧
      ∃ m : Message, m.Sectioned ∧ (parseIrc m.render).command ≠ m.command := by
  let m : Message := ⟨[], some [110, 33, 97], [67], [[112], [113]], none⟩
  let n : Message := ⟨[], some [110, 33, 98], [67], [[112]], none⟩
  let keyed : Message := ⟨[([97, 61, 98], [99])], none, [67], [], none⟩
  let marked : Message := ⟨[], none, [58, 99], [], none⟩
  refine ⟨⟨m, n, ?_, ?_, ?_, by decide, by decide⟩, ⟨keyed, ?_, _, List.mem_cons_self, by decide⟩, marked, ?_, by decide⟩
  · constructor <;> decide
  · constructor <;> decide
  · exact rfl
  · constructor <;> decide
  · constructor <;> decide

end Braidcast.Chat.Twitch
