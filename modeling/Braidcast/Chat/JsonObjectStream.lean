import Braidcast.Chat.SseStream
import Braidcast.Lib.Checked
import Braidcast.Lib.JsonGrammar

/-!
# The objects of a stream

`JsonObjectStream` of `youtube_chat.cpp`: it counts braces outside strings. Its count is an `int`, so it has no
result for an object that nests deeper than that holds.
-/
namespace Braidcast.Chat

open Lib.JsonGrammar

structure JsonObjectStream where
  buf : Bytes := []
  depth : Int := 0
  inStr : Bool := false
  escaped : Bool := false
  objStart : Int := -1

namespace JsonObjectStream

/-- One turn of the loop in `Push`: what it completes is the second part. -/
def pushByte (s : JsonObjectStream) (c : UInt8) : Option (JsonObjectStream × List Bytes) :=
  let idx := s.buf.length
  let s := { s with buf := s.buf ++ [c] }
  -- in a string only its end and an escape matter
  if s.inStr then
    if s.escaped then some ({ s with escaped := false }, [])
    else if c = backslash then some ({ s with escaped := true }, [])
    else if c = quote then some ({ s with inStr := false }, [])
    else some (s, [])
  else if c = quote then some ({ s with inStr := true }, [])
  else if c = openBrace then
    -- the outermost brace is where the text of the object begins
    let s := if s.depth = 0 then { s with objStart := idx } else s
    (Lib.signed 32 (s.depth + 1)).map fun depth => ({ s with depth }, [])
  else if c = closeBrace then
    -- a stray closing brace is passed over, and completes nothing as no object has begun
    let s := if s.depth > 0 then { s with depth := s.depth - 1 } else s
    if s.depth = 0 ∧ s.objStart ≥ 0 then
      some ({ s with buf := [], objStart := -1 }, [(s.buf.drop s.objStart.toNat).take (idx - s.objStart.toNat + 1)])
    else some (s, [])
  else some (s, [])

/-- `Push`, which appends to what is out already. -/
def push : Bytes → JsonObjectStream × List Bytes → Option (JsonObjectStream × List Bytes)
  | [], done => some done
  | c :: chunk, (s, out) => (s.pushByte c).bind fun one => push chunk (one.1, out ++ one.2)

def pushAll : List Bytes → JsonObjectStream × List Bytes → Option (JsonObjectStream × List Bytes)
  | [], done => some done
  | chunk :: chunks, done => (push chunk done).bind (pushAll chunks)

/-! ### Chunks do not matter -/

variable {s s' s'' : JsonObjectStream} {out out' : List Bytes} {text more : Bytes} {c : UInt8}

theorem push_append (text more : Bytes) (done : JsonObjectStream × List Bytes) :
    push (text ++ more) done = (push text done).bind (push more) := by
  induction text generalizing done with
  | nil => rfl
  | cons c text ih =>
    rw [List.cons_append, push, push, Option.bind_assoc]
    congr 1
    funext next
    exact ih _

theorem pushAll_eq (chunks : List Bytes) (done : JsonObjectStream × List Bytes) : pushAll chunks done = push chunks.flatten done := by
  induction chunks generalizing done with
  | nil => rfl
  | cons chunk chunks ih =>
    rw [pushAll, List.flatten_cons, push_append]
    congr 1
    funext next
    exact ih next

/-- What is read of `text` from `s` on, whatever is out before. -/
def Reads (s : JsonObjectStream) (text : Bytes) (s' : JsonObjectStream) (out : List Bytes) : Prop :=
  ∀ before, push text (s, before) = some (s', before ++ out)

theorem Reads.nil (s : JsonObjectStream) : Reads s [] s [] := by
  intro before
  rw [List.append_nil]
  rfl

theorem Reads.byte (one : s.pushByte c = some (s', out)) : Reads s [c] s' out := by
  intro before
  rw [push, one]
  rfl

theorem Reads.append (first : Reads s text s' out) (second : Reads s' more s'' out') : Reads s (text ++ more) s'' (out ++ out') := by
  intro before
  rw [push_append, first, Option.bind_some, second, List.append_assoc]

theorem push_reads {done : JsonObjectStream × List Bytes} (pushed : push text (s, out) = some done) :
    ∃ completed, done.2 = out ++ completed ∧ Reads s text done.1 completed := by
  induction text generalizing s out with
  | nil =>
    obtain rfl := Option.some.inj pushed
    exact ⟨[], (List.append_nil out).symm, Reads.nil s⟩
  | cons c text ih =>
    rw [push] at pushed
    obtain ⟨⟨next, first⟩, one, rest⟩ := Option.bind_eq_some_iff.mp pushed
    obtain ⟨completed, ends, reads⟩ := ih rest
    exact ⟨first ++ completed, by rw [ends, List.append_assoc], (Reads.byte one).append reads⟩

/-- A part of what completes nothing completes nothing. -/
theorem Reads.part (whole : Reads s (text ++ more) s' []) : ∃ mid, Reads s text mid [] := by
  have all := whole []
  rw [push_append] at all
  obtain ⟨⟨mid, first⟩, pushed, rest⟩ := Option.bind_eq_some_iff.mp all
  obtain ⟨completed, ends, reads⟩ := push_reads pushed
  obtain ⟨behind, ends', -⟩ := push_reads rest
  dsimp only at ends ends'
  -- all that comes out of the whole is nothing, so the part has nothing either
  have none : completed = [] := by
    rw [ends] at ends'
    exact (List.append_eq_nil_iff.mp (List.append_eq_nil_iff.mp ends'.symm).1).2
  rw [none] at reads
  exact ⟨mid, reads⟩

/-! ### Inside an object -/

/-- More of the stream in the buffer, and nothing else changed. -/
def keep (s : JsonObjectStream) (text : Bytes) : JsonObjectStream := { s with buf := s.buf ++ text }

@[simp] theorem keep_depth : (s.keep text).depth = s.depth := rfl

@[simp] theorem keep_nil (s : JsonObjectStream) : s.keep [] = s := by simp [keep]

@[simp] theorem keep_keep (s : JsonObjectStream) (text more : Bytes) : (s.keep text).keep more = s.keep (text ++ more) := by
  simp [keep, List.append_assoc]

/-- What is kept after what is kept. -/
theorem Reads.keep_append (first : Reads s text (s.keep text) []) (second : Reads (s.keep text) more ((s.keep text).keep more) []) :
    Reads s (text ++ more) (s.keep (text ++ more)) [] := by
  rw [← keep_keep]
  exact first.append second

theorem pushByte_plain (outside : s.inStr = false) (unquoted : c ≠ quote) (unopened : c ≠ openBrace) (unclosed : c ≠ closeBrace) :
    s.pushByte c = some (s.keep [c], []) := by
  obtain ⟨buf, depth, inStr, escaped, objStart⟩ := s
  cases outside
  simp [pushByte, keep, unquoted, unopened, unclosed]

theorem reads_plain (outside : s.inStr = false) (plain : Plain text) : Reads s text (s.keep text) [] := by
  induction text generalizing s with
  | nil => simpa using Reads.nil s
  | cons c text ih =>
    have ⟨unquoted, unopened, unclosed⟩ := plain c List.mem_cons_self
    have first : Reads s [c] (s.keep [c]) [] := Reads.byte (pushByte_plain outside unquoted unopened unclosed)
    exact first.keep_append (ih outside fun other member => plain other (List.mem_cons_of_mem c member))

/-- In a string, with no escape pending. -/
theorem reads_char (inside : s.inStr = true) (free : s.escaped = false) (unquoted : c ≠ quote) (unescaped : c ≠ backslash) :
    Reads s [c] (s.keep [c]) [] := by
  obtain ⟨buf, depth, inStr, escaped, objStart⟩ := s
  cases inside
  cases free
  exact Reads.byte (by simp [pushByte, keep, unquoted, unescaped])

theorem reads_escape (c : UInt8) (inside : s.inStr = true) (free : s.escaped = false) :
    Reads s [backslash, c] (s.keep [backslash, c]) [] := by
  obtain ⟨buf, depth, inStr, escaped, objStart⟩ := s
  cases inside
  cases free
  have mark : Reads ⟨buf, depth, true, false, objStart⟩ [backslash] ⟨buf ++ [backslash], depth, true, true, objStart⟩ [] :=
    Reads.byte (by simp [pushByte])
  have letter : Reads ⟨buf ++ [backslash], depth, true, true, objStart⟩ [c] ⟨buf ++ [backslash] ++ [c], depth, true, false, objStart⟩ [] :=
    Reads.byte (by simp [pushByte])
  simpa [keep] using mark.append letter

theorem Hex.in_string (hex : Hex c) : c ≠ quote ∧ c ≠ backslash := by
  constructor
  all_goals
    rintro rfl
    revert hex
    unfold Hex
    decide

theorem reads_chars (chars : Chars text) (inside : s.inStr = true) (free : s.escaped = false) :
    Reads s text (s.keep text) [] := by
  induction chars generalizing s with
  | nil => simpa using Reads.nil s
  | plain printed unquoted unescaped _ ih => exact (reads_char inside free unquoted unescaped).keep_append (ih inside free)
  | escape letter _ ih => exact (reads_escape _ inside free).keep_append (ih inside free)
  -- the letter after the backslash is read as an escape, its digits as plain characters
  | @unicode digits text four hex _ ih =>
    have spelled (digits : Bytes) (hex : ∀ c ∈ digits, Hex c) (s : JsonObjectStream) (inside : s.inStr = true)
        (free : s.escaped = false) : Reads s digits (s.keep digits) [] := by
      induction digits generalizing s with
      | nil => simpa using Reads.nil s
      | cons d digits ih =>
        have ⟨unquoted, unescaped⟩ := Hex.in_string (hex d List.mem_cons_self)
        exact (reads_char inside free unquoted unescaped).keep_append
          (ih (fun c member => hex c (List.mem_cons_of_mem d member)) _ inside free)
    have opened : Reads s [backslash, 117] (s.keep [backslash, 117]) [] := reads_escape 117 inside free
    have rest : Reads (s.keep [backslash, 117]) (digits ++ text) ((s.keep [backslash, 117]).keep (digits ++ text)) [] :=
      (spelled digits hex (s.keep [backslash, 117]) inside free).keep_append (ih inside free)
    exact opened.keep_append rest

theorem reads_str (str : Str text) (outside : s.inStr = false) (free : s.escaped = false) : Reads s text (s.keep text) [] := by
  cases str with
  | @quoted chars valid =>
    obtain ⟨buf, depth, inStr, escaped, objStart⟩ := s
    cases outside
    cases free
    have opened : Reads ⟨buf, depth, false, false, objStart⟩ [quote] ⟨buf ++ [quote], depth, true, false, objStart⟩ [] :=
      Reads.byte (by simp [pushByte])
    have content := reads_chars valid (s := ⟨buf ++ [quote], depth, true, false, objStart⟩) rfl rfl
    have closed : Reads ⟨buf ++ [quote] ++ chars, depth, true, false, objStart⟩ [quote]
        ⟨buf ++ [quote] ++ chars ++ [quote], depth, false, false, objStart⟩ [] :=
      Reads.byte (by simp [pushByte, show quote ≠ backslash by decide])
    simpa [keep] using opened.append (content.append closed)

/-- Inside an object, between two tokens. -/
structure Inside (s : JsonObjectStream) : Prop where
  outside : s.inStr = false
  free : s.escaped = false
  deep : 0 < s.depth

/-- One object deeper. -/
def deeper (s : JsonObjectStream) : JsonObjectStream := { s with depth := s.depth + 1 }

theorem Inside.keep (inside : Inside s) (text : Bytes) : Inside (s.keep text) := ⟨inside.outside, inside.free, inside.deep⟩

theorem Inside.deeper (inside : Inside s) : Inside s.deeper where
  outside := inside.outside
  free := inside.free
  deep := by
    have deep := inside.deep
    show 0 < s.depth + 1
    omega

theorem Inside.opens (inside : Inside s) (fits : s.depth + 1 < 2 ^ 31) : Reads s [openBrace] (s.keep [openBrace]).deeper [] := by
  obtain ⟨buf, depth, inStr, escaped, objStart⟩ := s
  obtain ⟨outside, free, deep⟩ := inside
  cases outside
  dsimp only at fits deep
  have counted : Lib.signed 32 (depth + 1) = some (depth + 1) := Lib.signed_of_fits (by omega) (by omega)
  have nested : depth ≠ 0 := by omega
  exact Reads.byte (by simp [pushByte, JsonObjectStream.keep, JsonObjectStream.deeper, counted, nested, show openBrace ≠ quote by decide])

theorem Inside.closes (inside : Inside s) : Reads s.deeper [closeBrace] (s.keep [closeBrace]) [] := by
  obtain ⟨buf, depth, inStr, escaped, objStart⟩ := s
  obtain ⟨outside, free, deep⟩ := inside
  cases outside
  dsimp only at deep
  have positive : 0 < depth + 1 := by omega
  have nested : depth ≠ 0 := by omega
  refine Reads.byte ?_
  simp [pushByte, JsonObjectStream.keep, JsonObjectStream.deeper, positive, nested, show closeBrace ≠ quote by decide,
    show closeBrace ≠ openBrace by decide]

/-- What is kept wherever it stands in an object, as long as the count leaves room for `d` objects more. -/
def Kept (d : Nat) (text : Bytes) : Prop := ∀ s, Inside s → s.depth + d < 2 ^ 31 → Reads s text (s.keep text) []

namespace Kept

variable {d e : Nat}

theorem mono (kept : Kept d text) (more : d ≤ e) : Kept e text := fun s inside fits => kept s inside (by omega)

theorem plain (plain : Plain text) : Kept 0 text := fun _ inside _ => reads_plain inside.outside plain

theorem str (str : Str text) : Kept 0 text := fun _ inside _ => reads_str str inside.outside inside.free

theorem append (first : Kept d text) (second : Kept d more) : Kept d (text ++ more) := fun s inside fits =>
  (first s inside fits).keep_append (second (s.keep text) (inside.keep text) fits)

/-- An opening brace is counted and the closing one gives it back. -/
theorem braces (body : Kept d text) : Kept (d + 1) (openBrace :: (text ++ [closeBrace])) := by
  intro s inside fits
  have opened := inside.opens (by omega)
  have kept := body (s.keep [openBrace]).deeper (inside.keep [openBrace]).deeper (by
    show s.depth + 1 + (d : Int) < 2 ^ 31
    omega)
  have closed := ((inside.keep [openBrace]).keep text).closes
  simpa using opened.append (kept.append closed)

/-- Whatever stands in an object is kept: one case for each rule of the grammar. -/
theorem derives {category : Category} (derives : Derives category d text) : Kept d text := by
  induction derives with
  | literal known => exact plain (plain_literal _ known)
  | number number => exact plain number.plain
  | string quoted => exact str quoted
  | emptyArray blanks =>
    exact plain (plain_append.mpr ⟨(by decide : Plain [openBracket]), plain_append.mpr ⟨blanks.plain, by decide⟩⟩)
  | @array d text _ ih =>
    have opened : Kept d [openBracket] := (plain (by decide)).mono (Nat.zero_le d)
    have closed : Kept d [closeBracket] := (plain (by decide)).mono (Nat.zero_le d)
    exact opened.append (ih.append closed)
  | emptyObject blanks => exact braces (plain blanks.plain)
  | object _ ih => exact braces ih
  | nested _ ih => exact ih
  | @element d left text right before _ behind ih =>
    have first : Kept d left := (plain before.plain).mono (Nat.zero_le d)
    have last : Kept d right := (plain behind.plain).mono (Nat.zero_le d)
    exact (first.append ih).append last
  | lastItem _ ih => exact ih
  | @moreItems d e text more _ _ ih ih' =>
    have separator : Kept (max d e) [comma] := (plain (by decide)).mono (Nat.zero_le _)
    exact (ih.mono (Nat.le_max_left d e)).append (separator.append (ih'.mono (Nat.le_max_right d e)))
  | @member d left key right text before name behind _ ih =>
    have first : Kept d left := (plain before.plain).mono (Nat.zero_le d)
    have quoted : Kept d key := (str name).mono (Nat.zero_le d)
    have last : Kept d right := (plain behind.plain).mono (Nat.zero_le d)
    have separator : Kept d [colon] := (plain (by decide)).mono (Nat.zero_le d)
    exact ((first.append quoted).append last).append (separator.append ih)
  | lastMember _ ih => exact ih
  | @moreMembers d e text more _ _ ih ih' =>
    have separator : Kept (max d e) [comma] := (plain (by decide)).mono (Nat.zero_le _)
    exact (ih.mono (Nat.le_max_left d e)).append (separator.append (ih'.mono (Nat.le_max_right d e)))

end Kept

/-! ### Beyond what the count holds -/

/-- There is no result where the count has no room for `d` objects more. -/
def Spills (d : Nat) (text : Bytes) : Prop :=
  ∀ s, Inside s → s.depth < 2 ^ 31 → 2 ^ 31 ≤ s.depth + d → ∀ out, push text (s, out) = none

namespace Spills

variable {d e : Nat}

theorem flat (text : Bytes) : Spills 0 text := fun s _ below above => absurd above (by omega)

theorem append_left (spills : Spills d text) : Spills d (text ++ more) := by
  intro s inside below above out
  rw [push_append, spills s inside below above out]
  rfl

/-- Whichever part nests deeper: the other one is kept, if the count gets so far. -/
theorem append (kept : Kept d text) (first : Spills d text) (second : Spills e more) : Spills (max d e) (text ++ more) := by
  intro s inside below above out
  -- with room for the first part it is read, and the second part overflows the count
  by_cases room : s.depth + d < 2 ^ 31
  · rw [push_append, kept s inside room out, Option.bind_some]
    exact second (s.keep text) (inside.keep text) below (by rw [keep_depth]; omega) _
  · exact first.append_left s inside below (not_lt.mp room) out

theorem append_right (flat : Kept 0 text) (second : Spills e more) : Spills e (text ++ more) :=
  Nat.zero_max e ▸ append flat (Spills.flat text) second

theorem braces (body : Spills d text) : Spills (d + 1) (openBrace :: (text ++ [closeBrace])) := by
  intro s inside below above out
  -- either this brace is counted and the body overflows, or the brace does itself
  by_cases room : s.depth + 1 < 2 ^ 31
  · have opened := inside.opens room out
    rw [← List.singleton_append, push_append, opened, Option.bind_some]
    refine body.append_left _ (inside.keep [openBrace]).deeper room ?_ _
    show 2 ^ 31 ≤ s.depth + 1 + (d : Int)
    omega
  · obtain ⟨buf, depth, inStr, escaped, objStart⟩ := s
    obtain ⟨outside, free, deep⟩ := inside
    cases outside
    dsimp only at room below
    have full : Lib.signed 32 (depth + 1) = none := Lib.signed_eq_none (not_lt.mp room)
    have nested : depth ≠ 0 := by
      dsimp only at deep
      omega
    simp [push, pushByte, full, nested, show openBrace ≠ quote by decide]

theorem derives {category : Category} (derives : Derives category d text) : Spills d text := by
  induction derives with
  | literal | number | string | emptyArray => exact flat _
  | array _ ih => exact append_right (Kept.plain (by decide : Plain [openBracket])) ih.append_left
  | emptyObject _ => exact braces (flat _)
  | object _ ih => exact braces ih
  | nested _ ih => exact ih
  | element before _ _ ih => exact (append_right (Kept.plain before.plain) ih).append_left
  | lastItem _ ih => exact ih
  | moreItems first _ ih ih' => exact append (Kept.derives first) ih (append_right (Kept.plain (by decide : Plain [comma])) ih')
  | member before name behind _ ih =>
    have lead := ((Kept.plain before.plain).append (Kept.str name)).append (Kept.plain behind.plain)
    exact append_right lead (append_right (Kept.plain (by decide : Plain [colon])) ih)
  | lastMember _ ih => exact ih
  | moreMembers first _ ih ih' => exact append (Kept.derives first) ih (append_right (Kept.plain (by decide : Plain [comma])) ih')

end Spills

/-! ### Between objects -/

variable {separator body : Bytes} {d : Nat}

theorem reads_opening (kept : Kept d body) (fits : d + 1 < 2 ^ 31) :
    Reads { buf := separator } (openBrace :: body)
      { buf := separator ++ openBrace :: body, depth := 1, objStart := separator.length } [] := by
  have counted : Lib.signed 32 1 = some 1 := by decide
  have opened : Reads { buf := separator } [openBrace] { buf := separator ++ [openBrace], depth := 1, objStart := separator.length } [] :=
    Reads.byte (by simp [pushByte, counted, show openBrace ≠ quote by decide])
  have content := kept { buf := separator ++ [openBrace], depth := 1, objStart := separator.length } ⟨rfl, rfl, Int.one_pos⟩ (by
    show 1 + (d : Int) < 2 ^ 31
    omega)
  simpa [keep] using opened.append content

theorem reads_closing (separator body : Bytes) :
    Reads { buf := separator ++ openBrace :: body, depth := 1, objStart := separator.length } [closeBrace] {}
      [openBrace :: (body ++ [closeBrace])] := by
  have whole : (body ++ [closeBrace]).take (body.length + 1) = body ++ [closeBrace] := List.take_of_length_le (by simp)
  refine Reads.byte ?_
  simp [pushByte, whole, show closeBrace ≠ quote by decide, show closeBrace ≠ openBrace by decide]

/-- The last byte of an object completes it, with nothing held over, and no byte before completes anything. -/
theorem reads_object {text : Bytes} (object : Derives .object d text) (fits : d < 2 ^ 31) (separator : Bytes) :
    Reads { buf := separator } text {} [text] ∧ ∃ mid, Reads { buf := separator } text.dropLast mid [] := by
  obtain ⟨e, body, rfl, rfl, content⟩ := object.object_cases
  have kept : Kept e body := by
    rcases content with ⟨blanks, rfl⟩ | members
    · exact Kept.plain blanks.plain
    · exact Kept.derives members
  have opening : Reads { buf := separator } (openBrace :: body)
      { buf := separator ++ openBrace :: body, depth := 1, objStart := separator.length } [] := reads_opening kept fits
  refine ⟨by simpa using opening.append (reads_closing separator body), ?_⟩
  rw [← List.cons_append, List.dropLast_concat]
  exact ⟨_, opening⟩

end JsonObjectStream

/-! ### The stream -/

/-- An object of the stream, behind what separates it from the one before. -/
structure StreamFrame where
  separator : Bytes
  text : Bytes
  depth : Nat
  plain : Plain separator
  object : Derives .object depth text

namespace StreamFrame

def bytes (frame : StreamFrame) : Bytes := frame.separator ++ frame.text

def spelled (frames : List StreamFrame) : Bytes := frames.flatMap bytes

/-- The texts of those objects that end within the first `n` bytes. -/
def arrived : List StreamFrame → Nat → List Bytes
  | [], _ => []
  | frame :: frames, n => if frame.bytes.length ≤ n then frame.text :: arrived frames (n - frame.bytes.length) else []

open JsonObjectStream

variable {frame : StreamFrame} {frames : List StreamFrame} {fed rest trailing : Bytes}

theorem reads (frame : StreamFrame) (fits : frame.depth < 2 ^ 31) : Reads {} frame.bytes {} [frame.text] := by
  have separated : Reads {} frame.separator { buf := frame.separator } [] := reads_plain rfl frame.plain
  exact separated.append (reads_object frame.object fits frame.separator).1

/-- Less than a whole frame completes nothing. -/
theorem reads_short (frame : StreamFrame) (fits : frame.depth < 2 ^ 31) (cut : fed ++ rest = frame.bytes) (short : rest ≠ []) :
    ∃ mid, Reads {} fed mid [] := by
  have separated : Reads {} frame.separator { buf := frame.separator } [] := reads_plain rfl frame.plain
  obtain ⟨-, mid, almost⟩ := reads_object frame.object fits frame.separator
  have filled : frame.text ≠ [] := by
    obtain ⟨_, _, -, spelled, -⟩ := frame.object.object_cases
    rw [spelled]
    exact List.cons_ne_nil _ _
  have within : fed ++ rest.dropLast = frame.separator ++ frame.text.dropLast := by
    rw [← List.dropLast_append_of_ne_nil short, cut, bytes, List.dropLast_append_of_ne_nil filled]
  have reads := separated.append almost
  rw [← within] at reads
  exact reads.part

/-- With an object that nests deeper there is no result. -/
theorem too_deep {text : Bytes} {d : Nat} (object : Derives .object d text) (deep : 2 ^ 31 ≤ d) (separator : Bytes) (out : List Bytes) :
    push text ({ buf := separator }, out) = none := by
  obtain ⟨e, body, rfl, rfl, content⟩ := object.object_cases
  have opened : Reads { buf := separator } [openBrace] { buf := separator ++ [openBrace], depth := 1, objStart := separator.length } [] :=
    reads_opening (Kept.plain (by decide)) (by decide)
  have spills : Spills e body := by
    rcases content with ⟨_, rfl⟩ | members
    · exact Spills.flat body
    · exact Spills.derives members
  rw [← List.singleton_append, push_append, opened out, Option.bind_some]
  refine spills.append_left _ ⟨rfl, rfl, Int.one_pos⟩ (show (1 : Int) < 2 ^ 31 by decide) ?_ _
  show (2 : Int) ^ 31 ≤ 1 + (e : Int)
  omega

theorem reads_spelled (fits : ∀ frame ∈ frames, frame.depth < 2 ^ 31) : Reads {} (spelled frames) {} (frames.map text) := by
  induction frames with
  | nil => exact Reads.nil {}
  | cons frame frames ih =>
    have first := frame.reads (fits frame List.mem_cons_self)
    exact first.append (ih fun other member => fits other (List.mem_cons_of_mem frame member))

/-- After any part of the stream the objects that have ended in it are out. -/
theorem reads_arrived (fits : ∀ frame ∈ frames, frame.depth < 2 ^ 31) (plain : Plain trailing)
    (cut : fed ++ rest = spelled frames ++ trailing) : ∃ s, Reads {} fed s (arrived frames fed.length) := by
  induction frames generalizing fed with
  | nil =>
    have whole : Reads {} (fed ++ rest) (keep {} (fed ++ rest)) [] := reads_plain rfl (by rw [cut]; exact plain)
    exact whole.part
  | cons frame frames ih =>
    have spelt : spelled (frame :: frames) ++ trailing = frame.bytes ++ (spelled frames ++ trailing) := by
      rw [spelled, List.flatMap_cons, List.append_assoc]
      rfl
    rw [spelt] at cut
    have room := fits frame List.mem_cons_self
    -- the first object is out, and the rest is the stream of the others
    have reached (behind : Bytes) (split : fed = frame.bytes ++ behind) (left : spelled frames ++ trailing = behind ++ rest) :
        ∃ s, Reads {} fed s (arrived (frame :: frames) fed.length) := by
      obtain ⟨s, others⟩ := ih (fun other member => fits other (List.mem_cons_of_mem frame member)) left.symm
      subst split
      rw [arrived, List.length_append, if_pos (Nat.le_add_right _ _), Nat.add_sub_cancel_left]
      exact ⟨s, (frame.reads room).append others⟩
    rcases List.append_eq_append_iff.mp cut with ⟨lacking, lacks, left⟩ | ⟨behind, split, left⟩
    -- the cut is inside the first frame, or at its end
    · by_cases whole : lacking = []
      · subst whole
        exact reached [] (by rw [lacks, List.append_nil, List.append_nil]) left.symm
      · have short : ¬ frame.bytes.length ≤ fed.length := by
          have some_left := List.length_pos_iff.mpr whole
          rw [lacks, List.length_append]
          omega
        rw [arrived, if_neg short]
        exact frame.reads_short room lacks.symm whole
    · exact reached behind split left

/-- The objects of a stream come out in order, however its bytes are cut into chunks, each with its last byte, and
nothing is held over behind the last byte of one. No object may nest deeper than the count of the code can go. -/
theorem extracts_the_objects (frames : List StreamFrame) (trailing : Bytes) (plain : Plain trailing)
    (fits : ∀ frame ∈ frames, frame.depth < 2 ^ 31) (chunks : List Bytes) (rest : Bytes)
    (cut : chunks.flatten ++ rest = spelled frames ++ trailing) :
    ∃ s, pushAll chunks ({}, []) = some (s, arrived frames chunks.flatten.length) ∧
      ∀ front behind, frames = front ++ behind → chunks.flatten = spelled front →
        s = {} ∧ arrived frames chunks.flatten.length = front.map text := by
  obtain ⟨s, reads⟩ := reads_arrived fits plain cut
  have out := reads []
  rw [← pushAll_eq, List.nil_append] at out
  refine ⟨s, out, ?_⟩
  rintro front behind rfl ends
  have whole := reads_spelled (fun frame member => fits frame (List.mem_append_left behind member)) []
  rw [← ends, ← pushAll_eq, out, List.nil_append, Option.some.injEq, Prod.mk.injEq] at whole
  exact whole

/-- `[{"}":0},`, cut behind the brace in the string. -/
theorem extracts_one_object :
    ∃ s, pushAll [[91, 123, 34, 125], [34, 58, 48, 125], [44]] ({}, []) = some (s, [[123, 34, 125, 34, 58, 48, 125]]) := by
  have nothing : Blanks [] := fun _ member => nomatch member
  have key : Str [34, 125, 34] := .quoted (.plain (by decide) (by decide) (by decide) .nil)
  have zero : Number ([] ++ [48] ++ [] ++ []) := .parts (by decide) .zero .none .none
  have member : Derives .member 0 [34, 125, 34, 58, 48] := .member nothing key nothing (.element nothing (.number zero) nothing)
  have object : Derives .object 1 [123, 34, 125, 34, 58, 48, 125] := .object (.lastMember member)
  have written := extracts_the_objects [⟨[91], _, 1, by decide, object⟩] [44] (by decide) (by simp)
    [[91, 123, 34, 125], [34, 58, 48, 125], [44]] [] rfl
  obtain ⟨s, out, -⟩ := written
  exact ⟨s, out⟩

/-- An object in an object, `n` times. -/
def nestedObject : Nat → Bytes
  | 0 => [openBrace, closeBrace]
  | n + 1 => openBrace :: ([quote, quote, colon] ++ nestedObject n ++ [closeBrace])

theorem derives_nestedObject (n : Nat) : Derives .object (n + 1) (nestedObject n) := by
  have none : Blanks [] := fun _ member => nomatch member
  induction n with
  | zero => exact .emptyObject none
  | succ n ih =>
    have value : Derives .element (n + 1) (nestedObject n) := by simpa using Derives.element none (.nested ih) none
    exact .object (.lastMember (.member none (.quoted .nil) none value))

/-- Each of its 2^31 braces is counted, and the last one is too many. -/
theorem not_at_any_depth :
    Derives .object (2 ^ 31) (nestedObject (2 ^ 31 - 1)) ∧ pushAll [nestedObject (2 ^ 31 - 1)] ({}, []) = none := by
  have object := derives_nestedObject (2 ^ 31 - 1)
  refine ⟨object, ?_⟩
  rw [pushAll_eq, List.flatten_singleton]
  exact too_deep object (Nat.le_refl _) [] []

end StreamFrame

end Braidcast.Chat
