import Braidcast.Chat.SseStream

/-!
# The digits of an advisory

`ParseRetryMs` accumulates a run of digits with no bound of its own: what keeps a `long` in
range is the number the digits spell, up to the first byte that is none.
-/
namespace Braidcast.Chat

open Lib

/-- A value that a `long` of `bits` bits holds. -/
def FitsLong (bits : Nat) (n : Int) : Prop := -longMax bits - 1 ≤ n ∧ n ≤ longMax bits

/-- Both operations of every `ms * 10 + (c - '0')` that the loop gets to stay in range. -/
def AccumulatesInRange (bits : Nat) (value : Bytes) : Prop :=
  ∀ digits c rest, value = digits ++ c :: rest → isDigit c = true →
    ∀ ms ∈ parseDigits bits 0 digits, FitsLong bits (ms * 10) ∧ FitsLong bits (ms * 10 + (c.toNat - 48 : Nat))

namespace SseStream

/-- The value that `HandleLine` gives to `ParseRetryMs`. -/
def retryValue (line : Bytes) : Option Bytes :=
  if line = [] ∨ line.head? = some colon then none
  else if (splitField line).1 = ascii "retry" then some (splitField line).2
  else none

/-- It is the value of a retry field. -/
theorem retryValue_eq_some {line value : Bytes} : retryValue line = some value ↔ readLine line = .field (ascii "retry") value := by
  cases line with
  | nil => simp [retryValue, readLine]
  | cons c rest =>
    by_cases comment : c = colon
    · simp [retryValue, readLine, comment]
    · rw [retryValue, if_neg (by simpa using comment), splitField_eq, readLine, if_neg comment]
      simp

theorem retryValue_eq_none {line : Bytes} (other : ∀ value, readLine line ≠ .field (ascii "retry") value) :
    retryValue line = none := by
  apply Option.eq_none_iff_forall_ne_some.mpr
  intro value advised
  exact other value (retryValue_eq_some.mp advised)

end SseStream

/-- No digit run that the stream has read so far overflows, and no delay it stored is negative. -/
def RetryInRange (bits : Nat) (chunks : List Bytes) : Prop :=
  ∀ read, read ++ [LF] <+: chunks.flatten → (Pushed.start.push bits read).ok = true →
    ∀ value ∈ SseStream.retryValue (trimCR (Pushed.start.push bits read).stream.line),
      AccumulatesInRange bits value ∧ ∀ ms ∈ parseRetryMs bits value, 0 ≤ ms

/-- Within the byte ceiling, the digits a retry value begins with spell a number that a `long` holds. -/
def DigitsFit (bits : Nat) (stream : Bytes) : Prop :=
  ∀ read, read <+: stream → WithinCeiling read →
    ∀ value ∈ values "retry" (linesOf read), (number (value.takeWhile isDigit) : Int) ≤ longMax bits

/-! ### Digit runs -/

theorem number_append (digits more : Bytes) :
    number (digits ++ more) = more.foldl (fun n c => n * 10 + (c.toNat - 48)) (number digits) := by
  rw [number_eq_foldl, number_eq_foldl, List.foldl_append]

theorem number_concat (digits : Bytes) (c : UInt8) : number (digits ++ [c]) = number digits * 10 + (c.toNat - 48) := by
  rw [number_append]
  rfl

theorem number_le_append (digits more : Bytes) : number digits ≤ number (digits ++ more) := by
  induction more using List.reverseRecOn with
  | nil => simp
  | append_singleton more c ih =>
    rw [← List.append_assoc, number_concat]
    omega

theorem longMax_nonneg (bits : Nat) : 0 ≤ longMax bits := by
  have power : (0 : Int) < 2 ^ (bits - 1) := by positivity
  unfold longMax
  omega

/-- Up to a number that fits, the `long` holds the number itself. -/
theorem parseDigits_of_fits {bits : Nat} {digits : Bytes} (all : digits.all isDigit = true)
    (fits : (number digits : Int) ≤ longMax bits) : parseDigits bits 0 digits = some (number digits : Int) := by
  have read := parseDigits_eq bits 0 digits
  rw [if_pos all, ← number_eq_foldl, (bmod_eq_self_iff bits _).mpr fits] at read
  simpa using read

theorem digits_of_parseDigits {bits : Nat} {ms : Int} {digits : Bytes} (read : ms ∈ parseDigits bits 0 digits) :
    digits.all isDigit = true := by
  have whole := parseDigits_eq bits 0 digits
  by_contra other
  rw [if_neg other] at whole
  simp only [Nat.cast_zero, Int.zero_bmod] at whole
  rw [whole] at read
  cases read

theorem accumulatesInRange_iff (bits : Nat) (value : Bytes) :
    AccumulatesInRange bits value ↔ (number (value.takeWhile isDigit) : Int) ≤ longMax bits := by
  constructor
  · intro within
    -- each digit of the run is accumulated from a number that still fits
    have each : ∀ digits rest, value = digits ++ rest → digits.all isDigit = true →
        (number digits : Int) ≤ longMax bits := by
      intro digits
      induction digits using List.reverseRecOn with
      | nil => exact fun _ _ _ => longMax_nonneg bits
      | append_singleton digits c ih =>
        intro rest whole all
        rw [List.all_append, Bool.and_eq_true, List.all_cons, Bool.and_eq_true] at all
        rw [List.append_assoc, List.singleton_append] at whole
        have fits := ih (c :: rest) whole all.1
        have last := (within digits c rest whole all.2.1 _ (parseDigits_of_fits all.1 fits)).2.2
        rw [number_concat]
        push_cast
        exact last
    exact each _ _ (List.takeWhile_append_dropWhile).symm (List.all_takeWhile)
  · rintro fits digits c rest rfl digit ms read
    have all := digits_of_parseDigits read
    have run : (digits ++ c :: rest).takeWhile isDigit = digits ++ [c] ++ rest.takeWhile isDigit := by
      rw [List.takeWhile_append_of_pos (List.all_eq_true.mp all), List.takeWhile_cons_of_pos digit, List.append_assoc]
      rfl
    rw [run] at fits
    have upTo := number_le_append (digits ++ [c]) (rest.takeWhile isDigit)
    have before := number_le_append digits [c]
    rw [parseDigits_of_fits all (by omega)] at read
    cases read
    rw [number_concat] at upTo
    constructor <;> constructor <;> omega

/-- A delay that is stored from digits that fit is the number they spell. -/
theorem parseRetryMs_nonneg {bits : Nat} {value : Bytes} (fits : (number (value.takeWhile isDigit) : Int) ≤ longMax bits)
    {ms : Int} (stored : ms ∈ parseRetryMs bits value) : 0 ≤ ms := by
  rw [parseRetryMs_eq] at stored
  obtain ⟨n, advised, rfl⟩ := Option.map_eq_some_iff.mp stored
  simp only [advisory] at advised
  split at advised
  next both =>
    cases advised
    rw [List.takeWhile_eq_self_iff.mpr (List.all_eq_true.mp both.2)] at fits
    rw [(bmod_eq_self_iff bits _).mpr fits]
    exact Int.natCast_nonneg _
  next => cases advised

/-! ### Whole streams -/

/-- One more LF adds the value, if there is one, of the line it ends. -/
theorem values_retry_concat (bits : Nat) (read : Bytes) (ok : (Pushed.start.push bits read).ok = true) :
    values "retry" (linesOf (read ++ [LF])) = values "retry" (linesOf read) ++
      (SseStream.retryValue (trimCR (Pushed.start.push bits read).stream.line)).toList := by
  rw [(push_start bits read).2 ok, linesOf_concat_LF]
  dsimp only [pushedBy, streamAfter]
  generalize trimCR (unfinished LF read) = text
  cases line : readLine text with
  | blank | comment =>
    rw [SseStream.retryValue_eq_none fun value same => by cases line.symm.trans same]
    simp
  | field name value =>
    rw [values_concat_field]
    split
    next same =>
      rw [SseStream.retryValue_eq_some.mpr (same ▸ line)]
      rfl
    next other =>
      rw [SseStream.retryValue_eq_none fun value' same => by cases line.symm.trans same; exact other rfl]
      simp

/-- Every digit run stays in range, and every delay is none below 0, exactly where the digits spell a number
that a `long` holds. -/
theorem retryInRange_iff (bits : Nat) (chunks : List Bytes) : RetryInRange bits chunks ↔ DigitsFit bits chunks.flatten := by
  constructor
  · intro inRange read
    induction read using List.reverseRecOn with
    | nil =>
      intro _ _ value member
      cases member
    | append_singleton read c ih =>
      intro first within value member
      have earlier := ((withinCeiling_concat read c).mp within).1
      have before := ih ((List.prefix_append read [c]).trans first) earlier
      by_cases ends : c = LF
      · subst ends
        have ok := (push_start bits read).1.mpr earlier
        rw [values_retry_concat bits read ok] at member
        rcases List.mem_append.mp member with old | last
        · exact before value old
        · exact (accumulatesInRange_iff bits value).mp (inRange read first ok value (Option.mem_toList.mp last)).1
      · rw [linesOf_concat ends] at member
        exact before value member
  · intro fits read first ok value advised
    have within : WithinCeiling (read ++ [LF]) :=
      (withinCeiling_concat read LF).mpr ⟨(push_start bits read).1.mp ok, fun other => absurd rfl other⟩
    have member : value ∈ values "retry" (linesOf (read ++ [LF])) := by
      rw [values_retry_concat bits read ok]
      exact List.mem_append_right _ (Option.mem_toList.mpr advised)
    have fits := fits _ first within value member
    exact ⟨(accumulatesInRange_iff bits value).mpr fits, fun ms => parseRetryMs_nonneg fits⟩

/-- Ten digits are enough for a `long` of 32 bits. -/
theorem not_retryInRange : ¬∀ chunks, RetryInRange 32 chunks := by
  intro inRange
  have stored := (inRange [ascii "retry: 2147483648\n"] (ascii "retry: 2147483648") (by decide) (by decide)
    (ascii "2147483648") (by decide)).2 (-2147483648) (by decide)
  exact absurd stored (by decide)

end Braidcast.Chat
