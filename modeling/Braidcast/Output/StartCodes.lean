import Mathlib.Algebra.Order.Ring.Int
import Mathlib.Data.List.Basic

/-!
# Start codes

`obs_nal_find_startcode` of `obs-nal.c`. Places are offsets into the buffer, which is at the address
`addr`; a loop that does not end and a read outside the buffer give no result. `p < end - 3` is read with
the subtraction of natural numbers, which no place is below when the buffer is shorter.
-/
namespace Braidcast.Output.Nal

abbrev Buffer := List UInt8

/-- `p[0] == 0 && p[1] == 0 && p[2] == 1`. All three are read, of which the code reads the first ones. -/
def codeAt? (data : Buffer) (p : Nat) : Option Bool := do
  let b0 ← data[p]?
  let b1 ← data[p + 1]?
  let b2 ← data[p + 2]?
  return b0 = 0 ∧ b1 = 0 ∧ b2 = 1

/-- A loop byte by byte up to `stop`, with whether it has found a start code where it ends. -/
def scanBytes (data : Buffer) (stop : Nat) : Nat → Nat → Option (Nat × Bool)
  | 0, _ => none
  | fuel + 1, p =>
    if p < stop then do
      let found ← codeAt? data p
      if found then return (p, true) else scanBytes data stop fuel (p + 1)
    else some (p, false)

/-- Four bytes read as a word. -/
def word (b0 b1 b2 b3 : UInt8) : BitVec 32 :=
  BitVec.ofNat 32 (b0.toNat + 2 ^ 8 * b1.toNat + 2 ^ 16 * b2.toNat + 2 ^ 24 * b3.toNat)

/-- `(x - 0x01010101) & (~x) & 0x80808080`. -/
def zeroMask (x : BitVec 32) : BitVec 32 := (x - 0x01010101#32) &&& ~~~x &&& 0x80808080#32

/-- Which of the places of a word a start code begins at. -/
def codeInWord (b0 b1 b2 b3 b4 b5 : UInt8) : Option Nat :=
  if b1 = 0 ∧ b0 = 0 ∧ b2 = 1 then some 0
  else if b1 = 0 ∧ b2 = 0 ∧ b3 = 1 then some 1
  else if b3 = 0 ∧ b2 = 0 ∧ b4 = 1 then some 2
  else if b3 = 0 ∧ b4 = 0 ∧ b5 = 1 then some 3
  else none

/-- The loop word by word. The two bytes behind the word, which the code reads where it needs them, are
read with it. -/
def scanWords (data : Buffer) (stop : Nat) : Nat → Nat → Option (Nat × Bool)
  | 0, _ => none
  | fuel + 1, p =>
    if p < stop then do
      let b0 ← data[p]?
      let b1 ← data[p + 1]?
      let b2 ← data[p + 2]?
      let b3 ← data[p + 3]?
      let b4 ← data[p + 4]?
      let b5 ← data[p + 5]?
      if zeroMask (word b0 b1 b2 b3) = 0 then scanWords data stop fuel (p + 4)
      else
        match codeInWord b0 b1 b2 b3 b4 b5 with
        | some k => return (p + k, true)
        | none => scanWords data stop fuel (p + 4)
    else some (p, false)

/-- `ff_avc_find_startcode_internal`. -/
def ffAvcFindStartcodeInternal (data : Buffer) (addr p : Nat) : Option Nat := do
  let stop := data.length
  -- the first loop ends at the next aligned word, or short of the end
  let a := p + 4 - (addr + p) % 4
  let (p, found) ← scanBytes data (min a (stop - 3)) (stop + 1) p
  if found then return p
  -- three bytes less than the first loop, as the two bytes behind a word are looked at with it
  let (p, found) ← scanWords data (stop - 3 - 3) (stop + 1) p
  if found then return p
  let (p, found) ← scanBytes data (stop - 3) (stop + 1) p
  if found then return p
  return stop

/-- `obs_nal_find_startcode`, which takes the zero in front of a start code with it. -/
def obsNalFindStartcode (data : Buffer) (addr p : Nat) : Option Nat := do
  let out ← ffAvcFindStartcodeInternal data addr p
  if p < out ∧ out < data.length then
    let b ← data[out - 1]?
    return if b = 0 then out - 1 else out
  return out

/-! ## Zero bytes of a word -/

theorem word_toNat (b0 b1 b2 b3 : UInt8) :
    (word b0 b1 b2 b3).toNat = b0.toNat + 2 ^ 8 * b1.toNat + 2 ^ 16 * b2.toNat + 2 ^ 24 * b3.toNat := by
  have h0 := b0.toNat_lt
  have h1 := b1.toNat_lt
  have h2 := b2.toNat_lt
  have h3 := b3.toNat_lt
  rw [word, BitVec.toNat_ofNat]
  omega

/-- A bit that the word has not, the difference has and the mask keeps. -/
theorem zeroMask_ne_zero_of_bit {x : BitVec 32} {i : Nat} (flag : (0x80808080#32).getLsbD i = true)
    (unset : x.toNat / 2 ^ i % 2 = 0) (borrowed : (x - 0x01010101#32).toNat / 2 ^ i % 2 = 1) : zeroMask x ≠ 0 := by
  intro nothing
  have inside : i < 32 := BitVec.lt_of_getLsbD flag
  have clear : x.getLsbD i = false := by
    rw [← BitVec.testBit_toNat, Nat.testBit_eq_decide_div_mod_eq, unset]
    rfl
  have set : (x - 0x01010101#32).getLsbD i = true := by
    rw [← BitVec.testBit_toNat, Nat.testBit_eq_decide_div_mod_eq, borrowed]
    rfl
  have bit : (zeroMask x).getLsbD i = true := by
    rw [zeroMask, BitVec.getLsbD_and, BitVec.getLsbD_and, BitVec.getLsbD_not, set, clear, flag]
    simp [inside]
  rw [nothing] at bit
  exact absurd bit (by simp)

/-- The lowest byte that is zero borrows its highest bit. -/
theorem zeroMask_ne_zero {b0 b1 b2 b3 : UInt8} (zero : b0 = 0 ∨ b1 = 0 ∨ b2 = 0 ∨ b3 = 0) : zeroMask (word b0 b1 b2 b3) ≠ 0 := by
  have value := word_toNat b0 b1 b2 b3
  have difference : (word b0 b1 b2 b3 - 0x01010101#32).toNat = (2 ^ 32 - 0x01010101 + (word b0 b1 b2 b3).toNat) % 2 ^ 32 := by
    rw [BitVec.toNat_sub]
    rfl
  have h0 := b0.toNat_lt
  have h1 := b1.toNat_lt
  have h2 := b2.toNat_lt
  have nat (b : UInt8) : b = 0 ↔ b.toNat = 0 := by
    rw [← UInt8.toNat_inj]
    rfl
  rw [nat, nat, nat, nat] at zero
  -- the byte's own highest bit is unset, and the borrow sets it in the difference
  by_cases first : b0.toNat = 0
  · exact zeroMask_ne_zero_of_bit (i := 7) (by decide) (by omega) (by omega)
  by_cases second : b1.toNat = 0
  · exact zeroMask_ne_zero_of_bit (i := 15) (by decide) (by omega) (by omega)
  by_cases third : b2.toNat = 0
  · exact zeroMask_ne_zero_of_bit (i := 23) (by decide) (by omega) (by omega)
  · exact zeroMask_ne_zero_of_bit (i := 31) (by decide) (by omega) (by omega)

/-! ## The first start code -/

variable {data : Buffer} {p q stop : Nat}

/-- A start code with a byte behind it. -/
structure CodeAt (data : Buffer) (i : Nat) : Prop where
  first : data[i]? = some 0
  second : data[i + 1]? = some 0
  third : data[i + 2]? = some 1
  inside : i + 3 < data.length

/-- Where a loop that began at `p` ends: nothing has been passed, and it ends at a start code or at its end. -/
structure Scanned (data : Buffer) (stop p : Nat) (r : Nat × Bool) : Prop where
  after : p ≤ r.1
  passed : ∀ i, p ≤ i → i < r.1 → ¬ CodeAt data i
  hit : r.2 = true → CodeAt data r.1
  miss : r.2 = false → stop ≤ r.1

theorem Scanned.later {next : Nat} {r : Nat × Bool} (ahead : p ≤ next) (clear : ∀ i, p ≤ i → i < next → ¬ CodeAt data i)
    (scanned : Scanned data stop next r) : Scanned data stop p r where
  after := Nat.le_trans ahead scanned.after
  passed i from_p upto := by
    by_cases before_next : i < next
    · exact clear i from_p before_next
    · exact scanned.passed i (Nat.le_of_not_lt before_next) upto
  hit := scanned.hit
  miss := scanned.miss

theorem Scanned.here (code : CodeAt data p) : Scanned data stop p (p, true) :=
  ⟨Nat.le_refl p, fun _ from_p upto => absurd from_p (Nat.not_le_of_lt upto), fun _ => code, fun missed => nomatch missed⟩

theorem Scanned.end (ended : ¬ p < stop) : Scanned data stop p (p, false) :=
  ⟨Nat.le_refl p, fun _ from_p upto => absurd from_p (Nat.not_le_of_lt upto), fun found => (nomatch found), fun _ => Nat.le_of_not_lt ended⟩

theorem codeAt?_eq {b0 b1 b2 : UInt8} (first : data[p]? = some b0) (second : data[p + 1]? = some b1) (third : data[p + 2]? = some b2) :
    codeAt? data p = some (decide (b0 = 0 ∧ b1 = 0 ∧ b2 = 1)) := by
  rw [codeAt?, first, second, third]
  rfl

/-- Where the three bytes are known, a start code is a matter of their values. -/
theorem codeAt_iff {b0 b1 b2 : UInt8} (first : data[p]? = some b0) (second : data[p + 1]? = some b1) (third : data[p + 2]? = some b2)
    (inside : p + 3 < data.length) : CodeAt data p ↔ b0 = 0 ∧ b1 = 0 ∧ b2 = 1 := by
  constructor
  · intro code
    have same0 := code.first
    have same1 := code.second
    have same2 := code.third
    rw [first] at same0
    rw [second] at same1
    rw [third] at same2
    exact ⟨Option.some.inj same0, Option.some.inj same1, Option.some.inj same2⟩
  · rintro ⟨rfl, rfl, rfl⟩
    exact ⟨first, second, third, inside⟩

theorem read (data : Buffer) (p : Nat) (inside : p < data.length) : ∃ b, data[p]? = some b := ⟨data[p], List.getElem?_eq_getElem inside⟩

theorem codeInWord_none {b0 b1 b2 b3 b4 b5 : UInt8} (which : codeInWord b0 b1 b2 b3 b4 b5 = none) :
    ¬ (b0 = 0 ∧ b1 = 0 ∧ b2 = 1) ∧ ¬ (b1 = 0 ∧ b2 = 0 ∧ b3 = 1) ∧ ¬ (b2 = 0 ∧ b3 = 0 ∧ b4 = 1) ∧
      ¬ (b3 = 0 ∧ b4 = 0 ∧ b5 = 1) := by
  rw [codeInWord] at which
  split at which
  · exact nomatch which
  split at which
  · exact nomatch which
  split at which
  · exact nomatch which
  split at which
  · exact nomatch which
  tauto

/-- The first of the four places is found: two codes that overlap ask for a byte that is both zero and one. -/
theorem codeInWord_some {b0 b1 b2 b3 b4 b5 : UInt8} {k : Nat} (which : codeInWord b0 b1 b2 b3 b4 b5 = some k) :
    (k = 0 ∧ b0 = 0 ∧ b1 = 0 ∧ b2 = 1) ∨
      (k = 1 ∧ b1 = 0 ∧ b2 = 0 ∧ b3 = 1) ∨
      (k = 2 ∧ b2 = 0 ∧ b3 = 0 ∧ b4 = 1) ∨
      (k = 3 ∧ b3 = 0 ∧ b4 = 0 ∧ b5 = 1 ∧ ¬ (b0 = 0 ∧ b1 = 0 ∧ b2 = 1)) := by
  rw [codeInWord] at which
  split at which
  next code => exact .inl ⟨(Option.some.inj which).symm, code.2.1, code.1, code.2.2⟩
  next first =>
  split at which
  next code => exact .inr (.inl ⟨(Option.some.inj which).symm, code⟩)
  split at which
  next code => exact .inr (.inr (.inl ⟨(Option.some.inj which).symm, code.2.1, code.1, code.2.2⟩))
  split at which
  next code =>
    have other : ¬ (b0 = 0 ∧ b1 = 0 ∧ b2 = 1) := fun code0 => first ⟨code0.2.1, code0.1, code0.2.2⟩
    exact .inr (.inr (.inr ⟨(Option.some.inj which).symm, code.1, code.2.1, code.2.2, other⟩))
  exact nomatch which

/-- A byte that one code asks to be zero, and the next one to be one. -/
theorem zero_ne_one {b : UInt8} (zero : b = 0) (one : b = 1) : False := absurd (zero.symm.trans one) (by decide)

theorem scanBytes_spec (data : Buffer) (stop fuel p : Nat) (within : stop + 3 ≤ data.length ∨ stop = 0) (enough : stop - p < fuel) :
    ∃ r, scanBytes data stop fuel p = some r ∧ Scanned data stop p r := by
  induction fuel generalizing p with
  | zero => exact absurd enough (Nat.not_lt_zero _)
  | succ fuel ih =>
    rw [scanBytes]
    split
    next more =>
      obtain ⟨b0, first⟩ := read data p (by omega)
      obtain ⟨b1, second⟩ := read data (p + 1) (by omega)
      obtain ⟨b2, third⟩ := read data (p + 2) (by omega)
      have here := codeAt_iff first second third (by omega)
      rw [codeAt?_eq first second third]
      by_cases code : b0 = 0 ∧ b1 = 0 ∧ b2 = 1
      · exact ⟨(p, true), by simp [code], Scanned.here (here.mpr code)⟩
      · obtain ⟨r, scanned, found⟩ := ih (p + 1) (by omega)
        have passed : ∀ i, p ≤ i → i < p + 1 → ¬ CodeAt data i := by
          intro i from_p upto
          obtain rfl : i = p := by omega
          rwa [here]
        exact ⟨r, by simpa [code] using scanned, found.later (Nat.le_succ p) passed⟩
    next ended => exact ⟨(p, false), rfl, Scanned.end ended⟩

/-- A place of the word that the six bytes are read for. -/
theorem place_in_word {i : Nat} (from_p : p ≤ i) (upto : i < p + 4) : i = p ∨ i = p + 1 ∨ i = p + 2 ∨ i = p + 3 := by omega

theorem scanWords_spec (data : Buffer) (stop fuel p : Nat) (within : stop + 6 ≤ data.length ∨ stop = 0) (enough : stop - p < fuel) :
    ∃ r, scanWords data stop fuel p = some r ∧ Scanned data stop p r := by
  induction fuel generalizing p with
  | zero => exact absurd enough (Nat.not_lt_zero _)
  | succ fuel ih =>
    rw [scanWords]
    split
    next more =>
      obtain ⟨b0, r0⟩ := read data p (by omega)
      obtain ⟨b1, r1⟩ := read data (p + 1) (by omega)
      obtain ⟨b2, r2⟩ := read data (p + 2) (by omega)
      obtain ⟨b3, r3⟩ := read data (p + 3) (by omega)
      obtain ⟨b4, r4⟩ := read data (p + 4) (by omega)
      obtain ⟨b5, r5⟩ := read data (p + 5) (by omega)
      have code0 := codeAt_iff r0 r1 r2 (by omega)
      have code1 := codeAt_iff r1 r2 r3 (by omega)
      have code2 := codeAt_iff r2 r3 r4 (by omega)
      have code3 := codeAt_iff r3 r4 r5 (by omega)
      obtain ⟨later, scanned, found⟩ := ih (p + 4) (by omega)
      simp only [r0, r1, r2, r3, r4, r5, Option.bind_eq_bind, Option.bind_some]
      by_cases plain : zeroMask (word b0 b1 b2 b3) = 0
      · -- No byte of the word is zero, so no start code begins in it.
        have passed : ∀ i, p ≤ i → i < p + 4 → ¬ CodeAt data i := by
          intro i from_p upto code
          refine absurd plain (zeroMask_ne_zero ?_)
          rcases place_in_word from_p upto with rfl | rfl | rfl | rfl
          · exact .inl (code0.mp code).1
          · exact .inr (.inl (code1.mp code).1)
          · exact .inr (.inr (.inl (code2.mp code).1))
          · exact .inr (.inr (.inr (code3.mp code).1))
        rw [if_pos plain]
        exact ⟨later, scanned, found.later (Nat.le_add_right p 4) passed⟩
      rw [if_neg plain]
      cases which : codeInWord b0 b1 b2 b3 b4 b5 with
      -- a word with a zero byte may still begin no start code
      | none =>
        have none_in := codeInWord_none which
        have passed : ∀ i, p ≤ i → i < p + 4 → ¬ CodeAt data i := by
          intro i from_p upto
          rcases place_in_word from_p upto with rfl | rfl | rfl | rfl
          · exact code0.not.mpr none_in.1
          · exact code1.not.mpr none_in.2.1
          · exact code2.not.mpr none_in.2.2.1
          · exact code3.not.mpr none_in.2.2.2
        exact ⟨later, scanned, found.later (Nat.le_add_right p 4) passed⟩
      | some k =>
        refine ⟨(p + k, true), rfl, ⟨Nat.le_add_right p k, ?_, fun _ => ?_, fun missed => nomatch missed⟩⟩
        -- no place before the one that was found begins another
        · intro i from_p upto code
          rcases codeInWord_some which with ⟨rfl, -⟩ | ⟨rfl, h1, h2, h3⟩ | ⟨rfl, h2, h3, h4⟩ | ⟨rfl, h3, h4, h5, other⟩
          · omega
          · obtain rfl : i = p := by omega
            exact zero_ne_one h2 (code0.mp code).2.2
          · obtain rfl | rfl : i = p ∨ i = p + 1 := by omega
            · exact zero_ne_one h2 (code0.mp code).2.2
            · exact zero_ne_one h3 (code1.mp code).2.2
          · obtain rfl | rfl | rfl : i = p ∨ i = p + 1 ∨ i = p + 2 := by omega
            · exact other (code0.mp code)
            · exact zero_ne_one h3 (code1.mp code).2.2
            · exact zero_ne_one h4 (code2.mp code).2.2
        · rcases codeInWord_some which with ⟨rfl, code⟩ | ⟨rfl, code⟩ | ⟨rfl, code⟩ | ⟨rfl, h3, h4, h5, -⟩
          · exact code0.mpr code
          · exact code1.mpr code
          · exact code2.mpr code
          · exact code3.mpr ⟨h3, h4, h5⟩
    next ended => exact ⟨(p, false), rfl, Scanned.end ended⟩

/-- The first start code from `p` on, or the end of the buffer. -/
structure FirstCode (data : Buffer) (p out : Nat) : Prop where
  after : p ≤ out
  upto : out ≤ data.length
  code : out < data.length → CodeAt data out
  passed : ∀ i, p ≤ i → i < out → ¬ CodeAt data i

theorem FirstCode.unique {a b : Nat} (first : FirstCode data p a) (other : FirstCode data p b) : a = b := by
  have no_less {a b : Nat} (first : FirstCode data p a) (other : FirstCode data p b) : ¬ a < b := by
    intro less
    have inside : a < data.length := Nat.lt_of_lt_of_le less other.upto
    exact other.passed a first.after less (first.code inside)
  exact Nat.le_antisymm (Nat.le_of_not_lt (no_less other first)) (Nat.le_of_not_lt (no_less first other))

theorem Scanned.found {r : Nat × Bool} (scanned : Scanned data stop p r) (hit : r.2 = true) : FirstCode data p r.1 where
  after := scanned.after
  upto := by
    have inside := (scanned.hit hit).inside
    omega
  code _ := scanned.hit hit
  passed := scanned.passed

theorem ffAvcFindStartcodeInternal_spec (addr : Nat) (within : p ≤ data.length) :
    ∃ out, ffAvcFindStartcodeInternal data addr p = some out ∧ FirstCode data p out := by
  -- byte by byte to the next word, word by word, and byte by byte again
  obtain ⟨⟨p1, hit1⟩, scan1, scanned1⟩ := scanBytes_spec data (min (p + 4 - (addr + p) % 4) (data.length - 3))
    (data.length + 1) p (by omega) (by omega)
  obtain ⟨⟨p2, hit2⟩, scan2, scanned2⟩ := scanWords_spec data (data.length - 3 - 3) (data.length + 1) p1
    (by omega) (by omega)
  obtain ⟨⟨p3, hit3⟩, scan3, scanned3⟩ := scanBytes_spec data (data.length - 3) (data.length + 1) p2
    (by omega) (by omega)
  have second : Scanned data (data.length - 3 - 3) p (p2, hit2) := scanned2.later scanned1.after scanned1.passed
  have third : Scanned data (data.length - 3) p (p3, hit3) := scanned3.later second.after second.passed
  simp only [ffAvcFindStartcodeInternal, scan1, Option.bind_eq_bind, Option.bind_some]
  cases hit1 with
  | true => exact ⟨p1, rfl, scanned1.found rfl⟩
  | false =>
    simp only [scan2, Bool.false_eq_true, if_false, Option.bind_some]
    cases hit2 with
    | true => exact ⟨p2, rfl, second.found rfl⟩
    | false =>
      simp only [scan3, Bool.false_eq_true, if_false, Option.bind_some]
      cases hit3 with
      | true => exact ⟨p3, rfl, third.found rfl⟩
      | false =>
        refine ⟨data.length, rfl, within, Nat.le_refl _, fun beyond => absurd beyond (Nat.lt_irrefl _), ?_⟩
        intro i from_p _ code
        -- a code has a byte behind it, so the last loop would have reached it
        have ended := third.miss rfl
        have inside := code.inside
        exact third.passed i from_p (by simp only at ended ⊢; omega) code

/-- Where `obs_nal_find_startcode` ends: at the first start code, or at the zero in front of it. -/
theorem obsNalFindStartcode_eq (data : Buffer) (addr p : Nat) (within : p ≤ data.length) :
    ∃ out, FirstCode data p out ∧ obsNalFindStartcode data addr p =
      some (if p < out ∧ out < data.length ∧ data[out - 1]? = some 0 then out - 1 else out) := by
  obtain ⟨out, found, first⟩ := ffAvcFindStartcodeInternal_spec addr within
  refine ⟨out, first, ?_⟩
  simp only [obsNalFindStartcode, found, Option.bind_eq_bind, Option.bind_some]
  by_cases inside : p < out ∧ out < data.length
  · obtain ⟨b, before⟩ := read data (out - 1) (by omega)
    rw [if_pos inside, before]
    simp [inside]
  · rw [if_neg inside]
    rw [if_neg (fun all => inside ⟨all.1, all.2.1⟩)]
    rfl

/-- Nothing is read from a place that is not in the buffer. -/
theorem obsNalFindStartcode_beyond (data : Buffer) (addr : Nat) (beyond : data.length < p) :
    obsNalFindStartcode data addr p = some data.length := by
  have bytes (stop : Nat) (inside : stop ≤ data.length) : scanBytes data stop (data.length + 1) p = some (p, false) := by
    rw [scanBytes, if_neg (by omega)]
  have words (stop : Nat) (inside : stop ≤ data.length) : scanWords data stop (data.length + 1) p = some (p, false) := by
    rw [scanWords, if_neg (by omega)]
  have internal : ffAvcFindStartcodeInternal data addr p = some data.length := by
    -- each of the three loops ends at once
    rw [ffAvcFindStartcodeInternal]
    simp [bytes _ (show min (p + 4 - (addr + p) % 4) (data.length - 3) ≤ data.length by omega),
      words _ (show data.length - 3 - 3 ≤ data.length by omega), bytes _ (Nat.sub_le data.length 3)]
  simp [obsNalFindStartcode, internal]

theorem FirstCode.of_isLeast (least : IsLeast {i | p ≤ i ∧ CodeAt data i} q) : FirstCode data p q where
  after := least.1.1
  upto := by
    have inside := least.1.2.inside
    omega
  code _ := least.1.2
  passed i from_p before code := absurd (least.2 ⟨from_p, code⟩) (Nat.not_le_of_lt before)

/-- The scan ends where one that looks at each place in turn does, and no read of it is outside the buffer. -/
theorem scans_as_plain (data : Buffer) (addr p : Nat) :
    (∀ q, IsLeast {i | p ≤ i ∧ CodeAt data i} q →
        obsNalFindStartcode data addr p = some (if p < q ∧ data[q - 1]? = some 0 then q - 1 else q)) ∧
      ((∀ i, p ≤ i → ¬ CodeAt data i) → obsNalFindStartcode data addr p = some data.length) := by
  constructor
  · intro q least
    have inside := least.1.2.inside
    have after := least.1.1
    obtain ⟨out, first, found⟩ := obsNalFindStartcode_eq data addr p (by omega)
    obtain rfl := first.unique (.of_isLeast least)
    have within : out < data.length := by omega
    rw [found]
    simp only [within, true_and]
  · intro absent
    by_cases beyond : data.length < p
    · exact obsNalFindStartcode_beyond data addr beyond
    · obtain ⟨out, first, found⟩ := obsNalFindStartcode_eq data addr p (by omega)
      have ended : ¬ out < data.length := fun inside => absent out first.after (first.code inside)
      have last : out = data.length := by
        have upto := first.upto
        omega
      rw [found, if_neg (fun all => ended all.2.1), last]

end Braidcast.Output.Nal
