import Mathlib.Tactic.Ring.RingNF

/-!
# The parameters of an SPS

`get_sps_high_params` and the reader below it, next to the codes as the standard has them.
-/
namespace Braidcast.Output.Sps

/-- What C leaves undefined. -/
inductive Fault where
  | outside
  | shift
  deriving DecidableEq

structure BitstreamReader where
  pos : UInt8 := 0
  subPos : UInt8 := 0x80
  buf : List UInt8

namespace BitstreamReader

def readBit (r : BitstreamReader) : Except Fault (UInt8 × BitstreamReader) :=
  if r.buf.length ≤ r.pos.toNat then .ok (0, r)
  else
    match r.buf[r.pos.toNat]? with
    | none => .error .outside
    | some byte =>
      let bit : UInt8 := if byte &&& r.subPos = r.subPos then 1 else 0
      let subPos := r.subPos >>> 1
      .ok (bit, if subPos = 0 then { r with subPos := 0x80, pos := r.pos + 1 } else { r with subPos })

/-- `read_bits`, with `res` as it is and so many bits to go. -/
def readBits : Nat → UInt8 → BitstreamReader → Except Fault (UInt8 × BitstreamReader)
  | 0, res, r => .ok (res, r)
  | bits + 1, res, r => do
    let (bit, r) ← r.readBit
    readBits bits (res <<< 1 ||| bit) r

/-- The loop of `get_ue_golomb`, with so many turns left below 32. -/
def countZeros : Nat → Nat → BitstreamReader → Except Fault (Nat × BitstreamReader)
  | 0, i, r => .ok (i, r)
  | left + 1, i, r => do
    let (bit, r) ← r.readBits 1 0
    if bit = 0 then countZeros left (i + 1) r else .ok (i, r)

/-- `get_ue_golomb`: the shift is of an `int`, and the sum is cut to a byte. -/
def getUeGolomb (r : BitstreamReader) : Except Fault (UInt8 × BitstreamReader) := do
  let (i, r) ← r.countZeros 32 0
  let (res, r) ← r.readBits i 0
  if 32 ≤ i then .error .shift else .ok (UInt8.ofNat (res.toNat + 2 ^ i - 1), r)

/-- `separate_colour_plane_flag`, which is there in one chroma format only. -/
def skipPlaneFlag (chroma : UInt8) (r : BitstreamReader) : Except Fault (UInt8 × BitstreamReader) :=
  if chroma = 3 then r.readBits 1 0 else .ok (0, r)

end BitstreamReader

/-- The loops that extract the RBSP, from `i` on. -/
def extractRbsp (sps : List UInt8) (i : Nat) (rbsp : List UInt8) : List UInt8 :=
  if h : i + 2 < sps.length then
    if sps[i] = 0 ∧ sps[i + 1] = 0 ∧ sps[i + 2] = 3 then extractRbsp sps (i + 3) (rbsp ++ [sps[i], sps[i + 1]])
    else extractRbsp sps (i + 1) (rbsp ++ [sps[i]])
  else rbsp ++ sps.drop i
termination_by sps.length - i

/-- `get_sps_high_params`: chroma format and both bit depths. -/
def getSpsHighParams (sps : List UInt8) : Except Fault (UInt8 × UInt8 × UInt8) := do
  let r : BitstreamReader := { buf := extractRbsp sps 0 [] }
  let (_, r) ← r.readBits 24 0
  let (_, r) ← r.getUeGolomb
  let (chroma, r) ← r.getUeGolomb
  let (_, r) ← r.skipPlaneFlag chroma
  let (luma, r) ← r.getUeGolomb
  let (depth, _) ← r.getUeGolomb
  .ok (chroma, luma, depth)

/-! ### The codes -/

/-- A NAL unit without its emulation-prevention bytes. -/
def withoutEmulation : List UInt8 → List UInt8
  | a :: b :: c :: rest =>
    if a = 0 ∧ b = 0 ∧ c = 3 then a :: b :: withoutEmulation rest else a :: withoutEmulation (b :: c :: rest)
  | rest => rest

/-- Bit `k`, the highest of a byte first. Past the end there are zeros. -/
def bitAt (rbsp : List UInt8) (k : Nat) : Bool := (rbsp.getD (k / 8) 0).toNat.testBit (7 - k % 8)

variable (bits : Nat → Bool)

/-- The number of the next `n` bits from `k`, behind the digits of `acc`. -/
def number (acc k : Nat) : Nat → Nat
  | 0 => acc
  | n + 1 => number (2 * acc + (bits k).toNat) (k + 1) n

/-- The Exp-Golomb code at `k` and where it ends, if one of the next 32 bits is set. -/
def code (k : Nat) : Option (Nat × Nat) :=
  ((List.range 32).find? fun zeros => bits (k + zeros)).map fun zeros =>
    (number bits 0 (k + zeros + 1) zeros + 2 ^ zeros - 1, k + 2 * zeros + 1)

/-- The codes behind profile and level: the id, the chroma format and both bit depths. -/
def codes : Option (Nat × Nat × Nat × Nat) := do
  let (id, k) ← code bits 24
  let (chroma, k) ← code bits k
  let (luma, k) ← code bits (if chroma % 256 = 3 then k + 1 else k)
  let (depth, _) ← code bits k
  return (id, chroma, luma, depth)

variable {bits}

theorem extractRbsp_eq (sps : List UInt8) (i : Nat) (rbsp : List UInt8) :
    extractRbsp sps i rbsp = rbsp ++ withoutEmulation (sps.drop i) := by
  fun_induction extractRbsp sps i rbsp with
  | case1 i rbsp more three ih =>
    rw [ih, List.drop_eq_getElem_cons (by omega : i < sps.length), List.drop_eq_getElem_cons (by omega : i + 1 < sps.length),
      List.drop_eq_getElem_cons more, withoutEmulation, if_pos three]
    simp
  | case2 i rbsp more other ih =>
    rw [ih, List.drop_eq_getElem_cons (by omega : i < sps.length), List.drop_eq_getElem_cons (by omega : i + 1 < sps.length),
      List.drop_eq_getElem_cons more, withoutEmulation, if_neg other]
    simp
  | case3 i rbsp short =>
    have few : (sps.drop i).length ≤ 2 := by simp; omega
    match sps.drop i, few with
    | [], _ | [_], _ | [_, _], _ => rfl

/-! ### The reader -/

namespace BitstreamReader

/-- The reader stands at bit `k`, or at the end if that is earlier. -/
structure At (r : BitstreamReader) (rbsp : List UInt8) (k : Nat) : Prop where
  buf : r.buf = rbsp
  pos : r.pos.toNat = min k (8 * rbsp.length) / 8
  subPos : r.subPos = 0x80 >>> UInt8.ofNat (min k (8 * rbsp.length) % 8)

variable {r : BitstreamReader} {rbsp : List UInt8} {k : Nat}

theorem mask_iff (byte : UInt8) (j : Nat) (less : j < 8) :
    byte &&& (0x80 >>> UInt8.ofNat j) = 0x80 >>> UInt8.ofNat j ↔ byte.toNat.testBit (7 - j) = true := by
  have all : ∀ n : Fin 256, ∀ j : Fin 8, (UInt8.ofNat n &&& (0x80 >>> UInt8.ofNat j) = 0x80 >>> UInt8.ofNat j) ↔
      n.val.testBit (7 - j) = true := by decide +kernel
  have here := all ⟨byte.toNat, byte.toNat_lt⟩ ⟨j, less⟩
  rwa [UInt8.ofNat_toNat] at here

theorem mask_shift (j : Nat) (less : j < 8) :
    ((0x80 : UInt8) >>> UInt8.ofNat j >>> 1 = 0 ↔ j = 7) ∧ (j ≠ 7 → (0x80 : UInt8) >>> UInt8.ofNat j >>> 1 = 0x80 >>> UInt8.ofNat (j + 1)) := by
  have all : ∀ j : Fin 8, ((0x80 : UInt8) >>> UInt8.ofNat j >>> 1 = 0 ↔ j.val = 7) ∧
      (j.val ≠ 7 → (0x80 : UInt8) >>> UInt8.ofNat j >>> 1 = 0x80 >>> UInt8.ofNat (j + 1)) := by decide
  exact all ⟨j, less⟩

theorem readBit_at (at_ : r.At rbsp k) (near : k < 2040) :
    ∃ r', r.readBit = .ok (if bitAt rbsp k then 1 else 0, r') ∧ r'.At rbsp (k + 1) := by
  obtain ⟨rfl, pos, sub⟩ := at_
  unfold readBit bitAt
  by_cases inside : k < 8 * r.buf.length
  · have here : r.pos.toNat = k / 8 := by rw [pos, min_eq_left (by omega)]
    have there : k / 8 < r.buf.length := by omega
    rw [min_eq_left (by omega)] at sub
    rw [if_neg (by omega), here, List.getElem?_eq_getElem there, List.getD_eq_getElem?_getD, List.getElem?_eq_getElem there]
    obtain ⟨ends, moves⟩ := mask_shift (k % 8) (Nat.mod_lt k (by decide))
    simp only [sub, mask_iff _ _ (Nat.mod_lt k (by decide)), Option.getD_some, ends]
    refine ⟨_, rfl, ?_⟩
    have next : min (k + 1) (8 * r.buf.length) = k + 1 := min_eq_left (by omega)
    split
    next last =>
      refine ⟨rfl, ?_, ?_⟩
      · rw [next, UInt8.toNat_add, here]
        simp
        omega
      · rw [next, show (k + 1) % 8 = 0 by omega]
        rfl
    next inner =>
      refine ⟨rfl, ?_, ?_⟩
      · rw [next, here]
        omega
      · rw [next, show (k + 1) % 8 = k % 8 + 1 by omega]
        exact moves inner
  · refine ⟨r, ?_, rfl, ?_, ?_⟩
    · rw [if_pos (by omega), List.getD_eq_getElem?_getD, List.getElem?_eq_none (by omega)]
      simp
    · rw [pos, min_eq_right (by omega), min_eq_right (by omega)]
    · rw [sub, min_eq_right (by omega), min_eq_right (by omega)]

theorem push_bit (res : UInt8) (bit : Bool) : (res <<< 1 ||| (if bit then 1 else 0)).toNat = (2 * res.toNat + bit.toNat) % 256 := by
  have all : ∀ n : Fin 256, ∀ bit : Bool, (UInt8.ofNat n <<< 1 ||| (if bit then 1 else 0)).toNat = (2 * n.val + bit.toNat) % 256 := by
    decide +kernel
  have here := all ⟨res.toNat, res.toNat_lt⟩ bit
  rwa [UInt8.ofNat_toNat] at here

theorem zero_toNat : (0 : UInt8).toNat = 0 % 256 := rfl

theorem readBits_at (at_ : r.At rbsp k) (n acc : Nat) {res : UInt8} (low : res.toNat = acc % 256) (near : k + n ≤ 2040) :
    ∃ r', r.readBits n res = .ok (UInt8.ofNat (number (bitAt rbsp) acc k n), r') ∧ r'.At rbsp (k + n) := by
  induction n generalizing r k acc res with
  | zero =>
    refine ⟨r, ?_, at_⟩
    rw [readBits, number, ← UInt8.ofNat_mod_size, ← low, UInt8.ofNat_toNat]
  | succ n ih =>
    obtain ⟨r', read, at_'⟩ := readBit_at at_ (by omega)
    have digit : (res <<< 1 ||| (if bitAt rbsp k then 1 else 0)).toNat = (2 * acc + (bitAt rbsp k).toNat) % 256 := by
      rw [push_bit, low]
      omega
    obtain ⟨r'', rest, at_''⟩ := ih at_' (2 * acc + (bitAt rbsp k).toNat) digit (by omega)
    refine ⟨r'', ?_, by rwa [show k + 1 + n = k + (n + 1) by omega] at at_''⟩
    rw [readBits, read]
    exact rest

/-- The loop stops behind the first one, or after its last turn. -/
theorem countZeros_at (at_ : r.At rbsp k) (left i : Nat) (near : k + left ≤ 2040) :
    (∃ z < left, (∀ j < z, bitAt rbsp (k + j) = false) ∧ bitAt rbsp (k + z) = true ∧
        ∃ r', r.countZeros left i = .ok (i + z, r') ∧ r'.At rbsp (k + z + 1)) ∨
      ((∀ j < left, bitAt rbsp (k + j) = false) ∧ ∃ r', r.countZeros left i = .ok (i + left, r') ∧ r'.At rbsp (k + left)) := by
  induction left generalizing r k i with
  | zero => exact .inr ⟨fun j none => absurd none (Nat.not_lt_zero j), r, rfl, at_⟩
  | succ left ih =>
    obtain ⟨r', read, at_'⟩ := readBits_at at_ 1 0 zero_toNat (by omega)
    have step : r.countZeros (left + 1) i = if bitAt rbsp k then .ok (i, r') else r'.countZeros left (i + 1) := by
      rw [countZeros, read]
      cases here : bitAt rbsp k <;> simp [number, here, bind, Except.bind]
    cases here : bitAt rbsp k with
    | true => exact .inl ⟨0, Nat.succ_pos left, fun j none => absurd none (Nat.not_lt_zero j), here, r', by rw [step, here]; rfl, at_'⟩
    | false =>
      rw [here] at step
      have shifted (j : Nat) : k + (j + 1) = k + 1 + j := by omega
      have zeros {z : Nat} (rest : ∀ j < z, bitAt rbsp (k + 1 + j) = false) : ∀ j < z + 1, bitAt rbsp (k + j) = false := by
        intro j less
        cases j with
        | zero => exact here
        | succ j => rw [shifted]; exact rest j (by omega)
      rcases ih at_' (i + 1) (by omega) with ⟨z, less, rest, one, r'', count, at_''⟩ | ⟨rest, r'', count, at_''⟩
      · refine .inl ⟨z + 1, by omega, zeros rest, by rwa [shifted], r'', ?_, by rwa [shifted]⟩
        rw [step, show i + (z + 1) = i + 1 + z by omega]
        exact count
      · refine .inr ⟨zeros rest, r'', ?_, by rwa [shifted]⟩
        rw [step, show i + (left + 1) = i + 1 + left by omega]
        exact count

theorem getUeGolomb_at (at_ : r.At rbsp k) (near : k + 65 ≤ 2040) :
    match code (bitAt rbsp) k with
    | some (value, next) => next ≤ k + 65 ∧ ∃ r', r.getUeGolomb = .ok (UInt8.ofNat value, r') ∧ r'.At rbsp next
    | none => r.getUeGolomb = .error .shift := by
  rcases countZeros_at at_ 32 0 (by omega) with ⟨z, less, zeros, one, r', count, at_'⟩ | ⟨zeros, r', count, at_'⟩
  · have found : (List.range 32).find? (fun j => bitAt rbsp (k + j)) = some z := by
      rw [List.find?_range_eq_some]
      exact ⟨one, List.mem_range.mpr less, fun j before => by rw [zeros j before]; rfl⟩
    obtain ⟨r'', read, at_''⟩ := readBits_at at_' z 0 zero_toNat (by omega)
    simp only [code, found, Option.map_some]
    refine ⟨by omega, r'', ?_, by rwa [show k + z + 1 + z = k + 2 * z + 1 by omega] at at_''⟩
    have cut : UInt8.ofNat ((UInt8.ofNat (number (bitAt rbsp) 0 (k + z + 1) z)).toNat + 2 ^ z - 1) =
        UInt8.ofNat (number (bitAt rbsp) 0 (k + z + 1) z + 2 ^ z - 1) := by
      have positive := Nat.two_pow_pos z
      apply UInt8.toNat_inj.mp
      simp only [UInt8.toNat_ofNat']
      omega
    rw [Nat.zero_add] at count
    simp only [getUeGolomb, count, read, bind, Except.bind]
    rw [if_neg (by omega), cut]
  · have none_ : (List.range 32).find? (fun j => bitAt rbsp (k + j)) = none := by
      simpa using zeros
    obtain ⟨r'', read, at_''⟩ := readBits_at at_' 32 0 zero_toNat (by omega)
    simp only [code, none_, Option.map_none]
    rw [getUeGolomb, count]
    simp only [bind, Except.bind]
    rw [Nat.zero_add, read]
    rfl

end BitstreamReader

open BitstreamReader

/-- The bits of the RBSP. -/
def rbspBits (sps : List UInt8) : Nat → Bool := bitAt (withoutEmulation sps)

theorem getSpsHighParams_eq (sps : List UInt8) :
    getSpsHighParams sps =
      match codes (rbspBits sps) with
      | some (_, chroma, luma, depth) => .ok (UInt8.ofNat chroma, UInt8.ofNat luma, UInt8.ofNat depth)
      | none => .error .shift := by
  have rbsp : extractRbsp sps 0 [] = withoutEmulation sps := by rw [extractRbsp_eq, List.nil_append, List.drop_zero]
  have start : BitstreamReader.At { buf := withoutEmulation sps } (withoutEmulation sps) 0 := ⟨rfl, by simp, by simp⟩
  obtain ⟨r, header, at_⟩ := readBits_at start 24 0 zero_toNat (by omega)
  rw [getSpsHighParams, rbsp]
  simp only [header, codes, rbspBits, bind, Except.bind, Option.bind, Nat.zero_add] at at_ ⊢
  -- each code either ends the reading with its shift or leaves the reader behind it
  have first := getUeGolomb_at at_ (by omega)
  revert first
  cases code (bitAt (withoutEmulation sps)) 24 with
  | none => exact fun fault => by simp only [fault]
  | some idCode =>
    rintro ⟨near, r, read, at_⟩
    simp only [read]
    have second := getUeGolomb_at at_ (by omega)
    revert second
    cases code (bitAt (withoutEmulation sps)) idCode.2 with
    | none => exact fun fault => by simp only [fault]
    | some chromaCode =>
      rintro ⟨near', r, read, at_⟩
      simp only [read]
      have plane : UInt8.ofNat chromaCode.1 = 3 ↔ chromaCode.1 % 256 = 3 := by
        rw [← UInt8.toNat_inj, UInt8.toNat_ofNat']
        rfl
      have skipped : ∃ res r', r.skipPlaneFlag (UInt8.ofNat chromaCode.1) = .ok (res, r') ∧
          r'.At (withoutEmulation sps) (if chromaCode.1 % 256 = 3 then chromaCode.2 + 1 else chromaCode.2) := by
        by_cases separate : chromaCode.1 % 256 = 3
        · obtain ⟨r', flag, behind⟩ := readBits_at at_ 1 0 zero_toNat (by omega)
          exact ⟨_, r', by rw [skipPlaneFlag, if_pos (plane.mpr separate), flag], by rwa [if_pos separate]⟩
        · exact ⟨_, r, if_neg fun same => separate (plane.mp same), by rwa [if_neg separate]⟩
      obtain ⟨res, r, flag, at_⟩ := skipped
      simp only [flag]
      have third := getUeGolomb_at at_ (by split <;> omega)
      revert third
      cases code (bitAt (withoutEmulation sps)) (if chromaCode.1 % 256 = 3 then chromaCode.2 + 1 else chromaCode.2) with
      | none => exact fun fault => by simp only [fault]
      | some lumaCode =>
        rintro ⟨near'', r, read, at_⟩
        simp only [read]
        have fourth := getUeGolomb_at at_ (by split at near'' <;> omega)
        revert fourth
        cases code (bitAt (withoutEmulation sps)) lumaCode.2 with
        | none => exact fun fault => by simp only [fault]
        | some depthCode =>
          rintro ⟨-, r, read, -⟩
          simp only [read]
          rfl

/-- No shift is as wide as an `int`, and no byte is read outside of the RBSP. -/
def Safe (sps : List UInt8) : Prop := ∀ fault, getSpsHighParams sps ≠ .error fault

/-- Codes below 255 come back as they were coded. -/
def Exact (sps : List UInt8) : Prop :=
  ∀ id chroma luma depth, codes (rbspBits sps) = some (id, chroma, luma, depth) → id < 255 → chroma < 255 → luma < 255 → depth < 255 →
    ∃ c l d, getSpsHighParams sps = .ok (c, l, d) ∧ c.toNat = chroma ∧ l.toNat = luma ∧ d.toNat = depth

theorem exact_of_codes (sps : List UInt8) : Exact sps := by
  intro id chroma luma depth coded _ chromaLow lumaLow depthLow
  refine ⟨_, _, _, by rw [getSpsHighParams_eq, coded], ?_, ?_, ?_⟩ <;> rw [UInt8.toNat_ofNat'] <;> omega

/-- Reading never leaves the RBSP; its shifts are defined where each code has a one among its next 32 bits. -/
theorem params_safe_exact_iff (sps : List UInt8) : (Safe sps ∧ Exact sps) ↔ (codes (rbspBits sps)).isSome := by
  refine ⟨fun ⟨safe, _⟩ => ?_, fun coded => ⟨fun fault failed => ?_, exact_of_codes sps⟩⟩
  · by_contra none_
    rw [Option.isSome_iff_ne_none, not_not] at none_
    exact safe .shift (by rw [getSpsHighParams_eq, none_])
  · obtain ⟨⟨id, chroma, luma, depth⟩, there⟩ := Option.isSome_iff_exists.mp coded
    rw [getSpsHighParams_eq, there] at failed
    cases failed

/-- Profile and level, and nothing behind them. -/
theorem not_always_safe_exact : ¬ ∀ sps, Safe sps ∧ Exact sps := by
  intro all
  have shifts : getSpsHighParams [100, 0, 31] = .error .shift := by
    have rbsp : extractRbsp [100, 0, 31] 0 [] = [100, 0, 31] := by simp [extractRbsp]
    rw [getSpsHighParams, rbsp]
    decide +kernel
  exact (all [100, 0, 31]).1 .shift shifts

end Braidcast.Output.Sps
