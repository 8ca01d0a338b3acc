import Braidcast.Output.StartCodes

/-!
# H.264 packets

`obs_parse_avc_packet` and `obs_extract_avc_headers` of `obs-avc.c`. The start code in front of a unit has
three or four bytes; the parsed packet has the length of the unit there.
-/
namespace Braidcast.Output.Avc

open Nal

def OBS_NAL_SLICE_IDR : UInt8 := 5
def OBS_NAL_SEI : UInt8 := 6
def OBS_NAL_SPS : UInt8 := 7
def OBS_NAL_PPS : UInt8 := 8

/-- `while (nal_start < end && !*(nal_start++))`, which passes the byte that ends it. -/
def skipZeros (data : Buffer) : Nat → Nat → Option Nat
  | 0, _ => none
  | fuel + 1, nalStart =>
    if nalStart < data.length then do
      let b ← data[nalStart]?
      if b = 0 then skipZeros data fuel (nalStart + 1) else return nalStart + 1
    else some nalStart

/-- The bytes that a copy of `to - from` bytes reads. -/
def slice (data : Buffer) (i j : Nat) : Option Buffer :=
  if i ≤ j ∧ j ≤ data.length then some ((data.drop i).take (j - i)) else none

def wb16 (u16 : UInt16) : Buffer := [(u16 >>> 8).toUInt8, u16.toUInt8]

def wb32 (u32 : UInt32) : Buffer := wb16 (u32 >>> 16).toUInt16 ++ wb16 u32.toUInt16

/-- Of `encoder_packet`, what is read and written. The rest is copied. -/
structure Packet where
  data : Buffer
  keyframe : Bool
  priority : Int
  dropPriority : Int

/-- What the serializer holds, and what the two pointers point to. -/
structure Serialized where
  bytes : Buffer
  keyframe : Bool
  priority : Int

def nalType (b : UInt8) : UInt8 := b &&& 0x1F

def computeAvcKeyframePriority (b : UInt8) (isKeyframe : Bool) (priority : Int) : Bool × Int :=
  let isKeyframe := if nalType b = OBS_NAL_SLICE_IDR then true else isKeyframe
  let newPriority : Int := (b >>> 5).toNat
  (isKeyframe, if priority < newPriority then newPriority else priority)

def serializeLoop (data : Buffer) (addr : Nat) : Nat → Nat → Serialized → Option Serialized
  | 0, _, _ => none
  | fuel + 1, nalStart, s => do
    let nalStart ← skipZeros data (data.length + 1) nalStart
    if nalStart = data.length then return s
    let b ← data[nalStart]?
    let (keyframe, priority) := computeAvcKeyframePriority b s.keyframe s.priority
    -- the search begins at the unit's own first byte
    let nalEnd ← obsNalFindStartcode data addr nalStart
    let nalSize := nalEnd - nalStart
    let nal ← slice data nalStart nalEnd
    serializeLoop data addr fuel nalEnd ⟨s.bytes ++ (wb32 (UInt32.ofNat nalSize) ++ nal), keyframe, priority⟩

def serializeAvcData (data : Buffer) (addr : Nat) (s : Serialized) : Option Serialized := do
  let nalStart ← obsNalFindStartcode data addr 0
  serializeLoop data addr (data.length + 1) nalStart s

/-- The reference count in front of the bytes, a `long`. -/
def ref : Buffer := [1, 0, 0, 0]

def obsParseAvcPacket (addr : Nat) (src : Packet) : Option Packet := do
  let out ← serializeAvcData src.data addr ⟨ref, src.keyframe, src.priority⟩
  return ⟨out.bytes.drop ref.length, out.keyframe, out.priority, out.priority⟩

structure Extracted where
  newPacket : Buffer
  header : Buffer
  sei : Buffer

/-- Where the three branches push a unit. -/
def Extracted.push (out : Extracted) (type : UInt8) (piece : Buffer) : Extracted :=
  if type = OBS_NAL_SPS ∨ type = OBS_NAL_PPS then { out with header := out.header ++ piece }
  else if type = OBS_NAL_SEI then { out with sei := out.sei ++ piece }
  else { out with newPacket := out.newPacket ++ piece }

/-- `nal_end` is null before the first round, and a search never gives null. -/
def extractLoop (data : Buffer) (addr : Nat) : Nat → Nat → Option Nat → Extracted → Option Extracted
  | 0, _, _, _ => none
  | fuel + 1, nalStart, nalEnd, out =>
    if nalEnd = some data.length then some out
    else do
      let nalCodestart := nalStart
      let nalStart ← skipZeros data (data.length + 1) nalStart
      if nalStart = data.length then return out
      let b ← data[nalStart]?
      let nalEnd ← obsNalFindStartcode data addr nalStart
      let piece ← slice data nalCodestart nalEnd
      extractLoop data addr fuel nalEnd (some nalEnd) (out.push (nalType b) piece)

def obsExtractAvcHeaders (packet : Buffer) (addr : Nat) : Option Extracted := do
  let nalStart ← obsNalFindStartcode packet addr 0
  extractLoop packet addr (packet.length + 1) nalStart none ⟨[], [], []⟩

/-! ## Units and what is made of them -/

/-- A unit no start code can be seen in, wherever it stands. -/
structure NalUnit where
  bytes : Buffer
  nonempty : bytes ≠ []
  clear : ∀ i : Nat, bytes[i]? = some 0 → bytes[i + 1]? = some 0 → bytes[i + 2]? ≠ some 0 ∧ bytes[i + 2]? ≠ some 1
  ended : bytes.getLast? ≠ some 0

namespace NalUnit

variable (u : NalUnit)

def header : UInt8 := u.bytes.head u.nonempty

def type : UInt8 := nalType u.header

/-- The two bits of the header behind its first one. -/
def nalRefIdc : Nat := u.header.toNat / 2 ^ 5 % 2 ^ 2

def forbiddenZeroBit : Nat := u.header.toNat / 2 ^ 7

/-- The two together, which is what the code takes for the priority. -/
def priority : Nat := u.header.toNat / 2 ^ 5

theorem priority_eq : u.priority = 2 ^ 2 * u.forbiddenZeroBit + u.nalRefIdc := by
  rw [priority, forbiddenZeroBit, nalRefIdc]
  omega

end NalUnit

/-- A unit behind its start code, the long one or the short one. -/
structure Coded extends NalUnit where
  long : Bool

def code : Bool → Buffer
  | true => [0, 0, 0, 1]
  | false => [0, 0, 1]

def Coded.whole (u : Coded) : Buffer := code u.long ++ u.bytes

def joined (units : List Coded) : Buffer := units.flatMap Coded.whole

/-- A length in four bytes, the highest one first. -/
def bigEndian (n : Nat) : Buffer := [UInt8.ofNat (n / 2 ^ 24), UInt8.ofNat (n / 2 ^ 16), UInt8.ofNat (n / 2 ^ 8), UInt8.ofNat n]

/-- The three outputs of the extraction. -/
inductive Place
  | newPacket
  | header
  | sei
deriving DecidableEq

/-- Where a unit of a type belongs. -/
def placeOf (type : UInt8) : Place :=
  if type = OBS_NAL_SPS ∨ type = OBS_NAL_PPS then .header else if type = OBS_NAL_SEI then .sei else .newPacket

/-- The units of one place, each with its start code. -/
def gathered (units : List Coded) (place : Place) : Buffer := (units.filter fun u => placeOf u.type = place).flatMap Coded.whole

def Extracted.at (out : Extracted) : Place → Buffer
  | .newPacket => out.newPacket
  | .header => out.header
  | .sei => out.sei

def Coded.framed (u : Coded) : Buffer := bigEndian u.bytes.length ++ u.bytes

def fromBigEndian (bytes : Buffer) : Nat := bytes.foldl (fun n b => 2 ^ 8 * n + b.toNat) 0

theorem fromBigEndian_bigEndian (n : Nat) : fromBigEndian (bigEndian n) = n % 2 ^ 32 := by
  simp only [bigEndian, fromBigEndian, List.foldl_cons, List.foldl_nil, UInt8.toNat_ofNat']
  omega

theorem wb32_ofNat (n : Nat) : wb32 (UInt32.ofNat n) = bigEndian n := by
  have byte (a b : UInt8) (same : a.toNat = b.toNat) : a = b := UInt8.toNat_inj.mp same
  simp only [wb32, wb16, bigEndian, List.cons_append, List.nil_append]
  congr 1
  · apply byte
    simp [Nat.shiftRight_eq_div_pow]
    omega
  congr 1
  · apply byte
    simp [Nat.shiftRight_eq_div_pow]
    omega
  congr 1
  · apply byte
    simp [Nat.shiftRight_eq_div_pow]
    omega
  congr 1
  · apply byte
    simp

theorem shiftRight_five (b : UInt8) : (b >>> 5).toNat = b.toNat / 2 ^ 5 := by
  rw [UInt8.toNat_shiftRight, Nat.shiftRight_eq_div_pow]
  rfl

/-! ## Where the loops stand -/

variable {data : Buffer} {addr : Nat}

theorem skipZeros_zeros (z fuel : Nat) (before : Buffer) {b : UInt8} (rest : Buffer) (nonzero : b ≠ 0) (enough : z < fuel) :
    skipZeros (before ++ (List.replicate z 0 ++ b :: rest)) fuel before.length = some (before.length + z + 1) := by
  induction z generalizing before fuel with
  | zero =>
    obtain ⟨fuel, rfl⟩ : ∃ k, fuel = k + 1 := ⟨fuel - 1, by omega⟩
    rw [skipZeros, if_pos (by simp)]
    simp [nonzero]
  | succ z ih =>
    obtain ⟨fuel, rfl⟩ : ∃ k, fuel = k + 1 := ⟨fuel - 1, by omega⟩
    have next := ih fuel (before ++ [0]) (by omega)
    rw [List.length_append, List.append_assoc] at next
    rw [skipZeros, if_pos (by simp only [List.length_append, List.length_cons]; omega)]
    simp only [List.replicate_succ, List.cons_append, List.getElem?_append_right (Nat.le_refl _), Nat.sub_self,
      List.getElem?_cons_zero, Option.bind_eq_bind, Option.bind_some, if_true]
    simpa [Nat.add_comm, Nat.add_left_comm] using next

/-- The zeros and the one of a start code, which the loop passes with them. -/
theorem skipZeros_code (long : Bool) (before rest : Buffer) :
    skipZeros (before ++ (code long ++ rest)) ((before ++ (code long ++ rest)).length + 1) before.length =
      some (before.length + (code long).length) := by
  have one : (1 : UInt8) ≠ 0 := by decide
  cases long with
  | false => exact skipZeros_zeros 2 _ before rest one (by simp [code]; omega)
  | true => exact skipZeros_zeros 3 _ before rest one (by simp [code]; omega)

theorem joined_cons (u : Coded) (units : List Coded) : joined (u :: units) = code u.long ++ (u.bytes ++ joined units) := by
  rw [joined, List.flatMap_cons, Coded.whole, List.append_assoc]
  rfl

theorem getElem?_behind (front rest : Buffer) (k : Nat) : (front ++ rest)[front.length + k]? = rest[k]? := by
  rw [List.getElem?_append_right (Nat.le_add_right _ _), Nat.add_sub_cancel_left]

/-- How far behind the zero that is taken with it the three bytes of a code are. -/
def leading : List Coded → Nat
  | [] => 0
  | u :: _ => if u.long then 1 else 0

/-- Behind bytes without a start code, the first one is the one the units begin with. -/
theorem firstCode_joined {p : Nat} (front : Buffer) (units : List Coded) (within : p ≤ front.length)
    (clear : ∀ i, p ≤ i → i < front.length → ¬ CodeAt (front ++ joined units) i) :
    FirstCode (front ++ joined units) p (front.length + leading units) := by
  cases units with
  | nil =>
    have all : front ++ joined [] = front := List.append_nil front
    rw [all] at clear ⊢
    exact ⟨within, Nat.le_refl _, fun beyond => absurd beyond (Nat.lt_irrefl _), clear⟩
  | cons u units =>
    have some_bytes : 0 < u.bytes.length := List.length_pos_of_ne_nil u.nonempty
    rw [joined_cons] at clear ⊢
    cases form : u.long with
    | false =>
      rw [form] at clear
      have at_code := getElem?_behind front (code false ++ (u.bytes ++ joined units))
      rw [leading, form]
      refine ⟨within, by simp, fun _ => ⟨at_code 0, at_code 1, at_code 2, ?_⟩, clear⟩
      simp [code]
      omega
    | true =>
      rw [form] at clear
      have at_code := getElem?_behind front (code true ++ (u.bytes ++ joined units))
      rw [leading, form]
      refine ⟨Nat.le_succ_of_le within, by simp [code], fun _ => ⟨at_code 1, at_code 2, at_code 3, ?_⟩, ?_⟩
      · simp [code]
        omega
      · intro i from_p upto found
        by_cases inside : i < front.length
        · exact clear i from_p inside found
        · -- The zero that the long code begins with: two more zeros are behind it.
          obtain rfl : i = front.length := by
            simp only [if_true] at upto
            omega
          have zero : (code true ++ (u.bytes ++ joined units))[2]? = some 0 := rfl
          have third := found.third
          rw [at_code 2, zero] at third
          exact absurd third (by decide)

/-- So a search ends where the units begin, with the long code's first zero taken in. -/
theorem find_joined {p : Nat} (front : Buffer) (units : List Coded) (within : p ≤ front.length)
    (clear : ∀ i, p ≤ i → i < front.length → ¬ CodeAt (front ++ joined units) i)
    (ended : p < front.length → front.getLast? ≠ some 0) :
    obsNalFindStartcode (front ++ joined units) addr p = some front.length := by
  obtain ⟨out, first, found⟩ := obsNalFindStartcode_eq (front ++ joined units) addr p (by simp; omega)
  obtain rfl := first.unique (firstCode_joined front units within clear)
  rw [found]
  congr 1
  cases units with
  | nil => simp [leading, joined]
  | cons u units =>
    cases form : u.long with
    | false =>
      -- the byte in front of a short code ends a unit, so it is not zero
      have last : front.getLast? = (front ++ joined (u :: units))[front.length - 1]? ∨ front.length = 0 := by
        by_cases empty : front.length = 0
        · exact .inr empty
        · rw [List.getLast?_eq_getElem?, List.getElem?_append_left (by omega)]
          exact .inl rfl
      have stays : ¬ (p < front.length ∧ front.length < (front ++ joined (u :: units)).length ∧
          (front ++ joined (u :: units))[front.length - 1]? = some 0) := by
        rintro ⟨ahead, -, zero⟩
        rcases last with last | empty
        · exact ended ahead (last.trans zero)
        · omega
      simp only [leading, form, Bool.false_eq_true, if_false, Nat.add_zero]
      rw [if_neg stays]
    | true =>
      -- the zero in front of the three bytes is the long code's own
      have zero : (front ++ joined (u :: units))[front.length + 0]? = some 0 := by
        rw [joined_cons, form, getElem?_behind]
        rfl
      have inside : front.length + 1 < (front ++ joined (u :: units)).length := by
        simp [joined_cons, form, code]
      simp only [leading, form, if_true, Nat.add_sub_cancel]
      rw [if_pos ⟨Nat.lt_succ_of_le within, inside, zero⟩]

/-- No start code begins in a unit: one that did would lie in it, or its zeros would end it. -/
theorem NalUnit.no_code (u : NalUnit) (before rest : Buffer) {j : Nat} (inside : j < u.bytes.length) :
    ¬ CodeAt (before ++ (u.bytes ++ rest)) (before.length + j) := by
  intro found
  have read_in {k : Nat} (within : k < u.bytes.length) : (before ++ (u.bytes ++ rest))[before.length + k]? = u.bytes[k]? := by
    rw [getElem?_behind, List.getElem?_append_left within]
  have last_nonzero : u.bytes[u.bytes.length - 1]? ≠ some 0 := by
    rw [← List.getLast?_eq_getElem?]
    exact u.ended
  have first : u.bytes[j]? = some 0 := by
    rw [← read_in inside]
    exact found.first
  by_cases one_more : j + 1 < u.bytes.length
  · have second : u.bytes[j + 1]? = some 0 := by
      rw [← read_in one_more]
      exact found.second
    by_cases two_more : j + 2 < u.bytes.length
    · have third : u.bytes[j + 2]? = some 1 := by
        rw [← read_in two_more]
        exact found.third
      exact (u.clear j first second).2 third
    · obtain rfl : j = u.bytes.length - 2 := by omega
      apply last_nonzero
      rw [← second]
      congr 1
      omega
  · apply last_nonzero
    rw [← first]
    congr 1
    omega

/-! ## A round of the loops -/

/-- What one round finds at a unit behind `before`. -/
structure Round (data : Buffer) (addr : Nat) (before : Buffer) (u : Coded) : Prop where
  skipped : skipZeros data (data.length + 1) before.length = some (before.length + (code u.long).length)
  more : before.length + (code u.long).length ≠ data.length
  header : data[before.length + (code u.long).length]? = some u.header
  found : obsNalFindStartcode data addr (before.length + (code u.long).length) = some (before ++ u.whole).length
  read_unit : slice data (before.length + (code u.long).length) (before ++ u.whole).length = some u.bytes
  read_whole : slice data before.length (before ++ u.whole).length = some u.whole

theorem slice_behind (before piece rest : Buffer) :
    slice (before ++ (piece ++ rest)) before.length (before ++ piece).length = some piece := by
  rw [slice, if_pos (by simp only [List.length_append]; omega), List.drop_left, List.length_append, Nat.add_sub_cancel_left,
    List.take_left]

theorem round (before : Buffer) (u : Coded) (units : List Coded) : Round (before ++ joined (u :: units)) addr before u := by
  have data_eq : before ++ joined (u :: units) = (before ++ code u.long) ++ (u.bytes ++ joined units) := by
    rw [joined_cons, List.append_assoc]
  have whole_eq : before ++ u.whole = (before ++ code u.long) ++ u.bytes := by rw [Coded.whole, List.append_assoc]
  have some_bytes : 0 < u.bytes.length := List.length_pos_of_ne_nil u.nonempty
  have start : before.length + (code u.long).length = (before ++ code u.long).length := List.length_append.symm
  constructor
  · rw [joined_cons]
    exact skipZeros_code u.long before (u.bytes ++ joined units)
  · rw [data_eq]
    simp only [List.length_append]
    omega
  · rw [data_eq, start]
    have here := getElem?_behind (before ++ code u.long) (u.bytes ++ joined units) 0
    rw [Nat.add_zero] at here
    rw [here, List.getElem?_append_left some_bytes, NalUnit.header, List.head_eq_getElem]
    exact List.getElem?_eq_getElem some_bytes
  · rw [data_eq, start, whole_eq, ← List.append_assoc]
    apply find_joined
    · simp only [List.length_append]
      omega
    · intro i from_start upto
      obtain ⟨j, rfl⟩ : ∃ j, i = (before ++ code u.long).length + j := ⟨i - (before ++ code u.long).length, by omega⟩
      rw [List.append_assoc (before ++ code u.long)]
      apply u.no_code
      simp only [List.length_append] at upto ⊢
      omega
    · intro _
      rw [List.getLast?_append_of_ne_nil _ u.nonempty]
      exact u.ended
  · rw [data_eq, start, whole_eq]
    exact slice_behind (before ++ code u.long) u.bytes (joined units)
  · rw [joined, List.flatMap_cons]
    exact slice_behind before u.whole (units.flatMap Coded.whole)

theorem slice_within {i j : Nat} (rises : i ≤ j) (within : j ≤ data.length) :
    slice data i j = some ((data.drop i).take (j - i)) := if_pos ⟨rises, within⟩

theorem skipZeros_end (data : Buffer) (fuel : Nat) : skipZeros data (fuel + 1) data.length = some data.length := by
  rw [skipZeros, if_neg (Nat.lt_irrefl _)]

theorem computeAvcKeyframePriority_eq (u : NalUnit) (isKeyframe : Bool) (priority : Int) :
    computeAvcKeyframePriority u.header isKeyframe priority =
      (isKeyframe || decide (u.type = OBS_NAL_SLICE_IDR), max priority u.priority) := by
  have key : (if nalType u.header = OBS_NAL_SLICE_IDR then true else isKeyframe) =
      (isKeyframe || decide (u.type = OBS_NAL_SLICE_IDR)) := by
    by_cases idr : nalType u.header = OBS_NAL_SLICE_IDR
    · simp [NalUnit.type, idr]
    · simp [NalUnit.type, idr]
  have larger (x : Int) : (if priority < x then x else priority) = max priority x := by
    split
    · omega
    · omega
  rw [computeAvcKeyframePriority, key, shiftRight_five, larger]
  rfl

theorem serializeLoop_joined (addr : Nat) (units : List Coded) (before : Buffer) (fuel : Nat) (s : Serialized) (enough : units.length < fuel) :
    serializeLoop (before ++ joined units) addr fuel before.length s =
      some ⟨s.bytes ++ units.flatMap Coded.framed,
        s.keyframe || units.any fun u => u.type = OBS_NAL_SLICE_IDR,
        units.foldl (fun m u => max m u.priority) s.priority⟩ := by
  induction units generalizing before fuel s with
  | nil =>
    obtain ⟨fuel, rfl⟩ : ∃ k, fuel = k + 1 := ⟨fuel - 1, by omega⟩
    have all : before ++ joined [] = before := List.append_nil before
    rw [all, serializeLoop, skipZeros_end]
    simp
  | cons u units ih =>
    obtain ⟨fuel, rfl⟩ : ∃ k, fuel = k + 1 := ⟨fuel - 1, by omega⟩
    have here : Round (before ++ joined (u :: units)) addr before u := round before u units
    -- what is left are the later units behind this one
    have behind : before ++ joined (u :: units) = (before ++ u.whole) ++ joined units := by
      rw [joined, List.flatMap_cons, List.append_assoc]
      rfl
    have size : (before ++ u.whole).length - (before.length + (code u.long).length) = u.bytes.length := by
      simp only [Coded.whole, List.length_append]
      omega
    have next := ih (before ++ u.whole) fuel
      ⟨s.bytes ++ u.framed, s.keyframe || decide (u.type = OBS_NAL_SLICE_IDR), max s.priority u.priority⟩
      (Nat.lt_of_succ_lt_succ enough)
    rw [← behind] at next
    rw [serializeLoop]
    simp only [here.skipped, here.header, here.found, here.read_unit, Option.bind_eq_bind, Option.bind_some, if_neg here.more,
      computeAvcKeyframePriority_eq, size, wb32_ofNat]
    rw [Coded.framed] at next
    rw [next]
    simp [Coded.framed, Bool.or_assoc]

theorem Extracted.ext_at {a b : Extracted} (same : ∀ place, a.at place = b.at place) : a = b := by
  have newPackets : a.newPacket = b.newPacket := same .newPacket
  have headers : a.header = b.header := same .header
  have seis : a.sei = b.sei := same .sei
  cases a
  cases b
  simp_all

/-- A push adds to the place of the type, and to no other. -/
theorem Extracted.at_push (out : Extracted) (type : UInt8) (piece : Buffer) (place : Place) :
    (out.push type piece).at place = out.at place ++ if placeOf type = place then piece else [] := by
  rw [Extracted.push, placeOf]
  split
  · cases place <;> simp [Extracted.at]
  split
  · cases place <;> simp [Extracted.at]
  · cases place <;> simp [Extracted.at]

theorem gathered_cons (u : Coded) (units : List Coded) (place : Place) :
    gathered (u :: units) place = (if placeOf u.type = place then u.whole else []) ++ gathered units place := by
  by_cases here : placeOf u.type = place
  · simp [gathered, here]
  · simp [gathered, here]

theorem extractLoop_joined (addr : Nat) (units : List Coded) (before : Buffer) (fuel : Nat) (nalEnd : Option Nat) (out : Extracted)
    (reached : ∀ e ∈ nalEnd, e = before.length) (enough : units.length < fuel) :
    ∃ result, extractLoop (before ++ joined units) addr fuel before.length nalEnd out = some result ∧
      ∀ place, result.at place = out.at place ++ gathered units place := by
  induction units generalizing before fuel nalEnd out with
  | nil =>
    obtain ⟨fuel, rfl⟩ : ∃ k, fuel = k + 1 := ⟨fuel - 1, by omega⟩
    have all : before ++ joined [] = before := List.append_nil before
    refine ⟨out, ?_, fun place => (List.append_nil _).symm⟩
    rw [all, extractLoop, skipZeros_end]
    simp
  | cons u units ih =>
    obtain ⟨fuel, rfl⟩ : ∃ k, fuel = k + 1 := ⟨fuel - 1, by omega⟩
    have here : Round (before ++ joined (u :: units)) addr before u := round before u units
    have behind : before ++ joined (u :: units) = (before ++ u.whole) ++ joined units := by
      rw [joined, List.flatMap_cons, List.append_assoc]
      rfl
    -- a unit has bytes, so the last search did not end at the end
    have unfinished : nalEnd ≠ some (before ++ joined (u :: units)).length := by
      intro finished
      have size : (before ++ joined (u :: units)).length = before.length := reached _ finished
      have code_some : 0 < (code u.long).length := by
        cases u.long
        · decide
        · decide
      rw [joined_cons] at size
      simp only [List.length_append] at size
      omega
    obtain ⟨result, extracted, places⟩ := ih (before ++ u.whole) fuel (some (before ++ u.whole).length) (out.push u.type u.whole)
      (by simp) (Nat.lt_of_succ_lt_succ enough)
    rw [← behind] at extracted
    refine ⟨result, ?_, fun place => ?_⟩
    · rw [extractLoop, if_neg unfinished]
      simp only [here.skipped, here.header, here.found, here.read_whole, Option.bind_eq_bind, Option.bind_some, if_neg here.more]
      exact extracted
    · rw [places, Extracted.at_push, gathered_cons, List.append_assoc]

/-! ## Any bytes -/

theorem skipZeros_ends (data : Buffer) (fuel p : Nat) (within : p ≤ data.length) (enough : data.length - p < fuel) :
    ∃ q, skipZeros data fuel p = some q ∧ p ≤ q ∧ q ≤ data.length ∧ (p < data.length → p < q) := by
  induction fuel generalizing p with
  | zero => exact absurd enough (Nat.not_lt_zero _)
  | succ fuel ih =>
    rw [skipZeros]
    split
    next inside =>
      rw [List.getElem?_eq_getElem inside]
      by_cases zero : data[p] = 0
      · obtain ⟨q, found, past, upto, -⟩ := ih (p + 1) inside (by omega)
        exact ⟨q, by simpa [zero] using found, Nat.le_of_succ_le past, upto, fun _ => past⟩
      · exact ⟨p + 1, by simp [zero], Nat.le_succ p, inside, fun _ => Nat.lt_succ_self p⟩
    next ended => exact ⟨p, rfl, Nat.le_refl p, within, fun inside => absurd inside ended⟩

theorem find_ends (data : Buffer) (addr p : Nat) (within : p ≤ data.length) :
    ∃ r, obsNalFindStartcode data addr p = some r ∧ p ≤ r ∧ r ≤ data.length := by
  obtain ⟨out, first, found⟩ := obsNalFindStartcode_eq data addr p within
  have after := first.after
  have upto := first.upto
  refine ⟨_, found, ?_⟩
  split
  next back => omega
  · exact ⟨after, upto⟩

/-- A round that is not the last one gets further, and reads inside the buffer. -/
theorem round_ends (data : Buffer) (addr p : Nat) (within : p ≤ data.length) :
    ∃ q, skipZeros data (data.length + 1) p = some q ∧ p ≤ q ∧ (q ≠ data.length →
      ∃ b r, data[q]? = some b ∧ obsNalFindStartcode data addr q = some r ∧ p < r ∧ q ≤ r ∧ r ≤ data.length) := by
  obtain ⟨q, skipped, past, upto, further⟩ := skipZeros_ends data (data.length + 1) p within (by omega)
  refine ⟨q, skipped, past, fun more => ?_⟩
  obtain ⟨b, here⟩ := Nal.read data q (by omega)
  obtain ⟨r, found, after, inside⟩ := find_ends data addr q upto
  have ahead : p < q := further (by omega)
  exact ⟨b, r, here, found, Nat.lt_of_lt_of_le ahead after, after, inside⟩

theorem serializeLoop_ends (addr fuel p : Nat) (s : Serialized) (within : p ≤ data.length) (enough : data.length - p < fuel) :
    (serializeLoop data addr fuel p s).isSome = true := by
  induction fuel generalizing p s with
  | zero => exact absurd enough (Nat.not_lt_zero _)
  | succ fuel ih =>
    obtain ⟨q, skipped, _, further⟩ := round_ends data addr p within
    rw [serializeLoop]
    simp only [skipped, Option.bind_eq_bind, Option.bind_some]
    split
    · rfl
    next more =>
      obtain ⟨b, r, here, found, ahead, after, inside⟩ := further more
      simp only [here, found, slice_within after inside, Option.bind_some]
      exact ih r _ inside (by omega)

theorem extractLoop_ends (addr fuel p : Nat) (nalEnd : Option Nat) (out : Extracted) (within : p ≤ data.length)
    (enough : data.length - p < fuel) : (extractLoop data addr fuel p nalEnd out).isSome = true := by
  induction fuel generalizing p nalEnd out with
  | zero => exact absurd enough (Nat.not_lt_zero _)
  | succ fuel ih =>
    obtain ⟨q, skipped, _, further⟩ := round_ends data addr p within
    rw [extractLoop]
    split
    · rfl
    simp only [skipped, Option.bind_eq_bind, Option.bind_some]
    split
    · rfl
    next more =>
      obtain ⟨b, r, here, found, ahead, after, inside⟩ := further more
      simp only [here, found, slice_within (Nat.le_of_lt ahead) inside, Option.bind_some]
      exact ih r _ _ inside (by omega)

/-! ## The packets -/

theorem units_le_length (units : List Coded) : units.length ≤ (joined units).length := by
  induction units with
  | nil => exact Nat.le_refl _
  | cons u units ih =>
    have some_bytes : 0 < u.bytes.length := List.length_pos_of_ne_nil u.nonempty
    simp only [joined_cons, List.length_append, List.length_cons]
    omega

/-- The first search of both ends where the units begin. -/
theorem find_first (units : List Coded) : obsNalFindStartcode (joined units) addr 0 = some 0 :=
  find_joined [] units (Nat.le_refl 0) (fun _ _ upto => absurd upto (Nat.not_lt_zero _)) (fun ahead => absurd ahead (Nat.lt_irrefl 0))

theorem parse_joined (addr : Nat) (units : List Coded) (keyframe : Bool) (priority dropPriority : Int) :
    obsParseAvcPacket addr ⟨joined units, keyframe, priority, dropPriority⟩ =
      some ⟨units.flatMap Coded.framed,
        keyframe || units.any fun u => u.type = OBS_NAL_SLICE_IDR,
        units.foldl (fun m u => max m u.priority) priority,
        units.foldl (fun m u => max m u.priority) priority⟩ := by
  have enough : units.length < (joined units).length + 1 := Nat.lt_succ_of_le (units_le_length units)
  have looped := serializeLoop_joined addr units [] _ ⟨ref, keyframe, priority⟩ enough
  rw [List.nil_append] at looped
  simp only [obsParseAvcPacket, serializeAvcData, find_first, Option.bind_eq_bind, Option.bind_some]
  rw [show (0 : Nat) = ([] : Buffer).length from rfl, looped]
  simp

theorem extract_joined (addr : Nat) (units : List Coded) :
    obsExtractAvcHeaders (joined units) addr = some ⟨gathered units .newPacket, gathered units .header, gathered units .sei⟩ := by
  have enough : units.length < (joined units).length + 1 := Nat.lt_succ_of_le (units_le_length units)
  obtain ⟨result, extracted, places⟩ := extractLoop_joined addr units [] _ none ⟨[], [], []⟩ (fun _ e => nomatch e) enough
  rw [List.nil_append] at extracted
  have all : result = ⟨gathered units .newPacket, gathered units .header, gathered units .sei⟩ := by
    apply Extracted.ext_at
    intro place
    rw [places]
    cases place
    · rfl
    · rfl
    · rfl
  simp only [obsExtractAvcHeaders, find_first, Option.bind_eq_bind, Option.bind_some]
  rw [← all, ← extracted]
  rfl

theorem parse_ends (addr : Nat) (src : Packet) : (obsParseAvcPacket addr src).isSome = true := by
  obtain ⟨p, found, _, within⟩ := find_ends src.data addr 0 (Nat.zero_le _)
  have looped := serializeLoop_ends addr (src.data.length + 1) p ⟨ref, src.keyframe, src.priority⟩ within (by omega)
  obtain ⟨s, serialized⟩ := Option.isSome_iff_exists.mp looped
  simp only [obsParseAvcPacket, serializeAvcData, found, serialized, Option.bind_eq_bind, Option.bind_some]
  rfl

theorem extract_ends (addr : Nat) (packet : Buffer) : (obsExtractAvcHeaders packet addr).isSome = true := by
  obtain ⟨p, found, _, within⟩ := find_ends packet addr 0 (Nat.zero_le _)
  simp only [obsExtractAvcHeaders, found, Option.bind_eq_bind, Option.bind_some]
  exact extractLoop_ends addr (packet.length + 1) p none ⟨[], [], []⟩ within (by omega)

/-- Units behind start codes are framed by their lengths and sorted without loss, and any bytes are gone
through to their end. The priority is the whole of the three bits that the reference count is two of. -/
theorem units_reframed (addr : Nat) (units : List Coded) (keyframe : Bool) (priority dropPriority : Int) (src : Packet) :
    (∃ out, obsParseAvcPacket addr ⟨joined units, keyframe, priority, dropPriority⟩ = some out ∧
        out.data = units.flatMap Coded.framed ∧
        (out.keyframe = true ↔ keyframe = true ∨ ∃ u ∈ units, u.type = OBS_NAL_SLICE_IDR) ∧
        out.priority = units.foldl (fun (m : Int) u => max m (2 ^ 2 * u.forbiddenZeroBit + u.nalRefIdc : Nat)) priority ∧
        out.dropPriority = out.priority) ∧
      obsExtractAvcHeaders (joined units) addr = some ⟨gathered units .newPacket, gathered units .header, gathered units .sei⟩ ∧
      (obsParseAvcPacket addr src).isSome = true ∧ (obsExtractAvcHeaders src.data addr).isSome = true := by
  refine ⟨⟨_, parse_joined addr units keyframe priority dropPriority, rfl, by simp, ?_, rfl⟩, extract_joined addr units,
    parse_ends addr src, extract_ends addr src.data⟩
  simp only [← NalUnit.priority_eq]

/-- A unit whose first bit is set, with all three of them set. -/
def reserved : Coded where
  bytes := [0xE5]
  nonempty := by decide
  clear i first second := by
    cases i with
    | zero => exact absurd second (by decide)
    | succ i => exact absurd first (by simp)
  ended := by decide
  long := false

/-- So the priority is not the reference count of any bytes that can stand in a unit. -/
theorem not_always_ref_idc :
    ¬ ∀ (addr : Nat) (units : List Coded) (keyframe : Bool) (priority dropPriority : Int),
      (obsParseAvcPacket addr ⟨joined units, keyframe, priority, dropPriority⟩).map Packet.priority =
        some (units.foldl (fun m u => max m u.nalRefIdc) priority) := by
  intro always
  exact absurd (always 0 [reserved] false 0 0) (by decide)

end Braidcast.Output.Avc
