import Braidcast.Lib.Lists
import Braidcast.Lib.Recent
import Braidcast.OAuth.Metadata

/-!
# Most recently used rows

The half of a capped history that its stores share: the order, the cap, the stamp of a use and the
reader of stamps. A row's id and stamp stand beside what its store keeps in it.
-/
namespace Braidcast.Multistream.MruRows

open Lib OAuth

structure Row (α : Type) where
  id : String
  lastUsedAtMs : Int
  data : α

def maxInt64 : Int := 2 ^ 63 - 1

def minInt64 : Int := -(2 ^ 63)

def kMaxStampMs : Int := maxInt64 / 2

/-- What `NowMs` reads: a 64-bit count of ticks of 100 ns or less, in milliseconds. -/
structure Clock where
  ms : Int
  range : ms.natAbs ≤ 2 ^ 63 / 10000 := by decide

theorem Clock.le_kMaxStampMs (now : Clock) : now.ms ≤ kMaxStampMs := by
  have range := now.range
  simp only [kMaxStampMs, maxInt64]
  omega

/-! ### Stamps read from a file -/

/-- `std::stoll`, and `none` where it throws. -/
def stoll (text : String) : Option Int :=
  let chars := text.toList.dropWhile isSpace
  let (negative, digits) := match chars with
    | '-' :: rest => (true, rest.takeWhile Char.isDigit)
    | '+' :: rest => (false, rest.takeWhile Char.isDigit)
    | _ => (false, chars.takeWhile Char.isDigit)
  let magnitude : Nat := digits.foldl (fun n c => 10 * n + (c.toNat - '0'.toNat)) 0
  let value : Int := if negative then -magnitude else magnitude
  if digits ≠ [] ∧ minInt64 ≤ value ∧ value ≤ maxInt64 then some value else none

/-- `JsonUtil::NumLoose`. A number past the range wraps, as its conversion does. -/
def numLoose (item : Json) (key : String) (fallback : Int) : Int :=
  match objAt item key with
  | .num n => n.bmod (2 ^ 64)
  | .str text => (stoll text).getD fallback
  | _ => fallback

def readTimestamp (item : Json) (key : String) (fallback : Int) : Int :=
  let value := numLoose item key fallback
  if 0 < value then min value kMaxStampMs else fallback

theorem readTimestamp_le (item : Json) (key : String) (now : Clock) : readTimestamp item key now.ms ≤ kMaxStampMs := by
  unfold readTimestamp
  dsimp only
  split
  · exact min_le_right _ _
  · exact now.le_kMaxStampMs

/-! ### Rows -/

section

variable {α : Type} (rows : List (Row α))

def findById (id : String) : Option (Row α) := rows.find? fun row => row.id = id

def usedNowMs (now : Clock) : Int :=
  match rows with
  | [] => now.ms
  | front :: _ => max now.ms (front.lastUsedAtMs + 1)

/-- The sort is stable, and the tail past the cap is dropped. -/
def normalize (cap : Nat) : List (Row α) := (rows.insertionSort fun a b => b.lastUsedAtMs ≤ a.lastUsedAtMs).take cap

/-! ### What the stores do alike -/

/-- The first row that meets `p` is used now, and `f` changes what it keeps. -/
def markUsed (cap : Nat) (p : Row α → Bool) (f : α → α) (now : Clock) : List (Row α) :=
  normalize (modifyFirst p (fun row => { row with lastUsedAtMs := usedNowMs rows now, data := f row.data }) rows) cap

/-- A fresh row, used now. -/
def addUsed (cap : Nat) (id : String) (data : α) (now : Clock) : List (Row α) :=
  normalize (rows ++ [{ id, lastUsedAtMs := usedNowMs rows now, data }]) cap

/-- `none` where no row has the id, here and below. -/
def touch (cap : Nat) (id : String) (now : Clock) : Option (List (Row α)) :=
  (findById rows id).map fun _ => markUsed rows cap (fun row => row.id = id) (fun data => data) now

def remove (id : String) : Option (List (Row α)) := (findById rows id).map fun _ => rows.eraseP fun row => row.id = id

def rename (setName : α → α) (id : String) : Option (List (Row α)) :=
  (findById rows id).map fun _ => modifyFirst (fun row => row.id = id) (fun row => { row with data := setName row.data }) rows

end

/-! ### As steps of a history -/

section

variable {α : Type} {rows : List (Row α)} {cap : Nat} {id : String} {p : Row α → Bool} {row : Row α}

abbrev stampOf (row : Row α) : Int := row.lastUsedAtMs

abbrev Step (cap : Nat) : List (Row α) → Recent.Event (Row α) → List (Row α) → Prop := Recent.Step stampOf cap kMaxStampMs

theorem usedNowMs_eq (rows : List (Row α)) (now : Clock) : usedNowMs rows now = Recent.above stampOf now.ms rows := by
  cases rows <;> rfl

theorem normalize_eq (rows : List (Row α)) (cap : Nat) : normalize rows cap = Recent.newest stampOf cap rows := rfl

theorem markUsed_step (found : rows.find? p = some row) (cap : Nat) (f : α → α) (now : Clock) :
    Step cap rows (.use { row with lastUsedAtMs := usedNowMs rows now, data := f row.data } now.ms)
      (markUsed rows cap p f now) := by
  obtain ⟨before, after, split, changed⟩ := modifyFirst_split
    (fun row => ({ row with lastUsedAtMs := usedNowMs rows now, data := f row.data } : Row α)) found
  rw [markUsed, normalize_eq, changed]
  refine .use (usedNowMs_eq rows now) (by simp) fun other there => ?_
  rcases List.mem_append.mp there with first | later
  · exact .inr ⟨other, split ▸ List.mem_append_left _ first, rfl⟩
  · rcases List.mem_cons.mp later with same | last
    · exact .inl same
    · exact .inr ⟨other, split ▸ List.mem_append_right _ (List.mem_cons_of_mem _ last), rfl⟩

section

variable (rows)

theorem addUsed_step (cap : Nat) (id : String) (data : α) (now : Clock) :
    Step cap rows (.use { id, lastUsedAtMs := usedNowMs rows now, data } now.ms) (addUsed rows cap id data now) := by
  rw [addUsed, normalize_eq]
  refine .use (usedNowMs_eq rows now) (by simp) fun other there => ?_
  rcases List.mem_append.mp there with old | new
  · exact .inr ⟨other, old, rfl⟩
  · exact .inl (List.mem_singleton.mp new)

/-- The row that a touch uses, where there is one. -/
def touchEvent (rows : List (Row α)) (id : String) (now : Clock) : Recent.Event (Row α) :=
  match findById rows id with
  | some row => .use { row with lastUsedAtMs := usedNowMs rows now } now.ms
  | none => .quiet

theorem quiet_step (cap : Nat) : Step cap rows .quiet rows := .quiet (List.Sublist.refl _)

theorem touch_step (cap : Nat) (id : String) (now : Clock) :
    Step cap rows (touchEvent rows id now) ((touch rows cap id now).getD rows) := by
  unfold touchEvent touch
  cases found : findById rows id with
  | none => exact quiet_step rows cap
  | some row => exact markUsed_step found cap (fun data => data) now

theorem remove_step (cap : Nat) (id : String) :
    Step cap rows .quiet ((remove rows id).getD rows) := by
  unfold remove
  cases findById rows id with
  | none => exact quiet_step rows cap
  | some row => exact .quiet ((List.eraseP_sublist).map _)

theorem rename_step (cap : Nat) (setName : α → α) (id : String) :
    Step cap rows .quiet ((rename rows setName id).getD rows) := by
  unfold rename
  cases findById rows id with
  | none => exact quiet_step rows cap
  | some row =>
    have same := map_modifyFirst (p := fun row => decide (row.id = id))
      (f := fun row => ({ row with data := setName row.data } : Row α)) (g := stampOf) (fun _ => rfl) rows
    exact .quiet (same ▸ List.Sublist.refl _)

end

theorem touchEvent_now {now' : Clock} {now : Int} (used : touchEvent rows id now' = .use row now) : now ≤ kMaxStampMs := by
  unfold touchEvent at used
  split at used
  · cases used
    exact now'.le_kMaxStampMs
  · cases used

/-! ### Over a run -/

/-- The rows are ordered and capped, and what was just used is there and first. -/
structure Placed (cap : Nat) (m : Moment (List (Row α)) (Recent.Event (Row α))) : Prop where
  ordered : m.after.Pairwise fun a b => b.lastUsedAtMs ≤ a.lastUsedAtMs
  capped : m.after.length ≤ cap
  first : ∀ row now, m.input = .use row now → m.after.head? = some row

/-- The stamp of a use is computed in range. -/
def Fits (m : Moment (List (Row α)) (Recent.Event (Row α))) : Prop :=
  ∀ row now, m.input = .use row now → ∀ old ∈ m.before, old.lastUsedAtMs + 1 ≤ maxInt64

variable {ms : List (Moment (List (Row α)) (Recent.Event (Row α)))}

theorem placed_run (run : Run (Step cap) [] ms rows) (room : 0 < cap) : ∀ m ∈ ms, Placed cap m := by
  intro m member
  obtain ⟨before, after⟩ := Recent.kept_run run ⟨.nil, Nat.zero_le _⟩ m member
  refine ⟨after.ordered, after.capped, fun row now used => ?_⟩
  have step := run.step_of_mem member
  rw [used] at step
  exact step.first before room

theorem fits_run (run : Run (Step cap) [] ms rows) (clock : ∀ m ∈ ms, ∀ row now, m.input = .use row now → now ≤ kMaxStampMs)
    (few : Recent.uses ms < 2 ^ 62) : ∀ m ∈ ms, Fits m := by
  intro m member row now used old before
  have limit : old.lastUsedAtMs + 1 ≤ kMaxStampMs + Recent.uses ms :=
    Recent.bound_run run (Int.le_refl _) (fun _ absent => nomatch absent) clock m member row now used old before
  simp only [kMaxStampMs, maxInt64] at limit ⊢
  omega

end

end Braidcast.Multistream.MruRows
