import Mathlib.Data.Rat.Floor
import Braidcast.Schedule.Store

/-!
# The calendar's layout

`layout.ts`: which planned entries are double-booked, and the columns of a day.
-/
namespace Braidcast.Schedule.Layout

def MS_MIN : Int := 60000

structure ScheduleEntryInfo where
  id : String
  startsAt : Int
  title : String
  durationMin : Int
  state : ScheduleState
  /-- The profile ids. -/
  destinations : List String

def LIVE_STATES : List ScheduleState := [.planned, .armed, .live]

def entryEnd (entry : ScheduleEntryInfo) : Int := entry.startsAt + max 1 entry.durationMin * MS_MIN

structure Conflict where
  others : List String
  profileIds : List String

/-- The `Map` that is returned. -/
abbrev Conflicts := String → Option Conflict

def titleShown (entry : ScheduleEntryInfo) : String := if entry.title = "" then "Untitled stream" else entry.title

def addMissing (ids shared : List String) : List String := shared.foldl (fun ids p => if p ∈ ids then ids else ids ++ [p]) ids

def record (a b : ScheduleEntryInfo) (shared : List String) (out : Conflicts) : Conflicts :=
  Function.update out a.id <| some <|
    match out a.id with
    | some found => { others := found.others ++ [titleShown b], profileIds := addMissing found.profileIds shared }
    | none => { others := [titleShown b], profileIds := shared }

/-- The inner loop, `a` against those behind it. -/
def against (a : ScheduleEntryInfo) : List ScheduleEntryInfo → Conflicts → Conflicts
  | [], out => out
  | b :: rest, out =>
    if b.startsAt ≥ entryEnd a then out
    else
      let shared := b.destinations.filter (· ∈ a.destinations)
      against a rest (if shared ≠ [] then record b a shared (record a b shared out) else out)

def eachAgainst : List ScheduleEntryInfo → Conflicts → Conflicts
  | [], out => out
  | a :: rest, out => eachAgainst rest (against a rest out)

def isOpen (nowMs : Int) (entry : ScheduleEntryInfo) : Bool := entry.state ∈ LIVE_STATES && entryEnd entry > nowMs

def destinationConflicts (entries : List ScheduleEntryInfo) (nowMs : Int) : Conflicts :=
  eachAgainst ((entries.filter (isOpen nowMs)).mergeSort fun a b => a.startsAt ≤ b.startsAt) fun _ => none

/-! ### Double bookings -/

/-- Each with every other, both ways. -/
def withOthers {α : Type} : List α → List (α × α)
  | [] => []
  | a :: rest => rest.flatMap (fun b => [(a, b), (b, a)]) ++ withOthers rest

/-- They overlap and share a profile. -/
def Collides (m : ScheduleEntryInfo × ScheduleEntryInfo) : Prop :=
  m.1.startsAt < entryEnd m.2 ∧ m.2.startsAt < entryEnd m.1 ∧ ∃ p ∈ m.1.destinations, p ∈ m.2.destinations

instance : DecidablePred Collides := fun _ => inferInstanceAs (Decidable (_ ∧ _ ∧ _))

/-- The double bookings among the entries. -/
def bookings (entries : List ScheduleEntryInfo) (nowMs : Int) : List (ScheduleEntryInfo × ScheduleEntryInfo) :=
  ((withOthers entries).filter fun m => isOpen nowMs m.1 && isOpen nowMs m.2).filter (Collides ·)

/-- A conflict is reported when there are collisions, each with its title, and the ids are those shared. -/
def Tells (conflict : Option Conflict) (collisions : List (ScheduleEntryInfo × ScheduleEntryInfo)) : Prop :=
  match conflict with
  | none => collisions = []
  | some c => collisions ≠ [] ∧ c.others.Perm (collisions.map (titleShown ·.2)) ∧
    ∀ p, p ∈ c.profileIds ↔ ∃ m ∈ collisions, p ∈ m.1.destinations ∧ p ∈ m.2.destinations

/-- The map tells the collisions of every entry. -/
def Told (out : Conflicts) (collisions : List (ScheduleEntryInfo × ScheduleEntryInfo)) : Prop :=
  ∀ id, Tells (out id) (collisions.filter (·.1.id = id))

variable {α : Type} {a b : ScheduleEntryInfo} {entries : List ScheduleEntryInfo} {out : Conflicts}
  {found collisions : List (ScheduleEntryInfo × ScheduleEntryInfo)}

theorem withOthers_perm {xs ys : List α} (perm : xs.Perm ys) : (withOthers xs).Perm (withOthers ys) := by
  induction perm with
  | nil => exact .rfl
  | cons a perm ih => exact (perm.flatMap_right _).append ih
  | swap a b rest =>
    simp only [withOthers, List.flatMap_cons, List.append_assoc]
    exact ((List.Perm.swap _ _ []).append (List.perm_append_comm_assoc ..))
  | trans _ _ first later => exact first.trans later

theorem withOthers_filter (p : α → Bool) (xs : List α) :
    withOthers (xs.filter p) = (withOthers xs).filter fun m => p m.1 && p m.2 := by
  have one (a : α) (xs : List α) (kept : p a = true) : (xs.filter p).flatMap (fun b => [(a, b), (b, a)]) =
      (xs.flatMap fun b => [(a, b), (b, a)]).filter fun m => p m.1 && p m.2 := by
    induction xs with
    | nil => rfl
    | cons b xs ih => by_cases keeps : p b = true <;> simp [kept, keeps, ih]
  induction xs with
  | nil => rfl
  | cons a xs ih =>
    rw [withOthers, List.filter_append, ← ih]
    by_cases kept : p a = true
    · rw [List.filter_cons_of_pos kept, withOthers, one a xs kept]
    · have none_ : (xs.flatMap fun b => [(a, b), (b, a)]).filter (fun m => p m.1 && p m.2) = [] := by
        rw [List.filter_eq_nil_iff]
        grind
      rw [List.filter_cons_of_neg kept, none_, List.nil_append]

theorem swap_mem_withOthers {xs : List α} {m : α × α} (member : m ∈ withOthers xs) : m.swap ∈ withOthers xs := by
  induction xs with
  | nil => cases member
  | cons a xs ih =>
    rcases List.mem_append.mp member with here | later
    · obtain ⟨b, there, same⟩ := List.mem_flatMap.mp here
      refine List.mem_append_left _ (List.mem_flatMap.mpr ⟨b, there, ?_⟩)
      rcases List.mem_pair.mp same with rfl | rfl <;> simp
    · exact List.mem_append_right _ (ih later)

theorem mem_addMissing {ids shared : List String} {p : String} : p ∈ addMissing ids shared ↔ p ∈ ids ∨ p ∈ shared := by
  induction shared generalizing ids with
  | nil => simp [addMissing]
  | cons q shared ih =>
    rw [addMissing, List.foldl_cons, ← addMissing, ih]
    split <;> grind

theorem Tells.perm {conflict : Option Conflict} (tells : Tells conflict found) (perm : found.Perm collisions) : Tells conflict collisions := by
  cases conflict with
  | none => exact List.perm_nil.mp (tells ▸ perm.symm)
  | some c =>
    obtain ⟨some, others, ids⟩ := tells
    exact ⟨fun none => some (List.perm_nil.mp (none ▸ perm)), others.trans (perm.map _), fun p => by simp only [ids, perm.mem_iff]⟩

/-- One more collision told. -/
theorem told_record (told : Told out found) {shared : List String} (both : ∀ p, p ∈ shared ↔ p ∈ a.destinations ∧ p ∈ b.destinations) :
    Told (record a b shared out) (found ++ [(a, b)]) := by
  intro id
  have before := told id
  rw [List.filter_append]
  by_cases own : a.id = id
  · subst own
    rw [record, Function.update_self]
    simp only [decide_true, List.filter_cons_of_pos, List.filter_nil]
    cases there : out a.id with
    | none =>
      rw [there] at before
      rw [show found.filter (·.1.id = a.id) = [] from before]
      exact ⟨List.cons_ne_nil _ _, .rfl, by simp [both]⟩
    | some c =>
      rw [there] at before
      obtain ⟨-, others, ids⟩ := before
      refine ⟨by simp, ?_, fun p => ?_⟩
      · rw [List.map_append]
        exact others.append_right _
      · rw [mem_addMissing, ids, both]
        simp only [List.mem_append, List.mem_singleton, or_and_right, exists_or, exists_eq_left]
  · rw [record, Function.update_of_ne (Ne.symm own), List.filter_cons_of_neg (by simpa using own), List.filter_nil, List.append_nil]
    exact before

/-- The loop stops where no later entry can collide any more, and tells every collision before. -/
theorem told_against {rest : List ScheduleEntryInfo} (told : Told out found) (behind : ∀ b ∈ rest, a.startsAt ≤ b.startsAt)
    (sorted : rest.Pairwise (·.startsAt ≤ ·.startsAt)) :
    Told (against a rest out) (found ++ (rest.flatMap fun b => [(a, b), (b, a)]).filter (Collides ·)) := by
  have positive (e : ScheduleEntryInfo) : e.startsAt < entryEnd e := by
    unfold entryEnd MS_MIN
    omega
  have swaps (b : ScheduleEntryInfo) : Collides (b, a) ↔ Collides (a, b) := by
    unfold Collides
    grind
  induction rest generalizing out found with
  | nil => simpa [against] using told
  | cons b rest ih =>
    obtain ⟨first, sorted⟩ := List.pairwise_cons.mp sorted
    unfold against
    split
    next past =>
      have none_ : ((b :: rest).flatMap fun b => [(a, b), (b, a)]).filter (Collides ·) = [] := by
        rw [List.filter_eq_nil_iff]
        intro m member
        obtain ⟨c, there, same⟩ := List.mem_flatMap.mp member
        have late : entryEnd a ≤ c.startsAt := by
          rcases List.mem_cons.mp there with rfl | later
          · exact past
          · exact past.le.trans (first c later)
        have apart : ¬ Collides (a, c) := fun collides => absurd collides.2.1 (by simpa using late)
        rcases List.mem_pair.mp same with rfl | rfl
        · simpa using apart
        · simpa [swaps] using apart
      rw [none_, List.append_nil]
      exact told
    next before =>
      have overlap : a.startsAt < entryEnd b ∧ b.startsAt < entryEnd a :=
        ⟨(behind b List.mem_cons_self).trans_lt (positive b), by simpa using before⟩
      have shares (p : String) : p ∈ b.destinations.filter (· ∈ a.destinations) ↔ p ∈ a.destinations ∧ p ∈ b.destinations := by
        rw [List.mem_filter, decide_eq_true_eq, and_comm]
      rw [List.flatMap_cons, List.filter_append, ← List.append_assoc]
      refine ih ?_ (fun c later => behind c (List.mem_cons_of_mem _ later)) sorted
      by_cases none_ : b.destinations.filter (· ∈ a.destinations) = []
      · have apart : ¬ Collides (a, b) := fun ⟨_, _, p, inA, inB⟩ =>
          absurd ((shares p).mpr ⟨inA, inB⟩) (none_ ▸ List.not_mem_nil)
        rw [if_neg (not_not.mpr none_)]
        simpa [swaps, apart] using told
      · obtain ⟨p, member⟩ := List.exists_mem_of_ne_nil _ none_
        have collides : Collides (a, b) := ⟨overlap.1, overlap.2, p, (shares p).mp member⟩
        rw [if_pos none_]
        have both := told_record (told_record told shares) fun p => (shares p).trans and_comm
        simpa [swaps, collides] using both

theorem told_eachAgainst (told : Told out found) (sorted : entries.Pairwise (·.startsAt ≤ ·.startsAt)) :
    Told (eachAgainst entries out) (found ++ (withOthers entries).filter (Collides ·)) := by
  induction entries generalizing out found with
  | nil => simpa [eachAgainst, withOthers] using told
  | cons a rest ih =>
    obtain ⟨behind, sorted⟩ := List.pairwise_cons.mp sorted
    rw [eachAgainst, withOthers, List.filter_append, ← List.append_assoc]
    exact ih (told_against told behind sorted) sorted

/-- Every double booking is reported, under both ids, and nothing else. -/
theorem double_bookings_reported (entries : List ScheduleEntryInfo) (nowMs : Int) :
    Told (destinationConflicts entries nowMs) (bookings entries nowMs) ∧ ∀ m ∈ bookings entries nowMs, m.swap ∈ bookings entries nowMs := by
  constructor
  · intro id
    have sorted : ((entries.filter (isOpen nowMs)).mergeSort fun a b => a.startsAt ≤ b.startsAt).Pairwise fun a b =>
        decide (a.startsAt ≤ b.startsAt) = true :=
      List.pairwise_mergeSort (fun a b c => by simpa using le_trans) (fun a b => by simpa using le_total _ _) _
    have nothing : Told (fun _ => none) [] := fun _ => rfl
    have told := told_eachAgainst nothing (sorted.imp of_decide_eq_true)
    refine (told id).perm (.filter _ ?_)
    rw [List.nil_append, bookings, ← withOthers_filter]
    exact (withOthers_perm (List.mergeSort_perm ..)).filter _
  · intro m member
    simp only [bookings, List.mem_filter, Bool.and_eq_true] at member ⊢
    refine ⟨⟨swap_mem_withOthers member.1.1, member.1.2.symm⟩, ?_⟩
    have ⟨first, second, p, inA, inB⟩ := of_decide_eq_true member.2
    exact decide_eq_true ⟨second, first, p, inB, inA⟩

/-! ### The columns of a day -/

def MINUTES_PER_DAY : ℚ := 1440

def HOUR_PX : ℚ := 44

def MIN_BLOCK_PX : ℚ := 20

def MIN_LAYOUT_MIN : ℚ := MIN_BLOCK_PX / HOUR_PX * 60

/-- What `Date` says in the user's time zone. -/
structure LocalTime where
  addDays : Int → Int → Int
  calendarDay : Int → Int
  getHours : Int → Int
  getMinutes : Int → Int
  getSeconds : Int → Int

structure CalendarItem where
  key : String
  start : Int
  end_ : Int

structure DaySegment where
  key : String
  item : CalendarItem
  topMin : ℚ
  endMin : ℚ
  col : Nat := 0
  cols : Nat := 1
  continuesBefore : Bool
  continuesAfter : Bool

def LocalTime.minutesInto (t : LocalTime) (dayStart ms : Int) : ℚ :=
  let clock : ℚ := t.getHours ms * 60 + t.getMinutes ms + t.getSeconds ms / 60
  ⌊(t.calendarDay ms - t.calendarDay dayStart) * MINUTES_PER_DAY + clock + 1 / 2⌋

def clampToDay (minutes : ℚ) : ℚ := min (max minutes 0) MINUTES_PER_DAY

def clip (t : LocalTime) (items : List CalendarItem) (dayStart : Int) : List DaySegment :=
  let dayEnd := t.addDays dayStart 1
  let clipped := (items.filter fun i => i.start < dayEnd && i.end_ > dayStart).map fun i => {
    key := i.key
    item := i
    topMin := clampToDay (t.minutesInto dayStart i.start)
    endMin := clampToDay (t.minutesInto dayStart i.end_)
    continuesBefore := i.start < dayStart
    continuesAfter := i.end_ > dayEnd : DaySegment }
  clipped.mergeSort fun a b => a.topMin < b.topMin || a.topMin = b.topMin && b.endMin ≤ a.endMin

def DaySegment.layoutEnd (seg : DaySegment) : ℚ := max seg.endMin (seg.topMin + MIN_LAYOUT_MIN)

/-- The loop's state, and the clusters it has closed. -/
structure Packing where
  closed : List (List DaySegment) := []
  cluster : List DaySegment := []
  colEnds : List ℚ := []

namespace Packing

variable (p : Packing)

def closeCluster : Packing := { closed := p.closed ++ [p.cluster.map fun seg => { seg with cols := p.colEnds.length }] }

/-- Into the first column that is free, or a new one. -/
def intoColumn (seg : DaySegment) : Packing :=
  let col := p.colEnds.findIdx (· ≤ seg.topMin)
  { p with
    cluster := p.cluster ++ [{ seg with col }]
    colEnds := if col = p.colEnds.length then p.colEnds ++ [seg.layoutEnd] else p.colEnds.set col seg.layoutEnd }

def place (seg : DaySegment) : Packing :=
  (if p.cluster.length > 0 && p.colEnds.all (· ≤ seg.topMin) then p.closeCluster else p).intoColumn seg

end Packing

def packed (t : LocalTime) (items : List CalendarItem) (dayStart : Int) : List (List DaySegment) :=
  ((clip t items dayStart).foldl Packing.place {}).closeCluster.closed

def daySegments (t : LocalTime) (items : List CalendarItem) (dayStart : Int) : List DaySegment := (packed t items dayStart).flatten

namespace DaySegment

/-- What is drawn of the segment is there at this minute. -/
def Covers (x : ℚ) (seg : DaySegment) : Prop := seg.topMin ≤ x ∧ x < seg.layoutEnd

instance (x : ℚ) : DecidablePred (Covers x) := fun _ => inferInstanceAs (Decidable (_ ∧ _))

def Overlaps (a b : DaySegment) : Prop := a.topMin < b.layoutEnd ∧ b.topMin < a.layoutEnd

end DaySegment

open DaySegment Packing

/-- Any two segments of a cluster are linked by overlaps within it. -/
def Linked (cluster : List DaySegment) : Prop :=
  ∀ a ∈ cluster, ∀ b ∈ cluster, Relation.ReflTransGen (fun a b => a ∈ cluster ∧ b ∈ cluster ∧ a.Overlaps b) a b

/-- A cluster in as many columns as there are segments at its fullest minute. -/
structure Tight (cluster : List DaySegment) : Prop where
  linked : Linked cluster
  apart : cluster.Pairwise fun a b => a.Overlaps b → a.col ≠ b.col
  within : ∀ seg ∈ cluster, seg.col < seg.cols
  fullest : ∀ seg ∈ cluster, IsGreatest (Set.range fun x => (cluster.filter (Covers x ·)).length) seg.cols

/-- The cluster that is being built: each column ends with its last segment, and there was a minute that took all of them. -/
structure Columns (cluster : List DaySegment) (colEnds : List ℚ) : Prop where
  linked : Linked cluster
  apart : cluster.Pairwise fun a b => a.Overlaps b → a.col ≠ b.col
  ends : ∀ seg ∈ cluster, ∃ e, colEnds[seg.col]? = some e ∧ seg.layoutEnd ≤ e
  last : ∀ col e, colEnds[col]? = some e → ∃ seg ∈ cluster, seg.col = col ∧ seg.layoutEnd = e
  full : ∃ x, colEnds.length ≤ (cluster.filter (Covers x ·)).length

variable {seg : DaySegment} {cluster : List DaySegment} {colEnds : List ℚ} {col : Nat}

theorem layoutEnd_after (seg : DaySegment) : seg.topMin < seg.layoutEnd :=
  lt_max_of_lt_right (lt_add_of_pos_right _ (by norm_num [MIN_LAYOUT_MIN, MIN_BLOCK_PX, HOUR_PX]))

theorem Overlaps.symm {a b : DaySegment} (overlaps : a.Overlaps b) : b.Overlaps a := ⟨overlaps.2, overlaps.1⟩

theorem linked_append (linked : Linked cluster) (reaches : ∀ a ∈ cluster, ∃ b ∈ cluster, b.Overlaps seg) : Linked (cluster ++ [seg]) := by
  have grows {a b : DaySegment} (there : a ∈ cluster) (there' : b ∈ cluster) :
      Relation.ReflTransGen (fun a b => a ∈ cluster ++ [seg] ∧ b ∈ cluster ++ [seg] ∧ a.Overlaps b) a b :=
    (linked a there b there').lift id fun _ _ ⟨x, y, overlaps⟩ => ⟨List.mem_append_left _ x, List.mem_append_left _ y, overlaps⟩
  have new : seg ∈ cluster ++ [seg] := List.mem_append_right _ List.mem_cons_self
  intro a inA b inB
  rcases List.mem_append.mp inA with oldA | newA <;> rcases List.mem_append.mp inB with oldB | newB
  · exact grows oldA oldB
  · obtain ⟨m, there, overlaps⟩ := reaches a oldA
    rw [List.mem_singleton.mp newB]
    exact (grows oldA there).tail ⟨List.mem_append_left _ there, new, overlaps⟩
  · obtain ⟨m, there, overlaps⟩ := reaches b oldB
    rw [List.mem_singleton.mp newA]
    exact (grows there oldB).head ⟨new, List.mem_append_left _ there, overlaps.symm⟩
  · rw [List.mem_singleton.mp newA, List.mem_singleton.mp newB]

theorem column_at {e : ℚ} (least : col ≤ colEnds.length) (k : Nat) :
    (if col = colEnds.length then colEnds ++ [e] else colEnds.set col e)[k]? = if k = col then some e else colEnds[k]? := by
  split <;> grind

/-- As many as there are columns, if each has one. -/
theorem length_of_columns {segs : List DaySegment} {n : Nat} (each : ∀ k < n, ∃ seg ∈ segs, seg.col = k) : n ≤ segs.length := by
  have inside : List.range n ⊆ segs.map (·.col) := fun k member => List.mem_map.mpr (each k (List.mem_range.mp member))
  simpa using List.Nodup.length_le_of_subset List.nodup_range inside

theorem Columns.intoColumn {p : Packing} (columns : Columns p.cluster p.colEnds) (begun : ∀ s ∈ p.cluster, s.topMin ≤ seg.topMin)
    (joins : ∀ s ∈ p.cluster, ∃ e ∈ p.colEnds, seg.topMin < e) :
    Columns (p.intoColumn seg).cluster (p.intoColumn seg).colEnds := by
  obtain ⟨linked, apart, ends, last, x, full⟩ := columns
  have after := layoutEnd_after seg
  unfold Packing.intoColumn
  dsimp only
  generalize place : p.colEnds.findIdx (· ≤ seg.topMin) = col
  have least : col ≤ p.colEnds.length := place ▸ List.findIdx_le_length
  have free : ∀ e, p.colEnds[col]? = some e → e ≤ seg.topMin := by
    intro e here
    obtain ⟨within, same⟩ := List.getElem?_eq_some_iff.mp here
    subst place
    have least := List.findIdx_getElem (w := within)
    exact same ▸ of_decide_eq_true least
  refine ⟨linked_append linked fun s member => ?_, ?_, fun s member => ?_, fun k e here => ?_, ?_⟩
  · obtain ⟨e, there, later⟩ := joins s member
    obtain ⟨k, here⟩ := List.mem_iff_getElem?.mp there
    obtain ⟨m, inside, -, same⟩ := last k e here
    exact ⟨m, inside, (begun m inside).trans_lt after, same ▸ later⟩
  · refine List.pairwise_append.mpr ⟨apart, List.pairwise_singleton _ _, fun a old b new overlaps same => ?_⟩
    rw [List.mem_singleton.mp new] at overlaps same
    obtain ⟨e, here, ends⟩ := ends a old
    rw [same] at here
    exact absurd overlaps.2 (not_lt.mpr (ends.trans (free e here)))
  · rw [column_at least]
    rcases List.mem_append.mp member with old | new
    · obtain ⟨e, here, ends⟩ := ends s old
      split
      next same => exact ⟨_, rfl, (ends.trans (free e (same ▸ here))).trans after.le⟩
      next => exact ⟨e, here, ends⟩
    · rw [List.mem_singleton.mp new, if_pos rfl]
      exact ⟨_, rfl, le_rfl⟩
  · rw [column_at least] at here
    split at here
    next same => exact ⟨_, List.mem_append_right _ List.mem_cons_self, same.symm, Option.some.inj here⟩
    next =>
      obtain ⟨m, inside, same, ends⟩ := last k e here
      exact ⟨m, List.mem_append_left _ inside, same, ends⟩
  · split
    next new =>
      -- No column is free, so the last segment of each goes on when this one begins.
      refine ⟨seg.topMin, ?_⟩
      have covered : p.colEnds.length ≤ (p.cluster.filter (Covers seg.topMin ·)).length := by
        refine length_of_columns fun k inside => ?_
        obtain ⟨m, there, same, ends⟩ := last k _ (List.getElem?_eq_getElem inside)
        have busy := List.not_of_lt_findIdx (place.trans new ▸ inside)
        refine ⟨m, List.mem_filter.mpr ⟨there, decide_eq_true ⟨begun m there, ?_⟩⟩, same⟩
        simpa [ends] using busy
      have here : Covers seg.topMin { seg with col } := ⟨le_rfl, after⟩
      simpa [List.filter_append, here] using covered
    next =>
      refine ⟨x, ?_⟩
      rw [List.length_set, List.filter_append, List.length_append]
      exact full.trans (Nat.le_add_right ..)

theorem columns_nil : Columns [] [] where
  linked _ none := nomatch none
  apart := .nil
  ends _ none := nomatch none
  last _ _ none := nomatch none
  full := ⟨0, Nat.zero_le _⟩

/-- The cluster as it is closed. -/
theorem Columns.tight (columns : Columns cluster colEnds) : Tight (cluster.map fun seg => { seg with cols := colEnds.length }) := by
  obtain ⟨linked, apart, ends, last, x, full⟩ := columns
  have inside : ∀ seg ∈ cluster, seg.col < colEnds.length := fun seg member =>
    have ⟨_, here, _⟩ := ends seg member
    (List.getElem?_eq_some_iff.mp here).1
  have count (x : ℚ) : ((cluster.map fun seg => { seg with cols := colEnds.length }).filter (Covers x ·)).length =
      (cluster.filter (Covers x ·)).length := by
    rw [List.filter_map, List.length_map]
    rfl
  -- Those that cover one minute overlap, and so they are in different columns.
  have atMost (x : ℚ) : (cluster.filter (Covers x ·)).length ≤ colEnds.length := by
    have distinct : ((cluster.filter (Covers x ·)).map (·.col)).Nodup := by
      refine List.pairwise_map.mpr ((apart.filter _).imp_of_mem fun inA inB apart => apart ?_)
      have coversA := of_decide_eq_true (List.mem_filter.mp inA).2
      have coversB := of_decide_eq_true (List.mem_filter.mp inB).2
      exact ⟨coversA.1.trans_lt coversB.2, coversB.1.trans_lt coversA.2⟩
    have within : (cluster.filter (Covers x ·)).map (·.col) ⊆ List.range colEnds.length := by
      intro col member
      obtain ⟨seg, there, rfl⟩ := List.mem_map.mp member
      exact List.mem_range.mpr (inside seg (List.mem_filter.mp there).1)
    simpa using List.Nodup.length_le_of_subset distinct within
  refine ⟨?_, List.pairwise_map.mpr apart, ?_, ?_⟩
  · intro a inA b inB
    obtain ⟨a, there, rfl⟩ := List.mem_map.mp inA
    obtain ⟨b, there', rfl⟩ := List.mem_map.mp inB
    refine (linked a there b there').lift (fun seg => { seg with cols := colEnds.length }) fun x y link => ?_
    exact ⟨List.mem_map_of_mem link.1, List.mem_map_of_mem link.2.1, link.2.2⟩
  · exact List.forall_mem_map.mpr inside
  · refine List.forall_mem_map.mpr fun seg _ => ⟨⟨x, (count x).trans (le_antisymm (atMost x) full)⟩, ?_⟩
    rintro _ ⟨x, rfl⟩
    exact (count x).trans_le (atMost x)

/-- The clusters closed so far are tight and over before the segments after them. -/
structure Sound (p : Packing) (now : ℚ) : Prop where
  tight : ∀ c ∈ p.closed, Tight c
  apart : p.closed.Pairwise fun c c' => ∀ a ∈ c, ∀ b ∈ c', a.layoutEnd ≤ b.topMin
  past : ∀ c ∈ p.closed, ∀ a ∈ c, a.layoutEnd ≤ now ∧ ∀ b ∈ p.cluster, a.layoutEnd ≤ b.topMin
  begun : ∀ seg ∈ p.cluster, seg.topMin ≤ now
  columns : Columns p.cluster p.colEnds

theorem sound_nil (now : ℚ) : Sound {} now where
  tight _ none := nomatch none
  apart := .nil
  past _ none := nomatch none
  begun _ none := nomatch none
  columns := columns_nil

theorem Sound.closes {p : Packing} {now : ℚ} (sound : Sound p now) : (∀ c ∈ p.closeCluster.closed, Tight c) ∧
    p.closeCluster.closed.Pairwise fun c c' => ∀ a ∈ c, ∀ b ∈ c', a.layoutEnd ≤ b.topMin := by
  constructor
  · exact List.forall_mem_append.mpr ⟨sound.tight, List.forall_mem_singleton.mpr sound.columns.tight⟩
  · refine List.pairwise_append.mpr ⟨sound.apart, List.pairwise_singleton _ _, fun c old => List.forall_mem_singleton.mpr fun a inA => ?_⟩
    exact List.forall_mem_map.mpr fun b there => (sound.past c old a inA).2 b there

theorem Sound.closeCluster {p : Packing} {now then_ : ℚ} (sound : Sound p now) (le : now ≤ then_) (ended : ∀ e ∈ p.colEnds, e ≤ then_) :
    Sound p.closeCluster then_ := by
  have past : ∀ c ∈ p.closeCluster.closed, ∀ a ∈ c, a.layoutEnd ≤ then_ := by
    refine List.forall_mem_append.mpr ⟨fun c old a there => (sound.past c old a there).1.trans le, List.forall_mem_singleton.mpr ?_⟩
    refine List.forall_mem_map.mpr fun a inside => ?_
    obtain ⟨e, here, ends⟩ := sound.columns.ends a inside
    exact ends.trans (ended e (List.mem_of_getElem? here))
  exact ⟨sound.closes.1, sound.closes.2, fun c member a there => ⟨past c member a there, by rintro _ ⟨⟩⟩, by rintro _ ⟨⟩, columns_nil⟩

theorem Sound.intoColumn {p : Packing} {now : ℚ} (sound : Sound p now) (le : now ≤ seg.topMin)
    (joins : ∀ s ∈ p.cluster, ∃ e ∈ p.colEnds, seg.topMin < e) : Sound (p.intoColumn seg) seg.topMin := by
  obtain ⟨tight, apart, past, begun, columns⟩ := sound
  have begun : ∀ s ∈ p.cluster, s.topMin ≤ seg.topMin := fun s member => (begun s member).trans le
  refine ⟨tight, apart, fun c member a there => ?_, List.forall_mem_append.mpr ⟨begun, List.forall_mem_singleton.mpr le_rfl⟩,
    columns.intoColumn begun joins⟩
  have ⟨ended, others⟩ := past c member a there
  exact ⟨ended.trans le, List.forall_mem_append.mpr ⟨others, List.forall_mem_singleton.mpr (ended.trans le)⟩⟩

theorem Sound.place {p : Packing} {now : ℚ} (sound : Sound p now) (le : now ≤ seg.topMin) : Sound (p.place seg) seg.topMin := by
  unfold Packing.place
  split
  next ended =>
    simp only [Bool.and_eq_true, List.all_eq_true, decide_eq_true_eq] at ended
    exact (sound.closeCluster le ended.2).intoColumn le_rfl fun _ none => nomatch none
  next goes =>
    refine sound.intoColumn le fun s member => ?_
    simpa [List.length_pos_of_mem member] using goes

theorem Sound.run {segs : List DaySegment} {p : Packing} {now : ℚ} (sound : Sound p now) (sorted : segs.Pairwise (·.topMin ≤ ·.topMin))
    (later : ∀ seg ∈ segs, now ≤ seg.topMin) : ∃ now, Sound (segs.foldl Packing.place p) now := by
  induction segs generalizing p now with
  | nil => exact ⟨now, sound⟩
  | cons seg segs ih =>
    obtain ⟨first, sorted⟩ := List.pairwise_cons.mp sorted
    exact ih (sound.place (later seg List.mem_cons_self)) sorted first

theorem clip_sorted (t : LocalTime) (items : List CalendarItem) (dayStart : Int) :
    (clip t items dayStart).Pairwise (·.topMin ≤ ·.topMin) := by
  unfold clip
  dsimp only
  refine (List.pairwise_mergeSort ?_ ?_ _).imp ?_
  · grind
  · grind
  · grind

theorem clip_nonneg (t : LocalTime) (items : List CalendarItem) (dayStart : Int) : ∀ seg ∈ clip t items dayStart, 0 ≤ seg.topMin := by
  intro seg member
  obtain ⟨i, -, rfl⟩ := List.mem_map.mp (List.mem_mergeSort.mp member)
  exact le_min (le_max_right _ _) (by norm_num [MINUTES_PER_DAY])

/-- The day's segments are those of clusters that are apart and each as tight as it can be; no two that overlap share a column. -/
theorem day_packs_tightly (t : LocalTime) (items : List CalendarItem) (dayStart : Int) :
    ((daySegments t items dayStart).Pairwise fun a b => a.Overlaps b → a.col ≠ b.col ∧ a.cols = b.cols) ∧
      ∃ clusters : List (List DaySegment), daySegments t items dayStart = clusters.flatten ∧ (∀ c ∈ clusters, Tight c) ∧
        clusters.Pairwise fun c c' => ∀ a ∈ c, ∀ b ∈ c', ¬ a.Overlaps b := by
  obtain ⟨now, sound⟩ := (sound_nil 0).run (clip_sorted t items dayStart) (clip_nonneg t items dayStart)
  have ⟨tight, past⟩ := sound.closes
  have apart := past.imp fun past a inA b inB (overlaps : a.Overlaps b) => not_lt.mpr (past a inA b inB) overlaps.2
  refine ⟨List.pairwise_flatten.mpr ⟨fun c member => ?_, apart.imp fun apart a inA b inB overlaps => absurd overlaps (apart a inA b inB)⟩,
    _, rfl, tight, apart⟩
  have ⟨_, columns, _, fullest⟩ := tight c member
  exact columns.imp_of_mem fun inA inB other overlaps => ⟨other overlaps, (fullest _ inA).unique (fullest _ inB)⟩

end Braidcast.Schedule.Layout
