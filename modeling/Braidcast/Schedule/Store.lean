import Mathlib.Data.List.Sort
import Braidcast.Lib.Keyed

/-!
# The schedule store

`ScheduleStore` over the planned broadcasts: the table's rows in table order, the ids
being its primary key. A call on a store that does not answer (`up = false`) returns
what the source's `catch` branches return: nothing found, nothing written.
-/
namespace Braidcast.Schedule

inductive ScheduleState where
  | planned
  | armed
  | live
  | done
  | missed
  | canceled
  deriving DecidableEq

/-- The state as the column and the error texts spell it. -/
def ScheduleState.text : ScheduleState → String
  | planned => "planned"
  | armed => "armed"
  | live => "live"
  | done => "done"
  | missed => "missed"
  | canceled => "canceled"

structure ScheduleDestination where
  profileId : String
  title : String := ""
  category : String := ""
  categoryId : String := ""
  tags : String := "[]"
  deriving DecidableEq

structure ScheduleEntry where
  id : String
  startsAt : Int
  autoStart : Bool
  state : ScheduleState := .planned
  deriving DecidableEq

structure ScheduleEntryWithDestinations where
  entry : ScheduleEntry
  destinations : List ScheduleDestination
  deriving DecidableEq

/-- The `schedule_entries` table with each entry's destinations. `Create` fills in an
empty id before it writes, so no stored id is empty. -/
structure ScheduleStore where
  rows : List ScheduleEntryWithDestinations
  nodup : (rows.map (·.entry.id)).Nodup
  nonempty : ∀ row ∈ rows, row.entry.id ≠ ""

namespace ScheduleStore

def find? (store : ScheduleStore) (id : String) : Option ScheduleEntryWithDestinations :=
  store.rows.find? (fun row => row.entry.id = id)

def get (up : Bool) (store : ScheduleStore) (id : String) : Option ScheduleEntry :=
  if up then (store.find? id).map (·.entry) else none

def destinationsFor (up : Bool) (store : ScheduleStore) (id : String) : List ScheduleDestination :=
  if up then ((store.find? id).map (·.destinations)).getD [] else []

/-- Half-open `[fromMs, toMs)`, by start. Rows that start together keep table order. -/
def listRange (up : Bool) (store : ScheduleStore) (fromMs toMs : Int) :
    List ScheduleEntryWithDestinations :=
  if up then
    (store.rows.filter (fun row => fromMs ≤ row.entry.startsAt ∧ row.entry.startsAt < toMs)).insertionSort
      (fun a b => a.entry.startsAt ≤ b.entry.startsAt)
  else []

/-- Rewrite the row with this id, if there is one. -/
def modify (store : ScheduleStore) (id : String)
    (change : ScheduleEntryWithDestinations → ScheduleEntryWithDestinations)
    (sameId : ∀ row, (change row).entry.id = row.entry.id) : ScheduleStore where
  rows := store.rows.map (fun row => if row.entry.id = id then change row else row)
  nodup := by
    -- the change keeps every id
    have ids : (store.rows.map (fun row => if row.entry.id = id then change row else row)).map
        (·.entry.id) = store.rows.map (·.entry.id) := by
      rw [List.map_map]
      apply List.map_congr_left
      intro row _
      simp only [Function.comp]
      split
      · exact sameId row
      · rfl
    rw [ids]
    exact store.nodup
  nonempty := by
    intro row member
    obtain ⟨old, stored, rfl⟩ := List.mem_map.mp member
    split
    · rw [sameId]; exact store.nonempty old stored
    · exact store.nonempty old stored

/-- `UPDATE ... WHERE id = ?`: it succeeds whether or not a row has that id. -/
def setState (store : ScheduleStore) (id : String) (state : ScheduleState) : ScheduleStore :=
  store.modify id (fun row => { row with entry := { row.entry with state } }) (fun _ => rfl)

/-- The fields `schedule.update` may change. The state is not one of them. -/
def update (store : ScheduleStore) (id : String) (startsAt : Int) (autoStart : Bool)
    (destinations : List ScheduleDestination) : ScheduleStore :=
  store.modify id (fun row => { entry := { row.entry with startsAt, autoStart }, destinations })
    (fun _ => rfl)

/-- A new planned entry. Its id is fresh; one that is not is refused. -/
def create (store : ScheduleStore) (id : String) (startsAt : Int) (autoStart : Bool)
    (destinations : List ScheduleDestination) : ScheduleStore :=
  if fresh : id ≠ "" ∧ id ∉ store.rows.map (·.entry.id) then
    { rows := store.rows ++ [{ entry := { id, startsAt, autoStart }, destinations }]
      nodup := by
        rw [List.map_append, List.map_singleton, List.nodup_append_comm]
        simpa using ⟨by simpa using fresh.2, store.nodup⟩
      nonempty := by
        intro row member
        rcases List.mem_append.mp member with old | new
        · exact store.nonempty row old
        · rw [List.mem_singleton.mp new]; exact fresh.1 }
  else store

def remove (store : ScheduleStore) (id : String) : ScheduleStore where
  rows := store.rows.filter (fun row => row.entry.id ≠ id)
  nodup := store.nodup.sublist (List.filter_sublist.map _)
  nonempty := fun row member => store.nonempty row (List.mem_of_mem_filter member)

/-- Only planned and armed entries can be missed, and one in `except` is left alone. -/
def sweepMissed (up : Bool) (store : ScheduleStore) (nowMs : Int) (except : List String) :
    ScheduleStore :=
  if up then
    (store.rows.filter (fun row => row.entry.startsAt < nowMs ∧
        (row.entry.state = .planned ∨ row.entry.state = .armed))).foldl
      (fun swept row => if row.entry.id ∈ except then swept else swept.setState row.entry.id .missed)
      store
  else store

/-- How many rows the sweep settles. -/
def sweptCount (up : Bool) (store : ScheduleStore) (nowMs : Int) (except : List String) : Nat :=
  if up then
    (store.rows.filter (fun row => (row.entry.startsAt < nowMs ∧
      (row.entry.state = .planned ∨ row.entry.state = .armed)) ∧ row.entry.id ∉ except)).length
  else 0

/-- Startup recovery: what a previous process had armed or live. -/
def recoverInterrupted (store : ScheduleStore) : ScheduleStore :=
  (store.rows.filter (fun row => row.entry.state = .armed ∨ row.entry.state = .live)).foldl
    (fun recovered row => recovered.setState row.entry.id
      (if row.entry.state = .live then .done else .planned))
    store

/-! ### Reading back -/

variable {id : String} {store : ScheduleStore} {row : ScheduleEntryWithDestinations}

theorem find?_eq_some :
    store.find? id = some row ↔ row ∈ store.rows ∧ row.entry.id = id := by
  constructor
  · intro found
    exact ⟨List.mem_of_find?_eq_some found, by simpa using List.find?_some found⟩
  · rintro ⟨member, rfl⟩
    -- the id is the key: the row found is this one
    exact Lib.find?_key_eq_some store.nodup member

variable {entry : ScheduleEntry}

theorem get_eq_some :
    store.get true id = some entry ↔ ∃ row ∈ store.rows, row.entry = entry ∧ entry.id = id := by
  simp only [get, if_true, Option.map_eq_some_iff, find?_eq_some]
  constructor
  · rintro ⟨row, ⟨member, same⟩, rfl⟩
    exact ⟨row, member, rfl, same⟩
  · rintro ⟨row, member, rfl, same⟩
    exact ⟨row, ⟨member, same⟩, rfl⟩

theorem get_row (member : row ∈ store.rows) : store.get true row.entry.id = some row.entry :=
  get_eq_some.mpr ⟨row, member, rfl, rfl⟩

theorem get_id (found : store.get true id = some entry) : entry.id = id := by
  obtain ⟨_, _, _, same⟩ := get_eq_some.mp found
  exact same

theorem ne_empty_of_get (found : store.get true id = some entry) : id ≠ "" := by
  obtain ⟨row, member, rfl, rfl⟩ := get_eq_some.mp found
  exact store.nonempty row member

theorem mem_listRange {fromMs toMs : Int} :
    row ∈ store.listRange true fromMs toMs ↔
      row ∈ store.rows ∧ fromMs ≤ row.entry.startsAt ∧ row.entry.startsAt < toMs := by
  simp [listRange, List.mem_insertionSort]

section

variable (store)

theorem listRange_ids_nodup (fromMs toMs : Int) :
    ((store.listRange true fromMs toMs).map (·.entry.id)).Nodup := by
  simp only [listRange, if_true]
  apply (List.Perm.map _ (List.perm_insertionSort _ _)).nodup_iff.mpr
  exact store.nodup.sublist (List.filter_sublist.map _)

/-! ### Writing -/

theorem find?_modify (id other : String) (change : ScheduleEntryWithDestinations → ScheduleEntryWithDestinations)
    (sameId : ∀ row, (change row).entry.id = row.entry.id) :
    (store.modify id change sameId).find? other =
      if other = id then (store.find? other).map change else store.find? other := by
  simp only [find?, modify]
  induction store.rows with
  | nil => simp
  | cons row rows ih =>
    by_cases here : row.entry.id = other
    · by_cases hit : other = id
      · simp [here, hit, sameId]
      · simp [here, hit]
    · by_cases hit : row.entry.id = id
      · simp only [List.map_cons, hit, if_true]
        rw [List.find?_cons_of_neg (by simp [sameId, here]), ih, List.find?_cons_of_neg (by simp [here])]
      · simp only [List.map_cons, hit, if_false]
        rw [List.find?_cons_of_neg (by simp [here]), ih, List.find?_cons_of_neg (by simp [here])]

theorem get_setState (id other : String) (state : ScheduleState) :
    (store.setState id state).get true other =
      if other = id then (store.get true other).map (fun e => { e with state }) else store.get true other := by
  simp only [get, setState, find?_modify, if_true]
  split <;> simp [Function.comp_def]

theorem get_remove (id other : String) :
    (store.remove id).get true other = if other = id then none else store.get true other := by
  simp only [get, find?, remove, List.find?_filter, if_true]
  split
  next same =>
    subst same
    simp [List.find?_eq_none]
  next differs =>
    congr 2
    funext row
    by_cases here : row.entry.id = other <;> simp [here, differs]

theorem get_update (id other : String) (startsAt : Int) (autoStart : Bool) (destinations : List ScheduleDestination) :
    (store.update id startsAt autoStart destinations).get true other =
      if other = id then (store.get true other).map (fun e => { e with startsAt, autoStart })
      else store.get true other := by
  simp only [get, update, find?_modify, if_true]
  split <;> simp [Function.comp_def]

end

theorem get_eq_none :
    store.get true id = none ↔ id ∉ store.rows.map (·.entry.id) := by
  simp [get, find?, List.find?_eq_none]

theorem get_create (other : String) (startsAt : Int)
    (autoStart : Bool) (destinations : List ScheduleDestination) (named : id ≠ "")
    (absent : store.get true id = none) :
    (store.create id startsAt autoStart destinations).get true other =
      if other = id then some { id, startsAt, autoStart } else store.get true other := by
  have fresh : id ≠ "" ∧ id ∉ store.rows.map (·.entry.id) := ⟨named, get_eq_none.mp absent⟩
  simp only [create, dif_pos fresh, get, if_true, find?, List.find?_append]
  split
  next same =>
    subst same
    rw [List.find?_eq_none.mpr (by simpa [List.mem_map] using fresh.2)]
    simp
  next differs => simp [Ne.symm differs]

/-- One pass over the rows, each changing its own row only. -/
theorem get_foldl (change : ScheduleStore → ScheduleEntryWithDestinations → ScheduleStore)
    (edit : ScheduleEntryWithDestinations → ScheduleEntry → ScheduleEntry)
    (each : ∀ store row id, (change store row).get true id =
      if id = row.entry.id then (store.get true id).map (edit row) else store.get true id)
    {rows : List ScheduleEntryWithDestinations} (nodup : (rows.map (·.entry.id)).Nodup)
    (store : ScheduleStore) (id : String) :
    (rows.foldl change store).get true id =
      match rows.find? (fun row => row.entry.id = id) with
      | some row => (store.get true id).map (edit row)
      | none => store.get true id := by
  induction rows generalizing store with
  | nil => rfl
  | cons row rows ih =>
    obtain ⟨fresh, rest⟩ := List.nodup_cons.mp nodup
    rw [List.foldl_cons, ih rest, each]
    by_cases here : row.entry.id = id
    -- no later row has this id, so the pass is over for it
    · have gone : rows.find? (fun row => row.entry.id = id) = none :=
        List.find?_eq_none.mpr fun other member same =>
          fresh (List.mem_map.mpr ⟨other, member, by simpa [here] using same⟩)
      simp [here, gone]
    · rw [List.find?_cons_of_neg (by simp [here]), if_neg (Ne.symm here)]

theorem find?_filter_rows {keep : ScheduleEntry → Bool} :
    (store.rows.filter (fun row => keep row.entry)).find? (fun row => row.entry.id = id) =
      (store.find? id).filter (fun row => keep row.entry) := by
  cases found : store.find? id with
  | none =>
    simp only [find?, List.find?_eq_none] at found
    simp only [Option.filter_none, List.find?_eq_none]
    exact fun row member => found row (List.mem_of_mem_filter member)
  | some row =>
    obtain ⟨member, same⟩ := find?_eq_some.mp found
    by_cases kept : keep row.entry = true
    · simp only [Option.filter, kept, if_true]
      cases again : (store.rows.filter (fun row => keep row.entry)).find?
          (fun row => row.entry.id = id) with
      | none =>
        have absent := List.find?_eq_none.mp again row (List.mem_filter.mpr ⟨member, kept⟩)
        simp [same] at absent
      | some other =>
        have stored := List.mem_of_mem_filter (List.mem_of_find?_eq_some again)
        have named : other.entry.id = id := by simpa using List.find?_some again
        rw [List.inj_on_of_nodup_map store.nodup stored member (named.trans same.symm)]
    · simp only [Option.filter, kept]
      refine List.find?_eq_none.mpr ?_
      intro other filtered named
      obtain ⟨stored, passes⟩ := List.mem_filter.mp filtered
      have equal : other = row := List.inj_on_of_nodup_map store.nodup stored member
        (by simpa [same] using named)
      exact kept (equal ▸ passes)

/-- A pass over the rows that `keep` selects. -/
theorem get_foldl_filter (change : ScheduleStore → ScheduleEntryWithDestinations → ScheduleStore)
    (edit : ScheduleEntry → ScheduleEntry → ScheduleEntry) (keep : ScheduleEntry → Bool)
    (each : ∀ store row id, (change store row).get true id =
      if id = row.entry.id then (store.get true id).map (edit row.entry) else store.get true id)
    (store : ScheduleStore) (id : String) :
    ((store.rows.filter (fun row => keep row.entry)).foldl change store).get true id =
      (store.get true id).map (fun e => if keep e then edit e e else e) := by
  rw [get_foldl change (fun row => edit row.entry) each
    (store.nodup.sublist (List.filter_sublist.map _)), find?_filter_rows]
  simp only [get, if_true]
  cases found : store.find? id with
  | none => rfl
  | some row => by_cases kept : keep row.entry = true <;> simp [Option.filter, kept]

theorem get_sweepMissed (store : ScheduleStore) (nowMs : Int) (except : List String) (id : String) :
    (store.sweepMissed true nowMs except).get true id =
      (store.get true id).map (fun e =>
        if (e.startsAt < nowMs ∧ (e.state = .planned ∨ e.state = .armed)) ∧ e.id ∉ except then
          { e with state := .missed } else e) := by
  have swept := get_foldl_filter
    (fun swept row =>
      if row.entry.id ∈ except then swept else swept.setState row.entry.id .missed)
    (fun old e => if old.id ∈ except then e else { e with state := .missed })
    (fun e => e.startsAt < nowMs ∧ (e.state = .planned ∨ e.state = .armed)) ?_ store id
  · simp only [sweepMissed, if_true, swept, decide_eq_true_eq]
    congr 1
    funext e
    by_cases due : e.startsAt < nowMs ∧ (e.state = .planned ∨ e.state = .armed) <;>
      by_cases spared : e.id ∈ except <;> simp [due, spared]
  · intro store row other
    by_cases spared : row.entry.id ∈ except
    · simp [spared]
    · simp [spared, get_setState]

theorem get_recoverInterrupted (store : ScheduleStore) (id : String) :
    store.recoverInterrupted.get true id = (store.get true id).map (fun e => { e with
      state := match e.state with
        | .armed => .planned
        | .live => .done
        | other => other }) := by
  have recovered := get_foldl_filter
    (fun recovered row => recovered.setState row.entry.id
      (if row.entry.state = .live then .done else .planned))
    (fun old e => { e with state := if old.state = .live then .done else .planned })
    (fun e => e.state = .armed ∨ e.state = .live)
    (fun store row other => get_setState store row.entry.id other _) store id
  simp only [recoverInterrupted, recovered]
  congr 1
  funext e
  cases state : e.state <;> simp <;> cases e <;> simp_all

end ScheduleStore

end Braidcast.Schedule
