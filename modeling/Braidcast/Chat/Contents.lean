import Braidcast.Chat.Ring

/-!
# A chat.db of any content

`OpenArchive` and `AdoptStore` on a store whatever it holds, whether or not what they read of it can
be read: a read that fails looks like a store without rows.
-/
namespace Braidcast.Chat

open Lib

/-- A seq in the file is any 64-bit integer. -/
structure Content extends Table where
  int64 : ∀ r ∈ rows, -2 ^ 63 ≤ r.seq ∧ r.seq ≤ kInt64Max

def Found.content (found : Found) : Content :=
  { found with
    int64 := fun r member => by
      have issued := found.issued r member
      omega }

/-- The newest rows, as many as the seed query yields before it fails. It yields none where it
cannot be prepared. -/
def Table.yielded (t : Table) (read : Nat) : Table where
  rows := t.rows.drop (t.rows.length - min read kCap)
  ordered := t.ordered.sublist (List.drop_sublist ..)

/-- `seed.nextSeq`, as a `uint64_t`. -/
def seedNext (t : Table) : Nat := seedNextSeq t % 2 ^ 64

/-- What `OpenArchive` met, with what it could read. -/
inductive Start where
  | off (left : Bool)
  | failed (session unknownSetting newer : Bool)
  | opened (session unknownSetting recovered : Bool) (store : Content) (swept : Option Int) (read : Nat)
      (starts left : Bool)

/-- The store once it is open and swept. -/
def startTable (env : Env) (session unknownSetting : Bool) (store : Content) (swept : Option Int) : Table :=
  match swept with
  | some now => store.sweep env.options (bootRetention session unknownSetting) 0 now
  | none => store.toTable

/-- `OpenArchive`. -/
def start (env : Env) : Start → World
  | .off left => boot env (.off left)
  | .failed session unknownSetting newer => boot env (.failed session unknownSetting newer)
  | .opened session unknownSetting recovered store swept read starts left =>
    let t := startTable env session unknownSetting store swept
    let seed := t.yielded read
    let w := { World.fresh (bootRetention session unknownSetting) (if recovered then .recovered else .ok) with
      messages := seedRing (buildSeed env.codec seed)
      nextSeq := max 1 (seedNext seed)
      persistedSeq := (seedNext seed + (2 ^ 64 - 1)) % 2 ^ 64 }
    if starts then
      { w with
        db := some t
        readDb := true
        started := true
        active := !unknownSetting
        unknownSetting
        status := if unknownSetting then .unknownSetting else w.status }
    else
      { w with
        unknownSetting
        degraded := true
        status := .degraded
        owedRemoval := left }

namespace World

variable {env : Env} {w w' : World}

/-- `adopt` with `storedMax` as it was read. -/
def adoptReading (w : World) (before : Retention) (kept : Table) (storedMax : Nat) : World :=
  { w with
    db := some kept
    owedRemoval := false
    leftOnDisk := []
    foreignMax := storedMax
    sessionKeepsThrough :=
      if w.retention = Retention.session ∧ before ≠ Retention.sevenDays then storedMax else w.sessionKeepsThrough
    adoptions := w.adoptions + 1 }

/-- The rows kept where a removal may be owed and their number may be unread. -/
def keptOf (w : World) (store : Content) (counted : Bool) : Table :=
  if w.owedRemoval && counted && !store.rows.isEmpty then Table.empty else store.toTable

/-- `OpenStore` and `AdoptStore`, on any store: `read` is whether its newest seq could be read,
`counted` whether its rows could be counted. -/
def openContent (w : World) (store : Content) (recovered read counted : Bool) : Option World :=
  match w.writer with
  | .changing before rest =>
    if w.retention ≠ .off ∧ w.db = none ∧ w.degraded = false then
      let kept := w.keptOf store counted
      some ((((w.confirmSession before).setStatus (if recovered then .recovered else .ok)).adoptReading before kept
        (if read then storedMax kept else 0)).goto (.replaying rest))
    else none
  | _ => none

end World

/-- An event, or a store opened late with any content. -/
inductive ContentEvent where
  | known (event : Event)
  | openStore (store : Content) (recovered read counted : Bool)

def World.contentStep (env : Env) (w : World) : ContentEvent → Option World
  | .known event => w.step env event
  | .openStore store recovered read counted => w.openContent store recovered read counted

def ContentStep (env : Env) (w : World) (event : ContentEvent) (w' : World) : Prop := w.contentStep env event = some w'

/-! ### The stores launches write -/

theorem yielded_rows (t : Table) (read : Nat) : (t.yielded read).rows.reverse = t.rows.reverse.take (min read kCap) := by
  rw [Table.yielded, List.take_reverse]

variable {t : Table}

theorem mem_of_mem_yielded {read : Nat} {r : StoredRow} (member : r ∈ (t.yielded read).rows) : r ∈ t.rows :=
  List.mem_of_mem_drop member

/-- A seed query that never fails yields all that `BuildSeed` takes. -/
theorem yielded_take {read : Nat} (enough : kCap ≤ read) :
    (t.yielded read).rows.reverse.take kCap = t.rows.reverse.take kCap := by
  rw [yielded_rows, Nat.min_eq_right enough, List.take_take, Nat.min_self]

theorem seedNextSeq_le (natural : ∀ r ∈ t.rows, 0 ≤ r.seq ∧ r.seq ≤ kInt64Max) : seedNextSeq t ≤ kInt64Max + 1 := by
  refine Nat.succ_le_succ (World.foldl_max_le (fun r : StoredRow => asUint64 r.seq) (Nat.zero_le _) fun r member => ?_)
  obtain ⟨low, high⟩ := natural r (List.mem_reverse.mp (List.mem_of_mem_take member))
  have same := World.asUint64_of_issued low high
  omega

theorem seedNext_eq (natural : ∀ r ∈ t.rows, 0 ≤ r.seq ∧ r.seq ≤ kInt64Max) :
    seedNext t = seedNextSeq t ∧ max 1 (seedNext t) = seedNextSeq t ∧
      (seedNext t + (2 ^ 64 - 1)) % 2 ^ 64 = seedNextSeq t - 1 := by
  have high := seedNextSeq_le natural
  have limit : kInt64Max = 9223372036854775807 := rfl
  have positive : 0 < seedNextSeq t := Nat.succ_pos _
  have same : seedNext t = seedNextSeq t := Nat.mod_eq_of_lt (by omega)
  rw [same]
  refine ⟨rfl, by omega, ?_⟩
  omega

/-- The new boot is the old one where nothing fails on a store that launches wrote. -/
theorem start_eq_boot (env : Env) (session unknownSetting recovered : Bool) (found : Found) (swept : Option Int) {read : Nat}
    (enough : kCap ≤ read) (starts left : Bool) :
    start env (.opened session unknownSetting recovered found.content swept read starts left) =
      boot env (.opened session unknownSetting recovered found swept starts left) := by
  have seeded (t : Table) : buildSeed env.codec (t.yielded read) = buildSeed env.codec t := by
    rw [buildSeed, buildSeed, yielded_take enough]
  have next (t : Table) : seedNextSeq (t.yielded read) = seedNextSeq t := by
    rw [seedNextSeq, seedNextSeq, yielded_take enough]
  have bounds (t : Table) (issued : ∀ r ∈ t.rows, 0 ≤ r.seq ∧ r.seq ≤ kInt64Max) :=
    seedNext_eq (t := t.yielded read) fun r member => issued r (mem_of_mem_yielded member)
  cases swept with
  | some now =>
    obtain ⟨_, nextSeq, persisted⟩ := bounds (found.sweep env.options (bootRetention session unknownSetting) 0 now)
      fun r member => found.issued r (Table.mem_of_mem_sweep member)
    simp only [start, boot, startTable, Found.content, seeded, nextSeq, persisted, next]
  | none =>
    obtain ⟨_, nextSeq, persisted⟩ := bounds found.toTable found.issued
    simp only [start, boot, startTable, Found.content, seeded, nextSeq, persisted, next]

/-- So is a late open. -/
theorem World.openStore_eq {env : Env} {w : World} {found : Found} (finds : w.Finds env found) (recovered : Bool) :
    w.openStore env found recovered = w.openContent found.content recovered true true := by
  have kept : (if w.owes found then Table.empty else found.toTable) = w.keptOf found.content true := by
    simp [owes, keptOf, Found.content]
  unfold openStore openContent
  cases w.writer with
  | changing before rest =>
    simp only [finds, and_true, kept, if_true]
    rfl
  | _ => rfl

end Braidcast.Chat
