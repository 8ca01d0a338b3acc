import Braidcast.Multistream.StoreFiles

/-!
# The account store's files

`WriteBinaryFileAtomic` of `file_util.cpp` and `EnsureLoadedLocked` of `account_store.cpp`, as the file
operations they make. No backup is named to the replace, so one that fails may take the target with it.
A file that is torn is one that does not unwrap or parse.
-/
namespace Braidcast.OAuth

open Lib Durable
open Multistream (Content Error Status safeReplaceTransientErrors success_not_transient safeReplaceRetryMs)

structure AccountFiles (α : Type) where
  target : Option (Content α) := none
  temp : Option (Content α) := none

namespace AccountFiles

variable {α : Type}

/-! ### The replace -/

/-- What `ReplaceFileW` does where there is a file to replace and no backup is named: the files change
places, both keep their names, or the replaced one is gone, which is `ERROR_UNABLE_TO_MOVE_REPLACEMENT`. -/
inductive ReplaceAnswer
  | replaced
  | kept (error : Error)
  | removed

/-- The answers one attempt gets, `move` being the error of `MoveFileExW`, if any. -/
structure AttemptAnswer where
  replace : ReplaceAnswer
  move : Option Error

def removeTarget (files : AccountFiles α) : AccountFiles α := { files with target := none }

def moveIntoPlace (files : AccountFiles α) : AccountFiles α := { target := files.temp, temp := none }

/-- What `ReplaceFileW` returns where one of the two files is missing. -/
def ReplaceAnswer.onMissing : ReplaceAnswer → Status
  | .kept error => .failed error
  | _ => .fileNotFound

def replaceFile (os : ReplaceAnswer) : Durable (AccountFiles α) Status := do
  let files ← look
  if files.target.isNone || files.temp.isNone then
    pure os.onMissing
  else match os with
    | .replaced => do
      change removeTarget
      change moveIntoPlace
      pure .success
    | .kept error => pure (.failed error)
    | .removed => do
      change removeTarget
      pure (.failed .unableToMoveReplacement)

/-- `MoveFileExW` of the temp file onto the target, replacing it. -/
def moveFile (os : Option Error) : Durable (AccountFiles α) Status := do
  let files ← look
  if files.temp.isNone then
    pure .fileNotFound
  else match os with
    | none => do
      change moveIntoPlace
      pure .success
    | some error => pure (.failed error)

def safeReplaceAttempt (os : AttemptAnswer) : Durable (AccountFiles α) Status := do
  let status ← replaceFile os.replace
  if status = .fileNotFound then
    moveFile os.move
  else
    pure status

/-- The rest of `os_safe_replace` after `tries` attempts, with so many retries left. -/
def safeReplaceFrom (os : Nat → AttemptAnswer) (tries : Nat) : Nat → Durable (AccountFiles α) Bool
  | 0 => do
    let status ← safeReplaceAttempt (os tries)
    pure (status = .success)
  | retries + 1 => do
    let status ← safeReplaceAttempt (os tries)
    if status ∈ safeReplaceTransientErrors then
      safeReplaceFrom os (tries + 1) retries
    else
      pure (status = .success)

def safeReplace (os : Nat → AttemptAnswer) : Durable (AccountFiles α) Bool :=
  safeReplaceFrom os 0 safeReplaceRetryMs.length

/-! ### The write -/

inductive AtomicWriteResult
  | ok
  | openFailed
  | writeFailed
  | replaceFailed
  deriving DecidableEq

/-- What the write of the temp file comes to: a failed flush leaves bytes that may be whole. -/
inductive WriteAnswer
  | openFails
  | writeFails
  | flushFails
  | written
  deriving DecidableEq

/-- What one save is answered, operation by operation. -/
structure SaveAnswers where
  write : WriteAnswer
  deletes : Bool
  replace : Nat → AttemptAnswer

/-- `DeleteFileW` of the temp file. -/
def deleteTemp (deletes : Bool) : Durable (AccountFiles α) Unit :=
  change fun files => if deletes then { files with temp := none } else files

/-- `WriteBinaryFileAtomic` behind the write: the replace, and what is left of it. -/
def publish (os : SaveAnswers) : Durable (AccountFiles α) AtomicWriteResult := do
  let replaced ← safeReplace os.replace
  if replaced then
    pure .ok
  else do
    let files ← look
    if files.target.isSome then do
      deleteTemp os.deletes
      pure .replaceFailed
    else
      pure .replaceFailed

def writeBinaryFileAtomic (os : SaveAnswers) (accounts : α) : Durable (AccountFiles α) AtomicWriteResult :=
  match os.write with
  | .openFails => pure .openFailed
  | .writeFails => do
    change fun files => { files with temp := some .torn }
    deleteTemp os.deletes
    pure .writeFailed
  | .flushFails => do
    change fun files => { files with temp := some .torn }
    change fun files => { files with temp := some (.whole accounts) }
    deleteTemp os.deletes
    pure .writeFailed
  | .written => do
    -- `CREATE_ALWAYS` cuts a temp file that is there
    change fun files => { files with temp := some .torn }
    change fun files => { files with temp := some (.whole accounts) }
    publish os

/-! ### The load -/

/-- A file's accounts: a missing file and one that does not unwrap or parse give none. -/
def readAccounts : Option (Content α) → Option α
  | some (.whole accounts) => some accounts
  | _ => none

/-- What a start is answered: whether the temp file is removed, and the move of a recovered one. -/
structure StartAnswers where
  removes : Bool
  replace : Nat → AttemptAnswer

/-- `EnsureLoadedLocked`: the accounts that it loads, if any. -/
def ensureLoadedLocked (os : StartAnswers) : Durable (AccountFiles α) (Option α) := do
  let files ← look
  if files.target.isSome then do
    deleteTemp os.removes
    pure (readAccounts files.target)
  else
    match readAccounts files.temp with
    | none => pure none
    | some accounts => do
      let _ ← safeReplace os.replace
      pure (some accounts)

/-! ### What the files say -/

/-- What a start would load. -/
def loads (files : AccountFiles α) : Option α :=
  if files.target.isSome then readAccounts files.target else readAccounts files.temp

/-- The target is never written in place. -/
def Untorn (files : AccountFiles α) : Prop := files.target ≠ some .torn

variable {files : AccountFiles α} {accounts : α} {old : Option α}

theorem loads_of_target (placed : files.target = some (.whole accounts)) : files.loads = some accounts := by
  rw [loads, placed]
  rfl

theorem loads_of_temp (missing : files.target = none) : files.loads = readAccounts files.temp := by
  rw [loads, missing]
  rfl

/-- The temp file is not looked at beside a target. -/
theorem loads_with_temp (present : files.target.isSome) (temp : Option (Content α)) :
    loads { files with temp := temp } = files.loads := by
  rw [loads, loads, if_pos present, if_pos present]

/-- Where nothing is loaded, no file is good. -/
theorem none_good (untorn : files.Untorn) (empty : files.loads = none) (accounts : α) :
    files.target ≠ some (.whole accounts) ∧ files.temp ≠ some (.whole accounts) := by
  constructor
  · intro placed
    rw [loads_of_target placed] at empty
    cases empty
  · intro written
    cases here : files.target with
    | none =>
      rw [loads_of_temp here, written] at empty
      cases empty
    | some content =>
      cases content with
      | whole other =>
        rw [loads_of_target here] at empty
        cases empty
      | torn => exact untorn here

/-- What a stop inside a save may leave: a start would load the accounts before it or those of the save. -/
structure Either (old : Option α) (accounts : α) (files : AccountFiles α) : Prop where
  untorn : files.Untorn
  loads : files.loads = old ∨ files.loads = some accounts

/-- What a save that fails may leave: the target, where there is one, is not of that save. -/
structure Refused (old : Option α) (accounts : α) (files : AccountFiles α) : Prop extends Either old accounts files where
  target : ∀ x, files.target = some (.whole x) → old = some x

def Placed (accounts : α) (files : AccountFiles α) : Prop := files.target = some (.whole accounts)

/-- How a save ends. -/
def Saved (old : Option α) (accounts : α) (result : AtomicWriteResult) (files : AccountFiles α) : Prop :=
  (result = .ok → Placed accounts files) ∧ (result ≠ .ok → Refused old accounts files)

theorem Placed.either (placed : Placed accounts files) : Either old accounts files where
  untorn torn := by cases Eq.trans (Eq.symm placed) torn
  loads := .inr (loads_of_target placed)

/-- A target that is there, and the accounts in it. -/
theorem refused_of_target {x : α} (settles : old = some x) (kept : files.target = some (.whole x)) :
    Refused old accounts files where
  untorn torn := by cases kept.symm.trans torn
  loads := .inl ((loads_of_target kept).trans settles.symm)
  target y there := by
    cases kept.symm.trans there
    exact settles

/-- The temp file is whole, and the target is gone or as it was. -/
def Ready (old : Option α) (accounts : α) (files : AccountFiles α) : Prop :=
  files.temp = some (.whole accounts) ∧ (files.target = none ∨ ∃ x, old = some x ∧ files.target = some (.whole x))

theorem Ready.refused (ready : Ready old accounts files) : Refused old accounts files := by
  rcases ready with ⟨written, missing | ⟨x, settles, kept⟩⟩
  · refine ⟨⟨fun torn => ?_, .inr ?_⟩, fun x there => ?_⟩
    · cases missing.symm.trans torn
    · rw [loads_of_temp missing, written]
      rfl
    · cases missing.symm.trans there
  · exact refused_of_target settles kept

theorem Ready.removeTarget (ready : Ready old accounts files) : Ready old accounts files.removeTarget :=
  ⟨ready.1, .inl rfl⟩

/-! ### The steps of a save -/

/-- The new accounts are in place, or the attempt failed and can be repeated. -/
def Tried (old : Option α) (accounts : α) (status : Status) (files : AccountFiles α) : Prop :=
  (status = .success → Placed accounts files) ∧ (status ≠ .success → Ready old accounts files)

theorem tried_of_ready {status : Status} (failed : status ≠ .success) (ready : Ready old accounts files) :
    Tried old accounts status files :=
  ⟨fun success => absurd success failed, fun _ => ready⟩

theorem tried_of_placed (placed : Placed accounts files) : Tried old accounts .success files :=
  ⟨fun _ => placed, fun failed => absurd rfl failed⟩

theorem replaceFile_tries (os : ReplaceAnswer) :
    Upholds (Ready old accounts) (replaceFile os) (Either old accounts) (Tried old accounts) := by
  apply upholds_look
  intro seen ready
  split
  · exact upholds_pure_seen (tried_of_ready (by cases os <;> simp [ReplaceAnswer.onMissing]) ready)
  · cases os with
    | replaced =>
      -- between the two moves only the temp file is there
      apply upholds_then ready.refused.toEither
      exact upholds_change_pure ready.removeTarget.refused.toEither (tried_of_placed ready.1)
    | kept error => exact upholds_pure_seen (tried_of_ready (by simp) ready)
    | removed => exact upholds_change_pure ready.refused.toEither (tried_of_ready (by simp) ready.removeTarget)

theorem moveFile_tries (os : Option Error) :
    Upholds (Ready old accounts) (moveFile os) (Either old accounts) (Tried old accounts) := by
  apply upholds_look
  intro seen ready
  rw [if_neg (by simp [ready.1])]
  cases os with
  | none => exact upholds_change_pure ready.refused.toEither (tried_of_placed ready.1)
  | some error => exact upholds_pure_seen (tried_of_ready (by simp) ready)

theorem safeReplaceAttempt_tries (os : AttemptAnswer) :
    Upholds (Ready old accounts) (safeReplaceAttempt os) (Either old accounts) (Tried old accounts) := by
  apply upholds_bind (replaceFile_tries os.replace)
  intro status
  split
  next missing =>
    exact (moveFile_tries os.move).weaken (fun _ tried => tried.2 (by simp [missing])) (fun _ h => h) (fun _ _ h => h)
  · exact upholds_pure fun _ tried => tried

/-- What the replace leaves with its attempts made. -/
def Replaced (old : Option α) (accounts : α) (replaced : Bool) (files : AccountFiles α) : Prop :=
  (replaced = true → Placed accounts files) ∧ (replaced = false → Ready old accounts files)

theorem Tried.replaced {status : Status} (tried : Tried old accounts status files) :
    Replaced old accounts (status = .success) files := by
  constructor
  · intro success
    exact tried.1 (of_decide_eq_true success)
  · intro failed
    exact tried.2 (of_decide_eq_false failed)

theorem safeReplaceFrom_replaces (os : Nat → AttemptAnswer) (tries retries : Nat) :
    Upholds (Ready old accounts) (safeReplaceFrom os tries retries) (Either old accounts) (Replaced old accounts) := by
  induction retries generalizing tries with
  | zero =>
    apply upholds_bind (safeReplaceAttempt_tries (os tries))
    exact fun status => upholds_pure fun _ tried => tried.replaced
  | succ retries ih =>
    apply upholds_bind (safeReplaceAttempt_tries (os tries))
    intro status
    split
    next again =>
      apply (ih (tries + 1)).weaken _ (fun _ h => h) (fun _ _ h => h)
      -- a transient failure leaves the attempt to be made again
      rintro _ tried
      apply tried.2
      rintro rfl
      exact success_not_transient again
    · exact upholds_pure fun _ tried => tried.replaced

theorem publish_saves (os : SaveAnswers) :
    Upholds (Ready old accounts) (publish os) (Either old accounts) (Saved old accounts) := by
  apply upholds_bind (safeReplaceFrom_replaces os.replace 0 _)
  intro replaced
  split
  next done => exact upholds_pure fun _ h => ⟨fun _ => h.1 done, fun failed => absurd rfl failed⟩
  next failed =>
    apply upholds_look
    intro seen h
    have ready : Ready old accounts seen := h.2 (Bool.eq_false_iff.mpr failed)
    split
    next present =>
      -- the temp file goes only while there is a target, which is then the one before
      obtain ⟨x, settles, kept⟩ : ∃ x, old = some x ∧ seen.target = some (.whole x) := by
        rcases ready.2 with missing | kept
        · rw [missing] at present
          cases present
        · exact kept
      refine upholds_change_pure ready.refused.toEither ⟨by simp, fun _ => ?_⟩
      cases os.deletes
      · exact refused_of_target settles kept
      · exact refused_of_target settles kept
    · exact upholds_pure_seen ⟨by simp, fun _ => ready.refused⟩

/-- What is settled is in the target, or nothing is and no file is good. -/
structure Calm (old : Option α) (files : AccountFiles α) : Prop where
  untorn : files.Untorn
  loads : files.loads = old
  bare : files.target = none → old = none

theorem Calm.target (calm : Calm old files) (there : files.target = some (.whole accounts)) : old = some accounts :=
  calm.loads.symm.trans (loads_of_target there)

theorem Calm.refused (calm : Calm old files) : Refused old accounts files where
  untorn := calm.untorn
  loads := .inl calm.loads
  target _ there := calm.target there

/-- With a temp file that is not good, a load finds what it found before. -/
theorem Calm.with_temp (calm : Calm old files) {temp : Option (Content α)} (bad : readAccounts temp = none) :
    Calm old { files with temp := temp } where
  untorn := calm.untorn
  loads := by
    by_cases present : files.target.isSome
    · exact (loads_with_temp present temp).trans calm.loads
    · have missing : files.target = none := by simpa using present
      have gone : ({ files with temp := temp } : AccountFiles α).target = none := missing
      rw [loads_of_temp gone, calm.bare missing]
      exact bad
  bare := calm.bare

/-- With the temp file whole, the save can go on. -/
theorem Calm.ready (calm : Calm old files) : Ready old accounts { files with temp := some (.whole accounts) } := by
  refine ⟨rfl, ?_⟩
  cases here : files.target with
  | none => exact .inl rfl
  | some content =>
    cases content with
    | torn => exact absurd here calm.untorn
    | whole x => exact .inr ⟨x, calm.target here, rfl⟩

theorem Calm.open_temp : Upholds (Calm old) (change fun files : AccountFiles α => { files with temp := some .torn })
    (Either old accounts) (fun _ => Calm old) :=
  upholds_change (fun _ calm => calm.refused.toEither) fun _ calm => calm.with_temp rfl

theorem Calm.delete_temp (deletes : Bool) : Upholds (Calm old) (deleteTemp deletes) (Either old accounts) (fun _ => Calm old) := by
  apply upholds_change (fun _ calm => calm.refused.toEither)
  intro files calm
  cases deletes
  · exact calm
  · exact calm.with_temp rfl

theorem writeBinaryFileAtomic_saves (os : SaveAnswers) :
    Upholds (Calm old) (writeBinaryFileAtomic os accounts) (Either old accounts) (Saved old accounts) := by
  have failed (result : AtomicWriteResult) (bad : result ≠ .ok) : Upholds (Calm old) (pure result) (Either old accounts)
      (Saved old accounts) :=
    upholds_pure fun _ calm => ⟨fun done => absurd done bad, fun _ => calm.refused⟩
  rw [writeBinaryFileAtomic]
  cases os.write with
  -- nothing is touched
  | openFails => exact failed .openFailed (by simp)
  | writeFails =>
    apply upholds_bind Calm.open_temp
    intro
    apply upholds_bind (Calm.delete_temp os.deletes)
    exact fun _ => failed .writeFailed (by simp)
  | flushFails =>
    apply upholds_bind Calm.open_temp
    refine fun _ => upholds_of_seen fun seen calm => upholds_then calm.refused.toEither ?_
    -- the bytes may all be there, so a temp file that stays is as good as the save
    refine upholds_change_pure calm.ready.refused.toEither ⟨by simp, fun _ => ?_⟩
    cases os.deletes
    · exact calm.ready.refused
    · exact (calm.with_temp rfl).refused
  | written =>
    apply upholds_bind Calm.open_temp
    exact fun _ => upholds_of_seen fun seen calm => upholds_then calm.refused.toEither ((publish_saves os).seen calm.ready)

/-- Behind the write of the temp file, a save goes on as from any other. -/
theorem until_written {os : SaveAnswers} (written : os.write = .written) (files : AccountFiles α) (stop : Option Nat)
    (later : ∀ k ∈ stop, 2 ≤ k) : (writeBinaryFileAtomic os accounts files).until stop =
      (publish os { files with temp := some (.whole accounts) }).until (stop.map (· - 2)) := by
  have split : writeBinaryFileAtomic os accounts = (do
      change fun files => { files with temp := some .torn }
      change fun files => { files with temp := some (.whole accounts) }
      publish os) := by
    rw [writeBinaryFileAtomic, written]
  rw [split]
  cases stop with
  | none => rfl
  | some k =>
    obtain ⟨k, rfl⟩ : ∃ n, k = n + 2 := ⟨k - 2, by have := later k rfl; omega⟩
    rfl

/-! ### A start -/

theorem ensureLoadedLocked_loads (os : StartAnswers) :
    Upholds (fun files : AccountFiles α => files.Untorn ∧ files.loads = old) (ensureLoadedLocked os)
      (fun files => files.Untorn ∧ files.loads = old) (fun result files => result = old ∧ files.Untorn ∧ files.loads = old) := by
  apply upholds_look
  rintro seen ⟨untorn, found⟩
  split
  next present =>
    apply upholds_bind (M := fun _ files => files.Untorn ∧ files.loads = old)
    · apply upholds_change_seen ⟨untorn, found⟩
      cases os.removes
      · exact ⟨untorn, found⟩
      · exact ⟨untorn, (loads_with_temp present none).trans found⟩
    intro
    refine upholds_pure fun _ kept => ⟨?_, kept⟩
    rw [← found, loads, if_pos present]
  next missing =>
    have gone : seen.target = none := by simpa using missing
    have read : readAccounts seen.temp = old := (loads_of_temp gone).symm.trans found
    cases kept : readAccounts seen.temp with
    | none => exact upholds_pure_seen ⟨kept.symm.trans read, untorn, found⟩
    | some accounts =>
      have whole : seen.temp = some (.whole accounts) := by
        unfold readAccounts at kept
        split at kept
        next there =>
          rw [there]
          cases kept
          rfl
        · cases kept
      -- the recovered file is moved into place, or stays where it was found
      obtain rfl : some accounts = old := kept.symm.trans read
      have same {files : AccountFiles α} (either : Either (some accounts) accounts files) :
          files.Untorn ∧ files.loads = some accounts := ⟨either.untorn, either.loads.elim id id⟩
      have start : Ready (some accounts) accounts seen := ⟨whole, .inl gone⟩
      have replaces : Upholds (fun files => files = seen) (safeReplace os.replace) (Either (some accounts) accounts)
          (Replaced (some accounts) accounts) := (safeReplaceFrom_replaces os.replace 0 _).seen start
      apply upholds_bind (M := fun _ files => Either (some accounts) accounts files)
      · apply replaces.weaken (fun _ h => h) (fun _ either => same either)
        intro replaced files h
        cases replaced with
        | true => exact (h.1 rfl).either
        | false => exact (h.2 rfl).refused.toEither
      intro
      exact upholds_pure fun _ either => ⟨rfl, same either⟩

end AccountFiles

end Braidcast.OAuth
