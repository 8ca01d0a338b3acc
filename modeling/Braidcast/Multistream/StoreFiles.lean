import Braidcast.Lib.Crash

/-!
# A JSON store's files

A store keeps three files beside one another: the store file, the temp file a save writes
first and the backup the replace leaves. A save is the sequence of file operations it
makes, each with the outcomes the operating system documents for it; a stop of the process
leaves the files as they are between two of them.
-/
namespace Braidcast.Multistream

open Lib Durable

/-- A file's text: a state written in full, or a text that does not parse. -/
inductive Content (α : Type)
  | whole (state : α)
  | torn
  deriving DecidableEq

structure StoreFiles (α : Type) where
  target : Option (Content α) := none
  tmp : Option (Content α) := none
  bak : Option (Content α) := none

section

variable {α : Type}

/-- `obs_data_create_from_json_file`. -/
def createFromJsonFile : Option (Content α) → Option α
  | some (.whole state) => some state
  | _ => none

@[simp] theorem createFromJsonFile_eq_some {file : Option (Content α)} {state : α} :
    createFromJsonFile file = some state ↔ file = some (.whole state) := by
  unfold createFromJsonFile
  split <;> simp_all

/-! ### The temp file -/

/-- What the write of the temp file comes to. `fwrite` only fills the stream's buffer, so
the bytes can still be lost by the `fflush` and `fclose` whose results nobody reads. -/
inductive WriteAnswer
  | openFails
  | shortWrite
  | flushLoses
  | written

/-- `os_quick_write_utf8_file`, on the temp file. -/
def quickWriteUtf8File (os : WriteAnswer) (state : α) : Durable (StoreFiles α) Bool :=
  match os with
  | .openFails => pure false
  | .shortWrite => do
    change fun files => { files with tmp := some .torn }
    pure false
  | .flushLoses => do
    change fun files => { files with tmp := some .torn }
    pure true
  | .written => do
    change fun files => { files with tmp := some .torn }
    change fun files => { files with tmp := some (.whole state) }
    pure true

/-! ### The replace -/

inductive Error
  | accessDenied
  | sharingViolation
  | lockViolation
  | unableToRemoveReplaced
  | unableToMoveReplacement
  | unableToMoveReplacement2
  | other (code : Nat)
  deriving DecidableEq

/-- What a file call returns: `ERROR_SUCCESS`, `ERROR_FILE_NOT_FOUND` or another error. -/
inductive Status
  | success
  | fileNotFound
  | failed (error : Error)
  deriving DecidableEq

def safeReplaceTransientErrors : List Status :=
  [.failed .accessDenied, .failed .sharingViolation, .failed .lockViolation,
    .failed .unableToRemoveReplaced, .failed .unableToMoveReplacement, .failed .unableToMoveReplacement2]

theorem success_not_transient : Status.success ∉ safeReplaceTransientErrors := by
  decide

def safeReplaceRetryMs : List Nat :=
  [5, 15, 50, 150]

/-- What `ReplaceFileW` does where there is a file to replace: the files change places; or
both keep their names, with the previous backup kept or gone; or the replaced file is left
under the backup's name, which is `ERROR_UNABLE_TO_MOVE_REPLACEMENT_2`. -/
inductive ReplaceAnswer
  | replaced
  | kept (error : Error) (backupGone : Bool)
  | movedAside

/-- The answers one attempt gets, `move` being the error of `MoveFileExW`, if any. -/
structure AttemptAnswer where
  replace : ReplaceAnswer
  move : Option Error

def moveAside (files : StoreFiles α) : StoreFiles α :=
  { files with target := none, bak := files.target }

def moveIntoPlace (files : StoreFiles α) : StoreFiles α :=
  { files with target := files.tmp, tmp := none }

/-- What `ReplaceFileW` returns where one of the two files is missing. -/
def ReplaceAnswer.onMissing : ReplaceAnswer → Status
  | .kept error _ => .failed error
  | _ => .fileNotFound

/-- `ReplaceFileW` with a backup named. -/
def replaceFile (os : ReplaceAnswer) : Durable (StoreFiles α) Status := do
  let files ← look
  if files.target.isNone || files.tmp.isNone then
    pure os.onMissing
  else match os with
    | .replaced => do
      change moveAside
      change moveIntoPlace
      pure .success
    | .kept error backupGone => do
      change fun files => if backupGone then { files with bak := none } else files
      pure (.failed error)
    | .movedAside => do
      change moveAside
      pure (.failed .unableToMoveReplacement2)

/-- `MoveFileExW` of the temp file onto the store file, replacing it. -/
def moveFile (os : Option Error) : Durable (StoreFiles α) Status := do
  let files ← look
  if files.tmp.isNone then
    pure .fileNotFound
  else match os with
    | none => do
      change moveIntoPlace
      pure .success
    | some error => pure (.failed error)

def safeReplaceAttempt (os : AttemptAnswer) : Durable (StoreFiles α) Status := do
  let status ← replaceFile os.replace
  if status = .fileNotFound then
    moveFile os.move
  else
    pure status

/-- The rest of `os_safe_replace` after `tries` attempts, with so many retries left. -/
def safeReplaceFrom (os : Nat → AttemptAnswer) (tries : Nat) : Nat → Durable (StoreFiles α) Bool
  | 0 => do
    let status ← safeReplaceAttempt (os tries)
    pure (status = .success)
  | retries + 1 => do
    let status ← safeReplaceAttempt (os tries)
    if status ∈ safeReplaceTransientErrors then
      safeReplaceFrom os (tries + 1) retries
    else
      pure (status = .success)

def safeReplace (os : Nat → AttemptAnswer) : Durable (StoreFiles α) Bool :=
  safeReplaceFrom os 0 safeReplaceRetryMs.length

/-- What one save is answered, operation by operation. -/
structure SaveAnswers where
  write : WriteAnswer
  replace : Nat → AttemptAnswer

/-- `SaveJsonAtomic`, through `os_quick_write_utf8_file_safe`. -/
def saveJsonAtomic (os : SaveAnswers) (state : α) : Durable (StoreFiles α) Bool := do
  let written ← quickWriteUtf8File os.write state
  if written then
    safeReplace os.replace
  else
    pure false

/-! ### The load -/

/-- `obs_data_create_from_json_file_safe`: a store file that does not parse gives way to
its backup. -/
def loadSafe (files : StoreFiles α) : StoreFiles α × Option α :=
  match createFromJsonFile files.target with
  | some state => (files, some state)
  | none =>
    if files.bak.isSome then
      ({ files with target := files.bak, bak := none }, createFromJsonFile files.bak)
    else
      (files, none)

/-! ### Saving without history -/

/-- What the copy over the backup comes to; where it fails, whether the backup had been
cut short by then and whether it could be removed. -/
inductive CopyAnswer
  | copied
  | failed (cutShort removed : Bool)

/-- `ReplaceBackupWithCurrent`. Says whether it logged a backup it could not clear. -/
def replaceBackupWithCurrent (os : CopyAnswer) : Durable (StoreFiles α) Bool :=
  match os with
  | .copied => do
    change fun files => { files with bak := some .torn }
    change fun files => { files with bak := files.target }
    pure false
  | .failed cutShort removed => do
    change fun files => if cutShort then { files with bak := some .torn } else files
    let files ← look
    if files.bak.isNone then
      pure false
    else if removed then do
      change fun files => { files with bak := none }
      pure false
    else
      pure true

/-- The answers `DropStoreHistory` gets: whether each of its reads, the rename and the
removal of the temp file go through. -/
structure DropAnswers where
  readsTmp : Bool
  renames : Bool
  readsFile : Bool
  removesTmp : Bool
  copy : CopyAnswer

/-- `LoadsAsObsData`, where the read may fail. -/
def loadsAsObsData (reads : Bool) (file : Option (Content α)) : Bool :=
  reads && (createFromJsonFile file).isSome

/-- The half of `DropStoreHistory` after the store file is in place. -/
def dropBeside (os : DropAnswers) (promoted : Bool) : Durable (StoreFiles α) (Bool × Bool) := do
  let files ← look
  if loadsAsObsData os.readsFile files.target then do
    change fun files => if os.removesTmp then { files with tmp := none } else files
    let reported ← replaceBackupWithCurrent os.copy
    pure (promoted, reported)
  else
    pure (promoted, false)

/-- `DropStoreHistory`: whether a temp file was moved into place, and whether a backup that
could not be cleared was logged. -/
def dropStoreHistory (os : DropAnswers) : Durable (StoreFiles α) (Bool × Bool) := do
  let files ← look
  if files.target.isNone then
    if loadsAsObsData os.readsTmp files.tmp && os.renames then do
      change moveIntoPlace
      dropBeside os true
    else
      pure (false, false)
  else
    dropBeside os false

/-- What one save without history is answered: the save, the copy over the backup where it
went through, and where it did not, the read of the temp file and the rest. -/
structure DroppingAnswers where
  save : SaveAnswers
  copy : CopyAnswer
  comparesTmp : Bool
  drop : DropAnswers

/-- `SaveJsonAtomicDroppingHistory`: its result, and whether it logged a backup left. -/
def saveJsonAtomicDroppingHistory [DecidableEq α] (os : DroppingAnswers) (state : α) :
    Durable (StoreFiles α) (Bool × Bool) := do
  let saved ← saveJsonAtomic os.save state
  if saved then do
    let reported ← replaceBackupWithCurrent os.copy
    pure (true, reported)
  else do
    let files ← look
    let dropped ← dropStoreHistory os.drop
    pure (dropped.1 && (os.comparesTmp && files.tmp = some (.whole state)), dropped.2)

end

end Braidcast.Multistream
