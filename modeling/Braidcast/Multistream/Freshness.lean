import Braidcast.Multistream.StoreFiles

/-!
# Files without history

The files are fresh for a set of states when no load can reach a state outside it. Every
call keeps them fresh for a set its own state belongs to, and a save without history that
goes through makes them fresh for its state alone.
-/
namespace Braidcast.Multistream

open Lib Durable

section

variable {α : Type} {state : α} {files : StoreFiles α}

/-- A file no load can take a state outside `new` from. -/
def Clean (new : α → Prop) (file : Option (Content α)) : Prop :=
  ∀ state, file = some (.whole state) → new state

/-- No load can reach a state outside `new`: a backup that is older counts for nothing
while the store file loads, since every replace puts the store file over it. -/
structure Fresh (new : α → Prop) (files : StoreFiles α) : Prop where
  target : Clean new files.target
  tmp : Clean new files.tmp
  covered : (createFromJsonFile files.target).isSome ∨ Clean new files.bak

variable {new : α → Prop}

theorem clean_none : Clean new (none : Option (Content α)) := by
  intro state same
  cases same

theorem clean_torn : Clean new (some (.torn : Content α)) := by
  intro state same
  cases same

theorem clean_whole (belongs : new state) : Clean new (some (.whole state)) := by
  intro state' same
  cases same
  exact belongs

section

variable (fresh : Fresh new files)
include fresh

theorem Fresh.mono {new' : α → Prop} (wider : ∀ state, new state → new' state) :
    Fresh new' files :=
  ⟨fun state same => wider state (fresh.target state same), fun state same => wider state (fresh.tmp state same),
    fresh.covered.imp_right fun clean state same => wider state (clean state same)⟩

theorem Fresh.with_tmp {tmp : Option (Content α)} (clean : Clean new tmp) :
    Fresh new { files with tmp := tmp } :=
  ⟨fresh.target, clean, fresh.covered⟩

theorem Fresh.with_bak {bak : Option (Content α)} (clean : Clean new bak) :
    Fresh new { files with bak := bak } :=
  ⟨fresh.target, fresh.tmp, .inr clean⟩

theorem Fresh.moveAside : Fresh new (moveAside files) :=
  ⟨clean_none, fresh.tmp, .inr fresh.target⟩

/-- The temp file may go over the store file where that is missing, or has been backed up. -/
theorem Fresh.moveIntoPlace (covered : (createFromJsonFile files.tmp).isSome ∨ Clean new files.bak) :
    Fresh new (moveIntoPlace files) :=
  ⟨fresh.tmp, clean_none, covered⟩

theorem Fresh.load :
    Fresh new (loadSafe files).1 ∧ ∀ state, (loadSafe files).2 = some state → new state := by
  unfold loadSafe
  split
  next state parsed =>
    refine ⟨fresh, ?_⟩
    rintro _ ⟨⟩
    exact fresh.target state (createFromJsonFile_eq_some.mp parsed)
  next torn =>
    -- the store file does not load, so it covers nothing and the backup is clean
    have clean : Clean new files.bak := by
      rcases fresh.covered with loads | clean
      · rw [torn] at loads
        cases loads
      · exact clean
    split
    · exact ⟨⟨clean, fresh.tmp, .inr clean_none⟩, fun state yielded => clean state (createFromJsonFile_eq_some.mp yielded)⟩
    · exact ⟨fresh, by simp⟩

end

/-- With no temp file about, a load leaves only what it yielded within reach. -/
theorem fresh_load (noTmp : files.tmp = none) : Fresh (fun state => (loadSafe files).2 = some state) (loadSafe files).1 := by
  unfold loadSafe
  split
  next state parsed =>
    have whole := createFromJsonFile_eq_some.mp parsed
    refine ⟨?_, ?_, .inl (by simp [parsed])⟩
    · rw [whole]
      exact clean_whole rfl
    · rw [noTmp]
      exact clean_none
  next torn =>
    -- a file that does not load holds no state at all
    have clean : Clean (fun _ => False) files.target := by
      intro state whole
      rw [createFromJsonFile_eq_some.mpr whole] at torn
      cases torn
    split
    · refine ⟨fun state whole => createFromJsonFile_eq_some.mpr whole, ?_, .inr clean_none⟩
      rw [noTmp]
      exact clean_none
    next noBak =>
      refine ⟨fun state whole => (clean state whole).elim, ?_, .inr ?_⟩
      · rw [noTmp]
        exact clean_none
      · rw [Option.not_isSome_iff_eq_none.mp noBak]
        exact clean_none

/-! ### Every call keeps the files fresh -/

theorem quickWriteUtf8File_fresh (os : WriteAnswer) (belongs : new state) :
    Upholds (Fresh new) (quickWriteUtf8File os state) (Fresh new) (fun _ => Fresh new) := by
  have opens : Upholds (Fresh new) (change fun files : StoreFiles α => { files with tmp := some .torn })
      (Fresh new) (fun _ => Fresh new) :=
    upholds_change (fun _ fresh => fresh) fun _ fresh => fresh.with_tmp clean_torn
  cases os with
  | openFails => exact upholds_pure fun _ fresh => fresh
  | shortWrite | flushLoses =>
    apply upholds_bind opens
    exact fun _ => upholds_pure fun _ fresh => fresh
  | written =>
    apply upholds_bind opens
    exact fun _ => upholds_of_seen fun seen fresh => upholds_change_pure fresh (fresh.with_tmp (clean_whole belongs))

/-- A replace that finds a file missing has left the backup clean, or has no temp file to
move. -/
def FreshAfter (new : α → Prop) (status : Status) (files : StoreFiles α) : Prop :=
  Fresh new files ∧ (status = .fileNotFound → files.tmp = none ∨ Clean new files.bak)

theorem Fresh.bak_of_missing (fresh : Fresh new files) (missing : files.target = none) : Clean new files.bak := by
  rcases fresh.covered with loads | clean
  · rw [missing] at loads
    cases loads
  · exact clean

theorem replaceFile_fresh (os : ReplaceAnswer) :
    Upholds (Fresh new) (replaceFile os) (Fresh new) (FreshAfter new) := by
  apply upholds_look
  intro seen fresh
  split
  next missing =>
    apply upholds_pure_seen
    refine ⟨fresh, fun _ => ?_⟩
    -- without a store file nothing covers the backup; without a temp file nothing moves
    rw [Bool.or_eq_true, Option.isNone_iff_eq_none, Option.isNone_iff_eq_none] at missing
    rcases missing with noTarget | noTmp
    · exact .inr (fresh.bak_of_missing noTarget)
    · exact .inl noTmp
  · cases os with
    | replaced =>
      -- the store file becomes the backup before the temp file takes its place
      apply upholds_then fresh
      exact upholds_change_pure fresh.moveAside ⟨fresh.moveAside.moveIntoPlace (.inr fresh.target), by simp⟩
    | kept error backupGone =>
      refine upholds_change_pure fresh ⟨?_, by simp⟩
      cases backupGone
      · exact fresh
      · exact fresh.with_bak clean_none
    | movedAside =>
      exact upholds_change_pure fresh ⟨fresh.moveAside, by simp⟩

theorem safeReplaceAttempt_fresh (os : AttemptAnswer) :
    Upholds (Fresh new) (safeReplaceAttempt os) (Fresh new) (fun _ => Fresh new) := by
  apply upholds_bind (replaceFile_fresh os.replace)
  intro status
  split
  next missing =>
    apply upholds_look
    rintro seen ⟨fresh, backed⟩
    split
    · exact upholds_pure_seen fresh
    next present =>
      -- there is a temp file, so it is the store file that was missing
      have clean : Clean new seen.bak := by
        rcases backed missing with noTmp | clean
        · simp [noTmp] at present
        · exact clean
      cases os.move with
      | none => exact upholds_change_pure fresh (fresh.moveIntoPlace (.inr clean))
      | some error =>
        exact upholds_pure_seen fresh
  · exact upholds_pure fun _ fresh => fresh.1

theorem safeReplaceFrom_fresh (os : Nat → AttemptAnswer) (tries retries : Nat) :
    Upholds (Fresh new) (safeReplaceFrom os tries retries) (Fresh new) (fun _ => Fresh new) := by
  induction retries generalizing tries with
  | zero =>
    apply upholds_bind (safeReplaceAttempt_fresh (os tries))
    exact fun status => upholds_pure fun _ fresh => fresh
  | succ retries ih =>
    apply upholds_bind (safeReplaceAttempt_fresh (os tries))
    intro status
    split
    · exact ih (tries + 1)
    · exact upholds_pure fun _ fresh => fresh

theorem saveJsonAtomic_fresh (os : SaveAnswers) (belongs : new state) :
    Upholds (Fresh new) (saveJsonAtomic os state) (Fresh new) (fun _ => Fresh new) := by
  apply upholds_bind (quickWriteUtf8File_fresh os.write belongs)
  intro written
  split
  · exact safeReplaceFrom_fresh os.replace 0 _
  · exact upholds_pure fun _ fresh => fresh

theorem replaceBackupWithCurrent_fresh (os : CopyAnswer) :
    Upholds (Fresh new) (replaceBackupWithCurrent os) (Fresh new) (fun _ => Fresh new) := by
  apply upholds_of_seen
  intro seen fresh
  cases os with
  | copied =>
    apply upholds_then fresh
    -- the copy holds what the store file holds
    exact upholds_change_pure (fresh.with_bak clean_torn) (fresh.with_bak fresh.target)
  | failed cutShort removed =>
    apply upholds_bind (M := fun _ => Fresh new)
    · apply upholds_change_seen fresh
      cases cutShort
      · exact fresh
      · exact fresh.with_bak clean_torn
    intro
    apply upholds_look
    intro seen fresh
    split
    · exact upholds_pure_seen fresh
    · split
      · exact upholds_change_pure fresh (fresh.with_bak clean_none)
      · exact upholds_pure_seen fresh

theorem dropBeside_fresh (os : DropAnswers) (promoted : Bool) :
    Upholds (Fresh new) (dropBeside os promoted) (Fresh new) (fun _ => Fresh new) := by
  apply upholds_look
  intro seen fresh
  split
  · apply upholds_bind (M := fun _ => Fresh new)
    · apply upholds_change_seen fresh
      cases os.removesTmp
      · exact fresh
      · exact fresh.with_tmp clean_none
    intro
    apply upholds_bind (replaceBackupWithCurrent_fresh os.copy)
    exact fun _ => upholds_pure fun _ fresh => fresh
  · exact upholds_pure_seen fresh

theorem dropStoreHistory_fresh (os : DropAnswers) :
    Upholds (Fresh new) (dropStoreHistory os) (Fresh new) (fun _ => Fresh new) := by
  apply upholds_look
  intro seen fresh
  split
  next missing =>
    -- the temp file takes the place of a store file that is gone
    have clean : Clean new seen.bak := fresh.bak_of_missing (Option.isNone_iff_eq_none.mp missing)
    split
    · exact upholds_then fresh ((dropBeside_fresh os true).seen (fresh.moveIntoPlace (.inr clean)))
    · exact upholds_pure_seen fresh
  · exact (dropBeside_fresh os false).seen fresh

theorem saveJsonAtomicDroppingHistory_fresh [DecidableEq α] (os : DroppingAnswers) (belongs : new state) :
    Upholds (Fresh new) (saveJsonAtomicDroppingHistory os state) (Fresh new) (fun _ => Fresh new) := by
  apply upholds_bind (saveJsonAtomic_fresh os.save belongs)
  intro saved
  split
  · apply upholds_bind (replaceBackupWithCurrent_fresh os.copy)
    exact fun _ => upholds_pure fun _ fresh => fresh
  · apply upholds_look
    intro seen fresh
    apply upholds_bind (M := fun _ => Fresh new)
    -- the save failed: what is left of the history is dropped
    · exact (dropStoreHistory_fresh os.drop).seen fresh
    exact fun _ => upholds_pure fun _ fresh => fresh

/-! ### What a save without history has cleared -/

/-- The temp file has become the store file. -/
def Placed (new : α → Prop) (files : StoreFiles α) : Prop :=
  files.tmp = none ∧ Clean new files.target

/-- An attempt that goes through has moved the temp file; any other has left it. -/
def Moved (new : α → Prop) (status : Status) (files : StoreFiles α) : Prop :=
  (status = .success → Placed new files) ∧ (status ≠ .success → Clean new files.tmp)

theorem moved_of_clean {status : Status} (failed : status ≠ .success) (clean : Clean new files.tmp) :
    Moved new status files :=
  ⟨fun success => absurd success failed, fun _ => clean⟩

theorem replaceFile_moves (os : ReplaceAnswer) :
    Upholds (fun files => Clean new files.tmp) (replaceFile os) (fun _ => True) (Moved new) := by
  apply upholds_look
  intro seen clean
  split
  · exact upholds_pure_seen (moved_of_clean (by cases os <;> simp [ReplaceAnswer.onMissing]) clean)
  · cases os with
    | replaced =>
      apply upholds_then trivial
      exact upholds_change_pure trivial ⟨fun _ => ⟨rfl, clean⟩, by simp⟩
    | kept error backupGone =>
      exact upholds_change_pure trivial (moved_of_clean (by simp) (by cases backupGone <;> exact clean))
    | movedAside =>
      exact upholds_change_pure trivial (moved_of_clean (by simp) clean)

theorem moveFile_moves (os : Option Error) :
    Upholds (fun files => Clean new files.tmp) (moveFile os) (fun _ => True) (Moved new) := by
  apply upholds_look
  intro seen clean
  split
  · exact upholds_pure_seen (moved_of_clean (by simp) clean)
  · cases os with
    | none => exact upholds_change_pure trivial ⟨fun _ => ⟨rfl, clean⟩, by simp⟩
    | some error =>
      exact upholds_pure_seen (moved_of_clean (by simp) clean)

theorem safeReplaceAttempt_moves (os : AttemptAnswer) :
    Upholds (fun files => Clean new files.tmp) (safeReplaceAttempt os) (fun _ => True) (Moved new) := by
  apply upholds_bind (replaceFile_moves os.replace)
  intro status
  split
  next missing =>
    exact (moveFile_moves os.move).weaken (fun _ moved => moved.2 (by simp [missing])) (fun _ h => h) (fun _ _ h => h)
  · exact upholds_pure fun _ moved => moved

theorem safeReplaceFrom_places (os : Nat → AttemptAnswer) (tries retries : Nat) :
    Upholds (fun files => Clean new files.tmp) (safeReplaceFrom os tries retries) (fun _ => True)
      (fun saved files => saved = true → Placed new files) := by
  induction retries generalizing tries with
  | zero =>
    apply upholds_bind (safeReplaceAttempt_moves (os tries))
    exact fun status => upholds_pure fun _ moved success => moved.1 (of_decide_eq_true success)
  | succ retries ih =>
    apply upholds_bind (safeReplaceAttempt_moves (os tries))
    intro status
    split
    next again =>
      apply (ih (tries + 1)).weaken _ (fun _ h => h) (fun _ _ h => h)
      -- an attempt is repeated only after a transient failure, and the temp file is still there
      rintro _ moved
      apply moved.2
      rintro rfl
      exact success_not_transient again
    · exact upholds_pure fun _ moved success => moved.1 (of_decide_eq_true success)

theorem quickWriteUtf8File_clean (os : WriteAnswer) (belongs : new state) :
    Upholds (fun _ => True) (quickWriteUtf8File os state) (fun _ => True)
      (fun written files => written = true → Clean new files.tmp) := by
  have opens : Upholds (fun _ => True) (change fun files : StoreFiles α => { files with tmp := some .torn })
      (fun _ => True) (fun _ files => Clean new files.tmp) :=
    upholds_change (fun _ _ => trivial) fun _ _ => clean_torn
  cases os with
  | openFails => exact upholds_pure fun _ _ => by simp
  | shortWrite | flushLoses =>
    apply upholds_bind opens
    exact fun _ => upholds_pure fun _ clean _ => clean
  | written =>
    apply upholds_bind opens
    exact fun _ => upholds_of_seen fun seen _ => upholds_change_pure trivial fun _ => clean_whole belongs

theorem saveJsonAtomic_places (os : SaveAnswers) (belongs : new state) :
    Upholds (fun _ => True) (saveJsonAtomic os state) (fun _ => True)
      (fun saved files => saved = true → Placed new files) := by
  apply upholds_bind (quickWriteUtf8File_clean os.write belongs)
  intro written
  split
  next done => exact (safeReplaceFrom_places os.replace 0 _).weaken (fun _ h => h done) (fun _ h => h) (fun _ _ h => h)
  · exact upholds_pure fun _ _ => by simp

/-- A backup that is not reported is a copy of the store file, or gone. -/
theorem replaceBackupWithCurrent_clears (os : CopyAnswer) :
    Upholds (Placed new) (replaceBackupWithCurrent os) (fun _ => True)
      (fun reported files => reported = false → Fresh new files) := by
  cases os with
  | copied =>
    apply upholds_of_seen
    rintro seen ⟨moved, clean⟩
    apply upholds_then trivial
    exact upholds_change_pure trivial fun _ => ⟨clean, by simp only [moved, clean_none], .inr clean⟩
  | failed cutShort removed =>
    apply upholds_bind (M := fun _ => Placed new)
    · apply upholds_change (fun _ _ => trivial)
      rintro files placed
      cases cutShort <;> exact placed
    intro
    apply upholds_look
    rintro seen ⟨moved, clean⟩
    have tmp : Clean new seen.tmp := by
      rw [moved]
      exact clean_none
    split
    next gone =>
      apply upholds_pure
      rintro _ rfl _
      -- a copy that failed is not reported where there is no backup
      refine ⟨clean, tmp, .inr ?_⟩
      rw [Option.isNone_iff_eq_none.mp gone]
      exact clean_none
    · split
      · exact upholds_change_pure trivial fun _ => ⟨clean, tmp, .inr clean_none⟩
      · exact upholds_pure fun _ _ => by simp

/-- Moved into place, a temp file that loads leaves nothing older within reach. -/
theorem dropStoreHistory_promotes (os : DropAnswers) (belongs : new state) :
    Upholds (fun files => files.tmp = some (.whole state)) (dropStoreHistory os) (fun _ => True)
      (fun dropped files => dropped.1 = true → Fresh new files) := by
  apply upholds_look
  intro seen written
  split
  · split
    · apply upholds_bind (M := fun _ => Fresh new)
      · apply upholds_change_seen trivial
        -- the file that loads covers a backup that is older
        refine ⟨?_, clean_none, .inl ?_⟩
        · simp only [moveIntoPlace, written]
          exact clean_whole belongs
        · simp [moveIntoPlace, written, createFromJsonFile]
      intro
      exact (dropBeside_fresh os true).weaken (fun _ h => h) (fun _ _ => trivial) (fun _ _ fresh _ => fresh)
    · exact upholds_pure fun _ _ => by simp
  · -- the store file was there, so nothing is promoted
    apply upholds_look
    intro seen' _
    split
    · apply upholds_bind upholds_true
      intro
      apply upholds_bind upholds_true
      exact fun _ => upholds_pure fun _ _ => by simp
    · exact upholds_pure fun _ _ => by simp

theorem saveJsonAtomicDroppingHistory_clears [DecidableEq α] (os : DroppingAnswers) (belongs : new state) :
    Upholds (fun _ => True) (saveJsonAtomicDroppingHistory os state) (fun _ => True)
      (fun result files => result = (true, false) → Fresh new files) := by
  apply upholds_bind (saveJsonAtomic_places os.save belongs)
  intro saved
  split
  next done =>
    apply upholds_bind ((replaceBackupWithCurrent_clears os.copy).weaken (fun _ h => h done) (fun _ h => h) (fun _ _ h => h))
    intro reported
    apply upholds_pure
    intro files clears same
    exact clears (Prod.mk.inj same).2
  · apply upholds_look
    intro seen _
    -- only the temp file of this save may be promoted
    by_cases this : seen.tmp = some (.whole state)
    · apply upholds_bind (M := fun dropped files => dropped.1 = true → Fresh new files)
      · exact (dropStoreHistory_promotes os.drop belongs).seen this
      intro dropped
      apply upholds_pure
      intro files promoted same
      have first := (Prod.mk.inj same).1
      rw [Bool.and_eq_true] at first
      exact promoted first.1
    · apply upholds_bind upholds_true
      intro dropped
      apply upholds_pure
      intro files _ same
      have first := (Prod.mk.inj same).1
      simp [this] at first

end

end Braidcast.Multistream
