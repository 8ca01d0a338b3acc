import Braidcast.Lib.Run
import Braidcast.Multistream.Freshness

/-!
# Stopping in a save

A state stands when a load of the files would yield it. Every operation of a save keeps a
standing state until the new one is in place, so a stop leaves one of the two.
-/
namespace Braidcast.Multistream

open Lib Durable

section

variable {α : Type}

/-- The store file holds the state, or it is missing and the backup does. -/
def Stands (state : α) (files : StoreFiles α) : Prop :=
  files.target = some (.whole state) ∨ files.target = none ∧ files.bak = some (.whole state)

/-- The settled state stands, where there is one. -/
def Keeps (settled : Option α) (files : StoreFiles α) : Prop :=
  ∀ state, settled = some state → Stands state files

/-- What a stop inside a save may leave. -/
def Either (settled : Option α) (state : α) (files : StoreFiles α) : Prop :=
  Keeps settled files ∨ files.target = some (.whole state)

variable {settled : Option α} {state : α} {files : StoreFiles α}

section

variable (keeps : Keeps settled files)
include keeps

theorem Keeps.with_tmp (tmp : Option (Content α)) :
    Keeps settled { files with tmp := tmp } :=
  keeps

theorem Keeps.target_whole (present : files.target.isSome) (settles : settled = some state) :
    files.target = some (.whole state) := by
  rcases keeps state settles with here | ⟨missing, _⟩
  · exact here
  · rw [missing] at present
    cases present

theorem Keeps.moveAside (present : files.target.isSome) :
    Keeps settled (moveAside files) := by
  intro state settles
  exact .inr ⟨rfl, keeps.target_whole present settles⟩

theorem Keeps.drop_bak (present : files.target.isSome) :
    Keeps settled { files with bak := none } := by
  intro state settles
  exact .inl (keeps.target_whole present settles)

end

/-- Between the write of the temp file and its move. -/
def Ready (settled : Option α) (state : α) (files : StoreFiles α) : Prop :=
  files.tmp = some (.whole state) ∧ Keeps settled files

/-- The new state is in place, or the attempt failed and can be repeated. -/
def Tried (settled : Option α) (state : α) (status : Status) (files : StoreFiles α) : Prop :=
  (status = .success → files.target = some (.whole state)) ∧ (status ≠ .success → Ready settled state files)

theorem tried_of_ready {status : Status} (failed : status ≠ .success) (ready : Ready settled state files) :
    Tried settled state status files :=
  ⟨fun success => absurd success failed, fun _ => ready⟩

theorem replaceFile_tries (os : ReplaceAnswer) :
    Upholds (Ready settled state) (replaceFile os) (Either settled state) (Tried settled state) := by
  apply upholds_look
  rintro seen ⟨written, keeps⟩
  split
  · exact upholds_pure_seen (tried_of_ready (by cases os <;> simp [ReplaceAnswer.onMissing]) ⟨written, keeps⟩)
  next both =>
    -- both files are there, or the replace would not be tried
    have present : seen.target.isSome := by
      cases here : seen.target <;> simp_all
    cases os with
    | replaced =>
      -- the moment between the two moves is where only the backup holds the settled state
      apply upholds_then (.inl keeps)
      exact upholds_change_pure (.inl (keeps.moveAside present)) ⟨fun _ => written, by simp⟩
    | kept error backupGone =>
      refine upholds_change_pure (.inl keeps) (tried_of_ready (by simp) ?_)
      cases backupGone
      · exact ⟨written, keeps⟩
      · exact ⟨written, keeps.drop_bak present⟩
    | movedAside =>
      exact upholds_change_pure (.inl keeps) (tried_of_ready (by simp) ⟨written, keeps.moveAside present⟩)

theorem moveFile_tries (os : Option Error) :
    Upholds (Ready settled state) (moveFile os) (Either settled state) (Tried settled state) := by
  apply upholds_look
  rintro seen ⟨written, keeps⟩
  rw [if_neg (by simp [written])]
  cases os with
  | none => exact upholds_change_pure (.inl keeps) ⟨fun _ => written, by simp⟩
  | some error =>
    exact upholds_pure_seen (tried_of_ready (by simp) ⟨written, keeps⟩)

theorem safeReplaceAttempt_tries (os : AttemptAnswer) :
    Upholds (Ready settled state) (safeReplaceAttempt os) (Either settled state) (Tried settled state) := by
  apply upholds_bind (replaceFile_tries os.replace)
  intro status
  split
  next missing =>
    exact (moveFile_tries os.move).weaken (fun _ tried => tried.2 (by simp [missing])) (fun _ h => h) (fun _ _ h => h)
  · exact upholds_pure fun _ tried => tried

/-- A save that goes through has put its state in place; one that does not has left the
settled state standing. -/
def Saved (settled : Option α) (state : α) (saved : Bool) (files : StoreFiles α) : Prop :=
  (saved = true → files.target = some (.whole state)) ∧ (saved = false → Keeps settled files)

theorem Tried.saved {status : Status} (tried : Tried settled state status files) :
    Saved settled state (status = .success) files := by
  constructor
  · intro success
    exact tried.1 (of_decide_eq_true success)
  · intro failed
    exact (tried.2 (of_decide_eq_false failed)).2

theorem safeReplaceFrom_saves (os : Nat → AttemptAnswer) (tries retries : Nat) :
    Upholds (Ready settled state) (safeReplaceFrom os tries retries) (Either settled state)
      (Saved settled state) := by
  induction retries generalizing tries with
  | zero =>
    apply upholds_bind (safeReplaceAttempt_tries (os tries))
    exact fun status => upholds_pure fun _ tried => tried.saved
  | succ retries ih =>
    apply upholds_bind (safeReplaceAttempt_tries (os tries))
    intro status
    split
    next again =>
      apply (ih (tries + 1)).weaken _ (fun _ h => h) (fun _ _ h => h)
      -- an attempt is repeated only after a transient failure, and then it can be
      rintro _ tried
      apply tried.2
      rintro rfl
      exact success_not_transient again
    · exact upholds_pure fun _ tried => tried.saved

/-- What the write of the temp file leaves, unless its flush loses bytes unseen. -/
theorem quickWriteUtf8File_readies {os : WriteAnswer} (flushed : os ≠ .flushLoses) :
    Upholds (Keeps settled) (quickWriteUtf8File os state) (Keeps settled)
      (fun written files => Keeps settled files ∧ (written = true → files.tmp = some (.whole state))) := by
  have opens : Upholds (Keeps settled) (change fun files : StoreFiles α => { files with tmp := some .torn })
      (Keeps settled) (fun _ => Keeps settled) :=
    upholds_change (fun _ keeps => keeps) fun _ keeps => keeps.with_tmp _
  cases os with
  | openFails => exact upholds_pure fun _ keeps => ⟨keeps, by simp⟩
  | shortWrite =>
    apply upholds_bind opens
    exact fun _ => upholds_pure fun _ keeps => ⟨keeps, by simp⟩
  -- the one answer after which a torn temp file passes for a whole one
  | flushLoses => exact absurd rfl flushed
  | written =>
    apply upholds_bind opens
    exact fun _ => upholds_of_seen fun seen keeps => upholds_change_pure keeps ⟨keeps.with_tmp _, fun _ => rfl⟩

theorem saveJsonAtomic_saves {os : SaveAnswers} (flushed : os.write ≠ .flushLoses) :
    Upholds (Keeps settled) (saveJsonAtomic os state) (Either settled state) (Saved settled state) := by
  apply upholds_bind ((quickWriteUtf8File_readies flushed).weaken (fun _ h => h) (fun _ h => .inl h) (fun _ _ h => h))
  intro written
  split
  next done =>
    exact (safeReplaceFrom_saves os.replace 0 _).weaken (fun _ h => ⟨h.2 done, h.1⟩) (fun _ h => h) (fun _ _ h => h)
  next missed =>
    exact upholds_pure fun _ h => ⟨by simp, fun _ => h.1⟩

theorem Stands.load (stands : Stands state files) :
    (loadSafe files).2 = some state ∧ Stands state (loadSafe files).1 := by
  rcases stands with here | ⟨missing, backed⟩
  · simp [loadSafe, createFromJsonFile, Stands, here]
  · simp [loadSafe, createFromJsonFile, Stands, missing, backed]

/-- What a load yields stands afterwards. -/
theorem keeps_load (files : StoreFiles α) : Keeps (loadSafe files).2 (loadSafe files).1 := by
  intro state yielded
  unfold loadSafe at yielded ⊢
  split
  next state' parsed =>
    simp only [parsed] at yielded
    rw [yielded] at parsed
    exact .inl (createFromJsonFile_eq_some.mp parsed)
  next torn =>
    simp only [torn] at yielded
    split at yielded
    next backed =>
      -- the backup has become the store file
      rw [if_pos backed]
      exact .inl (createFromJsonFile_eq_some.mp yielded)
    · cases yielded

end

end Braidcast.Multistream

/-!
## What a load finds after a crash

A process saves and loads its store; a save may fail, and may stop the process anywhere.
The next process begins with its load, as every store does when it is set up.
-/
namespace Braidcast.Multistream

open Lib Durable

/-- A store over whole runs. `settled` is the state of the last save that returned true, or
what a later load yielded; `writing` is the state of a save since that did not. -/
structure Store (α : Type) where
  files : StoreFiles α
  running : Bool := false
  settled : Option α := none
  writing : Option α := none

/-- The calls on a store. A stop is the number of operations the call got through. -/
inductive Call (α : Type)
  | save (state : α) (os : SaveAnswers) (stop : Option Nat)
  | saveDropping (state : α) (os : DroppingAnswers) (stop : Option Nat)
  | load
  | loadDropping (os : DropAnswers) (stop : Option Nat)

section

variable {α : Type}

def Store.saved (store : Store α) (state : α) (files : StoreFiles α) : Option Bool → Store α
  | some true => { files := files, running := true, settled := some state, writing := none }
  | some false => { store with files := files, writing := some state }
  | none => { store with files := files, running := false, writing := some state }

def Store.loaded (files : StoreFiles α) : Store α :=
  { files := (loadSafe files).1, running := true, settled := (loadSafe files).2, writing := none }

/-- One call. Only a process that has loaded saves. -/
def Store.step [DecidableEq α] (store : Store α) : Call α → Option (Store α)
  | .save state os stop =>
    if store.running then
      ((saveJsonAtomic os state store.files).until stop).map fun ended => store.saved state ended.1 ended.2
    else none
  | .saveDropping state os stop =>
    if store.running then
      ((saveJsonAtomicDroppingHistory os state store.files).until stop).map fun ended =>
        store.saved state ended.1 (ended.2.map Prod.fst)
    else none
  | .load => some (.loaded store.files)
  | .loadDropping os stop =>
    ((dropStoreHistory os store.files).until stop).map fun ended =>
      if ended.2.isSome then .loaded ended.1 else { store with files := ended.1, running := false }

/-- A load that runs to its end; `settled` is then what it yielded. -/
def Call.Loads : Call α → Prop
  | .load | .loadDropping _ none => True
  | _ => False

/-- A call of a store that keeps its history. -/
def Call.KeepsHistory : Call α → Prop
  | .save .. | .load => True
  | _ => False

/-- No bytes of the temp file are lost after `fwrite` has taken them. -/
def Call.Flushed : Call α → Prop
  | .save _ os _ => os.write ≠ .flushLoses
  | .saveDropping _ os _ => os.save.write ≠ .flushLoses
  | _ => True

def Call.saves : Call α → Option α
  | .save state _ _ | .saveDropping state _ _ => some state
  | _ => none

/-! ### The settled state -/

/-- The settled state stands, unless the process stopped with the next one in place. -/
def Store.Sound (store : Store α) : Prop :=
  Keeps store.settled store.files ∨
    store.running = false ∧ ∃ state, store.writing = some state ∧ store.files.target = some (.whole state)

theorem Store.Sound.loaded (files : StoreFiles α) : (Store.loaded files).Sound :=
  .inl (keeps_load files)

/-- What a load yields, from files that are sound. -/
theorem Store.Sound.yields {store : Store α} (sound : store.Sound) {state : α} (settles : store.settled = some state) :
    (loadSafe store.files).2 = some state ∨
      ((loadSafe store.files).2 = store.writing ∧ store.writing.isSome) := by
  rcases sound with keeps | ⟨_, next, writes, placed⟩
  · exact .inl (keeps state settles).load.1
  · right
    have standing : Stands next store.files := .inl placed
    rw [writes]
    exact ⟨standing.load.1, rfl⟩

variable [DecidableEq α]

variable {store next : Store α}

theorem Store.Sound.step {call : Call α} (sound : store.Sound) (keepsHistory : call.KeepsHistory)
    (flushed : call.Flushed) (step : store.step call = some next) : next.Sound := by
  cases call with
  | saveDropping | loadDropping => cases keepsHistory
  | load =>
    cases step
    exact Store.Sound.loaded _
  | save state os stop =>
    simp only [Store.step] at step
    split at step
    next running =>
      -- a running process has its settled state standing
      have keeps : Keeps store.settled store.files := by
        rcases sound with keeps | ⟨stopped, _⟩
        · exact keeps
        · rw [running] at stopped
          cases stopped
      obtain ⟨⟨files, result⟩, ended, same⟩ := Option.map_eq_some_iff.mp step
      obtain ⟨either, results⟩ := (saveJsonAtomic_saves flushed).until (by
        intro saved files saves
        cases saved
        · exact .inl (saves.2 rfl)
        · exact .inr (saves.1 rfl)) keeps ended
      subst same
      cases result with
      | none =>
        -- stopped: the settled state stands, or the new one is in place
        rcases either with keeps | placed
        · exact .inl keeps
        · exact .inr ⟨rfl, state, rfl, placed⟩
      | some saved =>
        have saves := results saved rfl
        cases saved
        · exact .inl (saves.2 rfl)
        · left
          rintro _ ⟨⟩
          exact .inl (saves.1 rfl)
    · cases step

/-! ### States that are gone for good -/

theorem Fresh.step {new : α → Prop} {call : Call α} (fresh : Fresh new store.files)
    (belongs : ∀ state, call.saves = some state → new state) (step : store.step call = some next) :
    Fresh new next.files ∧ (call.Loads → ∀ state, next.settled = some state → new state) := by
  cases call with
  | save state os stop =>
    simp only [Store.step] at step
    split at step
    · obtain ⟨⟨files, result⟩, ended, same⟩ := Option.map_eq_some_iff.mp step
      have kept := ((saveJsonAtomic_fresh os (belongs state rfl)).until (fun _ _ h => h) fresh ended).1
      subst same
      refine ⟨?_, by simp [Call.Loads]⟩
      cases result with
      | none => exact kept
      | some saved => cases saved <;> exact kept
    · cases step
  | saveDropping state os stop =>
    simp only [Store.step] at step
    split at step
    · obtain ⟨⟨files, result⟩, ended, same⟩ := Option.map_eq_some_iff.mp step
      have kept := ((saveJsonAtomicDroppingHistory_fresh os (belongs state rfl)).until (fun _ _ h => h) fresh ended).1
      subst same
      refine ⟨?_, by simp [Call.Loads]⟩
      cases result with
      | none => exact kept
      | some result =>
        obtain ⟨saved, reported⟩ := result
        cases saved <;> exact kept
    · cases step
  | load =>
    cases step
    exact ⟨fresh.load.1, fun _ => fresh.load.2⟩
  | loadDropping os stop =>
    obtain ⟨⟨files, result⟩, ended, same⟩ := Option.map_eq_some_iff.mp step
    have kept := ((dropStoreHistory_fresh os).until (fun _ _ h => h) fresh ended).1
    subst same
    cases result with
    | none =>
      -- a load that was stopped yields nothing
      refine ⟨kept, fun loads => ?_⟩
      cases stop with
      | none => cases ended
      | some k => cases loads
    | some result => exact ⟨kept.load.1, fun _ => kept.load.2⟩

/-- After a save without history that returned true, with no backup reported, only its
state and later ones are within reach. -/
theorem Fresh.of_saveDropping {state : α} {os : DroppingAnswers} (step : store.step (.saveDropping state os none) = some next)
    (returned : (saveJsonAtomicDroppingHistory os state store.files).result = (true, false)) :
    Fresh (· = state) next.files := by
  simp only [Store.step] at step
  split at step
  · cases step
    have clears : Upholds (fun _ => True) (saveJsonAtomicDroppingHistory os state) (fun _ => True)
        (fun result files => result = (true, false) → Fresh (· = state) files) := saveJsonAtomicDroppingHistory_clears os rfl
    rw [returned]
    exact (clears store.files trivial).2 returned
  · cases step

/-! ### Whole runs -/

/-- In every run in which no flush of a temp file loses bytes unseen: a load of a store that
keeps its history yields the settled state or the one being written, never an older one and
never nothing; and after a save without history that returned true and reported no backup
left behind, no load yields a state older than the one it wrote. -/
theorem load_finds_last_state {files : StoreFiles α} {ms : List (Moment (Store α) (Call α))} {u : Store α}
    (run : Run (fun s c t => s.step c = some t) { files } ms u) (flushed : ∀ m ∈ ms, m.input.Flushed) :
    ((∀ m ∈ ms, m.input.KeepsHistory) → ∀ m ∈ ms, m.input.Loads → ∀ state, m.before.settled = some state →
      m.after.settled = some state ∨ (m.after.settled = m.before.writing ∧ m.before.writing.isSome)) ∧
    ∀ xs m ys m' zs, ms = xs ++ m :: (ys ++ m' :: zs) →
      ∀ state os, m.input = .saveDropping state os none →
        (saveJsonAtomicDroppingHistory os state m.before.files).result = (true, false) →
      m'.input.Loads → ∀ state', m'.after.settled = some state' →
        state' = state ∨ ∃ k ∈ ys, k.input.saves = some state' := by
  constructor
  · intro keepsHistory m member loads state settles
    -- the settled state stands before every call of the run
    have sound : m.before.Sound := by
      have start : ({ files } : Store α).Sound := .inl fun _ none => by cases none
      have all := Run.invariant (P := Store.Sound)
        (Q := fun m => m.input.KeepsHistory ∧ m.input.Flushed)
        (fun m ok step sound => sound.step ok.1 ok.2 step)
        run (fun m member => ⟨keepsHistory m member, flushed m member⟩) start
      exact (all.2 m member).1
    have step := run.step_of_mem member
    have kept := keepsHistory m member
    cases call : m.input with
    | load =>
      rw [call] at step
      rw [← Option.some.inj step]
      exact sound.yields settles
    | save => simp [call, Call.Loads] at loads
    | saveDropping | loadDropping => simp [call, Call.KeepsHistory] at kept
  · rintro xs m ys m' zs rfl state os call returned loads state' yields
    have step := run.step_of_mem (m := m) (by simp)
    have step' := run.step_of_mem (m := m') (by simp)
    have middle := run.between
    rw [call] at step
    -- the states within reach: the one the save wrote, and those of the saves in between
    let new : α → Prop := fun s => s = state ∨ ∃ k ∈ ys, k.input.saves = some s
    have start : Fresh new m.after.files := (Fresh.of_saveDropping step returned).mono fun _ same => .inl same
    -- each save in between belongs to the set, so the files stay fresh for it
    have fresh : Fresh new m'.before.files := by
      have all := Run.invariant (P := fun store : Store α => Fresh new store.files)
        (Q := fun k => k ∈ ys)
        (fun k member step fresh => (fresh.step (fun s saves => .inr ⟨k, member, saves⟩) step).1)
        middle (fun k member => member) start
      exact all.1
    refine (fresh.step ?_ step').2 loads state' yields
    intro s saves
    revert loads saves
    cases m'.input <;> simp [Call.Loads, Call.saves]

end

/-- A save whose every operation goes through. -/
def saveGoesThrough : SaveAnswers where
  write := .written
  replace := fun _ => ⟨.replaced, none⟩

/-- A save whose temp file is cut short by a full disk at the flush. -/
def saveLosesFlush : SaveAnswers where
  write := .flushLoses
  replace := fun _ => ⟨.replaced, none⟩

/-- A state stored, the next one saved, and the process stopped with the store file moved
aside by the save after that. -/
theorem load_finds_last_state_after_stop : ∃ (ms : List (Moment (Store Nat) (Call Nat))) (u : Store Nat),
    Run (fun s c t => s.step c = some t) { files := { target := some (.whole 0) } } ms u ∧
    (∀ m ∈ ms, m.input.Flushed) ∧ u.settled = some 1 ∧
    ∀ m ∈ ms, m.input.Loads → ∀ state, m.before.settled = some state →
      m.after.settled = some state ∨ (m.after.settled = m.before.writing ∧ m.before.writing.isSome) := by
  have computed : (follow Store.step ({ files := { target := some (.whole 0) } } : Store Nat)
      [.load, .save 1 saveGoesThrough none, .save 2 saveGoesThrough (some 3), .load]).any
        (fun p => p.2.settled = some 1) = true := rfl
  obtain ⟨⟨ms, u⟩, followed, shown⟩ := (Option.any_eq_true _ _).mp computed
  have run := run_follow followed
  have flushed : ∀ m ∈ ms, m.input.Flushed := by
    intro m member
    have called := input_of_mem_follow followed member
    simp only [List.mem_cons, List.not_mem_nil, or_false] at called
    rcases called with same | same | same | same <;> rw [same] <;> simp [Call.Flushed, saveGoesThrough]
  have kept : ∀ m ∈ ms, m.input.KeepsHistory := by
    intro m member
    have called := input_of_mem_follow followed member
    simp only [List.mem_cons, List.not_mem_nil, or_false] at called
    rcases called with same | same | same | same <;> rw [same] <;> trivial
  exact ⟨ms, u, run, flushed, of_decide_eq_true shown, (load_finds_last_state run flushed).1 kept⟩

/-- A save that returned true is lost where the flush of its temp file failed: the load
falls back to the backup, which holds the state before it. -/
theorem load_finds_older_state_after_lost_flush :
    ¬ ∀ (files : StoreFiles Nat) (ms : List (Moment (Store Nat) (Call Nat))) (u : Store Nat),
      Run (fun s c t => s.step c = some t) { files } ms u → (∀ m ∈ ms, m.input.KeepsHistory) →
      ∀ m ∈ ms, m.input.Loads → ∀ state, m.before.settled = some state →
        m.after.settled = some state ∨ (m.after.settled = m.before.writing ∧ m.before.writing.isSome) := by
  intro claimed
  have run : Run (fun (s : Store Nat) c t => s.step c = some t) { files := { target := some (.whole 0) } } _ _ :=
    .cons (i := .load) rfl (.cons (i := .save 1 saveLosesFlush none) rfl (.cons (i := .load) rfl (.nil _)))
  have kept := claimed _ _ _ run (by simp [Call.KeepsHistory]) _
    (List.mem_cons_of_mem _ (List.mem_cons_of_mem _ List.mem_cons_self)) trivial 1 rfl
  revert kept
  decide

end Braidcast.Multistream
