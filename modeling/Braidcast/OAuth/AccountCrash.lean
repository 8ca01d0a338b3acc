import Braidcast.Lib.Run
import Braidcast.OAuth.AccountFiles

/-!
# What a start loads after a crash

A process loads its accounts once and then saves them; a save may fail, and may be cut by a crash anywhere.
The next process begins with its load.
-/
namespace Braidcast.OAuth

open Lib Durable AccountFiles

/-- The token store over whole runs. `settled` is what the last save that succeeded wrote, or what a later
start loaded; `writing` is what a save since then began to write. -/
structure TokenStore (α : Type) where
  files : AccountFiles α := {}
  loaded : Bool := false
  settled : Option α := none
  writing : Option α := none

/-- What is called. A stop is the number of operations the call got through. -/
inductive TokenCall (α : Type)
  | save (accounts : α) (os : SaveAnswers) (stop : Option Nat)
  | start (os : StartAnswers) (stop : Option Nat)

namespace TokenStore

variable {α : Type}

def saved (store : TokenStore α) (accounts : α) (files : AccountFiles α) : Option AtomicWriteResult → TokenStore α
  | some .ok => { files := files, loaded := true, settled := some accounts, writing := none }
  | some _ => { store with files := files, writing := some accounts }
  | none => { store with files := files, loaded := false, writing := some accounts }

def started (store : TokenStore α) (files : AccountFiles α) : Option (Option α) → TokenStore α
  | some accounts => { files := files, loaded := true, settled := accounts, writing := none }
  | none => { store with files := files, loaded := false }

/-- One call. Only a process that has loaded saves. -/
def step (store : TokenStore α) : TokenCall α → Option (TokenStore α)
  | .save accounts os stop =>
    if store.loaded then
      ((writeBinaryFileAtomic os accounts store.files).until stop).map fun ended => store.saved accounts ended.1 ended.2
    else none
  | .start os stop => ((ensureLoadedLocked os store.files).until stop).map fun ended => store.started ended.1 ended.2

/-- A start loads what the last save that succeeded wrote, or what the save since then was writing, and
nothing only where no file is good. -/
def Survives (store : TokenStore α) : Prop :=
  ∀ os, ((ensureLoadedLocked os store.files).result = store.settled ∨
      (store.writing.isSome ∧ (ensureLoadedLocked os store.files).result = store.writing)) ∧
    ((ensureLoadedLocked os store.files).result = none → ∀ accounts,
      store.files.target ≠ some (.whole accounts) ∧ store.files.temp ≠ some (.whole accounts))

/-- A save that begins with the accounts in the temp file alone writes that file anew in full: it is neither
refused nor cut before that. -/
def Spares (store : TokenStore α) : TokenCall α → Prop
  | .save _ os stop =>
    store.files.target = none → readAccounts store.files.temp ≠ none → os.write = .written ∧ ∀ k ∈ stop, 2 ≤ k
  | .start .. => True

/-! ### The invariant -/

/-- What the files hold is settled or being written; a target of a running process is settled. -/
structure Sound (store : TokenStore α) : Prop where
  untorn : store.files.Untorn
  loads : store.files.loads = store.settled ∨ (store.writing.isSome ∧ store.files.loads = store.writing)
  held : store.loaded = true → ∀ x, store.files.target = some (.whole x) → store.settled = some x

variable {store next : TokenStore α}

theorem Sound.survives (sound : store.Sound) : store.Survives := by
  intro os
  have result : (ensureLoadedLocked os store.files).result = store.files.loads :=
    (ensureLoadedLocked_loads os store.files ⟨sound.untorn, rfl⟩).2.1
  rw [result]
  exact ⟨sound.loads, none_good sound.untorn⟩

theorem Sound.start {os : StartAnswers} {stop : Option Nat} (sound : store.Sound) (step : store.step (.start os stop) = some next) :
    next.Sound := by
  obtain ⟨⟨files, result⟩, ended, same⟩ := Option.map_eq_some_iff.mp step
  obtain ⟨⟨untorn, found⟩, results⟩ := (ensureLoadedLocked_loads os).until (fun _ _ h => h.2) ⟨sound.untorn, rfl⟩ ended
  subst same
  cases result with
  | none =>
    -- cut: a start from here loads what this one would have loaded
    refine ⟨untorn, ?_, fun loaded => nomatch loaded⟩
    change files.loads = store.settled ∨ (store.writing.isSome ∧ files.loads = store.writing)
    rw [found]
    exact sound.loads
  | some accounts =>
    have same : accounts = store.files.loads := (results accounts rfl).1
    refine ⟨untorn, .inl (found.trans same.symm), fun _ x there => ?_⟩
    exact same.trans (found.symm.trans (loads_of_target there))

/-- How a save ends, from what its files have become. -/
theorem Sound.of_either {accounts : α} {files : AccountFiles α} {result : Option AtomicWriteResult}
    (either : Either store.settled accounts files) (results : ∀ r, result = some r → Saved store.settled accounts r files) :
    (store.saved accounts files result).Sound := by
  cases result with
  | none => exact ⟨either.untorn, either.loads.imp id fun new => ⟨rfl, new⟩, fun running => nomatch running⟩
  | some r =>
    have saved := results r rfl
    by_cases done : r = .ok
    · subst done
      have placed : Placed accounts files := saved.1 rfl
      refine ⟨either.untorn, .inl (loads_of_target placed), fun _ x there => ?_⟩
      cases Eq.trans (Eq.symm placed) there
      rfl
    · have refused : Refused store.settled accounts files := saved.2 done
      have failed : store.saved accounts files (some r) = { store with files := files, writing := some accounts } := by
        cases r with
        | ok => exact absurd rfl done
        | openFailed | writeFailed | replaceFailed => rfl
      rw [failed]
      exact ⟨either.untorn, either.loads.imp id fun new => ⟨rfl, new⟩, fun _ => refused.target⟩

/-- Where the temp file is not the only copy, the files are calm. -/
theorem Sound.calm (sound : store.Sound) (loaded : store.loaded = true)
    (backed : store.files.target = none → readAccounts store.files.temp = none) : Calm store.settled store.files := by
  have bare : store.files.target = none → store.settled = none := by
    intro missing
    have empty : store.files.loads = none := (loads_of_temp missing).trans (backed missing)
    rcases sound.loads with settled | ⟨writes, writing⟩
    · exact settled.symm.trans empty
    · rw [← writing, empty] at writes
      cases writes
  refine ⟨sound.untorn, ?_, bare⟩
  cases here : store.files.target with
  | none => rw [loads_of_temp here, backed here, bare here]
  | some content =>
    cases content with
    | torn => exact absurd here sound.untorn
    | whole x => rw [loads_of_target here, sound.held loaded x here]

theorem Sound.save {accounts : α} {os : SaveAnswers} {stop : Option Nat} (sound : store.Sound)
    (spares : store.Spares (.save accounts os stop)) (step : store.step (.save accounts os stop) = some next) : next.Sound := by
  simp only [TokenStore.step] at step
  split at step
  next loaded =>
    obtain ⟨⟨files, result⟩, ended, same⟩ := Option.map_eq_some_iff.mp step
    subst same
    have ends (r : AtomicWriteResult) (files : AccountFiles α) (saved : Saved store.settled accounts r files) :
        Either store.settled accounts files := by
      by_cases done : r = .ok
      · exact (saved.1 done).either
      · exact (saved.2 done).toEither
    by_cases only : store.files.target = none ∧ readAccounts store.files.temp ≠ none
    · -- the only copy is being written over: what counts is that this is done in full
      obtain ⟨written, later⟩ := spares only.1 only.2
      rw [until_written written store.files stop later] at ended
      have ready : Ready store.settled accounts { store.files with temp := some (.whole accounts) } := ⟨rfl, .inl only.1⟩
      obtain ⟨either, results⟩ := (publish_saves os).until ends ready ended
      exact Sound.of_either either results
    · have calm : Calm store.settled store.files := by
        apply sound.calm loaded
        intro missing
        by_contra kept
        exact only ⟨missing, kept⟩
      obtain ⟨either, results⟩ := (writeBinaryFileAtomic_saves os).until ends calm ended
      exact Sound.of_either either results
  · cases step

theorem Sound.step {call : TokenCall α} (sound : store.Sound) (spares : store.Spares call) (step : store.step call = some next) :
    next.Sound := by
  cases call with
  | save accounts os stop => exact sound.save spares step
  | start os stop => exact sound.start step

/-! ### Whole runs -/

theorem sound_initial : ({} : TokenStore α).Sound :=
  ⟨fun torn => (nomatch torn), .inl rfl, fun loaded => nomatch loaded⟩

/-- In every run in which no save is refused or cut while it writes over the only copy, every state survives. -/
theorem account_file_survives {ms : List (Moment (TokenStore α) (TokenCall α))} {u : TokenStore α}
    (run : Run (fun s c t => s.step c = some t) {} ms u) (spares : ∀ m ∈ ms, m.before.Spares m.input) :
    u.Survives ∧ ∀ m ∈ ms, m.before.Survives ∧ m.after.Survives := by
  obtain ⟨last, each⟩ := Run.invariant (P := Sound) (Q := fun m => m.before.Spares m.input)
    (fun _ spares step sound => sound.step spares step) run spares sound_initial
  exact ⟨last.survives, fun m member => ⟨(each m member).1.survives, (each m member).2.survives⟩⟩

/-! ### Concrete runs -/

instance decidableSpares [DecidableEq α] (store : TokenStore α) : (call : TokenCall α) → Decidable (store.Spares call)
  | .save _ os stop =>
    inferInstanceAs (Decidable (store.files.target = none → readAccounts store.files.temp ≠ none →
      os.write = .written ∧ ∀ k ∈ stop, 2 ≤ k))
  | .start .. => inferInstanceAs (Decidable True)

def unhindered : StartAnswers := ⟨true, fun _ => ⟨.replaced, none⟩⟩

def restart : TokenCall Nat := .start unhindered none

/-- Every operation goes through. -/
def throughout : SaveAnswers := ⟨.written, true, fun _ => ⟨.replaced, none⟩⟩

/-- The replace removes the target and then fails, again and again. -/
def unreplaced : SaveAnswers := ⟨.written, true, fun _ => ⟨.removed, some .accessDenied⟩⟩

/-- A replace takes the target with it, the next save goes through, and one is cut between its two moves. -/
theorem account_file_survives_cut : ∃ ms u, Run (fun s c t => s.step c = some t) ({} : TokenStore Nat) ms u ∧
    u.settled = some 4 ∧ u.Survives := by
  obtain ⟨ms, u, run, shown⟩ := exists_run_of_follow step ({} : TokenStore Nat)
    [restart, .save 1 throughout none, .save 2 unreplaced none, .save 3 throughout none, .save 4 throughout (some 3), restart]
    (fun ms u => (ms.all fun m => decide (m.before.Spares m.input)) && decide (u.settled = some 4)) (by decide)
  simp only [Bool.and_eq_true, List.all_eq_true, decide_eq_true_eq] at shown
  exact ⟨ms, u, run, shown.2, (account_file_survives run shown.1).1⟩

/-- A replace takes the target with it, and the next save is cut while it writes over the temp file. -/
theorem not_always_survives : ¬ ∀ (ms : List (Moment (TokenStore Nat) (TokenCall Nat))) (u : TokenStore Nat),
    Run (fun s c t => s.step c = some t) {} ms u → u.Survives := by
  intro survives
  obtain ⟨ms, u, run, shown⟩ := exists_run_of_follow step ({} : TokenStore Nat)
    [restart, .save 1 throughout none, .save 2 unreplaced none, .save 3 throughout (some 1)]
    (fun _ u => decide ((ensureLoadedLocked unhindered u.files).result = none) && decide (u.settled = some 1) &&
      decide (u.writing = some 3)) (by decide)
  simp only [Bool.and_eq_true, decide_eq_true_eq] at shown
  obtain ⟨⟨empty, settled⟩, writing⟩ := shown
  have found := (survives ms u run unhindered).1
  rw [empty, settled, writing] at found
  exact absurd found (by decide)

end TokenStore

end Braidcast.OAuth
