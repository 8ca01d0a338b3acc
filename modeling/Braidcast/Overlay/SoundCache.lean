import Braidcast.Lib.Eviction
import Braidcast.Lib.Lists
import Braidcast.Lib.Run

/-!
# The sounds of an overlay

The cache of decoded sounds of `runtime.ts` and the chain that decodes them. Entries are held under the number
of their making and decodes under their place in the chain, as both are compared by identity. A link of the
chain starts when every one before it has settled, and `decodeSound` never rejects.
-/
namespace Braidcast.Overlay

open Lib

structure SoundEntry where
  /-- The size of what was decoded. -/
  buffer : Option Nat := none
  bytes : Nat := 0
  decode : Option Nat := none
  elementOnly : Bool := false
  attempts : Nat := 0

inductive LinkPhase where
  | queued
  | running
  | settled
  deriving DecidableEq

/-- A link of `decodeChain`, with what it closes over. -/
structure DecodeLink where
  url : String
  entry : Nat
  phase : LinkPhase := .queued

structure SoundPage where
  entries : Nat → SoundEntry := fun _ => {}
  /-- How many entries have been made. -/
  made : Nat := 0
  /-- `soundCache`, oldest first. -/
  soundCache : List (String × Nat) := []
  decodeChain : List DecodeLink := []
  decodingEntry : Option Nat := none

def kMaxDecodedSoundBytes : Nat := 16 * 1024 * 1024

def kMaxOneDecodedSoundBytes : Nat := 8 * 1024 * 1024

def kMaxSoundEntries : Nat := 8

def kMaxSoundDecodeAttempts : Nat := 3

/-! ### Entries -/

namespace SoundEntry

/-- A decode that did not work, or that there was no context for. -/
def failed (e : SoundEntry) : SoundEntry :=
  if e.attempts + 1 ≥ kMaxSoundDecodeAttempts then { e with attempts := e.attempts + 1, elementOnly := true }
  else { e with attempts := e.attempts + 1 }

/-- What a link does with what was decoded. -/
def decoded (size : Nat) (e : SoundEntry) : SoundEntry :=
  if size > kMaxOneDecodedSoundBytes then { e with elementOnly := true }
  else { e with buffer := some size, bytes := size }

/-- Answered, or on its way to be. -/
def waits (e : SoundEntry) : Bool := e.buffer.isSome || e.decode.isSome || e.elementOnly

/-- What holds of every entry at any time. -/
structure Sound (e : SoundEntry) : Prop where
  unset : e.buffer = none → e.bytes = 0
  pending : e.decode ≠ none → e.buffer = none ∧ e.elementOnly = false
  attempts : e.attempts ≤ kMaxSoundDecodeAttempts
  spent : e.attempts = kMaxSoundDecodeAttempts → e.elementOnly = true

variable {e : SoundEntry}

theorem sound_new : Sound {} where
  unset := fun _ => rfl
  pending := fun pending => absurd rfl pending
  attempts := Nat.zero_le _
  spent := fun spent => by cases spent

theorem waits_eq_false : e.waits = false ↔ e.buffer = none ∧ e.decode = none ∧ e.elementOnly = false := by
  unfold waits
  rw [Bool.or_eq_false_iff, Bool.or_eq_false_iff, Option.isSome_eq_false_iff, Option.isSome_eq_false_iff, Option.isNone_iff_eq_none,
    Option.isNone_iff_eq_none, and_assoc]

theorem Sound.failed (sound : Sound e) (idle : e.decode = none) (open_ : e.elementOnly = false) : Sound e.failed := by
  have room : e.attempts ≠ kMaxSoundDecodeAttempts := fun spent => by
    rw [sound.spent spent] at open_
    cases open_
  have below := sound.attempts
  -- the attempt that uses up the limit is the one that makes the entry element-only
  unfold SoundEntry.failed
  split
  next last =>
    exact ⟨sound.unset, fun pending => absurd idle pending, by dsimp only; omega, fun _ => rfl⟩
  next more =>
    refine ⟨sound.unset, fun pending => absurd idle pending, by dsimp only; omega, fun spent => ?_⟩
    dsimp only at spent
    omega

theorem Sound.decoded (sound : Sound e) (idle : e.decode = none) (size : Nat) : Sound (e.decoded size) := by
  unfold SoundEntry.decoded
  split
  · exact ⟨sound.unset, fun pending => absurd idle pending, sound.attempts, fun _ => rfl⟩
  · exact ⟨fun unset => absurd unset (Option.some_ne_none size), fun pending => absurd idle pending, sound.attempts, sound.spent⟩

theorem Sound.cleared (sound : Sound e) : Sound { e with decode := none } :=
  ⟨sound.unset, fun pending => absurd rfl pending, sound.attempts, sound.spent⟩

theorem failed_decode (e : SoundEntry) : e.failed.decode = e.decode := by
  unfold failed
  split <;> rfl

theorem failed_bytes (e : SoundEntry) : e.failed.bytes = e.bytes := by
  unfold failed
  split <;> rfl

theorem Sound.queued (sound : Sound e) (idle : e.waits = false) (place : Nat) : Sound { e with decode := some place } := by
  obtain ⟨unset, -, open_⟩ := waits_eq_false.mp idle
  exact ⟨sound.unset, fun _ => ⟨unset, open_⟩, sound.attempts, sound.spent⟩

end SoundEntry

/-! ### Steps -/

namespace SoundPage

/-- The bytes that an item of the cache holds. -/
def bytesOf (s : SoundPage) (item : String × Nat) : Nat := (s.entries item.2).bytes

def retained (s : SoundPage) : Nat := totalSize s.bytesOf s.soundCache

/-- `soundCache.get`. -/
def get (s : SoundPage) (url : String) : Option Nat := (s.soundCache.find? fun item => item.1 = url).map Prod.snd

def setEntry (s : SoundPage) (e : Nat) (entry : SoundEntry) : SoundPage := { s with entries := Function.update s.entries e entry }

def setPhase (s : SoundPage) (place : Nat) (phase : LinkPhase) : SoundPage :=
  { s with decodeChain := s.decodeChain.modify place fun link => { link with phase } }

/-- All of it but what is being decoded may go, oldest first. -/
def enforceSoundBudget (s : SoundPage) : SoundPage :=
  let running (item : String × Nat) : Bool := some item.2 = s.decodingEntry
  let left := evict running s.bytesOf kMaxDecodedSoundBytes kMaxSoundEntries s.retained s.soundCache.length s.soundCache
  { s with soundCache := left }

/-- A new entry, under a URL that has none. -/
def insertEntry (url : String) (s : SoundPage) : SoundPage :=
  { s with
    entries := Function.update s.entries s.made {}
    made := s.made + 1
    soundCache := s.soundCache ++ [(url, s.made)] }

/-- `soundEntry`, with the number of the entry it returns. -/
def soundEntry (url : String) (s : SoundPage) : SoundPage × Nat :=
  match s.get url with
  | some hit => ({ s with soundCache := (s.soundCache.eraseP fun item => item.1 = url) ++ [(url, hit)] }, hit)
  -- the pass runs before the insert, so the cache may hold one entry more than the limit
  | none => (s.enforceSoundBudget.insertEntry url, s.made)

/-- A link at the end of the chain, which the entry waits for. -/
def queueLink (url : String) (e : Nat) (s : SoundPage) : SoundPage :=
  { s with
    entries := Function.update s.entries e { s.entries e with decode := some s.decodeChain.length }
    decodeChain := s.decodeChain ++ [{ url, entry := e }] }

/-- `preloadSound`, where `soundContext` returns a context or none. -/
def preloadSound (url : String) (ctx : Bool) (s : SoundPage) : SoundPage :=
  if url = "" then s
  else
    let e := (s.soundEntry url).2
    let s := (s.soundEntry url).1
    let entry := s.entries e
    if entry.waits then s
    -- without a context the attempt counts as one that failed
    else if !ctx then s.setEntry e entry.failed
    else s.queueLink url e

/-- `decodeSound` up to where it waits, or all of it where the link drops. -/
def startLink (place : Nat) (link : DecodeLink) (s : SoundPage) : SoundPage :=
  let entry := s.entries link.entry
  -- the entry may have been evicted, and made anew under its URL, since the link was queued
  if s.get link.url ≠ some link.entry ∨ entry.buffer.isSome ∨ entry.elementOnly then s.setPhase place .settled
  else { s.setPhase place .running with decodingEntry := some link.entry }

/-- How a fetch with its decode ends. A timeout is one of the failures. -/
inductive DecodeOutcome where
  | decoded (size : Nat)
  | failed

def DecodeOutcome.apply : DecodeOutcome → SoundEntry → SoundEntry
  | .decoded size, e => e.decoded size
  | .failed, e => e.failed

theorem DecodeOutcome.apply_cleared (outcome : DecodeOutcome) (e : SoundEntry) :
    { outcome.apply e with decode := none } = outcome.apply { e with decode := none } := by
  cases outcome with
  | decoded size =>
    show { e.decoded size with decode := none } = SoundEntry.decoded size { e with decode := none }
    unfold SoundEntry.decoded
    split <;> rfl
  | failed =>
    show { e.failed with decode := none } = SoundEntry.failed { e with decode := none }
    unfold SoundEntry.failed
    split <;> rfl

theorem DecodeOutcome.sound {e : SoundEntry} (sound : e.Sound) (open_ : e.elementOnly = false) (outcome : DecodeOutcome) :
    SoundEntry.Sound { outcome.apply e with decode := none } := by
  rw [apply_cleared]
  cases outcome with
  | decoded size => exact sound.cleared.decoded rfl size
  | failed => exact sound.cleared.failed rfl open_

/-- The rest of `decodeSound`. -/
def settleLink (place : Nat) (link : DecodeLink) (outcome : DecodeOutcome) (s : SoundPage) : SoundPage :=
  ({ s.setEntry link.entry { outcome.apply (s.entries link.entry) with decode := none } with decodingEntry := none }.setPhase place
    .settled).enforceSoundBudget

inductive SoundInput where
  | soundEntry (url : String)
  | preloadSound (url : String) (ctx : Bool)
  | start (place : Nat)
  | settle (place : Nat) (outcome : DecodeOutcome)

/-- The link at a place is in a phase. -/
def InPhase (s : SoundPage) (place : Nat) (phase : LinkPhase) : Prop := ∃ link, s.decodeChain[place]? = some link ∧ link.phase = phase

inductive Step : SoundPage → SoundInput → SoundPage → Prop
  | soundEntry (s : SoundPage) (url : String) : Step s (.soundEntry url) (s.soundEntry url).1
  | preloadSound (s : SoundPage) (url : String) (ctx : Bool) : Step s (.preloadSound url ctx) (s.preloadSound url ctx)
  | start {s : SoundPage} {place : Nat} {link : DecodeLink} (there : s.decodeChain[place]? = some link) (queued : link.phase = .queued)
      (turn : ∀ before < place, s.InPhase before .settled) : Step s (.start place) (s.startLink place link)
  | settle {s : SoundPage} {place : Nat} {link : DecodeLink} (there : s.decodeChain[place]? = some link) (running : link.phase = .running)
      (outcome : DecodeOutcome) : Step s (.settle place outcome) (s.settleLink place link outcome)

end SoundPage

end Braidcast.Overlay
