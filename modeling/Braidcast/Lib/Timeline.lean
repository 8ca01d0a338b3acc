import Mathlib.Data.List.Basic

/-!
# Timelines

The states that were recorded, with a position among them. What relates each state to the next is
kept by every move, so a record of how to get from one to the other is as good at any position.
-/
namespace Braidcast.Lib

/-- The states behind the position, the newest first, the one at it and those ahead of it. -/
structure Timeline (σ : Type) where
  past : List σ
  now : σ
  future : List σ

namespace Timeline

variable {σ ι : Type} {t : Timeline σ} {R : ι → σ → σ → Prop} {items : List ι} {item : ι} {now s : σ} {states : List σ}

def start (s : σ) : Timeline σ := ⟨[], s, []⟩

/-- A new state drops those ahead, and the oldest behind past `cap`. -/
def record (t : Timeline σ) (cap : Nat) (s : σ) : Timeline σ := ⟨(t.now :: t.past).take cap, s, []⟩

def back (t : Timeline σ) : Timeline σ :=
  match t.past with
  | [] => t
  | s :: past => ⟨past, s, t.now :: t.future⟩

def forward (t : Timeline σ) : Timeline σ :=
  match t.future with
  | [] => t
  | s :: future => ⟨t.now :: t.past, s, future⟩

/-- Each item leads to `now` from the state that the next one leads to. -/
inductive Behind (R : ι → σ → σ → Prop) : List ι → σ → List σ → Prop
  | nil (now : σ) : Behind R [] now []
  | cons {item : ι} {items : List ι} {s now : σ} {states : List σ} :
      R item s now → Behind R items s states → Behind R (item :: items) now (s :: states)

/-- Each item leads from `now` to the state that the next one leads from. -/
inductive Ahead (R : ι → σ → σ → Prop) : List ι → σ → List σ → Prop
  | nil (now : σ) : Ahead R [] now []
  | cons {item : ι} {items : List ι} {s now : σ} {states : List σ} :
      R item now s → Ahead R items s states → Ahead R (item :: items) now (s :: states)

theorem Behind.take (behind : Behind R items now states) (cap : Nat) : Behind R (items.take cap) now (states.take cap) := by
  induction behind generalizing cap with
  | nil now =>
    rw [List.take_nil, List.take_nil]
    exact .nil now
  | @cons item items s now states leads _ ih =>
    cases cap with
    | zero => exact .nil now
    | succ cap => exact .cons leads (ih cap)

/-- Two stacks of items that record the timeline. -/
structure Records (R : ι → σ → σ → Prop) (undo redo : List ι) (t : Timeline σ) : Prop where
  behind : Behind R undo t.now t.past
  ahead : Ahead R redo t.now t.future

variable {undo redo : List ι}

theorem records_start (R : ι → σ → σ → Prop) (s : σ) : Records R [] [] (start s) := ⟨.nil s, .nil s⟩

theorem Records.record (records : Records R undo redo t) (leads : R item t.now s) (cap : Nat) :
    Records R ((item :: undo).take cap) [] (t.record cap s) :=
  ⟨(Behind.cons leads records.behind).take cap, .nil s⟩

/-- The last item behind is the next one ahead, a step back. -/
theorem Records.back (records : Records R (item :: undo) redo t) : R item t.back.now t.now ∧ Records R undo (item :: redo) t.back := by
  obtain ⟨past, now, future⟩ := t
  obtain ⟨behind, ahead⟩ := records
  cases behind with
  | cons leads behind => exact ⟨leads, behind, .cons leads ahead⟩

theorem Records.forward (records : Records R undo (item :: redo) t) :
    R item t.now t.forward.now ∧ Records R (item :: undo) redo t.forward := by
  obtain ⟨past, now, future⟩ := t
  obtain ⟨behind, ahead⟩ := records
  cases ahead with
  | cons leads ahead => exact ⟨leads, .cons leads behind, ahead⟩

end Timeline

end Braidcast.Lib
