import Mathlib.Data.List.Basic

/-!
# Calls on a durable state that may stop midway

A call is a sequence of operations on a state that outlives the process. It records the
states it passes through, so that a stop between any two operations leaves one of them.
`Upholds` is the rule of pre- and postconditions for such calls, with a third condition
for what a stop may leave behind.
-/
namespace Braidcast.Lib

/-- One call: the states before each of its operations, the state it ends in and what it
returns. -/
structure Passage (σ β : Type) where
  passed : List σ
  final : σ
  result : β

/-- The states a stop of the call can leave, the one after its last operation included. -/
def Passage.leaves {σ β : Type} (p : Passage σ β) : List σ :=
  p.passed ++ [p.final]

/-- How the call ends: in full, or with the process stopped before operation number `k`. -/
def Passage.until {σ β : Type} (p : Passage σ β) : Option Nat → Option (σ × Option β)
  | none => some (p.final, some p.result)
  | some k => p.leaves[k]?.map fun s => (s, none)

def Durable (σ β : Type) : Type :=
  σ → Passage σ β

namespace Durable

variable {σ β γ : Type}

def ret (b : β) : Durable σ β :=
  fun s => ⟨[], s, b⟩

def andThen (p : Durable σ β) (f : β → Durable σ γ) : Durable σ γ :=
  fun s => ⟨(p s).passed ++ (f (p s).result (p s).final).passed,
    (f (p s).result (p s).final).final, (f (p s).result (p s).final).result⟩

/-- Reads the state without changing it. -/
def look : Durable σ σ :=
  fun s => ⟨[], s, s⟩

/-- One operation that takes effect as a whole. -/
def change (f : σ → σ) : Durable σ Unit :=
  fun s => ⟨[s], f s, ()⟩

instance : Monad (Durable σ) where
  pure := ret
  bind := andThen

/-- From a state in `P`, a stop leaves a state in `C`, and the call ends in `Q`. -/
def Upholds (P : σ → Prop) (p : Durable σ β) (C : σ → Prop) (Q : β → σ → Prop) : Prop :=
  ∀ s, P s → (∀ t ∈ (p s).passed, C t) ∧ Q (p s).result (p s).final

variable {P : σ → Prop} {C : σ → Prop} {p : Durable σ β}

theorem Upholds.weaken {P' C' : σ → Prop} {Q Q' : β → σ → Prop} (upholds : Upholds P' p C' Q')
    (pre : ∀ s, P s → P' s) (stop : ∀ s, C' s → C s) (post : ∀ b s, Q' b s → Q b s) :
    Upholds P p C Q := by
  intro s start
  obtain ⟨stops, ends⟩ := upholds s (pre s start)
  exact ⟨fun t member => stop t (stops t member), post _ _ ends⟩

theorem upholds_true : Upholds P p (fun _ => True) fun _ _ => True :=
  fun _ _ => ⟨fun _ _ => trivial, trivial⟩

variable {Q : β → σ → Prop}

theorem upholds_pure {b : β} (post : ∀ s, P s → Q b s) :
    Upholds P (pure b : Durable σ β) C Q := by
  intro s start
  exact ⟨by simp [pure, ret], post s start⟩

theorem upholds_change {f : σ → σ} {Q : Unit → σ → Prop} (stop : ∀ s, P s → C s)
    (post : ∀ s, P s → Q () (f s)) : Upholds P (change f) C Q := by
  intro s start
  refine ⟨?_, post s start⟩
  intro t member
  rw [List.mem_singleton.mp member]
  exact stop s start

theorem upholds_bind {M : β → σ → Prop} {f : β → Durable σ γ} {Q : γ → σ → Prop}
    (first : Upholds P p C M) (next : ∀ b, Upholds (M b) (f b) C Q) : Upholds P (p >>= f) C Q := by
  intro s start
  obtain ⟨stops, middle⟩ := first s start
  obtain ⟨stops', ends⟩ := next _ _ middle
  refine ⟨?_, ends⟩
  intro t member
  rcases List.mem_append.mp member with early | late
  · exact stops t early
  · exact stops' t late

/-- After a look, the call goes on with the state it saw. -/
theorem upholds_look {f : σ → Durable σ γ} {Q : γ → σ → Prop}
    (next : ∀ seen, P seen → Upholds (fun s => s = seen) (f seen) C Q) : Upholds P (look >>= f) C Q := by
  intro s start
  obtain ⟨stops, ends⟩ := next s start s rfl
  exact ⟨by simpa [bind, andThen, look] using stops, ends⟩

/-! ### After a look -/

theorem Upholds.seen {seen : σ} (upholds : Upholds P p C Q) (start : P seen) :
    Upholds (fun s => s = seen) p C Q :=
  upholds.weaken (fun _ same => same ▸ start) (fun _ h => h) (fun _ _ h => h)

theorem upholds_pure_seen {b : β} {seen : σ} (post : Q b seen) :
    Upholds (fun s => s = seen) (pure b : Durable σ β) C Q :=
  upholds_pure fun _ same => same ▸ post

theorem upholds_change_seen {f : σ → σ} {Q : Unit → σ → Prop} {seen : σ} (stop : C seen) (post : Q () (f seen)) :
    Upholds (fun s => s = seen) (change f) C Q :=
  upholds_change (fun _ same => same ▸ stop) fun _ same => same ▸ post

/-- From a known state a change leads to a known state. -/
theorem upholds_then {f : σ → σ} {g : Unit → Durable σ γ} {Q : γ → σ → Prop} {seen : σ} (stop : C seen)
    (next : Upholds (fun s => s = f seen) (g ()) C Q) : Upholds (fun s => s = seen) (change f >>= g) C Q :=
  upholds_bind (upholds_change_seen stop rfl) fun _ => next

theorem upholds_change_pure {f : σ → σ} {b : β} {seen : σ} (stop : C seen) (post : Q b (f seen)) :
    Upholds (fun s => s = seen) (change f >>= fun _ => pure b) C Q :=
  upholds_then stop (upholds_pure_seen post)

theorem upholds_of_seen (each : ∀ seen, P seen → Upholds (fun s => s = seen) p C Q) : Upholds P p C Q :=
  fun s start => each s start s rfl

/-- What a call leaves, in full or stopped. -/
theorem Upholds.until (upholds : Upholds P p C Q) (ends : ∀ b s, Q b s → C s)
    {s t : σ} {stop : Option Nat} {r : Option β} (start : P s) (ended : (p s).until stop = some (t, r)) :
    C t ∧ ∀ b, r = some b → Q b t := by
  obtain ⟨stops, last⟩ := upholds s start
  cases stop with
  | none =>
    cases ended
    refine ⟨ends _ _ last, ?_⟩
    rintro _ ⟨⟩
    exact last
  | some k =>
    obtain ⟨t', found, same⟩ := Option.map_eq_some_iff.mp ended
    cases same
    refine ⟨?_, by simp⟩
    rcases List.mem_append.mp (List.mem_of_getElem? found) with early | final
    · exact stops t early
    · rw [List.mem_singleton.mp final]
      exact ends _ _ last

end Durable

end Braidcast.Lib
