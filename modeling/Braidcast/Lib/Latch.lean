import Mathlib.Data.List.DropRight
import Mathlib.Order.WellFounded

/-!
# Latches

A latch hears one value after another, some of them in a band. It locks on a band that it heard
`enter` times in a row, and lets go once `leave` values in a row were outside it. Two counters do
this in one pass; `Holds` says the same of everything that was heard.
-/
namespace Braidcast.Lib

variable {β : Type} {enter leave : Nat} {heard before after part : List (Option β)} {b : Option β} {f g : β}

/-- No `leave` values in a row are outside the band. -/
def Stays (leave : Nat) (f : β) (heard : List (Option β)) : Prop := ∀ gap, gap <:+: heard → gap.length = leave → some f ∈ gap

/-- There was a run of `enter` values in the band, which was not left after it. -/
def Holds (enter leave : Nat) (f : β) (heard : List (Option β)) : Prop :=
  ∃ before after, heard = before ++ List.replicate enter (some f) ++ after ∧ Stays leave f after

theorem stays_nil (leaves : 0 < leave) : Stays leave f [] := by
  intro gap within length
  rw [List.infix_nil.mp within] at length
  exact absurd length (Nat.ne_of_lt leaves)

theorem Stays.of_infix (stays : Stays leave f heard) (within : part <:+: heard) : Stays leave f part :=
  fun gap inner => stays gap (inner.trans within)

/-- A value in the band ends whatever was outside it. -/
theorem Stays.join {rest : List (Option β)} (stays : Stays leave f heard) (again : Stays leave f rest) :
    Stays leave f (heard ++ some f :: rest) := by
  intro gap within length
  rcases List.infix_append_iff.mp within with early | late | ⟨first, second, rfl, ends, starts⟩
  · exact stays gap early length
  · rcases List.infix_cons_iff.mp late with starts | later
    · cases gap with
      | nil => exact again [] List.nil_infix length
      | cons b gap =>
        obtain ⟨same, -⟩ := List.cons_prefix_cons.mp starts
        exact same ▸ List.mem_cons_self
    · exact again gap later length
  · cases second with
    | nil =>
      rw [List.append_nil] at length ⊢
      exact stays first ends.isInfix length
    | cons b second =>
      obtain ⟨same, -⟩ := List.cons_prefix_cons.mp starts
      exact List.mem_append_right _ (same ▸ List.mem_cons_self)

/-- A band that holds was heard among the last `leave` values. -/
theorem Holds.mem_suffix (holds : Holds enter leave f heard) (enters : 0 < enter) {gap : List (Option β)} (last : gap <:+ heard)
    (length : gap.length = leave) : some f ∈ gap := by
  obtain ⟨before, after, rfl, stays⟩ := holds
  obtain ⟨n, rfl⟩ := Nat.exists_eq_succ_of_ne_zero (Nat.ne_of_gt enters)
  have ends : some f :: after <:+ before ++ List.replicate (n + 1) (some f) ++ after := by
    refine ⟨before ++ List.replicate n (some f), ?_⟩
    rw [List.replicate_succ']
    simp
  rcases List.suffix_or_suffix_of_suffix last ends with inner | outer
  · rcases List.suffix_cons_iff.mp inner with rfl | later
    · exact List.mem_cons_self
    · exact stays gap later.isInfix length
  · exact outer.subset List.mem_cons_self

/-! ### The run that a lock is taken from -/

/-- The earliest run that the band was not left after. -/
structure Takes (enter leave : Nat) (f : β) (heard before after : List (Option β)) : Prop where
  whole : heard = before ++ List.replicate enter (some f) ++ after
  stays : Stays leave f after
  earliest : ∀ before' after', heard = before' ++ List.replicate enter (some f) ++ after' → Stays leave f after' →
    before.length ≤ before'.length

theorem Holds.takes (holds : Holds enter leave f heard) : ∃ before after, Takes enter leave f heard before after := by
  let starts (n : Nat) := ∃ before after, before.length = n ∧ heard = before ++ List.replicate enter (some f) ++ after ∧ Stays leave f after
  obtain ⟨before, after, whole, stays⟩ := holds
  obtain ⟨n, ⟨before, after, rfl, whole, stays⟩, least⟩ := Nat.lt_wfRel.wf.has_min {n | starts n} ⟨_, before, after, rfl, whole, stays⟩
  refine ⟨before, after, whole, stays, fun before' after' whole' stays' => ?_⟩
  exact Nat.not_lt.mp (least before'.length ⟨before', after', rfl, whole', stays'⟩)

namespace Takes

section

variable (takes : Takes enter leave f heard before after)
include takes

/-- From the end of the run on the band holds. -/
theorem holds (upTo : part <+: heard) (ended : before.length + enter ≤ part.length) :
    Holds enter leave f part := by
  obtain ⟨whole, stays, -⟩ := takes
  subst whole
  have run : before ++ List.replicate enter (some f) <+: part :=
    List.prefix_of_prefix_length_le (List.prefix_append _ after) upTo (by simpa using ended)
  obtain ⟨rest, rfl⟩ := run
  exact ⟨before, rest, rfl, stays.of_infix ((List.prefix_append_right_inj _).mp upTo).isInfix⟩

/-- The run while it is heard. -/
theorem within (upTo : part <+: heard) (began : before.length ≤ part.length) (on : part.length < before.length + enter) :
    ∃ k j, part = before ++ List.replicate k (some f) ∧ heard = part ++ some f :: (List.replicate j (some f) ++ after) := by
  obtain ⟨k, length⟩ := Nat.exists_eq_add_of_le began
  obtain ⟨j, rfl⟩ : ∃ j, enter = k + (j + 1) := ⟨enter - k - 1, by omega⟩
  have whole : heard = before ++ List.replicate k (some f) ++ some f :: (List.replicate j (some f) ++ after) := by
    rw [takes.whole, List.replicate_add, List.replicate_succ]
    simp
  have same : part = before ++ List.replicate k (some f) := by
    have sameLength : part.length = (before ++ List.replicate k (some f)).length := by
      rw [length, List.length_append, List.length_replicate]
    exact (List.prefix_of_prefix_length_le upTo ⟨_, whole.symm⟩ (Nat.le_of_eq sameLength)).eq_of_length sameLength
  exact ⟨k, j, same, same ▸ whole⟩

/-- During the run the band did not hold yet. -/
theorem not_holds (leaves : 0 < leave) (upTo : part <+: heard)
    (began : before.length ≤ part.length) (on : part.length < before.length + enter) : ¬ Holds enter leave f part := by
  rintro ⟨before', after', whole', stays'⟩
  obtain ⟨k, j, -, rest⟩ := takes.within upTo began on
  have still : Stays leave f (after' ++ some f :: (List.replicate j (some f) ++ after)) := by
    refine stays'.join ?_
    clear rest
    induction j with
    | zero => exact takes.stays
    | succ j ih => exact (stays_nil leaves).join ih
  rw [whole', List.append_assoc] at rest
  have early := takes.earliest before' _ rest still
  rw [whole', List.length_append, List.length_append, List.length_replicate] at on
  omega

/-- From `leave` values into the run on no band holds until its end. -/
theorem none_holds (enters : 0 < enter) (leaves : 0 < leave) (upTo : part <+: heard)
    (began : before.length + leave ≤ part.length) (on : part.length < before.length + enter) : ¬ Holds enter leave g part := by
  intro holds
  obtain ⟨k, j, same, -⟩ := takes.within upTo (by omega) on
  by_cases other : f = g
  · exact takes.not_holds leaves upTo (by omega) on (other ▸ holds)
  · rw [same, List.length_append, List.length_replicate] at began
    obtain ⟨n, rfl⟩ := Nat.exists_eq_add_of_le (show leave ≤ k by omega)
    have last : List.replicate leave (some f) <:+ part := by
      rw [same, Nat.add_comm, List.replicate_add, ← List.append_assoc]
      exact List.suffix_append _ _
    exact other (Option.some.inj (List.eq_of_mem_replicate (holds.mem_suffix enters last List.length_replicate))).symm

end

end Takes

/-! ### The last values -/

/-- How many of the last values meet `p`. -/
def trailing {α : Type} (p : α → Bool) (xs : List α) : Nat := (xs.rtakeWhile p).length

theorem trailing_concat {α : Type} (p : α → Bool) (xs : List α) (x : α) :
    trailing p (xs ++ [x]) = if p x then trailing p xs + 1 else 0 := by
  unfold trailing
  rw [List.rtakeWhile_concat]
  split
  · exact List.length_append
  · rfl

theorem le_trailing_iff {α : Type} {p : α → Bool} {xs : List α} {k : Nat} :
    k ≤ trailing p xs ↔ ∃ ys, ys <:+ xs ∧ ys.length = k ∧ ∀ y ∈ ys, p y = true := by
  constructor
  · intro enough
    refine ⟨(xs.rtakeWhile p).drop (trailing p xs - k), ?_, ?_, fun y member => ?_⟩
    · exact (List.drop_suffix _ _).trans (List.rtakeWhile_suffix p xs)
    · rw [List.length_drop]
      unfold trailing at enough ⊢
      omega
    · exact List.mem_rtakeWhile_imp (List.mem_of_mem_drop member)
  · rintro ⟨ys, ⟨before, rfl⟩, rfl, all⟩
    induction ys using List.reverseRecOn with
    | nil => exact Nat.zero_le _
    | append_singleton ys y ih =>
      rw [← List.append_assoc, trailing_concat, if_pos (all y (by simp)), List.length_append]
      exact Nat.succ_le_succ (ih fun y' member => all y' (List.mem_append_left _ member))

variable [DecidableEq β]

/-- How many of the last values were in the band. -/
def inside (f : β) (heard : List (Option β)) : Nat := trailing (fun b => b = some f) heard

/-- How many of the last values were not in it. -/
def outside (f : β) (heard : List (Option β)) : Nat := trailing (fun b => b ≠ some f) heard

theorem inside_concat (f : β) (heard : List (Option β)) (b : Option β) :
    inside f (heard ++ [b]) = if b = some f then inside f heard + 1 else 0 := by
  unfold inside
  simp only [trailing_concat, decide_eq_true_eq]

theorem outside_concat (f : β) (heard : List (Option β)) (b : Option β) :
    outside f (heard ++ [b]) = if b = some f then 0 else outside f heard + 1 := by
  unfold outside
  simp only [trailing_concat, decide_eq_true_eq, ne_eq, ite_not]

theorem inside_le_outside (other : f ≠ g) : inside f heard ≤ outside g heard := by
  obtain ⟨ys, last, length, all⟩ := le_trailing_iff.mp (le_refl (inside f heard))
  refine le_trailing_iff.mpr ⟨ys, last, length, fun y member => ?_⟩
  have here : y = some f := of_decide_eq_true (all y member)
  rw [here]
  exact decide_eq_true fun same => other (Option.some.inj same)

theorem Holds.outside_lt (holds : Holds enter leave f heard) (enters : 0 < enter) : outside f heard < leave := by
  by_contra far
  obtain ⟨gap, last, length, all⟩ := le_trailing_iff.mp (Nat.not_lt.mp far)
  exact absurd rfl (of_decide_eq_true (all _ (holds.mem_suffix enters last length)))

/-- What one more value does to a band: it still holds, or it was heard often enough. -/
theorem holds_concat (enters : 0 < enter) (leaves : 0 < leave) : Holds enter leave f (heard ++ [b]) ↔
    Holds enter leave f heard ∧ outside f (heard ++ [b]) < leave ∨ enter ≤ inside f (heard ++ [b]) := by
  constructor
  · intro holds
    have near := holds.outside_lt enters
    obtain ⟨before, after, same, stays⟩ := holds
    rcases List.eq_nil_or_concat after with rfl | ⟨after, b', rfl⟩
    · right
      rw [List.append_nil] at same
      refine le_trailing_iff.mpr ⟨List.replicate enter (some f), ⟨before, same.symm⟩, List.length_replicate, fun y member => ?_⟩
      exact decide_eq_true (List.eq_of_mem_replicate member)
    · left
      rw [List.concat_eq_append] at same stays
      rw [← List.append_assoc] at same
      obtain ⟨rfl, -⟩ := List.append_inj' same rfl
      exact ⟨⟨before, after, rfl, stays.of_infix List.infix_append_left⟩, near⟩
  · rintro (⟨⟨before, after, rfl, stays⟩, near⟩ | enough)
    · refine ⟨before, after ++ [b], by rw [List.append_assoc _ after], fun gap within length => ?_⟩
      rcases List.infix_concat_iff.mp within with last | early
      · by_contra absent
        refine absurd (le_trailing_iff.mpr ⟨gap, ?_, length, fun y member => ?_⟩) (Nat.not_le.mpr near)
        · rw [List.append_assoc]
          exact last.trans (List.suffix_append _ _)
        · exact decide_eq_true fun same => absent (same ▸ member)
      · exact stays gap early length
    · obtain ⟨run, ⟨before, same⟩, length, all⟩ := le_trailing_iff.mp enough
      have run : run = List.replicate enter (some f) :=
        List.eq_replicate_iff.mpr ⟨length, fun y member => of_decide_eq_true (all y member)⟩
      refine ⟨before, [], ?_, stays_nil leaves⟩
      rw [List.append_nil, ← run, same]

/-! ### The two counters -/

structure Latch (β : Type) where
  streak : Option β
  count : Nat
  locked : Option β
  exits : Nat

namespace Latch

variable {l : Latch β}

def unlocked : Latch β := ⟨none, 0, none, 0⟩

/-- How long the last values were in one band. -/
def track (l : Latch β) (b : Option β) : Latch β :=
  if b.isSome ∧ b = l.streak then { l with count := l.count + 1 } else { l with streak := b, count := if b.isSome then 1 else 0 }

def release (leave : Nat) (l : Latch β) (b : Option β) : Latch β :=
  match l.locked with
  | some g =>
    let exits := if b = some g then 0 else l.exits + 1
    if leave ≤ exits then { l with locked := none, exits := 0 } else { l with exits := exits }
  | none => l

def engage (enter : Nat) (l : Latch β) : Latch β :=
  match l.locked, l.streak with
  | none, some f => if enter ≤ l.count then { l with locked := some f, exits := 0 } else l
  | _, _ => l

def hear (enter leave : Nat) (l : Latch β) (b : Option β) : Latch β := ((l.track b).release leave b).engage enter

/-- The counters tell what was heard. -/
structure Tells (enter leave : Nat) (l : Latch β) (heard : List (Option β)) : Prop where
  streak : ∀ f, inside f heard = if l.streak = some f then l.count else 0
  exits : ∀ g, l.locked = some g → l.exits = outside g heard
  locked : ∀ f, l.locked = some f ↔ Holds enter leave f heard

theorem track_streak (streak : ∀ f, inside f heard = if l.streak = some f then l.count else 0) (b : Option β) (f : β) :
    inside f (heard ++ [b]) = if (l.track b).streak = some f then (l.track b).count else 0 := by
  rw [inside_concat, streak f]
  unfold track
  by_cases goes : b.isSome ∧ b = l.streak
  · rw [if_pos goes, goes.2]
    dsimp only
    split <;> rfl
  · rw [if_neg goes]
    dsimp only
    by_cases here : b = some f
    · rw [here] at goes ⊢
      have other : l.streak ≠ some f := fun same => goes ⟨rfl, same.symm⟩
      rw [if_pos rfl, if_pos rfl, if_neg other]
      rfl
    · rw [if_neg here, if_neg here]

theorem track_rest (l : Latch β) (b : Option β) : (l.track b).locked = l.locked ∧ (l.track b).exits = l.exits := by
  unfold track
  split <;> exact ⟨rfl, rfl⟩

omit [DecidableEq β] in
theorem engage_streak (enter : Nat) (l : Latch β) : (l.engage enter).streak = l.streak ∧ (l.engage enter).count = l.count := by
  unfold engage
  split
  · split <;> exact ⟨rfl, rfl⟩
  · exact ⟨rfl, rfl⟩

/-- What a latch without a lock locks on. -/
theorem engage_locked (enters : 0 < enter) (free : l.locked = none) (streak : ∀ f, inside f heard = if l.streak = some f then l.count else 0)
    (f : β) : (l.engage enter).locked = some f ↔ enter ≤ inside f heard := by
  rw [streak f]
  unfold engage
  rw [free]
  cases l.streak with
  | none =>
    dsimp only
    rw [free, if_neg (by simp)]
    exact ⟨fun locked => (by cases locked), fun none => absurd none (Nat.not_le.mpr enters)⟩
  | some g =>
    dsimp only
    split
    next enough =>
      by_cases same : g = f
      · rw [same, if_pos rfl]
        exact ⟨fun _ => enough, fun _ => rfl⟩
      · rw [if_neg (by simpa using same)]
        exact ⟨fun locked => absurd (Option.some.inj locked) same, fun none => absurd none (Nat.not_le.mpr enters)⟩
    next few =>
      rw [free]
      refine ⟨fun locked => (by cases locked), fun enough => ?_⟩
      split at enough
      · exact absurd enough few
      · exact absurd enough (Nat.not_le.mpr enters)

omit [DecidableEq β] in
theorem engage_exits (free : l.locked = none) (locks : (l.engage enter).locked = some f) : (l.engage enter).exits = 0 := by
  unfold engage at locks ⊢
  rw [free] at locks ⊢
  cases streak : l.streak with
  | none =>
    rw [streak] at locks
    cases free.symm.trans locks
  | some g =>
    rw [streak] at locks
    dsimp only at locks ⊢
    split at locks
    next enough => rw [if_pos enough]
    next => cases free.symm.trans locks

/-- A latch without a lock after `b` tells what was heard, where no band holds but by its last values. -/
theorem tells_engage (enters : 0 < enter) (leaves : 0 < leave) (free : l.locked = none)
    (streak : ∀ f, inside f (heard ++ [b]) = if l.streak = some f then l.count else 0)
    (lost : ∀ f, Holds enter leave f heard → leave ≤ outside f (heard ++ [b])) : (l.engage enter).Tells enter leave (heard ++ [b]) := by
  have locked := engage_locked enters free streak
  refine ⟨fun f => ?_, fun g locks => ?_, fun f => ?_⟩
  · rw [(engage_streak enter l).1, (engage_streak enter l).2]
    exact streak f
  · have enough := (locked g).mp locks
    rw [inside_concat] at enough
    rw [engage_exits free locks, outside_concat]
    split at enough
    next here => rw [if_pos here]
    next => exact absurd enough (Nat.not_le.mpr enters)
  · rw [locked f, holds_concat enters leaves]
    constructor
    · exact .inr
    · rintro (⟨holds, near⟩ | enough)
      · exact absurd (lost f holds) (Nat.not_le.mpr near)
      · exact enough

/-- One more value. -/
theorem Tells.hear (tells : l.Tells enter leave heard) (enters : 0 < enter) (leaves : 0 < leave) (longer : leave ≤ enter) (b : Option β) :
    (l.hear enter leave b).Tells enter leave (heard ++ [b]) := by
  have streak := track_streak tells.streak b
  obtain ⟨locked, exits⟩ := track_rest l b
  unfold Latch.hear release
  cases held : l.locked with
  | none =>
    rw [locked, held]
    refine tells_engage enters leaves (locked.trans held) streak fun f holds => ?_
    cases held.symm.trans ((tells.locked f).mpr holds)
  | some g =>
    have counted : outside g (heard ++ [b]) = if b = some g then 0 else l.exits + 1 := by
      rw [outside_concat, tells.exits g held]
    rw [locked, held, exits]
    dsimp only
    rw [← counted]
    split
    next lost =>
      -- the lock is let go, and the streak may be long enough for another
      refine tells_engage enters leaves rfl streak fun f holds => ?_
      cases held.symm.trans ((tells.locked f).mpr holds)
      exact lost
    next near =>
      refine ⟨streak, fun g' locks => ?_, fun f => ?_⟩
      · cases locks
        rfl
      · rw [holds_concat enters leaves]
        constructor
        · intro same
          cases same
          exact .inl ⟨(tells.locked g).mp held, Nat.not_le.mp near⟩
        · rintro (⟨holds, -⟩ | enough)
          · exact held.symm.trans ((tells.locked f).mpr holds)
          · by_contra other
            have far : inside f (heard ++ [b]) ≤ outside g (heard ++ [b]) := inside_le_outside fun same => other (congrArg some same).symm
            exact near (longer.trans (enough.trans far))

theorem tells_foldl (enters : 0 < enter) (leaves : 0 < leave) (longer : leave ≤ enter) (heard : List (Option β)) :
    (heard.foldl (hear enter leave) unlocked).Tells enter leave heard := by
  induction heard using List.reverseRecOn with
  | nil =>
    refine ⟨fun f => rfl, fun g locked => (by cases locked), fun f => ⟨fun locked => (by cases locked), ?_⟩⟩
    rintro ⟨before, after, whole, -⟩
    have short := congrArg List.length whole
    simp only [List.length_nil, List.length_append, List.length_replicate] at short
    omega
  | append_singleton heard b ih =>
    rw [List.foldl_append]
    exact ih.hear enters leaves longer b

end Latch

end Braidcast.Lib
