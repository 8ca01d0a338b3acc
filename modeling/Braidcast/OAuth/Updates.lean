import Braidcast.OAuth.SingleFlight

/-!
# Writes that touch what they are about

The store as its writers mean it: a field-scoped update sets its field, a relink sets the
record, and a refresh sets the credential it has refreshed, on a record that still has it.
`ensureFresh` writes the whole record it read before the exchange, so the two agree as long
as that record is still the stored one when it does.
-/
namespace Braidcast.OAuth

open Lib

/-! ### What the steps ask for -/

def OAuthAccount.SameCredential (a b : OAuthAccount) : Prop :=
  a.access = b.access ∧ a.refresh = b.refresh

instance (a b : OAuthAccount) : Decidable (a.SameCredential b) :=
  inferInstanceAs (Decidable (_ ∧ _))

def OAuthAccount.withCredential (a new : OAuthAccount) : OAuthAccount :=
  { a with access := new.access, refresh := new.refresh, expireTime := new.expireTime, refreshDead := new.refreshDead }

/-- What an answered exchange says about the record it was made for. -/
def Flight.asks (flight : Flight) (accounts : AccountStore) : AccountStore :=
  match flight.phase with
  | .answered (some stored) (.ok new) =>
    accounts.modify flight.id fun a => if a.SameCredential stored then a.withCredential new else a
  | .answered (some stored) (.failed .dead _) =>
    accounts.modify flight.id fun a => if a.SameCredential stored then { a with refreshDead := true } else a
  | _ => accounts

/-- The records after a step, if it touches no more than it is about. -/
def asked (accounts : AccountStore) (m : Moment Accounts AccountStep) : AccountStore :=
  match m.input with
  | .put id account => accounts.put id account
  | .remove id => accounts.remove id
  | .updateAudience id audience => accounts.updateAudience id audience
  | .updateReusableStreamId id profileUuid streamId => accounts.updateReusableStreamId id profileUuid streamId
  | .setQuotaReset id epochSeconds => accounts.setQuotaReset id epochSeconds
  | .write k =>
    match m.before.flights[k]? with
    | some flight => flight.asks accounts
    | none => accounts
  | _ => accounts

/-! ### When the write-back is safe -/

/-- For the record now stored: a success finds it as the exchange read it, a dead verdict
finds the credential it is about; or the account is gone. -/
def Flight.Settled (flight : Flight) (now : Option OAuthAccount) : Prop :=
  match flight.phase with
  | .answered stored (.ok _) => now = none ∨ now = stored
  | .answered stored (.failed .dead _) => ∀ a ∈ now, ∃ b ∈ stored, a.SameCredential b
  | _ => True

instance (flight : Flight) (now : Option OAuthAccount) : Decidable (flight.Settled now) :=
  match flight with
  | ⟨_, _, _, .answered stored (.ok _)⟩ => inferInstanceAs (Decidable (now = none ∨ now = stored))
  | ⟨_, _, _, .answered stored (.failed .dead _)⟩ =>
    inferInstanceAs (Decidable (∀ a ∈ now, ∃ b ∈ stored, OAuthAccount.SameCredential a b))
  | ⟨_, _, _, .answered _ (.failed .transient _)⟩ => inferInstanceAs (Decidable True)
  | ⟨_, _, _, .waiting⟩ | ⟨_, _, _, .locked⟩ | ⟨_, _, _, .ready _⟩ | ⟨_, _, _, .submitted _⟩ | ⟨_, _, _, .returned ..⟩ =>
    inferInstanceAs (Decidable True)

namespace Accounts

def Settled (s : Accounts) : AccountStep → Prop
  | .write k => ∀ flight ∈ s.flights[k]?, flight.Settled (s.accounts flight.id)
  | _ => True

instance (s : Accounts) : (i : AccountStep) → Decidable (s.Settled i)
  | .write k => inferInstanceAs (Decidable (∀ flight ∈ s.flights[k]?, flight.Settled (s.accounts flight.id)))
  | .put .. | .remove .. | .updateAudience .. | .updateReusableStreamId .. | .setQuotaReset .. | .call .. | .lock ..
  | .read .. | .submit .. | .answer .. => inferInstanceAs (Decidable True)

/-! ### What a call carries -/

/-- A call carries the record it read, and its answer changes the credential alone. -/
def Carries (s : Accounts) : Prop :=
  ∀ flight ∈ s.flights, ∀ stored,
    (flight.phase = .ready (some stored) ∨ flight.phase = .submitted (some stored) → flight.acct = stored) ∧
      ∀ new, flight.phase = .answered (some stored) (.ok new) → new = stored.withCredential new

variable {usesRefreshToken : String → Bool} {s s' : Accounts} {k : Nat} {flight flight' : Flight} {i : AccountStep}

theorem applyTokenFields_some {j : TokenBody} {acct new : OAuthAccount} {now : Int}
    (applied : applyTokenFields j acct now = some new) : new = acct.withCredential new := by
  simp only [applyTokenFields] at applied
  split at applied
  · cases applied
  · cases applied
    rfl

theorem refreshOnce_ok {acct new : OAuthAccount} {resp : HttpResponse} {now : Int} (ok : refreshOnce acct resp now = .ok new) :
    new = acct.withCredential new := by
  simp only [refreshOnce] at ok
  split at ok
  · cases ok
  · split at ok
    · cases ok
    · split at ok
      next fresh applied =>
        cases ok
        have same := applyTokenFields_some applied
        rw [same]
        rfl
      · cases ok

theorem Carries.set (carries : s.Carries) (flights : s'.flights = s.flights.set k flight')
    (own : ∀ stored, (flight'.phase = .ready (some stored) ∨ flight'.phase = .submitted (some stored) → flight'.acct = stored) ∧
      ∀ new, flight'.phase = .answered (some stored) (.ok new) → new = stored.withCredential new) : s'.Carries := by
  intro flight member
  rw [flights] at member
  rcases List.mem_or_eq_of_mem_set member with old | rfl
  · exact carries flight old
  · exact own

theorem Carries.flightStep (carries : s.Carries) (there : s.flights[k]? = some flight)
    (step : s.flightStep k flight i = some s') : s'.Carries := by
  have mine := carries flight (List.mem_of_getElem? there)
  cases stage_of_flightStep step with
  | lock | ends | store | dead | transient => exact carries.set rfl (by simp)
  | ready =>
    refine carries.set rfl fun stored => ⟨fun ready => ?_, by simp⟩
    have found : s.accounts flight.id = some stored := by simpa using ready
    simp only [found, Option.getD_some]
  | @submit stored _ phase =>
    refine carries.set rfl fun stored' => ⟨fun submitted => ?_, by simp⟩
    have same : stored = some stored' := by simpa using submitted
    exact (mine stored').1 (.inl (same ▸ phase))
  | @answer stored _ resp now phase =>
    have answered : (s.setFlight k { flight with phase := .answered stored (refreshOnce flight.acct resp now) }).Carries := by
      refine carries.set rfl fun stored' => ⟨by simp, fun new same => ?_⟩
      simp only [FlightPhase.answered.injEq] at same
      rw [← (mine stored').1 (.inr (same.1 ▸ phase))]
      exact refreshOnce_ok same.2
    -- the broker's books hold no call
    simp only [book]
    split
    · split
      · exact answered
      · exact answered
    · exact answered

theorem Carries.step (carries : s.Carries) (step : s.step usesRefreshToken i = some s') : s'.Carries := by
  cases i with
  | put id account | remove id | updateAudience id audience | updateReusableStreamId id profileUuid streamId
  | setQuotaReset id epochSeconds =>
    rw [← Option.some.inj step]
    exact carries
  | call acct force now =>
    simp only [Accounts.step] at step
    rw [← Option.some.inj step]
    intro flight member
    rcases List.mem_append.mp member with old | new
    · exact carries flight old
    -- a new call waits or has returned
    · rw [List.mem_singleton.mp new]
      intro stored
      simp only
      split
      · simp
      · simp
  | lock k | read k now | submit k | answer k resp now | write k =>
    obtain ⟨flight, there, step⟩ := Option.bind_eq_some_iff.mp step
    exact carries.flightStep there step

/-! ### Each step does what it asks -/

theorem modify_none {accounts : AccountStore} {id : String} {change : OAuthAccount → OAuthAccount} (gone : accounts id = none) :
    accounts.modify id change = accounts := by
  rw [AccountStore.modify, gone, Option.map_none, ← gone, Function.update_eq_self]

theorem modify_congr {accounts : AccountStore} {id : String} {change change' : OAuthAccount → OAuthAccount}
    (same : ∀ a, accounts id = some a → change a = change' a) : accounts.modify id change = accounts.modify id change' := by
  cases there : accounts id with
  | none => rw [modify_none there, modify_none there]
  | some a => rw [AccountStore.modify, AccountStore.modify, there, Option.map_some, Option.map_some, same a there]

/-- The whole record is written back where the record it was read from still is. -/
theorem updateExisting_asked {stored : Option OAuthAccount} {new : OAuthAccount} (carries : s.Carries)
    (there : s.flights[k]? = some flight) (phase : flight.phase = .answered stored (.ok new))
    (settled : flight.Settled (s.accounts flight.id)) :
    s.accounts.updateExisting flight.id new = flight.asks s.accounts := by
  simp only [Flight.Settled, phase] at settled
  rcases settled with gone | still
  -- the account was removed: neither writes
  · rw [AccountStore.updateExisting, modify_none gone]
    simp only [Flight.asks, phase]
    split
    next same => rw [modify_none gone]
    next same => cases same
    · rfl
  · cases stored with
    | none =>
      rw [AccountStore.updateExisting, modify_none still]
      simp only [Flight.asks, phase]
    | some b =>
      -- what is written differs from the record read in the credential alone
      have own := (carries flight (List.mem_of_getElem? there) b).2 new phase
      simp only [Flight.asks, phase]
      apply modify_congr
      intro a now
      rw [still] at now
      cases now
      have same : b.SameCredential b := ⟨rfl, rfl⟩
      rw [if_pos same]
      exact own

theorem setRefreshDead_asked {stored : Option OAuthAccount} {err : String}
    (phase : flight.phase = .answered stored (.failed .dead err)) (settled : flight.Settled (s.accounts flight.id)) :
    s.accounts.setRefreshDead flight.id true = flight.asks s.accounts := by
  simp only [Flight.Settled, phase] at settled
  cases stored with
  | none =>
    -- the call never read a record, so the verdict is about none that is stored
    have gone : s.accounts flight.id = none := by
      cases now : s.accounts flight.id with
      | none => rfl
      | some a =>
        obtain ⟨b, none, _⟩ := settled a now
        cases none
    rw [AccountStore.setRefreshDead, modify_none gone]
    simp only [Flight.asks, phase]
  | some b =>
    simp only [Flight.asks, phase]
    apply modify_congr
    intro a now
    obtain ⟨b', same, credential⟩ := settled a now
    cases same
    rw [if_pos credential]

theorem accounts_book (s : Accounts) (id : String) (acct : OAuthAccount) (result : Refreshed) :
    (s.book id acct result).accounts = s.accounts := by
  simp only [book]
  split
  · split <;> rfl
  · rfl

theorem asked_of_step (carries : s.Carries) (settled : s.Settled i) (step : s.step usesRefreshToken i = some s') :
    s'.accounts = asked s.accounts ⟨s, i, s'⟩ := by
  cases i with
  | put id account | remove id | updateAudience id audience | updateReusableStreamId id profileUuid streamId
  | setQuotaReset id epochSeconds =>
    rw [← Option.some.inj step]
    rfl
  | call acct force now =>
    simp only [Accounts.step] at step
    rw [← Option.some.inj step]
    rfl
  | lock k | read k now | submit k =>
    obtain ⟨flight, there, step⟩ := Option.bind_eq_some_iff.mp step
    cases stage_of_flightStep step <;> rfl
  | answer k resp now =>
    obtain ⟨flight, there, step⟩ := Option.bind_eq_some_iff.mp step
    cases stage_of_flightStep step
    exact accounts_book ..
  | write k =>
    obtain ⟨flight, there, step⟩ := Option.bind_eq_some_iff.mp step
    have settled := settled flight there
    simp only [asked, there]
    cases stage_of_flightStep step with
    | store _ phase => exact updateExisting_asked carries there phase settled
    | dead err phase => exact setRefreshDead_asked phase settled
    | transient err phase =>
      simp only [Flight.asks, phase]
      rfl

/-! ### Whole runs -/

theorem asked_of_run {u : Accounts} {ms : List (Moment Accounts AccountStep)}
    (run : Run (fun s i t => s.step usesRefreshToken i = some t) s ms u) (settled : ∀ m ∈ ms, m.before.Settled m.input)
    (carries : s.Carries) : u.accounts = ms.foldl asked s.accounts := by
  induction run with
  | nil => rfl
  | cons step rest ih =>
    rw [List.foldl_cons, ← asked_of_step carries (settled _ List.mem_cons_self) step]
    exact ih (fun m later => settled m (List.mem_cons_of_mem _ later)) (carries.step step)

/-- Only `Put` adds an account. -/
theorem absent_of_step {id : String} (absent : s.accounts id = none) (unput : ∀ account, i ≠ .put id account)
    (step : s.step usesRefreshToken i = some s') : s'.accounts id = none := by
  have kept : ∀ id' (change : OAuthAccount → OAuthAccount), s.accounts.modify id' change id = none := by
    intro id' change
    rw [AccountStore.modify, Function.update_apply]
    split
    next same => rw [← same, absent, Option.map_none]
    · exact absent
  cases i with
  | put id' account =>
    rw [← Option.some.inj step]
    have other : id ≠ id' := fun same => unput account (same ▸ rfl)
    exact (Function.update_of_ne other ..).trans absent
  | remove id' =>
    rw [← Option.some.inj step]
    simp only [AccountStore.remove, Function.update_apply]
    split
    · rfl
    · exact absent
  | updateAudience id' | updateReusableStreamId id' | setQuotaReset id' =>
    rw [← Option.some.inj step]
    exact kept ..
  | call acct force now =>
    simp only [Accounts.step] at step
    rw [← Option.some.inj step]
    exact absent
  | lock k | read k now | submit k =>
    obtain ⟨flight, there, step⟩ := Option.bind_eq_some_iff.mp step
    cases stage_of_flightStep step <;> exact absent
  | answer k resp now =>
    obtain ⟨flight, there, step⟩ := Option.bind_eq_some_iff.mp step
    cases stage_of_flightStep step
    rw [accounts_book]
    exact absent
  | write k =>
    obtain ⟨flight, there, step⟩ := Option.bind_eq_some_iff.mp step
    cases stage_of_flightStep step with
    | store | dead => exact kept ..
    | transient => exact absent

/-- In every run whose write-backs find the record they were read from, the store is what its
writers asked for: no write is undone by an older value. And in every run an account that is
gone stays gone until it is put again. -/
theorem no_update_lost {start u : Accounts} {ms : List (Moment Accounts AccountStep)} (idle : start.flights = [])
    (run : Run (fun s i t => s.step usesRefreshToken i = some t) start ms u) (settled : ∀ m ∈ ms, m.before.Settled m.input) :
    u.accounts = ms.foldl asked start.accounts ∧
      ∀ xs m ys id, ms = xs ++ m :: ys → m.after.accounts id = none → (∀ m' ∈ ys, ∀ account, m'.input ≠ .put id account) →
        u.accounts id = none := by
  refine ⟨asked_of_run run settled ?_, ?_⟩
  · intro flight member
    rw [idle] at member
    cases member
  · rintro xs m ys id rfl gone unput
    obtain ⟨_, _, rest⟩ := Run.append_iff.mp run
    obtain ⟨_, _, later⟩ := Run.cons_iff.mp rest
    have absent := later.invariant (P := fun s => s.accounts id = none) (Q := fun m => ∀ account, m.input ≠ .put id account)
      (fun _ ok step absent => absent_of_step absent ok step) unput gone
    exact absent.1

/-- Viewers counted before the exchange and a quota after it; then the account is removed in
the middle of another exchange. -/
theorem no_update_lost_around_exchanges : ∃ (ms : List (Moment Accounts AccountStep)) (u : Accounts),
    Run (fun s i t => s.step (fun _ => true) i = some t) (connected kickAccount) ms u ∧ (∀ m ∈ ms, m.before.Settled m.input) ∧
    u.flights.map Flight.phase = [.returned true "", .returned true ""] ∧
    u.accounts = ms.foldl asked (connected kickAccount).accounts ∧ u.accounts "kick:7" = none := by
  obtain ⟨ms, u, run, shown⟩ := exists_run_of_follow (step fun _ => true) (connected kickAccount)
    [.call kickAccount true 100, .lock 0, .updateAudience "kick:7" { count := 10 }, .read 0 100, .submit 0,
      .answer 0 { status := 200, body := some { accessToken := "a1", expiresIn := 60, refreshToken := "r1" } } 101, .write 0,
      .setQuotaReset "kick:7" 500, .call { kickAccount with access := "a1" } true 200, .lock 1, .read 1 200, .submit 1,
      .remove "kick:7", .answer 1 { status := 200, body := some { accessToken := "a2", expiresIn := 60 } } 201, .write 1]
    (fun ms u => ms.all (fun m => m.before.Settled m.input) &&
      (u.flights.map Flight.phase = [.returned true "", .returned true ""] && u.accounts "kick:7" = none)) (by decide)
  rw [Bool.and_eq_true, Bool.and_eq_true, List.all_eq_true] at shown
  obtain ⟨settled, phases, gone⟩ := shown
  have ok : ∀ m ∈ ms, m.before.Settled m.input := fun m member => of_decide_eq_true (settled m member)
  exact ⟨ms, u, run, ok, of_decide_eq_true phases, (no_update_lost rfl run ok).1, of_decide_eq_true gone⟩

/-- Viewers counted during the exchange are replaced by the count read before it. -/
theorem audience_lost_to_write_back :
    ¬ ∀ (start : Accounts) (ms : List (Moment Accounts AccountStep)) (u : Accounts), start.flights = [] →
      Run (fun s i t => s.step (fun _ => true) i = some t) start ms u → u.accounts = ms.foldl asked start.accounts := by
  intro claimed
  obtain ⟨ms, u, run, shown⟩ := exists_run_of_follow (step fun _ => true) (connected kickAccount)
    [.call kickAccount true 100, .lock 0, .read 0 100, .submit 0, .updateAudience "kick:7" { count := 10 },
      .answer 0 { status := 200, body := some { accessToken := "a1", expiresIn := 60, refreshToken := "r1" } } 101, .write 0]
    (fun ms u => !decide (u.accounts "kick:7" = ms.foldl asked (connected kickAccount).accounts "kick:7")) (by decide)
  rw [Bool.not_eq_true'] at shown
  exact of_decide_eq_false shown (congrFun (claimed (connected kickAccount) ms u rfl run) "kick:7")

end Accounts

end Braidcast.OAuth
