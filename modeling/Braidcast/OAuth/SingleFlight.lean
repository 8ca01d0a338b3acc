import Braidcast.OAuth.Refresh
import Braidcast.Lib.Lists

/-!
# A replaced refresh token is not handed over again

Under the flight lock the token handed over is the stored one. A success replaces it at the
broker first and in the store one step later; the lock is held over both.
-/
namespace Braidcast.OAuth

open Lib

/-- The call holds its account's flight lock. -/
def FlightPhase.holding : FlightPhase → Bool
  | .waiting | .returned .. => false
  | .locked | .ready _ | .submitted _ | .answered .. => true

/-- A success brings the token it was asked with or one that was never given out before. -/
def Refreshed.Brings (acct : OAuthAccount) (issued : List String) : Refreshed → Prop
  | .ok new => new.refresh = acct.refresh ∨ new.refresh ∉ issued
  | .failed .. => True

instance (acct : OAuthAccount) (issued : List String) : (result : Refreshed) → Decidable (result.Brings acct issued)
  | .ok _ => inferInstanceAs (Decidable (_ ∨ _))
  | .failed .. => inferInstanceAs (Decidable True)

namespace Accounts

def NewToken (s : Accounts) : AccountStep → Prop
  | .answer k resp now => ∀ flight ∈ s.flights[k]?, (refreshOnce flight.acct resp now).Brings flight.acct s.issued
  | _ => True

instance (s : Accounts) : (i : AccountStep) → Decidable (s.NewToken i)
  | .answer k resp now =>
    inferInstanceAs (Decidable (∀ flight ∈ s.flights[k]?, (refreshOnce flight.acct resp now).Brings flight.acct s.issued))
  | .put .. | .remove .. | .updateAudience .. | .updateReusableStreamId .. | .setQuotaReset .. | .call .. | .lock ..
  | .read .. | .submit .. | .write .. => inferInstanceAs (Decidable True)

/-- The step leaves the account where it is: no relink of it and no removal. -/
def Keeps (id : String) : AccountStep → Prop
  | .put id' _ | .remove id' => id' ≠ id
  | _ => True

instance (id : String) : (i : AccountStep) → Decidable (Keeps id i)
  | .put id' _ | .remove id' => inferInstanceAs (Decidable (id' ≠ id))
  | .updateAudience .. | .updateReusableStreamId .. | .setQuotaReset .. | .call .. | .lock .. | .read .. | .submit ..
  | .answer .. | .write .. => inferInstanceAs (Decidable True)

/-- What holds of one stored account at all times. -/
structure Single (id : String) (s : Accounts) : Prop where
  stored : (s.accounts id).isSome
  exclusive : ∀ (k : Nat) (flight : Flight), s.flights[k]? = some flight → flight.id = id → flight.phase.holding = true → s.locks id = some k
  issued : ∀ record, s.accounts id = some record → record.refresh ∈ s.issued
  known : ∀ token, (id, token) ∈ s.replaced → token ∈ s.issued
  carries : ∀ (k : Nat) (flight : Flight), s.flights[k]? = some flight → flight.id = id →
    ∀ stored, flight.phase = .ready stored ∨ flight.phase = .submitted stored →
    ∀ record, s.accounts id = some record → flight.acct.refresh = record.refresh
  results : ∀ (k : Nat) (flight : Flight), s.flights[k]? = some flight → flight.id = id →
    ∀ stored new, flight.phase = .answered stored (.ok new) → new.refresh ∈ s.issued ∧ (id, new.refresh) ∉ s.replaced
  /-- Only a success on its way to the store leaves a replaced token there. -/
  current : ∀ record, s.accounts id = some record → (id, record.refresh) ∈ s.replaced →
    ∃ (k : Nat) (flight : Flight), s.flights[k]? = some flight ∧ flight.id = id ∧ ∃ stored new, flight.phase = .answered stored (.ok new)

variable {id : String} {s s' : Accounts} {k : Nat} {flight flight' : Flight}

/-- A write of the store that leaves the account's refresh token alone. -/
theorem Single.store (single : s.Single id) {accounts : AccountStore} (stored : (accounts id).isSome)
    (token : ∀ record, accounts id = some record → ∃ old, s.accounts id = some old ∧ old.refresh = record.refresh) :
    Single id { s with accounts } := by
  refine ⟨stored, single.exclusive, fun record there => ?_, single.known, fun k flight inside own stored phase record there => ?_,
    single.results, fun record there replaced => ?_⟩
  · obtain ⟨old, before, same⟩ := token record there
    exact same ▸ single.issued old before
  · obtain ⟨old, before, same⟩ := token record there
    exact (single.carries k flight inside own stored phase old before).trans same
  · obtain ⟨old, before, same⟩ := token record there
    rw [← same] at replaced
    exact single.current old before replaced

theorem Single.modify (single : s.Single id) {id' : String} {change : OAuthAccount → OAuthAccount}
    (token : ∀ a, (change a).refresh = a.refresh) : Single id { s with accounts := s.accounts.modify id' change } := by
  apply single.store
  · simp only [AccountStore.modify, Function.update_apply]
    split
    -- the account is the one changed: it stays stored
    next same => rw [Option.isSome_map, ← same]; exact single.stored
    · exact single.stored
  · intro record there
    simp only [AccountStore.modify, Function.update_apply] at there
    split at there
    next same =>
      obtain ⟨old, before, rfl⟩ := Option.map_eq_some_iff.mp there
      exact ⟨old, same ▸ before, (token old).symm⟩
    · exact ⟨record, there, rfl⟩

/-- A new call holds nothing. -/
theorem Single.call (single : s.Single id) (idle : flight.phase.holding = false) :
    Single id { s with flights := s.flights ++ [flight] } := by
  -- a call that holds the lock is not the new one
  have old : ∀ (k : Nat) (f : Flight), (s.flights ++ [flight])[k]? = some f → f.phase.holding = true → s.flights[k]? = some f := by
    intro k f there holding
    by_cases bound : k < s.flights.length
    · rwa [List.getElem?_append_left bound] at there
    · rw [List.getElem?_append_right (Nat.le_of_not_lt bound)] at there
      have same := List.mem_singleton.mp (List.mem_of_getElem? there)
      rw [same, idle] at holding
      cases holding
  refine ⟨single.stored, fun k f there own holding => single.exclusive k f (old k f there holding) own holding, single.issued,
    single.known, fun k f there own stored phase record before => ?_, fun k f there own stored new phase => ?_,
    fun record there replaced => ?_⟩
  · have holding : f.phase.holding = true := by rcases phase with phase | phase <;> rw [phase] <;> rfl
    exact single.carries k f (old k f there holding) own stored phase record before
  · have holding : f.phase.holding = true := by rw [phase]; rfl
    exact single.results k f (old k f there holding) own stored new phase
  · obtain ⟨k, f, there', rest⟩ := single.current record there replaced
    exact ⟨k, f, by rw [List.getElem?_append_left (List.getElem?_eq_some_iff.mp there').1]; exact there', rest⟩

/-! ### A call's step -/

/-- What a call can do next, and when. -/
inductive Stage (s : Accounts) (k : Nat) (flight : Flight) : AccountStep → Accounts → Prop
  | lock (j : Nat) (phase : flight.phase = .waiting) (free : s.locks flight.id = none) : Stage s k flight (.lock j)
      { s.setFlight k { flight with phase := .locked } with locks := Function.update s.locks flight.id (some k) }
  /-- The token was refreshed meanwhile, or there is nothing to refresh with. -/
  | ends {ok : Bool} {err : String} (j : Nat) (now : Int) (phase : flight.phase = .locked)
      (answered : answerAfterRead flight.acct ((s.accounts flight.id).getD flight.acct) flight.force now = some (ok, err)) :
      Stage s k flight (.read j now) (s.finish k flight ok err)
  | ready (j : Nat) (now : Int) (phase : flight.phase = .locked) : Stage s k flight (.read j now)
      (s.setFlight k { flight with acct := (s.accounts flight.id).getD flight.acct, phase := .ready (s.accounts flight.id) })
  | submit {stored : Option OAuthAccount} (j : Nat) (phase : flight.phase = .ready stored) : Stage s k flight (.submit j)
      (s.setFlight k { flight with phase := .submitted stored })
  | answer {stored : Option OAuthAccount} (j : Nat) (resp : HttpResponse) (now : Int) (phase : flight.phase = .submitted stored) :
      Stage s k flight (.answer j resp now)
        ((s.setFlight k { flight with phase := .answered stored (refreshOnce flight.acct resp now) }).book flight.id flight.acct
          (refreshOnce flight.acct resp now))
  | store {stored : Option OAuthAccount} {new : OAuthAccount} (j : Nat) (phase : flight.phase = .answered stored (.ok new)) :
      Stage s k flight (.write j) { s.finish k flight true "" with accounts := s.accounts.updateExisting flight.id new }
  | dead {stored : Option OAuthAccount} {j : Nat} (err : String) (phase : flight.phase = .answered stored (.failed .dead err)) :
      Stage s k flight (.write j) { s.finish k flight false err with accounts := s.accounts.setRefreshDead flight.id true }
  | transient {stored : Option OAuthAccount} {j : Nat} (err : String) (phase : flight.phase = .answered stored (.failed .transient err)) :
      Stage s k flight (.write j) (s.finish k flight false err)

variable {i : AccountStep}

theorem stage_of_flightStep (step : s.flightStep k flight i = some s') : s.Stage k flight i s' := by
  cases i <;> simp only [Accounts.flightStep, reduceCtorEq] at step
  case lock j =>
    split at step
    next free =>
      rw [← Option.some.inj step]
      exact .lock j free.1 free.2
    · cases step
  case read j now =>
    split at step
    next phase =>
      split at step
      next ok err answered =>
        rw [← Option.some.inj step]
        exact .ends j now phase answered
      · rw [← Option.some.inj step]
        exact .ready j now phase
    · cases step
  case submit j =>
    split at step
    next stored phase =>
      rw [← Option.some.inj step]
      exact .submit j phase
    · cases step
  case answer j resp now =>
    split at step
    next stored phase =>
      rw [← Option.some.inj step]
      exact .answer j resp now phase
    · cases step
  case write j =>
    split at step
    next stored fresh phase =>
      rw [← Option.some.inj step]
      exact .store j phase
    next stored err phase =>
      rw [← Option.some.inj step]
      exact .dead err phase
    next stored err phase =>
      rw [← Option.some.inj step]
      exact .transient err phase
    · cases step

section

variable (single : s.Single id)
include single

section

variable (there : s.flights[k]? = some flight)
include there

/-- A step of a call for another account. -/
theorem Single.elsewhere (other : flight.id ≠ id)
    (flights : s'.flights = s.flights.set k flight') (same : flight'.id = flight.id) (accounts : s'.accounts id = s.accounts id)
    (locks : s'.locks id = s.locks id) (issued : ∀ token ∈ s.issued, token ∈ s'.issued)
    (replaced : ∀ token, (id, token) ∈ s'.replaced ↔ (id, token) ∈ s.replaced) : s'.Single id := by
  -- the call that moves is another account's, so each of this account's was there before
  have old : ∀ (j : Nat) (f : Flight), s'.flights[j]? = some f → f.id = id → s.flights[j]? = some f := by
    intro j f inside own
    rw [flights] at inside
    rcases getElem?_set_cases inside with ⟨_, rfl⟩ | ⟨_, before⟩
    · exact absurd (same.symm.trans own) other
    · exact before
  refine ⟨by rw [accounts]; exact single.stored, fun j f inside own holding => ?_, fun record stored => ?_, fun token member => ?_,
    fun j f inside own stored phase record stored' => ?_, fun j f inside own stored new phase => ?_, fun record stored member => ?_⟩
  · rw [locks]
    exact single.exclusive j f (old j f inside own) own holding
  · exact issued _ (single.issued record (accounts ▸ stored))
  · exact issued _ (single.known token ((replaced token).mp member))
  · exact single.carries j f (old j f inside own) own stored phase record (accounts ▸ stored')
  · obtain ⟨known, apart⟩ := single.results j f (old j f inside own) own stored new phase
    exact ⟨issued _ known, fun member => apart ((replaced _).mp member)⟩
  · obtain ⟨j, f, inside, own, answered⟩ := single.current record (accounts ▸ stored) ((replaced _).mp member)
    refine ⟨j, f, ?_, own, answered⟩
    have apart : j ≠ k := by
      rintro rfl
      rw [there] at inside
      exact other ((Option.some.inj inside) ▸ own)
    rw [flights, List.getElem?_set_ne (Ne.symm apart)]
    exact inside

/-- What a step of the one call that may hold the lock owes. -/
structure Turns (s' : Accounts) (id : String) (k : Nat) (flight' : Flight) : Prop where
  stored : (s'.accounts id).isSome
  holds : flight'.phase.holding = true → s'.locks id = some k
  issued : ∀ record, s'.accounts id = some record → record.refresh ∈ s'.issued
  known : ∀ token, (id, token) ∈ s'.replaced → token ∈ s'.issued
  carries : ∀ stored, flight'.phase = .ready stored ∨ flight'.phase = .submitted stored →
    ∀ record, s'.accounts id = some record → flight'.acct.refresh = record.refresh
  results : ∀ stored new, flight'.phase = .answered stored (.ok new) → new.refresh ∈ s'.issued ∧ (id, new.refresh) ∉ s'.replaced
  current : ∀ record, s'.accounts id = some record → (id, record.refresh) ∈ s'.replaced →
    ∃ stored new, flight'.phase = .answered stored (.ok new)

theorem Single.turn (own : flight.id = id) (flights : s'.flights = s.flights.set k flight') (same : flight'.id = flight.id)
    (mayHold : flight.phase.holding = true ∨ s.locks id = none) (turns : Turns s' id k flight') : s'.Single id := by
  -- no other call of the account holds the lock, so what is owed is owed for this one alone
  have alone : ∀ (j : Nat) (f : Flight), s'.flights[j]? = some f → f.id = id → f.phase.holding = true → j = k ∧ f = flight' := by
    intro j f inside ours holding
    rw [flights] at inside
    rcases getElem?_set_cases inside with here | ⟨apart, before⟩
    · exact here
    · have held := single.exclusive j f before ours holding
      rcases mayHold with holder | free
      -- two holders of one lock are the same call
      · have := single.exclusive k flight there own holder
        rw [held] at this
        exact absurd (Option.some.inj this) apart
      · rw [free] at held
        cases held
  have bound := (List.getElem?_eq_some_iff.mp there).1
  refine ⟨turns.stored, fun j f inside ours holding => ?_, turns.issued, turns.known,
    fun j f inside ours stored phase record stored' => ?_, fun j f inside ours stored new phase => ?_, fun record stored member => ?_⟩
  · obtain ⟨rfl, rfl⟩ := alone j f inside ours holding
    exact turns.holds holding
  · have holding : f.phase.holding = true := by rcases phase with phase | phase <;> rw [phase] <;> rfl
    obtain ⟨rfl, rfl⟩ := alone j f inside ours holding
    exact turns.carries stored phase record stored'
  · have holding : f.phase.holding = true := by rw [phase]; rfl
    obtain ⟨rfl, rfl⟩ := alone j f inside ours holding
    exact turns.results stored new phase
  · refine ⟨k, flight', ?_, same.trans own, turns.current record stored member⟩
    rw [flights, List.getElem?_set_self bound]

/-- While a call holds the lock, the stored token is a replaced one only if that call has the
answer. -/
theorem Single.not_replaced (own : flight.id = id)
    (mayHold : flight.phase.holding = true ∨ s.locks id = none) (unanswered : ∀ stored new, flight.phase ≠ .answered stored (.ok new))
    {record : OAuthAccount} (stored : s.accounts id = some record) : (id, record.refresh) ∉ s.replaced := by
  intro member
  obtain ⟨j, f, inside, ours, stored', new, phase⟩ := single.current record stored member
  -- only a holder of the lock has an answer, and that is this call or nobody
  have held := single.exclusive j f inside ours (by rw [phase]; rfl)
  rcases mayHold with holder | free
  · have := single.exclusive k flight there own holder
    rw [held] at this
    cases this
    rw [there] at inside
    cases inside
    exact unanswered stored' new phase
  · rw [free] at held
    cases held

theorem Single.lock (free : s.locks flight.id = none) :
    Single id { s.setFlight k { flight with phase := .locked } with locks := Function.update s.locks flight.id (some k) } := by
  by_cases own : flight.id = id
  · have mayHold : flight.phase.holding = true ∨ s.locks id = none := .inr (own ▸ free)
    exact single.turn there own rfl rfl mayHold {
      stored := single.stored
      holds := by
        intro _
        rw [own]
        exact Function.update_self ..
      issued := single.issued
      known := single.known
      carries := by rintro _ (⟨⟨⟩⟩ | ⟨⟨⟩⟩)
      results := by rintro _ _ ⟨⟩
      -- a replaced token in the store means an answered call, and that one would hold the lock
      current := by
        intro record stored member
        obtain ⟨j, f, inside, ours, _, _, phase⟩ := single.current record stored member
        have held := single.exclusive j f inside ours (by rw [phase]; rfl)
        rw [← own, free] at held
        cases held }
  · exact single.elsewhere there own rfl rfl rfl (Function.update_of_ne (Ne.symm own) ..) (fun _ member => member) fun _ => Iff.rfl

theorem Single.finish {ok : Bool} {err : String}
    (holding : flight.phase.holding = true) (unanswered : ∀ stored new, flight.phase ≠ .answered stored (.ok new)) :
    (s.finish k flight ok err).Single id := by
  by_cases own : flight.id = id
  · exact single.turn there own rfl rfl (.inl holding) {
      stored := single.stored
      holds := fun held => by cases held
      issued := single.issued
      known := single.known
      carries := by rintro _ (⟨⟨⟩⟩ | ⟨⟨⟩⟩)
      results := by rintro _ _ ⟨⟩
      current := fun record stored member => absurd member (single.not_replaced there own (.inl holding) unanswered stored) }
  · exact single.elsewhere there own rfl rfl rfl (Function.update_of_ne (Ne.symm own) ..) (fun _ member => member) fun _ => Iff.rfl

/-- A call without an answer goes on with the lock. -/
theorem Single.goesOn {phase' : FlightPhase} (acct : OAuthAccount) {phase : FlightPhase} (now : flight.phase = phase)
    (holding : phase.holding = true) (unanswered : ∀ stored new, phase ≠ .answered stored (.ok new))
    (carries : flight.id = id → ∀ stored, phase' = .ready stored ∨ phase' = .submitted stored →
      ∀ record, s.accounts id = some record → acct.refresh = record.refresh)
    (results : flight.id = id → ∀ stored new, phase' = .answered stored (.ok new) →
      new.refresh ∈ s.issued ∧ (id, new.refresh) ∉ s.replaced) :
    (s.setFlight k { flight with acct, phase := phase' }).Single id := by
  subst now
  by_cases own : flight.id = id
  · exact single.turn there own rfl rfl (.inl holding) {
      stored := single.stored
      holds := fun _ => single.exclusive k flight there own holding
      issued := single.issued
      known := single.known
      carries := carries own
      results := results own
      current := fun record stored member => absurd member (single.not_replaced there own (.inl holding) unanswered stored) }
  · exact single.elsewhere there own rfl rfl rfl rfl (fun _ member => member) fun _ => Iff.rfl

/-- It goes on with the stored account, whatever copy it came with. -/
theorem Single.ready (phase : flight.phase = .locked) :
    (s.setFlight k { flight with
      acct := (s.accounts flight.id).getD flight.acct
      phase := .ready (s.accounts flight.id) }).Single id := by
  refine single.goesOn there _ phase rfl (by simp) (fun own _ _ record stored => ?_) (by rintro _ _ _ ⟨⟩)
  have : s.accounts flight.id = some record := own ▸ stored
  simp only [this, Option.getD_some]

variable {stored : Option OAuthAccount}

theorem Single.submit
    (phase : flight.phase = .ready stored) : (s.setFlight k { flight with phase := .submitted stored }).Single id :=
  single.goesOn there _ phase rfl (by simp) (fun own _ _ record stored' => single.carries k flight there own stored (.inl phase) record stored')
    (by rintro _ _ _ ⟨⟩)

/-- A failure, or a success that brings the same token, leaves the broker's books alone. -/
theorem Single.answerSame {result : Refreshed} (phase : flight.phase = .submitted stored)
    (same : ∀ new, result = .ok new → new.refresh = flight.acct.refresh) :
    (s.setFlight k { flight with phase := .answered stored result }).Single id := by
  -- the answer's token is the stored one, which nothing has replaced
  refine single.goesOn there _ phase rfl (by simp) (by rintro _ _ (⟨⟨⟩⟩ | ⟨⟨⟩⟩)) fun own _ new answered => ?_
  cases answered
  obtain ⟨record, stored'⟩ := Option.isSome_iff_exists.mp single.stored
  rw [same new rfl, single.carries k flight there own stored (.inr phase) record stored']
  exact ⟨single.issued record stored', single.not_replaced there own (.inl (by rw [phase]; rfl)) (by rw [phase]; simp) stored'⟩

theorem Single.answerNew {new : OAuthAccount} (phase : flight.phase = .submitted stored) (fresh : new.refresh ∉ s.issued) :
    Single id { s.setFlight k { flight with phase := .answered stored (.ok new) } with
      issued := new.refresh :: s.issued
      replaced := (flight.id, flight.acct.refresh) :: s.replaced } := by
  have holding : flight.phase.holding = true := by rw [phase]; rfl
  by_cases own : flight.id = id
  · obtain ⟨record, stored'⟩ := Option.isSome_iff_exists.mp single.stored
    have carried := single.carries k flight there own stored (.inr phase) record stored'
    have submitted : flight.acct.refresh ∈ s.issued := carried ▸ single.issued record stored'
    exact single.turn there own rfl rfl (.inl holding) {
      stored := single.stored
      holds := fun _ => single.exclusive k flight there own holding
      issued := fun record stored' => List.mem_cons_of_mem _ (single.issued record stored')
      -- the broker replaces the token it was asked with, which is the stored one
      known := by
        intro token member
        rcases List.mem_cons.mp member with here | before
        · cases here
          exact List.mem_cons_of_mem _ submitted
        · exact List.mem_cons_of_mem _ (single.known token before)
      carries := by rintro _ (⟨⟨⟩⟩ | ⟨⟨⟩⟩)
      results := by
        intro _ new' answered
        cases answered
        -- the new token was never given out, so it is not among the replaced ones
        refine ⟨List.mem_cons_self, fun member => ?_⟩
        rcases List.mem_cons.mp member with here | before
        · rw [Prod.mk.injEq] at here
          exact fresh (here.2 ▸ submitted)
        · exact fresh (single.known _ before)
      current := fun record stored' member => ⟨_, _, rfl⟩ }
  · refine single.elsewhere there own rfl rfl rfl rfl (fun _ member => List.mem_cons_of_mem _ member) fun token => ?_
    simp [Ne.symm own]

/-- The write that ends a success puts the answer's token in the place of the replaced one. -/
theorem Single.writeBack {new : OAuthAccount} (phase : flight.phase = .answered stored (.ok new)) :
    Single id { s.finish k flight true "" with accounts := s.accounts.updateExisting flight.id new } := by
  have holding : flight.phase.holding = true := by rw [phase]; rfl
  by_cases own : flight.id = id
  · obtain ⟨known, apart⟩ := single.results k flight there own stored new phase
    obtain ⟨record, before⟩ := Option.isSome_iff_exists.mp single.stored
    -- the record is still stored, so the write finds it
    have now : s.accounts.updateExisting flight.id new id = some new := by
      rw [own, AccountStore.updateExisting, AccountStore.modify, Function.update_self, before, Option.map_some]
    exact single.turn there own rfl rfl (.inl holding) {
      stored := by simp only [now, Option.isSome_some]
      holds := fun held => by cases held
      issued := by
        intro record stored'
        cases now.symm.trans stored'
        exact known
      known := single.known
      carries := by rintro _ (⟨⟨⟩⟩ | ⟨⟨⟩⟩)
      results := by rintro _ _ ⟨⟩
      current := by
        intro record stored' member
        cases now.symm.trans stored'
        exact absurd member apart }
  · refine single.elsewhere there own rfl rfl ?_ (Function.update_of_ne (Ne.symm own) ..) (fun _ member => member) fun _ => Iff.rfl
    exact Function.update_of_ne (Ne.symm own) ..

theorem Single.flightStep
    (new : ∀ j resp now, i = .answer j resp now → (refreshOnce flight.acct resp now).Brings flight.acct s.issued)
    (step : s.flightStep k flight i = some s') : s'.Single id := by
  cases stage_of_flightStep step with
  | lock _ _ free => exact single.lock there free
  | ends _ _ phase => exact single.finish there (by rw [phase]; rfl) (by rw [phase]; simp)
  | ready _ _ phase => exact single.ready there phase
  | submit _ phase => exact single.submit there phase
  | answer j resp now phase =>
    have brings := new j resp now rfl
    cases answered : refreshOnce flight.acct resp now with
    | failed kind err =>
      refine single.answerSame there phase fun new same => ?_
      cases same
    | ok fresh =>
      rw [answered] at brings
      simp only [book]
      split
      next same =>
        refine single.answerSame there phase fun new equal => ?_
        cases equal
        exact same
      -- the provider rotated the token
      next apart => exact single.answerNew there phase (brings.resolve_left apart)
  | store _ phase => exact single.writeBack there phase
  | dead err phase =>
    -- the record keeps its token and is marked
    have finished : (s.finish k flight false err).Single id :=
      single.finish there (by rw [phase]; rfl) (by rw [phase]; simp)
    exact finished.modify fun _ => rfl
  | transient _ phase => exact single.finish there (by rw [phase]; rfl) (by rw [phase]; simp)

end

variable {usesRefreshToken : String → Bool}

theorem Single.step (keeps : Keeps id i) (new : s.NewToken i) (step : s.step usesRefreshToken i = some s') : s'.Single id := by
  cases i with
  | put id' account =>
    rw [← Option.some.inj step]
    have same : s.accounts.put id' account id = s.accounts id := Function.update_of_ne (Ne.symm keeps) ..
    exact single.store (same ▸ single.stored) fun record there => ⟨record, same ▸ there, rfl⟩
  | remove id' =>
    rw [← Option.some.inj step]
    have same : s.accounts.remove id' id = s.accounts id := Function.update_of_ne (Ne.symm keeps) ..
    exact single.store (same ▸ single.stored) fun record there => ⟨record, same ▸ there, rfl⟩
  | updateAudience id' | updateReusableStreamId id' | setQuotaReset id' =>
    rw [← Option.some.inj step]
    exact single.modify fun _ => rfl
  | call acct force now =>
    simp only [Accounts.step] at step
    rw [← Option.some.inj step]
    apply single.call
    split <;> rfl
  | answer k resp now =>
    obtain ⟨flight, there, step⟩ := Option.bind_eq_some_iff.mp step
    refine single.flightStep there (fun j resp' now' same => ?_) step
    cases same
    exact new flight there
  | lock k | read k now | submit k | write k =>
    obtain ⟨flight, there, step⟩ := Option.bind_eq_some_iff.mp step
    exact single.flightStep there (by simp) step

/-- What is handed over is the stored token, and no success has replaced that one yet. -/
theorem Single.submits {token : String} (step : s.step usesRefreshToken i = some s')
    (submits : s.submits i = some (id, token)) : (id, token) ∉ s.replaced := by
  cases i with
  | submit k =>
    obtain ⟨flight, there, step⟩ := Option.bind_eq_some_iff.mp step
    simp only [Accounts.submits, there, Option.some.injEq, Prod.mk.injEq] at submits
    obtain ⟨own, rfl⟩ := submits
    simp only [Accounts.flightStep] at step
    split at step
    next stored phase =>
      obtain ⟨record, stored'⟩ := Option.isSome_iff_exists.mp single.stored
      rw [single.carries k flight there own stored (.inl phase) record stored']
      exact single.not_replaced there own (.inl (by rw [phase]; rfl)) (by rw [phase]; simp) stored'
    · cases step
  | _ => cases submits

end

theorem single_start {start : Accounts} {record : OAuthAccount} (idle : start.flights = []) (books : start.replaced = [])
    (stored : start.accounts id = some record) (known : record.refresh ∈ start.issued) : start.Single id := by
  refine ⟨by rw [stored]; rfl, fun k flight there => ?_, fun other there => ?_, fun token member => ?_, fun k flight there => ?_,
    fun k flight there => ?_, fun other _ member => ?_⟩
  · rw [idle] at there
    cases there
  · rw [stored] at there
    cases there
    exact known
  · rw [books] at member
    cases member
  · rw [idle] at there
    cases there
  · rw [idle] at there
    cases there
  · rw [books] at member
    cases member

/-- However many callers, with whatever copies and in whatever order: while the account stays
stored and a success brings a new token, no token that a success has replaced is handed over. -/
theorem replaced_token_not_submitted {start u : Accounts} {ms : List (Moment Accounts AccountStep)} {record : OAuthAccount}
    (idle : start.flights = []) (books : start.replaced = []) (stored : start.accounts id = some record)
    (known : record.refresh ∈ start.issued) (run : Run (fun s i t => s.step usesRefreshToken i = some t) start ms u)
    (keeps : ∀ m ∈ ms, Keeps id m.input) (new : ∀ m ∈ ms, m.before.NewToken m.input) :
    ∀ m ∈ ms, ∀ token, m.before.submits m.input = some (id, token) → (id, token) ∉ m.before.replaced := by
  have single := run.invariant (P := Single id) (Q := fun m => Keeps id m.input ∧ m.before.NewToken m.input)
    (fun m ok step single => single.step ok.1 ok.2 step) (fun m member => ⟨keeps m member, new m member⟩)
    (single_start idle books stored known)
  intro m member token submits
  exact (single.2 m member).1.submits (run.step_of_mem member) submits

def kickAccount : OAuthAccount where
  providerId := "kick"
  access := "a0"
  refresh := "r0"
  userId := "7"

/-- The store after a first connect. -/
def connected (account : OAuthAccount) : Accounts where
  accounts := Function.update (fun _ => none) (accountId account) (some account)
  issued := [account.refresh]

/-- Two forced callers hold the same copy. The second finds the first one's token and asks
for none; a third, called with that token, hands over the new refresh token. -/
theorem replaced_token_not_submitted_by_third : ∃ (ms : List (Moment Accounts AccountStep)) (u : Accounts),
    Run (fun s i t => s.step (fun _ => true) i = some t) (connected kickAccount) ms u ∧
    ms.filterMap (fun m => m.before.submits m.input) = [("kick:7", "r0"), ("kick:7", "r1")] ∧
    u.replaced = [("kick:7", "r1"), ("kick:7", "r0")] ∧
    ∀ m ∈ ms, ∀ token, m.before.submits m.input = some (accountId kickAccount, token) →
      (accountId kickAccount, token) ∉ m.before.replaced := by
  -- the second call reads after the first one's write, and the third goes out to the provider
  obtain ⟨ms, u, run, shown⟩ := exists_run_of_follow (step fun _ => true) (connected kickAccount)
    [.call kickAccount true 100, .call kickAccount true 100, .lock 0, .read 0 100, .submit 0,
      .answer 0 { status := 200, body := some { accessToken := "a1", expiresIn := 60, refreshToken := "r1" } } 101, .write 0,
      .lock 1, .read 1 102, .call { kickAccount with access := "a1" } true 200, .lock 2, .read 2 200, .submit 2,
      .answer 2 { status := 200, body := some { accessToken := "a2", expiresIn := 60, refreshToken := "r2" } } 201]
    (fun ms u => ms.all (fun m => Keeps (accountId kickAccount) m.input ∧ m.before.NewToken m.input) &&
      (ms.filterMap (fun m => m.before.submits m.input) = [("kick:7", "r0"), ("kick:7", "r1")] &&
        u.replaced = [("kick:7", "r1"), ("kick:7", "r0")])) (by decide)
  rw [Bool.and_eq_true, Bool.and_eq_true, List.all_eq_true] at shown
  obtain ⟨ok, submitted, replaced⟩ := shown
  have ok := fun m member => of_decide_eq_true (ok m member)
  have stored : (connected kickAccount).accounts (accountId kickAccount) = some kickAccount := by
    simp only [connected, Function.update_self]
  refine ⟨ms, u, run, of_decide_eq_true submitted, of_decide_eq_true replaced, ?_⟩
  exact replaced_token_not_submitted rfl rfl stored List.mem_cons_self run (fun m member => (ok m member).1)
    fun m member => (ok m member).2

end Accounts

end Braidcast.OAuth
