import Braidcast.Lib.Run

/-!
# Account records and their refresh

`AccountStore` keeps one record per account, every accessor under its mutex. `ensureFresh`
takes the account's flight lock, reads the record, hands the refresh token to the broker
with no lock of the store held, and writes back what the answer says. The steps below are
the store's accessors and the stages of any number of `ensureFresh` calls, in any order.
-/
namespace Braidcast.OAuth

open Lib

/-! ### Records -/

inductive AudienceKind
  | unknown
  | followers
  | subscribers
  deriving DecidableEq

structure Audience where
  count : Int := -1
  kind : AudienceKind := .unknown
  hidden : Bool := false
  updatedNs : Int := 0
  deriving DecidableEq

structure OAuthAccount where
  providerId : String
  access : String
  refresh : String
  userId : String
  login : String := ""
  displayName : String := ""
  expireTime : Int := 0
  scopeVer : Int := 0
  refreshDead : Bool := false
  avatarUrl : String := ""
  audience : Audience := {}
  reusableStreamIds : List (String × String) := []
  quotaResetEpoch : Int := 0
  deriving DecidableEq

def accountId (a : OAuthAccount) : String :=
  a.providerId ++ ":" ++ a.userId

/-- `ids[profileUuid] = streamId`. -/
def assign (profileUuid streamId : String) : List (String × String) → List (String × String)
  | [] => [(profileUuid, streamId)]
  | entry :: rest =>
    if entry.1 = profileUuid then (profileUuid, streamId) :: rest else entry :: assign profileUuid streamId rest

/-! ### The store -/

abbrev AccountStore : Type := String → Option OAuthAccount

namespace AccountStore

def put (accounts : AccountStore) (id : String) (account : OAuthAccount) : AccountStore :=
  Function.update accounts id (some account)

def remove (accounts : AccountStore) (id : String) : AccountStore :=
  Function.update accounts id none

/-- A field-scoped write: on the current record, and nothing where there is none. -/
def modify (accounts : AccountStore) (id : String) (change : OAuthAccount → OAuthAccount) : AccountStore :=
  Function.update accounts id ((accounts id).map change)

def updateExisting (accounts : AccountStore) (id : String) (account : OAuthAccount) : AccountStore :=
  accounts.modify id fun _ => account

def updateAudience (accounts : AccountStore) (id : String) (audience : Audience) : AccountStore :=
  accounts.modify id fun a => { a with audience }

def setRefreshDead (accounts : AccountStore) (id : String) (dead : Bool) : AccountStore :=
  accounts.modify id fun a => { a with refreshDead := dead }

def updateReusableStreamId (accounts : AccountStore) (id profileUuid streamId : String) : AccountStore :=
  accounts.modify id fun a => { a with reusableStreamIds := assign profileUuid streamId a.reusableStreamIds }

def setQuotaReset (accounts : AccountStore) (id : String) (epochSeconds : Int) : AccountStore :=
  accounts.modify id fun a => { a with quotaResetEpoch := epochSeconds }

end AccountStore

/-! ### The broker's answer -/

/-- The fields of a token answer; a missing string reads as "". -/
structure TokenBody where
  accessToken : String := ""
  expiresIn : Int := 0
  refreshToken : String := ""
  error : String := ""
  message : String := ""

/-- `status` 0 is a request that got no response; `body` is `none` where it is no object. -/
structure HttpResponse where
  status : Nat
  error : String := ""
  body : Option TokenBody := none

inductive RefreshFailureKind
  | transient
  | dead
  deriving DecidableEq

def classifyRefreshFailure (httpStatus : Nat) (errorCode : String) : RefreshFailureKind :=
  if httpStatus = 0 ∨ 500 ≤ httpStatus ∨ httpStatus = 408 ∨ httpStatus = 429 then .transient
  else if errorCode = "invalid_grant" then .dead
  else .transient

def applyTokenFields (j : TokenBody) (acct : OAuthAccount) (now : Int) : Option OAuthAccount :=
  if j.accessToken = "" then none
  else
    some { acct with
      access := j.accessToken
      expireTime := now + j.expiresIn
      -- a provider that does not rotate sends no refresh token
      refresh := if j.refreshToken = "" then acct.refresh else j.refreshToken }

/-- How a refresh ends: the record with its new tokens, or the failure and its text. -/
inductive Refreshed
  | ok (acct : OAuthAccount)
  | failed (kind : RefreshFailureKind) (err : String)
  deriving DecidableEq

/-- `RefreshOnce` from the response on. -/
def refreshOnce (acct : OAuthAccount) (resp : HttpResponse) (now : Int) : Refreshed :=
  if resp.status = 0 then .failed (classifyRefreshFailure 0 "") ("token refresh failed: " ++ resp.error)
  else
    match resp.body with
    | none =>
      .failed (classifyRefreshFailure resp.status "")
        ("token refresh returned an unparseable body (HTTP " ++ toString resp.status ++ ")")
    | some j =>
      match applyTokenFields j acct now with
      | some fresh => .ok { fresh with refreshDead := false }
      | none =>
        let text := if j.error = "" then j.message else j.error
        .failed (classifyRefreshFailure resp.status j.error)
          (if text = "" then "token refresh rejected (HTTP " ++ toString resp.status ++ ")" else text)

/-! ### Calls of `ensureFresh` -/

/-- Waiting for the flight lock; holding it; past the checks with the record read; the token
handed over; answered; returned. -/
inductive FlightPhase
  | waiting
  | locked
  | ready (stored : Option OAuthAccount)
  | submitted (stored : Option OAuthAccount)
  | answered (stored : Option OAuthAccount) (result : Refreshed)
  | returned (ok : Bool) (err : String)
  deriving DecidableEq

/-- `id` is the account of the caller's copy; `acct` is that copy, then the record read. -/
structure Flight where
  id : String
  acct : OAuthAccount
  force : Bool
  phase : FlightPhase

/-- `issued` and `replaced` are the broker's: the refresh tokens it gave out, and those a
successful refresh of an account has replaced. -/
structure Accounts where
  accounts : AccountStore := fun _ => none
  locks : String → Option Nat := fun _ => none
  flights : List Flight := []
  issued : List String := []
  replaced : List (String × String) := []

inductive AccountStep
  | put (id : String) (account : OAuthAccount)
  | remove (id : String)
  | updateAudience (id : String) (audience : Audience)
  | updateReusableStreamId (id profileUuid streamId : String)
  | setQuotaReset (id : String) (epochSeconds : Int)
  | call (acct : OAuthAccount) (force : Bool) (now : Int)
  | lock (flight : Nat)
  | read (flight : Nat) (now : Int)
  | submit (flight : Nat)
  | answer (flight : Nat) (resp : HttpResponse) (now : Int)
  | write (flight : Nat)

def skew : Int := 5

/-- What `ensureFresh` answers before it takes the flight lock, if it does. -/
def answerAtOnce (usesRefreshToken : String → Bool) (acct : OAuthAccount) (force : Bool) (now : Int) : Option (Bool × String) :=
  if usesRefreshToken acct.providerId = false then
    -- a provider without refresh tokens has nothing to renew
    if force then some (false, "no refresh token") else some (true, "")
  else if acct.refresh = "" then some (false, "no refresh token")
  else if force = false ∧ now ≤ acct.expireTime - skew then some (true, "")
  else none

/-- What it answers under the lock without a request, with the record it read. -/
def answerAfterRead (prior acct : OAuthAccount) (force : Bool) (now : Int) : Option (Bool × String) :=
  if force = false ∧ now ≤ acct.expireTime - skew then some (true, "")
  -- another flight has renewed the token this caller found wanting
  else if force = true ∧ prior.access ≠ "" ∧ acct.access ≠ prior.access then some (true, "")
  else if acct.refresh = "" then some (false, "no refresh token")
  else none

namespace Accounts

def setFlight (s : Accounts) (k : Nat) (flight : Flight) : Accounts :=
  { s with flights := s.flights.set k flight }

/-- The call returns and lets go of the flight lock. -/
def finish (s : Accounts) (k : Nat) (flight : Flight) (ok : Bool) (err : String) : Accounts :=
  { s.setFlight k { flight with phase := .returned ok err } with locks := Function.update s.locks flight.id none }

/-- The broker's books after a refresh of `acct` that ended in `result`. -/
def book (s : Accounts) (id : String) (acct : OAuthAccount) : Refreshed → Accounts
  | .ok new =>
    if new.refresh = acct.refresh then s
    else { s with issued := new.refresh :: s.issued, replaced := (id, acct.refresh) :: s.replaced }
  | .failed .. => s

/-- One step of call `k`. -/
def flightStep (s : Accounts) (k : Nat) (flight : Flight) : AccountStep → Option Accounts
  | .lock _ =>
    if flight.phase = .waiting ∧ s.locks flight.id = none then
      some { s.setFlight k { flight with phase := .locked } with locks := Function.update s.locks flight.id (some k) }
    else none
  | .read _ now =>
    if flight.phase = .locked then
      -- the record under the lock, or the caller's copy of one that was never stored
      let acct := (s.accounts flight.id).getD flight.acct
      match answerAfterRead flight.acct acct flight.force now with
      | some (ok, err) => some (s.finish k flight ok err)
      | none => some (s.setFlight k { flight with acct, phase := .ready (s.accounts flight.id) })
    else none
  | .submit _ =>
    match flight.phase with
    | .ready stored => some (s.setFlight k { flight with phase := .submitted stored })
    | _ => none
  | .answer _ resp now =>
    match flight.phase with
    | .submitted stored =>
      let result := refreshOnce flight.acct resp now
      some ((s.setFlight k { flight with phase := .answered stored result }).book flight.id flight.acct result)
    | _ => none
  | .write _ =>
    match flight.phase with
    | .answered _ (.ok new) =>
      -- the whole record is written back, with what it held when it was read
      some { s.finish k flight true "" with accounts := s.accounts.updateExisting flight.id new }
    | .answered _ (.failed .dead err) =>
      some { s.finish k flight false err with accounts := s.accounts.setRefreshDead flight.id true }
    | .answered _ (.failed .transient err) => some (s.finish k flight false err)
    | _ => none
  | _ => none

variable (usesRefreshToken : String → Bool)

def step (s : Accounts) : AccountStep → Option Accounts
  | .put id account => some { s with accounts := s.accounts.put id account }
  | .remove id => some { s with accounts := s.accounts.remove id }
  | .updateAudience id audience => some { s with accounts := s.accounts.updateAudience id audience }
  | .updateReusableStreamId id profileUuid streamId =>
    some { s with accounts := s.accounts.updateReusableStreamId id profileUuid streamId }
  | .setQuotaReset id epochSeconds => some { s with accounts := s.accounts.setQuotaReset id epochSeconds }
  | .call acct force now =>
    let phase := match answerAtOnce usesRefreshToken acct force now with
      | some (ok, err) => .returned ok err
      | none => .waiting
    some { s with flights := s.flights ++ [{ id := accountId acct, acct, force, phase }] }
  | .lock k => s.flights[k]?.bind fun flight => s.flightStep k flight (.lock k)
  | .read k now => s.flights[k]?.bind fun flight => s.flightStep k flight (.read k now)
  | .submit k => s.flights[k]?.bind fun flight => s.flightStep k flight (.submit k)
  | .answer k resp now => s.flights[k]?.bind fun flight => s.flightStep k flight (.answer k resp now)
  | .write k => s.flights[k]?.bind fun flight => s.flightStep k flight (.write k)

/-- The account and the refresh token a step hands to the broker. -/
def submits (s : Accounts) : AccountStep → Option (String × String)
  | .submit k =>
    match s.flights[k]? with
    | some flight => some (flight.id, flight.acct.refresh)
    | none => none
  | _ => none

end Accounts

end Braidcast.OAuth
