import Braidcast.Overlay.Sockets

/-!
# In whose hands a socket is

Every open handle is in the hands of exactly one party: the thread that serves it, the set
of parked handles, or a broadcast that closes them. The account is kept for each handle as a
count, and the steps of a connection keep it.
-/
namespace Braidcast.Overlay

open Lib

/-! ### Whose hands a handle is in -/

@[simp]
def Conn.streams (conn : Conn) : List Nat :=
  match conn.phase with
  | .streaming => [conn.handle]
  | _ => []

@[simp]
def Conn.entries (conn : Conn) : List (String × Nat) :=
  conn.streams.map fun handle => (conn.widgetId, handle)

@[simp]
def Conn.waits (conn : Conn) : List Nat :=
  match conn.phase with
  | .routing | .reserved | .closing => [conn.handle]
  | _ => []

/-- The handle is open and not listed: the accept is on its way in, or the close is due. -/
@[simp]
def Conn.unlisted (conn : Conn) : List Nat :=
  match conn.phase with
  | .accepted | .erased true => [conn.handle]
  | _ => []

@[simp]
def Conn.slots (conn : Conn) : List Nat :=
  match conn.phase with
  | .reserved => [conn.handle]
  | _ => []

@[simp]
def Pass.parks (pass : Pass) : List Nat :=
  match pass.phase with
  | .draining toClose | .closing _ _ toClose => toClose
  | .sending .. => []

@[simp]
def Pass.erases (pass : Pass) : List Nat :=
  match pass.phase with
  | .closing handle true _ => [handle]
  | _ => []

@[simp]
def Pass.sends (pass : Pass) : List Unit :=
  match pass.phase with
  | .sending .. => [()]
  | _ => []

namespace OverlayServer

attribute [simp] setConn setPass

def streaming (s : OverlayServer) : List Nat :=
  s.conns.flatMap Conn.streams

def entries (s : OverlayServer) : List (String × Nat) :=
  s.conns.flatMap Conn.entries

def waiting (s : OverlayServer) : List Nat :=
  s.conns.flatMap Conn.waits

def unlisted (s : OverlayServer) : List Nat :=
  s.conns.flatMap Conn.unlisted

def slots (s : OverlayServer) : List Nat :=
  s.conns.flatMap Conn.slots

def parked (s : OverlayServer) : List Nat :=
  s.passes.flatMap Pass.parks

def erasingParked (s : OverlayServer) : List Nat :=
  s.passes.flatMap Pass.erases

def sending (s : OverlayServer) : List Unit :=
  s.passes.flatMap Pass.sends

/-- The account, with the handles of `hand` taken out of it by the step under way. -/
structure Accounts (hand : List Nat) (s : OverlayServer) : Prop where
  owned : ∀ h, s.streaming.count h + s.waiting.count h + s.unlisted.count h + s.deferredCloseSse.count h +
    s.parked.count h + s.erasingParked.count h + hand.count h = (s.opened.map Prod.fst).count h
  listed : ∀ h, s.streaming.count h + s.waiting.count h + s.deferredCloseSse.count h + s.parked.count h =
    s.clientSockets.count h
  distinct : (s.opened.map Prod.fst).Nodup
  registered : ∀ e ∈ s.sockets, e ∈ s.entries
  reserved : s.ssePending = s.slots.length
  room : s.ssePending + s.liveSseCount ≤ kMaxSseConnections
  depth : s.broadcastDepth = s.sending.length
  parking : s.deferredCloseSse ≠ [] → 0 < s.broadcastDepth
  /-- A broadcast's sockets are registered or parked, and were not closed since its snapshot. -/
  reach : ∀ pass ∈ s.passes, ∀ left dead, pass.phase = .sending left dead → ∀ e ∈ left ++ dead,
    e.2 ∉ pass.closed ∧ (e.2 ∈ s.streaming ∨ e.2 ∈ s.deferredCloseSse)
  strays : s.strays = 0
  accounted : (s.closes ++ s.opened.map Prod.snd).Perm (List.range s.conns.length)

abbrev Sound (s : OverlayServer) : Prop :=
  Accounts [] s

variable {s : OverlayServer} {hand : List Nat}

/-- A handle is in one place at most. -/
theorem Accounts.once (sound : s.Accounts hand) (h : Nat) :
    s.streaming.count h + s.waiting.count h + s.unlisted.count h + s.deferredCloseSse.count h +
      s.parked.count h + s.erasingParked.count h + hand.count h ≤ 1 := by
  rw [sound.owned h]
  exact List.nodup_iff_count_le_one.mp sound.distinct h

/-! ### Closing a handle -/

theorem flatMap_closed {β : Type} (f : Pass → List β) (same : ∀ pass closed, f { pass with closed } = f pass) (h : Nat)
    (passes : List Pass) : (passes.map fun pass => { pass with closed := h :: pass.closed }).flatMap f = passes.flatMap f := by
  induction passes with
  | nil => rfl
  | cons pass passes ih => rw [List.map_cons, List.flatMap_cons, List.flatMap_cons, ih, same]

theorem Accounts.closeHandle {h : Nat} (sound : s.Accounts [h]) : (s.closeHandle h).Sound := by
  have once := sound.once h
  have owned := sound.owned h
  simp only [List.count_singleton_self] at once owned
  -- the handle is in the closer's hand, so it is open
  have there : ∃ entry, s.opened.find? (·.1 = h) = some entry := by
    rw [← Option.isSome_iff_exists, List.find?_isSome]
    have member : h ∈ s.opened.map Prod.fst := List.count_pos_iff.mp (by omega)
    obtain ⟨entry, inside, same⟩ := List.mem_map.mp member
    exact ⟨entry, inside, by simp [same]⟩
  obtain ⟨entry, found⟩ := there
  have named : entry.1 = h := by simpa using List.find?_some found
  have perm := perm_cons_eraseP found
  have parks : (s.closeHandle h).parked = s.parked := by
    simp only [OverlayServer.closeHandle, found, parked]
    exact flatMap_closed _ (fun _ _ => rfl) h s.passes
  have erases : (s.closeHandle h).erasingParked = s.erasingParked := by
    simp only [OverlayServer.closeHandle, found, erasingParked]
    exact flatMap_closed _ (fun _ _ => rfl) h s.passes
  have sends : (s.closeHandle h).sending = s.sending := by
    simp only [OverlayServer.closeHandle, found, sending]
    exact flatMap_closed _ (fun _ _ => rfl) h s.passes
  have rest : (s.closeHandle h).conns = s.conns ∧ (s.closeHandle h).deferredCloseSse = s.deferredCloseSse ∧
      (s.closeHandle h).clientSockets = s.clientSockets ∧ (s.closeHandle h).sockets = s.sockets ∧
      (s.closeHandle h).ssePending = s.ssePending ∧ (s.closeHandle h).broadcastDepth = s.broadcastDepth ∧
      (s.closeHandle h).strays = s.strays := by
    simp [OverlayServer.closeHandle, found]
  obtain ⟨conns, deferred, clients, sockets, pending, depth, strays⟩ := rest
  have opened : (s.closeHandle h).opened = s.opened.eraseP (·.1 = h) := by
    simp [OverlayServer.closeHandle, found]
  have closes : (s.closeHandle h).closes = entry.2 :: s.closes := by
    simp [OverlayServer.closeHandle, found]
  refine ⟨fun g => ?_, fun g => ?_, ?_, ?_, ?_, ?_, ?_, ?_, ?_, ?_, ?_⟩
  · have counts := (perm.map Prod.fst).count_eq g
    have before := sound.owned g
    simp only [streaming, waiting, unlisted, conns, deferred, parks, erases, opened, List.map_cons, named, List.count_cons,
      List.count_nil] at counts before ⊢
    omega
  · have before := sound.listed g
    simp only [streaming, waiting, conns, deferred, parks, clients] at before ⊢
    exact before
  · rw [opened]
    exact sound.distinct.sublist ((List.eraseP_sublist).map _)
  · intro e member
    rw [sockets] at member
    simpa only [entries, conns] using sound.registered e member
  · simpa only [pending, slots, conns] using sound.reserved
  · simpa only [pending, liveSseCount, sockets] using sound.room
  · rw [depth, sends]
    exact sound.depth
  · rw [depth, deferred]
    exact sound.parking
  · intro pass member left dead phase e target
    simp only [OverlayServer.closeHandle, found] at member
    obtain ⟨old, inside, rfl⟩ := List.mem_map.mp member
    obtain ⟨notClosed, reach⟩ := sound.reach old inside left dead phase e target
    -- a handle a broadcast will still send to is in other hands than the closer's
    have apart : e.2 ≠ h := by
      rintro rfl
      rcases reach with stream | park
      · have := List.count_pos_iff.mpr stream
        omega
      · have := List.count_pos_iff.mpr park
        omega
    refine ⟨fun closed => (List.mem_cons.mp closed).elim apart notClosed, ?_⟩
    simpa only [streaming, conns, deferred] using reach
  · rw [strays]
    exact sound.strays
  · rw [closes, opened, conns]
    apply List.Perm.trans _ sound.accounted
    have moved := (perm.map Prod.snd).symm
    rw [List.map_cons] at moved
    exact (List.perm_middle.symm).trans (moved.append_left _)

/-! ### A connection's step -/

/-- What a step of connection `k` changes, and what it owes the account. -/
structure ConnMoves (s s' : OverlayServer) (hand : List Nat) (k : Nat) (conn conn' : Conn) : Prop where
  frame : s' = { s with
    conns := s.conns.set k conn', clientSockets := s'.clientSockets, sockets := s'.sockets
    ssePending := s'.ssePending, deferredCloseSse := s'.deferredCloseSse }
  owned : ∀ h, conn'.streams.count h + conn'.waits.count h + conn'.unlisted.count h + s'.deferredCloseSse.count h +
    hand.count h = conn.streams.count h + conn.waits.count h + conn.unlisted.count h + s.deferredCloseSse.count h
  listed : ∀ h, conn'.streams.count h + conn'.waits.count h + s'.deferredCloseSse.count h + s.clientSockets.count h =
    conn.streams.count h + conn.waits.count h + s.deferredCloseSse.count h + s'.clientSockets.count h
  registered : ∀ e ∈ s'.sockets, e ∈ conn'.entries ∨ e ∈ s.sockets ∧ e ∉ conn.entries
  reserved : s'.ssePending + conn.slots.length = s.ssePending + conn'.slots.length
  room : s'.ssePending + s'.liveSseCount ≤ kMaxSseConnections
  parking : s'.deferredCloseSse ≠ [] → s.deferredCloseSse ≠ [] ∨ 0 < s.broadcastDepth
  reach : 0 < s.broadcastDepth → (∀ h ∈ conn.streams, h ∈ conn'.streams ∨ h ∈ s'.deferredCloseSse) ∧
    ∀ h ∈ s.deferredCloseSse, h ∈ s'.deferredCloseSse

/-- A broadcast that sends counts in the depth. -/
theorem Accounts.depth_pos (sound : s.Accounts hand) {pass : Pass} (member : pass ∈ s.passes) {left dead : List (String × Nat)}
    (phase : pass.phase = .sending left dead) : 0 < s.broadcastDepth := by
  rw [sound.depth]
  have counted : () ∈ s.sending := List.mem_flatMap.mpr ⟨pass, member, by simp [phase]⟩
  exact List.length_pos_of_mem counted

variable {k : Nat} {conn : Conn}

section

variable (sound : s.Sound)
include sound

theorem Accounts.connMoves {s' : OverlayServer} (conn' : Conn)
    (there : s.conns[k]? = some conn) (moves : ConnMoves s s' hand k conn conn') : s'.Accounts hand := by
  obtain ⟨frame, owned, listed, registered, reserved, room, parking, reach⟩ := moves
  have conns : s'.conns = s.conns.set k conn' := by rw [frame]
  have passes : s'.passes = s.passes := by rw [frame]
  have opened : s'.opened = s.opened := by rw [frame]
  have depth : s'.broadcastDepth = s.broadcastDepth := by rw [frame]
  have streams := perm_flatMap_set (f := Conn.streams) conn' there
  have entries := perm_flatMap_set (f := Conn.entries) conn' there
  have waits := perm_flatMap_set (f := Conn.waits) conn' there
  have unlisted := perm_flatMap_set (f := Conn.unlisted) conn' there
  have slots := perm_flatMap_set (f := Conn.slots) conn' there
  have bound := (List.getElem?_eq_some_iff.mp there).1
  -- the handles the other connections stream stay where they are
  have stays : ∀ h ∈ s.streaming, h ∈ s'.streaming ∨ h ∈ conn.streams := by
    intro h member
    rw [OverlayServer.streaming, conns]
    have : h ∈ s.conns.flatMap Conn.streams ++ conn'.streams := List.mem_append_left _ member
    exact List.mem_append.mp (streams.mem_iff.mpr this)
  have enters : ∀ h ∈ conn'.streams, h ∈ s'.streaming := by
    intro h member
    rw [OverlayServer.streaming, conns]
    exact List.mem_flatMap.mpr ⟨conn', List.mem_set bound conn', member⟩
  refine ⟨fun h => ?_, fun h => ?_, ?_, ?_, ?_, room, ?_, ?_, ?_, ?_, ?_⟩
  · have before := sound.owned h
    have own := owned h
    have a := streams.count_eq h
    have b := waits.count_eq h
    have c := unlisted.count_eq h
    simp only [OverlayServer.streaming, waiting, OverlayServer.unlisted, parked, erasingParked, conns, passes, opened, List.count_append,
      List.count_nil] at before own a b c ⊢
    omega
  · have before := sound.listed h
    have own := listed h
    have a := streams.count_eq h
    have b := waits.count_eq h
    simp only [OverlayServer.streaming, waiting, parked, conns, passes, List.count_append] at before own a b ⊢
    omega
  · rw [opened]
    exact sound.distinct
  · intro e member
    rcases registered e member with own | ⟨old, apart⟩
    · rw [OverlayServer.entries, conns]
      exact List.mem_flatMap.mpr ⟨conn', List.mem_set bound conn', own⟩
    · rw [OverlayServer.entries, conns]
      have : e ∈ s.conns.flatMap Conn.entries ++ conn'.entries := List.mem_append_left _ (sound.registered e old)
      exact (List.mem_append.mp (entries.mem_iff.mpr this)).resolve_right apart
  · have before := sound.reserved
    have lengths := slots.length_eq
    simp only [OverlayServer.slots, conns, List.length_append] at before lengths ⊢
    omega
  · rw [depth, OverlayServer.sending, passes]
    exact sound.depth
  · intro some
    rw [depth]
    exact (parking some).elim sound.parking id
  · intro pass member left dead phase e target
    rw [passes] at member
    obtain ⟨notClosed, held⟩ := sound.reach pass member left dead phase e target
    obtain ⟨leaves, keeps⟩ := reach (sound.depth_pos member phase)
    refine ⟨notClosed, ?_⟩
    -- streamed by another connection, by this one until now, or parked
    rcases held with stream | park
    · rcases stays e.2 stream with still | own
      · exact .inl still
      · exact (leaves e.2 own).imp_left (enters e.2)
    · exact .inr (keeps e.2 park)
  · rw [frame]
    exact sound.strays
  · rw [frame, List.length_set]
    exact sound.accounted

section

variable (there : s.conns[k]? = some conn)
include there

/-- A change of phase that no account tells apart, while the connection does not stream. -/
theorem Accounts.setConn {phase : ConnPhase} (same : conn.streams = [] ∧ Conn.streams { conn with phase } = [] ∧
    Conn.waits { conn with phase } = conn.waits ∧ Conn.unlisted { conn with phase } = conn.unlisted ∧
      Conn.slots { conn with phase } = conn.slots) : (s.setConn k conn phase).Sound := by
  obtain ⟨none, still, waits, unlisted, slots⟩ := same
  apply sound.connMoves { conn with phase } there
  exact {
    frame := rfl
    owned := by
      intro h
      rw [none, still, waits, unlisted]
      rfl
    listed := by
      intro h
      rw [none, still, waits]
      rfl
    registered := fun e old => .inr ⟨old, by rw [Conn.entries, none]; exact List.not_mem_nil⟩
    reserved := by
      rw [slots]
      rfl
    room := sound.room
    parking := .inl
    reach := fun _ => ⟨fun h member => absurd (none ▸ member) List.not_mem_nil, fun _ parked => parked⟩ }

theorem Accounts.spawn (phase : conn.phase = .accepted) :
    Sound { s.setConn k conn .routing with clientSockets := s.clientSockets.insert conn.handle } := by
  have own : s.unlisted.count conn.handle ≠ 0 := by
    have member : conn.handle ∈ s.unlisted :=
      List.mem_flatMap.mpr ⟨conn, List.mem_of_getElem? there, by simp [phase]⟩
    exact Nat.ne_of_gt (List.count_pos_iff.mpr member)
  -- the accepted handle counts as unlisted, so it cannot be listed as well
  have new : conn.handle ∉ s.clientSockets := by
    intro member
    have once := sound.once conn.handle
    have listed := sound.listed conn.handle
    have := List.count_pos_iff.mpr member
    omega
  apply sound.connMoves { conn with phase := .routing } there
  exact {
    frame := rfl
    owned := fun h => by simp [phase]
    listed := by
      intro h
      simp only [Conn.streams, Conn.waits, OverlayServer.setConn, phase, List.insert_of_not_mem new, List.count_cons, List.count_nil]
      omega
    registered := fun e old => .inr ⟨old, by simp [phase]⟩
    reserved := by simp [phase]
    room := sound.room
    parking := .inl
    reach := fun _ => ⟨by simp [phase], fun _ parked => parked⟩ }

theorem Accounts.reserve (phase : conn.phase = .routing) (space : s.ssePending + s.liveSseCount < kMaxSseConnections) :
    Sound { s.setConn k conn .reserved with ssePending := s.ssePending + 1 } := by
  apply sound.connMoves { conn with phase := .reserved } there
  exact {
    frame := rfl
    owned := fun h => by simp [phase]
    listed := fun h => by simp [phase]
    registered := fun e old => .inr ⟨old, by simp [phase]⟩
    reserved := by simp [phase]
    room := by
      simp only [liveSseCount, OverlayServer.setConn] at space ⊢
      omega
    parking := .inl
    reach := fun _ => ⟨by simp [phase], fun _ parked => parked⟩ }

/-- A connection with a slot counts in the slots. -/
theorem Accounts.pending_pos (phase : conn.phase = .reserved) : 0 < s.ssePending := by
  rw [sound.reserved]
  have counted : conn.handle ∈ s.slots :=
    List.mem_flatMap.mpr ⟨conn, List.mem_of_getElem? there, by simp [phase]⟩
  exact List.length_pos_of_mem counted

theorem Accounts.register (phase : conn.phase = .reserved) :
    Sound { s.setConn k conn .streaming with
      ssePending := s.ssePending - 1
      sockets := s.sockets.insert (conn.widgetId, conn.handle) } := by
  have slot := sound.pending_pos there phase
  apply sound.connMoves { conn with phase := .streaming } there
  exact {
    frame := rfl
    owned := fun h => by simp [phase]
    listed := fun h => by simp [phase]
    registered := by
      intro e member
      rcases List.mem_insert_iff.mp member with rfl | old
      · exact .inl (by simp)
      · exact .inr ⟨old, by simp [phase]⟩
    reserved := by simpa [phase] using Nat.sub_add_cancel slot
    room := by
      have room := sound.room
      have grows : (s.sockets.insert (conn.widgetId, conn.handle)).length ≤ s.sockets.length + 1 := by
        rw [List.length_insert]
        split <;> omega
      simp only [liveSseCount] at room ⊢
      omega
    parking := .inl
    reach := fun _ => ⟨by simp [phase], fun _ parked => parked⟩ }

theorem Accounts.failHandshake
    (phase : conn.phase = .reserved) : Sound { s.setConn k conn .closing with ssePending := s.ssePending - 1 } := by
  have slot := sound.pending_pos there phase
  apply sound.connMoves { conn with phase := .closing } there
  exact {
    frame := rfl
    owned := fun h => by simp [phase]
    listed := fun h => by simp [phase]
    registered := fun e old => .inr ⟨old, by simp [phase]⟩
    reserved := by simpa [phase] using Nat.sub_add_cancel slot
    room := by
      have room := sound.room
      simp only [liveSseCount, OverlayServer.setConn] at room ⊢
      omega
    parking := .inl
    reach := fun _ => ⟨by simp [phase], fun _ parked => parked⟩ }

/-- A handle that streams is not parked. -/
theorem Accounts.not_parked (phase : conn.phase = .streaming) : conn.handle ∉ s.deferredCloseSse := by
  intro park
  have member : conn.handle ∈ s.streaming :=
    List.mem_flatMap.mpr ⟨conn, List.mem_of_getElem? there, by simp [phase]⟩
  have once := sound.once conn.handle
  have := List.count_pos_iff.mpr member
  have := List.count_pos_iff.mpr park
  omega

end

/-- An entry that goes makes room. -/
theorem Accounts.room_without (e : String × Nat) :
    s.ssePending + (s.sockets.filter (· ≠ e)).length ≤ kMaxSseConnections := by
  have room := sound.room
  have shrinks := List.length_filter_le (fun e' => decide (e' ≠ e)) s.sockets
  simp only [liveSseCount] at room
  omega

section

variable (there : s.conns[k]? = some conn)
include there

theorem Accounts.park (phase : conn.phase = .streaming) (busy : 0 < s.broadcastDepth) :
    Sound { s.setConn k conn .ended with
      sockets := s.sockets.filter (· ≠ (conn.widgetId, conn.handle))
      deferredCloseSse := s.deferredCloseSse.insert conn.handle } := by
  -- the handle goes from the connection to the parked ones, where a broadcast will find it
  have new := sound.not_parked there phase
  apply sound.connMoves { conn with phase := .ended } there
  exact {
    frame := rfl
    owned := by
      intro h
      simp only [Conn.streams, Conn.waits, Conn.unlisted, phase, List.insert_of_not_mem new, List.count_cons, List.count_nil]
      omega
    listed := by
      intro h
      simp only [Conn.streams, Conn.waits, OverlayServer.setConn, phase, List.insert_of_not_mem new, List.count_cons, List.count_nil]
      omega
    registered := by
      intro e member
      obtain ⟨old, apart⟩ := List.mem_filter.mp member
      exact .inr ⟨old, by simpa [phase] using apart⟩
    reserved := by simp [phase]
    room := sound.room_without (conn.widgetId, conn.handle)
    parking := fun _ => .inr busy
    reach := by
      intro _
      refine ⟨fun h member => .inr ?_, fun h member => List.mem_insert_of_mem member⟩
      simp only [Conn.streams, phase, List.mem_singleton] at member
      rw [member]
      exact List.mem_insert_self }

theorem Accounts.leave (phase : conn.phase = .streaming) (idle : s.broadcastDepth = 0) :
    Sound { s.setConn k conn .closing with sockets := s.sockets.filter (· ≠ (conn.widgetId, conn.handle)) } := by
  apply sound.connMoves { conn with phase := .closing } there
  exact {
    frame := rfl
    owned := fun h => by simp [phase]
    listed := fun h => by simp [phase]
    registered := by
      intro e member
      obtain ⟨old, apart⟩ := List.mem_filter.mp member
      exact .inr ⟨old, by simpa [phase] using apart⟩
    reserved := by simp [phase]
    room := sound.room_without (conn.widgetId, conn.handle)
    parking := .inl
    reach := fun busy => absurd idle (Nat.ne_of_gt busy) }

theorem Accounts.eraseClient (phase : conn.phase = .closing) :
    Sound { s.setConn k conn (.erased (conn.handle ∈ s.clientSockets)) with
      clientSockets := s.clientSockets.erase conn.handle } := by
  -- nobody else has erased it, since the connection still waits to
  have listed : conn.handle ∈ s.clientSockets := by
    have member : conn.handle ∈ s.waiting :=
      List.mem_flatMap.mpr ⟨conn, List.mem_of_getElem? there, by simp [phase]⟩
    have := List.count_pos_iff.mpr member
    have := sound.listed conn.handle
    exact List.count_pos_iff.mp (by omega)
  have counts := (List.perm_cons_erase listed).count_eq
  simp only [List.count_cons] at counts
  rw [decide_eq_true listed]
  apply sound.connMoves { conn with phase := .erased true } there
  exact {
    frame := rfl
    owned := fun h => by simp [phase]
    listed := by
      intro h
      have own := counts h
      simp only [Conn.streams, Conn.waits, OverlayServer.setConn, phase, List.count_cons, List.count_nil]
      omega
    registered := fun e old => .inr ⟨old, by simp [phase]⟩
    reserved := by simp [phase]
    room := sound.room
    parking := .inl
    reach := fun _ => ⟨by simp [phase], fun _ parked => parked⟩ }

theorem Accounts.closeSocket (phase : conn.phase = .erased true) : ((s.setConn k conn .ended).closeHandle conn.handle).Sound := by
  apply Accounts.closeHandle
  apply sound.connMoves { conn with phase := .ended } there
  exact {
    frame := rfl
    owned := fun h => by simp [phase, Nat.add_comm]
    listed := fun h => by simp [phase]
    registered := fun e old => .inr ⟨old, by simp [phase]⟩
    reserved := by simp [phase]
    room := sound.room
    parking := .inl
    reach := fun _ => ⟨by simp [phase], fun _ parked => parked⟩ }

theorem Accounts.connStep {s' : OverlayServer} {i : SocketStep} (step : s.connStep k conn i = some s') : s'.Sound := by
  cases i <;> simp only [OverlayServer.connStep, reduceCtorEq] at step <;> (repeat' split at step) <;> cases step
  next phase => exact sound.spawn there phase
  next phase => exact sound.setConn there (by simp [phase])
  next phase _ => exact sound.setConn there (by simp [phase])
  next phase space => exact sound.reserve there phase (Nat.lt_of_not_le space)
  next phase _ => exact sound.register there phase
  next phase _ => exact sound.failHandshake there phase
  -- a broadcast may be about to send: the handle is left for it to close
  next phase busy => exact sound.park there phase busy
  next phase idle => exact sound.leave there phase (Nat.eq_zero_of_not_pos idle)
  next phase => exact sound.eraseClient there phase
  next phase => exact sound.closeSocket there phase
  next phase => exact sound.setConn there (by simp [phase])

end

end

end OverlayServer

end Braidcast.Overlay
