import Braidcast.Overlay.SocketHands

/-!
# Who closes a socket

The steps of a broadcast keep the account of the handles as those of a connection do. So in
every run each socket is closed once at most, by the party whose hands it is in.
-/
namespace Braidcast.Overlay

open Lib

namespace OverlayServer

variable {s : OverlayServer} {hand : List Nat}

/-! ### A broadcast's step -/

/-- What a step of broadcast `k` changes, and what it owes the account. -/
structure PassMoves (s s' : OverlayServer) (hand : List Nat) (k : Nat) (pass pass' : Pass) : Prop where
  frame : s' = { s with
    passes := s.passes.set k pass', clientSockets := s'.clientSockets, sockets := s'.sockets
    broadcastDepth := s'.broadcastDepth, deferredCloseSse := s'.deferredCloseSse }
  owned : ∀ h, pass'.parks.count h + pass'.erases.count h + s'.deferredCloseSse.count h + hand.count h =
    pass.parks.count h + pass.erases.count h + s.deferredCloseSse.count h
  listed : ∀ h, pass'.parks.count h + s'.deferredCloseSse.count h + s.clientSockets.count h =
    pass.parks.count h + s.deferredCloseSse.count h + s'.clientSockets.count h
  registered : s'.sockets.Sublist s.sockets
  depth : s'.broadcastDepth + pass.sends.length = s.broadcastDepth + pass'.sends.length
  deferred : s'.deferredCloseSse = s.deferredCloseSse ∧ (s'.broadcastDepth = 0 → s.deferredCloseSse = []) ∨
    s'.deferredCloseSse = [] ∧ s'.broadcastDepth = 0
  reach : ∀ left dead, pass'.phase = .sending left dead → pass'.closed = pass.closed ∧
    ∃ left' dead', pass.phase = .sending left' dead' ∧ ∀ e ∈ left ++ dead, e ∈ left' ++ dead'

variable {k : Nat} {pass : Pass} {s' : OverlayServer}

section

variable (sound : s.Sound)
include sound

theorem Accounts.passMoves (pass' : Pass)
    (there : s.passes[k]? = some pass) (moves : PassMoves s s' hand k pass pass') : s'.Accounts hand := by
  obtain ⟨frame, owned, listed, registered, depth, deferred, reach⟩ := moves
  have passes : s'.passes = s.passes.set k pass' := by rw [frame]
  have conns : s'.conns = s.conns := by rw [frame]
  have opened : s'.opened = s.opened := by rw [frame]
  have pending : s'.ssePending = s.ssePending := by rw [frame]
  have parks := perm_flatMap_set (f := Pass.parks) pass' there
  have erases := perm_flatMap_set (f := Pass.erases) pass' there
  have sends := perm_flatMap_set (f := Pass.sends) pass' there
  -- the depth counts the broadcasts that send
  have depths : s'.broadcastDepth = s'.sending.length := by
    have before := sound.depth
    have lengths := sends.length_eq
    simp only [OverlayServer.sending, passes, List.length_append] at before lengths ⊢
    omega
  refine ⟨fun h => ?_, fun h => ?_, ?_, ?_, ?_, ?_, depths, ?_, ?_, ?_, ?_⟩
  · have before := sound.owned h
    have own := owned h
    have a := parks.count_eq h
    have b := erases.count_eq h
    simp only [streaming, waiting, unlisted, parked, erasingParked, conns, passes, opened, List.count_append,
      List.count_nil] at before own a b ⊢
    omega
  · have before := sound.listed h
    have own := listed h
    have a := parks.count_eq h
    simp only [streaming, waiting, parked, conns, passes, List.count_append] at before own a ⊢
    omega
  · rw [opened]
    exact sound.distinct
  · intro e member
    rw [OverlayServer.entries, conns]
    exact sound.registered e (registered.mem member)
  · rw [pending, slots, conns]
    exact sound.reserved
  · have room := sound.room
    have shrinks := registered.length_le
    simp only [liveSseCount, pending] at room ⊢
    omega
  · intro some
    -- what is left parked keeps the depth above zero
    rcases deferred with ⟨same, emptied⟩ | ⟨none, _⟩
    · rw [same] at some
      exact Nat.pos_of_ne_zero fun zero => some (emptied zero)
    · exact absurd none some
  · intro q member left dead phase e target
    -- a broadcast that sends keeps the depth up, so nothing parked was handed out
    have up : s'.broadcastDepth ≠ 0 := by
      rw [depths]
      have counted : () ∈ s'.sending := List.mem_flatMap.mpr ⟨q, member, by simp [phase]⟩
      exact Nat.ne_of_gt (List.length_pos_of_mem counted)
    have same : s'.deferredCloseSse = s.deferredCloseSse := by
      rcases deferred with ⟨same, _⟩ | ⟨_, zero⟩
      · exact same
      · exact absurd zero up
    have held : e.2 ∉ q.closed ∧ (e.2 ∈ s.streaming ∨ e.2 ∈ s.deferredCloseSse) := by
      rw [passes] at member
      rcases List.mem_or_eq_of_mem_set member with old | rfl
      · exact sound.reach q old left dead phase e target
      · obtain ⟨closed, left', dead', before, within⟩ := reach left dead phase
        rw [closed]
        exact sound.reach pass (List.mem_of_getElem? there) left' dead' before e (within e target)
    rw [OverlayServer.streaming, conns, same]
    exact held
  · rw [frame]
    exact sound.strays
  · rw [frame]
    exact sound.accounted

theorem Accounts.send {target : String × Nat} {left dead dead' : List (String × Nat)}
    (there : s.passes[k]? = some pass) (phase : pass.phase = .sending (target :: left) dead)
    (within : ∀ e ∈ dead', e = target ∨ e ∈ dead) : (s.setPass k pass (.sending left dead')).Sound := by
  apply sound.passMoves { pass with phase := .sending left dead' } there
  have up := sound.depth_pos (List.mem_of_getElem? there) phase
  exact {
    frame := rfl
    owned := fun h => by simp [phase]
    listed := fun h => by simp [phase]
    registered := .refl _
    depth := by simp [phase]
    deferred := .inl ⟨rfl, fun zero => absurd zero (Nat.ne_of_gt up)⟩
    reach := by
      intro left₁ dead₁ same
      cases same
      refine ⟨rfl, target :: left, dead, phase, fun e member => ?_⟩
      rcases List.mem_append.mp member with more | gone
      · exact List.mem_append_left _ (List.mem_cons_of_mem _ more)
      -- a socket that has just failed was to be sent to, and is dead now
      · rcases within e gone with rfl | old
        · exact List.mem_append_left _ List.mem_cons_self
        · exact List.mem_append_right _ old }

theorem Accounts.drain {left dead : List (String × Nat)}
    (there : s.passes[k]? = some pass) (phase : pass.phase = .sending left dead) (last : s.broadcastDepth - 1 = 0) :
    Sound { s.setPass k pass (.draining s.deferredCloseSse) with
      sockets := s.sockets.filter (· ∉ dead)
      broadcastDepth := s.broadcastDepth - 1
      deferredCloseSse := [] } := by
  apply sound.passMoves { pass with phase := .draining s.deferredCloseSse } there
  have up := sound.depth_pos (List.mem_of_getElem? there) phase
  exact {
    frame := rfl
    owned := fun h => by simp [phase]
    listed := fun h => by simp [phase]
    registered := List.filter_sublist
    depth := by simpa [phase] using Nat.sub_add_cancel up
    deferred := .inr ⟨rfl, last⟩
    reach := nofun }

theorem Accounts.finish {left dead : List (String × Nat)}
    (there : s.passes[k]? = some pass) (phase : pass.phase = .sending left dead) (more : s.broadcastDepth - 1 ≠ 0) :
    Sound { s.setPass k pass (.draining []) with
      sockets := s.sockets.filter (· ∉ dead)
      broadcastDepth := s.broadcastDepth - 1 } := by
  apply sound.passMoves { pass with phase := .draining [] } there
  exact {
    frame := rfl
    owned := fun h => by simp [phase]
    listed := fun h => by simp [phase]
    registered := List.filter_sublist
    depth := by simpa [phase] using Nat.sub_add_cancel (by omega : 1 ≤ s.broadcastDepth)
    deferred := .inl ⟨rfl, fun zero => absurd zero more⟩
    reach := nofun }

/-- No handle is parked while no broadcast sends. -/
theorem Accounts.idle_empty (idle : s.broadcastDepth = 0) : s.deferredCloseSse = [] := by
  by_contra some
  exact absurd idle (Nat.ne_of_gt (sound.parking some))

variable {handle : Nat} {toClose : List Nat}

section

variable (there : s.passes[k]? = some pass)
include there

theorem Accounts.eraseParked (phase : pass.phase = .draining (handle :: toClose)) :
    Sound { s.setPass k pass (.closing handle (handle ∈ s.clientSockets) toClose) with
      clientSockets := s.clientSockets.erase handle } := by
  -- a parked handle is still listed: its connection left it to the broadcast
  have listed : handle ∈ s.clientSockets := by
    have member : handle ∈ s.parked :=
      List.mem_flatMap.mpr ⟨pass, List.mem_of_getElem? there, by simp [phase]⟩
    have := List.count_pos_iff.mpr member
    have := sound.listed handle
    exact List.count_pos_iff.mp (by omega)
  have counts := (List.perm_cons_erase listed).count_eq
  simp only [List.count_cons] at counts
  rw [decide_eq_true listed]
  apply sound.passMoves { pass with phase := .closing handle true toClose } there
  exact {
    frame := rfl
    owned := by
      intro h
      simp only [Pass.parks, Pass.erases, OverlayServer.setPass, phase, List.count_cons, List.count_nil]
      omega
    listed := by
      intro h
      have own := counts h
      simp only [Pass.parks, OverlayServer.setPass, phase, List.count_cons]
      omega
    registered := .refl _
    depth := by simp [phase]
    deferred := .inl ⟨rfl, sound.idle_empty⟩
    reach := nofun }

theorem Accounts.closeParked (phase : pass.phase = .closing handle true toClose) :
    ((s.setPass k pass (.draining toClose)).closeHandle handle).Sound := by
  apply Accounts.closeHandle
  apply sound.passMoves { pass with phase := .draining toClose } there
  exact {
    frame := rfl
    owned := by
      intro h
      simp only [Pass.parks, Pass.erases, OverlayServer.setPass, phase, List.count_nil]
      omega
    listed := fun h => by simp [phase]
    registered := .refl _
    depth := by simp [phase]
    deferred := .inl ⟨rfl, sound.idle_empty⟩
    reach := nofun }

theorem Accounts.skipParked (phase : pass.phase = .closing handle false toClose) :
    (s.setPass k pass (.draining toClose)).Sound := by
  apply sound.passMoves { pass with phase := .draining toClose } there
  exact {
    frame := rfl
    owned := fun h => by simp [phase]
    listed := fun h => by simp [phase]
    registered := .refl _
    depth := by simp [phase]
    deferred := .inl ⟨rfl, sound.idle_empty⟩
    reach := nofun }

variable {i : SocketStep}

theorem Accounts.passStep (step : s.passStep k pass i = some s') : s'.Sound := by
  cases i <;> simp only [OverlayServer.passStep, reduceCtorEq] at step <;> (repeat' split at step) <;> cases step
  next phase _ => exact sound.send there phase fun e member => (List.mem_append.mp member).symm.imp_left List.mem_singleton.mp
  next phase _ => exact sound.send there phase fun e member => .inr member
  next phase _ => exact sound.send there phase fun e member => .inr member
  -- only the last broadcast to end closes what was parked
  next phase last => exact sound.drain there phase last
  next phase more => exact sound.finish there phase more
  next phase => exact sound.eraseParked there phase
  next phase => exact sound.closeParked there phase
  next phase => exact sound.skipParked there phase

end

/-! ### Every step -/

/-- A handle the operating system gives out is in nobody's hands. -/
theorem Accounts.accept {handle : Nat} {widgetId : String} (free : handle ∉ s.opened.map Prod.fst) :
    Sound { s with
      conns := s.conns ++ [{ handle, widgetId, phase := .accepted }]
      opened := (handle, s.conns.length) :: s.opened } := by
  obtain ⟨owned, listed, distinct, registered, reserved, room, depth, parking, reach, strays, accounted⟩ := sound
  refine ⟨fun h => ?_, fun h => ?_, ?_, ?_, ?_, room, depth, parking, ?_, strays, ?_⟩
  · have before := owned h
    simp only [streaming, waiting, unlisted, parked, erasingParked, List.flatMap_append, List.flatMap_singleton, List.count_append,
      List.map_cons, List.count_cons, List.count_nil, Conn.streams, Conn.waits, Conn.unlisted] at before ⊢
    omega
  · have before := listed h
    simp only [streaming, waiting, parked, List.flatMap_append, List.flatMap_singleton, List.count_append, List.count_nil,
      Conn.streams, Conn.waits] at before ⊢
    omega
  · exact List.nodup_cons.mpr ⟨free, distinct⟩
  · intro e member
    simp only [entries, List.flatMap_append]
    exact List.mem_append_left _ (registered e member)
  · simp only [slots, List.flatMap_append, List.flatMap_singleton, Conn.slots, List.append_nil]
    exact reserved
  · intro pass member left dead phase e target
    obtain ⟨notClosed, held⟩ := reach pass member left dead phase e target
    simp only [streaming, List.flatMap_append]
    exact ⟨notClosed, held.imp_left (List.mem_append_left _)⟩
  · rw [List.length_append, List.length_singleton, List.range_succ, List.map_cons]
    exact (List.perm_middle.trans (accounted.cons _)).trans (List.perm_append_singleton _ _).symm

end

theorem snd_mem_streaming {e : String × Nat} (member : e ∈ s.entries) : e.2 ∈ s.streaming := by
  obtain ⟨conn, inside, own⟩ := List.mem_flatMap.mp member
  obtain ⟨handle, streams, rfl⟩ := List.mem_map.mp own
  exact List.mem_flatMap.mpr ⟨conn, inside, streams⟩

/-- A snapshot holds registered handles, and nothing was closed since. -/
theorem Accounts.broadcast {targets : List (String × Nat)} (sound : s.Sound) (within : ∀ e ∈ targets, e ∈ s.sockets) :
    Sound { s with
      passes := s.passes ++ [{ phase := .sending targets [] }]
      broadcastDepth := s.broadcastDepth + 1 } := by
  obtain ⟨owned, listed, distinct, registered, reserved, room, depth, parking, reach, strays, accounted⟩ := sound
  refine ⟨fun h => ?_, fun h => ?_, distinct, registered, reserved, room, ?_, fun _ => Nat.succ_pos _, ?_, strays, accounted⟩
  · have before := owned h
    simp only [streaming, waiting, unlisted, parked, erasingParked, List.flatMap_append, List.flatMap_singleton, Pass.parks,
      Pass.erases, List.append_nil] at before ⊢
    exact before
  · have before := listed h
    simp only [streaming, waiting, parked, List.flatMap_append, List.flatMap_singleton, Pass.parks, List.append_nil] at before ⊢
    exact before
  · simp only [sending, List.flatMap_append, List.flatMap_singleton, List.length_append, Pass.sends, List.length_singleton]
    rw [depth]
    rfl
  · intro pass member left dead phase e target
    rcases List.mem_append.mp member with old | new
    · exact reach pass old left dead phase e target
    -- each target is registered, so its connection still streams it
    · rw [List.mem_singleton.mp new] at phase ⊢
      cases phase
      rw [List.append_nil] at target
      exact ⟨List.not_mem_nil, .inl (snd_mem_streaming (registered e (within e target)))⟩

theorem Accounts.step (sound : s.Sound) (step : s.step i = some s') : s'.Sound := by
  cases i with
  | accept handle widgetId =>
    simp only [OverlayServer.step] at step
    split at step
    next free =>
      rw [← Option.some.inj step]
      exact sound.accept free.2
    · cases step
  | broadcast onlyWidgetId =>
    rw [← Option.some.inj step]
    exact sound.broadcast fun e member => (List.mem_filter.mp member).1
  | stop =>
    rw [← Option.some.inj step]
    exact ⟨sound.owned, sound.listed, sound.distinct, sound.registered, sound.reserved, sound.room, sound.depth, sound.parking,
      sound.reach, sound.strays, sound.accounted⟩
  | send k | epilogue k | eraseParked k | closeParked k =>
    obtain ⟨pass, there, step⟩ := Option.bind_eq_some_iff.mp step
    exact sound.passStep there step
  | spawn k | respond k | reserve k | handshake k | leave k | eraseClient k | closeSocket k =>
    obtain ⟨conn, there, step⟩ := Option.bind_eq_some_iff.mp step
    exact sound.connStep there step

theorem sound_empty : ({} : OverlayServer).Sound := by
  refine ⟨fun h => rfl, fun h => rfl, List.nodup_nil, ?_, rfl, by decide, rfl, fun some => absurd rfl some, ?_, rfl, .refl _⟩
  · intro e member
    cases member
  · intro pass member
    cases member

/-! ### Whole runs -/

/-- What a broadcast sends to, or shuts down, was not closed since its snapshot. -/
theorem Accounts.touches (sound : s.Sound) {k h : Nat} (there : s.passes[k]? = some pass)
    (touched : h ∈ s.touches k i) : h ∉ pass.closed := by
  have reach := sound.reach pass (List.mem_of_getElem? there)
  cases i with
  | send k' outcome =>
    simp only [OverlayServer.touches, there, Option.map_some] at touched
    split at touched
    · split at touched
      next target left dead phase =>
        rw [List.mem_singleton.mp touched]
        exact (reach _ dead (Option.some.inj phase) target (List.mem_append_left _ List.mem_cons_self)).1
      · cases touched
    · cases touched
  | epilogue k' =>
    simp only [OverlayServer.touches, there, Option.map_some] at touched
    split at touched
    · split at touched
      next left dead phase =>
        obtain ⟨e, shut, rfl⟩ := List.mem_map.mp touched
        exact (reach left dead (Option.some.inj phase) e (List.mem_append_right _ (List.mem_filter.mp shut).1)).1
      · cases touched
    · cases touched
  | _ => cases touched

/-- With every thread and broadcast ended, nothing is open. -/
theorem Accounts.ended (sound : s.Sound) (ended : s.Ended) : s.opened = [] := by
  obtain ⟨conns, passes⟩ := ended
  have streaming : s.streaming = [] :=
    List.flatMap_eq_nil_iff.mpr fun conn member => by simp [Conn.streams, conns conn member]
  have waiting : s.waiting = [] :=
    List.flatMap_eq_nil_iff.mpr fun conn member => by simp [Conn.waits, conns conn member]
  have unlisted : s.unlisted = [] :=
    List.flatMap_eq_nil_iff.mpr fun conn member => by simp [Conn.unlisted, conns conn member]
  have parked : s.parked = [] :=
    List.flatMap_eq_nil_iff.mpr fun pass member => by simp [passes pass member]
  have erasing : s.erasingParked = [] :=
    List.flatMap_eq_nil_iff.mpr fun pass member => by simp [passes pass member]
  have sending : s.sending = [] :=
    List.flatMap_eq_nil_iff.mpr fun pass member => by simp [passes pass member]
  have deferred : s.deferredCloseSse = [] := sound.idle_empty (by rw [sound.depth, sending, List.length_nil])
  have none : ∀ h, h ∉ s.opened.map Prod.fst := by
    intro h member
    have owned := sound.owned h
    rw [streaming, waiting, unlisted, parked, erasing, deferred] at owned
    have := List.count_pos_iff.mpr member
    simp only [List.count_nil] at owned
    omega
  exact List.map_eq_nil_iff.mp (List.eq_nil_iff_forall_not_mem.mpr none)

theorem Accounts.closes_nodup (sound : s.Sound) : s.closes.Nodup := by
  have all := (sound.accounted.nodup_iff).mpr List.nodup_range
  exact (List.nodup_append.mp all).1

theorem Accounts.closes_of_ended (sound : s.Sound) (ended : s.Ended) : s.closes.Perm (List.range s.conns.length) := by
  have accounted := sound.accounted
  rw [sound.ended ended, List.map_nil, List.append_nil] at accounted
  exact accounted

/-- In every order of accepts, threads, broadcasts and `Stop`: no accept's handle is closed
twice and no close misses, all are closed once everything ended, no broadcast touches a
handle closed since its snapshot, and the streams keep to their number. -/
theorem socket_discipline {ms : List (Moment OverlayServer SocketStep)} {u : OverlayServer}
    (run : Run (fun s i t => s.step i = some t) {} ms u) :
    u.closes.Nodup ∧ u.strays = 0 ∧ (u.Ended → u.closes.Perm (List.range u.conns.length)) ∧
      u.ssePending + u.liveSseCount ≤ kMaxSseConnections ∧
      ∀ m ∈ ms, ∀ k pass, m.before.passes[k]? = some pass → ∀ h ∈ m.before.touches k m.input, h ∉ pass.closed := by
  have sound := run.invariant (P := Sound) (Q := fun _ => True) (fun m _ step sound => sound.step step)
    (fun _ _ => trivial) sound_empty
  obtain ⟨last, each⟩ := sound
  refine ⟨last.closes_nodup, last.strays, last.closes_of_ended, last.room, ?_⟩
  intro m member k pass there h touched
  exact (each m member).1.touches there touched

/-- A page leaves during a broadcast, which closes its handle at the end; the next accept is
given the same handle. -/
theorem socket_discipline_over_recycled_handle : ∃ (ms : List (Moment OverlayServer SocketStep)) (u : OverlayServer),
    Run (fun s i t => s.step i = some t) {} ms u ∧ u.conns.map Conn.handle = [7, 7] ∧ u.Ended ∧
    u.closes.Perm (List.range 2) := by
  obtain ⟨ms, u, run, shown⟩ := exists_run_of_follow OverlayServer.step {}
    [.accept 7 "alerts", .spawn 0, .reserve 0, .handshake 0 true, .broadcast none, .leave 0, .send 0 .failed, .epilogue 0,
      .eraseParked 0, .closeParked 0, .accept 7 "chat", .spawn 1, .respond 1, .stop, .eraseClient 1, .closeSocket 1]
    (fun _ u => u.conns.map Conn.handle = [7, 7] &&
      (u.conns.all (fun conn => conn.phase = .ended) && u.passes.all (fun pass => pass.phase = .draining [])))
    (by decide)
  rw [Bool.and_eq_true, Bool.and_eq_true, List.all_eq_true, List.all_eq_true] at shown
  obtain ⟨handles, conns, passes⟩ := shown
  have ended : u.Ended :=
    ⟨fun conn member => of_decide_eq_true (conns conn member), fun pass member => of_decide_eq_true (passes pass member)⟩
  have two : u.conns.length = 2 := by
    rw [← List.length_map Conn.handle, of_decide_eq_true handles]
    rfl
  exact ⟨ms, u, run, of_decide_eq_true handles, ended, two ▸ (socket_discipline run).2.2.1 ended⟩

/-- Each slot taken is a handshake's, each registered socket a stream's, and handles are parked only under a
broadcast; once everything ended, nothing is left. -/
theorem nothing_leaks {ms : List (Moment OverlayServer SocketStep)} {u : OverlayServer}
    (run : Run (fun s i t => s.step i = some t) {} ms u) :
    u.ssePending = u.slots.length ∧ (∀ e ∈ u.sockets, e ∈ u.entries) ∧ (u.sending = [] → u.deferredCloseSse = []) ∧
      (u.Ended → u.ssePending = 0 ∧ u.sockets = [] ∧ u.clientSockets = [] ∧ u.deferredCloseSse = []) := by
  have sound : u.Sound := run.always (P := Sound) (fun _ _ _ step sound => sound.step step) sound_empty
  have unparked (silent : u.sending = []) : u.deferredCloseSse = [] := sound.idle_empty (by rw [sound.depth, silent]; rfl)
  refine ⟨sound.reserved, sound.registered, unparked, fun ⟨conns, passes⟩ => ?_⟩
  have idle {β : Type} (f : Conn → List β) (none : ∀ conn, conn.phase = .ended → f conn = []) : u.conns.flatMap f = [] :=
    List.flatMap_eq_nil_iff.mpr fun conn member => none conn (conns conn member)
  have quiet {β : Type} (f : Pass → List β) (none : ∀ pass, pass.phase = .draining [] → f pass = []) : u.passes.flatMap f = [] :=
    List.flatMap_eq_nil_iff.mpr fun pass member => none pass (passes pass member)
  have deferred := unparked (quiet _ fun _ phase => by simp [phase])
  refine ⟨?_, List.eq_nil_iff_forall_not_mem.mpr fun e member => ?_, List.eq_nil_iff_forall_not_mem.mpr fun h member => ?_, deferred⟩
  · rw [sound.reserved, slots, idle _ fun _ phase => by simp [phase]]
    rfl
  · have listed := sound.registered e member
    rw [entries, idle _ fun _ phase => by simp [phase]] at listed
    cases listed
  · have listed := sound.listed h
    rw [streaming, waiting, parked, deferred, idle _ fun _ phase => by simp [phase], idle _ fun _ phase => by simp [phase],
      quiet _ fun _ phase => by simp [phase]] at listed
    simp [List.count_pos_iff.mpr member |>.ne] at listed

/-- A page comes and goes. -/
theorem nothing_leaks_after_page : ∃ ms u, Run (fun s i t => OverlayServer.step s i = some t) {} ms u ∧ u.closes = [0] ∧
    u.ssePending = 0 ∧ u.sockets = [] ∧ u.clientSockets = [] ∧ u.deferredCloseSse = [] := by
  obtain ⟨ms, u, run, shown⟩ := exists_run_of_follow OverlayServer.step {}
    [.accept 7 "a", .spawn 0, .reserve 0, .handshake 0 true, .leave 0, .eraseClient 0, .closeSocket 0]
    (fun _ u => u.closes = [0] && (u.passes.isEmpty && u.conns.all (·.phase = .ended))) (by decide)
  simp only [Bool.and_eq_true, decide_eq_true_eq, List.isEmpty_iff, List.all_eq_true] at shown
  exact ⟨ms, u, run, shown.1, (nothing_leaks run).2.2.2 ⟨shown.2.2, by simp [shown.2.1]⟩⟩

end OverlayServer

end Braidcast.Overlay
