import Fibers.Proofs.Sleep.Rounds

/-!
The wait of a reactor while the clock goes on only there. A wait fails, reports something at once,
or takes the time that it was given in whole milliseconds. It does not fail or report for ever:
`Kernel.State.unrest` counts the failures that were arranged and the members of the ready queue,
and only others add to them.
-/

namespace Fibers.Kernel

/-- What may end waits of a set of descriptors before their time: failures that were arranged, and
members of the ready queue. -/
def State.unrest (k : State) (id : Nat) : Nat :=
  k.waitFaults.length + ((k.epolls.get? id).map (·.ready.length)).getD 0

/-- A member is reported at most once. -/
theorem Epoll.takeReady_length (e : Epoll) (d : Descriptors) (room : Nat) (ms : List Member) :
    (e.takeReady d room ms).1.length + (e.takeReady d room ms).2.length ≤ ms.length := by
  induction ms generalizing room with
  | nil => cases room <;> exact Nat.le_refl _
  | cons m ms ih =>
    cases room with
    | zero => simp only [takeReady, List.length_nil, Nat.zero_add, Nat.le_refl]
    | succ room =>
      simp only [takeReady]
      cases e.report? d m with
      | none => exact Nat.le_succ_of_le (ih (room + 1))
      | some r =>
        have rest := ih room
        simp only [List.length_cons]
        omega

namespace State

variable {k : State} {id : Nat} {e : Epoll}

theorem unrest_of_get? (found : k.epolls.get? id = some e) :
    k.unrest id = k.waitFaults.length + e.ready.length := by
  rw [unrest, found]
  rfl

theorem takeFault_eq (k : State) (c : Call) :
    ∃ faults, (k.takeFault c).1 = { k with faults := faults } := by
  unfold takeFault
  split
  · exact ⟨_, rfl⟩
  · exact ⟨k.faults, rfl⟩

/-- To empty a wake counter changes sets of descriptors, and may use up a failure. -/
theorem clearWaker_eq (k : State) (id : Nat) :
    ∃ faults epolls, k.clearWaker id = { k with faults := faults, epolls := epolls } := by
  obtain ⟨faults, same⟩ := k.takeFault_eq .counterRead
  unfold clearWaker counterReadable
  rcases taken : k.takeFault .counterRead with ⟨k', _ | n⟩
  all_goals
    rw [taken] at same
    obtain rfl : k' = { k with faults := faults } := same
  · exact ⟨faults, _, rfl⟩
  · dsimp only
    split
    · next eq =>
      obtain ⟨rfl, -⟩ := Prod.mk.inj eq
      exact ⟨faults, _, rfl⟩
    · next eq =>
      obtain ⟨rfl, -⟩ := Prod.mk.inj eq
      exact ⟨faults, k.epolls, rfl⟩

theorem consume_state (k : State) (id : Nat) (reports : List Epoll.Report) :
    ∃ faults epolls, (k.consume id reports).1 = { k with faults := faults, epolls := epolls } := by
  induction reports generalizing k with
  | nil => exact ⟨k.faults, k.epolls, rfl⟩
  | cons r reports ih =>
    cases r with
    | woken =>
      obtain ⟨_, _, cleared⟩ := k.clearWaker_eq id
      obtain ⟨faults, epolls, rest⟩ := ih (k.clearWaker id)
      rw [cleared] at rest
      refine ⟨faults, epolls, ?_⟩
      rw [consume, cleared]
      exact rest
    | ready fd event => exact ih k

/-- The reports of a wait were handled: nothing can end further waits that could not before. -/
theorem consume_unrest (found : k.epolls.get? id = some e) (reports : List Epoll.Report) :
    (k.consume id reports).1.unrest id = k.unrest id := by
  obtain ⟨waker, there⟩ := (k.consume_eq id reports).2.epolls id e found
  obtain ⟨_, _, same⟩ := k.consume_state id reports
  rw [unrest_of_get? there, unrest_of_get? found, same]

end State

end Fibers.Kernel

namespace Fibers.Script

open Kernel (Epoll)

/-- To look without waiting leaves the set of descriptors as it is, or takes something from its
ready queue. -/
theorem pollNow_unrest {id : Nat} {w : World} {e : Epoll}
    (there : w.kernel.epolls.get? id = some e) (millis : Int) :
    ∃ found k, (pollNow id millis).on w = (.ok found, { w with kernel := k }) ∧
      Kernel.State.Spares id w.kernel k ∧ k.unrest id ≤ w.kernel.unrest id ∧
      (found.isSome → k.unrest id < w.kernel.unrest id) := by
  have length := e.takeReady_length w.kernel.descriptors e.maxEvents e.ready
  rcases taken : e.takeReady w.kernel.descriptors e.maxEvents e.ready with ⟨reports, left⟩
  rw [taken] at length
  let e' : Epoll := { e with ready := left }
  let k : Kernel.State := { w.kernel with epolls := w.kernel.epolls.put id e' }
  have harvest : w.kernel.harvest id = (k, reports) := by
    simp only [Kernel.State.harvest, there, Epoll.harvest, taken, k, e']
  have there' : k.epolls.get? id = some e' := Table.get?_put_self ..
  have spares : Kernel.State.Spares id w.kernel k := by
    refine ⟨fun _ h => h, fun x known => ⟨e', there', ?_⟩⟩
    obtain rfl := Option.some.inj (known.symm.trans there)
    rfl
  have first : (kernel (·.harvest id)).on w = (.ok reports, { w with kernel := k }) := by
    rw [kernel_on, harvest]
  have before : w.kernel.unrest id = w.kernel.waitFaults.length + e.ready.length :=
    Kernel.State.unrest_of_get? there
  have after : k.unrest id = w.kernel.waitFaults.length + left.length :=
    Kernel.State.unrest_of_get? there'
  cases reports with
  | nil =>
    refine ⟨none, k, ?_, spares, ?_, fun some => by cases some⟩
    · rw [pollNow, Act.on_bind_ok first]
      rfl
    · simp only [List.length_nil] at length
      omega
  | cons r reports =>
    let k₁ := k.logWait millis (r :: reports).length
    have consumed := (k₁.consume_eq id (r :: reports)).2
    have unrest : (k₁.consume id (r :: reports)).1.unrest id = k.unrest id :=
      k₁.consume_unrest there' (r :: reports)
    have fewer : k.unrest id < w.kernel.unrest id := by
      simp only [List.length_cons] at length
      omega
    refine ⟨some (k₁.consume id (r :: reports)).2, (k₁.consume id (r :: reports)).1, ?_, ?_,
      Nat.le_trans (Nat.le_of_eq unrest) (Nat.le_of_lt fewer),
      fun _ => Nat.lt_of_le_of_lt (Nat.le_of_eq unrest) fewer⟩
    · rw [pollNow, Act.on_bind_ok first]
      rfl
    · exact spares.trans (.of_consumed ((logWait_consumed k _ _).trans consumed))

namespace Station

variable {p : Station} {c u : Scene} {w w' v : World} {now : Instant}

/-- The system may change as long as it has room, and time may pass. -/
theorem Sees.outside (h : p.Sees c now w) {k : Kernel.State}
    (spares : Kernel.State.Spares p.epoll w.kernel k) (t : Instant) :
    p.Sees c t { w with kernel := k, clock := t } where
  depicts := h.depicts.outside (h.depicts.ample.spared spares) t
  clock := rfl
  timing := h.timing
  accepts e' found := by
    obtain ⟨e, there, -⟩ := h.depicts.ample.set
    obtain ⟨e'', there', same⟩ := spares.set e there
    obtain rfl := Option.some.inj (there'.symm.trans found)
    exact same ▸ h.accepts e there

/-- The time that a wait takes: its bound in whole milliseconds. -/
def pause (timeout : Duration) : Duration :=
  Duration.ofMillis (Kernel.timeoutMillis (some timeout)).toNat

/-- A wait is less than a millisecond longer than its bound. -/
theorem pause_lt (timeout : Duration) : pause timeout < timeout + Duration.ofMillis 1 := by
  simp only [pause, Kernel.timeoutMillis, Duration.ofMillis, Duration.nanosPerMilli]
  unfold Duration
  omega

/-- A wait until an alarm, or for a shorter time, ends less than a millisecond past the alarm. -/
theorem pause_inTime {due : Instant} (soon : now < due + Duration.ofMillis 1) (most : Duration) :
    now + pause (min (due - now) most) < due + Duration.ofMillis 1 := by
  rcases Nat.le_total now due with ahead | past
  · calc
      now + pause (min (due - now) most) < now + (min (due - now) most + Duration.ofMillis 1) :=
        Nat.add_lt_add_left (pause_lt _) now
      _ ≤ now + (due - now + Duration.ofMillis 1) :=
        Nat.add_le_add_left (Nat.add_le_add_right (Nat.min_le_left ..) _) now
      _ = due + Duration.ofMillis 1 := by rw [← Nat.add_assoc, Nat.add_sub_cancel' ahead]
  · rw [Nat.sub_eq_zero_of_le past, Nat.zero_min]
    exact soon

theorem pause_pos {timeout : Duration} (some : 0 < timeout) : 0 < pause timeout := by
  have limit : Nat.pow 2 31 = 2147483648 := rfl
  simp only [pause, Kernel.timeoutMillis, Duration.ofMillis, Duration.nanosPerMilli, limit]
  unfold Duration at *
  omega

/-- What has become of a wait that began at a time: it took no time, and there is less to end
further ones; or it took its time. -/
def Polled (p : Station) (c : Scene) (now : Instant) (timeout : Duration) (unrest : Nat)
    (res : Except OsError (List (Int × Event))) (w : World) : Prop :=
  p.Sees c now w ∧ w.kernel.unrest p.epoll < unrest ∨
    p.Sees c (now + pause timeout) w ∧ res = .ok []

/-- There is a set of descriptors, and its reports can be stored. -/
theorem Sees.allocates (h : p.Sees c now w) :
    ∃ e, w.kernel.epolls.get? p.epoll = some e ∧
      (allocate e.maxEvents 12).on w = (.ok (), w) := by
  obtain ⟨e, there, room⟩ := h.depicts.ample.set
  refine ⟨e, there, ?_⟩
  have fits : ¬maxRowBytes < e.maxEvents * 12 := by
    have wide : rowLimit ≤ maxRowBytes := by decide
    omega
  rw [allocate, if_neg fits, if_neg (Nat.not_le.mpr room)]
  rfl

/-- A wait fails if a failure was arranged. -/
theorem poll_fails (h : p.Sees c now w) (timeout : Duration) {n : Int} {rest : List Int}
    (faults : w.kernel.waitFaults = n :: rest) :
    ∃ w', (poll p.epoll (some timeout)).on w = (.ok (.polled (.error (.code n))), w') ∧
      p.Sees c now w' ∧ w'.kernel.unrest p.epoll < w.kernel.unrest p.epoll := by
  obtain ⟨e, there, allocated⟩ := h.allocates
  let k : Kernel.State := { w.kernel with waitFaults := rest }
  let millis := Kernel.timeoutMillis (some timeout)
  let k' := k.logWait millis (-n)
  have fault : w.kernel.waitFault p.epoll = (k, some n) := by
    rw [Kernel.State.waitFault, faults]
  have asked : (kernel (·.waitFault p.epoll)).on w = (.ok (some n), { w with kernel := k }) := by
    rw [kernel_on, fault]
  have spares : Kernel.State.Spares p.epoll w.kernel k := ⟨fun _ h => h, fun e h => ⟨e, h, rfl⟩⟩
  refine ⟨{ w with kernel := k' }, ?_, ?_, ?_⟩
  · rw [poll, Act.on_bind_get, there]
    refine (Act.on_bind_ok allocated).trans ?_
    rw [Act.on_bind_ok asked]
    rfl
  · have seen := h.outside (spares.trans (logWait_spares p.epoll k millis (-n))) w.clock
    rw [h.clock] at seen
    exact h.clock ▸ seen
  · have after : k'.unrest p.epoll = rest.length + e.ready.length :=
      Kernel.State.unrest_of_get? there
    rw [after, Kernel.State.unrest_of_get? there, faults, List.length_cons]
    omega

/-- A wait that does not fail reports something at once, or takes its time. -/
theorem poll_looks (h : p.Sees c now w) (timeout : Duration)
    (faults : w.kernel.waitFaults = []) :
    ∃ res w', (poll p.epoll (some timeout)).on w = (.ok (.polled res), w') ∧
      p.Polled c now timeout (w.kernel.unrest p.epoll) res w' := by
  obtain ⟨e, there, allocated⟩ := h.allocates
  let millis := Kernel.timeoutMillis (some timeout)
  have fault : w.kernel.waitFault p.epoll = (w.kernel, none) := by
    rw [Kernel.State.waitFault, faults]
    dsimp only
    rw [there]
    dsimp only
    rw [h.accepts e there, if_pos rfl]
  have asked : (kernel (·.waitFault p.epoll)).on w = (.ok none, w) := by
    rw [kernel_on, fault]
  obtain ⟨found, k, looked, spares, le, lt⟩ := pollNow_unrest there millis
  cases found with
  | some found =>
    refine ⟨.ok found, { w with kernel := k }, ?_, .inl ⟨?_, lt rfl⟩⟩
    · rw [poll, Act.on_bind_get, there]
      refine (Act.on_bind_ok allocated).trans ?_
      rw [Act.on_bind_ok asked]
      exact Act.on_bind_ok looked
    · exact h.clock ▸ h.outside spares w.clock
  | none =>
    have calm : ({ w with kernel := k } : World).isConcurrent = false := by
      rw [World.isConcurrent, h.timing]
      rfl
    refine ⟨.ok [], { w with
      kernel := k.logWait millis 0
      clock := w.clock + pause timeout }, ?_, .inr ⟨?_, rfl⟩⟩
    · rw [poll, Act.on_bind_get, there]
      refine (Act.on_bind_ok allocated).trans ?_
      rw [Act.on_bind_ok asked]
      refine (Act.on_bind_ok looked).trans ?_
      dsimp only
      rw [Act.on_bind_get, calm]
      rfl
    · exact h.clock ▸ h.outside (spares.trans (logWait_spares p.epoll k millis 0)) _

/-- A wait fails, reports something, or takes its time. -/
theorem poll_on (h : p.Sees c now w) (timeout : Duration) :
    ∃ res w', (poll p.epoll (some timeout)).on w = (.ok (.polled res), w') ∧
      p.Polled c now timeout (w.kernel.unrest p.epoll) res w' := by
  cases faults : w.kernel.waitFaults with
  | nil => exact poll_looks h timeout faults
  | cons n rest =>
    obtain ⟨w', did, seen, less⟩ := poll_fails h timeout faults
    exact ⟨_, w', did, .inl ⟨seen, less⟩⟩

end Station

end Fibers.Script
