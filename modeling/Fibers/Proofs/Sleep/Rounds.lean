import Fibers.Proofs.Manager.Stop
import Fibers.Proofs.Sleep.Diary

/-!
Rounds while the clock goes on only in waits. A round of a thread that does not wait does what its
innermost frame does, and takes no time. A scene leads to what every run comes to that begins in a
world as the scene says, unless a deadline overflows on the way.
-/

namespace Fibers.Script

namespace Station

variable {p : Station} {c c' u : Scene} {w w' v : World} {now now' : Instant}
  {back : List Frame} {f : Frame} {rest : List Frame} {s : Signal} {act : Act Signal}
  {log : List SleepEvent} {still : Prop}

/-- The world is as a scene says, at a reading of a clock that goes on only in waits, and the poller
can be waited for. -/
structure Sees (p : Station) (c : Scene) (now : Instant) (w : World) : Prop where
  depicts : p.Depicts c w
  clock : w.clock = now
  timing : w.timing = .frozen
  accepts : ∀ e, w.kernel.epolls.get? p.epoll = some e →
    Kernel.State.acceptsBound e.maxEvents = true

namespace Sees

theorem after (h : p.Sees c now w) (gentle : Gentle still w w') (shows : p.Depicts u w') :
    p.Sees u now w' where
  depicts := shows
  clock := gentle.clock.trans h.clock
  timing := gentle.timing.trans h.timing
  accepts e' found := by
    obtain ⟨e, there, same⟩ := gentle.sets p.epoll e' found
    exact same ▸ h.accepts e there

theorem popped (h : p.Sees c now w) (rest : List Frame) :
    p.Sees { c with frames := rest } now (w.popped rest) :=
  have same : Gentle True w (w.popped rest) := .of_same rfl rfl rfl
  h.after same (h.depicts.popped rest)

/-- A round runs the innermost frame. -/
theorem moves (h : p.Sees c now w) (awake : c.wait = none) (frames : c.frames = f :: rest)
    {r : Except Stop Signal} (did : (proceedWith f c.signal).on (w.popped rest) = (r, v))
    (timing : v.timing = .frozen) :
    w.round = some (v.updateThread fun t => { t with signal := ending r }) := by
  simp only [World.round, h.depicts.turns, h.depicts.moves awake frames did, World.updateThread,
    timing]

/-- A round after which the frame has done something. -/
theorem turns (h : p.Sees c now w) (awake : c.wait = none) (frames : c.frames = f :: rest)
    (did : (proceedWith f c.signal).on (w.popped rest) = (.ok s, v)) (seen : p.Sees u now' v) :
    ∃ w', w.round = some w' ∧ p.Sees { u with signal := s } now' w' ∧ w'.kernel = v.kernel :=
  ⟨_, h.moves awake frames did seen.timing,
    ⟨seen.depicts.told s, seen.clock, seen.timing, seen.accepts⟩, rfl⟩

/-- A round in which no time passes. -/
theorem runs (h : p.Sees c now w) (awake : c.wait = none) (frames : c.frames = f :: rest)
    (goes : proceedWith f c.signal = act) (does : p.Does { c with frames := rest } act s u)
    (gently : Gentle still (w.popped rest) (act.on (w.popped rest)).2) :
    ∃ w', w.round = some w' ∧ p.Sees { u with signal := s } now w' ∧
      (still → w'.kernel = w.kernel) := by
  obtain ⟨v, did, shows⟩ := does (w.popped rest) (h.depicts.popped rest)
  rw [did] at gently
  obtain ⟨w', round, seen, kernel⟩ := h.turns awake frames (goes ▸ did)
    ((h.popped rest).after gently shows)
  exact ⟨w', round, seen, fun yes => kernel.trans (gently.kernel yes)⟩

/-- What a round leads to that takes no time. -/
theorem goes (h : p.Sees c now w) (awake : c.wait = none) (frames : c.frames = f :: rest)
    (goes : proceedWith f c.signal = act) (gently : act.Gently False) (round : w.round = some w')
    (shows : p.Depicts u w') : p.Sees u now w' := by
  have gentle := gently (w.popped rest)
  rcases did : act.on (w.popped rest) with ⟨r, v⟩
  rw [did] at gentle
  have timing : v.timing = .frozen := gentle.timing.trans h.timing
  have same := h.moves awake frames (goes ▸ did) timing
  obtain rfl := Option.some.inj (round.symm.trans same)
  refine ⟨shows, gentle.clock.trans h.clock, timing, fun e' found => ?_⟩
  obtain ⟨e, there, size⟩ := gentle.sets p.epoll e' found
  exact size ▸ h.accepts e there

/-- A frame is put on top. -/
theorem pushes (h : p.Sees c now w) (f : Frame) :
    ∃ v, (push f).on w = (.ok (), v) ∧ p.Sees { c with frames := f :: c.frames } now v ∧
      v.kernel = w.kernel := by
  obtain ⟨v, did, shows, gentle⟩ := (push_does f).gently (@push_gently True f) h.depicts
  exact ⟨v, did, h.after gentle shows, gentle.kernel trivial⟩

theorem sleepEvents (h : p.Sees c now w) :
    w.sleepEvents = Script.sleepEvents c.frames c.current now := by
  have is := h.depicts.thread
  rw [World.sleepEvents, is.frames, is.current, h.clock]

end Sees

/-- No world that is as a scene says is one after the stop. -/
def Busy (p : Station) (back : List Frame) (c : Scene) : Prop :=
  ∀ w, p.Depicts c w → ¬w.Returned back

theorem busy_inside {a g : FiberId} {chain : List FiberId} {cells : List Cell}
    (floor : Floor c.toView a (g :: chain) cells) : p.Busy back c := by
  intro w shows returned
  have out := returned.2
  rw [shows.inside_fibers floor] at out
  cases out

/-- The stop has not returned while it has frames of its own. -/
theorem busy_above (fs : List Frame) (some : fs ≠ []) (frames : c.frames = fs ++ back) :
    p.Busy back c := by
  intro w shows returned
  have same : fs ++ back = back :=
    frames.symm.trans (shows.thread.frames.symm.trans returned.1)
  exact some (List.append_left_eq_self.mp same)

/-- A run comes from a world to a good scene, with certain entries of the diary on the way. -/
def Reaches (p : Station) (back : List Frame) (w : World)
    (good : List SleepEvent → Scene → Instant → Prop) : Prop :=
  ∃ log c' now' w', Diary back w log w' ∧ p.Sees c' now' w' ∧ good log c' now'

/-- Every run that begins as a scene says comes to a good one. -/
def Leads (p : Station) (back : List Frame) (c : Scene) (now : Instant)
    (good : List SleepEvent → Scene → Instant → Prop) : Prop :=
  ∀ w, p.Sees c now w → InTime back w → p.Reaches back w good

variable {good good' : List SleepEvent → Scene → Instant → Prop}

namespace Reaches

theorem mono (h : p.Reaches back w good) (weaker : ∀ log c now, good log c now → good' log c now) :
    p.Reaches back w good' := by
  obtain ⟨log, c', now', w', diary, seen, reached⟩ := h
  exact ⟨log, c', now', w', diary, seen, weaker _ _ _ reached⟩

/-- A run goes on from where another one has come to. -/
theorem after (diary : Diary back w log w')
    (h : p.Reaches back w' fun more => good (log ++ more)) : p.Reaches back w good := by
  obtain ⟨more, c', now', v, diary', seen, reached⟩ := h
  exact ⟨log ++ more, c', now', v, diary.trans diary', seen, reached⟩

theorem trans (h : p.Reaches back w good) (inTime : InTime back w)
    (g : ∀ log c now, good log c now → p.Leads back c now fun more => good' (log ++ more)) :
    p.Reaches back w good' := by
  obtain ⟨log, c', now', w', diary, seen, reached⟩ := h
  exact .after diary (g _ _ _ reached w' seen (diary.inTime inTime))

/-- The first round of a run. -/
theorem first (busy : ¬w.Returned back) (round : w.round = some w') (events : w.sleepEvents = log)
    (inTime : InTime back w)
    (h : InTime back w' → p.Reaches back w' fun more => good (log ++ more)) :
    p.Reaches back w good := by
  have one := Diary.one busy round
  rw [events] at one
  exact .after one (h (one.inTime inTime))

end Reaches

/-- A run comes to a scene in rounds that take no time and do not call the system. -/
def Calmly (p : Station) (back : List Frame) (now : Instant) (w : World) (c : Scene) : Prop :=
  ∃ w', Diary back w [] w' ∧ p.Sees c now w' ∧ w'.kernel = w.kernel

theorem Calmly.trans (h : p.Calmly back now w c)
    (g : ∀ w', p.Sees c now w' → p.Calmly back now w' u) : p.Calmly back now w u := by
  obtain ⟨w', diary, seen, kernel⟩ := h
  obtain ⟨v, diary', seen', kernel'⟩ := g w' seen
  exact ⟨v, diary.trans diary', seen', kernel'.trans kernel⟩

/-- A round that does not call the system. -/
theorem Sees.calmly (seen : p.Sees c now w) (busy : p.Busy back c) (awake : c.wait = none)
    (frames : c.frames = f :: rest) (quiet : ∀ t, Script.sleepEvents c.frames c.current t = [])
    (goes : proceedWith f c.signal = act) (does : p.Does { c with frames := rest } act s u)
    (gently : Gentle True (w.popped rest) (act.on (w.popped rest)).2) :
    p.Calmly back now w { u with signal := s } := by
  obtain ⟨w', round, seen', kernel⟩ := seen.runs awake frames goes does gently
  have one := Diary.one (busy w seen.depicts) round
  rw [seen.sleepEvents, quiet] at one
  exact ⟨w', one, seen', kernel trivial⟩

namespace Leads

theorem here (reached : good [] c now) : p.Leads back c now good :=
  fun w seen _ => ⟨[], c, now, w, .start, seen, reached⟩

theorem mono (h : p.Leads back c now good)
    (weaker : ∀ log c now, good log c now → good' log c now) : p.Leads back c now good' :=
  fun w seen inTime => (h w seen inTime).mono weaker

/-- A round in which no time passes, with what is entered in it, before others. -/
theorem enters (busy : p.Busy back c) (awake : c.wait = none) (frames : c.frames = f :: rest)
    (events : sleepEvents c.frames c.current now = log) (goes : proceedWith f c.signal = act)
    (does : p.Does { c with frames := rest } act s u) (gently : act.Gently False)
    (h : p.Leads back { u with signal := s } now fun more => good (log ++ more)) :
    p.Leads back c now good := by
  intro w seen inTime
  obtain ⟨v, round, seen', -⟩ := seen.runs awake frames goes does (gently _)
  exact .first (busy w seen.depicts) round (seen.sleepEvents.trans events) inTime (h v seen')

/-- A round in which no time passes, and nothing is entered, before others. -/
theorem step (busy : p.Busy back c) (awake : c.wait = none) (frames : c.frames = f :: rest)
    (quiet : ∀ t, sleepEvents c.frames c.current t = []) (goes : proceedWith f c.signal = act)
    (does : p.Does { c with frames := rest } act s u) (gently : act.Gently False)
    (h : p.Leads back { u with signal := s } now good) : p.Leads back c now good :=
  .enters busy awake frames (quiet now) goes does gently h

end Leads

end Station

end Fibers.Script
