import Fibers.Proofs.Manager.Actions

/-!
The phases of a first stop. The root fiber has the run loop; it resumes the fibers of tasks and,
when there is nothing to take, the idle fiber, which waits for the poller. Each phase says which
fiber runs, what it has still to do, and which cells and handles are accounted for.
-/

namespace Fibers.Script

/-- The fibers of a run loop and the script that waits for it. -/
structure Bench where
  caller : FiberId
  entry : Option Body
  /-- What the script does after its stop. -/
  back : List Frame
  idle : FiberId
  /-- Whether the idle fiber has begun. -/
  begun : Bool
  /-- The callback fibers that are kept. -/
  pooled : List Cell

/-- What is known of the run loop: the cells, the fiber that runs and those that wait for it, what
is at hand, and the handles that frames hold. -/
structure Seat where
  known : List Cell
  running : FiberId
  chain : List FiberId
  hand : List (Task Body)
  risen : List FiberId
  due : Nat
  lent : Nat
  active : Nat

namespace Station

variable (p : Station)

/-- The frames under the run loop. -/
def under : List Frame := [.release [.scheduler p.scheduler], .fiberBody p.root]

/-- The frames of the script while the root fiber runs. -/
def calling (back : List Frame) : List Frame :=
  .release [.fiber p.root] :: .stopJoin p.scheduler :: .release [.scheduler p.scheduler] :: back

/-- The frames under a round of the idle fiber. -/
def resting (idle : FiberId) : List Frame :=
  [.release [.reactor p.reactor, .scheduler p.scheduler], .fiberBody idle]

/-- The root fiber runs, or waits with some frames. -/
def rootCell : Option (List Frame) → Cell
  | none => ⟨p.root, .exec, none, 2, none⟩
  | some fs => ⟨p.root, .hold, none, 2, some fs⟩

end Station

namespace Bench

variable (k : Bench) (p : Station)

def loop : Loop := ⟨p.scheduler, 0, k.idle, k.pooled.map Cell.id⟩

def callerCell : Cell := ⟨k.caller, .hold, k.entry, 0, some (p.calling k.back)⟩

def idleCell : Cell :=
  if k.begun then
    ⟨k.idle, .hold, none, 1, some (.idleReactor p.scheduler p.reactor :: p.resting k.idle)⟩
  else ⟨k.idle, .init, some (.idle p.scheduler), 1, some [.fiberStart k.idle]⟩

def cells : List Cell := k.callerCell p :: k.idleCell p :: k.pooled

/-- The run loop itself runs, with the cells of a fiber that has just left. -/
def looping (left : List Cell) (active : Nat) : Seat :=
  ⟨p.rootCell none :: (left ++ k.cells p), p.root, [k.caller], [], [], 3 + k.begun.toNat,
    1 + k.begun.toNat, active⟩

/-- The fiber of a task runs; the frame `front` accounts for it. -/
def tasking (front : Frame) (id : FiberId) (entry : Option Body) (hand : List (Task Body))
    (risen : List FiberId) (extra : Nat) : Seat :=
  ⟨⟨id, .exec, entry, 1, none⟩ :: p.rootCell (some (front :: p.under)) :: k.cells p, id,
    [p.root, k.caller], hand, risen, 3 + k.begun.toNat + extra, 1 + k.begun.toNat, 1⟩

/-- The idle fiber runs, and holds some handles of the scheduler and the reactor. -/
def idling (entry : Option Body) (extra : Nat) : Seat :=
  ⟨⟨k.idle, .exec, entry, 1, none⟩ :: p.rootCell (some (.loopIdle (k.loop p) :: p.under)) ::
    k.callerCell p :: k.pooled, k.idle, [p.root, k.caller], [], [], 3 + extra, 1 + extra, 0⟩

/-- The callback fibers that are kept have ended. -/
def Valid : Prop := ∀ x ∈ k.pooled, x.Ended

end Bench

/-- The stop runs: work and books agree, and the run loop is as the seat says. -/
structure Live (p : Station) (s : Seat) (b : Books) (c : Scene) : Prop where
  stock : Stock p b c
  known : b.known = s.known
  current : c.current = some s.running
  chain : b.chain = s.chain
  hand : b.hand = s.hand
  risen : b.risen = s.risen
  due : b.due = s.due
  lent : b.lent = s.lent
  active : c.shared.active = s.active
  stopping : c.shared.stopping = true
  autoStop : c.shared.autoStop = true

/-- Nothing is left, and the history is complete. -/
structure Settled (notes : List Note) (c : Scene) : Prop where
  queue : c.shared.queue = []
  active : c.shared.active = 0
  pending : c.table.pending = 0
  timers : c.timers.hasTimer = false
  bodies : ∀ body, notes.count (.owed body) =
    notes.count (.dropped body) + notes.count (.begun body)
  sleeps : ∀ id, notes.count (.asleep id) = notes.count (.awake id)

/-- What the fiber of a task does: its frames and the signal for them, the body that it has not
begun, what is at hand, whether it is still to be told that it has slept, and the fiber of which it
holds a handle because it has queued it. -/
inductive Doing (p : Station) (id : FiberId) : List Frame → Signal → Option Body →
    List (Task Body) → List FiberId → Option FiberId → Prop where
  | begins (body : Body) (d : Datum) :
    Doing p id [.fiberStart id] (.done d) (some body) [.callback body] [] none
  | works (t : Tail) (d : Datum) : Doing p id (t.frames id) (.done d) none [] [] none
  | reports (verb label : String) (t : Tail) (s : Signal) :
    Doing p id (.report verb label :: t.frames id) s none [] [] none
  | answers (verb label : String) (t : Tail) (d : Datum) :
    Doing p id (.answerClock :: .report verb label :: t.frames id) (.done d) none [] [] none
  | rises (verb label : String) (t : Tail) (d : Datum) :
    Doing p id
      (.release [.scheduler p.scheduler, .reactor p.reactor] :: .answerClock ::
        .report verb label :: t.frames id) (.done d) none [] [id] none
  | rouses (f : FiberId) (d : Datum) :
    Doing p id [.release [.scheduler p.scheduler, .fiber f], .fiberBody id] (.done d) none [] []
      (some f)

/-- How the fiber of a task left: the cells that are known of it, and whether it waits with a handle
more. -/
inductive Leaving (p : Station) (id : FiberId) : FiberState → List Cell → Option FiberId →
    Prop where
  | ready (verb label : String) (t : Tail) :
    Leaving p id .ready [⟨id, .ready, none, 1, some (.report verb label :: t.frames id)⟩] none
  | ended : Leaving p id .term [⟨id, .term, none, 1, some [.fiberEnd]⟩] none
  | asleep : Leaving p id .hold [] (some id)

/-- What the idle fiber does, with the number of handles of each kind that it holds. -/
inductive Idling (p : Station) (idle : FiberId) : List Frame → Signal → Option Wait →
    Option Body → Nat → Prop where
  | begins (d : Datum) :
    Idling p idle [.fiberStart idle] (.done d) none (some (.idle p.scheduler)) 0
  | looks (d : Datum) :
    Idling p idle (.idleReactor p.scheduler p.reactor :: p.resting idle) (.done d) none none 1
  | waits (timeout : Duration) (s : Signal) (millis : Int) (t : Option Instant) :
    Idling p idle (.idlePoll p.reactor timeout :: .idlePolled p.scheduler p.reactor ::
      p.resting idle) s (some (.epoll p.epoll millis t)) none 1
  | polls (timeout : Duration) (res : Except OsError (List (Int × Event))) :
    Idling p idle (.idlePoll p.reactor timeout :: .idlePolled p.scheduler p.reactor ::
      p.resting idle) (.polled res) none none 1
  | fires (found : List (Int × Event)) :
    Idling p idle (.idlePolled p.scheduler p.reactor :: p.resting idle) (.polled (.ok found)) none
      none 1

/-- After the idle fiber has found that there is nothing left: the frames and the signal for them,
the cells that are known, who runs and waits, and the handles that frames hold. -/
inductive Closing (p : Station) (k : Bench) : List Frame → Signal → List Cell → FiberId →
    List FiberId → Nat → Nat → Prop where
  | idleExits (d : Datum) :
    Closing p k (p.resting k.idle) (.done d)
      (⟨k.idle, .exec, none, 1, none⟩ :: p.rootCell (some (.loopIdle (k.loop p) :: p.under)) ::
        k.callerCell p :: k.pooled) k.idle [p.root, k.caller] 4 2
  | idleEnds (d : Datum) :
    Closing p k [.fiberBody k.idle] (.done d)
      (⟨k.idle, .exec, none, 1, none⟩ :: p.rootCell (some (.loopIdle (k.loop p) :: p.under)) ::
        k.callerCell p :: k.pooled) k.idle [p.root, k.caller] 3 1
  | idleEnded :
    Closing p k (.loopIdle (k.loop p) :: p.under) (.left .term)
      (p.rootCell none :: ⟨k.idle, .term, none, 1, some [.fiberEnd]⟩ :: k.callerCell p ::
        k.pooled) p.root [k.caller] 3 1
  | lastTurn (d : Datum) :
    Closing p k (.loop (k.loop p) :: p.under) (.done d)
      (p.rootCell none :: ⟨k.idle, .term, none, 1, some [.fiberEnd]⟩ :: k.callerCell p ::
        k.pooled) p.root [k.caller] 3 1
  | leaves (d : Datum) :
    Closing p k p.under (.done d) [p.rootCell none, k.callerCell p] p.root [k.caller] 3 1
  | rootEnds (d : Datum) :
    Closing p k [.fiberBody p.root] (.done d) [p.rootCell none, k.callerCell p] p.root [k.caller]
      2 1
  | rootEnded :
    Closing p k (p.calling k.back) (.left .term)
      [⟨p.root, .term, none, 2, some [.fiberEnd]⟩] k.caller [] 2 1

/-- Where a stop is, with its history. -/
inductive Phase (p : Station) (back : List Frame) : List Note → Scene → Prop where
  | opening (k : Bench) {b : Books} {c : Scene} {notes : List Note} (from' : k.back = back)
      (live : Live p
        ⟨[⟨p.root, .exec, some (.root p.scheduler), 2, none⟩, k.callerCell p], p.root, [k.caller],
          [], [], 2, 1, 0⟩ b c)
      (frames : c.frames = [.fiberStart p.root]) (signal : ∃ d, c.signal = .done d)
      (wait : c.wait = none) (spare : ∀ id, b.spare id = 0) (noted : b.notes = notes) :
    Phase p back notes c
  | turning (k : Bench) {b : Books} {c : Scene} {notes : List Note} (from' : k.back = back)
      (valid : k.Valid) (live : Live p (k.looping p [] 0) b c)
      (frames : c.frames = .loop (k.loop p) :: p.under) (signal : ∃ d, c.signal = .done d)
      (wait : c.wait = none) (spare : ∀ id, b.spare id = 0) (noted : b.notes = notes) :
    Phase p back notes c
  | tasking (k : Bench) {b : Books} {c : Scene} {notes : List Note} (from' : k.back = back)
      (valid : k.Valid) {front : Frame} {id : FiberId} {entry : Option Body}
      {hand : List (Task Body)} {risen : List FiberId} {roused : Option FiberId}
      (accounts : front = .loopFiber (k.loop p) id ∨ front = .loopCallback (k.loop p) id)
      (doing : Doing p id c.frames c.signal entry hand risen roused)
      (live : Live p (k.tasking p front id entry hand risen roused.toList.length) b c)
      (wait : c.wait = none) (spare : ∀ j, b.spare j = if roused = some j then 1 else 0)
      (waits : ∀ f, roused = some f → f ∈ b.fibers) (noted : b.notes = notes) :
    Phase p back notes c
  | accounting (k : Bench) {b : Books} {c : Scene} {notes : List Note} (from' : k.back = back)
      (valid : k.Valid) {front : Frame} {id : FiberId} {left : FiberState} {cells : List Cell}
      {lent : Option FiberId}
      (accounts : front = .loopFiber (k.loop p) id ∨ front = .loopCallback (k.loop p) id)
      (leaving : Leaving p id left cells lent) (live : Live p (k.looping p cells 1) b c)
      (frames : c.frames = front :: p.under) (signal : c.signal = .left left)
      (wait : c.wait = none) (spare : ∀ j, b.spare j = if lent = some j then 1 else 0)
      (waits : ∀ f, lent = some f → f ∈ b.fibers) (noted : b.notes = notes) :
    Phase p back notes c
  | idling (k : Bench) {b : Books} {c : Scene} {notes : List Note} (from' : k.back = back)
      (valid : k.Valid) {entry : Option Body} {extra : Nat}
      (idling : Idling p k.idle c.frames c.signal c.wait entry extra)
      (live : Live p (k.idling p entry extra) b c) (spare : ∀ id, b.spare id = 0)
      (noted : b.notes = notes) : Phase p back notes c
  | rested (k : Bench) {b : Books} {c : Scene} {notes : List Note} (from' : k.back = back)
      (valid : k.Valid) (begun : k.begun = true) (live : Live p (k.looping p [] 0) b c)
      (frames : c.frames = .loopIdle (k.loop p) :: p.under) (signal : c.signal = .left .hold)
      (wait : c.wait = none) (spare : ∀ id, b.spare id = 0) (noted : b.notes = notes) :
    Phase p back notes c
  | closing (k : Bench) {notes : List Note} {c : Scene} (from' : k.back = back) (valid : k.Valid)
      {cells : List Cell} {running : FiberId} {chain : List FiberId} {due lent : Nat}
      (settled : Settled notes c)
      (closing : Closing p k c.frames c.signal cells running chain due lent)
      (floor : Floor c.toView running chain cells) (wait : c.wait = none)
      (handles : due ≤ c.handles) (held : lent ≤ c.held) : Phase p back notes c
  | joining {notes : List Note} {c : Scene} (settled : Settled notes c)
      (frames : c.frames = .stopJoin p.scheduler :: .release [.scheduler p.scheduler] :: back)
      (signal : ∃ s, c.signal = .left s) (wait : c.wait = none)
      (order : c.fibers.Orderly c.current []) (handles : 2 ≤ c.handles) : Phase p back notes c
  | finishing {notes : List Note} {c : Scene} (settled : Settled notes c)
      (frames : c.frames = .release [.scheduler p.scheduler] :: back)
      (signal : ∃ d, c.signal = .done d) (wait : c.wait = none)
      (order : c.fibers.Orderly c.current []) (handles : 2 ≤ c.handles) : Phase p back notes c
  | returned {notes : List Note} {c : Scene} (settled : Settled notes c) (frames : c.frames = back)
      (order : c.fibers.Orderly c.current []) : Phase p back notes c

namespace Bench

variable {k : Bench} {p : Station}

/-- None of the fibers of a run loop is fresh. -/
theorem seniors (valid : k.Valid) : ∀ x ∈ k.cells p, x.state = .init →
    ∀ block label, x.entry ≠ some (.script block label) := by
  intro x mem
  rcases List.mem_cons.mp mem with rfl | mem
  · exact nofun
  · rcases List.mem_cons.mp mem with rfl | mem
    · unfold idleCell
      split <;> exact nofun
    · intro _ block label
      rw [(valid x mem).entry]
      exact nofun

/-- None of them is fresh while the run loop runs, with some that have just left. -/
theorem looping_seniors (valid : k.Valid) (left : List Cell)
    (gone : ∀ x ∈ left, x.state ≠ .init) {active : Nat} :
    ∀ x ∈ (k.looping p left active).known, x.state = .init →
      ∀ block label, x.entry ≠ some (.script block label) := by
  refine List.forall_mem_cons.mpr ⟨nofun, fun x mem init => ?_⟩
  rcases List.mem_append.mp mem with mem | mem
  · exact absurd init (gone x mem)
  · exact seniors valid x mem init

theorem tasking_seniors (valid : k.Valid) (front : Frame) (id : FiberId) (entry : Option Body)
    (hand : List (Task Body)) (risen : List FiberId) (extra : Nat) :
    ∀ x ∈ (k.tasking p front id entry hand risen extra).known, x.state = .init →
      ∀ block label, x.entry ≠ some (.script block label) :=
  List.forall_mem_cons.mpr ⟨nofun, List.forall_mem_cons.mpr ⟨nofun, seniors valid⟩⟩

theorem idling_seniors (valid : k.Valid) (entry : Option Body) (extra : Nat) :
    ∀ x ∈ (k.idling p entry extra).known, x.state = .init →
      ∀ block label, x.entry ≠ some (.script block label) := by
  refine List.forall_mem_cons.mpr ⟨nofun, List.forall_mem_cons.mpr ⟨nofun, ?_⟩⟩
  refine List.forall_mem_cons.mpr ⟨nofun, fun x mem init => ?_⟩
  exact seniors (p := p) valid x (List.mem_cons_of_mem _ (List.mem_cons_of_mem _ mem)) init

end Bench

/-- The fibers and their frames may differ, and nothing else but the signal. -/
structure Scene.Steady (c u : Scene) : Prop where
  shared : u.shared = c.shared
  wait : u.wait = c.wait
  table : u.table = c.table
  timers : u.timers = c.timers
  names : u.names = c.names
  handles : u.handles = c.handles
  held : u.held = c.held

theorem Scene.Steady.alike {c u : Scene} (h : c.Steady u) : c.Alike u :=
  ⟨by rw [h.shared], h.table, h.timers, h.names⟩

/-- The scene after the oldest entry was taken. -/
def Scene.taking (c : Scene) (q : TaskQueue Body) : Scene :=
  { c with shared := { c.shared with queue := q, active := c.shared.active + 1 } }

/-- A waiting fiber can be resumed, and does something of a task then. -/
theorem Posture.doing (p : Station) (id : FiberId) (n : Nat) (x : Posture) (d : Datum) :
    ∃ st e fs, x.cell p id n = ⟨id, st, e, n, some fs⟩ ∧ st.isResumable = true ∧
      Doing p id fs (.done d) e (x.bodies.map .callback) (if x.isAsleep then [id] else [])
        none := by
  cases x with
  | fresh block label => exact ⟨_, _, _, rfl, rfl, .begins (.script block label) d⟩
  | ready verb label rest => exact ⟨_, _, _, rfl, rfl, .reports verb label rest _⟩
  | asleep verb label rest => exact ⟨_, _, _, rfl, rfl, .rises verb label rest d⟩

/-- The idle fiber can be resumed, and begins or looks for work then. -/
theorem Bench.idles (k : Bench) (p : Station) :
    ∃ st e fs, k.idleCell p = ⟨k.idle, st, e, 1, some fs⟩ ∧ st.isResumable = true ∧
      Idling p k.idle fs (.done .null) none e k.begun.toNat := by
  unfold idleCell
  cases k.begun with
  | true => exact ⟨_, _, _, rfl, rfl, .looks _⟩
  | false => exact ⟨_, _, _, rfl, rfl, .begins _⟩

/-- The books, for another seat. -/
def Books.seated (b : Books) (s : Seat) (spare : FiberId → Nat) : Books :=
  { b with
    known := s.known
    chain := s.chain
    spare := spare
    due := s.due
    lent := s.lent }

namespace Live

variable {p : Station} {b : Books} {c c' : Scene} {s : Seat} {spare : FiberId → Nat}

/-- The work of a scene, with the cells of a seat. -/
theorem of_store (store : Store p b c) (alike : c.Alike c')
    (floor : Floor c'.toView s.running s.chain (s.known ++ (b.seated s spare).crew p))
    (seniors : ∀ x ∈ s.known, x.state = .init → ∀ block label, x.entry ≠ some (.script block label))
    (hand : b.hand = s.hand) (risen : b.risen = s.risen)
    (handles : s.due + c.handles ≤ b.due + c'.handles)
    (held : s.lent + c.held ≤ b.lent + c'.held) (active : c'.shared.active = s.active)
    (stopping : c'.shared.stopping = true) (autoStop : c'.shared.autoStop = true) :
    Live p s (b.seated s spare) c' where
  stock := ⟨store.refit ⟨rfl, rfl, rfl, rfl, rfl, rfl⟩ alike handles held, floor.ground, seniors⟩
  known := rfl
  current := floor.current
  chain := rfl
  hand := hand
  risen := risen
  due := rfl
  lent := rfl
  active := active
  stopping := stopping
  autoStop := autoStop

theorem floor (h : Live p s b c) : Floor c.toView s.running s.chain (s.known ++ b.crew p) := by
  rw [← h.known, ← h.chain]
  exact h.stock.ground.floor h.current

theorem store (h : Live p s b c) : Store p b c := h.stock.toStore

/-- None of the fibers of the run loop waits for its turn. -/
theorem new (h : Live p s b c) {x : Cell} (mem : x ∈ s.known) : x.id ∉ b.fibers := by
  have distinct := h.floor.distinct
  rw [List.map_append, b.crew_ids p] at distinct
  exact List.disjoint_of_nodup_append distinct (List.mem_map_of_mem mem)

end Live

namespace Station

variable {p : Station} {b : Books} {c u : Scene} {w w' : World} {f : Frame} {rest back : List Frame}
  {notes : List Note} {s : Signal} {k : Bench} {id : FiberId} {cells : List Cell}

/-- What a thread that does not wait comes to, from what the innermost frame does. -/
theorem goes_to (good : List Note → Scene → Prop) (shows : p.Depicts c w) (awake : c.wait = none)
    (frames : c.frames = f :: rest) (round : w.round = some w') (timely : w'.Timely)
    {act : Act Signal} (goes : proceedWith f c.signal = act)
    (ends : p.Ends (w.popped rest) act fun r u =>
      ending r = .raised .instantOverflow ∨
        good (w.notes (ending r) ++ notes) { u with signal := ending r }) :
    ∃ c', p.Depicts c' w' ∧ good (w.notes w'.thread.signal ++ notes) c' := by
  obtain ⟨u, s, shows', same, outcome⟩ := shows.runs awake frames
    (fun s u => s = .raised .instantOverflow ∨ good (w.notes s ++ notes) { u with signal := s })
    (goes ▸ ends) round
  rcases outcome with late | reached
  · exact absurd (same.trans late) timely
  · exact ⟨_, shows', same ▸ reached⟩

/-- The same, where the frame does one thing only and the history does not change. -/
theorem goes_quiet_to (good : List Note → Scene → Prop) (shows : p.Depicts c w)
    (awake : c.wait = none) (frames : c.frames = f :: rest) (round : w.round = some w')
    (quiet : w.notes w'.thread.signal = []) {act : Act Signal}
    (goes : proceedWith f c.signal = act) (does : p.Does { c with frames := rest } act s u)
    (reached : good notes { u with signal := s }) :
    ∃ c', p.Depicts c' w' ∧ good (w.notes w'.thread.signal ++ notes) c' := by
  obtain ⟨v, told, shows', same, rfl, rfl⟩ := shows.runs awake frames
    (fun told v => told = s ∧ v = u) (goes ▸ does.ends (shows.popped rest) ⟨rfl, rfl⟩) round
  rw [quiet]
  exact ⟨_, shows', reached⟩

theorem goes (shows : p.Depicts c w) (awake : c.wait = none) (frames : c.frames = f :: rest)
    (round : w.round = some w') (timely : w'.Timely)
    {act : Act Signal} (goes : proceedWith f c.signal = act)
    (ends : p.Ends (w.popped rest) act fun r u =>
      ending r = .raised .instantOverflow ∨
        Phase p back (w.notes (ending r) ++ notes) { u with signal := ending r }) :
    ∃ c', p.Depicts c' w' ∧ Phase p back (w.notes w'.thread.signal ++ notes) c' :=
  goes_to (Phase p back) shows awake frames round timely goes ends

theorem goes_quiet (shows : p.Depicts c w) (awake : c.wait = none) (frames : c.frames = f :: rest)
    (round : w.round = some w') (quiet : w.notes w'.thread.signal = []) {act : Act Signal}
    (goes : proceedWith f c.signal = act) (does : p.Does { c with frames := rest } act s u)
    (phase : Phase p back notes { u with signal := s }) :
    ∃ c', p.Depicts c' w' ∧ Phase p back (w.notes w'.thread.signal ++ notes) c' :=
  goes_quiet_to (Phase p back) shows awake frames round quiet goes does phase

/-- The root fiber resumes another fiber. -/
theorem resumes_does {st : FiberState} {e : Option Body} {n : Nat} {fs : List Frame}
    (h : Floor c.toView p.root [k.caller]
      (p.rootCell none :: ⟨id, st, e, n, some fs⟩ :: k.callerCell p :: cells))
    (resumes : st.isResumable = true) :
    ∃ t, p.Does c (resume id) (.done .null) (c.followed t) ∧
      Floor (c.followed t).toView id [p.root, k.caller]
        (⟨id, .exec, e, n, none⟩ :: p.rootCell (some c.frames) :: k.callerCell p :: cells) ∧
      (c.followed t).frames = fs := by
  have off : id ∉ [p.root, k.caller] := by
    have names := h.distinct
    simp only [List.map_cons, List.nodup_cons, List.mem_cons, not_or] at names
    obtain ⟨⟨root, -⟩, ⟨caller, -⟩, -⟩ := names
    intro mem
    rcases List.mem_cons.mp mem with same | mem
    · exact root same.symm
    · exact caller (List.mem_singleton.mp mem)
  obtain ⟨t, ok, told, floor, frames⟩ := h.entered_off resumes off
  have does := resume_does (p := p) ok
  rw [told] at does
  exact ⟨t, does, floor.perm (List.Perm.swap ..), frames⟩

end Station

end Fibers.Script
