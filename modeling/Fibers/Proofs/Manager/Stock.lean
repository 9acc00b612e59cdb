import Fibers.Proofs.Manager.Books
import Fibers.Proofs.Timer.Owing
import Mathlib.Data.List.Count

/-!
A scene and its books. The tasks of the books are what the timers owe, what is queued, what the
handlers of the descriptor table are to queue, and what is at hand. Each change of a scene comes
with the change of the books that keeps the two together.
-/

namespace Fibers

/-- What fires is taken out of a registry. -/
theorem Reactor.Registry.fire_values {η : Type} {m : Reactor.Registry η} (distinct : m.Distinct)
    (fd : Int) (es : List Event) :
    m.values.Perm ((m.fire fd es).2 ++ (m.fire fd es).1.values) := by
  induction es generalizing m with
  | nil => exact .refl _
  | cons e es ih =>
    unfold fire
    cases found : m.get? (fd, e) with
    | none => exact ih distinct
    | some h =>
      exact (Table.values_erase distinct found).trans
        ((ih (Table.distinct_erase distinct _)).cons h)

namespace Script

open Reactor (Registry)

/-- A handler of a manager queues a callback of a script in its own scheduler. -/
structure Station.Handles (p : Station) (h : Handler) : Prop where
  scheduler : h.scheduler = p.scheduler
  task : ∃ block label, h.task = .callback (.script block label)

/-- The names that scripts use stand for the manager. A named timer is not that of a sleep. -/
structure Station.Knows (p : Station) (m : Timers TimerBody) (n : Names) : Prop where
  schedulers : ∀ name s, n.schedulers.get? name = some s → s = p.scheduler
  reactors : ∀ name x, n.reactors.get? name = some x → x = (p.scheduler, p.reactor)
  timerSets : ∀ name, n.timerSets.get? name = none
  timers : ∀ name set id, n.timers.get? name = some (set, id) → set = p.timers ∧ id ≤ m.lastId ∧
    ∀ s, m.slots.get? id = some s → s.callback.isWake = false

/-- Names stay known when timers are armed anew or go. -/
theorem Station.Knows.inherits {p : Station} {m m' : Timers TimerBody} {n : Names}
    (h : p.Knows m n) (inherits : Timers.Inherits m.slots m'.slots) (last : m'.lastId = m.lastId) :
    p.Knows m' n := by
  refine { h with timers := fun name set id named => ?_ }
  obtain ⟨mine, old, quiet⟩ := h.timers name set id named
  refine ⟨mine, last ▸ old, fun s' found => ?_⟩
  obtain ⟨s, found, _, same⟩ := inherits id s' found
  exact same ▸ quiet s found

/-- The tasks that a scene holds. -/
def Scene.tasks (c : Scene) (m : Registry Handler) : List (Task Body) :=
  c.timers.owed.map (fun b => .callback (.timer b)) ++
    (c.shared.queue.map (·.task) ++ m.values.map (·.task))

/-- What a scene holds of the work, and its books. -/
structure Store (p : Station) (b : Books) (c : Scene) : Prop where
  sound : b.Sound p
  tasks : b.tasks.Perm (c.tasks b.registry ++ b.hand)
  table : c.table.Holds b.registry
  handlers : ∀ h ∈ b.registry.values, p.Handles h
  timers : c.timers.Kept
  recurring : ∀ id s, c.timers.slots.get? id = some s → s.recurring = true →
    s.callback.isWake = false
  names : p.Knows c.timers c.names
  pinned : ∀ e ∈ c.shared.queue, e.worker = none ∨ e.worker = some 0
  handles : b.due + (b.tasks.countP isWakeTask + b.registry.size + b.sleepers.length) ≤ c.handles
  held : b.lent + b.sleepers.length ≤ c.held

/-- A scene with its books. -/
structure Stock (p : Station) (b : Books) (c : Scene) : Prop extends Store p b c where
  ground : Ground c.toView b.chain (b.known ++ b.crew p)
  seniors : ∀ x ∈ b.known, x.state = .init → ∀ block label, x.entry ≠ some (.script block label)

/-- Books that say the same of the work. -/
structure Books.Alike (b b' : Books) : Prop where
  tasks : b'.tasks = b.tasks
  hand : b'.hand = b.hand
  post : b'.post = b.post
  risen : b'.risen = b.risen
  notes : b'.notes = b.notes
  registry : b'.registry = b.registry

/-- Scenes that hold the same work. -/
structure Scene.Alike (c c' : Scene) : Prop where
  queue : c'.shared.queue = c.shared.queue
  table : c'.table = c.table
  timers : c'.timers = c.timers
  names : c'.names = c.names

/-- Which fiber runs, and what the counters of the run loop are, does not matter. -/
theorem Store.refit {p : Station} {b b' : Books} {c c' : Scene} (h : Store p b c)
    (books : b.Alike b') (scene : c.Alike c') (handles : b'.due + c.handles ≤ b.due + c'.handles)
    (held : b'.lent + c.held ≤ b.lent + c'.held) : Store p b' c' := by
  have fibers : b'.fibers = b.fibers := by rw [Books.fibers, books.tasks, Books.fibers]
  have sleepers : b'.sleepers = b.sleepers := by
    rw [Books.sleepers, fibers, books.risen, books.post, Books.sleepers]
  have before := h.handles
  have before' := h.held
  refine ⟨⟨?_, ?_, ?_, ?_⟩, ?_, ?_, ?_, ?_, ?_, ?_, ?_, ?_, ?_⟩
  · exact books.tasks ▸ h.sound.takes
  · rw [books.tasks, books.post]
    exact h.sound.drowsy
  · rw [books.notes, Books.bodies, books.tasks, books.post]
    exact h.sound.balance
  · rw [books.notes, sleepers]
    exact h.sound.sleeps
  · rw [books.tasks, books.hand, books.registry, Scene.tasks, scene.timers, scene.queue]
    exact h.tasks
  · rw [scene.table, books.registry]
    exact h.table
  · exact books.registry ▸ h.handlers
  · exact scene.timers ▸ h.timers
  · exact scene.timers ▸ h.recurring
  · exact scene.timers ▸ scene.names ▸ h.names
  · exact scene.queue ▸ h.pinned
  · rw [books.tasks, books.registry, sleepers]
    omega
  · rw [sleepers]
    omega

namespace Books

/-- Callbacks that are owed from now on. -/
def owing (b : Books) (bodies : List Body) : Books :=
  { b with
    tasks := bodies.map .callback ++ b.tasks
    notes := bodies.map .owed ++ b.notes }

/-- A callback that is owed no longer. -/
def relieved (b : Books) (rest : List (Task Body)) (note : Note) : Books :=
  { b with tasks := rest, notes := note :: b.notes }

variable {b : Books} {p : Station} {bodies : List Body} {body : Body} {rest : List (Task Body)}

theorem callbacks_fibers (plain : ∀ x ∈ bodies, x.Plain) :
    (bodies.map Task.callback).flatMap taskFibers = [] := by
  rw [List.flatMap_map, List.flatMap_eq_nil_iff]
  exact fun x mem => (plain x mem).fibers

theorem callbacks_wakes (plain : ∀ x ∈ bodies, x.Plain) :
    (bodies.map Task.callback).countP isWakeTask = 0 := by
  rw [List.countP_eq_zero]
  intro t mem
  obtain ⟨x, member, rfl⟩ := List.mem_map.mp mem
  simp [(plain x member).notWake]

theorem owing_fibers (plain : ∀ x ∈ bodies, x.Plain) : (b.owing bodies).fibers = b.fibers := by
  simp only [fibers, owing, List.flatMap_append, callbacks_fibers plain, List.nil_append]

theorem owing_crew (plain : ∀ x ∈ bodies, x.Plain) : (b.owing bodies).crew p = b.crew p := by
  simp only [crew, owing_fibers plain]
  rfl

theorem owing_sleepers (plain : ∀ x ∈ bodies, x.Plain) :
    (b.owing bodies).sleepers = b.sleepers := by
  simp only [sleepers, owing_fibers plain]
  rfl

theorem Sound.owing (h : b.Sound p) (plain : ∀ x ∈ bodies, x.Plain) :
    (b.owing bodies).Sound p := by
  have noted : ∀ (f : Body → Note) (n : Note), (∀ x, f x ≠ n) → (bodies.map f).count n = 0 := by
    intro f n other
    refine List.count_eq_zero.mpr fun mem => ?_
    obtain ⟨x, _, same⟩ := List.mem_map.mp mem
    exact other x same
  refine h.exchange [] (bodies.map .callback) (bodies.map .owed) b.risen (.refl _) ?_ ?_ ?_ ?_
  · intro t mem
    obtain ⟨x, member, rfl⟩ := List.mem_map.mp mem
    exact (plain x member).takes p
  · intro t mem wakes
    obtain ⟨x, member, rfl⟩ := List.mem_map.mp mem
    rw [(plain x member).notWake] at wakes
    cases wakes
  · intro body
    have owed : (bodies.map Note.owed).count (.owed body) = bodies.count body :=
      List.count_map_of_injective _ _ (fun _ _ same => Note.owed.inj same) _
    have all : (bodies.map Task.callback).flatMap (taskBodies b.post) = bodies := by
      simp [List.flatMap_map, taskBodies]
    have dropped : ∀ x, Note.owed x ≠ .dropped body := fun x same => by cases same
    have begun : ∀ x, Note.owed x ≠ .begun body := fun x same => by cases same
    simp only [owed, all, noted Note.owed _ dropped, noted Note.owed _ begun, List.flatMap_nil,
      List.count_nil]
    omega
  · intro id
    have asleep : ∀ x, Note.owed x ≠ .asleep id := fun x same => by cases same
    have awake : ∀ x, Note.owed x ≠ .awake id := fun x same => by cases same
    simp only [callbacks_fibers plain, noted Note.owed _ asleep, noted Note.owed _ awake,
      List.flatMap_nil]

/-- A callback is dropped or begun. -/
theorem Sound.relieved (h : b.Sound p) (tasks : b.tasks.Perm (.callback body :: rest))
    (plain : body.Plain) {note : Note} (ends : note = .dropped body ∨ note = .begun body) :
    (b.relieved rest note).Sound p := by
  refine h.exchange [.callback body] [] [note] b.risen tasks nofun nofun ?_ ?_
  · intro x
    rcases ends with rfl | rfl <;>
      simp [taskBodies, List.count_cons]
  · intro id
    rcases ends with rfl | rfl <;> simp [plain.fibers]

theorem relieved_fibers (tasks : b.tasks.Perm (.callback body :: rest)) (plain : body.Plain)
    (note : Note) : b.fibers.Perm (b.relieved rest note).fibers := by
  have fibers : b.fibers.Perm (taskFibers (.callback body) ++ rest.flatMap taskFibers) :=
    tasks.flatMap_right _
  rw [plain.fibers] at fibers
  exact fibers

theorem crew_perm (same : b.fibers.Perm (rest.flatMap taskFibers)) :
    (b.crew p).Perm (crew { b with tasks := rest } p) := same.map _

theorem sleepers_perm (same : b.fibers.Perm (rest.flatMap taskFibers)) :
    b.sleepers.Perm (sleepers { b with tasks := rest }) := (same.filter _).append_left _

end Books

namespace Stock

variable {p : Station} {b : Books} {c : Scene} {body : Body} {id : FiberId}
  {rest : List (Task Body)}

/-- Work that goes elsewhere, and callbacks more. -/
theorem owing {c' : Scene} {m : Registry Handler} (bodies : List Body) (h : Stock p b c)
    (plain : ∀ x ∈ bodies, x.Plain)
    (same : c'.toView = { c.toView with shared := c'.shared, handles := c'.handles })
    (tasks : (c'.tasks m).Perm (bodies.map .callback ++ c.tasks b.registry))
    (table : c'.table.Holds m) (handlers : ∀ x ∈ m.values, p.Handles x) (timers : c'.timers.Kept)
    (recurring : ∀ id s, c'.timers.slots.get? id = some s → s.recurring = true →
      s.callback.isWake = false)
    (names : p.Knows c'.timers c'.names)
    (pinned : ∀ e ∈ c'.shared.queue, e.worker = none ∨ e.worker = some 0)
    (handles : m.size + c.handles ≤ b.registry.size + c'.handles)
    (held : c'.held = c.held) : Stock p { b.owing bodies with registry := m } c' := by
  have sound := h.sound.owing plain
  refine ⟨⟨⟨sound.takes, sound.drowsy, sound.balance, sound.sleeps⟩, ?_, table, handlers, timers,
    recurring, names, pinned, ?_, ?_⟩, ?_, h.seniors⟩
  · refine (h.tasks.append_left _).trans ?_
    rw [← List.append_assoc]
    exact tasks.symm.append_right _
  · have before := h.handles
    have wakes : (b.owing bodies).tasks.countP isWakeTask = b.tasks.countP isWakeTask := by
      simp only [Books.owing, List.countP_append, Books.callbacks_wakes plain, Nat.zero_add]
    have sleepers := Books.owing_sleepers (b := b) plain
    change b.due + ((b.owing bodies).tasks.countP isWakeTask + m.size +
      (b.owing bodies).sleepers.length) ≤ c'.handles
    rw [wakes, sleepers]
    omega
  · have sleepers := Books.owing_sleepers (b := b) plain
    change b.lent + (b.owing bodies).sleepers.length ≤ c'.held
    rw [sleepers, held]
    exact h.held
  · have crew : (b.owing bodies).crew p = b.crew p := Books.owing_crew plain
    change Ground c'.toView b.chain (b.known ++ (b.owing bodies).crew p)
    rw [crew, same]
    exact h.ground.congr rfl rfl rfl

/-- A callback is queued. -/
theorem queues_callback (h : Stock p b c) (plain : body.Plain) {worker : Option Nat}
    (pin : worker = none ∨ worker = some 0) :
    Stock p (b.owing [body])
      { c with shared := { c.shared with
          queue := c.shared.queue ++ [⟨.callback body, worker⟩] } } := by
  refine h.owing [body] (List.forall_mem_singleton.mpr plain) rfl ?_ h.table h.handlers h.timers
    h.recurring h.names ?_ (Nat.le_refl _) rfl
  · refine List.perm_iff_count.mpr fun t => ?_
    simp only [Scene.tasks, List.map_append, List.map_cons, List.map_nil, List.count_append,
      List.count_cons, List.count_nil]
    omega
  · intro e mem
    rcases List.mem_append.mp mem with mem | mem
    · exact h.pinned e mem
    · obtain rfl := List.mem_singleton.mp mem
      exact pin

/-- The body of a timer of a script. -/
theorem plain_of_slot {b : TimerBody} (h : b.isWake = false) : (Body.timer b).Plain := .timer b h

/-- A timer of a script is armed; unless it is recurring, its callback is owed. -/
theorem adds_timer (h : Stock p b c) {callback : TimerBody} {recurring : Bool}
    (script : callback.isWake = false) {m : Timers TimerBody} {slot : TimerSlot TimerBody}
    (kept : m.Kept) (last : m.lastId = c.timers.lastId + 1) (body : slot.callback = callback)
    (recurs : slot.recurring = recurring)
    (slots : m.slots = c.timers.slots.put (c.timers.lastId + 1) slot)
    (owed : m.owed = Timers.owing slot ++ c.timers.owed) (name : String) :
    Stock p (b.owing (if recurring then [] else [.timer callback]))
      { c with
        timers := m
        names := { c.names with
          timers := c.names.timers.put name (p.timers, c.timers.lastId + 1) } } := by
  have slot_of : ∀ j s, m.slots.get? j = some s →
      s = slot ∨ c.timers.slots.get? j = some s := by
    intro j s found
    rw [slots, Table.get?_put] at found
    split at found
    · exact .inl (Option.some.inj found).symm
    · exact .inr found
  refine h.owing _ ?_ rfl ?_ h.table h.handlers kept ?_ ?_ h.pinned (Nat.le_refl _) rfl
  · cases recurring with
    | true => exact List.forall_mem_nil _
    | false => exact List.forall_mem_singleton.mpr (plain_of_slot script)
  · refine List.perm_iff_count.mpr fun t => ?_
    simp only [Scene.tasks, owed, List.map_append, List.count_append, Timers.owing, recurs, body]
    cases recurring <;>
      simp only [if_true, if_false, Bool.false_eq_true, List.map_cons, List.map_nil] <;> omega
  · intro j s found recurs
    rcases slot_of j s found with rfl | old
    · rw [body]
      exact script
    · exact h.recurring j s old recurs
  · refine { h.names with timers := fun name' set id named => ?_ }
    have named : (c.names.timers.put name (p.timers, c.timers.lastId + 1)).get? name' =
        some (set, id) := named
    rw [Table.get?_put] at named
    split at named
    · obtain ⟨rfl, rfl⟩ := Prod.mk.inj (Option.some.inj named)
      refine ⟨rfl, last.symm ▸ Nat.le_refl _, fun s found => ?_⟩
      rcases slot_of _ s found with rfl | old
      · rw [body]
        exact script
      · exact absurd (h.timers.numbered _ s old) (Nat.not_succ_le_self _)
    · obtain ⟨mine, old, quiet⟩ := h.names.timers name' set id named
      refine ⟨mine, ?_, fun s found => ?_⟩
      · change id ≤ m.lastId
        rw [last]
        exact Nat.le_succ_of_le old
      rcases slot_of _ s found with rfl | there
      · rw [body]
        exact script
      · exact quiet s there

/-- The recurring timers of inherited ones are not those of sleeps. -/
theorem recurring_inherits (h : Stock p b c) {m : Timers TimerBody}
    (inherits : Timers.Inherits c.timers.slots m.slots) (id : Nat) (s' : TimerSlot TimerBody)
    (found : m.slots.get? id = some s') (recurs : s'.recurring = true) :
    s'.callback.isWake = false := by
  obtain ⟨s, there, same, callback⟩ := inherits id s' found
  exact callback ▸ h.recurring id s there (same.trans recurs)

/-- Timers that owe what was owed. -/
theorem keeps_timers (h : Stock p b c) {m : Timers TimerBody} (kept : m.Kept)
    (last : m.lastId = c.timers.lastId) (inherits : Timers.Inherits c.timers.slots m.slots)
    (owed : c.timers.owed.Perm m.owed) : Stock p b { c with timers := m } :=
  h.owing [] nofun rfl (((owed.symm.map _).append_right _)) h.table h.handlers kept
    (h.recurring_inherits inherits) (h.names.inherits inherits last) h.pinned (Nat.le_refl _) rfl

/-- Due callbacks are queued: those that were owed, and those of recurring timers. -/
theorem expires (h : Stock p b c) {m : Timers TimerBody} (kept : m.Kept)
    (last : m.lastId = c.timers.lastId) (inherits : Timers.Inherits c.timers.slots m.slots)
    {due : List (TimerBody × Bool)}
    (owed : c.timers.owed.Perm ((due.filter (!·.2)).map (·.1) ++ m.owed))
    (script : ∀ x ∈ due, x.2 = true → x.1.isWake = false) :
    Stock p (b.owing ((due.filter (·.2)).map fun x => .timer x.1))
      { c with
        timers := m
        shared := { c.shared with
          queue := c.shared.queue ++
            (due.map (·.1)).map fun x => ⟨.callback (.timer x), none⟩ } } := by
  refine h.owing _ ?_ rfl ?_ h.table h.handlers kept (h.recurring_inherits inherits)
    (h.names.inherits inherits last) ?_ (Nat.le_refl _) rfl
  · intro body mem
    obtain ⟨x, member, rfl⟩ := List.mem_map.mp mem
    obtain ⟨member, recurs⟩ := List.mem_filter.mp member
    exact .timer x.1 (script x member recurs)
  · have split : (due.map fun x => (Task.callback (Body.timer x.1))).Perm
        ((due.filter (·.2)).map (fun x => .callback (.timer x.1)) ++
          (due.filter (!·.2)).map fun x => .callback (.timer x.1)) := by
      rw [← List.map_append]
      exact (List.filter_append_perm (·.2) due).symm.map _
    refine List.perm_iff_count.mpr fun t => ?_
    have owed := (owed.map fun b => (Task.callback (Body.timer b))).count_eq t
    have split := split.count_eq t
    simp only [Scene.tasks, List.map_append, List.map_map, List.count_append, Function.comp_def]
      at owed split ⊢
    omega
  · intro e mem
    rcases List.mem_append.mp mem with mem | mem
    · exact h.pinned e mem
    · obtain ⟨x, _, rfl⟩ := List.mem_map.mp mem
      exact .inl rfl

/-- The handlers may be kept in another way. -/
theorem retabled (h : Stock p b c) {t : Reactor.FdTable Handler} (holds : t.Holds b.registry) :
    Stock p b { c with table := t } := { h with table := holds }

/-- A handler is entered; its callback is owed. -/
theorem arms (h : Stock p b c) {table : Reactor.FdTable Handler} {key : Int × Event} {x : Handler}
    (mine : p.Handles x) {block : Nat} {label : String}
    (task : x.task = .callback (.script block label)) (free : b.registry.contains key = false)
    (holds : table.Holds (b.registry.put key x)) :
    Stock p { b.owing [.script block label] with registry := b.registry.put key x }
      { c with table := table, handles := c.handles + 1 } := by
  refine h.owing [.script block label] (List.forall_mem_singleton.mpr (.script ..)) rfl ?_ holds ?_
    h.timers h.recurring h.names h.pinned ?_ rfl
  · refine List.perm_iff_count.mpr fun t => ?_
    simp only [Scene.tasks, Table.values_put free, List.map_cons, List.map_nil, task,
      List.count_append, List.count_cons, List.count_nil]
    omega
  · rw [Table.values_put free]
    exact List.forall_mem_cons.mpr ⟨mine, h.handlers⟩
  · have size := Table.size_put_of_not_contains free x
    change (b.registry.put key x).size + c.handles ≤ b.registry.size + (c.handles + 1)
    omega

theorem values_length (m : Registry Handler) : m.values.length = m.size := List.length_map ..

/-- Handlers that fire are no longer entered, and their tasks are queued. -/
theorem fires (h : Stock p b c) {table : Reactor.FdTable Handler} {m : Registry Handler}
    {hs : List Handler} (fired : b.registry.values.Perm (hs ++ m.values))
    (holds : table.Holds m) :
    Stock p { b with registry := m } (Scene.fired { c with table := table } hs) := by
  refine h.owing [] nofun rfl ?_ holds ?_ h.timers h.recurring h.names ?_ ?_ rfl
  · refine List.perm_iff_count.mpr fun t => ?_
    have fired := (fired.map (·.task)).count_eq t
    simp only [Scene.tasks, Scene.fired, List.map_append, List.map_map, List.count_append,
      List.map_nil, List.count_nil, Function.comp_def] at fired ⊢
    omega
  · exact fun x mem => h.handlers x (fired.mem_iff.mpr (List.mem_append_right _ mem))
  · intro e mem
    rcases List.mem_append.mp mem with mem | mem
    · exact h.pinned e mem
    · obtain ⟨x, _, rfl⟩ := List.mem_map.mp mem
      exact .inl rfl
  · have size := fired.length_eq
    have enough := h.handles
    rw [List.length_append, values_length, values_length] at size
    change m.size + c.handles ≤ b.registry.size + (c.handles - hs.length)
    omega

/-- A callback less, wherever it was kept. -/
theorem relieved {c' : Scene} {note : Note} {m : Registry Handler} {hand : List (Task Body)}
    (h : Stock p b c)
    (plain : body.Plain) (ends : note = .dropped body ∨ note = .begun body)
    (tasks : b.tasks.Perm (.callback body :: rest))
    (same : c'.toView = { c.toView with handles := c'.handles })
    (left : rest.Perm (c'.tasks m ++ hand)) (table : c'.table.Holds m)
    (handlers : ∀ x ∈ m.values, p.Handles x) (timers : c'.timers.Kept)
    (recurring : ∀ id s, c'.timers.slots.get? id = some s → s.recurring = true →
      s.callback.isWake = false)
    (names : p.Knows c'.timers c'.names)
    (handles : m.size + c.handles ≤ b.registry.size + c'.handles) (held : c'.held = c.held) :
    Stock p { b.relieved rest note with registry := m, hand := hand } c' := by
  have fibers := Books.relieved_fibers tasks plain note
  have sleepers : b.sleepers.length = (Books.sleepers { b with tasks := rest }).length :=
    (Books.sleepers_perm fibers).length_eq
  have sound := h.sound.relieved tasks plain ends
  have wakes : b.tasks.countP isWakeTask = rest.countP isWakeTask := by
    rw [tasks.countP_eq, List.countP_cons_of_neg (by simp [plain.notWake])]
  refine ⟨⟨⟨sound.takes, sound.drowsy, sound.balance, sound.sleeps⟩, left, table, handlers, timers,
    recurring, names, ?_, ?_, ?_⟩, ?_, h.seniors⟩
  · rw [same]
    exact h.pinned
  · have before := h.handles
    rw [wakes, sleepers] at before
    change b.due + (rest.countP isWakeTask + m.size +
      (Books.sleepers { b with tasks := rest }).length) ≤ c'.handles
    omega
  · have before := h.held
    rw [sleepers] at before
    rw [held]
    exact before
  · rw [same]
    exact (h.ground.perm ((Books.crew_perm fibers).append_left _)).congr rfl rfl rfl

/-- A timer of a script is cancelled; unless it is recurring, its callback is dropped. -/
theorem cancels_timer (h : Stock p b c) {m : Timers TimerBody} {s : TimerSlot TimerBody}
    (kept : m.Kept) (last : m.lastId = c.timers.lastId)
    (inherits : Timers.Inherits c.timers.slots m.slots)
    (owed : c.timers.owed.Perm (Timers.owing s ++ m.owed)) (script : s.callback.isWake = false) :
    ∃ tasks, Stock p
      { b with
        tasks := tasks
        notes := (Timers.owing s).map (fun x => .dropped (.timer x)) ++ b.notes }
      { c with timers := m } := by
  cases recurs : s.recurring with
  | true =>
    have nothing : Timers.owing s = [] := if_pos recurs
    rw [nothing] at owed ⊢
    exact ⟨b.tasks, h.keeps_timers kept last inherits owed⟩
  | false =>
    have own : Timers.owing s = [s.callback] := if_neg (recurs ▸ Bool.false_ne_true)
    rw [own] at owed ⊢
    let c' : Scene := { c with timers := m }
    have tasks : b.tasks.Perm (.callback (.timer s.callback) :: (c'.tasks b.registry ++ b.hand)) :=
      h.tasks.trans (((owed.map _).append_right _).append_right _)
    have same : c'.toView = { c.toView with handles := c'.handles } := rfl
    exact ⟨_, h.relieved (.timer _ script) (.inl rfl) tasks same (.refl _) h.table
      h.handlers kept (h.recurring_inherits inherits) (h.names.inherits inherits last)
      (Nat.le_refl _)
      rfl⟩

/-- A handler is deleted; its callback is dropped. -/
theorem deletes_handler (h : Stock p b c) {table : Reactor.FdTable Handler} {key : Int × Event}
    {x : Handler} (found : b.registry.get? key = some x) (task : x.task = .callback body)
    (plain : body.Plain) (holds : table.Holds (b.registry.erase key)) :
    ∃ tasks, Stock p
      { b with
        tasks := tasks
        registry := b.registry.erase key
        notes := .dropped body :: b.notes }
      { c with table := table, handles := c.handles - 1 } := by
  have values := Table.values_erase h.table.distinct found
  let c' : Scene := { c with table := table, handles := c.handles - 1 }
  have tasks : b.tasks.Perm
      (.callback body :: (c'.tasks (b.registry.erase key) ++ b.hand)) := by
    refine List.perm_iff_count.mpr fun t => ?_
    have all := h.tasks.count_eq t
    have values := (values.map (·.task)).count_eq t
    simp only [Scene.tasks, List.map_cons, task, List.count_append, List.count_cons, c']
      at all values ⊢
    omega
  have enough := h.handles
  have size := values.length_eq
  rw [List.length_cons, values_length, values_length] at size
  have same : c'.toView = { c.toView with handles := c'.handles } := rfl
  refine ⟨_, h.relieved plain (.inl rfl) tasks same (.refl _) holds (fun y mem => ?_) h.timers
    h.recurring h.names ?_ rfl⟩
  · exact h.handlers y (values.mem_iff.mpr (List.mem_cons_of_mem _ mem))
  · change (b.registry.erase key).size + c.handles ≤ b.registry.size + (c.handles - 1)
    omega

end Stock

end Script

end Fibers
