import Fibers.Proofs.Manager.Stock
import Mathlib.Logic.Function.Basic

/-!
Fibers that wait for their turn. A fiber joins them when a task is made that resumes it or will
queue it, and leaves them when that task is taken; between the two its task may change, and handles
of it may come and go.
-/

namespace Fibers.Script

namespace Posture

variable {p : Station} {id : FiberId} {n : Nat} {x : Posture}

theorem cell_handles : (x.cell p id n).handles = n := by cases x <;> rfl

theorem cell_with (m : Nat) : { x.cell p id n with handles := m } = x.cell p id m := by
  cases x <;> rfl

theorem bodies_of_asleep (h : x.isAsleep = true) : x.bodies = [] := by
  cases x <;> first | rfl | cases h

end Posture

namespace Books

variable {b : Books} {p : Station} {id : FiberId} {rest : List (Task Body)} {t : Task Body}

theorem mem_fibers : id ∈ b.fibers ↔ ∃ t ∈ b.tasks, id ∈ taskFibers t := List.mem_flatMap

/-- Of a waiting fiber there is one cell in the crew. Its number of handles does not concern the
others. -/
theorem crew_of_mem (mem : id ∈ b.fibers) (nodup : b.fibers.Nodup) (n : Nat) :
    ∃ others, (b.crew p).Perm ((b.post id).cell p id (b.spare id + 1) :: others) ∧
      (crew { b with spare := Function.update b.spare id n } p).Perm
        ((b.post id).cell p id (n + 1) :: others) := by
  have perm := List.perm_cons_erase mem
  let spare := Function.update b.spare id n
  have self : spare id = n := Function.update_self ..
  have other : ∀ j ∈ b.fibers.erase id, spare j = b.spare j := fun j h =>
    Function.update_of_ne (nodup.mem_erase_iff.mp h).1 ..
  have same : (b.fibers.erase id).map (fun j => (b.post j).cell p j (spare j + 1)) =
      (b.fibers.erase id).map fun j => (b.post j).cell p j (b.spare j + 1) := by
    refine List.map_congr_left fun j h => ?_
    rw [other j h]
  refine ⟨_, perm.map _, ?_⟩
  have all := perm.map fun j => (b.post j).cell p j (spare j + 1)
  rw [List.map_cons, self, same] at all
  exact all

theorem crew_ids (b : Books) (p : Station) : (b.crew p).map Cell.id = b.fibers := by
  rw [crew, List.map_map]
  refine (List.map_congr_left fun j _ => ?_).trans (List.map_id _)
  exact Posture.cell_id ..

/-- The books with a task more, of a fiber that waits from now on with some handles. -/
def joined (b : Books) (id : FiberId) (x : Posture) (handles : Nat) (t : Task Body) : Books :=
  { b with
    tasks := t :: b.tasks
    post := Function.update b.post id x
    spare := Function.update b.spare id handles
    notes := (taskBodies (Function.update b.post id x) t).map .owed ++
      ((if x.isAsleep then [.asleep id] else []) ++ b.notes) }

variable {x : Posture} {n : Nat}

theorem joined_crew (own : taskFibers t = [id]) (new : id ∉ b.fibers) :
    (b.joined id x n t).crew p = x.cell p id (n + 1) :: b.crew p := by
  have fibers : (b.joined id x n t).fibers = id :: b.fibers := by
    rw [Books.fibers, joined, List.flatMap_cons, own]
    rfl
  rw [crew, fibers, List.map_cons]
  congr 1
  · simp only [joined, Function.update_self]
  · refine List.map_congr_left fun j mem => ?_
    have other : j ≠ id := fun e => new (e ▸ mem)
    simp only [joined, Function.update_of_ne other]

theorem joined_sleepers (own : taskFibers t = [id]) (new : id ∉ b.fibers) :
    (b.joined id x n t).sleepers.Perm ((if x.isAsleep then [id] else []) ++ b.sleepers) := by
  have fibers : (b.joined id x n t).fibers = id :: b.fibers := by
    rw [Books.fibers, joined, List.flatMap_cons, own]
    rfl
  have rest : b.fibers.filter (fun j => (Function.update b.post id x j).isAsleep) =
      b.fibers.filter fun j => (b.post j).isAsleep := by
    refine List.filter_congr fun j mem => ?_
    have other : j ≠ id := fun e => new (e ▸ mem)
    rw [Function.update_of_ne other]
  rw [sleepers, fibers, List.filter_cons]
  simp only [joined, Function.update_self]
  rw [rest]
  split
  · exact List.perm_middle
  · exact .refl _

/-- A fiber joins those that wait, with a task. -/
theorem Sound.joined (h : b.Sound p) (own : taskFibers t = [id]) (new : id ∉ b.fibers)
    (takes : p.Takes t) (drowsy : isWakeTask t = true → x.isAsleep = true) :
    (b.joined id x n t).Sound p := by
  have others : ∀ j ∈ b.fibers, Function.update b.post id x j = b.post j := by
    intro j mem
    have other : j ≠ id := fun e => new (e ▸ mem)
    exact Function.update_of_ne other ..
  let post := Function.update b.post id x
  have counts : ∀ (f : Body → Note) (y : Note), (∀ z, f z ≠ y) → ∀ bodies : List Body,
      (bodies.map f).count y = 0 := by
    intro f y other bodies
    refine List.count_eq_zero.mpr fun mem => ?_
    obtain ⟨z, _, same⟩ := List.mem_map.mp mem
    exact other z same
  have exchanged := (h.congr others).exchange [] [t]
    ((taskBodies post t).map .owed ++ if x.isAsleep then [.asleep id] else []) b.risen (.refl _)
    (List.forall_mem_singleton.mpr takes) ?_ ?_ ?_
  · have notes : ∀ (owed : List Note) (asleep : List Note),
        (owed ++ asleep) ++ b.notes = owed ++ (asleep ++ b.notes) := fun _ _ =>
      List.append_assoc ..
    rw [notes] at exchanged
    exact ⟨exchanged.takes, exchanged.drowsy, exchanged.balance, exchanged.sleeps⟩
  · refine List.forall_mem_singleton.mpr fun wakes j mem => ?_
    rw [own] at mem
    obtain rfl := List.mem_singleton.mp mem
    change (Function.update b.post j x j).isAsleep = true
    rw [Function.update_self]
    exact drowsy wakes
  · intro body
    have owed : ((taskBodies post t).map Note.owed).count (.owed body) =
        (taskBodies post t).count body :=
      List.count_map_of_injective _ _ (fun _ _ same => Note.owed.inj same) _
    have all : [t].flatMap (taskBodies post) = taskBodies post t := List.append_nil _
    change _ + List.count body [] = _ + List.count body ([t].flatMap (taskBodies post))
    rw [all]
    simp only [List.count_append, owed, counts Note.owed (.dropped body) nofun,
      counts Note.owed (.begun body) nofun, List.count_nil]
    split <;> simp
  · intro j
    have self : (Function.update b.post id x id).isAsleep = x.isAsleep := by
      rw [Function.update_self]
    simp only [List.count_append, counts Note.owed (.asleep j) nofun,
      counts Note.owed (.awake j) nofun, List.flatMap_nil, List.flatMap_cons, own,
      List.append_nil, List.filter_nil, List.filter_cons, self, List.count_nil]
    cases x.isAsleep
    · simp
    · simp only [if_true, List.count_cons, List.count_nil]
      simp only [beq_iff_eq, Note.asleep.injEq, reduceCtorEq, if_false]
      omega

/-- The books after the task of a waiting fiber was taken. -/
def taken (b : Books) (id : FiberId) (rest : List (Task Body)) : Books :=
  { b with
    tasks := (b.post id).bodies.map .callback ++ rest
    hand := (b.post id).bodies.map .callback
    risen := (if (b.post id).isAsleep then [id] else []) ++ b.risen }

theorem plain_of_fresh : ∀ x ∈ (b.post id).bodies, x.Plain := by
  intro x mem
  cases posture : b.post id with
  | fresh block label =>
    rw [posture] at mem
    obtain rfl := List.mem_singleton.mp mem
    exact .script ..
  | ready => rw [posture] at mem; cases mem
  | asleep => rw [posture] at mem; cases mem

theorem taken_fibers (id : FiberId) (rest : List (Task Body)) :
    (b.taken id rest).fibers = rest.flatMap taskFibers := by
  rw [fibers, taken, List.flatMap_append, callbacks_fibers plain_of_fresh]
  rfl

theorem fibers_perm (tasks : b.tasks.Perm (.fiber id :: rest)) :
    b.fibers.Perm (id :: rest.flatMap taskFibers) := tasks.flatMap_right _

theorem taken_crew (tasks : b.tasks.Perm (.fiber id :: rest)) :
    (b.crew p).Perm ((b.post id).cell p id (b.spare id + 1) :: (b.taken id rest).crew p) := by
  rw [crew, crew, taken_fibers]
  exact (fibers_perm tasks).map _

theorem taken_sleepers (tasks : b.tasks.Perm (.fiber id :: rest)) :
    (b.taken id rest).sleepers.Perm b.sleepers := by
  have fibers := (fibers_perm tasks).filter fun j => (b.post j).isAsleep
  rw [sleepers, sleepers, taken_fibers]
  refine .trans ?_ (fibers.symm.append_left _)
  rw [List.filter_cons, taken, List.append_assoc]
  split
  · rw [List.singleton_append]
    exact List.perm_middle.symm
  · exact .refl _

theorem Sound.taken (h : b.Sound p) (tasks : b.tasks.Perm (.fiber id :: rest)) :
    (b.taken id rest).Sound p := by
  have sound := h.exchange [.fiber id] ((b.post id).bodies.map .callback) []
    ((if (b.post id).isAsleep then [id] else []) ++ b.risen) tasks ?_ ?_ ?_ ?_
  · exact ⟨sound.takes, sound.drowsy, sound.balance, sound.sleeps⟩
  · intro t mem
    obtain ⟨x, member, rfl⟩ := List.mem_map.mp mem
    exact (plain_of_fresh x member).takes p
  · intro t mem wakes
    obtain ⟨x, member, rfl⟩ := List.mem_map.mp mem
    rw [(plain_of_fresh x member).notWake] at wakes
    cases wakes
  · intro body
    have all : ((b.post id).bodies.map Task.callback).flatMap (taskBodies b.post) =
        (b.post id).bodies := by
      simp [List.flatMap_map, taskBodies]
    rw [all, List.flatMap_cons, List.flatMap_nil, List.append_nil, taskBodies]
    simp only [List.count_nil]
  · intro j
    rw [callbacks_fibers plain_of_fresh, List.flatMap_cons, List.flatMap_nil, List.append_nil,
      taskFibers, List.filter_cons]
    cases (b.post id).isAsleep
    · simp
    · simp [List.count_cons]

/-- The books after the callback that ends a sleep has queued the sleeping fiber; the handles that
the callback held are still to be let go. -/
def roused (b : Books) (body : Body) (id : FiberId) (rest : List (Task Body)) : Books :=
  { b with
    tasks := .fiber id :: rest
    hand := []
    spare := Function.update b.spare id 1
    due := b.due + 1
    notes := .begun body :: b.notes }

theorem Sound.roused (h : b.Sound p) {s : SchedulerId}
    (tasks : b.tasks.Perm (.callback (.timer (.wake s id)) :: rest)) :
    (b.roused (.timer (.wake s id)) id rest).Sound p := by
  have asleep : (b.post id).isAsleep = true :=
    h.drowsy _ (tasks.mem_iff.mpr List.mem_cons_self) rfl id (List.mem_singleton.mpr rfl)
  have sound := h.exchange [.callback (.timer (.wake s id))] [.fiber id]
    [.begun (.timer (.wake s id))] b.risen tasks (List.forall_mem_singleton.mpr trivial)
    (List.forall_mem_singleton.mpr nofun) ?_ ?_
  · exact ⟨sound.takes, sound.drowsy, sound.balance, sound.sleeps⟩
  · intro body
    simp only [List.flatMap_cons, List.flatMap_nil, List.append_nil, taskBodies,
      Posture.bodies_of_asleep asleep, List.count_cons, List.count_nil, beq_iff_eq,
      Note.begun.injEq, reduceCtorEq, if_false]
    omega
  · intro j
    simp only [List.flatMap_cons, List.flatMap_nil, List.append_nil, taskFibers, List.count_cons,
      List.count_nil, beq_iff_eq, reduceCtorEq, if_false]

theorem roused_fibers {s : SchedulerId} {body : Body}
    (tasks : b.tasks.Perm (.callback (.timer (.wake s id)) :: rest)) :
    b.fibers.Perm (b.roused body id rest).fibers := tasks.flatMap_right _

/-- A fiber that sleeps no longer. -/
theorem Sound.woken (h : b.Sound p) {risen : List FiberId} (was : b.risen = id :: risen) :
    Sound { b with risen := risen, notes := .awake id :: b.notes } p := by
  refine h.exchange [] [] [.awake id] risen (.refl _) nofun nofun ?_ ?_
  · intro body
    simp
  · intro j
    rw [was]
    simp only [List.flatMap_nil, List.filter_nil, List.count_cons, List.count_nil, beq_iff_eq,
      Note.awake.injEq, reduceCtorEq, if_false]
    omega

end Books

namespace Store

variable {p : Station} {b : Books} {c : Scene} {id : FiberId} {x : Posture} {n : Nat}
  {t : Task Body} {q : TaskQueue Body} {worker : Option Nat}

/-- A fiber joins those that wait. -/
theorem joined {c' : Scene} (h : Store p b c) (own : taskFibers t = [id]) (new : id ∉ b.fibers)
    (takes : p.Takes t) (drowsy : isWakeTask t = true → x.isAsleep = true)
    (tasks : (c'.tasks b.registry).Perm (t :: c.tasks b.registry)) (table : c'.table = c.table)
    (timers : c'.timers.Kept)
    (recurring : ∀ id s, c'.timers.slots.get? id = some s → s.recurring = true →
      s.callback.isWake = false)
    (names : p.Knows c'.timers c'.names)
    (pinned : ∀ e ∈ c'.shared.queue, e.worker = none ∨ e.worker = some 0)
    (handles : c.handles + (if isWakeTask t then 1 else 0) + (if x.isAsleep then 1 else 0) ≤
      c'.handles)
    (held : c.held + (if x.isAsleep then 1 else 0) ≤ c'.held) : Store p (b.joined id x n t) c' := by
  have sleepers := (Books.joined_sleepers (x := x) (n := n) own new).length_eq
  have length : ((if x.isAsleep then [id] else []) ++ b.sleepers).length =
      (if x.isAsleep then 1 else 0) + b.sleepers.length := by
    split <;> simp [Nat.add_comm]
  rw [length] at sleepers
  have before := h.handles
  have before' := h.held
  refine ⟨h.sound.joined own new takes drowsy, (h.tasks.cons t).trans (tasks.symm.append_right _),
    table.symm ▸ h.table, h.handlers, timers, recurring, names, pinned, ?_, ?_⟩
  · rw [sleepers]
    simp only [Books.joined, List.countP_cons]
    omega
  · rw [sleepers]
    simp only [Books.joined]
    omega

/-- A callback is taken from the queue. -/
theorem takes_callback {body : Body} (h : Store p b c)
    (queue : c.shared.queue = ⟨.callback body, worker⟩ :: q) (empty : b.hand = []) {active : Nat} :
    Store p { b with hand := [.callback body] }
      { c with shared := { c.shared with queue := q, active := active } } := by
  refine ⟨⟨h.sound.takes, h.sound.drowsy, h.sound.balance, h.sound.sleeps⟩, ?_, h.table, h.handlers,
    h.timers, h.recurring, h.names, fun e mem => ?_, h.handles, h.held⟩
  · refine List.perm_iff_count.mpr fun t => ?_
    have all := h.tasks.count_eq t
    simp only [Scene.tasks, queue, empty, List.map_cons, List.count_append, List.count_cons,
      List.count_nil] at all ⊢
    omega
  · exact h.pinned e (queue ▸ List.mem_cons_of_mem _ mem)

/-- A fiber is taken from the queue. -/
theorem takes_fiber (h : Store p b c) (queue : c.shared.queue = ⟨.fiber id, worker⟩ :: q)
    (empty : b.hand = []) {active : Nat} :
    ∃ rest, b.tasks.Perm (.fiber id :: rest) ∧
      Store p (b.taken id rest)
        { c with shared := { c.shared with queue := q, active := active } } := by
  let c' : Scene := { c with shared := { c.shared with queue := q, active := active } }
  have tasks : b.tasks.Perm (.fiber id :: c'.tasks b.registry) := by
    refine List.perm_iff_count.mpr fun t => ?_
    have all := h.tasks.count_eq t
    simp only [Scene.tasks, queue, empty, List.map_cons, List.count_append, List.count_cons,
      List.count_nil, c'] at all ⊢
    omega
  have sleepers := (Books.taken_sleepers tasks).length_eq
  have wakes : (b.taken id (c'.tasks b.registry)).tasks.countP isWakeTask =
      b.tasks.countP isWakeTask := by
    rw [tasks.countP_eq, List.countP_cons_of_neg Bool.false_ne_true, Books.taken,
      List.countP_append, Books.callbacks_wakes Books.plain_of_fresh, Nat.zero_add]
  refine ⟨_, tasks, h.sound.taken tasks, ?_, h.table, h.handlers, h.timers, h.recurring, h.names,
    fun e mem => ?_, ?_, ?_⟩
  · exact List.perm_append_comm
  · exact h.pinned e (queue ▸ List.mem_cons_of_mem _ mem)
  · rw [sleepers, wakes]
    exact h.handles
  · rw [sleepers]
    exact h.held

/-- The callback that ends a sleep queues the sleeping fiber. -/
theorem rouses {s : SchedulerId} (h : Store p b c)
    (hand : b.hand = [.callback (.timer (.wake s id))]) :
    ∃ rest, b.tasks.Perm (.callback (.timer (.wake s id)) :: rest) ∧
      Store p (b.roused (.timer (.wake s id)) id rest)
        { c with shared := { c.shared with queue := c.shared.queue ++ [⟨.fiber id, none⟩] } } := by
  have tasks : b.tasks.Perm (.callback (.timer (.wake s id)) :: c.tasks b.registry) := by
    have all := h.tasks
    rw [hand] at all
    exact all.trans List.perm_append_comm
  have sleepers : (b.roused (.timer (.wake s id)) id (c.tasks b.registry)).sleepers.length =
      b.sleepers.length :=
    (((Books.roused_fibers tasks).symm.filter _).append_left b.risen).length_eq
  have wakes : b.tasks.countP isWakeTask =
      ((Task.fiber id :: c.tasks b.registry).countP isWakeTask) + 1 := by
    rw [tasks.countP_eq, List.countP_cons_of_pos rfl, List.countP_cons_of_neg Bool.false_ne_true]
  have enough := h.handles
  refine ⟨_, tasks, h.sound.roused tasks, ?_, h.table, h.handlers, h.timers, h.recurring, h.names,
    fun e mem => ?_, ?_, ?_⟩
  · refine List.perm_iff_count.mpr fun t => ?_
    simp only [Books.roused, Scene.tasks, List.map_append, List.map_cons, List.map_nil,
      List.append_nil, List.count_append, List.count_cons, List.count_nil]
    omega
  · rcases List.mem_append.mp mem with mem | mem
    · exact h.pinned e mem
    · obtain rfl := List.mem_singleton.mp mem
      exact .inl rfl
  · rw [sleepers]
    change b.due + 1 + ((Task.fiber id :: c.tasks b.registry).countP isWakeTask + b.registry.size +
      b.sleepers.length) ≤ c.handles
    omega
  · rw [sleepers]
    exact h.held

/-- A fiber that has slept lets go of the scheduler and the reactor. -/
theorem woken (h : Store p b c) {risen : List FiberId} (was : b.risen = id :: risen) :
    Store p { b with risen := risen, notes := .awake id :: b.notes }
      { c with handles := c.handles - 1, held := c.held - 1 } := by
  have sleepers : b.sleepers.length = (Books.sleepers { b with risen := risen }).length + 1 := by
    rw [Books.sleepers, was]
    exact List.length_cons
  have enough := h.handles
  have enough' := h.held
  refine ⟨h.sound.woken was, h.tasks, h.table, h.handlers, h.timers, h.recurring, h.names, h.pinned,
    ?_, ?_⟩
  · change b.due + (b.tasks.countP isWakeTask + b.registry.size +
      (Books.sleepers { b with risen := risen }).length) ≤ c.handles - 1
    omega
  · change b.lent + (Books.sleepers { b with risen := risen }).length ≤ c.held - 1
    omega

end Store

/-- A handle of a waiting fiber comes or goes. -/
theorem Books.recrew {p : Station} {b : Books} {v v' : View} {a id : FiberId}
    {chain : List FiberId} {known : List Cell} (n : Nat)
    (floor : Floor v a chain (known ++ b.crew p)) (mem : id ∈ b.fibers)
    (step : ∀ cells,
      Floor v a chain ((b.post id).cell p id (b.spare id + 1) :: cells) →
        Floor v' a chain ((b.post id).cell p id (n + 1) :: cells)) :
    Floor v' a chain (known ++ crew { b with spare := Function.update b.spare id n } p) := by
  have nodup : b.fibers.Nodup := by
    have distinct := floor.distinct
    rw [List.map_append, b.crew_ids p] at distinct
    exact distinct.of_append_right
  obtain ⟨others, before, after⟩ := b.crew_of_mem (p := p) mem nodup n
  have first : (known ++ b.crew p).Perm
      ((b.post id).cell p id (b.spare id + 1) :: (known ++ others)) :=
    (before.append_left known).trans List.perm_middle
  exact (step _ (floor.perm first)).perm
    (List.perm_middle.symm.trans (after.symm.append_left known))

/-- A fiber that has not begun, of a script, which nobody has queued. -/
structure Scene.Fresh (c : Scene) (id : FiberId) (block : Nat) (label : String) : Prop where
  holds : Cell.Holds ⟨id, .init, some (.script block label), 0, some [.fiberStart id]⟩ c.toView
  free : ∀ e ∈ c.shared.queue, e.task ≠ .fiber id

namespace Stock

variable {p : Station} {b : Books} {c : Scene} {id : FiberId} {block : Nat} {label : String}

/-- A fresh fiber is none of those that wait. -/
theorem new_of_fresh (h : Stock p b c) (empty : b.hand = []) (fresh : c.Fresh id block label) :
    id ∉ b.fibers ∧ ∀ x ∈ b.known, x.id ≠ id := by
  obtain ⟨⟨⟨r, found, state, entry, _⟩, _⟩, free⟩ := fresh
  constructor
  · intro mem
    obtain ⟨t, member, own⟩ := Books.mem_fibers.mp mem
    have asleep : (b.post id).isAsleep = true → False := by
      intro asleep
      have cell : (b.post id).cell p id (b.spare id + 1) ∈ b.known ++ b.crew p :=
        List.mem_append_right _ (List.mem_map_of_mem mem)
      obtain ⟨⟨q, known, hold, _⟩, _⟩ := h.ground.holds _ cell
      rw [Posture.cell_id, found] at known
      obtain rfl := Option.some.inj known
      cases posture : b.post id with
      | asleep =>
        rw [posture] at hold
        exact nomatch state.symm.trans hold
      | fresh => rw [posture] at asleep; cases asleep
      | ready => rw [posture] at asleep; cases asleep
    have drowsy := h.sound.drowsy t member
    have held := h.tasks.mem_iff.mp member
    rw [empty, List.append_nil, Scene.tasks] at held
    cases t with
    | fiber j =>
      obtain rfl : id = j := List.mem_singleton.mp own
      rcases List.mem_append.mp held with timer | held
      · obtain ⟨_, _, same⟩ := List.mem_map.mp timer
        cases same
      · rcases List.mem_append.mp held with queued | handler
        · obtain ⟨e, there, same⟩ := List.mem_map.mp queued
          exact free e there same
        · obtain ⟨y, there, same⟩ := List.mem_map.mp handler
          obtain ⟨_, _, script⟩ := (h.handlers y there).task
          rw [same] at script
          cases script
    | callback body =>
      cases body with
      | timer tb =>
        cases tb with
        | wake s j => exact asleep (drowsy rfl id own)
        | script => cases own
        | guarded => cases own
      | script => cases own
      | root => cases own
      | idle => cases own
  · rintro x mem rfl
    obtain ⟨⟨q, known, state', entry', _⟩, _⟩ :=
      h.ground.holds x (List.mem_append_left _ mem)
    rw [found] at known
    obtain rfl := Option.some.inj known
    exact h.seniors x mem (state'.symm.trans state) block label (entry'.symm.trans entry)

/-- A fresh fiber is queued. -/
theorem queues_fiber (h : Stock p b c) (empty : b.hand = []) (fresh : c.Fresh id block label)
    {worker : Option Nat} (pin : worker = none ∨ worker = some 0) :
    Stock p (b.joined id (.fresh block label) 0 (.fiber id))
      { c with
        fibers := c.fibers.retain id
        shared := { c.shared with queue := c.shared.queue ++ [⟨.fiber id, worker⟩] } } := by
  obtain ⟨new, other⟩ := h.new_of_fresh empty fresh
  refine ⟨?_, ?_, h.seniors⟩
  · refine h.toStore.joined rfl new trivial nofun ?_ rfl h.timers h.recurring h.names ?_
      (Nat.le_refl _) (Nat.le_refl _)
    · refine List.perm_iff_count.mpr fun t => ?_
      simp only [Scene.tasks, List.map_append, List.map_cons, List.map_nil, List.count_append,
        List.count_cons, List.count_nil]
      omega
    · intro e mem
      rcases List.mem_append.mp mem with mem | mem
      · exact h.pinned e mem
      · obtain rfl := List.mem_singleton.mp mem
        exact pin
  · have apart : ∀ y ∈ b.known ++ b.crew p, y.id ≠ id := by
      intro y mem
      rcases List.mem_append.mp mem with mem | mem
      · exact other y mem
      · rintro rfl
        exact new (b.crew_ids p ▸ List.mem_map_of_mem mem)
    have ground := (h.ground.joined fresh.holds apart).retain
    rw [Books.joined_crew rfl new]
    exact (ground.perm List.perm_middle.symm).congr rfl rfl rfl

/-- A fiber is made under a name. -/
theorem spawns (h : Stock p b c) (body : Body) (stack : Nat) (inScheduler : Bool) (name : String) :
    Stock p b
      { c.withFiber body stack inScheduler with
        names := { c.names with fibers := c.names.fibers.put name ⟨c.fibers.lastId + 1⟩ } } := by
  refine ⟨⟨h.sound, h.tasks, h.table, h.handlers, h.timers, h.recurring, ?_, h.pinned, h.handles,
    h.held⟩, (h.ground.created body stack inScheduler).forget.congr rfl rfl rfl, h.seniors⟩
  exact { h.names with }

end Stock

end Fibers.Script
