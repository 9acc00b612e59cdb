import Fibers.Proofs.Scheduler.Parking
import Fibers.Proofs.Scheduler.Suspended

/-!
What a worker takes from the queue. It takes the first entry that is not pinned to another worker
and is no fiber in execution, leaves the others in their order, and wakes a worker once if it leaves
any. `Traffic` is any row of pushes and looks by any workers, with whatever else happens in between.
If the entries are numbered as they come, the queue always holds those that nobody took, in the
order of their numbers, and each look takes the least number that the worker may take.
-/

namespace Fibers

section Finds

variable {α β : Type}

/-- What is found in a row: the first that will do, with what is left; or nothing, if none will. -/
inductive Finds (able : α → Prop) : List α → Option α → List α → Prop where
  | nothing {q : List α} (unable : ∀ a ∈ q, ¬ able a) : Finds able q none q
  | first {before after : List α} {a : α} (unable : ∀ b ∈ before, ¬ able b) (fits : able a) :
      Finds able (before ++ a :: after) (some a) (before ++ after)

namespace Finds

variable {able : α → Prop} {q rest : List α} {found : Option α}

theorem cons {a : α} (unable : ¬ able a) (h : Finds able q found rest) :
    Finds able (a :: q) found (a :: rest) := by
  cases h with
  | nothing others =>
    apply nothing
    intro b mem
    rcases List.mem_cons.mp mem with rfl | mem
    · exact unable
    · exact others b mem
  | @first before after x others fits =>
    rw [← List.cons_append, ← List.cons_append]
    apply first _ fits
    intro b mem
    rcases List.mem_cons.mp mem with rfl | mem
    · exact unable
    · exact others b mem

theorem fits {a : α} (h : Finds able q (some a) rest) : able a := by
  cases h with
  | first _ fits => exact fits

theorem sublist (h : Finds able q found rest) : rest.Sublist q := by
  cases h with
  | nothing => exact .refl _
  | first => exact (List.Sublist.refl _).append (List.sublist_cons_self _ _)

/-- Nothing gets lost. -/
theorem perm (h : Finds able q found rest) : q.Perm (found.toList ++ rest) := by
  cases h with
  | nothing => exact .refl _
  | first => exact List.perm_middle

/-- What is found among the images is the image of what is found. -/
theorem of_map {f : α → β} {able : β → Prop} {found : Option β} {rest : List β}
    (h : Finds able (q.map f) found rest) :
    ∃ found' rest', Finds (fun a => able (f a)) q found' rest' ∧
      found'.map f = found ∧ rest'.map f = rest := by
  generalize same : q.map f = images at h
  cases h with
  | nothing unable =>
    refine ⟨none, q, .nothing fun a mem => ?_, rfl, same⟩
    exact unable (f a) (same ▸ List.mem_map_of_mem mem)
  | @first before after x unable fits =>
    obtain ⟨b, c, rfl, rfl, cut⟩ := List.map_eq_append_iff.mp same
    obtain ⟨a, d, rfl, rfl, rfl⟩ := List.map_eq_cons_iff.mp cut
    refine ⟨some a, b ++ d, .first (fun a mem => ?_) fits, rfl, List.map_append⟩
    exact unable (f a) (List.mem_map_of_mem mem)

end Finds

/-- The scan finds what there is to find. -/
theorem TaskQueue.scan_finds {running : FiberId → Bool} {worker : Nat} {able : QueueEntry β → Prop}
    (same : ∀ e, eligible running worker e = true ↔ able e) (skipped : Bool) (q : TaskQueue β) :
    Finds able q (scan running worker skipped q).entry (scan running worker skipped q).rest := by
  induction q generalizing skipped with
  | nil => exact .nothing fun e mem => absurd mem List.not_mem_nil
  | cons e q ih =>
    unfold scan
    split
    · next fits =>
      rw [← List.nil_append q, ← List.nil_append (e :: _)]
      apply Finds.first
      · exact fun b mem => absurd mem List.not_mem_nil
      · exact (same e).mp fits
    · next unable => exact (ih true).cons fun fits => unable ((same e).mpr fits)

/-- What is shared after a look: what was found is out of the queue and counts as active. -/
def Shared.without (y : Shared β) (rest : TaskQueue β) (found : Option (QueueEntry β)) :
    Shared β :=
  { y with queue := rest, active := if found.isSome then y.active + 1 else y.active }

end Finds

namespace Script

variable {w w' : World} {s : SchedulerId} {worker : Nat}

/-- Whether a worker may take an entry now. -/
def World.mayTake (w : World) (worker : Nat) (e : QueueEntry Body) : Prop :=
  (∀ k, e.worker = some k → k = worker) ∧ ∀ id, e.task = .fiber id → w.fibers.state id ≠ .exec

theorem eligible_mayTake (w : World) (worker : Nat) (e : QueueEntry Body) :
    TaskQueue.eligible w.isRunning worker e = true ↔ w.mayTake worker e := by
  simp only [TaskQueue.eligible_iff, World.mayTake, World.isRunning, beq_eq_false_iff_ne]

theorem take_finds (w : World) (worker : Nat) (y : Shared Body) :
    ∃ found rest, Finds (w.mayTake worker) y.queue found rest ∧
      y.take w.isRunning worker = ⟨y.without rest found, found, !rest.isEmpty⟩ := by
  have wake := TaskQueue.scan_wake w.isRunning worker false y.queue
  rw [Bool.false_or] at wake
  refine ⟨_, _, TaskQueue.scan_finds (eligible_mayTake w worker) false y.queue, ?_⟩
  rw [← wake]
  rfl

/-- A look at the queue: what is found goes and counts as active, and then a worker is woken once if
entries are left. -/
theorem takeNext_finds {y : Shared Body} (known : w.sharedOf s = some y) (worker : Nat) :
    ∃ found rest w', Finds (w.mayTake worker) y.queue found rest ∧
      (takeNext s worker).on w = (.ok found, w') ∧
      (if rest = [] then pure () else tickle s : Act Unit).on
          (w.withShared s fun _ => y.without rest found) = (.ok (), w') ∧
      w'.sharedOf s = some (y.without rest found) := by
  obtain ⟨found, rest, finds, taken⟩ := take_finds w worker y
  obtain ⟨w', woken, -, shared⟩ := reshare_on known (y.without rest found) (!rest.isEmpty)
  refine ⟨found, rest, w', finds, ?_, ?_, shared⟩
  · change y.take (fun id => w.fibers.state id == .exec) worker = _ at taken
    rw [takeNext, Act.on_bind_get, Act.on_bind_ok (schedulerRecord_on s w), sharedOf_record known,
      taken, Act.on_bind_ok (updateShared_on s _ w)]
    exact (Act.on_when woken).trans rfl
  · rw [← woken]
    cases rest <;> rfl

/-- What was pushed to a queue so far, in its order, and what the workers took, the last first. -/
structure Arrivals where
  pushed : List (QueueEntry Body)
  taken : List (Nat × QueueEntry Body)

variable {a : Arrivals}

/-- Pushes to the queue of a scheduler and looks at it by any workers, in any order. In between
anything may happen that leaves the queue alone. -/
inductive Traffic (s : SchedulerId) : Arrivals → World → Prop where
  | start {w : World} {y : Shared Body} (known : w.sharedOf s = some y) : Traffic s ⟨y.queue, []⟩ w
  | push {a : Arrivals} {w w' : World} (run : Traffic s a w) (entries : List (QueueEntry Body))
      (done : (enqueue s entries).on w = (.ok (), w')) :
      Traffic s ⟨a.pushed ++ entries, a.taken⟩ w'
  | look {a : Arrivals} {w w' : World} {found : Option (QueueEntry Body)} (run : Traffic s a w)
      (worker : Nat) (done : (takeNext s worker).on w = (.ok found, w')) :
      Traffic s ⟨a.pushed, found.toList.map (Prod.mk worker) ++ a.taken⟩ w'
  | elsewhere {a : Arrivals} {w w' : World} (run : Traffic s a w)
      (same : w'.queueOf s = w.queueOf s) : Traffic s a w'

/-- An entry with the number that it got when it was pushed. -/
abbrev Ticket := QueueEntry Body × Nat

/-- Where the entries are: those of `waiting` in the queue, those of `gone` with the workers. -/
structure Arrivals.Accounts (a : Arrivals) (queue : TaskQueue Body) (waiting gone : List Ticket) :
    Prop where
  queue : waiting.map Prod.fst = queue
  taken : gone.map Prod.fst = a.taken.map Prod.snd
  /-- The queue keeps the order in which the entries were pushed. -/
  order : waiting.Sublist a.pushed.zipIdx
  /-- No entry is lost, and none is there twice. -/
  whole : (waiting ++ gone).Perm a.pushed.zipIdx
  /-- No other worker takes a pinned entry. -/
  pins : ∀ t ∈ a.taken, ∀ k, t.2.worker = some k → k = t.1

namespace Arrivals.Accounts

variable {queue : TaskQueue Body} {waiting gone left : List Ticket} {found : Option Ticket}

theorem start (queue : TaskQueue Body) : Accounts ⟨queue, []⟩ queue queue.zipIdx [] where
  queue := List.zipIdx_map_fst _ _
  taken := rfl
  order := .refl _
  whole := by rw [List.append_nil]
  pins _ mem := absurd mem List.not_mem_nil

theorem push (h : a.Accounts queue waiting gone) (entries : List (QueueEntry Body)) :
    Accounts ⟨a.pushed ++ entries, a.taken⟩ (queue ++ entries)
      (waiting ++ entries.zipIdx a.pushed.length) gone where
  queue := by rw [List.map_append, h.queue, List.zipIdx_map_fst]
  taken := h.taken
  order := by
    rw [List.zipIdx_append, Nat.zero_add]
    exact h.order.append (.refl _)
  whole := by
    rw [List.zipIdx_append, Nat.zero_add, List.append_assoc]
    have swap : (entries.zipIdx a.pushed.length ++ gone).Perm
        (gone ++ entries.zipIdx a.pushed.length) := List.perm_append_comm
    refine (swap.append_left waiting).trans ?_
    rw [← List.append_assoc]
    exact h.whole.append_right _
  pins := h.pins

theorem look (h : a.Accounts queue waiting gone)
    (finds : Finds (fun t => w.mayTake worker t.1) waiting found left) :
    Accounts ⟨a.pushed, (found.map Prod.fst).toList.map (Prod.mk worker) ++ a.taken⟩
      (left.map Prod.fst) left (found.toList ++ gone) where
  queue := rfl
  taken := by
    rw [List.map_append, List.map_append, h.taken]
    cases found <;> rfl
  order := finds.sublist.trans h.order
  whole := by
    have moved : (left ++ (found.toList ++ gone)).Perm (found.toList ++ left ++ gone) := by
      rw [← List.append_assoc]
      exact List.perm_append_comm.append_right gone
    exact moved.trans ((finds.perm.symm.append_right gone).trans h.whole)
  pins := by
    intro t mem
    rcases List.mem_append.mp mem with new | old
    · cases found with
      | none => exact absurd new List.not_mem_nil
      | some x =>
        obtain rfl := List.mem_singleton.mp new
        exact finds.fits.1
    · exact h.pins t old

end Arrivals.Accounts

theorem queueOf_sharedOf (w : World) (s : SchedulerId) :
    w.queueOf s = (w.sharedOf s).map (·.queue) := by
  rw [World.queueOf, World.sharedOf, Option.map_map]
  rfl

/-- A look in terms of the numbers. -/
theorem Arrivals.Accounts.takeNext {y : Shared Body} {waiting gone : List Ticket}
    (known : w.sharedOf s = some y) (h : a.Accounts y.queue waiting gone) (worker : Nat) :
    ∃ found left w', Finds (fun t => w.mayTake worker t.1) waiting found left ∧
      (takeNext s worker).on w = (.ok (found.map Prod.fst), w') ∧
      (if left = [] then pure () else tickle s : Act Unit).on
          (w.withShared s fun _ => y.without (left.map Prod.fst) (found.map Prod.fst)) =
        (.ok (), w') ∧
      w'.sharedOf s = some (y.without (left.map Prod.fst) (found.map Prod.fst)) := by
  obtain ⟨_, _, w', finds, done, woken, shared⟩ := takeNext_finds known worker
  rw [← h.queue] at finds
  obtain ⟨found, left, first, rfl, rfl⟩ := finds.of_map
  simp only [List.map_eq_nil_iff] at woken
  exact ⟨found, left, w', first, done, woken, shared⟩

theorem Traffic.accounts (run : Traffic s a w) :
    ∃ y waiting gone, w.sharedOf s = some y ∧ a.Accounts y.queue waiting gone := by
  induction run with
  | @start w y known => exact ⟨y, _, _, known, .start _⟩
  | push _ entries done ih =>
    obtain ⟨y, waiting, gone, known, h⟩ := ih
    obtain ⟨v, pushed, -, shared⟩ := enqueue_shared known entries
    rw [done] at pushed
    obtain rfl := (Prod.mk.inj pushed).2
    exact ⟨_, _, _, shared, h.push entries⟩
  | look _ worker done ih =>
    obtain ⟨y, waiting, gone, known, h⟩ := ih
    obtain ⟨found, left, v, finds, taken, -, shared⟩ := h.takeNext known worker
    rw [done, Prod.mk.injEq, Except.ok.injEq] at taken
    obtain ⟨rfl, rfl⟩ := taken
    exact ⟨_, _, _, shared, h.look finds⟩
  | elsewhere _ same ih =>
    obtain ⟨y, waiting, gone, known, h⟩ := ih
    rw [queueOf_sharedOf, queueOf_sharedOf, known] at same
    obtain ⟨y', known', queue⟩ := Option.map_eq_some_iff.mp same
    exact ⟨y', waiting, gone, known', queue ▸ h⟩

/-- After any row of pushes and looks, every entry that was pushed is either in the queue, which has
kept the order, or was taken once, a pinned one by its own worker. Whoever looks next takes the
oldest entry that it may take, or nothing if there is none. Nothing else changes in the queue, one
more is active if an entry was taken, and a worker is woken, once, if entries are left. -/
theorem workers_take_the_oldest (run : Traffic s a w) :
    ∃ y waiting gone, w.sharedOf s = some y ∧ a.Accounts y.queue waiting gone ∧
      ∀ worker, ∃ found left w', Finds (fun t => w.mayTake worker t.1) waiting found left ∧
        (takeNext s worker).on w = (.ok (found.map Prod.fst), w') ∧
        (if left = [] then pure () else tickle s : Act Unit).on
            (w.withShared s fun _ => y.without (left.map Prod.fst) (found.map Prod.fst)) =
          (.ok (), w') ∧
        w'.sharedOf s = some (y.without (left.map Prod.fst) (found.map Prod.fst)) := by
  obtain ⟨y, waiting, gone, known, h⟩ := run.accounts
  exact ⟨y, waiting, gone, known, h, fun worker => h.takeNext known worker⟩

/-- A scheduler with two workers, and a fiber that is in execution. -/
def busyWorkers : World := { twoWorkers with fibers := twoWorkers.fibers.createMain.1 }

/-- An entry for worker 1, the fiber that is in execution, and two entries that anybody may take. -/
def mixedEntries : List (QueueEntry Body) :=
  [⟨.callback (.script 0 "pinned"), some 1⟩, ⟨.fiber ⟨1⟩, none⟩,
    ⟨.callback (.script 0 "one"), none⟩, ⟨.callback (.script 0 "two"), none⟩]

/-- Worker 0 passes two entries over, takes the next one, and leaves the others as they were. -/
theorem worker_passes_two_over : ∃ a w waiting gone found left w', Traffic 1 a w ∧
    a.Accounts mixedEntries waiting gone ∧
    Finds (fun t => w.mayTake 0 t.1) waiting found left ∧
    (takeNext 1 0).on w = (.ok (found.map Prod.fst), w') ∧
    found.map Prod.fst = mixedEntries[2]? ∧ left.map Prod.fst = mixedEntries.eraseIdx 2 := by
  let w := ((enqueue 1 mixedEntries).on busyWorkers).2
  have pushed : Traffic 1 ⟨mixedEntries, []⟩ w :=
    Traffic.push (a := ⟨[], []⟩) (.start (y := .fresh) rfl) mixedEntries (w := busyWorkers) rfl
  obtain ⟨y, waiting, gone, known, h, looks⟩ := workers_take_the_oldest pushed
  obtain ⟨found, left, w', finds, done, -, shared⟩ := looks 0
  have queue : y.queue = mixedEntries := (congrArg Shared.queue (Option.some.inj known)).symm
  rw [queue] at h
  have answer : Except.ok (found.map Prod.fst) = ((takeNext 1 0).on w).1 := by rw [done]
  have after : ((takeNext 1 0).on w).2.sharedOf 1 =
      some (y.without (left.map Prod.fst) (found.map Prod.fst)) := by
    rw [done]
    exact shared
  exact ⟨_, w, waiting, gone, found, left, w', pushed, h, finds, done, Except.ok.inj answer,
    (congrArg Shared.queue (Option.some.inj after)).symm⟩

end Script

end Fibers
