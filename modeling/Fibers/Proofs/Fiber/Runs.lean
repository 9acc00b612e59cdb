import Fibers.Proofs.Fiber.Switching

/-!
Runs of a thread over its fibers. Between the calls any code may run; the calls make fibers, resume
them, suspend the running one, begin and end it, and install new bodies. A run keeps a history of
the resumes that were let through, each with the frames that the resuming stack had then.
`fibers_stay_in_order` says, of every world that a run reaches, how the fibers stand to each other,
and of every call there, which of the `Outcome`s it has.
-/

namespace Fibers.Script

/-- A call that concerns fibers. -/
inductive FiberCall where
  | create (block : Nat) (label : String) (size : Nat) (inScheduler : Bool)
  | resume (target : FiberId)
  | yieldToHold
  | yieldToReady
  /-- The running fiber takes its body out and begins to run it. -/
  | enter
  /-- The body of the running fiber returns. -/
  | returns
  /-- The body of the running fiber panics. -/
  | panics (p : Panic)
  | reset (id : FiberId) (block : Nat) (label : String)

namespace FiberCall

/-- What a call does. -/
def act : FiberCall → Act Signal
  | create block label size inScheduler => do
    match ← makeFiber (.script block label) size inScheduler with
    | .error e => fail (.fault e)
    | .ok id => return .done (.nat id.val)
  | resume target => Script.resume target
  | yieldToHold => yieldTo .hold
  | yieldToReady => yieldTo .ready
  | enter => do startFiber (← get).runner
  | returns => do finish (← get).runner .term
  | panics p => do finishPanicked (← get).runner p
  | reset id block label => do
    resetFiber id (.script block label)
    return .done .null

/-- The rule that a call violates. -/
def fault? (w : World) : FiberCall → Option Violation
  | resume target =>
    match w.fibers.resume w.thread.current target w.currentScheduler.isSome with
    | .error v => some v
    | .ok _ => none
  | yieldToHold | yieldToReady => if w.inFiber then none else some .yieldOutsideFiber
  | reset id _ _ => w.fibers.resetFault? id
  | create .. | enter | returns | panics _ => none

/-- The state in which a call leaves the running fiber, if it ends or suspends it. A fiber that
begins without a body ends at once. -/
def leaves? (w : World) : FiberCall → Option FiberState
  | yieldToHold => some .hold
  | yieldToReady => some .ready
  | returns => some .term
  | panics _ => some .except
  | enter =>
    match (w.fibers.takeEntry w.runner).2 with
    | some _ => none
    | none => some .term
  | create .. | resume _ | reset .. => none

/-- The calls of the runs: no resume that is let through is of a fiber which waits for another one,
only fibers begin and end, and no violation leaves a body. -/
def Allowed (w : World) : FiberCall → Prop
  | resume target =>
    (resume target).fault? w = none →
      ∀ r, w.fibers.get? target = some r → r.awaiting = none
  | enter | returns => w.inFiber = true
  | panics p => w.inFiber = true ∧ ∀ v, p ≠ .violation v
  | create .. | yieldToHold | yieldToReady | reset .. => True

end FiberCall

/-- A resume that was let through: who resumed whom, and what the resuming stack had still to do. -/
structure Resumption where
  caller : FiberId
  target : FiberId
  frames : List Frame

/-- The resume that last started or continued a fiber; the history has the last one first. -/
def lastResume (history : List Resumption) (id : FiberId) : Option Resumption :=
  history.find? fun r => decide (r.target = id)

/-- What a call adds to the history. -/
def FiberCall.noted (w : World) : FiberCall → List Resumption
  | resume target =>
    if (resume target).fault? w = none then [⟨w.runner, target, w.thread.frames⟩] else []
  | _ => []

/-- What code between the calls may do: anything but touch fibers, of which it may still take and
drop handles, or change the fiber that runs. -/
structure Elsewhere (w w' : World) : Prop where
  fibers : ∀ id, (w'.fibers.get? id).map (fun r => { r with handles := 0 }) =
    (w.fibers.get? id).map fun r => { r with handles := 0 }
  lastId : w'.fibers.lastId = w.fibers.lastId
  saved : w'.saved = w.saved
  thread : w'.HasThread
  current : w'.thread.current = w.thread.current

/-- A thread that has used no fiber yet. -/
structure Unused (w : World) : Prop where
  fibers : w.fibers = .empty
  thread : w.HasThread
  current : w.thread.current = none

/-- The worlds that a run reaches, each with the resumes that were let through. -/
inductive Reaches (start : World) : List Resumption → World → Prop where
  | start : Reaches start [] start
  | elsewhere {history : List Resumption} {w w' : World} (run : Reaches start history w)
      (h : Elsewhere w w') : Reaches start history w'
  | call {history : List Resumption} {w : World} (run : Reaches start history w) (call : FiberCall)
      (allowed : call.Allowed w) : Reaches start (call.noted w ++ history) (w.perform call.act).2

/-- The running fiber alone is in execution. The fibers that wait, each for one that it resumed,
lead from it to the main fiber without a repetition; all others are at rest. -/
structure InOrder (w : World) : Prop where
  sole : ∀ id, (w.fibers.seen w.thread.current).state id = .exec ↔ id = w.runner
  chain : ∃ links, Waits (w.fibers.seen w.thread.current).standing w.runner links ∧
    (w.runner :: links).Nodup ∧
    ∀ id s, w.fibers.standing id = some s → id ∉ w.runner :: links → s.Resting

/-- How a call ends: what the stack that runs then is told, and the world that it leaves. -/
inductive Outcome (history : List Resumption) (w : World) : FiberCall → Signal → World → Prop where
  /-- A call that violates a rule changes nothing. -/
  | rejected {call : FiberCall} {v : Violation} {w' : World} (fault : call.fault? w = some v)
      (same : Untouched w w') : Outcome history w call (.raised (.violation v)) w'
  /-- There was no stack for a fiber. -/
  | unmade {block size : Nat} {label : String} {inScheduler : Bool} {e : SchedFault} {w' : World}
      (same : Untouched w w') :
      Outcome history w (.create block label size inScheduler) (.failed (.fault e)) w'
  | made {block size : Nat} {label : String} {inScheduler : Bool} {w' : World}
      (threads : w'.threads = w.threads)
      (changed : FiberTable.Changed w.fibers w'.fibers [⟨⟨w.fibers.lastId + 1⟩, none, .init⟩]) :
      Outcome history w (.create block label size inScheduler)
        (.done (.nat (w.fibers.lastId + 1))) w'
  | resumed {target : FiberId} {s : FiberState} {w' : World}
      (lawful : (FiberCall.resume target).fault? w = none) (resumable : s.isResumable = true)
      (current : w'.thread.current = some target)
      (changed : FiberTable.Changed (w.fibers.seen w.thread.current) w'.fibers
        [⟨w.runner, some .exec, .hold⟩, ⟨target, some s, .exec⟩]) :
      Outcome history w (.resume target) (.done .null) w'
  | begun {w' : World} (lasts : FiberCall.enter.leaves? w = none)
      (current : w'.thread.current = w.thread.current)
      (changed : FiberTable.Changed w.fibers w'.fibers []) :
      Outcome history w .enter (.done .null) w'
  /-- Control is back with the fiber whose resume last started or continued the one that is left,
  where that resume was called, and the resume answers the state that was asked for. -/
  | handedBack {call : FiberCall} {left : FiberState} {past : Resumption} {w' : World}
      (lawful : call.fault? w = none) (leaves : call.leaves? w = some left)
      (last : lastResume history w.runner = some past)
      (current : w'.thread.current = some past.caller) (frames : w'.thread.frames = past.frames)
      (changed : FiberTable.Changed w.fibers w'.fibers
        [⟨w.runner, some .exec, left⟩, ⟨past.caller, some .hold, .exec⟩]) :
      Outcome history w call (.left left) w'
  | restarted {id : FiberId} {block : Nat} {label : String} {s : FiberState} {w' : World}
      (lawful : (FiberCall.reset id block label).fault? w = none)
      (resettable : s.isResettable = true) (threads : w'.threads = w.threads)
      (changed : FiberTable.Changed w.fibers w'.fibers [⟨id, some s, .init⟩]) :
      Outcome history w (.reset id block label) (.done .null) w'

/-- The stack of each fiber on the links was put away when it last resumed the one before it. -/
def Kept (saved : Table FiberId (List Frame)) (history : List Resumption) :
    FiberId → List FiberId → Prop
  | _, [] => True
  | f, g :: links =>
    (∃ frames, lastResume history f = some ⟨g, f, frames⟩ ∧ saved.get? g = some frames) ∧
      Kept saved history g links

theorem Kept.congr {saved saved' : Table FiberId (List Frame)} {history history' : List Resumption}
    {f : FiberId} {links : List FiberId} (h : Kept saved history f links)
    (last : ∀ id ∈ f :: links, lastResume history' id = lastResume history id)
    (same : ∀ id ∈ links, saved'.get? id = saved.get? id) : Kept saved' history' f links := by
  induction links generalizing f with
  | nil => trivial
  | cons g links ih =>
    obtain ⟨⟨frames, hlast, hstack⟩, rest⟩ := h
    refine ⟨⟨frames, ?_, ?_⟩, ih rest ?_ ?_⟩
    · rw [last f List.mem_cons_self, hlast]
    · rw [same g List.mem_cons_self, hstack]
    · exact fun id hid => last id (List.mem_cons_of_mem _ hid)
    · exact fun id hid => same id (List.mem_cons_of_mem _ hid)

/-- All bodies that wait to be run are blocks of the program. -/
def Scripts (t : FiberTable Body) : Prop :=
  ∀ id r b, t.get? id = some r → r.entry = some b → ∃ block label, b = .script block label

theorem Scripts.modify {t : FiberTable Body} (h : Scripts t) (id : FiberId)
    {f : FiberRecord Body → FiberRecord Body}
    (hf : ∀ r b, (f r).entry = some b → r.entry = some b ∨ ∃ block label, b = .script block label) :
    Scripts (t.modify id f) := by
  intro j r b hr hb
  rw [FiberTable.get?_modify] at hr
  split at hr
  · obtain ⟨q, hq, rfl⟩ := Option.map_eq_some_iff.mp hr
    exact (hf q b hb).elim (h j q b hq) fun script => script
  · exact h j r b hr hb

theorem Scripts.depart {t : FiberTable Body} (h : Scripts t) (c x : FiberId) :
    Scripts (t.depart c x) := by
  refine Scripts.modify (h.modify c ?_) x ?_
  · exact fun _ _ => .inl
  · exact fun _ _ => .inl

theorem Scripts.handedBack {t : FiberTable Body} (h : Scripts t) (c g : FiberId)
    (left : FiberState) : Scripts (t.handedBack c g left) := by
  refine Scripts.modify (Scripts.modify (h.modify c ?_) g ?_) c ?_
  · exact fun _ _ => .inl
  · exact fun _ _ => .inl
  · exact fun _ _ => .inl

theorem Scripts.add {t : FiberTable Body} (h : Scripts t) {q : FiberRecord Body}
    (hq : ∀ b, q.entry = some b → ∃ block label, b = .script block label) :
    Scripts (t.add q).1 := by
  intro id r b hr hb
  change (t.records.put _ _).get? id = some r at hr
  rw [Table.get?_put] at hr
  split at hr
  · obtain rfl := Option.some.inj hr
    exact hq b hb
  · exact h id r b hr hb

theorem Scripts.seen {t : FiberTable Body} (h : Scripts t) (current : Option FiberId) :
    Scripts (t.seen current) := by
  cases current with
  | some c => exact h
  | none => exact h.add nofun

/-- What holds of the world that a run reaches with a history. -/
structure Invariant (history : List Resumption) (links : List FiberId) (w : World) : Prop where
  thread : w.HasThread
  orderly : w.fibers.Orderly w.thread.current links
  kept : Kept w.saved history w.runner links
  scripts : Scripts w.fibers

theorem runner_congr {w w' : World} (lastId : w'.fibers.lastId = w.fibers.lastId)
    (current : w'.thread.current = w.thread.current) : w'.runner = w.runner := by
  unfold World.runner FiberTable.runner
  rw [current]
  cases w.thread.current with
  | some c => rfl
  | none => exact congrArg (fun n => FiberId.mk (n + 1)) lastId

namespace Invariant

variable {history : List Resumption} {links : List FiberId} {w w' : World} {g : FiberId}

theorem of_elsewhere (h : Invariant history links w) (e : Elsewhere w w') :
    Invariant history links w' := by
  have same : ∀ id, w'.fibers.standing id = w.fibers.standing id := by
    intro id
    have core := congrArg (Option.map FiberRecord.standing) (e.fibers id)
    rwa [Option.map_map, Option.map_map] at core
  refine ⟨e.thread, ?_, ?_, ?_⟩
  · rw [e.current]
    exact h.orderly.of_same same e.lastId
  · rw [e.saved, runner_congr e.lastId e.current]
    exact h.kept
  · intro id r b hr hb
    have core := e.fibers id
    rw [hr, Option.map_some] at core
    obtain ⟨q, hq, hqr⟩ := Option.map_eq_some_iff.mp core.symm
    have entry := congrArg FiberRecord.entry hqr
    exact h.scripts id q b hq (entry.trans hb)

theorem of_untouched (h : Invariant history links w) (e : Untouched w w') :
    Invariant history links w' := by
  refine h.of_elsewhere
    ⟨fun id => by rw [e.fibers], by rw [e.fibers], e.saved, ?_, by rw [e.thread]⟩
  unfold World.HasThread
  rw [e.threads, e.running]
  exact h.thread

theorem pushed (h : Invariant history links w) (f : Frame) :
    Invariant history links (w.pushed f) := by
  obtain ⟨has, thread⟩ := pushed_thread h.thread f
  exact h.of_elsewhere ⟨fun _ => rfl, rfl, rfl, has, by rw [thread]⟩

theorem entered (h : Invariant history links w) (id : FiberId) :
    Invariant history links (w.entered id) where
  thread := h.thread
  orderly := h.orderly.of_same (FiberTable.standing_takeEntry _ _) rfl
  kept := by
    have runner : (w.entered id).runner = w.runner := runner_congr rfl rfl
    rw [runner]
    exact h.kept
  scripts := h.scripts.modify id fun _ _ hb => nomatch hb

theorem create (h : Invariant history links w) (block : Nat) (label : String) (stack : Nat)
    (inScheduler : Bool) :
    Invariant history links (w.withFiber (.script block label) stack inScheduler) where
  thread := h.thread
  orderly := h.orderly.create _ _ _
  kept := by
    rcases h.orderly.cases with ⟨_, rfl, _⟩ | ⟨c, current, ordered⟩
    · trivial
    · have runner : (w.withFiber (.script block label) stack inScheduler).runner = w.runner := by
        change FiberTable.runner _ w.thread.current = FiberTable.runner _ w.thread.current
        rw [current]
        rfl
      rw [runner]
      refine h.kept.congr (fun _ _ => rfl) fun id hid => ?_
      have new := ordered.fresh_not_mem (Nat.lt_succ_self _)
      change (w.saved.put ⟨w.fibers.lastId + 1⟩ _).get? id = _
      rw [Table.get?_put, if_neg]
      rintro rfl
      exact new (List.mem_cons_of_mem _ hid)
  scripts := h.scripts.add fun b hb => ⟨block, label, (Option.some.inj hb).symm⟩

theorem resumed (h : Invariant history links w) {x : FiberId} {s : Standing}
    (hs : w.fibers.standing x = some s) (rest : s.Resting) (off : x ∉ w.runner :: links) :
    Invariant (⟨w.runner, x, w.thread.frames⟩ :: history) (w.runner :: links)
      (w.followed ⟨(w.fibers.seen w.thread.current).depart w.runner x, w.runner, x, none⟩) := by
  obtain ⟨has, current, _⟩ := followed_thread h.thread
    ⟨(w.fibers.seen w.thread.current).depart w.runner x, w.runner, x, none⟩
  have hne : x ≠ w.runner := fun e => off (e ▸ List.mem_cons_self)
  refine ⟨has, ?_, ?_, ?_⟩
  · rw [current]
    exact h.orderly.resume_step hs rest off
  · rw [followed_runner h.thread]
    have earlier : ∀ id, id ≠ x →
        lastResume (⟨w.runner, x, w.thread.frames⟩ :: history) id = lastResume history id :=
      fun id hid => List.find?_cons_of_neg (by simpa using Ne.symm hid)
    have put : ∀ id, id ≠ x →
        ((w.saved.put w.runner w.thread.frames).erase x).get? id =
          if id = w.runner then some w.thread.frames else w.saved.get? id := by
      intro id hid
      rw [Table.get?_erase, if_neg hid, Table.get?_put]
    refine ⟨⟨w.thread.frames, List.find?_cons_of_pos (by simp), ?_⟩, ?_⟩
    · exact (put _ hne.symm).trans (if_pos rfl)
    · refine h.kept.congr (fun id hid => earlier id fun e => off (e ▸ hid)) fun id hid => ?_
      refine (put id fun e => off (e ▸ List.mem_cons_of_mem _ hid)).trans (if_neg ?_)
      rintro rfl
      exact (List.nodup_cons.mp h.orderly.seen.nodup).1 hid
  · exact (h.scripts.seen _).depart _ _

theorem ordered (h : Invariant history (g :: links) w) :
    w.fibers.Ordered w.runner (g :: links) := by
  rcases h.orderly.cases with ⟨_, e, _⟩ | ⟨c, e, ordered⟩
  · cases e
  · rwa [World.runner, e]

theorem handedBack (h : Invariant history (g :: links) w) {left : FiberState}
    (hleft : left ≠ .exec) :
    Invariant history links
      (w.followed ⟨w.fibers.handedBack w.runner g left, w.runner, g, some left⟩) := by
  obtain ⟨has, current, _⟩ := followed_thread h.thread
    ⟨w.fibers.handedBack w.runner g left, w.runner, g, some left⟩
  obtain ⟨off, nodup⟩ := List.nodup_cons.mp h.ordered.nodup
  refine ⟨has, ?_, ?_, ?_⟩
  · rw [current]
    exact h.ordered.handedBack hleft
  · rw [followed_runner h.thread]
    refine h.kept.2.congr (fun _ _ => rfl) fun id hid => ?_
    have hg : id ≠ g := by
      rintro rfl
      exact (List.nodup_cons.mp nodup).1 hid
    have hc : id ≠ w.runner := fun e => off (e ▸ List.mem_cons_of_mem _ hid)
    change ((w.saved.put w.runner _).erase g).get? id = _
    rw [Table.get?_erase, if_neg hg, Table.get?_put, if_neg hc]
  · exact h.scripts.handedBack _ _ _

theorem restarted (h : Invariant history links w) {id : FiberId} {s : Standing}
    (hs : w.fibers.standing id = some s) (state : s.state.isResettable = true) (block : Nat)
    (label : String) : Invariant history links (w.restarted id (.script block label)) where
  thread := h.thread
  orderly := h.orderly.restarted _ hs state
  kept := by
    have runner : (w.restarted id (.script block label)).runner = w.runner := runner_congr rfl rfl
    have off := (h.orderly.seen.resting_of_resettable (h.orderly.standing_seen hs) state).1
    rw [runner]
    refine h.kept.congr (fun _ _ => rfl) fun j hj => ?_
    change (w.saved.put id _).get? j = _
    rw [Table.get?_put, if_neg fun e : j = id => off (e ▸ List.mem_cons_of_mem _ hj)]
  scripts := h.scripts.modify _ fun _ _ hb => .inr ⟨block, label, (Option.some.inj hb).symm⟩

end Invariant

section Steps

variable {history : List Resumption} {links : List FiberId} {w : World} {g : FiberId}

/-- A call keeps the invariant and has one of the outcomes. -/
def Behaves (history : List Resumption) (w : World) (call : FiberCall) : Prop :=
  (∃ links, Invariant (call.noted w ++ history) links (w.perform call.act).2) ∧
    Outcome history w call (w.perform call.act).1 (w.perform call.act).2

theorem behaves_of_rejected (h : Invariant history links w) {call : FiberCall} {v : Violation}
    {w' : World} (fault : call.fault? w = some v) (noted : call.noted w = [])
    (ended : call.act.on w = (.error (.panic (.violation v)), w')) (quiet : Quiet w w') :
    Behaves history w call := by
  rw [Behaves, perform_of_panic ended, noted]
  exact ⟨⟨links, h.of_untouched quiet.untouched⟩, .rejected fault quiet.untouched⟩

theorem create_behaves (h : Invariant history links w) (block : Nat) (label : String) (size : Nat)
    (inScheduler : Bool) : Behaves history w (.create block label size inScheduler) := by
  have inv : Invariant history links { w with kernel := (w.kernel.mapStack size).1 } :=
    h.of_untouched ⟨rfl, rfl, rfl, rfl⟩
  have free : Body.handles (.script block label) = [] := rfl
  rcases makeFiber_on free size inScheduler w with
    ⟨e, w', ended, quiet⟩ | ⟨stack, w', ended, quiet⟩
  · have done : (FiberCall.create block label size inScheduler).act.on w =
        (.error (.failure (.fault e)), w') := Act.on_bind_ok ended
    have same : Untouched w w' := by
      have u := quiet.untouched
      exact ⟨u.fibers, u.saved, u.threads, u.running⟩
    rw [Behaves, perform_of_failure done]
    exact ⟨⟨links, inv.of_untouched quiet.untouched⟩, .unmade same⟩
  · have done : (FiberCall.create block label size inScheduler).act.on w =
        (.ok (.done (.nat (w.fibers.lastId + 1))), w') := Act.on_bind_ok ended
    rw [Behaves, perform_of_ok done]
    refine ⟨⟨links, (inv.create _ _ _ _).of_untouched quiet.untouched⟩, ?_⟩
    refine .made quiet.untouched.threads ?_
    rw [quiet.untouched.fibers]
    exact .create (fun _ _ => h.orderly.numbered) _ _ _

theorem resume_behaves (h : Invariant history links w) {target : FiberId}
    (allowed : (FiberCall.resume target).Allowed w) :
    Behaves history w (.resume target) := by
  have act : (FiberCall.resume target).act.on w =
      (followOr (w.fibers.resume w.thread.current target w.currentScheduler.isSome)).on w :=
    resume_on target w
  cases hr : w.fibers.resume w.thread.current target w.currentScheduler.isSome with
  | error v =>
    have fault : (FiberCall.resume target).fault? w = some v := by rw [FiberCall.fault?, hr]
    obtain ⟨w', ended, quiet⟩ := violate_quiet (α := Signal) v w
    rw [hr] at act
    exact behaves_of_rejected h fault (by simp [FiberCall.noted, fault]) (act.trans ended) quiet
  | ok tr =>
    have lawful : (FiberCall.resume target).fault? w = none := by rw [FiberCall.fault?, hr]
    obtain ⟨rfl, s, hs, state, rest, off⟩ := h.orderly.of_resume_ok hr fun s hs => by
      obtain ⟨r, hr, rfl⟩ := FiberTable.get?_of_standing hs
      exact allowed lawful r hr
    rw [hr] at act
    have noted : (FiberCall.resume target).noted w = [⟨w.runner, target, w.thread.frames⟩] := by
      rw [FiberCall.noted, if_pos lawful]
    rw [Behaves, perform_of_ok (act.trans (follow_on _ w)), noted]
    refine ⟨⟨_, h.resumed hs rest off⟩, ?_⟩
    refine .resumed lawful state (followed_thread h.thread _).2.1 ?_
    exact .depart h.orderly.seen (h.orderly.standing_seen hs) fun e => off (e ▸ List.mem_cons_self)

/-- The running fiber hands control back, to where its resumer stopped. -/
theorem handedBack_outcome {call : FiberCall} {left : FiberState} (lawful : call.fault? w = none)
    (leaves : call.leaves? w = some left) {u : World} (inv : Invariant history (g :: links) u)
    (same : ∀ id, u.fibers.standing id = w.fibers.standing id) (runner : u.runner = w.runner) :
    Outcome history w call (.left left)
      (u.followed ⟨u.fibers.handedBack u.runner g left, u.runner, g, some left⟩) := by
  obtain ⟨_, current, frames⟩ := followed_thread inv.thread
    ⟨u.fibers.handedBack u.runner g left, u.runner, g, some left⟩
  obtain ⟨past, last, stack⟩ := inv.kept.1
  refine .handedBack lawful leaves (runner ▸ last) current ?_ ?_
  · rw [frames, stack]
    rfl
  · rw [← runner]
    exact (FiberTable.Changed.handedBack inv.ordered left).from_same same

/-- A fiber that is running was resumed, and can hand back. -/
theorem of_inFiber (h : Invariant history links w) (inFiber : w.inFiber = true) :
    ∃ g rest, links = g :: rest := by
  obtain ⟨_, g, rest, _, e⟩ := h.orderly.inFiber_iff.mp inFiber
  exact ⟨g, rest, e⟩

/-- A call that leaves the running fiber, by way of a world that differs in nothing that the order
depends on. -/
theorem behaves_of_left {call : FiberCall} (left : FiberState) (hleft : left ≠ .exec)
    (lawful : call.fault? w = none) (noted : call.noted w = [])
    (leaves : call.leaves? w = some left) {u : World} (inv : Invariant history (g :: links) u)
    (same : ∀ id, u.fibers.standing id = w.fibers.standing id) (runner : u.runner = w.runner)
    (ended : call.act.on w = (.ok (.left left),
      u.followed ⟨u.fibers.handedBack u.runner g left, u.runner, g, some left⟩)) :
    Behaves history w call := by
  rw [Behaves, perform_of_ok ended, noted]
  exact ⟨⟨links, inv.handedBack hleft⟩, handedBack_outcome lawful leaves inv same runner⟩

theorem yield_behaves (h : Invariant history links w) {call : FiberCall} (left : FiberState)
    (hleft : left ≠ .exec) (act : call.act = yieldTo left) (noted : call.noted w = [])
    (leaves : call.leaves? w = some left)
    (fault : call.fault? w = if w.inFiber then none else some .yieldOutsideFiber) :
    Behaves history w call := by
  by_cases inFiber : w.inFiber = true
  · obtain ⟨c, g, rest, current, rfl⟩ := h.orderly.inFiber_iff.mp inFiber
    rw [if_pos inFiber] at fault
    refine behaves_of_left left hleft fault noted leaves h (fun _ => rfl) rfl ?_
    have runner : w.runner = c := by rw [World.runner, current]; rfl
    have ok := h.ordered.handBack_ok left
    have yields : w.fibers.yield w.thread.current left =
        .ok ⟨w.fibers.handedBack w.runner g left, w.runner, g, some left⟩ := by
      have inside : w.fibers.inFiber (some c) = true := current ▸ inFiber
      rw [current, FiberTable.yield, if_pos inside, ← runner, ok]
    rw [act, yieldTo_on, yields]
    exact follow_on _ w
  · rw [if_neg inFiber] at fault
    obtain ⟨w', ended, quiet⟩ := violate_quiet (α := Signal) .yieldOutsideFiber w
    refine behaves_of_rejected h fault noted ?_ quiet
    have yields : w.fibers.yield w.thread.current left = .error .yieldOutsideFiber := by
      unfold FiberTable.yield
      split
      · rfl
      · next c hc =>
        rw [if_neg]
        rwa [← hc]
    rw [act, yieldTo_on, yields]
    exact ended

theorem returns_behaves (h : Invariant history links w) (inFiber : w.inFiber = true) :
    Behaves history w .returns := by
  obtain ⟨g, rest, rfl⟩ := of_inFiber h inFiber
  have runner : (w.pushed .fiberEnd).runner = w.runner :=
    runner_congr rfl (by rw [(pushed_thread h.thread _).2])
  refine behaves_of_left .term nofun rfl rfl rfl (h.pushed .fiberEnd) (fun _ => rfl)
    runner ?_
  rw [runner]
  exact (Act.on_bind_get _ w).trans (finish_on (h.ordered.handBack_ok .term))

theorem panics_behaves (h : Invariant history links w) (inFiber : w.inFiber = true) {p : Panic}
    (lawful : ∀ v, p ≠ .violation v) : Behaves history w (.panics p) := by
  obtain ⟨g, rest, rfl⟩ := of_inFiber h inFiber
  obtain ⟨v, ended, quiet⟩ := finishPanicked_on lawful (h.ordered.handBack_ok .except)
  have inv := (h.of_untouched quiet.untouched).pushed .fiberEnd
  have fibers : v.fibers = w.fibers := quiet.untouched.fibers
  have thread := (pushed_thread (h.of_untouched quiet.untouched).thread .fiberEnd).2
  have runner : (v.pushed .fiberEnd).runner = w.runner :=
    runner_congr (congrArg _ fibers) (by rw [thread, quiet.untouched.thread])
  refine behaves_of_left .except nofun rfl rfl rfl inv
    (fun _ => congrArg (FiberTable.standing · _) fibers) runner ?_
  rw [runner, show (v.pushed .fiberEnd).fibers = w.fibers from fibers]
  exact (Act.on_bind_get _ w).trans ended

theorem enter_behaves (h : Invariant history links w) (inFiber : w.inFiber = true) :
    Behaves history w .enter := by
  obtain ⟨g, rest, rfl⟩ := of_inFiber h inFiber
  have same := FiberTable.standing_takeEntry w.fibers w.runner
  have inv := h.entered w.runner
  have act : FiberCall.enter.act.on w = (startFiber w.runner).on w := Act.on_bind_get _ w
  cases entry : (w.fibers.takeEntry w.runner).2 with
  | none =>
    have thread := (pushed_thread inv.thread .fiberEnd).2
    have runner : ((w.entered w.runner).pushed .fiberEnd).runner = w.runner :=
      runner_congr rfl (by rw [thread]; rfl)
    have leaves : FiberCall.enter.leaves? w = some .term := by rw [FiberCall.leaves?, entry]
    refine behaves_of_left .term nofun rfl rfl leaves (inv.pushed .fiberEnd) same runner ?_
    have ordered : (w.entered w.runner).fibers.Ordered w.runner (g :: rest) :=
      h.ordered.of_same same rfl
    rw [runner, act, startFiber_empty entry (ordered.handBack_ok .term)]
    rfl
  | some body =>
    obtain ⟨block, label, rfl⟩ : ∃ block label, body = .script block label := by
      change (w.fibers.get? w.runner).bind (·.entry) = some body at entry
      obtain ⟨r, hr, hb⟩ := Option.bind_eq_some_iff.mp entry
      exact h.scripts _ r body hr hb
    have lasts : FiberCall.enter.leaves? w = none := by rw [FiberCall.leaves?, entry]
    have begun := (inv.pushed (.fiberBody w.runner)).pushed (.steps (w.program.block block) label)
    rw [Behaves, perform_of_ok (act.trans (startFiber_on entry))]
    refine ⟨⟨_, begun⟩, .begun lasts ?_ (.of_same same)⟩
    rw [(pushed_thread (inv.pushed _).thread _).2, (pushed_thread inv.thread _).2]
    rfl

theorem reset_behaves (h : Invariant history links w) (id : FiberId) (block : Nat)
    (label : String) : Behaves history w (.reset id block label) := by
  cases hr : w.fibers.reset id (.script block label) with
  | error v =>
    have fault : (FiberCall.reset id block label).fault? w = some v := by
      unfold FiberTable.reset at hr
      split at hr
      · next v' hv =>
        rw [FiberCall.fault?, hv, Except.error.inj hr]
      · cases hr
    obtain ⟨w', ended, quiet⟩ := resetFiber_error hr rfl
    exact behaves_of_rejected h fault rfl (Act.on_bind_error ended) quiet
  | ok fibers =>
    have lawful : (FiberCall.reset id block label).fault? w = none := by
      unfold FiberTable.reset at hr
      split at hr
      · cases hr
      · next hv => exact hv
    obtain ⟨_, s, hs, state, _⟩ := FiberTable.of_reset_ok hr
    have done : (FiberCall.reset id block label).act.on w =
        (.ok (.done .null), w.restarted id (.script block label)) := by
      refine Act.on_bind_ok (resetFiber_on hr fun r b hr hb => ?_)
      obtain ⟨_, _, rfl⟩ := h.scripts id r b hr hb
      rfl
    rw [Behaves, perform_of_ok done]
    exact ⟨⟨links, h.restarted hs state block label⟩, .restarted lawful state rfl (.restarted hs _)⟩

/-- Every call keeps the invariant and has one of the outcomes. -/
theorem call_behaves (h : Invariant history links w) {call : FiberCall} (allowed : call.Allowed w) :
    Behaves history w call := by
  cases call with
  | create block label size inScheduler => exact create_behaves h block label size inScheduler
  | resume target => exact resume_behaves h allowed
  | yieldToHold => exact yield_behaves h .hold nofun rfl rfl rfl rfl
  | yieldToReady => exact yield_behaves h .ready nofun rfl rfl rfl rfl
  | enter => exact enter_behaves h allowed
  | returns => exact returns_behaves h allowed
  | panics p => exact panics_behaves h allowed.1 allowed.2
  | reset id block label => exact reset_behaves h id block label

end Steps

theorem Unused.invariant {w : World} (h : Unused w) : Invariant [] [] w where
  thread := h.thread
  orderly := by
    rw [h.current, h.fibers]
    exact ⟨⟨nofun, nofun⟩, rfl⟩
  kept := trivial
  scripts := by
    rw [h.fibers]
    intro id r b hr _
    have none : (FiberTable.empty : FiberTable Body).get? id = none := rfl
    rw [none] at hr
    cases hr

theorem Reaches.invariant {start w : World} {history : List Resumption} (unused : Unused start)
    (run : Reaches start history w) : ∃ links, Invariant history links w := by
  induction run with
  | start => exact ⟨[], unused.invariant⟩
  | elsewhere _ h ih =>
    obtain ⟨links, inv⟩ := ih
    exact ⟨links, inv.of_elsewhere h⟩
  | call _ _ allowed ih =>
    obtain ⟨links, inv⟩ := ih
    exact (call_behaves inv allowed).1

theorem Invariant.inOrder {w : World} {history : List Resumption} {links : List FiberId}
    (h : Invariant history links w) : InOrder w where
  sole _ := h.orderly.seen.state_eq_exec_iff
  chain := ⟨links, h.orderly.seen.waits, h.orderly.seen.nodup,
    fun id s hs off => h.orderly.seen.apart id s (h.orderly.standing_seen hs) off⟩

/-- On a thread that starts without fibers, whatever calls it makes, nested however deep: the fiber
that runs is the only one in execution, those that wait for it lead to the main fiber, all others
are at rest, and every call has the outcome that its name says. -/
theorem fibers_stay_in_order {start w : World} {history : List Resumption} (unused : Unused start)
    (run : Reaches start history w) :
    InOrder w ∧
      ∀ call : FiberCall, call.Allowed w →
        Outcome history w call (w.perform call.act).1 (w.perform call.act).2 := by
  obtain ⟨links, inv⟩ := run.invariant unused
  exact ⟨inv.inOrder, fun _ allowed => (call_behaves inv allowed).2⟩

/-- A thread before it uses fibers. -/
def bareWorld : World := .start ⟨#[]⟩ .frozen .empty .fresh false none "main"

theorem bareWorld_unused : Unused bareWorld := ⟨rfl, ⟨_, rfl⟩, rfl⟩

/-- A fiber is refused a reset of itself and resumes a second one, whose body panics: control is
back in the first one, which may hand back to the main fiber. -/
theorem nested_panic_stays_in_order :
    ∃ history w, Reaches bareWorld history w ∧ w.thread.current = some ⟨1⟩ ∧
      w.fibers.state ⟨2⟩ = .except ∧ InOrder w ∧
      Outcome history w .yieldToReady (w.perform FiberCall.yieldToReady.act).1
        (w.perform FiberCall.yieldToReady.act).2 := by
  have made := ((Reaches.start : Reaches bareWorld [] bareWorld).call
    (.create 0 "outer" 16384 false) trivial).call (.create 0 "inner" 16384 false) trivial
  have outer := ((made.call (.resume ⟨1⟩) fun _ r hr => by cases hr; rfl).call .enter rfl).call
    (.reset ⟨1⟩ 0 "again") trivial
  have inner := ((outer.call (.resume ⟨2⟩) fun _ r hr => by cases hr; rfl).call .enter rfl).call
    (.panics (.text "broken")) ⟨rfl, nofun⟩
  obtain ⟨inOrder, outcome⟩ := fibers_stay_in_order bareWorld_unused inner
  exact ⟨_, _, inner, rfl, rfl, inOrder, outcome .yieldToReady trivial⟩

end Fibers.Script
