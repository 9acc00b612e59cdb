import Fibers.Proofs.Scheduler.Holding

/-!
Fibers that are suspended and go on later. `Rests` says with what such a fiber goes on: with the
frames that were put away for it, and with its body if it has not begun. To resume one fiber, or to
leave it, changes nothing for another one that is suspended, nor for one that somebody waits for.
-/

namespace Fibers

namespace FiberTable

variable {β : Type} {t : FiberTable β} {current : Option FiberId} {f : FiberId} {r : FiberRecord β}

/-- A fiber that is suspended is resumed where there is a scheduler. -/
theorem resume_of_resumable (hr : t.get? f = some r) (resumable : r.state.isResumable = true)
    (own : r.isMain = false) (other : current ≠ some f) :
    t.resume current f true =
      .ok (((t.currentOrMain current).1.depart (t.currentOrMain current).2 f).transfer
        (t.currentOrMain current).2 f) := by
  have lawful : t.resumeFault? f true = none := by
    rw [resumeFault?, hr]
    dsimp only
    rw [resumable, own, Bool.not_true, Bool.and_false]
    rfl
  rw [resume, lawful]
  dsimp only
  rw [if_neg other]

theorem handBack_of_resumer {g : FiberId} (hr : t.get? f = some r) (called : r.resumer = some g)
    (left : FiberState) : ∃ tr, t.handBack f left = .ok tr := by
  rw [handBack, hr, Option.bind_some, called]
  exact ⟨_, rfl⟩

end FiberTable

namespace Script

variable {w w' v : World} {s : SchedulerId} {f g : FiberId} {st : FiberState}

/-- What a suspended fiber goes on with. -/
structure Rest where
  frames : List Frame
  /-- Its body, if it has not begun. -/
  entry : Option Body

/-- The fiber is in a state, and not inside a resume. -/
structure World.Rests (w : World) (f : FiberId) (state : FiberState) (x : Rest) : Prop where
  record : ∃ r, w.fibers.get? f = some r ∧ r.state = state ∧ r.awaiting = none ∧
    r.isMain = false ∧ r.entry = x.entry
  frames : (w.saved.get? f).getD [] = x.frames

/-- Somebody waits for the fiber. -/
def World.InHand (w : World) (f : FiberId) : Prop :=
  ∃ r, w.fibers.get? f = some r ∧ r.resumer ≠ none ∧ r.isMain = false

variable {x : Rest}

/-- A fiber that was there and has gone. -/
def World.Gone (w : World) (f : FiberId) : Prop :=
  f.val ≤ w.fibers.lastId ∧ w.fibers.get? f = none

/-- No fiber comes back that has gone. -/
structure Ages (w w' : World) : Prop where
  lastId : w.fibers.lastId ≤ w'.fibers.lastId
  gone : ∀ f, w.Gone f → w'.fibers.get? f = none

theorem Ages.of_fibers (fibers : w'.fibers = w.fibers) : Ages w w' := by
  refine ⟨Nat.le_of_eq (by rw [fibers]), fun f gone => ?_⟩
  rw [fibers]
  exact gone.2

theorem Ages.trans (h : Ages w v) (k : Ages v w') : Ages w w' where
  lastId := Nat.le_trans h.lastId k.lastId
  gone f gone := k.gone f ⟨Nat.le_trans gone.1 h.lastId, h.gone f gone⟩

/-- Nothing becomes of the fiber but that there are more or fewer handles of it. -/
structure Intact (f : FiberId) (w w' : World) : Prop where
  record : ∀ r, w.fibers.get? f = some r → ∃ n, w'.fibers.get? f = some { r with handles := n }
  saved : w.fibers.get? f ≠ none → w'.saved.get? f = w.saved.get? f

namespace Intact

theorem trans (h : Intact f w v) (k : Intact f v w') : Intact f w w' where
  record r hr := by
    obtain ⟨m, hm⟩ := h.record r hr
    obtain ⟨n, hn⟩ := k.record _ hm
    exact ⟨n, hn⟩
  saved there := by
    obtain ⟨r, hr⟩ := Option.ne_none_iff_exists'.mp there
    obtain ⟨m, hm⟩ := h.record r hr
    exact (k.saved (by rw [hm]; exact Option.some_ne_none _)).trans (h.saved there)

theorem of_same (fibers : w'.fibers = w.fibers) (saved : w'.saved = w.saved) : Intact f w w' where
  record r hr := ⟨r.handles, by rw [fibers, hr]⟩
  saved _ := by rw [saved]

theorem untouched (h : Untouched w w') : Intact f w w' := .of_same h.fibers h.saved

/-- Handles of other fibers were let go of, or of this one and there are some left. -/
theorem lets {ids : List FiberId} (h : Lets ids w w')
    (left : ∀ r, w.fibers.get? f = some r → ids.count f = 0 ∨ ids.count f < r.handles) :
    Intact f w w' := by
  have there : ∀ r, w.fibers.get? f = some r →
      w'.fibers.get? f = some { r with handles := r.handles - ids.count f } := by
    intro r hr
    rw [h.fibers, hr, Option.bind_some, FiberRecord.lessen, if_pos (left r hr)]
  refine ⟨fun r hr => ⟨_, there r hr⟩, fun known => h.saved f ?_⟩
  obtain ⟨r, hr⟩ := Option.ne_none_iff_exists'.mp known
  rw [there r hr]
  exact Option.some_ne_none _

end Intact

theorem World.Rests.there (h : w.Rests f st x) : w.fibers.get? f ≠ none := by
  obtain ⟨r, hr, _⟩ := h.record
  rw [hr]
  exact Option.some_ne_none _

theorem World.Rests.spared (h : w.Rests f st x) (intact : Intact f w w') :
    w'.Rests f st x where
  record := by
    obtain ⟨r, hr, known⟩ := h.record
    obtain ⟨n, hn⟩ := intact.record r hr
    exact ⟨_, hn, known⟩
  frames := by
    rw [intact.saved h.there]
    exact h.frames

theorem World.InHand.spared (h : w.InHand f) (intact : Intact f w w') : w'.InHand f := by
  obtain ⟨r, hr, known⟩ := h
  obtain ⟨n, hn⟩ := intact.record r hr
  exact ⟨_, hn, known⟩

/-- Control came to the fiber `f` or left it, and nothing became of the fibers that are suspended;
who waits for a fiber waits still. -/
structure Visits (f : FiberId) (w w' : World) : Prop where
  on : Onward w w'
  ages : Ages w w'
  schedulers : w'.schedulers = w.schedulers
  intact : ∀ g state x, g ≠ f → w.Rests g state x → state ≠ .exec → Intact g w w'
  inHand : ∀ g, g ≠ f → w.InHand g → w'.InHand g

namespace Visits

/-- Nothing becomes of any fiber, before that. -/
theorem after (on : Onward w v) (fibers : v.fibers = w.fibers)
    (schedulers : v.schedulers = w.schedulers) (intact : ∀ g, Intact g w v) (h : Visits f v w') :
    Visits f w w' where
  on := on.trans h.on
  ages := (Ages.of_fibers fibers).trans h.ages
  schedulers := h.schedulers.trans schedulers
  intact g state x other rests still :=
    (intact g).trans (h.intact g state x other (rests.spared (intact g)) still)
  inHand g other hand := h.inHand g other (hand.spared (intact g))

/-- The records that remain as they are, or are those of a fiber that waits for another one. -/
theorem of_records (on : Onward w w') (ages : Ages w w') (schedulers : w'.schedulers = w.schedulers)
    (records : ∀ g r, g ≠ f → w.fibers.get? g = some r → ∃ r', w'.fibers.get? g = some r' ∧
      r'.resumer = r.resumer ∧ r'.isMain = r.isMain ∧
      (r.state ≠ .exec → r.awaiting = none → r' = r ∧ w'.saved.get? g = w.saved.get? g)) :
    Visits f w w' where
  on := on
  ages := ages
  schedulers := schedulers
  intact g state x other rests still := by
    obtain ⟨r, hr, rfl, unwaiting, _⟩ := rests.record
    obtain ⟨r', hr', _, _, same⟩ := records g r other hr
    obtain ⟨rfl, saved⟩ := same still unwaiting
    refine ⟨fun q hq => ⟨q.handles, ?_⟩, fun _ => saved⟩
    obtain rfl := Option.some.inj (hr.symm.trans hq)
    exact hr'
  inHand g other hand := by
    obtain ⟨r, hr, called, own⟩ := hand
    obtain ⟨r', hr', resumer, main, _⟩ := records g r other hr
    exact ⟨r', hr', by rw [resumer]; exact called, main.trans own⟩

end Visits

/-- The thread is on the fiber `c`, be it a main one that it only just got. The fibers that there
were are in the table `t` as they were. -/
structure Boarded (w : World) (t : FiberTable Body) (c : FiberId) : Prop where
  seen : w.fibers.currentOrMain w.thread.current = (t, c)
  kept : ∀ j q, w.fibers.get? j = some q → t.get? j = some q
  off : ∀ j q, w.fibers.get? j = some q → q.state ≠ .exec → j ≠ c
  lastId : w.fibers.lastId ≤ t.lastId
  gone : ∀ j, w.Gone j → t.get? j = none

theorem World.Fit.boards (h : w.Fit) : ∃ t c, Boarded w t c := by
  cases here : w.thread.current with
  | some c =>
    refine ⟨w.fibers, c, by rw [here]; rfl, fun _ _ hq => hq, fun j q hq off => ?_,
      Nat.le_refl _, fun j gone => gone.2⟩
    rintro rfl
    obtain ⟨p, hp, exec, _⟩ := h.staffed.running _ j (h.thread.aboard.trans here)
    obtain rfl := Option.some.inj (hp.symm.trans (congrArg (Option.map _) hq))
    exact off exec
  | none =>
    have new : ∀ j q, w.fibers.get? j = some q → j ≠ ⟨w.fibers.lastId + 1⟩ := by
      rintro j q hq rfl
      have numbered := h.staffed.numbered _ q.standing (congrArg (Option.map _) hq)
      exact absurd numbered (Nat.not_succ_le_self _)
    refine ⟨w.fibers.createMain.1, w.fibers.createMain.2, by rw [here]; rfl, fun j q hq => ?_,
      fun j q hq _ => new j q hq, Nat.le_succ _, fun j gone => ?_⟩
    · change (w.fibers.records.put _ _).get? j = _
      rw [Table.get?_put, if_neg (new j q hq)]
      exact hq
    · have old : j ≠ ⟨w.fibers.lastId + 1⟩ := by
        rintro rfl
        exact absurd gone.1 (Nat.not_succ_le_self _)
      change (w.fibers.records.put _ _).get? j = _
      rw [Table.get?_put, if_neg old]
      exact gone.2

/-- A suspended fiber goes on with what it has to go on with. -/
theorem resume_rests (h : w.Fit) (rests : w.Rests f st x) (resumable : st.isResumable = true)
    (serves : w.currentScheduler.isSome = true) :
    ∃ w', (resume f).on w = (.ok (.done .null), w') ∧ Visits f w w' ∧ w'.InHand f ∧
      w'.thread.current = some f ∧ w'.thread.frames = x.frames ∧
      (w'.fibers.get? f).bind (·.entry) = x.entry := by
  obtain ⟨r, hr, rfl, unwaiting, own, entry⟩ := rests.record
  have still : r.state ≠ .exec := fun e => by rw [e] at resumable; cases resumable
  have known : w.fibers.standing f = some r.standing := congrArg (Option.map _) hr
  have other : w.thread.current ≠ some f := by
    intro here
    obtain ⟨q, hq, exec, _⟩ := h.staffed.running _ f (h.thread.aboard.trans here)
    obtain rfl := Option.some.inj (known.symm.trans hq)
    exact still exec
  have accepted := FiberTable.resume_of_resumable hr resumable own other
  obtain ⟨t, c, boarded⟩ := h.boards
  have hf : f ≠ c := boarded.off f r hr still
  rw [boarded.seen] at accepted
  have records := FiberTable.get?_depart t hf
  have target : (t.depart c f).get? f = some { r with state := .exec, resumer := some c } := by
    rw [records, if_pos rfl, boarded.kept f r hr]
    rfl
  have moved : (t.depart c f).transfer c f = ⟨t.depart c f, c, f, none⟩ :=
    FiberTable.transfer_of_standing c (congrArg (Option.map _) target) unwaiting
  let tr : FiberTable.Transfer Body := ⟨t.depart c f, c, f, none⟩
  have done : (resume f).on w = (.ok (.done .null), w.followed tr) := by
    rw [resume_on, serves, accepted, moved]
    exact follow_on tr w
  have free : w.fibers.Approachable w.thread.current f := by
    intro _ _ _ q hq
    obtain rfl := Option.some.inj (hr.symm.trans hq)
    exact unwaiting
  obtain ⟨_, current, frames⟩ := followed_thread h.thread tr
  have ages : Ages w (w.followed tr) := by
    refine ⟨boarded.lastId, fun j lost => ?_⟩
    change (t.depart c f).get? j = none
    rw [records, boarded.gone j lost]
    simp
  refine ⟨w.followed tr, done, .of_records ?_ ages rfl fun g q apart hq => ?_,
    ⟨_, target, Option.some_ne_none _, own⟩, current, ?_, ?_⟩
  · rcases resume_onward h free with ⟨_, _, rejected, _⟩ | ⟨_, went, _, on⟩
    · rw [done] at rejected
      cases rejected
    · rw [done] at went
      obtain ⟨_, same⟩ := Prod.mk.inj went
      rw [same]
      exact on
  · have after := (records g).trans (if_neg apart)
    rw [boarded.kept g q hq] at after
    by_cases caller : g = c
    · rw [if_pos caller] at after
      exact ⟨_, after, rfl, rfl, fun off => absurd caller (boarded.off g q hq off)⟩
    · rw [if_neg caller] at after
      refine ⟨q, after, rfl, rfl, fun _ _ => ⟨rfl, ?_⟩⟩
      change ((w.saved.put c _).erase f).get? g = _
      rw [Table.get?_erase, if_neg apart, Table.get?_put, if_neg caller]
  · rw [frames]
    exact rests.frames
  · change ((t.depart c f).get? f).bind _ = _
    rw [target]
    exact entry

/-- Control goes back to whoever waits for the fiber. -/
theorem handBack_visits (h : w.Fit) (begun : w.Begun) (here : w.thread.current = some f)
    (hand : w.InHand f) (left : FiberState) :
    ∃ tr, w.fibers.handBack f left = .ok tr ∧ tr.told = some left ∧ Visits f w (w.followed tr) ∧
      (w.followed tr).Rests f left ⟨w.thread.frames, none⟩ := by
  obtain ⟨r, hr, called, own⟩ := hand
  obtain ⟨g, called⟩ := Option.ne_none_iff_exists'.mp called
  obtain ⟨tr, ok⟩ := FiberTable.handBack_of_resumer hr called left
  have on := handBack_onward h begun here ok
  have aboard : w.aboard w.running = some f := h.thread.aboard.trans here
  obtain ⟨k, q, y, hq, _, hy, awaits, hne, rfl⟩ := h.staffed.handBack_eq aboard ok
  obtain rfl := Option.some.inj (hr.symm.trans hq)
  have unwaiting : r.awaiting = none := by
    obtain ⟨p, hp, _, unwaiting⟩ := h.staffed.running _ f aboard
    obtain rfl := Option.some.inj (hp.symm.trans (congrArg (Option.map _) hr))
    exact unwaiting
  have records := FiberTable.get?_handedBack w.fibers left hne
  have ages : Ages w (w.followed ⟨w.fibers.handedBack f k left, f, k, some left⟩) := by
    refine ⟨Nat.le_refl _, fun j lost => ?_⟩
    change (w.fibers.handedBack f k left).get? j = none
    rw [records, lost.2]
    simp
  refine ⟨_, ok, rfl, .of_records on ages rfl fun j p apart hp => ?_, ⟨?_, ?_⟩⟩
  · have after := (records j).trans (if_neg apart)
    rw [hp] at after
    by_cases resumer : j = k
    · rw [if_pos resumer] at after
      refine ⟨_, after, rfl, rfl, fun _ free => ?_⟩
      subst resumer
      obtain rfl := Option.some.inj (hy.symm.trans hp)
      exact nomatch awaits.symm.trans free
    · rw [if_neg resumer] at after
      refine ⟨p, after, rfl, rfl, fun _ _ => ⟨rfl, ?_⟩⟩
      change ((w.saved.put f _).erase k).get? j = _
      rw [Table.get?_erase, if_neg resumer, Table.get?_put, if_neg apart]
  · have after := (records f).trans (if_pos rfl)
    rw [hr] at after
    exact ⟨_, after, rfl, unwaiting, own, begun f r here hr⟩
  · change (((w.saved.put f _).erase k).get? f).getD [] = _
    rw [Table.get?_erase, if_neg hne.symm, Table.get?_put_self]
    rfl

theorem Visits.level (h : w.Fit) (level : Level w v) (k : Visits f v w') : Visits f w w' :=
  .after (.even h level.even) level.fibers level.schedulers
    (fun _ => .untouched level.toUntouched) k

theorem Visits.pushed (h : w.Fit) (frame : Frame) (k : Visits f (w.pushed frame) w') :
    Visits f w w' :=
  .after (.pushed h frame) rfl rfl (fun _ => .of_same rfl rfl) k

/-- How a fiber is left. -/
inductive Departure where
  | ready
  | hold
  | returns
  | panics (p : Panic)

namespace Departure

def state : Departure → FiberState
  | ready => .ready
  | hold => .hold
  | returns => .term
  | panics _ => .except

def act (f : FiberId) : Departure → Act Signal
  | ready => yieldTo .ready
  | hold => yieldTo .hold
  | returns => finish f .term
  | panics p => finishPanicked f p

/-- A violation ends the program. -/
def Lawful : Departure → Prop
  | panics p => ∀ v, p ≠ .violation v
  | _ => True

end Departure

theorem yieldTo_visits (h : w.Fit) (begun : w.Begun) (here : w.thread.current = some f)
    (hand : w.InHand f) (left : FiberState) :
    ∃ w', (yieldTo left).on w = (.ok (.left left), w') ∧ Visits f w w' ∧
      w'.Rests f left ⟨w.thread.frames, none⟩ := by
  obtain ⟨tr, ok, told, visits, rests⟩ := handBack_visits h begun here hand left
  obtain ⟨r, hr, _, own⟩ := hand
  have inside : w.fibers.inFiber (some f) = true := by
    rw [FiberTable.inFiber, Option.bind_some, hr]
    dsimp only
    rw [own]
    rfl
  refine ⟨_, ?_, visits, rests⟩
  rw [yieldTo_on, here, FiberTable.yield, if_pos inside, ok]
  exact (follow_on tr w).trans (by rw [told]; rfl)

theorem finish_visits (h : w.Fit) (begun : w.Begun) (here : w.thread.current = some f)
    (hand : w.InHand f) (left : FiberState) :
    ∃ w', (finish f left).on w = (.ok (.left left), w') ∧ Visits f w w' ∧
      ∃ frames, w'.Rests f left ⟨frames, none⟩ := by
  have same := (pushed_thread h.thread .fiberEnd).2
  obtain ⟨tr, ok, told, visits, rests⟩ := handBack_visits (h.pushed .fiberEnd)
    (fun d r hd hr => begun d r (by rw [same] at hd; exact hd) hr)
    (by rw [same]; exact here) (w := w.pushed .fiberEnd) hand left
  have ok : w.fibers.handBack f left = .ok tr := ok
  exact ⟨_, by rw [finish_on ok, told]; rfl, visits.pushed h, _, rests⟩

/-- The fiber is left in the state that it asks for; one that may go on has put away the frames that
it was to go on with. -/
theorem Departure.visits (h : w.Fit) (begun : w.Begun) (here : w.thread.current = some f)
    (hand : w.InHand f) (departure : Departure) (lawful : departure.Lawful) :
    ∃ w', (departure.act f).on w = (.ok (.left departure.state), w') ∧ Visits f w w' ∧
      ∃ frames, w'.Rests f departure.state ⟨frames, none⟩ ∧
        (departure.state.isTerminal = false → frames = w.thread.frames) := by
  cases departure with
  | ready =>
    obtain ⟨w', done, visits, rests⟩ := yieldTo_visits h begun here hand .ready
    exact ⟨w', done, visits, _, rests, fun _ => rfl⟩
  | hold =>
    obtain ⟨w', done, visits, rests⟩ := yieldTo_visits h begun here hand .hold
    exact ⟨w', done, visits, _, rests, fun _ => rfl⟩
  | returns =>
    obtain ⟨w', done, visits, frames, rests⟩ := finish_visits h begun here hand .term
    exact ⟨w', done, visits, frames, rests, fun lasts => Bool.noConfusion lasts⟩
  | panics p =>
    obtain ⟨v, logged, quiet⟩ := log_quiet .error s!"fiber {f.render} panicked: {p.message}" w
    have level := quiet.level
    have thread := level.thread
    obtain ⟨w', done, visits, frames, rests⟩ := finish_visits (h.untouched level.toUntouched)
      (fun d r hd hr => begun d r (thread ▸ hd) (level.fibers ▸ hr)) (thread ▸ here)
      (hand.spared (.untouched level.toUntouched)) .except
    refine ⟨w', ?_, visits.level h level, frames, rests, fun lasts => Bool.noConfusion lasts⟩
    rw [Departure.act]
    unfold finishPanicked
    split
    · next v => exact absurd rfl (lawful v)
    · rw [logError, Act.on_bind_ok logged, done]
      rfl

def World.sharedOf (w : World) (s : SchedulerId) : Option (Shared Body) :=
  (w.schedulers.get? s).map (·.shared)

variable {y : Shared Body}

theorem sharedOf_record (known : w.sharedOf s = some y) :
    ((w.schedulers.get? s).getD default).shared = y := by
  obtain ⟨r, hr, rfl⟩ := Option.map_eq_some_iff.mp known
  rw [hr]
  rfl

theorem sharedOf_modify (w : World) {k : SchedulerRecord → SchedulerRecord}
    (same : ∀ r, (k r).shared = r.shared) (j : SchedulerId) :
    World.sharedOf { w with schedulers := w.schedulers.modify s k } j = w.sharedOf j := by
  unfold World.sharedOf
  dsimp only
  rw [Table.get?_modify]
  split
  · rw [Option.map_map]
    congr 1
    funext r
    exact same r
  · rfl

theorem tickle_shared (s : SchedulerId) (w : World) :
    ∃ w', (tickle s).on w = (.ok (), w') ∧ Untouched w w' ∧
      ∀ j, w'.sharedOf j = w.sharedOf j := by
  rw [tickle, Act.on_bind_ok (schedulerRecord_on s w)]
  split
  · exact ⟨_, updateScheduler_on s _ w, ⟨rfl, rfl, rfl, rfl⟩, sharedOf_modify w fun _ => rfl⟩
  · exact ⟨_, updateScheduler_on s _ w, ⟨rfl, rfl, rfl, rfl⟩, sharedOf_modify w fun _ => rfl⟩
  · rw [Act.on_bind_get]
    split
    · next r _ =>
      have woken : Level w { w with kernel := (w.kernel.wake r.epoll).1 } :=
        ⟨⟨rfl, rfl, rfl, rfl⟩, rfl⟩
      rw [wakePoller, Act.on_bind_ok (kernel_on _ w)]
      split
      · exact ⟨_, Act.on_pure _ _, woken.toUntouched, fun _ => rfl⟩
      · obtain ⟨w', logged, quiet⟩ :=
          log_quiet .error _ { w with kernel := (w.kernel.wake r.epoll).1 }
        have level := woken.trans quiet.level
        exact ⟨w', logged, level.toUntouched, fun j => by
          rw [World.sharedOf, level.schedulers]; rfl⟩
    · exact ⟨w, rfl, ⟨rfl, rfl, rfl, rfl⟩, fun _ => rfl⟩

/-- What is shared changes, and whether or not a worker is woken. -/
theorem reshare_on (known : w.sharedOf s = some y) (z : Shared Body) (wake : Bool) :
    ∃ w', (if wake then tickle s else pure () : Act Unit).on (w.withShared s fun _ => z) =
        (.ok (), w') ∧ Untouched w w' ∧ w'.sharedOf s = some z := by
  have changed : World.sharedOf (w.withShared s fun _ => z) s = some z := by
    obtain ⟨r, hr, -⟩ := Option.map_eq_some_iff.mp known
    change Option.map _ ((w.schedulers.modify s _).get? s) = _
    rw [Table.get?_modify, if_pos rfl, hr]
    rfl
  cases wake with
  | false => exact ⟨_, rfl, ⟨rfl, rfl, rfl, rfl⟩, changed⟩
  | true =>
    obtain ⟨w', woken, same, shared⟩ := tickle_shared s (w.withShared s fun _ => z)
    exact ⟨w', woken, ⟨same.fibers, same.saved, same.threads, same.running⟩,
      (shared s).trans changed⟩

theorem enqueue_shared (known : w.sharedOf s = some y) (entries : List (QueueEntry Body)) :
    ∃ w', (enqueue s entries).on w = (.ok (), w') ∧ Untouched w w' ∧
      w'.sharedOf s = some { y with queue := y.queue ++ entries } := by
  obtain ⟨w', done, same, shared⟩ := reshare_on known (y.push entries).1 (y.push entries).2
  refine ⟨w', ?_, same, shared⟩
  rw [enqueue, Act.on_bind_ok (schedulerRecord_on s w), sharedOf_record known]
  exact (Act.on_bind_ok (updateShared_on s _ w)).trans done

theorem takeNext_shared (known : w.sharedOf s = some y) (worker : Nat) :
    ∃ w', (takeNext s worker).on w = (.ok (y.take w.isRunning worker).entry, w') ∧
      Untouched w w' ∧ w'.sharedOf s = some (y.take w.isRunning worker).shared := by
  obtain ⟨w', done, same, shared⟩ :=
    reshare_on known (y.take w.isRunning worker).shared (y.take w.isRunning worker).wake
  refine ⟨w', ?_, same, shared⟩
  rw [takeNext, Act.on_bind_get, Act.on_bind_ok (schedulerRecord_on s w), sharedOf_record known,
    Act.on_bind_ok (updateShared_on s _ w)]
  exact (Act.on_when done).trans rfl

theorem settle_shared (known : w.sharedOf s = some y) :
    ∃ w', (settle s).on w = (.ok (), w') ∧ Untouched w w' ∧ w'.sharedOf s = some y.settle := by
  refine ⟨w.withShared s Shared.settle, rfl, ⟨rfl, rfl, rfl, rfl⟩, ?_⟩
  obtain ⟨r, hr, rfl⟩ := Option.map_eq_some_iff.mp known
  change Option.map _ ((w.schedulers.modify s _).get? s) = _
  rw [Table.get?_modify, if_pos rfl, hr]
  rfl

end Script

end Fibers
