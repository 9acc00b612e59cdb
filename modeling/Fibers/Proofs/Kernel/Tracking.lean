import Fibers.Proofs.Kernel.News
import Mathlib.Logic.Relation

/-!
Deeds beside a set of descriptors. A deed is made of turns: a number is closed, files and numbers
are added, or bytes move. As long as no number with a mask is closed, the registrations of the set
stay in agreement with the masks. Wakes touch neither registrations nor their places in the ready
queue.
-/

namespace Fibers.Kernel

namespace Epoll

variable {e : Epoll} {d d' : Descriptors} {mask : Int → Event} {fd : Int}

theorem notice_eq (e : Epoll) (n : News) :
    e.notice n = e.registered.foldl
      (fun e r => if n.concerns r then e.enqueue (.entry r.file r.fd) else e) e := rfl

theorem notice_registered (e : Epoll) (n : News) : (e.notice n).registered = e.registered := by
  rw [notice_eq]
  suffices kept : ∀ (rs : List Registration) (e' : Epoll), e'.registered = e.registered →
      (rs.foldl (fun e r => if n.concerns r then e.enqueue (.entry r.file r.fd) else e)
        e').registered = e.registered from kept _ e rfl
  intro rs
  induction rs with
  | nil => exact fun e' h => h
  | cons r rs ih =>
    intro e' h
    refine ih _ ?_
    dsimp only
    split
    · rw [enqueue_registered, h]
    · exact h

theorem notices_registered (news : List News) (e : Epoll) :
    (news.foldl notice e).registered = e.registered := by
  induction news generalizing e with
  | nil => rfl
  | cons n news ih => rw [List.foldl_cons, ih, notice_registered]

/-- What becomes of a set when a number is closed. -/
def closing (e : Epoll) : Option Descriptors.Closed → Epoll
  | none => e
  | some c =>
    c.news.foldl notice (match c.file with
      | some i => e.forget i
      | none => e)

theorem forget_of (e : Epoll) (i : Nat) (fd : Int) :
    (e.forget i).of fd = (e.of fd).filter (·.file != i) := by
  simp only [of, forget, List.filter_filter, Bool.and_comm]

theorem Agrees.stays (h : e.Agrees d mask) (same : Descriptors.Stays d d') : e.Agrees d' mask where
  unarmed := h.unarmed
  armed fd some := by
    rw [same.file?]
    exact h.armed fd some

theorem Agrees.opens {fds : List Int} (h : e.Agrees d mask) (sound : d.Sound)
    (opens : Descriptors.Opens d d' fds) (free : ∀ fd ∈ fds, (mask fd).isEmpty = true) :
    e.Agrees d' mask where
  unarmed := h.unarmed
  armed fd some := by
    obtain ⟨i, f, named, pollable, one⟩ := h.armed fd some
    have apart : fd ∉ fds := fun mem => by simp [free fd mem] at some
    exact ⟨i, f, opens.file? sound apart named, pollable, one⟩

theorem Agrees.closes (h : e.Agrees d mask) (free : (mask fd).isEmpty = true) :
    (e.closing (d.close fd).2).Agrees (d.close fd).1 mask := by
  have named : ∀ j, (mask j).isEmpty = false → ∃ i f, d.file? j = some (i, f) ∧
      (d.close fd).1.file? j = some (i, f) ∧ Descriptors.pollable f = true ∧
        e.of j = [⟨i, j, mask j⟩] := by
    intro j some
    obtain ⟨i, f, named, pollable, one⟩ := h.armed j some
    have apart : j ≠ fd := by
      rintro rfl
      simp [free] at some
    exact ⟨i, f, named, Descriptors.close_file? d apart named, pollable, one⟩
  have kept (e' : Epoll) (unarmed : ∀ j, (mask j).isEmpty = true → e'.of j = [])
      (armed : ∀ j, (mask j).isEmpty = false → e'.of j = e.of j) :
      e'.Agrees (d.close fd).1 mask := by
    refine ⟨unarmed, fun j some => ?_⟩
    obtain ⟨i, f, -, after, pollable, one⟩ := named j some
    exact ⟨i, f, after, pollable, by rw [armed j some, one]⟩
  rcases Descriptors.close_cases d fd with eq | ⟨i, f, -, eq⟩ | ⟨i, f, here, last, eq⟩
  · rw [show (d.close fd).2 = none by rw [eq]]
    exact kept e h.unarmed fun _ _ => rfl
  · rw [show (d.close fd).2 = some ⟨none, []⟩ by rw [eq]]
    exact kept e h.unarmed fun _ _ => rfl
  · rw [show (d.close fd).2 = some ⟨some i, _⟩ by rw [eq]]
    have same := fun j => of_congr (notices_registered
      ({ d with numbers := d.numbers.erase fd }.closeFile i f).2 (e.forget i)) j
    refine kept _ (fun j none => ?_) fun j some => ?_
    · simp [closing, same, forget_of, h.unarmed j none]
    · obtain ⟨k, g, before, -, -, one⟩ := named j some
      have apart : j ≠ fd := by
        rintro rfl
        simp [free] at some
      have other : k ≠ i := by
        rintro rfl
        exact last j apart (Descriptors.file?_eq_some.mp before).1
      simp [closing, same, forget_of, one, other]

end Epoll

/-- What happens to descriptors and to a set of them, where only numbers among `fds` are closed. -/
inductive Turn (fds : List Int) : Descriptors × Epoll → Descriptors × Epoll → Prop where
  | closes {d : Descriptors} {e : Epoll} (fd : Int) (mem : fd ∈ fds) :
      Turn fds (d, e) ((d.close fd).1, e.closing (d.close fd).2)
  | opens {d d' : Descriptors} {e : Epoll} (opens : Descriptors.Opens d d' fds)
      (sound : d.Sound → d'.Sound) : Turn fds (d, e) (d', e)
  | moves {d d' : Descriptors} {e : Epoll} (news : List News) (stays : Descriptors.Stays d d')
      (announced : d.Sound → d.Announces d' news) : Turn fds (d, e) (d', news.foldl Epoll.notice e)

abbrev Turns (fds : List Int) := Relation.ReflTransGen (Turn fds)

/-- Turns keep descriptors sound and the registrations in agreement with the masks. -/
theorem Turns.agrees {fds : List Int} {mask : Int → Event} {p q : Descriptors × Epoll}
    (turns : Turns fds p q) (free : ∀ fd ∈ fds, (mask fd).isEmpty = true) (sound : p.1.Sound)
    (h : p.2.Agrees p.1 mask) : q.1.Sound ∧ q.2.Agrees q.1 mask := by
  induction turns with
  | refl => exact ⟨sound, h⟩
  | tail _ turn ih =>
    obtain ⟨sound, h⟩ := ih
    cases turn with
    | closes fd mem => exact ⟨sound.close fd, h.closes (free fd mem)⟩
    | opens opens later => exact ⟨later sound, h.opens sound opens free⟩
    | moves news stays =>
      exact ⟨stays.sound sound, (h.stays stays).congr (Epoll.notices_registered news _)⟩

namespace State

variable {fds : List Int} {id : Nat} {k k' k'' : State}

theorem spread_get? (k : State) (news : List News) (id : Nat) :
    (k.spread news).epolls.get? id = (k.epolls.get? id).map (news.foldl Epoll.notice) := by
  simp only [spread]
  split
  · next none =>
    have : news = [] := List.isEmpty_iff.mp none
    subst this
    cases k.epolls.get? id <;> rfl
  · exact Table.get?_map k.epolls (news.foldl Epoll.notice) id

theorem spread_descriptors (k : State) (news : List News) :
    (k.spread news).descriptors = k.descriptors := by
  simp only [spread]
  split <;> rfl

theorem release_descriptors (k : State) (fd : Int) :
    (k.release fd).descriptors = (k.descriptors.close fd).1 := by
  simp only [release, close]
  rcases Descriptors.close_cases k.descriptors fd with eq | ⟨i, f, -, eq⟩ | ⟨i, f, -, -, eq⟩ <;>
    simp [eq, spread_descriptors, forget]

theorem release_get? (k : State) (fd : Int) (id : Nat) :
    (k.release fd).epolls.get? id =
      (k.epolls.get? id).map fun e => e.closing (k.descriptors.close fd).2 := by
  simp only [release, close]
  rcases Descriptors.close_cases k.descriptors fd with eq | ⟨i, f, -, eq⟩ | ⟨i, f, -, -, eq⟩
  · simp only [eq]
    cases k.epolls.get? id <;> rfl
  · simp only [eq, spread_get?]
    cases k.epolls.get? id <;> rfl
  · simp only [eq, spread_get?, forget, Table.get?_map k.epolls (Epoll.forget · i) id,
      Option.map_map]
    cases k.epolls.get? id <;> rfl

/-- The system goes on to `k'`, by turns as far as the set `id` and the descriptors are concerned.
-/
def Goes (fds : List Int) (id : Nat) (k k' : State) : Prop :=
  ∀ e, k.epolls.get? id = some e → ∃ e', k'.epolls.get? id = some e' ∧
    Turns fds (k.descriptors, e) (k'.descriptors, e')

theorem Goes.refl (k : State) : k.Goes fds id k := fun e found => ⟨e, found, .refl⟩

theorem Goes.trans (h : k.Goes fds id k') (g : k'.Goes fds id k'') : k.Goes fds id k'' := by
  intro e found
  obtain ⟨e', found', turns⟩ := h e found
  obtain ⟨e'', found'', turns'⟩ := g e' found'
  exact ⟨e'', found'', turns.trans turns'⟩

theorem release_goes (k : State) {fd : Int} (mem : fd ∈ fds) : k.Goes fds id (k.release fd) := by
  intro e found
  refine ⟨e.closing (k.descriptors.close fd).2, ?_, ?_⟩
  · rw [release_get?, found]
    rfl
  · rw [release_descriptors]
    exact .single (.closes fd mem)

theorem opens_goes (k : State) {d : Descriptors} (opens : Descriptors.Opens k.descriptors d fds)
    (sound : k.descriptors.Sound → d.Sound) : k.Goes fds id { k with descriptors := d } :=
  fun e found => ⟨e, found, .single (.opens opens sound)⟩

theorem moves_goes (k : State) {d : Descriptors} {news : List News}
    (stays : Descriptors.Stays k.descriptors d)
    (announced : k.descriptors.Sound → k.descriptors.Announces d news) :
    k.Goes fds id (State.spread { k with descriptors := d } news) := by
  intro e found
  refine ⟨news.foldl Epoll.notice e, ?_, ?_⟩
  · rw [spread_get?]
    exact congrArg (Option.map _) found
  · rw [spread_descriptors]
    exact .single (.moves news stays announced)

/-- Deeds are made of turns. -/
theorem doing_goes (k : State) (deed : Deed) (id : Nat) :
    k.Goes (deed.closes k.descriptors) id (k.doing deed) := by
  cases deed with
  | close fd => exact release_goes k (by simp [Deed.closes])
  | pipe reader writer =>
    refine ((release_goes k ?_).trans (release_goes _ ?_)).trans (opens_goes _ ?_ ?_)
    · simp [Deed.closes]
    · simp [Deed.closes]
    · exact Descriptors.openPipe_opens _ reader writer
    · exact fun sound => sound.openPipe reader writer
  | socketPair a b =>
    refine ((release_goes k ?_).trans (release_goes _ ?_)).trans (opens_goes _ ?_ ?_)
    · simp [Deed.closes]
    · simp [Deed.closes]
    · exact Descriptors.openSocket_opens _ a b
    · exact fun sound => sound.openSocket a b
  | nullFile fd =>
    refine (release_goes k ?_).trans (opens_goes _ ?_ ?_)
    · simp [Deed.closes]
    · exact Descriptors.openAt_opens _ fd .null
    · exact fun sound => sound.openAt fd (fun _ _ => rfl) (Nat.zero_le _)
  | duplicate fd new =>
    simp only [State.doing, duplicate]
    cases named : k.descriptors.file? fd with
    | none => exact .refl k
    | some x =>
      dsimp only
      split
      · exact .refl k
      · next apart =>
        have closes : Deed.closes k.descriptors (.duplicate fd new) = [new] := by
          simp [Deed.closes, named, apart]
        rw [closes]
        refine (release_goes k ?_).trans (opens_goes _ ?_ ?_)
        · simp
        · exact Descriptors.addNumber_opens _ x.1 new
        · exact fun sound => sound.later rfl (Nat.le_refl _)
  | write fd bytes =>
    exact moves_goes k (Descriptors.write_stays _ fd bytes) (Descriptors.write_announces fd bytes)
  | read fd n =>
    exact moves_goes k (Descriptors.read_stays _ fd n) (Descriptors.read_announces fd n)
  | fill fd => exact moves_goes k (Descriptors.fill_stays _ fd) (Descriptors.fill_announces fd)
  | drain fd => exact moves_goes k (Descriptors.drain_stays _ fd) (Descriptors.drain_announces fd)

end State

/-- Two states of a set that watch the same and have the same entries to report, in the same order;
only the wake counter and its place in the queue may differ. -/
structure Epoll.Alike (e e' : Epoll) : Prop where
  registered : e'.registered = e.registered
  maxEvents : e'.maxEvents = e.maxEvents
  ready : e'.ready.filter (· != .waker) = e.ready.filter (· != .waker)
  nodup : e.ready.Nodup → e'.ready.Nodup

theorem Epoll.Alike.refl (e : Epoll) : e.Alike e := ⟨rfl, rfl, rfl, id⟩

theorem Epoll.Alike.trans {e e' e'' : Epoll} (h : e.Alike e') (g : e'.Alike e'') : e.Alike e'' :=
  ⟨g.registered.trans h.registered, g.maxEvents.trans h.maxEvents, g.ready.trans h.ready,
    fun once => g.nodup (h.nodup once)⟩

theorem Epoll.enqueue_nodup (e : Epoll) (m : Member) (once : e.ready.Nodup) :
    (e.enqueue m).ready.Nodup := by
  simp only [enqueue]
  split
  · exact once
  · next absent =>
    change (e.ready ++ [m]).Nodup
    rw [← List.concat_eq_append]
    exact once.concat absent

theorem Epoll.signal_alike (e : Epoll) : e.Alike e.signal := by
  simp only [signal]
  split
  · next c _ =>
    refine ⟨?_, ?_, ?_, enqueue_nodup { e with waker := c } .waker⟩ <;>
      simp only [enqueue] <;> split <;> simp
  · exact .refl e

/-- Two states of the system with the same descriptors and alike sets of them; no call fails in the
second one that would not fail in the first one. -/
structure State.Alike (k k' : State) : Prop where
  descriptors : k'.descriptors = k.descriptors
  epolls : ∀ id e, k.epolls.get? id = some e → ∃ e', k'.epolls.get? id = some e' ∧ e.Alike e'
  calm : ∀ c, k.faults.get? c = none → k'.faults.get? c = none

theorem State.Alike.refl (k : State) : k.Alike k :=
  ⟨rfl, fun _ e h => ⟨e, h, .refl e⟩, fun _ h => h⟩

theorem State.takeFault_alike (k : State) (c : Call) : k.Alike (k.takeFault c).1 := by
  simp only [takeFault]
  split
  · refine ⟨rfl, fun _ e h => ⟨e, h, .refl e⟩, fun c' none => ?_⟩
    rw [Table.get?_erase, none, ite_self]
  · exact .refl k

theorem State.wake_alike (k : State) (id : Nat) : k.Alike (k.wake id).1 := by
  have used := k.takeFault_alike .counterWrite
  simp only [wake]
  cases taken : k.takeFault .counterWrite with
  | mk s fault =>
    rw [taken] at used
    cases fault with
    | some n => exact used
    | none =>
      refine ⟨used.descriptors, fun j e found => ?_, used.calm⟩
      obtain ⟨e', found', alike⟩ := used.epolls j e found
      simp only [Table.get?_modify]
      split
      · next hj =>
        subst hj
        exact ⟨e'.signal, by rw [found']; rfl, alike.trans e'.signal_alike⟩
      · exact ⟨e', found', alike⟩

end Fibers.Kernel
