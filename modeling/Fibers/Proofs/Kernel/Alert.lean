import Fibers.Proofs.Kernel.Tracking

/-!
A set of descriptors loses no readiness. It is alert if every registration whose file is ready for
its mask has its place in the ready queue. It stays so through news, deeds and changes of masks; a
wait takes places away, and for the numbers that it reports the set is alert again once their masks
were told anew.
-/

namespace Fibers.Kernel

/-- Every registration whose file is ready for its mask has its place in the ready queue, but for
those of the numbers `out`; nothing has two places. -/
structure Epoll.Alert (e : Epoll) (d : Descriptors) (out : List Int) : Prop where
  once : e.ready.Nodup
  queued : ∀ r ∈ e.registered, ∀ f, d.files.get? r.file = some f →
    (d.readiness f).readyFor r.mask = true → .entry r.file r.fd ∈ e.ready ∨ r.fd ∈ out

namespace Epoll

variable {e e' : Epoll} {d d' : Descriptors} {mask : Int → Event} {fd : Int} {after : Event}
  {out : List Int}

theorem Alert.mono {out' : List Int} (h : e.Alert d out) (sub : out ⊆ out') : e.Alert d out' :=
  ⟨h.once, fun r mem f found ready => (h.queued r mem f found ready).imp_right (sub ·)⟩

theorem Alert.alike (h : e.Alert d out) (same : e.Alike e') : e'.Alert d out := by
  refine ⟨same.nodup h.once, fun r mem f found ready => ?_⟩
  rw [same.registered] at mem
  refine (h.queued r mem f found ready).imp_left fun there => ?_
  have kept : .entry r.file r.fd ∈ e'.ready.filter (· != .waker) := by
    rw [same.ready, List.mem_filter]
    exact ⟨there, rfl⟩
  exact (List.mem_filter.mp kept).1

theorem mem_enqueue (e : Epoll) (m x : Member) :
    x ∈ (e.enqueue m).ready ↔ x ∈ e.ready ∨ x = m := by
  simp only [enqueue]
  split
  · next there =>
    constructor
    · exact .inl
    · rintro (there' | rfl)
      · exact there'
      · exact there
  · simp

/-- Who is in the ready queue after news. -/
theorem mem_notice (e : Epoll) (n : News) (x : Member) : x ∈ (e.notice n).ready ↔
    x ∈ e.ready ∨ ∃ r ∈ e.registered, n.concerns r = true ∧ x = .entry r.file r.fd := by
  rw [notice_eq]
  generalize e.registered = rs
  induction rs generalizing e with
  | nil => simp
  | cons r rs ih =>
    rw [List.foldl_cons, ih]
    cases told : n.concerns r with
    | false => simp [told]
    | true => simp [told, mem_enqueue, or_assoc]

theorem notice_nodup (e : Epoll) (n : News) (once : e.ready.Nodup) : (e.notice n).ready.Nodup := by
  rw [notice_eq]
  generalize e.registered = rs
  induction rs generalizing e with
  | nil => exact once
  | cons r rs ih =>
    refine ih _ ?_
    dsimp only
    split
    · exact enqueue_nodup e _ once
    · exact once

theorem mem_notices (news : List News) (e : Epoll) (x : Member) :
    x ∈ (news.foldl notice e).ready ↔ x ∈ e.ready ∨
      ∃ n ∈ news, ∃ r ∈ e.registered, n.concerns r = true ∧ x = .entry r.file r.fd := by
  induction news generalizing e with
  | nil => simp
  | cons n news ih =>
    rw [List.foldl_cons, ih, mem_notice, notice_registered]
    simp [or_assoc]

theorem notices_nodup (news : List News) (e : Epoll) (once : e.ready.Nodup) :
    (news.foldl notice e).ready.Nodup := by
  induction news generalizing e with
  | nil => exact once
  | cons n news ih => exact ih _ (notice_nodup e n once)

/-- News keep a set alert if they announce whatever became ready. -/
theorem Alert.notices (h : e.Alert d out) {news : List News} (same : d'.files = d.files)
    (announced : d.Announces d' news) : (news.foldl notice e).Alert d' out := by
  refine ⟨notices_nodup news e h.once, fun r mem f found ready => ?_⟩
  rw [notices_registered] at mem
  have found' := same ▸ found
  rw [mem_notices]
  rcases announced r f found' found ready with before | ⟨n, told, concerned⟩
  · exact (h.queued r mem f found' before).imp_left .inl
  · exact .inl (.inr ⟨n, told, r, mem, concerned, rfl⟩)

theorem opens_readiness {fds : List Int} (opens : Descriptors.Opens d d' fds) {f : OpenFile}
    (old : f.channel ≤ d.lastId) : d'.readiness f = d.readiness f := by
  cases f with
  | pipeReader p | pipeWriter p => simp only [Descriptors.readiness, opens.pipes p old]
  | socket s e => simp only [Descriptors.readiness, opens.sockets s _ old]
  | null => rfl

theorem Alert.opens {fds : List Int} (h : e.Alert d out) (sound : d.Sound)
    (agrees : e.Agrees d mask) (opens : Descriptors.Opens d d' fds) : e.Alert d' out := by
  refine ⟨h.once, fun r mem f found ready => ?_⟩
  obtain ⟨-, -, -, g, named⟩ := agrees.registration mem
  have known := (Descriptors.file?_eq_some.mp named).2
  have old := sound.old _ _ known
  rw [opens.files _ old.1, known] at found
  obtain rfl := Option.some.inj found
  rw [opens_readiness opens old.2] at ready
  exact h.queued r mem _ known ready

theorem Alert.closes (h : e.Alert d out) (sound : d.Sound) (fd : Int) :
    (e.closing (d.close fd).2).Alert (d.close fd).1 out := by
  have announced := Descriptors.close_announces fd sound
  rcases Descriptors.close_cases d fd with eq | ⟨i, f, -, eq⟩ | ⟨i, f, -, -, eq⟩
  · rw [eq]
    exact h
  · rw [eq]
    exact ⟨h.once, h.queued⟩
  · obtain ⟨files, -, -⟩ :=
      Descriptors.closeFile_files { d with numbers := d.numbers.erase fd } i f
    rw [eq] at announced ⊢
    refine ⟨notices_nodup _ _ (h.once.filter _), fun r mem g found ready => ?_⟩
    simp only [closing] at mem ⊢
    rw [notices_registered] at mem
    obtain ⟨mem', apart⟩ : r ∈ e.registered ∧ r.file ≠ i := by simpa [forget] using mem
    have found' : d.files.get? r.file = some g := by
      rw [files, Table.get?_erase, if_neg apart] at found
      exact found
    rw [mem_notices]
    rcases announced r g found' found ready with before | ⟨n, told, concerned⟩
    · refine (h.queued r mem' g found' before).imp_left fun there => .inl ?_
      simp [forget, there, apart]
    · exact .inl (.inr ⟨n, told, r, mem, concerned, rfl⟩)

end Epoll

/-- Turns keep a set alert. -/
theorem Turns.alert {fds : List Int} {mask : Int → Event} {p q : Descriptors × Epoll}
    {out : List Int} (turns : Turns fds p q) (free : ∀ fd ∈ fds, (mask fd).isEmpty = true)
    (sound : p.1.Sound) (agrees : p.2.Agrees p.1 mask) (h : p.2.Alert p.1 out) :
    q.2.Alert q.1 out := by
  induction turns with
  | refl => exact h
  | tail before turn ih =>
    obtain ⟨sound, agrees⟩ := Turns.agrees before free sound agrees
    cases turn with
    | closes fd => exact ih.closes sound fd
    | opens opens => exact ih.opens sound agrees opens
    | moves news stays announced => exact ih.notices stays.files (announced sound)

namespace Epoll

variable {e e' : Epoll} {d d' : Descriptors} {mask : Int → Event} {fd : Int} {after : Event}
  {out : List Int}

theorem enqueueIfReady_kept (e : Epoll) (d : Descriptors) (f : OpenFile) (r : Registration)
    {x : Member} (there : x ∈ e.ready) : x ∈ (e.enqueueIfReady d f r).ready := by
  simp only [enqueueIfReady]
  split
  · exact there
  · exact (mem_enqueue e _ x).mpr (.inl there)

theorem enqueueIfReady_ready (e : Epoll) (d : Descriptors) (f : OpenFile) (r : Registration)
    (ready : (d.readiness f).readyFor r.mask = true) :
    .entry r.file r.fd ∈ (e.enqueueIfReady d f r).ready := by
  simp only [enqueueIfReady]
  split
  · next none => simp [Readiness.readyFor, none] at ready
  · exact (mem_enqueue e _ _).mpr (.inr rfl)

theorem enqueueIfReady_nodup (e : Epoll) (d : Descriptors) (f : OpenFile) (r : Registration)
    (once : e.ready.Nodup) : (e.enqueueIfReady d f r).ready.Nodup := by
  simp only [enqueueIfReady]
  split
  · exact once
  · exact enqueue_nodup e _ once

/-- A number whose registration is made or changed needs no exception any more. -/
theorem Alert.put {i : Nat} {f : OpenFile} {rs : List Registration} (h : e.Alert d (fd :: out))
    (named : target d fd = .ok (i, f))
    (new : ∀ r ∈ rs, r ∈ e.registered ∧ r.fd ≠ fd ∨ r = ⟨i, fd, after⟩) :
    ({ e with registered := rs }.enqueueIfReady d f ⟨i, fd, after⟩).Alert d out := by
  refine ⟨enqueueIfReady_nodup _ d f _ h.once, fun r mem g found ready => ?_⟩
  rw [enqueueIfReady_registered] at mem
  rcases new r mem with ⟨old, apart⟩ | rfl
  · refine (h.queued r old g found ready).imp (enqueueIfReady_kept _ d f _) fun exempt => ?_
    simpa [apart] using exempt
  · have file := (Descriptors.file?_eq_some.mp (target_ok named).1).2
    obtain rfl := Option.some.inj (file.symm.trans found)
    exact .inl (enqueueIfReady_ready _ d f _ ready)

/-- A number whose mask was told anew needs no exception any more. -/
theorem Alert.tell (h : e.Alert d (fd :: out)) (agrees : e.Agrees d mask)
    (some : (mask fd).isEmpty = false ∨ after.isEmpty = false)
    (ok : e.tell d fd (mask fd) after = .ok e') : e'.Alert d out := by
  simp only [Epoll.tell] at ok
  split at ok
  · next none =>
    obtain ⟨i, f, named, one⟩ := agrees.target_armed (some.resolve_right (by simp [none]))
    have found : e.find? i fd = Option.some ⟨i, fd, mask fd⟩ := by simp [find?_eq, one]
    simp only [deregister, named, found] at ok
    obtain rfl := Except.ok.inj ok
    refine ⟨h.once.filter _, fun r mem g there ready => ?_⟩
    obtain ⟨old, other⟩ := List.mem_filter.mp mem
    have apart : r.fd ≠ fd := by
      intro same
      have mem' : r ∈ e.of fd := List.mem_filter.mpr ⟨old, by simp [same]⟩
      obtain rfl : r = ⟨i, fd, mask fd⟩ := by simpa [one] using mem'
      simp at other
    rcases h.queued r old g there ready with queued | exempt
    · exact .inl (List.mem_filter.mpr ⟨queued, by simp [apart]⟩)
    · exact .inr (by simpa [apart] using exempt)
  · split at ok
    · next first =>
      simp only [register] at ok
      cases named : target d fd with
      | error c => simp [named] at ok
      | ok x =>
        obtain ⟨i, f⟩ := x
        have absent : e.find? i fd = Option.none := by simp [find?_eq, agrees.unarmed fd first]
        simp only [named, absent] at ok
        obtain rfl := Except.ok.inj ok
        refine h.put named fun r mem => ?_
        rcases List.mem_append.mp mem with old | new
        · refine .inl ⟨old, fun same => ?_⟩
          have mem' : r ∈ e.of fd := List.mem_filter.mpr ⟨old, by simp [same]⟩
          simp [agrees.unarmed fd first] at mem'
        · exact .inr (List.mem_singleton.mp new)
    · next already =>
      obtain ⟨i, f, named, one⟩ := agrees.target_armed (by simpa using already)
      have found : e.find? i fd = Option.some ⟨i, fd, mask fd⟩ := by simp [find?_eq, one]
      simp only [modify, named, found] at ok
      obtain rfl := Except.ok.inj ok
      refine h.put named fun r mem => ?_
      obtain ⟨x, old, rfl⟩ := List.mem_map.mp mem
      by_cases same : x.fd = fd
      · have mem' : x ∈ e.of fd := List.mem_filter.mpr ⟨old, by simp [same]⟩
        obtain rfl : x = ⟨i, fd, mask fd⟩ := by simpa [one] using mem'
        exact .inr (if_pos (by simp))
      · rw [if_neg (by simp [same])]
        exact .inl ⟨old, same⟩

/-- A wait takes members from the front until it has as many reports as it may have. -/
theorem takeReady_split (e : Epoll) (d : Descriptors) (room : Nat) (ms : List Member) :
    ∃ taken, ms = taken ++ (e.takeReady d room ms).2 ∧
      (e.takeReady d room ms).1 = taken.filterMap (e.report? d) ∧
      ((e.takeReady d room ms).1.length = room ∨ (e.takeReady d room ms).2 = []) := by
  induction ms generalizing room with
  | nil =>
    cases room with
    | zero => exact ⟨[], rfl, rfl, .inl rfl⟩
    | succ room => exact ⟨[], rfl, rfl, .inr rfl⟩
  | cons m ms ih =>
    cases room with
    | zero => exact ⟨[], rfl, rfl, .inl rfl⟩
    | succ room =>
      simp only [takeReady]
      cases now : e.report? d m with
      | none =>
        obtain ⟨taken, split, reports, full⟩ := ih (room + 1)
        exact ⟨m :: taken, by rw [List.cons_append, ← split], by simp [now, reports], full⟩
      | some r =>
        obtain ⟨taken, split, reports, full⟩ := ih room
        refine ⟨m :: taken, by rw [List.cons_append, ← split], by simp [now, reports], ?_⟩
        simpa using full

/-- What a report says of a number. -/
def Report.found? : Report → Option (Int × Event)
  | .woken => none
  | .ready fd event => some (fd, event)

/-- What a member of the queue says of a number, if it is the entry of a registration. -/
theorem report?_found (agrees : e.Agrees d mask) {m : Member} {fd : Int} {event : Event}
    (h : (e.report? d m).bind Report.found? = some (fd, event)) :
    ∃ i f, m = .entry i fd ∧ d.file? fd = some (i, f) ∧ (mask fd).isEmpty = false ∧
      (d.readiness f).readyFor (mask fd) = true ∧
      event = ((d.readiness f).masked (mask fd)).event := by
  cases m with
  | waker =>
    simp only [report?] at h
    split at h <;> simp [Report.found?] at h
  | entry i j =>
    simp only [report?] at h
    split at h
    · next r f registered there =>
      split at h
      · simp at h
      · next some =>
        obtain ⟨rfl, rfl⟩ : j = fd ∧ _ = event := by simpa [Report.found?] using h
        have mem := List.mem_of_find?_eq_some registered
        have key : r.file = i ∧ r.fd = j := by simpa using List.find?_some registered
        obtain ⟨rfl, rfl⟩ := key
        obtain ⟨armed, same, -, g, named⟩ := agrees.registration mem
        have file := (Descriptors.file?_eq_some.mp named).2
        obtain rfl := Option.some.inj (there.symm.trans file)
        rw [← same]
        refine ⟨r.file, f, rfl, named, by rw [same, armed], ?_, rfl⟩
        simpa [Readiness.readyFor] using some
    · simp at h

/-- The entry of a registration whose file is ready reports it. -/
theorem report?_ready (agrees : e.Agrees d mask) {r : Registration} (mem : r ∈ e.registered)
    {f : OpenFile} (found : d.files.get? r.file = some f)
    (ready : (d.readiness f).readyFor r.mask = true) :
    e.report? d (.entry r.file r.fd) =
      some (.ready r.fd ((d.readiness f).masked r.mask).event) := by
  obtain ⟨-, -, one, -⟩ := agrees.registration mem
  have registered : e.find? r.file r.fd = some r := by simp [find?_eq, one]
  have some : ((d.readiness f).masked r.mask).isEmpty = false := by
    simpa [Readiness.readyFor] using ready
  simp [report?, registered, found, some]

/-- What is reported for a mask that is not empty has to do with it. -/
theorem masked_event_inter {r : Readiness} {m : Event} (some : m.isEmpty = false)
    (ready : r.readyFor m = true) : ((r.masked m).event.inter m).isEmpty = false := by
  have armed : m.read = true ∨ m.write = true := by
    simpa [Event.isEmpty, or_iff_not_imp_left] using some
  rw [Readiness.readyFor_iff] at ready
  change (Event.inter (if r.error || r.hangup then Event.both
    else ⟨r.input && m.read, r.output && m.write⟩) m).isEmpty = false
  by_cases loud : (r.error || r.hangup) = true
  · rw [if_pos loud]
    rcases armed with read | write
    · simp [Event.both, Event.inter, Event.isEmpty, read]
    · simp [Event.both, Event.inter, Event.isEmpty, write]
  · rw [if_neg loud]
    obtain ⟨input, read⟩ | ⟨output, write⟩ | error | hangup := ready
    · simp [Event.inter, Event.isEmpty, input, read]
    · simp [Event.inter, Event.isEmpty, output, write]
    · simp [error] at loud
    · simp [hangup] at loud

/-- What a wait found of the numbers. -/
def found (e : Epoll) (d : Descriptors) : List (Int × Event) :=
  (e.harvest d).2.filterMap Report.found?

theorem found_eq (e : Epoll) (d : Descriptors) : ∃ taken,
    e.ready = taken ++ (e.harvest d).1.ready ∧
      e.found d = taken.filterMap (fun m => (e.report? d m).bind Report.found?) ∧
      ((e.harvest d).2.length = e.maxEvents ∨ (e.harvest d).1.ready = []) := by
  obtain ⟨taken, split, reports, full⟩ := takeReady_split e d e.maxEvents e.ready
  refine ⟨taken, split, ?_, full⟩
  have eq : (e.harvest d).2 = taken.filterMap (e.report? d) := reports
  rw [found, eq, List.filterMap_filterMap]

/-- A wait takes at least one member from the front for each of its reports. -/
theorem harvest_split (e : Epoll) (d : Descriptors) : ∃ taken,
    e.ready = taken ++ (e.harvest d).1.ready ∧ (e.harvest d).2.length ≤ taken.length := by
  obtain ⟨taken, split, reports, -⟩ := takeReady_split e d e.maxEvents e.ready
  refine ⟨taken, split, ?_⟩
  have eq : (e.harvest d).2 = taken.filterMap (e.report? d) := reports
  rw [eq]
  exact List.length_filterMap_le _ _

/-- No number is reported twice. -/
theorem found_nodup (agrees : e.Agrees d mask) (once : e.ready.Nodup) :
    ((e.found d).map (·.1)).Nodup := by
  obtain ⟨taken, split, eq, -⟩ := found_eq e d
  rw [split] at once
  rw [eq, List.map_filterMap]
  refine once.of_append_left.filterMap fun m m' fd h h' => ?_
  obtain ⟨⟨fd₁, event⟩, report, rfl⟩ := Option.map_eq_some_iff.mp h
  obtain ⟨⟨fd₂, event'⟩, report', same⟩ := Option.map_eq_some_iff.mp h'
  obtain ⟨i, f, rfl, named, -⟩ := report?_found agrees report
  obtain ⟨j, g, rfl, named', -⟩ := report?_found agrees report'
  obtain rfl : fd₂ = fd₁ := same
  rw [named] at named'
  cases named'
  rfl

/-- A number is only reported when something is armed of it, and then something that is armed. -/
theorem found_armed (agrees : e.Agrees d mask) {fd : Int} {event : Event}
    (mem : (fd, event) ∈ e.found d) :
    (mask fd).isEmpty = false ∧ (event.inter (mask fd)).isEmpty = false := by
  obtain ⟨taken, -, eq, -⟩ := found_eq e d
  rw [eq] at mem
  obtain ⟨m, -, report⟩ := List.mem_filterMap.mp mem
  obtain ⟨i, f, -, -, armed, ready, rfl⟩ := report?_found agrees report
  exact ⟨armed, masked_event_inter armed ready⟩

/-- Who is ready and in the queue is reported, or it comes further to the front by as many members
as a wait reports. -/
theorem found_or_kept (agrees : e.Agrees d mask) {r : Registration} (mem : r ∈ e.registered)
    {f : OpenFile} (known : d.files.get? r.file = some f)
    (ready : (d.readiness f).readyFor r.mask = true) (queued : .entry r.file r.fd ∈ e.ready) :
    (r.fd, ((d.readiness f).masked r.mask).event) ∈ e.found d ∨
      .entry r.file r.fd ∈ (e.harvest d).1.ready ∧ (e.harvest d).2.length = e.maxEvents := by
  obtain ⟨taken, split, eq, full⟩ := found_eq e d
  rw [split] at queued
  rcases List.mem_append.mp queued with taken' | left
  · left
    rw [eq]
    refine List.mem_filterMap.mpr ⟨_, taken', ?_⟩
    rw [report?_ready agrees mem known ready]
    rfl
  · refine .inr ⟨left, full.resolve_right fun none => ?_⟩
    rw [none] at left
    cases left

/-- A wait leaves a set alert but for the numbers that it reports. -/
theorem Alert.harvest (h : e.Alert d []) (agrees : e.Agrees d mask) :
    (e.harvest d).1.Alert d ((e.found d).map (·.1)) := by
  obtain ⟨taken, split, -, -⟩ := found_eq e d
  have once := h.once
  rw [split] at once
  refine ⟨once.of_append_right, fun r mem f known ready => ?_⟩
  have queued := (h.queued r mem f known ready).resolve_right (by simp)
  rcases found_or_kept agrees mem known ready queued with reported | left
  · exact .inr (List.mem_map.mpr ⟨_, reported, rfl⟩)
  · exact .inl left.1

end Epoll

end Fibers.Kernel
