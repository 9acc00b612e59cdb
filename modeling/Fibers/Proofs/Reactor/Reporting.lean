import Fibers.Proofs.Reactor.Waits

/-!
What a wait reported is fired. While no call of the poller is made to fail, every record of a report
finds something armed, fires a handler for it, and tells the set of descriptors what is left; so
after the last record the set has a place for everything that is ready.
-/

namespace Fibers.Event

theorem exists_mem_members {e : Event} (some : e.isEmpty = false) : ∃ x, x ∈ e.members := by
  obtain ⟨_ | _, _ | _⟩ := e
  · cases some
  · exact ⟨writable, by decide⟩
  · exact ⟨readable, by decide⟩
  · exact ⟨readable, by decide⟩

theorem contains_of_mem_inter {a b x : Event} (mem : x ∈ (a.inter b).members) :
    a.contains x = true ∧ b.contains x = true := by
  have hx := (List.mem_filter.mp mem).2
  rcases eq_of_isSingle (isSingle_of_mem_members mem) with rfl | rfl
  · simpa [inter] using hx
  · simpa [inter] using hx

end Fibers.Event

namespace Fibers.Reactor.Registry

variable {η : Type}

/-- Firing takes out the handlers of the events and no others. -/
theorem get?_fire (m : Registry η) (fd : Int) (es : List Event) (key : Int × Event) :
    (m.fire fd es).1.get? key = if key.1 = fd ∧ key.2 ∈ es then none else m.get? key := by
  induction es generalizing m with
  | nil => simp [fire]
  | cons e es ih =>
    have self : key = (fd, e) ↔ key.1 = fd ∧ key.2 = e := Prod.ext_iff
    cases there : m.get? (fd, e) with
    | none =>
      simp only [fire, there, ih, List.mem_cons]
      by_cases own : key.1 = fd ∧ key.2 = e
      · rw [← self.mpr own] at there
        simp [there]
      · grind
    | some h =>
      simp only [fire, there, ih, List.mem_cons, Table.get?_erase]
      grind

/-- Every handler of the events fires. -/
theorem mem_fire (m : Registry η) (fd : Int) {es : List Event} {e : Event} (mem : e ∈ es) {h : η}
    (there : m.get? (fd, e) = some h) : h ∈ (m.fire fd es).2 := by
  induction es generalizing m with
  | nil => cases mem
  | cons e' es ih =>
    by_cases same : e = e'
    · subst same
      simp [fire, there]
    · have rest := (List.mem_cons.mp mem).resolve_left same
      cases other : m.get? (fd, e') with
      | none =>
        simp only [fire, other]
        exact ih m rest there
      | some h' =>
        simp only [fire, other]
        refine List.mem_cons_of_mem _ (ih _ rest ?_)
        rw [Table.get?_erase, if_neg (by simp [same]), there]

end Fibers.Reactor.Registry

namespace Fibers.Script

open Reactor (Registry)
open Reactor.FdTable (Asked)
open Kernel (Epoll)

namespace Registry

/-- What becomes of a registry when a report is handled and the poller agrees each time. -/
def handled (m : Registry Handler) (found : List (Int × Event)) :
    Registry Handler × List Handler :=
  reports m found (found.map fun _ => .ok ())

theorem handled_cons (m : Registry Handler) (fd : Int) (e : Event) (found : List (Int × Event)) :
    handled m ((fd, e) :: found) =
      ((handled (report m fd e (.ok ())).1 found).1,
        (report m fd e (.ok ())).2 ++ (handled (report m fd e (.ok ())).1 found).2) := rfl

theorem get?_report (m : Registry Handler) (fd : Int) (e : Event) (key : Int × Event) :
    (report m fd e (.ok ())).1.get? key =
      if key.1 = fd ∧ key.2 ∈ (e.inter (m.armed fd)).members then none else m.get? key :=
  Registry.get?_fire m fd _ key

theorem armed_report (m : Registry Handler) {fd j : Int} (e : Event) (other : j ≠ fd) :
    (report m fd e (.ok ())).1.armed j = m.armed j := by
  simp [Reactor.Registry.armed, get?_report, other]

/-- Handling a report adds no handler. -/
theorem get?_handled (m : Registry Handler) (found : List (Int × Event)) {key : Int × Event}
    (none : m.get? key = none) : (handled m found).1.get? key = .none := by
  induction found generalizing m with
  | nil => exact none
  | cons record found ih =>
    rw [handled_cons]
    refine ih _ ?_
    rw [get?_report, none, ite_self]

/-- Every record of a report of different numbers that has to do with what is armed fires a
handler. -/
theorem handled_fires (m : Registry Handler) (found : List (Int × Event))
    (distinct : (found.map (·.1)).Nodup)
    (armed : ∀ fd e, (fd, e) ∈ found → (e.inter (m.armed fd)).isEmpty = false)
    {fd : Int} {e : Event} (mem : (fd, e) ∈ found) :
    ∃ ev h, ev ∈ (e.inter (m.armed fd)).members ∧ m.get? (fd, ev) = some h ∧
      h ∈ (handled m found).2 ∧ (handled m found).1.get? (fd, ev) = none := by
  induction found generalizing m with
  | nil => cases mem
  | cons record found ih =>
    obtain ⟨fd₀, e₀⟩ := record
    rw [handled_cons]
    rw [List.map_cons, List.nodup_cons] at distinct
    rcases List.mem_cons.mp mem with same | rest
    · obtain ⟨rfl, rfl⟩ := Prod.mk.inj same
      obtain ⟨ev, member⟩ := Event.exists_mem_members (armed fd e (List.mem_cons_self ..))
      obtain ⟨h, there⟩ : ∃ h, m.get? (fd, ev) = some h := by
        have holds := (Event.contains_of_mem_inter member).2
        rw [Registry.armed_contains m fd (Event.isSingle_of_mem_members member)] at holds
        exact Option.isSome_iff_exists.mp holds
      refine ⟨ev, h, member, there, ?_, ?_⟩
      · exact List.mem_append_left _ (Registry.mem_fire m fd member there)
      · refine get?_handled _ found ?_
        rw [get?_report, if_pos ⟨rfl, member⟩]
    · have other : fd ≠ fd₀ := by
        rintro rfl
        exact distinct.1 (List.mem_map.mpr ⟨_, rest, rfl⟩)
      have armed' : ∀ j e', (j, e') ∈ found →
          (e'.inter ((report m fd₀ e₀ (.ok ())).1.armed j)).isEmpty = false := by
        intro j e' there
        have apart : j ≠ fd₀ := by
          rintro rfl
          exact distinct.1 (List.mem_map.mpr ⟨_, there, rfl⟩)
        rw [armed_report m e₀ apart]
        exact armed j e' (List.mem_cons_of_mem _ there)
      obtain ⟨ev, h, member, there, fired, gone⟩ := ih _ distinct.2 armed' rest
      rw [armed_report m e₀ other] at member
      rw [get?_report, if_neg (fun own => other own.1)] at there
      exact ⟨ev, h, member, there, List.mem_append_right _ fired, gone⟩

end Registry

/-- The set of a reactor agrees with its table, and has a place for everything that is ready, but
for the numbers `out`. -/
structure Sight.Vigilant (s : Sight) (out : List Int) : Prop extends s.Agrees where
  alert : s.set.Alert s.descriptors out

variable {io : Manager} {w : World} {m : Registry Handler} {s : Sight} {x : ReactorRecord}
  {out : List Int}

theorem Sight.Step.vigilant {s' : Sight} (step : s.Step s') (h : s.Vigilant out) :
    s'.Vigilant out := by
  refine ⟨step.agrees h.toAgrees, ?_⟩
  cases step with
  | alike same => exact h.alert.alike same
  | told fd after some ok =>
    exact (h.alert.mono (List.subset_cons_self fd out)).tell h.set some ok

theorem Sight.Steps.vigilant {s' : Sight} (steps : s.Steps s') (h : s.Vigilant out) :
    s'.Vigilant out := by
  induction steps with
  | refl => exact h
  | tail _ step ih => exact step.vigilant ih

/-- A record of a report that has to do with what is armed is fired, and its number needs no
exception any more. -/
theorem record_fires (manages : Manages io w) (found : w.reactors.get? io.reactor = some x)
    (holds : x.table.Holds m) {fd : Int} {e : Event} (shows : w.Shows io.reactor s)
    (vigilant : s.Vigilant (fd :: out)) (calm : w.kernel.faults.get? .epollCtl = none)
    (fires : (e.inter (m.armed fd)).isEmpty = false) :
    ∃ w' s',
      (∀ rest, (dispatch io.reactor ((fd, e) :: rest)).on w = (dispatch io.reactor rest).on w') ∧
      Leads io w w' (Registry.report m fd e (.ok ())).1 (Registry.report m fd e (.ok ())).2 ∧
      w'.Shows io.reactor s' ∧ s'.Vigilant out ∧ w'.kernel.faults.get? .epollCtl = none := by
  have masked : x.table.mask fd = m.armed fd := congrArg Reactor.Slot.armed (holds.slot fd)
  obtain ⟨y, same, mask, set, -⟩ := shows.reactor
  obtain rfl := Option.some.inj (found.symm.trans same)
  rw [← masked] at fires
  let left := (x.table.mask fd).without (e.inter (x.table.mask fd))
  have some : (x.table.mask fd).isEmpty = false := Event.isEmpty_of_inter fires
  have armed : (s.mask fd).isEmpty = false := by rw [← mask, some]
  obtain ⟨set', ok⟩ : ∃ set', s.set.tell s.descriptors fd (s.mask fd) left = .ok set' :=
    Epoll.tell_succeeds vigilant.set armed
  let kernel : Kernel.State :=
    { w.kernel with epolls := w.kernel.epolls.put x.epoll set' }
  have told : (Reactor.epollPoller x.epoll).tell w.kernel fd (x.table.mask fd) left =
      (kernel, .ok ()) := by
    rw [mask]
    exact Kernel.State.tell_calm calm set (by rw [shows.descriptors, ok])
  have answer : w.pollerAnswer io.reactor fd (m.armed fd)
      ((m.armed fd).without (e.inter (m.armed fd))) = .ok () := by
    rw [World.pollerAnswer, found, Option.getD_some, ← masked, told]
  obtain ⟨w', run, leads⟩ := record_leads manages found holds fd e answer
  -- the world is the one in which the table was told, but for queues, handles and the log
  have known := holds.lookup?_of_armed (by rw [← masked, some])
  have asked : Asked (Reactor.epollPoller x.epoll) w.kernel x.table fd left
      (x.table.dispatch (Reactor.epollPoller x.epoll) w.kernel fd e).1
      (x.table.dispatch (Reactor.epollPoller x.epoll) w.kernel fd e).2.1 :=
    Reactor.FdTable.dispatch_asked known fires
  cases res : x.table.dispatch (Reactor.epollPoller x.epoll) w.kernel fd e with
  | mk k rest =>
    obtain ⟨t, d⟩ := rest
    rw [res] at asked
    change Asked _ _ _ _ _ k t at asked
    have steady : Steady (w.withTable io.reactor k t) w' := by
      have one := (dispatch_one_on found res).symm.trans (run [])
      have steady := reported_steadily fd d (w.withTable io.reactor k t)
      rwa [one] at steady
    cases asked with
    | refused told' =>
      rw [told] at told'
      cases told'
    | agreed told' masks =>
      obtain rfl : kernel = k := congrArg Prod.fst (told.symm.trans told')
      obtain ⟨set₁, ok₁, later⟩ := shows.agreed found told' masks
      obtain ⟨set₂, alike, seen⟩ := later.steady steady leads.manages.held
      have step : s.Step ⟨Epoll.changed s.mask fd left, s.descriptors, set₁⟩ :=
        .told fd left (.inl armed) ok₁
      have alert := vigilant.alert.tell vigilant.set (.inl armed) ok₁
      refine ⟨w', _, run, leads, seen, ?_, steady.calm _ calm⟩
      exact Sight.Step.vigilant (.alike alike) ⟨step.agrees vigilant.toAgrees, alert⟩

/-- A report of different numbers is fired record by record. -/
theorem report_fires (manages : Manages io w)
    (holds : ∀ x, w.reactors.get? io.reactor = some x → x.table.Holds m)
    (shows : w.Shows io.reactor s) (calm : w.kernel.faults.get? .epollCtl = none)
    (found : List (Int × Event)) (vigilant : s.Vigilant (found.map (·.1)))
    (distinct : (found.map (·.1)).Nodup)
    (armed : ∀ fd e, (fd, e) ∈ found → (e.inter (m.armed fd)).isEmpty = false) :
    ∃ w' s', (dispatch io.reactor found).on w = (.ok (), w') ∧
      Leads io w w' (Registry.handled m found).1 (Registry.handled m found).2 ∧
      w'.Shows io.reactor s' ∧ s'.Vigilant [] := by
  induction found generalizing w m s with
  | nil => exact ⟨w, s, rfl, ⟨manages, holds, fun _ x h => ⟨x, h, (List.append_nil _).symm⟩⟩, shows,
      vigilant⟩
  | cons record found ih =>
    obtain ⟨fd, e⟩ := record
    rw [List.map_cons] at vigilant
    rw [List.map_cons, List.nodup_cons] at distinct
    obtain ⟨x, there, -⟩ := id manages.held
    obtain ⟨v, s₁, run, leads, shows₁, vigilant₁, calm₁⟩ := record_fires manages there
      (holds x there) shows vigilant calm (armed fd e (List.mem_cons_self ..))
    have armed₁ : ∀ j e', (j, e') ∈ found →
        (e'.inter ((Registry.report m fd e (.ok ())).1.armed j)).isEmpty = false := by
      intro j e' mem
      have apart : j ≠ fd := by
        rintro rfl
        exact distinct.1 (List.mem_map.mpr ⟨_, mem, rfl⟩)
      rw [Registry.armed_report m e apart]
      exact armed j e' (List.mem_cons_of_mem _ mem)
    obtain ⟨w', s', rest, leads', shows', vigilant'⟩ :=
      ih leads.manages leads.table shows₁ calm₁ vigilant₁ distinct.2 armed₁
    refine ⟨w', s', (run found).trans rest, ?_, shows', vigilant'⟩
    rw [Registry.handled_cons]
    exact leads.trans leads'

end Fibers.Script
