import Fibers.Proofs.Scheduler.View

/-!
What is known of the fibers of a view. A `Cell` says of one fiber in which state it is, which body
it has still to run, how many handles it has at least, and which frames are put away for it. A
`Floor` is a view whose fibers are in order and of which some cells are known; resuming a fiber and
handing control back change two cells.
-/

namespace Fibers

namespace FiberTable

variable {β : Type}

/-- A fiber at rest that is taken out leaves the others in order. -/
theorem Ordered.erase {t : FiberTable β} {c id : FiberId} {links : List FiberId}
    (h : t.Ordered c links) (off : id ∉ c :: links) (live : Nat) :
    Ordered { t with records := t.records.erase id, live := live } c links := by
  have standing : ∀ j, ({ t with records := t.records.erase id, live := live } :
      FiberTable β).standing j = if j = id then none else t.standing j := by
    intro j
    change Option.map _ ((t.records.erase id).get? j) = _
    rw [Table.get?_erase]
    split <;> rfl
  refine h.congr (fun j mem => ?_) (fun j s hs out => ?_) fun j s hs => ?_
  · rw [standing, if_neg]
    rintro rfl
    exact off mem
  · rw [standing] at hs
    split at hs
    · cases hs
    · exact h.apart j s hs out
  · rw [standing] at hs
    split at hs
    · cases hs
    · exact h.numbered j s hs

end FiberTable

namespace Script

/-- What is known of a fiber. -/
structure Cell where
  id : FiberId
  state : FiberState
  entry : Option Body
  /-- The least number of handles. -/
  handles : Nat
  /-- The frames that are put away, where they matter. -/
  frames : Option (List Frame)

def Cell.Holds (x : Cell) (v : View) : Prop :=
  (∃ r, v.fibers.get? x.id = some r ∧ r.state = x.state ∧ r.entry = x.entry ∧
    x.handles ≤ r.handles) ∧
    ∀ fs, x.frames = some fs → v.saved.get? x.id = some fs

variable {v v' : View} {x y : Cell} {cells : List Cell} {a b : FiberId} {chain : List FiberId}

theorem Cell.Holds.congr (h : x.Holds v) (fibers : v'.fibers.get? x.id = v.fibers.get? x.id)
    (saved : v'.saved.get? x.id = v.saved.get? x.id) : x.Holds v' := by
  unfold Cell.Holds
  rw [fibers, saved]
  exact h

/-- What is known of a fiber after its record was changed. -/
theorem Cell.Holds.update (h : x.Holds v) {f : FiberRecord Body → FiberRecord Body} {s : FiberState}
    {e : Option Body} {n : Nat} {frames : Option (List Frame)}
    (fibers : v'.fibers.get? x.id = (v.fibers.get? x.id).map f)
    (changed : ∀ r, r.entry = x.entry → x.handles ≤ r.handles →
      (f r).state = s ∧ (f r).entry = e ∧ n ≤ (f r).handles)
    (saved : ∀ fs, frames = some fs → v'.saved.get? x.id = some fs) :
    Cell.Holds ⟨x.id, s, e, n, frames⟩ v' := by
  obtain ⟨⟨r, found, _, entry, handles⟩, _⟩ := h
  refine ⟨⟨f r, ?_, changed r entry handles⟩, saved⟩
  rw [fibers, found]
  rfl

/-- What is known of some fibers after the record of the first one was changed, but for its
standing. -/
theorem Cell.holds_modify (holds : ∀ y ∈ x :: cells, y.Holds v)
    (distinct : ((x :: cells).map Cell.id).Nodup) {f : FiberRecord Body → FiberRecord Body}
    {e : Option Body} {n : Nat} (standing : ∀ r, (f r).standing = r.standing)
    (changed : ∀ r, r.entry = x.entry → x.handles ≤ r.handles →
      (f r).entry = e ∧ n ≤ (f r).handles) :
    ∀ y ∈ { x with entry := e, handles := n } :: cells,
      Cell.Holds y { v with fibers := v.fibers.modify x.id f } := by
  intro y mem
  have fibers := fun j => FiberTable.get?_modify v.fibers x.id j f
  rcases List.mem_cons.mp mem with rfl | mem
  · obtain ⟨⟨r, found, state, entry, handles⟩, frames⟩ := holds x List.mem_cons_self
    have state' : (f r).state = r.state := congrArg Standing.state (standing r)
    refine ⟨⟨f r, ?_, state'.trans state, changed r entry handles⟩, frames⟩
    change (v.fibers.modify x.id f).get? x.id = _
    rw [fibers, if_pos rfl, found]
    rfl
  · have other : y.id ≠ x.id := fun e =>
      (List.nodup_cons.mp distinct).1 (e ▸ List.mem_map_of_mem mem)
    exact (holds y (List.mem_cons_of_mem x mem)).congr ((fibers y.id).trans (if_neg other)) rfl

/-- The fibers are in order, and of some of them the cells are known. Which fiber runs is left open,
for the thread may still be without its main fiber. -/
structure Ground (v : View) (chain : List FiberId) (cells : List Cell) : Prop where
  order : v.fibers.Orderly v.current chain
  holds : ∀ x ∈ cells, x.Holds v
  distinct : (cells.map Cell.id).Nodup

namespace Ground

theorem congr (h : Ground v chain cells) (fibers : v'.fibers = v.fibers)
    (saved : v'.saved = v.saved) (current : v'.current = v.current) : Ground v' chain cells where
  order := by
    rw [fibers, current]
    exact h.order
  holds x mem := (h.holds x mem).congr (by rw [fibers]) (by rw [saved])
  distinct := h.distinct

theorem perm {cells' : List Cell} (h : Ground v chain cells) (p : cells.Perm cells') :
    Ground v chain cells' where
  order := h.order
  holds x mem := h.holds x (p.mem_iff.mpr mem)
  distinct := (p.map Cell.id).nodup_iff.mp h.distinct

/-- Cells of which nothing more is asked. -/
theorem forget (h : Ground v chain (x :: cells)) : Ground v chain cells where
  order := h.order
  holds y mem := h.holds y (List.mem_cons_of_mem x mem)
  distinct := (List.nodup_cons.mp h.distinct).2

/-- One more cell is known. -/
theorem joined (h : Ground v chain cells) (holds : x.Holds v) (new : ∀ y ∈ cells, y.id ≠ x.id) :
    Ground v chain (x :: cells) where
  order := h.order
  holds := List.forall_mem_cons.mpr ⟨holds, h.holds⟩
  distinct := by
    refine List.nodup_cons.mpr ⟨fun mem => ?_, h.distinct⟩
    obtain ⟨y, member, same⟩ := List.mem_map.mp mem
    exact new y member same

/-- A change of a record that concerns neither states nor order. -/
theorem modify (h : Ground v chain (x :: cells)) {f : FiberRecord Body → FiberRecord Body}
    {e : Option Body} {n : Nat} (standing : ∀ r, (f r).standing = r.standing)
    (changed : ∀ r, r.entry = x.entry → x.handles ≤ r.handles →
      (f r).entry = e ∧ n ≤ (f r).handles) :
    Ground { v with fibers := v.fibers.modify x.id f } chain
      ({ x with entry := e, handles := n } :: cells) where
  order := h.order.of_same (fun _ => FiberTable.standing_modify_same _ _ _ standing) rfl
  holds := Cell.holds_modify h.holds h.distinct standing changed
  distinct := h.distinct

theorem retain (h : Ground v chain (x :: cells)) :
    Ground { v with fibers := v.fibers.retain x.id } chain
      ({ x with handles := x.handles + 1 } :: cells) :=
  h.modify (fun _ => rfl) fun _ entry handles => ⟨entry, Nat.succ_le_succ handles⟩

/-- A fiber more. -/
theorem created (h : Ground v chain cells) (body : Body) (stack : Nat) (inScheduler : Bool) :
    Ground (v.withFiber body stack inScheduler) chain
      (⟨⟨v.fibers.lastId + 1⟩, .init, some body, 1, some [.fiberStart ⟨v.fibers.lastId + 1⟩]⟩ ::
        cells) := by
  have fresh : ∀ x ∈ cells, x.id ≠ ⟨v.fibers.lastId + 1⟩ := by
    intro x mem e
    obtain ⟨⟨r, found, _⟩, _⟩ := h.holds x mem
    have standing : v.fibers.standing x.id = some r.standing := by
      rw [FiberTable.standing, found]
      rfl
    have old := h.order.numbered standing
    rw [e] at old
    exact Nat.not_succ_le_self _ old
  refine ⟨h.order.create body stack inScheduler, fun x mem => ?_, ?_⟩
  · rcases List.mem_cons.mp mem with rfl | mem
    · refine ⟨⟨_, Table.get?_put_self _ _ _, rfl, rfl, Nat.le_refl 1⟩, ?_⟩
      rintro _ ⟨⟩
      exact Table.get?_put_self _ _ _
    · exact (h.holds x mem).congr (Table.get?_put_other _ _ (fresh x mem))
        (Table.get?_put_other _ _ (fresh x mem))
  · refine List.nodup_cons.mpr ⟨fun mem => ?_, h.distinct⟩
    obtain ⟨x, mem, e⟩ := List.mem_map.mp mem
    exact fresh x mem e

end Ground

/-- The running fiber is `a`, the others are in order, and of some of them the cells are known. -/
structure Floor (v : View) (a : FiberId) (chain : List FiberId) (cells : List Cell) : Prop where
  current : v.current = some a
  order : v.fibers.Ordered a chain
  holds : ∀ x ∈ cells, x.Holds v
  distinct : (cells.map Cell.id).Nodup

theorem Ground.floor (h : Ground v chain cells) (current : v.current = some a) :
    Floor v a chain cells where
  current := current
  order := by
    have order := h.order
    rw [current] at order
    exact order
  holds := h.holds
  distinct := h.distinct

namespace Floor

theorem ground (h : Floor v a chain cells) : Ground v chain cells where
  order := by
    rw [h.current]
    exact h.order
  holds := h.holds
  distinct := h.distinct

theorem perm {cells' : List Cell} (h : Floor v a chain cells) (p : cells.Perm cells') :
    Floor v a chain cells' := (h.ground.perm p).floor h.current

/-- A fiber that has not begun or is ready is at rest. -/
theorem resting (h : Floor v a chain cells) (mem : x ∈ cells) (idle : x.state ≠ .exec)
    (free : x.state ≠ .hold) :
    ∃ r, v.fibers.get? x.id = some r ∧ r.state = x.state ∧ r.standing.Resting ∧
      x.id ∉ a :: chain := by
  obtain ⟨⟨r, found, state, _⟩, _⟩ := h.holds x mem
  have standing : v.fibers.standing x.id = some r.standing := by
    rw [FiberTable.standing, found]
    rfl
  have state' : r.standing.state = x.state := state
  refine ⟨r, found, state, ?_⟩
  rcases h.order.cases standing with ⟨_, exec, _⟩ | ⟨_, hold, _⟩ | ⟨off, rest⟩
  · exact absurd (state'.symm.trans exec) idle
  · exact absurd (state'.symm.trans hold) free
  · exact ⟨rest, off⟩

/-- The running fiber `a` resumes `b`, which waits for nobody. -/
theorem entered_off {ea eb : Option Body} {na nb : Nat} {fa : Option (List Frame)} {fs : List Frame}
    {st : FiberState}
    (h : Floor v a chain (⟨a, .exec, ea, na, fa⟩ :: ⟨b, st, eb, nb, some fs⟩ :: cells))
    (resumes : st.isResumable = true) (off : b ∉ a :: chain) :
    ∃ t, v.fibers.resume v.current b true = .ok t ∧ t.told = none ∧
      Floor (v.followed t) b (a :: chain)
        (⟨a, .hold, ea, na, some v.frames⟩ :: ⟨b, .exec, eb, nb, none⟩ :: cells) ∧
      (v.followed t).frames = fs := by
  obtain ⟨⟨r, found, state, _⟩, _⟩ := h.holds ⟨b, st, eb, nb, some fs⟩ (by simp)
  have state : r.state = st := state
  have other : b ≠ a := fun e => off (e ▸ List.mem_cons_self)
  have standing : v.fibers.standing b = some r.standing := by
    rw [FiberTable.standing, found]
    rfl
  have rest : r.standing.Resting := by
    rcases h.order.cases standing with ⟨rfl, _⟩ | ⟨mem, _⟩ | ⟨_, rest⟩
    · exact absurd rfl other
    · exact absurd (List.mem_cons_of_mem a mem) off
    · exact rest
  have told := FiberTable.standing_depart v.fibers other b
  rw [if_pos rfl, standing] at told
  have resumable : r.state.isResumable = true := by
    rw [state, resumes]
  have ok : v.fibers.resume v.current b true = .ok ⟨v.fibers.depart a b, a, b, none⟩ := by
    have fault : v.fibers.resumeFault? b true = none := by
      have own : r.isMain = false := rest.own
      simp only [FiberTable.resumeFault?, found, resumable, own]
      simp
    have distinct : ¬some a = some b := fun e => other (Option.some.inj e).symm
    rw [FiberTable.resume, fault, h.current, if_neg distinct]
    exact congrArg Except.ok (FiberTable.transfer_of_standing a told rest.awaiting)
  have frames := (h.holds ⟨b, st, eb, nb, some fs⟩ (by simp)).2 fs rfl
  refine ⟨_, ok, rfl, ⟨rfl, h.order.depart standing off rest, ?_, h.distinct⟩, ?_⟩
  · have names := h.distinct
    simp only [List.map_cons, List.nodup_cons, List.mem_cons, not_or] at names
    obtain ⟨⟨_, offA⟩, offB, _⟩ := names
    have fibers := fun j => FiberTable.get?_depart v.fibers other j
    have saved : ∀ j, j ≠ b → ((v.saved.put a v.frames).erase b).get? j =
        if j = a then some v.frames else v.saved.get? j := by
      intro j hj
      rw [Table.get?_erase, if_neg hj, Table.get?_put]
    intro x mem
    rcases List.mem_cons.mp mem with rfl | mem
    · have hold : (v.fibers.depart a b).get? a =
          (v.fibers.get? a).map fun r => { r with state := .hold, awaiting := some b } := by
        rw [fibers, if_neg other.symm, if_pos rfl]
      refine (h.holds _ List.mem_cons_self).update hold (fun r entry handles =>
        ⟨rfl, entry, handles⟩) ?_
      · rintro _ ⟨⟩
        exact (saved a other.symm).trans (if_pos rfl)
    · rcases List.mem_cons.mp mem with rfl | mem
      · refine (h.holds ⟨b, st, eb, nb, some fs⟩ (by simp)).update ((fibers b).trans (if_pos rfl))
          (fun r entry handles => ⟨rfl, entry, handles⟩) nofun
      · have hb : x.id ≠ b := fun e => offB (e ▸ List.mem_map_of_mem mem)
        have ha : x.id ≠ a := fun e => offA (e ▸ List.mem_map_of_mem mem)
        refine (h.holds x (by simp [mem])).congr ((fibers x.id).trans ?_) ((saved x.id hb).trans ?_)
        · rw [if_neg hb, if_neg ha]
        · rw [if_neg ha]
  · change (v.saved.get? b).getD [] = fs
    rw [frames]
    rfl

/-- The running fiber `a` resumes `b`, which has not begun or is ready. -/
theorem entered {ea eb : Option Body} {na nb : Nat} {fa : Option (List Frame)} {fs : List Frame}
    {st : FiberState}
    (h : Floor v a chain (⟨a, .exec, ea, na, fa⟩ :: ⟨b, st, eb, nb, some fs⟩ :: cells))
    (rests : st = .init ∨ st = .ready) :
    ∃ t, v.fibers.resume v.current b true = .ok t ∧ t.told = none ∧
      Floor (v.followed t) b (a :: chain)
        (⟨a, .hold, ea, na, some v.frames⟩ :: ⟨b, .exec, eb, nb, none⟩ :: cells) ∧
      (v.followed t).frames = fs := by
  obtain ⟨_, _, _, _, off⟩ := h.resting (x := ⟨b, st, eb, nb, some fs⟩) (by simp)
    (by rcases rests with rfl | rfl <;> exact nofun)
    (by rcases rests with rfl | rfl <;> exact nofun)
  refine h.entered_off ?_ off
  rcases rests with rfl | rfl <;> rfl

/-- The running fiber `b` hands control back to `a`, and leaves in a state. -/
theorem handed {ea eb : Option Body} {na nb : Nat} {fb : Option (List Frame)} {fs : List Frame}
    (h : Floor v b (a :: chain) (⟨b, .exec, eb, nb, fb⟩ :: ⟨a, .hold, ea, na, some fs⟩ :: cells))
    (left : FiberState) (gone : left ≠ .exec) :
    ∃ t, v.fibers.handBack b left = .ok t ∧ v.fibers.yield v.current left = .ok t ∧
      t.told = some left ∧
      Floor (v.followed t) a chain
        (⟨a, .exec, ea, na, none⟩ :: ⟨b, left, eb, nb, some v.frames⟩ :: cells) ∧
      (v.followed t).frames = fs := by
  have other : a ≠ b := fun e => (List.nodup_cons.mp h.order.nodup).1 (e ▸ List.mem_cons_self)
  have ok := h.order.handBack_ok left
  have yields : v.fibers.yield v.current left =
      .ok ⟨v.fibers.handedBack b a left, b, a, some left⟩ := by
    have inFiber : v.fibers.inFiber (some b) = true :=
      (show v.fibers.Orderly (some b) (a :: chain) from h.order).inFiber_iff.mpr
        ⟨b, a, chain, rfl, rfl⟩
    rw [h.current, FiberTable.yield, inFiber, if_pos rfl, ok]
  have frames := (h.holds ⟨a, .hold, ea, na, some fs⟩ (by simp)).2 fs rfl
  refine ⟨_, ok, yields, rfl, ⟨rfl, h.order.handedBack gone, ?_, ?_⟩, ?_⟩
  · have names := h.distinct
    simp only [List.map_cons, List.nodup_cons, List.mem_cons, not_or] at names
    obtain ⟨⟨_, offB⟩, offA, _⟩ := names
    have fibers := fun j => FiberTable.get?_handedBack v.fibers left other j
    have saved : ∀ j, j ≠ a → ((v.saved.put b v.frames).erase a).get? j =
        if j = b then some v.frames else v.saved.get? j := by
      intro j hj
      rw [Table.get?_erase, if_neg hj, Table.get?_put]
    intro x mem
    rcases List.mem_cons.mp mem with rfl | mem
    · have exec : (v.fibers.handedBack b a left).get? a =
          (v.fibers.get? a).map fun r => { r with state := .exec, awaiting := none } := by
        rw [fibers, if_neg other, if_pos rfl]
      exact (h.holds ⟨a, .hold, ea, na, some fs⟩ (by simp)).update exec
        (fun r entry handles => ⟨rfl, entry, handles⟩) nofun
    · rcases List.mem_cons.mp mem with rfl | mem
      · refine (h.holds _ List.mem_cons_self).update ((fibers b).trans (if_pos rfl))
          (fun r entry handles => ⟨rfl, entry, handles⟩) ?_
        rintro _ ⟨⟩
        exact (saved b other.symm).trans (if_pos rfl)
      · have hb : x.id ≠ b := fun e => offB (e ▸ List.mem_map_of_mem mem)
        have ha : x.id ≠ a := fun e => offA (e ▸ List.mem_map_of_mem mem)
        refine (h.holds x (by simp [mem])).congr ((fibers x.id).trans ?_) ((saved x.id ha).trans ?_)
        · rw [if_neg hb, if_neg ha]
        · rw [if_neg hb]
  · exact (List.Perm.swap _ _ _).nodup_iff.mp h.distinct
  · change (v.saved.get? a).getD [] = fs
    rw [frames]
    rfl

/-- A change of a record that concerns neither states nor order. -/
theorem modify (h : Floor v a chain (x :: cells)) {f : FiberRecord Body → FiberRecord Body}
    {e : Option Body} {n : Nat} (standing : ∀ r, (f r).standing = r.standing)
    (changed : ∀ r, r.entry = x.entry → x.handles ≤ r.handles →
      (f r).entry = e ∧ n ≤ (f r).handles) :
    Floor { v with fibers := v.fibers.modify x.id f } a chain
      ({ x with entry := e, handles := n } :: cells) :=
  (h.ground.modify standing changed).floor h.current

theorem retain (h : Floor v a chain (x :: cells)) :
    Floor { v with fibers := v.fibers.retain x.id } a chain
      ({ x with handles := x.handles + 1 } :: cells) :=
  h.modify (fun _ => rfl) fun _ entry handles => ⟨entry, Nat.succ_le_succ handles⟩

/-- A handle of a fiber less, of several. -/
theorem release_several (h : Floor v a chain (x :: cells)) (several : 2 ≤ x.handles) :
    Floor (v.released x.id) a chain ({ x with handles := x.handles - 1 } :: cells) := by
  obtain ⟨⟨r, found, _, _, handles⟩, _⟩ := h.holds x List.mem_cons_self
  have more : 1 < r.handles := Nat.lt_of_lt_of_le several handles
  unfold View.released
  rw [found]
  dsimp only
  rw [if_pos more]
  refine h.modify (fun _ => rfl) fun q entry handles => ⟨entry, ?_⟩
  change x.handles - 1 ≤ q.handles - 1
  omega

/-- The body of the running fiber is taken out to be run. -/
theorem begun {s : FiberState} {e : Option Body} {n : Nat} {fr : Option (List Frame)}
    (h : Floor v a chain (⟨b, s, e, n, fr⟩ :: cells)) :
    (v.fibers.takeEntry b).2 = e ∧
      Floor { v with fibers := (v.fibers.takeEntry b).1 } a chain
        (⟨b, s, none, n, fr⟩ :: cells) := by
  obtain ⟨⟨r, found, _, entry, _⟩, _⟩ := h.holds _ List.mem_cons_self
  refine ⟨?_, h.modify (fun _ => rfl) fun _ _ handles => ⟨rfl, handles⟩⟩
  change (v.fibers.get? b).bind (·.entry) = e
  rw [found]
  exact entry

/-- Cells of which nothing more is asked. -/
theorem forget (h : Floor v a chain (x :: cells)) : Floor v a chain cells :=
  h.ground.forget.floor h.current

/-- A fiber at rest is let go of. -/
theorem released (h : Floor v a chain (x :: cells)) (idle : x.state ≠ .exec)
    (free : x.state ≠ .hold) : Floor (v.released x.id) a chain cells := by
  obtain ⟨r, found, _, _, off⟩ := h.resting List.mem_cons_self idle free
  unfold View.released
  rw [found]
  dsimp only
  split
  · exact (h.modify (f := fun r => { r with handles := r.handles - 1 }) (e := x.entry) (n := 0)
      (fun _ => rfl) fun _ entry _ => ⟨entry, Nat.zero_le _⟩).forget
  · refine ⟨h.current, h.order.erase off _, fun y mem => ?_, (List.nodup_cons.mp h.distinct).2⟩
    have other : y.id ≠ x.id := fun e =>
      (List.nodup_cons.mp h.distinct).1 (e ▸ List.mem_map_of_mem mem)
    exact (h.holds y (List.mem_cons_of_mem x mem)).congr (Table.get?_erase_other _ other)
      (Table.get?_erase_other _ other)

/-- A fiber more. -/
theorem created (h : Floor v a chain cells) (body : Body) (stack : Nat) (inScheduler : Bool) :
    Floor (v.withFiber body stack inScheduler) a chain
      (⟨⟨v.fibers.lastId + 1⟩, .init, some body, 1, some [.fiberStart ⟨v.fibers.lastId + 1⟩]⟩ ::
        cells) :=
  (h.ground.created body stack inScheduler).floor h.current

/-- A fiber that has ended is made to begin again with a body. -/
theorem restarted {s : FiberState} {n : Nat} {fr : Option (List Frame)}
    (h : Floor v a chain (⟨b, s, none, n, fr⟩ :: cells)) (ended : s.isTerminal = true)
    (body : Body) :
    v.fibers.reset b body = .ok (v.fibers.restarted b body) ∧
      Floor
        { v with fibers := v.fibers.restarted b body, saved := v.saved.put b [.fiberStart b] }
        a chain (⟨b, .init, some body, n, some [.fiberStart b]⟩ :: cells) := by
  obtain ⟨r, found, state, rest, off⟩ := h.resting (x := ⟨b, s, none, n, fr⟩) (by simp)
    (by rintro rfl; cases ended) (by rintro rfl; cases ended)
  have standing : v.fibers.standing b = some r.standing := by
    rw [FiberTable.standing, found]
    rfl
  have resettable : r.state.isResettable = true := by
    rw [state]
    cases s <;> first | rfl | cases ended
  have own : r.isMain = false := rest.own
  refine ⟨?_, h.current, h.order.restarted body standing resettable, fun x mem => ?_, h.distinct⟩
  · have fault : v.fibers.resetFault? b = none := by
      simp only [FiberTable.resetFault?, found, resettable, own]
      simp
    rw [FiberTable.reset, fault]
    rfl
  · have fibers := fun j => FiberTable.get?_modify v.fibers b j fun r =>
      { r with entry := some body, state := .init, awaiting := none }
    rcases List.mem_cons.mp mem with rfl | mem
    · refine (h.holds ⟨b, s, none, n, fr⟩ (by simp)).update ((fibers b).trans (if_pos rfl))
        (fun _ _ handles => ⟨rfl, rfl, handles⟩) ?_
      rintro _ ⟨⟩
      exact Table.get?_put_self _ _ _
    · have other : x.id ≠ b := fun e =>
        (List.nodup_cons.mp h.distinct).1 (List.mem_map.mpr ⟨x, mem, e⟩)
      exact (h.holds x (List.mem_cons_of_mem _ mem)).congr ((fibers x.id).trans (if_neg other))
        (Table.get?_put_other _ _ other)

end Floor

end Script

end Fibers
