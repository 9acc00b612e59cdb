import Fibers.Proofs.Kernel.Deeds

/-!
News of deeds. A file is ready for a mask when it has something for it, an error or a hang-up. A
deed that makes a file ready for a mask for which it was not ready has news for the mask.
-/

namespace Fibers.Kernel

/-- Whether news concern a registration: they are about its file, and for everyone or for an event
of its mask. -/
def News.concerns (n : News) (r : Registration) : Bool :=
  r.file == n.file &&
    match n.events with
    | none => true
    | some events => events.intersects r.mask

/-- The other end of a pipe or a socket. -/
def OpenFile.peer : OpenFile → OpenFile
  | .pipeReader p => .pipeWriter p
  | .pipeWriter p => .pipeReader p
  | .socket s e => .socket s (!e)
  | .null => .null

/-- Whether there is something to report for a mask. -/
def Readiness.readyFor (r : Readiness) (mask : Event) : Bool := !(r.masked mask).isEmpty

/-- What is new in a later readiness is one of the events. -/
structure Readiness.Later (old new : Readiness) (events : Event) : Prop where
  input : new.input = true → old.input = true ∨ events.read = true
  output : new.output = true → old.output = true ∨ events.write = true
  error : new.error = true → old.error = true
  hangup : new.hangup = true → old.hangup = true

theorem Readiness.Later.refl (r : Readiness) : r.Later r .none := ⟨.inl, .inl, id, id⟩

theorem Readiness.readyFor_iff (r : Readiness) (mask : Event) : r.readyFor mask = true ↔
    (r.input = true ∧ mask.read = true) ∨ (r.output = true ∧ mask.write = true) ∨
      r.error = true ∨ r.hangup = true := by
  simp [readyFor, masked, isEmpty, Bool.or_assoc]

theorem Readiness.Later.readyFor {old new : Readiness} {events mask : Event}
    (h : old.Later new events) (ready : new.readyFor mask = true) :
    old.readyFor mask = true ∨ events.intersects mask = true := by
  have hit : events.intersects mask = true ↔
      (events.read = true ∧ mask.read = true) ∨ (events.write = true ∧ mask.write = true) := by
    simp [Event.intersects, Event.inter, Event.isEmpty]
  rw [readyFor_iff] at ready ⊢
  rw [hit]
  obtain ⟨input, wanted⟩ | ⟨output, wanted⟩ | error | hangup := ready
  · rcases h.input input with before | told
    · exact .inl (.inl ⟨before, wanted⟩)
    · exact .inr (.inl ⟨told, wanted⟩)
  · rcases h.output output with before | told
    · exact .inl (.inr (.inl ⟨before, wanted⟩))
    · exact .inr (.inr ⟨told, wanted⟩)
  · exact .inl (.inr (.inr (.inl (h.error error))))
  · exact .inl (.inr (.inr (.inr (h.hangup hangup))))

namespace Descriptors

variable {d d' : Descriptors} {news : List News} {i : Nat} {f : OpenFile}

/-- Whoever waits for a file that became ready is told so. -/
def Announces (d d' : Descriptors) (news : List News) : Prop :=
  ∀ r f, d.files.get? r.file = some f → d'.files.get? r.file = some f →
    (d'.readiness f).readyFor r.mask = true →
    (d.readiness f).readyFor r.mask = true ∨ ∃ n ∈ news, n.concerns r = true

theorem announces_refl (d : Descriptors) (news : List News) : d.Announces d news :=
  fun _ _ _ _ ready => .inl ready

/-- An end of a pipe or a socket is open under one identity. -/
theorem Sound.idOf?_eq (h : d.Sound) (found : d.files.get? i = some f) (end_ : f ≠ .null) :
    d.idOf? f = some i := by
  have mem := Table.mem_of_get? found
  cases first : d.files.entries.find? fun e => decide (e.2 = f) with
  | none => simpa using List.find?_eq_none.mp first _ mem
  | some e =>
    have same : e.2 = f := by simpa using List.find?_some first
    have there : d.files.get? e.1 = some f := by
      rw [← same]
      exact Table.get?_of_mem h.distinct (List.mem_of_find?_eq_some first)
    rw [idOf?, first, Option.map_some, h.one _ _ _ there found end_]

theorem Sound.newsFor_eq (h : d.Sound) (found : d.files.get? i = some f) (end_ : f ≠ .null)
    (events : Option Event) : d.newsFor f events = [⟨i, events⟩] := by
  rw [newsFor, h.idOf?_eq found end_]

theorem newsFor_congr (files : d'.files = d.files) (f : OpenFile) (events : Option Event) :
    d'.newsFor f events = d.newsFor f events := by
  simp only [newsFor, idOf?, files]

/-- It is enough to have news for the events that are new of each file. -/
theorem announces_of (h : ∀ i f, d.files.get? i = some f → ∃ events,
    (d.readiness f).Later (d'.readiness f) events ∧
      (events = .none ∨ ⟨i, some events⟩ ∈ news)) : d.Announces d' news := by
  intro r f found _ ready
  obtain ⟨events, later, told⟩ := h r.file f found
  rcases later.readyFor ready with before | wanted
  · exact .inl before
  · rcases told with rfl | told
    · cases wanted
    · exact .inr ⟨_, told, by simp [News.concerns, wanted]⟩

/-- A pipe whose ends stay as they are. -/
theorem announces_pipe (sound : d.Sound) {p : Nat} {old : Pipe} (found : d.pipes.get? p = some old)
    (pages : List Page)
    (input : pages ≠ [] → old.pages ≠ [] ∨ news = d.newsFor (.pipeReader p) (some .readable))
    (output : pages.length < maxPages → old.pages.length < maxPages ∨
      news = d.newsFor (.pipeWriter p) (some .writable)) :
    d.Announces { d with pipes := d.pipes.put p { old with pages := pages } } news := by
  refine announces_of fun i f there => ?_
  cases f with
  | pipeReader q =>
    by_cases hq : q = p
    · subst hq
      rw [sound.newsFor_eq there (by simp)] at input
      simp only [readiness, Table.get?_put_self, found]
      by_cases told : pages ≠ [] ∧ old.pages = []
      · have news := (input told.1).resolve_left (by simp [told.2])
        exact ⟨.readable, ⟨fun _ => .inr rfl, .inl, id, id⟩, .inr (by simp [news])⟩
      · refine ⟨.none, ⟨fun now => .inl ?_, .inl, id, id⟩, .inl rfl⟩
        simp only [Bool.not_eq_true', List.isEmpty_eq_false_iff] at now ⊢
        exact fun before => told ⟨now, before⟩
    · refine ⟨.none, ?_, .inl rfl⟩
      simp only [readiness, Table.get?_put, if_neg hq]
      exact .refl _
  | pipeWriter q =>
    by_cases hq : q = p
    · subst hq
      rw [sound.newsFor_eq there (by simp)] at output
      simp only [readiness, Table.get?_put_self, found, Pipe.isFull]
      by_cases told : pages.length < maxPages ∧ ¬old.pages.length < maxPages
      · have news := (output told.1).resolve_left told.2
        exact ⟨.writable, ⟨.inl, fun _ => .inr rfl, id, id⟩, .inr (by simp [news])⟩
      · refine ⟨.none, ⟨.inl, fun now => .inl ?_, id, id⟩, .inl rfl⟩
        simp only [Bool.not_eq_true', decide_eq_false_iff_not, Nat.not_le] at now ⊢
        omega
    · refine ⟨.none, ?_, .inl rfl⟩
      simp only [readiness, Table.get?_put, if_neg hq]
      exact .refl _
  | socket s e => exact ⟨.none, .refl _, .inl rfl⟩
  | null => exact ⟨.none, .refl _, .inl rfl⟩

/-- An end of a socket that stays open or closed, and gets no error. -/
theorem announces_socket (sound : d.Sound) {s : Nat} {e : Bool} {old new : SocketEnd}
    (found : d.sockets.get? (s, e) = some old) (same : new.isOpen = old.isOpen)
    (broken : new.broken = true → old.broken = true)
    (input : new.inbox ≠ [] → old.inbox ≠ [] ∨
      news = d.newsFor (.socket s e) (some .readable)) :
    d.Announces { d with sockets := d.sockets.put (s, e) new } news := by
  refine announces_of fun i f there => ?_
  cases f with
  | socket t x =>
    by_cases own : (t, x) = (s, e)
    · obtain ⟨rfl, rfl⟩ := Prod.mk.inj own
      have other : (t, !x) ≠ (t, x) := by simp
      rw [sound.newsFor_eq there (by simp)] at input
      simp only [readiness, Table.get?_put, if_pos, if_neg other, found]
      cases peer : d.sockets.get? (t, !x) with
      | none => exact ⟨.none, .refl _, .inl rfl⟩
      | some peer =>
        by_cases told : new.inbox ≠ [] ∧ old.inbox = []
        · have news := (input told.1).resolve_left (by simp [told.2])
          exact ⟨.readable, ⟨fun _ => .inr rfl, .inl, broken, id⟩, .inr (by simp [news])⟩
        · refine ⟨.none, ⟨fun now => .inl ?_, .inl, broken, id⟩, .inl rfl⟩
          simp only [Bool.or_eq_true, Bool.not_eq_true', List.isEmpty_eq_false_iff] at now ⊢
          exact now.imp_left fun now before => told ⟨now, before⟩
    · refine ⟨.none, ?_, .inl rfl⟩
      simp only [readiness, Table.get?_put, if_neg own]
      by_cases peer : (t, !x) = (s, e)
      · rw [if_pos peer, peer, found]
        cases d.sockets.get? (t, x) with
        | none => exact .refl _
        | some own =>
          simp only [same]
          exact .refl _
      · rw [if_neg peer]
        exact .refl _
  | pipeReader _ | pipeWriter _ | null => exact ⟨.none, .refl _, .inl rfl⟩

/-- Writing takes no page away. -/
theorem le_writePages_length (pages : List Page) (bytes : List UInt8) :
    pages.length ≤ (writePages pages bytes).1.length := by
  simp only [writePages]
  cases last : pages.getLast? with
  | none => simp
  | some page =>
    have some : pages ≠ [] := by
      rintro rfl
      cases last
    have := List.length_pos_iff.mpr some
    dsimp only
    split
    · simp
      omega
    · simp

theorem write_announces (fd : Int) (bytes : List UInt8) (sound : d.Sound) :
    d.Announces (d.write fd bytes).1 (d.write fd bytes).2.news := by
  unfold write
  cases named : d.file? fd with
  | none => exact announces_refl d _
  | some x =>
    obtain ⟨i, f⟩ := x
    cases f with
    | null | pipeReader _ => exact announces_refl d _
    | pipeWriter p =>
      dsimp only
      cases found : d.pipes.get? p with
      | none => exact announces_refl d _
      | some pipe =>
        dsimp only
        split
        · exact announces_refl d _
        · split
          · exact announces_refl d _
          · split
            · exact announces_refl d _
            · refine announces_pipe sound found _ (fun _ => .inr rfl) fun room => .inl ?_
              have := le_writePages_length pipe.pages bytes
              omega
    | socket s e =>
      dsimp only
      cases found : d.sockets.get? (s, !e) with
      | none => exact announces_refl d _
      | some peer =>
        dsimp only
        split
        · exact announces_refl d _
        · split
          · exact announces_refl d _
          · refine announces_socket sound found ?_ ?_ fun _ => .inr rfl
            · rfl
            · exact id

theorem read_announces (fd : Int) (n : Nat) (sound : d.Sound) :
    d.Announces (d.read fd n).1 (d.read fd n).2.news := by
  unfold read
  cases named : d.file? fd with
  | none => exact announces_refl d _
  | some x =>
    obtain ⟨i, f⟩ := x
    cases f with
    | null | pipeWriter _ => exact announces_refl d _
    | pipeReader p =>
      dsimp only
      cases found : d.pipes.get? p with
      | none => exact announces_refl d _
      | some pipe =>
        dsimp only
        split
        · exact announces_refl d _
        · split
          · exact announces_refl d _
          · next some =>
            refine announces_pipe sound found _ (fun _ => .inl (by simpa using some)) fun room => ?_
            by_cases full : pipe.pages.length < maxPages
            · exact .inl full
            · have freed : (pipe.isFull &&
                  decide ((readPages pipe.pages n).2.length < pipe.pages.length)) = true := by
                simp only [Pipe.isFull, Bool.and_eq_true, decide_eq_true_eq]
                omega
              exact .inr (if_pos freed)
    | socket s e =>
      dsimp only
      cases own : d.sockets.get? (s, e) with
      | none => exact announces_refl d _
      | some old =>
        cases d.sockets.get? (s, !e) with
        | none => exact announces_refl d _
        | some peer =>
          dsimp only
          split
          · exact announces_refl d _
          · split
            · split
              · exact announces_socket sound own rfl (fun h => by cases h) .inl
              · exact announces_refl d _
            · next some =>
              refine announces_socket sound own rfl ?_ fun _ => .inl (by simpa using some)
              exact id

theorem fill_announces (fd : Int) (sound : d.Sound) :
    d.Announces (d.fill fd).1 (d.fill fd).2 := by
  unfold fill
  cases named : d.file? fd with
  | none => exact announces_refl d _
  | some x =>
    obtain ⟨i, f⟩ := x
    cases f with
    | null | pipeReader _ => exact announces_refl d _
    | pipeWriter p =>
      dsimp only
      cases found : d.pipes.get? p with
      | none => exact announces_refl d _
      | some pipe =>
        dsimp only
        split
        · exact announces_refl d _
        · refine announces_pipe sound found _ (fun _ => .inr rfl) fun room => .inl ?_
          simp only [List.length_append, List.length_replicate] at room
          omega
    | socket s e =>
      dsimp only
      cases found : d.sockets.get? (s, !e) with
      | none => exact announces_refl d _
      | some peer =>
        dsimp only
        split
        · exact announces_refl d _
        · refine announces_socket sound found ?_ ?_ fun _ => .inr rfl
          · rfl
          · exact id

theorem drain_announces (fd : Int) (sound : d.Sound) :
    d.Announces (d.drain fd).1 (d.drain fd).2 := by
  unfold drain
  cases named : d.file? fd with
  | none => exact announces_refl d _
  | some x =>
    obtain ⟨i, f⟩ := x
    cases f with
    | null | pipeWriter _ => exact announces_refl d _
    | pipeReader p =>
      dsimp only
      cases found : d.pipes.get? p with
      | none => exact announces_refl d _
      | some pipe =>
        refine announces_pipe sound found [] (absurd rfl) fun _ => ?_
        by_cases full : pipe.pages.length < maxPages
        · exact .inl full
        · exact .inr (if_pos (by simpa [Pipe.isFull] using full))
    | socket s e =>
      dsimp only
      cases found : d.sockets.get? (s, e) with
      | none => exact announces_refl d _
      | some own => exact announces_socket sound found rfl id (absurd rfl)

/-- Closing a file changes nothing but what can be said of it and of its peer. -/
theorem closeFile_readiness (d : Descriptors) (i : Nat) {f g : OpenFile} (self : g ≠ f)
    (peer : g ≠ f.peer) : (d.closeFile i f).1.readiness g = d.readiness g := by
  cases f with
  | null => cases g <;> rfl
  | pipeReader p | pipeWriter p =>
    cases g with
    | pipeReader q | pipeWriter q =>
      have apart : q ≠ p := by
        rintro rfl
        first | exact self rfl | exact peer rfl
      simp only [closeFile, readiness, Table.get?_modify, if_neg apart]
    | socket _ _ | null => rfl
  | socket s e =>
    cases g with
    | pipeReader _ | pipeWriter _ | null => rfl
    | socket t x =>
      have apart : t ≠ s := by
        rintro rfl
        cases e <;> cases x <;> first | exact self rfl | exact peer rfl
      simp [closeFile, readiness, Table.get?_modify, apart]

/-- Everyone who waits for the peer of a file that closed is told. -/
theorem closeFile_news (d : Descriptors) (i : Nat) {f : OpenFile} (end_ : f ≠ .null) :
    (d.closeFile i f).2 =
      Descriptors.newsFor { d with files := d.files.erase i } f.peer none := by
  cases f with
  | null => exact absurd rfl end_
  | pipeReader _ | pipeWriter _ | socket _ _ => rfl

/-- The news of a closed number. -/
def newsOf : Option Closed → List News
  | some c => c.news
  | none => []

theorem close_announces (fd : Int) (sound : d.Sound) :
    d.Announces (d.close fd).1 (newsOf (d.close fd).2) := by
  have later := sound.close fd
  rcases close_cases d fd with eq | ⟨i, f, -, eq⟩ | ⟨i, f, here, -, eq⟩
  · rw [eq]
    exact announces_refl d _
  · rw [eq]
    exact fun _ _ _ _ ready => .inl ready
  · rw [eq] at later ⊢
    let d₀ : Descriptors := { d with numbers := d.numbers.erase fd }
    change Sound (d₀.closeFile i f).1 at later
    change d.Announces (d₀.closeFile i f).1 (d₀.closeFile i f).2
    have files : (d₀.closeFile i f).1.files = d.files.erase i := (closeFile_files d₀ i f).1
    intro r g _ found ready
    have self : f ≠ .null → g ≠ f := by
      rintro end_ rfl
      rw [files, Table.get?_erase] at found
      split at found
      · cases found
      · next apart => exact apart (sound.one _ _ _ found (file?_eq_some.mp here).2 end_)
    by_cases null : f = .null
    · subst null
      exact .inl ready
    · by_cases peer : g = f.peer
      · have end_ : g ≠ .null := by
          rw [peer]
          cases f <;> first | exact absurd rfl null | simp [OpenFile.peer]
        have told : (d₀.closeFile i f).2 = [⟨r.file, none⟩] := by
          rw [closeFile_news d₀ i null, ← peer, ← later.newsFor_eq found end_]
          exact (newsFor_congr files g none).symm
        exact .inr ⟨⟨r.file, none⟩, by simp [told], by simp [News.concerns]⟩
      · rw [closeFile_readiness d₀ i (self null) peer] at ready
        exact .inl ready

end Descriptors

end Fibers.Kernel
