import Fibers.Proofs.Kernel.Interest

/-!
What programs do with descriptors: they close and open numbers, and move bytes. A deed is made of
few kinds of steps. A number is closed, and with its last number a file; files and numbers are added
under identities that nothing had before; or bytes move, and files and numbers stay as they are.
-/

namespace Fibers

/-- A table whose values are replaced by their images. -/
theorem Table.get?_map {α β γ : Type} [DecidableEq α] (t : Table α β) (f : β → γ) (k : α) :
    (⟨t.entries.map fun e => (e.1, f e.2)⟩ : Table α γ).get? k = (t.get? k).map f := by
  simp only [Table.get?, List.find?_map, Function.comp_def, Option.map_map]

namespace Kernel

/-- What a program does with descriptors. -/
inductive Deed where
  | close (fd : Int)
  | pipe (reader writer : Int)
  | socketPair (a b : Int)
  | nullFile (fd : Int)
  | duplicate (fd new : Int)
  | write (fd : Int) (bytes : List UInt8)
  | read (fd : Int) (n : Nat)
  | fill (fd : Int)
  | drain (fd : Int)

def State.doing (s : State) : Deed → State
  | .close fd => s.release fd
  | .pipe reader writer => s.pipe reader writer
  | .socketPair a b => s.socketPair a b
  | .nullFile fd => s.nullFile fd
  | .duplicate fd new => s.duplicate fd new
  | .write fd bytes => (s.write fd bytes).1
  | .read fd n => (s.read fd n).1
  | .fill fd => s.fill fd
  | .drain fd => s.drain fd

/-- The numbers that a deed closes, if they are in use. -/
def Deed.closes (d : Descriptors) : Deed → List Int
  | .close fd | .nullFile fd => [fd]
  | .pipe a b | .socketPair a b => [a, b]
  | .duplicate fd new => if (d.file? fd).isNone || fd = new then [] else [new]
  | .write .. | .read .. | .fill _ | .drain _ => []

/-- The identity of the pipe or the socket that a file is an end of. -/
def OpenFile.channel : OpenFile → Nat
  | .pipeReader p | .pipeWriter p => p
  | .socket s _ => s
  | .null => 0

namespace Descriptors

/-- Identities are given once, and each end of a pipe or a socket is one file. -/
structure Sound (d : Descriptors) : Prop where
  distinct : d.files.Distinct
  old : ∀ i f, d.files.get? i = some f → i ≤ d.lastId ∧ f.channel ≤ d.lastId
  one : ∀ i j f, d.files.get? i = some f → d.files.get? j = some f → f ≠ .null → i = j

/-- Files and numbers are added, the numbers among `fds`. -/
structure Opens (d d' : Descriptors) (fds : List Int) : Prop where
  files : ∀ i, i ≤ d.lastId → d'.files.get? i = d.files.get? i
  numbers : ∀ fd, fd ∉ fds → d'.numbers.get? fd = d.numbers.get? fd
  pipes : ∀ p, p ≤ d.lastId → d'.pipes.get? p = d.pipes.get? p
  sockets : ∀ s e, s ≤ d.lastId → d'.sockets.get? (s, e) = d.sockets.get? (s, e)
  later : d.lastId ≤ d'.lastId

/-- Files and numbers stay as they are. -/
structure Stays (d d' : Descriptors) : Prop where
  files : d'.files = d.files
  numbers : d'.numbers = d.numbers
  lastId : d'.lastId = d.lastId

variable {d d' : Descriptors} {fd : Int} {i : Nat} {f : OpenFile}

theorem empty_sound : empty.Sound where
  distinct := Table.distinct_empty
  old := by simp [empty]
  one := by simp [empty]

theorem file?_eq_some : d.file? fd = some (i, f) ↔
    d.numbers.get? fd = some i ∧ d.files.get? i = some f := by
  simp only [file?, Option.bind_eq_some_iff, Option.map_eq_some_iff, Prod.mk.injEq]
  constructor
  · rintro ⟨j, named, g, found, rfl, rfl⟩
    exact ⟨named, found⟩
  · rintro ⟨named, found⟩
    exact ⟨i, named, f, found, rfl, rfl⟩

theorem openAt_opens (d : Descriptors) (fd : Int) (f : OpenFile) :
    Opens d (d.openAt fd f) [fd] where
  files j hj := Table.get?_put_other _ _ (by omega)
  numbers j hj := Table.get?_put_other _ _ (by simpa using hj)
  pipes _ _ := rfl
  sockets _ _ _ := rfl
  later := Nat.le_succ _

theorem Opens.trans {d'' : Descriptors} {fds gds : List Int} (h : Opens d d' fds)
    (g : Opens d' d'' gds) : Opens d d'' (fds ++ gds) where
  files i hi := (g.files i (Nat.le_trans hi h.later)).trans (h.files i hi)
  numbers fd hfd := by
    rw [List.mem_append, not_or] at hfd
    exact (g.numbers fd hfd.2).trans (h.numbers fd hfd.1)
  pipes p hp := (g.pipes p (Nat.le_trans hp h.later)).trans (h.pipes p hp)
  sockets s e hs := (g.sockets s e (Nat.le_trans hs h.later)).trans (h.sockets s e hs)
  later := Nat.le_trans h.later g.later

theorem openPipe_opens (d : Descriptors) (reader writer : Int) :
    Opens d (d.openPipe reader writer) [reader, writer] := by
  let made : Descriptors :=
    { d with lastId := d.lastId + 1, pipes := d.pipes.put (d.lastId + 1) ⟨[], true, true⟩ }
  have first : Opens d made [] :=
    { files := fun _ _ => rfl
      numbers := fun _ _ => rfl
      pipes := fun p hp => Table.get?_put_other _ _ (by omega)
      sockets := fun _ _ _ => rfl
      later := Nat.le_succ _ }
  exact (first.trans (openAt_opens made reader _)).trans (openAt_opens _ writer _)

theorem openSocket_opens (d : Descriptors) (a b : Int) : Opens d (d.openSocket a b) [a, b] := by
  let made : Descriptors :=
    { d with
      lastId := d.lastId + 1
      sockets := (d.sockets.put (d.lastId + 1, true) ⟨[], true, false⟩).put (d.lastId + 1, false)
        ⟨[], true, false⟩ }
  have first : Opens d made [] :=
    { files := fun _ _ => rfl
      numbers := fun _ _ => rfl
      pipes := fun _ _ => rfl
      sockets := fun s e hs => by
        simp only [made, Table.get?_put, Prod.mk.injEq]
        rw [if_neg (by omega), if_neg (by omega)]
      later := Nat.le_succ _ }
  exact (first.trans (openAt_opens made a _)).trans (openAt_opens _ b _)

theorem addNumber_opens (d : Descriptors) (i : Nat) (fd : Int) :
    Opens d (d.addNumber i fd) [fd] where
  files _ _ := rfl
  numbers j hj := Table.get?_put_other _ _ (by simpa using hj)
  pipes _ _ := rfl
  sockets _ _ _ := rfl
  later := Nat.le_refl _

/-- A number that is not given anew names the file that it named. -/
theorem Opens.file? {fds : List Int} (h : Opens d d' fds) (sound : d.Sound) (apart : fd ∉ fds)
    (named : d.file? fd = some (i, f)) : d'.file? fd = some (i, f) := by
  obtain ⟨number, found⟩ := file?_eq_some.mp named
  refine file?_eq_some.mpr ⟨by rw [h.numbers fd apart, number], ?_⟩
  rw [h.files i (sound.old i f found).1, found]

/-- A file more, which no other is the same end as. -/
theorem Sound.openAt (h : d.Sound) (fd : Int) (fresh : ∀ j, d.files.get? j = some f → f = .null)
    (known : f.channel ≤ d.lastId + 1) : (d.openAt fd f).Sound where
  distinct := Table.distinct_put h.distinct _ _
  old j g found := by
    simp only [Descriptors.openAt, Table.get?_put] at found ⊢
    split at found
    · obtain rfl := Option.some.inj found
      omega
    · have := h.old j g found
      omega
  one j k g fj fk some := by
    simp only [Descriptors.openAt, Table.get?_put] at fj fk
    split at fj <;> split at fk
    · next hj hk => rw [hj, hk]
    · obtain rfl := Option.some.inj fj
      exact absurd (fresh k fk) some
    · obtain rfl := Option.some.inj fk
      exact absurd (fresh j fj) some
    · exact h.one j k g fj fk some

theorem Sound.later (h : d.Sound) (files : d'.files = d.files) (later : d.lastId ≤ d'.lastId) :
    d'.Sound where
  distinct := files ▸ h.distinct
  old i f found := by
    have := h.old i f (files ▸ found)
    omega
  one i j f hi hj some := h.one i j f (files ▸ hi) (files ▸ hj) some

/-- Two ends more, of something new. -/
theorem Sound.openTwo (h : d.Sound) {made : Descriptors} (files : made.files = d.files)
    (next : made.lastId = d.lastId + 1) (a b : Int) {f g : OpenFile}
    (hf : f.channel = d.lastId + 1) (hg : g.channel = d.lastId + 1) (apart : f ≠ g) :
    ((made.openAt a f).openAt b g).Sound := by
  have fresh : ∀ x : OpenFile, x.channel = d.lastId + 1 → ∀ j, made.files.get? j ≠ some x := by
    intro x hx j found
    have := (h.old j x (files ▸ found)).2
    omega
  have first : (made.openAt a f).Sound :=
    (h.later files (by omega)).openAt a (fun j found => absurd found (fresh f hf j)) (by omega)
  refine first.openAt b (fun j found => ?_) ?_
  · simp only [Descriptors.openAt, Table.get?_put] at found
    split at found
    · exact absurd (Option.some.inj found) apart
    · exact absurd found (fresh g hg j)
  · simp only [Descriptors.openAt]
    omega

theorem Sound.openPipe (h : d.Sound) (reader writer : Int) : (d.openPipe reader writer).Sound := by
  unfold Descriptors.openPipe
  refine h.openTwo ?_ ?_ reader writer ?_ ?_ ?_
  · rfl
  · rfl
  · rfl
  · rfl
  · simp

theorem Sound.openSocket (h : d.Sound) (a b : Int) : (d.openSocket a b).Sound := by
  unfold Descriptors.openSocket
  refine h.openTwo ?_ ?_ a b ?_ ?_ ?_
  · rfl
  · rfl
  · rfl
  · rfl
  · simp

theorem Stays.sound (h : Stays d d') (sound : d.Sound) : d'.Sound :=
  sound.later h.files (Nat.le_of_eq h.lastId.symm)

theorem Stays.file? (h : Stays d d') (fd : Int) : d'.file? fd = d.file? fd := by
  simp only [Descriptors.file?, h.files, h.numbers]

theorem write_stays (d : Descriptors) (fd : Int) (bytes : List UInt8) :
    Stays d (d.write fd bytes).1 := by
  simp only [write]
  repeat' split
  all_goals exact ⟨rfl, rfl, rfl⟩

theorem read_stays (d : Descriptors) (fd : Int) (n : Nat) : Stays d (d.read fd n).1 := by
  simp only [read]
  repeat' split
  all_goals exact ⟨rfl, rfl, rfl⟩

theorem fill_stays (d : Descriptors) (fd : Int) : Stays d (d.fill fd).1 := by
  simp only [fill]
  repeat' split
  all_goals exact ⟨rfl, rfl, rfl⟩

theorem drain_stays (d : Descriptors) (fd : Int) : Stays d (d.drain fd).1 := by
  simp only [drain]
  repeat' split
  all_goals exact ⟨rfl, rfl, rfl⟩

/-- What closing a file leaves of the others. -/
theorem closeFile_files (d : Descriptors) (i : Nat) (f : OpenFile) :
    (d.closeFile i f).1.files = d.files.erase i ∧ (d.closeFile i f).1.numbers = d.numbers ∧
      (d.closeFile i f).1.lastId = d.lastId := by
  cases f <;> exact ⟨rfl, rfl, rfl⟩

/-- A number is closed, and with it its file if no other number names it. -/
theorem close_cases (d : Descriptors) (fd : Int) :
    d.close fd = (d, none) ∨
      (∃ i f, d.file? fd = some (i, f) ∧
        d.close fd = ({ d with numbers := d.numbers.erase fd }, some ⟨none, []⟩)) ∨
      ∃ i f, d.file? fd = some (i, f) ∧ (∀ j, j ≠ fd → d.numbers.get? j ≠ some i) ∧
        d.close fd = (({ d with numbers := d.numbers.erase fd }.closeFile i f).1,
          some ⟨some i, ({ d with numbers := d.numbers.erase fd }.closeFile i f).2⟩) := by
  simp only [close]
  cases named : d.file? fd with
  | none => exact .inl rfl
  | some x =>
    obtain ⟨i, f⟩ := x
    dsimp only
    split
    · exact .inr (.inl ⟨i, f, rfl, rfl⟩)
    · next last =>
      refine .inr (.inr ⟨i, f, rfl, fun j hj number => ?_, rfl⟩)
      have kept : (d.numbers.erase fd).get? j = some i := by
        rw [Table.get?_erase, if_neg hj, number]
      exact last (List.any_eq_true.mpr ⟨_, Table.mem_of_get? kept, by simp⟩)

theorem Sound.close (h : d.Sound) (fd : Int) : (d.close fd).1.Sound := by
  rcases close_cases d fd with eq | ⟨i, f, -, eq⟩ | ⟨i, f, -, -, eq⟩
  · rw [eq]
    exact h
  · rw [eq]
    exact h.later rfl (Nat.le_refl _)
  · obtain ⟨files, -, last⟩ := closeFile_files { d with numbers := d.numbers.erase fd } i f
    have left : ∀ j g, (d.close fd).1.files.get? j = some g → d.files.get? j = some g := by
      intro j g found
      rw [eq, files, Table.get?_erase] at found
      split at found
      · cases found
      · exact found
    have same : (d.close fd).1.lastId = d.lastId := by
      rw [eq]
      exact last
    constructor
    · rw [eq, files]
      exact Table.distinct_erase h.distinct i
    · intro j g found
      rw [same]
      exact h.old j g (left j g found)
    · intro j k g hj hk some
      exact h.one j k g (left j g hj) (left k g hk) some

/-- Another number names the file that it named. -/
theorem close_file? (d : Descriptors) {gone : Int} (apart : fd ≠ gone)
    (named : d.file? fd = some (i, f)) : (d.close gone).1.file? fd = some (i, f) := by
  obtain ⟨number, found⟩ := file?_eq_some.mp named
  have kept : (d.numbers.erase gone).get? fd = some i := by
    rw [Table.get?_erase, if_neg apart, number]
  rcases close_cases d gone with eq | ⟨j, g, -, eq⟩ | ⟨j, g, -, last, eq⟩
  · rw [eq, named]
  · rw [eq]
    exact file?_eq_some.mpr ⟨kept, found⟩
  · obtain ⟨files, numbers, -⟩ := closeFile_files { d with numbers := d.numbers.erase gone } j g
    have other : i ≠ j := by
      rintro rfl
      exact last fd apart number
    rw [eq]
    refine file?_eq_some.mpr ⟨by rw [numbers, kept], ?_⟩
    rw [files, Table.get?_erase, if_neg other, found]

end Descriptors

end Kernel

end Fibers
