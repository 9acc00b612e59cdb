import Fibers.Event
import Fibers.Table

/-!
Open files and the numbers under which a program knows them. Several numbers may name one open file,
which closes with its last number. Pipes keep their bytes in pages: a pipe is full when all its
pages are taken, even if some are partly empty. A stream socket keeps the messages of its peer apart
until they are read.

Operations also answer which open files have news, for whoever waits for them.
-/

namespace Fibers.Kernel

/-- A page of a pipe: how far it is filled, and the bytes not read yet. -/
structure Page where
  filled : Nat
  bytes : List UInt8
  deriving DecidableEq, Inhabited, Repr

/-- What lies between the two ends of a pipe. -/
structure Pipe where
  pages : List Page
  readerOpen : Bool
  writerOpen : Bool
  deriving DecidableEq, Inhabited, Repr

/-- Bytes of a page. -/
def pageSize : Nat := 4096

/-- Pages of a pipe. -/
def maxPages : Nat := 16

/-- Whether no page is free. -/
def Pipe.isFull (p : Pipe) : Bool := maxPages ≤ p.pages.length

/-- One end of a stream socket: messages that wait to be read, whether the end is open, and whether
its peer closed with messages unread. -/
structure SocketEnd where
  inbox : List (List UInt8)
  isOpen : Bool
  broken : Bool
  deriving DecidableEq, Inhabited, Repr

/-- What an open file is. The ends of one socket are `first` and not `first`. -/
inductive OpenFile where
  | pipeReader (pipe : Nat)
  | pipeWriter (pipe : Nat)
  | socket (pair : Nat) (first : Bool)
  | null
  deriving DecidableEq, Inhabited, Repr

/-- What can be said of an open file at one moment. -/
structure Readiness where
  input : Bool
  output : Bool
  error : Bool
  hangup : Bool
  deriving DecidableEq, Inhabited, Repr

namespace Readiness

def nothing : Readiness := ⟨false, false, false, false⟩

/-- What is left for one who asked for `mask`: errors and hang-ups are told to everyone. -/
def masked (r : Readiness) (mask : Event) : Readiness :=
  { r with input := r.input && mask.read, output := r.output && mask.write }

def isEmpty (r : Readiness) : Bool := !r.input && !r.output && !r.error && !r.hangup

/-- The events it stands for: errors and hang-ups stand for both. -/
def event (r : Readiness) : Event :=
  if r.error || r.hangup then Event.both else ⟨r.input, r.output⟩

end Readiness

/-- News about an open file: for those who asked for one of the events, or for everyone. -/
structure News where
  file : Nat
  events : Option Event
  deriving DecidableEq, Inhabited, Repr

/-- The open files and the numbers. -/
structure Descriptors where
  files : Table Nat OpenFile
  numbers : Table Int Nat
  pipes : Table Nat Pipe
  sockets : Table (Nat × Bool) SocketEnd
  /-- The last identity given to a file, a pipe or a socket. -/
  lastId : Nat
  deriving Inhabited

namespace Descriptors

def empty : Descriptors := ⟨.empty, .empty, .empty, .empty, 0⟩

/-- The open file under a number. -/
def file? (d : Descriptors) (fd : Int) : Option (Nat × OpenFile) :=
  (d.numbers.get? fd).bind fun i => (d.files.get? i).map fun f => (i, f)

/-- The identity under which a file is open. -/
def idOf? (d : Descriptors) (f : OpenFile) : Option Nat :=
  (d.files.entries.find? fun e => decide (e.2 = f)).map (·.1)

/-- News for everyone about a file, if it is open. -/
def newsFor (d : Descriptors) (f : OpenFile) (events : Option Event) : List News :=
  match d.idOf? f with
  | some i => [⟨i, events⟩]
  | none => []

/-- What can be said of an open file now. -/
def readiness (d : Descriptors) : OpenFile → Readiness
  | .pipeReader i =>
    match d.pipes.get? i with
    | some p => ⟨!p.pages.isEmpty, false, false, !p.writerOpen⟩
    | none => .nothing
  | .pipeWriter i =>
    match d.pipes.get? i with
    | some p => ⟨false, !p.isFull, !p.readerOpen, false⟩
    | none => .nothing
  | .socket i e =>
    match d.sockets.get? (i, e), d.sockets.get? (i, !e) with
    | some s, some peer => ⟨!s.inbox.isEmpty || !peer.isOpen, true, s.broken, !peer.isOpen⟩
    | _, _ => .nothing
  | .null => ⟨true, true, false, false⟩

/-- Whether a file can be waited for. -/
def pollable : OpenFile → Bool
  | .null => false
  | _ => true

/-- Closes a file that has no number any more; answers the news. -/
def closeFile (d : Descriptors) (i : Nat) (f : OpenFile) : Descriptors × List News :=
  let d := { d with files := d.files.erase i }
  match f with
  | .pipeReader p =>
    ({ d with pipes := d.pipes.modify p fun x => { x with readerOpen := false } },
     d.newsFor (.pipeWriter p) none)
  | .pipeWriter p =>
    ({ d with pipes := d.pipes.modify p fun x => { x with writerOpen := false } },
     d.newsFor (.pipeReader p) none)
  | .socket s e =>
    let unread := match d.sockets.get? (s, e) with
      | some x => !x.inbox.isEmpty
      | none => false
    let sockets := d.sockets.modify (s, e) fun x => { x with isOpen := false }
    let sockets := sockets.modify (s, !e) fun x => { x with broken := x.broken || unread }
    ({ d with sockets := sockets }, d.newsFor (.socket s (!e)) none)
  | .null => (d, [])

/-- What closing a number did: the file that closed with it, and the news. -/
structure Closed where
  file : Option Nat
  news : List News

/-- Closes a number; nothing if it is not in use. -/
def close (d : Descriptors) (fd : Int) : Descriptors × Option Closed :=
  match d.file? fd with
  | none => (d, none)
  | some (i, f) =>
    let d := { d with numbers := d.numbers.erase fd }
    if d.numbers.entries.any (·.2 == i) then (d, some ⟨none, []⟩)
    else
      let (d, news) := d.closeFile i f
      (d, some ⟨some i, news⟩)

/-- Opens a file under a free number. -/
def openAt (d : Descriptors) (fd : Int) (f : OpenFile) : Descriptors :=
  let i := d.lastId + 1
  { d with lastId := i, files := d.files.put i f, numbers := d.numbers.put fd i }

/-- Opens a pipe under two free numbers. -/
def openPipe (d : Descriptors) (reader writer : Int) : Descriptors :=
  let p := d.lastId + 1
  let d := { d with lastId := p, pipes := d.pipes.put p ⟨[], true, true⟩ }
  (d.openAt reader (.pipeReader p)).openAt writer (.pipeWriter p)

/-- Opens both ends of a socket under two free numbers. -/
def openSocket (d : Descriptors) (a b : Int) : Descriptors :=
  let s := d.lastId + 1
  let fresh : SocketEnd := ⟨[], true, false⟩
  let d := { d with lastId := s, sockets := (d.sockets.put (s, true) fresh).put (s, false) fresh }
  (d.openAt a (.socket s true)).openAt b (.socket s false)

/-- Gives a file another, free number. -/
def addNumber (d : Descriptors) (i : Nat) (fd : Int) : Descriptors :=
  { d with numbers := d.numbers.put fd i }

/-- Appends bytes to free pages, as many as `room` pages hold. -/
def newPages : (room : Nat) → List UInt8 → List Page
  | 0, _ => []
  | room + 1, bytes =>
    if bytes.isEmpty then []
    else
      let page := bytes.take pageSize
      ⟨page.length, page⟩ :: newPages room (bytes.drop pageSize)

/-- Writes to a pipe: what does not fill whole pages goes into the last page if it has room, the
rest into free pages. Answers the pages and the number of bytes written. -/
def writePages (pages : List Page) (bytes : List UInt8) : List Page × Nat :=
  let odd := bytes.length % pageSize
  let (pages, merged) :=
    match pages.getLast? with
    | some last =>
      if odd ≠ 0 ∧ last.filled + odd ≤ pageSize then
        (pages.dropLast ++ [Page.mk (last.filled + odd) (last.bytes ++ bytes.take odd)], odd)
      else (pages, 0)
    | none => (pages, 0)
  let added := newPages (maxPages - pages.length) (bytes.drop merged)
  (pages ++ added, added.foldl (fun n p => n + p.bytes.length) merged)

/-- Takes up to `n` bytes from the pages. -/
def readPages : List Page → Nat → List UInt8 × List Page
  | [], _ => ([], [])
  | p :: ps, n =>
    if n = 0 then ([], p :: ps)
    else if n < p.bytes.length then (p.bytes.take n, { p with bytes := p.bytes.drop n } :: ps)
    else
      let (bytes, rest) := readPages ps (n - p.bytes.length)
      (p.bytes ++ bytes, rest)

/-- Takes up to `n` bytes from messages; also answers whether a message was used up. -/
def readInbox : List (List UInt8) → Nat → List UInt8 × List (List UInt8) × Bool
  | [], _ => ([], [], false)
  | m :: ms, n =>
    if n = 0 then ([], m :: ms, false)
    else if n < m.length then (m.take n, m.drop n :: ms, false)
    else
      let (bytes, rest, _) := readInbox ms (n - m.length)
      (m ++ bytes, rest, true)

/-- The end of a transfer: a number of bytes or the bytes themselves, nothing if it failed. -/
structure Transfer (α : Type) where
  result : Option α
  news : List News

/-- Writes bytes; fails if no byte can be written. -/
def write (d : Descriptors) (fd : Int) (bytes : List UInt8) : Descriptors × Transfer Nat :=
  match d.file? fd with
  | some (_, .null) => (d, ⟨some bytes.length, []⟩)
  | some (_, .pipeWriter p) =>
    match d.pipes.get? p with
    | some pipe =>
      if bytes.isEmpty then (d, ⟨some 0, []⟩)
      else if !pipe.readerOpen then (d, ⟨none, []⟩)
      else
        let (pages, n) := writePages pipe.pages bytes
        if n = 0 then (d, ⟨none, []⟩)
        else
          ({ d with pipes := d.pipes.put p { pipe with pages := pages } },
           ⟨some n, d.newsFor (.pipeReader p) (some .readable)⟩)
    | none => (d, ⟨none, []⟩)
  | some (_, .socket s e) =>
    match d.sockets.get? (s, !e) with
    | some peer =>
      if bytes.isEmpty then (d, ⟨some 0, []⟩)
      else if !peer.isOpen then (d, ⟨none, []⟩)
      else
        ({ d with sockets := d.sockets.put (s, !e) { peer with inbox := peer.inbox ++ [bytes] } },
         ⟨some bytes.length, d.newsFor (.socket s (!e)) (some .readable)⟩)
    | none => (d, ⟨none, []⟩)
  | _ => (d, ⟨none, []⟩)

/-- Reads up to `n` bytes: none at the end of the file; fails if it would have to wait. -/
def read (d : Descriptors) (fd : Int) (n : Nat) : Descriptors × Transfer (List UInt8) :=
  match d.file? fd with
  | some (_, .null) => (d, ⟨some [], []⟩)
  | some (_, .pipeReader p) =>
    match d.pipes.get? p with
    | some pipe =>
      if n = 0 then (d, ⟨some [], []⟩)
      else if pipe.pages.isEmpty then (d, ⟨if pipe.writerOpen then none else some [], []⟩)
      else
        let (bytes, pages) := readPages pipe.pages n
        let freed := pipe.isFull && decide (pages.length < pipe.pages.length)
        ({ d with pipes := d.pipes.put p { pipe with pages := pages } },
         ⟨some bytes, if freed then d.newsFor (.pipeWriter p) (some .writable) else []⟩)
    | none => (d, ⟨none, []⟩)
  | some (_, .socket s e) =>
    match d.sockets.get? (s, e), d.sockets.get? (s, !e) with
    | some own, some peer =>
      if n = 0 then (d, ⟨some [], []⟩)
      else if own.inbox.isEmpty then
        if own.broken then
          ({ d with sockets := d.sockets.put (s, e) { own with broken := false } }, ⟨none, []⟩)
        else (d, ⟨if peer.isOpen then none else some [], []⟩)
      else
        let (bytes, rest, used) := readInbox own.inbox n
        ({ d with sockets := d.sockets.put (s, e) { own with inbox := rest } },
         ⟨some bytes, if used then d.newsFor (.socket s (!e)) (some .writable) else []⟩)
    | _, _ => (d, ⟨none, []⟩)
  | _ => (d, ⟨none, []⟩)

/-- Fills a pipe up to its last page; a socket, which is never full, takes one more message. -/
def fill (d : Descriptors) (fd : Int) : Descriptors × List News :=
  match d.file? fd with
  | some (_, .pipeWriter p) =>
    match d.pipes.get? p with
    | some pipe =>
      if !pipe.readerOpen || pipe.isFull then (d, [])
      else
        let page : Page := ⟨pageSize, List.replicate pageSize 0⟩
        let pages := pipe.pages ++ List.replicate (maxPages - pipe.pages.length) page
        ({ d with pipes := d.pipes.put p { pipe with pages := pages } },
         d.newsFor (.pipeReader p) (some .readable))
    | none => (d, [])
  | some (_, .socket s e) =>
    match d.sockets.get? (s, !e) with
    | some peer =>
      if !peer.isOpen then (d, [])
      else
        let message := List.replicate pageSize 0
        ({ d with
          sockets := d.sockets.put (s, !e) { peer with inbox := peer.inbox ++ [message] } },
         d.newsFor (.socket s (!e)) (some .readable))
    | none => (d, [])
  | _ => (d, [])

/-- Reads whatever is there. -/
def drain (d : Descriptors) (fd : Int) : Descriptors × List News :=
  match d.file? fd with
  | some (_, .pipeReader p) =>
    match d.pipes.get? p with
    | some pipe =>
      ({ d with pipes := d.pipes.put p { pipe with pages := [] } },
       if pipe.isFull then d.newsFor (.pipeWriter p) (some .writable) else [])
    | none => (d, [])
  | some (_, .socket s e) =>
    match d.sockets.get? (s, e) with
    | some own =>
      ({ d with sockets := d.sockets.put (s, e) { own with inbox := [] } },
       if own.inbox.isEmpty then [] else d.newsFor (.socket s (!e)) (some .writable))
    | none => (d, [])
  | _ => (d, [])

end Descriptors

end Fibers.Kernel
