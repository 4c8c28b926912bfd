import Irlume.Capture.Shutdown
import Irlume.Lib.Program

/-!
# The capture ring

`irlume-camera/src/mmap_capture.rs`: one `MmapCapture` from its `REQBUFS` to its drop, as a program whose calls
are the ioctls, the polls and the checks of the shutdown domain, and whose caller is part of the world. A device
may fail any of them; it hands over some queued buffer or an index out of range, and may lose a queued buffer in
a failed `DQBUF`. The log of the calls, newest first, says what the device owns.
-/

namespace Irlume.Capture

open Irlume.Lib

/-! ## Errors -/

inductive Operation where
  | queue
  | start
  | wait
  | dequeue
  | retired
  /-- An ERROR-marked start-up buffer was parked; the next dequeue proceeds. -/
  | parked
  deriving DecidableEq

inductive ErrorKind where
  | invalidInput
  | invalidData
  | timedOut
  | interrupted
  | other
  deriving DecidableEq

inductive ErrorSource where
  | os (errno : Nat)
  | refusal (why : Refusal)
  | text (kind : ErrorKind) (message : String)
  deriving DecidableEq

/-- An `io::Error`, with the operation that a `CaptureIoError` adds to it. -/
structure IoError where
  operation : Option Operation
  source : ErrorSource
  deriving DecidableEq

def operationError (operation : Operation) (source : ErrorSource) : IoError := ⟨some operation, source⟩

def rawError (source : ErrorSource) : IoError := ⟨none, source⟩

def fault : IoError := rawError (.refusal .unconfirmedShutdown)

def parkedError : IoError :=
  operationError .parked
    (.text .interrupted "parked an error-marked start-up capture buffer; dequeue again")

def queueUncertain : IoError :=
  operationError .retired (.text .other "capture queue state is uncertain; recreate the stream")

def ringRetired : IoError :=
  rawError (.text .invalidData "driver returned an error-marked capture buffer; ring retired")

def indexOutOfRange : IoError :=
  rawError (.text .invalidData "dequeued capture index is out of range")

/-! ## Calls -/

inductive RingCall where
  | dequeue
  | quiesce
  | drop
  deriving DecidableEq

/-- The part of a `v4l2_buffer` that is read. -/
structure Buffer where
  index : Nat
  flags : UInt32
  bytesused : Nat
  field : Nat
  timestamp : Nat
  sequence : Nat
  deriving DecidableEq

/-- `V4L2_BUF_FLAG_ERROR` -/
def errorFlag : UInt32 := 0x40

def Buffer.hasError (buf : Buffer) : Bool := buf.flags &&& errorFlag != 0

/-- What a dequeue hands out: the bytes of a mapping, and the metadata of its buffer. -/
structure View where
  index : Nat
  len : Nat
  buffer : Buffer
  deriving DecidableEq

inductive Op where
  | next
  | returned (result : Except IoError View)
  | check
  /-- `retain` on the shutdown domain, which sets its fault flag. -/
  | retain
  | requestBuffers (count : Nat)
  | queryBuffer (index : Nat)
  | map (index len : Nat)
  | unmap (index : Nat)
  | queue (index : Nat)
  | start
  | poll (timeoutMs : Nat)
  | dequeue
  | stop

inductive Mapped where
  | at
  | null

abbrev Op.Answer : Op → Type
  | .next => RingCall
  | .returned _ => Unit
  | .check => Bool
  | .retain => Unit
  | .requestBuffers _ => Except Nat Nat
  | .queryBuffer _ => Except Nat Nat
  | .map _ _ => Except Nat Mapped
  | .unmap _ => Except Nat Unit
  | .queue _ => Except Nat Unit
  | .start => Except Nat Unit
  | .poll _ => Except Nat Nat
  | .dequeue => Except Nat Buffer
  | .stop => Except Nat Unit

abbrev Run (α : Type) : Type := Program Op Op.Answer α

/-! ## The ring -/

/-- ERROR-marked buffers that may be parked before a stream delivers its first frame. -/
def maxParkedStartupErrors : Nat := 2

/-- A capture of one stream, with the buffers it was granted. -/
structure MmapCapture where
  /-- The lengths of the mappings, by the index of their buffer. -/
  buffers : List Nat
  timeoutMs : Nat
  buffersRequested : Bool
  active : Bool
  /-- Only a successful `DQBUF` can supply an index we may queue next time. -/
  held : Option Nat
  /-- A failed `QBUF` or `STREAMON` has an uncertain outcome: do not repeat it. -/
  failed : Bool
  producer : Producer
  stopAttempted : Bool
  /-- ERROR-marked start-up buffers left dequeued: never viewed or requeued. -/
  parked : Nat
  /-- Parking ends with the first delivered frame. -/
  delivered : Bool

namespace MmapCapture

def new (timeoutMs : Nat) : MmapCapture where
  buffers := []
  timeoutMs := timeoutMs
  buffersRequested := false
  active := false
  held := none
  failed := false
  producer := .new
  stopAttempted := false
  parked := 0
  delivered := false

/-- Query and map the buffers `index`, …, of which `left` are still to come. -/
def mapBuffers (c : MmapCapture) (index : Nat) : Nat → Run (Except IoError Unit × MmapCapture)
  | 0 => .result (.ok (), c)
  | left + 1 =>
    .call (.queryBuffer index) fun
    | .error errno => .result (.error (rawError (.os errno)), c)
    | .ok 0 => .result (.error (rawError (.text .invalidData "empty capture mapping")), c)
    | .ok len =>
      .call (.map index len) fun
      | .error errno => .result (.error (rawError (.os errno)), c)
      | .ok .null =>
        .call (.unmap index) fun
        | .error errno => .result (.error (rawError (.os errno)), c)
        | .ok () => .result (.error (rawError (.text .invalidData "null capture mapping")), c)
      | .ok .at => mapBuffers { c with buffers := c.buffers ++ [len] } (index + 1) left

def allocate (c : MmapCapture) (count : Nat) : Run (Except IoError Unit × MmapCapture) :=
  let c := { c with buffersRequested := true }
  .call (.requestBuffers count) fun
  | .error errno => .result (.error (rawError (.os errno)), c)
  | .ok 0 => .result (.error (rawError (.text .invalidData "no capture buffers granted")), c)
  | .ok granted => c.mapBuffers 0 granted

def queue (index : Nat) : Run (Except IoError Unit) :=
  .call (.queue index) fun
  | .error errno => .result (.error (operationError .queue (.os errno)))
  | .ok () => .result (.ok ())

def queueAll : List Nat → Run (Except IoError Unit)
  | [] => .result (.ok ())
  | index :: rest =>
    queue index >>= fun
    | .error e => .result (.error e)
    | .ok () => queueAll rest

/-- Queue every buffer and start the stream. Whatever fails, the ring stays failed. -/
def startStream (c : MmapCapture) : Run (Except IoError Unit × MmapCapture) :=
  let c := { c with failed := true }
  queueAll (List.range c.buffers.length) >>= fun
  | .error e => .result (.error e, c)
  | .ok () =>
    .call .check fun
    | false => .result (.error fault, c)
    | true =>
      match c.producer.begin with
      | .error refusal => .result (.error (rawError (.refusal refusal)), c)
      | .ok producer =>
        .call .start fun
        | .error errno => .result (.error (operationError .start (.os errno)), { c with producer })
        | .ok () => .result (.ok (), { c with producer, active := true, failed := false })

/-- Queue the buffer that was viewed last, if it still is the caller's. -/
def requeue (c : MmapCapture) : Run (Except IoError Unit × MmapCapture) :=
  match c.held with
  | none => .result (.ok (), c)
  | some index =>
    let c := { c with held := none, failed := true }
    queue index >>= fun
    | .error e => .result (.error e, c)
    | .ok () => .result (.ok (), { c with failed := false })

def take (c : MmapCapture) (buf : Buffer) : Except IoError View × MmapCapture :=
  if buf.hasError then
    let remaining := c.buffers.length - (c.parked + 1)
    if c.delivered || maxParkedStartupErrors ≤ c.parked || remaining = 0 then
      (.error ringRetired, { c with failed := true })
    else (.error parkedError, { c with parked := c.parked + 1 })
  else
    match c.buffers[buf.index]? with
    | none => (.error indexOutOfRange, { c with failed := true })
    | some len => (.ok ⟨buf.index, len, buf⟩, { c with held := some buf.index, delivered := true })

def receive (c : MmapCapture) : Run (Except IoError View × MmapCapture) :=
  .call (.poll c.timeoutMs) fun
  | .error errno => .result (.error (operationError .wait (.os errno)), c)
  | .ok 0 => .result (.error (operationError .wait (.text .timedOut "VIDIOC_DQBUF")), c)
  | .ok _ =>
    .call .dequeue fun
    | .error errno => .result (.error (operationError .dequeue (.os errno)), c)
    | .ok buf =>
      .call .check fun
      | false => .result (.error fault, c)
      | true => .result (c.take buf)

def dequeue (c : MmapCapture) : Run (Except IoError View × MmapCapture) :=
  .call .check fun
  | false => .result (.error fault, c)
  | true =>
    if c.failed then .result (.error queueUncertain, c)
    else
      (if c.active then c.requeue else c.startStream) >>= fun
      | (.error e, c) => .result (.error e, c)
      | (.ok (), c) => c.receive

def quiesce (c : MmapCapture) : Run (Except IoError Unit × MmapCapture) :=
  let c := { c with failed := true }
  if c.stopAttempted then
    if c.producer.isQuiescent then .result (.ok (), c)
    else .result (.error (rawError (.text .other "capture stream stop remains unconfirmed")), c)
  else
    let c := { c with stopAttempted := true }
    .call .stop fun
    | .ok () =>
      match c.producer.stopped with
      | none => .result (.ok (), c)
      | some (producer, _) => .result (.ok (), { c with producer })
    | .error errno =>
      if c.producer.isQuiescent then .result (.error (rawError (.os errno)), c)
      else
        .call .retain fun () =>
          .result (.error (rawError (.os errno)), { c with producer := c.producer.unconfirmed.1 })

def unmapAll : List Nat → Run Unit
  | [] => .result ()
  | index :: rest => .call (.unmap index) fun _ => unmapAll rest

/-- The handle and the mappings, as the one owner they are to the producer. -/
def ringOwner : Owner := 0

def drop (c : MmapCapture) : Run Unit :=
  if !c.buffersRequested then .result ()
  else
    c.quiesce >>= fun (_, c) =>
      if !c.producer.isQuiescent then
        match (c.producer.afterStop ringOwner).2 with
        | .drop => unmapAll (List.range c.buffers.length)
        | .leaveDeferred => .result ()
        | .retain => .call .retain fun () => .result ()
      else
        unmapAll (List.range c.buffers.length) >>= fun () =>
          .call (.requestBuffers 0) fun _ => .result ()

/-- The caller makes at most `n` more calls, and drops the capture in the end. -/
def life : Nat → MmapCapture → Run Unit
  | 0, c => c.drop
  | n + 1, c =>
    .call .next fun
    | .dequeue => c.dequeue >>= fun (result, c) => .call (.returned result) fun () => life n c
    | .quiesce => c.quiesce >>= fun (_, c) => life n c
    | .drop => c.drop

/-- `with_buffers`, and what is then done with the capture. -/
def withBuffers (count timeoutMs n : Nat) : Run Unit :=
  .call .check fun
  | false => .result ()
  | true =>
    if 2 ^ 31 ≤ timeoutMs then .result ()
    else
      (new timeoutMs).allocate count >>= fun
      | (.error _, c) => c.drop
      | (.ok (), c) => life n c

end MmapCapture

/-! ## The device and its log -/

inductive Entry where
  | called (c : RingCall)
  | returned (result : Except IoError View)
  | checked (passed : Bool)
  | retained
  | requested (count : Nat) (granted : Option Nat)
  | queried (index : Nat)
  | mapped (index : Nat)
  | unmapped (index : Nat)
  /-- A `QBUF`; one that fails may still have taken the buffer. -/
  | queued (index : Nat) (succeeded taken : Bool)
  | started (succeeded : Bool)
  | polled
  | handed (index : Nat) (error : Bool)
  /-- A failed `DQBUF` and the buffer it consumed. -/
  | lost (index : Option Nat)
  | stopped (succeeded : Bool)
  deriving DecidableEq

def deviceOwns : List Entry → List Nat
  | [] => []
  | .queued index _ true :: log => index :: deviceOwns log
  | .handed index _ :: log => (deviceOwns log).erase index
  | .lost (some index) :: log => (deviceOwns log).erase index
  | .stopped true :: _ => []
  | _ :: log => deviceOwns log

def granted : List Entry → Nat
  | [] => 0
  | .requested _ (some n) :: _ => n
  | _ :: log => granted log

structure Device where
  /-- The fault flag of the shutdown domain. -/
  faulted : Bool
  log : List Entry

def Device.new : Device := ⟨false, []⟩

def Device.note (d : Device) (e : Entry) : Device := { d with log := e :: d.log }

inductive Choice where
  | works
  | fails (errno : Nat)
  /-- A `QBUF` takes the buffer and fails. -/
  | takesAndFails (errno : Nat)
  | calls (c : RingCall)
  /-- The number a call answers: of buffers, of bytes or of ready descriptors. -/
  | counts (n : Nat)
  | mapsNull
  | hands (buf : Buffer)
  | loses (errno index : Nat)

/-- Another stream may set the fault flag at any time; nothing resets it. -/
def Device.perform (d : Device) : (op : Op) → Choice → Option (op.Answer × Device)
  | .next, .calls c => some (c, d.note (.called c))
  | .returned result, .works => some ((), d.note (.returned result))
  | .check, .works => if d.faulted then none else some (true, d.note (.checked true))
  | .check, .fails _ => some (false, { d.note (.checked false) with faulted := true })
  | .retain, .works => some ((), { d.note .retained with faulted := true })
  | .requestBuffers count, .counts n => some (.ok n, d.note (.requested count (some n)))
  | .requestBuffers count, .fails errno => some (.error errno, d.note (.requested count none))
  | .queryBuffer index, .counts n => some (.ok n, d.note (.queried index))
  | .queryBuffer index, .fails errno => some (.error errno, d.note (.queried index))
  | .map index _, .works => some (.ok .at, d.note (.mapped index))
  | .map index _, .mapsNull => some (.ok .null, d.note (.mapped index))
  | .map index _, .fails errno => some (.error errno, d.note (.mapped index))
  | .unmap index, .works => some (.ok (), d.note (.unmapped index))
  | .unmap index, .fails errno => some (.error errno, d.note (.unmapped index))
  | .queue index, .works => some (.ok (), d.note (.queued index true true))
  | .queue index, .fails errno => some (.error errno, d.note (.queued index false false))
  | .queue index, .takesAndFails errno => some (.error errno, d.note (.queued index false true))
  | .start, .works => some (.ok (), d.note (.started true))
  | .start, .fails errno => some (.error errno, d.note (.started false))
  | .poll _, .counts n => some (.ok n, d.note .polled)
  | .poll _, .fails errno => some (.error errno, d.note .polled)
  | .dequeue, .hands buf =>
    if buf.index ∈ deviceOwns d.log ∨ granted d.log ≤ buf.index then
      some (.ok buf, d.note (.handed buf.index buf.hasError))
    else none
  | .dequeue, .fails errno => some (.error errno, d.note (.lost none))
  | .dequeue, .loses errno index =>
    if index ∈ deviceOwns d.log then some (.error errno, d.note (.lost (some index))) else none
  | .stop, .works => some (.ok (), d.note (.stopped true))
  | .stop, .fails errno => some (.error errno, d.note (.stopped false))
  | _, _ => none

end Irlume.Capture
