import RaftMonitor.Runs
import RaftMonitor.LogCabinWire

namespace RaftMonitor.LogCabin
open WireBytes

structure Message where
  messageId : UInt64
  contents : List UInt8
  deriving DecidableEq

def Message.frame (m : Message) : List UInt8 := outbound m.messageId m.contents

def Header.fromBigEndian (bytes : List UInt8) : Header :=
  ⟨UInt64.ofNat (ofBigEndian (bytes.take 8)), UInt32.ofNat (ofBigEndian (bytes.drop 8))⟩

theorem Header.toBigEndian_fromBigEndian {bytes : List UInt8} (h : bytes.length = 12) :
    (Header.fromBigEndian bytes).toBigEndian = bytes := by
  have hid : (bytes.take 8).length = 8 := by simp [h]
  have hlen : (bytes.drop 8).length = 4 := by simp [h]
  have hid_lt := hid ▸ ofBigEndian_lt (bytes.take 8)
  have hlen_lt := hlen ▸ ofBigEndian_lt (bytes.drop 8)
  have hid_eq := hid ▸ bigEndian_ofBigEndian (bytes.take 8)
  have hlen_eq := hlen ▸ bigEndian_ofBigEndian (bytes.drop 8)
  unfold Header.toBigEndian Header.fromBigEndian
  rw [UInt64.toNat_ofNat_of_lt' (by norm_num at hid_lt ⊢; exact hid_lt),
    UInt32.toNat_ofNat_of_lt' (by norm_num at hlen_lt ⊢; exact hlen_lt), hid_eq, hlen_eq,
    List.take_append_drop]

theorem Header.fromBigEndian_toBigEndian (h : Header) :
    Header.fromBigEndian h.toBigEndian = h := by
  have hid : ofBigEndian (bigEndian 8 h.messageId.toNat) = h.messageId.toNat :=
    ofBigEndian_bigEndian (by have := h.messageId.toNat_lt; norm_num; omega)
  have hlen : ofBigEndian (bigEndian 4 h.payloadLength.toNat) = h.payloadLength.toNat :=
    ofBigEndian_bigEndian (by have := h.payloadLength.toNat_lt; norm_num; omega)
  unfold Header.fromBigEndian Header.toBigEndian
  rw [List.take_left' (bigEndian_length 8 _), List.drop_left' (bigEndian_length 8 _), hid, hlen,
    UInt64.ofNat_toNat, UInt32.ofNat_toNat]

def Message.Fits (m : Message) : Prop := m.contents.length < 2 ^ 32

theorem Message.frame_selfDelimiting : SelfDelimiting Message.Fits Message.frame := by
  constructor
  · intro m _ h
    have := congrArg List.length h
    simp [Message.frame, outbound_length] at this
  · intro m m' s t hm hm' h
    unfold Message.frame outbound at h
    rw [List.append_assoc, List.append_assoc] at h
    obtain ⟨hheader, hrest⟩ := List.append_inj h (by simp only [Header.toBigEndian_length])
    have hfields := congrArg Header.fromBigEndian hheader
    rw [Header.fromBigEndian_toBigEndian, Header.fromBigEndian_toBigEndian] at hfields
    have hlen := congrArg (fun h : Header => h.payloadLength.toNat) hfields
    dsimp only at hlen
    rw [UInt32.toNat_ofNat_of_lt' hm, UInt32.toNat_ofNat_of_lt' hm'] at hlen
    have hid : m.messageId = m'.messageId := congrArg Header.messageId hfields
    have hcontents := (List.append_inj hrest hlen).1
    cases m
    simp only at hid hcontents
    rw [hid, hcontents]

/-- `MessageSocket::Outbound`: a message that waits to be sent, with its header in big endian. -/
structure Outbound where
  bytesSent : ℕ
  header : List UInt8
  message : List UInt8
  deriving DecidableEq

def Outbound.new (m : Message) : Outbound :=
  ⟨0, Header.toBigEndian ⟨m.messageId, UInt32.ofNat m.contents.length⟩, m.contents⟩

/-- The two buffers that `sendmsg` is given: those parts that have not been sent. -/
def Outbound.iov (o : Outbound) : List (List UInt8) := skip o.bytesSent [o.header, o.message]

def Outbound.unsent (o : Outbound) : List UInt8 := o.iov.flatten

theorem Outbound.unsent_eq (o : Outbound) :
    o.unsent = (o.header ++ o.message).drop o.bytesSent := by
  unfold Outbound.unsent Outbound.iov
  rw [flatten_skip]
  simp

theorem Outbound.unsent_new (m : Message) : (Outbound.new m).unsent = m.frame := by
  rw [Outbound.unsent_eq]
  rfl

theorem Outbound.append_unsent (o : Outbound) {bytes : List UInt8} (h : bytes <+: o.unsent) :
    bytes ++ { o with bytesSent := o.bytesSent + bytes.length }.unsent = o.unsent := by
  obtain ⟨rest, hrest⟩ := h
  rw [Outbound.unsent_eq] at hrest ⊢
  rw [Outbound.unsent_eq, ← List.drop_drop, ← hrest, List.drop_left]

/-- `MessageSocket::Inbound`: a message that is being received. Of its header and its message
it has the bytes that were read so far. -/
structure Inbound where
  bytesRead : ℕ
  headerBytes : List UInt8
  message : List UInt8
  deriving DecidableEq

def Inbound.new : Inbound := ⟨0, [], []⟩

def Inbound.header (i : Inbound) : Header := Header.fromBigEndian i.headerBytes

/-- The `maxBytes` that `readable` passes to `read`: what is missing of the header, or else of
the message. -/
def Inbound.maxBytes (i : Inbound) : ℕ :=
  if i.bytesRead < 12 then 12 - i.bytesRead
  else i.header.payloadLength.toNat - (i.bytesRead - 12)

inductive Errno
  | eagain
  | ewouldblock
  | eintr
  | econnreset
  | etimedout
  | epipe
  | other
  deriving DecidableEq, Repr

inductive Received
  | bytes (chunk : List UInt8)
  | shutdown
  | error (errno : Errno)

inductive Sent
  | bytes (count : ℕ)
  | error (errno : Errno)

/-- The calls of `PANIC` in `MessageSocket.cc`, and those in the constructor, `setEvents` and
`release` of its two `File`s. -/
inductive Panic
  | tooLongToSend (length limit : ℕ)
  | whileReading
  | whileWriting
  | duplicating
  | addingFile
  | modifyingFile
  | removingFile
  | closingReceiveSocket
  | closingSendSocket
  deriving DecidableEq

/-- The system calls of an open socket that are taken to succeed: `epoll_ctl` in `setEvents`, and
those of `disconnect`. -/
inductive Call
  | modify
  | removeReceive
  | closeReceive
  | removeSend
  | closeSend
  deriving DecidableEq

def Call.panic : Call → Panic
  | .modify => .modifyingFile
  | .removeReceive | .removeSend => .removingFile
  | .closeReceive => .closingReceiveSocket
  | .closeSend => .closingSendSocket

/-- Where the thread of the event loop is: elsewhere, at the top of the loop of `writable`, with
a message it took from the queue (and whether `MSG_MORE` is set), about to put it back, or at
a `read` in `readable`. -/
inductive Loop
  | idle
  | writable
  | sending (outbound : Outbound) (more : Bool)
  | requeue (outbound : Outbound)
  | readable
  deriving DecidableEq

def Loop.given : Loop → ℕ
  | .sending o _ => o.unsent.length
  | _ => 0

/-- A socket. `connected` says that its file descriptors were not released, `armed` that the
`SendSocket` is set to `EPOLLOUT|EPOLLONESHOT`, and `kicks` counts the threads in `sendMessage`
that found the queue empty and have not called `setEvents` yet. The last four fields are
the history: messages and bytes, out and in. -/
structure MessageSocket where
  maxMessageLength : UInt32
  connected : Bool
  inbound : Inbound
  outboundQueue : List Outbound
  armed : Bool
  kicks : ℕ
  loop : Loop
  panic : Option Panic
  sent : List Message
  received : List Message
  bytesOut : List UInt8
  bytesIn : List UInt8

namespace MessageSocket

def new (maxMessageLength : UInt32) : MessageSocket where
  maxMessageLength := maxMessageLength
  connected := true
  inbound := .new
  outboundQueue := []
  armed := false
  kicks := 0
  loop := .idle
  panic := none
  sent := []
  received := []
  bytesOut := []
  bytesIn := []

/-- The constructor, given which of `dup` and the two calls of `epoll_ctl` succeed. -/
def construct (maxMessageLength : UInt32) (dup addReceive addSend : Bool) : MessageSocket :=
  if !dup then { new maxMessageLength with panic := some .duplicating }
  else if !addReceive || !addSend then { new maxMessageLength with panic := some .addingFile }
  else new maxMessageLength

/-- `File::setEvents`: `epoll_ctl` refuses a descriptor that was released. -/
def setEvents (s : MessageSocket) : MessageSocket :=
  if s.connected then { s with armed := true } else { s with panic := some .modifyingFile }

def disconnect (s : MessageSocket) : MessageSocket :=
  { s with connected := false, armed := false, loop := .idle }

def sendMessage (s : MessageSocket) (m : Message) : MessageSocket :=
  if m.contents.length > s.maxMessageLength.toNat then
    { s with panic := some (.tooLongToSend m.contents.length s.maxMessageLength.toNat) }
  else { s with
    kicks := if s.outboundQueue.isEmpty then s.kicks + 1 else s.kicks
    outboundQueue := s.outboundQueue ++ [.new m]
    sent := s.sent ++ [m] }

def next (s : MessageSocket) : MessageSocket :=
  match s.outboundQueue with
  | [] => { s with loop := .idle }
  | o :: queue => { s with outboundQueue := queue, loop := .sending o (!queue.isEmpty) }

def wrote (s : MessageSocket) (o : Outbound) (bytes : List UInt8) : MessageSocket :=
  let o := { o with bytesSent := o.bytesSent + bytes.length }
  let s := { s with bytesOut := s.bytesOut ++ bytes }
  if o.bytesSent ≠ 12 + o.message.length then { s.setEvents with loop := .requeue o }
  else { s with loop := .writable }

def sendmsg (s : MessageSocket) (o : Outbound) : Sent → MessageSocket
  | .bytes count => s.wrote o (o.unsent.take count)
  | .error errno => match errno with
    | .eagain | .ewouldblock | .eintr => s.wrote o []
    | .econnreset | .epipe => s.disconnect
    | .etimedout | .other => { s with panic := some .whileWriting }

def readHeader (s : MessageSocket) (chunk : List UInt8) : MessageSocket :=
  let i := { s.inbound with
    bytesRead := s.inbound.bytesRead + chunk.length
    headerBytes := s.inbound.headerBytes ++ chunk }
  if i.bytesRead < 12 then { s with inbound := i, loop := .idle }
  else if i.header.payloadLength > s.maxMessageLength then { s with inbound := i }.disconnect
  else { s with inbound := { i with message := [] } }

def readMessage (s : MessageSocket) (chunk : List UInt8) : MessageSocket :=
  let i := { s.inbound with
    bytesRead := s.inbound.bytesRead + chunk.length
    message := s.inbound.message ++ chunk }
  if i.bytesRead < 12 + i.header.payloadLength.toNat then { s with inbound := i, loop := .idle }
  else { s with
    received := s.received ++ [⟨i.header.messageId, i.message⟩]
    inbound := .new }

def got (s : MessageSocket) (chunk : List UInt8) : MessageSocket :=
  let s := { s with bytesIn := s.bytesIn ++ chunk }
  if s.inbound.bytesRead < 12 then s.readHeader chunk else s.readMessage chunk

def recv (s : MessageSocket) : Received → MessageSocket
  | .bytes chunk => s.got chunk
  | .shutdown => s.disconnect
  | .error errno => match errno with
    | .econnreset | .etimedout => s.disconnect
    | .eagain | .ewouldblock | .eintr => s.got []
    | .epipe | .other => { s with panic := some .whileReading }

/-- Whether a thread may be about to make a system call: `setEvents` is called behind `sendMessage`
and after a `sendmsg` that did not send everything, and `disconnect` after any `sendmsg` or `recv`
on a connection that is gone. -/
def calls (s : MessageSocket) : Call → Bool
  | .modify => 0 < s.kicks || (s.loop matches .sending ..)
  | .removeReceive | .closeReceive | .removeSend | .closeSend =>
    (s.loop matches .sending .. | .readable)

/-- What threads do with a socket, one access to shared data at a time: any thread sends messages
and kicks, and the thread of the event loop does the rest. Other calls of any of them may fail. -/
inductive Event
  | sendMessage (m : Message)
  | kick
  | epollout
  | next
  | sendmsg (answer : Sent)
  | requeue
  | epollin
  | recv (answer : Received)
  | fails (call : Call)

/-- What the kernel may answer: `recv` returns at least one byte and at most `maxBytes`, and
`sendmsg` does not send more than it is given. -/
def Possible (s : MessageSocket) : Event → Prop
  | .recv (.bytes chunk) => chunk ≠ [] ∧ chunk.length ≤ s.inbound.maxBytes
  | .sendmsg (.bytes count) => count ≤ s.loop.given
  | _ => True

instance (s : MessageSocket) : ∀ e : Event, Decidable (s.Possible e)
  | .recv (.bytes _) => inferInstanceAs (Decidable (_ ∧ _))
  | .sendmsg (.bytes _) => inferInstanceAs (Decidable (_ ≤ _))
  | .recv .shutdown | .recv (.error _) | .sendmsg (.error _) => isTrue trivial
  | .sendMessage _ | .kick | .epollout | .next | .requeue | .epollin | .fails _ => isTrue trivial

def react (s : MessageSocket) : Event → Option MessageSocket
  | .sendMessage m => some (s.sendMessage m)
  | .kick => if 0 < s.kicks then some { s with kicks := s.kicks - 1 }.setEvents else none
  | .epollout => match s.loop with
    | .idle => if s.armed then
        some { s with armed := false, loop := if s.connected then .writable else .idle }
      else none
    | _ => none
  | .next => match s.loop with
    | .writable => some s.next
    | _ => none
  | .sendmsg answer => match s.loop with
    | .sending o _ => some (s.sendmsg o answer)
    | _ => none
  | .requeue => match s.loop with
    | .requeue o => some { s with outboundQueue := o :: s.outboundQueue, loop := .idle }
    | _ => none
  | .epollin => match s.loop with
    | .idle => some { s with loop := if s.connected then .readable else .idle }
    | _ => none
  | .recv answer => match s.loop with
    | .readable => some (s.recv answer)
    | _ => none
  | .fails call => if s.calls call then some { s with panic := some call.panic } else none

/-- A socket that has panicked does nothing more. -/
def step (s : MessageSocket) (e : Event) : Option MessageSocket :=
  if s.panic = none ∧ s.Possible e then s.react e else none

/-- The messages that were not sent to their end, the one in the hands of `writable` first. -/
def pending (s : MessageSocket) : List Outbound :=
  match s.loop with
  | .sending o _ | .requeue o => o :: s.outboundQueue
  | .idle | .writable | .readable => s.outboundQueue

/-- The invariant of the sending half. The bytes sent and those that wait are the frames of all
messages, and whenever messages wait, somebody is going to call `writable`. -/
structure Writing (s : MessageSocket) : Prop where
  out : s.bytesOut <+: s.sent.flatMap Message.frame
  rest : s.connected →
    s.bytesOut ++ s.pending.flatMap Outbound.unsent = s.sent.flatMap Message.frame
  unfinished : ∀ o ∈ s.pending, o.header.length = 12 ∧ o.bytesSent < 12 + o.message.length
  closed : s.connected = false → s.loop = .idle ∧ s.armed = false
  fits : ∀ m ∈ s.sent, m.contents.length ≤ s.maxMessageLength.toNat
  woken : s.connected → s.loop = .idle ∨ s.loop = .readable → s.outboundQueue ≠ [] →
    s.armed ∨ 0 < s.kicks
  rearmed : ∀ o, s.loop = .requeue o → s.armed

theorem writing_new (maxMessageLength : UInt32) : (new maxMessageLength).Writing := by
  constructor <;> simp [new, pending]

theorem writing_construct (maxMessageLength : UInt32) (dup addReceive addSend : Bool) :
    (construct maxMessageLength dup addReceive addSend).Writing := by
  have h := writing_new maxMessageLength
  unfold construct
  split_ifs
  · exact ⟨h.out, h.rest, h.unfinished, h.closed, h.fits, h.woken, h.rearmed⟩
  · exact ⟨h.out, h.rest, h.unfinished, h.closed, h.fits, h.woken, h.rearmed⟩
  · exact h

variable {s t : MessageSocket}

theorem pending_append (s : MessageSocket) (kicks : ℕ) (sent : List Message) (o : Outbound) :
    { s with kicks := kicks, outboundQueue := s.outboundQueue ++ [o], sent := sent }.pending =
      s.pending ++ [o] := by
  unfold pending
  dsimp only
  cases s.loop <;> rfl

theorem Writing.sendMessage (h : s.Writing) (m : Message) : (s.sendMessage m).Writing := by
  unfold MessageSocket.sendMessage
  by_cases hlong : m.contents.length > s.maxMessageLength.toNat
  · rw [if_pos hlong]
    exact ⟨h.out, h.rest, h.unfinished, h.closed, h.fits, h.woken, h.rearmed⟩
  · rw [if_neg hlong]
    constructor
    · exact h.out.trans (by simp)
    · intro hc
      rw [pending_append, List.flatMap_append, List.flatMap_append, ← List.append_assoc, h.rest hc]
      simp [Outbound.unsent_new]
    · intro o ho
      rw [pending_append] at ho
      rcases List.mem_append.mp ho with ho | ho
      · exact h.unfinished o ho
      · rw [List.mem_singleton.mp ho]
        exact ⟨Header.toBigEndian_length _, by simp [Outbound.new]⟩
    · exact h.closed
    · intro m' hm'
      rcases List.mem_append.mp hm' with hm' | hm'
      · exact h.fits m' hm'
      · rw [List.mem_singleton.mp hm']
        exact Nat.le_of_not_lt hlong
    · intro hc hloop _
      dsimp only
      split_ifs with hempty
      · exact .inr (Nat.succ_pos _)
      · exact h.woken hc hloop (by simpa using hempty)
    · exact h.rearmed

theorem Writing.kick (h : s.Writing) : { s with kicks := s.kicks - 1 }.setEvents.Writing := by
  unfold setEvents
  split_ifs with hc
  · exact ⟨h.out, h.rest, h.unfinished, fun hf => absurd (hc.symm.trans hf) (by simp), h.fits,
      fun _ _ _ => .inl rfl, fun _ _ => rfl⟩
  · exact ⟨h.out, h.rest, h.unfinished, h.closed, h.fits, fun hc' => absurd hc' hc, h.rearmed⟩

theorem Writing.disconnect (h : s.Writing) : s.disconnect.Writing := by
  refine ⟨h.out, nofun, ?_, fun _ => ⟨rfl, rfl⟩, h.fits, nofun, nofun⟩
  intro o ho
  apply h.unfinished o
  unfold pending
  cases s.loop with
  | sending | requeue => exact List.mem_cons_of_mem _ ho
  | idle | writable | readable => exact ho

theorem Writing.move (h : s.Writing) (loop : Loop) (queue : List Outbound) (armed : Bool)
    (hc : s.connected)
    (hpending : { s with loop := loop, outboundQueue := queue }.pending = s.pending)
    (hwoken : loop = .idle ∨ loop = .readable → queue ≠ [] → armed ∨ 0 < s.kicks)
    (hrearmed : ∀ o, loop = .requeue o → armed) :
    { s with armed := armed, loop := loop, outboundQueue := queue }.Writing :=
  ⟨h.out, fun hc => (congrArg (s.bytesOut ++ List.flatMap Outbound.unsent ·) hpending).trans
      (h.rest hc),
    fun o ho => h.unfinished o (hpending ▸ ho), fun hf => absurd (hc.symm.trans hf) (by simp),
    h.fits, fun _ => hwoken, hrearmed⟩

theorem Writing.next (h : s.Writing) (hloop : s.loop = .writable) : s.next.Writing := by
  have hc : s.connected := by
    by_contra hf
    have := (h.closed (by simpa using hf)).1
    simp [hloop] at this
  unfold MessageSocket.next
  split
  · rename_i hqueue
    refine h.move .idle s.outboundQueue s.armed hc ?_ ?_ nofun
    · simp [pending, hloop]
    · exact fun _ hne => absurd hqueue hne
  · rename_i o queue hqueue
    refine h.move (.sending o _) queue s.armed hc ?_ nofun nofun
    simp [pending, hloop, hqueue]

theorem Writing.connected (h : s.Writing) (hloop : s.loop ≠ .idle) : s.connected := by
  by_contra hc
  exact hloop (h.closed (by simpa using hc)).1

theorem Writing.wrote (h : s.Writing) {o : Outbound} {more : Bool}
    (hloop : s.loop = .sending o more) {bytes : List UInt8} (hbytes : bytes <+: o.unsent) :
    (s.wrote o bytes).Writing := by
  have hc := h.connected (hloop ▸ nofun)
  have hpending : s.pending = o :: s.outboundQueue := by simp [pending, hloop]
  obtain ⟨hheader, hlt⟩ := h.unfinished o (by simp [hpending])
  have hrest := h.rest hc
  have hout : s.bytesOut ++ bytes ++ ({ o with bytesSent := o.bytesSent + bytes.length } ::
      s.outboundQueue).flatMap Outbound.unsent = s.sent.flatMap Message.frame := by
    rw [List.flatMap_cons, List.append_assoc, ← List.append_assoc bytes, o.append_unsent hbytes,
      ← List.flatMap_cons, ← hpending, hrest]
  have hle : o.bytesSent + bytes.length ≤ 12 + o.message.length := by
    have := hbytes.length_le
    rw [Outbound.unsent_eq, List.length_drop, List.length_append, hheader] at this
    omega
  have hbegin : s.bytesOut ++ bytes <+: s.sent.flatMap Message.frame := ⟨_, hout⟩
  unfold MessageSocket.wrote setEvents
  dsimp only
  rw [if_pos hc]
  split_ifs with hend
  · refine ⟨hbegin, fun _ => hout, ?_, fun hf => absurd (hc.symm.trans hf) (by simp), h.fits,
      nofun, fun _ _ => rfl⟩
    intro o' ho'
    rcases List.mem_cons.mp ho' with rfl | ho'
    · exact ⟨hheader, lt_of_le_of_ne hle hend⟩
    · exact h.unfinished o' (hpending ▸ List.mem_cons_of_mem _ ho')
  · refine ⟨hbegin, fun _ => ?_, ?_, fun hf => absurd (hc.symm.trans hf) (by simp), h.fits,
      nofun, nofun⟩
    · rw [← hout, List.flatMap_cons, Outbound.unsent_eq, List.drop_eq_nil_of_le, List.nil_append]
      · rfl
      · simp only [List.length_append, hheader]
        omega
    · exact fun o' ho' => h.unfinished o' (hpending ▸ List.mem_cons_of_mem _ ho')

theorem Writing.sendmsg (h : s.Writing) {o : Outbound} {more : Bool}
    (hloop : s.loop = .sending o more) (answer : Sent) : (s.sendmsg o answer).Writing := by
  cases answer with
  | bytes count => exact h.wrote hloop (List.take_prefix _ _)
  | error errno =>
    cases errno with
    | eagain | ewouldblock | eintr => exact h.wrote hloop List.nil_prefix
    | econnreset | epipe => exact h.disconnect
    | etimedout | other =>
      exact ⟨h.out, h.rest, h.unfinished, h.closed, h.fits, h.woken, h.rearmed⟩

theorem Writing.frame (h : s.Writing) (hloop : s.loop = .readable ∨ s.loop = .idle)
    {loop : Loop} (hloop' : loop = .readable ∨ loop = .idle) (hc : s.connected)
    (inbound : Inbound) (received : List Message) (bytesIn : List UInt8) :
    { s with
      loop := loop, inbound := inbound, received := received, bytesIn := bytesIn }.Writing := by
  have hpending : s.pending = s.outboundQueue := by
    rcases hloop with hl | hl <;> simp [pending, hl]
  have hpending' : { s with
      loop := loop, inbound := inbound, received := received, bytesIn := bytesIn }.pending =
      s.outboundQueue := by
    rcases hloop' with hl | hl <;> simp [pending, hl]
  refine ⟨h.out, ?_, ?_, fun hf => absurd (hc.symm.trans hf) (by simp), h.fits, ?_, ?_⟩
  · rw [hpending', ← hpending]
    exact h.rest
  · rw [hpending', ← hpending]
    exact h.unfinished
  · exact fun _ _ => h.woken hc hloop.symm
  · rintro o rfl
    simp at hloop'

theorem Writing.got (h : s.Writing) (hloop : s.loop = .readable) (chunk : List UInt8) :
    (s.got chunk).Writing := by
  have hc := h.connected (hloop ▸ nofun)
  have hframe : ∀ {loop : Loop}, loop = .readable ∨ loop = .idle → ∀ inbound received bytesIn,
      { s with
        loop := loop, inbound := inbound, received := received, bytesIn := bytesIn }.Writing :=
    fun hl inbound received bytesIn => h.frame (.inl hloop) hl hc inbound received bytesIn
  unfold MessageSocket.got readHeader readMessage
  dsimp only
  split_ifs
  · exact hframe (.inr rfl) _ _ _
  · exact (hframe (.inl hloop) _ _ _).disconnect
  · exact hframe (.inl hloop) _ _ _
  · exact hframe (.inr rfl) _ _ _
  · exact hframe (.inl hloop) _ _ _

theorem Writing.recv (h : s.Writing) (hloop : s.loop = .readable) (answer : Received) :
    (s.recv answer).Writing := by
  cases answer with
  | bytes chunk => exact h.got hloop chunk
  | shutdown => exact h.disconnect
  | error errno =>
    cases errno with
    | eagain | ewouldblock | eintr => exact h.got hloop []
    | econnreset | etimedout => exact h.disconnect
    | epipe | other =>
      exact ⟨h.out, h.rest, h.unfinished, h.closed, h.fits, h.woken, h.rearmed⟩

theorem Writing.react (h : s.Writing) {e : Event} (hstep : s.react e = some t) : t.Writing := by
  cases e with
  | sendMessage m =>
    rw [← Option.some.inj hstep]
    exact h.sendMessage m
  | kick =>
    simp only [MessageSocket.react] at hstep
    split at hstep
    · rw [← Option.some.inj hstep]
      exact h.kick
    · cases hstep
  | epollout =>
    simp only [MessageSocket.react] at hstep
    split at hstep
    · rename_i hloop
      split at hstep
      · rename_i harmed
        have hc : s.connected := by
          by_contra hc
          simp [(h.closed (by simpa using hc)).2] at harmed
        rw [← Option.some.inj hstep, if_pos hc]
        exact h.move .writable s.outboundQueue false hc (by simp [pending, hloop]) nofun nofun
      · cases hstep
    · cases hstep
  | next =>
    simp only [MessageSocket.react] at hstep
    split at hstep
    · rename_i hloop
      rw [← Option.some.inj hstep]
      exact h.next hloop
    · cases hstep
  | sendmsg answer =>
    simp only [MessageSocket.react] at hstep
    split at hstep
    · rename_i o more hloop
      rw [← Option.some.inj hstep]
      exact h.sendmsg hloop answer
    · cases hstep
  | requeue =>
    simp only [MessageSocket.react] at hstep
    split at hstep
    · rename_i o hloop
      rw [← Option.some.inj hstep]
      exact h.move .idle (o :: s.outboundQueue) s.armed (h.connected (hloop ▸ nofun))
        (by simp [pending, hloop]) (fun _ _ => .inl (h.rearmed o hloop)) nofun
    · cases hstep
  | epollin =>
    simp only [MessageSocket.react] at hstep
    split at hstep
    · rename_i hloop
      rw [← Option.some.inj hstep]
      split_ifs with hc
      · exact h.frame (.inr hloop) (.inl rfl) hc s.inbound s.received s.bytesIn
      · exact hloop ▸ h
    · cases hstep
  | recv answer =>
    simp only [MessageSocket.react] at hstep
    split at hstep
    · rename_i hloop
      rw [← Option.some.inj hstep]
      exact h.recv hloop answer
    · cases hstep
  | fails call =>
    simp only [MessageSocket.react] at hstep
    split at hstep
    · rw [← Option.some.inj hstep]
      exact ⟨h.out, h.rest, h.unfinished, h.closed, h.fits, h.woken, h.rearmed⟩
    · cases hstep

/-- The invariant of the receiving half, whatever the peer sends. The bytes that were read are the
frames of the messages received and the beginning of one more. -/
structure Reading (s : MessageSocket) : Prop where
  stream : s.bytesIn = s.received.flatMap Message.frame ++
    (s.inbound.headerBytes ++ s.inbound.message)
  header : s.inbound.headerBytes.length = min s.inbound.bytesRead 12
  message : s.inbound.message.length = s.inbound.bytesRead - 12
  bounded : 12 ≤ s.inbound.bytesRead →
    s.inbound.message.length ≤ s.inbound.header.payloadLength.toNat
  limit : 12 ≤ s.inbound.bytesRead → s.connected →
    s.inbound.header.payloadLength ≤ s.maxMessageLength
  received : ∀ m ∈ s.received, m.contents.length ≤ s.maxMessageLength.toNat
  incomplete : s.connected → s.loop ≠ .readable → 12 ≤ s.inbound.bytesRead →
    s.inbound.bytesRead < 12 + s.inbound.header.payloadLength.toNat

theorem reading_new (maxMessageLength : UInt32) : (new maxMessageLength).Reading := by
  constructor <;> simp [new, Inbound.new]

theorem Reading.disconnect (h : s.Reading) : s.disconnect.Reading :=
  ⟨h.stream, h.header, h.message, h.bounded, nofun, h.received, nofun⟩

theorem Reading.frame (h : s.Reading) (hin : t.inbound = s.inbound)
    (hmax : t.maxMessageLength = s.maxMessageLength) (hreceived : t.received = s.received)
    (hbytes : t.bytesIn = s.bytesIn) (hc : t.connected → s.connected)
    (hloop : s.loop = .readable → t.loop = .readable ∨ t.connected = false) : t.Reading := by
  constructor
  · rw [hbytes, hreceived, hin]
    exact h.stream
  · rw [hin]
    exact h.header
  · rw [hin]
    exact h.message
  · rw [hin]
    exact h.bounded
  · rw [hin, hmax]
    exact fun h12 hct => h.limit h12 (hc hct)
  · rw [hreceived, hmax]
    exact h.received
  · rw [hin]
    intro hct hne h12
    refine h.incomplete (hc hct) (fun hs => ?_) h12
    rcases hloop hs with hl | hl
    · exact hne hl
    · simp [hl] at hct

theorem frame_of_header {bytes message : List UInt8} (hbytes : bytes.length = 12)
    (hlen : message.length = (Header.fromBigEndian bytes).payloadLength.toNat) :
    Message.frame ⟨(Header.fromBigEndian bytes).messageId, message⟩ = bytes ++ message := by
  unfold Message.frame outbound
  rw [hlen, UInt32.ofNat_toNat]
  exact congrArg (· ++ message) (Header.toBigEndian_fromBigEndian hbytes)

theorem Reading.readHeader (h : s.Reading) (hloop : s.loop = .readable)
    (hread : s.inbound.bytesRead < 12) {chunk : List UInt8}
    (hchunk : s.inbound.bytesRead + chunk.length ≤ 12) :
    ({ s with bytesIn := s.bytesIn ++ chunk }.readHeader chunk).Reading := by
  have hmessage : s.inbound.message = [] := by
    have := h.message
    exact List.eq_nil_of_length_eq_zero (by omega)
  have hheader := h.header
  have hstream : s.bytesIn ++ chunk = s.received.flatMap Message.frame ++
      (s.inbound.headerBytes ++ chunk ++ []) := by
    rw [h.stream, hmessage]
    simp
  have hlen : (s.inbound.headerBytes ++ chunk).length = s.inbound.bytesRead + chunk.length := by
    rw [List.length_append]
    omega
  unfold MessageSocket.readHeader
  dsimp only
  split_ifs with hshort hlong
  · refine ⟨?_, ?_, ?_, ?_, ?_, h.received, ?_⟩ <;> dsimp only
    · rw [hmessage]
      exact hstream
    · omega
    · rw [hmessage]
      simp only [List.length_nil]
      omega
    all_goals omega
  · refine ⟨?_, ?_, ?_, ?_, nofun, h.received, nofun⟩ <;> dsimp only [MessageSocket.disconnect]
    · rw [hmessage]
      exact hstream
    · omega
    · rw [hmessage]
      simp only [List.length_nil]
      omega
    · rw [hmessage]
      exact fun _ => Nat.zero_le _
  · refine ⟨hstream, ?_, ?_, fun _ => Nat.zero_le _, ?_, h.received, ?_⟩ <;> dsimp only
    · omega
    · simp only [List.length_nil]
      omega
    · exact fun _ _ => UInt32.not_lt.mp hlong
    · exact fun _ hne => absurd hloop hne

theorem Reading.readMessage (h : s.Reading) (hloop : s.loop = .readable) (hc : s.connected)
    (hread : 12 ≤ s.inbound.bytesRead) {chunk : List UInt8}
    (hchunk : chunk.length ≤ s.inbound.header.payloadLength.toNat - (s.inbound.bytesRead - 12)) :
    ({ s with bytesIn := s.bytesIn ++ chunk }.readMessage chunk).Reading := by
  have hheader : s.inbound.headerBytes.length = 12 := by
    have := h.header
    omega
  have hmessage := h.message
  have hbounded := h.bounded hread
  have hlen : (s.inbound.message ++ chunk).length = s.inbound.bytesRead + chunk.length - 12 := by
    rw [List.length_append]
    omega
  have hstream : s.bytesIn ++ chunk = s.received.flatMap Message.frame ++
      (s.inbound.headerBytes ++ (s.inbound.message ++ chunk)) := by
    rw [h.stream]
    simp
  unfold MessageSocket.readMessage
  dsimp only
  -- the converted header does not depend on the number of bytes read
  change MessageSocket.Reading (if s.inbound.bytesRead + chunk.length <
    12 + s.inbound.header.payloadLength.toNat then _ else _)
  split_ifs with hshort
  · refine ⟨hstream, ?_, hlen, fun _ => ?_, fun _ => h.limit hread, h.received,
      fun _ _ _ => hshort⟩ <;> dsimp only
    · omega
    · change (s.inbound.message ++ chunk).length ≤ s.inbound.header.payloadLength.toNat
      omega
  · have hfull : (s.inbound.message ++ chunk).length = s.inbound.header.payloadLength.toNat := by
      omega
    have hframe : Message.frame ⟨s.inbound.header.messageId, s.inbound.message ++ chunk⟩ =
        s.inbound.headerBytes ++ (s.inbound.message ++ chunk) := frame_of_header hheader hfull
    refine ⟨?_, rfl, rfl, nofun, nofun, ?_, fun _ hne => absurd hloop hne⟩
    · dsimp only
      rw [List.flatMap_append, List.flatMap_singleton, hstream, ← hframe]
      simp [Inbound.new, Inbound.header]
    · intro m hm
      rcases List.mem_append.mp hm with hm | hm
      · exact h.received m hm
      · rw [List.mem_singleton.mp hm]
        exact hfull.trans_le (h.limit hread hc)

theorem Reading.got (h : s.Reading) (hloop : s.loop = .readable) (hc : s.connected)
    {chunk : List UInt8} (hchunk : chunk.length ≤ s.inbound.maxBytes) : (s.got chunk).Reading := by
  unfold Inbound.maxBytes at hchunk
  unfold MessageSocket.got
  dsimp only
  split_ifs at hchunk ⊢ with hread
  · exact h.readHeader hloop hread (by omega)
  · exact h.readMessage hloop hc (by omega) hchunk

theorem Reading.sendmsg (h : s.Reading) {o : Outbound} {more : Bool}
    (hloop : s.loop = .sending o more) (answer : Sent) : (s.sendmsg o answer).Reading := by
  have hwrote : ∀ bytes, (s.wrote o bytes).Reading := by
    intro bytes
    unfold MessageSocket.wrote setEvents
    dsimp only
    split
    · split <;> exact h.frame rfl rfl rfl rfl id (hloop ▸ nofun)
    · exact h.frame rfl rfl rfl rfl id (hloop ▸ nofun)
  cases answer with
  | bytes count => exact hwrote _
  | error errno =>
    cases errno with
    | eagain | ewouldblock | eintr => exact hwrote _
    | econnreset | epipe => exact h.disconnect
    | etimedout | other => exact h.frame rfl rfl rfl rfl id .inl

theorem Reading.recv (h : s.Reading) (hw : s.Writing) (hloop : s.loop = .readable)
    {answer : Received} (hpossible : s.Possible (.recv answer)) : (s.recv answer).Reading := by
  have hc := hw.connected (hloop ▸ nofun)
  cases answer with
  | bytes chunk => exact h.got hloop hc hpossible.2
  | shutdown => exact h.disconnect
  | error errno =>
    cases errno with
    | eagain | ewouldblock | eintr => exact h.got hloop hc (Nat.zero_le _)
    | econnreset | etimedout => exact h.disconnect
    | epipe | other => exact h.frame rfl rfl rfl rfl id .inl

theorem Reading.react (h : s.Reading) (hw : s.Writing) {e : Event} (hpossible : s.Possible e)
    (hstep : s.react e = some t) : t.Reading := by
  cases e with
  | sendMessage m =>
    rw [← Option.some.inj hstep]
    unfold MessageSocket.sendMessage
    split <;> exact h.frame rfl rfl rfl rfl id .inl
  | kick =>
    simp only [MessageSocket.react, setEvents] at hstep
    split at hstep
    · rw [← Option.some.inj hstep]
      split <;> exact h.frame rfl rfl rfl rfl id .inl
    · cases hstep
  | epollout =>
    simp only [MessageSocket.react] at hstep
    split at hstep
    · rename_i hloop
      split at hstep
      · rw [← Option.some.inj hstep]
        exact h.frame rfl rfl rfl rfl id fun hs => nomatch hloop.symm.trans hs
      · cases hstep
    · cases hstep
  | next =>
    simp only [MessageSocket.react, MessageSocket.next] at hstep
    split at hstep
    · rename_i hloop
      rw [← Option.some.inj hstep]
      split <;> exact h.frame rfl rfl rfl rfl id (hloop ▸ nofun)
    · cases hstep
  | sendmsg answer =>
    simp only [MessageSocket.react] at hstep
    split at hstep
    · rename_i o more hloop
      rw [← Option.some.inj hstep]
      exact h.sendmsg hloop answer
    · cases hstep
  | requeue =>
    simp only [MessageSocket.react] at hstep
    split at hstep
    · rename_i o hloop
      rw [← Option.some.inj hstep]
      exact h.frame rfl rfl rfl rfl id (hloop ▸ nofun)
    · cases hstep
  | epollin =>
    simp only [MessageSocket.react] at hstep
    split at hstep
    · rename_i hloop
      rw [← Option.some.inj hstep]
      exact h.frame rfl rfl rfl rfl id fun hs => nomatch hloop.symm.trans hs
    · cases hstep
  | recv answer =>
    simp only [MessageSocket.react] at hstep
    split at hstep
    · rename_i hloop
      rw [← Option.some.inj hstep]
      exact h.recv hw hloop hpossible
    · cases hstep
  | fails call =>
    simp only [MessageSocket.react] at hstep
    split at hstep
    · rw [← Option.some.inj hstep]
      exact h.frame rfl rfl rfl rfl id .inl
    · cases hstep

theorem setEvents_bytesOut (s : MessageSocket) : s.setEvents.bytesOut = s.bytesOut := by
  unfold setEvents
  split_ifs <;> rfl

theorem wrote_bytesOut (s : MessageSocket) (o : Outbound) (bytes : List UInt8) :
    (s.wrote o bytes).bytesOut = s.bytesOut ++ bytes := by
  unfold wrote
  dsimp only
  split_ifs
  · exact setEvents_bytesOut _
  · rfl

theorem got_bytesOut (s : MessageSocket) (chunk : List UInt8) :
    (s.got chunk).bytesOut = s.bytesOut := by
  unfold got readHeader readMessage
  dsimp only
  split_ifs <;> rfl

theorem react_bytesOut {e : Event} (hstep : s.react e = some t) : s.bytesOut <+: t.bytesOut := by
  cases e with
  | sendMessage m =>
    rw [← Option.some.inj hstep]
    unfold sendMessage
    split_ifs <;> exact List.prefix_rfl
  | kick =>
    simp only [react] at hstep
    split at hstep
    · rw [← Option.some.inj hstep, setEvents_bytesOut]
    · cases hstep
  | next =>
    simp only [react] at hstep
    split at hstep
    · rw [← Option.some.inj hstep]
      unfold next
      split <;> exact List.prefix_rfl
    · cases hstep
  | sendmsg answer =>
    simp only [react] at hstep
    split at hstep
    · rw [← Option.some.inj hstep]
      cases answer with
      | bytes count => exact wrote_bytesOut s _ _ ▸ List.prefix_append _ _
      | error errno =>
        cases errno with
        | eagain | ewouldblock | eintr => exact wrote_bytesOut s _ _ ▸ List.prefix_append _ _
        | econnreset | epipe | etimedout | other => exact List.prefix_rfl
    · cases hstep
  | recv answer =>
    simp only [react] at hstep
    split at hstep
    · rw [← Option.some.inj hstep]
      cases answer with
      | bytes chunk => exact (got_bytesOut s chunk).symm ▸ List.prefix_rfl
      | shutdown => exact List.prefix_rfl
      | error errno =>
        cases errno with
        | eagain | ewouldblock | eintr => exact (got_bytesOut s []).symm ▸ List.prefix_rfl
        | econnreset | etimedout | epipe | other => exact List.prefix_rfl
    · cases hstep
  | epollout | requeue | epollin | fails =>
    simp only [react] at hstep
    repeat' split at hstep
    all_goals first
      | cases hstep; done
      | exact Option.some.inj hstep ▸ List.prefix_rfl

theorem step_eq_some {e : Event} :
    s.step e = some t ↔ (s.panic = none ∧ s.Possible e) ∧ s.react e = some t := by
  simp [step]

theorem Reading.step (h : s.Reading ∧ s.Writing) {e : Event} (hstep : s.step e = some t) :
    t.Reading ∧ t.Writing := by
  obtain ⟨⟨-, hpossible⟩, hreact⟩ := step_eq_some.mp hstep
  exact ⟨h.1.react h.2 hpossible hreact, h.2.react hreact⟩

def Overlong (s : MessageSocket) (e : Event) : Prop :=
  ∃ m : Message, e = .sendMessage m ∧ s.maxMessageLength.toNat < m.contents.length

/-- A system call fails in a way that the code does not handle. -/
def Event.Unexpected : Event → Prop
  | .sendmsg (.error errno) => errno = .etimedout ∨ errno = .other
  | .recv (.error errno) => errno = .epipe ∨ errno = .other
  | .fails _ => True
  | _ => False

def Blamed (s : MessageSocket) (e : Event) (p : Panic) : Prop :=
  s.Overlong e ∨ e.Unexpected ∨ e = .kick ∧ s.connected = false ∧ p = .modifyingFile

theorem wrote_panic (hc : s.connected) (o : Outbound) (bytes : List UInt8) :
    (s.wrote o bytes).panic = s.panic := by
  unfold wrote setEvents
  dsimp only
  rw [if_pos hc]
  split_ifs <;> rfl

theorem got_panic (s : MessageSocket) (chunk : List UInt8) : (s.got chunk).panic = s.panic := by
  unfold got readHeader readMessage
  dsimp only
  split_ifs <;> rfl

theorem blamed_of_panic (hw : s.Writing) (hpanic : s.panic = none) {e : Event}
    (hstep : s.react e = some t) {p : Panic} (hp : t.panic = some p) : s.Blamed e p := by
  have hcalm : t.panic = s.panic → s.Blamed e p := fun h => nomatch hp.symm.trans (h.trans hpanic)
  cases e with
  | sendMessage m =>
    by_cases hlong : m.contents.length > s.maxMessageLength.toNat
    · exact .inl ⟨m, rfl, hlong⟩
    · apply hcalm
      rw [← Option.some.inj hstep, sendMessage, if_neg hlong]
  | kick =>
    simp only [react] at hstep
    split at hstep
    · rw [← Option.some.inj hstep] at hp hcalm
      unfold setEvents at hp hcalm
      split_ifs at hp hcalm with hc
      · exact hcalm rfl
      · exact .inr (.inr ⟨rfl, by simpa using hc, (Option.some.inj hp).symm⟩)
    · cases hstep
  | next =>
    apply hcalm
    simp only [react] at hstep
    split at hstep
    · rw [← Option.some.inj hstep]
      unfold next
      split <;> rfl
    · cases hstep
  | sendmsg answer =>
    simp only [react] at hstep
    split at hstep
    · rename_i o more hloop
      have hwrote := wrote_panic (hw.connected (hloop ▸ nofun)) o
      rw [← Option.some.inj hstep] at hcalm
      cases answer with
      | bytes count => exact hcalm (hwrote _)
      | error errno =>
        cases errno with
        | eagain | ewouldblock | eintr => exact hcalm (hwrote _)
        | econnreset | epipe => exact hcalm rfl
        | etimedout => exact .inr (.inl (.inl rfl))
        | other => exact .inr (.inl (.inr rfl))
    · cases hstep
  | recv answer =>
    simp only [react] at hstep
    split at hstep
    · rw [← Option.some.inj hstep] at hcalm
      cases answer with
      | bytes chunk => exact hcalm (got_panic s chunk)
      | shutdown => exact hcalm rfl
      | error errno =>
        cases errno with
        | eagain | ewouldblock | eintr => exact hcalm (got_panic s [])
        | econnreset | etimedout => exact hcalm rfl
        | epipe => exact .inr (.inl (.inl rfl))
        | other => exact .inr (.inl (.inr rfl))
    · cases hstep
  | fails call => exact .inr (.inl trivial)
  | epollout | requeue | epollin =>
    apply hcalm
    simp only [react] at hstep
    repeat' split at hstep
    all_goals first
      | cases hstep; done
      | exact Option.some.inj hstep ▸ rfl

theorem kick_of_closed (hpanic : s.panic = none) (hc : s.connected = false)
    (hkicks : 0 < s.kicks) : ∃ t, s.step .kick = some t ∧ t.panic = some .modifyingFile := by
  refine ⟨{ s with kicks := s.kicks - 1 }.setEvents, ?_, by simp [setEvents, hc]⟩
  exact step_eq_some.mpr ⟨⟨hpanic, trivial⟩, if_pos hkicks⟩

theorem panics_of_closed (hpanic : s.panic = none) (hc : s.connected = false)
    (hqueue : s.outboundQueue = []) {m : Message}
    (hm : m.contents.length ≤ s.maxMessageLength.toNat) :
    ∃ t, Runs.run step s [.sendMessage m, .kick] = some t ∧ t.panic = some .modifyingFile := by
  have hsend : s.step (.sendMessage m) = some { s with
      kicks := s.kicks + 1, outboundQueue := [.new m], sent := s.sent ++ [m] } := by
    refine step_eq_some.mpr ⟨⟨hpanic, trivial⟩, congrArg some ?_⟩
    unfold sendMessage
    rw [if_neg (Nat.not_lt.mpr hm), hqueue]
    rfl
  obtain ⟨t, hkick, ht⟩ := kick_of_closed (s := { s with
    kicks := s.kicks + 1, outboundQueue := [.new m], sent := s.sent ++ [m] })
    hpanic hc (Nat.succ_pos _)
  exact ⟨t, Runs.run_cons.mpr ⟨_, hsend, Runs.run_cons.mpr ⟨t, hkick, rfl⟩⟩, ht⟩

/-- A socket panics only when a system call fails in a way that the code does not handle, when
a caller passes an over-long message, or when a thread wakes it after it was disconnected. And
that last panic cannot be avoided by callers: the next message to an empty queue leads to it. -/
theorem panic_only_after_disconnect (limit : UInt32) (dup addReceive addSend : Bool)
    (events : List Event) (s : MessageSocket)
    (hrun : Runs.run step (construct limit dup addReceive addSend) events = some s) :
    (∀ p, s.panic = some p →
      events = [] ∧ (dup && addReceive && addSend) = false ∨
      ∃ before e t, events = before ++ [e] ∧
        Runs.run step (construct limit dup addReceive addSend) before = some t ∧ t.Blamed e p) ∧
    (s.panic = none → s.connected = false → s.outboundQueue = [] →
      ∀ m : Message, m.contents.length ≤ s.maxMessageLength.toNat →
        ∃ t, Runs.run step s [.sendMessage m, .kick] = some t ∧
          t.panic = some .modifyingFile) := by
  refine ⟨?_, fun hpanic hc hqueue m hm => panics_of_closed hpanic hc hqueue hm⟩
  intro p hp
  rcases List.eq_nil_or_concat events with rfl | ⟨before, e, rfl⟩
  · refine .inl ⟨rfl, ?_⟩
    rw [← Option.some.inj hrun] at hp
    cases dup <;> cases addReceive <;> cases addSend <;> first | rfl | cases hp
  · rw [List.concat_eq_append, Runs.run_append] at hrun
    obtain ⟨t, ht, hlast⟩ := Option.bind_eq_some_iff.mp hrun
    obtain ⟨u, hstep, hu⟩ := Runs.run_cons.mp hlast
    obtain ⟨⟨hpanic, -⟩, hreact⟩ := step_eq_some.mp hstep
    have hw : t.Writing := by
      refine Runs.invariant (fun _ _ _ h hstep => ?_) (writing_construct _ _ _ _) ht
      exact h.react (step_eq_some.mp hstep).2
    refine .inr ⟨before, e, t, List.concat_eq_append, ht, ?_⟩
    exact blamed_of_panic hw hpanic hreact (Option.some.inj hu ▸ hp)

/-- The peer has gone, and a request follows. -/
theorem panic_after_shutdown :
    ∃ s, Runs.run step (construct 100 true true true) [.epollin, .recv .shutdown] = some s ∧
      ∃ t, Runs.run step s [.sendMessage ⟨1, [65]⟩, .kick] = some t ∧
        t.panic = some .modifyingFile :=
  ⟨_, rfl, (panic_only_after_disconnect 100 true true true [.epollin, .recv .shutdown] _ rfl).2
    rfl rfl rfl ⟨1, [65]⟩ (by decide)⟩

/-- What is left of the stream while no `read` is under way does not hold a whole frame. -/
theorem Reading.not_begun (h : s.Reading) (hc : s.connected) (hloop : s.loop ≠ .readable)
    (m : Message) (hm : m.Fits) :
    ¬m.frame <+: s.inbound.headerBytes ++ s.inbound.message := by
  intro hbegin
  have hlen := hbegin.length_le
  have hheader := h.header
  have hmessage := h.message
  rw [Message.frame, outbound_length, List.length_append] at hlen
  have hread : 12 ≤ s.inbound.bytesRead := by omega
  have hincomplete := h.incomplete hc hloop hread
  have htwelve : s.inbound.headerBytes.length = 12 := by omega
  have hbytes : s.inbound.headerBytes =
      Header.toBigEndian ⟨m.messageId, UInt32.ofNat m.contents.length⟩ := by
    obtain ⟨rest, hrest⟩ := hbegin
    unfold Message.frame outbound at hrest
    rw [List.append_assoc] at hrest
    exact (List.append_inj hrest (by rw [Header.toBigEndian_length, htwelve])).1.symm
  have hpayload : s.inbound.header.payloadLength.toNat = m.contents.length := by
    unfold Inbound.header
    rw [hbytes, Header.fromBigEndian_toBigEndian, UInt32.toNat_ofNat_of_lt' hm]
  omega

/-- Whatever a peer sends, and wherever the kernel cuts it, the messages that are received are
those whose frames the bytes consist of, none longer than the limit, and no frame that has
arrived is held back. -/
theorem received_frames (limit : UInt32) (events : List Event) (s : MessageSocket)
    (hrun : Runs.run step (new limit) events = some s) :
    ∃ rest, s.bytesIn = s.received.flatMap Message.frame ++ rest ∧
      (∀ m ∈ s.received, m.contents.length ≤ s.maxMessageLength.toNat) ∧
      (s.connected → s.loop ≠ .readable → ∀ m : Message, m.Fits → ¬m.frame <+: rest) := by
  have h := (Runs.invariant (fun _ _ _ h hstep => Reading.step h hstep)
    ⟨reading_new limit, writing_new limit⟩ hrun).1
  exact ⟨_, h.stream, h.received, h.not_begun⟩

def sampleOverlong : List Event :=
  [.epollin, .recv (.bytes [0, 0, 0, 0, 0, 0, 0, 1, 0, 0, 0, 1]), .recv (.bytes [65]),
    .recv (.bytes [0, 0, 0, 0, 0, 0, 0, 2, 255, 255, 255, 255])]

theorem sample_received_frames :
    ∃ s, Runs.run step (new 100) sampleOverlong = some s ∧ s.connected = false ∧
      s.received = [⟨1, [65]⟩] ∧ ∃ rest, s.bytesIn = s.received.flatMap Message.frame ++ rest :=
  ⟨_, rfl, rfl, rfl, (received_frames 100 sampleOverlong _ rfl).imp fun _ h => h.1⟩

end MessageSocket

inductive Side
  | client
  | server
  deriving DecidableEq, Repr

def Side.peer : Side → Side
  | .client => .server
  | .server => .client

abbrev Connection := Side → MessageSocket

namespace Connection

/-- The two ends may have different limits. -/
def new (limit : Side → UInt32) : Connection := fun side => .new (limit side)

/-- One of the ends makes a step. TCP delivers the bytes of the peer, in order. -/
def step (c : Connection) : Side × MessageSocket.Event → Option Connection
  | (side, e) => ((c side).step e).bind fun t =>
    if t.bytesIn <+: (c side.peer).bytesOut then some (Function.update c side t) else none

structure Inv (c : Connection) : Prop where
  writing : ∀ side, (c side).Writing
  reading : ∀ side, (c side).Reading
  tcp : ∀ side, (c side).bytesIn <+: (c side.peer).bytesOut

theorem inv_new (limit : Side → UInt32) : (new limit).Inv :=
  ⟨fun side => MessageSocket.writing_new (limit side),
    fun side => MessageSocket.reading_new (limit side), fun _ => List.nil_prefix⟩

theorem inv_step {c d : Connection} {e : Side × MessageSocket.Event} (h : c.Inv)
    (hstep : c.step e = some d) : d.Inv := by
  obtain ⟨side, e⟩ := e
  obtain ⟨t, ht, hd⟩ := Option.bind_eq_some_iff.mp hstep
  split at hd
  · rename_i htcp
    obtain ⟨⟨-, hpossible⟩, hreact⟩ := MessageSocket.step_eq_some.mp ht
    rw [← Option.some.inj hd]
    constructor
    · intro other
      rcases eq_or_ne other side with rfl | hne
      · rw [Function.update_self]
        exact (h.writing other).react hreact
      · rw [Function.update_of_ne hne]
        exact h.writing other
    · intro other
      rcases eq_or_ne other side with rfl | hne
      · rw [Function.update_self]
        exact (h.reading other).react (h.writing other) hpossible hreact
      · rw [Function.update_of_ne hne]
        exact h.reading other
    · intro other
      rcases eq_or_ne other side with rfl | hne
      · rw [Function.update_self, Function.update_of_ne (by cases other <;> nofun)]
        exact htcp
      · have hpeer : other.peer = side := by cases other <;> cases side <;> simp_all [Side.peer]
        rw [Function.update_of_ne hne, hpeer, Function.update_self]
        exact (hpeer ▸ h.tcp other).trans (MessageSocket.react_bytesOut hreact)
  · cases hd

theorem inv_run {limit : Side → UInt32} {events : List (Side × MessageSocket.Event)}
    {c : Connection} (hrun : Runs.run step (new limit) events = some c) : c.Inv :=
  Runs.invariant (fun _ _ _ h hstep => inv_step h hstep) (inv_new limit) hrun

theorem Inv.received_append {c : Connection} (h : c.Inv) (side : Side) {rest : List UInt8}
    (hrest : (c side.peer).bytesIn ++ rest = (c side).sent.flatMap Message.frame) :
    ∃ zs, (c side).sent = (c side.peer).received ++ zs ∧
      (c side.peer).inbound.headerBytes ++ (c side.peer).inbound.message ++ rest =
        zs.flatMap Message.frame := by
  rw [(h.reading side.peer).stream, List.append_assoc] at hrest
  refine Message.frame_selfDelimiting.flatMap_append ?_ ?_ hrest
  · exact fun m hm => lt_of_le_of_lt ((h.reading side.peer).received m hm) (UInt32.toNat_lt _)
  · exact fun m hm => lt_of_le_of_lt ((h.writing side).fits m hm) (UInt32.toNat_lt _)

theorem Inv.tcp_peer {c : Connection} (h : c.Inv) (side : Side) :
    (c side.peer).bytesIn <+: (c side).bytesOut := by
  have := h.tcp side.peer
  cases side <;> exact this

def sampleEvents : List (Side × MessageSocket.Event) :=
  [(.client, .sendMessage ⟨1, [7, 8, 9]⟩), (.client, .kick), (.client, .epollout),
    (.client, .next), (.client, .sendMessage ⟨0, []⟩), (.client, .sendmsg (.bytes 5)),
    (.server, .epollin), (.server, .recv (.bytes [0, 0, 0])), (.client, .requeue),
    (.client, .kick), (.client, .epollout), (.client, .next), (.client, .sendmsg (.bytes 10)),
    (.server, .epollin), (.server, .recv (.bytes [0, 0, 0, 0, 1, 0, 0, 0, 3])),
    (.server, .recv (.bytes [7, 8, 9])), (.client, .next), (.client, .sendmsg (.bytes 12)),
    (.server, .recv (.bytes [0, 0, 0, 0, 0, 0, 0, 0, 0, 0, 0, 0])),
    (.server, .recv (.error .eagain)), (.server, .recv (.error .eagain)), (.client, .next)]

/-- Whatever the interleaving of the threads on both sides, and wherever the kernel cuts the
stream, each side receives the messages of the other one unchanged, in the order of
`sendMessage`, none twice and none skipped. -/
theorem received_prefix_sent (limit : Side → UInt32) (events : List (Side × MessageSocket.Event))
    (c : Connection) (hrun : Runs.run step (new limit) events = some c) (side : Side) :
    (c side.peer).received <+: (c side).sent := by
  have h := inv_run hrun
  obtain ⟨rest, hrest⟩ := (h.tcp_peer side).trans (h.writing side).out
  obtain ⟨zs, hzs, -⟩ := h.received_append side hrest
  exact ⟨zs, hzs.symm⟩

theorem sample_received_prefix_sent :
    ∃ c, Runs.run step (new fun _ => 100) sampleEvents = some c ∧
      (c .server).received = [⟨1, [7, 8, 9]⟩, ⟨0, []⟩] ∧
      (c .server).received <+: (c .client).sent :=
  ⟨_, rfl, rfl, received_prefix_sent (fun _ => 100) sampleEvents _ rfl .client⟩

/-- Nobody has anything left to do for the messages of a side: no thread is about to call
`setEvents`, no event is set, both event loops are elsewhere, and TCP has delivered all bytes. -/
structure Quiet (c : Connection) (side : Side) : Prop where
  kicks : (c side).kicks = 0
  armed : (c side).armed = false
  loop : (c side).loop = .idle
  peerLoop : (c side.peer).loop = .idle
  delivered : (c side.peer).bytesIn = (c side).bytesOut

/-- No wake-up is lost: when nobody has anything left to do on an open connection, all messages
have been received. -/
theorem received_eq_sent_of_quiet (limit : Side → UInt32)
    (events : List (Side × MessageSocket.Event)) (c : Connection)
    (hrun : Runs.run step (new limit) events = some c) (side : Side)
    (hopen : ∀ side, (c side).connected) (hquiet : c.Quiet side) :
    (c side.peer).received = (c side).sent := by
  have h := inv_run hrun
  have hqueue : (c side).outboundQueue = [] := by
    by_contra hne
    have hwoken := (h.writing side).woken (hopen side) (.inl hquiet.loop) hne
    simp [hquiet.armed, hquiet.kicks] at hwoken
  have hrest : (c side.peer).bytesIn ++ [] = (c side).sent.flatMap Message.frame := by
    rw [← (h.writing side).rest (hopen side), hquiet.delivered]
    simp [MessageSocket.pending, hquiet.loop, hqueue]
  obtain ⟨zs, hzs, hframes⟩ := h.received_append side hrest
  cases zs with
  | nil => simpa using hzs.symm
  | cons m zs =>
    have hm : m ∈ (c side).sent := by simp [hzs]
    rw [List.append_nil] at hframes
    exact absurd ⟨_, hframes.symm⟩ ((h.reading side.peer).not_begun (hopen _)
      (hquiet.peerLoop ▸ nofun) m
      (lt_of_le_of_lt ((h.writing side).fits m hm) (UInt32.toNat_lt _)))

theorem sample_received_eq_sent :
    ∃ c, Runs.run step (new fun _ => 100) sampleEvents = some c ∧
      (c .server).received = (c .client).sent :=
  ⟨_, rfl, received_eq_sent_of_quiet (fun _ => 100) sampleEvents _ rfl .client
    (fun side => by cases side <;> rfl) ⟨rfl, rfl, rfl, rfl, rfl⟩⟩

end Connection

end RaftMonitor.LogCabin
