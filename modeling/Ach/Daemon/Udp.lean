import Ach.Daemon.Pull
import Mathlib.Logic.Relation

/-! # `achd_push_udp` and `achd_pull_udp`

Frames sent as datagrams, one datagram for a frame. The sender takes a frame, skips it if it is
larger than `MTU_UDP`, polls until the UDP socket can be written, and sends it; the receiver polls,
receives a datagram, drops it if it does not come from the peer, and publishes it. A step of either
is one pass of the innermost loop that runs. What the calls do comes from outside, as the event of
the step.

`recvfrom` is given a buffer for a frame of the nominal size of the receiver's channel and stores of
a datagram what fits. As long as the datagrams of the peer fit, every frame published is one the
peer has sent, whatever datagrams are lost, repeated, reordered or come from elsewhere
(`udp_publishes_whole_frames`); of a longer one a part is published (`udp_publishes_prefix`). -/

namespace Ach.Daemon.Udp

open Ach.Lib.Run
open Ach.Channel.Types Ach.Channel.Get Ach.Channel.Put Ach.Channel.Create Ach.Channel.Invariant
open Ach.Channel.PutSpec Ach.Channel.History
open Ach.Daemon.Pipe Ach.Daemon.Push Ach.Daemon.Pull

/-! ### Addresses and connections -/

/-- What is compared of a `struct sockaddr_in`. -/
structure SockAddr where
  addr : UInt32
  port : UInt16
  deriving DecidableEq

/-- The address after `memset`. -/
def SockAddr.zero : SockAddr := ⟨0, 0⟩

/-- The address of a host at the other end of a connection: never the address zero. -/
structure PeerAddr extends SockAddr where
  addr_ne : addr ≠ 0

/-- A datagram on its way. -/
structure Datagram where
  src : SockAddr
  dst : SockAddr
  payload : List UInt8

/-- A connection that was made: the descriptors of the control connection and of the UDP socket, the
address datagrams sent from the latter carry, the address `getpeername` gives, and the `remote-port`
of the other side. -/
structure Endpoint where
  input : ℕ
  aux : ℕ
  own : SockAddr
  peerName : { addr : UInt32 // addr ≠ 0 }
  remotePort : ℤ

/-- `udp_peer`, if `getpeername` succeeds. -/
def udpPeer (e : Endpoint) : PeerAddr := ⟨⟨e.peerName.val, UInt16.ofInt e.remotePort⟩, e.peerName.2⟩

/-- What both loops work with: the buffer, the descriptors, the addresses, the descriptors in their
copy `pfd`, and `cx.sig_received`. -/
structure UdpLink where
  conn : AchdConn
  input : ℕ
  aux : ℕ
  own : SockAddr
  peer : PeerAddr
  pfd : ℕ × ℕ
  sig : Bool

/-- As the loops are entered, with a new buffer of the given size. -/
def UdpLink.start (fresh : ℕ → ℕ → UInt8) (size : ℕ) (e : Endpoint) : UdpLink :=
  ⟨.alloc fresh size, e.input, e.aux, e.own, udpPeer e, (e.aux, e.input), false⟩

/-- After `achd_reconnect` and `udp_peer`: the buffer and `pfd` stay. -/
def UdpLink.adopt (link : UdpLink) (e : Endpoint) (sig : Bool) : UdpLink :=
  { link with input := e.input, aux := e.aux, own := e.own, peer := udpPeer e, sig := sig }

/-! ### Polling -/

/-- Where a daemon is. -/
inductive UdpPhase where
  /-- In the loop of `get_frame`. -/
  | getFrame
  /-- In the loop around `udp_poll`. -/
  | poll
  /-- About to call `sendto` or `recvfrom`. -/
  | transfer
  /-- The function has returned. -/
  | returned
  /-- The process has ended with an error. -/
  | exited
  deriving DecidableEq

/-- What `poll` finds, without a termination signal: whether the UDP socket is ready, and whether
the control connection is there. -/
inductive Polled where
  | alive (ready : Bool)
  | closed (ready : Bool)
  | failed

/-- One pass of the loop around `udp_poll`. If `achd_reconnect` gives no connection, `udp_peer`
fails. -/
def UdpLink.pollPass (reconnect : Bool) (link : UdpLink) (p : Polled) (sig : Bool)
    (again : Option (Endpoint × Bool)) : UdpLink × UdpPhase :=
  if link.sig = true ∨ sig = true then ({ link with sig := true }, .returned)
  else match p with
    | .failed => (link, .exited)
    | .alive ready => (link, if ready then .transfer else .poll)
    | .closed ready =>
      if reconnect then
        match again with
        | none => (link, .exited)
        -- what the socket was before is not looked at again
        | some (e, sig) => (link.adopt e sig, if ready then .transfer else .poll)
      else (link, .returned)

/-! ### The sender -/

/-- `MTU_UDP`. -/
def mtuUdp : ℕ := 0xFFFF

/-- The sender: the frames taken from the channel, and the datagrams sent. -/
structure PushUdpSt where
  link : UdpLink
  phase : UdpPhase
  taken : List (List UInt8)
  sent : List Datagram

/-- What comes from outside in a step of the sender. -/
inductive PushUdpEvent where
  | get (res : GetResult) (sig : Bool)
  | poll (p : Polled) (sig : Bool) (again : Option (Endpoint × Bool))
  /-- `sendto` sends the whole datagram or fails. -/
  | send (ok : Bool) (sig : Bool)

/-- One pass of the loop of `get_frame`, and the check of the size. -/
def PushUdpSt.get (env : PushEnv) (st : PushUdpSt) (res : GetResult) (sig : Bool) : PushUdpSt :=
  let g := getFrame env.fresh st.link.conn res
  let sig := st.link.sig || sig
  { st with
    link := { st.link with conn := g.1, sig := sig }
    taken := if g.2 then st.taken ++ [res.bytes] else st.taken
    phase :=
      if sig then .returned
      else if g.2 = true ∧ achPipeGetSize env.wide g.1.pipeframe ≤ mtuUdp then .poll
      else .getFrame }

/-- `sendto`, and what follows. -/
def PushUdpSt.send (env : PushEnv) (st : PushUdpSt) (ok sig : Bool) : PushUdpSt :=
  let cnt := achPipeGetSize env.wide st.link.conn.pipeframe
  let sig := st.link.sig || sig
  if ok then
    { st with
      link := { st.link with sig := sig }
      sent := st.sent ++
        [⟨st.link.own, st.link.peer.toSockAddr, frameOf st.link.conn.pipeframe.data cnt⟩]
      phase := if sig then .returned else .getFrame }
  else { st with link := { st.link with sig := sig }, phase := .exited }

/-- **One step of `achd_push_udp`.** -/
def PushUdpSt.next (env : PushEnv) (st : PushUdpSt) : PushUdpEvent → Option PushUdpSt
  | .get res sig =>
    if st.phase = .getFrame ∧ Possible st.link.conn.pipeframeSize res then
      some (st.get env res sig)
    else none
  | .poll p sig again =>
    if st.phase = .poll then
      let q := st.link.pollPass env.reconnect p sig again
      some { st with link := q.1, phase := q.2 }
    else none
  | .send ok sig => if st.phase = .transfer then some (st.send env ok sig) else none

/-! ### The receiver -/

/-- A frame published: the address it came from, the address of the peer at that time, and what was
given to `ach_put`. -/
structure Publication where
  src : SockAddr
  peer : SockAddr
  frame : List UInt8
  deriving DecidableEq

/-- The receiver. -/
structure PullUdpSt where
  link : UdpLink
  phase : UdpPhase
  published : List Publication

/-- What comes from outside in a step of the receiver. -/
inductive PullUdpEvent where
  | poll (p : Polled) (sig : Bool) (again : Option (Endpoint × Bool))
  /-- `recvfrom` gives a datagram or fails; a termination signal may come before it returns, or
  after it; and the channel is in the given state. -/
  | recv (d : Option Datagram) (sig late : Bool) (shm : AchHeader)

/-- `recvfrom`: what fits of a datagram is stored. Gives the buffer, the address of the sender, and
the return value as a `size_t`. -/
def recvfrom (conn : AchdConn) : Option Datagram → AchdConn × SockAddr × ℕ
  | none => (conn, .zero, 2 ^ 64 - 1)
  | some d =>
    let bytes := d.payload.take conn.pipeframeSize
    ({ conn with pipeframe := conn.pipeframe.storeData bytes }, d.src, bytes.length)

/-- `put_frame`. -/
def PullUdpSt.putFrame (env : PullEnv) (st : PullUdpSt) (src : SockAddr) (shm : AchHeader) :
    PullUdpSt :=
  let frame := st.link.conn.pipeframe
  let cnt := achPipeGetSize env.wide frame
  if st.link.sig then { st with phase := .returned }
  else match out (achPut env.chan (some frame.data) cnt) env.dbg shm with
    | .ok (.ok, _) =>
      { st with
        published := st.published ++ [⟨src, st.link.peer.toSockAddr, frameOf frame.data cnt⟩]
        phase := .poll }
    | _ => { st with phase := .exited }

/-- `recvfrom`, and what follows. -/
def PullUdpSt.recv (env : PullEnv) (st : PullUdpSt) (d : Option Datagram) (sig late : Bool)
    (shm : AchHeader) : PullUdpSt :=
  let r := recvfrom st.link.conn d
  let sig := st.link.sig || sig
  let st := { st with link := { st.link with conn := r.1, sig := sig } }
  if sig then { st with phase := .returned }
  else if r.2.1 ≠ st.link.peer.toSockAddr then { st with phase := .poll }
  else
    let conn := { st.link.conn with pipeframe := achPipeSetSize st.link.conn.pipeframe r.2.2 }
    putFrame env { st with link := { st.link with conn := conn, sig := late } } r.2.1 shm

/-- **One step of `achd_pull_udp`.** -/
def PullUdpSt.next (env : PullEnv) (st : PullUdpSt) : PullUdpEvent → Option PullUdpSt
  | .poll p sig again =>
    if st.phase = .poll then
      let q := st.link.pollPass env.reconnect p sig again
      some { st with link := q.1, phase := q.2 }
    else none
  | .recv d sig late shm =>
    if st.phase = .transfer then some (st.recv env d sig late shm) else none

/-! ### The relay -/

/-- A receiver, and any number of senders. -/
structure World (ι : Type) where
  push : ι → PushUdpSt
  pull : PullUdpSt

/-- One of them makes a step. -/
inductive WorldEvent (ι : Type) where
  | push (i : ι) (e : PushUdpEvent)
  | pull (e : PullUdpEvent)

section
variable {ι : Type} [DecidableEq ι] (penv : ι → PushEnv) (env : PullEnv)

/-- **One step of the relay.** -/
def World.next (w : World ι) : WorldEvent ι → Option (World ι)
  | .push i e =>
    ((w.push i).next (penv i) e).map fun st => { w with push := Function.update w.push i st }
  | .pull e => (w.pull.next env e).map fun st => { w with pull := st }

/-- The relay as it starts: the buffer of the receiver has the nominal frame size of its channel. -/
def World.start (sizes : ι → ℕ) (ends : ι → Endpoint) (shm : AchHeader) (e : Endpoint) : World ι :=
  ⟨fun i => ⟨.start (penv i).fresh (sizes i) (ends i), .getFrame, [], []⟩,
    ⟨.start env.fresh (shm.dataSize / shm.indexCnt) e, .poll, []⟩⟩

/-- What the channels and the network do: a frame delivered has less than `2 ^ 32` bytes, and a
datagram that carries the address of the peer was sent by a sender with that address, at any time
before. A datagram from elsewhere is arbitrary. -/
def Carried (w : World ι) : WorldEvent ι → Prop
  | .push _ (.get res _) => res.bytes.length < 2 ^ 32
  | .pull (.recv (some d) _ _ _) =>
    d.src = w.pull.link.peer.toSockAddr → ∃ i, d ∈ (w.push i).sent
  | _ => True

/-- A datagram from the peer fits into the buffer of the receiver. -/
def Fits (w : World ι) : WorldEvent ι → Prop
  | .pull (.recv (some d) _ _ _) =>
    d.src = w.pull.link.peer.toSockAddr → d.payload.length ≤ w.pull.link.conn.pipeframeSize
  | _ => True

/-- A step that meets a condition on the state before it. -/
def Step (ok : World ι → WorldEvent ι → Prop) (w w' : World ι) : Prop :=
  ∃ e, Carried w e ∧ ok w e ∧ w.next penv env e = some w'

/-- The runs all of whose steps meet a condition. -/
def UdpRun (ok : World ι → WorldEvent ι → Prop) : World ι → World ι → Prop :=
  Relation.ReflTransGen (Step penv env ok)

/-- **Frames are published as they were sent**: every frame published came from the peer, and is the
whole payload of a datagram of a sender with the address of the peer, and a frame that this sender
took from its channel. -/
def PublishesWholeFrames (w : World ι) : Prop :=
  ∀ p ∈ w.pull.published, p.src = p.peer ∧
    ∃ i, ∃ d ∈ (w.push i).sent, d.src = p.peer ∧ d.payload = p.frame ∧ p.frame ∈ (w.push i).taken

end

/-! ### The sender keeps what it takes -/

theorem frameOf_of_staged {conn : AchdConn} {f : List UInt8} (wide : WideShift)
    (h : Staged conn f) (hf : f.length < 2 ^ 32) :
    frameOf conn.pipeframe.data (achPipeGetSize wide conn.pipeframe) = f := by
  rw [getSize_of_sizeBytes wide hf h.sizeBytes]
  exact h.data

/-- Polling leaves the buffer alone. -/
theorem pollPass_conn (reconnect : Bool) (link : UdpLink) (p : Polled) (sig : Bool)
    (again : Option (Endpoint × Bool)) :
    (link.pollPass reconnect p sig again).1.conn = link.conn := by
  unfold UdpLink.pollPass UdpLink.adopt
  split
  · rfl
  · split
    · rfl
    · rfl
    · split
      · split <;> rfl
      · rfl

/-- **The invariant of the sender.** Between a get and the send the frame taken is in the buffer,
and only frames taken are sent. -/
structure PushUdpInv (st : PushUdpSt) : Prop where
  magic : st.link.conn.pipeframe.magic = achpipe
  staged : st.phase = .poll ∨ st.phase = .transfer →
    ∃ f ∈ st.taken, Staged st.link.conn f ∧ f.length < 2 ^ 32
  sent : ∀ d ∈ st.sent, d.payload ∈ st.taken ∧ d.payload.length < 2 ^ 32

section
variable {env : PushEnv} {st st' : PushUdpSt}

theorem PushUdpInv.get {res : GetResult} (h : PushUdpInv st) (hshort : res.bytes.length < 2 ^ 32)
    (hp : Possible st.link.conn.pipeframeSize res) (sig : Bool) :
    PushUdpInv (st.get env res sig) := by
  obtain ⟨hm, hst⟩ := @getFrame_cases env.fresh _ _ hp h.magic
  constructor
  case magic => exact hm
  case staged =>
    intro hph
    have hdone : (getFrame env.fresh st.link.conn res).2 = true := by
      by_contra hd
      simp only [PushUdpSt.get, hd, false_and, if_false] at hph
      split at hph <;> simp at hph
    refine ⟨res.bytes, ?_, hst hdone, hshort⟩
    simp [PushUdpSt.get, hdone]
  case sent =>
    intro d hd
    obtain ⟨htaken, hlen⟩ := h.sent d hd
    refine ⟨?_, hlen⟩
    simp only [PushUdpSt.get]
    split
    · exact List.mem_append_left _ htaken
    · exact htaken

theorem PushUdpInv.poll (h : PushUdpInv st) (hph : st.phase = .poll) {q : UdpLink × UdpPhase}
    (hq : q.1.conn = st.link.conn) : PushUdpInv { st with link := q.1, phase := q.2 } := by
  constructor
  case magic =>
    rw [hq]
    exact h.magic
  case staged =>
    intro _
    rw [hq]
    exact h.staged (Or.inl hph)
  case sent => exact h.sent

theorem PushUdpInv.send (h : PushUdpInv st) (hph : st.phase = .transfer) (ok sig : Bool) :
    PushUdpInv (st.send env ok sig) := by
  obtain ⟨f, hf, hst, hlen⟩ := h.staged (Or.inr hph)
  unfold PushUdpSt.send
  cases ok with
  | false => exact ⟨h.magic, by simp, h.sent⟩
  | true =>
    constructor
    case magic => exact h.magic
    case staged =>
      intro hph
      simp only [if_true] at hph
      split at hph <;> simp at hph
    case sent =>
      intro d hd
      rcases List.mem_append.mp hd with hd | hd
      · exact h.sent d hd
      · rw [List.mem_singleton.mp hd]
        simp only [frameOf_of_staged env.wide hst hlen]
        exact ⟨hf, hlen⟩

/-- **The step lemma of the sender.** -/
theorem PushUdpInv.next {e : PushUdpEvent} (h : PushUdpInv st)
    (hshort : ∀ res sig, e = .get res sig → res.bytes.length < 2 ^ 32)
    (hs : st.next env e = some st') :
    PushUdpInv st' ∧ st.taken ⊆ st'.taken ∧ st.sent ⊆ st'.sent := by
  cases e with
  | get res sig =>
    obtain ⟨⟨-, hp⟩, hs⟩ := Option.ite_none_right_eq_some.mp hs
    obtain rfl := Option.some.inj hs
    refine ⟨h.get (hshort res sig rfl) hp sig, ?_, List.Subset.refl _⟩
    simp only [PushUdpSt.get]
    split <;> simp
  | poll p sig again =>
    obtain ⟨hph, hs⟩ := Option.ite_none_right_eq_some.mp hs
    obtain rfl := Option.some.inj hs
    exact ⟨h.poll hph (pollPass_conn _ _ _ _ _), List.Subset.refl _, List.Subset.refl _⟩
  | send ok sig =>
    obtain ⟨hph, hs⟩ := Option.ite_none_right_eq_some.mp hs
    obtain rfl := Option.some.inj hs
    refine ⟨h.send hph ok sig, ?_, ?_⟩
    · cases ok <;> simp [PushUdpSt.send]
    · cases ok <;> simp [PushUdpSt.send]

end

/-! ### What the receiver publishes -/

section
variable {env : PullEnv} {st st' : PullUdpSt}

/-- What `put_frame` publishes, with the frame `f` in the buffer. -/
theorem putFrame_published {f : List UInt8} (src : SockAddr) (shm : AchHeader)
    (hbytes : st.link.conn.pipeframe.sizeBytes = sizeByte f.length) (hlen : f.length < 2 ^ 32)
    (hdata : frameOf st.link.conn.pipeframe.data f.length = f) :
    (st.putFrame env src shm).published = st.published ∨
      (st.putFrame env src shm).published =
        st.published ++ [⟨src, st.link.peer.toSockAddr, f⟩] := by
  unfold PullUdpSt.putFrame
  simp only [getSize_of_sizeBytes env.wide hlen hbytes, hdata]
  split
  · exact Or.inl rfl
  · split
    · exact Or.inr rfl
    · exact Or.inl rfl

/-- **One datagram.** Nothing is published of a datagram that is not from the peer; of one that is,
what fits into the buffer. -/
theorem recv_published (d : Option Datagram) (sig late : Bool) (shm : AchHeader)
    (hsize : ∀ d', d = some d' → d'.src = st.link.peer.toSockAddr → d'.payload.length < 2 ^ 32) :
    (st.recv env d sig late shm).published = st.published ∨
      ∃ d', d = some d' ∧ d'.src = st.link.peer.toSockAddr ∧
        (st.recv env d sig late shm).published = st.published ++
          [⟨d'.src, st.link.peer.toSockAddr, d'.payload.take st.link.conn.pipeframeSize⟩] := by
  unfold PullUdpSt.recv
  simp only
  split
  · exact Or.inl rfl
  · split
    · exact Or.inl rfl
    · rename_i hpeer
      rw [ne_eq, not_not] at hpeer
      cases d with
      | none =>
        -- the address is the one of `memset`
        have hzero : (0 : UInt32) = st.link.peer.addr := congrArg SockAddr.addr hpeer
        exact absurd hzero.symm st.link.peer.addr_ne
      | some d' =>
        have hlen : (d'.payload.take st.link.conn.pipeframeSize).length < 2 ^ 32 := by
          have := hsize d' rfl hpeer
          rw [List.length_take]
          omega
        have hdata := map_range_storeData st.link.conn.pipeframe
          (d'.payload.take st.link.conn.pipeframeSize)
        refine (putFrame_published d'.src shm ?_ hlen ?_).imp id fun h => ⟨d', rfl, hpeer, h⟩
        · rfl
        · exact hdata

end

/-! ### The relay -/

section
variable {ι : Type} {penv : ι → PushEnv} {env : PullEnv} {w w' : World ι}

/-- **The invariant of the relay.** -/
structure WorldInv (w : World ι) : Prop where
  push : ∀ i, PushUdpInv (w.push i)
  pull : ∀ p ∈ w.pull.published, p.src = p.peer ∧
    ∃ i, ∃ d ∈ (w.push i).sent, d.src = p.peer ∧ d.payload = p.frame

theorem WorldInv.publishes (h : WorldInv w) : PublishesWholeFrames w := by
  intro p hp
  obtain ⟨hsrc, i, d, hd, hpeer, hframe⟩ := h.pull p hp
  refine ⟨hsrc, i, d, hd, hpeer, hframe, ?_⟩
  rw [← hframe]
  exact ((h.push i).sent d hd).1

theorem WorldInv.pullStep (h : WorldInv w) {e : PullUdpEvent} {st : PullUdpSt}
    (hcarried : Carried w (.pull e)) (hfits : Fits w (.pull e))
    (hs : w.pull.next env e = some st) : WorldInv { w with pull := st } := by
  refine ⟨h.push, ?_⟩
  cases e with
  | poll p sig again =>
    obtain ⟨-, hs⟩ := Option.ite_none_right_eq_some.mp hs
    obtain rfl := Option.some.inj hs
    exact h.pull
  | recv d sig late shm =>
    obtain ⟨-, hs⟩ := Option.ite_none_right_eq_some.mp hs
    obtain rfl := Option.some.inj hs
    have hsize : ∀ d', d = some d' → d'.src = w.pull.link.peer.toSockAddr →
        d'.payload.length < 2 ^ 32 := by
      rintro d' rfl hsrc
      obtain ⟨i, hd⟩ := hcarried hsrc
      exact ((h.push i).sent d' hd).2
    rcases recv_published d sig late shm hsize with hnone | ⟨d', rfl, hsrc, hone⟩
    · intro p hp
      rw [hnone] at hp
      exact h.pull p hp
    · intro p hp
      rw [hone, List.take_of_length_le (hfits hsrc)] at hp
      rcases List.mem_append.mp hp with hp | hp
      · exact h.pull p hp
      · obtain ⟨i, hd⟩ := hcarried hsrc
        rw [List.mem_singleton.mp hp]
        exact ⟨hsrc, i, d', hd, hsrc, rfl⟩

theorem worldInv_start (sizes : ι → ℕ) (ends : ι → Endpoint) (shm : AchHeader) (e : Endpoint) :
    WorldInv (World.start penv env sizes ends shm e) :=
  ⟨fun i => ⟨rfl, by simp [World.start], by simp [World.start]⟩, by simp [World.start]⟩

variable [DecidableEq ι]

theorem WorldInv.pushStep (h : WorldInv w) {i : ι} {st : PushUdpSt} (hinv : PushUdpInv st)
    (hsent : (w.push i).sent ⊆ st.sent) :
    WorldInv { w with push := Function.update w.push i st } := by
  constructor
  case push =>
    intro j
    rcases eq_or_ne j i with rfl | hne
    · simpa using hinv
    · simpa [hne] using h.push j
  case pull =>
    intro p hp
    obtain ⟨hsrc, j, d, hd, hrest⟩ := h.pull p hp
    refine ⟨hsrc, j, d, ?_, hrest⟩
    rcases eq_or_ne j i with rfl | hne
    · simpa using hsent hd
    · simpa [hne] using hd

/-- **The step lemma of the relay.** -/
theorem WorldInv.step (h : WorldInv w) (hstep : Step penv env Fits w w') : WorldInv w' := by
  obtain ⟨e, hcarried, hfits, hs⟩ := hstep
  cases e with
  | push i e =>
    obtain ⟨st, hst, rfl⟩ := Option.map_eq_some_iff.mp hs
    have hshort : ∀ res sig, e = .get res sig → res.bytes.length < 2 ^ 32 := by
      rintro res sig rfl
      exact hcarried
    obtain ⟨hinv, -, hsent⟩ := (h.push i).next hshort hst
    exact h.pushStep hinv hsent
  | pull e =>
    obtain ⟨st, hst, rfl⟩ := Option.map_eq_some_iff.mp hs
    exact h.pullStep hcarried hfits hst

/-- **UDP relaying does not alter frames** as long as the datagrams from the peer fit into the
buffer of the receiver, which has the nominal frame size of its channel: in every state of every
such run, with datagrams lost, repeated and reordered, others mixed in, and connections lost and
made anew. -/
theorem udp_publishes_whole_frames (penv : ι → PushEnv) (env : PullEnv) (sizes : ι → ℕ)
    (ends : ι → Endpoint) (shm : AchHeader) (e : Endpoint)
    (hrun : UdpRun penv env Fits (World.start penv env sizes ends shm e) w) :
    PublishesWholeFrames w := by
  have hinv : WorldInv w := by
    induction hrun with
    | refl => exact worldInv_start sizes ends shm e
    | tail _ hstep ih => exact ih.step hstep
  exact hinv.publishes

/-! ### One frame relayed -/

theorem Step.push {ok : World ι → WorldEvent ι → Prop} {i : ι} {e : PushUdpEvent} {st : PushUdpSt}
    (hs : (w.push i).next (penv i) e = some st) (hcarried : Carried w (.push i e))
    (hok : ok w (.push i e)) :
    Step penv env ok w { w with push := Function.update w.push i st } :=
  ⟨.push i e, hcarried, hok, by rw [World.next, hs]; rfl⟩

theorem Step.pull {ok : World ι → WorldEvent ι → Prop} {e : PullUdpEvent} {st : PullUdpSt}
    (hs : w.pull.next env e = some st) (hcarried : Carried w (.pull e)) (hok : ok w (.pull e)) :
    Step penv env ok w { w with pull := st } :=
  ⟨.pull e, hcarried, hok, by rw [World.next, hs]; rfl⟩

end

/-- A frame that fits is taken and sent, if nothing fails. -/
theorem push_one (env : PushEnv) (st : PushUdpSt) {f : List UInt8} (hph : st.phase = .getFrame)
    (hsig : st.link.sig = false) (hmagic : st.link.conn.pipeframe.magic = achpipe)
    (hbuf : f.length ≤ st.link.conn.pipeframeSize) (hmtu : f.length ≤ mtuUdp) :
    ∃ st₁ st₂ st₃, st.next env (.get ⟨.ok, f, some f.length⟩ false) = some st₁ ∧
      st₁.next env (.poll (.alive true) false none) = some st₂ ∧
      st₂.next env (.send true false) = some st₃ ∧
      st₃.sent = st.sent ++ [⟨st.link.own, st.link.peer.toSockAddr, f⟩] := by
  have hlen : f.length < 2 ^ 32 := by
    unfold mtuUdp at hmtu
    omega
  have hp : Possible st.link.conn.pipeframeSize ⟨.ok, f, some f.length⟩ := ⟨rfl, hbuf⟩
  obtain ⟨-, hst⟩ := @getFrame_cases env.fresh _ _ hp hmagic
  have hcnt : achPipeGetSize env.wide
      (getFrame env.fresh st.link.conn ⟨.ok, f, some f.length⟩).1.pipeframe = f.length :=
    getSize_of_sizeBytes env.wide hlen (hst rfl).sizeBytes
  have hph₁ : (st.get env ⟨.ok, f, some f.length⟩ false).phase = .poll := by
    simp only [PushUdpSt.get, hsig, hcnt, hmtu]
    rfl
  refine ⟨_, _, _, if_pos ⟨hph, hp⟩, if_pos hph₁, if_pos ?_, ?_⟩
  · simp [UdpLink.pollPass, PushUdpSt.get, hsig]
  · have hframe := frameOf_of_staged env.wide (hst rfl) hlen
    simp [PushUdpSt.send, UdpLink.pollPass, PushUdpSt.get, hsig, hframe]

/-- Of a datagram from the peer what fits is published, if `ach_put` accepts it. -/
theorem pull_one (env : PullEnv) (st : PullUdpSt) {d : Datagram} {shm : AchHeader}
    (hph : st.phase = .poll) (hsig : st.link.sig = false)
    (hsrc : d.src = st.link.peer.toSockAddr) (hlen : d.payload.length < 2 ^ 32)
    (hput : ∀ buf, ∃ shm', out (achPut env.chan (some buf)
      (min st.link.conn.pipeframeSize d.payload.length)) env.dbg shm = .ok (.ok, shm')) :
    ∃ st₁ st₂, st.next env (.poll (.alive true) false none) = some st₁ ∧ st₁.link = st.link ∧
      st₁.next env (.recv (some d) false false shm) = some st₂ ∧
      st₂.published = st.published ++
        [⟨d.src, d.src, d.payload.take st.link.conn.pipeframeSize⟩] := by
  set bytes := d.payload.take st.link.conn.pipeframeSize with hbytes
  have hmin : min st.link.conn.pipeframeSize d.payload.length = bytes.length := by
    rw [hbytes, List.length_take]
  have hsize : achPipeGetSize env.wide
      (achPipeSetSize (st.link.conn.pipeframe.storeData bytes) bytes.length) = bytes.length := by
    refine getSize_of_sizeBytes env.wide ?_ rfl
    omega
  have hdata : frameOf (achPipeSetSize (st.link.conn.pipeframe.storeData bytes)
      bytes.length).data bytes.length = bytes := map_range_storeData _ _
  obtain ⟨shm', hput⟩ := hput (achPipeSetSize (st.link.conn.pipeframe.storeData bytes)
    bytes.length).data
  rw [hmin] at hput
  refine ⟨{ st with phase := .transfer },
    PullUdpSt.recv env { st with phase := .transfer } (some d) false false shm, ?_, rfl, ?_, ?_⟩
  · rw [PullUdpSt.next, if_pos hph, UdpLink.pollPass, if_neg (by simp [hsig])]
    rfl
  · rfl
  · simp [PullUdpSt.recv, PullUdpSt.putFrame, recvfrom, ← hbytes, hsig, hsrc, hsize, hput, hdata]

section
variable {ι : Type} [DecidableEq ι] {penv : ι → PushEnv} {env : PullEnv} {w : World ι} {i : ι}
  {ok : World ι → WorldEvent ι → Prop}

/-- The sender `i` sends a frame, and the others do nothing. -/
theorem udpRun_send {f : List UInt8} (hph : (w.push i).phase = .getFrame)
    (hsig : (w.push i).link.sig = false)
    (hmagic : (w.push i).link.conn.pipeframe.magic = achpipe)
    (hbuf : f.length ≤ (w.push i).link.conn.pipeframeSize) (hmtu : f.length ≤ mtuUdp)
    (hpush : ∀ w a, ok w (.push i a)) :
    ∃ w', UdpRun penv env ok w w' ∧ w'.pull = w.pull ∧ (∀ j, j ≠ i → w'.push j = w.push j) ∧
      (w'.push i).sent = (w.push i).sent ++
        [⟨(w.push i).link.own, (w.push i).link.peer.toSockAddr, f⟩] := by
  obtain ⟨st₁, st₂, st₃, h₁, h₂, h₃, hsent⟩ := push_one (penv i) (w.push i) hph hsig hmagic hbuf
    hmtu
  have hlen : f.length < 2 ^ 32 := by
    unfold mtuUdp at hmtu
    omega
  set w₁ : World ι := { w with push := Function.update w.push i st₁ }
  set w₂ : World ι := { w₁ with push := Function.update w₁.push i st₂ }
  set w₃ : World ι := { w₂ with push := Function.update w₂.push i st₃ }
  rw [show st₁ = w₁.push i from (Function.update_self i st₁ w.push).symm] at h₂
  rw [show st₂ = w₂.push i from (Function.update_self i st₂ w₁.push).symm] at h₃
  have s₁ : Step penv env ok w w₁ := Step.push h₁ hlen (hpush _ _)
  have s₂ : Step penv env ok w₁ w₂ := Step.push h₂ trivial (hpush _ _)
  have s₃ : Step penv env ok w₂ w₃ := Step.push h₃ trivial (hpush _ _)
  refine ⟨w₃, ((Relation.ReflTransGen.single s₁).tail s₂).tail s₃, rfl, ?_, ?_⟩
  · intro j hne
    simp [w₁, w₂, w₃, hne]
  · rw [show w₃.push i = st₃ from Function.update_self i st₃ w₂.push]
    exact hsent

/-- A datagram that the sender `i` has sent arrives, and what fits of it is published. -/
theorem udpRun_recv {d : Datagram} {shm : AchHeader} {hist : List (List UInt8)} {kept : ℕ}
    (hph : w.pull.phase = .poll) (hsig : w.pull.link.sig = false)
    (hsrc : d.src = w.pull.link.peer.toSockAddr) (hsent : d ∈ (w.push i).sent)
    (hpos : 0 < d.payload.length) (hlen : d.payload.length < 2 ^ 32)
    (hinv : Inv hist kept shm) (hclean : Clean shm) (hmap : env.chan.mapped = true)
    (hcnt : 0 < shm.indexCnt) (hseq : hist.length + 1 < 2 ^ 64)
    (hbuf : 0 < w.pull.link.conn.pipeframeSize)
    (hdata : w.pull.link.conn.pipeframeSize ≤ shm.dataSize)
    (hpoll : ∀ w p sig again, ok w (.pull (.poll p sig again)))
    (hrecv : ∀ w' sig late shm', w'.pull.link = w.pull.link →
      ok w' (.pull (.recv (some d) sig late shm'))) :
    ∃ w', UdpRun penv env ok w w' ∧ w'.push = w.push ∧ w'.pull.published = w.pull.published ++
      [⟨d.src, d.src, d.payload.take w.pull.link.conn.pipeframeSize⟩] := by
  have hput : ∀ buf, ∃ shm', out (achPut env.chan (some buf)
      (min w.pull.link.conn.pipeframeSize d.payload.length)) env.dbg shm = .ok (.ok, shm') := by
    intro buf
    have hlo : 0 < min w.pull.link.conn.pipeframeSize d.payload.length := by omega
    have hhi : min w.pull.link.conn.pipeframeSize d.payload.length ≤ shm.dataSize := by omega
    obtain ⟨-, shm', hout, -⟩ := achPut_spec env.dbg buf hinv hclean hmap hcnt hlo hhi fun _ => hseq
    exact ⟨shm', hout⟩
  obtain ⟨st₁, st₂, h₁, hlink, h₂, hpub⟩ := pull_one env w.pull hph hsig hsrc hlen hput
  have s₁ : Step penv env ok w { w with pull := st₁ } := Step.pull h₁ trivial (hpoll _ _ _ _)
  have s₂ : Step penv env ok { w with pull := st₁ } { w with pull := st₂ } :=
    Step.pull (w := { w with pull := st₁ }) h₂ (fun _ => ⟨i, hsent⟩) (hrecv _ _ _ _ hlink)
  exact ⟨_, (Relation.ReflTransGen.single s₁).tail s₂, rfl, hpub⟩

/-- **One frame relayed.** A sender whose address is the one of the peer sends a frame, and the
receiver, on a channel of any geometry, publishes the part of the frame that has the nominal frame
size. -/
theorem udpRun_one (penv : ι → PushEnv) (env : PullEnv) (sizes : ι → ℕ) (ends : ι → Endpoint)
    (shm : AchHeader) (e : Endpoint) (i : ι) {hist : List (List UInt8)} {kept : ℕ} {f : List UInt8}
    (hmtu : f.length ≤ mtuUdp) (hbuf : f.length ≤ sizes i)
    (hpos : 0 < f.length) (hpeer : (ends i).own = (udpPeer e).toSockAddr)
    (hinv : Inv hist kept shm) (hclean : Clean shm) (hmap : env.chan.mapped = true)
    (hcnt : 0 < shm.indexCnt) (hnominal : 0 < shm.dataSize / shm.indexCnt)
    (hseq : hist.length + 1 < 2 ^ 64) (hpush : ∀ w a, ok w (.push i a))
    (hpoll : ∀ w p sig again, ok w (.pull (.poll p sig again)))
    (hrecv : ∀ w sig late shm' dst,
      w.pull.link.conn.pipeframeSize = shm.dataSize / shm.indexCnt →
        ok w (.pull (.recv (some ⟨(ends i).own, dst, f⟩) sig late shm'))) :
    ∃ w, UdpRun penv env ok (World.start penv env sizes ends shm e) w ∧
      w.pull.published =
        [⟨(ends i).own, (ends i).own, f.take (shm.dataSize / shm.indexCnt)⟩] ∧
      ∀ j, ∀ d ∈ (w.push j).sent, d.payload = f := by
  set start := World.start penv env sizes ends shm e with hstart
  set d : Datagram := ⟨(ends i).own, (udpPeer (ends i)).toSockAddr, f⟩
  have hlen : f.length < 2 ^ 32 := by
    unfold mtuUdp at hmtu
    omega
  obtain ⟨w, hrun, hpull, hothers, hsent⟩ :=
    udpRun_send (w := start) (i := i) rfl rfl rfl hbuf hmtu hpush
  have hsent' : (w.push i).sent = [d] := hsent
  have hsize : w.pull.link.conn.pipeframeSize = shm.dataSize / shm.indexCnt := by
    rw [hpull]
    rfl
  obtain ⟨w', hrun', hsame, hpub⟩ := udpRun_recv (w := w) (i := i) (d := d) (by rw [hpull]; rfl)
    (by rw [hpull]; rfl) (by rw [hpull]; exact hpeer) (by simp [hsent']) hpos hlen hinv hclean hmap
    hcnt hseq (by rw [hsize]; exact hnominal) (by rw [hsize]; exact Nat.div_le_self _ _) hpoll
    fun v _ _ _ hv => hrecv v _ _ _ _ (by rw [hv]; exact hsize)
  refine ⟨w', hrun.trans hrun', ?_, ?_⟩
  · rw [hpub, hsize, hpull]
    rfl
  · intro j b hb
    rw [hsame] at hb
    rcases eq_or_ne j i with rfl | hne
    · rw [hsent', List.mem_singleton] at hb
      rw [hb]
    · rw [hothers j hne] at hb
      simp [hstart, World.start] at hb

end

/-- The end of the sender: it sends from port 5001 to port 5002. -/
def sampleOut : Endpoint := ⟨3, 4, ⟨0x7F000001, 5001⟩, ⟨0x7F000001, by decide⟩, 5002⟩

/-- The end of the receiver. -/
def sampleIn : Endpoint := ⟨3, 4, ⟨0x7F000001, 5002⟩, ⟨0x7F000001, by decide⟩, 5001⟩

/-- A receiver on a channel of 2 frames of 4 bytes. -/
def sampleUdpReceiver : PullEnv := ⟨true, .x86, fun _ _ => 0, openedChan (created 2 4), false⟩

/-- One sender, with a buffer for 8 bytes, and the receiver. -/
def sampleRelay : World Unit :=
  .start (fun _ => sampleSender) sampleUdpReceiver (fun _ => 8) (fun _ => sampleOut) (created 2 4)
    sampleIn

theorem udpRun_sampleRelay (ok : World Unit → WorldEvent Unit → Prop) (f : List UInt8)
    (hpos : 0 < f.length) (hlen : f.length ≤ 8) (hpush : ∀ w a, ok w (.push () a))
    (hpoll : ∀ w p sig again, ok w (.pull (.poll p sig again)))
    (hrecv : ∀ w sig late shm dst, w.pull.link.conn.pipeframeSize = 4 →
      ok w (.pull (.recv (some ⟨sampleOut.own, dst, f⟩) sig late shm))) :
    ∃ w, UdpRun (fun _ => sampleSender) sampleUdpReceiver ok sampleRelay w ∧
      w.pull.published = [⟨sampleOut.own, sampleOut.own, f.take 4⟩] ∧
      ∀ j, ∀ d ∈ (w.push j).sent, d.payload = f := by
  have hmtu : f.length ≤ mtuUdp := by
    unfold mtuUdp
    omega
  have hinv : Inv [] 0 (created 2 4) := inv_created (by decide) (by decide)
  exact udpRun_one (fun _ => sampleSender) sampleUdpReceiver (fun _ => 8) (fun _ => sampleOut)
    (created 2 4) sampleIn () hmtu hlen hpos (by decide) hinv (clean_created 2 4) rfl (by decide)
    (by decide) (by decide) hpush hpoll hrecv

/-- A frame of 3 bytes is published. -/
theorem udp_publishes_whole_frames_sample : ∃ w : World Unit,
    UdpRun (fun _ => sampleSender) sampleUdpReceiver Fits sampleRelay w ∧
      w.pull.published = [⟨sampleOut.own, sampleOut.own, [1, 2, 3]⟩] ∧
      PublishesWholeFrames w := by
  have hrecv : ∀ (w : World Unit) sig late shm dst, w.pull.link.conn.pipeframeSize = 4 →
      Fits w (.pull (.recv (some ⟨sampleOut.own, dst, [1, 2, 3]⟩) sig late shm)) := by
    intro w sig late shm dst hsize _
    rw [hsize]
    simp
  obtain ⟨w, hrun, hpub, -⟩ := udpRun_sampleRelay Fits [1, 2, 3] (by decide) (by decide)
    (fun _ _ => trivial) (fun _ _ _ _ => trivial) hrecv
  exact ⟨w, hrun, hpub, udp_publishes_whole_frames _ _ _ _ _ _ hrun⟩

/-- **A frame larger than the nominal size.** The channel of the receiver takes 8 bytes; of a frame
of 8 bytes its first 4 are published. -/
theorem udp_publishes_prefix : ∃ w : World Unit,
    UdpRun (fun _ => sampleSender) sampleUdpReceiver (fun _ _ => True) sampleRelay w ∧
      w.pull.published = [⟨sampleOut.own, sampleOut.own, [1, 2, 3, 4]⟩] ∧
      (∀ d ∈ (w.push ()).sent, d.payload = [1, 2, 3, 4, 5, 6, 7, 8]) ∧
      ¬ PublishesWholeFrames w := by
  obtain ⟨w, hrun, hpub, hsent⟩ := udpRun_sampleRelay (fun _ _ => True)
    [1, 2, 3, 4, 5, 6, 7, 8] (by decide) (by decide) (fun _ _ => trivial)
    (fun _ _ _ _ => trivial) (fun _ _ _ _ _ _ => trivial)
  refine ⟨w, hrun, hpub, hsent (), ?_⟩
  intro h
  obtain ⟨-, i, d, hd, -, hframe, -⟩ := h _ (hpub ▸ List.mem_singleton_self _)
  rw [hsent i d hd] at hframe
  revert hframe
  decide

end Ach.Daemon.Udp
