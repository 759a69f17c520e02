import Ach.Daemon.Udp

/-! # Which frames the UDP sender sends

`achd_push_udp` skips a frame of more than `MTU_UDP` bytes. This is the largest packet, headers
included; the largest payload `sendto` accepts is smaller by the headers of IPv4 and UDP. A frame
between the two passes the check, `sendto` fails, and the daemon ends. So, with no signal and no
connection lost, the sender sends the frames that fit and skips the others as long as it takes no
frame of such a size (`push_udp_sends_iff`).

The count that is checked comes out of the size field of the buffer, which holds 32 bits of it. A
frame of `2 ^ 32` bytes or more is skipped if the count read is larger than `MTU_UDP`. -/

namespace Ach.Daemon.UdpSend

open Ach.Channel.Types Ach.Channel.Get Ach.Channel.PutSpec
open Ach.Daemon.Pipe Ach.Daemon.Push Ach.Daemon.Pull Ach.Daemon.Udp

/-! ### Sizes -/

/-- `HEADER_BYTES_IPV4`. -/
def headerBytesIpv4 : ℕ := 20

/-- `HEADER_BYTES_UDP`. -/
def headerBytesUdp : ℕ := 8

/-- The largest payload of a datagram over IPv4. -/
def maxPayload : ℕ := 0xFFFF - headerBytesIpv4 - headerBytesUdp

/-- What `ach_pipe_get_size` gives for the size field of a frame of `n` bytes. -/
def sizeRead (wide : WideShift) (n : ℕ) : ℕ := achPipeGetSize wide (achPipeSetSize zeroFrame n)

/-- **A size that is sent or skipped as it should be**: not one between the largest payload and
`MTU_UDP`, and not one of more than 32 bits that is read as a small one. -/
def Clear (wide : WideShift) (n : ℕ) : Prop :=
  if n < 2 ^ 32 then n ≤ maxPayload ∨ mtuUdp < n else mtuUdp < sizeRead wide n

/-! ### Runs without trouble -/

/-- No termination signal comes, the control connection is there, and `sendto` succeeds exactly for
the payloads that fit. -/
def Calm (env : PushEnv) (st : PushUdpSt) : PushUdpEvent → Prop
  | .get _ sig => sig = false
  | .poll p sig _ => (∃ ready, p = .alive ready) ∧ sig = false
  | .send ok sig =>
    (ok = true ↔ achPipeGetSize env.wide st.link.conn.pipeframe ≤ maxPayload) ∧ sig = false

/-- A step of such a run. -/
def CalmStep (env : PushEnv) (st st' : PushUdpSt) : Prop :=
  ∃ e, Calm env st e ∧ st.next env e = some st'

def CalmRun (env : PushEnv) : PushUdpSt → PushUdpSt → Prop :=
  Relation.ReflTransGen (CalmStep env)

/-- The sender as it starts, with a buffer of any size. -/
def pushUdpStart (env : PushEnv) (size : ℕ) (e : Endpoint) : PushUdpSt :=
  ⟨.start env.fresh size e, .getFrame, [], []⟩

/-! ### What should be sent -/

/-- A datagram to the peer. -/
def toPeer (link : UdpLink) (f : List UInt8) : Datagram :=
  ⟨link.own, link.peer.toSockAddr, f⟩

/-- The datagrams for the frames that fit, whole and in their order. -/
def due (link : UdpLink) (frames : List (List UInt8)) : List Datagram :=
  (frames.filter fun f => f.length ≤ maxPayload).map (toPeer link)

/-- **The sender does what it should**: it goes on, and what was sent is due. Until the frame taken
last is dealt with, it is left out. -/
def OnCourse (st : PushUdpSt) : Prop :=
  match st.phase with
  | .getFrame => st.sent = due st.link st.taken
  | .poll | .transfer => ∃ frames f, st.taken = frames ++ [f] ∧ st.sent = due st.link frames
  | .returned | .exited => False

/-- **A sequence of frames is relayed**: whatever the sender has taken of it, it is on course and
can go on to the end of the sequence. -/
structure SendsWhatFits (env : PushEnv) (start : PushUdpSt) (frames : List (List UInt8)) :
    Prop where
  onCourse : ∀ st, CalmRun env start st → st.taken <+: frames → OnCourse st
  goesOn : ∀ st, CalmRun env start st → st.taken <+: frames →
    ∃ st', CalmRun env st st' ∧ st'.taken = frames ∧ st'.phase = .getFrame

/-! ### The count that is checked -/

/-- The count depends on the size field alone. -/
theorem getSize_staged (wide : WideShift) {conn : AchdConn} {f : List UInt8} (h : Staged conn f) :
    achPipeGetSize wide conn.pipeframe = sizeRead wide f.length := by
  simp only [sizeRead, achPipeGetSize, achPipeSetSize, h.sizeBytes]

theorem sizeRead_eq (wide : WideShift) {n : ℕ} (hn : n < 2 ^ 32) : sizeRead wide n = n :=
  getSize_of_sizeBytes wide hn rfl

/-- A payload that fits passes the check. -/
theorem lt_of_le_maxPayload {n : ℕ} (h : n ≤ maxPayload) : n < 2 ^ 32 ∧ n ≤ mtuUdp := by
  simp only [maxPayload, headerBytesIpv4, headerBytesUdp] at h
  unfold mtuUdp
  omega

theorem clear_iff (wide : WideShift) (n : ℕ) :
    Clear wide n ↔ n ≤ maxPayload ∨ mtuUdp < sizeRead wide n := by
  unfold Clear
  split_ifs with hn
  · rw [sizeRead_eq wide hn]
  · constructor
    · exact Or.inr
    · rintro (h | h)
      · exact absurd (lt_of_le_maxPayload h).1 hn
      · exact h

/-! ### What is due -/

theorem due_fits (link : UdpLink) (frames : List (List UInt8)) {f : List UInt8}
    (hf : f.length ≤ maxPayload) :
    due link (frames ++ [f]) = due link frames ++ [toPeer link f] := by
  simp [due, hf]

theorem due_skips (link : UdpLink) (frames : List (List UInt8)) {f : List UInt8}
    (hf : ¬ f.length ≤ maxPayload) : due link (frames ++ [f]) = due link frames := by
  simp [due, hf]

/-! ### One step -/

section
variable {env : PushEnv} {st st' : PushUdpSt}

/-- **What a calm step does**: a pass of `get_frame`, a pass of polling, or a call of `sendto`. -/
theorem calmStep_cases (hsig : st.link.sig = false) (hs : CalmStep env st st') :
    (∃ res, st.phase = .getFrame ∧ Possible st.link.conn.pipeframeSize res ∧
      st' = st.get env res false) ∨
    (∃ ready : Bool, st.phase = .poll ∧
      st' = { st with phase := if ready then .transfer else .poll }) ∨
    (st.phase = .transfer ∧ st' = st.send env
      (decide (achPipeGetSize env.wide st.link.conn.pipeframe ≤ maxPayload)) false) := by
  obtain ⟨e, hcalm, hs⟩ := hs
  cases e with
  | get res sig =>
    obtain rfl : sig = false := hcalm
    obtain ⟨⟨hph, hp⟩, hs⟩ := Option.ite_none_right_eq_some.mp hs
    exact Or.inl ⟨res, hph, hp, (Option.some.inj hs).symm⟩
  | poll p sig again =>
    obtain ⟨⟨ready, rfl⟩, rfl⟩ := hcalm
    obtain ⟨hph, hs⟩ := Option.ite_none_right_eq_some.mp hs
    obtain rfl := Option.some.inj hs
    refine Or.inr (Or.inl ⟨ready, hph, ?_⟩)
    simp [UdpLink.pollPass, hsig]
  | send ok sig =>
    obtain ⟨hok, rfl⟩ := hcalm
    obtain ⟨hph, hs⟩ := Option.ite_none_right_eq_some.mp hs
    refine Or.inr (Or.inr ⟨hph, ?_⟩)
    rw [← Option.some.inj hs, Bool.eq_iff_iff.mpr (hok.trans decide_eq_true_iff.symm)]

theorem onCourse_getFrame (hph : st.phase = .getFrame) :
    OnCourse st ↔ st.sent = due st.link st.taken := by
  simp [OnCourse, hph]

/-- **The invariant of a calm run.** Between a get and the send the frame taken last is in the
buffer, and it fits. -/
structure SendInv (st : PushUdpSt) : Prop where
  sig : st.link.sig = false
  magic : st.link.conn.pipeframe.magic = achpipe
  course : OnCourse st
  staged : st.phase = .poll ∨ st.phase = .transfer → ∃ frames f, st.taken = frames ++ [f] ∧
    st.sent = due st.link frames ∧ f.length ≤ maxPayload ∧ Staged st.link.conn f

theorem sendInv_start (env : PushEnv) (size : ℕ) (e : Endpoint) :
    SendInv (pushUdpStart env size e) :=
  ⟨rfl, rfl, rfl, by simp [pushUdpStart]⟩

/-- A pass of `get_frame` that takes no frame. -/
theorem get_nothing {res : GetResult} (hsig : st.link.sig = false) (hph : st.phase = .getFrame)
    (hdone : (getFrame env.fresh st.link.conn res).2 = false) : st.get env res false =
      { st with link := { st.link with conn := (getFrame env.fresh st.link.conn res).1 } } := by
  simp [PushUdpSt.get, hdone, hsig, hph]

/-- A pass of `get_frame` that takes a frame, and the check of its size. -/
theorem get_frame (env : PushEnv) {res : GetResult} (hsig : st.link.sig = false)
    (hp : Possible st.link.conn.pipeframeSize res)
    (hmagic : st.link.conn.pipeframe.magic = achpipe)
    (hdone : (getFrame env.fresh st.link.conn res).2 = true) : ∃ conn, Staged conn res.bytes ∧
      st.get env res false =
        { st with
          link := { st.link with conn := conn }
          taken := st.taken ++ [res.bytes]
          phase := if sizeRead env.wide res.bytes.length ≤ mtuUdp then .poll else .getFrame } := by
  obtain ⟨-, hst⟩ := @getFrame_cases env.fresh _ _ hp hmagic
  refine ⟨_, hst hdone, ?_⟩
  simp [PushUdpSt.get, hdone, hsig, getSize_staged env.wide (hst hdone)]

/-- `sendto` for the frame in the buffer. -/
theorem send_frame {f : List UInt8} (hst : Staged st.link.conn f) (hf : f.length ≤ maxPayload)
    (hsig : st.link.sig = false) : st.send env
      (decide (achPipeGetSize env.wide st.link.conn.pipeframe ≤ maxPayload)) false =
        { st with sent := st.sent ++ [toPeer st.link f], phase := .getFrame } := by
  have hlt := (lt_of_le_maxPayload hf).1
  have hcnt : achPipeGetSize env.wide st.link.conn.pipeframe = f.length :=
    getSize_of_sizeBytes env.wide hlt hst.sizeBytes
  have hdata : frameOf st.link.conn.pipeframe.data f.length = f := hst.data
  simp only [PushUdpSt.send, hcnt, hf, decide_true, if_true, Bool.or_false, hdata]
  rw [if_neg (by simp [hsig])]
  rfl

/-- The step lemma for a get: the frame taken, if one is, is one that is sorted right. -/
theorem SendInv.get {res : GetResult} (h : SendInv st) (hph : st.phase = .getFrame)
    (hp : Possible st.link.conn.pipeframeSize res)
    (hclear : ∀ f ∈ (st.get env res false).taken, Clear env.wide f.length) :
    SendInv (st.get env res false) := by
  have hsent := (onCourse_getFrame hph).mp h.course
  cases hdone : (getFrame env.fresh st.link.conn res).2 with
  | false =>
    obtain ⟨hm, -⟩ := @getFrame_cases env.fresh _ _ hp h.magic
    rw [get_nothing h.sig hph hdone]
    exact ⟨h.sig, hm, (onCourse_getFrame hph).mpr hsent, by simp [hph]⟩
  | true =>
    obtain ⟨conn, hst, hget⟩ := get_frame env h.sig hp h.magic hdone
    rw [hget] at hclear ⊢
    have hbytes : Clear env.wide res.bytes.length := hclear res.bytes (by simp)
    by_cases hf : res.bytes.length ≤ maxPayload
    · obtain ⟨hlt, hmtu⟩ := lt_of_le_maxPayload hf
      have hcnt : sizeRead env.wide res.bytes.length ≤ mtuUdp := by rwa [sizeRead_eq env.wide hlt]
      rw [if_pos hcnt]
      exact ⟨h.sig, hst.magic, ⟨st.taken, res.bytes, rfl, hsent⟩,
        fun _ => ⟨st.taken, res.bytes, rfl, hsent, hf, hst⟩⟩
    · have hcnt : ¬ sizeRead env.wide res.bytes.length ≤ mtuUdp := by
        rcases (clear_iff env.wide _).mp hbytes with hle | hlt
        · exact absurd hle hf
        · omega
      rw [if_neg hcnt]
      refine ⟨h.sig, hst.magic, ?_, by simp⟩
      exact hsent.trans (due_skips st.link st.taken hf).symm

/-- **The step lemma.** -/
theorem SendInv.step (h : SendInv st) (hs : CalmStep env st st')
    (hclear : ∀ f ∈ st'.taken, Clear env.wide f.length) : SendInv st' := by
  rcases calmStep_cases h.sig hs with ⟨res, hph, hp, rfl⟩ | ⟨ready, hph, rfl⟩ | ⟨hph, rfl⟩
  · exact h.get hph hp hclear
  · obtain ⟨frames, f, htaken, hsent, hf, hst⟩ := h.staged (Or.inl hph)
    refine ⟨h.sig, h.magic, ?_, fun _ => ⟨frames, f, htaken, hsent, hf, hst⟩⟩
    cases ready <;> exact ⟨frames, f, htaken, hsent⟩
  · obtain ⟨frames, f, htaken, hsent, hf, hst⟩ := h.staged (Or.inr hph)
    rw [send_frame hst hf h.sig]
    refine ⟨h.sig, h.magic, ?_, by simp⟩
    change st.sent ++ [toPeer st.link f] = due st.link st.taken
    rw [hsent, htaken, due_fits st.link frames hf]

/-- Frames are taken one after the other. -/
theorem CalmStep.taken (hs : CalmStep env st st') : st.taken <+: st'.taken := by
  obtain ⟨e, -, hs⟩ := hs
  cases e with
  | get res sig =>
    obtain ⟨-, hs⟩ := Option.ite_none_right_eq_some.mp hs
    obtain rfl := Option.some.inj hs
    simp only [PushUdpSt.get]
    split <;> simp
  | poll p sig again =>
    obtain ⟨-, hs⟩ := Option.ite_none_right_eq_some.mp hs
    obtain rfl := Option.some.inj hs
    exact List.prefix_refl _
  | send ok sig =>
    obtain ⟨-, hs⟩ := Option.ite_none_right_eq_some.mp hs
    obtain rfl := Option.some.inj hs
    cases ok <;> exact List.prefix_refl _

/-- **The run lemma.** -/
theorem SendInv.run (h : SendInv st) (hrun : CalmRun env st st')
    (hclear : ∀ f ∈ st'.taken, Clear env.wide f.length) : SendInv st' := by
  induction hrun with
  | refl => exact h
  | tail _ hstep ih =>
    have hbefore := ih fun f hf => hclear f (hstep.taken.subset hf)
    exact hbefore.step hstep hclear

/-! ### Going on -/

/-- A frame the buffer has room for is taken. -/
theorem take_roomy (env : PushEnv) {f : List UInt8} (hph : st.phase = .getFrame)
    (hsig : st.link.sig = false) (hmagic : st.link.conn.pipeframe.magic = achpipe)
    (hroom : f.length ≤ st.link.conn.pipeframeSize) : ∃ conn, Staged conn f ∧
      CalmStep env st { st with
        link := { st.link with conn := conn }
        taken := st.taken ++ [f]
        phase := if sizeRead env.wide f.length ≤ mtuUdp then .poll else .getFrame } := by
  have hp : Possible st.link.conn.pipeframeSize ⟨.ok, f, some f.length⟩ := ⟨rfl, hroom⟩
  obtain ⟨conn, hst, hget⟩ := get_frame env hsig hp hmagic rfl
  refine ⟨conn, hst, .get ⟨.ok, f, some f.length⟩ false, rfl, ?_⟩
  rw [PushUdpSt.next, if_pos ⟨hph, hp⟩, hget]

/-- **Every frame is taken**, if need be after the buffer was enlarged. -/
theorem take_frame (env : PushEnv) (f : List UInt8) (hph : st.phase = .getFrame)
    (hsig : st.link.sig = false) (hmagic : st.link.conn.pipeframe.magic = achpipe) :
    ∃ conn, Staged conn f ∧
      CalmRun env st { st with
        link := { st.link with conn := conn }
        taken := st.taken ++ [f]
        phase := if sizeRead env.wide f.length ≤ mtuUdp then .poll else .getFrame } := by
  by_cases hroom : f.length ≤ st.link.conn.pipeframeSize
  · obtain ⟨conn, hst, hstep⟩ := take_roomy env hph hsig hmagic hroom
    exact ⟨conn, hst, .single hstep⟩
  · let st₁ : PushUdpSt := { st with link := { st.link with conn := .alloc env.fresh f.length } }
    have hp : Possible st.link.conn.pipeframeSize ⟨.overflow, [], some f.length⟩ :=
      ⟨rfl, by simpa using hroom⟩
    have hstep₁ : CalmStep env st st₁ := by
      refine ⟨.get ⟨.overflow, [], some f.length⟩ false, rfl, ?_⟩
      rw [PushUdpSt.next, if_pos ⟨hph, hp⟩, get_nothing hsig hph rfl]
      rfl
    obtain ⟨conn, hst, hstep⟩ := @take_roomy st₁ env f hph hsig rfl le_rfl
    exact ⟨conn, hst, (Relation.ReflTransGen.single hstep₁).tail hstep⟩

theorem calmStep_send (env : PushEnv) (hph : st.phase = .transfer) : CalmStep env st (st.send env
    (decide (achPipeGetSize env.wide st.link.conn.pipeframe ≤ maxPayload)) false) :=
  ⟨.send _ false, ⟨decide_eq_true_iff, rfl⟩, if_pos hph⟩

/-- The socket becomes ready, and `sendto` is called. -/
theorem calmRun_send (env : PushEnv) (hph : st.phase = .poll) (hsig : st.link.sig = false) :
    CalmRun env st (PushUdpSt.send env { st with phase := .transfer }
      (decide (achPipeGetSize env.wide st.link.conn.pipeframe ≤ maxPayload)) false) := by
  have hpoll : CalmStep env st { st with phase := .transfer } := by
    refine ⟨.poll (.alive true) false none, ⟨⟨true, rfl⟩, rfl⟩, ?_⟩
    rw [PushUdpSt.next, if_pos hph]
    simp [UdpLink.pollPass, hsig]
  exact (Relation.ReflTransGen.single hpoll).tail (calmStep_send env rfl)

/-- The frame in the buffer is sent. -/
theorem SendInv.finish (env : PushEnv) (h : SendInv st) :
    ∃ st', CalmRun env st st' ∧ st'.taken = st.taken ∧ st'.phase = .getFrame := by
  have hcourse := h.course
  cases hph : st.phase with
  | getFrame => exact ⟨st, .refl, rfl, hph⟩
  | poll =>
    obtain ⟨frames, f, -, -, hf, hst⟩ := h.staged (Or.inl hph)
    have hrun := calmRun_send env hph h.sig
    rw [@send_frame _ { st with phase := .transfer } _ hst hf h.sig] at hrun
    exact ⟨_, hrun, rfl, rfl⟩
  | transfer =>
    obtain ⟨frames, f, -, -, hf, hst⟩ := h.staged (Or.inr hph)
    have hstep := calmStep_send env hph
    rw [send_frame hst hf h.sig] at hstep
    exact ⟨_, .single hstep, rfl, rfl⟩
  | returned => simp [OnCourse, hph] at hcourse
  | exited => simp [OnCourse, hph] at hcourse

/-- **The sender can go on** with frames that are sorted right. -/
theorem SendInv.goesOn : ∀ (rest : List (List UInt8)) {st : PushUdpSt}, SendInv st →
    (∀ f ∈ st.taken ++ rest, Clear env.wide f.length) →
    ∃ st', CalmRun env st st' ∧ st'.taken = st.taken ++ rest ∧ st'.phase = .getFrame := by
  intro rest
  induction rest with
  | nil =>
    intro st h _
    obtain ⟨st', hrun, htaken, hph⟩ := h.finish env
    exact ⟨st', hrun, by rw [htaken, List.append_nil], hph⟩
  | cons f rest ih =>
    intro st h hclear
    have hall : ∀ g ∈ st.taken ++ [f] ++ rest, Clear env.wide g.length := by simpa using hclear
    -- the frame in the buffer is sent, and then the next one is taken
    obtain ⟨st₁, hrun₁, htaken₁, hph₁⟩ := h.finish env
    have h₁ : SendInv st₁ := by
      refine h.run hrun₁ fun g hg => hclear g ?_
      rw [htaken₁] at hg
      exact List.mem_append_left _ hg
    obtain ⟨conn, -, hrun₂⟩ := take_frame env f hph₁ h₁.sig h₁.magic
    rw [htaken₁] at hrun₂
    have h₂ := h₁.run hrun₂ fun g hg => hall g (List.mem_append_left _ hg)
    obtain ⟨st', hrun', htaken', hph'⟩ := ih h₂ hall
    refine ⟨st', (hrun₁.trans hrun₂).trans hrun', ?_, hph'⟩
    rw [htaken', List.append_assoc, List.singleton_append]

/-- A frame that passes the check is handed to `sendto`. -/
theorem SendInv.handed {f : List UInt8} (h : SendInv st) (hph : st.phase = .getFrame)
    (hcnt : sizeRead env.wide f.length ≤ mtuUdp) :
    ∃ conn, CalmRun env st (PushUdpSt.send env
        ⟨{ st.link with conn := conn }, .transfer, st.taken ++ [f], st.sent⟩
        (decide (sizeRead env.wide f.length ≤ maxPayload)) false) := by
  obtain ⟨conn, hst, hrun⟩ := take_frame env f hph h.sig h.magic
  rw [if_pos hcnt] at hrun
  have hrun' := hrun.trans (calmRun_send env rfl h.sig)
  rw [getSize_staged env.wide hst] at hrun'
  exact ⟨conn, hrun'⟩

/-- **A frame that is not sorted right** is sent in part, or ends the daemon. -/
theorem SendInv.goesWrong {f : List UInt8} (h : SendInv st) (hph : st.phase = .getFrame)
    (hf : ¬ Clear env.wide f.length) :
    ∃ st', CalmRun env st st' ∧ st'.taken = st.taken ++ [f] ∧ ¬ OnCourse st' := by
  rw [clear_iff, not_or, not_lt] at hf
  obtain ⟨hlong, hcnt⟩ := hf
  obtain ⟨conn, hrun⟩ := h.handed hph hcnt
  have hsent := (onCourse_getFrame hph).mp h.course
  by_cases hok : sizeRead env.wide f.length ≤ maxPayload
  · -- one datagram more than there should be
    rw [decide_eq_true hok] at hrun
    refine ⟨_, hrun, rfl, fun hcourse => ?_⟩
    rw [onCourse_getFrame (by simp [PushUdpSt.send, h.sig])] at hcourse
    have hmore : st.sent ++ [toPeer st.link _] = due st.link (st.taken ++ [f]) := hcourse
    rw [due_skips st.link st.taken hlong, ← hsent] at hmore
    simp at hmore
  · rw [decide_eq_false hok] at hrun
    exact ⟨_, hrun, rfl, id⟩

end

/-! ### Every sequence of frames -/

section
variable {env : PushEnv} {start : PushUdpSt} {frames : List (List UInt8)}

theorem sendsWhatFits_of_clear (h : SendInv start)
    (hclear : ∀ f ∈ frames, Clear env.wide f.length) : SendsWhatFits env start frames := by
  have hinv : ∀ st, CalmRun env start st → st.taken <+: frames → SendInv st :=
    fun st hrun hpre => h.run hrun fun f hf => hclear f (hpre.subset hf)
  constructor
  · intro st hrun hpre
    exact (hinv st hrun hpre).course
  · rintro st hrun ⟨rest, rfl⟩
    exact (hinv st hrun (List.prefix_append _ _)).goesOn rest hclear

/-- The frames before the first one that is not sorted right are dealt with, and that one is not. -/
theorem clear_of_onCourse (h : SendInv start) (hnone : start.taken = [])
    (hcourse : ∀ st, CalmRun env start st → st.taken <+: frames → OnCourse st) :
    ∀ pre, pre <+: frames → ∀ f ∈ pre, Clear env.wide f.length := by
  intro pre
  induction pre using List.reverseRecOn with
  | nil => simp
  | append_singleton pre f ih =>
    intro hpre
    have hclear := ih ((List.prefix_append pre [f]).trans hpre)
    obtain ⟨st, hrun, htaken, hph⟩ := h.goesOn pre (by simpa [hnone] using hclear)
    rw [hnone, List.nil_append] at htaken
    have hst : SendInv st := h.run hrun (by rwa [htaken])
    have hlast : Clear env.wide f.length := by
      by_contra hf
      obtain ⟨st', hrun', htaken', hwrong⟩ := hst.goesWrong hph hf
      exact hwrong (hcourse st' (hrun.trans hrun') (by rwa [htaken', htaken]))
    intro g hg
    rcases List.mem_append.mp hg with hg | hg
    · exact hclear g hg
    · rw [List.mem_singleton.mp hg]
      exact hlast

end

/-- **Which frames the UDP sender can be given.** With no signal, no connection lost and a `sendto`
that takes every payload that fits, it sends each frame that fits, whole and in order, skips the
others and never ends, if and only if no frame is of a size between the largest payload and
`MTU_UDP`, or of a size of more than 32 bits that is read as a small one. -/
theorem push_udp_sends_iff (env : PushEnv) (size : ℕ) (e : Endpoint)
    (frames : List (List UInt8)) :
    SendsWhatFits env (pushUdpStart env size e) frames ↔
      ∀ f ∈ frames, Clear env.wide f.length := by
  have hstart := sendInv_start env size e
  constructor
  · intro h
    exact clear_of_onCourse hstart rfl h.onCourse frames (List.prefix_refl frames)
  · exact sendsWhatFits_of_clear hstart

/-- **A frame of one byte too many.** A sender with a frame of 65508 bytes passes it to `sendto`,
which fails, and the daemon ends. -/
theorem push_udp_ends : ∃ st, CalmRun sampleSender (pushUdpStart sampleSender 16 sampleOut) st ∧
    st.taken = [List.replicate 65508 7] ∧ st.sent = [] ∧ st.phase = .exited ∧
    ¬ SendsWhatFits sampleSender (pushUdpStart sampleSender 16 sampleOut)
      [List.replicate 65508 7] := by
  have hread : sizeRead sampleSender.wide (List.replicate 65508 (7 : UInt8)).length = 65508 := by
    rw [List.length_replicate, sizeRead_eq _ (by decide)]
  obtain ⟨conn, hrun⟩ := (sendInv_start sampleSender 16 sampleOut).handed
    (f := List.replicate 65508 7) rfl (by rw [hread]; decide)
  rw [hread, decide_eq_false (by decide)] at hrun
  refine ⟨_, hrun, rfl, rfl, rfl, fun h => ?_⟩
  exact h.onCourse _ hrun (List.prefix_refl _)

end Ach.Daemon.UdpSend
