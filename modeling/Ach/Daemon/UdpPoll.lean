import Ach.Daemon.Udp
import Mathlib.Data.Finset.Insert

/-! # What the UDP loops poll

`achd_push_udp` and `achd_pull_udp` copy the two descriptors of the connection into `pfd` when they
are entered. `achd_reconnect` closes the descriptors and replaces them in the connection; the copies
stay (`pfd_run`). A new socket gets any number that is free, so after a lost connection the loops
poll the current sockets as long as the new ones get the numbers of the first ones: then every loss
leads to one new connection, and forwarding goes on (`udp_polls_current`). If they get others,
`poll` reports a descriptor that is not open, and the loops connect again although nothing was lost
(`stale_descriptors`).

The two loops differ in what they do with a frame, not in how they poll, and are treated as one
(`UdpLoop`). -/

namespace Ach.Daemon.UdpPoll

open Ach.Channel.Types Ach.Channel.Get Ach.Channel.Create
open Ach.Daemon.Pipe Ach.Daemon.Push Ach.Daemon.Pull Ach.Daemon.Udp

/-! ### The loops -/

/-- What comes from outside in a pass of the loop around `udp_poll`. -/
structure Pass where
  found : Polled
  sig : Bool
  again : Option (Endpoint × Bool)

/-- The descriptors stay. -/
def SameFds (link link' : UdpLink) : Prop :=
  link'.input = link.input ∧ link'.aux = link.aux ∧ link'.pfd = link.pfd

/-- A loop that polls and, with `cx.reconnect` set, connects again. -/
structure UdpLoop (σ ε : Type) where
  link : σ → UdpLink
  phase : σ → UdpPhase
  next : σ → ε → Option σ
  pass : ε → Option Pass
  next_pass : ∀ {s s' e p}, pass e = some p → next s e = some s' → phase s = .poll ∧
    (link s', phase s') = (link s).pollPass true p.found p.sig p.again
  next_other : ∀ {s s' e}, pass e = none → next s e = some s' → SameFds (link s) (link s')

/-- `achd_push_udp`. -/
def pushLoop (env : PushEnv) (hre : env.reconnect = true) : UdpLoop PushUdpSt PushUdpEvent where
  link := PushUdpSt.link
  phase := PushUdpSt.phase
  next := PushUdpSt.next env
  pass
    | .poll found sig again => some ⟨found, sig, again⟩
    | _ => none
  next_pass := by
    intro s s' e p hpass hs
    cases e with
    | poll found sig again =>
      obtain rfl := Option.some.inj hpass
      obtain ⟨hph, hs⟩ := Option.ite_none_right_eq_some.mp hs
      obtain rfl := Option.some.inj hs
      exact ⟨hph, by rw [hre]⟩
    | get res sig => simp at hpass
    | send ok sig => simp at hpass
  next_other := by
    intro s s' e hpass hs
    cases e with
    | poll found sig again => simp at hpass
    | get res sig =>
      obtain ⟨-, hs⟩ := Option.ite_none_right_eq_some.mp hs
      obtain rfl := Option.some.inj hs
      exact ⟨rfl, rfl, rfl⟩
    | send ok sig =>
      obtain ⟨-, hs⟩ := Option.ite_none_right_eq_some.mp hs
      obtain rfl := Option.some.inj hs
      cases ok <;> exact ⟨rfl, rfl, rfl⟩

theorem putFrame_sameFds (env : PullEnv) (st : PullUdpSt) (src : SockAddr) (shm : AchHeader) :
    SameFds st.link (st.putFrame env src shm).link := by
  unfold PullUdpSt.putFrame
  simp only
  split
  · exact ⟨rfl, rfl, rfl⟩
  · split <;> exact ⟨rfl, rfl, rfl⟩

/-- `achd_pull_udp`. -/
def pullLoop (env : PullEnv) (hre : env.reconnect = true) : UdpLoop PullUdpSt PullUdpEvent where
  link := PullUdpSt.link
  phase := PullUdpSt.phase
  next := PullUdpSt.next env
  pass
    | .poll found sig again => some ⟨found, sig, again⟩
    | _ => none
  next_pass := by
    intro s s' e p hpass hs
    cases e with
    | poll found sig again =>
      obtain rfl := Option.some.inj hpass
      obtain ⟨hph, hs⟩ := Option.ite_none_right_eq_some.mp hs
      obtain rfl := Option.some.inj hs
      exact ⟨hph, by rw [hre]⟩
    | recv d sig late shm => simp at hpass
  next_other := by
    intro s s' e hpass hs
    cases e with
    | poll found sig again => simp at hpass
    | recv d sig late shm =>
      obtain ⟨-, hs⟩ := Option.ite_none_right_eq_some.mp hs
      obtain rfl := Option.some.inj hs
      unfold PullUdpSt.recv
      simp only
      split
      · exact ⟨rfl, rfl, rfl⟩
      · split
        · exact ⟨rfl, rfl, rfl⟩
        · exact putFrame_sameFds env _ _ shm

/-! ### The descriptors and the connection -/

/-- The descriptors that are open: those of the connection, and some others. -/
def openFds (others : Finset ℕ) (link : UdpLink) : Finset ℕ :=
  insert link.input (insert link.aux others)

/-- What `poll` can report. A descriptor that is not open is invalid, which is taken for a closed
connection, and is not ready. The control connection, of which nothing is read, is readable or hung
up if and only if it is lost. -/
def PollTells (others : Finset ℕ) (link : UdpLink) (up : Bool) : Polled → Prop
  | .failed => True
  | .alive ready => link.pfd.2 ∈ openFds others link ∧ (link.pfd.2 = link.input → up = true) ∧
      (ready = true → link.pfd.1 ∈ openFds others link)
  | .closed ready => (link.pfd.2 = link.input → up = false) ∧
      (ready = true → link.pfd.1 ∈ openFds others link)

/-- A new connection: two sockets with numbers that are not in use. -/
def FreshFds (others : Finset ℕ) (e : Endpoint) : Prop :=
  e.input ∉ others ∧ e.aux ∉ others ∧ e.input ≠ e.aux

/-- The connection that a pass makes. -/
def Pass.adopted (link : UdpLink) (p : Pass) : Option Endpoint :=
  if link.sig = true ∨ p.sig = true then none
  else match p.found with
    | .closed _ => p.again.map Prod.fst
    | _ => none

/-- A loop, whether the control connection is there, and how many connections were lost and made
again. -/
structure Control (σ : Type) where
  st : σ
  up : Bool
  lost : ℕ
  made : ℕ

/-- The control connection is lost, or the loop makes a step. -/
inductive ControlEvent (ε : Type) where
  | lose
  | step (e : ε)

section
variable {σ ε : Type} (L : UdpLoop σ ε) (others : Finset ℕ)

/-- **One step** of the loop, or of the connection. -/
def Control.next (w : Control σ) : ControlEvent ε → Option (Control σ)
  | .lose => some { w with up := false, lost := w.lost + 1 }
  | .step e => (L.next w.st e).map fun st =>
    match (L.pass e).bind (Pass.adopted (L.link w.st)) with
    | none => { w with st := st }
    | some _ => { w with st := st, up := true, made := w.made + 1 }

/-- What can happen: a connection is lost once, `poll` tells what is the case, and new sockets get
free numbers. -/
def CanHappen (w : Control σ) : ControlEvent ε → Prop
  | .lose => w.up = true
  | .step e => ∀ p, L.pass e = some p → PollTells others (L.link w.st) w.up p.found ∧
      ∀ e', p.adopted (L.link w.st) = some e' → FreshFds others e'

/-- The sockets of a new connection get the numbers that are polled. -/
def SameNumbers (w : Control σ) : ControlEvent ε → Prop
  | .lose => True
  | .step e => ∀ p, L.pass e = some p → ∀ e', p.adopted (L.link w.st) = some e' →
      (e'.aux, e'.input) = (L.link w.st).pfd

/-- A step that meets a condition on the state before it. -/
def ControlStep (ok : Control σ → ControlEvent ε → Prop) (w w' : Control σ) : Prop :=
  ∃ e, CanHappen L others w e ∧ ok w e ∧ w.next L e = some w'

/-- The runs all of whose steps meet a condition. -/
def ControlRun (ok : Control σ → ControlEvent ε → Prop) : Control σ → Control σ → Prop :=
  Relation.ReflTransGen (ControlStep L others ok)

/-- **The loop polls the current sockets**: when it polls, its copies are the descriptors of the
connection; every lost connection is made again once; and while the connection is there, a pass
makes no other, and leads to the transfer of a frame if the UDP socket is ready. -/
structure PollsCurrent (w : Control σ) : Prop where
  current : L.phase w.st = .poll → (L.link w.st).pfd = ((L.link w.st).aux, (L.link w.st).input)
  once : w.made + (if w.up then 0 else 1) = w.lost
  resumes : w.up = true → L.phase w.st = .poll → ∀ e p st, L.pass e = some p →
    PollTells others (L.link w.st) w.up p.found → p.found ≠ .failed →
    (L.link w.st).sig = false → p.sig = false → L.next w.st e = some st →
    p.adopted (L.link w.st) = none ∧
      ∃ ready, p.found = .alive ready ∧ L.phase st = if ready then .transfer else .poll

end

/-! ### What a step does with the descriptors -/

/-- A pass that makes no connection leaves the descriptors alone. -/
theorem pollPass_sameFds {link : UdpLink} {p : Pass} (h : p.adopted link = none) :
    SameFds link (link.pollPass true p.found p.sig p.again).1 := by
  unfold Pass.adopted at h
  unfold UdpLink.pollPass
  split
  · exact ⟨rfl, rfl, rfl⟩
  · rename_i hsig
    rw [if_neg hsig] at h
    cases hf : p.found with
    | failed => exact ⟨rfl, rfl, rfl⟩
    | alive ready => exact ⟨rfl, rfl, rfl⟩
    | closed ready =>
      simp only [hf, Option.map_eq_none_iff] at h
      simp only [if_true, h]
      exact ⟨rfl, rfl, rfl⟩

/-- A pass that makes a connection found the old one closed, and keeps its copies. -/
theorem pollPass_adopted {link : UdpLink} {p : Pass} {e : Endpoint} (h : p.adopted link = some e) :
    (link.pollPass true p.found p.sig p.again).1.input = e.input ∧
      (link.pollPass true p.found p.sig p.again).1.aux = e.aux ∧
      (link.pollPass true p.found p.sig p.again).1.pfd = link.pfd ∧
      ∃ ready, p.found = .closed ready := by
  unfold Pass.adopted at h
  split_ifs at h with hsig
  cases hf : p.found with
  | failed => simp [hf] at h
  | alive ready => simp [hf] at h
  | closed ready =>
    simp only [hf] at h
    obtain ⟨⟨e', sig⟩, hagain, rfl⟩ := Option.map_eq_some_iff.mp h
    have hq : link.pollPass true (.closed ready) p.sig p.again =
        (link.adopt e' sig, if ready then .transfer else .poll) := by
      simp only [UdpLink.pollPass, if_neg hsig, hagain, if_true]
    rw [hq]
    exact ⟨rfl, rfl, rfl, ready, rfl⟩

section
variable {σ ε : Type} {L : UdpLoop σ ε} {others : Finset ℕ} {w w' : Control σ}

/-- **The steps of a loop**: one that keeps the connection, and one that makes a new one. -/
theorem next_step_cases {e : ε} (hs : w.next L (.step e) = some w') :
    (w'.up = w.up ∧ w'.lost = w.lost ∧ w'.made = w.made ∧
      SameFds (L.link w.st) (L.link w'.st)) ∨
    ∃ p e' ready, L.pass e = some p ∧ p.adopted (L.link w.st) = some e' ∧
      p.found = .closed ready ∧ w'.up = true ∧ w'.lost = w.lost ∧ w'.made = w.made + 1 ∧
      (L.link w'.st).input = e'.input ∧ (L.link w'.st).aux = e'.aux ∧
      (L.link w'.st).pfd = (L.link w.st).pfd := by
  obtain ⟨st, hst, rfl⟩ := Option.map_eq_some_iff.mp hs
  cases hpass : L.pass e with
  | none => exact Or.inl ⟨rfl, rfl, rfl, L.next_other hpass hst⟩
  | some p =>
    have hlink : L.link st = ((L.link w.st).pollPass true p.found p.sig p.again).1 :=
      congrArg Prod.fst (L.next_pass hpass hst).2
    rw [Option.bind_some]
    cases had : p.adopted (L.link w.st) with
    | none =>
      refine Or.inl ⟨rfl, rfl, rfl, ?_⟩
      simp only [hlink]
      exact pollPass_sameFds had
    | some e' =>
      obtain ⟨hin, haux, hpfd, ready, hfound⟩ := pollPass_adopted had
      refine Or.inr ⟨p, e', ready, rfl, had, hfound, rfl, rfl, rfl, ?_, ?_, ?_⟩
      · simp only [hlink, hin]
      · simp only [hlink, haux]
      · simp only [hlink, hpfd]

/-- **The copies stay**, whatever happens. -/
theorem pfd_run {ok : Control σ → ControlEvent ε → Prop} {w₀ : Control σ}
    (hrun : ControlRun L others ok w₀ w) : (L.link w.st).pfd = (L.link w₀.st).pfd := by
  induction hrun with
  | refl => rfl
  | tail _ hstep ih =>
    obtain ⟨ev, -, -, hs⟩ := hstep
    rw [← ih]
    cases ev with
    | lose =>
      obtain rfl := Option.some.inj hs
      rfl
    | step e =>
      rcases next_step_cases hs with ⟨-, -, -, -, -, hpfd⟩ | ⟨p, e', ready, h⟩
      · exact hpfd
      · exact h.2.2.2.2.2.2.2.2

/-- **The invariant of a loop** whose new sockets get the old numbers. -/
structure ControlInv (L : UdpLoop σ ε) (w : Control σ) : Prop where
  current : (L.link w.st).pfd = ((L.link w.st).aux, (L.link w.st).input)
  once : w.made + (if w.up then 0 else 1) = w.lost

/-- **The step lemma.** -/
theorem ControlInv.step (h : ControlInv L w) (hstep : ControlStep L others (SameNumbers L) w w') :
    ControlInv L w' := by
  obtain ⟨ev, hcan, hok, hs⟩ := hstep
  have honce := h.once
  cases ev with
  | lose =>
    obtain rfl := Option.some.inj hs
    have hup : w.up = true := hcan
    rw [hup] at honce
    refine ⟨h.current, ?_⟩
    simp only [if_true, Bool.false_eq_true, if_false] at honce ⊢
    omega
  | step e =>
    rcases next_step_cases hs with ⟨hup, hlost, hmade, hin, haux, hpfd⟩ |
      ⟨p, e', ready, hpass, had, hfound, hup, hlost, hmade, hin, haux, hpfd⟩
    · constructor
      · rw [hpfd, hin, haux]
        exact h.current
      · rw [hup, hlost, hmade]
        exact honce
    · -- the connection was lost, for it is the one that was polled
      have htells := (hcan p hpass).1
      rw [hfound] at htells
      have hdown : w.up = false := htells.1 (congrArg Prod.snd h.current)
      constructor
      · rw [hpfd, hin, haux]
        exact (hok p hpass e' had).symm
      · rw [hdown] at honce
        rw [hup, hlost, hmade]
        simp only [if_true, Bool.false_eq_true, if_false] at honce ⊢
        omega

theorem ControlInv.pollsCurrent (h : ControlInv L w) : PollsCurrent L others w := by
  refine ⟨fun _ => h.current, h.once, ?_⟩
  intro hup _ e p st hpass htells hfailed hsig hsig' hnext
  have hnot : ¬ ((L.link w.st).sig = true ∨ p.sig = true) := by simp [hsig, hsig']
  have hphase : L.phase st = ((L.link w.st).pollPass true p.found p.sig p.again).2 :=
    congrArg Prod.snd (L.next_pass hpass hnext).2
  cases hf : p.found with
  | failed => exact absurd hf hfailed
  | closed ready =>
    rw [hf] at htells
    have hdown := htells.1 (congrArg Prod.snd h.current)
    rw [hup] at hdown
    simp at hdown
  | alive ready =>
    refine ⟨by simp [Pass.adopted, hnot, hf], ready, rfl, ?_⟩
    rw [hphase, hf]
    simp only [UdpLink.pollPass, if_neg hnot]

theorem ControlInv.run {w₀ : Control σ} (h : ControlInv L w₀)
    (hrun : ControlRun L others (SameNumbers L) w₀ w) : ControlInv L w := by
  induction hrun with
  | refl => exact h
  | tail _ hstep ih => exact ih.step hstep

end

/-- The sender as it starts. -/
def pushStart (env : PushEnv) (size : ℕ) (e : Endpoint) : Control PushUdpSt :=
  ⟨⟨.start env.fresh size e, .getFrame, [], []⟩, true, 0, 0⟩

/-- The receiver as it starts. -/
def pullStart (env : PullEnv) (size : ℕ) (e : Endpoint) : Control PullUdpSt :=
  ⟨⟨.start env.fresh size e, .poll, []⟩, true, 0, 0⟩

/-- **The UDP loops poll the current sockets**, with `cx.reconnect` set, in every state of every run
in which the sockets of each new connection get the descriptor numbers of the first. -/
theorem udp_polls_current (others : Finset ℕ) (size : ℕ) (e : Endpoint) :
    (∀ (env : PushEnv) (hre : env.reconnect = true) (w : Control PushUdpSt),
      ControlRun (pushLoop env hre) others (SameNumbers (pushLoop env hre)) (pushStart env size e)
        w → PollsCurrent (pushLoop env hre) others w) ∧
    ∀ (env : PullEnv) (hre : env.reconnect = true) (w : Control PullUdpSt),
      ControlRun (pullLoop env hre) others (SameNumbers (pullLoop env hre)) (pullStart env size e)
        w → PollsCurrent (pullLoop env hre) others w := by
  constructor
  · intro env hre w hrun
    have hstart : ControlInv (pushLoop env hre) (pushStart env size e) := ⟨rfl, rfl⟩
    exact (hstart.run hrun).pollsCurrent
  · intro env hre w hrun
    have hstart : ControlInv (pullLoop env hre) (pullStart env size e) := ⟨rfl, rfl⟩
    exact (hstart.run hrun).pollsCurrent

/-! ### A lost connection -/

/-- A receiver that connects again. -/
def reconnectingReceiver : PullEnv := { sampleUdpReceiver with reconnect := true }

/-- A sender that connects again. -/
def reconnectingSender : PushEnv := { sampleSender with reconnect := true }

/-- The standard descriptors. -/
def stdFds : Finset ℕ := {0, 1, 2}

/-- A connection with the given numbers. -/
def endpoint (input aux : ℕ) : Endpoint := { sampleIn with input := input, aux := aux }

/-- A pass of the receiver that finds the connection closed and connects again. -/
def reconnectPass (input aux : ℕ) : PullUdpEvent :=
  .poll (.closed false) false (some (endpoint input aux, false))

/-- The receiver after such a pass. -/
def reconnected (w : Control PullUdpSt) (input aux : ℕ) : Control PullUdpSt :=
  ⟨{ w.st with link := w.st.link.adopt (endpoint input aux) false, phase := .poll }, true, w.lost,
    w.made + 1⟩

theorem step_reconnected {ok : Control PullUdpSt → ControlEvent PullUdpEvent → Prop}
    {w : Control PullUdpSt} {input aux : ℕ} (hph : w.st.phase = .poll)
    (hsig : w.st.link.sig = false) (hdown : w.st.link.pfd.2 = w.st.link.input → w.up = false)
    (hfresh : FreshFds stdFds (endpoint input aux))
    (hok : ok w (.step (reconnectPass input aux))) :
    ControlStep (pullLoop reconnectingReceiver rfl) stdFds ok w (reconnected w input aux) := by
  have hadopted : Pass.adopted w.st.link ⟨.closed false, false, some (endpoint input aux, false)⟩ =
      some (endpoint input aux) := by
    simp [Pass.adopted, hsig]
  have hnext : w.st.next reconnectingReceiver (reconnectPass input aux) =
      some (reconnected w input aux).st := by
    simp [PullUdpSt.next, reconnectPass, hph, UdpLink.pollPass, hsig, reconnectingReceiver,
      reconnected]
  refine ⟨.step (reconnectPass input aux), ?_, hok, ?_⟩
  · intro p hpass
    obtain rfl := Option.some.inj hpass
    refine ⟨⟨hdown, by simp⟩, ?_⟩
    intro e' he'
    obtain rfl := Option.some.inj (hadopted.symm.trans he')
    exact hfresh
  · change (w.st.next reconnectingReceiver (reconnectPass input aux)).map _ = _
    rw [hnext, Option.map_some]
    change some (match Pass.adopted w.st.link _ with | none => _ | some _ => _) = _
    rw [hadopted]
    rfl

/-- The receiver that has lost its first connection. -/
def lostReceiver : Control PullUdpSt :=
  { pullStart reconnectingReceiver 4 sampleIn with up := false, lost := 1 }

theorem step_lost {ok : Control PullUdpSt → ControlEvent PullUdpEvent → Prop}
    (hok : ok (pullStart reconnectingReceiver 4 sampleIn) .lose) :
    ControlStep (pullLoop reconnectingReceiver rfl) stdFds ok
      (pullStart reconnectingReceiver 4 sampleIn) lostReceiver :=
  ⟨.lose, rfl, hok, rfl⟩

/-- The receiver loses its connection and gets the same numbers again; the sender loses its own. -/
theorem udp_polls_current_sample :
    PollsCurrent (pullLoop reconnectingReceiver rfl) stdFds (reconnected lostReceiver 3 4) ∧
      PollsCurrent (pushLoop reconnectingSender rfl) stdFds
        { pushStart reconnectingSender 4 sampleOut with up := false, lost := 1 } := by
  have hsame : SameNumbers (pullLoop reconnectingReceiver rfl) lostReceiver
      (.step (reconnectPass 3 4)) := by
    intro p hpass e' he'
    obtain rfl := Option.some.inj hpass
    obtain rfl : endpoint 3 4 = e' := Option.some.inj he'
    rfl
  have hstep := step_reconnected (w := lostReceiver) rfl rfl (fun _ => rfl)
    (by unfold FreshFds; decide) hsame
  constructor
  · exact (udp_polls_current stdFds 4 sampleIn).2 reconnectingReceiver rfl _
      ((Relation.ReflTransGen.single (step_lost trivial)).tail hstep)
  · exact (udp_polls_current stdFds 4 sampleOut).1 reconnectingSender rfl _
      (Relation.ReflTransGen.single ⟨.lose, rfl, trivial, rfl⟩)

/-- **One lost connection, two new ones.** The new sockets get other numbers; the old ones are
polled, are not open, and the receiver connects again. -/
theorem stale_descriptors : ∃ w,
    ControlRun (pullLoop reconnectingReceiver rfl) stdFds (fun _ _ => True)
        (pullStart reconnectingReceiver 4 sampleIn) w ∧
      w.lost = 1 ∧ w.made = 2 ∧ w.st.phase = .poll ∧
      w.st.link.pfd ≠ (w.st.link.aux, w.st.link.input) ∧
      w.st.link.pfd.2 ∉ openFds stdFds w.st.link ∧
      ¬ PollsCurrent (pullLoop reconnectingReceiver rfl) stdFds w := by
  have h₁ : ControlStep (pullLoop reconnectingReceiver rfl) stdFds (fun _ _ => True)
      (pullStart reconnectingReceiver 4 sampleIn) lostReceiver := step_lost trivial
  have h₂ := @step_reconnected (fun _ _ => True) lostReceiver 5 6 rfl rfl (fun _ => rfl)
    (by unfold FreshFds; decide) trivial
  have h₃ := @step_reconnected (fun _ _ => True) (reconnected lostReceiver 5 6) 5 6 rfl rfl
    (fun h => absurd h (by decide)) (by unfold FreshFds; decide) trivial
  refine ⟨_, ((Relation.ReflTransGen.single h₁).tail h₂).tail h₃, rfl, rfl, rfl, by decide,
    by decide, ?_⟩
  intro h
  exact absurd h.once (by decide)

end Ach.Daemon.UdpPoll
