import Ach.Shm.Machine

/-! # Every channel that is open is whole

The magic number is the last store of `ach_create` and the first thing `ach_open` reads. So a
handle is never open on a block that is not whole, however the steps of the two are interleaved and
wherever a process dies (`WorldInv`). From then on only puts, gets and flushes touch the block, by
handles that were opened at any time; each starts at position `0`, as if it had been there from the
beginning. So the calls on each file keep the delivery contract (`names_deliver`), and a file that
has lost its name, or shares it with later ones, goes on as before. All this is so as long as no
`ach_create` comes to a file that was there, which takes `attr->truncate`. -/

namespace Ach.Shm.Contract

open Ach.Lib.Run Ach.Lib.Word
open Ach.Channel.Types Ach.Channel.Create Ach.Channel.Invariant Ach.Channel.History
open Ach.Channel.GetSpec Ach.Channel.Runs Ach.Channel.Delivery
open Ach.Shm.Machine

/-! ### One call -/

/-- A call looks at the handle of its caller only. -/
theorem call_alone (dbg : Bool) (s : Sys ℕ) (h : ℕ) (c : Call) :
    (⟨s.shm, fun _ => s.chan h⟩ : Sys ℕ).call dbg h c = (s.call dbg h c).bind fun p =>
      .ok (p.1, ⟨p.2.shm, Function.update (fun _ => s.chan h) h (p.2.chan h)⟩) := by
  cases c with
  | put buf len =>
    simp only [Sys.call]
    cases out (Channel.Put.achPut (s.chan h) buf len) dbg s.shm <;> simp [Outcome.bind]
  | get n abstime opts ws =>
    simp only [Sys.call]
    cases out (Channel.Get.achGet (s.chan h) n abstime opts (ws.map WaitEnd.event)) dbg s.shm <;>
      simp [Outcome.bind]
  | flush =>
    simp only [Sys.call]
    cases out (Channel.Get.achFlush (s.chan h)) dbg s.shm <;> simp [Outcome.bind]

/-- A call leaves the other handles as they were. -/
theorem call_others {dbg : Bool} {s s' : Sys ℕ} {h : ℕ} {c : Call} {rep : Reply}
    (hcall : s.call dbg h c = .ok (rep, s')) {g : ℕ} (hg : g ≠ h) : s'.chan g = s.chan g := by
  cases c with
  | put buf len =>
    obtain ⟨p, -, hr⟩ := Outcome.bind_eq_ok.mp hcall
    obtain ⟨-, rfl⟩ : Reply.put p.1 p.2 = rep ∧ { s with shm := p.2 } = s' := by simpa using hr
    rfl
  | get n abstime opts ws =>
    obtain ⟨p, -, hr⟩ := Outcome.bind_eq_ok.mp hcall
    obtain ⟨-, rfl⟩ : Reply.get p.1.1 p.1.2 = rep ∧
      ⟨p.2, Function.update s.chan h p.1.2⟩ = s' := by simpa using hr
    exact Function.update_of_ne hg _ _
  | flush =>
    obtain ⟨p, -, hr⟩ := Outcome.bind_eq_ok.mp hcall
    obtain ⟨-, rfl⟩ : Reply.flush p.1.1 p.1.2 = rep ∧
      ⟨p.2, Function.update s.chan h p.1.2⟩ = s' := by simpa using hr
    exact Function.update_of_ne hg _ _

/-! ### The invariant -/

/-- `ach_create` is before the store of the magic number, or has failed there. -/
structure Making (obj : Obj) : Prop where
  log : obj.log = []
  magic : obj.shm.magic ≠ achShmMagicNum
  pc : match obj.pc with
    | .ftruncate => obj.shm = zeroBlock
    | .mmap => obj.shm = zeroBlock ∧ createLen obj.cnt obj.size < 2 ^ 63
    | .init todo => todo ≠ [] ∧ createLen obj.cnt obj.size < 2 ^ 63 ∧
      ∃ past, past ++ todo = initStmts obj.cnt obj.size ∧
        obj.shm = past.foldl (fun s st => st.run s) zeroBlock
    | .done r => r ≠ .ok
    | _ => False

/-- The handle has not been open on the file. -/
def Fresh (o : ℕ) : Session → Prop
  | .opened o' _ | .closed o' => o' ≠ o
  | .crashed => False
  | _ => True

/-- The handle is open on the file, or was. -/
def Uses (o : ℕ) : Session → Prop
  | .opened o' _ | .closed o' => o' = o
  | _ => False

/-- The block is whole, `ach_create` does not write to it any more, and the calls made on it explain
it and keep the contract. -/
structure Live (sessions : ℕ → Session) (o : ℕ) (obj : Obj) : Prop where
  magic : obj.shm.magic = achShmMagicNum
  pc : match obj.pc with
    | .munmap | .close | .done _ => True
    | _ => False
  sound : Sound obj.log
  callers : ∀ e ∈ obj.log, Uses o (sessions e.handle)
  tracked : ∃ s : Sys ℕ, s.shm = obj.shm ∧ Tracked obj.cnt (obj.cnt * obj.size) obj.log s ∧
    (∀ h chan, sessions h = .opened o chan → s.chan h = chan) ∧
    ∀ h, Fresh o (sessions h) → s.chan h = openedChan (created obj.cnt obj.size)

/-- The handle is past the test of the magic number, and has been given the handle `ach_open` gives.
-/
def Passed (obj : Obj) : Session → Prop
  | .magic _ => True
  | .guards _ chan => obj.shm.magic = achShmMagicNum ∧ chan = openedChan (created obj.cnt obj.size)
  | _ => obj.shm.magic = achShmMagicNum

/-- **The invariant of the names, the files and the handles**, after `n` puts. -/
structure WorldInv (n : ℕ) (w : World) : Prop where
  fits : ∀ o obj, w.objs o = some obj → 2 ≤ obj.cnt ∧ NoWrap obj.cnt obj.size
  objs : ∀ o obj, w.objs o = some obj → Making obj ∨ Live w.sessions o obj
  sessions : ∀ h o, (w.sessions h).obj = some o →
    ∃ obj, w.objs o = some obj ∧ Passed obj (w.sessions h)
  names : ∀ file o, w.names file = some o → ∃ obj, w.objs o = some obj ∧ obj.file = file
  crashed : ∀ h, w.sessions h ≠ .crashed
  bound : ∀ o obj, w.objs o = some obj → (puts obj.log).length ≤ n

/-- The magic number tells the two apart. -/
theorem WorldInv.live {n : ℕ} {w : World} (hw : WorldInv n w) {o : ℕ} {obj : Obj}
    (hobj : w.objs o = some obj)
    (hmagic : obj.shm.magic = achShmMagicNum) : Live w.sessions o obj :=
  (hw.objs o obj hobj).resolve_left fun hm => hm.magic hmagic

theorem worldInv_empty : WorldInv 0 .empty where
  fits := by simp [World.empty]
  objs := by simp [World.empty]
  sessions := by simp [World.empty, Session.obj]
  names := by simp [World.empty]
  crashed := by simp [World.empty]
  bound := by simp [World.empty]

/-! ### `ach_create` -/

/-- A block just completed. -/
theorem live_created {sessions : ℕ → Session} {o : ℕ} {obj : Obj} (hpc : obj.pc = .munmap)
    (hlog : obj.log = []) (hshm : obj.shm = created obj.cnt obj.size)
    (hwrap : NoWrap obj.cnt obj.size) (hlen : createLen obj.cnt obj.size < 2 ^ 63)
    (hnone : ∀ h chan, sessions h ≠ .opened o chan) : Live sessions o obj where
  magic := by rw [hshm]; rfl
  pc := by rw [hpc]; trivial
  sound := by
    rw [hlog]
    intro pre e post he
    simp at he
  callers := by simp [hlog]
  tracked := by
    have ht := tracked_created (H := ℕ) hwrap hlen
    have hmul : wmul obj.cnt obj.size = obj.cnt * obj.size :=
      wmul_eq (by unfold NoWrap at hwrap; omega)
    rw [hmul] at ht
    rw [hlog]
    exact ⟨_, hshm.symm, ht, fun h chan hs => absurd hs (hnone h chan), fun _ _ => rfl⟩

/-- What a statement of `ach_create` does: it is run, or a pthread call or the assert fails. -/
theorem createNext_init {dbg ok : Bool} {obj obj' : Obj} {st : Stmt} {todo : List Stmt}
    (hpc : obj.pc = .init (st :: todo)) (hs : obj.createNext dbg ok = some obj') :
    obj' = { obj with
      shm := st.run obj.shm, pc := if todo.isEmpty then .munmap else .init todo } ∨
    (st = .pthread ∧ obj' = { obj with pc := .done .failedSyscall }) ∨
      (st = .assertLen ∧ ¬ LenOk obj.shm ∧ obj' = { obj with pc := .aborted }) := by
  unfold Obj.createNext at hs
  simp only [hpc] at hs
  cases st with
  | store f => exact .inl (Option.some.inj hs).symm
  | pthread =>
    cases ok with
    | true => exact .inl (Option.some.inj hs).symm
    | false => exact .inr (.inl ⟨rfl, (Option.some.inj hs).symm⟩)
  | assertLen =>
    by_cases h : dbg = true ∧ ¬ LenOk obj.shm
    · simp only [h, if_true, not_false_eq_true, and_self] at hs
      exact .inr (.inr ⟨rfl, h.2, (Option.some.inj hs).symm⟩)
    · simp only [h, if_false] at hs
      exact .inl (Option.some.inj hs).symm

/-- The next step of an `ach_create` that has not written the magic number. -/
theorem Making.next {dbg ok : Bool} {obj obj' : Obj} {sessions : ℕ → Session} {o : ℕ}
    (hm : Making obj) (hwrap : NoWrap obj.cnt obj.size)
    (hnone : ∀ h chan, sessions h ≠ .opened o chan) (hs : obj.createNext dbg ok = some obj') :
    Making obj' ∨ Live sessions o obj' := by
  have hmpc := hm.pc
  cases hpc : obj.pc with
  | ftruncate =>
    simp only [hpc] at hmpc
    simp only [Obj.createNext, hpc] at hs
    split_ifs at hs with hc
    · obtain rfl := Option.some.inj hs
      exact .inl ⟨hm.log, hm.magic, by simp⟩
    · obtain rfl := Option.some.inj hs
      exact .inl ⟨hm.log, hm.magic, hmpc, not_le.mp fun hle => hc (.inr hle)⟩
  | mmap =>
    simp only [hpc] at hmpc
    simp only [Obj.createNext, hpc] at hs
    obtain rfl := Option.some.inj hs
    cases ok with
    | true => exact .inl ⟨hm.log, hm.magic, by simp [initStmts], hmpc.2, [], rfl, hmpc.1⟩
    | false => exact .inl ⟨hm.log, hm.magic, by simp⟩
  | init todo =>
    simp only [hpc] at hmpc
    obtain ⟨hne, hlen, past, hpast, hshm⟩ := hmpc
    cases todo with
    | nil => exact absurd rfl hne
    | cons st todo =>
      rcases createNext_init hpc hs with rfl | ⟨-, rfl⟩ | ⟨rfl, hno, -⟩
      · have hshm' : st.run obj.shm =
            (past ++ [st]).foldl (fun s st => st.run s) zeroBlock := by
          rw [List.foldl_append, ← hshm]
          rfl
        have hpast' : (past ++ [st]) ++ todo = initStmts obj.cnt obj.size := by
          rw [List.append_assoc]
          exact hpast
        cases todo with
        | nil =>
          rw [List.append_nil] at hpast'
          rw [hpast', foldl_initStmts] at hshm'
          exact .inr (live_created rfl hm.log hshm' hwrap hlen hnone)
        | cons st' todo =>
          refine .inl ⟨hm.log, ?_, by simp, hlen, past ++ [st], hpast', hshm'⟩
          rw [hshm', magic_of_before hpast' (by simp)]
          decide
      · exact .inl ⟨hm.log, hm.magic, by simp⟩
      · rw [hshm] at hno
        exact absurd (lenOk_of_before hpast) hno
  | munmap => simp [hpc] at hmpc
  | close => simp [hpc] at hmpc
  | done r => simp [Obj.createNext, hpc] at hs
  | aborted => simp [hpc] at hmpc

/-- After the magic number `ach_create` leaves the block alone. -/
theorem Live.next {dbg ok : Bool} {obj obj' : Obj} {sessions : ℕ → Session} {o : ℕ}
    (hl : Live sessions o obj) (hs : obj.createNext dbg ok = some obj') : Live sessions o obj' := by
  have hlpc := hl.pc
  cases hpc : obj.pc with
  | munmap =>
    simp only [Obj.createNext, hpc] at hs
    obtain rfl := Option.some.inj hs
    exact { hl with pc := by cases ok <;> simp }
  | close =>
    simp only [Obj.createNext, hpc] at hs
    obtain rfl := Option.some.inj hs
    exact { hl with pc := by simp }
  | done r => simp [Obj.createNext, hpc] at hs
  | ftruncate => simp [hpc] at hlpc
  | mmap => simp [hpc] at hlpc
  | init todo => simp [hpc] at hlpc
  | aborted => simp [hpc] at hlpc

/-- What a step of `ach_create` leaves as it is. -/
theorem createNext_same {dbg ok : Bool} {obj obj' : Obj}
    (hs : obj.createNext dbg ok = some obj') :
    obj'.file = obj.file ∧ obj'.cnt = obj.cnt ∧ obj'.size = obj.size ∧ obj'.log = obj.log := by
  unfold Obj.createNext at hs
  split at hs
  · split_ifs at hs <;> obtain rfl := Option.some.inj hs <;> exact ⟨rfl, rfl, rfl, rfl⟩
  · obtain rfl := Option.some.inj hs
    exact ⟨rfl, rfl, rfl, rfl⟩
  · simp at hs
  · rename_i st todo hpc
    cases st <;> obtain rfl := Option.some.inj hs <;> exact ⟨rfl, rfl, rfl, rfl⟩
  all_goals
    first
    | (obtain rfl := Option.some.inj hs; exact ⟨rfl, rfl, rfl, rfl⟩)
    | simp at hs

/-! ### One step -/

/-- A value of a table in which one entry was written. -/
theorem update_eq_some {α β : Type} [DecidableEq α] {f : α → Option β} {a a' : α} {b b' : β}
    (h : Function.update f a (some b) a' = some b') :
    (a' = a ∧ b' = b) ∨ (a' ≠ a ∧ f a' = some b') := by
  by_cases ha : a' = a
  · subst ha
    rw [Function.update_self] at h
    exact .inl ⟨rfl, (Option.some.inj h).symm⟩
  · rw [Function.update_of_ne ha] at h
    exact .inr ⟨ha, h⟩

theorem Passed.mono {obj obj' : Obj} {s : Session} (h : Passed obj s) (hcnt : obj'.cnt = obj.cnt)
    (hsize : obj'.size = obj.size)
    (hmagic : obj.shm.magic = achShmMagicNum → obj'.shm.magic = achShmMagicNum) :
    Passed obj' s := by
  cases s with
  | magic o => trivial
  | guards o chan => exact ⟨hmagic h.1, by rw [hcnt, hsize]; exact h.2⟩
  | _ => exact hmagic h

/-- A handle that moves on, and was not open on the file before it is. -/
theorem Live.update {sessions : ℕ → Session} {o : ℕ} {obj : Obj} (hl : Live sessions o obj) (h : ℕ)
    (s' : Session) (huses : Uses o (sessions h) → Uses o s')
    (hfresh : Fresh o s' → Fresh o (sessions h))
    (hopen : ∀ chan, s' = .opened o chan →
      Fresh o (sessions h) ∧ chan = openedChan (created obj.cnt obj.size)) :
    Live (Function.update sessions h s') o obj := by
  obtain ⟨s, hshm, ht, hchan, hinit⟩ := hl.tracked
  refine { hl with callers := fun e he => ?_, tracked := ⟨s, hshm, ht, fun g chan hg => ?_, ?_⟩ }
  · by_cases hg : e.handle = h
    · rw [hg, Function.update_self]
      exact huses (hg ▸ hl.callers e he)
    · rw [Function.update_of_ne hg]
      exact hl.callers e he
  · by_cases hgh : g = h
    · subst hgh
      rw [Function.update_self] at hg
      obtain ⟨hf, rfl⟩ := hopen chan hg
      exact hinit g hf
    · rw [Function.update_of_ne hgh] at hg
      exact hchan g chan hg
  · intro g hg
    by_cases hgh : g = h
    · subst hgh
      rw [Function.update_self] at hg
      exact hinit g (hfresh hg)
    · rw [Function.update_of_ne hgh] at hg
      exact hinit g hg

section
variable {n : ℕ} {w w' : World} {dbg : Bool}

/-- `shm_open` in `ach_create`. -/
theorem WorldInv.create {o : ℕ} {name : List UInt8} {cnt size : ℕ} {truncate : Bool}
    {err : Option Errno} (hw : WorldInv n w) (hcnt : 2 ≤ cnt) (hwrap : NoWrap cnt size)
    (hnew : w'.rewrites = [])
    (hs : w.next dbg (.create o name cnt size truncate err) = some w') : WorldInv n w' := by
  unfold World.next at hs
  simp only at hs
  split at hs
  · obtain rfl := Option.some.inj hs
    exact hw
  · obtain ⟨hnone, hs⟩ := Option.ite_none_right_eq_some.mp hs
    rw [Option.isNone_iff_eq_none] at hnone
    obtain rfl := Option.some.inj hs
    have hne : ∀ {o' obj}, w.objs o' = some obj → o' ≠ o := fun hobj he => by
      rw [he, hnone] at hobj
      simp at hobj
    have hkeep : ∀ {o' obj} {new : Obj}, w.objs o' = some obj →
        Function.update w.objs o (some new) o' = some obj := fun hobj => by
      rw [Function.update_of_ne (hne hobj)]
      exact hobj
    refine ⟨fun o' obj hobj => ?_, fun o' obj hobj => ?_, fun h o' hh => ?_, fun f o' hf => ?_,
      hw.crashed, fun o' obj hobj => ?_⟩
    · rcases update_eq_some hobj with ⟨rfl, rfl⟩ | ⟨-, hobj⟩
      · exact ⟨hcnt, hwrap⟩
      · exact hw.fits o' obj hobj
    · rcases update_eq_some hobj with ⟨rfl, rfl⟩ | ⟨-, hobj⟩
      · exact .inl ⟨rfl, show zeroBlock.magic ≠ achShmMagicNum by decide, rfl⟩
      · exact hw.objs o' obj hobj
    · obtain ⟨obj, hobj, hp⟩ := hw.sessions h o' hh
      exact ⟨obj, hkeep hobj, hp⟩
    · rcases update_eq_some hf with ⟨rfl, rfl⟩ | ⟨-, hf⟩
      · exact ⟨_, Function.update_self .., rfl⟩
      · obtain ⟨obj, hobj, hfile⟩ := hw.names f o' hf
        exact ⟨obj, hkeep hobj, hfile⟩
    · rcases update_eq_some hobj with ⟨rfl, rfl⟩ | ⟨-, hobj⟩
      · exact Nat.zero_le _
      · exact hw.bound o' obj hobj
  · obtain rfl := Option.some.inj hs
    simp at hnew

/-- What a step that changes one file, and perhaps its handles, keeps. -/
theorem WorldInv.update {n' : ℕ} {o : ℕ} {obj obj' : Obj} {sessions : ℕ → Session}
    (hw : WorldInv n w) (hobj : w.objs o = some obj) (hn : n ≤ n')
    (hfile : obj'.file = obj.file) (hcnt : obj'.cnt = obj.cnt) (hsize : obj'.size = obj.size)
    (hmagic : obj.shm.magic = achShmMagicNum → obj'.shm.magic = achShmMagicNum)
    (hself : Making obj' ∨ Live sessions o obj')
    (hothers : ∀ o' obj, o' ≠ o → Live w.sessions o' obj → Live sessions o' obj)
    (hsess : ∀ h o', (sessions h).obj = some o' → sessions h = w.sessions h ∨
      (o' = o ∧ Passed obj' (sessions h)))
    (hcrash : ∀ h, sessions h ≠ .crashed) (hputs : (puts obj'.log).length ≤ n') :
    WorldInv n' { w with objs := Function.update w.objs o (some obj'), sessions := sessions } := by
  have hkeep : ∀ {o' a}, w.objs o' = some a → ∃ b, b.file = a.file ∧
      (∀ s, Passed a s → Passed b s) ∧ Function.update w.objs o (some obj') o' = some b := by
    intro o' a ha
    by_cases he : o' = o
    · subst he
      obtain rfl : obj = a := Option.some.inj (hobj.symm.trans ha)
      exact ⟨obj', hfile, fun s hp => hp.mono hcnt hsize hmagic, Function.update_self ..⟩
    · exact ⟨a, rfl, fun _ => id, by rw [Function.update_of_ne he]; exact ha⟩
  refine ⟨fun o' a ha => ?_, fun o' a ha => ?_, fun h o' hh => ?_, fun f o' hf => ?_, hcrash,
    fun o' a ha => ?_⟩
  · rcases update_eq_some ha with ⟨rfl, rfl⟩ | ⟨-, ha⟩
    · rw [hcnt, hsize]
      exact hw.fits o' obj hobj
    · exact hw.fits o' a ha
  · rcases update_eq_some ha with ⟨rfl, rfl⟩ | ⟨he, ha⟩
    · exact hself
    · exact (hw.objs o' a ha).imp_right (hothers o' a he)
  · rcases hsess h o' hh with heq | ⟨rfl, hp⟩
    · obtain ⟨a, ha, hp⟩ := hw.sessions h o' (heq ▸ hh)
      obtain ⟨b, -, hb, hlook⟩ := hkeep ha
      exact ⟨b, hlook, show Passed b (sessions h) from heq ▸ hb _ hp⟩
    · exact ⟨obj', Function.update_self .., hp⟩
  · obtain ⟨a, ha, hfa⟩ := hw.names f o' hf
    obtain ⟨b, hb, -, hlook⟩ := hkeep ha
    exact ⟨b, hlook, hb.trans hfa⟩
  · rcases update_eq_some ha with ⟨rfl, rfl⟩ | ⟨-, ha⟩
    · exact hputs
    · exact (hw.bound o' a ha).trans hn

/-- The next step of `ach_create`. -/
theorem WorldInv.createNext {o : ℕ} {ok : Bool} (hw : WorldInv n w)
    (hs : w.next dbg (.createNext o ok) = some w') : WorldInv n w' := by
  obtain ⟨obj, hobj, hs⟩ := Option.bind_eq_some_iff.mp hs
  obtain ⟨obj', hnext, hs⟩ := Option.bind_eq_some_iff.mp hs
  obtain rfl := Option.some.inj hs
  obtain ⟨hfile, hcnt, hsize, hlog⟩ := createNext_same hnext
  have hmagic : obj.shm.magic = achShmMagicNum → obj'.shm.magic = achShmMagicNum :=
    fun hm => ((hw.live hobj hm).next hnext).magic
  have hself : Making obj' ∨ Live w.sessions o obj' := by
    rcases hw.objs o obj hobj with hm | hl
    · refine hm.next (hw.fits o obj hobj).2 (fun h chan hh => ?_) hnext
      -- a handle is open on a whole block only
      obtain ⟨a, ha, hp⟩ := hw.sessions h o (by rw [hh]; rfl)
      obtain rfl : obj = a := Option.some.inj (hobj.symm.trans ha)
      rw [hh] at hp
      exact hm.magic hp
    · exact .inr (hl.next hnext)
  exact hw.update hobj le_rfl hfile hcnt hsize hmagic hself (fun _ _ _ hl => hl)
    (fun _ _ _ => .inl rfl) hw.crashed (by rw [hlog]; exact hw.bound o obj hobj)

/-- A step of one handle. -/
theorem WorldInv.session {h : ℕ} {s' : Session} (hw : WorldInv n w)
    (hon : ∀ o, s'.obj = some o → ∃ obj, w.objs o = some obj ∧ Passed obj s')
    (hcrash : s' ≠ .crashed)
    (hlive : ∀ o' obj', w.objs o' = some obj' → Live w.sessions o' obj' →
      Live (Function.update w.sessions h s') o' obj') :
    WorldInv n { w with sessions := Function.update w.sessions h s' } where
  fits := hw.fits
  objs o' obj' hobj' := (hw.objs o' obj' hobj').imp_right (hlive o' obj' hobj')
  sessions g o' hg := by
    by_cases hgh : g = h
    · subst hgh
      simp only [Function.update_self] at hg ⊢
      exact hon o' hg
    · simp only [Function.update_of_ne hgh] at hg ⊢
      exact hw.sessions g o' hg
  names := hw.names
  crashed g := by
    by_cases hgh : g = h
    · subst hgh
      simpa using hcrash
    · simpa only [Function.update_of_ne hgh] using hw.crashed g
  bound := hw.bound

/-- `shm_open` in `ach_open`. -/
theorem WorldInv.attach {h : ℕ} {name : List UInt8} {err : Option Errno} (hw : WorldInv n w)
    (hs : w.next dbg (.attach h name err) = some w') : WorldInv n w' := by
  cases hidle : w.sessions h with
  | idle =>
    simp only [World.next, hidle] at hs
    have hlive : ∀ s', (∀ o, Fresh o s') → (∀ o chan, s' ≠ .opened o chan) →
        ∀ o' obj', w.objs o' = some obj' → Live w.sessions o' obj' →
          Live (Function.update w.sessions h s') o' obj' :=
      fun s' hf hno o' obj' _ hl => hl.update h s' (by simp [hidle, Uses]) (by simp [hidle, Fresh])
        fun chan he => absurd he (hno o' chan)
    split at hs
    · obtain rfl := Option.some.inj hs
      exact hw.session (by simp [Session.obj]) (by simp) (hlive _ (fun _ => trivial) (by simp))
    · rename_i o _ hname
      obtain rfl := Option.some.inj hs
      obtain ⟨obj, hobj, -⟩ := hw.names _ o hname
      refine hw.session (fun o' ho => ?_) (by simp) (hlive _ (fun _ => trivial) (by simp))
      obtain rfl := Option.some.inj ho
      exact ⟨obj, hobj, trivial⟩
    · simp at hs
  | _ => simp [World.next, hidle] at hs

/-- The handle `ach_open` gives on a whole block. -/
theorem Live.openedChan_eq {sessions : ℕ → Session} {o : ℕ} {obj : Obj} (hl : Live sessions o obj)
    (hwrap : NoWrap obj.cnt obj.size) :
    openedChan obj.shm = openedChan (created obj.cnt obj.size) := by
  obtain ⟨s, hshm, ht, -⟩ := hl.tracked
  have hcnt := ht.good.indexCnt
  have hsize := ht.good.dataSize
  rw [hshm] at hcnt hsize
  have hmul : wmul obj.cnt obj.size = obj.cnt * obj.size :=
    wmul_eq (by unfold NoWrap at hwrap; omega)
  simp only [openedChan, openLen, hcnt, hsize, created, hmul]

/-- What a step of `ach_open` can do: go on, or end. -/
theorem attachNext_cases {len : ℕ} {shm : AchHeader} {err : Option Errno} {s s' : Session}
    {past : Bool} (hs : s.attachNext len shm err past = some s') :
    s'.obj = none ∧ (∀ o, Fresh o s') ∧
        (∃ o, s = .magic o ∨ s = .map o ∨ ∃ chan, s = .guards o chan) ∨
      ∃ o, (s = .magic o ∧ s' = .map o ∧ shm.magic = achShmMagicNum) ∨
        (s = .map o ∧ s' = .guards o (openedChan shm)) ∨
        ∃ chan, s = .guards o chan ∧ s' = .opened o chan := by
  cases s with
  | magic o =>
    obtain rfl := Option.some.inj hs
    split_ifs with herr hlen hmagic
    · exact .inl ⟨rfl, fun _ => trivial, o, .inl rfl⟩
    · exact .inl ⟨rfl, fun _ => trivial, o, .inl rfl⟩
    · exact .inl ⟨rfl, fun _ => trivial, o, .inl rfl⟩
    · exact .inr ⟨o, .inl ⟨rfl, rfl, not_not.mp hmagic⟩⟩
  | map o =>
    obtain rfl := Option.some.inj hs
    cases err with
    | none => exact .inr ⟨o, .inr (.inl ⟨rfl, rfl⟩)⟩
    | some e => exact .inl ⟨rfl, fun _ => trivial, o, .inr (.inl rfl)⟩
  | guards o chan =>
    obtain rfl := Option.some.inj hs
    split
    · exact .inr ⟨o, .inr (.inr ⟨chan, rfl, rfl⟩)⟩
    · exact .inl ⟨rfl, fun _ => trivial, o, .inr (.inr ⟨chan, rfl⟩)⟩
    · exact .inl ⟨rfl, fun _ => trivial, o, .inr (.inr ⟨chan, rfl⟩)⟩
  | _ => simp [Session.attachNext] at hs

/-- The next step of `ach_open`. -/
theorem WorldInv.attachNext {h : ℕ} {err : Option Errno} {past : Bool} (hw : WorldInv n w)
    (hs : w.next dbg (.attachNext h err past) = some w') : WorldInv n w' := by
  obtain ⟨o, ho, hs⟩ := Option.bind_eq_some_iff.mp hs
  obtain ⟨obj, hobj, hs⟩ := Option.bind_eq_some_iff.mp hs
  obtain ⟨s', hnext, hs⟩ := Option.bind_eq_some_iff.mp hs
  obtain rfl := Option.some.inj hs
  obtain ⟨a, ha, hpass⟩ := hw.sessions h o ho
  obtain rfl : obj = a := Option.some.inj (hobj.symm.trans ha)
  have hbefore : (∀ o', Fresh o' (w.sessions h)) ∧ ∀ o', ¬ Uses o' (w.sessions h) := by
    rcases attachNext_cases hnext with ⟨-, -, o₁, h₁ | h₁ | ⟨chan, h₁⟩⟩ |
      ⟨o₁, ⟨h₁, -⟩ | ⟨h₁, -⟩ | ⟨chan, h₁, -⟩⟩ <;> rw [h₁] <;> exact ⟨fun _ => trivial, fun _ => id⟩
  -- a handle that is not open before the step
  have hstep : (∀ o', s'.obj = some o' → o' = o ∧ Passed obj s') → s' ≠ .crashed →
      (∀ o' chan, s' = .opened o' chan → chan = openedChan (created obj.cnt obj.size)) →
      WorldInv n { w with sessions := Function.update w.sessions h s' } := by
    intro hon hcrash hchan
    refine hw.session (fun o' ho' => ?_) hcrash fun o' obj' hobj' hl =>
      hl.update h s' (fun hu => absurd hu (hbefore.2 o')) (fun _ => hbefore.1 o') fun chan he => ?_
    · obtain ⟨rfl, hp⟩ := hon o' ho'
      exact ⟨obj, hobj, hp⟩
    · obtain ⟨rfl, -⟩ := hon o' (by rw [he]; rfl)
      obtain rfl : obj = obj' := Option.some.inj (hobj.symm.trans hobj')
      exact ⟨hbefore.1 o', hchan o' chan he⟩
  rcases attachNext_cases hnext with ⟨hnone, hfresh, -⟩ | ⟨o₁, ⟨h₁, rfl, hm⟩ | ⟨h₁, rfl⟩ |
    ⟨chan, h₁, rfl⟩⟩
  · refine hstep (by simp [hnone]) (fun hc => ?_) fun o' chan he => ?_
    · exact (hc ▸ hfresh o : Fresh o .crashed)
    · simp [he, Session.obj] at hnone
  · obtain rfl : o₁ = o := Option.some.inj (by rw [← ho, h₁]; rfl)
    exact hstep (fun o' ho' => ⟨(Option.some.inj ho').symm, hm⟩) (by simp) (by simp)
  · obtain rfl : o₁ = o := Option.some.inj (by rw [← ho, h₁]; rfl)
    rw [h₁] at hpass
    have hopen := (hw.live hobj hpass).openedChan_eq (hw.fits o₁ obj hobj).2
    exact hstep (fun o' ho' => ⟨(Option.some.inj ho').symm, hpass, hopen⟩) (by simp) (by simp)
  · obtain rfl : o₁ = o := Option.some.inj (by rw [← ho, h₁]; rfl)
    rw [h₁] at hpass
    refine hstep (fun o' ho' => ⟨(Option.some.inj ho').symm, hpass.1⟩) (by simp) fun o' c he => ?_
    obtain ⟨-, rfl⟩ := Session.opened.inj he
    exact hpass.2

/-- `ach_close`. -/
theorem WorldInv.close {h : ℕ} {munmap : Bool} {close : Option Errno} (hw : WorldInv n w)
    (hs : w.next dbg (.close h munmap close) = some w') : WorldInv n w' := by
  cases hopen : w.sessions h with
  | opened o chan =>
    simp only [World.next, hopen] at hs
    obtain ⟨obj, hobj, rfl⟩ := Option.map_eq_some_iff.mp hs
    split_ifs
    · exact hw
    · obtain ⟨a, ha, hpass⟩ := hw.sessions h o (by rw [hopen]; rfl)
      refine hw.session (fun o' ho' => ?_) (by simp) fun o' obj' _ hl => ?_
      · obtain rfl := Option.some.inj ho'
        rw [hopen] at hpass
        exact ⟨a, ha, hpass⟩
      · exact hl.update h _ (by rw [hopen]; exact id) (by rw [hopen]; exact id) (by simp)
  | _ => simp [World.next, hopen] at hs

/-- `ach_unlink`. -/
theorem WorldInv.unlink {name : List UInt8} {err : Option Errno} (hw : WorldInv n w)
    (hs : w.next dbg (.unlink name err) = some w') : WorldInv n w' := by
  obtain rfl := Option.some.inj hs
  unfold World.achUnlink
  split
  · exact hw
  · split
    · exact hw
    · rename_i file _ _ _
      refine { hw with names := fun f o hf => ?_ }
      by_cases he : f = file
      · simp [he] at hf
      · simp only [Function.update_of_ne he] at hf
        exact hw.names f o hf

/-- A call on an open handle. -/
theorem WorldInv.call {h : ℕ} {c : Call} (hw : WorldInv n w) (hn : n + 1 < 2 ^ 64)
    (hs : w.next dbg (.call h c) = some w') :
    WorldInv (n + if c.isPut then 1 else 0) w' := by
  cases hopen : w.sessions h with
  | opened o chan =>
    simp only [World.next, hopen] at hs
    obtain ⟨obj, hobj, hs⟩ := Option.bind_eq_some_iff.mp hs
    obtain ⟨a, ha, hpass⟩ := hw.sessions h o (by rw [hopen]; rfl)
    obtain rfl : obj = a := Option.some.inj (hobj.symm.trans ha)
    have hl := hw.live hobj (by rw [hopen] at hpass; exact hpass)
    obtain ⟨s, hshm, ht, hchan, hinit⟩ := hl.tracked
    have hlen := hw.bound o obj hobj
    rw [← hshm, ← hchan h chan hopen, call_alone] at hs
    rcases call_tracked dbg ht (hw.fits o obj hobj).1 (by omega) h c with
      hb | ⟨rep, s', hcall, ht', hok⟩
    · simp [hb, Outcome.bind] at hs
    · rw [hcall] at hs
      simp only [Outcome.bind_ok, Function.update_self] at hs
      obtain rfl := Option.some.inj hs
      have hmagic : s'.shm.magic = achShmMagicNum := ht'.good.clean.guards.1
      have hself : Live (Function.update w.sessions h (.opened o (s'.chan h))) o
          { obj with shm := s'.shm, log := obj.log ++ [⟨h, c, rep⟩] } := by
        refine { magic := hmagic, pc := hl.pc, sound := hl.sound.concat hok, callers := ?_
                 tracked := ⟨s', rfl, ht', fun g chan' hg => ?_, fun g hg => ?_⟩ }
        · intro e he
          by_cases heh : e.handle = h
          · rw [heh, Function.update_self]
            rfl
          · rw [Function.update_of_ne heh]
            refine hl.callers e ((List.mem_append.mp he).resolve_right fun hmem => heh ?_)
            rw [List.mem_singleton.mp hmem]
        · by_cases hgh : g = h
          · subst hgh
            rw [Function.update_self] at hg
            exact (Session.opened.inj hg).2
          · rw [Function.update_of_ne hgh] at hg
            exact (call_others hcall hgh).trans (hchan g chan' hg)
        · by_cases hgh : g = h
          · rw [hgh, Function.update_self] at hg
            exact absurd rfl hg
          · rw [Function.update_of_ne hgh] at hg
            exact (call_others hcall hgh).trans (hinit g hg)
      have hputs : (puts (obj.log ++ [⟨h, c, rep⟩])).length ≤ n + if c.isPut then 1 else 0 := by
        have := length_frames h c rep
        rw [puts_concat, List.length_append]
        omega
      refine hw.update hobj (Nat.le_add_right _ _) rfl rfl rfl (fun _ => hmagic) (.inr hself)
        (fun o' obj' hne hl' => ?_) (fun g o' hg => ?_) (fun g => ?_) hputs
      · refine hl'.update h _ (by rw [hopen]; exact id) (by rw [hopen]; exact id) fun c he => ?_
        exact absurd (Session.opened.inj he).1.symm hne
      · by_cases hgh : g = h
        · subst hgh
          rw [Function.update_self] at hg ⊢
          exact .inr ⟨(Option.some.inj hg).symm, hmagic⟩
        · exact .inl (Function.update_of_ne hgh _ _)
      · by_cases hgh : g = h
        · subst hgh
          simp
        · rw [Function.update_of_ne hgh]
          exact hw.crashed g
  | _ => simp [World.next, hopen] at hs

/-! ### Whole runs -/

/-- The channel `ach_create` is asked for has two index entries or more, and the length does not
wrap around. -/
def Fits : Act → Prop
  | .create _ _ cnt size _ _ => 2 ≤ cnt ∧ NoWrap cnt size
  | _ => True

instance : (a : Act) → Decidable (Fits a)
  | .create _ _ cnt size _ _ => inferInstanceAs (Decidable (2 ≤ cnt ∧ NoWrap cnt size))
  | .createNext .. | .rewriteNext .. | .attach .. | .attachNext .. | .call .. | .close ..
  | .unlink .. => .isTrue trivial

/-- The step is a put. -/
def isPut : Act → Bool
  | .call _ c => c.isPut
  | _ => false

/-- A call of `ach_create` on a file that was there stays on record. -/
theorem next_rewrites {a : Act} (hs : w.next dbg a = some w')
    (hnew : w'.rewrites = []) : w.rewrites = [] := by
  cases a with
  | create o name cnt size truncate err =>
    simp only [World.next] at hs
    split at hs
    · exact Option.some.inj hs ▸ hnew
    · obtain ⟨-, hs⟩ := Option.ite_none_right_eq_some.mp hs
      exact (Option.some.inj hs ▸ hnew : _)
    · obtain rfl := Option.some.inj hs
      simp at hnew
  | createNext o ok =>
    obtain ⟨obj, -, hs⟩ := Option.bind_eq_some_iff.mp hs
    obtain ⟨obj', -, hs⟩ := Option.bind_eq_some_iff.mp hs
    obtain rfl := Option.some.inj hs
    exact hnew
  | rewriteNext q ok =>
    obtain ⟨r, -, hs⟩ := Option.bind_eq_some_iff.mp hs
    obtain ⟨obj, -, hs⟩ := Option.bind_eq_some_iff.mp hs
    obtain ⟨x, -, hs⟩ := Option.bind_eq_some_iff.mp hs
    obtain rfl := Option.some.inj hs
    exact by simpa using hnew
  | attach h name err =>
    cases hidle : w.sessions h with
    | idle =>
      simp only [World.next, hidle] at hs
      split at hs
      · exact (Option.some.inj hs ▸ hnew : _)
      · exact (Option.some.inj hs ▸ hnew : _)
      · simp at hs
    | _ => simp [World.next, hidle] at hs
  | attachNext h err past =>
    obtain ⟨o, -, hs⟩ := Option.bind_eq_some_iff.mp hs
    obtain ⟨obj, -, hs⟩ := Option.bind_eq_some_iff.mp hs
    obtain ⟨s', -, hs⟩ := Option.bind_eq_some_iff.mp hs
    obtain rfl := Option.some.inj hs
    exact hnew
  | call h c =>
    cases hopen : w.sessions h with
    | opened o chan =>
      simp only [World.next, hopen] at hs
      obtain ⟨obj, -, hs⟩ := Option.bind_eq_some_iff.mp hs
      split at hs
      · exact (Option.some.inj hs ▸ hnew : _)
      · simp at hs
      · exact (Option.some.inj hs ▸ hnew : _)
    | _ => simp [World.next, hopen] at hs
  | close h munmap close =>
    cases hopen : w.sessions h with
    | opened o chan =>
      simp only [World.next, hopen] at hs
      obtain ⟨obj, -, rfl⟩ := Option.map_eq_some_iff.mp hs
      split_ifs at hnew <;> exact hnew
    | _ => simp [World.next, hopen] at hs
  | unlink name err =>
    obtain rfl := Option.some.inj hs
    unfold World.achUnlink at hnew
    split at hnew
    · exact hnew
    · split at hnew <;> exact hnew

theorem run_rewrites (hnew : w'.rewrites = []) : ∀ {as : List Act} {w : World},
    w.run dbg as = some w' → w.rewrites = [] := by
  intro as
  induction as with
  | nil =>
    intro w hrun
    obtain rfl := Option.some.inj hrun
    exact hnew
  | cons a as ih =>
    intro w hrun
    obtain ⟨w₁, hs, hrun⟩ := Option.bind_eq_some_iff.mp hrun
    exact next_rewrites hs (ih hrun)

/-- **The step lemma.** -/
theorem WorldInv.next {a : Act} (hw : WorldInv n w) (hfit : Fits a)
    (hnew : w'.rewrites = []) (hn : n + 1 < 2 ^ 64) (hs : w.next dbg a = some w') :
    WorldInv (n + if isPut a then 1 else 0) w' := by
  cases a with
  | create o name cnt size truncate err => exact hw.create hfit.1 hfit.2 hnew hs
  | createNext o ok => exact hw.createNext hs
  | rewriteNext p ok =>
    obtain ⟨r, hr, hs⟩ := Option.bind_eq_some_iff.mp hs
    have hnone := next_rewrites (a := .rewriteNext p ok)
      (Option.bind_eq_some_iff.mpr ⟨r, hr, hs⟩) hnew
    simp [hnone] at hr
  | attach h name err => exact hw.attach hs
  | attachNext h err past => exact hw.attachNext hs
  | call h c => exact hw.call hn hs
  | close h munmap close => exact hw.close hs
  | unlink name err => exact hw.unlink hs

/-- **The run lemma.** -/
theorem WorldInv.run :
    ∀ {as : List Act} {n : ℕ} {w : World}, WorldInv n w → (∀ a ∈ as, Fits a) →
      w'.rewrites = [] → n + as.countP isPut < 2 ^ 64 - 1 → w.run dbg as = some w' →
      WorldInv (n + as.countP isPut) w' := by
  intro as
  induction as with
  | nil =>
    intro n w hw _ _ _ hrun
    obtain rfl := Option.some.inj hrun
    exact hw
  | cons a as ih =>
    intro n w hw hfit hnew hn hrun
    obtain ⟨w₁, hs, hrun⟩ := Option.bind_eq_some_iff.mp hrun
    rw [List.countP_cons] at hn ⊢
    have hw₁ := hw.next (hfit a List.mem_cons_self) (run_rewrites hnew hrun) (by omega) hs
    have := ih hw₁ (fun b hb => hfit b (List.mem_cons_of_mem a hb)) hnew (by omega) hrun
    rwa [Nat.add_assoc, Nat.add_comm (if isPut a then 1 else 0)] at this

end

/-- **Delivery by name.** From no names, after any steps of any processes in any order, dying
anywhere in `ach_create` and `ach_open`, in which no `ach_create` came to a file that was there: the
calls made on each file were made by handles that were open on it, and keep the delivery contract; a
handle that is open is on a block that is whole, as its `ach_create` was asked for, it is where its
own calls have brought it, and no call on it crashes. -/
theorem names_deliver (dbg : Bool) {as : List Act} (hfit : ∀ a ∈ as, Fits a)
    (hn : as.countP isPut < 2 ^ 64 - 1) {w : World} (hrun : World.empty.run dbg as = some w)
    (hnew : w.rewrites = []) :
    (∀ o obj, w.objs o = some obj →
      (∀ h, Contract h obj.log) ∧ ∀ e ∈ obj.log, Uses o (w.sessions e.handle)) ∧
    ∀ h o chan, w.sessions h = .opened o chan → ∃ obj, w.objs o = some obj ∧
      GuardsOk obj.shm ∧ obj.shm.indexCnt = obj.cnt ∧ obj.shm.dataSize = obj.cnt * obj.size ∧
      chan.seqNum = position h obj.log ∧
      ∀ c, (⟨obj.shm, fun _ => chan⟩ : Sys ℕ).call dbg h c = .block ∨
        ∃ p, (⟨obj.shm, fun _ => chan⟩ : Sys ℕ).call dbg h c = .ok p := by
  have hw : WorldInv (0 + as.countP isPut) w := worldInv_empty.run hfit hnew (by omega) hrun
  refine ⟨fun o obj hobj => ?_, fun h o chan hopen => ?_⟩
  · rcases hw.objs o obj hobj with hm | hl
    · rw [hm.log]
      refine ⟨fun h => Sound.contract h fun pre e post he => ?_, by simp⟩
      simp at he
    · exact ⟨fun h => hl.sound.contract h, hl.callers⟩
  · obtain ⟨obj, hobj, hpass⟩ := hw.sessions h o (by rw [hopen]; rfl)
    rw [hopen] at hpass
    obtain ⟨s, hshm, ht, hchan, -⟩ := (hw.live hobj hpass).tracked
    have hg := ht.good
    have hlen := hw.bound o obj hobj
    have hh := hchan h chan hopen
    refine ⟨obj, hobj, hshm ▸ hg.clean.guards, hshm ▸ hg.indexCnt, hshm ▸ hg.dataSize,
      hh ▸ ht.seqNum h, fun c => ?_⟩
    rw [← hshm, ← hh, call_alone]
    rcases call_tracked dbg ht (hw.fits o obj hobj).1 (by omega) h c with hb | ⟨rep, s', hcall, -⟩
    · exact .inl (by rw [hb]; rfl)
    · exact .inr ⟨_, by rw [hcall]; rfl⟩

/-- `ach_open`, step by step. -/
def openSteps (h : ℕ) (name : List UInt8) : List Act :=
  [.attach h name none, .attachNext h none false, .attachNext h none false,
    .attachNext h none false]

/-- Two `ach_open` come too early. A third one and a put follow; then the name goes to another file,
and the first one is read. -/
def sampleActs : List Act :=
  [.create 0 [97] 2 3 false none, .attach 7 [97] none, .attachNext 7 none false,
    .createNext 0 true, .createNext 0 true, .attach 8 [97] none, .attachNext 8 none false] ++
  List.replicate 15 (.createNext 0 true) ++ openSteps 5 [97] ++
  [.call 5 (.put (some fun i => i.toUInt8) 3), .unlink [97] none, .create 1 [97] 2 4 true none] ++
  List.replicate 19 (.createNext 1 true) ++ openSteps 6 [97] ++
  [.call 6 (.put (some fun _ => 9) 4), .call 5 (.get 3 false ⟨false, false, false⟩ [])]

theorem names_deliver_sample : ∃ w, World.empty.run true sampleActs = some w ∧
    (w.objs 0).map (fun obj => received 5 obj.log) = some [(1, [0, 1, 2])] ∧
    ∀ o obj, w.objs o = some obj → (∀ h, Contract h obj.log) := by
  have hvals : (World.empty.run true sampleActs).map
      (fun w => ((w.objs 0).map fun obj => received 5 obj.log, w.rewrites.length)) =
      some (some [(1, [0, 1, 2])], 0) := by
    decide +kernel
  obtain ⟨w, hw, heq⟩ := Option.map_eq_some_iff.mp hvals
  obtain ⟨hgot, hnew⟩ := Prod.mk.inj heq
  exact ⟨w, hw, hgot, fun o obj hobj =>
    ((names_deliver true (show ∀ a ∈ sampleActs, Fits a by decide) (by decide) hw
      (List.length_eq_zero_iff.mp hnew)).1 o obj hobj).1⟩

end Ach.Shm.Contract
