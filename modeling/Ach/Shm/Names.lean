import Ach.Shm.Contract

/-! # Names

The name is what the processes agree on. Between two unlinks of a name one `ach_create` at most
makes a file under it, and every `ach_open` of it comes to that file, as does every `ach_create`
with `attr->truncate` (`rendezvous`). The other side: an `ach_create` that fails after `shm_open`,
or whose process dies before the magic number is written, leaves a file behind that nobody can open,
and without `attr->truncate` the name is taken until it is unlinked (`blocked`). `create_alone` and
`open_alone` tie the steps of the machine to `achCreate` and `achOpen`. -/

namespace Ach.Shm.Names

open Ach.Lib.Run Ach.Lib.Word
open Ach.Channel.Types Ach.Channel.Create Ach.Channel.Runs
open Ach.Shm.Machine Ach.Shm.Contract

/-! ### One process alone -/

/-- What the system calls of an `ach_create` answer, step by step. -/
def createOks (env : CreateEnv) : List Bool :=
  [(retryIntr env.ftruncate achIntrRetry 0).isNone, env.mmap] ++
    List.replicate 15 env.pthreadInit ++
    [env.munmap, (retryIntr env.close achIntrRetry 0).isNone]

/-- The steps of an `ach_create` one after the other, until it ends. -/
def createAll (dbg : Bool) : List Bool → Obj → Obj
  | [], obj => obj
  | ok :: oks, obj =>
    match obj.createNext dbg ok with
    | some obj' => createAll dbg oks obj'
    | none => obj

section
variable {dbg : Bool} {obj obj' : Obj} {ok : Bool} {oks : List Bool}

theorem createAll_cons (h : obj.createNext dbg ok = some obj') :
    createAll dbg (ok :: oks) obj = createAll dbg oks obj' := by
  rw [createAll, h]

theorem createAll_done {r : AchStatus} (h : obj.pc = .done r) : createAll dbg oks obj = obj := by
  cases oks with
  | nil => rfl
  | cons ok oks => simp [createAll, Obj.createNext, h]

/-- The block is written. -/
theorem createAll_init {file : List UInt8} {cnt size len : ℕ} :
    ∀ {todo past : List Stmt}, past ++ todo = initStmts cnt size → todo ≠ [] →
      createAll dbg (List.replicate todo.length true ++ oks)
        ⟨file, cnt, size, .init todo, len, past.foldl (fun s st => st.run s) zeroBlock, []⟩ =
      createAll dbg oks ⟨file, cnt, size, .munmap, len, created cnt size, []⟩ := by
  intro todo
  induction todo with
  | nil => exact fun _ h => absurd rfl h
  | cons st todo ih =>
    intro past hpast _
    have hrun : st.run (past.foldl (fun s st => st.run s) zeroBlock) =
        (past ++ [st]).foldl (fun s st => st.run s) zeroBlock := by
      rw [List.foldl_append]
      rfl
    have hnext : Obj.createNext dbg true
        ⟨file, cnt, size, .init (st :: todo), len,
          past.foldl (fun s st => st.run s) zeroBlock, []⟩ =
        some ⟨file, cnt, size, if todo.isEmpty then .munmap else .init todo, len,
          (past ++ [st]).foldl (fun s st => st.run s) zeroBlock, []⟩ := by
      rw [← hrun]
      cases st with
      | store f => rfl
      | pthread => rfl
      | assertLen =>
        have hok : ¬ (dbg = true ∧ ¬ LenOk (past.foldl (fun s st => st.run s) zeroBlock)) :=
          fun h => h.2 (lenOk_of_before hpast)
        simp only [Obj.createNext, hok, if_false]
        rfl
    have hpast' : (past ++ [st]) ++ todo = initStmts cnt size := by
      rw [List.append_assoc]
      exact hpast
    rw [List.length_cons, List.replicate_succ, List.cons_append, createAll_cons hnext]
    cases todo with
    | nil =>
      rw [List.append_nil] at hpast'
      rw [hpast', foldl_initStmts]
      rfl
    | cons st' todo => exact ih hpast' (by simp)

end

/-- The assert of `initBlock` holds. -/
theorem initBlock_done (dbg : Bool) {env : CreateEnv} (h : env.pthreadInit = true) (cnt size : ℕ) :
    initBlock dbg env cnt size = .ok (.ok (created cnt size)) := by
  have hlen : wadd (wadd (wadd sizeofHeader (wmul (created cnt size).indexFree sizeofIndex))
      (created cnt size).dataFree) (3 * 8) = (created cnt size).len := rfl
  simp only [initBlock, h, Bool.true_eq_false, if_false, hlen, ne_eq, not_true_eq_false, and_false]

/-- **`ach_create` without interference** does what `achCreate` does. -/
theorem create_alone (dbg : Bool) (env : CreateEnv) {name : List UInt8} (file : List UInt8)
    (cnt size : ℕ) (hname : channelNameOk name = true)
    (hopen : retryIntr env.shmOpen achIntrRetry 0 = none) :
    ∃ r, achCreate dbg env name cnt size false = .ok r ∧
      match r, createAll dbg (createOks env) ⟨file, cnt, size, .ftruncate, 0, zeroBlock, []⟩ with
      | .ok shm, obj => obj.pc = .done .ok ∧ obj.shm = shm
      | .error e, obj => obj.pc = .done e := by
  unfold achCreate createOks
  simp only [hname, hopen, Bool.false_eq_true, if_false, Bool.true_eq_false, List.cons_append,
    List.nil_append]
  by_cases htrunc : (retryIntr env.ftruncate achIntrRetry 0).isSome ∨ 2 ^ 63 ≤ createLen cnt size
  · refine ⟨.error .failedSyscall, by rw [if_pos htrunc], ?_⟩
    have hstep : Obj.createNext dbg (retryIntr env.ftruncate achIntrRetry 0).isNone
        ⟨file, cnt, size, .ftruncate, 0, zeroBlock, []⟩ =
        some ⟨file, cnt, size, .done .failedSyscall, 0, zeroBlock, []⟩ := by
      refine if_pos (htrunc.imp_left fun h => ?_)
      cases hr : retryIntr env.ftruncate achIntrRetry 0 with
      | none => simp [hr] at h
      | some e => rfl
    rw [createAll_cons hstep, createAll_done rfl]
  obtain ⟨hnone, hlen⟩ := not_or.mp htrunc
  have hsized : Obj.createNext dbg (retryIntr env.ftruncate achIntrRetry 0).isNone
      ⟨file, cnt, size, .ftruncate, 0, zeroBlock, []⟩ =
      some ⟨file, cnt, size, .mmap, createLen cnt size, zeroBlock, []⟩ := by
    refine if_neg (not_or.mpr ⟨?_, hlen⟩)
    cases hr : retryIntr env.ftruncate achIntrRetry 0 with
    | none => simp
    | some e => simp [hr] at hnone
  rw [if_neg htrunc, createAll_cons hsized]
  cases hmmap : env.mmap with
  | false =>
    refine ⟨.error .failedSyscall, rfl, ?_⟩
    rw [createAll_cons rfl, createAll_done rfl]
    rfl
  | true =>
    have hmapped : Obj.createNext dbg true
        ⟨file, cnt, size, .mmap, createLen cnt size, zeroBlock, []⟩ =
        some ⟨file, cnt, size, .init (initStmts cnt size), createLen cnt size, zeroBlock, []⟩ := rfl
    rw [createAll_cons hmapped]
    cases hinit : env.pthreadInit with
    | false =>
      refine ⟨.error .failedSyscall, by simp [initBlock, hinit], ?_⟩
      -- two stores come first
      rw [List.replicate_succ, List.replicate_succ, List.replicate_succ, List.cons_append,
        List.cons_append, List.cons_append, createAll_cons rfl, createAll_cons rfl,
        createAll_cons rfl, createAll_done rfl]
      rfl
    | true =>
      rw [initBlock_done dbg hinit]
      have hall : createAll dbg (List.replicate 15 true ++
          [env.munmap, (retryIntr env.close achIntrRetry 0).isNone])
          ⟨file, cnt, size, .init (initStmts cnt size), createLen cnt size, zeroBlock, []⟩ = _ :=
        createAll_init (List.nil_append _) (by simp [initStmts])
      rw [hall]
      cases hmunmap : env.munmap with
      | false =>
        refine ⟨.error .failedSyscall, by simp, ?_⟩
        rw [createAll_cons rfl, createAll_done rfl]
        rfl
      | true =>
        rw [createAll_cons rfl]
        cases hclose : retryIntr env.close achIntrRetry 0 with
        | none => exact ⟨.ok (created cnt size), by simp, rfl, rfl⟩
        | some e => exact ⟨.error .failedSyscall, by simp, rfl⟩

/-- What the system calls of an `ach_open` answer, step by step. -/
def openErrs (env : OpenEnv) : List (Option Errno) :=
  [if env.mmap then none else some .other, env.munmap <|> env.remap, none]

/-- The steps of an `ach_open` one after the other, on a file that stays as it is. -/
def openAll (len : ℕ) (shm : AchHeader) (past : Bool) : List (Option Errno) → Session → Session
  | [], s => s
  | err :: errs, s =>
    match s.attachNext len shm err past with
    | some s' => openAll len shm past errs s'
    | none => s

/-- **`ach_open` without interference** does what `achOpen` does. -/
theorem open_alone (env : OpenEnv) {name : List UInt8} {shm : AchHeader} {len : ℕ} (o : ℕ)
    (hname : channelNameOk name = true) (hopen : retryIntr env.shmOpen achIntrRetry 0 = none)
    (hlen : len ≠ 0) :
    openAll len shm env.past (openErrs env) (.magic o) =
      match achOpen env name false shm with
      | .ok (.ok chan) => .opened o chan
      | .ok (.error r) => .failed r
      | _ => .sigsegv := by
  unfold achOpen openErrs
  simp only [hname, hopen, Bool.false_eq_true, if_false, Bool.true_eq_false]
  by_cases hmagic : shm.magic = achShmMagicNum
  · cases hmmap : env.mmap with
    | false => simp [openAll, Session.attachNext]
    | true =>
      cases hmunmap : env.munmap with
      | some e => simp [openAll, Session.attachNext, hlen, hmagic]
      | none =>
        cases hremap : env.remap with
        | some e => simp [openAll, Session.attachNext, hlen, hmagic]
        | none =>
          have hmap : (openedChan shm).len = openLen shm := rfl
          cases hcheck : checkMapped (openLen shm) env.past shm with
          | ok r =>
            cases r <;>
              simp [openAll, Session.attachNext, hlen, hmagic, hmap, hcheck, Outcome.bind, initChan]
          | _ => simp [openAll, Session.attachNext, hlen, hmagic, hmap, hcheck, Outcome.bind]
  · cases hmmap : env.mmap <;> simp [openAll, Session.attachNext, hlen, hmagic]

/-! ### One channel for each name -/

/-- The step takes the name of the file away. -/
def Unlinks (file : List UInt8) : Act → Prop
  | .unlink name none => shmName name = file
  | _ => False

instance (file : List UInt8) : (a : Act) → Decidable (Unlinks file a)
  | .unlink name none => inferInstanceAs (Decidable (shmName name = file))
  | .unlink _ (some _) | .create .. | .createNext .. | .rewriteNext .. | .attach ..
  | .attachNext .. | .call .. | .close .. => .isFalse id

/-- The number is one of a file that was made under the name. -/
def IsFile (w : World) (file : List UInt8) (o : ℕ) : Prop :=
  (w.objs o).map Obj.file = some file

/-- Every name stands for a file that was made under it. -/
def Named (w : World) : Prop := ∀ file o, w.names file = some o → IsFile w file o

/-- What was made and opened under the name since is the file that has it now. -/
structure Agrees (file : List UInt8) (w₀ w : World) : Prop where
  keeps : ∀ o, w₀.names file = some o → w.names file = some o
  made : ∀ o, w₀.objs o = none → IsFile w file o →
    w.names file = some o ∧ w₀.names file = none
  opened : ∀ h o, w₀.sessions h = .idle → (w.sessions h).obj = some o → IsFile w file o →
    w.names file = some o
  rewritten : ∀ (p : ℕ) (r : Rewrite), w₀.rewrites[p]? = none → w.rewrites[p]? = some r →
    IsFile w file r.obj → w.names file = some r.obj

/-- **The names and the files stay**, and a handle or an `ach_create` that comes to a file has found
it under a name. -/
structure Stays (w w' : World) : Prop where
  names : w'.names = w.names
  files : ∀ o, (w'.objs o).map Obj.file = (w.objs o).map Obj.file
  sessions : ∀ h o, (w'.sessions h).obj = some o →
    (w.sessions h).obj = some o ∨ ∃ file, w.names file = some o
  rewrites : ∀ (p : ℕ) (r : Rewrite), w'.rewrites[p]? = some r →
    (∃ r' : Rewrite, w.rewrites[p]? = some r' ∧ r'.obj = r.obj) ∨ ∃ file, w.names file = some r.obj

theorem Stays.refl (w : World) : Stays w w where
  names := rfl
  files _ := rfl
  sessions _ _ ho := .inl ho
  rewrites _ r hr := .inl ⟨r, hr, rfl⟩

/-- A step that changes one file only. -/
theorem Stays.obj {w : World} {o : ℕ} {obj obj' : Obj} (ho : w.objs o = some obj)
    (hfile : obj'.file = obj.file) :
    Stays w { w with objs := Function.update w.objs o (some obj') } where
  names := rfl
  files o' := by
    by_cases he : o' = o
    · subst he
      simp [ho, hfile]
    · simp [Function.update_of_ne he]
  sessions _ _ ho := .inl ho
  rewrites _ r hr := .inl ⟨r, hr, rfl⟩

/-- And a step that changes one handle only. -/
theorem Stays.session {w w' : World} {h : ℕ} {s' : Session} (hw : Stays w w')
    (hsame : w'.sessions = w.sessions)
    (hstep : ∀ o, s'.obj = some o → (w.sessions h).obj = some o ∨ ∃ file, w.names file = some o) :
    Stays w { w' with sessions := Function.update w'.sessions h s' } where
  names := hw.names
  files := hw.files
  sessions g o ho := by
    by_cases hg : g = h
    · subst hg
      exact hstep o (by simpa using ho)
    · exact .inl (by simpa [Function.update_of_ne hg, hsame] using ho)
  rewrites := hw.rewrites

/-- **What a step does to the names:** a free name is given to a new file, a name is taken away, or
the names and the files stay. -/
theorem next_shape {dbg : Bool} {w w' : World} {a : Act} (hs : w.next dbg a = some w') :
    (∃ o obj, w.names obj.file = none ∧ w.objs o = none ∧ w' =
      { w with
        names := Function.update w.names obj.file (some o)
        objs := Function.update w.objs o (some obj) }) ∨
    (∃ name, a = .unlink name none ∧ w' =
      { w with names := Function.update w.names (shmName name) none }) ∨
    Stays w w' := by
  cases a with
  | create o name cnt size truncate err =>
    simp only [World.next] at hs
    split at hs
    · exact .inr (.inr (Option.some.inj hs ▸ .refl w))
    · rename_i hfree
      obtain ⟨hnone, hs⟩ := Option.ite_none_right_eq_some.mp hs
      exact .inl ⟨o, ⟨shmName name, cnt, size, .ftruncate, 0, zeroBlock, []⟩, hfree,
        Option.isNone_iff_eq_none.mp hnone, (Option.some.inj hs).symm⟩
    · rename_i o' _ hthere
      obtain rfl := Option.some.inj hs
      refine .inr (.inr { Stays.refl w with rewrites := fun p r hr => ?_ })
      rw [List.getElem?_append] at hr
      split_ifs at hr
      · exact .inl ⟨r, hr, rfl⟩
      · obtain rfl := List.mem_singleton.mp (List.mem_of_getElem? hr)
        exact .inr ⟨_, hthere⟩
  | createNext o ok =>
    obtain ⟨obj, ho, hs⟩ := Option.bind_eq_some_iff.mp hs
    obtain ⟨obj', hnext, hs⟩ := Option.bind_eq_some_iff.mp hs
    obtain rfl := Option.some.inj hs
    exact .inr (.inr (.obj ho (createNext_same hnext).1))
  | rewriteNext p ok =>
    obtain ⟨r, hr, hs⟩ := Option.bind_eq_some_iff.mp hs
    obtain ⟨obj, ho, hs⟩ := Option.bind_eq_some_iff.mp hs
    obtain ⟨q, hq, hs⟩ := Option.bind_eq_some_iff.mp hs
    obtain rfl := Option.some.inj hs
    obtain ⟨obj', -, rfl⟩ := Option.map_eq_some_iff.mp hq
    have hobj : Stays w { w with
        objs := Function.update w.objs r.obj
          (some { obj with len := obj'.len, shm := obj'.shm }) } := .obj ho rfl
    refine .inr (.inr { hobj with rewrites := fun p' r' hr' => .inl ?_ })
    by_cases hp : p = p'
    · subst hp
      rw [List.getElem?_set_self (List.getElem?_eq_some_iff.mp hr).1] at hr'
      obtain rfl := Option.some.inj hr'
      exact ⟨r, hr, rfl⟩
    · rw [List.getElem?_set_ne hp] at hr'
      exact ⟨r', hr', rfl⟩
  | attach h name err =>
    cases hidle : w.sessions h with
    | idle =>
      simp only [World.next, hidle] at hs
      split at hs
      · obtain rfl := Option.some.inj hs
        exact .inr (.inr ((Stays.refl w).session rfl (by simp [Session.obj])))
      · rename_i o _ hname
        obtain rfl := Option.some.inj hs
        refine .inr (.inr ((Stays.refl w).session rfl fun o' ho' => .inr ⟨shmName name, ?_⟩))
        rw [hname]
        exact ho'
      · simp at hs
    | _ => simp [World.next, hidle] at hs
  | attachNext h err past =>
    obtain ⟨o, ho, hs⟩ := Option.bind_eq_some_iff.mp hs
    obtain ⟨obj, -, hs⟩ := Option.bind_eq_some_iff.mp hs
    obtain ⟨s', hnext, hs⟩ := Option.bind_eq_some_iff.mp hs
    obtain rfl := Option.some.inj hs
    refine .inr (.inr ((Stays.refl w).session rfl fun o' ho' => .inl ?_))
    rcases attachNext_cases hnext with ⟨hnone, -⟩ | ⟨o₁, ⟨h₁, rfl, -⟩ | ⟨h₁, rfl⟩ |
      ⟨chan, h₁, rfl⟩⟩
    · simp [hnone] at ho'
    all_goals
      rw [h₁]
      exact ho'
  | call h c =>
    cases hopen : w.sessions h with
    | opened o chan =>
      simp only [World.next, hopen] at hs
      obtain ⟨obj, ho, hs⟩ := Option.bind_eq_some_iff.mp hs
      split at hs
      · rename_i rep s' _
        obtain rfl := Option.some.inj hs
        have hobj : Stays w { w with
          objs := Function.update w.objs o
            (some { obj with shm := s'.shm, log := obj.log ++ [⟨h, c, rep⟩] }) } := .obj ho rfl
        refine .inr (.inr (hobj.session rfl fun o' ho' => .inl ?_))
        rw [hopen]
        exact ho'
      · simp at hs
      · obtain rfl := Option.some.inj hs
        exact .inr (.inr ((Stays.refl w).session rfl (by simp [Session.obj])))
    | _ => simp [World.next, hopen] at hs
  | close h munmap close =>
    cases hopen : w.sessions h with
    | opened o chan =>
      simp only [World.next, hopen] at hs
      obtain ⟨obj, -, hs⟩ := Option.map_eq_some_iff.mp hs
      split_ifs at hs with hc
      · exact .inr (.inr (hs ▸ .refl w))
      · obtain rfl := hs
        refine .inr (.inr ((Stays.refl w).session rfl fun o' ho' => .inl ?_))
        rw [hopen]
        exact ho'
    | _ => simp [World.next, hopen] at hs
  | unlink name err =>
    have hs : (w.achUnlink name err).2 = w' := Option.some.inj hs
    unfold World.achUnlink shmfileForChannelName at hs
    rw [if_neg (lt_irrefl _)] at hs
    cases hname : channelNameOk name with
    | false =>
      obtain rfl : w = w' := by simpa [hname] using hs
      exact .inr (.inr (.refl w))
    | true =>
      simp only [hname, Bool.true_eq_false, if_false] at hs
      cases err with
      | some e => exact .inr (.inr (hs ▸ .refl w))
      | none =>
        cases hfile : w.names (shmName name) with
        | none =>
          obtain rfl : w = w' := by simpa [World.shmOpen, hfile] using hs
          exact .inr (.inr (.refl w))
        | some o =>
          exact .inr (.inl ⟨name, rfl, by simpa [World.shmOpen, hfile] using hs.symm⟩)

/-- The file with a number is the new one, or was there. -/
theorem isFile_update {w : World} {names : List UInt8 → Option ℕ} {file : List UInt8} {o o' : ℕ}
    {obj : Obj} : IsFile { w with
      names := names, objs := Function.update w.objs o (some obj) } file o' ↔
      (o' = o ∧ obj.file = file) ∨ (o' ≠ o ∧ IsFile w file o') := by
  unfold IsFile
  by_cases he : o' = o
  · subst he
    simp
  · simp [he]

theorem Named.next {dbg : Bool} {w w' : World} {a : Act} (hw : Named w)
    (hs : w.next dbg a = some w') : Named w' := by
  intro file o ho
  rcases next_shape hs with ⟨o', obj, -, hnew, rfl⟩ | ⟨name, -, rfl⟩ | hstay
  · refine isFile_update.mpr ?_
    by_cases hf : file = obj.file
    · simp only [hf, Function.update_self, Option.some.injEq] at ho
      exact .inl ⟨ho.symm, hf.symm⟩
    · simp only [Function.update_of_ne hf] at ho
      have hold := hw file o ho
      refine .inr ⟨fun he => ?_, hold⟩
      simp [IsFile, he, hnew] at hold
  · by_cases hf : file = shmName name
    · simp [hf] at ho
    · simp only [Function.update_of_ne hf] at ho
      exact hw file o ho
  · rw [hstay.names] at ho
    exact (hstay.files o).trans (hw file o ho)

/-- **The step lemma.** -/
theorem Agrees.next {dbg : Bool} {file : List UInt8} {w₀ w w' : World} {a : Act} (hw : Named w)
    (ha : Agrees file w₀ w) (hno : ¬ Unlinks file a) (hs : w.next dbg a = some w') :
    Agrees file w₀ w' := by
  rcases next_shape hs with ⟨o, obj, hfree, hnew, rfl⟩ | ⟨name, rfl, rfl⟩ | hstay
  · by_cases hfile : obj.file = file
    · -- the name was free, so nothing was made or opened under it since
      subst hfile
      have hnone : ∀ o, w₀.names obj.file ≠ some o := fun o' ho' => by
        simp [ha.keeps o' ho'] at hfree
      refine ⟨fun o' ho' => absurd ho' (hnone o'), fun o' h0 hf => ?_, fun h o' h0 ho' hf => ?_,
        fun p r h0 hr hf => ?_⟩
      · rcases isFile_update.mp hf with ⟨rfl, -⟩ | ⟨-, hf⟩
        · exact ⟨Function.update_self .., Option.eq_none_iff_forall_ne_some.mpr hnone⟩
        · simp [(ha.made o' h0 hf).1] at hfree
      · rcases isFile_update.mp hf with ⟨rfl, -⟩ | ⟨-, hf⟩
        · exact Function.update_self ..
        · simp [ha.opened h o' h0 ho' hf] at hfree
      · rcases isFile_update.mp hf with ⟨he, -⟩ | ⟨-, hf⟩
        · exact he ▸ Function.update_self ..
        · simp [ha.rewritten p r h0 hr hf] at hfree
    · have hother : Function.update w.names obj.file (some o) file = w.names file :=
        Function.update_of_ne (Ne.symm hfile) _ _
      have hold : ∀ {o'}, IsFile { w with
          names := Function.update w.names obj.file (some o)
          objs := Function.update w.objs o (some obj) } file o' → IsFile w file o' :=
        fun hf => ((isFile_update.mp hf).resolve_left fun he => hfile he.2).2
      exact ⟨fun o' ho' => hother.trans (ha.keeps o' ho'),
        fun o' h0 hf => (ha.made o' h0 (hold hf)).imp_left hother.trans,
        fun h o' h0 ho' hf => hother.trans (ha.opened h o' h0 ho' (hold hf)),
        fun p r h0 hr hf => hother.trans (ha.rewritten p r h0 hr (hold hf))⟩
  · have hother : Function.update w.names (shmName name) none file = w.names file :=
      Function.update_of_ne (Ne.symm hno) _ _
    exact ⟨fun o ho => hother.trans (ha.keeps o ho),
      fun o h0 hf => (ha.made o h0 hf).imp_left hother.trans,
      fun h o h0 ho hf => hother.trans (ha.opened h o h0 ho hf),
      fun p r h0 hr hf => hother.trans (ha.rewritten p r h0 hr hf)⟩
  · have hold : ∀ {o}, IsFile w' file o → IsFile w file o := fun {o} hf =>
      (hstay.files o).symm.trans hf
    -- what was found under a name was found under its own
    have hfound : ∀ {o f}, w.names f = some o → IsFile w file o → w.names file = some o := by
      intro o f hname hf
      obtain rfl : f = file := Option.some.inj ((hw f o hname).symm.trans hf)
      exact hname
    have hnames : w'.names file = w.names file := congrFun hstay.names file
    refine ⟨fun o ho => hnames.trans (ha.keeps o ho), fun o h0 hf => ?_, fun h o h0 ho hf => ?_,
      fun p r h0 hr hf => ?_⟩
    · exact (ha.made o h0 (hold hf)).imp_left hnames.trans
    · rw [hnames]
      rcases hstay.sessions h o ho with ho | ⟨f, hname⟩
      · exact ha.opened h o h0 ho (hold hf)
      · exact hfound hname (hold hf)
    · rw [hnames]
      rcases hstay.rewrites p r hr with ⟨r', hr', he⟩ | ⟨f, hname⟩
      · exact he ▸ ha.rewritten p r' h0 hr' (he ▸ hold hf)
      · exact hfound hname (hold hf)

/-- **The run lemma.** -/
theorem Agrees.run {dbg : Bool} {file : List UInt8} {w₀ w' : World} :
    ∀ {as : List Act} {w : World}, (∀ a ∈ as, ¬ Unlinks file a) → Named w → Agrees file w₀ w →
      w.run dbg as = some w' → Agrees file w₀ w' := by
  intro as
  induction as with
  | nil =>
    intro w _ _ ha hrun
    obtain rfl := Option.some.inj hrun
    exact ha
  | cons a as ih =>
    intro w hno hw ha hrun
    obtain ⟨w₁, hs, hrun⟩ := Option.bind_eq_some_iff.mp hrun
    exact ih (fun c hc => hno c (List.mem_cons_of_mem a hc)) (hw.next hs)
      (ha.next hw (hno a List.mem_cons_self) hs) hrun

theorem Named.run {dbg : Bool} {w' : World} : ∀ {as : List Act} {w : World}, Named w →
    w.run dbg as = some w' → Named w' := by
  intro as
  induction as with
  | nil =>
    intro w hw hrun
    obtain rfl := Option.some.inj hrun
    exact hw
  | cons a as ih =>
    intro w hw hrun
    obtain ⟨w₁, hs, hrun⟩ := Option.bind_eq_some_iff.mp hrun
    exact ih (hw.next hs) hrun

theorem named_empty : Named .empty := by
  intro file o ho
  simp [World.empty] at ho

theorem Agrees.refl (file : List UInt8) (w : World) : Agrees file w w where
  keeps _ := id
  made o h0 hf := by simp [IsFile, h0] at hf
  opened h o h0 ho := by simp [h0, Session.obj] at ho
  rewritten p r h0 hr := by simp [h0] at hr

/-- **One file for each name.** Take any reachable state, and any steps after it that do not unlink
the name. If the name stands for a file, it still does. No more than one file is made under it, none
at all if it stood for one; and every handle, and every `ach_create` with `attr->truncate`, that
comes to a file of that name meanwhile is on that one. -/
theorem rendezvous (dbg : Bool) {as bs : List Act} {w w' : World}
    (hrun : World.empty.run dbg as = some w) (hrun' : w.run dbg bs = some w') {file : List UInt8}
    (hno : ∀ a ∈ bs, ¬ Unlinks file a) :
    (∀ o, w.names file = some o → w'.names file = some o) ∧
    (∀ o obj, w.objs o = none → w'.objs o = some obj → obj.file = file →
      w'.names file = some o ∧ w.names file = none) ∧
    (∀ h o obj, w.sessions h = .idle → (w'.sessions h).obj = some o → w'.objs o = some obj →
      obj.file = file → w'.names file = some o) ∧
    ∀ (p : ℕ) (r : Rewrite) (obj : Obj), w.rewrites[p]? = none → w'.rewrites[p]? = some r →
      w'.objs r.obj = some obj → obj.file = file → w'.names file = some r.obj := by
  have ha := Agrees.run hno (named_empty.run hrun) (.refl file w) hrun'
  have hfile : ∀ {o obj}, w'.objs o = some obj → obj.file = file → IsFile w' file o :=
    fun hobj hf => by rw [IsFile, hobj, Option.map_some, hf]
  exact ⟨ha.keeps, fun o obj h0 hobj hf => ha.made o h0 (hfile hobj hf),
    fun h o obj h0 ho hobj hf => ha.opened h o h0 ho (hfile hobj hf),
    fun p r obj h0 hr hobj hf => ha.rewritten p r h0 hr (hfile hobj hf)⟩

/-- One process makes the file, another comes to it with `attr->truncate`, a third opens it. -/
def sharedActs : List Act :=
  [.create 0 [97] 2 3 false none, .createNext 0 true, .create 1 [97] 1 8 true none,
    .rewriteNext 0 true, .create 1 [97] 2 3 false none, .attach 5 [97] none]

theorem rendezvous_sample : ∃ w w', World.empty.run true (sharedActs.take 1) = some w ∧
    w.run true (sharedActs.drop 1) = some w' ∧ w'.names (shmName [97]) = some 0 ∧
    (w'.sessions 5).obj = some 0 ∧ w'.rewrites.map Rewrite.obj = [0] := by
  have hvals : (World.empty.run true (sharedActs.take 1)).map
      (fun w => (w.names (shmName [97]), (w.run true (sharedActs.drop 1)).map
        fun w' => ((w'.sessions 5).obj, w'.rewrites.map Rewrite.obj))) =
      some (some 0, some (some 0, [0])) := by decide +kernel
  obtain ⟨w, hw, heq⟩ := Option.map_eq_some_iff.mp hvals
  obtain ⟨hname, hrun⟩ := Prod.mk.inj heq
  obtain ⟨w', hw', heq'⟩ := Option.map_eq_some_iff.mp hrun
  obtain ⟨hsess, hrew⟩ := Prod.mk.inj heq'
  exact ⟨w, w', hw, hw', (rendezvous true hw hw' (by decide)).1 0 hname, hsess, hrew⟩

/-! ### A file that is not a channel -/

/-- A step of another process leaves an unfinished file as it is. -/
theorem unfinished_next {dbg : Bool} {n : ℕ} {w w' : World} {a : Act} {o : ℕ} {obj : Obj}
    (hw : WorldInv n w) (hnew : w'.rewrites = []) (hobj : w.objs o = some obj)
    (hm : obj.shm.magic ≠ achShmMagicNum) (hdead : ∀ ok, a ≠ .createNext o ok)
    (hs : w.next dbg a = some w') : w'.objs o = some obj := by
  have hother : ∀ {o' b}, o' ≠ o → Function.update w.objs o' (some b) o = some obj := fun hne => by
    rw [Function.update_of_ne (Ne.symm hne)]
    exact hobj
  cases a with
  | create o' name cnt size truncate err =>
    simp only [World.next] at hs
    split at hs
    · obtain rfl := Option.some.inj hs
      exact hobj
    · obtain ⟨hnone, hs⟩ := Option.ite_none_right_eq_some.mp hs
      obtain rfl := Option.some.inj hs
      refine hother fun he => ?_
      rw [he, hobj] at hnone
      simp at hnone
    · obtain rfl := Option.some.inj hs
      exact hobj
  | createNext o' ok =>
    obtain ⟨b, -, hs⟩ := Option.bind_eq_some_iff.mp hs
    obtain ⟨b', -, hs⟩ := Option.bind_eq_some_iff.mp hs
    obtain rfl := Option.some.inj hs
    exact hother fun he => hdead ok (by rw [he])
  | rewriteNext p ok =>
    have hnone := next_rewrites hs hnew
    obtain ⟨r, hr, -⟩ := Option.bind_eq_some_iff.mp hs
    simp [hnone] at hr
  | attach h name err =>
    cases hidle : w.sessions h with
    | idle =>
      simp only [World.next, hidle] at hs
      split at hs
      · obtain rfl := Option.some.inj hs
        exact hobj
      · obtain rfl := Option.some.inj hs
        exact hobj
      · simp at hs
    | _ => simp [World.next, hidle] at hs
  | attachNext h err past =>
    obtain ⟨o', -, hs⟩ := Option.bind_eq_some_iff.mp hs
    obtain ⟨b, -, hs⟩ := Option.bind_eq_some_iff.mp hs
    obtain ⟨s', -, hs⟩ := Option.bind_eq_some_iff.mp hs
    obtain rfl := Option.some.inj hs
    exact hobj
  | call h c =>
    cases hopen : w.sessions h with
    | opened o' chan =>
      simp only [World.next, hopen] at hs
      obtain ⟨b, hb, hs⟩ := Option.bind_eq_some_iff.mp hs
      have hne : o' ≠ o := fun he => by
        subst he
        obtain ⟨c, hc, hp⟩ := hw.sessions h o' (by rw [hopen]; rfl)
        obtain rfl : obj = c := Option.some.inj (hobj.symm.trans hc)
        rw [hopen] at hp
        exact hm hp
      split at hs
      · obtain rfl := Option.some.inj hs
        exact hother hne
      · simp at hs
      · obtain rfl := Option.some.inj hs
        exact hobj
    | _ => simp [World.next, hopen] at hs
  | close h munmap close =>
    cases hopen : w.sessions h with
    | opened o' chan =>
      simp only [World.next, hopen] at hs
      obtain ⟨b, -, hs⟩ := Option.map_eq_some_iff.mp hs
      split_ifs at hs
      · exact hs ▸ hobj
      · obtain rfl := hs
        exact hobj
    | _ => simp [World.next, hopen] at hs
  | unlink name err =>
    obtain rfl := Option.some.inj hs
    unfold World.achUnlink
    split
    · exact hobj
    · split <;> exact hobj

theorem unfinished_run {dbg : Bool} {w' : World} {o : ℕ} {obj : Obj}
    (hm : obj.shm.magic ≠ achShmMagicNum) (hnew : w'.rewrites = []) :
    ∀ {as : List Act} {n : ℕ} {w : World}, (∀ a ∈ as, Fits a) →
      (∀ ok, Act.createNext o ok ∉ as) → n + as.countP isPut < 2 ^ 64 - 1 → WorldInv n w →
      w.objs o = some obj → w.run dbg as = some w' → w'.objs o = some obj := by
  intro as
  induction as with
  | nil =>
    intro n w _ _ _ _ hobj hrun
    obtain rfl := Option.some.inj hrun
    exact hobj
  | cons a as ih =>
    intro n w hfit hdead hn hw hobj hrun
    obtain ⟨w₁, hs, hrun⟩ := Option.bind_eq_some_iff.mp hrun
    have hnew₁ := run_rewrites hnew hrun
    rw [List.countP_cons] at hn
    exact ih (fun c hc => hfit c (List.mem_cons_of_mem a hc))
      (fun ok hc => hdead ok (List.mem_cons_of_mem a hc)) (by omega)
      (hw.next (hfit a List.mem_cons_self) hnew₁ (by omega) hs)
      (unfinished_next hw hnew₁ hobj hm (fun ok he => hdead ok (by simp [he])) hs) hrun

/-- **A dead `ach_create` blocks the name.** Take a reachable state in which the name stands for a
file whose magic number is not written, and any steps after it in which its `ach_create` does
nothing more, nobody unlinks the name and no `ach_create` comes to a file that was there. Then the
file stays as it is, every other `ach_create` of the name without `attr->truncate` returns
`ACH_EEXIST`, and no `ach_open` gets past the test of the magic number. -/
theorem blocked (dbg : Bool) {as bs : List Act} (hfit : ∀ a ∈ as ++ bs, Fits a)
    (hn : (as ++ bs).countP isPut < 2 ^ 64 - 1) {w w' : World}
    (hrun : World.empty.run dbg as = some w) (hrun' : w.run dbg bs = some w')
    (hnew : w'.rewrites = []) {name : List UInt8} (hname : channelNameOk name = true) {o : ℕ}
    {obj : Obj} (hfile : w.names (shmName name) = some o) (hobj : w.objs o = some obj)
    (hm : obj.shm.magic ≠ achShmMagicNum) (hdead : ∀ ok, Act.createNext o ok ∉ bs)
    (hno : ∀ a ∈ bs, ¬ Unlinks (shmName name) a) :
    w'.names (shmName name) = some o ∧ w'.objs o = some obj ∧
      w'.achCreate name false none = some .eexist ∧
      ∀ h, (w'.sessions h).obj = some o → w'.sessions h = .magic o := by
  rw [List.countP_append] at hn
  have hfit' := fun b hb => hfit b (List.mem_append_right as hb)
  have hw : WorldInv (0 + as.countP isPut) w :=
    worldInv_empty.run (fun a ha => hfit a (List.mem_append_left _ ha)) (run_rewrites hnew hrun')
      (by omega) hrun
  have hw' := hw.run hfit' hnew (by omega) hrun'
  have hkeep := (Agrees.run hno (named_empty.run hrun) (.refl _ w) hrun').keeps o hfile
  have hobj' := unfinished_run hm hnew hfit' hdead (by omega) hw hobj hrun'
  refine ⟨hkeep, hobj', ?_, fun h ho => ?_⟩
  · simp [World.achCreate, World.shmOpen, hname, hkeep, checkErrno]
  · obtain ⟨a, ha, hp⟩ := hw'.sessions h o ho
    obtain rfl : obj = a := Option.some.inj (hobj'.symm.trans ha)
    cases hs : w'.sessions h with
    | magic o' =>
      rw [hs] at ho
      rw [Option.some.inj ho]
    | guards o' chan =>
      rw [hs] at hp
      exact absurd hp.1 hm
    | _ =>
      rw [hs] at hp
      exact absurd hp hm

/-- The process dies after `mmap`. -/
def deadActs : List Act := [.create 0 [97] 2 3 false none, .createNext 0 true, .createNext 0 true]

/-- What the others try. -/
def lateActs : List Act :=
  [.attach 5 [97] none, .attachNext 5 none false, .create 1 [97] 2 3 false none,
    .attach 6 [97] none]

theorem blocked_sample : ∃ w w', World.empty.run true deadActs = some w ∧
    w.run true lateActs = some w' ∧ w'.achCreate [97] false none = some .eexist ∧
    ∀ h, (w'.sessions h).obj = some 0 → w'.sessions h = .magic 0 := by
  have hvals : (World.empty.run true deadActs).map
      (fun w => (w.names (shmName [97]), (w.objs 0).map (fun obj => obj.shm.magic),
        (w.run true lateActs).map fun w' => w'.rewrites.length)) =
      some (some 0, some 0, some 0) := by decide +kernel
  obtain ⟨w, hw, heq⟩ := Option.map_eq_some_iff.mp hvals
  obtain ⟨hname, hrest⟩ := Prod.mk.inj heq
  obtain ⟨hmagic, hrun⟩ := Prod.mk.inj hrest
  obtain ⟨obj, hobj, hzero⟩ := Option.map_eq_some_iff.mp hmagic
  obtain ⟨w', hw', hnew⟩ := Option.map_eq_some_iff.mp hrun
  have h := blocked true (show ∀ a ∈ deadActs ++ lateActs, Fits a by decide) (by decide) hw hw'
    (List.length_eq_zero_iff.mp hnew) (by decide) hname hobj (by rw [hzero]; decide)
    (by simp [lateActs]) (by decide)
  exact ⟨w, w', hw, hw', h.2.2.1, h.2.2.2⟩

end Ach.Shm.Names
