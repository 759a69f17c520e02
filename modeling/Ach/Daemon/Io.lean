import Ach.Channel.Types

/-! # Input and output of the daemon

`achd_read` and `achd_write` repeat `read(2)` and `write(2)` until the count is reached. A system
call transfers some of the bytes asked for, is interrupted, or fails, and while it runs the
termination signal may come; a list says what each call does in turn. After the list every call
transfers as much as it can and no signal comes, so a list stands for every behaviour in which the
calls are not interrupted for ever. -/

namespace Ach.Daemon.Io

open Ach.Channel.Types

/-! ### System calls -/

/-- What a `read(2)` or a `write(2)` does. -/
inductive SysRes where
  /-- It transfers what it can, at most `k + 1` bytes. -/
  | upTo (k : ℕ)
  /-- `EINTR`. -/
  | eintr
  /-- Any other error. -/
  | fail
  deriving DecidableEq, Repr

/-- A system call, and whether `cx.sig_received` is set when it returns. -/
structure Sys where
  res : SysRes
  sig : Bool
  deriving DecidableEq, Repr

/-- Short counts and `EINTR` only. -/
def Smooth (calls : List Sys) : Prop := ∀ c ∈ calls, c.sig = false ∧ c.res ≠ .fail

instance (calls : List Sys) : Decidable (Smooth calls) := by unfold Smooth; infer_instance

/-- No termination signal. -/
def NoSignal (calls : List Sys) : Prop := ∀ c ∈ calls, c.sig = false

instance (calls : List Sys) : Decidable (NoSignal calls) := by unfold NoSignal; infer_instance

theorem Smooth.noSignal {calls : List Sys} (h : Smooth calls) : NoSignal calls :=
  fun c hc => (h c hc).1

/-! ### Reading -/

/-- A descriptor that is read: the bytes not read yet, and what the next calls do. -/
structure Fd where
  unread : List UInt8
  calls : List Sys
  deriving DecidableEq, Repr

/-- What `achd_read` gives: the bytes stored in the buffer, as many as it returns, the descriptor,
and `cx.sig_received`. -/
structure ReadEnd where
  bytes : List UInt8
  fd : Fd
  sig : Bool
  deriving DecidableEq, Repr

/-- The loop of `achd_read`. -/
def readLoop : List Sys → List UInt8 → ℕ → ReadEnd
  | [], unread, cnt => ⟨unread.take cnt, ⟨unread.drop cnt, []⟩, false⟩
  | c :: calls, unread, cnt =>
    if cnt = 0 then ⟨[], ⟨unread, c :: calls⟩, false⟩
    else match c.res with
    | .upTo k =>
      let got := unread.take (min (k + 1) cnt)
      let left := unread.drop (min (k + 1) cnt)
      -- no byte is the end of the stream
      if got = [] ∨ c.sig = true then ⟨got, ⟨left, calls⟩, c.sig⟩
      else
        let e := readLoop calls left (cnt - got.length)
        { e with bytes := got ++ e.bytes }
    | .eintr => if c.sig then ⟨[], ⟨unread, calls⟩, true⟩ else readLoop calls unread cnt
    | .fail => ⟨[], ⟨unread, calls⟩, c.sig⟩

/-- `achd_read`. -/
def achdRead (sig : Bool) (fd : Fd) (cnt : ℕ) : ReadEnd :=
  if sig then ⟨[], fd, true⟩ else readLoop fd.calls fd.unread cnt

theorem readLoop_spec : ∀ (calls : List Sys) (unread : List UInt8) (cnt : ℕ), Smooth calls →
    ∃ calls', Smooth calls' ∧
      readLoop calls unread cnt = ⟨unread.take cnt, ⟨unread.drop cnt, calls'⟩, false⟩ := by
  intro calls
  induction calls with
  | nil =>
    intro unread cnt h
    exact ⟨[], h, rfl⟩
  | cons c calls ih =>
    intro unread cnt h
    obtain ⟨hsig, hfail⟩ := h c List.mem_cons_self
    have hs : Smooth calls := fun d hd => h d (List.mem_cons_of_mem c hd)
    by_cases h0 : cnt = 0
    · subst h0
      exact ⟨c :: calls, h, by simp [readLoop]⟩
    · simp only [readLoop, if_neg h0, hsig, Bool.false_eq_true, or_false, if_false]
      cases hr : c.res with
      | fail => exact absurd hr hfail
      | eintr => exact ih unread cnt hs
      | upTo k =>
        simp only
        split_ifs with hgot
        · have hnil : unread = [] := by
            rcases List.take_eq_nil_iff.mp hgot with h' | h'
            · omega
            · exact h'
          exact ⟨calls, hs, by simp [hnil]⟩
        · obtain ⟨calls', hs', he⟩ := ih (unread.drop (min (k + 1) cnt))
            (cnt - (unread.take (min (k + 1) cnt)).length) hs
          refine ⟨calls', hs', ?_⟩
          rw [he]
          have hsplit : unread = unread.take (min (k + 1) cnt) ++ unread.drop (min (k + 1) cnt) :=
            (List.take_append_drop _ _).symm
          have hle : (unread.take (min (k + 1) cnt)).length ≤ cnt := by simp
          generalize unread.take (min (k + 1) cnt) = a at *
          generalize unread.drop (min (k + 1) cnt) = b at *
          subst hsplit
          rw [List.take_append, List.drop_append, List.take_of_length_le hle,
            List.drop_of_length_le hle, List.nil_append]

/-- **`achd_read`** gives the next bytes of the stream, however it comes in. -/
theorem achdRead_spec (fd : Fd) (cnt : ℕ) (h : Smooth fd.calls) :
    ∃ calls, Smooth calls ∧
      achdRead false fd cnt = ⟨fd.unread.take cnt, ⟨fd.unread.drop cnt, calls⟩, false⟩ :=
  readLoop_spec fd.calls fd.unread cnt h

/-- Nothing is lost: what is not in the buffer is still to be read. -/
theorem readLoop_length : ∀ (calls : List Sys) (unread : List UInt8) (cnt : ℕ),
    (readLoop calls unread cnt).bytes.length + (readLoop calls unread cnt).fd.unread.length =
      unread.length := by
  intro calls
  induction calls with
  | nil =>
    intro unread cnt
    simp [readLoop]; omega
  | cons c calls ih =>
    intro unread cnt
    by_cases h0 : cnt = 0
    · simp [readLoop, h0]
    · simp only [readLoop, if_neg h0]
      cases c.res with
      | fail => simp
      | eintr =>
        simp only
        split_ifs
        · simp
        · exact ih unread cnt
      | upTo k =>
        simp only
        split_ifs
        · simp; omega
        · have := ih (unread.drop (min (k + 1) cnt))
            (cnt - (unread.take (min (k + 1) cnt)).length)
          simp only [List.length_append, List.length_drop, List.length_take] at this ⊢
          omega

/-! ### Lines -/

/-- The value of a plain `char`, which is signed. -/
def charToInt (b : UInt8) : ℤ := if b.toNat < 128 then b.toNat else b.toNat - 256

/-- The conversion back. -/
def intToChar (c : ℤ) : UInt8 := UInt8.ofNat (c % 256).toNat

/-- `EOF`. -/
def eof : ℤ := -1

/-- What `achd_getc` gives. -/
structure GetcEnd where
  c : ℤ
  fd : Fd
  sig : Bool

/-- `achd_getc`. -/
def achdGetc (sig : Bool) (fd : Fd) : GetcEnd :=
  let e := achdRead sig fd 1
  match e.bytes with
  | [c] => ⟨charToInt c, e.fd, e.sig⟩
  | _ => ⟨eof, e.fd, e.sig⟩

theorem achdGetc_lt {sig : Bool} {fd : Fd} (h : (achdGetc sig fd).c ≠ eof) :
    (achdGetc sig fd).fd.unread.length < fd.unread.length := by
  unfold achdGetc at h ⊢
  unfold achdRead at h ⊢
  cases sig with
  | true => simp at h
  | false =>
    have hlen := readLoop_length fd.calls fd.unread 1
    simp only [Bool.false_eq_true, if_false] at h ⊢
    split at h
    · rename_i c hc
      simp only [hc, List.length_singleton] at hlen ⊢
      omega
    · simp at h

/-- What `achd_readline` gives: the status, the bytes stored (without the terminating zero), the
descriptor, and `cx.sig_received`. -/
structure LineEnd where
  status : AchStatus
  buf : List UInt8
  fd : Fd
  sig : Bool

/-- The loop of `achd_readline`. -/
def readlineLoop (cnt : ℕ) (sig : Bool) (fd : Fd) (buf : List UInt8) : LineEnd :=
  if buf.length < cnt then
    if (achdGetc sig fd).c = 10 then ⟨.ok, buf, (achdGetc sig fd).fd, (achdGetc sig fd).sig⟩
    else if (achdGetc sig fd).c = 13 then
      readlineLoop cnt (achdGetc sig fd).sig (achdGetc sig fd).fd buf
    else if (achdGetc sig fd).c = eof then
      ⟨.failedSyscall, buf, (achdGetc sig fd).fd, (achdGetc sig fd).sig⟩
    else
      readlineLoop cnt (achdGetc sig fd).sig (achdGetc sig fd).fd
        (buf ++ [intToChar (achdGetc sig fd).c])
  else ⟨.overflow, buf, fd, sig⟩
termination_by fd.unread.length
decreasing_by
  · exact achdGetc_lt (by rw [‹(achdGetc sig fd).c = 13›]; decide)
  · exact achdGetc_lt ‹¬ (achdGetc sig fd).c = eof›

/-- `achd_readline`. -/
def achdReadline (sig : Bool) (fd : Fd) (cnt : ℕ) : LineEnd := readlineLoop cnt sig fd []

theorem achdGetc_spec {fd : Fd} {b : UInt8} {rest : List UInt8} (h : Smooth fd.calls)
    (hfd : fd.unread = b :: rest) :
    ∃ calls, Smooth calls ∧ achdGetc false fd = ⟨charToInt b, ⟨rest, calls⟩, false⟩ := by
  obtain ⟨calls, hc, hread⟩ := achdRead_spec fd 1 h
  refine ⟨calls, hc, ?_⟩
  simp [achdGetc, hread, hfd]

/-- A byte of a line: seven bits, and neither a newline nor a carriage return. -/
def InLine (b : UInt8) : Prop := b.toNat < 128 ∧ b ≠ 10 ∧ b ≠ 13

/-- A byte that `achd_readline` stores: no newline, no carriage return, and not the byte 255, which
as a `char` is `EOF`. -/
def LineByte (b : UInt8) : Prop := b ≠ 10 ∧ b ≠ 13 ∧ b ≠ 255

instance (b : UInt8) : Decidable (LineByte b) := by unfold LineByte; infer_instance

theorem InLine.lineByte {b : UInt8} (h : InLine b) : LineByte b := by
  obtain ⟨h7, h10, h13⟩ := h
  refine ⟨h10, h13, ?_⟩
  rintro rfl
  exact absurd h7 (by decide)

theorem intToChar_charToInt (b : UInt8) : intToChar (charToInt b) = b := by
  have hlt := b.toNat_lt
  unfold charToInt intToChar
  rw [← UInt8.toNat_inj, UInt8.toNat_ofNat']
  split_ifs <;> omega

theorem charToInt_inj {b c : UInt8} (h : charToInt b = charToInt c) : b = c := by
  rw [← intToChar_charToInt b, h, intToChar_charToInt c]

theorem charToInt_of_lineByte {b : UInt8} (h : LineByte b) : charToInt b ≠ 10 ∧ charToInt b ≠ 13 ∧
    charToInt b ≠ eof ∧ intToChar (charToInt b) = b :=
  ⟨fun he => h.1 (charToInt_inj he), fun he => h.2.1 (charToInt_inj he),
    fun he => h.2.2 (charToInt_inj he), intToChar_charToInt b⟩

theorem readlineLoop_spec (cnt : ℕ) {rest : List UInt8} : ∀ (line : List UInt8) (fd : Fd)
    (buf : List UInt8), (∀ b ∈ line, LineByte b) → fd.unread = line ++ 10 :: rest →
    buf.length + line.length < cnt → Smooth fd.calls →
    ∃ calls, Smooth calls ∧
      readlineLoop cnt false fd buf = ⟨.ok, buf ++ line, ⟨rest, calls⟩, false⟩ := by
  intro line
  induction line with
  | nil =>
    intro fd buf _ hfd hcnt hs
    obtain ⟨calls, hc, hget⟩ := achdGetc_spec hs hfd
    refine ⟨calls, hc, ?_⟩
    rw [readlineLoop, if_pos (by simpa using hcnt), hget]
    simp [charToInt]
  | cons b line ih =>
    intro fd buf hline hfd hcnt hs
    obtain ⟨calls, hc, hget⟩ := achdGetc_spec hs hfd
    obtain ⟨h10, h13, heof, hback⟩ := charToInt_of_lineByte (hline b List.mem_cons_self)
    rw [List.length_cons] at hcnt
    obtain ⟨calls', hc', hrec⟩ := ih ⟨line ++ 10 :: rest, calls⟩
      (buf ++ [b])
      (fun d hd => hline d (List.mem_cons_of_mem b hd)) rfl (by simp; omega) hc
    refine ⟨calls', hc', ?_⟩
    rw [readlineLoop, if_pos (by omega), hget]
    simp only [h10, h13, heof, if_false, hback]
    exact hrec.trans (by rw [List.append_assoc, List.singleton_append])

/-- **`achd_readline`** reads one line and nothing after it. -/
theorem achdReadline_spec (cnt : ℕ) {fd : Fd} {line rest : List UInt8}
    (hline : ∀ b ∈ line, LineByte b)
    (hfd : fd.unread = line ++ 10 :: rest) (hcnt : line.length < cnt) (hs : Smooth fd.calls) :
    ∃ calls, Smooth calls ∧ achdReadline false fd cnt = ⟨.ok, line, ⟨rest, calls⟩, false⟩ := by
  obtain ⟨calls, hc, h⟩ := readlineLoop_spec cnt line fd [] hline hfd (by simpa using hcnt) hs
  exact ⟨calls, hc, by rw [achdReadline, h, List.nil_append]⟩

/-- A line that does not fit into the buffer. -/
theorem readlineLoop_overflow (cnt : ℕ) {rest : List UInt8} : ∀ (line : List UInt8) (fd : Fd)
    (buf : List UInt8), (∀ b ∈ line, LineByte b) → fd.unread = line ++ rest →
    cnt ≤ buf.length + line.length → Smooth fd.calls →
    (readlineLoop cnt false fd buf).status = .overflow := by
  intro line
  induction line with
  | nil =>
    intro fd buf _ _ hcnt _
    rw [readlineLoop, if_neg (by simpa using hcnt)]
  | cons b line ih =>
    intro fd buf hline hfd hcnt hs
    by_cases hfull : buf.length < cnt
    · obtain ⟨calls, hc, hget⟩ := achdGetc_spec hs hfd
      obtain ⟨h10, h13, heof, hback⟩ := charToInt_of_lineByte (hline b List.mem_cons_self)
      rw [List.length_cons] at hcnt
      rw [readlineLoop, if_pos hfull, hget]
      simp only [h10, h13, heof, if_false, hback]
      exact ih ⟨line ++ rest, calls⟩ (buf ++ [b]) (fun d hd => hline d (List.mem_cons_of_mem b hd))
        rfl (by simp; omega) hc
    · rw [readlineLoop, if_neg hfull]

/-- What `achd_getc` gives is `EOF` or the value of a byte. -/
theorem achdGetc_cases (sig : Bool) (fd : Fd) :
    (achdGetc sig fd).c = eof ∨ ∃ b, (achdGetc sig fd).c = charToInt b := by
  unfold achdGetc
  simp only
  split
  · exact Or.inr ⟨_, rfl⟩
  · exact Or.inl rfl

/-- `achd_readline` stores nothing but bytes of a line. -/
theorem readlineLoop_bytes {cnt : ℕ} {sig : Bool} {fd : Fd} {buf : List UInt8} :
    (∀ b ∈ buf, LineByte b) → ∀ b ∈ (readlineLoop cnt sig fd buf).buf, LineByte b := by
  fun_induction readlineLoop cnt sig fd buf with
  | case1 => exact fun h => h
  | case2 sig fd buf hlt h10 h13 ih => exact ih
  | case3 => exact fun h => h
  | case4 sig fd buf hlt h10 h13 heof ih =>
    intro h
    refine ih fun b hb => ?_
    rcases List.mem_append.mp hb with hb | hb
    · exact h b hb
    · rw [List.mem_singleton.mp hb]
      obtain he | ⟨c, hc⟩ := achdGetc_cases sig fd
      · exact absurd he heof
      · rw [hc] at h10 h13 heof ⊢
        rw [intToChar_charToInt]
        refine ⟨?_, ?_, ?_⟩
        · rintro rfl
          exact h10 rfl
        · rintro rfl
          exact h13 rfl
        · rintro rfl
          exact heof rfl
  | case5 => exact fun h => h

/-! ### Writing -/

/-- What `achd_write` does: the bytes handed to `write(2)`, what it returns (`none`: nothing, it
does not return), and `cx.sig_received`. -/
structure WriteEnd where
  written : List UInt8
  ret : Option ℤ
  sig : Bool
  deriving DecidableEq, Repr

/-- The loop of `achd_write`. Behind it stands a second, empty loop `while( n < cnt);`, which does
not end if the signal comes before the last byte is written. -/
def writeLoop (cnt : ℕ) : List Sys → List UInt8 → WriteEnd
  | _, [] => ⟨[], some cnt, false⟩
  | [], b :: buf => ⟨b :: buf, some cnt, false⟩
  | c :: calls, b :: buf =>
    match c.res with
    | .upTo k =>
      let sent := b :: buf.take k
      let left := buf.drop k
      if c.sig then ⟨sent, if left = [] then some cnt else none, true⟩
      else
        let e := writeLoop cnt calls left
        { e with written := sent ++ e.written }
    | .eintr => if c.sig then ⟨[], some (-1), true⟩ else writeLoop cnt calls (b :: buf)
    | .fail => ⟨[], some (-1), c.sig⟩

/-- `achd_write`. -/
def achdWrite (sig : Bool) (calls : List Sys) (buf : List UInt8) : WriteEnd :=
  if sig then ⟨[], if buf = [] then some 0 else none, true⟩ else writeLoop buf.length calls buf

/-- All bytes are written and the count is returned. -/
def WriteEnd.Complete (e : WriteEnd) (cnt : ℕ) (buf : List UInt8) : Prop :=
  e.written = buf ∧ e.ret = some (cnt : ℤ) ∧ e.sig = false

/-- Writing failed before the last byte. -/
def WriteEnd.Broken (e : WriteEnd) (buf : List UInt8) : Prop :=
  e.written <+: buf ∧ e.written.length < buf.length ∧ e.ret = some (-1) ∧ e.sig = false

theorem writeLoop_spec (cnt : ℕ) : ∀ (calls : List Sys) (buf : List UInt8), NoSignal calls →
    (writeLoop cnt calls buf).Complete cnt buf ∨
      (¬ Smooth calls ∧ (writeLoop cnt calls buf).Broken buf)
  | calls, [], _ => Or.inl ⟨by simp [writeLoop], by simp [writeLoop], by simp [writeLoop]⟩
  | [], b :: buf, _ => Or.inl ⟨rfl, rfl, rfl⟩
  | c :: calls, b :: buf, h => by
    have hsig := h c List.mem_cons_self
    have hs : NoSignal calls := fun d hd => h d (List.mem_cons_of_mem c hd)
    have hrough : ¬ Smooth calls → ¬ Smooth (c :: calls) := fun hn hc =>
      hn fun d hd => hc d (List.mem_cons_of_mem c hd)
    simp only [writeLoop, hsig, Bool.false_eq_true, if_false]
    cases hr : c.res with
    | fail =>
      exact Or.inr ⟨fun hc => (hc c List.mem_cons_self).2 hr, List.nil_prefix, by simp, rfl, rfl⟩
    | eintr =>
      rcases writeLoop_spec cnt calls (b :: buf) hs with h' | ⟨hn, h'⟩
      · exact Or.inl h'
      · exact Or.inr ⟨hrough hn, h'⟩
    | upTo k =>
      have hbuf : b :: buf = (b :: buf.take k) ++ buf.drop k := by simp
      rcases writeLoop_spec cnt calls (buf.drop k) hs with ⟨hw, hret, hsg⟩
        | ⟨hn, hw, hlt, hret, hsg⟩
      · refine Or.inl ⟨?_, hret, hsg⟩
        simp only [hw]
        exact hbuf.symm
      · refine Or.inr ⟨hrough hn, ?_, ?_, hret, hsg⟩
        · rw [hbuf]
          exact (List.prefix_append_right_inj _).mpr hw
        · rw [hbuf, List.length_append, List.length_append]
          omega

/-- **`achd_write`** writes everything, or fails and has written a proper prefix; the latter only if
a call failed. -/
theorem achdWrite_spec (calls : List Sys) (buf : List UInt8) (h : NoSignal calls) :
    (achdWrite false calls buf).Complete buf.length buf ∨
      (¬ Smooth calls ∧ (achdWrite false calls buf).Broken buf) :=
  writeLoop_spec buf.length calls buf h

theorem achdWrite_smooth (calls : List Sys) (buf : List UInt8) (h : Smooth calls) :
    (achdWrite false calls buf).Complete buf.length buf := by
  rcases achdWrite_spec calls buf h.noSignal with h' | ⟨hn, -⟩
  · exact h'
  · exact absurd h hn

/-- `achd_printf` of a text: the status, if it returns, and the bytes written. The buffer is made
large enough in a second pass if the text is longer than a line. -/
def achdPrintf (calls : List Sys) (text : List UInt8) : Option AchStatus × List UInt8 :=
  let e := achdWrite false calls text
  (e.ret.map fun r => if r = (text.length : ℤ) then .ok else .failedSyscall, e.written)

theorem achdPrintf_smooth (calls : List Sys) (text : List UInt8) (h : Smooth calls) :
    achdPrintf calls text = (some .ok, text) := by
  obtain ⟨hw, hret, -⟩ := achdWrite_smooth calls text h
  simp [achdPrintf, hw, hret]

end Ach.Daemon.Io
