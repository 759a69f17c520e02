import Ach.Daemon.Io

/-! # Reading a line

`achd_readline` reads byte by byte, drops carriage returns, and stops at a newline, at the end of
the stream, or when the buffer is full. How the stream is split into reads does not matter: what it
does is a scan of the bytes (`readlineLoop_scan`).

A byte passes through a `char`, which is signed, to an `int`, and the byte 255 becomes `EOF` there.
Such a byte among those that are read looks like the end of the stream; if there is none, a line is
read as it should be, and only then (`readsLine_iff`). -/

namespace Ach.Daemon.Readline

open Ach.Channel.Types Ach.Daemon.Io

/-! ### What is to be read -/

/-- The bytes before the first newline, without carriage returns. -/
def textOf (stream : List UInt8) : List UInt8 :=
  (stream.takeWhile fun b => b ≠ 10).filter fun b => b ≠ 13

/-- A line without its carriage returns. -/
def received (line : List UInt8) : List UInt8 := line.filter fun b => b ≠ 13

/-- The bytes after the first newline. -/
def afterLine (stream : List UInt8) : List UInt8 := (stream.dropWhile fun b => b ≠ 10).tail

/-- A newline comes before more than `cnt - 1` bytes that are not carriage returns. -/
def InTime (stream : List UInt8) (cnt : ℕ) : Prop := 10 ∈ stream ∧ (textOf stream).length < cnt

/-- The stream ends before the newline, and before more than `cnt - 1` bytes. -/
def EndsFirst (stream : List UInt8) (cnt : ℕ) : Prop := 10 ∉ stream ∧ (textOf stream).length < cnt

/-- What is in the buffer: the bytes stored, and the terminating zero if the line was read. -/
def stored (e : LineEnd) : List UInt8 := if e.status = .ok then e.buf ++ [0] else e.buf

/-- **One line is read, whatever the bytes are.** -/
structure ReadsLine (stream : List UInt8) (cnt : ℕ) (e : LineEnd) : Prop where
  ok_iff : e.status = .ok ↔ InTime stream cnt
  line : e.status = .ok → stored e = textOf stream ++ [0] ∧ e.fd.unread = afterLine stream
  failed : e.status = .failedSyscall → EndsFirst stream cnt
  overflow_iff : e.status = .overflow ↔ ¬ InTime stream cnt ∧ ¬ EndsFirst stream cnt
  inBuffer : (stored e).length ≤ cnt

/-! ### The scan -/

/-- What `achd_readline` does with the bytes of a stream: the status, the bytes stored, and the
bytes left. -/
def scan (cnt : ℕ) : List UInt8 → List UInt8 → AchStatus × List UInt8 × List UInt8
  | [], buf => if buf.length < cnt then (.failedSyscall, buf, []) else (.overflow, buf, [])
  | b :: stream, buf =>
    if buf.length < cnt then
      if b = 10 then (.ok, buf, stream)
      else if b = 13 then scan cnt stream buf
      else if b = 255 then (.failedSyscall, buf, stream)
      else scan cnt stream (buf ++ [b])
    else (.overflow, buf, b :: stream)

theorem charToInt_eq_iff {b : UInt8} :
    (charToInt b = 10 ↔ b = 10) ∧ (charToInt b = 13 ↔ b = 13) ∧ (charToInt b = eof ↔ b = 255) := by
  refine ⟨⟨fun h => ?_, ?_⟩, ⟨fun h => ?_, ?_⟩, ⟨fun h => ?_, ?_⟩⟩
  · exact charToInt_inj (c := 10) h
  · rintro rfl
    rfl
  · exact charToInt_inj (c := 13) h
  · rintro rfl
    rfl
  · exact charToInt_inj (c := 255) h
  · rintro rfl
    rfl

/-- **However the stream is split into reads**, the bytes are scanned. -/
theorem readlineLoop_scan (cnt : ℕ) : ∀ (stream : List UInt8) (fd : Fd) (buf : List UInt8),
    fd.unread = stream → Smooth fd.calls →
    ∃ calls, Smooth calls ∧ readlineLoop cnt false fd buf =
      ⟨(scan cnt stream buf).1, (scan cnt stream buf).2.1, ⟨(scan cnt stream buf).2.2, calls⟩,
        false⟩ := by
  intro stream
  induction stream with
  | nil =>
    intro fd buf hfd hs
    by_cases hfull : buf.length < cnt
    · obtain ⟨calls, hc, hread⟩ := achdRead_spec fd 1 hs
      have hget : achdGetc false fd = ⟨eof, ⟨[], calls⟩, false⟩ := by
        simp [achdGetc, hread, hfd]
      refine ⟨calls, hc, ?_⟩
      rw [readlineLoop, if_pos hfull, hget]
      simp [scan, hfull, eof]
    · refine ⟨fd.calls, hs, ?_⟩
      rw [readlineLoop, if_neg hfull]
      simp only [scan, if_neg hfull, ← hfd]
  | cons b stream ih =>
    intro fd buf hfd hs
    by_cases hfull : buf.length < cnt
    swap
    · refine ⟨fd.calls, hs, ?_⟩
      rw [readlineLoop, if_neg hfull]
      simp only [scan, if_neg hfull, ← hfd]
    obtain ⟨calls, hc, hget⟩ := achdGetc_spec hs hfd
    obtain ⟨h10, h13, h255⟩ := charToInt_eq_iff (b := b)
    rw [readlineLoop, if_pos hfull, hget]
    simp only [h10, h13, h255, intToChar_charToInt, scan, if_pos hfull]
    by_cases hb10 : b = 10
    · simp only [if_pos hb10]
      exact ⟨calls, hc, rfl⟩
    simp only [if_neg hb10]
    by_cases hb13 : b = 13
    · simp only [if_pos hb13]
      exact ih ⟨stream, calls⟩ buf rfl hc
    simp only [if_neg hb13]
    by_cases hb255 : b = 255
    · simp only [if_pos hb255]
      exact ⟨calls, hc, rfl⟩
    · simp only [if_neg hb255]
      exact ih ⟨stream, calls⟩ (buf ++ [b]) rfl hc

/-! ### The text of a line -/

theorem textOf_newline (stream : List UInt8) : textOf (10 :: stream) = [] := by simp [textOf]

theorem textOf_cr (stream : List UInt8) : textOf (13 :: stream) = textOf stream := by simp [textOf]

theorem textOf_cons {b : UInt8} (h10 : b ≠ 10) (h13 : b ≠ 13) (stream : List UInt8) :
    textOf (b :: stream) = b :: textOf stream := by
  simp [textOf, h10, h13]

theorem afterLine_newline (stream : List UInt8) : afterLine (10 :: stream) = stream := by
  simp [afterLine]

theorem afterLine_cons {b : UInt8} (h10 : b ≠ 10) (stream : List UInt8) :
    afterLine (b :: stream) = afterLine stream := by
  simp [afterLine, h10]

/-- Nothing is stored at or beyond position `cnt`, the terminating zero included. -/
theorem length_scan (cnt : ℕ) : ∀ (stream buf : List UInt8), buf.length ≤ cnt →
    (scan cnt stream buf).2.1.length ≤ cnt ∧
      ((scan cnt stream buf).1 = .ok → (scan cnt stream buf).2.1.length < cnt) := by
  intro stream
  induction stream with
  | nil =>
    intro buf hbuf
    unfold scan
    split_ifs <;> simp [hbuf]
  | cons b stream ih =>
    intro buf hbuf
    unfold scan
    split_ifs with hfull h10 h13 h255
    · exact ⟨hbuf, fun _ => hfull⟩
    · exact ih buf hbuf
    · exact ⟨hbuf, by simp⟩
    · exact ih (buf ++ [b]) (by simp; omega)
    · exact ⟨hbuf, by simp⟩

/-- **The scan of bytes that can be told from `EOF`.** -/
theorem scan_clean (cnt : ℕ) : ∀ (stream buf : List UInt8),
    255 ∉ (textOf stream).take (cnt - buf.length) →
    (scan cnt stream buf).1 =
        (if buf.length + (textOf stream).length < cnt then
          if 10 ∈ stream then .ok else .failedSyscall
        else .overflow) ∧
      ((scan cnt stream buf).1 = .ok →
        (scan cnt stream buf).2 = (buf ++ textOf stream, afterLine stream)) := by
  intro stream
  induction stream with
  | nil =>
    intro buf _
    by_cases hfull : buf.length < cnt <;> simp [scan, textOf, hfull]
  | cons b stream ih =>
    intro buf hclean
    by_cases hfull : buf.length < cnt
    swap
    · have : ¬ buf.length + (textOf (b :: stream)).length < cnt := by omega
      simp [scan, hfull, this]
    by_cases h10 : b = 10
    · subst h10
      simp [scan, hfull, textOf_newline, afterLine_newline]
    have hmem : 10 ∈ b :: stream ↔ 10 ∈ stream := by simp [Ne.symm h10]
    by_cases h13 : b = 13
    · subst h13
      rw [textOf_cr] at hclean
      simp only [scan, if_pos hfull, if_neg h10, if_true, textOf_cr, afterLine_cons h10, hmem]
      exact ih buf hclean
    obtain ⟨m, hm⟩ : ∃ m, cnt - buf.length = m + 1 := ⟨cnt - buf.length - 1, by omega⟩
    rw [textOf_cons h10 h13, hm, List.take_succ_cons, List.mem_cons, not_or] at hclean
    obtain ⟨h255, hclean⟩ := hclean
    have hlen : cnt - (buf ++ [b]).length = m := by
      rw [List.length_append, List.length_singleton]
      omega
    rw [← hlen] at hclean
    obtain ⟨hst, hline⟩ := ih (buf ++ [b]) hclean
    simp only [scan, if_pos hfull, if_neg h10, if_neg h13, if_neg (Ne.symm h255),
      textOf_cons h10 h13, afterLine_cons h10, hmem]
    refine ⟨?_, ?_⟩
    · rw [hst, List.length_append, List.length_singleton, List.length_cons, Nat.add_assoc,
        Nat.add_comm 1]
    · intro hok
      rw [hline hok, List.append_assoc, List.singleton_append]

/-- The scan of a byte that looks like `EOF`. -/
theorem scan_eof (cnt : ℕ) : ∀ (stream buf : List UInt8),
    255 ∈ (textOf stream).take (cnt - buf.length) →
    (scan cnt stream buf).1 = .failedSyscall := by
  intro stream
  induction stream with
  | nil =>
    intro buf h
    simp [textOf] at h
  | cons b stream ih =>
    intro buf h
    by_cases hfull : buf.length < cnt
    swap
    · rw [Nat.sub_eq_zero_of_le (by omega)] at h
      simp at h
    by_cases h10 : b = 10
    · subst h10
      simp [textOf_newline] at h
    by_cases h13 : b = 13
    · subst h13
      rw [textOf_cr] at h
      simp only [scan, if_pos hfull, if_neg h10, if_true]
      exact ih buf h
    by_cases h255 : b = 255
    · simp [scan, hfull, h255]
    obtain ⟨m, hm⟩ : ∃ m, cnt - buf.length = m + 1 := ⟨cnt - buf.length - 1, by omega⟩
    rw [textOf_cons h10 h13, hm, List.take_succ_cons, List.mem_cons] at h
    have hlen : cnt - (buf ++ [b]).length = m := by
      rw [List.length_append, List.length_singleton]
      omega
    simp only [scan, if_pos hfull, if_neg h10, if_neg h13, if_neg h255]
    refine ih (buf ++ [b]) ?_
    rw [hlen]
    exact h.resolve_left (Ne.symm h255)

section
variable {line : List UInt8} (h10 : 10 ∉ line) (rest : List UInt8)
include h10

omit rest in
theorem forall_ne_newline : ∀ b ∈ line, decide (b ≠ 10) = true := by
  intro b hb
  refine decide_eq_true ?_
  rintro rfl
  exact h10 hb

theorem textOf_line : textOf (line ++ 10 :: rest) = received line := by
  rw [textOf, List.takeWhile_append_of_pos (forall_ne_newline h10),
    List.takeWhile_cons_of_neg (by simp), List.append_nil, received]

theorem afterLine_line : afterLine (line ++ 10 :: rest) = rest := by
  rw [afterLine, List.dropWhile_append_of_pos (forall_ne_newline h10),
    List.dropWhile_cons_of_neg (by simp), List.tail_cons]

end

/-! ### The line -/

/-- **`achd_readline` reads one line** if and only if none of the first `cnt` bytes of its text is
255, or the stream ends before the line and before the buffer is full. -/
theorem readsLine_iff {fd : Fd} (hs : Smooth fd.calls) (cnt : ℕ) :
    ReadsLine fd.unread cnt (achdReadline false fd cnt) ↔
      (255 ∉ (textOf fd.unread).take cnt ∨ EndsFirst fd.unread cnt) := by
  obtain ⟨calls, -, hscan⟩ := readlineLoop_scan cnt fd.unread fd [] rfl hs
  obtain ⟨hlen, hok⟩ := length_scan cnt fd.unread [] (Nat.zero_le _)
  rw [achdReadline, hscan]
  by_cases h255 : 255 ∈ (textOf fd.unread).take cnt
  · -- the byte 255 is read, and `achd_readline` says that the stream has ended
    have hst := scan_eof cnt fd.unread [] (by simpa using h255)
    simp only [h255, not_true_eq_false, false_or]
    constructor
    · intro h
      exact h.failed hst
    · intro hend
      have hno : ¬ InTime fd.unread cnt := fun h => hend.1 h.1
      refine ⟨by simp [hst, hno], by simp [hst], fun _ => hend, by simp [hst, hend], ?_⟩
      simpa [stored, hst] using hlen
  · obtain ⟨hst, hline⟩ := scan_clean cnt fd.unread [] (by simpa using h255)
    simp only [List.length_nil, Nat.zero_add, List.nil_append] at hst hline
    simp only [h255, not_false_eq_true, true_or, iff_true]
    by_cases hfull : (textOf fd.unread).length < cnt
    swap
    · have hno : ¬ InTime fd.unread cnt ∧ ¬ EndsFirst fd.unread cnt :=
        ⟨fun h => hfull h.2, fun h => hfull h.2⟩
      rw [if_neg hfull] at hst
      refine ⟨by simp [hst, hno], by simp [hst], by simp [hst], by simp [hst, hno], ?_⟩
      simpa [stored, hst] using hlen
    rw [if_pos hfull] at hst
    by_cases h10 : 10 ∈ fd.unread
    · rw [if_pos h10] at hst
      have hin : InTime fd.unread cnt := ⟨h10, hfull⟩
      refine ⟨by simp [hst, hin], fun _ => ?_, by simp [hst], by simp [hst, hin], ?_⟩
      · simp [stored, hst, hline hst]
      · have := hok hst
        simp only [stored, hst, if_true, List.length_append, List.length_singleton]
        omega
    · rw [if_neg h10] at hst
      have hend : EndsFirst fd.unread cnt := ⟨h10, hfull⟩
      have hno : ¬ InTime fd.unread cnt := fun h => h10 h.1
      refine ⟨by simp [hst, hno], by simp [hst], fun _ => hend, by simp [hst, hend], ?_⟩
      simpa [stored, hst] using hlen

/-- A line with a carriage return, read one byte at a time. -/
theorem readsLine_iff_sample :
    ReadsLine [97, 13, 98, 10, 99] 3
        (achdReadline false ⟨[97, 13, 98, 10, 99], [⟨.upTo 0, false⟩, ⟨.eintr, false⟩]⟩ 3) ↔
      (255 ∉ (textOf [97, 13, 98, 10, 99]).take 3 ∨ EndsFirst [97, 13, 98, 10, 99] 3) :=
  @readsLine_iff ⟨_, _⟩ (by decide) 3

/-- The byte 255 before the newline of a short line: the line is not read. -/
theorem byte_255_is_eof : InTime [97, 255, 10] 8 ∧
    (achdReadline false ⟨[97, 255, 10], []⟩ 8).status = .failedSyscall := by
  constructor
  · exact ⟨by decide, by decide⟩
  · obtain ⟨calls, -, hscan⟩ :=
      readlineLoop_scan 8 [97, 255, 10] ⟨[97, 255, 10], []⟩ [] rfl (by decide)
    rw [achdReadline, hscan]
    rfl

/-! ### A line of given bytes -/

section
variable {fd : Fd} {line rest : List UInt8} {cnt : ℕ} (h10 : 10 ∉ line) (hlen : line.length < cnt)
  (hfd : fd.unread = line ++ 10 :: rest) (hs : Smooth fd.calls)
include h10 hlen hfd hs

/-- A line without the byte 255. -/
theorem achdReadline_line (h255 : 255 ∉ line) : ∃ calls, Smooth calls ∧
    achdReadline false fd cnt = ⟨.ok, received line, ⟨rest, calls⟩, false⟩ := by
  obtain ⟨calls, hc, hscan⟩ := readlineLoop_scan cnt _ fd [] hfd hs
  have hclean : 255 ∉ (textOf (line ++ 10 :: rest)).take (cnt - ([] : List UInt8).length) := by
    rw [textOf_line h10]
    exact fun h => h255 (List.mem_of_mem_filter (List.mem_of_mem_take h))
  obtain ⟨hst, hline⟩ := scan_clean cnt (line ++ 10 :: rest) [] hclean
  have hle : (received line).length ≤ line.length := List.length_filter_le _ line
  have hok : (scan cnt (line ++ 10 :: rest) []).1 = .ok := by
    rw [hst, textOf_line h10, if_pos (by rw [List.length_nil]; omega), if_pos (by simp)]
  refine ⟨calls, hc, ?_⟩
  rw [achdReadline, hscan, hok, hline hok, textOf_line h10, afterLine_line h10, List.nil_append]

/-- A line with the byte 255. -/
theorem achdReadline_eof (h255 : 255 ∈ line) :
    (achdReadline false fd cnt).status = .failedSyscall := by
  obtain ⟨calls, -, hscan⟩ := readlineLoop_scan cnt _ fd [] hfd hs
  rw [achdReadline, hscan]
  refine scan_eof cnt _ [] ?_
  have hle : (received line).length ≤ line.length := List.length_filter_le _ line
  rw [textOf_line h10, List.take_of_length_le (by rw [List.length_nil]; omega)]
  exact List.mem_filter.mpr ⟨h255, by decide⟩

end

end Ach.Daemon.Readline
