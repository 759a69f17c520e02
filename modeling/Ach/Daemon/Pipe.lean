import Ach.Daemon.Io
import Mathlib.Data.Fin.VecNotation
import Mathlib.Data.List.GetD
import Mathlib.Tactic.NormNum

/-! # Pipe frames

The frames sent over a connection: a magic word, the size in 8 bytes, least significant first, and
the data. `ach_pipe_get_size` shifts every size byte as a 32-bit value, also by 32 bits and more,
which the language leaves undefined; what such a shift gives is a parameter (`WideShift`). The size
comes back right if and only if it is less than `2 ^ 32` (`size_roundTrip_iff`). -/

namespace Ach.Daemon.Pipe

/-- What a shift of a byte, as an `unsigned`, by 32 bits and more gives: nothing else is known than
that zero stays zero. -/
structure WideShift where
  shift : UInt8 → ℕ → UInt32
  zero : ∀ n, shift 0 n = 0

/-- The shift as x86 makes it. -/
def WideShift.x86 : WideShift := ⟨fun b n => b.toUInt32 <<< (n % 32).toUInt32, fun n => by simp⟩

/-- `ach_pipe_frame_t`; `data` is the memory behind the header. -/
structure PipeFrame where
  magic : Fin 8 → UInt8
  sizeBytes : Fin 8 → UInt8
  data : ℕ → UInt8

/-- The string `"achpipe"` with its terminating zero. -/
def achpipe : Fin 8 → UInt8 := ![97, 99, 104, 112, 105, 112, 101, 0]

/-- Byte `i` of a size. -/
def sizeByte (size : ℕ) (i : Fin 8) : UInt8 := UInt8.ofNat (size >>> (8 * i.val))

/-- `ach_pipe_set_size`. -/
def achPipeSetSize (frame : PipeFrame) (size : ℕ) : PipeFrame :=
  { frame with sizeBytes := sizeByte size }

/-- `(unsigned)b << n`. -/
def shifted (wide : WideShift) (b : UInt8) (n : ℕ) : ℕ :=
  if n < 32 then (b.toNat <<< n) % 2 ^ 32 else (wide.shift b n).toNat

/-- `ach_pipe_get_size`. -/
def achPipeGetSize (wide : WideShift) (frame : PipeFrame) : ℕ :=
  (List.finRange 8).foldl (fun size i => size ||| shifted wide (frame.sizeBytes i) (8 * i.val)) 0

/-- `ach_pipe_alloc`; `fresh` is what `malloc` leaves in the data part. -/
def achPipeAlloc (fresh : ℕ → ℕ → UInt8) (size : ℕ) : PipeFrame :=
  ⟨achpipe, sizeByte size, fresh size⟩

/-! ### Memory -/

/-- The header and the first `n` bytes of data, as they lie in memory. -/
def PipeFrame.memory (frame : PipeFrame) (n : ℕ) : List UInt8 :=
  List.ofFn frame.magic ++ List.ofFn frame.sizeBytes ++ (List.range n).map frame.data

/-- Bytes stored from the start of the header on. -/
def PipeFrame.storeHeader (frame : PipeFrame) (bytes : List UInt8) : PipeFrame :=
  { frame with
    magic := fun i => bytes.getD i.val (frame.magic i)
    sizeBytes := fun i => bytes.getD (8 + i.val) (frame.sizeBytes i) }

/-- Bytes stored from the start of the data on. -/
def PipeFrame.storeData (frame : PipeFrame) (bytes : List UInt8) : PipeFrame :=
  { frame with data := fun i => bytes.getD i (frame.data i) }

/-- The header of a frame of the given size. -/
def header (size : ℕ) : List UInt8 := List.ofFn achpipe ++ List.ofFn (sizeByte size)

/-- What a frame looks like on the wire. -/
def wire (f : List UInt8) : List UInt8 := header f.length ++ f

@[simp] theorem length_header (size : ℕ) : (header size).length = 16 := by simp [header]

@[simp] theorem PipeFrame.length_memory (frame : PipeFrame) (n : ℕ) :
    (frame.memory n).length = 16 + n := by
  simp only [PipeFrame.memory, List.length_append, List.length_ofFn, List.length_map,
    List.length_range]

@[simp] theorem length_wire (f : List UInt8) : (wire f).length = 16 + f.length := by simp [wire]

theorem map_range_storeData (frame : PipeFrame) (bytes : List UInt8) :
    (List.range bytes.length).map (frame.storeData bytes).data = bytes := by
  refine List.ext_getElem (by simp) fun i h1 h2 => ?_
  simp only [PipeFrame.storeData, List.getElem_map, List.getElem_range]
  exact List.getD_eq_getElem _ _ h2

/-- The header read back. -/
theorem storeHeader_header (frame : PipeFrame) (size : ℕ) :
    frame.storeHeader (header size) =
      { frame with magic := achpipe, sizeBytes := sizeByte size } := by
  have h1 : ∀ i : Fin 8, (header size).getD i.val (frame.magic i) = achpipe i := fun i => by
    rw [header, List.getD_append _ _ _ _ (by simp), List.getD_eq_getElem _ _ (by simp),
      List.getElem_ofFn]
  have h2 : ∀ i : Fin 8, (header size).getD (8 + i.val) (frame.sizeBytes i) = sizeByte size i :=
    fun i => by
      rw [header, List.getD_append_right _ _ _ _ (by simp), List.getD_eq_getElem _ _ (by simp),
        List.getElem_ofFn]
      simp
  simp only [PipeFrame.storeHeader, h1, h2]

/-! ### The size -/

theorem finRange_eight : List.finRange 8 = [0, 1, 2, 3, 4, 5, 6, 7] := by decide

theorem shifted_sizeByte (wide : WideShift) (n : ℕ) (i : Fin 8) (hi : i.val < 4) :
    shifted wide (sizeByte n i) (8 * i.val) = (n / 256 ^ i.val % 256) <<< (8 * i.val) := by
  have hb : n / 256 ^ i.val % 256 < 256 := Nat.mod_lt _ (by omega)
  have hpow : (256 : ℕ) ^ i.val = 2 ^ (8 * i.val) := by rw [pow_mul]; norm_num
  rw [shifted, if_pos (by omega), sizeByte, UInt8.toNat_ofNat', Nat.shiftRight_eq_div_pow, ← hpow]
  refine Nat.mod_eq_of_lt ?_
  rw [Nat.shiftLeft_eq]
  have : (2 : ℕ) ^ (8 * i.val) ≤ 2 ^ 24 := Nat.pow_le_pow_right (by omega) (by omega)
  calc n / 256 ^ i.val % 256 * 2 ^ (8 * i.val)
      ≤ 255 * 2 ^ 24 := Nat.mul_le_mul (by omega) this
    _ < 2 ^ 32 := by omega

theorem shifted_sizeByte_high (wide : WideShift) {n : ℕ} (hn : n < 2 ^ 32) (i : Fin 8)
    (hi : 4 ≤ i.val) : shifted wide (sizeByte n i) (8 * i.val) = 0 := by
  have hz : n >>> (8 * i.val) = 0 := by
    rw [Nat.shiftRight_eq_div_pow]
    refine Nat.div_eq_of_lt (hn.trans_le (Nat.pow_le_pow_right (by omega) (by omega)))
  rw [shifted, if_neg (by omega), sizeByte, hz]
  simp [wide.zero]

/-- The four low bytes put together again. -/
theorem or_bytes {n : ℕ} (hn : n < 2 ^ 32) :
    (n % 256 ||| (n / 256 % 256) <<< 8 ||| (n / 65536 % 256) <<< 16 |||
      (n / 16777216 % 256) <<< 24) = n := by
  have h1 : n % 256 ||| (n / 256 % 256) <<< 8 = n % 65536 := by
    rw [Nat.or_comm, ← Nat.shiftLeft_add_eq_or_of_lt (by omega), Nat.shiftLeft_eq]
    omega
  have h2 : n % 65536 ||| (n / 65536 % 256) <<< 16 = n % 16777216 := by
    rw [Nat.or_comm, ← Nat.shiftLeft_add_eq_or_of_lt (by omega), Nat.shiftLeft_eq]
    omega
  have h3 : n % 16777216 ||| (n / 16777216 % 256) <<< 24 = n := by
    rw [Nat.or_comm, ← Nat.shiftLeft_add_eq_or_of_lt (by omega), Nat.shiftLeft_eq]
    omega
  rw [h1, h2, h3]

/-- **The size round trip**, for sizes of 32 bits. -/
theorem getSize_of_sizeBytes (wide : WideShift) {n : ℕ} (hn : n < 2 ^ 32) {frame : PipeFrame}
    (h : frame.sizeBytes = sizeByte n) : achPipeGetSize wide frame = n := by
  have hl := shifted_sizeByte wide n
  have hh := shifted_sizeByte_high wide hn
  simp only [achPipeGetSize, finRange_eight, List.foldl_cons, List.foldl_nil, h]
  rw [hl 0 (by decide), hl 1 (by decide), hl 2 (by decide), hl 3 (by decide), hh 4 (by decide),
    hh 5 (by decide), hh 6 (by decide), hh 7 (by decide)]
  have h3 : (3 : Fin 8).val = 3 := rfl
  simpa [h3] using or_bytes hn

/-- The number the size bytes stand for. -/
def sizeField (frame : PipeFrame) : ℕ :=
  (List.finRange 8).foldr (fun i n => (frame.sizeBytes i).toNat + 256 * n) 0

/-- What `ach_pipe_set_size` stores stands for the size, for sizes of 64 bits. -/
theorem sizeField_of_sizeBytes {n : ℕ} (hn : n < 2 ^ 64) {frame : PipeFrame}
    (h : frame.sizeBytes = sizeByte n) : sizeField frame = n := by
  have hstep : ∀ (i : Fin 8) (m : ℕ), m = n / 2 ^ (8 * (i.val + 1)) →
      (sizeByte n i).toNat + 256 * m = n / 2 ^ (8 * i.val) := by
    rintro i m rfl
    rw [sizeByte, UInt8.toNat_ofNat', Nat.shiftRight_eq_div_pow,
      show 8 * (i.val + 1) = 8 * i.val + 8 by omega, pow_add, ← Nat.div_div_eq_div_mul]
    omega
  have h8 : 0 = n / 2 ^ (8 * 8) := (Nat.div_eq_of_lt hn).symm
  simp only [sizeField, finRange_eight, List.foldr_cons, List.foldr_nil, h]
  have h4 := hstep 4 _ (hstep 5 _ (hstep 6 _ (hstep 7 _ h8)))
  have h0 := hstep 0 _ (hstep 1 _ (hstep 2 _ (hstep 3 _ h4)))
  exact h0.trans (Nat.div_one n)

/-- **Every eight bytes are the size field of the number they stand for.** -/
theorem sizeByte_sizeField (frame : PipeFrame) : sizeByte (sizeField frame) = frame.sizeBytes := by
  have hsum : sizeField frame / 2 ^ (8 * 0) = sizeField frame := Nat.div_one _
  generalize hn : sizeField frame = n at hsum ⊢
  have hstep : ∀ (i : Fin 8) (m : ℕ), n / 2 ^ (8 * i.val) = (frame.sizeBytes i).toNat + 256 * m →
      sizeByte n i = frame.sizeBytes i ∧ n / 2 ^ (8 * (i.val + 1)) = m := by
    intro i m h
    have hlt : (frame.sizeBytes i).toNat < 256 := (frame.sizeBytes i).toNat_lt
    constructor
    · rw [← UInt8.toNat_inj, sizeByte, UInt8.toNat_ofNat', Nat.shiftRight_eq_div_pow, h]
      omega
    · rw [show 8 * (i.val + 1) = 8 * i.val + 8 by omega, pow_add, ← Nat.div_div_eq_div_mul, h]
      omega
  simp only [sizeField, finRange_eight, List.foldr_cons, List.foldr_nil] at hn
  obtain ⟨h0, t0⟩ := hstep 0 _ (hsum.trans hn.symm)
  obtain ⟨h1, t1⟩ := hstep 1 _ t0
  obtain ⟨h2, t2⟩ := hstep 2 _ t1
  obtain ⟨h3, t3⟩ := hstep 3 _ t2
  obtain ⟨h4, t4⟩ := hstep 4 _ t3
  obtain ⟨h5, t5⟩ := hstep 5 _ t4
  obtain ⟨h6, t6⟩ := hstep 6 _ t5
  obtain ⟨h7, -⟩ := hstep 7 _ t6
  funext i
  match i with
  | 0 => exact h0
  | 1 => exact h1
  | 2 => exact h2
  | 3 => exact h3
  | 4 => exact h4
  | 5 => exact h5
  | 6 => exact h6
  | 7 => exact h7

/-- A size field with nothing in its high half stands for a number of 32 bits. -/
theorem sizeField_lt {frame : PipeFrame} (h : ∀ i : Fin 8, 4 ≤ i.val → frame.sizeBytes i = 0) :
    sizeField frame < 2 ^ 32 := by
  have hlt : ∀ i, (frame.sizeBytes i).toNat < 256 := fun i => (frame.sizeBytes i).toNat_lt
  have h0 := hlt 0
  have h1 := hlt 1
  have h2 := hlt 2
  have h3 := hlt 3
  simp only [sizeField, finRange_eight, List.foldr_cons, List.foldr_nil, h 4 (by decide),
    h 5 (by decide), h 6 (by decide), h 7 (by decide), UInt8.toNat_zero]
  omega

/-- The size read is always one of 32 bits. -/
theorem getSize_lt (wide : WideShift) (frame : PipeFrame) : achPipeGetSize wide frame < 2 ^ 32 := by
  have hs : ∀ b n, shifted wide b n < 2 ^ 32 := fun b n => by
    unfold shifted
    split_ifs
    · exact Nat.mod_lt _ (by omega)
    · exact (wide.shift b n).toNat_lt
  simp only [achPipeGetSize, finRange_eight, List.foldl_cons, List.foldl_nil]
  repeat' refine Nat.or_lt_two_pow ?_ (hs _ _)
  omega

/-- **The round trips of the size field.** The size comes back if and only if it is one of 32 bits,
and the field does if and only if its four high bytes are zero. -/
theorem size_roundTrip_iff (wide : WideShift) (frame frame' : PipeFrame) (n : ℕ) :
    (achPipeGetSize wide (achPipeSetSize frame n) = n ↔ n < 2 ^ 32) ∧
    ((achPipeSetSize frame' (achPipeGetSize wide frame)).sizeBytes = frame.sizeBytes ↔
      ∀ i : Fin 8, 4 ≤ i.val → frame.sizeBytes i = 0) := by
  refine ⟨⟨fun h => ?_, fun h => getSize_of_sizeBytes wide h rfl⟩, ⟨fun h i hi => ?_, fun h => ?_⟩⟩
  · rw [← h]
    exact getSize_lt wide _
  · have hz : achPipeGetSize wide frame >>> (8 * i.val) = 0 := by
      rw [Nat.shiftRight_eq_div_pow]
      have hpow : (2 : ℕ) ^ 32 ≤ 2 ^ (8 * i.val) := Nat.pow_le_pow_right (by omega) (by omega)
      exact Nat.div_eq_of_lt ((getSize_lt wide frame).trans_le hpow)
    rw [← h]
    simp only [achPipeSetSize, sizeByte, hz]
    rfl
  · have hget : achPipeGetSize wide frame = sizeField frame :=
      getSize_of_sizeBytes wide (sizeField_lt h) (sizeByte_sizeField frame).symm
    rw [achPipeSetSize, hget]
    exact sizeByte_sizeField frame

/-- A frame with a size field of zeros. -/
def zeroFrame : PipeFrame := ⟨achpipe, fun _ => 0, fun _ => 0⟩

/-- A size of `2 ^ 32` comes back as 1 on x86, and its size field does not come back. -/
theorem size_two_pow_32 :
    achPipeGetSize .x86 (achPipeSetSize zeroFrame (2 ^ 32)) = 1 ∧
    (achPipeSetSize zeroFrame
      (achPipeGetSize .x86 (achPipeSetSize zeroFrame (2 ^ 32)))).sizeBytes ≠
      (achPipeSetSize zeroFrame (2 ^ 32)).sizeBytes := by
  refine ⟨by decide +kernel, fun h => ?_⟩
  have h4 := congrFun h 4
  revert h4
  decide +kernel

end Ach.Daemon.Pipe
