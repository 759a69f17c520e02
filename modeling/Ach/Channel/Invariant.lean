import Ach.Channel.Get
import Ach.Lib.Ring
import Ach.Lib.Suffix
import Mathlib.Data.List.GetD

/-! # The representation invariant of a channel

What the block of shared memory stands for is the list `hist` of the frames accepted so far, of
which the last `kept` are still held. Frame number `k + 1` is `hist[k]`; written one after the
other, the frames are one unbounded stream of bytes, in which it starts at `startOf hist k`. The
sequence numbers in the block are these numbers modulo `2 ^ 64`.

Both arrays are circular windows (`Ach.Lib.Ring`). The index array is a full window of the sequence
of index entries, from the entry of the oldest frame held on: an entry per frame accepted, zero
entries after them. The data array is a window of the byte stream, from the first byte of the
oldest frame held to the last byte accepted. -/

namespace Ach.Channel.Invariant

open Ach.Lib.Ring Ach.Lib.Suffix Ach.Channel.Types

variable {hist : List (List UInt8)} {k : ℕ}

/-! ### The byte stream -/

/-- Where frame `k + 1` starts in the byte stream. -/
def startOf (hist : List (List UInt8)) (k : ℕ) : ℕ := (hist.take k).flatten.length

theorem startOf_length (hist : List (List UInt8)) :
    startOf hist hist.length = hist.flatten.length := by
  rw [startOf, List.take_length]

theorem startOf_succ (hk : k < hist.length) :
    startOf hist (k + 1) = startOf hist k + (hist.getD k []).length := by
  rw [startOf, List.take_add_one, List.flatten_append, List.length_append, startOf,
    List.getElem?_eq_getElem hk, List.getD_eq_getElem _ _ hk]
  simp

theorem startOf_mono (hist : List (List UInt8)) {a b : ℕ} (h : a ≤ b) :
    startOf hist a ≤ startOf hist b := by
  have hp : hist.take a <+: hist.take b := List.take_prefix_take_left h
  obtain ⟨t, ht⟩ := hp
  rw [startOf, startOf, ← ht, List.flatten_append, List.length_append]
  omega

theorem startOf_le (hist : List (List UInt8)) (k : ℕ) : startOf hist k ≤ hist.flatten.length := by
  rcases Nat.le_total k hist.length with h | h
  · rw [← startOf_length]; exact startOf_mono hist h
  · rw [startOf, List.take_of_length_le h]

theorem startOf_append {m : List UInt8} (hk : k ≤ hist.length) :
    startOf (hist ++ [m]) k = startOf hist k := by
  rw [startOf, List.take_append_of_le_length hk, startOf]

theorem length_flatten_append (hist : List (List UInt8)) (m : List UInt8) :
    (hist ++ [m]).flatten.length = hist.flatten.length + m.length := by
  simp

theorem length_flatten_drop (hist : List (List UInt8)) (k : ℕ) :
    startOf hist k + (hist.drop k).flatten.length = hist.flatten.length := by
  have h : (hist.take k ++ hist.drop k).flatten.length = hist.flatten.length := by
    rw [List.take_append_drop]
  rw [← h, List.flatten_append, List.length_append, startOf]

/-- A frame is its piece of the byte stream. -/
theorem stream_eq (hk : k < hist.length) :
    ((List.range (hist.getD k []).length).map fun j =>
      hist.flatten.getD (startOf hist k + j) 0) = hist.getD k [] := by
  have hsplit : hist.flatten = (hist.take k).flatten ++ ((hist.getD k []) ++
      (hist.drop (k + 1)).flatten) := by
    conv_lhs => rw [← List.take_append_drop k hist, List.drop_eq_getElem_cons hk]
    rw [List.flatten_append, List.flatten_cons, List.getD_eq_getElem _ _ hk]
  refine List.ext_getElem (by simp) fun j h1 h2 => ?_
  rw [List.getElem_map, List.getElem_range, hsplit, startOf,
    List.getD_append_right _ _ _ _ (by omega),
    Nat.add_sub_cancel_left, List.getD_append _ _ _ _ h2, List.getD_eq_getElem _ _ h2]

/-! ### The invariant -/

/-- The index entry of frame `k + 1`, zero if there is no such frame yet. -/
def slotOf (hist : List (List UInt8)) (dataSize k : ℕ) : AchIndex :=
  if k < hist.length then
    ⟨(hist.getD k []).length, startOf hist k % dataSize, (k + 1) % 2 ^ 64⟩
  else .zero

theorem slotOf_lt {dataSize : ℕ} (hk : k < hist.length) :
    slotOf hist dataSize k =
      ⟨(hist.getD k []).length, startOf hist k % dataSize, (k + 1) % 2 ^ 64⟩ := if_pos hk

theorem slotOf_ge {dataSize : ℕ} (hk : hist.length ≤ k) : slotOf hist dataSize k = .zero :=
  if_neg (by omega)

theorem slotOf_append {dataSize : ℕ} {m : List UInt8} (hk : k ≠ hist.length) :
    slotOf (hist ++ [m]) dataSize k = slotOf hist dataSize k := by
  rcases Nat.lt_or_ge k hist.length with h | h
  · rw [slotOf_lt h, slotOf_lt (by simp; omega), startOf_append h.le, List.getD_append _ _ _ _ h]
  · rw [slotOf_ge h, slotOf_ge (by simp; omega)]

/-- **The block represents `hist`, of which the last `kept` frames are held.** The sizes are those
of a block that exists: `ach_create` can allocate less than `2 ^ 63` bytes only. -/
structure Rep (hist : List (List UInt8)) (kept : ℕ) (shm : AchHeader) : Prop where
  cntSmall : shm.indexCnt < 2 ^ 63
  sizeSmall : shm.dataSize < 2 ^ 63
  nonempty : ∀ f ∈ hist, f ≠ []
  keptHist : kept ≤ hist.length
  keptCnt : kept ≤ shm.indexCnt
  lastSeq : shm.lastSeq = hist.length % 2 ^ 64
  indexHead : shm.indexHead = hist.length % shm.indexCnt
  indexFree : shm.indexFree = shm.indexCnt - kept
  dataHead : shm.dataHead = hist.flatten.length % shm.dataSize
  dataFree : shm.dataFree + hist.flatten.length = shm.dataSize + startOf hist (hist.length - kept)
  indexLen : shm.index.length = shm.indexCnt
  index : Window shm.index (hist.length - kept) (hist.length - kept + shm.index.length)
    (slotOf hist shm.dataSize)
  dataLen : shm.data.length = shm.dataSize
  data : Window shm.data (startOf hist (hist.length - kept)) hist.flatten.length
    fun p => hist.flatten.getD p 0

/-- The frames that are held. -/
def held (hist : List (List UInt8)) (kept : ℕ) : List (List UInt8) := hist.drop (hist.length - kept)

/-- At most `cnt` frames and at most `size` bytes. -/
def FitsIn (cnt size : ℕ) (l : List (List UInt8)) : Prop :=
  l.length ≤ cnt ∧ l.flatten.length ≤ size

theorem fitsIn_hereditary (cnt size : ℕ) : Hereditary (FitsIn cnt size) := by
  constructor
  · rintro u v ⟨w, rfl⟩ ⟨h1, h2⟩
    simp only [List.length_append, List.flatten_append] at h1 h2
    exact ⟨by omega, by omega⟩
  · rintro u a ⟨h1, h2⟩
    rw [length_flatten_append] at h2
    rw [List.length_append] at h1
    exact ⟨by omega, by omega⟩

/-- The channel is between two calls: nobody holds the mutex or is writing, the guards are intact.
-/
structure Clean (shm : AchHeader) : Prop where
  mutex : shm.mutex = .free
  dirty : shm.dirty = false
  guards : GuardsOk shm

section
variable {kept : ℕ} {shm : AchHeader} (h : Rep hist kept shm)
include h

theorem Rep.startOf_le_dataSize : hist.flatten.length ≤ startOf hist (hist.length - kept) +
    shm.dataSize := by
  have := h.data.len
  rw [h.dataLen] at this
  exact this

/-- The entry of a frame that is held. -/
theorem Rep.slot {s : ℕ} (h1 : hist.length - kept ≤ s) (h2 : s < hist.length) :
    shm.index[s % shm.indexCnt]? =
      some ⟨(hist.getD s []).length, startOf hist s % shm.dataSize, (s + 1) % 2 ^ 64⟩ := by
  have := h.keptCnt
  have := h.indexLen
  have := h.index.get s h1 (by omega)
  rwa [h.indexLen, slotOf_lt h2] at this

/-- A free slot is zero. -/
theorem Rep.freeSlot {s : ℕ} (h1 : hist.length ≤ s) (h2 : s < hist.length + shm.indexFree) :
    shm.index[s % shm.indexCnt]? = some .zero := by
  have := h.keptHist
  have := h.keptCnt
  have := h.indexFree
  have := h.indexLen
  have := h.index.get s (by omega) (by omega)
  rwa [h.indexLen, slotOf_ge h1] at this

end

end Ach.Channel.Invariant
