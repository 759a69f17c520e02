import Ach.Channel.History
import Ach.Spin.Model

/-! # The channel that the SPIN model models

The global variables of `ach.pml` are those of a block of `ach.c` (`header`), with a flag in each
index entry that says whether it is in use; in `ach.c` an entry is in use if its number is not zero.
Here are also the rules for the statements of the model, and what the constants have to satisfy
(`Wide`): no value that is stored is cut. -/

namespace Ach.Spin.Abstract

open Ach.Lib.Run Ach.Lib.Interleave
open Ach.Channel.Types Ach.Channel.Create Ach.Channel.Invariant Ach.Channel.PutSpec
open Ach.Channel.History
open Ach.Spin.Model

/-! ### The constants -/

/-- **The constants are wide enough** for `n` processes. Fields have at most 32 bits. -/
structure Wide (c : Consts) (n : ℕ) : Prop where
  cnt : 0 < c.indexCnt
  size : 0 < c.dataSize
  msg : c.maxMsgSize ≤ c.dataSize
  bits : c.sizeBits ≤ 32
  cntBits : c.indexCnt + 1 < 2 ^ c.sizeBits
  sizeBits : c.dataSize + 1 < 2 ^ c.sizeBits
  cntByte : c.indexCnt ≤ 256
  msgByte : c.maxMsgSize < 256
  seqBits : c.nMsgs + n ≤ 2 ^ c.seqNumBits
  seqByte : c.nMsgs + n ≤ 256

instance (c : Consts) (n : ℕ) : Decidable (Wide c n) :=
  decidable_of_iff (0 < c.indexCnt ∧ 0 < c.dataSize ∧ c.maxMsgSize ≤ c.dataSize ∧
    c.sizeBits ≤ 32 ∧ c.indexCnt + 1 < 2 ^ c.sizeBits ∧ c.dataSize + 1 < 2 ^ c.sizeBits ∧
    c.indexCnt ≤ 256 ∧ c.maxMsgSize < 256 ∧ c.nMsgs + n ≤ 2 ^ c.seqNumBits ∧ c.nMsgs + n ≤ 256)
    ⟨fun ⟨h1, h2, h3, h4, h5, h6, h7, h8, h9, h10⟩ => ⟨h1, h2, h3, h4, h5, h6, h7, h8, h9, h10⟩,
      fun ⟨h1, h2, h3, h4, h5, h6, h7, h8, h9, h10⟩ => ⟨h1, h2, h3, h4, h5, h6, h7, h8, h9, h10⟩⟩

theorem Wide.small {c : Consts} {n : ℕ} (h : Wide c n) : c.dataSize < 2 ^ 32 := by
  have := Nat.pow_le_pow_right (show 0 < 2 by omega) h.bits
  have := h.sizeBits
  omega

/-- A value that fits is not cut. -/
theorem trunc_eq {w n : ℕ} {v : ℤ} (hv : v = n) (hn : n < 2 ^ w) : trunc w v = n := by
  subst hv
  rw [trunc, show ((n : ℤ) % 2 ^ w) = ((n % 2 ^ w : ℕ) : ℤ) by push_cast; rfl, Int.toNat_natCast,
    Nat.mod_eq_of_lt hn]

/-! ### The block -/

/-- The entry of `ach.c`. -/
def absIndex (e : Index) : AchIndex := ⟨e.size, e.offset, e.seqNum⟩

/-- **The block of `ach.c`**, in the middle of a section of a writer. -/
def header (c : Consts) (g : Shm) : AchHeader where
  magic := achShmMagicNum
  len := createLen c.indexCnt c.dataSize
  indexCnt := c.indexCnt
  dataSize := c.dataSize
  dataHead := g.shmDataHead
  dataFree := g.shmDataFree
  indexHead := g.shmIdxHead
  indexFree := g.shmIdxFree
  mutex := .held
  dirty := true
  lastSeq := g.shmLastSeq
  guardHeader := achShmGuardHeaderNum
  index := g.shmIdx.map absIndex
  guardIndex := achShmGuardIndexNum
  data := g.shmData
  guardData := achShmGuardDataNum
  strayUnlocks := 0

/-- The flags agree with the numbers. -/
def UsedOk (g : Shm) : Prop := ∀ e ∈ g.shmIdx, e.used = decide (e.seqNum ≠ 0)

theorem header_index {c : Consts} {g : Shm} {i : ℕ} {e : AchIndex} (hu : UsedOk g)
    (h : (header c g).index[i]? = some e) :
    g.shmIdx[i]? = some ⟨e.size, e.offset, e.seqNum, decide (e.seqNum ≠ 0)⟩ := by
  obtain ⟨x, hx, rfl⟩ : ∃ x, g.shmIdx[i]? = some x ∧ absIndex x = e := by simpa [header] using h
  have hused := hu x (List.mem_of_getElem? hx)
  rw [hx, show (absIndex x).seqNum = x.seqNum from rfl, ← hused]
  rfl

theorem idx_of_getElem? {g : Shm} {i : ℕ} {e : Index} (h : g.shmIdx[i]? = some e) :
    g.idx i = e := by
  rw [Shm.idx, List.getD_eq_getElem?_getD, h, Option.getD_some]

theorem length_of_getElem? {g : Shm} {i : ℕ} {e : Index} (h : g.shmIdx[i]? = some e) :
    i < g.shmIdx.length := (List.getElem?_eq_some_iff.mp h).1

theorem UsedOk.set {g : Shm} (hu : UsedOk g) (i : ℕ) {e : Index}
    (he : e.used = decide (e.seqNum ≠ 0)) : UsedOk { g with shmIdx := g.shmIdx.set i e } := by
  intro x hx
  rcases List.mem_or_eq_of_mem_set hx with hx | rfl
  · exact hu x hx
  · exact he

/-- The globals with another index. -/
def withIdx (g : Shm) (idx : List Index) : Shm := { g with shmIdx := idx }

theorem withIdx_self {g : Shm} {i : ℕ} {e : Index} (h : g.shmIdx[i]? = some e) :
    withIdx g (g.shmIdx.set i e) = g := by
  obtain ⟨hi, rfl⟩ := List.getElem?_eq_some_iff.mp h
  rw [List.set_getElem_self]
  rfl

/-! ### The channel between two sections -/

/-- The block with its mutex free. -/
def atRest (c : Consts) (g : Shm) : AchHeader := { header c g with mutex := .free, dirty := false }

/-- Every frame begins with its number. -/
def Stamped (hist : List (List UInt8)) : Prop :=
  ∀ s < hist.length, (hist.getD s []).getD 0 0 = UInt8.ofNat (s + 1)

/-- The block is that of an empty channel after successful calls of `ach_put` with these frames. -/
def PutBy (c : Consts) (hist : List (List UInt8)) (g : Shm) : Prop :=
  ∃ calls : List PutCall, putAll true calls (atRest c (initShm c)) =
      .ok (List.replicate calls.length .ok, atRest c g) ∧
    calls.map (fun p => frameOf (p.buf.getD fun _ => 0) p.len) = hist

/-- **The channel between two sections**, with the frames `hist` put so far. -/
structure Chan (c : Consts) (hist : List (List UInt8)) (k : ℕ) (g : Shm) : Prop where
  inv : Inv hist k (header c g)
  used : UsedOk g
  stamped : Stamped hist
  puts : PutBy c hist g

/-! ### What others see -/

/-- What a section begun at `g₀` lets the others see: the never claim stays false, and no number is
taken back. -/
structure View (c : Consts) (g₀ g : Shm) : Prop where
  dataFree : g.shmDataFree ≤ c.dataSize
  idxFree : g.shmIdxFree ≤ c.indexCnt
  dataHead : g.shmDataHead ≤ c.dataSize
  idxHead : g.shmIdxHead ≤ c.indexCnt
  lastSeq : g₀.shmLastSeq ≤ g.shmLastSeq

theorem View.not_neverClaim {c : Consts} {g₀ g : Shm} (h : View c g₀ g) : ¬ NeverClaim c g := by
  obtain ⟨h1, h2, h3, h4, -⟩ := h
  unfold NeverClaim
  omega

/-- The process is inside a section begun at `g₀`. -/
def Inside (c : Consts) (g₀ : Shm) (s : State) : Prop := s.1.shmMutex = true ∧ View c g₀ s.1

/-! ### The rules for the statements -/

section
variable {inside : State → Prop} {Q : Code → State → Prop} {R : State → Prop} {s : State}

theorem wp_check {p : State → Bool} (hs : inside s) (hp : p s = true) (h : R s) :
    wp inside Q (check p) R s := wp_exec hs hp (wp_done h)

theorem wp_print (hs : inside s) (h : R s) : wp inside Q print R s := wp_exec hs rfl (wp_done h)

theorem wp_setShm {ok : State → Bool} {f : Shm → Locals → Shm} (hs : inside s) (hok : ok s = true)
    (h : R (f s.1 s.2, s.2)) : wp inside Q (setShm ok f) R s := wp_exec hs hok (wp_done h)

theorem wp_setLoc {ok : State → Bool} {f : Shm → Locals → Locals} (hs : inside s)
    (hok : ok s = true) (h : R (s.1, f s.1 s.2)) : wp inside Q (setLoc ok f) R s :=
  wp_exec hs hok (wp_done h)

/-- Storing a field of the entry `m`, of which it is known that it holds `x`. -/
theorem wp_setIdx {i : State → ℕ} {f : State → Index → Index} {g : Shm} {l : Locals} {m : ℕ}
    {x : Index} {idx : List Index} (hs : ∀ idx, inside (withIdx g idx, l))
    (hi : ∀ idx, i (withIdx g idx, l) = m) (hm : m < idx.length)
    (h : R (withIdx g (idx.set m (f (withIdx g (idx.set m x), l) x)), l)) :
    wp inside Q (setIdx i f) R (withIdx g (idx.set m x), l) := by
  have hlen : m < (idx.set m x).length := by simpa using hm
  have hx : (withIdx g (idx.set m x)).idx m = x :=
    idx_of_getElem? (show (idx.set m x)[m]? = some x from List.getElem?_set_self hm)
  refine wp_exec (hs _) ?_ (wp_done ?_)
  · rw [hasIdx, hi]
    exact decide_eq_true hlen
  · rw [hi, hx]
    rw [show (withIdx g (idx.set m x)).shmIdx = idx.set m x from rfl, List.set_set]
    exact h

theorem two_cases (j : Fin 2) : j = 0 ∨ j = 1 := by revert j; decide

theorem wp_ifElse {ok g : State → Bool} {a b : Code} (hs : inside s) (hok : ok s = true)
    (ht : g s = true → wp inside Q a R s) (hf : g s = false → wp inside Q b R s) :
    wp inside Q (ifElse ok g a b) R s := by
  have hnot : g s = false → (!g s) = true := fun h => by simp [h]
  refine wp_choose hs hok ?_ fun j hj => ?_
  · cases hg : g s with
    | true => exact ⟨0, hg⟩
    | false => exact ⟨1, hnot hg⟩
  · refine wp_mono ?_ fun t ht => wp_done ht
    obtain rfl | rfl := two_cases j
    · exact ht hj
    · have hg : (!g s) = true := hj
      exact hf (by simpa using hg)

theorem three_cases (j : Fin 3) : j = 0 ∨ j = 1 ∨ j = 2 := by revert j; decide

/-- `if` with three branches. -/
theorem wp_chooseThree {ok g₀ g₁ g₂ : State → Bool} {a₀ a₁ a₂ : Code} (hs : inside s)
    (hok : ok s = true) (hex : g₀ s = true ∨ g₁ s = true ∨ g₂ s = true)
    (h0 : g₀ s = true → wp inside Q a₀ R s)
    (h1 : g₁ s = true → wp inside Q a₁ R s) (h2 : g₂ s = true → wp inside Q a₂ R s) :
    wp inside Q (.choose ok 3 ![g₀, g₁, g₂] ![a₀, a₁, a₂] .done) R s := by
  refine wp_choose hs hok ?_ fun j hj => wp_mono ?_ fun t ht => wp_done ht
  · rcases hex with hg | hg | hg
    · exact ⟨0, hg⟩
    · exact ⟨1, hg⟩
    · exact ⟨2, hg⟩
  · obtain rfl | rfl | rfl := three_cases j
    · exact h0 hj
    · exact h1 hj
    · exact h2 hj

end

end Ach.Spin.Abstract
