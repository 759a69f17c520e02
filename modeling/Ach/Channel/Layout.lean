import Ach.Channel.Bounds
import Ach.Lib.Tiling

/-! # Where the parts of a channel lie

The block of a channel is the header, the index array and the data array, each followed by a guard
word. The `ACH_SHM_*` macros find the parts by adding up sizes; `ach_create` adds up the same sizes,
modulo `2 ^ 64`, for the length of the block.

The parts fill the block, and a put writes inside of it and never on a guard, if and only if the sum
does not wrap around (`layout_iff_noWrap`). `ach_open` adds up the sizes without the three guard
words: the length it maps is always 24 bytes short (`open_short`). -/

namespace Ach.Channel.Layout

open Ach.Lib.Run Ach.Lib.Word Ach.Lib.Tiling
open Ach.Channel.Types Ach.Channel.Lock Ach.Channel.Put Ach.Channel.Create Ach.Channel.Invariant
open Ach.Channel.PutSpec Ach.Channel.Frame Ach.Channel.History Ach.Channel.Runs Ach.Channel.Reach
open Ach.Channel.Bounds

/-! ### The macros -/

/-- `sizeof(uint64_t)`. -/
def sizeofGuard : ℕ := 8

/-- `ACH_SHM_GUARD_HEADER`, as all of these counted in bytes from the start of the block. -/
def achShmGuardHeader : ℕ := sizeofHeader

/-- `ACH_SHM_INDEX`. -/
def achShmIndex : ℕ := achShmGuardHeader + sizeofGuard

/-- `ACH_SHM_GUARD_INDEX`. -/
def achShmGuardIndex (shm : AchHeader) : ℕ := achShmIndex + sizeofIndex * shm.indexCnt

/-- `ACH_SHM_DATA`. -/
def achShmData (shm : AchHeader) : ℕ := achShmGuardIndex shm + sizeofGuard

/-- `ACH_SHM_GUARD_DATA`. -/
def achShmGuardData (shm : AchHeader) : ℕ := achShmData shm + shm.dataSize

/-! ### The parts -/

def header : Region := ⟨0, sizeofHeader⟩

def guardHeader : Region := ⟨achShmGuardHeader, sizeofGuard⟩

def indexArray (cnt : ℕ) : Region := ⟨achShmIndex, sizeofIndex * cnt⟩

def guardIndex (shm : AchHeader) : Region := ⟨achShmGuardIndex shm, sizeofGuard⟩

def dataArray (shm : AchHeader) (bytes : ℕ) : Region := ⟨achShmData shm, bytes⟩

def guardData (shm : AchHeader) : Region := ⟨achShmGuardData shm, sizeofGuard⟩

/-- The parts of a channel of `cnt` frames of `size` bytes. -/
def parts (cnt size : ℕ) (shm : AchHeader) : List Region :=
  [header, guardHeader, indexArray cnt, guardIndex shm, dataArray shm (cnt * size), guardData shm]

/-- **The parts are disjoint, in order, and fill the block.** -/
structure LaidOut (cnt size : ℕ) (shm : AchHeader) : Prop where
  ordered : (parts cnt size shm).Pairwise fun r r' => r.stop ≤ r'.start
  disjoint : (parts cnt size shm).Pairwise fun r r' => Disjoint r.bytes r'.bytes
  fills : (⋃ r ∈ parts cnt size shm, r.bytes) = Set.Ico 0 shm.len

/-- One index entry. -/
def entry (i : ℕ) : Region := ⟨achShmIndex + sizeofIndex * i, sizeofIndex⟩

/-- One data byte. -/
def dataByte (shm : AchHeader) (p : ℕ) : Region := ⟨achShmData shm + p, 1⟩

/-- The fields of the header. -/
def headerFields (s : AchHeader) : AchHeader :=
  { s with guardHeader := 0, index := [], guardIndex := 0, data := [], guardData := 0 }

/-- **The addresses written to** on the way from one state of the block to another: those of every
part, entry or byte that differs. -/
inductive Written (s t : AchHeader) (x : ℕ) : Prop where
  | header (hx : x ∈ header.bytes) (h : headerFields s ≠ headerFields t)
  | guardHeader (hx : x ∈ guardHeader.bytes) (h : s.guardHeader ≠ t.guardHeader)
  | entry (i : ℕ) (hx : x ∈ (entry i).bytes) (h : s.index[i]? ≠ t.index[i]?)
  | guardIndex (hx : x ∈ (guardIndex s).bytes) (h : s.guardIndex ≠ t.guardIndex)
  | dataByte (p : ℕ) (hx : x ∈ (dataByte s p).bytes) (h : s.data[p]? ≠ t.data[p]?)
  | guardData (hx : x ∈ (guardData s).bytes) (h : s.guardData ≠ t.guardData)

/-- **A put stays inside of the block and off the guards**: it accesses the arrays in bounds, and at
every time what it has written lies in the block and not on a guard. -/
structure StoresInside (dbg : Bool) (chan : AchChannel) (buf : Option (ℕ → UInt8)) (len : ℕ)
    (shm : AchHeader) : Prop where
  inBounds : out (achPut chan buf len) dbg shm ≠ .fault
  block : ∀ t ∈ log (achPut chan buf len) dbg shm, ∀ x, Written shm t x → x < shm.len
  guards : ∀ t ∈ log (achPut chan buf len) dbg shm, ∀ x, Written shm t x →
    x ∉ guardHeader.bytes ∧ x ∉ (guardIndex shm).bytes ∧ x ∉ (guardData shm).bytes

/-! ### A block without a wrap-around -/

/-- **What stays of the block**: its length, its sizes and its guards. -/
structure Shape (b s : AchHeader) : Prop where
  len : s.len = b.len
  indexCnt : s.indexCnt = b.indexCnt
  dataSize : s.dataSize = b.dataSize
  guardHeader : s.guardHeader = b.guardHeader
  guardIndex : s.guardIndex = b.guardIndex
  guardData : s.guardData = b.guardData
  indexLen : s.index.length = b.index.length
  dataLen : s.data.length = b.data.length

theorem shape_refl (b : AchHeader) : Shape b b := ⟨rfl, rfl, rfl, rfl, rfl, rfl, rfl, rfl⟩

theorem stable_shape (b : AchHeader) : Stable (Shape b) := by
  constructor
  · intro s _ _ _ _ _ h
    exact ⟨h.1, h.2, h.3, h.4, h.5, h.6, h.7, h.8⟩
  · intro s i e h
    exact ⟨h.1, h.2, h.3, h.4, h.5, h.6, by simpa using h.7, h.8⟩
  · intro s p c h
    exact ⟨h.1, h.2, h.3, h.4, h.5, h.6, h.7, by simpa using h.8⟩

/-- Whatever a put does, the shape stays. -/
theorem achPut_shape (b : AchHeader) (chan : AchChannel) (buf : Option (ℕ → UInt8)) (len : ℕ) :
    Keeps (Shape b) (achPut chan buf len) :=
  achPut_keeps (fun _ _ _ _ h => ⟨h.1, h.2, h.3, h.4, h.5, h.6, h.7, h.8⟩) (stable_shape b) chan buf
    len

section
variable {cnt size : ℕ}

/-- **Each part starts where the one before ends**, and the last ends with the block. -/
theorem tiles_created (h : NoWrap cnt size) :
    Tiles 0 (parts cnt size (created cnt size)) (created cnt size).len := by
  have hlen := createLen_eq h
  have hmul : wmul cnt size = cnt * size := wmul_eq (by unfold NoWrap at h; omega)
  refine ⟨rfl, ?_, rfl, rfl, rfl, ?_, ?_⟩
  · simp [header, guardHeader, Region.stop, achShmGuardHeader]
  · simp only [dataArray, guardData, Region.stop, achShmGuardData, created, hmul]
  · change (guardData (created cnt size)).stop = createLen cnt size
    simp only [guardData, Region.stop, achShmGuardData, achShmData, achShmGuardIndex, achShmIndex,
      achShmGuardHeader, sizeofGuard, created, hmul, hlen]
    ring

theorem laidOut_created (h : NoWrap cnt size) : LaidOut cnt size (created cnt size) := by
  have htiles := tiles_created h
  refine ⟨htiles.ordered, ?_, htiles.fills⟩
  exact htiles.ordered.imp fun hle => Region.disjoint_of_le hle

/-- The data guard of a channel laid out in fewer than `2 ^ 64` bytes is where the sum of the sizes
says. -/
theorem noWrap_of_laidOut (h : LaidOut cnt size (created cnt size))
    (hlen : createLen cnt size < 2 ^ 64) : NoWrap cnt size := by
  have hdata : (dataArray (created cnt size) (cnt * size)).stop ≤
      (guardData (created cnt size)).start := by
    have := h.ordered
    simp only [parts, List.pairwise_cons] at this
    exact this.2.2.2.2.1 _ (by simp)
  have hlast : achShmGuardData (created cnt size) + 7 ∈ Set.Ico 0 (created cnt size).len := by
    rw [← h.fills, Set.mem_iUnion₂]
    refine ⟨guardData (created cnt size), by simp [parts], ?_⟩
    simp [Region.mem_bytes, guardData, Region.stop, sizeofGuard]
  have hend : achShmGuardData (created cnt size) + 7 < createLen cnt size := hlast.2
  simp only [dataArray, guardData, Region.stop, achShmGuardData, achShmData, achShmGuardIndex,
    achShmIndex, achShmGuardHeader, sizeofGuard, created] at hdata hend
  unfold NoWrap
  rw [Nat.mul_comm cnt sizeofIndex]
  omega

/-! ### Puts -/

variable {H : Type} [DecidableEq H] {dbg : Bool}

/-- Every step keeps the shape of the block. -/
theorem Shape.step {b : AchHeader} {h : H} {s t : Sys H} {fs : List (List UInt8)}
    (hs : Shape b s.shm) (hc : Clean s.shm) (hstep : Step dbg h s fs t) : Shape b t.shm := by
  cases hstep with
  | opens ho => exact hs
  | call hm hcall =>
    rename_i c r
    by_cases hput : ∃ buf len, c = .put buf len
    · obtain ⟨buf, len, rfl⟩ := hput
      obtain ⟨p, hp, hr⟩ := Outcome.bind_eq_ok.mp hcall
      obtain ⟨-, rfl⟩ : Reply.put p.1 p.2 = r ∧ { s with shm := p.2 } = t := by simpa using hr
      exact (achPut_shape b (s.chan h) buf len dbg s.shm hs).2 p.1 p.2 hp
    · rw [(call_read hc (fun buf len he => hput ⟨buf, len, he⟩) hcall).1]
      exact hs

theorem Reachable.shape {hist : List (List UInt8)} {s : Sys H}
    (hs : Reachable dbg cnt size hist s) : Shape (created cnt size) s.shm := by
  induction hs with
  | create hc _ =>
    rw [(achCreate_ok hc).1]
    exact shape_refl _
  | step hs hstep ih => exact ih.step hs.clean hstep

/-- A put on a channel without room for a byte does nothing. -/
theorem out_achPut_empty (chan : AchChannel) (buf : Option (ℕ → UInt8)) (len : ℕ)
    {shm : AchHeader} (hc : Clean shm) (h0 : shm.dataSize = 0) :
    out (achPut chan buf len) dbg shm ≠ .fault := by
  have hg : checkGuards shm = .ok := if_pos hc.guards
  cases buf with
  | none => simp [achPut]
  | some buf =>
    by_cases hlen : len = 0 ∨ chan.mapped = false
    · simp [achPut, hlen]
    · have hpos : 0 < len := by omega
      simp [achPut, hlen, hg, h0, hpos]

/-- The two arrays are accessed in bounds. -/
theorem put_inBounds {hist : List (List UInt8)} {s : Sys H} (hs : Reachable dbg cnt size hist s)
    (hwrap : NoWrap cnt size) (chan : AchChannel) (buf : Option (ℕ → UInt8)) (len : ℕ) :
    out (achPut chan buf len) dbg s.shm ≠ .fault := by
  have hmul : wmul cnt size = cnt * size := wmul_eq (by unfold NoWrap at hwrap; omega)
  rcases Nat.eq_zero_or_pos (cnt * size) with h0 | hpos
  · refine out_achPut_empty chan buf len hs.clean ?_
    rw [(Reachable.shape hs).dataSize]
    exact hmul.trans h0
  · have hcnt : 0 < cnt := Nat.pos_of_mul_pos_right hpos
    obtain ⟨hblock, hsmall⟩ := Reachable.inBounds hs hcnt hpos hwrap
    exact (achPut_safe dbg chan buf len hblock hs.clean hcnt hpos hsmall).1

/-- What lies between two states of one shape lies in the header or in one of the arrays. -/
theorem written_between {s t : AchHeader} {x : ℕ} (hs : Shape (created cnt size) s)
    (ht : Shape (created cnt size) t) (hx : Written s t x) :
    x < sizeofHeader ∨ achShmIndex ≤ x ∧ x < achShmGuardIndex s ∨
      achShmData s ≤ x ∧ x < achShmGuardData s := by
  have hlen : s.index.length = cnt ∧ t.index.length = cnt := by
    rw [hs.indexLen, ht.indexLen]
    simp [created]
  have hdata : s.data.length = s.dataSize ∧ t.data.length = s.dataSize := by
    rw [hs.dataLen, ht.dataLen, hs.dataSize]
    simp [created]
  have hcnt : s.indexCnt = cnt := hs.indexCnt
  cases hx with
  | header hx _ =>
    left
    simpa [Region.mem_bytes, header, Region.stop] using hx
  | guardHeader _ h => exact absurd (hs.guardHeader.trans ht.guardHeader.symm) h
  | entry i hx h =>
    have hi : i < cnt := by
      by_contra hge
      rw [List.getElem?_eq_none (by omega), List.getElem?_eq_none (by omega)] at h
      exact h rfl
    simp only [Region.mem_bytes, entry, Region.stop] at hx
    have : sizeofIndex * i + sizeofIndex ≤ sizeofIndex * cnt := by
      rw [← Nat.mul_succ]
      exact Nat.mul_le_mul_left _ hi
    simp only [achShmGuardIndex, hcnt]
    omega
  | guardIndex _ h => exact absurd (hs.guardIndex.trans ht.guardIndex.symm) h
  | dataByte p hx h =>
    have hp : p < s.dataSize := by
      by_contra hge
      rw [List.getElem?_eq_none (by omega), List.getElem?_eq_none (by omega)] at h
      exact h rfl
    simp only [Region.mem_bytes, dataByte, Region.stop] at hx
    simp only [achShmGuardData]
    omega
  | guardData _ h => exact absurd (hs.guardData.trans ht.guardData.symm) h

/-- **A put on a channel without a wrap-around** stays inside of the block and off the guards. -/
theorem put_storesInside {hist : List (List UInt8)} {s : Sys H}
    (hs : Reachable dbg cnt size hist s) (hwrap : NoWrap cnt size) (chan : AchChannel)
    (buf : Option (ℕ → UInt8)) (len : ℕ) : StoresInside dbg chan buf len s.shm := by
  have hshape := Reachable.shape hs
  have hbetween : ∀ t ∈ log (achPut chan buf len) dbg s.shm, ∀ x, Written s.shm t x →
      x < sizeofHeader ∨ achShmIndex ≤ x ∧ x < achShmGuardIndex s.shm ∨
        achShmData s.shm ≤ x ∧ x < achShmGuardData s.shm := by
    intro t ht x hx
    exact written_between hshape ((achPut_shape _ chan buf len dbg s.shm hshape).1 t ht) hx
  have hlast : achShmGuardData s.shm ≤ s.shm.len := by
    have := ((tiles_created hwrap).start_le (guardData (created cnt size)) (by simp [parts])).2
    simp only [guardData, Region.stop, achShmGuardData, achShmData, achShmGuardIndex] at this ⊢
    rw [hshape.len, hshape.indexCnt, hshape.dataSize]
    omega
  constructor
  · exact put_inBounds hs hwrap chan buf len
  · intro t ht x hx
    have := hbetween t ht x hx
    simp only [achShmGuardData, achShmData, achShmGuardIndex, achShmIndex,
      achShmGuardHeader] at this hlast
    omega
  · intro t ht x hx
    have := hbetween t ht x hx
    simp only [Region.mem_bytes, guardHeader, guardIndex, guardData, Region.stop, achShmGuardData,
      achShmData, achShmGuardIndex, achShmIndex, achShmGuardHeader, sizeofGuard] at this ⊢
    omega

end

/-- **The layout of a created channel.** The parts are disjoint, in order and fill the block, and
every put stays inside of it and off the guards, if and only if the sum of the sizes does not wrap
around. -/
theorem layout_iff_noWrap {H : Type} [DecidableEq H] {dbg : Bool} {env : CreateEnv}
    {name : List UInt8} {cnt size : ℕ} {mapAnon : Bool} {shm : AchHeader}
    (hcreate : achCreate dbg env name cnt size mapAnon = .ok (.ok shm)) :
    (LaidOut cnt size shm ∧ ∀ (hist : List (List UInt8)) (s : Sys H),
      Reachable dbg cnt size hist s → ∀ h buf len, (s.chan h).mapped = true →
        StoresInside dbg (s.chan h) buf len s.shm) ↔ NoWrap cnt size := by
  obtain ⟨rfl, hlen⟩ := achCreate_ok hcreate
  constructor
  · rintro ⟨hlaid, -⟩
    exact noWrap_of_laidOut hlaid (by omega)
  · intro hwrap
    exact ⟨laidOut_created hwrap, fun _ s hs h buf len _ => put_storesInside hs hwrap _ buf len⟩

theorem layout_iff_noWrap_sample :
    (LaidOut 2 3 (created 2 3) ∧ ∀ (hist : List (List UInt8)) (s : Sys Bool),
      Reachable true 2 3 hist s → ∀ h buf len, (s.chan h).mapped = true →
        StoresInside true (s.chan h) buf len s.shm) ↔ NoWrap 2 3 :=
  layout_iff_noWrap
    (show achCreate true CreateEnv.allOk [97] 2 3 false = .ok (.ok (created 2 3)) by decide)

/-- Two frames of `2 ^ 63` bytes: the data array has no byte, and the block is 392 bytes long. -/
theorem wrapped_layout :
    achCreate true CreateEnv.allOk [97] 2 (2 ^ 63) false = .ok (.ok (created 2 (2 ^ 63))) ∧
      (created 2 (2 ^ 63)).len = 392 ∧ ¬ LaidOut 2 (2 ^ 63) (created 2 (2 ^ 63)) := by
  refine ⟨by decide, by decide, fun h => ?_⟩
  have hwrap := noWrap_of_laidOut h (by decide)
  revert hwrap
  decide

/-! ### The length `ach_open` maps -/

/-- **A mapping of `len` bytes covers what the library accesses** past the index array: the index
guard, the data array and the data guard. -/
structure Covers (len : ℕ) (shm : AchHeader) : Prop where
  guardIndex : (guardIndex shm).bytes ⊆ Set.Ico 0 len
  dataArray : (dataArray shm shm.dataSize).bytes ⊆ Set.Ico 0 len
  guardData : (guardData shm).bytes ⊆ Set.Ico 0 len

/-- The length computed for a channel without a wrap-around leaves no room for the guard words. -/
theorem openLen_short {cnt size : ℕ} {shm : AchHeader} (hs : Shape (created cnt size) shm)
    (hwrap : NoWrap cnt size) :
    openLen shm + 3 * sizeofGuard = shm.len ∧
      achShmGuardData shm = openLen shm + 2 * sizeofGuard := by
  have hlen := createLen_eq hwrap
  have hmul : wmul cnt size = cnt * size := wmul_eq (by unfold NoWrap at hwrap; omega)
  have hcnt : shm.indexCnt = cnt := hs.indexCnt
  have hsize : shm.dataSize = cnt * size := hs.dataSize.trans hmul
  have hblock : shm.len = createLen cnt size := hs.len
  have hidx : wmul sizeofIndex cnt = sizeofIndex * cnt :=
    wmul_eq (by unfold NoWrap at hwrap; rw [Nat.mul_comm]; omega)
  have hsum : openLen shm = sizeofHeader + sizeofIndex * cnt + cnt * size := by
    unfold NoWrap at hwrap
    rw [Nat.mul_comm cnt sizeofIndex] at hwrap
    rw [openLen, hcnt, hsize, hidx, wadd_eq (a := sizeofHeader) (by omega), wadd_eq (by omega)]
  rw [Nat.mul_comm cnt sizeofIndex] at hlen
  constructor
  · rw [hblock, hlen, hsum, sizeofGuard]
  · simp only [achShmGuardData, achShmData, achShmGuardIndex, achShmIndex, achShmGuardHeader,
      sizeofGuard, hcnt, hsize, hsum]
    omega

/-- The data guard of such a channel is outside of a mapping of that length. -/
theorem guardData_outside {cnt size : ℕ} {shm : AchHeader} (hs : Shape (created cnt size) shm)
    (hwrap : NoWrap cnt size) :
    Disjoint (guardData shm).bytes (Set.Ico 0 (openLen shm)) ∧ ¬ Covers (openLen shm) shm := by
  have hguard := (openLen_short hs hwrap).2
  have hdisj : Disjoint (guardData shm).bytes (Set.Ico 0 (openLen shm)) := by
    rw [Set.disjoint_left]
    intro x hx hx'
    have h1 : achShmGuardData shm ≤ x := hx.1
    have h2 : x < openLen shm := hx'.2
    omega
  refine ⟨hdisj, fun hc => ?_⟩
  have hin : achShmGuardData shm ∈ (guardData shm).bytes := by
    simp [Region.mem_bytes, guardData, Region.stop, sizeofGuard]
  exact Set.disjoint_left.mp hdisj hin (hc.guardData hin)

/-- **`ach_open` always maps too little**: the length it computes is 24 bytes less than the block is
long, so that the data guard is outside of the mapping, and with it the last bytes of the data
array. A handle it gives has this length. -/
theorem open_short {H : Type} [DecidableEq H] {dbg : Bool} {cnt size : ℕ}
    {hist : List (List UInt8)} {s : Sys H} (hwrap : NoWrap cnt size)
    (hs : Reachable dbg cnt size hist s) :
    ¬ (openLen s.shm = s.shm.len ∧ Covers (openLen s.shm) s.shm) ∧
      openLen s.shm + 24 = s.shm.len ∧ ¬ Covers (openLen s.shm) s.shm ∧
      Disjoint (guardData s.shm).bytes (Set.Ico 0 (openLen s.shm)) ∧
      ∀ env name mapAnon chan, achOpen env name mapAnon s.shm = .ok (.ok chan) →
        chan.len = openLen s.shm := by
  have hshape := Reachable.shape hs
  have hsum : openLen s.shm + 24 = s.shm.len := (openLen_short hshape hwrap).1
  obtain ⟨hdisj, hcovers⟩ := guardData_outside hshape hwrap
  refine ⟨fun h => hcovers h.2, hsum, hcovers, hdisj, ?_⟩
  intro env name mapAnon chan hopen
  obtain rfl := (achOpen_ok hopen).1
  rfl

theorem open_short_sample :
    ¬ (openLen (created 2 3) = (created 2 3).len ∧ Covers (openLen (created 2 3)) (created 2 3)) ∧
    openLen (created 2 3) + 24 = (created 2 3).len ∧
    ¬ Covers (openLen (created 2 3)) (created 2 3) ∧
    Disjoint (guardData (created 2 3)).bytes (Set.Ico 0 (openLen (created 2 3))) ∧
    ∀ env name mapAnon chan, achOpen env name mapAnon (created 2 3) = .ok (.ok chan) →
      chan.len = openLen (created 2 3) := by
  have hcreate : achCreate true CreateEnv.allOk [97] 2 3 false = .ok (.ok (created 2 3)) := by
    decide
  have hs : Reachable true 2 3 [] (⟨created 2 3, fun _ => ⟨false, 0, 0, 0, false⟩⟩ : Sys Unit) :=
    .create hcreate fun _ => rfl
  exact open_short (by decide) hs

/-- Two frames of 3 bytes: the handle has a mapping of 374 bytes of the 398. Two frames of 1864
bytes: the length computed is one page and the data guard is on the next, where the handle is not
had, but a fault or `ACH_CORRUPT`. -/
theorem guard_on_next_page :
    (achOpen OpenEnv.allOk [97] false (created 2 3) = .ok (.ok (openedChan (created 2 3))) ∧
      (openedChan (created 2 3)).len = 374 ∧ (created 2 3).len = 398 ∧
      ¬ Covers (openedChan (created 2 3)).len (created 2 3)) ∧
    NoWrap 2 1864 ∧
    achCreate true CreateEnv.allOk [97] 2 1864 false = .ok (.ok (created 2 1864)) ∧
    openLen (created 2 1864) = 4096 ∧ (created 2 1864).len = 4120 ∧
    guardData (created 2 1864) = ⟨4112, 8⟩ ∧
    ¬ Covers (openLen (created 2 1864)) (created 2 1864) ∧
    achOpen OpenEnv.allOk [97] false (created 2 1864) = .fault ∧
    achOpen ⟨fun _ => none, true, none, none, true⟩ [97] false (created 2 1864) =
      .ok (.error .corrupt) := by
  refine ⟨⟨by decide, by decide, by decide, fun hc => ?_⟩, by decide, rfl, by decide, by decide,
    by decide, fun hc => ?_, by decide, by decide⟩
  · exact (guardData_outside (shape_refl _) (by decide)).2 hc
  · exact (guardData_outside (shape_refl _) (by decide)).2 hc

end Ach.Channel.Layout
