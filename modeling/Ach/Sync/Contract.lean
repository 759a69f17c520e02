import Ach.Sync.Linearize
import Mathlib.Data.Finset.Card

/-! # Delivery, with everybody at once

The delivery contract of `Ach.Channel.Delivery` is about runs of whole calls. Every run of the
machine is linearized by such calls (`Ach.Sync.Linearize`), with cancel flags set in between, which
the contract does not depend on. So what the callers see in any run of the machine keeps the
contract. -/

namespace Ach.Sync.Contract

open Ach.Lib.Run Ach.Lib.Word
open Ach.Channel.Types Ach.Channel.Create Ach.Channel.Invariant Ach.Channel.PutSpec
open Ach.Channel.History Ach.Channel.Delivery
open Ach.Channel.Runs (Call Reply Sys Event puts Good length_frames)
open Ach.Sync.Machine (Op St Label Quiet run)
open Ach.Sync.Wakeup (sampleSt)
open Ach.Sync.Atomic Ach.Sync.Linearize

variable {H : Type} [DecidableEq H]

/-- The calls among the effects. -/
def events (es : List (Effect H)) : List (Event H) :=
  es.filterMap fun
    | .call h c r => some ⟨h, c, r⟩
    | .cancel _ => none

/-- The puts among the effects. -/
def putEffects (es : List (Effect H)) : ℕ :=
  es.countP fun
    | .call _ c _ => c.isPut
    | .cancel _ => false

/-- The puts that a run begins. -/
def putBegins (ls : List (Label H)) : ℕ :=
  ls.countP fun
    | .begin _ (.put _ _) => true
    | _ => false

/-- The handles whose put is still to take effect are in `F`. -/
def Pending (F : Finset H) (p : H → Progress) : Prop :=
  ∀ h buf len, p h = .called (.put buf len) → h ∈ F

/-- A handle that is not about to put any more. -/
theorem Pending.drop {F : Finset H} {p : H → Progress} (hF : Pending F p) (h : H) {q : Progress}
    (hq : ∀ buf len, q ≠ .called (.put buf len)) : Pending (F.erase h) (Function.update p h q) := by
  intro g buf len hg
  by_cases hgh : g = h
  · subst hgh
    rw [Function.update_self] at hg
    exact absurd hg (hq buf len)
  · rw [Function.update_of_ne hgh] at hg
    exact Finset.mem_erase.mpr ⟨hgh, hF g buf len hg⟩

theorem Pending.insert {F : Finset H} {p : H → Progress} (hF : Pending F p) (h : H)
    (q : Progress) : Pending (insert h F) (Function.update p h q) := by
  intro g buf len hg
  by_cases hgh : g = h
  · exact Finset.mem_insert.mpr (Or.inl hgh)
  · rw [Function.update_of_ne hgh] at hg
    exact Finset.mem_insert_of_mem (hF g buf len hg)

/-- **No put takes effect twice**, and none that was not begun. -/
theorem putEffects_le : ∀ (ms : List (Mark H)) (p : H → Progress) (F : Finset H), Placed ms p →
    Pending F p → putEffects (effects ms) ≤ putBegins (labels ms) + F.card := by
  intro ms
  induction ms with
  | nil => exact fun p F _ _ => Nat.zero_le _
  | cons m ms ih =>
    intro p F hms hF
    have hdrop : ∀ (h : H) (q : Progress), (∀ buf len, q ≠ .called (.put buf len)) →
        Placed ms (Function.update p h q) →
        putEffects (effects ms) ≤ putBegins (labels ms) + F.card := fun h q hq hms =>
      (ih _ _ hms (hF.drop h hq)).trans (Nat.add_le_add_left (Finset.card_erase_le) _)
    cases m with
    | step l =>
      cases l with
      | begin h op =>
        cases op with
        | put buf len =>
          have := ih _ _ hms.2 (hF.insert h _)
          have hcard := Finset.card_insert_le h F
          have hl : putBegins (labels (.step (.begin h (.put buf len)) :: ms)) =
              putBegins (labels ms) + 1 := List.countP_cons_of_pos rfl
          have he : effects (.step (.begin h (.put buf len)) :: ms) = effects ms := rfl
          rw [hl, he]
          omega
        | read r => exact hdrop h _ (by simp) hms.2
      | ret h ret chan shm =>
        obtain ⟨op, r, -, -, hms⟩ := hms
        exact hdrop h _ (by simp) hms
      | die h => exact hdrop h _ (by simp) hms
      | _ => exact ih p F hms hF
    | effect e =>
      cases e with
      | cancel h => exact ih p F hms hF
      | call h c r =>
        obtain ⟨op, ws, hp, rfl, hms⟩ := hms
        cases op with
        | put buf len =>
          have := ih _ _ hms (hF.drop h (by simp))
          have hcard : (F.erase h).card + 1 = F.card := Finset.card_erase_add_one (hF h buf len hp)
          have he : putEffects (effects (.effect (.call h (callOf (.put buf len) ws) r) :: ms)) =
              putEffects (effects ms) + 1 := List.countP_cons_of_pos rfl
          have hl : labels (.effect (.call h (callOf (.put buf len) ws) r) :: ms) = labels ms := rfl
          rw [he, hl]
          omega
        | read rd =>
          have he : putEffects (effects (.effect (.call h (callOf (.read rd) ws) r) :: ms)) =
              putEffects (effects ms) :=
            List.countP_cons_of_neg (by cases rd <;> simp [callOf, Call.isPut])
          rw [he]
          exact hdrop h _ (by simp) hms

/-- The cancel flag is no part of what the runs of calls explain. -/
theorem tracked_setCancel {cnt size : ℕ} {evs : List (Event H)} {a : Sys H}
    (ht : Tracked cnt size evs a) (h : H) : Tracked cnt size evs (setCancel a h) := by
  have hchan : ∀ g, ∃ c, (setCancel a h).chan g = { a.chan g with cancel := c } := fun g => by
    by_cases hg : g = h
    · subst hg
      exact ⟨true, Function.update_self _ _ _⟩
    · exact ⟨(a.chan g).cancel, Function.update_of_ne hg _ _⟩
  obtain ⟨⟨hinv, hclean, hcnt, hsize, hmap⟩, hcursor, hseq⟩ := ht
  refine ⟨⟨hinv, hclean, hcnt, hsize, fun g => ?_⟩, fun g => ?_, fun g => ?_⟩ <;>
    obtain ⟨c, hg⟩ := hchan g <;> rw [hg]
  · exact hmap g
  · exact ⟨(hcursor g).1, (hcursor g).2⟩
  · exact hseq g

/-- The effects keep what each call promises. -/
theorem atomic_sound (dbg : Bool) {cnt size : ℕ} (hcnt : 2 ≤ cnt) : ∀ (es : List (Effect H))
    (pre : List (Event H)) (a a' : Sys H), Tracked cnt size pre a → Sound pre →
    (puts pre).length + putEffects es < 2 ^ 64 - 1 → atomic dbg es a = some a' →
    Sound (pre ++ events es) := by
  intro es
  induction es with
  | nil =>
    intro pre a a' _ hpre _ _
    rw [show events ([] : List (Effect H)) = [] from rfl, List.append_nil]
    exact hpre
  | cons e es ih =>
    intro pre a a' ht hpre hn hatomic
    obtain ⟨a₁, ha₁, hatomic⟩ := Option.bind_eq_some_iff.mp hatomic
    cases e with
    | cancel h =>
      obtain rfl := Option.some.inj ha₁
      exact ih pre _ a' (tracked_setCancel ht h) hpre hn hatomic
    | call h c r =>
      have hcount : putEffects (.call h c r :: es) = putEffects es + if c.isPut then 1 else 0 :=
        List.countP_cons
      have hlen := length_frames h c r
      rw [apply_call] at ha₁
      rcases call_tracked dbg ht hcnt (by omega) h c with hb | ⟨r', a₂, hcall, ht', hok⟩
      · rw [hb] at ha₁
        simp at ha₁
      · obtain ⟨rfl, rfl⟩ : r' = r ∧ a₂ = a₁ := by simpa [hcall] using ha₁
        have := ih (pre ++ [⟨h, c, r'⟩]) _ a' ht' (hpre.concat hok)
          (by rw [puts_concat, List.length_append]; omega) hatomic
        rwa [List.append_assoc] at this

/-- **Delivery, with everybody at once.** On a channel `ach_create` made with at least two index
entries, with handles as `ach_open` makes them, every run of the machine is linearized by calls that
keep the delivery contract for every handle. -/
theorem interleaved_delivers (dbg : Bool) {env : CreateEnv} {name : List UInt8} {cnt size : ℕ}
    {mapAnon : Bool} {s : St H} (hcreate : achCreate dbg env name cnt size mapAnon = .ok (.ok s.shm))
    (hopen : ∀ h, s.chan h = openedChan s.shm) (hq : Quiet s) (hcnt : 2 ≤ cnt)
    (hwrap : NoWrap cnt size) {ls : List (Label H)} (hn : putBegins ls < 2 ^ 64 - 1) {s' : St H}
    (hrun : run dbg ls s = some s') :
    ∃ ms a', labels ms = ls ∧ Placed ms (fun _ => .idle) ∧ Flagged dbg ms none s ∧
      atomic dbg (effects ms) ⟨s.shm, s.chan⟩ = some a' ∧
      ∀ h, Contract h (events (effects ms)) := by
  obtain ⟨hshm, hlen⟩ := achCreate_ok hcreate
  have hc : Clean s.shm := by rw [hshm]; exact clean_created cnt size
  obtain ⟨ms, a', p', rfl, hplaced, hflagged, hatomic, -⟩ :=
    run_followed dbg ls s s' _ _ (lin_of_quiet hc hq ls) hrun
  have hputs := putEffects_le ms _ ∅ hplaced fun h buf len hp => by simp at hp
  have hs : (⟨s.shm, s.chan⟩ : Sys H) =
      ⟨created cnt size, fun _ => openedChan (created cnt size)⟩ := by
    rw [show s.chan = fun _ => openedChan s.shm from funext hopen, hshm]
  have hsound := atomic_sound dbg hcnt (effects ms) [] _ a' (tracked_created hwrap hlen)
    (fun pre e post he => by simp at he) (by simp [puts] at hputs ⊢; omega) (hs ▸ hatomic)
  exact ⟨ms, a', rfl, hplaced, hflagged, hatomic, fun h => hsound.contract h⟩

theorem interleaved_delivers_sample : ∃ s' ms a', run true sampleTimeout sampleSt = some s' ∧
    labels ms = sampleTimeout ∧ Placed ms (fun _ => .idle) ∧ Flagged true ms none sampleSt ∧
    atomic true (effects ms) ⟨sampleSt.shm, sampleSt.chan⟩ = some a' ∧
    ∀ h, Contract h (events (effects ms)) := by
  obtain ⟨s', hs'⟩ : ∃ s', run true sampleTimeout sampleSt = some s' :=
    Option.isSome_iff_exists.mp (by decide +kernel)
  obtain ⟨ms, a', hlabels, hplaced, hflagged, hatomic, hcontract⟩ := interleaved_delivers true
    (show achCreate true CreateEnv.allOk [97] 2 3 false = .ok (.ok sampleSt.shm) by decide)
    (fun _ => rfl) ⟨fun _ => rfl, fun _ => rfl, rfl⟩ (by decide) (by decide) (by decide) hs'
  exact ⟨s', ms, a', hs', hlabels, hplaced, hflagged, hatomic, hcontract⟩

end Ach.Sync.Contract
