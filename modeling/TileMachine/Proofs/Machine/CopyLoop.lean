import TileMachine.Proofs.Machine.NamedTiles
import TileMachine.Proofs.Machine.Safety
import TileMachine.Proofs.Machine.StepLimit
import TileMachine.Source.Assembly

/-! A loop that takes a value from the inbox, delivers it and begins again. Each round takes
three instructions and moves one value; the last instruction finds the inbox empty. So the
loop copies every inbox, as soon as its limit allows these instructions. -/
namespace TileMachine

def Program.copyLoop : Program where
  instructions := #[⟨.inbox, .nothing⟩, ⟨.outbox, .nothing⟩, ⟨.jump, .label "in" 0⟩]
  labels := (∅ : Labels) |>.insert "in" 0
  lines := #[2, 3, 4]

theorem Program.parse_copyLoop :
    Program.parse "in:\n  inbox\n  outbox\n  jump in\n" = .ok copyLoop :=
  toOption_eq_some.1 (by decide +kernel)

namespace Execution

variable {e : Execution} {tiles : Tiles} {v : Value} {done left : List Value}

/-- The loop is about to take a value, without a limit: some have been delivered, in order,
and the others are left. -/
structure Copying (tiles : Tiles) (done left : List Value) (e : Execution) : Prop where
  program : e.program = .copyLoop
  limit : e.limit = none
  going : e.status.isTerminal = false
  steps : e.steps = 3 * done.length
  state : e.state = { tiles, inbox := left, outbox := done.toArray }

theorem Copying.round (h : Copying tiles done (v :: left) e) :
    Copying tiles (done ++ [v]) left (e.after 3) := by
  obtain ⟨program, limit, state, status, steps⟩ := e
  obtain ⟨rfl, rfl, hgoing, rfl, rfl⟩ := h
  -- A value is taken, delivered, and the jump leads back to the first instruction.
  have hround : Execution.after ⟨.copyLoop, none,
        { tiles, inbox := v :: left, outbox := done.toArray }, status, 3 * done.length⟩ 3 =
      ⟨.copyLoop, none, { tiles, inbox := left, outbox := done.toArray.push v }, .running,
        3 * done.length + 3⟩ := by
    cases status with
    | ready | running => rfl
    | halted | failed => contradiction
  rw [hround]
  refine ⟨rfl, rfl, rfl, ?_, ?_⟩
  · change 3 * done.length + 3 = _
    rw [List.length_append, List.length_singleton]
    omega
  · rw [List.push_toArray]

theorem Copying.halts (h : Copying tiles done [] e) :
    (e.after 1).result? = some (.ok done) ∧ (e.after 1).steps = 3 * done.length + 1 := by
  have hstarves : e.Starves := by
    rw [Starves, h.program, h.state]
    exact ⟨rfl, _, rfl, rfl⟩
  rw [after, after, step_of_starves hstarves h.going (exhausted_of_free h.limit)]
  refine ⟨result?_eq_ok_iff.2 ⟨rfl, ?_⟩, ?_⟩
  · change e.state.outbox.toList = done
    rw [h.state]
  · change e.steps + 1 = _
    rw [h.steps]

theorem Copying.ends (h : Copying tiles done left e) :
    (e.after (3 * left.length + 1)).result? = some (.ok (done ++ left)) ∧
      (e.after (3 * left.length + 1)).steps = 3 * (done ++ left).length + 1 := by
  -- One round turns the first of the values left into the last one delivered.
  induction left generalizing done e with
  | nil =>
    rw [List.append_nil]
    exact h.halts
  | cons v left ih =>
    have hcount : 3 * (v :: left).length + 1 = 3 + (3 * left.length + 1) := by
      rw [List.length_cons]
      omega
    have hmore := ih h.round
    rwa [hcount, after_add, List.append_cons]

theorem tiles_after_of_copyLoop (h : e.program = .copyLoop) (k : Nat) :
    (e.after k).state.tiles = e.state.tiles := by
  have hdirect : Program.copyLoop.IsDirect := by decide
  have hnamed : Program.copyLoop.namedTiles = [] := by decide
  apply Std.ExtTreeMap.ext_getElem?
  intro n
  apply getElem?_tiles_after
  · rwa [h]
  · rw [h, hnamed]
    exact List.not_mem_nil

end Execution

namespace Machine
open Execution

/-- The loop copies its inbox, whatever lies on the floor, and leaves the floor as it is. For
this it needs three instructions for each value and one more; under a smaller limit it fails
at the limit. -/
theorem run?_copyLoop :
    ∃ p m, Program.parse "in:\n  inbox\n  outbox\n  jump in\n" = .ok p ∧ ofProgram p = .ok m ∧
      ∀ (inbox : List Value) (tiles : Tiles),
        let needed := 3 * inbox.length + 1
        (∀ patience, needed ≤ patience →
          (m.withLimit none).run? patience inbox tiles = some (.ok inbox)) ∧
        (∀ limit patience, (m.withLimit (some limit)).run? patience inbox tiles =
          some (if needed ≤ limit then .ok inbox else .error (.tooManySteps limit))) ∧
        ∀ limit k, (((m.withLimit limit).start inbox tiles).after k).state.tiles = tiles := by
  let m : Machine := ⟨.copyLoop, some defaultLimit, by decide +kernel⟩
  refine ⟨.copyLoop, m, Program.parse_copyLoop, ofProgram_eq_ok_iff.2 ⟨rfl, rfl⟩, ?_⟩
  intro inbox tiles needed
  let free := (m.withLimit none).start inbox tiles
  have hcopying : Copying tiles [] inbox free := ⟨rfl, rfl, rfl, rfl, rfl⟩
  have hends : (free.after needed).result? = some (.ok inbox) ∧
      (free.after needed).steps = needed := hcopying.ends
  obtain ⟨hresult, hsteps⟩ := hends
  refine ⟨fun patience hle => ?_, fun limit patience => ?_, fun limit k => ?_⟩
  · have hrun : (m.withLimit none).run? needed inbox tiles = some (.ok inbox) := by
      rw [run?_eq_result?]
      exact hresult
    exact run?_of_le hrun hle
  · have hlimit := result?_after_withLimit (e := free) rfl rfl limit hresult
    rw [hsteps] at hlimit
    rw [run?_eq_result?]
    exact hlimit
  · exact tiles_after_of_copyLoop rfl k

end Machine
end TileMachine
