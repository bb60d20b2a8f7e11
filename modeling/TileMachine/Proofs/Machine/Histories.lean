import TileMachine.Proofs.Machine.Runs

/-! The two ways to run to the end. One keeps the last answer, the other keeps every step
as well; they end after the same number of steps, with the same answer and the same
execution, and the steps kept are all that were made, in order. -/
namespace TileMachine.Execution

variable {e : Execution} {n calls : Nat}

structure EndsAfter (e : Execution) (n : Nat) : Prop where
  going : ∀ k < n, (e.after k).status.isTerminal = false
  ended : (e.after n).status.isTerminal = true

theorem exists_endsAfter (h : (e.after n).status.isTerminal = true) : ∃ k ≤ n, e.EndsAfter k := by
  induction n with
  | zero => exact ⟨0, Nat.le_refl 0, by simp, h⟩
  | succ n ih =>
    cases hn : (e.after n).status.isTerminal with
    | true =>
      obtain ⟨k, hle, hk⟩ := ih hn
      exact ⟨k, Nat.le_succ_of_le hle, hk⟩
    | false =>
      refine ⟨n + 1, Nat.le_refl _, fun k hk => ?_, h⟩
      -- Had it ended before the last step, it would have stayed as it was.
      rw [← Bool.not_eq_true]
      intro hended
      rw [after_eq_of_le hended (by omega : k ≤ n), hended] at hn
      contradiction

theorem isTerminal_after_iff :
    (e.after n).status.isTerminal = true ↔ ∃ k ≤ n, e.EndsAfter k := by
  constructor
  · exact exists_endsAfter
  · intro h
    obtain ⟨k, hle, hk⟩ := h
    rw [after_eq_of_le hk.ended hle]
    exact hk.ended

def frame (e : Execution) : Frame :=
  ⟨e.state, e.step.1, e.step.2.state⟩

def frames (e : Execution) (n : Nat) : List Frame :=
  (List.range n).map fun k => (e.after k).frame

theorem frames_succ (e : Execution) (n : Nat) :
    e.frames (n + 1) = e.frame :: e.step.2.frames n := by
  unfold frames
  rw [List.range_succ_eq_map, List.map_cons, List.map_map]
  exact congrArg _ (List.map_congr_left fun k _ => congrArg frame (e.after_succ k))

theorem historyFrom?_of_open {past : List Frame} (h : e.step.2.status.isTerminal = false) :
    e.historyFrom? past (calls + 1) = e.step.2.historyFrom? (e.frame :: past) calls := by
  have hanswer := step_answer e
  rw [Status.answer_eq_proceed_iff.2 h] at hanswer
  unfold frame
  rw [historyFrom?]
  generalize e.step = next at hanswer
  obtain ⟨answer, e'⟩ := next
  cases hanswer
  rfl

theorem historyFrom?_of_terminal {past : List Frame} (h : e.step.2.status.isTerminal = true) :
    e.historyFrom? past (calls + 1) =
      some ((e.frame :: past).reverse, e.step.2.status.answer, e.step.2) := by
  have hanswer := step_answer e
  have hlast : e.step.1 ≠ .proceed := by
    rw [hanswer, Ne, Status.answer_eq_proceed_iff, h]
    decide
  unfold frame
  rw [historyFrom?, ← hanswer]
  generalize e.step = next at hlast
  obtain ⟨answer, e'⟩ := next
  cases answer with
  | proceed => contradiction
  | _ => rfl

theorem historyFrom?_eq (past : List Frame) (hopen : e.status.isTerminal = false)
    (h : e.EndsAfter n) (hle : n ≤ calls) : e.historyFrom? past calls =
      some (past.reverse ++ e.frames n, (e.after n).status.answer, e.after n) := by
  induction n generalizing e past calls with
  | zero =>
    have hended : e.status.isTerminal = true := h.ended
    rw [hopen] at hended
    contradiction
  | succ n ih =>
    obtain ⟨calls, rfl⟩ := Nat.exists_eq_add_of_le' (Nat.lt_of_lt_of_le n.succ_pos hle)
    rw [after_succ, frames_succ]
    cases hnext : e.step.2.status.isTerminal with
    | true =>
      obtain rfl : n = 0 := by
        by_contra hne
        have hgoing := h.going 1 (by omega)
        rw [after_succ, after, hnext] at hgoing
        contradiction
      rw [historyFrom?_of_terminal hnext, List.reverse_cons]
      rfl
    | false =>
      have hrest : e.step.2.EndsAfter n := by
        refine ⟨fun k hk => ?_, ?_⟩
        · rw [← after_succ]
          exact h.going (k + 1) (by omega)
        · rw [← after_succ]
          exact h.ended
      rw [historyFrom?_of_open hnext, ih _ hnext hrest (by omega), List.reverse_cons,
        List.append_assoc]
      rfl

theorem historyFrom?_eq_none (past : List Frame) (h : (e.after calls).status.isTerminal = false) :
    e.historyFrom? past calls = none := by
  induction calls generalizing e past with
  | zero => rfl
  | succ calls ih =>
    rw [after_succ] at h
    cases hnext : e.step.2.status.isTerminal with
    | true =>
      rw [after_of_terminal hnext, hnext] at h
      contradiction
    | false => rw [historyFrom?_of_open hnext, ih _ h]

end TileMachine.Execution
