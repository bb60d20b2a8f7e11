import Mathlib.Data.List.Sort
import TileMachine.Proofs.Machine.Planning
import TileMachine.Trace

/-! What the trace reports of a step depends on what can be read on the two floors, and not
on which empty tiles they know: the tiles reported are those that read differently, in
ascending order. -/
namespace TileMachine.Trace

variable {before after before' after' : Tiles}

def changed (before after : Tiles) : List Nat :=
  (addresses before after).filter fun address => before.read address ≠ after.read address

theorem tileChanges_eq_map (before after : Tiles) : tileChanges before after =
    (changed before after).map fun address =>
      "tile " ++ Decimal.ofNat address ++ "=" ++ show? (after.read address) := by
  unfold tileChanges changed
  rw [← List.filterMap_eq_map, ← List.filterMap_eq_filter, List.filterMap_filterMap]
  apply List.filterMap_congr
  intro address _
  by_cases h : before.read address = after.read address
  · simp [h, Option.guard]
  · simp [h, Option.guard]

theorem mem_of_read {tiles : Tiles} {n : Nat} {v : Value} (h : tiles.read n = some v) :
    n ∈ tiles := by
  rw [Std.ExtTreeMap.mem_iff_isSome_getElem?]
  unfold Tiles.read at h
  cases hitem : tiles[n]? with
  | none =>
    rw [hitem] at h
    contradiction
  | some item => rfl

theorem mem_changed_iff {n : Nat} :
    n ∈ changed before after ↔ before.read n ≠ after.read n := by
  unfold changed addresses
  rw [List.mem_filter, Std.ExtTreeMap.mem_keys, Std.ExtTreeMap.mem_union_iff, decide_eq_true_iff,
    and_iff_right_iff_imp]
  intro h
  cases hbefore : before.read n with
  | some v => exact .inl (mem_of_read hbefore)
  | none =>
    cases hafter : after.read n with
    | some v => exact .inr (mem_of_read hafter)
    | none =>
      rw [hbefore, hafter] at h
      contradiction

theorem pairwise_changed (before after : Tiles) : (changed before after).Pairwise (· < ·) := by
  have hkeys : (addresses before after).Pairwise (· < ·) :=
    Std.ExtTreeMap.ordered_keys.imp Nat.compare_eq_lt.1
  exact hkeys.filter _

theorem tileChanges_congr (hbefore : before'.read = before.read)
    (hafter : after'.read = after.read) :
    tileChanges before' after' = tileChanges before after := by
  have hchanged : changed before' after' = changed before after := by
    apply (pairwise_changed before' after').eq_of_mem_iff (pairwise_changed before after)
    intro n
    rw [mem_changed_iff, mem_changed_iff, hbefore, hafter]
  rw [tileChanges_eq_map, tileChanges_eq_map, hchanged, hafter]

theorem describe_congr {s t s' t' : State} (hs : s'.view = s.view) (ht : t'.view = t.view)
    (i : Option Instruction) (step : Step) : describe i s' t' step = describe i s t step := by
  have hchanges (halted : Bool) : changes s' t' halted = changes s t halted := by
    have hout {a b : State} (h : a.view = b.view) : a.outbox = b.outbox :=
      Array.toList_inj.1 (congrArg Reference.State.outbox h)
    have hsip : s'.ip = s.ip := congrArg Reference.State.ip hs
    have htip : t'.ip = t.ip := congrArg Reference.State.ip ht
    have hshands : s'.hands = s.hands := congrArg Reference.State.hands hs
    have hthands : t'.hands = t.hands := congrArg Reference.State.hands ht
    have hsinbox : s'.inbox = s.inbox := congrArg Reference.State.inbox hs
    have htinbox : t'.inbox = t.inbox := congrArg Reference.State.inbox ht
    have htiles : tileChanges s'.tiles t'.tiles = tileChanges s.tiles t.tiles :=
      tileChanges_congr (congrArg Reference.State.floor hs) (congrArg Reference.State.floor ht)
    simp only [changes, hsip, htip, hshands, hthands, hsinbox, htinbox, hout hs, hout ht, htiles]
  have hremarks : remarks s' t' step = remarks s t step := by
    cases step with
    | proceed => exact hchanges false
    | halted => exact congrArg (· ++ ["halt"]) (hchanges true)
    | failed error => rfl
  unfold describe
  rw [hremarks]

end TileMachine.Trace

def TileMachine.Execution.traceLine (e : Execution) : String :=
  Trace.describe e.program.instructions[e.state.ip]? e.state e.step.2.state e.step.1
