import TileMachine.Proofs.Trace.Changes

/-! What there is to tell of an instruction, operation by operation, in the state before it.
The trace never looks at the instruction: it compares the states before and after. Where
these are a row of the operation table, the comparison finds just what there is to tell. -/
namespace TileMachine

namespace Trace

inductive Change where
  | took (v : Value)
  | put (v : Value)
  | hands (v : Value)
  | tile (address : Nat) (v : Value)
  | jump (target : Nat)
deriving DecidableEq, Repr

namespace Change

def text : Change → String
  | took v => "in " ++ v.text
  | put v => "out " ++ v.text
  | hands v => "hands=" ++ v.text
  | tile address v => "tile " ++ Decimal.ofNat address ++ "=" ++ v.text
  | jump target => "jump " ++ Decimal.ofNat target

def Every (P : Value → Prop) : Change → Prop
  | took v | put v | hands v | tile _ v => P v
  | jump _ => True

end Change
end Trace

namespace Reference.State
open Trace (Change)

def holding (s : State) (v : Value) : List Change :=
  if s.hands = some v then [] else [.hands v]

def writing (s : State) (n : Nat) (v : Value) : List Change :=
  if s.floor n = some v then [] else [.tile n v]

def going (s : State) (target : Nat) : List Change :=
  if target = s.ip + 1 then [] else [.jump target]

/-- What there is to tell of an instruction; none if it cannot be carried out. -/
def account? (s : State) (i : Instruction) : Option (List Change) :=
  match i.opcode, i.operand with
  | .inbox, _ => some (s.inbox.head?.toList.map .took)
  | .outbox, _ => s.hands.map fun v => [.put v]
  | .copyfrom, .tile a => (s.content? a).map s.holding
  | .copyto, .tile a => do return s.writing (← s.target? a) (← s.hands)
  | .add, .tile _ | .sub, .tile _ => (s.result? i).map fun r => s.holding (.int r)
  | .bumpup, .tile a | .bumpdn, .tile a => do
    let n ← s.target? a
    let r ← s.result? i
    return .tile n (.int r) :: s.holding (.int r)
  | .jump, .label _ target => some (s.going target)
  | .jumpz, .label _ target =>
    s.hands.map fun v => s.going (if v = .int 0 then target else s.ip + 1)
  | .jumpn, .label _ target => do
    let x ← (← s.hands).int?
    return s.going (if x < 0 then target else s.ip + 1)
  | _, _ => none

end Reference.State

namespace Trace
open Reference.State

variable {s t : State}

/-! ### Comparing two states -/

theorem tileChanges_of_same (h : t.tiles.read = s.tiles.read) :
    tileChanges s.tiles t.tiles = [] := by
  have hnone : changed s.tiles t.tiles = [] := by
    rw [List.eq_nil_iff_forall_not_mem]
    intro n hn
    rw [mem_changed_iff, h] at hn
    contradiction
  rw [tileChanges_eq_map, hnone]
  rfl

theorem tileChanges_of_put {n : Nat} {v : Value} (h : t.tiles.read = s.view.put n v) :
    tileChanges s.tiles t.tiles = (s.view.writing n v).map Change.text := by
  have hread (k : Nat) : t.tiles.read k = if k = n then some v else s.tiles.read k :=
    congrFun h k
  by_cases hsame : s.tiles.read n = some v
  · have hwriting : s.view.writing n v = [] := if_pos hsame
    have hfloor : t.tiles.read = s.tiles.read := by
      funext k
      rw [hread]
      split
      next hk => rw [hk, hsame]
      next => rfl
    rw [tileChanges_of_same hfloor, hwriting]
    rfl
  · have hwriting : s.view.writing n v = [.tile n v] := if_neg hsame
    have hchanged : changed s.tiles t.tiles = [n] := by
      apply (pairwise_changed _ _).eq_of_mem_iff (List.pairwise_singleton _ n)
      intro k
      rw [mem_changed_iff, hread, List.mem_singleton]
      by_cases hk : k = n
      · simp [hk, hsame]
      · simp [hk]
    rw [tileChanges_eq_map, hchanged, hwriting, List.map_singleton, hread, if_pos rfl]
    rfl

theorem changes_self (s : State) : changes s s true = [] := by
  simp [changes, tileChanges_of_same (s := s) (t := s) rfl]

theorem hands_remark (v : Value) :
    (if s.hands ≠ some v then ["hands=" ++ show? (some v)] else []) =
      (s.view.holding v).map Change.text := by
  by_cases hsame : s.hands = some v
  · have hholding : s.view.holding v = [] := if_pos hsame
    simp [hholding, hsame]
  · have hholding : s.view.holding v = [.hands v] := if_neg hsame
    simp [hholding, hsame, show?, Change.text]

/-! ### The effects of the operations -/

section Effects
variable (hposition : s.ip + 1 < positions) (halted : Bool)
include hposition

theorem changes_of_take {v : Value} {rest : List Value} (hinbox : s.inbox = v :: rest)
    (h : t.view = { s.view with ip := s.ip + 1, hands := some v, inbox := rest }) :
    changes s t halted = [Change.text (.took v)] := by
  have hip : t.ip = s.ip + 1 := congrArg Reference.State.ip h
  have hhands : t.hands = some v := congrArg Reference.State.hands h
  have hin : t.inbox = rest := congrArg Reference.State.inbox h
  have hout : t.outbox = s.outbox := Array.toList_inj.1 (congrArg Reference.State.outbox h)
  have htiles := tileChanges_of_same (congrArg Reference.State.floor h)
  simp [changes, following_of_lt hposition, hip, hhands, hin, hout, htiles, hinbox, show?,
    Change.text]

theorem changes_of_deliver {v : Value}
    (h : t.view = { s.view with ip := s.ip + 1, hands := none, outbox := s.view.outbox ++ [v] }) :
    changes s t halted = [Change.text (.put v)] := by
  have hip : t.ip = s.ip + 1 := congrArg Reference.State.ip h
  have hin : t.inbox = s.inbox := congrArg Reference.State.inbox h
  have hout : t.outbox = s.outbox.push v := by
    rw [← Array.toList_inj, Array.toList_push]
    exact congrArg Reference.State.outbox h
  have htiles := tileChanges_of_same (congrArg Reference.State.floor h)
  simp [changes, following_of_lt hposition, hip, hin, hout, htiles, Change.text]

theorem changes_of_queues {target : Nat} {hands : Option Value} {floor : Nat → Option Value}
    (h : t.view = { s.view with ip := target, hands, floor }) : changes s t halted =
      tileChanges s.tiles t.tiles ++
        (if s.hands ≠ hands then ["hands=" ++ show? hands] else []) ++
        (if target ≠ s.ip + 1 ∧ ¬(halted ∧ target = s.ip)
          then ["jump " ++ Decimal.ofNat target] else []) := by
  have hip : t.ip = target := congrArg Reference.State.ip h
  have hhands : t.hands = hands := congrArg Reference.State.hands h
  have hin : t.inbox = s.inbox := congrArg Reference.State.inbox h
  have hout : t.outbox = s.outbox := Array.toList_inj.1 (congrArg Reference.State.outbox h)
  simp [changes, following_of_lt hposition, hip, hhands, hin, hout]

theorem changes_of_hold {v : Value}
    (h : t.view = { s.view with ip := s.ip + 1, hands := some v }) :
    changes s t halted = (s.view.holding v).map Change.text := by
  rw [changes_of_queues hposition halted h, hands_remark,
    tileChanges_of_same (congrArg Reference.State.floor h)]
  simp

theorem changes_of_store {n : Nat} {v : Value}
    (h : t.view = { s.view with ip := s.ip + 1, floor := s.view.put n v }) :
    changes s t halted = (s.view.writing n v).map Change.text := by
  have hhands : s.view.hands = s.hands := rfl
  rw [changes_of_queues hposition halted h, hhands,
    tileChanges_of_put (congrArg Reference.State.floor h)]
  simp

/-- The new value is never the one that the tile held, so that the tile is always
reported. -/
theorem changes_of_bump {n : Nat} {v : Value} (hne : s.view.floor n ≠ some v)
    (h : t.view =
      { s.view with ip := s.ip + 1, hands := some v, floor := s.view.put n v }) :
    changes s t halted = (.tile n v :: s.view.holding v).map Change.text := by
  have hwriting : s.view.writing n v = [.tile n v] := if_neg hne
  rw [changes_of_queues hposition halted h, hands_remark,
    tileChanges_of_put (congrArg Reference.State.floor h), hwriting]
  simp

/-- A jump that halts leads somewhere else, so that it is not taken for a halt on an empty
inbox. -/
theorem changes_of_jump {halted : Bool} {target : Nat} (h : t.view = { s.view with ip := target })
    (hhalted : halted = true → t.ip ≠ s.ip) :
    changes s t halted = (s.view.going target).map Change.text := by
  have hhands : s.view.hands = s.hands := rfl
  have hip : t.ip = target := congrArg Reference.State.ip h
  have hmoved : ¬(halted ∧ target = s.ip) := fun hstays => hhalted hstays.1 (hip.trans hstays.2)
  rw [changes_of_queues hposition halted h, hhands,
    tileChanges_of_same (congrArg Reference.State.floor h)]
  by_cases hnext : target = s.ip + 1
  · have hgoing : s.view.going target = [] := if_pos hnext
    rw [hgoing]
    simp [hnext]
  · have hgoing : s.view.going target = [.jump target] := if_neg hnext
    rw [hgoing]
    simp [hnext, hmoved, Change.text]

theorem changes_of_moves {length : Nat} {i : Instruction} (h : Moves length s.view i t.view)
    {halted : Bool} (hhalted : halted = true → t.ip ≠ s.ip) :
    ∃ told, s.view.account? i = some told ∧ changes s t halted = told.map Change.text := by
  generalize hview : t.view = after at h
  cases h with
  | inbox hinbox =>
    refine ⟨[.took _], ?_, changes_of_take hposition halted hinbox hview⟩
    simp [account?, hinbox]
  | outbox hv =>
    refine ⟨[.put _], ?_, changes_of_deliver hposition halted hview⟩
    simp [account?, hv]
  | copyfrom hv =>
    refine ⟨_, ?_, changes_of_hold hposition halted hview⟩
    simp [account?, hv]
  | copyto hv hn =>
    refine ⟨_, ?_, changes_of_store hposition halted hview⟩
    simp [account?, hv, hn]
  | add hx hy =>
    refine ⟨_, ?_, changes_of_hold hposition halted hview⟩
    simp [account?, result?, hx, hy]
  | subInts hx hy =>
    refine ⟨_, ?_, changes_of_hold hposition halted hview⟩
    simp [account?, result?, hx, hy]
  | subLetters hc hd =>
    refine ⟨_, ?_, changes_of_hold hposition halted hview⟩
    simp [account?, result?, hc, hd]
  | @bumpup a n y hn hy =>
    have hne : s.view.floor n ≠ some (.int (y + 1)) := by
      rw [hy, Ne, Option.some.injEq, Value.int.injEq]
      omega
    refine ⟨_, ?_, changes_of_bump hposition halted hne hview⟩
    simp [account?, result?, content?_of_target hn, hn, hy]
  | @bumpdn a n y hn hy =>
    have hne : s.view.floor n ≠ some (.int (y - 1)) := by
      rw [hy, Ne, Option.some.injEq, Value.int.injEq]
      omega
    refine ⟨_, ?_, changes_of_bump hposition halted hne hview⟩
    simp [account?, result?, content?_of_target hn, hn, hy]
  | jump => exact ⟨_, rfl, changes_of_jump hposition hview hhalted⟩
  | jumpzTaken hv =>
    refine ⟨_, ?_, changes_of_jump hposition hview hhalted⟩
    simp [account?, hv]
  | jumpzPassed hv hne =>
    refine ⟨_, ?_, changes_of_jump hposition hview hhalted⟩
    simp [account?, hv, hne]
  | jumpnTaken hx hneg =>
    refine ⟨_, ?_, changes_of_jump hposition hview hhalted⟩
    simp [account?, hx, hneg, Value.int?]
  | jumpnPassed hx hnonneg =>
    refine ⟨_, ?_, changes_of_jump hposition hview hhalted⟩
    simp [account?, hx, Int.not_lt.2 hnonneg, Value.int?]

end Effects

end Trace
end TileMachine
