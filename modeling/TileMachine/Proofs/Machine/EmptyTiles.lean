import TileMachine.Proofs.Machine.Lockstep
import TileMachine.Proofs.Trace.Changes

/-! A tile that is present but empty and one that was never touched cannot be told apart.
What a step does depends on the view of the state, in which the floor is a function, and
so do its answer and its line in the trace. -/
namespace TileMachine

namespace State

variable {s t : State}

theorem readTile_congr (h : t.view = s.view) (n : Nat) : t.readTile n = s.readTile n := by
  have hfloor : t.tiles.read = s.tiles.read := congrArg Reference.State.floor h
  unfold readTile
  rw [hfloor]

theorem locate_congr (h : t.view = s.view) (a : Address) : t.locate a = s.locate a := by
  cases a with
  | direct n => rfl
  | indirect n => simp only [locate, readTile_congr h]

theorem plan_congr (h : t.view = s.view) (length : Nat) (i : Instruction) :
    t.plan length i = s.plan length i := by
  have hseen : SeenAlike i s t :=
    ⟨congrArg Reference.State.hands h, congrArg Reference.State.inbox h,
      fun a _ => locate_congr h a, fun _ n _ _ => readTile_congr h n⟩
  exact hseen.plan_eq length

theorem view_apply_congr (h : t.view = s.view) (action : Action) :
    (t.apply action).view = (s.apply action).view := by
  have hip : t.ip = s.ip := congrArg Reference.State.ip h
  have hhands : t.hands = s.hands := congrArg Reference.State.hands h
  have hfloor : t.tiles.read = s.tiles.read := congrArg Reference.State.floor h
  have hinbox : t.inbox = s.inbox := congrArg Reference.State.inbox h
  have houtbox : t.outbox.toList = s.outbox.toList := congrArg Reference.State.outbox h
  cases action with
  | store address v =>
    unfold apply
    rw [view_store, view_store, h, hip, hhands]
  | bump address v =>
    unfold apply
    rw [view_store, view_store, h, hip]
  | _ => simp only [apply, view, Array.toList_push, hip, hhands, hfloor, hinbox, houtbox]

end State

namespace Execution

/-- Nothing tells the two executions apart: not what they show, not the answer of the next
step and not its line in the trace. -/
structure Indistinguishable (e f : Execution) : Prop where
  ip : f.state.ip = e.state.ip
  hands : f.state.hands = e.state.hands
  inbox : f.state.inbox = e.state.inbox
  outbox : f.state.outbox = e.state.outbox
  tile : ∀ address, f.state.tiles.read address = e.state.tiles.read address
  steps : f.steps = e.steps
  answer : f.step.1 = e.step.1
  line : f.traceLine = e.traceLine

variable {e f : Execution}

theorem Lockstep.indistinguishable (h : Lockstep (fun s t => t.view = s.view) e f)
    (hnext : Lockstep (fun s t => t.view = s.view) e.step.2 f.step.2) :
    Indistinguishable e f where
  ip := congrArg Reference.State.ip h.state
  hands := congrArg Reference.State.hands h.state
  inbox := congrArg Reference.State.inbox h.state
  outbox := Array.toList_inj.1 (congrArg Reference.State.outbox h.state)
  tile address := congrArg (·.floor address) h.state
  steps := h.steps
  answer := hnext.answer_eq
  line := by
    have hip : f.state.ip = e.state.ip := congrArg Reference.State.ip h.state
    unfold traceLine
    rw [h.program, hip, hnext.answer_eq]
    exact Trace.describe_congr h.state hnext.state _ _

end Execution

namespace Machine
open Execution

/-- On floors that read alike, whichever empty tiles they know, two runs cannot be told
apart at any time. -/
theorem indistinguishable_of_read (m : Machine) (inbox : List Value) {tiles tiles' : Tiles}
    (h : ∀ address, tiles'.read address = tiles.read address) (n : Nat) :
    Indistinguishable ((m.start inbox tiles).after n) ((m.start inbox tiles').after n) := by
  have hview : (m.start inbox tiles').state.view = (m.start inbox tiles).state.view := by
    unfold start State.view
    rw [funext h]
  have hlock : Lockstep (fun s t => t.view = s.view) (m.start inbox tiles) (m.start inbox tiles') :=
    ⟨rfl, rfl, rfl, hview⟩
  have hafter (k : Nat) : Lockstep (fun s t => t.view = s.view)
      ((m.start inbox tiles).after k) ((m.start inbox tiles').after k) := by
    apply hlock.after rfl
    · intro s t hst
      exact congrArg Reference.State.ip hst
    · intro i _ s t hst
      rw [State.plan_congr hst]
      exact State.plansAlike_of_apply (State.view_apply_congr hst) _
  exact (hafter n).indistinguishable (hafter (n + 1))

/-- One floor knows three tiles that are empty. The run writes to one of them, reads what a
pointer leads to, and fails at another. -/
theorem indistinguishable_of_unknown :
    let m : Machine :=
      ⟨⟨#[⟨.inbox, .nothing⟩, ⟨.copyto, .tile (.direct 2)⟩, ⟨.add, .tile (.indirect 2)⟩], ∅, #[]⟩,
        none, by decide +kernel⟩
    let tiles : Tiles := (∅ : Tiles) |>.insert 0 (some (.letter 'C'))
    let tiles' : Tiles := tiles |>.insert 2 none |>.insert 5 none |>.insert 7 none
    tiles' ≠ tiles ∧ (∀ address, tiles'.read address = tiles.read address) ∧
      (((m.start [.int 7] tiles').after 2).step.1 = .failed (.fault 2 (.emptyTile 7))) ∧
      Indistinguishable ((m.start [.int 7] tiles).after 2) ((m.start [.int 7] tiles').after 2) := by
  intro m tiles tiles'
  have h : ∀ address, tiles'.read address = tiles.read address := by
    intro address
    rw [Tiles.read_insert, Tiles.read_insert, Tiles.read_insert, Tiles.read_insert]
    split
    next hk => rw [hk]; rfl
    next =>
      split
      next hk => rw [hk]; rfl
      next =>
        split
        next hk => rw [hk]; rfl
        next => rfl
  exact ⟨by decide +kernel, h, by decide +kernel, m.indistinguishable_of_read [.int 7] h 2⟩

end Machine
end TileMachine
