import TileMachine.Proofs.Machine.Actions
import TileMachine.Proofs.Machine.Refinement

/-! What a run conserves. The inbox is only taken from, the outbox only added to, and a
step writes one tile at most. Letters are moved: each one that a run shows was in the
inbox or on the floor when it began. -/
namespace TileMachine

namespace Reference

namespace State

variable {length : Nat} {s t : State} {i : Instruction}

/-- The tile that an instruction writes, if it is one of the three that write. -/
def written? (s : State) : Instruction → Option Nat
  | ⟨.copyto, .tile a⟩ | ⟨.bumpup, .tile a⟩ | ⟨.bumpdn, .tile a⟩ => s.target? a
  | _ => none

theorem Moves.inbox_suffix (h : Moves length s i t) : t.inbox <:+ s.inbox := by
  cases h with
  | inbox hinbox =>
    rw [hinbox]
    exact List.suffix_cons _ _
  | _ => exact List.suffix_refl _

theorem Moves.outbox_eq (h : Moves length s i t) :
    t.outbox = s.outbox ∨ ∃ v, t.outbox = s.outbox ++ [v] := by
  cases h with
  | outbox => exact .inr ⟨_, rfl⟩
  | _ => exact .inl rfl

theorem Moves.floor_eq (h : Moves length s i t) :
    t.floor = s.floor ∨ ∃ n v, s.written? i = some n ∧ t.floor = s.put n v := by
  cases h with
  | copyto _ hn => exact .inr ⟨_, _, hn, rfl⟩
  | bumpup hn => exact .inr ⟨_, _, hn, rfl⟩
  | bumpdn hn => exact .inr ⟨_, _, hn, rfl⟩
  | _ => exact .inl rfl

theorem Moves.written (h : Moves length s i t) {n : Nat} (hn : t.floor n ≠ s.floor n) :
    s.written? i = some n := by
  cases h.floor_eq with
  | inl hfloor =>
    rw [hfloor] at hn
    contradiction
  | inr hwrites =>
    obtain ⟨k, v, hk, hfloor⟩ := hwrites
    rw [hfloor, put] at hn
    split at hn
    next heq => rw [hk, heq]
    next => contradiction

theorem Moves.filled (h : Moves length s i t) {n : Nat} (hn : s.floor n ≠ none) :
    t.floor n ≠ none := by
  cases h.floor_eq with
  | inl hfloor => rwa [hfloor]
  | inr hwrites =>
    obtain ⟨k, v, -, hfloor⟩ := hwrites
    rw [hfloor, put]
    split
    · simp
    · exact hn

end State

/-- A property that all computed numbers have is kept for all values in sight. -/
theorem Steps.every {p : Array Instruction} {n : Nat} {s t : State} {P : Value → Prop}
    (h : Steps p n s t) (hP : ∀ k, P (.int k)) (hs : s.Every P) : t.Every P := by
  induction h with
  | zero => exact hs
  | succ _ _ hmoves ih => exact hmoves.every (ih hs) fun k _ => hP k

end Reference

namespace State

structure Precedes (s t : State) : Prop where
  inbox : t.inbox <:+ s.inbox
  outbox : s.outbox.toList <+: t.outbox.toList
  known : ∀ n ∈ s.tiles, n ∈ t.tiles
  filled : ∀ n, s.tiles.read n ≠ none → t.tiles.read n ≠ none

theorem Precedes.refl (s : State) : Precedes s s :=
  ⟨List.suffix_refl _, List.prefix_refl _, fun _ h => h, fun _ h => h⟩

theorem Precedes.trans {s t u : State} (hst : Precedes s t) (htu : Precedes t u) :
    Precedes s u where
  inbox := htu.inbox.trans hst.inbox
  outbox := hst.outbox.trans htu.outbox
  known n hn := htu.known n (hst.known n hn)
  filled n hn := htu.filled n (hst.filled n hn)

theorem mem_tiles_apply (s : State) (action : Action) {n : Nat} (h : n ∈ s.tiles) :
    n ∈ (s.apply action).tiles := by
  cases action with
  | store address v => exact Std.ExtTreeMap.mem_insert.2 (.inr h)
  | bump address v => exact Std.ExtTreeMap.mem_insert.2 (.inr h)
  | _ => exact h

def Shows (s : State) (v : Value) : Prop :=
  s.hands = some v ∨ (∃ n, s.tiles.read n = some v) ∨ v ∈ s.outbox

theorem of_shows {s : State} {v : Value} {P : Value → Prop} (hs : s.view.Every P)
    (h : s.Shows v) : P v := by
  rcases h with hhands | ⟨n, hn⟩ | hout
  · exact hs.hands v hhands
  · exact hs.floor n v hn
  · exact hs.outbox v (Array.mem_toList_iff.2 hout)

end State

namespace Machine
open Reference.State (Moves)
open State (Precedes)

variable {m : Machine} {origin : Reference.State} {n : Nat} {e : Execution}

theorem Follows.state_or_moves (h : m.Follows origin n e) : e.step.2.state = e.state ∨
    ∃ i action, m.program.instructions[e.state.ip]? = some i ∧
      (∀ error, e.step.1 ≠ .failed error) ∧ e.step.2.state = e.state.apply action ∧
      Moves m.program.length e.state.view i (e.state.apply action).view := by
  rcases h.open_or_terminal with hended | ⟨hopen, -⟩
  · exact .inl (congrArg Execution.state (Execution.step_terminal hended))
  · have hanswers := hopen.answers
    generalize e.step = next at hanswers ⊢
    cases hanswers with
    | @action i action hi _ hstop hmoves =>
      refine .inr ⟨i, action, hi, fun error => ?_, Execution.settle_state _ _, hmoves⟩
      rw [Execution.settle_answer _ hstop]
      split <;> simp
    | _ => exact .inl rfl

/-- What one step may touch: the end of the outbox, and the tile that an instruction
writes which is carried out. -/
structure Touches (m : Machine) (e : Execution) : Prop where
  outbox : e.step.2.outbox = e.outbox ∨ ∃ v, e.step.2.outbox = e.outbox ++ [v]
  tiles : ∀ k, e.step.2.state.tiles.read k ≠ e.state.tiles.read k →
    (∀ error, e.step.1 ≠ .failed error) ∧ ∃ i, m.program.instructions[e.state.ip]? = some i ∧
      e.state.view.written? i = some k

theorem Follows.touches (h : m.Follows origin n e) : m.Touches e := by
  rcases h.state_or_moves with hsame | ⟨i, action, hi, hanswer, hstate, hmoves⟩
  · refine ⟨.inl (congrArg (·.outbox.toList) hsame), fun k hk => ?_⟩
    rw [hsame] at hk
    contradiction
  · refine ⟨?_, fun k hk => ⟨hanswer, i, hi, hmoves.written ?_⟩⟩
    · unfold Execution.outbox
      rw [hstate]
      exact hmoves.outbox_eq
    · rwa [hstate] at hk

theorem Follows.precedes_step (h : m.Follows origin n e) : Precedes e.state e.step.2.state := by
  rcases h.state_or_moves with hsame | ⟨i, action, -, -, hstate, hmoves⟩
  · rw [hsame]
    exact .refl _
  · rw [hstate]
    exact ⟨hmoves.inbox_suffix, e.state.outbox_prefix_apply action,
      fun k => e.state.mem_tiles_apply action, fun k => hmoves.filled⟩

structure Conserved (inbox : List Value) (tiles : Tiles) (s : State) : Prop where
  waiting : s.inbox <:+ inbox
  valid : s.view.Valid
  letters : ∀ c, s.Shows (.letter c) →
    .letter c ∈ inbox ∨ ∃ n, tiles.read n = some (.letter c)

section Start
variable (m : Machine) {inbox : List Value} {tiles : Tiles} (hinbox : ∀ v ∈ inbox, v.Valid)
  (htiles : tiles.Valid)
include hinbox htiles

theorem precedes_after {n k : Nat} (h : n ≤ k) :
    Precedes ((m.start inbox tiles).after n).state ((m.start inbox tiles).after k).state := by
  induction h with
  | refl => exact .refl _
  | @step k _ ih => exact ih.trans ((m.follows_start hinbox htiles).after k).precedes_step

theorem conserved_after (n : Nat) :
    Conserved inbox tiles ((m.start inbox tiles).after n).state := by
  have hfollows := (m.follows_start hinbox htiles).after n
  refine ⟨(m.precedes_after hinbox htiles (Nat.zero_le n)).inbox, hfollows.valid, fun c hc => ?_⟩
  obtain ⟨k, -, hsteps, -⟩ := hfollows.reached
  let Native (v : Value) : Prop :=
    ∀ d, v = .letter d → .letter d ∈ inbox ∨ ∃ n, tiles.read n = some (.letter d)
  have hstart : (Reference.start inbox tiles.read).Every Native := by
    refine ⟨by simp [Reference.start], fun k v hv d hd => ?_, fun v hv d hd => ?_,
      by simp [Reference.start]⟩
    · exact .inr ⟨k, hd ▸ hv⟩
    · exact .inl (hd ▸ hv)
  exact State.of_shows (hsteps.every (by simp [Native]) hstart) hc c rfl

end Start

/-- Conservation over whole runs. Whatever state a run of valid values reaches, the inbox
is what is left of the first one, all values are valid and no letter is new; the next step
adds one value to the outbox at most and writes no tile but the one that its instruction
names; and no later state takes back a delivered value, forgets a tile or empties one. -/
theorem conserved_run (m : Machine) {inbox : List Value} {tiles : Tiles}
    (hinbox : ∀ v ∈ inbox, v.Valid) (htiles : tiles.Valid) (n : Nat) :
    let run := (m.start inbox tiles).after
    Conserved inbox tiles (run n).state ∧ m.Touches (run n) ∧
      ∀ k, n ≤ k → Precedes (run n).state (run k).state :=
  ⟨m.conserved_after hinbox htiles n, ((m.follows_start hinbox htiles).after n).touches,
    fun _ => m.precedes_after hinbox htiles⟩

theorem conserved_run_pointer :
    let m : Machine :=
      ⟨⟨#[⟨.inbox, .nothing⟩, ⟨.copyto, .tile (.indirect 4)⟩, ⟨.bumpup, .tile (.direct 4)⟩], ∅,
        #[]⟩, some 9, by decide +kernel⟩
    let inbox : List Value := [.letter 'Q']
    let tiles : Tiles := (∅ : Tiles) |>.insert 4 (some (.int 6))
    let run := (m.start inbox tiles).after
    (∀ v ∈ inbox, v.Valid) ∧ tiles.Valid ∧
      (run 1).state.view.written? ⟨.copyto, .tile (.indirect 4)⟩ = some 6 ∧
      (run 3).state.tiles.read 6 = some (.letter 'Q') ∧
      Conserved inbox tiles (run 1).state ∧ m.Touches (run 1) ∧
      Precedes (run 1).state (run 3).state := by
  intro m inbox tiles run
  have hinbox : ∀ v ∈ inbox, v.Valid := by decide
  have htiles : tiles.Valid := Tiles.valid_empty.insert 4 (by decide)
  have h := m.conserved_run hinbox htiles 1
  exact ⟨hinbox, htiles, by decide +kernel, by decide +kernel, h.1, h.2.1, h.2.2 3 (by decide)⟩

end Machine
end TileMachine
