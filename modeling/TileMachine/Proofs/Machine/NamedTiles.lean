import TileMachine.Proofs.Machine.Lockstep

/-! A program that names its tiles by their numbers touches no others. What stands on the
rest of the floor cannot be seen in a run, and it stays there. -/
namespace TileMachine

def Operand.isPointer : Operand → Bool
  | .tile (.indirect _) => true
  | _ => false

def Instruction.namedTile? (i : Instruction) : Option Nat :=
  match i.operand with
  | .tile (.direct n) => some n
  | _ => none

namespace Program

def namedTiles (p : Program) : List Nat :=
  p.instructions.toList.filterMap Instruction.namedTile?

def IsDirect (p : Program) : Prop :=
  ∀ i ∈ p.instructions, i.operand.isPointer = false

instance (p : Program) : Decidable p.IsDirect :=
  inferInstanceAs (Decidable (∀ i ∈ p.instructions, _))

theorem IsDirect.exists_named {p : Program} (h : p.IsDirect) {i : Instruction}
    (hi : i ∈ p.instructions) {a : Address} (ha : i.operand = .tile a) :
    ∃ n ∈ p.namedTiles, a = .direct n := by
  cases a with
  | indirect n =>
    have hdirect := h i hi
    rw [ha] at hdirect
    contradiction
  | direct n =>
    have hnamed : i.namedTile? = some n := by rw [Instruction.namedTile?, ha]
    exact ⟨n, List.mem_filterMap.2 ⟨i, Array.mem_toList_iff.2 hi, hnamed⟩, rfl⟩

end Program

def Action.written? : Action → Option Nat
  | .store n _ | .bump n _ => some n
  | _ => none

namespace State

variable {s t : State} {named : List Nat} {length : Nat} {i : Instruction} {action : Action}

/-- An action writes no tile but the one that the address of its instruction leads to. -/
theorem locate_of_written (h : s.plan length i = .ok action) {n : Nat}
    (hn : action.written? = some n) : ∃ a, i.operand = .tile a ∧ s.locate a = .ok n := by
  have hmakes := makes_of_plan h
  obtain ⟨opcode, operand⟩ := i
  cases action with
  | store k v =>
    cases hn
    cases opcode with
    | copyto =>
      cases operand with
      | tile a =>
        obtain ⟨_, -, hstore⟩ := bind_eq_ok.1 h
        obtain ⟨_, hlocate, hpure⟩ := bind_eq_ok.1 hstore
        cases hpure
        exact ⟨a, rfl, hlocate⟩
      | _ => contradiction
    | _ => exact hmakes.elim
  | bump k v =>
    cases hn
    have hbump {a : Address} {delta : Int} {refuse : Value → Fault}
        (h : s.planBump a delta refuse = .ok (.bump n v)) : s.locate a = .ok n := by
      obtain ⟨_, _, hlocate, hsame⟩ := exists_bump_of_planBump h
      cases hsame
      exact hlocate
    cases opcode with
    | bumpup | bumpdn =>
      cases operand with
      | tile a => exact ⟨a, rfl, hbump h⟩
      | _ => contradiction
    | _ => exact hmakes.elim
  | _ => contradiction

theorem getElem?_tiles_apply (s : State) {n : Nat} (h : action.written? ≠ some n) :
    (s.apply action).tiles[n]? = s.tiles[n]? := by
  have hinsert {k : Nat} (hk : some k ≠ some n) (v : Value) :
      (s.tiles.insert k (some v))[n]? = s.tiles[n]? := by
    rw [Std.ExtTreeMap.getElem?_insert, if_neg]
    rw [Std.LawfulEqOrd.compare_eq_iff_eq]
    exact fun heq => hk (congrArg some heq)
  cases action with
  | store k v => exact hinsert h v
  | bump k v => exact hinsert h v
  | _ => rfl

/-- The states differ at most in tiles that are not on the list. -/
structure AgreeOn (named : List Nat) (s t : State) : Prop where
  ip : t.ip = s.ip
  hands : t.hands = s.hands
  inbox : t.inbox = s.inbox
  outbox : t.outbox = s.outbox
  tile : ∀ n ∈ named, t.tiles.read n = s.tiles.read n

theorem AgreeOn.seenAlike (h : AgreeOn named s t)
    (hi : ∀ a, i.operand = .tile a → ∃ n ∈ named, a = .direct n) : SeenAlike i s t where
  hands := h.hands
  inbox := h.inbox
  locate a ha := by
    obtain ⟨n, -, rfl⟩ := hi a ha
    rfl
  tile a k ha hk := by
    obtain ⟨n, hn, rfl⟩ := hi a ha
    cases hk
    unfold readTile
    rw [h.tile k hn]

theorem AgreeOn.apply (h : AgreeOn named s t) (action : Action) :
    AgreeOn named (s.apply action) (t.apply action) := by
  have hip : t.ip + 1 = s.ip + 1 := congrArg (· + 1) h.ip
  have htile (k : Nat) (v : Value) : ∀ n ∈ named,
      Tiles.read (t.tiles.insert k (some v)) n = Tiles.read (s.tiles.insert k (some v)) n := by
    intro n hn
    rw [Tiles.read_insert, Tiles.read_insert, h.tile n hn]
  cases action with
  | stop => exact h
  | take v rest => exact ⟨hip, rfl, rfl, h.outbox, h.tile⟩
  | deliver v => exact ⟨hip, rfl, h.inbox, congrArg (Array.push · v) h.outbox, h.tile⟩
  | hold v => exact ⟨hip, rfl, h.inbox, h.outbox, h.tile⟩
  | store k v => exact ⟨hip, h.hands, h.inbox, h.outbox, htile k v⟩
  | bump k v => exact ⟨hip, rfl, h.inbox, h.outbox, htile k v⟩
  | goto target => exact ⟨rfl, h.hands, h.inbox, h.outbox, h.tile⟩
  | skip => exact ⟨hip, h.hands, h.inbox, h.outbox, h.tile⟩

end State

namespace Execution
open State (AgreeOn)

variable {e f : Execution}

theorem getElem?_tiles_step (h : e.program.IsDirect) {n : Nat} (hn : n ∉ e.program.namedTiles) :
    e.step.2.state.tiles[n]? = e.state.tiles[n]? := by
  have happly {i : Instruction} {action : Action}
      (hi : e.program.instructions[e.state.ip]? = some i)
      (hplan : e.state.plan e.program.length i = .ok action) :
      (e.state.apply action).tiles[n]? = e.state.tiles[n]? := by
    apply State.getElem?_tiles_apply
    intro hwritten
    obtain ⟨a, ha, hlocate⟩ := State.locate_of_written hplan hwritten
    obtain ⟨k, hk, rfl⟩ := h.exists_named (Array.mem_of_getElem? hi) ha
    cases hlocate
    exact hn hk
  have hstep := e.stepsTo
  generalize e.step = next at hstep ⊢
  cases hstep with
  | proceeds _ hi _ hplan => exact happly hi hplan
  | finishes _ hi _ hplan => exact happly hi hplan
  | _ => rfl

theorem getElem?_tiles_after (h : e.program.IsDirect) {k : Nat} (hk : k ∉ e.program.namedTiles)
    (n : Nat) : (e.after n).state.tiles[k]? = e.state.tiles[k]? := by
  induction n with
  | zero => rfl
  | succ n ih =>
    have hprogram := (e.after_program n).1
    rw [← ih]
    apply getElem?_tiles_step
    · rwa [hprogram]
    · rwa [hprogram]

/-- The states agree on the listed tiles and in all else that is shown, and so do the
answers of the next step. -/
structure AlikeOn (named : List Nat) (e f : Execution) : Prop where
  state : AgreeOn named e.state f.state
  steps : f.steps = e.steps
  answer : f.step.1 = e.step.1

theorem lockstep_of_named (h : Lockstep (AgreeOn e.program.namedTiles) e f)
    (hlimit : f.limit = e.limit) (hdirect : e.program.IsDirect) (n : Nat) :
    Lockstep (AgreeOn e.program.namedTiles) (e.after n) (f.after n) := by
  apply h.after hlimit
  · exact fun _ _ hst => hst.ip
  · intro i hi s t hst
    have hseen := hst.seenAlike (i := i) fun _ => hdirect.exists_named hi
    rw [hseen.plan_eq]
    exact State.plansAlike_of_apply hst.apply _

end Execution

namespace Machine
open Execution (AlikeOn)

/-- Two runs of a program without pointers, on floors that agree on the tiles which the
program names, are alike at any time and still agree there. Each of them leaves the rest of
its floor as it was. -/
theorem alikeOn_namedTiles (m : Machine) (hdirect : m.program.IsDirect) (inbox : List Value)
    {tiles tiles' : Tiles} (h : ∀ n ∈ m.program.namedTiles, tiles'.read n = tiles.read n)
    (calls : Nat) :
    let e := (m.start inbox tiles).after calls
    let f := (m.start inbox tiles').after calls
    AlikeOn m.program.namedTiles e f ∧
      ∀ n, n ∉ m.program.namedTiles →
        e.state.tiles[n]? = tiles[n]? ∧ f.state.tiles[n]? = tiles'[n]? := by
  intro e f
  have hstart : Execution.Lockstep (State.AgreeOn m.program.namedTiles) (m.start inbox tiles)
      (m.start inbox tiles') :=
    ⟨rfl, rfl, rfl, rfl, rfl, rfl, rfl, h⟩
  have hlock (n : Nat) := Execution.lockstep_of_named (e := m.start inbox tiles) hstart rfl hdirect n
  refine ⟨⟨(hlock calls).state, (hlock calls).steps, (hlock (calls + 1)).answer_eq⟩,
    fun n hn => ⟨?_, ?_⟩⟩
  · exact Execution.getElem?_tiles_after (e := m.start inbox tiles) hdirect hn calls
  · exact Execution.getElem?_tiles_after (e := m.start inbox tiles') hdirect hn calls

/-- The floors differ in a tile that is full on one of them, and in one that is known and
empty. The run fails with the value of a tile that the program names. -/
theorem alikeOn_namedTiles_letters :
    let m : Machine :=
      ⟨⟨#[⟨.inbox, .nothing⟩, ⟨.copyto, .tile (.direct 1)⟩, ⟨.bumpup, .tile (.direct 4)⟩,
        ⟨.add, .tile (.direct 1)⟩], ∅, #[]⟩, some 7, by decide +kernel⟩
    let tiles : Tiles := (∅ : Tiles) |>.insert 4 (some (.int 6))
    let tiles' : Tiles := tiles |>.insert 8 (some (.letter 'W')) |>.insert 9 none
    let e := (m.start [.letter 'P'] tiles).after 3
    let f := (m.start [.letter 'P'] tiles').after 3
    m.program.IsDirect ∧ (∀ n ∈ m.program.namedTiles, tiles'.read n = tiles.read n) ∧
      e.step.1 = .failed (.fault 3 (.cannotAdd (.letter 'P'))) ∧
      AlikeOn m.program.namedTiles e f ∧ f.state.tiles[8]? = some (some (.letter 'W')) ∧
      e.state.tiles[8]? = none := by
  intro m tiles tiles' e f
  have hdirect : m.program.IsDirect := by decide +kernel
  have h : ∀ n ∈ m.program.namedTiles, tiles'.read n = tiles.read n := by decide +kernel
  have halike := m.alikeOn_namedTiles hdirect [.letter 'P'] h 3
  have hrest := halike.2 8 (by decide +kernel)
  exact ⟨hdirect, h, by decide +kernel, halike.1, hrest.2, hrest.1⟩

end Machine
end TileMachine
