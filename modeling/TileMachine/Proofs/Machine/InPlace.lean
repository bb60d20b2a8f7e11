import TileMachine.Proofs.Machine.Lifecycle

/-! The same execution with a state that is written to while an instruction is carried out.
What has been written stays if the instruction fails, and each failure carries the index
that it was raised with. -/
namespace TileMachine

/-- What `RuntimeError` tells, with an index of its own in each case. -/
inductive Failure where
  | emptyHands (index : Nat)
  | emptyTile (index address : Nat)
  | notAnAddress (index address : Nat) (value : Value)
  | cannotAddTo (index : Nat) (held : Value)
  | cannotAdd (index : Nat) (value : Value)
  | cannotSub (index : Nat) (value held : Value)
  | cannotIncrement (index : Nat) (value : Value)
  | cannotDecrement (index : Nat) (value : Value)
  | cannotCompare (index : Nat) (held : Value)
  | overflow (index : Nat)
  | invalidJumpTarget (index target : Nat)
  | malformed (index : Nat)
  | tooManySteps (limit : Nat)
deriving DecidableEq, Repr

def Failure.index? : Failure → Option Nat
  | emptyHands index
  | emptyTile index _
  | notAnAddress index _ _
  | cannotAddTo index _
  | cannotAdd index _
  | cannotSub index _ _
  | cannotIncrement index _
  | cannotDecrement index _
  | cannotCompare index _
  | overflow index
  | invalidJumpTarget index _
  | malformed index => some index
  | tooManySteps _ => none

def Fault.raise (index : Nat) : Fault → Failure
  | emptyHands => .emptyHands index
  | emptyTile address => .emptyTile index address
  | notAnAddress address value => .notAnAddress index address value
  | cannotAddTo held => .cannotAddTo index held
  | cannotAdd value => .cannotAdd index value
  | cannotSub value held => .cannotSub index value held
  | cannotIncrement value => .cannotIncrement index value
  | cannotDecrement value => .cannotDecrement index value
  | cannotCompare held => .cannotCompare index held
  | overflow => .overflow index
  | invalidJumpTarget target => .invalidJumpTarget index target
  | malformed => .malformed index

def RuntimeError.failure : RuntimeError → Failure
  | fault index cause => cause.raise index
  | tooManySteps limit => .tooManySteps limit

theorem Fault.index?_raise (index : Nat) (cause : Fault) :
    (cause.raise index).index? = some index := by
  cases cause <;> rfl

theorem Fault.raise_ne_tooManySteps (index limit : Nat) (cause : Fault) :
    cause.raise index ≠ .tooManySteps limit := by
  cases cause <;> simp [raise]

inductive Reply where
  | proceed
  | halted
  | failed (failure : Failure)
deriving DecidableEq, Repr

def Step.reply : Step → Reply
  | proceed => .proceed
  | halted => .halted
  | failed error => .failed error.failure

theorem Step.reply_eq_failed_iff {answer : Step} {failure : Failure} :
    answer.reply = .failed failure ↔ ∃ error, answer = .failed error ∧ error.failure = failure := by
  cases answer <;> simp [reply]

structure Device where
  program : Program
  limit : Option Nat
  state : State
  steps : Nat := 0
  phase : Phase := .ready
  outcome : Option Reply := none

def Device.count (d : Device) : Device :=
  { d with steps := d.steps + 1 }

/-! ### Instructions -/

namespace InPlace

/-- A computation that writes to a device and may fail half-way. -/
abbrev Exec := ExceptT Failure (StateM Device)

inductive Flow where
  | next
  | jump (target : Nat)
  | halt

def hands (index : Nat) : Exec Value := do
  match (← get).state.hands with
  | some v => return v
  | none => throw (.emptyHands index)

def readTile (index address : Nat) : Exec Value := do
  match (← get).state.tiles.read address with
  | some v => return v
  | none => throw (.emptyTile index address)

def resolve (index : Nat) : Address → Exec Nat
  | .direct n => return n
  | .indirect n => do
    let value ← readTile index n
    match value with
    | .int k => if 0 ≤ k then return k.toNat else throw (.notAnAddress index n value)
    | .letter _ => throw (.notAnAddress index n value)

def load (index : Nat) (address : Address) : Exec Value := do
  readTile index (← resolve index address)

def checked (index : Nat) (n : Int) : Exec Int :=
  if Decimal.InRange n then return n else throw (.overflow index)

def setHands (v : Option Value) : Exec Unit :=
  modify fun d => { d with state.hands := v }

def setTile (address : Nat) (v : Value) : Exec Unit :=
  modify fun d => { d with state.tiles := d.state.tiles.insert address (some v) }

def setIp (ip : Nat) : Exec Unit :=
  modify fun d => { d with state.ip := ip }

def inbox : Exec Flow := do
  match (← get).state.inbox with
  | [] => return .halt
  | v :: rest =>
    modify fun d => { d with state.inbox := rest }
    setHands (some v)
    return .next

def outbox (index : Nat) : Exec Flow := do
  let v ← hands index
  modify fun d => { d with state.outbox := d.state.outbox.push v }
  setHands none
  return .next

def copyfrom (index : Nat) (address : Address) : Exec Flow := do
  setHands (some (← load index address))
  return .next

def copyto (index : Nat) (address : Address) : Exec Flow := do
  let v ← hands index
  let n ← resolve index address
  setTile n v
  return .next

def add (index : Nat) (address : Address) : Exec Flow := do
  let held ← hands index
  match held with
  | .letter _ => throw (.cannotAddTo index held)
  | .int a =>
    let v ← load index address
    match v with
    | .letter _ => throw (.cannotAdd index v)
    | .int b =>
      let sum ← checked index (a + b)
      setHands (some (.int sum))
      return .next

def sub (index : Nat) (address : Address) : Exec Flow := do
  let held ← hands index
  let v ← load index address
  let difference ← show Exec Int from
    match held, v with
    | .int a, .int b => checked index (a - b)
    | .letter a, .letter b => return a.toNat - b.toNat
    | _, _ => throw (.cannotSub index v held)
  setHands (some (.int difference))
  return .next

def bump (index : Nat) (address : Address) (delta : Int) : Exec Flow := do
  let n ← resolve index address
  let v ← readTile index n
  match v with
  | .letter _ => throw (if 0 < delta then .cannotIncrement index v else .cannotDecrement index v)
  | .int k =>
    let bumped ← checked index (k + delta)
    setTile n (.int bumped)
    setHands (some (.int bumped))
    return .next

def jumpz (index target : Nat) : Exec Flow := do
  if (← hands index).isZero then return .jump target else return .next

def jumpn (index target : Nat) : Exec Flow := do
  let held ← hands index
  match held with
  | .int n => if n < 0 then return .jump target else return .next
  | .letter _ => throw (.cannotCompare index held)

def dispatch (index : Nat) (i : Instruction) : Exec Flow :=
  match i.opcode, i.operand with
  | .inbox, _ => inbox
  | .outbox, _ => outbox index
  | .copyfrom, .tile address => copyfrom index address
  | .copyto, .tile address => copyto index address
  | .add, .tile address => add index address
  | .sub, .tile address => sub index address
  | .bumpup, .tile address => bump index address 1
  | .bumpdn, .tile address => bump index address (-1)
  | .jump, .label _ target => return .jump target
  | .jumpz, .label _ target => jumpz index target
  | .jumpn, .label _ target => jumpn index target
  | _, _ => throw (.malformed index)

def follow (index : Nat) : Flow → Exec Bool
  | .next => do
    setIp (index + 1)
    let d ← get
    return d.state.ip < d.program.length
  | .jump target => do
    let length := (← get).program.length
    if length < target then throw (.invalidJumpTarget index target)
    else
      setIp target
      return target < length
  | .halt => return false

def checkLimit : Exec Unit := do
  let d ← get
  match d.limit with
  | none => return
  | some limit => if limit ≤ d.steps then throw (.tooManySteps limit) else return

def advance : Exec Bool := do
  let d ← get
  let index := d.state.ip
  match d.program.instructions[index]? with
  | none => return false
  | some i =>
    checkLimit
    modify Device.count
    follow index (← dispatch index i)

end InPlace

namespace Device
open InPlace

def run (d : Device) {α : Type} (x : Exec α) : Except Failure α × Device :=
  StateT.run (ExceptT.run x) d

def start (d : Device) : Device :=
  { d with phase := .running }

def conclude : Except Failure Bool × Device → Reply × Device
  | (.ok true, d) => (.proceed, d)
  | (.ok false, d) => (.halted, { d with phase := .halted, outcome := some .halted })
  | (.error failure, d) =>
    (.failed failure, { d with phase := .failed, outcome := some (.failed failure) })

def step (d : Device) : Reply × Device :=
  match d.outcome with
  | some outcome => (outcome, d)
  | none => conclude (d.start.run advance)

def after (d : Device) : Nat → Device
  | 0 => d
  | n + 1 => (d.after n).step.2

end Device

def Machine.device (m : Machine) (inbox : List Value) (tiles : Tiles) : Device where
  program := m.program
  limit := m.limit
  state := { tiles, inbox }

/-! ### Instructions against their plans -/

def Device.settle (d : Device) : Except Fault Action → Except Failure Bool × Device
  | .error cause => (.error (cause.raise d.state.ip), d)
  | .ok action =>
    let state := d.state.apply action
    (.ok (action != .stop && state.ip < d.program.length), { d with state })

namespace InPlace

variable {α β : Type} {d : Device} {index : Nat}

theorem run_get : d.run get = (.ok d, d) := rfl

theorem run_bind (x : Exec α) (f : α → Exec β) : d.run (x >>= f) =
    match d.run x with
    | (.ok a, d) => d.run (f a)
    | (.error failure, d) => (.error failure, d) := by
  change StateT.run (ExceptT.run x >>= ExceptT.bindCont f) d = _
  rw [StateT.run_bind, Device.run]
  generalize StateT.run (ExceptT.run x) d = result
  cases result with
  | mk answer d => cases answer <;> rfl

/-- Looking at the state changes nothing, and finds what a plan would find. -/
def Reads (d : Device) (index : Nat) (x : Exec α) (found : Except Fault α) : Prop :=
  d.run x = (found.mapError (Fault.raise index), d)

theorem Reads.bind {x : Exec α} {f : α → Exec β} {found : Except Fault α}
    {next : α → Except Fault β} (hx : Reads d index x found)
    (hf : ∀ a, found = .ok a → Reads d index (f a) (next a)) :
    Reads d index (x >>= f) (found >>= next) := by
  unfold Reads
  rw [run_bind, hx]
  cases found with
  | error cause => rfl
  | ok a => exact hf a rfl

theorem reads_hands : Reads d index (hands index) d.state.held := by
  unfold Reads hands State.held
  rw [run_bind, run_get]
  dsimp only
  cases d.state.hands <;> rfl

theorem reads_readTile (address : Nat) :
    Reads d index (readTile index address) (d.state.readTile address) := by
  unfold Reads readTile State.readTile
  rw [run_bind, run_get]
  dsimp only
  cases d.state.tiles.read address <;> rfl

theorem reads_resolve (address : Address) :
    Reads d index (resolve index address) (d.state.locate address) := by
  cases address with
  | direct n => rfl
  | indirect n =>
    apply (reads_readTile n).bind
    intro v _
    cases v with
    | letter c => rfl
    | int k =>
      unfold Reads
      dsimp only
      split <;> rfl

theorem reads_load (address : Address) :
    Reads d index (load index address) (d.state.load address) :=
  (reads_resolve address).bind fun n _ => reads_readTile n

/-- An instruction carries out its plan, once control has moved on. -/
def CarriesOut (d : Device) (x : Exec Flow) (planned : Except Fault Action) : Prop :=
  d.run (x >>= follow d.state.ip) = d.settle planned

theorem Reads.carriesOut {x : Exec α} {f : α → Exec Flow} {found : Except Fault α}
    {next : α → Except Fault Action} (hx : Reads d d.state.ip x found)
    (hf : ∀ a, found = .ok a → CarriesOut d (f a) (next a)) :
    CarriesOut d (x >>= f) (found >>= next) := by
  unfold CarriesOut
  rw [bind_assoc, run_bind, hx]
  cases found with
  | error cause => rfl
  | ok a => exact hf a rfl

theorem carriesOut_checked {n : Int} {f : Int → Exec Flow} {next : Value → Action}
    (hf : CarriesOut d (f n) (.ok (next (.int n)))) :
    CarriesOut d (checked d.state.ip n >>= f) (next <$> State.checked n) := by
  unfold checked State.checked
  by_cases hn : Decimal.InRange n
  · rw [if_pos hn, if_pos hn, pure_bind]
    exact hf
  · rw [if_neg hn, if_neg hn]
    rfl

theorem carriesOut_inbox : CarriesOut d inbox
    (match d.state.inbox with
      | [] => .ok .stop
      | v :: rest => .ok (.take v rest)) := by
  unfold CarriesOut inbox
  rw [bind_assoc, run_bind, run_get]
  dsimp only
  cases d.state.inbox <;> rfl

theorem carriesOut_outbox :
    CarriesOut d (outbox d.state.ip) (.deliver <$> d.state.held) := by
  apply reads_hands.carriesOut
  intro v _
  rfl

theorem carriesOut_copyfrom (address : Address) :
    CarriesOut d (copyfrom d.state.ip address) (.hold <$> d.state.load address) := by
  apply (reads_load address).carriesOut
  intro v _
  rfl

theorem carriesOut_copyto (address : Address) :
    CarriesOut d (copyto d.state.ip address) (do
      let v ← d.state.held
      return .store (← d.state.locate address) v) := by
  apply reads_hands.carriesOut
  intro v _
  apply (reads_resolve address).carriesOut
  intro n _
  rfl

theorem carriesOut_add (address : Address) :
    CarriesOut d (add d.state.ip address) (d.state.planAdd address) := by
  apply reads_hands.carriesOut
  intro held _
  cases held with
  | letter c => rfl
  | int a =>
    apply (reads_load address).carriesOut
    intro v _
    cases v with
    | letter c => rfl
    | int b =>
      apply carriesOut_checked
      rfl

theorem carriesOut_sub (address : Address) :
    CarriesOut d (sub d.state.ip address) (d.state.planSub address) := by
  apply reads_hands.carriesOut
  intro held _
  apply (reads_load address).carriesOut
  intro v _
  cases held with
  | letter a =>
    cases v with
    | letter b => rfl
    | int b => rfl
  | int a =>
    cases v with
    | letter b => rfl
    | int b =>
      apply carriesOut_checked
      rfl

theorem carriesOut_bump (address : Address) {delta : Int} {refuse : Value → Fault}
    (hrefuse : ∀ v, (refuse v).raise d.state.ip =
      if 0 < delta then .cannotIncrement d.state.ip v else .cannotDecrement d.state.ip v) :
    CarriesOut d (bump d.state.ip address delta) (d.state.planBump address delta refuse) := by
  apply (reads_resolve address).carriesOut
  intro n _
  apply (reads_readTile n).carriesOut
  intro v _
  cases v with
  | letter c => exact congrArg (fun failure => (Except.error failure, d)) (hrefuse _).symm
  | int k =>
    apply carriesOut_checked
    rfl

theorem carriesOut_jump (target : Nat) : CarriesOut d (return .jump target)
    (State.planJump d.program.length target) := by
  unfold CarriesOut State.planJump
  rw [pure_bind, follow, run_bind, run_get]
  dsimp only
  split
  next hfar => rw [if_neg (by omega)]; rfl
  next hnear => rw [if_pos (by omega)]; rfl

theorem carriesOut_jumpz (target : Nat) : CarriesOut d (jumpz d.state.ip target) (do
    if (← d.state.held).isZero then State.planJump d.program.length target
    else return .skip) := by
  apply reads_hands.carriesOut
  intro held _
  split
  · exact carriesOut_jump target
  · rfl

theorem carriesOut_jumpn (target : Nat) : CarriesOut d (jumpn d.state.ip target) (do
    let v ← d.state.held
    match v with
    | .int n => if n < 0 then State.planJump d.program.length target else return .skip
    | .letter _ => .error (.cannotCompare v)) := by
  apply reads_hands.carriesOut
  intro held _
  cases held with
  | letter c => rfl
  | int n =>
    dsimp only
    split
    · exact carriesOut_jump target
    · rfl

theorem carriesOut_dispatch (i : Instruction) :
    CarriesOut d (dispatch d.state.ip i) (d.state.plan d.program.length i) := by
  obtain ⟨opcode, operand⟩ := i
  cases operand with
  | nothing =>
    cases opcode with
    | inbox => exact carriesOut_inbox
    | outbox => exact carriesOut_outbox
    | _ => rfl
  | tile address =>
    cases opcode with
    | inbox => exact carriesOut_inbox
    | outbox => exact carriesOut_outbox
    | copyfrom => exact carriesOut_copyfrom address
    | copyto => exact carriesOut_copyto address
    | add => exact carriesOut_add address
    | sub => exact carriesOut_sub address
    | bumpup => exact carriesOut_bump address fun _ => rfl
    | bumpdn => exact carriesOut_bump address fun _ => rfl
    | jump | jumpz | jumpn => rfl
  | label name target =>
    cases opcode with
    | inbox => exact carriesOut_inbox
    | outbox => exact carriesOut_outbox
    | jump => exact carriesOut_jump target
    | jumpz => exact carriesOut_jumpz target
    | jumpn => exact carriesOut_jumpn target
    | _ => rfl

end InPlace

/-! ### Steps -/

def Step.result : Step → Except Failure Bool
  | proceed => .ok true
  | halted => .ok false
  | failed error => .error error.failure

def Session.device (s : Session) : Device :=
  ⟨s.program, s.limit, s.state, s.steps, s.phase, s.outcome.map Step.reply⟩

namespace Device
open InPlace

def takeOver (d : Device) (e : Execution) : Device :=
  { d with state := e.state, steps := e.steps }

def body (d : Device) : Execution :=
  { program := d.program, limit := d.limit, state := d.state, steps := d.steps }

theorem run_checkLimit (d : Device) : d.run checkLimit =
    (match d.body.exhausted with
      | none => .ok ()
      | some limit => .error (.tooManySteps limit), d) := by
  unfold checkLimit Execution.exhausted body
  rw [run_bind, run_get]
  dsimp only
  cases d.limit with
  | none => rfl
  | some limit =>
    dsimp only
    by_cases hspent : limit ≤ d.steps
    · rw [if_pos hspent, Option.filter_some, if_pos (decide_eq_true hspent)]
      rfl
    · rw [if_neg hspent, Option.filter_some, if_neg (by simpa using hspent)]
      rfl

theorem settle_ok (d : Device) (action : Action) : d.settle (.ok action) =
    ((d.body.settle action).1.result, d.takeOver (d.body.settle action).2) := by
  by_cases hgo : action = .stop ∨ d.program.length ≤ (d.state.apply action).ip
  · rw [Execution.settle_finishes (e := d.body) hgo]
    have hends : (action != .stop && decide ((d.state.apply action).ip < d.program.length)) =
        false := by
      rw [Bool.and_eq_false_iff]
      exact hgo.imp (by simp) (by simp)
    simp only [settle, hends]
    rfl
  · rw [not_or, Nat.not_le] at hgo
    rw [Execution.settle_proceeds (e := d.body) hgo.1 hgo.2]
    have hgoes : (action != .stop && decide ((d.state.apply action).ip < d.program.length)) =
        true := by
      rw [Bool.and_eq_true, bne_iff_ne, decide_eq_true_eq]
      exact hgo
    simp only [settle, hgoes]
    rfl

/-- Written in place or planned first, an instruction does the same. -/
theorem run_advance (d : Device) : d.run advance =
    (d.body.advance.1.result, d.takeOver d.body.advance.2) := by
  unfold advance
  rw [run_bind, run_get]
  dsimp only
  cases hi : d.program.instructions[d.state.ip]? with
  | none =>
    rw [Execution.advance_at_end (e := d.body) hi]
    rfl
  | some i =>
    dsimp only
    rw [run_bind, run_checkLimit]
    cases hlimit : d.body.exhausted with
    | some limit =>
      rw [Execution.advance_exhausted (e := d.body) hi hlimit]
      rfl
    | none =>
      have hdone : d.count.run (dispatch d.state.ip i >>= follow d.state.ip) =
          d.count.settle (d.state.plan d.program.length i) := carriesOut_dispatch i
      dsimp only
      rw [run_bind]
      change d.count.run (dispatch d.state.ip i >>= follow d.state.ip) = _
      rw [hdone]
      cases hplan : d.state.plan d.program.length i with
      | error cause =>
        rw [Execution.advance_fault (e := d.body) hi hlimit hplan]
        rfl
      | ok action =>
        rw [Execution.advance_action (e := d.body) hi hlimit hplan, settle_ok]
        rfl

end Device

namespace Session

theorem step_device (s : Session) : s.device.step = (s.step.1.reply, s.step.2.device) := by
  unfold Device.step step
  cases houtcome : s.outcome with
  | some outcome => simp only [device, houtcome, Option.map_some]
  | none =>
    have hnone : s.device.outcome = none := by rw [device, houtcome, Option.map_none]
    have hadvance : s.device.start.run InPlace.advance =
        (s.body.advance.1.result, s.device.start.takeOver s.body.advance.2) :=
      Device.run_advance s.device.start
    rw [hnone, hadvance]
    generalize s.body.advance = done
    obtain ⟨answer, e⟩ := done
    cases answer with
    | proceed =>
      simp only [Step.result, Device.conclude, Device.takeOver, Device.start, hnone]
      rfl
    | halted => rfl
    | failed error => rfl

end Session

namespace Execution

def device (e : Execution) : Device :=
  e.session.device

theorem step_device (e : Execution) : e.device.step = (e.step.1.reply, e.step.2.device) := by
  rw [device, Session.step_device, session_step]
  rfl

theorem after_device (e : Execution) (n : Nat) : e.device.after n = (e.after n).device := by
  induction n with
  | zero => rfl
  | succ n ih => rw [Device.after, ih, step_device, after]

end Execution
end TileMachine
