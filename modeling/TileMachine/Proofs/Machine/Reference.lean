import TileMachine.Machine.State

/-! The machine over exact integers. Its floor is a function from addresses, its
steps are the rows of the operation table, and nothing in it can overflow. Next to
it stand the conditions that a bounded machine has to check before a step, in the
order in which it reports them. -/
namespace TileMachine.Reference

@[ext] structure State where
  ip : Nat
  hands : Option Value
  floor : Nat → Option Value
  inbox : List Value
  outbox : List Value

def start (inbox : List Value) (floor : Nat → Option Value) : State :=
  { ip := 0, hands := none, floor, inbox, outbox := [] }

namespace State

def target? (s : State) : Address → Option Nat
  | .direct n => some n
  | .indirect n =>
    match s.floor n with
    | some (.int k) => if 0 ≤ k then some k.toNat else none
    | _ => none

def content? (s : State) (a : Address) : Option Value :=
  s.target? a >>= s.floor

def put (s : State) (n : Nat) (v : Value) : Nat → Option Value :=
  fun k => if k = n then some v else s.floor k

/-- The operation table for programs of that length: what has to hold before each
operation, and what it does. -/
inductive Moves (length : Nat) (s : State) : Instruction → State → Prop where
  | inbox {v : Value} {rest : List Value} : s.inbox = v :: rest →
      Moves length s ⟨.inbox, .nothing⟩ { s with ip := s.ip + 1, hands := some v, inbox := rest }
  | outbox {v : Value} : s.hands = some v →
      Moves length s ⟨.outbox, .nothing⟩
        { s with ip := s.ip + 1, hands := none, outbox := s.outbox ++ [v] }
  | copyfrom {a : Address} {v : Value} : s.content? a = some v →
      Moves length s ⟨.copyfrom, .tile a⟩ { s with ip := s.ip + 1, hands := some v }
  | copyto {a : Address} {n : Nat} {v : Value} : s.hands = some v → s.target? a = some n →
      Moves length s ⟨.copyto, .tile a⟩ { s with ip := s.ip + 1, floor := s.put n v }
  | add {a : Address} {x y : Int} : s.hands = some (.int x) → s.content? a = some (.int y) →
      Moves length s ⟨.add, .tile a⟩ { s with ip := s.ip + 1, hands := some (.int (x + y)) }
  | subInts {a : Address} {x y : Int} : s.hands = some (.int x) → s.content? a = some (.int y) →
      Moves length s ⟨.sub, .tile a⟩ { s with ip := s.ip + 1, hands := some (.int (x - y)) }
  | subLetters {a : Address} {c d : Char} :
      s.hands = some (.letter c) → s.content? a = some (.letter d) →
      Moves length s ⟨.sub, .tile a⟩
        { s with ip := s.ip + 1, hands := some (.int (c.toNat - d.toNat)) }
  | bumpup {a : Address} {n : Nat} {y : Int} :
      s.target? a = some n → s.floor n = some (.int y) →
      Moves length s ⟨.bumpup, .tile a⟩
        { s with ip := s.ip + 1, hands := some (.int (y + 1)), floor := s.put n (.int (y + 1)) }
  | bumpdn {a : Address} {n : Nat} {y : Int} :
      s.target? a = some n → s.floor n = some (.int y) →
      Moves length s ⟨.bumpdn, .tile a⟩
        { s with ip := s.ip + 1, hands := some (.int (y - 1)), floor := s.put n (.int (y - 1)) }
  | jump {name : String} {target : Nat} : target ≤ length →
      Moves length s ⟨.jump, .label name target⟩ { s with ip := target }
  | jumpzTaken {name : String} {target : Nat} : s.hands = some (.int 0) →
      Moves length s ⟨.jumpz, .label name target⟩ { s with ip := target }
  | jumpzPassed {name : String} {target : Nat} {v : Value} : s.hands = some v → v ≠ .int 0 →
      Moves length s ⟨.jumpz, .label name target⟩ { s with ip := s.ip + 1 }
  | jumpnTaken {name : String} {target : Nat} {x : Int} : s.hands = some (.int x) → x < 0 →
      Moves length s ⟨.jumpn, .label name target⟩ { s with ip := target }
  | jumpnPassed {name : String} {target : Nat} {x : Int} : s.hands = some (.int x) → 0 ≤ x →
      Moves length s ⟨.jumpn, .label name target⟩ { s with ip := s.ip + 1 }

def Halts (s : State) (i : Instruction) : Prop :=
  i.opcode = .inbox ∧ s.inbox = []

def Allows (length : Nat) (s : State) (i : Instruction) : Prop :=
  s.Halts i ∨ ∃ s', Moves length s i s'

/-- The exact result of an operation that computes one. -/
def result? (s : State) (i : Instruction) : Option Int :=
  match i.opcode, i.operand with
  | .add, .tile a =>
    match s.hands, s.content? a with
    | some (.int x), some (.int y) => some (x + y)
    | _, _ => none
  | .sub, .tile a =>
    match s.hands, s.content? a with
    | some (.int x), some (.int y) => some (x - y)
    | some (.letter c), some (.letter d) => some (c.toNat - d.toNat)
    | _, _ => none
  | .bumpup, .tile a =>
    match s.content? a with
    | some (.int y) => some (y + 1)
    | _ => none
  | .bumpdn, .tile a =>
    match s.content? a with
    | some (.int y) => some (y - 1)
    | _ => none
  | _, _ => none

end State

/-- The conditions of a step, in the order in which they are reported. -/
inductive Stage where
  | hands | augend | pointer | address | tile | kinds | range
deriving DecidableEq, Repr

def Stage.all : List Stage :=
  [hands, augend, pointer, address, tile, kinds, range]

def needsHands : Opcode → Bool
  | .outbox | .copyto | .add | .sub | .jumpz | .jumpn => true
  | .inbox | .copyfrom | .bumpup | .bumpdn | .jump => false

def readsTile : Opcode → Bool
  | .copyfrom | .add | .sub | .bumpup | .bumpdn => true
  | .inbox | .outbox | .copyto | .jump | .jumpz | .jumpn => false

namespace State

def emptyPointer? (s : State) : Address → Option Fault
  | .direct _ => none
  | .indirect n => if s.floor n = none then some (.emptyTile n) else none

def badPointer? (s : State) : Address → Option Fault
  | .direct _ => none
  | .indirect n =>
    match s.floor n with
    | none => none
    | some (.int k) => if 0 ≤ k then none else some (.notAnAddress n (.int k))
    | some (.letter c) => some (.notAnAddress n (.letter c))

def emptyTarget? (s : State) (a : Address) : Option Fault :=
  match s.target? a with
  | none => none
  | some n => if s.floor n = none then some (.emptyTile n) else none

def badKind? (s : State) (i : Instruction) : Option Fault :=
  match i.opcode, i.operand with
  | .add, .tile a =>
    match s.content? a with
    | some (.letter c) => some (.cannotAdd (.letter c))
    | _ => none
  | .sub, .tile a =>
    match s.hands, s.content? a with
    | some (.int x), some (.letter c) => some (.cannotSub (.letter c) (.int x))
    | some (.letter c), some (.int y) => some (.cannotSub (.int y) (.letter c))
    | _, _ => none
  | .bumpup, .tile a =>
    match s.content? a with
    | some (.letter c) => some (.cannotIncrement (.letter c))
    | _ => none
  | .bumpdn, .tile a =>
    match s.content? a with
    | some (.letter c) => some (.cannotDecrement (.letter c))
    | _ => none
  | .jumpn, _ =>
    match s.hands with
    | some (.letter c) => some (.cannotCompare (.letter c))
    | _ => none
  | _, _ => none

/-- How an instruction violates one of the conditions, whatever the others say. -/
def violation? (s : State) (i : Instruction) : Stage → Option Fault
  | .hands => if needsHands i.opcode = true ∧ s.hands = none then some .emptyHands else none
  | .augend =>
    match i.opcode, s.hands with
    | .add, some (.letter c) => some (.cannotAddTo (.letter c))
    | _, _ => none
  | .pointer =>
    match i.operand with
    | .tile a => s.emptyPointer? a
    | _ => none
  | .address =>
    match i.operand with
    | .tile a => s.badPointer? a
    | _ => none
  | .tile =>
    match i.operand with
    | .tile a => if readsTile i.opcode = true then s.emptyTarget? a else none
    | _ => none
  | .kinds => s.badKind? i
  | .range =>
    match s.result? i with
    | some n => if Decimal.InRange n then none else some .overflow
    | none => none

def fault? (s : State) (i : Instruction) : Option Fault :=
  Stage.all.findSome? (s.violation? i)

end State

inductive Steps (p : Array Instruction) : Nat → State → State → Prop where
  | zero {s : State} : Steps p 0 s s
  | succ {n : Nat} {s t u : State} {i : Instruction} :
      Steps p n s t → p[t.ip]? = some i → State.Moves p.size t i u → Steps p (n + 1) s u

theorem Stage.mem_all (stage : Stage) : stage ∈ Stage.all := by
  cases stage <;> decide

namespace State

variable {length : Nat} {s t u : State} {i : Instruction} {a : Address}

theorem fault?_eq_none_iff : s.fault? i = none ↔ ∀ stage, s.violation? i stage = none := by
  rw [fault?, List.findSome?_eq_none_iff]
  exact ⟨fun h stage => h stage (Stage.mem_all stage), fun h stage _ => h stage⟩

def pointerFault? (s : State) (a : Address) : Option Fault :=
  (s.emptyPointer? a).or (s.badPointer? a)

theorem fault?_eq (s : State) (i : Instruction) : s.fault? i =
    (s.violation? i .hands).or ((s.violation? i .augend).or
      ((s.violation? i .pointer).or ((s.violation? i .address).or
        ((s.violation? i .tile).or ((s.violation? i .kinds).or (s.violation? i .range)))))) := by
  have hcons (stage : Stage) (rest : List Stage) : (stage :: rest).findSome? (s.violation? i) =
      (s.violation? i stage).or (rest.findSome? (s.violation? i)) := by
    rw [List.findSome?_cons]
    cases s.violation? i stage <;> rfl
  simp only [fault?, Stage.all, hcons, List.findSome?_nil, Option.or_none]

theorem fault?_tile (s : State) (opcode : Opcode) (a : Address) :
    s.fault? ⟨opcode, .tile a⟩ =
      (s.violation? ⟨opcode, .tile a⟩ .hands).or
        ((s.violation? ⟨opcode, .tile a⟩ .augend).or
          ((s.pointerFault? a).or
            ((s.violation? ⟨opcode, .tile a⟩ .tile).or
              ((s.badKind? ⟨opcode, .tile a⟩).or (s.violation? ⟨opcode, .tile a⟩ .range))))) := by
  rw [pointerFault?, Option.or_assoc, fault?_eq]
  rfl

theorem pointerFault?_eq_none_iff : s.pointerFault? a = none ↔ ∃ n, s.target? a = some n := by
  cases a with
  | direct n => simp [pointerFault?, emptyPointer?, badPointer?, target?]
  | indirect n =>
    cases hfloor : s.floor n with
    | none => simp [pointerFault?, emptyPointer?, target?, hfloor]
    | some v =>
      cases v with
      | letter c => simp [pointerFault?, emptyPointer?, badPointer?, target?, hfloor]
      | int k =>
        by_cases hk : 0 ≤ k
        · simp [pointerFault?, emptyPointer?, badPointer?, target?, hfloor, hk]
        · simp [pointerFault?, emptyPointer?, badPointer?, target?, hfloor, hk]

theorem content?_of_target {n : Nat} (h : s.target? a = some n) : s.content? a = s.floor n := by
  rw [content?, h]
  rfl

theorem exists_target_of_content {v : Value} (h : s.content? a = some v) :
    ∃ n, s.target? a = some n ∧ s.floor n = some v :=
  Option.bind_eq_some_iff.1 h

theorem violation?_range_eq_none_iff : s.violation? i .range = none ↔
    ∀ n, s.result? i = some n → Decimal.InRange n := by
  unfold violation?
  cases s.result? i with
  | none => simp
  | some n => simp

theorem Moves.exists_target (h : Moves length s i t) (ha : i.operand = .tile a) :
    ∃ n, s.target? a = some n ∧ (readsTile i.opcode = true → s.floor n ≠ none) := by
  have hcontent {v : Value} (hv : s.content? a = some v) :
      ∃ n, s.target? a = some n ∧ (readsTile i.opcode = true → s.floor n ≠ none) := by
    obtain ⟨n, hn, hfloor⟩ := exists_target_of_content hv
    exact ⟨n, hn, fun _ => by simp [hfloor]⟩
  cases h with
  | copyfrom hv => cases ha; exact hcontent hv
  | copyto _ hn => cases ha; exact ⟨_, hn, by simp [readsTile]⟩
  | add _ hv => cases ha; exact hcontent hv
  | subInts _ hv => cases ha; exact hcontent hv
  | subLetters _ hv => cases ha; exact hcontent hv
  | bumpup hn hfloor => cases ha; exact ⟨_, hn, by simp [hfloor]⟩
  | bumpdn hn hfloor => cases ha; exact ⟨_, hn, by simp [hfloor]⟩
  | _ => contradiction

theorem fault?_of_empty_hands (hneeds : needsHands i.opcode = true) (h : s.hands = none) :
    s.fault? i = some .emptyHands := by
  rw [fault?_eq]
  simp [violation?, hneeds, h]

def Carries (s : State) (i : Instruction) : Prop :=
  s.violation? i .hands = none ∧ s.violation? i .augend = none

theorem Carries.fault?_of_pointer {opcode : Opcode} {cause : Fault}
    (h : s.Carries ⟨opcode, .tile a⟩) (ha : s.pointerFault? a = some cause) :
    s.fault? ⟨opcode, .tile a⟩ = some cause := by
  rw [fault?_tile, h.1, h.2, ha]
  rfl

theorem Carries.fault?_of_empty_tile {opcode : Opcode} {n : Nat}
    (h : s.Carries ⟨opcode, .tile a⟩) (ha : s.target? a = some n)
    (hreads : readsTile opcode = true) (hfloor : s.floor n = none) :
    s.fault? ⟨opcode, .tile a⟩ = some (.emptyTile n) := by
  rw [fault?_tile, h.1, h.2, pointerFault?_eq_none_iff.2 ⟨n, ha⟩]
  simp [violation?, emptyTarget?, hreads, ha, hfloor]

theorem Carries.fault?_of_content {opcode : Opcode} {v : Value}
    (h : s.Carries ⟨opcode, .tile a⟩) (hv : s.content? a = some v) :
    s.fault? ⟨opcode, .tile a⟩ =
      (s.badKind? ⟨opcode, .tile a⟩).or (s.violation? ⟨opcode, .tile a⟩ .range) := by
  obtain ⟨n, ha, hfloor⟩ := exists_target_of_content hv
  have htile : s.violation? ⟨opcode, .tile a⟩ .tile = none := by
    simp [violation?, emptyTarget?, ha, hfloor]
  rw [fault?_tile, h.1, h.2, pointerFault?_eq_none_iff.2 ⟨n, ha⟩, htile]
  rfl

theorem Moves.violation?_eq_none (h : Moves length s i t) {stage : Stage} (hstage : stage ≠ .range) :
    s.violation? i stage = none := by
  have htile {a : Address} (ha : i.operand = .tile a) : s.pointerFault? a = none := by
    obtain ⟨n, hn, -⟩ := h.exists_target ha
    exact pointerFault?_eq_none_iff.2 ⟨n, hn⟩
  cases stage with
  | hands => cases h <;> simp [violation?, needsHands, *]
  | augend => cases h <;> simp [violation?, *]
  | pointer =>
    cases ha : i.operand with
    | tile a => simpa [violation?, ha] using (Option.or_eq_none_iff.1 (htile ha)).1
    | _ => simp [violation?, ha]
  | address =>
    cases ha : i.operand with
    | tile a => simpa [violation?, ha] using (Option.or_eq_none_iff.1 (htile ha)).2
    | _ => simp [violation?, ha]
  | tile =>
    cases ha : i.operand with
    | tile a =>
      obtain ⟨n, hn, hfloor⟩ := h.exists_target ha
      simpa [violation?, ha, emptyTarget?, hn] using hfloor
    | _ => simp [violation?, ha]
  | kinds =>
    cases h with
    | bumpup hn hfloor => simp [violation?, badKind?, content?_of_target hn, hfloor]
    | bumpdn hn hfloor => simp [violation?, badKind?, content?_of_target hn, hfloor]
    | _ => simp [violation?, badKind?, *]
  | range => contradiction

theorem Moves.fault?_eq (h : Moves length s i t) : s.fault? i = s.violation? i .range := by
  simp [State.fault?_eq, h.violation?_eq_none]

theorem Halts.fault?_eq_none (h : s.Halts i) (hi : i.WellFormed) : s.fault? i = none := by
  obtain ⟨opcode, operand⟩ := i
  obtain ⟨hopcode, -⟩ := h
  cases hopcode
  cases operand with
  | nothing =>
    rw [fault?_eq_none_iff]
    intro stage
    cases stage <;> simp [violation?, needsHands, badKind?, result?]
  | _ => contradiction

theorem Allows.fault?_eq_none (h : Allows length s i) (hi : i.WellFormed)
    (hrange : ∀ n, s.result? i = some n → Decimal.InRange n) : s.fault? i = none := by
  rcases h with hhalts | ⟨t, ht⟩
  · exact hhalts.fault?_eq_none hi
  · rw [ht.fault?_eq, violation?_range_eq_none_iff]
    exact hrange

theorem inRange_of_fault?_eq_none (h : s.fault? i = none) :
    ∀ n, s.result? i = some n → Decimal.InRange n :=
  violation?_range_eq_none_iff.1 (fault?_eq_none_iff.1 h .range)

theorem exists_moves_of_result (length : Nat) {n : Int} (h : s.result? i = some n) :
    ∃ t, Moves length s i t := by
  obtain ⟨opcode, operand⟩ := i
  unfold result? at h
  dsimp only at h
  split at h
  · split at h
    next hhands hcontent => exact ⟨_, .add hhands hcontent⟩
    next => contradiction
  · split at h
    next hhands hcontent => exact ⟨_, .subInts hhands hcontent⟩
    next hhands hcontent => exact ⟨_, .subLetters hhands hcontent⟩
    next => contradiction
  · split at h
    next hcontent =>
      obtain ⟨k, hk, hfloor⟩ := exists_target_of_content hcontent
      exact ⟨_, .bumpup hk hfloor⟩
    next => contradiction
  · split at h
    next hcontent =>
      obtain ⟨k, hk, hfloor⟩ := exists_target_of_content hcontent
      exact ⟨_, .bumpdn hk hfloor⟩
    next => contradiction
  · contradiction

theorem violation?_ne_overflow {stage : Stage} (hstage : stage ≠ .range) :
    s.violation? i stage ≠ some .overflow := by
  have hempty (a : Address) : s.emptyPointer? a ≠ some .overflow := by
    cases a <;> grind [emptyPointer?]
  have hbad (a : Address) : s.badPointer? a ≠ some .overflow := by
    cases a <;> grind [badPointer?]
  cases stage with
  | hands => grind [violation?]
  | augend => grind [violation?]
  | pointer => grind [violation?]
  | address => grind [violation?]
  | tile => grind [violation?, emptyTarget?]
  | kinds => grind [violation?, badKind?]
  | range => contradiction

theorem fault?_eq_overflow_iff :
    s.fault? i = some .overflow ↔ ∃ n, s.result? i = some n ∧ ¬Decimal.InRange n := by
  have hrange : s.violation? i .range = some .overflow ↔
      ∃ n, s.result? i = some n ∧ ¬Decimal.InRange n := by
    unfold violation?
    cases s.result? i with
    | none => simp
    | some n => simp
  rw [← hrange]
  constructor
  · intro h
    obtain ⟨stage, -, hstage⟩ := List.exists_of_findSome?_eq_some h
    by_cases hlast : stage = .range
    · rwa [hlast] at hstage
    · exact absurd hstage (violation?_ne_overflow hlast)
  · intro h
    obtain ⟨n, hn, -⟩ := hrange.1 h
    obtain ⟨t, ht⟩ := exists_moves_of_result 0 hn
    rw [ht.fault?_eq, h]

structure Every (P : Value → Prop) (s : State) : Prop where
  hands : ∀ v, s.hands = some v → P v
  floor : ∀ n v, s.floor n = some v → P v
  inbox : ∀ v ∈ s.inbox, P v
  outbox : ∀ v ∈ s.outbox, P v

abbrev Valid (s : State) : Prop :=
  s.Every Value.Valid

variable {P : Value → Prop}

theorem Every.content {v : Value} (h : s.Every P) (hv : s.content? a = some v) : P v := by
  obtain ⟨n, -, hn⟩ := exists_target_of_content hv
  exact h.floor n v hn

theorem Every.put {n : Nat} {v : Value} (h : s.Every P) (hv : P v) :
    ∀ k w, s.put n v k = some w → P w := by
  intro k w hw
  unfold State.put at hw
  split at hw
  · cases hw
    exact hv
  · exact h.floor k w hw

/-- Values are moved or computed: a property of all values in sight is kept if what is
computed has it. -/
theorem Moves.every (h : Moves length s i t) (hs : s.Every P)
    (hresult : ∀ n, s.result? i = some n → P (.int n)) : t.Every P := by
  have hsome {v : Value} (hv : P v) : ∀ w, some v = some w → P w := by
    rintro _ ⟨⟩
    exact hv
  cases h with
  | @inbox v rest hinbox =>
    have hin := hs.inbox
    rw [hinbox, List.forall_mem_cons] at hin
    exact ⟨hsome hin.1, hs.floor, hin.2, hs.outbox⟩
  | @outbox v hhands =>
    refine ⟨by simp, hs.floor, hs.inbox, fun w hw => ?_⟩
    rcases List.mem_append.1 hw with hw | hw
    · exact hs.outbox w hw
    · rw [List.mem_singleton.1 hw]
      exact hs.hands v hhands
  | copyfrom hv => exact ⟨hsome (hs.content hv), hs.floor, hs.inbox, hs.outbox⟩
  | copyto hhands _ => exact ⟨hs.hands, hs.put (hs.hands _ hhands), hs.inbox, hs.outbox⟩
  | @add _ x y hhands hv =>
    have hn : P (.int (x + y)) := hresult _ (by simp only [result?, hhands, hv])
    exact ⟨hsome hn, hs.floor, hs.inbox, hs.outbox⟩
  | @subInts _ x y hhands hv =>
    have hn : P (.int (x - y)) := hresult _ (by simp only [result?, hhands, hv])
    exact ⟨hsome hn, hs.floor, hs.inbox, hs.outbox⟩
  | @subLetters _ c d hhands hv =>
    have hn : P (.int (c.toNat - d.toNat)) := hresult _ (by simp only [result?, hhands, hv])
    exact ⟨hsome hn, hs.floor, hs.inbox, hs.outbox⟩
  | @bumpup _ _ y hk hv =>
    have hn : P (.int (y + 1)) := hresult _ (by simp only [result?, content?_of_target hk, hv])
    exact ⟨hsome hn, hs.put hn, hs.inbox, hs.outbox⟩
  | @bumpdn _ _ y hk hv =>
    have hn : P (.int (y - 1)) := hresult _ (by simp only [result?, content?_of_target hk, hv])
    exact ⟨hsome hn, hs.put hn, hs.inbox, hs.outbox⟩
  | _ => exact ⟨hs.hands, hs.floor, hs.inbox, hs.outbox⟩

theorem Moves.eq (ht : Moves length s i t) (hu : Moves length s i u) : t = u := by
  cases ht <;> cases hu <;> simp_all <;> omega

end State

theorem Steps.eq {p : Array Instruction} {n : Nat} {s t u : State} (ht : Steps p n s t)
    (hu : Steps p n s u) : t = u := by
  induction n generalizing t u with
  | zero =>
    cases ht
    cases hu
    rfl
  | succ n ih =>
    cases ht with
    | succ ht hi htmoves =>
      cases hu with
      | succ hu hj humoves =>
        obtain rfl := ih ht hu
        rw [hi, Option.some.injEq] at hj
        subst hj
        exact htmoves.eq humoves

end TileMachine.Reference
