import TileMachine.Proofs.Machine.Reference
import TileMachine.Proofs.Outcome

/-! One instruction on the bounded machine and on the one over exact integers: a
plan fails with the first violation of the conditions, and one that does not fail
has the effect of the operation table. -/
namespace TileMachine

namespace State
open Reference Reference.State

def view (s : State) : Reference.State where
  ip := s.ip
  hands := s.hands
  floor := s.tiles.read
  inbox := s.inbox
  outbox := s.outbox.toList

variable {s : State} {length : Nat}

theorem view_store (s : State) (n : Nat) (v : Value) (hands : Option Value) :
    view { s with ip := s.ip + 1, hands, tiles := s.tiles.insert n (some v) } =
      { s.view with ip := s.ip + 1, hands, floor := s.view.put n v } := by
  have hfloor : Tiles.read (s.tiles.insert n (some v)) = s.view.put n v := by
    funext k
    exact Tiles.read_insert s.tiles n (some v) k
  rw [view, hfloor]
  rfl

theorem held_of_some {v : Value} (h : s.hands = some v) : s.held = .ok v := by
  rw [held, h]

theorem held_of_none (h : s.hands = none) : s.held = .error .emptyHands := by
  rw [held, h]

theorem readTile_of_some {n : Nat} {v : Value} (h : s.view.floor n = some v) :
    s.readTile n = .ok v := by
  rw [readTile, show s.tiles.read n = some v from h]

theorem readTile_of_none {n : Nat} (h : s.view.floor n = none) :
    s.readTile n = .error (.emptyTile n) := by
  rw [readTile, show s.tiles.read n = none from h]

theorem locate_cases (s : State) (a : Address) :
    (∃ n, s.locate a = .ok n ∧ s.view.target? a = some n ∧ s.view.pointerFault? a = none) ∨
      ∃ cause, s.locate a = .error cause ∧ s.view.pointerFault? a = some cause := by
  cases a with
  | direct n => exact .inl ⟨n, rfl, rfl, rfl⟩
  | indirect n =>
    cases hfloor : s.view.floor n with
    | none =>
      refine .inr ⟨.emptyTile n, ?_, ?_⟩
      · rw [locate, readTile_of_none hfloor]
        rfl
      · simp [pointerFault?, emptyPointer?, hfloor]
    | some v =>
      cases v with
      | letter c =>
        refine .inr ⟨.notAnAddress n (.letter c), ?_, ?_⟩
        · rw [locate, readTile_of_some hfloor]
          rfl
        · simp [pointerFault?, emptyPointer?,
            badPointer?, hfloor]
      | int k =>
        have hlocate : s.locate (.indirect n) =
            if 0 ≤ k then .ok k.toNat else .error (.notAnAddress n (.int k)) := by
          rw [locate, readTile_of_some hfloor]
          rfl
        by_cases hk : 0 ≤ k
        · refine .inl ⟨k.toNat, ?_, ?_, ?_⟩
          · rw [hlocate, if_pos hk]
          · simp [target?, hfloor, hk]
          · simp [pointerFault?, emptyPointer?,
              badPointer?, hfloor, hk]
        · refine .inr ⟨.notAnAddress n (.int k), ?_, ?_⟩
          · rw [hlocate, if_neg hk]
          · simp [pointerFault?, emptyPointer?,
              badPointer?, hfloor, hk]

/-- A plan agrees with the operation table. -/
inductive Planned (length : Nat) (s : State) (i : Instruction) : Except Fault Action → Prop where
  | fault {cause : Fault} : s.view.fault? i = some cause → Planned length s i (.error cause)
  | stop : s.view.Halts i → Planned length s i (.ok .stop)
  | action {action : Action} : action ≠ .stop →
      Moves length s.view i (s.apply action).view →
      (∀ n, s.view.result? i = some n → Decimal.InRange n) → Planned length s i (.ok action)

theorem planned_inbox : Planned length s ⟨.inbox, .nothing⟩ (s.plan length ⟨.inbox, .nothing⟩) := by
  cases h : s.inbox with
  | nil =>
    have hplan : s.plan length ⟨.inbox, .nothing⟩ = .ok .stop := by simp [plan, h]
    rw [hplan]
    exact .stop ⟨rfl, h⟩
  | cons v rest =>
    have hplan : s.plan length ⟨.inbox, .nothing⟩ = .ok (.take v rest) := by simp [plan, h]
    rw [hplan]
    exact .action (by simp) (.inbox h) (by simp [result?])

section Steps
variable {i : Instruction} {opcode : Opcode} {a : Address} {v : Value}

theorem planned_held {next : Value → Except Fault Action} (hneeds : needsHands i.opcode = true)
    (hnext : ∀ v, s.view.hands = some v → Planned length s i (next v)) :
    Planned length s i (s.held >>= next) := by
  cases hhands : s.hands with
  | none =>
    rw [held_of_none hhands]
    exact .fault (fault?_of_empty_hands hneeds hhands)
  | some v =>
    rw [held_of_some hhands]
    exact hnext v hhands

theorem planned_read {next : Nat → Value → Except Fault Action}
    (hcarries : s.view.Carries ⟨opcode, .tile a⟩) (hreads : readsTile opcode = true)
    (hnext : ∀ n v, s.view.target? a = some n → s.view.floor n = some v →
      Planned length s ⟨opcode, .tile a⟩ (next n v)) :
    Planned length s ⟨opcode, .tile a⟩ (s.locate a >>= fun n => s.readTile n >>= next n) := by
  rcases locate_cases s a with ⟨n, hlocate, htarget, -⟩ | ⟨cause, hlocate, hpointer⟩
  · rw [hlocate]
    change Planned length s _ (s.readTile n >>= next n)
    cases hfloor : s.view.floor n with
    | none =>
      rw [readTile_of_none hfloor]
      exact .fault (hcarries.fault?_of_empty_tile htarget hreads hfloor)
    | some v =>
      rw [readTile_of_some hfloor]
      exact hnext n v htarget hfloor
  · rw [hlocate]
    exact .fault (hcarries.fault?_of_pointer hpointer)

theorem planned_load {next : Value → Except Fault Action}
    (hcarries : s.view.Carries ⟨opcode, .tile a⟩) (hreads : readsTile opcode = true)
    (hnext : ∀ v, s.view.content? a = some v → Planned length s ⟨opcode, .tile a⟩ (next v)) :
    Planned length s ⟨opcode, .tile a⟩ (s.load a >>= next) := by
  rw [load, bind_assoc]
  apply planned_read hcarries hreads
  intro n v htarget hfloor
  exact hnext v ((content?_of_target htarget).trans hfloor)

theorem planned_badKind {cause : Fault} (hcarries : s.view.Carries ⟨opcode, .tile a⟩)
    (hv : s.view.content? a = some v) (hkind : s.view.badKind? ⟨opcode, .tile a⟩ = some cause) :
    Planned length s ⟨opcode, .tile a⟩ (.error cause) := by
  apply Planned.fault
  rw [hcarries.fault?_of_content hv, hkind]
  rfl

theorem planned_checked {n : Int} {action : Value → Action}
    (hcarries : s.view.Carries ⟨opcode, .tile a⟩) (hv : s.view.content? a = some v)
    (hkind : s.view.badKind? ⟨opcode, .tile a⟩ = none)
    (hresult : s.view.result? ⟨opcode, .tile a⟩ = some n) (hstop : action (.int n) ≠ .stop)
    (hmoves : Moves length s.view ⟨opcode, .tile a⟩ (s.apply (action (.int n))).view) :
    Planned length s ⟨opcode, .tile a⟩ (action <$> checked n) := by
  by_cases hn : Decimal.InRange n
  · rw [checked, if_pos hn]
    refine .action hstop hmoves fun k hk => ?_
    rw [hresult, Option.some.injEq] at hk
    exact hk ▸ hn
  · rw [checked, if_neg hn]
    apply Planned.fault
    rw [hcarries.fault?_of_content hv, hkind]
    simp [violation?, hresult, hn]

end Steps

section Tiles
variable {a : Address}

theorem planned_outbox :
    Planned length s ⟨.outbox, .nothing⟩ (s.plan length ⟨.outbox, .nothing⟩) := by
  change Planned length s _ (Action.deliver <$> s.held)
  rw [map_eq_pure_bind]
  apply planned_held rfl
  intro v hhands
  have hview : (s.apply (.deliver v)).view =
      { s.view with ip := s.ip + 1, hands := none, outbox := s.view.outbox ++ [v] } := by
    simp [apply, view]
  refine .action (by simp) ?_ (by simp [result?])
  rw [hview]
  exact .outbox hhands

theorem planned_copyfrom :
    Planned length s ⟨.copyfrom, .tile a⟩ (s.plan length ⟨.copyfrom, .tile a⟩) := by
  change Planned length s _ (Action.hold <$> s.load a)
  rw [map_eq_pure_bind]
  apply planned_load
  · simp [Carries, violation?, needsHands]
  · rfl
  · intro v hcontent
    exact .action (by simp) (.copyfrom hcontent) (by simp [result?])

theorem planned_copyto :
    Planned length s ⟨.copyto, .tile a⟩ (s.plan length ⟨.copyto, .tile a⟩) := by
  change Planned length s _ (s.held >>= fun v => s.locate a >>= fun n => pure (.store n v))
  apply planned_held rfl
  intro v hhands
  rcases locate_cases s a with ⟨n, hlocate, htarget, -⟩ | ⟨cause, hlocate, hpointer⟩
  · rw [hlocate]
    refine .action (by simp) ?_ (by simp [result?])
    rw [show (s.apply (.store n v)).view = _ from view_store s n v s.hands]
    exact .copyto hhands htarget
  · have hcarries : s.view.Carries ⟨.copyto, .tile a⟩ := by simp [Carries, violation?, hhands]
    rw [hlocate]
    exact .fault (hcarries.fault?_of_pointer hpointer)

theorem planned_add : Planned length s ⟨.add, .tile a⟩ (s.plan length ⟨.add, .tile a⟩) := by
  change Planned length s _ (s.planAdd a)
  unfold planAdd
  apply planned_held rfl
  intro held hhands
  cases held with
  | letter c =>
    -- The held letter is refused before the tile is looked at.
    apply Planned.fault
    rw [fault?_tile]
    simp [violation?, hhands]
  | int x =>
    have hcarries : s.view.Carries ⟨.add, .tile a⟩ := by simp [Carries, violation?, hhands]
    apply planned_load hcarries rfl
    intro v hcontent
    cases v with
    | letter c => exact planned_badKind hcarries hcontent (by simp [badKind?, hcontent])
    | int y =>
      exact planned_checked hcarries hcontent (by simp [badKind?, hcontent])
        (by simp [result?, hhands, hcontent]) (by simp) (.add hhands hcontent)

theorem inRange_letters (c d : Char) : Decimal.InRange (c.toNat - d.toNat) := by
  have hc : c.toNat < 4294967296 := c.val.toNat_lt
  have hd : d.toNat < 4294967296 := d.val.toNat_lt
  unfold Decimal.InRange
  omega

theorem planned_sub : Planned length s ⟨.sub, .tile a⟩ (s.plan length ⟨.sub, .tile a⟩) := by
  change Planned length s _ (s.planSub a)
  unfold planSub
  apply planned_held rfl
  intro held hhands
  have hcarries : s.view.Carries ⟨.sub, .tile a⟩ := by simp [Carries, violation?, hhands]
  apply planned_load hcarries rfl
  intro v hcontent
  cases held with
  | int x =>
    cases v with
    | int y =>
      exact planned_checked hcarries hcontent (by simp [badKind?, hhands, hcontent])
        (by simp [result?, hhands, hcontent]) (by simp) (.subInts hhands hcontent)
    | letter d => exact planned_badKind hcarries hcontent (by simp [badKind?, hhands, hcontent])
  | letter c =>
    cases v with
    | int y => exact planned_badKind hcarries hcontent (by simp [badKind?, hhands, hcontent])
    | letter d =>
      refine .action (by simp) (.subLetters hhands hcontent) ?_
      simpa [result?, hhands, hcontent] using inRange_letters c d

theorem planned_bump {opcode : Opcode} {delta : Int} {refuse : Value → Fault}
    (hcarries : s.view.Carries ⟨opcode, .tile a⟩) (hreads : readsTile opcode = true)
    (hrefuse : ∀ c, s.view.content? a = some (.letter c) →
      s.view.badKind? ⟨opcode, .tile a⟩ = some (refuse (.letter c)))
    (hint : ∀ y, s.view.content? a = some (.int y) →
      s.view.badKind? ⟨opcode, .tile a⟩ = none ∧
        s.view.result? ⟨opcode, .tile a⟩ = some (y + delta))
    (hmoves : ∀ n y, s.view.target? a = some n → s.view.floor n = some (.int y) →
      Moves length s.view ⟨opcode, .tile a⟩
        { s.view with ip := s.ip + 1, hands := some (.int (y + delta)),
                      floor := s.view.put n (.int (y + delta)) }) :
    Planned length s ⟨opcode, .tile a⟩ (s.planBump a delta refuse) := by
  apply planned_read hcarries hreads
  intro n v htarget hfloor
  have hcontent := (content?_of_target htarget).trans hfloor
  cases v with
  | letter c => exact planned_badKind hcarries hcontent (hrefuse c hcontent)
  | int y =>
    obtain ⟨hkind, hresult⟩ := hint y hcontent
    apply planned_checked hcarries hcontent hkind hresult (by simp)
    rw [show (s.apply (.bump n (.int (y + delta)))).view = _ from view_store s n _ _]
    exact hmoves n y htarget hfloor

theorem planned_bumpup :
    Planned length s ⟨.bumpup, .tile a⟩ (s.plan length ⟨.bumpup, .tile a⟩) := by
  apply planned_bump
  · simp [Carries, violation?, needsHands]
  · rfl
  · intro c hcontent
    simp [badKind?, hcontent]
  · intro y hcontent
    simp [badKind?, result?, hcontent]
  · intro n y htarget hfloor
    exact .bumpup htarget hfloor

theorem planned_bumpdn :
    Planned length s ⟨.bumpdn, .tile a⟩ (s.plan length ⟨.bumpdn, .tile a⟩) := by
  apply planned_bump
  · simp [Carries, violation?, needsHands]
  · rfl
  · intro c hcontent
    simp [badKind?, hcontent]
  · intro y hcontent
    simp [badKind?, result?, hcontent, Int.sub_eq_add_neg]
  · intro n y htarget hfloor
    exact .bumpdn htarget hfloor

end Tiles

section Jumps
variable {name : String} {target : Nat}

theorem planJump_eq_ok (h : target ≤ length) : planJump length target = .ok (.goto target) :=
  if_pos h

theorem planned_jump (h : target ≤ length) :
    Planned length s ⟨.jump, .label name target⟩ (s.plan length ⟨.jump, .label name target⟩) := by
  change Planned length s _ (planJump length target)
  rw [planJump_eq_ok h]
  exact .action (by simp) (.jump h) (by simp [result?])

theorem planned_jumpz (h : target ≤ length) :
    Planned length s ⟨.jumpz, .label name target⟩ (s.plan length ⟨.jumpz, .label name target⟩) := by
  apply planned_held rfl
  intro v hhands
  by_cases hzero : v = .int 0
  · subst hzero
    rw [if_pos (by decide), planJump_eq_ok h]
    exact .action (by simp) (.jumpzTaken hhands) (by simp [result?])
  · rw [if_neg (by simpa [Value.isZero] using hzero)]
    exact .action (by simp) (.jumpzPassed hhands hzero) (by simp [result?])

theorem planned_jumpn (h : target ≤ length) :
    Planned length s ⟨.jumpn, .label name target⟩ (s.plan length ⟨.jumpn, .label name target⟩) := by
  apply planned_held rfl
  intro v hhands
  cases v with
  | letter c =>
    apply Planned.fault
    rw [fault?_eq]
    simp [violation?, badKind?, hhands]
  | int x =>
    change Planned length s _ (if x < 0 then planJump length target else .ok .skip)
    by_cases hx : x < 0
    · rw [if_pos hx, planJump_eq_ok h]
      exact .action (by simp) (.jumpnTaken hhands hx) (by simp [result?])
    · rw [if_neg hx]
      exact .action (by simp) (.jumpnPassed hhands (by omega)) (by simp [result?])

end Jumps

theorem planned {i : Instruction} (hi : i.WellFormed)
    (htarget : ∀ name target, i.operand = .label name target → target ≤ length) :
    Planned length s i (s.plan length i) := by
  obtain ⟨opcode, operand⟩ := i
  have hkind : operand.kind = opcode.operandKind := hi
  cases operand with
  | nothing =>
    cases opcode with
    | inbox => exact planned_inbox
    | outbox => exact planned_outbox
    | _ => contradiction
  | tile a =>
    cases opcode with
    | copyfrom => exact planned_copyfrom
    | copyto => exact planned_copyto
    | add => exact planned_add
    | sub => exact planned_sub
    | bumpup => exact planned_bumpup
    | bumpdn => exact planned_bumpdn
    | _ => contradiction
  | label name target =>
    have hle : target ≤ length := htarget name target rfl
    cases opcode with
    | jump => exact planned_jump hle
    | jumpz => exact planned_jumpz hle
    | jumpn => exact planned_jumpn hle
    | _ => contradiction

end State
end TileMachine
