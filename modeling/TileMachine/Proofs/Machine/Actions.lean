import TileMachine.Machine.State
import TileMachine.Proofs.Outcome

/-! The kinds of action that each operation plans, and what no action does: lead outside
the program, or take back what was delivered. -/
namespace TileMachine

def Opcode.Makes (length : Nat) : Opcode → Action → Prop
  | .inbox, .stop | .inbox, .take _ _ => True
  | .outbox, .deliver _ => True
  | .copyfrom, .hold _ | .add, .hold _ | .sub, .hold _ => True
  | .copyto, .store _ _ => True
  | .bumpup, .bump _ _ | .bumpdn, .bump _ _ => True
  | .jump, .goto target | .jumpz, .goto target | .jumpn, .goto target => target ≤ length
  | .jumpz, .skip | .jumpn, .skip => True
  | _, _ => False

theorem Opcode.Makes.target_le {length target : Nat} {opcode : Opcode}
    (h : opcode.Makes length (.goto target)) : target ≤ length := by
  cases opcode with
  | jump | jumpz | jumpn => exact h
  | _ => exact h.elim

namespace State

variable {s : State} {length : Nat} {i : Instruction} {action : Action} {a : Address}

theorem planJump_eq_ok_iff {target : Nat} :
    planJump length target = .ok action ↔ target ≤ length ∧ action = .goto target := by
  unfold planJump
  by_cases h : target ≤ length
  · simp [h, eq_comm]
  · simp [h]

theorem exists_hold_of_planAdd (h : s.planAdd a = .ok action) : ∃ v, action = .hold v := by
  obtain ⟨held, -, hheld⟩ := bind_eq_ok.1 h
  cases held with
  | letter c => contradiction
  | int x =>
    obtain ⟨v, -, hv⟩ := bind_eq_ok.1 hheld
    cases v with
    | letter c => contradiction
    | int y =>
      obtain ⟨sum, -, hsum⟩ := map_eq_ok.1 hv
      exact ⟨sum, hsum.symm⟩

theorem exists_hold_of_planSub (h : s.planSub a = .ok action) : ∃ v, action = .hold v := by
  obtain ⟨held, -, hheld⟩ := bind_eq_ok.1 h
  obtain ⟨v, -, hv⟩ := bind_eq_ok.1 hheld
  cases held with
  | int x =>
    cases v with
    | int y =>
      obtain ⟨difference, -, hdifference⟩ := map_eq_ok.1 hv
      exact ⟨difference, hdifference.symm⟩
    | letter d => contradiction
  | letter c =>
    cases v with
    | int y => contradiction
    | letter d =>
      cases hv
      exact ⟨_, rfl⟩

theorem exists_bump_of_planBump {delta : Int} {refuse : Value → Fault}
    (h : s.planBump a delta refuse = .ok action) :
    ∃ n v, s.locate a = .ok n ∧ action = .bump n v := by
  obtain ⟨n, hlocate, hn⟩ := bind_eq_ok.1 h
  obtain ⟨v, -, hv⟩ := bind_eq_ok.1 hn
  cases v with
  | letter c => contradiction
  | int k =>
    obtain ⟨bumped, -, hbumped⟩ := map_eq_ok.1 hv
    exact ⟨n, bumped, hlocate, hbumped.symm⟩

theorem makes_of_plan_nothing {opcode : Opcode} {operand : Operand}
    (hkind : opcode.operandKind = .nothing)
    (h : s.plan length ⟨opcode, operand⟩ = .ok action) : opcode.Makes length action := by
  cases opcode with
  | inbox =>
    cases hinbox : s.inbox with
    | nil =>
      simp only [plan, hinbox, Except.ok.injEq] at h
      subst h
      trivial
    | cons v rest =>
      simp only [plan, hinbox, Except.ok.injEq] at h
      subst h
      trivial
  | outbox =>
    obtain ⟨v, -, rfl⟩ := map_eq_ok.1 h
    trivial
  | _ => contradiction

theorem makes_of_plan_tile {opcode : Opcode} (hkind : opcode.operandKind = .tile)
    (h : s.plan length ⟨opcode, .tile a⟩ = .ok action) : opcode.Makes length action := by
  cases opcode with
  | copyfrom =>
    obtain ⟨v, -, rfl⟩ := map_eq_ok.1 h
    trivial
  | copyto =>
    obtain ⟨v, -, hv⟩ := bind_eq_ok.1 h
    obtain ⟨n, -, hn⟩ := bind_eq_ok.1 hv
    cases hn
    trivial
  | add =>
    obtain ⟨v, rfl⟩ := exists_hold_of_planAdd h
    trivial
  | sub =>
    obtain ⟨v, rfl⟩ := exists_hold_of_planSub h
    trivial
  | bumpup =>
    obtain ⟨n, v, -, rfl⟩ := exists_bump_of_planBump h
    trivial
  | bumpdn =>
    obtain ⟨n, v, -, rfl⟩ := exists_bump_of_planBump h
    trivial
  | _ => contradiction

theorem makes_of_plan_label {opcode : Opcode} {name : String} {target : Nat}
    (hkind : opcode.operandKind = .label)
    (h : s.plan length ⟨opcode, .label name target⟩ = .ok action) :
    opcode.Makes length action := by
  cases opcode with
  | jump =>
    obtain ⟨hle, rfl⟩ := planJump_eq_ok_iff.1 h
    exact hle
  | jumpz =>
    obtain ⟨v, -, hv⟩ := bind_eq_ok.1 h
    cases hzero : v.isZero with
    | true =>
      rw [hzero] at hv
      obtain ⟨hle, rfl⟩ := planJump_eq_ok_iff.1 hv
      exact hle
    | false =>
      rw [hzero] at hv
      cases hv
      trivial
  | jumpn =>
    obtain ⟨v, -, hv⟩ := bind_eq_ok.1 h
    cases v with
    | letter c => contradiction
    | int x =>
      change (if x < 0 then planJump length target else .ok .skip) = .ok action at hv
      by_cases hx : x < 0
      · rw [if_pos hx] at hv
        obtain ⟨hle, rfl⟩ := planJump_eq_ok_iff.1 hv
        exact hle
      · rw [if_neg hx] at hv
        cases hv
        trivial
  | _ => contradiction

theorem makes_of_plan (h : s.plan length i = .ok action) : i.opcode.Makes length action := by
  obtain ⟨opcode, operand⟩ := i
  cases hkind : opcode.operandKind with
  | nothing => exact makes_of_plan_nothing hkind h
  | tile =>
    cases operand with
    | tile a => exact makes_of_plan_tile hkind h
    | _ => cases opcode <;> contradiction
  | label =>
    cases operand with
    | label name target => exact makes_of_plan_label hkind h
    | _ => cases opcode <;> contradiction

theorem plan_eq_stop_iff :
    s.plan length i = .ok .stop ↔ i.opcode = .inbox ∧ s.inbox = [] := by
  obtain ⟨opcode, operand⟩ := i
  constructor
  · intro h
    have hmakes := makes_of_plan h
    cases opcode with
    | inbox =>
      cases hinbox : s.inbox with
      | nil => exact ⟨rfl, rfl⟩
      | cons v rest => simp [plan, hinbox] at h
    | _ => exact hmakes.elim
  · rintro ⟨rfl, hinbox⟩
    simp only [plan, hinbox]

theorem ip_apply_le (h : s.plan length i = .ok action) (hip : s.ip < length) :
    (s.apply action).ip ≤ length := by
  cases action with
  | stop => exact Nat.le_of_lt hip
  | goto target => exact (makes_of_plan h).target_le
  | _ => exact hip

theorem outbox_prefix_apply (s : State) (action : Action) :
    s.outbox.toList <+: (s.apply action).outbox.toList := by
  cases action with
  | deliver v => simp [apply]
  | _ => exact List.prefix_refl _

end State
end TileMachine
