import TileMachine.Proofs.Machine.Lockstep

/-! A limit on the number of instructions. Up to the limit a run goes as it would without
one; a run that needs more ends at the limit, and one that needs no more ends as before. -/
namespace TileMachine

namespace Execution

def withLimit (e : Execution) (limit : Option Nat) : Execution :=
  { e with limit }

theorem Lockstep.eq_withLimit {e f : Execution} (h : Lockstep (· = ·) e f) :
    f = e.withLimit f.limit := by
  obtain ⟨program, limit, state, status, steps⟩ := f
  obtain ⟨rfl, rfl, rfl, rfl⟩ := h
  rfl

variable {e : Execution} {n k : Nat}

theorem step_withLimit {limit : Option Nat}
    (h : ∀ i, e.program.instructions[e.state.ip]? = some i →
      (e.withLimit limit).exhausted = e.exhausted) :
    (e.withLimit limit).step.2 = e.step.2.withLimit limit := by
  have hlock : Lockstep (· = ·) e (e.withLimit limit) := ⟨rfl, rfl, rfl, rfl⟩
  have hnext : Lockstep (· = ·) e.step.2 (e.withLimit limit).step.2 := by
    apply hlock.step _ h
    · intro i _ _
      exact State.plansAlike_refl _ _
    · intro s t hst
      rw [hst]
  exact hnext.eq_withLimit.trans (congrArg _ (step_program _).2)

theorem exhausted_of_free (h : e.limit = none) : e.exhausted = none := by
  rw [exhausted_eq_none_iff, h]
  simp

theorem exhausted_withLimit_of_lt (h : e.steps < n) : (e.withLimit (some n)).exhausted = none := by
  rw [exhausted_eq_none_iff]
  rintro _ ⟨⟩
  exact h

theorem step_withLimit_of_le {i : Instruction} (hopen : e.status.isTerminal = false)
    (hi : e.program.instructions[e.state.ip]? = some i) (h : n ≤ e.steps) :
    (e.withLimit (some n)).step = (e.withLimit (some n)).fail (.tooManySteps n) := by
  have hexhausted : (e.withLimit (some n)).exhausted = some n :=
    exhausted_eq_some_iff.2 ⟨rfl, h⟩
  rw [step_open (e := e.withLimit (some n)) hopen]
  exact advance_exhausted hi hexhausted

section Start
variable (hfree : e.limit = none) (hsteps : e.steps = 0)
include hfree hsteps

theorem after_withLimit (hle : k ≤ n) :
    (e.withLimit (some n)).after k = (e.after k).withLimit (some n) := by
  induction k with
  | zero => rfl
  | succ k ih =>
    have hcount := steps_after e k
    rw [after, ih (by omega)]
    apply step_withLimit
    intro i _
    rw [exhausted_of_free ((after_program e k).2.trans hfree),
      exhausted_withLimit_of_lt (by omega)]

/-- One step more than the limit allows: either both runs have ended alike, or the
limit has cut the one short and the other needs more instructions to end. -/
theorem after_withLimit_cases (n : Nat) :
    ((e.after (n + 1)).status.isTerminal = true ∧ (e.after (n + 1)).steps ≤ n ∧
        (e.withLimit (some n)).after (n + 1) = (e.after (n + 1)).withLimit (some n)) ∨
      ((e.withLimit (some n)).after (n + 1)).status = .failed (.tooManySteps n) ∧
        ∀ k, (e.after k).status.isTerminal = true → n < (e.after k).steps := by
  have hcount := steps_after e n
  have hnext : (e.withLimit (some n)).after (n + 1) = ((e.after n).withLimit (some n)).step.2 := by
    rw [after, after_withLimit hfree hsteps (Nat.le_refl n)]
  rw [hnext]
  cases hopen : (e.after n).status.isTerminal with
  | true =>
    rw [after, step_terminal hopen, step_terminal (e := (e.after n).withLimit (some n)) hopen]
    exact .inl ⟨hopen, by omega, rfl⟩
  | false =>
    cases hi : (e.after n).program.instructions[(e.after n).state.ip]? with
    | none =>
      have hhalt : (e.after n).step = (e.after n).halt := by
        rw [step_open hopen, advance_at_end hi]
      rw [step_withLimit (by simp [hi]), after, hhalt]
      refine .inl ⟨rfl, ?_, rfl⟩
      change (e.after n).steps ≤ n
      omega
    | some i =>
      have hexact := steps_after_of_open hopen
      have hcounts := step_counts hopen hi (exhausted_of_free ((after_program e n).2.trans hfree))
      rw [step_withLimit_of_le hopen hi (by omega)]
      refine .inr ⟨rfl, fun k hk => ?_⟩
      -- The free run has not ended after `n` steps, so it ends with more counted.
      have hlt : n < k := by
        by_contra hle
        rw [← after_eq_of_le hk (Nat.not_lt.1 hle), hopen] at hk
        contradiction
      have hmore := (steps_after (e.after (n + 1)) (k - (n + 1))).1
      rw [← after_add, Nat.add_sub_of_le hlt, after] at hmore
      omega

theorem isTerminal_after_withLimit (n : Nat) :
    ((e.withLimit (some n)).after (n + 1)).status.isTerminal = true := by
  rcases after_withLimit_cases hfree hsteps n with ⟨hends, -, hsame⟩ | ⟨hcut, -⟩
  · rw [hsame]
    exact hends
  · rw [hcut]
    rfl

theorem result?_after_withLimit (n : Nat) {result : Except RuntimeError (List Value)}
    (h : (e.after k).result? = some result) :
    ((e.withLimit (some n)).after (n + 1)).result? =
      some (if (e.after k).steps ≤ n then result else .error (.tooManySteps n)) := by
  have hk := isTerminal_of_result? h
  rcases after_withLimit_cases hfree hsteps n with ⟨hends, hle, hsame⟩ | ⟨hcut, hmore⟩
  · rw [after_eq_of_terminal hk hends] at hle hsame
    rw [hsame, if_pos hle]
    exact h
  · rw [if_neg (Nat.not_le.2 (hmore k hk)), result?_eq_error_iff, hcut]

theorem result?_after_withLimit_of_endless (n : Nat) (h : ∀ k, (e.after k).result? = none) :
    ((e.withLimit (some n)).after (n + 1)).result? = some (.error (.tooManySteps n)) := by
  rcases after_withLimit_cases hfree hsteps n with ⟨hends, -⟩ | ⟨hcut, -⟩
  · rw [← isSome_result?, h] at hends
    contradiction
  · rw [result?_eq_error_iff, hcut]

end Start

theorem steps_after_le_limit (hlimit : e.limit = some n) (hsteps : e.steps ≤ n) (k : Nat) :
    (e.after k).steps ≤ n ∧ ((e.after (k + 1)).steps = (e.after k).steps ∨
      (e.after k).steps < n ∧ (e.after (k + 1)).steps = (e.after k).steps + 1) := by
  have hstep (k : Nat) : (e.after (k + 1)).steps = (e.after k).steps ∨
      (e.after k).steps < n ∧ (e.after (k + 1)).steps = (e.after k).steps + 1 := by
    cases (e.after k).step_steps with
    | inl hsame => exact .inl hsame
    | inr hcounts =>
      have hbelow := exhausted_eq_none_iff.1 hcounts.1 n ((after_program e k).2.trans hlimit)
      exact .inr ⟨hbelow, hcounts.2⟩
  refine ⟨?_, hstep k⟩
  induction k with
  | zero => exact hsteps
  | succ k ih =>
    have hlast := hstep k
    omega

end Execution

namespace Machine
open Execution

/-- A limit is exact. A run whose end takes no more instructions than the limit ends in
the same way; any other fails at the limit, whether it would end or not. The count stays
within the limit, so that a counter of 64 bits never wraps, and the run ends with the
step after the last one that the limit allows, if not before. -/
theorem run?_withLimit (m : Machine) (limit : UInt64) (patience : Nat) (inbox : List Value)
    (tiles : Tiles) :
    let free := (m.withLimit none).start inbox tiles
    let bounded := (m.withLimit (some limit.toNat)).start inbox tiles
    let answer := (m.withLimit (some limit.toNat)).run? patience inbox tiles
    (∀ k result, (free.after k).result? = some result →
      answer = some (if (free.after k).steps ≤ limit.toNat then result
        else .error (.tooManySteps limit.toNat))) ∧
    ((∀ k, (free.after k).result? = none) →
      answer = some (.error (.tooManySteps limit.toNat))) ∧
    (∀ k ≤ limit.toNat, bounded.after k = (free.after k).withLimit (some limit.toNat)) ∧
    (∀ k, (bounded.after k).steps ≤ limit.toNat) ∧
    (∀ k, (bounded.after (k + 1)).steps ≠ (bounded.after k).steps →
      (bounded.after (k + 1)).steps = (UInt64.ofNat (bounded.after k).steps + 1).toNat) ∧
    ∃ last, ∀ calls, limit.toNat < calls → bounded.finish? calls = some last := by
  intro free bounded answer
  have hanswer : answer = (bounded.after (limit.toNat + 1)).result? :=
    run?_eq_result? _ patience inbox tiles
  have hcount (k : Nat) := steps_after_le_limit (e := bounded) rfl (Nat.zero_le _) k
  refine ⟨fun k result hresult => ?_, fun hendless => ?_, fun k hk => ?_,
    fun k => (hcount k).1, fun k hgrows => ?_, ?_⟩
  · rw [hanswer]
    exact result?_after_withLimit (e := free) rfl rfl _ hresult
  · rw [hanswer]
    exact result?_after_withLimit_of_endless (e := free) rfl rfl _ hendless
  · exact after_withLimit (e := free) rfl rfl hk
  · obtain ⟨hbelow, hnext⟩ := (hcount k).2.resolve_left hgrows
    have hword := limit.toNat_lt
    rw [hnext, UInt64.toNat_add, UInt64.toNat_ofNat']
    simp only [UInt64.toNat_one]
    omega
  · have hends := isTerminal_after_withLimit (e := free) rfl rfl limit.toNat
    exact ⟨_, fun calls hcalls => finish?_of_terminal rfl hends hcalls⟩

theorem run?_withLimit_copy :
    let m : Machine :=
      ⟨⟨#[⟨.inbox, .nothing⟩, ⟨.outbox, .nothing⟩, ⟨.jump, .label "in" 0⟩],
        (∅ : Labels) |>.insert "in" 0, #[]⟩, none, by decide +kernel⟩
    let values : List Value := [.int 1, .letter 'B']
    let free := (m.withLimit none).start values ∅
    (free.after 7).result? = some (.ok values) ∧ (free.after 7).steps = 7 ∧
      (m.withLimit (some 7)).run? 0 values ∅ = some (.ok values) ∧
      (m.withLimit (some 6)).run? 0 values ∅ = some (.error (.tooManySteps 6)) := by
  intro m values free
  have hresult : (free.after 7).result? = some (.ok values) := by
    rw [result?_eq_ok_iff]
    decide +kernel
  have hsteps : (free.after 7).steps = 7 := by decide +kernel
  have hseven := (run?_withLimit m 7 0 values ∅).1 7 _ hresult
  have hsix := (run?_withLimit m 6 0 values ∅).1 7 _ hresult
  rw [hsteps] at hseven hsix
  exact ⟨hresult, hsteps, hseven, hsix⟩

end Machine
end TileMachine
